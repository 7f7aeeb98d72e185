import Columnar.Proofs.JsonTokens

/-!
# The grammar of JSON

A text is JSON if it is one value with blanks around it, where values are given by the
usual grammar.  The reader goes by the first character of a value, and never has to take
back what it read.

## Main definitions

* `Json.ValueText`, `Json.ElementText` — what is written for a tree, without and with
  blanks around it.

## Main results

* `Json.readValue_of_text` — **what is written for a tree is read as that tree**, with as
  many calls as twice its length.
* `Json.readsText` — **whatever is read is written for what it is read as.**
* `Json.parse?_eq_some_iff` — **a text is read as a tree just if it is written for it.**
-/

namespace Columnar.Json

/-! ### Trees as they are written -/

/-- Blanks only. -/
def Blanks (cs : List Char) : Prop := ∀ c ∈ cs, c ∈ [' ', '\t', '\n', '\r']

mutual

/-- What is written for a tree, from its first character to its last. -/
inductive ValueText : Json → List Char → Prop
  | null : ValueText .null ['n', 'u', 'l', 'l']
  | true : ValueText (.boolean true) ['t', 'r', 'u', 'e']
  | false : ValueText (.boolean false) ['f', 'a', 'l', 's', 'e']
  | number {natural? : Option Nat} {cs : List Char} : NumberText natural? cs →
      ValueText (.number natural?) cs
  | string {text? : Option String} {cs : List Char} : QuotedText text? cs →
      ValueText (.string text?) cs
  | emptyArray {blanks : List Char} : Blanks blanks →
      ValueText (.array []) ('[' :: (blanks ++ [']']))
  | array {items : List Json} {cs : List Char} : ElementsText items cs →
      ValueText (.array items) ('[' :: (cs ++ [']']))
  | emptyObject {blanks : List Char} : Blanks blanks →
      ValueText (.object []) ('\x7b' :: (blanks ++ ['\x7d']))
  | object {members : List (Option String × Json)} {cs : List Char} : MembersText members cs →
      ValueText (.object members) ('\x7b' :: (cs ++ ['\x7d']))

/-- What is written for a tree, with blanks around it. -/
inductive ElementText : Json → List Char → Prop
  | mk {value : Json} {before cs after : List Char} : Blanks before → ValueText value cs →
      Blanks after → ElementText value (before ++ (cs ++ after))

/-- One or more items, with commas between them. -/
inductive ElementsText : List Json → List Char → Prop
  | one {item : Json} {cs : List Char} : ElementText item cs → ElementsText [item] cs
  | more {item : Json} {items : List Json} {cs ds : List Char} : ElementText item cs →
      ElementsText items ds → ElementsText (item :: items) (cs ++ ',' :: ds)

/-- A name with blanks around it, a colon and a value. -/
inductive MemberText : Option String × Json → List Char → Prop
  | mk {name? : Option String} {value : Json} {before name after cs : List Char} :
      Blanks before → QuotedText name? name → Blanks after → ElementText value cs →
      MemberText (name?, value) (before ++ (name ++ (after ++ ':' :: cs)))

/-- One or more members, with commas between them. -/
inductive MembersText : List (Option String × Json) → List Char → Prop
  | one {member : Option String × Json} {cs : List Char} : MemberText member cs →
      MembersText [member] cs
  | more {member : Option String × Json} {members : List (Option String × Json)}
      {cs ds : List Char} : MemberText member cs → MembersText members ds →
      MembersText (member :: members) (cs ++ ',' :: ds)

end

/-! ### Blanks and punctuation -/

section Blanks

variable {mark c : Char} {blanks cs rest : List Char}

theorem isBlank_iff : isBlank c = true ↔ c ∈ [' ', '\t', '\n', '\r'] := by
  simp only [isBlank, Bool.or_eq_true, beq_iff_eq, or_assoc, List.mem_cons, List.not_mem_nil,
    or_false]

theorem skipBlanks_append (hblanks : Blanks blanks) (hrest : StopsAt isBlank rest) :
    skipBlanks (blanks ++ rest) = rest :=
  (takeWhile_run (fun c hc => isBlank_iff.2 (hblanks c hc)) hrest).2

theorem exists_blanks (cs : List Char) : ∃ blanks, Blanks blanks ∧ cs = blanks ++ skipBlanks cs :=
  ⟨cs.takeWhile isBlank, fun c hc => isBlank_iff.1 (List.all_eq_true.1 List.all_takeWhile c hc),
    List.takeWhile_append_dropWhile.symm⟩

theorem expect_append (hblanks : Blanks blanks) (hc : isBlank c = false) :
    expect mark (blanks ++ c :: rest) = if c = mark then some rest else none := by
  rw [expect, skipBlanks_append hblanks (stopsAt_cons hc)]

theorem blanks_of_expect (h : expect mark cs = some rest) :
    ∃ blanks, Blanks blanks ∧ cs = blanks ++ mark :: rest := by
  unfold expect at h
  split at h
  · next c more hskip =>
    split at h
    · next hc =>
      cases h
      obtain ⟨blanks, hblanks, hcs⟩ := exists_blanks cs
      rw [hskip, hc] at hcs
      exact ⟨blanks, hblanks, hcs⟩
    · cases h
  · cases h

/-- No number goes on after blanks. -/
theorem numberEnds_append (hblanks : Blanks blanks) (hrest : NumberEnds rest) :
    NumberEnds (blanks ++ rest) := by
  cases blanks with
  | nil => exact hrest
  | cons c more =>
    have hc := hblanks c List.mem_cons_self
    simp only [List.mem_cons, List.not_mem_nil, or_false] at hc
    constructor
    · rcases hc with rfl | rfl | rfl | rfl <;> exact stopsAt_cons (by decide)
    · rintro _ ⟨⟩
      rcases hc with rfl | rfl | rfl | rfl <;> decide

/-- No number goes on after a mark that is neither a digit nor a mark of a number. -/
theorem numberEnds_cons (hdigit : c.isDigit = false) (hmark : c ≠ '.' ∧ c ≠ 'e' ∧ c ≠ 'E') :
    NumberEnds (c :: rest) :=
  ⟨stopsAt_cons hdigit, by rintro _ ⟨⟩; exact hmark⟩

end Blanks

/-! ### First characters -/

/-- A number begins with a digit or a minus sign. -/
theorem head_of_numberText {natural? : Option Nat} {cs : List Char} (h : NumberText natural? cs) :
    ∃ c more, cs = c :: more ∧ (c.isDigit = true ∨ c = '-') := by
  obtain @⟨negative, whole, _, _, fraction, exponent, _, _⟩ := h
  cases negative with
  | true => exact ⟨'-', _, rfl, Or.inr rfl⟩
  | false =>
    obtain ⟨c, more, hcs, hc⟩ := Numeral.exists_of_digits (Numeral.digits_decimal whole)
    exact ⟨c, more ++ (fraction ++ exponent), by rw [hcs]; rfl, Or.inl hc⟩

/-- A value begins with neither a blank nor the end of an array. -/
theorem head_of_valueText {value : Json} {cs : List Char} (h : ValueText value cs) :
    ∃ c more, cs = c :: more ∧ isBlank c = false ∧ c ≠ ']' := by
  cases h with
  | null | true | false | emptyArray | array | emptyObject | object =>
    exact ⟨_, _, rfl, by decide, by decide⟩
  | string hstring =>
    cases hstring
    exact ⟨_, _, rfl, by decide, by decide⟩
  | number hnumber =>
    obtain ⟨c, more, rfl, hc⟩ := head_of_numberText hnumber
    refine ⟨c, more, rfl, Bool.eq_false_iff.2 fun hblank => ?_, ?_⟩
    · rw [isBlank_iff] at hblank
      simp only [List.mem_cons, List.not_mem_nil, or_false] at hblank
      rcases hblank with rfl | rfl | rfl | rfl <;> exact absurd hc (by decide)
    · rintro rfl
      exact absurd hc (by decide)

variable {cs more rest : List Char} {fuel : Nat}

/-- Only a number begins with a digit or a minus sign. -/
theorem readValue_of_head {c : Char} (hcs : skipBlanks cs = c :: more)
    (hc : c.isDigit = true ∨ c = '-') : readValue (fuel + 1) cs = (do
      let (numeral, rest) ← Numeral.read (c :: more)
      return (number numeral.natural?, rest)) := by
  rw [readValue, hcs]
  split
  case h_7 => rfl
  all_goals
    next heq =>
      cases heq
      exact absurd hc (by decide)

/-! The reader chooses by the first character, so each kind of value has its equation. -/

theorem readValue_of_bracket (hcs : skipBlanks cs = '[' :: more) : readValue (fuel + 1) cs =
    match expect ']' more with
    | some rest => some (array [], rest)
    | none => do
      let (items, rest) ← readItems fuel more
      return (array items, rest) := by
  rw [readValue, hcs]
  rfl

theorem readValue_of_brace (hcs : skipBlanks cs = '\x7b' :: more) : readValue (fuel + 1) cs =
    match expect '\x7d' more with
    | some rest => some (object [], rest)
    | none => do
      let (members, rest) ← readMembers fuel more
      return (object members, rest) := by
  rw [readValue, hcs]
  rfl

theorem readValue_of_quote (hcs : skipBlanks cs = '"' :: more) : readValue (fuel + 1) cs = (do
    let (text?, rest) ← readString ('"' :: more)
    return (string text?, rest)) := by
  rw [readValue, hcs]
  rfl

/-! ### Lists of items -/

/-- How a list with a closing mark goes on after an item: it ends, or further items follow
a comma. -/
inductive GoesOn {α : Type} (close : Char) (readMore : List Char → Option (List α × List Char))
    (cs : List Char) : List α → List Char → Prop
  | last {rest : List Char} : expect close cs = some rest → GoesOn close readMore cs [] rest
  | more {items : List α} {afterComma rest : List Char} : expect close cs = none →
      expect ',' cs = some afterComma → readMore afterComma = some (items, rest) →
      GoesOn close readMore cs items rest

theorem goesOn_iff {α : Type} {close : Char} {item : α} {items : List α}
    {readMore : List Char → Option (List α × List Char)} :
    (match expect close cs with
      | some rest => some ([item], rest)
      | none => do
        let (items, rest) ← readMore (← expect ',' cs)
        return (item :: items, rest)) = some (items, rest) ↔
    ∃ more, items = item :: more ∧ GoesOn close readMore cs more rest := by
  constructor
  · intro h
    split at h
    · next hclose =>
      cases h
      exact ⟨[], rfl, .last hclose⟩
    · next hclose =>
      simp only [Option.bind_eq_bind, Option.bind_eq_some_iff, Prod.exists] at h
      obtain ⟨afterComma, hcomma, more, rest, hmore, h⟩ := h
      cases h
      exact ⟨more, rfl, .more hclose hcomma hmore⟩
  · rintro ⟨more, rfl, hclose | ⟨hclose, hcomma, hmore⟩⟩
    · rw [hclose]
    · simp only [hclose, hcomma, hmore, Option.bind_eq_bind, Option.bind_some, Option.pure_def]

theorem readItems_succ_iff {items : List Json} : readItems (fuel + 1) cs = some (items, rest) ↔
    ∃ item after more, readValue fuel cs = some (item, after) ∧ items = item :: more ∧
      GoesOn ']' (readItems fuel) after more rest := by
  rw [readItems]
  simp only [Option.bind_eq_bind, Option.bind_eq_some_iff, Prod.exists]
  refine exists_congr fun item => exists_congr fun after => ?_
  rw [exists_and_left]
  exact and_congr_right fun _ => goesOn_iff

/-- A member at the front: a name, a colon and a value. -/
def ReadsMember (fuel : Nat) (cs : List Char) (member : Option String × Json)
    (rest : List Char) : Prop :=
  ∃ afterName afterColon, readString (skipBlanks cs) = some (member.1, afterName) ∧
    expect ':' afterName = some afterColon ∧ readValue fuel afterColon = some (member.2, rest)

theorem readMembers_succ_iff {members : List (Option String × Json)} :
    readMembers (fuel + 1) cs = some (members, rest) ↔
    ∃ member after more, ReadsMember fuel cs member after ∧ members = member :: more ∧
      GoesOn '\x7d' (readMembers fuel) after more rest := by
  rw [readMembers]
  simp only [Option.bind_eq_bind, Option.bind_eq_some_iff, Prod.exists]
  constructor
  · rintro ⟨name?, afterName, hname, afterColon, hcolon, value, after, hvalue, h⟩
    obtain ⟨more, hmembers, hmore⟩ := goesOn_iff.1 h
    exact ⟨name?, value, after, more, ⟨afterName, afterColon, hname, hcolon, hvalue⟩, hmembers,
      hmore⟩
  · rintro ⟨name?, value, after, more, ⟨afterName, afterColon, hname, hcolon, hvalue⟩, hmembers,
      hmore⟩
    exact ⟨name?, afterName, hname, afterColon, hcolon, value, after, hvalue,
      goesOn_iff.2 ⟨more, hmembers, hmore⟩⟩

section GoesOn

variable {α : Type} {close : Char} {readMore : List Char → Option (List α × List Char)}
  {blanks : List Char} {items : List α}

theorem goesOn_last (hblanks : Blanks blanks) (hclose : isBlank close = false) :
    GoesOn close readMore (blanks ++ close :: rest) [] rest :=
  .last (by rw [expect_append hblanks hclose, if_pos rfl])

theorem goesOn_more (hblanks : Blanks blanks) (hclose : ',' ≠ close)
    (h : readMore cs = some (items, rest)) :
    GoesOn close readMore (blanks ++ ',' :: cs) items rest := by
  refine .more ?_ ?_ h
  · rw [expect_append hblanks (by decide), if_neg hclose]
  · rw [expect_append hblanks (by decide), if_pos rfl]

end GoesOn

/-- No array ends before an item that it has. -/
theorem expect_of_elementText {item : Json} (h : ElementText item cs) :
    expect ']' (cs ++ rest) = none := by
  obtain ⟨hbefore, hvalue, -⟩ := h
  obtain ⟨c, more, rfl, hblank, hc⟩ := head_of_valueText hvalue
  rw [List.append_assoc, List.cons_append, List.cons_append, expect_append hbefore hblank,
    if_neg hc]

theorem expect_of_elementsText {items : List Json} (h : ElementsText items cs) :
    expect ']' (cs ++ rest) = none := by
  cases h with
  | one hitem => exact expect_of_elementText hitem
  | more hitem _ => rw [List.append_assoc]; exact expect_of_elementText hitem

/-- No object ends before a member that it has. -/
theorem expect_of_memberText {member : Option String × Json} (h : MemberText member cs) :
    expect '\x7d' (cs ++ rest) = none := by
  obtain ⟨hbefore, ⟨-⟩, -, -⟩ := h
  rw [List.append_assoc, List.append_assoc, List.cons_append, expect_append hbefore (by decide),
    if_neg (by decide)]

theorem expect_of_membersText {members : List (Option String × Json)}
    (h : MembersText members cs) : expect '\x7d' (cs ++ rest) = none := by
  cases h with
  | one hmember => exact expect_of_memberText hmember
  | more hmember _ => rw [List.append_assoc]; exact expect_of_memberText hmember

/-! ### What is written is read -/

theorem length_pos_of_elementText {value : Json} (h : ElementText value cs) : 0 < cs.length := by
  obtain ⟨-, hvalue, -⟩ := h
  obtain ⟨c, more, rfl, -, -⟩ := head_of_valueText hvalue
  rw [List.length_append, List.length_append, List.length_cons]
  omega

theorem length_pos_of_memberText {member : Option String × Json} (h : MemberText member cs) :
    0 < cs.length := by
  obtain ⟨-, -, -, hvalue⟩ := h
  simp only [List.length_append, List.length_cons]
  omega

/-! The recursion is on how the text is made up.  An item costs two calls, one for the list
and one for the value, and brings at least one character besides those of the value: a
comma, or the bracket of its list. -/

mutual

/-- **What is written for a tree is read as that tree**, if what follows does not go on
with a number. -/
theorem readValue_of_text {value : Json} {cs : List Char} (h : ValueText value cs) :
    ∀ {fuel : Nat} {before rest : List Char}, Blanks before → NumberEnds rest →
      2 * cs.length ≤ fuel + 1 → readValue fuel (before ++ (cs ++ rest)) = some (value, rest) := by
  intro fuel before rest hbefore hrest hfuel
  obtain ⟨c, more, hcs, hblank, -⟩ := head_of_valueText h
  obtain ⟨fuel, rfl⟩ : ∃ n, fuel = n + 1 :=
    Nat.exists_eq_succ_of_ne_zero (by rw [hcs, List.length_cons] at hfuel; omega)
  have hskip : skipBlanks (before ++ (cs ++ rest)) = cs ++ rest :=
    skipBlanks_append hbefore (hcs ▸ stopsAt_cons hblank)
  -- The first character selects the reader, and a list costs a call more than what is in
  -- it.
  match h with
  | .null => rw [readValue, hskip]; rfl
  | .true => rw [readValue, hskip]; rfl
  | .false => rw [readValue, hskip]; rfl
  | .number hnumber =>
    obtain ⟨c, more, hcs, hc⟩ := head_of_numberText hnumber
    obtain ⟨numeral, hread, rfl⟩ := Numeral.read_of_text hnumber hrest
    rw [hcs, List.cons_append] at hskip hread
    rw [hcs, List.cons_append, readValue_of_head hskip hc, hread]
    rfl
  | @ValueText.string text? cs hstring =>
    have hread : readString (cs ++ rest) = some (text?, rest) :=
      readString_eq_some_iff.2 ⟨cs, hstring, rfl⟩
    obtain ⟨body⟩ := hstring
    rw [List.cons_append] at hskip hread ⊢
    rw [readValue_of_quote hskip, hread]
    rfl
  | .emptyArray hblanks =>
    rw [enclosed_append] at hskip ⊢
    rw [readValue_of_bracket hskip, expect_append hblanks (by decide), if_pos rfl]
  | .array hitems =>
    rw [List.length_cons, List.length_append] at hfuel
    rw [enclosed_append] at hskip ⊢
    rw [readValue_of_bracket hskip, expect_of_elementsText hitems,
      readItems_of_text hitems (by omega)]
    rfl
  | .emptyObject hblanks =>
    rw [enclosed_append] at hskip ⊢
    rw [readValue_of_brace hskip, expect_append hblanks (by decide), if_pos rfl]
  | .object hmembers =>
    rw [List.length_cons, List.length_append] at hfuel
    rw [enclosed_append] at hskip ⊢
    rw [readValue_of_brace hskip, expect_of_membersText hmembers,
      readMembers_of_text hmembers (by omega)]
    rfl

/-- The blanks after a value are left over. -/
theorem readValue_of_elementText {value : Json} {cs : List Char} (h : ElementText value cs) :
    ∀ {fuel : Nat} {rest : List Char}, NumberEnds rest → 2 * cs.length ≤ fuel + 1 →
      ∃ after, Blanks after ∧ readValue fuel (cs ++ rest) = some (value, after ++ rest) := by
  intro fuel rest hrest hfuel
  match h with
  | @ElementText.mk _ before cs after hbefore hvalue hafter =>
    refine ⟨after, hafter, ?_⟩
    rw [List.length_append, List.length_append] at hfuel
    rw [List.append_assoc, List.append_assoc]
    exact readValue_of_text hvalue hbefore (numberEnds_append hafter hrest) (by omega)

theorem readItems_of_text {items : List Json} {cs : List Char} (h : ElementsText items cs) :
    ∀ {fuel : Nat} {rest : List Char}, 2 * cs.length ≤ fuel →
      readItems fuel (cs ++ ']' :: rest) = some (items, rest) := by
  intro fuel rest hfuel
  match h with
  | .one hitem =>
    have hpos := length_pos_of_elementText hitem
    obtain ⟨fuel, rfl⟩ : ∃ n, fuel = n + 1 := Nat.exists_eq_succ_of_ne_zero (by omega)
    have hends : NumberEnds (']' :: rest) := numberEnds_cons (by decide) (by decide)
    obtain ⟨after, hafter, hread⟩ := readValue_of_elementText hitem hends (by omega)
    exact readItems_succ_iff.2 ⟨_, _, _, hread, rfl, goesOn_last hafter (by decide)⟩
  | @ElementsText.more item items cs ds hitem hitems =>
    rw [List.length_append, List.length_cons] at hfuel
    obtain ⟨fuel, rfl⟩ : ∃ n, fuel = n + 1 := Nat.exists_eq_succ_of_ne_zero (by omega)
    have hends : NumberEnds (',' :: (ds ++ ']' :: rest)) :=
      numberEnds_cons (by decide) (by decide)
    obtain ⟨after, hafter, hread⟩ := readValue_of_elementText hitem hends
      (show 2 * cs.length ≤ fuel + 1 by omega)
    have hmore : readItems fuel (ds ++ ']' :: rest) = some (items, rest) :=
      readItems_of_text hitems (by omega)
    rw [List.append_assoc, List.cons_append]
    exact readItems_succ_iff.2 ⟨_, _, _, hread, rfl, goesOn_more hafter (by decide) hmore⟩

theorem readsMember_of_text {member : Option String × Json} {cs : List Char}
    (h : MemberText member cs) :
    ∀ {fuel : Nat} {rest : List Char}, NumberEnds rest → 2 * cs.length ≤ fuel + 1 →
      ∃ after, Blanks after ∧ ReadsMember fuel (cs ++ rest) member (after ++ rest) := by
  intro fuel rest hrest hfuel
  match h with
  | @MemberText.mk name? value before name blanks cs hbefore hname hblanks hvalue =>
    simp only [List.length_append, List.length_cons] at hfuel
    obtain ⟨after, hafter, hread⟩ := readValue_of_elementText hvalue hrest
      (show 2 * cs.length ≤ fuel + 1 by omega)
    refine ⟨after, hafter, blanks ++ ':' :: (cs ++ rest), cs ++ rest, ?_, ?_, hread⟩
    · have hstop : StopsAt isBlank (name ++ (blanks ++ ':' :: (cs ++ rest))) := by
        obtain ⟨body⟩ := hname
        exact stopsAt_cons (by decide)
      simp only [List.append_assoc, List.cons_append]
      rw [skipBlanks_append hbefore hstop]
      exact readString_eq_some_iff.2 ⟨name, hname, rfl⟩
    · rw [expect_append hblanks (by decide), if_pos rfl]

theorem readMembers_of_text {members : List (Option String × Json)} {cs : List Char}
    (h : MembersText members cs) :
    ∀ {fuel : Nat} {rest : List Char}, 2 * cs.length ≤ fuel →
      readMembers fuel (cs ++ '\x7d' :: rest) = some (members, rest) := by
  intro fuel rest hfuel
  match h with
  | .one hmember =>
    have hpos := length_pos_of_memberText hmember
    obtain ⟨fuel, rfl⟩ : ∃ n, fuel = n + 1 := Nat.exists_eq_succ_of_ne_zero (by omega)
    have hends : NumberEnds ('\x7d' :: rest) := numberEnds_cons (by decide) (by decide)
    obtain ⟨after, hafter, hread⟩ := readsMember_of_text hmember hends (by omega)
    exact readMembers_succ_iff.2 ⟨_, _, _, hread, rfl, goesOn_last hafter (by decide)⟩
  | @MembersText.more member members cs ds hmember hmembers =>
    rw [List.length_append, List.length_cons] at hfuel
    obtain ⟨fuel, rfl⟩ : ∃ n, fuel = n + 1 := Nat.exists_eq_succ_of_ne_zero (by omega)
    have hends : NumberEnds (',' :: (ds ++ '\x7d' :: rest)) :=
      numberEnds_cons (by decide) (by decide)
    obtain ⟨after, hafter, hread⟩ := readsMember_of_text hmember hends
      (show 2 * cs.length ≤ fuel + 1 by omega)
    have hmore : readMembers fuel (ds ++ '\x7d' :: rest) = some (members, rest) :=
      readMembers_of_text hmembers (by omega)
    rw [List.append_assoc, List.cons_append]
    exact readMembers_succ_iff.2 ⟨_, _, _, hread, rfl, goesOn_more hafter (by decide) hmore⟩

end

/-! ### What is read is written -/

/-- What the calls with so much fuel read is written for what it is read as. -/
structure ReadsText (fuel : Nat) : Prop where
  value : ∀ {value : Json} {cs rest : List Char}, readValue fuel cs = some (value, rest) →
    ∃ before text, Blanks before ∧ ValueText value text ∧ cs = before ++ (text ++ rest)
  items : ∀ {items : List Json} {cs rest : List Char},
    readItems fuel cs = some (items, rest) →
    ∃ text, ElementsText items text ∧ cs = text ++ ']' :: rest
  members : ∀ {members : List (Option String × Json)} {cs rest : List Char},
    readMembers fuel cs = some (members, rest) →
    ∃ text, MembersText members text ∧ cs = text ++ '\x7d' :: rest

theorem ReadsText.zero : ReadsText 0 := ⟨nofun, nofun, nofun⟩

/-- What goes on after an item, with the blanks that are left over from the item. -/
theorem text_of_goesOn {α : Type} {close : Char}
    {readMore : List Char → Option (List α × List Char)} {items : List α}
    (h : GoesOn close readMore cs items rest) : ∃ blanks, Blanks blanks ∧
      (items = [] ∧ cs = blanks ++ close :: rest ∨
        ∃ more, readMore more = some (items, rest) ∧ cs = blanks ++ ',' :: more) := by
  obtain hclose | ⟨-, hcomma, hmore⟩ := h
  · obtain ⟨blanks, hblanks, hcs⟩ := blanks_of_expect hclose
    exact ⟨blanks, hblanks, .inl ⟨rfl, hcs⟩⟩
  · obtain ⟨blanks, hblanks, hcs⟩ := blanks_of_expect hcomma
    exact ⟨blanks, hblanks, .inr ⟨_, hmore, hcs⟩⟩

theorem ReadsText.items_succ (ih : ReadsText fuel) {items : List Json}
    (h : readItems (fuel + 1) cs = some (items, rest)) :
    ∃ text, ElementsText items text ∧ cs = text ++ ']' :: rest := by
  obtain ⟨item, after, more, hitem, rfl, hmore⟩ := readItems_succ_iff.1 h
  obtain ⟨before, text, hbefore, htext, rfl⟩ := ih.value hitem
  obtain ⟨blanks, hblanks, ⟨rfl, rfl⟩ | ⟨more, hread, rfl⟩⟩ := text_of_goesOn hmore
  · exact ⟨_, .one (.mk hbefore htext hblanks), by simp only [List.append_assoc]⟩
  · obtain ⟨texts, htexts, rfl⟩ := ih.items hread
    exact ⟨_, .more (.mk hbefore htext hblanks) htexts,
      by simp only [List.append_assoc, List.cons_append]⟩

theorem ReadsText.members_succ (ih : ReadsText fuel) {members : List (Option String × Json)}
    (h : readMembers (fuel + 1) cs = some (members, rest)) :
    ∃ text, MembersText members text ∧ cs = text ++ '\x7d' :: rest := by
  obtain ⟨⟨name?, value⟩, after, more, hmember, rfl, hmore⟩ := readMembers_succ_iff.1 h
  obtain ⟨afterName, afterColon, hname, hcolon, hvalue⟩ := hmember
  -- The blanks before the name are not part of what the name is read from.
  obtain ⟨start, hstart, hcs⟩ := exists_blanks cs
  obtain ⟨name, hnameText, hskip⟩ := readString_eq_some_iff.1 hname
  obtain ⟨middle, hmiddle, rfl⟩ := blanks_of_expect hcolon
  obtain ⟨before, text, hbefore, htext, rfl⟩ := ih.value hvalue
  rw [hskip] at hcs
  obtain ⟨blanks, hblanks, ⟨rfl, rfl⟩ | ⟨more, hread, rfl⟩⟩ := text_of_goesOn hmore
  · exact ⟨_, .one (.mk hstart hnameText hmiddle (.mk hbefore htext hblanks)),
      by simpa only [List.append_assoc, List.cons_append] using hcs⟩
  · obtain ⟨texts, htexts, rfl⟩ := ih.members hread
    exact ⟨_, .more (.mk hstart hnameText hmiddle (.mk hbefore htext hblanks)) htexts,
      by simpa only [List.append_assoc, List.cons_append] using hcs⟩

theorem ReadsText.value_succ (ih : ReadsText fuel) {value : Json}
    (h : readValue (fuel + 1) cs = some (value, rest)) :
    ∃ before text, Blanks before ∧ ValueText value text ∧ cs = before ++ (text ++ rest) := by
  obtain ⟨before, hbefore, hcs⟩ := exists_blanks cs
  suffices htext : ∃ text, ValueText value text ∧ skipBlanks cs = text ++ rest by
    obtain ⟨text, htext, hskip⟩ := htext
    exact ⟨before, text, hbefore, htext, hskip ▸ hcs⟩
  -- There is a branch of the reader for every constructor of the grammar.
  rw [readValue] at h
  split at h
  · next hskip =>
    split at h
    · next hclose =>
      cases h
      obtain ⟨blanks, hblanks, rfl⟩ := blanks_of_expect hclose
      exact ⟨_, .emptyObject hblanks, hskip.trans (enclosed_append ..).symm⟩
    · simp only [Option.bind_eq_bind, Option.bind_eq_some_iff, Prod.exists] at h
      obtain ⟨members, rest, hread, h⟩ := h
      cases h
      obtain ⟨text, htext, rfl⟩ := ih.members hread
      exact ⟨_, .object htext, hskip.trans (enclosed_append ..).symm⟩
  · next hskip =>
    split at h
    · next hclose =>
      cases h
      obtain ⟨blanks, hblanks, rfl⟩ := blanks_of_expect hclose
      exact ⟨_, .emptyArray hblanks, hskip.trans (enclosed_append ..).symm⟩
    · simp only [Option.bind_eq_bind, Option.bind_eq_some_iff, Prod.exists] at h
      obtain ⟨items, rest, hread, h⟩ := h
      cases h
      obtain ⟨text, htext, rfl⟩ := ih.items hread
      exact ⟨_, .array htext, hskip.trans (enclosed_append ..).symm⟩
  · next hskip =>
    simp only [Option.bind_eq_bind, Option.bind_eq_some_iff, Prod.exists] at h
    obtain ⟨text?, rest, hread, h⟩ := h
    cases h
    obtain ⟨text, htext, hquoted⟩ := readString_eq_some_iff.1 hread
    exact ⟨text, .string htext, hskip.trans hquoted⟩
  · next hskip => cases h; exact ⟨_, .null, hskip⟩
  · next hskip => cases h; exact ⟨_, .true, hskip⟩
  · next hskip => cases h; exact ⟨_, .false, hskip⟩
  · simp only [Option.bind_eq_bind, Option.bind_eq_some_iff, Prod.exists] at h
    obtain ⟨numeral, rest, hread, h⟩ := h
    cases h
    obtain ⟨text, htext, hskip⟩ := Numeral.text_of_read hread
    exact ⟨text, .number htext, hskip⟩

/-- **Whatever is read is written for what it is read as.** -/
theorem readsText : ∀ fuel, ReadsText fuel
  | 0 => .zero
  | fuel + 1 => ⟨(readsText fuel).value_succ, (readsText fuel).items_succ,
      (readsText fuel).members_succ⟩

/-- **A text is read as a tree just if it is written for it.** -/
theorem parse?_eq_some_iff {text : String} {value : Json} :
    parse? text = some value ↔ ElementText value text.toList := by
  simp only [parse?, Option.bind_eq_bind, Option.bind_eq_some_iff, Prod.exists,
    Option.guard_eq_some', List.isEmpty_iff]
  constructor
  · rintro ⟨value, after, hread, -, hafter, h⟩
    cases h
    obtain ⟨before, cs, hbefore, hcs, htext⟩ := (readsText _).value hread
    obtain ⟨blanks, hblanks, hafterEq⟩ := exists_blanks after
    rw [hafter, List.append_nil] at hafterEq
    rw [htext]
    exact .mk hbefore hcs (hafterEq ▸ hblanks)
  · intro h
    -- Nothing follows that a number could go on with.
    have hends : NumberEnds [] := ⟨nofun, nofun⟩
    obtain ⟨after, hafter, hread⟩ := readValue_of_elementText h hends
      (show 2 * text.toList.length ≤ 2 * text.toList.length + 2 + 1 by omega)
    rw [List.append_nil, List.append_nil] at hread
    refine ⟨value, after, hread, (), ?_, rfl⟩
    have hskip := skipBlanks_append hafter (show StopsAt isBlank [] from nofun)
    rwa [List.append_nil] at hskip


end Columnar.Json
