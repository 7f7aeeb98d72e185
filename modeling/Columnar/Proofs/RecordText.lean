import Columnar.Json.Codec
import Columnar.Proofs.JsonGrammar
import Columnar.Size
import Mathlib.Data.List.Induction

/-!
# Records as text

What a codec has to do is said member by member.  A record is written as an object of its
fields.  An object is read from its first member to its last, and each member either gives
its field a size, or is passed over, or is refused.  That fields may come in any order, and
among any other members, is a consequence.

## Main definitions

* `Json.named` — members whose names denote texts.
* `Json.Codec.Lawful` — what a codec has to do.
* `Json.valuesOf`, `Json.Gives` — what an object gives to a name.

## Main results

* `Json.Codec.Lawful.gives_of_foldlM` — the invariant of reading an object that gives each
  field at most once.
* `Json.Codec.Lawful.readRecord_of_gives` — **an object that gives each field at most once
  is read as the record it gives.**
* `Json.Codec.Lawful.readRecord_of_repeated` — **an object that repeats a field is
  refused.**
-/

namespace Columnar.Json

/-- Members whose names denote texts. -/
def named (members : List (String × Json)) : List (Option String × Json) :=
  members.map fun member => (some member.1, member.2)

/-- The members a record is written as. -/
def Record.members (record : Record) : List (String × Json) :=
  record.fields.map fun field => (field.1, .number (some field.2))

/-- What a codec has to do to records and names. -/
structure Codec.Lawful (codec : Codec) : Prop where
  /-- A record is written as an object of its fields. -/
  write_record : ∀ record : Record,
    ElementText (.object (named record.members)) (codec.writeRecord record).toList
  /-- An object is read member by member, and the fields that get no size keep the one they
  have. -/
  read_object : ∀ (record : Record) (text : String) (members : List (String × Json)),
    ElementText (.object (named members)) text.toList →
    codec.readRecord record text =
      (members.foldlM (codec.takeMember record.names) .nothing).map (·.fill record)
  /-- A member of any other name is passed over, whatever its value. -/
  take_other : ∀ (names : List String) (given : Given) (name : String) (value : Json),
    name ∉ names → codec.takeMember names given (name, value) = some given
  /-- A plain natural number in range is a size. -/
  take_size : ∀ (names : List String) (given : Given) (name : String) (n : Nat),
    name ∈ names → given name = none → n < Size.limit →
    codec.takeMember names given (name, .number (some n)) = some (given.give name n)
  /-- Any value is a size or is refused. -/
  take_value : ∀ (names : List String) (given taken : Given) (name : String) (value : Json),
    name ∈ names → given name = none →
    codec.takeMember names given (name, value) = some taken → ∃ n, taken = given.give name n
  /-- A field that has got a size takes no other. -/
  take_again : ∀ (names : List String) (given : Given) (name : String) (value : Json),
    name ∈ names → given name ≠ none → codec.takeMember names given (name, value) = none
  /-- A name is written as a string. -/
  write_name : ∀ name : String, (∀ c ∈ name.toList, Plain c) →
    ElementText (.string (some name)) (codec.writeName name).toList
  /-- A string is read as the name it denotes. -/
  read_name : ∀ (names : List String) (text name : String), name ∈ names →
    ElementText (.string (some name)) text.toList → codec.readName names text = some name

/-! ### What an object gives -/

section Gives

variable {members : List (String × Json)} {member : String × Json} {name : String}

/-- The values that members give to a name, in order. -/
def valuesOf (members : List (String × Json)) (name : String) : List Json :=
  (members.filter (·.1 = name)).map Prod.snd

/-- The members leave a name out, or give it once, as a size. -/
inductive Gives (members : List (String × Json)) (name : String) : Option Nat → Prop
  | absent : valuesOf members name = [] → Gives members name none
  | once {n : Nat} : valuesOf members name = [.number (some n)] → n < Size.limit →
      Gives members name (some n)

theorem valuesOf_concat_self (members : List (String × Json)) (member : String × Json) :
    valuesOf (members ++ [member]) member.1 = valuesOf members member.1 ++ [member.2] := by
  simp [valuesOf]

theorem valuesOf_concat_of_ne (h : member.1 ≠ name) (members : List (String × Json)) :
    valuesOf (members ++ [member]) name = valuesOf members name := by
  simp [valuesOf, h]

theorem Gives.nil (name : String) : Gives [] name none := .absent rfl

theorem gives_concat_of_ne {n? : Option Nat} (h : member.1 ≠ name) :
    Gives (members ++ [member]) name n? ↔ Gives members name n? := by
  constructor
  · rintro (hnone | ⟨hone, hn⟩)
    · exact .absent ((valuesOf_concat_of_ne h members).symm.trans hnone)
    · exact .once ((valuesOf_concat_of_ne h members).symm.trans hone) hn
  · rintro (hnone | ⟨hone, hn⟩)
    · exact .absent ((valuesOf_concat_of_ne h members).trans hnone)
    · exact .once ((valuesOf_concat_of_ne h members).trans hone) hn

/-- A name that is given last and only once has not been given before. -/
theorem Gives.of_concat_self {n? : Option Nat} (h : Gives (members ++ [member]) member.1 n?) :
    Gives members member.1 none ∧ ∃ n < Size.limit, member.2 = .number (some n) := by
  obtain hnone | @⟨n, hone, hn⟩ := h
  · rw [valuesOf_concat_self, List.append_eq_nil_iff] at hnone
    exact absurd hnone.2 (List.cons_ne_nil _ _)
  · have hsplit : valuesOf members member.1 ++ [member.2] = [] ++ [.number (some n)] :=
      (valuesOf_concat_self members member).symm.trans hone
    obtain ⟨hbefore, hlast⟩ := List.append_inj' hsplit rfl
    exact ⟨.absent hbefore, n, hn, List.singleton_inj.1 hlast⟩

theorem Gives.concat_self {n : Nat} (h : Gives members member.1 none)
    (hvalue : member.2 = .number (some n)) (hn : n < Size.limit) :
    Gives (members ++ [member]) member.1 (some n) := by
  obtain ⟨hnone⟩ := h
  exact .once (by rw [valuesOf_concat_self, hnone, hvalue, List.nil_append]) hn

/-- What is given at most once is given at most once by all members but the last. -/
theorem Gives.of_concat {n? : Option Nat} (h : Gives (members ++ [member]) name n?) :
    ∃ m?, Gives members name m? := by
  by_cases heq : member.1 = name
  · subst heq
    exact ⟨none, h.of_concat_self.1⟩
  · exact ⟨n?, (gives_concat_of_ne heq).1 h⟩

theorem Gives.unique {n? m? : Option Nat} (hn : Gives members name n?)
    (hm : Gives members name m?) : n? = m? := by
  obtain hn | ⟨hn, _⟩ := hn <;> obtain hm | ⟨hm, _⟩ := hm <;> rw [hn] at hm
  · cases hm
  · cases hm
  · cases hm
    rfl

end Gives

namespace Codec.Lawful

variable {codec : Codec}

/-! ### Reading an object -/

section Objects

variable {names : List String} {members : List (String × Json)}

theorem foldlM_concat (member : String × Json) : (members ++ [member]).foldlM
    (codec.takeMember names) .nothing =
      members.foldlM (codec.takeMember names) .nothing >>= (codec.takeMember names · member) := by
  rw [List.foldlM_append]
  exact bind_congr fun given => bind_pure _

/-- One more member that a name is given by. -/
theorem gives_takeMember (h : codec.Lawful) {given : Given} {member : String × Json}
    (hgives : ∀ name ∈ names, ∃ n?, Gives (members ++ [member]) name n?)
    (hgiven : ∀ name ∈ names, Gives members name (given name)) :
    ∃ taken, codec.takeMember names given member = some taken ∧
      ∀ name ∈ names, Gives (members ++ [member]) name (taken name) := by
  by_cases hmem : member.1 ∈ names
  · obtain ⟨n?, hn?⟩ := hgives member.1 hmem
    obtain ⟨hbefore, n, hn, hvalue⟩ := hn?.of_concat_self
    have hnone : given member.1 = none := (hgiven member.1 hmem).unique hbefore
    have htake := h.take_size names given member.1 n hmem hnone hn
    rw [← hvalue] at htake
    refine ⟨given.give member.1 n, htake, fun name hname => ?_⟩
    by_cases heq : name = member.1
    · subst heq
      rw [Given.give_self]
      exact hbefore.concat_self hvalue hn
    · rw [Given.give_of_ne heq]
      exact (gives_concat_of_ne (Ne.symm heq)).2 (hgiven name hname)
  · refine ⟨given, h.take_other names given member.1 member.2 hmem, fun name hname => ?_⟩
    exact (gives_concat_of_ne fun heq => hmem (heq ▸ hname)).2 (hgiven name hname)

/-- If an object gives each name at most once, then it is read to its end, and what has been
given then is what the object gives. -/
theorem gives_of_foldlM (h : codec.Lawful)
    (hgives : ∀ name ∈ names, ∃ n?, Gives members name n?) :
    ∃ given, members.foldlM (codec.takeMember names) .nothing = some given ∧
      ∀ name ∈ names, Gives members name (given name) := by
  -- the last member goes first, as what has been given says what the ones before it give
  induction members using List.reverseRecOn with
  | nil => exact ⟨.nothing, rfl, fun name _ => .nil name⟩
  | append_singleton members member ih =>
    obtain ⟨given, hfold, hgiven⟩ := ih fun name hname => (hgives name hname).choose_spec.of_concat
    rw [foldlM_concat, hfold]
    exact h.gives_takeMember hgives hgiven

/-- As many values have been given to a name as it has got sizes, which is one at most. -/
theorem length_valuesOf_of_foldlM (h : codec.Lawful) {given : Given}
    (hfold : members.foldlM (codec.takeMember names) .nothing = some given) {name : String}
    (hname : name ∈ names) : (valuesOf members name).length = (given name).toList.length := by
  induction members using List.reverseRecOn generalizing given with
  | nil =>
    cases hfold
    rfl
  | append_singleton members member ih =>
    rw [foldlM_concat, Option.bind_eq_bind, Option.bind_eq_some_iff] at hfold
    obtain ⟨before, hbefore, htake⟩ := hfold
    have hlength := ih hbefore
    by_cases hmem : member.1 ∈ names
    · -- a field takes a value only as its first, and then that is a size
      have hnone : before member.1 = none := by
        by_contra hsome
        have hagain := h.take_again names before member.1 member.2 hmem hsome
        rw [htake] at hagain
        cases hagain
      obtain ⟨n, rfl⟩ := h.take_value names before given member.1 member.2 hmem hnone htake
      by_cases heq : name = member.1
      · subst heq
        rw [Given.give_self, valuesOf_concat_self, List.length_append, hlength, hnone]
        rfl
      · rw [Given.give_of_ne heq, valuesOf_concat_of_ne (Ne.symm heq), hlength]
    · have hpass := h.take_other names before member.1 member.2 hmem
      rw [htake] at hpass
      cases hpass
      rw [valuesOf_concat_of_ne (fun heq => hmem (heq ▸ hname)), hlength]

end Objects

/-! ### Records -/

section Records

variable {record : Record} {members : List (String × Json)} {text : String}

/-- **An object that gives each field at most once is read as the record it gives.** -/
theorem readRecord_of_gives (h : codec.Lawful) {given : Given}
    (htext : ElementText (.object (named members)) text.toList)
    (hgives : ∀ name ∈ record.names, Gives members name (given name)) :
    codec.readRecord record text = some (given.fill record) := by
  obtain ⟨read, hfold, hread⟩ := h.gives_of_foldlM fun name hname => ⟨_, hgives name hname⟩
  have hfill : read.fill record = given.fill record := List.map_congr_left fun field hfield => by
    have hname : field.1 ∈ record.names := List.mem_map_of_mem hfield
    rw [(hread field.1 hname).unique (hgives field.1 hname)]
  rw [h.read_object record text members htext, hfold, Option.map_some, hfill]

/-- **An object that repeats a field is refused**, whatever the values are. -/
theorem readRecord_of_repeated (h : codec.Lawful) {name : String}
    (htext : ElementText (.object (named members)) text.toList) (hname : name ∈ record.names)
    (hrepeated : 2 ≤ (valuesOf members name).length) : codec.readRecord record text = none := by
  rw [h.read_object record text members htext, Option.map_eq_none_iff,
    Option.eq_none_iff_forall_ne_some]
  intro given hfold
  have hlength := h.length_valuesOf_of_foldlM hfold hname
  have hone : (given name).toList.length ≤ 1 := Option.length_toList_le
  omega

end Records

end Codec.Lawful

end Columnar.Json
