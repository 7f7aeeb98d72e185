import Columnar.Json.Reader
import Mathlib.Data.Option.Basic

/-!
# Numbers and strings of JSON

The tokens of a JSON text as its grammar has them, and what the reader makes of them.  A
number is read as far as it goes, so that what follows it must not go on with it.  A
string ends at the first quote that is not escaped, whatever follows.

## Main definitions

* `Json.decimal` — a natural number as it is written.
* `Json.NumberText` — the numbers, each with its value if it is a plain natural number.
* `Json.StringText` — what stands between the quotes of a string.

## Main results

* `Json.Numeral.read_of_text`, `Json.Numeral.text_of_read` — **numbers are read as
  written**, and nothing else is read as a number.
* `Json.StringItem.readAll_eq_some_iff` — **what is read as a string.**
-/

namespace Columnar.Json

/-! ### Runs of characters -/

section Runs

variable {p : Char → Bool} {run rest cs : List Char}

/-- The text does not begin with a character of the kind. -/
def StopsAt (p : Char → Bool) (cs : List Char) : Prop := ∀ c ∈ cs.head?, p c = false

theorem stopsAt_cons {c : Char} (h : p c = false) : StopsAt p (c :: cs) := by
  rintro _ ⟨⟩
  exact h

/-- A run of characters of one kind is all that is taken if the rest stops there. -/
theorem takeWhile_run (hrun : ∀ c ∈ run, p c = true) (hrest : StopsAt p rest) :
    (run ++ rest).takeWhile p = run ∧ (run ++ rest).dropWhile p = rest := by
  rw [List.takeWhile_append_of_pos hrun, List.dropWhile_append_of_pos hrun]
  cases rest with
  | nil => exact ⟨List.append_nil run, rfl⟩
  | cons c rest =>
    have hc : ¬ p c = true := by rw [hrest c rfl]; exact Bool.false_ne_true
    rw [List.takeWhile_cons_of_neg hc, List.dropWhile_cons_of_neg hc, List.append_nil]
    exact ⟨rfl, rfl⟩

/-- What follows the closing mark of an enclosed text. -/
theorem enclosed_append (opening closing : Char) (text rest : List Char) :
    opening :: (text ++ [closing]) ++ rest = opening :: (text ++ closing :: rest) := by
  rw [List.cons_append, List.append_assoc, List.singleton_append]

theorem stopsAt_dropWhile (p : Char → Bool) (cs : List Char) : StopsAt p (cs.dropWhile p) := by
  intro c hc
  have hhead := List.head?_dropWhile_not p cs
  rwa [show (cs.dropWhile p).head? = some c from hc] at hhead

end Runs

/-! ### Numbers as they are written -/

/-- One or more decimal digits. -/
def Digits (cs : List Char) : Prop := cs ≠ [] ∧ ∀ c ∈ cs, c.isDigit = true

/-- A natural number as it is written. -/
def decimal (n : Nat) : List Char := (toString n).toList

/-- A minus sign, or none. -/
def signText (negative : Bool) : List Char := if negative then ['-'] else []

/-- A fraction, or none. -/
inductive FractionText : Bool → List Char → Prop
  | none : FractionText false []
  | digits {ds : List Char} : Digits ds → FractionText true ('.' :: ds)

/-- An exponent, or none. -/
inductive ExponentText : Bool → List Char → Prop
  | none : ExponentText false []
  | digits {e : Char} {sign ds : List Char} : e = 'e' ∨ e = 'E' →
      sign ∈ [[], ['+'], ['-']] → Digits ds → ExponentText true (e :: (sign ++ ds))

/-- A number is an optional minus sign, a natural number, a fraction and an exponent.  It
is plain if it is the natural number alone. -/
inductive NumberText : Option Nat → List Char → Prop
  | mk (negative : Bool) (whole : Nat) {fractional exponential : Bool}
      {fraction exponent : List Char} : FractionText fractional fraction →
      ExponentText exponential exponent →
      NumberText (if negative || (fractional || exponential) then none else some whole)
        (signText negative ++ (decimal whole ++ (fraction ++ exponent)))

/-- What follows does not go on with a number. -/
structure NumberEnds (rest : List Char) : Prop where
  digit : StopsAt Char.isDigit rest
  mark : ∀ c ∈ rest.head?, c ≠ '.' ∧ c ≠ 'e' ∧ c ≠ 'E'

namespace Numeral

variable {cs ds rest : List Char}

/-! ### Natural numbers -/

theorem exists_of_digits (h : Digits ds) : ∃ c more, ds = c :: more ∧ c.isDigit = true := by
  obtain ⟨c, more, rfl⟩ := List.exists_cons_of_ne_nil h.1
  exact ⟨c, more, rfl, h.2 c List.mem_cons_self⟩

theorem decimal_eq (n : Nat) : decimal n = Nat.toDigits 10 n := Nat.toList_repr

theorem digits_decimal (n : Nat) : Digits (decimal n) := by
  rw [decimal_eq]
  exact ⟨Nat.toDigits_ne_nil, fun c hc => Nat.isDigit_of_mem_toDigits (by decide) (by decide) hc⟩

theorem digitsValue_decimal (n : Nat) : digitsValue (decimal n) = n := by
  have h := Nat.ofDigitChars_ten_toDigits (n := n)
  rw [Nat.ofDigitChars_eq_foldl, ← decimal_eq] at h
  simpa only [digitsValue, Nat.mul_comm] using h

/-- Only zero begins with a zero. -/
theorem eq_zero_of_head_decimal : ∀ {n : Nat}, (decimal n).head? = some '0' → n = 0 := by
  intro n
  induction n using Nat.strongRecOn with
  | ind n ih =>
    intro h
    rw [decimal_eq, Nat.toDigits_eq_if (by decide)] at h
    split at h
    · exact Nat.digitChar_eq_zero.1 (Option.some.inj h)
    · next hge =>
      -- The first digit is that of the number without its last one.
      obtain ⟨c, cs, hcs⟩ := List.exists_cons_of_ne_nil (digits_decimal (n / 10)).1
      rw [← decimal_eq, hcs, List.cons_append, List.head?_cons] at h
      have hzero := ih (n / 10) (by omega) (by rw [hcs, List.head?_cons, h])
      omega

/-- A digit is the decimal form of its value. -/
theorem eq_digitChar {c : Char} (h : c.isDigit = true) :
    c.toNat - 48 < 10 ∧ c = Nat.digitChar (c.toNat - 48) := by
  have hrange : 48 ≤ c.toNat ∧ c.toNat ≤ 57 := Char.isDigit_iff_toNat.1 h
  have hlt : c.toNat - 48 < 10 := by omega
  refine ⟨hlt, Char.toNat_inj.1 ?_⟩
  rw [Nat.toNat_digitChar_of_lt_ten hlt]
  omega

/-- Further digits after a number are the digits of a larger one.  The number must not be
zero, which no further digit may follow. -/
theorem decimal_append : ∀ (ds : List Char) (n : Nat), 0 < n → (∀ c ∈ ds, c.isDigit = true) →
    decimal n ++ ds = decimal (ds.foldl (fun n c => n * 10 + (c.toNat - '0'.toNat)) n) := by
  intro ds
  induction ds with
  | nil => intro n _ _; exact List.append_nil _
  | cons c ds ih =>
    intro n hn hdigits
    obtain ⟨hlt, hc⟩ := eq_digitChar (hdigits c List.mem_cons_self)
    have hnext : decimal n ++ [c] = decimal (n * 10 + (c.toNat - 48)) := by
      rw [decimal_eq, decimal_eq, Nat.mul_comm, ← Nat.toDigits_append_toDigits (by decide) hn hlt,
        Nat.toDigits_of_lt_base hlt, ← hc]
    rw [List.foldl_cons, ← ih _ (by omega) fun d hd => hdigits d (List.mem_cons_of_mem _ hd),
      List.append_cons, hnext]
    rfl

/-- Digits that do not begin with a zero, or are a zero alone, are a natural number as it is
written. -/
theorem eq_decimal {ds : List Char} (h : Digits ds)
    (hhead : ds.head? ≠ some '0' ∨ ds.length = 1) : ds = decimal (digitsValue ds) := by
  obtain ⟨c, rest, rfl, hdigit⟩ := exists_of_digits h
  obtain ⟨hlt, hc⟩ := eq_digitChar hdigit
  have hfirst : [c] = decimal (c.toNat - 48) := by
    rw [decimal_eq, Nat.toDigits_of_lt_base hlt, ← hc]
  have hvalue : digitsValue (c :: rest) =
      rest.foldl (fun n c => n * 10 + (c.toNat - '0'.toNat)) (c.toNat - 48) := by
    rw [digitsValue, List.foldl_cons, Nat.zero_mul, Nat.zero_add]
    rfl
  by_cases hzero : c.toNat - 48 = 0
  · -- A zero stands alone.
    have hnone : rest = [] := by
      rw [hc, hzero] at hhead
      rcases hhead with hhead | hhead
      · exact absurd rfl hhead
      · exact List.length_eq_zero_iff.1 (Nat.succ.inj hhead)
    rw [hvalue, hnone]
    exact hfirst
  · rw [hvalue, ← decimal_append rest _ (Nat.pos_of_ne_zero hzero)
      fun d hd => h.2 d (List.mem_cons_of_mem _ hd), ← hfirst]
    rfl

theorem readDigits_eq_some_iff : readDigits cs = some (ds, rest) ↔
    Digits ds ∧ StopsAt Char.isDigit rest ∧ cs = ds ++ rest := by
  unfold readDigits
  constructor
  · intro h
    dsimp only at h
    split at h
    · cases h
    · next hne =>
      cases h
      refine ⟨⟨fun hnil => hne (List.isEmpty_iff.2 hnil), ?_⟩, stopsAt_dropWhile _ cs,
        List.takeWhile_append_dropWhile.symm⟩
      exact List.all_eq_true.1 List.all_takeWhile
  · rintro ⟨⟨hne, hdigits⟩, hrest, rfl⟩
    obtain ⟨htake, hdrop⟩ := takeWhile_run hdigits hrest
    dsimp only
    rw [htake, hdrop, if_neg (mt List.isEmpty_iff.1 hne)]

/-- A whole part is a natural number as it is written. -/
theorem readWhole_eq_some_iff : readWhole cs = some (ds, rest) ↔
    (∃ n, ds = decimal n) ∧ StopsAt Char.isDigit rest ∧ cs = ds ++ rest := by
  unfold readWhole
  simp only [Option.bind_eq_bind, Option.bind_eq_some_iff, Prod.exists, readDigits_eq_some_iff,
    Option.guard_eq_some', Bool.or_eq_true, decide_eq_true_eq]
  constructor
  · rintro ⟨ds, rest, ⟨hdigits, hrest, rfl⟩, -, hhead, h⟩
    cases h
    exact ⟨⟨_, eq_decimal hdigits hhead⟩, hrest, rfl⟩
  · rintro ⟨⟨n, rfl⟩, hrest, rfl⟩
    refine ⟨decimal n, rest, ⟨digits_decimal n, hrest, rfl⟩, (), ?_, rfl⟩
    by_cases hzero : n = 0
    · rw [hzero]
      exact Or.inr (by decide)
    · exact Or.inl fun hhead => hzero (eq_zero_of_head_decimal hhead)

/-! ### Fractions and exponents -/

theorem skipFraction_of_text {fractional : Bool} {fraction : List Char}
    (h : FractionText fractional fraction) (hdigit : StopsAt Char.isDigit rest)
    (hpoint : ∀ c ∈ rest.head?, c ≠ '.') :
    skipFraction (fraction ++ rest) = some (fractional, rest) := by
  cases h with
  | none =>
    rw [List.nil_append]
    unfold skipFraction
    split
    · exact absurd rfl (hpoint _ rfl)
    · rfl
  | digits hdigits =>
    rw [List.cons_append, skipFraction, readDigits_eq_some_iff.2 ⟨hdigits, hdigit, rfl⟩]
    rfl

theorem text_of_skipFraction {fractional : Bool} (h : skipFraction cs = some (fractional, rest)) :
    ∃ fraction, FractionText fractional fraction ∧ cs = fraction ++ rest := by
  unfold skipFraction at h
  split at h
  · simp only [Option.bind_eq_bind, Option.bind_eq_some_iff, Prod.exists,
      readDigits_eq_some_iff] at h
    obtain ⟨ds, rest, ⟨hdigits, -, rfl⟩, h⟩ := h
    cases h
    exact ⟨_, .digits hdigits, rfl⟩
  · cases h
    exact ⟨[], .none, rfl⟩

/-- A sign before digits is dropped. -/
theorem skipSign_append {sign : List Char} (hsign : sign ∈ [[], ['+'], ['-']]) (h : Digits ds)
    (rest : List Char) : skipSign (sign ++ (ds ++ rest)) = ds ++ rest := by
  obtain ⟨c, more, rfl, hc⟩ := exists_of_digits h
  simp only [List.mem_cons, List.not_mem_nil, or_false] at hsign
  rcases hsign with rfl | rfl | rfl
  · -- The first digit is no sign.
    rw [List.nil_append, List.cons_append]
    unfold skipSign
    split
    · next heq => cases heq; exact absurd hc (by decide)
    · next heq => cases heq; exact absurd hc (by decide)
    · rfl
  · rfl
  · rfl

theorem exists_sign (cs : List Char) : ∃ sign ∈ [[], ['+'], ['-']], cs = sign ++ skipSign cs := by
  unfold skipSign
  split
  · exact ⟨['+'], by simp, rfl⟩
  · exact ⟨['-'], by simp, rfl⟩
  · exact ⟨[], by simp, rfl⟩

theorem skipExponent_of_text {exponential : Bool} {exponent : List Char}
    (h : ExponentText exponential exponent) (hdigit : StopsAt Char.isDigit rest)
    (hmark : ∀ c ∈ rest.head?, c ≠ 'e' ∧ c ≠ 'E') :
    skipExponent (exponent ++ rest) = some (exponential, rest) := by
  cases h with
  | none =>
    rw [List.nil_append]
    cases rest with
    | nil => rfl
    | cons c rest => rw [skipExponent, if_neg (not_or.2 (hmark c rfl))]
  | digits he hsign hdigits =>
    rw [List.cons_append, List.append_assoc, skipExponent, if_pos he,
      skipSign_append hsign hdigits, readDigits_eq_some_iff.2 ⟨hdigits, hdigit, rfl⟩]
    rfl

theorem text_of_skipExponent {exponential : Bool}
    (h : skipExponent cs = some (exponential, rest)) :
    ∃ exponent, ExponentText exponential exponent ∧ cs = exponent ++ rest := by
  unfold skipExponent at h
  split at h
  · next e cs =>
    split at h
    · next he =>
      simp only [Option.bind_eq_bind, Option.bind_eq_some_iff, Prod.exists,
        readDigits_eq_some_iff] at h
      obtain ⟨ds, rest, ⟨hdigits, -, hsigned⟩, h⟩ := h
      cases h
      obtain ⟨sign, hsign, hcs⟩ := exists_sign cs
      rw [hsigned] at hcs
      exact ⟨_, .digits he hsign hdigits, by rw [hcs, List.cons_append, List.append_assoc]⟩
    · cases h
      exact ⟨[], .none, rfl⟩
  · cases h
    exact ⟨[], .none, rfl⟩

/-! ### Numbers -/

/-- What comes after the fraction goes on neither with digits nor with a point. -/
theorem exponent_ends {exponential : Bool} {exponent : List Char}
    (h : ExponentText exponential exponent) (hrest : NumberEnds rest) :
    StopsAt Char.isDigit (exponent ++ rest) ∧ ∀ c ∈ (exponent ++ rest).head?, c ≠ '.' := by
  cases h with
  | none => exact ⟨hrest.digit, fun c hc => (hrest.mark c hc).1⟩
  | digits he =>
    rw [List.cons_append]
    rcases he with rfl | rfl
    · exact ⟨stopsAt_cons (by decide), by rintro _ ⟨⟩; decide⟩
    · exact ⟨stopsAt_cons (by decide), by rintro _ ⟨⟩; decide⟩

theorem fraction_ends {fractional : Bool} {fraction : List Char}
    (h : FractionText fractional fraction) (hrest : StopsAt Char.isDigit rest) :
    StopsAt Char.isDigit (fraction ++ rest) := by
  cases h with
  | none => exact hrest
  | digits => exact stopsAt_cons (by decide)

/-- Whether there is a minus sign is seen from the first character. -/
theorem head_signText (negative : Bool) (whole : Nat) (rest : List Char) :
    ((signText negative ++ (decimal whole ++ rest)).head? == some '-') = negative := by
  cases negative with
  | true => rfl
  | false =>
    obtain ⟨c, cs, hcs, hc⟩ := exists_of_digits (digits_decimal whole)
    rw [hcs]
    refine beq_eq_false_iff_ne.2 fun h => ?_
    rw [Option.some.inj h] at hc
    exact absurd hc (by decide)

theorem tail_signText (negative : Bool) (cs : List Char) :
    (if negative then (signText negative ++ cs).tail else signText negative ++ cs) = cs := by
  cases negative <;> rfl

theorem eq_signText_append (cs : List Char) : cs = signText (cs.head? == some '-') ++
    (if cs.head? == some '-' then cs.tail else cs) := by
  cases cs with
  | nil => rfl
  | cons c cs =>
    split
    · next hc => rw [hc, Option.some.inj (beq_iff_eq.1 hc)]; rfl
    · next hc => rw [Bool.eq_false_iff.2 hc]; rfl

/-- **A number is read as it is written**, if what follows does not go on with it. -/
theorem read_of_text {natural? : Option Nat} (h : NumberText natural? cs)
    (hrest : NumberEnds rest) :
    ∃ numeral, read (cs ++ rest) = some (numeral, rest) ∧ numeral.natural? = natural? := by
  obtain @⟨negative, whole, fractional, exponential, fraction, exponent, hfraction, hexponent⟩ := h
  obtain ⟨hdigit, hpoint⟩ := exponent_ends hexponent hrest
  have hwhole : readWhole (decimal whole ++ (fraction ++ (exponent ++ rest))) =
      some (decimal whole, fraction ++ (exponent ++ rest)) :=
    readWhole_eq_some_iff.2 ⟨⟨whole, rfl⟩, fraction_ends hfraction hdigit, rfl⟩
  have hskip := skipExponent_of_text hexponent hrest.digit fun c hc => (hrest.mark c hc).2
  refine ⟨⟨negative, decimal whole, fractional || exponential⟩, ?_, ?_⟩
  · simp only [List.append_assoc, read, head_signText, tail_signText, hwhole,
      skipFraction_of_text hfraction hdigit hpoint, hskip, Option.bind_eq_bind, Option.bind_some,
      Option.pure_def]
  · rw [Numeral.natural?, digitsValue_decimal]

/-- **What is read as a number is one.** -/
theorem text_of_read {numeral : Numeral} (h : read cs = some (numeral, rest)) :
    ∃ text, NumberText numeral.natural? text ∧ cs = text ++ rest := by
  unfold read at h
  simp only [Option.bind_eq_bind, Option.bind_eq_some_iff, Prod.exists,
    readWhole_eq_some_iff] at h
  obtain ⟨_, afterWhole, ⟨⟨whole, rfl⟩, -, hwhole⟩, fractional, afterFraction, hfraction,
    exponential, afterExponent, hexponent, h⟩ := h
  cases h
  obtain ⟨fraction, hfractionText, rfl⟩ := text_of_skipFraction hfraction
  obtain ⟨exponent, hexponentText, rfl⟩ := text_of_skipExponent hexponent
  have hsigned := eq_signText_append cs
  rw [hwhole] at hsigned
  rw [Numeral.natural?, digitsValue_decimal]
  refine ⟨_, .mk (cs.head? == some '-') whole hfractionText hexponentText, ?_⟩
  simpa only [List.append_assoc] using hsigned

end Numeral

/-! ### Strings as they are written -/

/-- A hexadecimal digit of either case. -/
def HexDigit (c : Char) (n : Nat) : Prop :=
  n < 16 ∧ (c = n.digitChar ∨ c = n.digitChar.toUpper)

/-- What a 16-bit unit stands for: a character, or one half of a surrogate pair. -/
inductive UnitItem : Nat → StringItem → Prop
  | char {n : Nat} : n.isValidChar → UnitItem n (.char (Char.ofNat n))
  | high {bits : Nat} : bits < 0x400 → UnitItem (0xd800 + bits) (.high bits)
  | low {bits : Nat} : bits < 0x400 → UnitItem (0xdc00 + bits) (.low bits)

/-- The escapes of one letter, each with the character it stands for. -/
def letterEscapes : List (Char × Char) :=
  [('"', '"'), ('\\', '\\'), ('/', '/'), ('b', '\x08'), ('f', '\x0c'), ('n', '\n'), ('r', '\r'),
    ('t', '\t')]

/-- One character or escape of a string. -/
inductive ItemText : StringItem → List Char → Prop
  | plain {c : Char} : 0x20 ≤ c.toNat → c ≠ '"' → c ≠ '\\' → ItemText (.char c) [c]
  | escape {e c : Char} : (e, c) ∈ letterEscapes → ItemText (.char c) ['\\', e]
  | unit {a b c d : Char} {i j k l : Nat} {item : StringItem} : HexDigit a i → HexDigit b j →
      HexDigit c k → HexDigit d l → UnitItem (((i * 16 + j) * 16 + k) * 16 + l) item →
      ItemText item ['\\', 'u', a, b, c, d]

/-- What stands between the quotes of a string. -/
inductive StringText : List StringItem → List Char → Prop
  | nil : StringText [] []
  | cons {item : StringItem} {items : List StringItem} {text body : List Char} :
      ItemText item text → StringText items body → StringText (item :: items) (text ++ body)

namespace StringItem

variable {cs rest : List Char} {items : List StringItem}

theorem hexDigit?_eq_some_iff {c : Char} {n : Nat} : hexDigit? c = some n ↔ HexDigit c n := by
  constructor
  · -- The character is found again from the value of the digit.
    have hlower : ∀ n < 16, n.digitChar.toNat = if n < 10 then n + 48 else n + 87 := by decide
    have hupper : ∀ n < 16, n.digitChar.toUpper.toNat = if n < 10 then n + 48 else n + 55 := by
      decide
    intro h
    simp only [hexDigit?, Char.reduceToNat] at h
    split at h
    · cases h
      refine ⟨by omega, Or.inl (Char.toNat_inj.1 ?_)⟩
      rw [hlower _ (by omega), if_pos (by omega)]
      omega
    · split at h
      · cases h
        refine ⟨by omega, Or.inl (Char.toNat_inj.1 ?_)⟩
        rw [hlower _ (by omega), if_neg (by omega)]
        omega
      · split at h
        · cases h
          refine ⟨by omega, Or.inr (Char.toNat_inj.1 ?_)⟩
          rw [hupper _ (by omega), if_neg (by omega)]
          omega
        · cases h
  · have hread : ∀ n < 16, hexDigit? n.digitChar = some n ∧
        hexDigit? n.digitChar.toUpper = some n := by decide
    rintro ⟨hn, rfl | rfl⟩
    · exact (hread n hn).1
    · exact (hread n hn).2

theorem unitItem_iff {n : Nat} {item : StringItem} (hn : n < 0x10000) : UnitItem n item ↔
    (if 0xd800 ≤ n ∧ n < 0xdc00 then high (n - 0xd800)
      else if 0xdc00 ≤ n ∧ n < 0xe000 then low (n - 0xdc00)
      else char (Char.ofNat n)) = item := by
  constructor
  · rintro (hvalid | hbits | hbits)
    · rw [if_neg (by have := hvalid; simp only [Nat.isValidChar] at this; omega),
        if_neg (by have := hvalid; simp only [Nat.isValidChar] at this; omega)]
    · rw [if_pos (by omega), Nat.add_sub_cancel_left]
    · rw [if_neg (by omega), if_pos (by omega), Nat.add_sub_cancel_left]
  · rintro rfl
    split
    · next h =>
      have hunit := @UnitItem.high (n - 0xd800) (by omega)
      rwa [Nat.add_sub_cancel' h.1] at hunit
    · split
      · next h =>
        have hunit := @UnitItem.low (n - 0xdc00) (by omega)
        rwa [Nat.add_sub_cancel' h.1] at hunit
      · exact .char (by simp only [Nat.isValidChar]; omega)

theorem ofEscape?_eq_some_iff {e : Char} {item : StringItem} :
    ofEscape? e = some item ↔ ∃ c, (e, c) ∈ letterEscapes ∧ item = char c := by
  constructor
  · intro h
    unfold ofEscape? at h
    split at h <;> cases h <;> exact ⟨_, by simp [letterEscapes], rfl⟩
  · rintro ⟨c, hc, rfl⟩
    simp only [letterEscapes, List.mem_cons, Prod.mk.injEq, List.not_mem_nil, or_false] at hc
    rcases hc with ⟨rfl, rfl⟩ | ⟨rfl, rfl⟩ | ⟨rfl, rfl⟩ | ⟨rfl, rfl⟩ | ⟨rfl, rfl⟩ | ⟨rfl, rfl⟩ |
      ⟨rfl, rfl⟩ | ⟨rfl, rfl⟩ <;> rfl

theorem ofHex?_eq_some_iff {a b c d : Char} {item : StringItem} : ofHex? a b c d = some item ↔
    ∃ i j k l, HexDigit a i ∧ HexDigit b j ∧ HexDigit c k ∧ HexDigit d l ∧
      UnitItem (((i * 16 + j) * 16 + k) * 16 + l) item := by
  simp only [ofHex?, Option.bind_eq_bind, Option.bind_eq_some_iff, hexDigit?_eq_some_iff,
    Option.pure_def, Option.some.injEq]
  constructor
  · rintro ⟨i, hi, j, hj, k, hk, l, hl, hitem⟩
    refine ⟨i, j, k, l, hi, hj, hk, hl, (unitItem_iff ?_).2 hitem⟩
    have := hi.1; have := hj.1; have := hk.1; have := hl.1
    omega
  · rintro ⟨i, j, k, l, hi, hj, hk, hl, hitem⟩
    refine ⟨i, hi, j, hj, k, hk, l, hl, (unitItem_iff ?_).1 hitem⟩
    have := hi.1; have := hj.1; have := hk.1; have := hl.1
    omega

/-- An item at the front is read as it is written, whatever follows. -/
theorem readAll_append {item : StringItem} {text : List Char} (h : ItemText item text)
    (hcs : readAll cs = some (items, rest)) :
    readAll (text ++ cs) = some (item :: items, rest) := by
  cases h with
  | plain hlow hquote hslash =>
    rw [List.cons_append, List.nil_append, readAll, guard, if_pos hlow, hcs]
    · rfl
    · exact hquote
    · exact fun _ _ _ _ _ h => absurd h hslash
    · exact fun _ _ h => absurd h hslash
  | escape he =>
    have hitem := ofEscape?_eq_some_iff.2 ⟨_, he, rfl⟩
    rw [List.cons_append, List.cons_append, List.nil_append, readAll, hitem, hcs]
    · rfl
    · -- No escape of one letter begins with the letter of the longer one.
      rintro a b c d more rfl -
      exact absurd he (by simp [letterEscapes])
  | unit ha hb hc hd hunit =>
    have hitem := ofHex?_eq_some_iff.2 ⟨_, _, _, _, ha, hb, hc, hd, hunit⟩
    rw [List.cons_append, List.cons_append]
    simp only [List.cons_append, List.nil_append, readAll, hitem, hcs, Option.bind_eq_bind,
      Option.bind_some, Option.pure_def]

/-- **What is read as a string** is what is written as one, up to the first quote that is
not escaped. -/
theorem readAll_eq_some_iff : readAll cs = some (items, rest) ↔
    ∃ body, StringText items body ∧ cs = body ++ '"' :: rest := by
  constructor
  · intro h
    fun_induction readAll cs generalizing items rest with
    | case1 => cases h
    | case2 rest =>
      cases h
      exact ⟨[], .nil, rfl⟩
    | case3 a b c d cs ih =>
      simp only [Option.bind_eq_bind, Option.bind_eq_some_iff, Prod.exists,
        ofHex?_eq_some_iff] at h
      obtain ⟨item, ⟨i, j, k, l, ha, hb, hc, hd, hunit⟩, items, rest, hread, h⟩ := h
      cases h
      obtain ⟨body, hbody, rfl⟩ := ih hread
      exact ⟨_, .cons (.unit ha hb hc hd hunit) hbody, rfl⟩
    | case4 e cs _ ih =>
      simp only [Option.bind_eq_bind, Option.bind_eq_some_iff, Prod.exists,
        ofEscape?_eq_some_iff] at h
      obtain ⟨item, ⟨c, hc, rfl⟩, items, rest, hread, h⟩ := h
      cases h
      obtain ⟨body, hbody, rfl⟩ := ih hread
      exact ⟨_, .cons (.escape hc) hbody, rfl⟩
    | case5 c cs hquote _ hescape ih =>
      simp only [Option.bind_eq_bind, Option.bind_eq_some_iff, Prod.exists,
        Option.guard_eq_some'] at h
      obtain ⟨-, hlow, items, rest, hread, h⟩ := h
      cases h
      obtain ⟨body, hbody, rfl⟩ := ih hread
      have hslash : c ≠ '\\' := by
        -- Something follows, if only the closing quote.
        obtain ⟨e, more, hmore⟩ := List.exists_cons_of_ne_nil
          (List.append_ne_nil_of_right_ne_nil body (List.cons_ne_nil '"' rest))
        exact fun h => hescape e more h hmore
      exact ⟨_, .cons (.plain hlow hquote hslash) hbody, rfl⟩
  · rintro ⟨body, hbody, rfl⟩
    induction hbody with
    | nil => rfl
    | cons hitem _ ih =>
      rw [List.append_assoc]
      exact readAll_append hitem ih

end StringItem

/-! ### Quoted strings -/

/-- A string with its quotes, with the text that it denotes. -/
inductive QuotedText : Option String → List Char → Prop
  | mk {items : List StringItem} {body : List Char} : StringText items body →
      QuotedText (StringItem.join items) ('"' :: (body ++ ['"']))

theorem readString_eq_some_iff {cs rest : List Char} {text? : Option String} :
    readString cs = some (text?, rest) ↔ ∃ text, QuotedText text? text ∧ cs = text ++ rest := by
  constructor
  · intro h
    unfold readString at h
    split at h
    · simp only [Option.bind_eq_bind, Option.bind_eq_some_iff, Prod.exists,
        StringItem.readAll_eq_some_iff] at h
      obtain ⟨items, rest, ⟨body, hbody, rfl⟩, h⟩ := h
      cases h
      exact ⟨_, .mk hbody, (enclosed_append ..).symm⟩
    · cases h
  · rintro ⟨_, @⟨items, body, hbody⟩, rfl⟩
    rw [enclosed_append, readString, StringItem.readAll_eq_some_iff.2 ⟨body, hbody, rfl⟩]
    rfl

end Columnar.Json
