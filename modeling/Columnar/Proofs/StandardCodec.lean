import Columnar.Json.Standard
import Columnar.Proofs.RecordText

/-!
# The standard codec

The standard codec writes records by the grammar, and reads by it as well.  So it does to
records and names what a codec has to do.

## Main results

* `Json.elementText_writeRecord` — what is written for a record, by the grammar.
* `Json.lawful_standard` — **the standard codec is lawful.**
-/

namespace Columnar.Json

/-! ### Writing by the grammar -/

theorem blanks_nil : Blanks [] := nofun

/-- A value may stand without blanks. -/
theorem ValueText.element {value : Json} {cs : List Char} (h : ValueText value cs) :
    ElementText value cs := by
  have helement := ElementText.mk blanks_nil h blanks_nil
  rwa [List.nil_append, List.append_nil] at helement

theorem numberText_decimal (n : Nat) : NumberText (some n) (decimal n) := by
  have h := NumberText.mk false n .none .none
  rw [List.append_nil, List.append_nil] at h
  exact h

theorem stringText_of_plain : ∀ {cs : List Char}, (∀ c ∈ cs, Plain c) →
    StringText (cs.map StringItem.char) cs := by
  intro cs
  induction cs with
  | nil => intro _; exact .nil
  | cons c cs ih =>
    intro h
    obtain ⟨hlow, hquote, hslash⟩ := h c List.mem_cons_self
    exact .cons (.plain hlow hquote hslash) (ih fun d hd => h d (List.mem_cons_of_mem _ hd))

theorem joinChars_map_char (cs : List Char) :
    StringItem.joinChars (cs.map StringItem.char) = some cs := by
  induction cs with
  | nil => rfl
  | cons c cs ih => rw [List.map_cons, StringItem.joinChars, ih]; rfl

/-- A text of plain characters is written between quotes as it is. -/
theorem quotedText_quoted {name : String} (h : ∀ c ∈ name.toList, Plain c) :
    QuotedText (some name) (quoted name).toList := by
  have htext := QuotedText.mk (stringText_of_plain h)
  rw [StringItem.join, joinChars_map_char, Option.map_eq_map, Option.map_some,
    String.ofList_toList] at htext
  rw [quoted, String.toList_append, String.toList_append]
  exact htext

/-- A member with a plain name. -/
theorem ElementText.member {name : String} {value : Json} {cs : List Char}
    (h : ElementText value cs) (hname : ∀ c ∈ name.toList, Plain c) :
    MemberText (some name, value) ((quoted name).toList ++ ':' :: cs) :=
  .mk blanks_nil (quotedText_quoted hname) blanks_nil h

/-- A field as it is written. -/
theorem memberText_field {name : String} (h : ∀ c ∈ name.toList, Plain c) (n : Nat) :
    MemberText (some name, .number (some n)) (quoted name ++ ":" ++ toString n).toList := by
  have hvalue : ElementText (.number (some n)) (decimal n) :=
    (ValueText.number (numberText_decimal n)).element
  rw [String.toList_append, String.toList_append, List.append_assoc]
  exact hvalue.member h

/-- The fields of a record as they are written.  At least one has to be there. -/
theorem membersText_fields : ∀ {field : String × Nat} {fields : List (String × Nat)},
    (∀ other ∈ field :: fields, ∀ c ∈ other.1.toList, Plain c) →
    MembersText (named ((field :: fields).map fun field => (field.1, .number (some field.2))))
      (fieldsText (field :: fields)).toList := by
  intro field fields
  induction fields generalizing field with
  | nil => exact fun h => .one (memberText_field (h field List.mem_cons_self) field.2)
  | cons next fields ih =>
    intro h
    have hfirst := memberText_field (h field List.mem_cons_self) field.2
    have hrest := ih fun other hother => h other (List.mem_cons_of_mem _ hother)
    have hcomma : (",".toList : List Char) = [','] := rfl
    rw [fieldsText, String.toList_append, String.toList_append, hcomma, List.append_assoc]
    exact .more hfirst hrest

/-- What is written for a record, by the grammar. -/
theorem elementText_writeRecord (record : Record) :
    ElementText (.object (named record.members)) (standard.writeRecord record).toList := by
  obtain ⟨fields, hdistinct, hplain⟩ := record
  have htext : (standard.writeRecord ⟨fields, hdistinct, hplain⟩).toList =
      '{' :: ((fieldsText fields).toList ++ ['}']) := by
    change ("\x7b" ++ fieldsText fields ++ "\x7d").toList = _
    rw [String.toList_append, String.toList_append]
    rfl
  rw [htext]
  cases fields with
  | nil => exact (ValueText.emptyObject blanks_nil).element
  | cons field fields => exact (ValueText.object (membersText_fields hplain)).element

/-! ### Reading by the grammar -/

theorem named?_named (members : List (String × Json)) : named? (named members) = some members := by
  induction members with
  | nil => rfl
  | cons member members ih =>
    rw [named, List.map_cons, named?, List.mapM_cons]
    change (named? (named members)).bind (fun rest => some (member :: rest)) = _
    rw [ih]
    rfl

theorem parse?_bind {α : Type} {text : String} {value : Json} (h : ElementText value text.toList)
    (read? : Json → Option α) : (parse? text >>= read?) = read? value := by
  rw [parse?_eq_some_iff.2 h]
  rfl

/-- **The standard codec is lawful.** -/
theorem lawful_standard : standard.Lawful where
  write_record := elementText_writeRecord
  read_object record text members htext := by
    refine (parse?_bind htext (recordOfJson? record)).trans ?_
    rw [recordOfJson?, named?_named]
    exact Option.map_eq_bind.symm
  take_other names given name value hname := if_neg hname
  take_size names given name n hname hnone hn := by
    change takeMember names given (name, .number (some n)) = _
    rw [takeMember, if_pos hname, hnone, size?, if_pos hn]
    rfl
  take_value names given taken name value hname hnone htake := by
    change takeMember names given (name, value) = some taken at htake
    rw [takeMember, if_pos hname, hnone] at htake
    obtain ⟨n, -, htaken⟩ := Option.map_eq_some_iff.1 htake
    exact ⟨n, htaken.symm⟩
  take_again names given name value hname hsome := by
    change takeMember names given (name, value) = none
    rw [takeMember, if_pos hname, if_pos (Option.isSome_iff_ne_none.2 hsome)]
  write_name name h := (ValueText.string (quotedText_quoted h)).element
  read_name names text name hname htext := by
    refine (parse?_bind htext (nameOfJson? names)).trans ?_
    exact if_pos hname

end Columnar.Json
