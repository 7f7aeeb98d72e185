import Columnar.Proofs.Built
import Columnar.Proofs.CellKeys

/-!
# Reading back what a builder was given

A finished block shows at each position the value that was added there: its mark
says whether it is null, and under a null stands the blank payload of the type.  A
bitmap without a set bit is dropped when the block is finished, which changes no
answer below the end, and past the end the missing payload is noticed then.

## Main definitions

* `Block.Shows`, `Block.ShowsAll` — what all reads of a cell, or of all cells, with
  given values answer.
* `BlockBuilder.Call`, `BlockBuilder.run` — adding cells one call after another.

## Main results

* `BlockBuilder.Holds.getValue_build`, `BlockBuilder.Holds.payload_build` — what is
  held is read from the finished block.
* `Block.Intact.exists_getValue_iff` — no value is read past the end.
* `BlockBuilder.added_cells_read_back` — **what any calls added is read back.**
-/

namespace Columnar

/-! ### Typed reads of truth values and text -/

namespace Value

/-- The truth value a value is. -/
def toBool? : Value → Option Bool
  | boolean b => some b
  | _ => none

/-- The string a value is. -/
def toStr? : Value → Option String
  | string s => some s
  | _ => none

end Value

namespace Block

theorem toOption_getBool (b : Block) (i : Nat) :
    (b.getBool i).toOption = (b.payload i).toOption.bind Value.toBool? := by
  cases b <;> simp [getBool, payload, FixedColumn.get, Option.bind_map, Function.comp_def,
    Value.toBool?]

theorem toOption_getStr (b : Block) (i : Nat) :
    (b.getStr i).toOption = (b.payload i).toOption.bind Value.toStr? := by
  cases b <;> simp [getStr, payload, FixedColumn.get, Option.bind_map, Function.comp_def,
    Value.toStr?]

/-- Whether a cell is null shows in its value. -/
theorem isNull_of_getValue {b : Block} {i : Nat} {v : Value} (h : b.getValue i = .ok v) :
    b.isNull i = .ok v.isNull := by
  rw [isNull_eq, Cell.isNull, cellAt, h]

end Block

/-! ### What the finished block shows -/

namespace BlockBuilder

variable {b : BlockBuilder} {payloads values : List Value} {value : Value}

/-- The mask of a finished block says of each cell whether it is null. -/
theorem isNull_ofBitmap {bits : Bitmap} {marks : List Bool} (h : bits.Holds marks) {i : Nat}
    {null : Bool} (hnull : marks[i]? = some null) :
    (NullMask.ofBitmap bits).isNull i = .ok null := by
  unfold NullMask.ofBitmap
  by_cases hany : bits.any = true
  · rw [if_pos hany]
    exact h.get_eq hnull
  · -- The bitmap is dropped, and no cell is null.
    rw [if_neg hany]
    have hfalse : null = false := by
      cases null with
      | false => rfl
      | true => exact absurd (h.any_iff.2 (List.mem_of_getElem? hnull)) hany
    rw [hfalse]
    rfl

theorem Holds.isNull_build (h : b.Holds values) {i : Nat} (hvalue : values[i]? = some value) :
    b.build.isNull i = .ok value.isNull := by
  have hmark : (values.map Value.isNull)[i]? = some value.isNull := by
    rw [List.getElem?_map, hvalue]
    rfl
  have hmask := isNull_ofBitmap h.marks hmark
  cases b <;> exact hmask

/-- A payload is read from the array it was added to. -/
theorem map_get_build {α : Type} {xs : Array α} {wrap : α → Value} {i : Nat}
    (h : (xs.toList.map wrap)[i]? = some value) : wrap <$> Result.element xs i = .ok value := by
  rw [List.getElem?_map, Array.getElem?_toList] at h
  obtain ⟨a, ha, rfl⟩ := Option.map_eq_some_iff.1 h
  exact Result.map_eq_ok_iff.2 ⟨a, Result.element_eq_ok_iff.2 ha, rfl⟩

theorem Stores.payload_build (h : b.Stores payloads) {i : Nat}
    (hvalue : payloads[i]? = some value) : b.build.payload i = .ok value := by
  cases b with
  | int b => rw [h] at hvalue; exact map_get_build hvalue
  | long b => rw [h] at hvalue; exact map_get_build hvalue
  | double b => rw [h] at hvalue; exact map_get_build hvalue
  | boolean b => rw [h] at hvalue; exact map_get_build hvalue
  | varchar b =>
    obtain ⟨strings, hstrings, rfl⟩ := h
    rw [List.getElem?_map] at hvalue
    obtain ⟨s, hs, rfl⟩ := Option.map_eq_some_iff.1 hvalue
    exact Result.map_eq_ok_iff.2 ⟨s, hstrings.build.get_eq hs, rfl⟩

/-- The payload at a position is that of the value, or blank under a null. -/
theorem Holds.payload_build (h : b.Holds values) {i : Nat} (hvalue : values[i]? = some value) :
    b.build.payload i = .ok (b.type.payloadOf value) := by
  refine h.payloads.payload_build ?_
  rw [List.getElem?_map, hvalue]
  rfl

/-- **The value at a position is the one that was added there.** -/
theorem Holds.getValue_build (h : b.Holds values) {i : Nat} (hvalue : values[i]? = some value) :
    b.build.getValue i = .ok value := by
  have hnull := h.isNull_build hvalue
  cases hcase : value.isNull with
  | true =>
    rw [hcase] at hnull
    rw [Block.getValue_of_null hnull]
    cases value <;> first | rfl | cases hcase
  | false =>
    rw [hcase] at hnull
    rw [Block.getValue_of_not_null hnull, h.payload_build hvalue,
      DataType.payloadOf_of_not_null _ hcase]

end BlockBuilder

/-! ### Past the end -/

/-- Past the end of a column there is no payload. -/
theorem Block.exists_payload_iff_lt {b : Block} {i : Nat} (h : b.Intact) :
    (∃ v, b.payload i = .ok v) ↔ i < b.positionCount := by
  refine ⟨?_, h.exists_payload i⟩
  rintro ⟨v, hv⟩
  cases b with
  | int c => exact Result.exists_element_iff.1 (Result.exists_map_iff.1 ⟨v, hv⟩)
  | long c => exact Result.exists_element_iff.1 (Result.exists_map_iff.1 ⟨v, hv⟩)
  | double c => exact Result.exists_element_iff.1 (Result.exists_map_iff.1 ⟨v, hv⟩)
  | boolean c => exact Result.exists_element_iff.1 (Result.exists_map_iff.1 ⟨v, hv⟩)
  | varchar c =>
    -- The string would have to end at an offset that is not there.
    obtain ⟨s, hs⟩ := Result.exists_map_iff.1 ⟨v, hv⟩
    obtain ⟨start, -, hs⟩ := Result.bind_eq_ok_iff.1 hs
    obtain ⟨stop, hstop, -⟩ := Result.bind_eq_ok_iff.1 hs
    have hlt := Result.exists_element_iff.1 ⟨stop, hstop⟩
    show i < c.offsets.size - 1
    omega

/-- **A cell has a value if it is not past the end**, whether or not the block
kept a mask. -/
theorem Block.Intact.exists_getValue_iff {b : Block} {i : Nat} (h : b.Intact) :
    (∃ v, b.getValue i = .ok v) ↔ i < b.positionCount := by
  refine ⟨?_, h.exists_getValue⟩
  rintro ⟨v, hv⟩
  obtain ⟨null, hnull, -⟩ := Result.bind_eq_ok_iff.1 hv
  cases null with
  | false =>
    rw [Block.getValue_of_not_null hnull] at hv
    exact (Block.exists_payload_iff_lt h).1 ⟨v, hv⟩
  | true =>
    -- A mark is read from a mask that is as long as the block.
    unfold Block.isNull NullMask.isNull at hnull
    split at hnull
    · cases hnull
    · next bits hbits =>
      rw [← h.nulls_cover bits hbits]
      refine Nat.lt_of_not_le fun hle => ?_
      rw [Bitmap.get_of_le hle] at hnull
      cases hnull

/-! ### Calls one after another -/

/-- The block shows a value at a position, under every read.  A read for one type
gives the payload of the cell if that is of the type. -/
structure Block.Shows (b : Block) (position : Nat) (value : Value) : Prop where
  getValue_eq : b.getValue position = .ok value
  isNull_eq : b.isNull position = .ok value.isNull
  getInt_eq : (b.getInt position).toOption = (b.type.payloadOf value).toInt?
  getLong_eq : (b.getLong position).toOption = (b.type.payloadOf value).toLong?
  getDouble_eq : (b.getDouble position).toOption = (b.type.payloadOf value).toDouble?
  getBool_eq : (b.getBool position).toOption = (b.type.payloadOf value).toBool?
  getStr_eq : (b.getStr position).toOption = (b.type.payloadOf value).toStr?

/-- A value shows if the payload of the cell is that of the value. -/
theorem Block.shows_of_payload {b : Block} {i : Nat} {value : Value}
    (hvalue : b.getValue i = .ok value) (hpayload : b.payload i = .ok (b.type.payloadOf value)) :
    b.Shows i value := by
  refine ⟨hvalue, isNull_of_getValue hvalue, ?_, ?_, ?_, ?_, ?_⟩
  · rw [toOption_getInt, hpayload]; rfl
  · rw [toOption_getLong, hpayload]; rfl
  · rw [toOption_getDouble, hpayload]; rfl
  · rw [toOption_getBool, hpayload]; rfl
  · rw [toOption_getStr, hpayload]; rfl

/-- The block shows the given values, one at each of its positions. -/
structure Block.ShowsAll (b : Block) (values : List Value) : Prop where
  positionCount_eq : b.positionCount = values.length
  shows : ∀ i value, values[i]? = some value → b.Shows i value

/-- What a block shows is determined. -/
theorem Block.ShowsAll.unique {b : Block} {values others : List Value} (h : b.ShowsAll values)
    (h' : b.ShowsAll others) : values = others := by
  have hlength : values.length = others.length :=
    h.positionCount_eq.symm.trans h'.positionCount_eq
  refine List.ext_getElem hlength fun i hi hi' => ?_
  have hvalue := (h.shows i _ (List.getElem?_eq_getElem hi)).getValue_eq
  rw [(h'.shows i _ (List.getElem?_eq_getElem hi')).getValue_eq] at hvalue
  exact (Except.ok.inj hvalue).symm

namespace BlockBuilder

/-- A call that adds a cell. -/
inductive Call
  | append (value : Value)
  | appendNull
  /-- Adds the cell at a position of a block. -/
  | writeTo (block : Block) (position : Nat)

namespace Call

/-- The value that the call asks to add. -/
def value : Call → Result Value
  | append value => .ok value
  | appendNull => .ok .null
  | writeTo block position => block.getValue position

/-- The value that the call adds to a builder of the type, if it adds one. -/
def added? (type : DataType) (call : Call) : Option Value :=
  call.value.toOption.filter type.accepts

/-- The cell is a null or of the type, and is one that there is. -/
def Fits (type : DataType) : Call → Prop
  | append value => value = .null ∨ value.type? = some type
  | appendNull => True
  | writeTo block position =>
    position < block.positionCount ∧ (block.isNull position = .ok true ∨ block.type = type)

/-- A block that the call reads has come about as blocks do. -/
def Sourced : Call → Prop
  | writeTo block _ => block.Built
  | _ => True

end Call

/-- What a call does to a builder. -/
def call (b : BlockBuilder) : Call → Outcome BlockBuilder
  | .append value => .ofResult b (b.append value)
  | .appendNull => .done b.appendNull
  | .writeTo block position => .ofResult b (block.writeTo position b)

/-- What calls do to a builder, whether they succeed or not. -/
def run (b : BlockBuilder) (calls : List Call) : BlockBuilder × List (Outcome BlockBuilder) :=
  Outcome.runAll call b calls

variable {b : BlockBuilder} {values : List Value} {c : Call} {type : DataType}

theorem Call.added?_eq_some_iff {value : Value} :
    c.added? type = some value ↔ c.value = .ok value ∧ type.accepts value = true := by
  rw [added?, Option.filter_eq_some_iff, Result.toOption_eq_some_iff]

/-- A call adds its value if that fits. -/
theorem call_of_added {value : Value} (h : c.added? b.type = some value) :
    b.call c = .done (b.push value) ∧ b.accepts value = true := by
  obtain ⟨hvalue, hfits⟩ := Call.added?_eq_some_iff.1 h
  rw [← accepts_eq] at hfits
  have happend : b.append value = .ok (b.push value) := append_eq_ok_iff.2 ⟨hfits, rfl⟩
  refine ⟨?_, hfits⟩
  cases c with
  | append v => cases hvalue; rw [call, happend]; rfl
  | appendNull => cases hvalue; rw [push_null]; rfl
  | writeTo block position => rw [call, writeTo_of_append hvalue happend]; rfl

/-- A call that adds nothing fails, and leaves the builder as it was. -/
theorem call_of_not_added (h : c.added? b.type = none) :
    ∃ failure, b.call c = .failed b failure := by
  -- A call that succeeds adds the value it reads, and this one adds none.
  have hnone : ∀ value after, c.value = .ok value → b.append value ≠ .ok after := by
    intro value after hvalue happend
    have hfits := (append_eq_ok_iff.1 happend).1
    rw [accepts_eq] at hfits
    rw [Call.added?_eq_some_iff.2 ⟨hvalue, hfits⟩] at h
    cases h
  cases c with
  | append v =>
    cases happend : b.append v with
    | error failure => exact ⟨failure, by rw [call, happend]; rfl⟩
    | ok after => exact absurd happend (hnone v after rfl)
  | appendNull => cases h
  | writeTo block position =>
    cases hwrite : block.writeTo position b with
    | error failure => exact ⟨failure, by rw [call, hwrite]; rfl⟩
    | ok after =>
      obtain ⟨value, hvalue, happend⟩ := append_of_writeTo hwrite
      exact absurd happend (hnone value after hvalue)

/-- A call adds a value if its cell fits. -/
theorem Call.isSome_added?_iff (h : c.Sourced) : (c.added? type).isSome ↔ c.Fits type := by
  rw [Option.isSome_iff_exists]
  simp only [added?_eq_some_iff, DataType.accepts_iff]
  cases c with
  | append v =>
    constructor
    · rintro ⟨value, hvalue, hfits⟩
      cases hvalue
      exact hfits
    · exact fun hfits => ⟨v, rfl, hfits⟩
  | appendNull => exact ⟨fun _ => trivial, fun _ => ⟨.null, rfl, Or.inl rfl⟩⟩
  | writeTo block position =>
    have hintact : block.Intact := Block.Built.intact h
    constructor
    · rintro ⟨value, hvalue, hfits⟩
      refine ⟨hintact.exists_getValue_iff.1 ⟨value, hvalue⟩, ?_⟩
      rcases hfits with rfl | htype
      · exact Or.inl (Block.isNull_of_getValue hvalue)
      · have hnull : value.isNull = false := by cases value <;> first | rfl | cases htype
        exact Or.inr (Option.some.inj ((Block.type?_of_getValue hvalue hnull).symm.trans htype))
    · rintro ⟨hposition, hcell⟩
      obtain ⟨value, hvalue⟩ := hintact.exists_getValue hposition
      refine ⟨value, hvalue, ?_⟩
      cases hnull : value.isNull with
      | true => exact Or.inl (by cases value <;> first | rfl | cases hnull)
      | false =>
        refine Or.inr ((Block.type?_of_getValue hvalue hnull).trans ?_)
        rcases hcell with hmark | rfl
        · rw [Block.isNull_of_getValue hvalue, hnull] at hmark
          cases hmark
        · rfl

/-- A call that fails leaves the builder as it was. -/
theorem state_call_of_failed (h : (b.call c).status ≠ .ok ()) : (b.call c).state = b := by
  cases hadded : c.added? b.type with
  | some value =>
    rw [(call_of_added hadded).1] at h
    exact absurd rfl h
  | none =>
    obtain ⟨failure, hcall⟩ := call_of_not_added hadded
    rw [hcall]
    rfl

/-- A call succeeds if its cell fits. -/
theorem call_succeeds_iff (h : c.Sourced) : (b.call c).status = .ok () ↔ c.Fits b.type := by
  rw [← Call.isSome_added?_iff h]
  cases hadded : c.added? b.type with
  | some value =>
    rw [(call_of_added hadded).1]
    exact ⟨fun _ => rfl, fun _ => rfl⟩
  | none =>
    obtain ⟨failure, hcall⟩ := call_of_not_added hadded
    rw [hcall]
    constructor
    · intro hstatus
      cases hstatus
    · intro hsome
      cases hsome

/-- After any calls the builder holds, after what it held, the values they added;
and as many calls have succeeded. -/
theorem Holds.run : ∀ (calls : List Call) {b : BlockBuilder} {values : List Value},
    b.Holds values →
      (b.run calls).1.Holds (values ++ calls.filterMap (Call.added? b.type)) ∧
        (b.run calls).1.type = b.type ∧
        ((b.run calls).2.filter Outcome.succeeded).length =
          (calls.filterMap (Call.added? b.type)).length := by
  intro calls
  induction calls with
  | nil =>
    intro b values h
    rw [List.filterMap_nil, List.append_nil]
    exact ⟨h, rfl, rfl⟩
  | cons c rest ih =>
    intro b values h
    show ((b.call c).state.run rest).1.Holds _ ∧ ((b.call c).state.run rest).1.type = _ ∧
      ((b.call c :: ((b.call c).state.run rest).2).filter Outcome.succeeded).length = _
    -- The type stays the same, so what later calls add can be told from the start.
    cases hadded : c.added? b.type with
    | none =>
      obtain ⟨failure, hcall⟩ := call_of_not_added hadded
      rw [hcall, List.filterMap_cons_none hadded]
      exact ih h
    | some value =>
      obtain ⟨hcall, hfits⟩ := call_of_added hadded
      obtain ⟨hholds, htype, hcount⟩ := ih (h.push hfits)
      rw [type_push] at hholds htype hcount
      rw [hcall, List.filterMap_cons_some hadded]
      refine ⟨?_, htype, ?_⟩
      · rwa [List.append_assoc, List.singleton_append] at hholds
      · rw [List.filter_cons_of_pos rfl, List.length_cons, List.length_cons, ← hcount]
        rfl

/-- What a builder holds that was empty before some calls. -/
theorem holds_run_of_withCapacity {type : DataType} {capacity : Nat} {start : BlockBuilder}
    (h : withCapacity type capacity = .ok start) (calls : List Call) :
    (start.run calls).1.Holds (calls.filterMap (Call.added? type)) ∧
      (start.run calls).1.type = type ∧
      ((start.run calls).2.filter Outcome.succeeded).length =
        (calls.filterMap (Call.added? type)).length := by
  obtain rfl := eq_blank_of_withCapacity h
  have hblank := (holds_blank type capacity).run calls
  rwa [type_blank, List.nil_append] at hblank

/-- Each value that is held shows in the finished block. -/
theorem Holds.shows_build (h : b.Holds values) {i : Nat} {value : Value}
    (hvalue : values[i]? = some value) : b.build.Shows i value := by
  refine Block.shows_of_payload (h.getValue_build hvalue) ?_
  rw [type_build]
  exact h.payload_build hvalue

/-- The finished block shows what the builder holds. -/
theorem Holds.showsAll_build (h : b.Holds values) : b.build.ShowsAll values where
  positionCount_eq := by rw [positionCount_build, h.positionCount_eq]
  shows _ _ hvalue := h.shows_build hvalue

/-- **What any calls added to a builder is read back from the finished block.**
Whatever calls were made on it before, a call succeeds if its cell is one that
there is and is a null or of the type of the builder, and a call that fails
changes nothing.  The finished block has a position for each call that succeeded.
It shows there the value that was added, bit for bit: under a null a typed read
gives the blank payload.  No value is read past the end. -/
theorem added_cells_read_back {type : DataType} {capacity : Nat} {start : BlockBuilder}
    (hstart : withCapacity type capacity = .ok start) (calls : List Call)
    (hcalls : ∀ call ∈ calls, call.Sourced) :
    (∀ before call after, calls = before ++ call :: after →
      (((start.run before).1.call call).status = .ok () ↔ call.Fits type) ∧
        (((start.run before).1.call call).status ≠ .ok () →
          ((start.run before).1.call call).state = (start.run before).1)) ∧
    (start.run calls).1.build.type = type ∧
    (start.run calls).1.build.positionCount =
      ((start.run calls).2.filter Outcome.succeeded).length ∧
    (start.run calls).1.build.positionCount = (calls.filterMap (Call.added? type)).length ∧
    (∀ i value, (calls.filterMap (Call.added? type))[i]? = some value →
      (start.run calls).1.build.Shows i value) ∧
    ∀ i, (start.run calls).1.build.positionCount ≤ i →
      ∃ failure, (start.run calls).1.build.getValue i = .error failure := by
  obtain ⟨hholds, htype, hcount⟩ := holds_run_of_withCapacity hstart calls
  have hlength : (start.run calls).1.build.positionCount =
      (calls.filterMap (Call.added? type)).length := by
    rw [positionCount_build, hholds.positionCount_eq]
  refine ⟨?_, ?_, ?_, hlength, fun i value hvalue => hholds.shows_build hvalue, ?_⟩
  · intro before c after hsplit
    obtain ⟨-, hbefore, -⟩ := holds_run_of_withCapacity hstart before
    have hsourced : c.Sourced := hcalls c (by rw [hsplit]; simp)
    have hcall := call_succeeds_iff (b := (start.run before).1) hsourced
    rw [hbefore] at hcall
    exact ⟨hcall, state_call_of_failed⟩
  · rw [type_build, htype]
  · rw [hlength, hcount]
  · intro i hi
    -- A cell that can be read lies within the block.
    cases hvalue : (start.run calls).1.build.getValue i with
    | error failure => exact ⟨failure, rfl⟩
    | ok value =>
      have hlt := hholds.intact.build.exists_getValue_iff.1 ⟨value, hvalue⟩
      exact absurd hlt (Nat.not_lt.2 hi)

/-- A column of longs that is offered a string, a null, the one cell of another
column, a cell past the end of it, and a long. -/
theorem added_cells_read_back_mixed :
    ∃ source calls block,
      ((blank .long 0).push (.long 7)).build = source ∧
      ([.append (.string "x"), .appendNull, .writeTo source 0, .writeTo source 1,
        .append (.long (-1))] : List Call) = calls ∧
      ((blank .long 1).run calls).1.build = block ∧
      withCapacity .long 1 = .ok (blank .long 1) ∧ (∀ call ∈ calls, call.Sourced) ∧
      block.positionCount = 3 ∧
      block.Shows 0 .null ∧ block.Shows 1 (.long 7) ∧ block.Shows 2 (.long (-1)) ∧
      ∃ failure, block.getValue 3 = .error failure := by
  refine ⟨_, _, _, rfl, rfl, rfl, rfl, ?_⟩
  have hstart : withCapacity .long 1 = .ok (blank .long 1) := rfl
  have hseven : (blank .long 0).append (.long 7) = .ok ((blank .long 0).push (.long 7)) := rfl
  have hsource : ((blank .long 0).push (.long 7)).build.Built :=
    .build (.append (.withCapacity (withCapacity_zero .long)) hseven)
  have hcalls : ∀ call ∈ ([.append (.string "x"), .appendNull,
      .writeTo ((blank .long 0).push (.long 7)).build 0,
      .writeTo ((blank .long 0).push (.long 7)).build 1, .append (.long (-1))] : List Call),
      call.Sourced := by
    intro call hcall
    simp only [List.mem_cons, List.not_mem_nil, or_false] at hcall
    rcases hcall with rfl | rfl | rfl | rfl | rfl
    · trivial
    · trivial
    · exact hsource
    · exact hsource
    · trivial
  obtain ⟨-, -, -, hcount, hshows, hpast⟩ :=
    added_cells_read_back hstart _ hcalls
  exact ⟨hcalls, hcount, hshows 0 .null rfl, hshows 1 (.long 7) rfl,
    hshows 2 (.long (-1)) rfl, hpast 3 (Nat.le_of_eq hcount)⟩

end BlockBuilder

end Columnar
