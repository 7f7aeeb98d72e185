import Columnar.Json.DataType
import Columnar.Json.Options
import Columnar.Proofs.StandardCodec

/-!
# Options and column types as text

Whatever codec is in use, options are read back from what is written for them, as long as
the codec does what a codec has to do.  The fields of an options object may come in any
order, with any blanks, and among fields of any other name and value.  Those are read over,
even where they are repeated.  A field of the options is given once or left out.

## Main results

* `DataType.ofText?_toText` — column types are read back from what is written for them.
* `IndexOptions.ofText?_of_gives`, `IndexOptions.ofText?_of_repeated` — an object is read by
  its two fields alone, and refused if it repeats one.
* `IndexOptions.options_read_as_written` — **options are read back from what is written
  for them, and from any object that gives each field at most once.**
-/

namespace Columnar

/-! ### Column types -/

namespace DataType

theorem plain_name (t : DataType) : ∀ c ∈ t.name.toList, Json.Plain c := by
  cases t <;> simp [name, Json.Plain]

theorem ofName?_name (t : DataType) : ofName? t.name = some t := by
  cases t <;> decide

/-- Column types are read back from what is written for them. -/
theorem ofText?_toText [codec : Json.Codec] (hcodec : codec.Lawful) (t : DataType) :
    ofText? t.toText = some t := by
  have hname : t.name ∈ all.map name := List.mem_map_of_mem (by cases t <;> decide)
  have hread := hcodec.read_name _ _ t.name hname (hcodec.write_name t.name t.plain_name)
  rw [ofText?, toText, hread]
  exact t.ofName?_name

end DataType

namespace IndexOptions

/-! ### Options objects -/

/-- What is written for options gives both fields. -/
theorem gives_members {options : IndexOptions} (hcapacity : options.chunkCapacity < Size.limit)
    (hrows : options.maxChunkRows < Size.limit) :
    Json.Gives options.record.members "chunk_capacity" (some options.chunkCapacity) ∧
      Json.Gives options.record.members "max_chunk_rows" (some options.maxChunkRows) :=
  ⟨.once (by simp [Json.valuesOf, Json.Record.members, record]) hcapacity,
    .once (by simp [Json.valuesOf, Json.Record.members, record]) hrows⟩

section Objects

variable [codec : Json.Codec] {members : List (String × Json)} {text : String}

/-- An object is read by its two fields alone, whatever else it has. -/
theorem ofText?_of_gives (hcodec : codec.Lawful) {capacity? rows? : Option Nat}
    (htext : Json.ElementText (.object (Json.named members)) text.toList)
    (hcapacity : Json.Gives members "chunk_capacity" capacity?)
    (hrows : Json.Gives members "max_chunk_rows" rows?) :
    ofText? text = some {
      chunkCapacity := capacity?.getD usual.chunkCapacity
      maxChunkRows := rows?.getD usual.maxChunkRows } := by
  let given : Json.Given := fun name => if name = "chunk_capacity" then capacity? else rows?
  have hgives : ∀ name ∈ usual.record.names, Json.Gives members name (given name) := by
    rintro _ (_ | ⟨_, _ | ⟨_, ⟨⟩⟩⟩)
    · exact hcapacity
    · exact hrows
  rw [ofText?, hcodec.readRecord_of_gives htext hgives]
  rfl

/-- An object that repeats one of the fields is refused. -/
theorem ofText?_of_repeated (hcodec : codec.Lawful) {name : String}
    (htext : Json.ElementText (.object (Json.named members)) text.toList)
    (hname : name ∈ ["chunk_capacity", "max_chunk_rows"])
    (hrepeated : 2 ≤ (Json.valuesOf members name).length) : ofText? text = none := by
  rw [ofText?, hcodec.readRecord_of_repeated htext hname hrepeated]
  rfl

end Objects

/-- **Options are read as they are written.**  What is written for options of any size is
read as the same options.  Any object that gives each of the two fields at most once, as a
size, is read as the options with these sizes and the usual ones for fields that are left
out, in whatever order and among whatever other members they stand.  An object that gives
one of the two fields more than once is refused. -/
theorem options_read_as_written [codec : Json.Codec] (hcodec : codec.Lawful) :
    (∀ options : IndexOptions, options.chunkCapacity < Size.limit →
      options.maxChunkRows < Size.limit → ofText? options.toText = some options) ∧
    ∀ (text : String) (members : List (String × Json)),
      Json.ElementText (.object (Json.named members)) text.toList →
      (∀ capacity? rows? : Option Nat, Json.Gives members "chunk_capacity" capacity? →
        Json.Gives members "max_chunk_rows" rows? →
        ofText? text = some {
          chunkCapacity := capacity?.getD 16
          maxChunkRows := rows?.getD 4294967296 }) ∧
      ∀ name ∈ ["chunk_capacity", "max_chunk_rows"],
        2 ≤ (Json.valuesOf members name).length → ofText? text = none := by
  refine ⟨fun options hcapacity hrows => ?_, fun text members htext => ⟨?_, ?_⟩⟩
  · have hgives := gives_members hcapacity hrows
    exact ofText?_of_gives hcodec (hcodec.write_record options.record) hgives.1 hgives.2
  · exact fun capacity? rows? => ofText?_of_gives hcodec htext
  · exact fun name => ofText?_of_repeated hcodec htext

/-- Fields in another order among unknown ones, one of these repeated, a field left out, and
a field repeated with a value that is no size. -/
theorem options_read_as_written_reordered :
    toText ⟨0, 7⟩ = "\x7b\"chunk_capacity\":0,\"max_chunk_rows\":7\x7d" ∧
    ofText? (toText ⟨0, 7⟩) = some ⟨0, 7⟩ ∧
    ofText? " \x7b\"x\":[],\"max_chunk_rows\":5,\"x\":null ,\"chunk_capacity\":3\x7d" =
      some ⟨3, 5⟩ ∧
    ofText? "\x7b\"chunk_capacity\":3,\"x\":[]\x7d" = some ⟨3, 4294967296⟩ ∧
    ofText? "\x7b\"max_chunk_rows\":5\x7d" = some ⟨16, 5⟩ ∧
    ofText? "\x7b\"chunk_capacity\":3,\"chunk_capacity\":null \x7d" = none := by
  have hspace : Json.Blanks [' '] := by simp [Json.Blanks]
  have hnull : Json.ElementText .null ['n', 'u', 'l', 'l', ' '] :=
    .mk Json.blanks_nil .null hspace
  have harray : Json.ElementText (.array []) ['[', ']'] :=
    (Json.ValueText.emptyArray Json.blanks_nil).element
  have hplain : ∀ c ∈ "x".toList, Json.Plain c := by simp [Json.Plain]
  have hplainCapacity : ∀ c ∈ "chunk_capacity".toList, Json.Plain c := by simp [Json.Plain]
  have hplainRows : ∀ c ∈ "max_chunk_rows".toList, Json.Plain c := by simp [Json.Plain]
  have hcapacity := Json.memberText_field hplainCapacity 3
  have hrows := Json.memberText_field hplainRows 5
  have hreordered : Json.ElementText (.object (Json.named [("x", .array []),
      ("max_chunk_rows", .number (some 5)), ("x", .null), ("chunk_capacity", .number (some 3))]))
      " \x7b\"x\":[],\"max_chunk_rows\":5,\"x\":null ,\"chunk_capacity\":3\x7d".toList :=
    .mk hspace (.object (.more (harray.member hplain) (.more hrows
      (.more (hnull.member hplain) (.one hcapacity))))) Json.blanks_nil
  have hcapacityOnly : Json.ElementText (.object (Json.named
      [("chunk_capacity", .number (some 3)), ("x", .array [])]))
      "\x7b\"chunk_capacity\":3,\"x\":[]\x7d".toList :=
    (Json.ValueText.object (.more hcapacity (.one (harray.member hplain)))).element
  have hrowsOnly : Json.ElementText (.object (Json.named [("max_chunk_rows", .number (some 5))]))
      "\x7b\"max_chunk_rows\":5\x7d".toList := (Json.ValueText.object (.one hrows)).element
  have hrepeated : Json.ElementText (.object (Json.named
      [("chunk_capacity", .number (some 3)), ("chunk_capacity", .null)]))
      "\x7b\"chunk_capacity\":3,\"chunk_capacity\":null \x7d".toList :=
    (Json.ValueText.object (.more hcapacity (.one (hnull.member hplainCapacity)))).element
  have hread := options_read_as_written Json.lawful_standard
  exact ⟨by decide, hread.1 ⟨0, 7⟩ (by decide) (by decide),
    (hread.2 _ _ hreordered).1 (some 3) (some 5) (.once rfl (by decide)) (.once rfl (by decide)),
    (hread.2 _ _ hcapacityOnly).1 (some 3) none (.once rfl (by decide)) (.absent rfl),
    (hread.2 _ _ hrowsOnly).1 none (some 5) (.absent rfl) (.once rfl (by decide)),
    (hread.2 _ _ hrepeated).2 "chunk_capacity" (by simp) (by decide)⟩

end IndexOptions

end Columnar
