import Columnar.Block.Basic

/-!
# Block builders

A builder takes the cells of one column in order, as values or straight from
the cells of another block, and then yields the block.  A null fits a column of
any type; every other value must have the type of the builder.  A cell that
does not fit leaves the builder as it was.

## Main definitions

* `BlockBuilder` — a column under construction.
* `BlockBuilder.withCapacity` — a builder without cells.
* `BlockBuilder.append`, `BlockBuilder.appendNull` — add a value.
* `Block.writeTo` — adds the cell of a block.
* `BlockBuilder.build` — the finished block.
-/

namespace Columnar

/-- A column of one of the five types under construction. -/
inductive BlockBuilder
  | int (builder : FixedBuilder Int32)
  | long (builder : FixedBuilder Int64)
  | double (builder : FixedBuilder Double)
  | boolean (builder : FixedBuilder Bool)
  | varchar (builder : TextBuilder)

namespace BlockBuilder

/-- A builder without cells, with room for the marks of the given number. -/
def blank (type : DataType) (capacity : Nat) : BlockBuilder :=
  match type with
  | .int => int (.withCapacity capacity)
  | .long => long (.withCapacity capacity)
  | .double => double (.withCapacity capacity)
  | .boolean => boolean (.withCapacity capacity)
  | .varchar => varchar (.blank capacity)

/-- A builder without cells, with room for the given number of them, if a column
of the type can have that room. -/
def withCapacity (type : DataType) (capacity : Nat) : Result BlockBuilder :=
  match type.fixedSize? with
  | none => varchar <$> TextBuilder.withCapacity capacity
  | some width => do
    Size.room capacity width
    return blank type capacity

theorem withCapacity_zero (type : DataType) : withCapacity type 0 = .ok (blank type 0) := by
  cases type <;> rfl

def type : BlockBuilder → DataType
  | int _ => .int
  | long _ => .long
  | double _ => .double
  | boolean _ => .boolean
  | varchar _ => .varchar

def positionCount : BlockBuilder → Nat
  | int b => b.length
  | long b => b.length
  | double b => b.length
  | boolean b => b.length
  | varchar b => b.length

def appendNull : BlockBuilder → BlockBuilder
  | int b => int b.pushNull
  | long b => long b.pushNull
  | double b => double b.pushNull
  | boolean b => boolean b.pushNull
  | varchar b => varchar b.pushNull

/-- Whether a value fits the column: it is a null or has the type of the
builder. -/
def accepts (builder : BlockBuilder) (value : Value) : Bool :=
  match value.type? with
  | none => true
  | some type => type == builder.type

/-- Checks that a value fits the column. -/
def check (builder : BlockBuilder) (value : Value) : Result Unit :=
  Result.require (builder.accepts value) (.valueType value builder.type)

/-- Adds a value that fits the column; any other is passed over. -/
def push (builder : BlockBuilder) (value : Value) : BlockBuilder :=
  match builder, value with
  | b, .null => b.appendNull
  | int b, .int n => int (b.push n)
  | long b, .long n => long (b.push n)
  | double b, .double x => double (b.push x)
  | boolean b, .boolean x => boolean (b.push x)
  | varchar b, .string s => varchar (b.push s)
  | b, _ => b

/-- Adds a value, which must be a null or have the type of the builder. -/
def append (builder : BlockBuilder) (value : Value) : Result BlockBuilder := do
  builder.check value
  return builder.push value

def build : BlockBuilder → Block
  | int b => .int b.build
  | long b => .long b.build
  | double b => .double b.build
  | boolean b => .boolean b.build
  | varchar b => .varchar b.build

end BlockBuilder

/-- Adds the cell at a position to a builder, which must have the type of the
block unless the cell is null. -/
def Block.writeTo (block : Block) (position : Nat) (builder : BlockBuilder) :
    Result BlockBuilder := do
  if ← block.isNull position then return builder.appendNull
  match block, builder with
  | .int c, .int b => return .int (b.push (← c.get position))
  | .long c, .long b => return .long (b.push (← c.get position))
  | .double c, .double b => return .double (b.push (← c.get position))
  | .boolean c, .boolean b => return .boolean (b.push (← c.get position))
  | .varchar c, .varchar b => return .varchar (b.push (← c.get position))
  | c, b => Result.misuse (.cellType c.type b.type)

end Columnar
