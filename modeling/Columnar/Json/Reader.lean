import Columnar.Json.Basic
import Columnar.Json.Number
import Columnar.Json.Text

/-!
# Reading JSON

A strict reader: blanks are spaces, tabs, line feeds and carriage returns, and
may stand around any value and punctuation mark; nothing may follow the value.
Nesting is not limited.

## Main definitions

* `Json.readValue` — a value at the front of a text.
* `Json.parse?` — the tree of a whole text.
-/

namespace Columnar.Json

/-- The characters that may stand between the parts of a text. -/
def isBlank (c : Char) : Bool := c == ' ' || c == '\t' || c == '\n' || c == '\r'

/-- What follows the blanks at the front. -/
def skipBlanks (cs : List Char) : List Char := cs.dropWhile isBlank

/-- A string at the front, with its opening quote, and what follows it. -/
def readString : List Char → Option (Option String × List Char)
  | '"' :: cs => do
    let (items, rest) ← StringItem.readAll cs
    return (StringItem.join items, rest)
  | _ => none

/-- What follows a given punctuation mark and the blanks before it. -/
def expect (mark : Char) (cs : List Char) : Option (List Char) :=
  match skipBlanks cs with
  | c :: rest => if c = mark then some rest else none
  | [] => none

mutual

/-- A value at the front, after blanks, and what follows it.  The number bounds
the depth of the calls. -/
def readValue : Nat → List Char → Option (Json × List Char)
  | 0, _ => none
  | fuel + 1, cs =>
    match skipBlanks cs with
    | '\x7b' :: rest =>
      match expect '\x7d' rest with
      | some rest => some (object [], rest)
      | none => do
        let (members, rest) ← readMembers fuel rest
        return (object members, rest)
    | '[' :: rest =>
      match expect ']' rest with
      | some rest => some (array [], rest)
      | none => do
        let (items, rest) ← readItems fuel rest
        return (array items, rest)
    | '"' :: rest => do
      let (text?, rest) ← readString ('"' :: rest)
      return (string text?, rest)
    | 'n' :: 'u' :: 'l' :: 'l' :: rest => some (null, rest)
    | 't' :: 'r' :: 'u' :: 'e' :: rest => some (boolean true, rest)
    | 'f' :: 'a' :: 'l' :: 's' :: 'e' :: rest => some (boolean false, rest)
    | rest => do
      let (numeral, rest) ← Numeral.read rest
      return (number numeral.natural?, rest)

/-- One or more items of an array with the closing bracket, and what follows. -/
def readItems : Nat → List Char → Option (List Json × List Char)
  | 0, _ => none
  | fuel + 1, cs => do
    let (item, rest) ← readValue fuel cs
    match expect ']' rest with
    | some rest => return ([item], rest)
    | none =>
      let (items, rest) ← readItems fuel (← expect ',' rest)
      return (item :: items, rest)

/-- One or more members of an object with the closing brace, and what
follows. -/
def readMembers : Nat → List Char → Option (List (Option String × Json) × List Char)
  | 0, _ => none
  | fuel + 1, cs => do
    let (name?, rest) ← readString (skipBlanks cs)
    let (value, rest) ← readValue fuel (← expect ':' rest)
    match expect '\x7d' rest with
    | some rest => return ([(name?, value)], rest)
    | none =>
      let (members, rest) ← readMembers fuel (← expect ',' rest)
      return ((name?, value) :: members, rest)

end

/-- The tree of a text that is one JSON value.  Each level of nesting and each
item takes a character at least and two calls at most. -/
def parse? (text : String) : Option Json := do
  let cs := text.toList
  let (value, rest) ← readValue (2 * cs.length + 2) cs
  guard (skipBlanks rest).isEmpty
  return value

end Columnar.Json
