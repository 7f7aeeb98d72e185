/-!
# JSON values

The tree of a JSON text, with just as much detail as its readers look at.  A
number counts only if it is written as a plain natural number.  A string may be
written with escapes for halves of surrogate pairs that do not pair up; such a
string is well-formed JSON but denotes no text.

## Main definitions

* `Json` — the tree of a JSON text.
-/

namespace Columnar

/-- The tree of a JSON text. -/
inductive Json
  | null
  | boolean (b : Bool)
  /-- A number, with its value if it is written without a sign, a fraction and
  an exponent. -/
  | number (natural? : Option Nat)
  /-- A string, with its text if it denotes one. -/
  | string (text? : Option String)
  | array (items : List Json)
  /-- An object: its members in order, with repetitions, each with its name if
  that denotes a text. -/
  | object (members : List (Option String × Json))

end Columnar
