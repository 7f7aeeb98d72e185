/-!
# JSON strings

The content of a JSON string is read item by item: a character stands for
itself, and an escape for a character or for one half of a surrogate pair.  The
halves are joined afterwards, and a half without its partner makes the string
denote no text.

## Main definitions

* `StringItem` — what one character or escape stands for.
* `StringItem.readAll` — the items up to the closing quote.
* `StringItem.join` — the text the items denote.
-/

namespace Columnar.Json

/-- What one character or escape of a string stands for. -/
inductive StringItem
  | char (c : Char)
  /-- The first half of a surrogate pair, less its mark. -/
  | high (bits : Nat)
  /-- The second half of a surrogate pair, less its mark. -/
  | low (bits : Nat)
  deriving DecidableEq, Repr

namespace StringItem

/-- The value of a hexadecimal digit of either case. -/
def hexDigit? (c : Char) : Option Nat :=
  let n := c.toNat
  if '0'.toNat ≤ n ∧ n ≤ '9'.toNat then some (n - '0'.toNat)
  else if 'a'.toNat ≤ n ∧ n ≤ 'f'.toNat then some (n - 'a'.toNat + 10)
  else if 'A'.toNat ≤ n ∧ n ≤ 'F'.toNat then some (n - 'A'.toNat + 10)
  else none

/-- The 16-bit unit that four hexadecimal digits denote. -/
def ofHex? (a b c d : Char) : Option StringItem := do
  let n := (((← hexDigit? a) * 16 + (← hexDigit? b)) * 16 + (← hexDigit? c)) * 16 + (← hexDigit? d)
  return if 0xd800 ≤ n ∧ n < 0xdc00 then high (n - 0xd800)
    else if 0xdc00 ≤ n ∧ n < 0xe000 then low (n - 0xdc00)
    else char (Char.ofNat n)

/-- The character that a single letter after a backslash denotes. -/
def ofEscape? : Char → Option StringItem
  | '"' => some (char '"')
  | '\\' => some (char '\\')
  | '/' => some (char '/')
  | 'b' => some (char '\x08')
  | 'f' => some (char '\x0c')
  | 'n' => some (char '\n')
  | 'r' => some (char '\r')
  | 't' => some (char '\t')
  | _ => none

/-- The items from after an opening quote up to the closing one, and what
follows it.  Control characters have to be escaped. -/
def readAll : List Char → Option (List StringItem × List Char)
  | [] => none
  | '"' :: rest => some ([], rest)
  | '\\' :: 'u' :: a :: b :: c :: d :: rest => do
    let item ← ofHex? a b c d
    let (items, rest) ← readAll rest
    return (item :: items, rest)
  | '\\' :: e :: rest => do
    let item ← ofEscape? e
    let (items, rest) ← readAll rest
    return (item :: items, rest)
  | c :: rest => do
    guard (0x20 ≤ c.toNat)
    let (items, rest) ← readAll rest
    return (char c :: items, rest)

/-- The characters that items denote, if every half of a surrogate pair stands
next to its partner. -/
def joinChars : List StringItem → Option (List Char)
  | [] => some []
  | char c :: rest => (c :: ·) <$> joinChars rest
  | high h :: low l :: rest =>
    (Char.ofNat (0x10000 + h * 0x400 + l) :: ·) <$> joinChars rest
  | _ :: _ => none

/-- The text that items denote. -/
def join (items : List StringItem) : Option String := String.ofList <$> joinChars items

end StringItem

end Columnar.Json
