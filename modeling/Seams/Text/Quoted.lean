/-!
# Quoted string literals

The string literals that go into generated code. They hold printable ASCII only: a quote, a
backslash and a control character are escaped, and so is every character beyond `~`, as one or two
UTF-16 units of four hexadecimal digits. Such a literal reads the same in JSON and in ECMAScript.

## Main definitions

* `Text.units` — the UTF-16 units of a character
* `Text.escape` — one character inside a literal
* `Text.quote` — a text as a literal
-/

namespace Seams.Text

/-- The UTF-16 units of a character: one, or a surrogate pair beyond U+FFFF. -/
def units (c : Char) : List Nat :=
  let n := c.toNat
  if n < 0x10000 then [n]
  else [0xD800 + (n - 0x10000) / 0x400, 0xDC00 + (n - 0x10000) % 0x400]

/-- A UTF-16 unit as an escape: four lower-case hexadecimal digits after a backslash and `u`. -/
def unitEscape (unit : Nat) : List Char :=
  let digit (weight : Nat) := Nat.digitChar (unit / weight % 16)
  ['\\', 'u', digit 0x1000, digit 0x100, digit 0x10, digit 1]

/-- The letter that escapes a character after a backslash, for the characters that have one. -/
def shortEscape? (c : Char) : Option Char :=
  if c = '"' then some '"'
  else if c = '\\' then some '\\'
  else if c = '\n' then some 'n'
  else if c = '\r' then some 'r'
  else if c = '\t' then some 't'
  else if c.toNat = 0x08 then some 'b'
  else if c.toNat = 0x0C then some 'f'
  else none

/-- A character as it stands inside a literal. -/
def escape (c : Char) : List Char :=
  match shortEscape? c with
  | some letter => ['\\', letter]
  | none => if 0x20 ≤ c.toNat ∧ c.toNat ≤ 0x7E then [c] else (units c).flatMap unitEscape

/-- The characters of a text between double quotes. -/
def quoteChars (text : List Char) : List Char :=
  '"' :: (text.flatMap escape ++ ['"'])

/-- A text as a string literal. -/
def quote (text : String) : String :=
  String.ofList (quoteChars text.toList)

end Seams.Text
