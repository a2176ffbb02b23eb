import Seams.Text.Printable

/-!
# Names shown in messages

How a message shows a name or a list of names: between quotes, with what cannot be printed
replaced by its number, so that the message stays on one line and the end of each name is seen.

## Main definitions

* `Text.showName` — a name between quotes
* `Text.showNames` — a bracketed list of names
-/

namespace Seams.Text

/-- A number in lower-case hexadecimal, filled with zeros up to `width` digits. -/
def hexPadded (width n : Nat) : List Char :=
  let digits := Nat.toDigits 16 n
  List.replicate (width - digits.length) '0' ++ digits

/-- A character as it stands in a shown name that is closed by `mark`. -/
def showChar (mark : Char) (c : Char) : List Char :=
  if c = mark || c = '\\' then ['\\', c]
  else if c = '\n' then ['\\', 'n']
  else if c = '\r' then ['\\', 'r']
  else if c = '\t' then ['\\', 't']
  else if isPrintable c then [c]
  else if c.toNat ≤ 0xFF then '\\' :: 'x' :: hexPadded 2 c.toNat
  else if c.toNat ≤ 0xFFFF then '\\' :: 'u' :: hexPadded 4 c.toNat
  else '\\' :: 'U' :: hexPadded 8 c.toNat

/-- A name between single quotes, or between double quotes if it holds single ones only. -/
def showName (name : String) : String :=
  let chars := name.toList
  let mark := if chars.contains '\'' && !chars.contains '"' then '"' else '\''
  String.ofList (mark :: (chars.flatMap (showChar mark) ++ [mark]))

/-- A list of names between brackets. -/
def showNames (names : List String) : String :=
  "[" ++ ", ".intercalate (names.map showName) ++ "]"

end Seams.Text
