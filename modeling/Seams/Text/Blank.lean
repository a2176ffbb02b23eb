/-!
# Blank characters and trimming

The characters that are trimmed where a name is cut out of a function or class: Unicode white
space and the four information separators. The byte order mark and the zero-width characters are
not among them.

## Main definitions

* `Text.isBlank` — the class of blank characters
* `Text.trimStart`, `Text.trimEnd` — a text without the blanks at one end
-/

namespace Seams.Text

/-- The characters trimmed at the ends of a piece of code: the controls U+0009 to U+000D and U+001C
to U+001F, and every character with the Unicode property White_Space. -/
def isBlank (c : Char) : Bool :=
  let n := c.toNat
  (0x09 ≤ n && n ≤ 0x0D) || (0x1C ≤ n && n ≤ 0x20) || n == 0x85 || n == 0xA0 || n == 0x1680 ||
    (0x2000 ≤ n && n ≤ 0x200A) || n == 0x2028 || n == 0x2029 || n == 0x202F || n == 0x205F ||
    n == 0x3000

/-- A text without the blanks it begins with. -/
def trimStart (text : String) : String :=
  String.ofList (text.toList.dropWhile isBlank)

/-- A text without the blanks it ends with. -/
def trimEnd (text : String) : String :=
  String.ofList (text.toList.reverse.dropWhile isBlank).reverse

end Seams.Text
