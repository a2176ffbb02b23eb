/-!
# Characters of ECMAScript source

The classes of characters that decide where a word, a number or a blank begins and ends. Words may
hold any character that has no other meaning, so the classes are given by what they leave out.

## Main definitions

* `Script.isSpace`, `Script.endsLine` — blanks and line ends
* `Script.isWordPart` — characters of words
* `Script.isLetter`, `Script.isHexDigit` — letters and hexadecimal digits
-/

namespace Seams.Script

/-- The blanks between tokens: the ASCII blanks, the space separators, the line and paragraph
separators, the byte order mark and the zero-width characters that separate words. -/
def isSpace (c : Char) : Bool :=
  let n := c.toNat
  (0x09 ≤ n && n ≤ 0x0D) || n == 0x20 || n == 0xA0 || n == 0x1680 || (0x2000 ≤ n && n ≤ 0x200B) ||
    n == 0x2028 || n == 0x2029 || n == 0x202F || n == 0x205F || n == 0x2060 || n == 0x3000 ||
    n == 0xFEFF

/-- The characters that end a line. -/
def endsLine (c : Char) : Bool :=
  c == '\n' || c.toNat == 0x2028 || c.toNat == 0x2029

/-- The characters that stand for themselves between words. -/
def marks : List Char :=
  ":;`\"'@#.,|^&<=>+-*/\\%?!~()[]\x7b\x7d".toList

/-- A character that can stand inside a word. -/
def isWordPart (c : Char) : Bool :=
  0x20 ≤ c.toNat && !isSpace c && !marks.contains c

/-- A letter; characters of words beyond ASCII count as letters. -/
def isLetter (c : Char) : Bool :=
  c.isAlpha || 0x80 ≤ c.toNat

/-- A hexadecimal digit. -/
def isHexDigit (c : Char) : Bool :=
  c.isDigit || ('a' ≤ c && c ≤ 'f') || ('A' ≤ c && c ≤ 'F')

end Seams.Script
