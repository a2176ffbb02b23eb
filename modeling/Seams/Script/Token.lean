import Seams.Script.Char

/-!
# Tokens of ECMAScript

What tokens look like. Each rule says how many characters a token of its sort takes from the front
of the source. A regular expression and the text inside a template look like other tokens, so they
are read only where the grammar asks for them.

## Main definitions

* `Script.wordLength`, `numberLength`, `stringLength?`, `signAtFront?` — tokens found anywhere
* `Script.regexLength?`, `templateTextLength` — tokens read on demand
* `Script.Token`, `Script.scan` — the token at the front of the source
-/

namespace Seams.Script

/-! ### Runs of pieces -/

/-- How many characters a run of pieces takes, of which the first one is entered up to the last
`inside` of its characters. The function `piece` gives the length of the piece at the front, and
zero where the run ends. -/
def runLengthFrom (piece : List Char → Nat) : Nat → List Char → Nat
  | _, [] => 0
  | inside + 1, _ :: rest => 1 + runLengthFrom piece inside rest
  | 0, c :: rest =>
    match piece (c :: rest) with
    | 0 => 0
    | n + 1 => 1 + runLengthFrom piece n rest

/-- How many characters the longest run of pieces takes. -/
def runLength (piece : List Char → Nat) (source : List Char) : Nat :=
  runLengthFrom piece 0 source

/-- How many characters in a row are in a class. -/
def spanLength (p : Char → Bool) (source : List Char) : Nat :=
  (source.takeWhile p).length

/-! ### Escapes -/

/-- The length of a numbered escape, which begins with the `u` after a backslash, or zero. -/
def unicodeEscapeLength : List Char → Nat
  | 'u' :: '\x7b' :: rest =>
    let digits := spanLength isHexDigit rest
    if 0 < digits && (rest.drop digits).head? == some '\x7d' then digits + 3 else 0
  | 'u' :: rest => if 4 ≤ spanLength isHexDigit (rest.take 4) then 5 else 0
  | _ => 0

/-- The length of what a backslash in a string escapes, or zero if it may not stand there. -/
def escapeLength : List Char → Nat
  | 'u' :: rest => unicodeEscapeLength ('u' :: rest)
  | 'x' :: rest => if 2 ≤ spanLength isHexDigit (rest.take 2) then 3 else 0
  | '\r' :: '\n' :: _ => 2
  | _ :: _ => 1
  | [] => 0

/-- The length of an escape with its backslash, or zero. -/
def backslashLength (source : List Char) : Nat :=
  match escapeLength source with
  | 0 => 0
  | n + 1 => n + 2

/-! ### Tokens found anywhere -/

/-- The length of a piece of a word: a character, or a numbered escape. -/
def wordPieceLength : List Char → Nat
  | '\\' :: rest =>
    match unicodeEscapeLength rest with
    | 0 => 0
    | n + 1 => n + 2
  | c :: _ => if isWordPart c then 1 else 0
  | [] => 0

/-- The length of the word at the front, or zero. -/
def wordLength (source : List Char) : Nat :=
  match source with
  | c :: _ => if c.isDigit then 0 else runLength wordPieceLength source
  | [] => 0

/-- The length of a piece of a run of digits: a digit, perhaps with an underscore in front. -/
def digitPieceLength (isDigit : Char → Bool) : List Char → Nat
  | '_' :: c :: _ => if isDigit c then 2 else 0
  | c :: _ => if isDigit c then 1 else 0
  | [] => 0

/-- The length of a run of digits, which underscores may group. -/
def digitsLength (isDigit : Char → Bool) (source : List Char) : Nat :=
  if source.head?.any isDigit then runLength (digitPieceLength isDigit) source else 0

/-- The length of an exponent, or zero. -/
def exponentLength : List Char → Nat
  | e :: rest =>
    if e == 'e' || e == 'E' then
      let sign := if rest.head? == some '+' || rest.head? == some '-' then 1 else 0
      let digits := digitsLength Char.isDigit (rest.drop sign)
      if digits == 0 then 0 else 1 + sign + digits
    else 0
  | [] => 0

/-- The length of a fraction with its point, or zero. -/
def fractionLength : List Char → Nat
  | '.' :: rest => 1 + digitsLength Char.isDigit rest
  | _ => 0

/-- The digits of the base that a letter behind a zero stands for. -/
def baseDigit? (base : Char) : Option (Char → Bool) :=
  if base = 'x' || base = 'X' then some isHexDigit
  else if base = 'o' || base = 'O' then some fun c => '0' ≤ c && c ≤ '7'
  else if base = 'b' || base = 'B' then some fun c => c == '0' || c == '1'
  else none

/-- The length of a whole number in another base than ten, or zero. -/
def basedLength : List Char → Nat
  | '0' :: base :: rest =>
    match baseDigit? base with
    | some isDigit =>
      match digitsLength isDigit rest with
      | 0 => 0
      | n + 1 => n + 3
    | none => 0
  | _ => 0

/-- The length of the letter behind a whole number of any size, or zero. -/
def bigEndLength : List Char → Nat
  | 'n' :: _ => 1
  | _ => 0

/-- Whether digits begin with zeros that only a whole number may have. -/
def hasLeadingZeros : List Char → Bool
  | '0' :: c :: _ => c == '0' || c == '_'
  | _ => false

/-- The length of a number in base ten, with its fraction and its exponent. -/
def decimalLength (source : List Char) : Nat :=
  let whole := digitsLength Char.isDigit source
  if 0 < bigEndLength (source.drop whole) then whole + 1
  else if hasLeadingZeros source then whole
  else
    let fraction := fractionLength (source.drop whole)
    whole + fraction + exponentLength (source.drop (whole + fraction))

/-- The length of the number at the front, which a digit or a point begins. -/
def numberLength (source : List Char) : Nat :=
  match basedLength source with
  | 0 => decimalLength source
  | n + 1 => n + 1 + bigEndLength (source.drop (n + 1))

/-- The length of a piece of a string that `mark` closes: a character or an escape. -/
def stringPieceLength (mark : Char) : List Char → Nat
  | '\\' :: rest => backslashLength rest
  | c :: _ => if c == mark || c == '\n' || c == '\r' then 0 else 1
  | [] => 0

/-- The length of the string at the front, if it is closed. -/
def stringLength? : List Char → Option Nat
  | mark :: rest =>
    let inner := runLength (stringPieceLength mark) rest
    if (rest.drop inner).head? == some mark then some (inner + 2) else none
  | [] => none

/-- The signs, the longer before the shorter. -/
def signs : List String :=
  [">>>=", "...", "===", "!==", "**=", "<<=", ">>=", ">>>", "&&=", "||=", "??=", "=>", "==", "!=",
    "<=", ">=", "&&", "||", "??", "?.", "++", "--", "+=", "-=", "*=", "/=", "%=", "&=", "|=", "^=",
    "<<", ">>", "**", "\x7b", "\x7d", "(", ")", "[", "]", ";", ",", "<", ">", "+", "-", "*", "/",
    "%", "&", "|", "^", "!", "~", "?", ":", "=", ".", "@"]

/-- The sign at the front. A question mark before a number with a leading point stands alone. -/
def signAtFront? (source : List Char) : Option String :=
  match source with
  | '?' :: '.' :: c :: _ => if c.isDigit then some "?" else some "?."
  | _ => signs.find? fun sign => sign.toList.isPrefixOf source

/-! ### Tokens read on demand -/

/-- The length of a piece of a character class in a regular expression. -/
def classPieceLength : List Char → Nat
  | '\\' :: c :: _ => if c == '\n' then 0 else 2
  | c :: _ => if c == ']' || c == '\n' || c == '\\' then 0 else 1
  | [] => 0

/-- The length of a piece of a regular expression: a character, an escape or a class. -/
def regexPieceLength : List Char → Nat
  | '[' :: rest =>
    let inner := runLength classPieceLength rest
    if (rest.drop inner).head? == some ']' then inner + 2 else 0
  | '\\' :: c :: _ => if c == '\n' then 0 else 2
  | c :: _ => if c == '/' || c == '\\' || c == '\n' then 0 else 1
  | [] => 0

/-- The length of the regular expression at the front with its flags, if it is closed. -/
def regexLength? : List Char → Option Nat
  | '/' :: rest =>
    let inner := runLength regexPieceLength rest
    let after := rest.drop inner
    if 0 < inner && after.head? == some '/' then
      some (inner + 2 + spanLength Char.isLower after.tail)
    else none
  | _ => none

/-- The length of a piece of text in a template. -/
def templatePieceLength : List Char → Nat
  | '\\' :: rest => backslashLength rest
  | '$' :: '\x7b' :: _ => 0
  | c :: _ => if c == '\x60' then 0 else 1
  | [] => 0

/-- The length of the text in a template up to its end or its next gap. -/
def templateTextLength (source : List Char) : Nat :=
  runLength templatePieceLength source

/-! ### The token at the front -/

/-- A token. A word may be a keyword or a name. -/
inductive Token where
  | word (text : String)
  /-- A name with a hash in front. -/
  | privateName
  | number
  | string
  /-- The back quote that begins a template. -/
  | backQuote
  | sign (text : String)
  /-- The end of the source. -/
  | ending
  /-- Nothing that could be a token. -/
  | unknown
  deriving DecidableEq, Repr

/-- The token at the front of the source, where no blank stands, and its length. -/
def scan (source : List Char) : Token × Nat :=
  match source with
  | [] => (.ending, 0)
  | c :: rest =>
    if 0 < wordLength source then
      let length := wordLength source
      (.word (String.ofList (source.take length)), length)
    else if c.isDigit || (c == '.' && (rest.head?.any Char.isDigit)) then
      (.number, numberLength source)
    else if c == '"' || c == '\'' then
      match stringLength? source with
      | some length => (.string, length)
      | none => (.unknown, 1)
    else if c == '\x60' then (.backQuote, 1)
    else if c == '#' then
      if 0 < wordLength rest then (.privateName, wordLength rest + 1) else (.unknown, 1)
    else
      match signAtFront? source with
      | some text => (.sign text, text.length)
      | none => (.unknown, 1)

end Seams.Script
