import Seams.Script.Lexeme
import Seams.Tree.Node

/-!
# Reading source by the grammar

A reader takes tokens from the front of the source and gives a part of the syntax tree, or finds
that the source does not follow the grammar. It always has the next token at hand.

## Main definitions

* `Script.Cursor`, `Script.Reader` — how far the source has been read, and readers
* `Reader.advance`, `Reader.sign`, `Reader.word` and their optional forms — taking tokens
* `Reader.node` — making a node of what was read
* `Reader.many`, `Reader.separated` — repetition
* `Reader.endStatement` — the end of a statement, with or without a semicolon
-/

namespace Seams.Script

/-- How far the source has been read: the next token, and the end of the last one taken. -/
structure Cursor where
  next : Lexeme
  lastStop : Nat

/-- A reader of some part of the source. -/
abbrev Reader (α : Type) := StateT Cursor Option α

namespace Reader

/-! ### Tokens -/

/-- The next token in its place. -/
def lexeme : Reader Lexeme := do
  return (← get).next

/-- The next token. -/
def token : Reader Token := do
  return (← lexeme).token

/-- The offset of the next token. -/
def offset : Reader Nat := do
  return (← lexeme).start

/-- Take the first `count` characters from the next token on as one token. -/
def advanceBy (count : Nat) : Reader Unit :=
  modify fun cursor =>
    let stop := cursor.next.start + byteLength (cursor.next.source.take count)
    ⟨Lexeme.read stop (cursor.next.source.drop count), stop⟩

/-- Take the next token. -/
def advance : Reader Unit := do
  advanceBy (← lexeme).length

/-- Go on only if a condition holds. -/
def require (condition : Bool) : Reader Unit :=
  if condition then return () else failure

/-- What a reader would give here; nothing is taken. -/
def lookAhead {α : Type} (reader : Reader α) : Reader (Option α) :=
  fun cursor => some ((reader cursor).map Prod.fst, cursor)

/-- Whether the source follows a reader here; nothing is taken. -/
def follows {α : Type} (reader : Reader α) : Reader Bool := do
  return (← lookAhead reader).isSome

/-! ### Signs and words -/

/-- Whether a sign comes next. -/
def atSign (text : String) : Reader Bool := do
  return (← token) == .sign text

/-- Whether a word comes next. -/
def atWord (text : String) : Reader Bool := do
  return (← token) == .word text

/-- Take a sign if it comes next, and tell whether it did. -/
def sign? (text : String) : Reader Bool := do
  if ← atSign text then
    advance
    return true
  return false

/-- Take a word if it comes next, and tell whether it did. -/
def word? (text : String) : Reader Bool := do
  if ← atWord text then
    advance
    return true
  return false

/-- Take a sign, which has to come next. -/
def sign (text : String) : Reader Unit := do
  require (← sign? text)

/-- Take a word, which has to come next. -/
def word (text : String) : Reader Unit := do
  require (← word? text)

/-! ### Nodes -/

/-- A node from an offset up to the end of the last token taken. -/
def node (kind : Kind) (start : Nat) (children : List Node) (named : Bool := true) :
    Reader Node := do
  return { kind, start, stop := (← get).lastStop, named, children }

/-- Take the next token as a node. -/
def leaf (kind : Kind) (named : Bool := true) : Reader Node := do
  let start ← offset
  advance
  node kind start [] named

/-- Take a word, which has to come next, as a node without a construct of its own. -/
def keyword (text : String) : Reader Node := do
  require (← atWord text)
  leaf (.ofName text) false

/-! ### Repetition -/

/-- Read items until there are no more, at most `limit` of them. -/
def many {α : Type} (item : Reader (Option α)) : Nat → Reader (List α)
  | 0 => failure
  | limit + 1 => do
    match ← item with
    | none => return []
    | some value => return value :: (← many item limit)

/-- Read items with commas between them up to a closing sign, which is taken too. A comma may stand
behind the last item, and where `gaps` are allowed also in place of any item. -/
def separated {α : Type} (close : String) (gaps : Bool) (item : Reader α) :
    Nat → Reader (List α)
  | 0 => failure
  | limit + 1 => do
    if ← sign? close then return []
    if gaps then
      if ← sign? "," then return ← separated close gaps item limit
    let value ← item
    if !(← atSign close) then sign ","
    return value :: (← separated close gaps item limit)

/-! ### Ends of statements -/

/-- The words that continue an expression on the line before. -/
def continuingWords : List String := ["in", "instanceof"]

/-- Whether a word begins with one that continues the line before, and not as part of a longer run
of letters. -/
def beginsContinuing (text : String) : Bool :=
  continuingWords.any fun word =>
    word.toList.isPrefixOf text.toList && !(text.toList.drop word.length).head?.any isLetter

/-- The characters with which a sign continues a statement on the line before. -/
def continuingMarks : List Char := ",:;*%><=[(?^|&/.+-".toList

/-- Whether a token at the beginning of a line continues the statement before it. -/
def continues : Token → Bool
  | .word text => beginsContinuing text
  | .sign text =>
    text == "!=" || text == "!==" ||
      (text != "++" && text != "--" && text.toList.head?.any continuingMarks.contains)
  | .backQuote => true
  | _ => false

/-- Whether a statement may end before a token without a semicolon. -/
def endsBefore (lexeme : Lexeme) : Bool :=
  lexeme.token == .sign "\x7d" || lexeme.token == .ending ||
    (lexeme.newLine && !continues lexeme.token)

/-- Whether the statement ends here, so that nothing more of it can be read. -/
def atStatementEnd : Reader Bool := do
  let next ← lexeme
  return next.token == .sign ";" || endsBefore next

/-- The end of a statement: a semicolon, which is taken, or a place where it may be left out. -/
def endStatement : Reader Unit := do
  if !(← sign? ";") then require (endsBefore (← lexeme))

end Reader

end Seams.Script
