import Seams.Script.Reader

/-!
# Rules of the grammar

The rules of a grammar refer to each other. Each module below defines some of them, given readers
for those it refers to; the whole is tied together where a program is read.

## Main definitions

* `Script.Rule` — the rules that others refer to
* `Script.Grammar` — a reader for each of them
* `Script.isReserved`, `Grammar.identifier` — names
-/

namespace Seams.Script

/-- A rule that other rules refer to. The flag tells whether the operator `in` is allowed; it is
not in the head of a loop. -/
inductive Rule where
  | statement
  /-- One or more expressions with commas between them. -/
  | expression (allowIn : Bool)
  /-- An expression without commas. -/
  | single (allowIn : Bool)
  /-- An expression without commas that may yet turn out to be a pattern. -/
  | element (allowIn : Bool)
  /-- An operand with the operators in front of it. -/
  | operand (allowIn : Bool)
  /-- An operand without any operators. -/
  | primary (allowIn : Bool)
  /-- What a variable or a parameter is bound by. -/
  | pattern
  deriving DecidableEq, Repr

/-- A reader for each rule. -/
structure Grammar where
  read : Rule → Reader Node
  /-- A bound on the number of items in a list, and on the depth to which rules refer to rules. -/
  limit : Nat

/-! ### Names -/

/-- The words that cannot be names. -/
def reservedWords : List String :=
  ["break", "case", "catch", "class", "const", "continue", "debugger", "default", "delete", "do",
    "else", "export", "extends", "false", "finally", "for", "function", "if", "import", "in",
    "instanceof", "new", "null", "return", "super", "switch", "this", "throw", "true", "try",
    "typeof", "var", "void", "while", "with"]

/-- Whether a word cannot be a name. -/
def isReserved (text : String) : Bool :=
  reservedWords.contains text

namespace Grammar

/-- Whether a token is a name. -/
def isName : Token → Bool
  | .word text => !isReserved text
  | _ => false

/-- Whether a name comes next. -/
def atName : Reader Bool := do
  return isName (← Reader.token)

/-- A name, which stands for a variable. -/
def identifier : Reader Node := do
  Reader.require (← atName)
  Reader.leaf .identifier

/-- A name where a value is read or written. The undefined value has a kind of its own. -/
def variableName : Reader Node := do
  if ← Reader.atWord "undefined" then Reader.leaf (.other "undefined")
  else identifier

/-- Any word, as the name of a property. -/
def propertyWord : Reader Node := do
  match ← Reader.token with
  | .word _ => Reader.leaf (.other "property_identifier")
  | _ => failure

/-! ### Shorthands for common rules -/

/-- An expression without commas. -/
def single (g : Grammar) (allowIn : Bool := true) : Reader Node :=
  g.read (.single allowIn)

/-- One or more expressions. -/
def expression (g : Grammar) : Reader Node :=
  g.read (.expression true)

/-- Items with commas between them up to a closing sign. -/
def listUntil {α : Type} (g : Grammar) (close : String) (item : Reader α) : Reader (List α) :=
  Reader.separated close false item g.limit

/-- Items with commas between them up to a closing sign, where items may be left out. -/
def looseListUntil {α : Type} (g : Grammar) (close : String) (item : Reader α) :
    Reader (List α) :=
  Reader.separated close true item g.limit

/-- An expression between round brackets. -/
def bracketed (g : Grammar) : Reader Node := do
  Reader.sign "("
  let inner ← g.expression
  Reader.sign ")"
  return inner

/-- Statements up to a closing brace, which is taken too. -/
def statements (g : Grammar) : Reader (List Node) :=
  Reader.many (do
    if ← Reader.sign? "\x7d" then return none
    return some (← g.read .statement)) g.limit

/-- Statements between braces. -/
def block (g : Grammar) (kind : Kind := .other "statement_block") : Reader Node := do
  let start ← Reader.offset
  Reader.sign "\x7b"
  let body ← g.statements
  Reader.node kind start body

end Grammar

end Seams.Script
