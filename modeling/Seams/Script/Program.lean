import Seams.Script.ModuleItem

/-!
# Reading a module

A module is read into its syntax tree. A source that does not follow the grammar is read too: its
tree consists of one node that marks a piece that could not be parsed.

## Main definitions

* `Script.grammar` — the rules tied together
* `Script.parse?` — the tree of a source that follows the grammar
* `Script.parse` — the tree of any source
-/

namespace Seams.Script

open Reader

/-! ### The rules tied together -/

/-- What a rule stands for, given readers for the rules it refers to. -/
def Rule.reader (g : Grammar) : Rule → Reader Node
  | .statement => g.statement
  | .expression allowIn => g.expressionList allowIn
  | .single allowIn => g.singleExpression allowIn
  | .element allowIn => g.element allowIn
  | .operand allowIn => g.operand allowIn
  | .primary allowIn => g.primary allowIn
  | .pattern => g.pattern

/-- The grammar in which rules refer to rules down to a given depth. -/
def grammar : Nat → Grammar
  | 0 => ⟨fun _ => failure, 0⟩
  | depth + 1 => ⟨fun rule => rule.reader (grammar depth), depth⟩

/-! ### Programs -/

/-- Read the line with which a script for the command line may begin. -/
def hashbang : Reader (List Node) := do
  let start ← offset
  match (← lexeme).source with
  | '#' :: '!' :: rest =>
    advanceBy (2 + spanLength (· != '\n') rest)
    return [← node .hashbang start []]
  | _ => return []

/-- The comments in front of the next token. -/
def comments : Reader (List Node) := do
  return (← lexeme).comments.map fun (start, stop) => { kind := .comment, start, stop }

/-- Read statements and the comments between them up to the end, at most `limit` of them. -/
def items (g : Grammar) : Nat → Reader (List Node)
  | 0 => failure
  | limit + 1 => do
    let before ← comments
    if (← token) == .ending then return before
    let statement ← g.read .statement
    return before ++ statement :: (← items g limit)

/-- Read a whole program. -/
def program (g : Grammar) : Reader (List Node) := do
  let before ← comments
  match ← hashbang with
  | [] => items g g.limit
  | line => return before ++ line ++ (← items g g.limit)

/-- The depth to which rules can refer to rules in a source of some length. Every few references a
token is taken, so this is never reached. -/
def depthFor (length : Nat) : Nat :=
  8 * length + 64

/-- The tree of a source that follows the grammar. -/
def parse? (source : String) : Option Node :=
  let chars := source.toList
  let cursor : Cursor := ⟨Lexeme.read 0 chars, 0⟩
  match (program (grammar (depthFor chars.length))).run cursor with
  | some (children, _) =>
    some { kind := .program, start := 0, stop := source.utf8ByteSize, children }
  | none => none

/-- The tree of a source. -/
def parse (source : String) : Node :=
  match parse? source with
  | some root => root
  | none =>
    let stop := source.utf8ByteSize
    { kind := .program, start := 0, stop, children := [{ kind := .error, start := 0, stop }] }

end Seams.Script
