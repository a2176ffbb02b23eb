import Seams.Script.Cover
import Seams.Script.Grammar

/-!
# Properties, parameters and bodies

The parts that functions, classes and literals have in common, and the patterns that bind
variables.

## Main definitions

* `Grammar.propertyName` — the names of properties
* `Grammar.pattern` — patterns
* `Grammar.parameters`, `Grammar.functionRest` — the parts of a function
* `Grammar.arguments`, `Grammar.template` — what a call can have
-/

namespace Seams.Script.Grammar

open Reader

/-! ### Names of properties -/

/-- The name of a property: a word, a string, a number, a private name, or an expression between
square brackets. -/
def propertyName (g : Grammar) : Reader Node := do
  let start ← offset
  match ← token with
  | .word _ => leaf (.other "property_identifier")
  | .string => leaf .string
  | .number => leaf (.other "number")
  | .privateName => leaf (.other "private_property_identifier")
  | .sign "[" =>
    advance
    let name ← g.single
    sign "]"
    node (.other "computed_property_name") start [name]
  | _ => failure

/-- Whether the name of a property comes next. -/
def atPropertyName : Reader Bool := do
  match ← token with
  | .word _ | .string | .number | .privateName | .sign "[" => return true
  | _ => return false

/-! ### Patterns -/

/-- What was read, with the default value that may follow. -/
def withDefault (g : Grammar) (kind : Kind) (start : Nat) (left : Node) : Reader Node := do
  if ← sign? "=" then
    let right ← g.single
    node kind start [left.inRole .left, right]
  else return left

/-- A pattern with the default value that may follow. -/
def patternWithDefault (g : Grammar) : Reader Node := do
  let start ← offset
  g.withDefault .assignmentPattern start (← g.read .pattern)

/-- A pattern for all that is left over. -/
def restPattern (g : Grammar) : Reader Node := do
  let start ← offset
  sign "..."
  node .restPattern start [← g.read .pattern]

/-- A pattern, or one for what is left over. -/
def patternItem (g : Grammar) : Reader Node := do
  if ← atSign "..." then g.restPattern else g.patternWithDefault

/-- The rest of a property in a pattern behind its name, which was read from a given token. A
property is bound by its value, and a shorthand by its name. -/
def propertyPatternRest (g : Grammar) (start : Nat) (first : Token) (name : Node) :
    Reader Node := do
  if ← sign? ":" then
    let value ← g.patternWithDefault
    node .pairPattern start [name.inRole (.other "key"), value.inRole .value]
  else
    require (isName first)
    g.withDefault .objectAssignmentPattern start { name with kind := .shorthandPattern }

/-- Something in an object pattern. -/
def propertyPattern (g : Grammar) : Reader Node := do
  if ← atSign "..." then g.restPattern
  else
    let start ← offset
    let first ← token
    g.propertyPatternRest start first (← g.propertyName)

/-- A pattern: a name, or the parts of an object or an array. -/
def pattern (g : Grammar) : Reader Node := do
  let start ← offset
  if ← sign? "\x7b" then node .objectPattern start (← g.looseListUntil "\x7d" g.propertyPattern)
  else if ← sign? "[" then node .arrayPattern start (← g.looseListUntil "]" g.patternItem)
  else variableName

/-! ### Functions -/

/-- The parameters of a function. -/
def parameters (g : Grammar) : Reader Node := do
  let start ← offset
  sign "("
  node (.other "formal_parameters") start (← g.listUntil ")" g.patternItem)

/-- The parameters and the body of a function. -/
def functionRest (g : Grammar) : Reader (List Node) := do
  let parameters ← g.parameters
  let body ← g.block
  return [parameters, body]

/-! ### Calls -/

/-- An expression that is spread. -/
def spread (g : Grammar) : Reader Node := do
  let start ← offset
  sign "..."
  node .spread start [← g.read (.element true)]

/-- An expression, possibly spread, that may yet turn out to be a pattern. -/
def listElement (g : Grammar) : Reader Node := do
  if ← atSign "..." then g.spread else g.read (.element true)

/-- The arguments of a call, which may yet turn out to be parameters. -/
def coverArguments (g : Grammar) : Reader (List Node) := do
  sign "("
  g.looseListUntil ")" g.listElement

/-- The arguments of a call. -/
def arguments (g : Grammar) : Reader Node := do
  let start ← offset
  let values ← g.coverArguments
  require (Node.areValues values)
  node (.other "arguments") start values

/-- The gaps of a template, from the sign before some text on. At most `limit` of them are read. -/
def templateGaps (g : Grammar) : Nat → Reader (List Node)
  | 0 => failure
  | limit + 1 => do
    let source := (← lexeme).source.drop 1
    let length := templateTextLength source
    match source.drop length with
    | '\x60' :: _ =>
      advanceBy (length + 2)
      return []
    | '$' :: '\x7b' :: _ =>
      advanceBy (length + 3)
      let gap ← g.expression
      require (← atSign "\x7d")
      return gap :: (← g.templateGaps limit)
    | _ => failure

/-- A template. -/
def template (g : Grammar) : Reader Node := do
  let start ← offset
  require ((← token) == .backQuote)
  let gaps ← g.templateGaps g.limit
  node (.other "template_string") start gaps

end Seams.Script.Grammar
