import Seams.Script.Literal

/-!
# Functions, methods and classes

## Main definitions

* `Grammar.functionNode`, `Grammar.atFunction` — functions, declared or as values
* `Grammar.objectMember`, `Grammar.classMember` — what objects and classes are made of
* `Grammar.classNode`, `Grammar.decorators` — classes and what decorates them
-/

namespace Seams.Script.Grammar

open Reader

/-! ### Functions -/

/-- Take the word that makes a function asynchronous, if it stands before one. -/
def asyncFunction? : Reader Bool := do
  if ← follows (do word "async"; require !(← lexeme).newLine; word "function") then word? "async"
  else return false

/-- Whether a function comes next, asynchronous or not. -/
def atFunction : Reader Bool :=
  follows (do let _ ← asyncFunction?; word "function")

/-- Whether a function with a name comes next. -/
def atNamedFunction : Reader Bool :=
  follows (do let _ ← asyncFunction?; word "function"; let _ ← sign? "*"; require (← atName))

/-- The name that a function or class may have. -/
def optionalName : Reader (List Node) := do
  if ← atName then return [(← identifier).inRole .name] else return []

/-- The kind of a function. -/
def functionKind (declared generator : Bool) : Kind :=
  match declared, generator with
  | true, true => .generatorDeclaration
  | true, false => .functionDeclaration
  | false, true => .generatorFunction
  | false, false => .functionExpression

/-- A function, as a declaration or as a value. -/
def functionNode (g : Grammar) (declared : Bool) : Reader Node := do
  let start ← offset
  let _ ← asyncFunction?
  word "function"
  let generator ← sign? "*"
  let name ← optionalName
  node (functionKind declared generator) start (name ++ (← g.functionRest))

/-! ### Methods -/

/-- Take a word that modifies the member it stands before, if it does. -/
def modifier? (text : String) (sameLine : Bool) : Reader Bool := do
  let modifies := do
    word text
    require !(sameLine && (← lexeme).newLine)
    require ((← atPropertyName) || (← atSign "*"))
  if ← follows modifies then word? text else return false

/-- Take the word or sign that makes a method a getter, a setter or a generator, if there is one. -/
def methodForm? : Reader Bool := do
  if ← modifier? "get" false then return true
  if ← modifier? "set" false then return true
  sign? "*"

/-- Take what makes a member a special method, and tell whether anything does. -/
def methodModifiers : Reader Bool := do
  let isAsync ← modifier? "async" true
  let isSpecial ← methodForm?
  return isAsync || isSpecial

/-- The rest of a method behind its name. -/
def methodRest (g : Grammar) (start : Nat) (before : List Node) (name : Node) : Reader Node := do
  node .methodDefinition start (before ++ name.inRole .name :: (← g.functionRest))

/-! ### Objects -/

/-- The rest of a property behind its name, which was read from a given token. -/
def propertyRest (g : Grammar) (start : Nat) (first : Token) (name : Node) : Reader Node := do
  if ← sign? ":" then
    let value ← g.read (.element true)
    node .pair start [name.inRole (.other "key"), value.inRole .value]
  else
    require (isName first)
    if ← sign? "=" then
      let left := { name with kind := .shorthandPattern, role := some .left }
      node .objectAssignmentPattern start [left, ← g.single]
    else return { name with kind := .shorthandProperty }

/-- A member of an object literal. -/
def objectMember (g : Grammar) : Reader Node := do
  if ← atSign "..." then g.spread
  else
    let start ← offset
    let special ← methodModifiers
    let first ← token
    let name ← g.propertyName
    if ← atSign "(" then g.methodRest start [] name
    else
      require !special
      g.propertyRest start first name

/-! ### Decorators -/

/-- The names behind the first one in a decorator. -/
def decoratorPath : Reader (Option Unit) := do
  if ← sign? "." then
    let _ ← propertyWord
    return some ()
  else return none

/-- A decorator: a dotted name, perhaps called, or an expression between round brackets. -/
def decorator (g : Grammar) : Reader Node := do
  let start ← offset
  sign "@"
  if ← atSign "(" then node .decorator start [← g.bracketed]
  else
    let name ← identifier
    let _ ← many decoratorPath g.limit
    if ← atSign "(" then node .decorator start [name, ← g.arguments]
    else node .decorator start [name]

/-- Decorators as long as there are any. -/
def decorators (g : Grammar) : Reader (List Node) :=
  many (do
    if ← atSign "@" then return some (← g.decorator) else return none) g.limit

/-! ### Classes -/

/-- The rest of a field behind its name. -/
def fieldRest (g : Grammar) (start : Nat) (before : List Node) (name : Node) : Reader Node := do
  let value ← if ← sign? "=" then pure [← g.single] else pure []
  endStatement
  node (.other "field_definition") start (before ++ name :: value)

/-- A member of a class that is no lone semicolon. -/
def classMember (g : Grammar) : Reader Node := do
  let start ← offset
  let before ← g.decorators
  if ← follows (do word "static"; sign "\x7b") then
    word "static"
    g.block (.other "class_static_block")
  else
    let _ ← modifier? "static" false
    let special ← methodModifiers
    let name ← g.propertyName
    if ← atSign "(" then g.methodRest start before name
    else
      require !special
      g.fieldRest start before name

/-- The body of a class. -/
def classBody (g : Grammar) : Reader Node := do
  let start ← offset
  sign "\x7b"
  let members ← many (do
    if ← sign? "\x7d" then return none
    if ← atSign ";" then return some (← leaf (.other ";") false)
    return some (← g.classMember)) g.limit
  node .classBody start members

/-- What a class extends. -/
def heritage (g : Grammar) : Reader (List Node) := do
  let start ← offset
  if ← word? "extends" then
    let parent ← g.read (.operand true)
    return [← node (.other "class_heritage") start [parent]]
  else return []

/-- A class behind its decorators, as a declaration or as a value. -/
def classRest (g : Grammar) (declared : Bool) (start : Nat) (before : List Node) :
    Reader Node := do
  word "class"
  let name ← optionalName
  let parent ← g.heritage
  let body ← g.classBody
  let kind := if declared then .classDeclaration else .classExpression
  node kind start (before ++ name ++ parent ++ [body])

/-- A class with its decorators, as a declaration or as a value. -/
def classNode (g : Grammar) (declared : Bool) : Reader Node := do
  let start ← offset
  g.classRest declared start (← g.decorators)

/-- Whether a class with a name comes next, decorators in front of it included. -/
def atNamedClass (g : Grammar) : Reader Bool :=
  follows (do let _ ← g.decorators; word "class"; require (← atName))

end Seams.Script.Grammar
