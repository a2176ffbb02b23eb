import Seams.Script.Function

/-!
# Expressions

The operators of an expression are kept in one flat node, since nothing depends on how they group.
An assignment, an arrow function and a `yield` reach as far to the right as they can, so they can
be read as the last operand of whatever they stand in.

## Main definitions

* `Grammar.primary` — operands without operators
* `Grammar.operand` — operands with members, calls, assignments and unary operators
* `Grammar.element`, `Grammar.singleExpression`, `Grammar.expressionList` — whole expressions
-/

namespace Seams.Script.Grammar

open Reader

/-! ### Arrow functions -/

/-- An arrow function from its arrow on. -/
def arrowRest (g : Grammar) (allowIn : Bool) (start : Nat) (parameters : List Node) :
    Reader Node := do
  sign "=>"
  let body ← if ← atSign "\x7b" then g.block else g.single allowIn
  node .arrowFunction start (parameters ++ [body])

/-- An arrow function whose parameters were read as values. -/
def arrowFromValues (g : Grammar) (allowIn : Bool) (start : Nat) (values : List Node) :
    Reader Node := do
  match Node.asPatterns? values with
  | some patterns => g.arrowRest allowIn start patterns
  | none => failure

/-- A name, or an arrow function with that name as its parameter. -/
def nameOrArrow (g : Grammar) (allowIn : Bool) : Reader Node := do
  let start ← offset
  let name ← variableName
  if ← atSign "=>" then g.arrowRest allowIn start [name] else return name

/-- Whether an asynchronous arrow function with a single name as its parameter comes next. -/
def atAsyncName : Reader Bool :=
  follows do
    word "async"
    require ((← atName) && !(← lexeme).newLine)
    advance
    require (← atSign "=>")

/-- Whether the word `async` comes next, with a bracket behind it on the same line. -/
def atAsyncBracket : Reader Bool :=
  follows (do word "async"; require ((← atSign "(") && !(← lexeme).newLine))

/-- What begins with the word `async`: a function, an arrow function, a call or a mere name. -/
def asyncNode (g : Grammar) (allowIn : Bool) : Reader Node := do
  let start ← offset
  if ← atFunction then g.functionNode false
  else if ← atAsyncName then
    word "async"
    g.arrowRest allowIn start [← identifier]
  else if ← atAsyncBracket then
    let name ← identifier
    let values ← g.coverArguments
    if ← atSign "=>" then g.arrowFromValues allowIn start values
    else
      require (Node.areValues values)
      node (.other "call_expression") start (name :: values)
  else g.nameOrArrow allowIn

/-- One or more items with commas between them up to a closing bracket, which is taken too, and
whether a comma stands behind the last one. -/
def bracketItems (g : Grammar) : Nat → Reader (List Node × Bool)
  | 0 => failure
  | limit + 1 => do
    let value ← g.listElement
    if ← sign? ")" then return ([value], false)
    sign ","
    if ← sign? ")" then return ([value], true)
    let (others, comma) ← g.bracketItems limit
    return (value :: others, comma)

/-- An expression between round brackets, or an arrow function. -/
def bracketedOrArrow (g : Grammar) (allowIn : Bool) : Reader Node := do
  let start ← offset
  sign "("
  let (values, comma) ← if ← sign? ")" then pure ([], false) else g.bracketItems g.limit
  if ← atSign "=>" then g.arrowFromValues allowIn start values
  else
    require (!comma && !values.isEmpty && Node.areValues values)
    require (values.all fun value => value.kind != .spread)
    node .parenthesized start values

/-! ### Other operands -/

/-- A regular expression. -/
def regex : Reader Node := do
  let start ← offset
  match regexLength? (← lexeme).source with
  | some length =>
    advanceBy length
    node (.other "regex") start []
  | none => failure

/-- What begins with the word `import` in an expression: a call, or a property of the module. -/
def importNode (g : Grammar) : Reader Node := do
  let start ← offset
  word "import"
  if ← sign? "." then
    word "meta"
    node (.other "meta_property") start []
  else
    let arguments ← g.arguments
    node (.other "call_expression") start [arguments]

/-- Take a member of the value before, if one comes next. -/
def member? (g : Grammar) (start : Nat) (value : Node) : Reader (Option Node) := do
  if ← sign? "." then
    match ← token with
    | .word _ | .privateName =>
      advance
      return some (← node (.other "member_expression") start [value])
    | _ => failure
  else if ← sign? "[" then
    let index ← g.expression
    sign "]"
    return some (← node (.other "subscript_expression") start [value, index])
  else if (← token) == .backQuote then
    let template ← g.template
    return some (← node (.other "call_expression") start [value, template])
  else return none

/-- The members of a value, at most `limit` of them. -/
def members (g : Grammar) (start : Nat) (value : Node) : Nat → Reader Node
  | 0 => failure
  | limit + 1 => do
    match ← g.member? start value with
    | some value => g.members start value limit
    | none => return value

/-- What begins with the word `new`: an object made by a constructor, or the target of a call. -/
def newNode (g : Grammar) : Reader Node := do
  let start ← offset
  word "new"
  if ← sign? "." then
    word "target"
    node (.other "meta_property") start []
  else
    let inner ← offset
    let made ← g.members inner (← g.read (.primary true)) g.limit
    require made.isValue
    let arguments ← if ← atSign "(" then pure [← g.arguments] else pure []
    node (.other "new_expression") start (made :: arguments)

/-- The words that are values by themselves. -/
def valueWords : List String := ["this", "super", "null", "true", "false"]

/-- What begins with a word. -/
def wordNode (g : Grammar) (allowIn : Bool) (text : String) : Reader Node :=
  if text = "function" then g.functionNode false
  else if text = "class" then g.classNode false
  else if text = "new" then g.newNode
  else if text = "import" then g.importNode
  else if text = "async" then g.asyncNode allowIn
  else if valueWords.contains text then leaf (.other text)
  else g.nameOrArrow allowIn

/-- An operand without operators. -/
def primary (g : Grammar) (allowIn : Bool) : Reader Node := do
  let start ← offset
  match ← token with
  | .word text => g.wordNode allowIn text
  | .number => leaf (.other "number")
  | .string => leaf .string
  | .backQuote => g.template
  | .sign "(" => g.bracketedOrArrow allowIn
  | .sign "[" =>
    advance
    node .array start (← g.looseListUntil "]" g.listElement)
  | .sign "\x7b" =>
    advance
    node .object start (← g.looseListUntil "\x7d" g.objectMember)
  | .sign "/" | .sign "/=" => regex
  | .sign "@" => g.classNode false
  | _ => failure

/-! ### Operands -/

/-- Take what may follow a question mark and a point: a call, an index or a name. -/
def optionalMember (g : Grammar) (start : Nat) (value : Node) : Reader Node := do
  match ← token with
  | .sign "(" => node (.other "call_expression") start [value, ← g.arguments]
  | .sign "[" =>
    advance
    let index ← g.expression
    sign "]"
    node (.other "subscript_expression") start [value, index]
  | .backQuote => node (.other "call_expression") start [value, ← g.template]
  | .word _ | .privateName =>
    advance
    node (.other "member_expression") start [value]
  | _ => failure

/-- The members and calls of a value, at most `limit` of them. -/
def chain (g : Grammar) (start : Nat) (value : Node) : Nat → Reader Node
  | 0 => failure
  | limit + 1 => do
    let next ←
      if ← sign? "?." then pure (some (← g.optionalMember start value))
      else if ← atSign "(" then
        let arguments ← g.arguments
        pure (some (← node (.other "call_expression") start [value, arguments]))
      else g.member? start value
    match next with
    | some longer =>
      require value.isValue
      g.chain start longer limit
    | none => return value

/-- The signs that assign the result of an operation. -/
def updateSigns : List String :=
  ["+=", "-=", "*=", "/=", "%=", "**=", "<<=", ">>=", ">>>=", "&=", "|=", "^=", "&&=", "||=", "??="]

/-- A value with its members and calls, and with the assignment that it may be the target of. -/
def assignable (g : Grammar) (allowIn : Bool) : Reader Node := do
  let start ← offset
  let value ← g.chain start (← g.read (.primary allowIn)) g.limit
  match ← token with
  | .sign "=" =>
    match value.asTarget? with
    | some target =>
      advance
      node .assignment start [target.inRole .left, ← g.single allowIn]
    | none => failure
  | .sign text =>
    if updateSigns.contains text then
      require value.isSimpleTarget
      advance
      node (.other "augmented_assignment_expression") start [value, ← g.single allowIn]
    else if (text == "++" || text == "--") && !(← lexeme).newLine then
      require value.isValue
      advance
      node (.other "update_expression") start [value]
    else return value
  | _ => return value

/-- The words that are operators in front of an operand. -/
def operatorWords : List String := ["typeof", "void", "delete", "await"]

/-- The signs that are operators in front of an operand. -/
def operatorSigns : List String := ["!", "~", "+", "-", "++", "--"]

/-- An operand behind an operator. -/
def unary (g : Grammar) (allowIn : Bool) : Reader Node := do
  let start ← offset
  advance
  let value ← g.read (.operand allowIn)
  require value.isValue
  node (.other "unary_expression") start [value]

/-- What begins with the word `yield`, with the value that is given out, if there is one. -/
def yieldNode (g : Grammar) (allowIn : Bool) : Reader Node := do
  let start ← offset
  word "yield"
  if ← sign? "*" then node (.other "yield_expression") start [← g.single allowIn]
  else if ← atStatementEnd then node (.other "yield_expression") start []
  else
    (do node (.other "yield_expression") start [← g.single allowIn])
      <|> node (.other "yield_expression") start []

/-- A private name, which stands in front of the operator `in`. -/
def privateOperand : Reader Node := do
  let name ← leaf (.other "private_property_identifier")
  require (← atWord "in")
  return name

/-- An operand with the operators in front of it. -/
def operand (g : Grammar) (allowIn : Bool) : Reader Node := do
  match ← token with
  | .word text =>
    if operatorWords.contains text then g.unary allowIn
    else if text == "yield" then g.yieldNode allowIn
    else g.assignable allowIn
  | .sign text =>
    if operatorSigns.contains text then g.unary allowIn else g.assignable allowIn
  | .privateName => privateOperand
  | _ => g.assignable allowIn

/-! ### Whole expressions -/

/-- The signs that stand between operands. -/
def betweenSigns : List String :=
  ["&&", "||", "??", ">>", ">>>", "<<", "&", "^", "|", "+", "-", "*", "/", "%", "**", "<", "<=",
    "==", "===", "!=", "!==", ">=", ">"]

/-- Whether an operator that stands between operands comes next. -/
def atOperator (allowIn : Bool) : Reader Bool := do
  match ← token with
  | .sign text => return betweenSigns.contains text
  | .word text => return text == "instanceof" || (allowIn && text == "in")
  | _ => return false

/-- Take an operator with the operand behind it, if an operator comes next. -/
def operation? (g : Grammar) (allowIn : Bool) : Reader (Option Node) := do
  if ← atOperator allowIn then
    advance
    return some (← g.read (.operand allowIn))
  else return none

/-- An operand, or several with operators between them. -/
def operations (g : Grammar) (allowIn : Bool) : Reader Node := do
  let start ← offset
  let first ← g.read (.operand allowIn)
  let others ← many (g.operation? allowIn) g.limit
  if others.isEmpty then return first
  require (Node.areValues (first :: others))
  node (.other "binary_expression") start (first :: others)

/-- An expression without commas that may yet turn out to be a pattern. -/
def element (g : Grammar) (allowIn : Bool) : Reader Node := do
  let start ← offset
  let condition ← g.operations allowIn
  if ← sign? "?" then
    require condition.isValue
    let yes ← g.single
    sign ":"
    let no ← g.single allowIn
    node (.other "ternary_expression") start [condition, yes, no]
  else return condition

/-- An expression without commas. -/
def singleExpression (g : Grammar) (allowIn : Bool) : Reader Node := do
  let value ← g.read (.element allowIn)
  require value.isValue
  return value

/-- More expressions behind commas. -/
def moreExpressions (g : Grammar) (allowIn : Bool) : Reader (List Node) :=
  many (do
    if ← sign? "," then return some (← g.single allowIn) else return none) g.limit

/-- One or more expressions with commas between them. -/
def expressionList (g : Grammar) (allowIn : Bool) : Reader Node := do
  let start ← offset
  let first ← g.single allowIn
  let others ← g.moreExpressions allowIn
  if others.isEmpty then return first
  node (.other "sequence_expression") start (first :: others)

end Seams.Script.Grammar
