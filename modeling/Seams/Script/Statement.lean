import Seams.Script.Expression

/-!
# Statements

## Main definitions

* `Grammar.variableDeclaration` — `var`, `let` and `const` declarations
* `Grammar.loop` — loops by count and over the members of something
* `Grammar.plainStatement` — all statements that neither import nor export
-/

namespace Seams.Script.Grammar

open Reader

/-! ### Variable declarations -/

/-- Whether a declaration by `let` comes next: the word, and then something that it can bind. -/
def atLet : Reader Bool :=
  follows do
    word "let"
    match ← token with
    | .word text => require !isReserved text
    | .sign text => require (text == "[" || text == "\x7b")
    | _ => failure

/-- Whether a declaration of variables comes next. -/
def atVariables : Reader Bool := do
  return (← atWord "var") || (← atWord "const") || (← atLet)

/-- The variable, or the pattern of variables, that a declarator binds. -/
def boundName (g : Grammar) : Reader Node := do
  if (← atSign "\x7b") || (← atSign "[") then g.read .pattern else identifier

/-- The rest of a declarator behind its name. -/
def declaratorRest (g : Grammar) (allowIn : Bool) (start : Nat) (name : Node) : Reader Node := do
  let value ← if ← sign? "=" then pure [(← g.single allowIn).inRole .value] else pure []
  node .variableDeclarator start (name.inRole .name :: value)

/-- A variable with its first value, if it has one. -/
def declarator (g : Grammar) (allowIn : Bool) : Reader Node := do
  let start ← offset
  g.declaratorRest allowIn start (← g.boundName)

/-- More declarators behind commas. -/
def moreDeclarators (g : Grammar) (allowIn : Bool) : Reader (List Node) :=
  many (do
    if ← sign? "," then return some (← g.declarator allowIn) else return none) g.limit

/-- The word that begins a declaration of variables. -/
def declarationWord : Reader Node := do
  match ← token with
  | .word text => keyword text
  | _ => failure

/-- The kind of a declaration of variables. -/
def declarationKind (opening : Node) : Kind :=
  if opening.kind = .keywordVar then .variableDeclaration else .lexicalDeclaration

/-- A declaration of variables with its semicolon. -/
def variableDeclaration (g : Grammar) : Reader Node := do
  let start ← offset
  let opening ← declarationWord
  let first ← g.declarator true
  let others ← g.moreDeclarators true
  endStatement
  node (declarationKind opening) start (opening.inRole .kind :: first :: others)

/-! ### Loops -/

/-- The condition and the step of a loop by count, and its body. -/
def countRest (g : Grammar) (start : Nat) (first : List Node) : Reader Node := do
  let condition ← if ← atSign ";" then pure [] else pure [← g.expression]
  sign ";"
  let step ← if ← atSign ")" then pure [] else pure [← g.expression]
  sign ")"
  let body ← g.read .statement
  node (.other "for_statement") start (first ++ condition ++ step ++ [body])

/-- What a loop over the members of something goes over, and its body. -/
def membersRest (g : Grammar) (start : Nat) (head : List Node) : Reader Node := do
  require ((← word? "of") || (← word? "in"))
  let right ← g.expression
  sign ")"
  let body ← g.read .statement
  node .forInStatement start (head ++ [right, body])

/-- Whether the head of a loop over the members of something goes on. -/
def atMembers : Reader Bool := do
  return (← atWord "of") || (← atWord "in")

/-- The rest of a loop whose head begins with a declaration. -/
def declaredLoop (g : Grammar) (start : Nat) : Reader Node := do
  let declarationStart ← offset
  let opening ← declarationWord
  let declaratorStart ← offset
  let name ← g.boundName
  if ← atMembers then g.membersRest start [opening.inRole .kind, name.inRole .left]
  else
    let first ← g.declaratorRest false declaratorStart name
    if (← atMembers) && opening.kind = .keywordVar then
      g.membersRest start [opening.inRole .kind, name.inRole .left]
    else
      let others ← g.moreDeclarators false
      sign ";"
      let declaration ←
        node (declarationKind opening) declarationStart (opening.inRole .kind :: first :: others)
      g.countRest start [declaration]

/-- The rest of a loop whose head begins with an expression. -/
def plainLoop (g : Grammar) (start : Nat) : Reader Node := do
  let first ← g.read (.element false)
  if ← atMembers then
    match first.asTarget? with
    | some target => g.membersRest start [target.inRole .left]
    | none => failure
  else
    require first.isValue
    let others ← g.moreExpressions false
    sign ";"
    g.countRest start (first :: others)

/-- A loop by count or over the members of something. -/
def loop (g : Grammar) : Reader Node := do
  let start ← offset
  word "for"
  let _ ← word? "await"
  sign "("
  if ← sign? ";" then g.countRest start []
  else if ← atVariables then g.declaredLoop start
  else g.plainLoop start

/-- A loop with a condition in front. -/
def whileLoop (g : Grammar) : Reader Node := do
  let start ← offset
  word "while"
  let condition ← g.bracketed
  let body ← g.read .statement
  node (.other "while_statement") start [condition, body]

/-- A loop with a condition behind. -/
def doLoop (g : Grammar) : Reader Node := do
  let start ← offset
  word "do"
  let body ← g.read .statement
  word "while"
  let condition ← g.bracketed
  let _ ← sign? ";"
  node (.other "do_statement") start [body, condition]

/-! ### Branches -/

/-- A branch with its alternative, if it has one. -/
def branch (g : Grammar) : Reader Node := do
  let start ← offset
  word "if"
  let condition ← g.bracketed
  let yes ← g.read .statement
  let no ← if ← word? "else" then pure [← g.read .statement] else pure []
  node (.other "if_statement") start (condition :: yes :: no)

/-- Statements up to the next case or the end of the cases. -/
def caseBody (g : Grammar) : Reader (List Node) :=
  many (do
    if (← atWord "case") || (← atWord "default") || (← atSign "\x7d") then return none
    return some (← g.read .statement)) g.limit

/-- A case of a switch. -/
def switchCase (g : Grammar) : Reader Node := do
  let start ← offset
  let value ← if ← word? "default" then pure [] else do
    word "case"
    pure [← g.expression]
  sign ":"
  node (.other "switch_case") start (value ++ (← g.caseBody))

/-- A branch by cases. -/
def switch (g : Grammar) : Reader Node := do
  let start ← offset
  word "switch"
  let value ← g.bracketed
  sign "\x7b"
  let cases ← many (do
    if ← sign? "\x7d" then return none
    return some (← g.switchCase)) g.limit
  node (.other "switch_statement") start (value :: cases)

/-! ### Other statements -/

/-- What is done with an error that was caught. -/
def handler (g : Grammar) : Reader (List Node) := do
  let start ← offset
  if ← word? "catch" then
    let parameter ← if ← sign? "(" then do
        let parameter ← g.boundName
        sign ")"
        pure [parameter]
      else pure []
    return [← node (.other "catch_clause") start (parameter ++ [← g.block])]
  else return []

/-- Statements that may raise an error. -/
def attempt (g : Grammar) : Reader Node := do
  let start ← offset
  word "try"
  let body ← g.block
  let handlers ← g.handler
  let final ← if ← word? "finally" then pure [← g.block] else pure []
  node (.other "try_statement") start (body :: handlers ++ final)

/-- Statements with the members of an object as names. -/
def withStatement (g : Grammar) : Reader Node := do
  let start ← offset
  word "with"
  let object ← g.bracketed
  let body ← g.read .statement
  node (.other "with_statement") start [object, body]

/-- The end of a function, perhaps with a value. -/
def returnStatement (g : Grammar) : Reader Node := do
  let start ← offset
  word "return"
  let value ← if ← atStatementEnd then pure [] else pure [← g.expression]
  endStatement
  node (.other "return_statement") start value

/-- A statement that raises an error. -/
def throwStatement (g : Grammar) : Reader Node := do
  let start ← offset
  word "throw"
  let value ← g.expression
  endStatement
  node (.other "throw_statement") start [value]

/-- A statement of one word that may name a label. -/
def jump (text : String) : Reader Node := do
  let start ← offset
  word text
  if (← atName) && !(← lexeme).newLine then advance
  endStatement
  node (.other (text ++ "_statement")) start []

/-- A statement at which a program can be stopped and looked at. -/
def debuggerStatement : Reader Node := do
  let start ← offset
  word "debugger"
  endStatement
  node (.other "debugger_statement") start []

/-- A statement with a label in front. -/
def labelled (g : Grammar) : Reader Node := do
  let start ← offset
  let label ← leaf (.other "statement_identifier")
  sign ":"
  let body ← g.read .statement
  node (.other "labeled_statement") start [label, body]

/-- An expression as a statement. -/
def expressionStatement (g : Grammar) : Reader Node := do
  let start ← offset
  let value ← g.expression
  endStatement
  node (.other "expression_statement") start [value]

/-- Whether a label comes next. -/
def atLabel : Reader Bool :=
  follows (do require (← atName); advance; sign ":")

/-- A statement that begins with a word, other than a declaration. -/
def wordStatement (g : Grammar) (text : String) : Reader Node := do
  match text with
  | "if" => g.branch
  | "for" => g.loop
  | "while" => g.whileLoop
  | "do" => g.doLoop
  | "switch" => g.switch
  | "try" => g.attempt
  | "with" => g.withStatement
  | "return" => g.returnStatement
  | "throw" => g.throwStatement
  | "break" | "continue" => jump text
  | "debugger" => debuggerStatement
  | _ => if ← atLabel then g.labelled else g.expressionStatement

/-- A declaration, if one comes next. -/
def declaration? (g : Grammar) : Reader (Option Node) := do
  if ← atVariables then return some (← g.variableDeclaration)
  else if ← atNamedFunction then return some (← g.functionNode true)
  else if ← g.atNamedClass then return some (← g.classNode true)
  else return none

/-- A statement that neither imports nor exports. -/
def plainStatement (g : Grammar) : Reader Node := do
  match ← g.declaration? with
  | some declaration => return declaration
  | none =>
    match ← token with
    | .sign "\x7b" => g.block
    | .sign ";" => leaf (.other "empty_statement")
    | .word text => g.wordStatement text
    | _ => g.expressionStatement

end Seams.Script.Grammar
