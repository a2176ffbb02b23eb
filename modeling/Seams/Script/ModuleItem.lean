import Seams.Script.Statement

/-!
# Imports and exports

## Main definitions

* `Grammar.importStatement`, `Grammar.exportStatement` — the statements that tie modules together
* `Grammar.statement` — any statement
-/

namespace Seams.Script.Grammar

open Reader

/-! ### Parts of imports and exports -/

/-- A string in its place. -/
def stringNode : Reader Node := do
  match ← token with
  | .string => leaf .string
  | _ => failure

/-- The name by which another module knows something: a name, a string or the word `default`. -/
def moduleName : Reader Node := do
  if ← atWord "default" then keyword "default"
  else if (← token) == .string then stringNode
  else identifier

/-- Whether a word comes next on the same line. The clauses of a statement that are optional do not
begin a line. -/
def atClause (text : String) : Reader Bool := do
  return (← atWord text) && !(← lexeme).newLine

/-- What is said of the way another module is to be loaded. -/
def attributes (g : Grammar) : Reader (List Node) := do
  let start ← offset
  if ← atClause "with" then
    word "with"
    let object ← g.read (.primary true)
    require (object.kind == .object && object.isValue)
    return [← node (.other "import_attribute") start [object]]
  else return []

/-- The module that something comes from. -/
def fromClause (g : Grammar) : Reader (List Node) := do
  word "from"
  let source ← stringNode
  return source.inRole .source :: (← g.attributes)

/-- A specifier: a name, or a name with another one in its place. -/
def specifier (kind : Kind) (name other : Reader Node) : Reader Node := do
  let start ← offset
  let first ← name
  if ← atWord "as" then
    let sign ← keyword "as"
    let second ← other
    node kind start [first.inRole .name, sign, second.inRole .alias]
  else node kind start [first.inRole .name]

/-! ### Imports -/

/-- An import specifier. What is not a name of its own needs one. -/
def importSpecifier : Reader Node := do
  if ← follows (do let _ ← moduleName; word "as") then
    specifier .importSpecifier moduleName identifier
  else specifier .importSpecifier identifier identifier

/-- The import of single exports. -/
def namedImports (g : Grammar) : Reader Node := do
  let start ← offset
  sign "\x7b"
  node .namedImports start (← g.listUntil "\x7d" importSpecifier)

/-- The import of a whole module. -/
def namespaceImport : Reader Node := do
  let start ← offset
  sign "*"
  word "as"
  node .namespaceImport start [← identifier]

/-- The import of single exports, or of a whole module. -/
def importGroup (g : Grammar) : Reader Node := do
  if ← atSign "*" then namespaceImport else g.namedImports

/-- What a module imports from another one. -/
def importClause (g : Grammar) : Reader Node := do
  let start ← offset
  if ← atName then
    let first ← identifier
    let others ← if ← sign? "," then pure [← g.importGroup] else pure []
    node .importClause start (first :: others)
  else node .importClause start [← g.importGroup]

/-- An import statement. -/
def importStatement (g : Grammar) : Reader Node := do
  let start ← offset
  let opening ← keyword "import"
  let parts ←
    if (← token) == .string then do
      let source ← stringNode
      pure (source.inRole .source :: (← g.attributes))
    else do
      let clause ← g.importClause
      pure (clause :: (← g.fromClause))
  endStatement
  node .importStatement start (opening :: parts)

/-! ### Exports -/

/-- The export specifiers of a statement. -/
def exportClause (g : Grammar) : Reader Node := do
  let start ← offset
  sign "\x7b"
  node .exportClause start
    (← g.listUntil "\x7d" (specifier .exportSpecifier moduleName moduleName))

/-- The export of single names, of this module or of another one. -/
def exportNames (g : Grammar) : Reader (List Node) := do
  let clause ← g.exportClause
  let source ← if ← atClause "from" then g.fromClause else pure []
  endStatement
  return clause :: source

/-- The export of everything that another module exports, perhaps under one name. -/
def exportAll (g : Grammar) : Reader (List Node) := do
  let start ← offset
  sign "*"
  let name ← if ← word? "as" then do
      let name ← moduleName
      pure [← node (.other "namespace_export") start [name]]
    else pure []
  let source ← g.fromClause
  endStatement
  return name ++ source

/-- A default export behind its words: a declaration, or else a value. -/
def exportDefault (g : Grammar) : Reader (List Node) := do
  let opening ← keyword "default"
  match ← g.declaration? with
  | some declaration => return [opening, declaration.inRole .declaration]
  | none =>
    let value ← g.single
    endStatement
    return [opening, value.inRole .value]

/-- What an export statement exports. -/
def exportRest (g : Grammar) : Reader (List Node) := do
  if ← atSign "*" then g.exportAll
  else if ← atSign "\x7b" then g.exportNames
  else if ← atWord "default" then g.exportDefault
  else
    match ← g.declaration? with
    | some declaration => return [declaration.inRole .declaration]
    | none => failure

/-- An export statement behind its decorators. -/
def exportStatement (g : Grammar) (start : Nat) (before : List Node) : Reader Node := do
  let opening ← keyword "export"
  node .exportStatement start (before ++ opening :: (← g.exportRest))

/-! ### Statements -/

/-- Whether an import statement comes next, and not an expression that begins like one. -/
def atImport : Reader Bool :=
  follows (do word "import"; require (!(← atSign "(") && !(← atSign ".")))

/-- What decorators stand in front of: an export, or a class. -/
def decorated (g : Grammar) : Reader Node := do
  let start ← offset
  let before ← g.decorators
  if ← atWord "export" then g.exportStatement start before
  else if ← g.atNamedClass then g.classRest true start before
  else
    let value ← g.classRest false start before
    endStatement
    node (.other "expression_statement") start [value]

/-- The words that begin declarations and exports, and are mere names if the statement ends right
behind them. -/
def looseWords : List String := ["let", "export"]

/-- Whether a statement that consists of one such word comes next. -/
def atLooseWord : Reader Bool :=
  follows do
    match ← token with
    | .word text => require (looseWords.contains text)
    | _ => failure
    advance
    require (endsBefore (← lexeme))

/-- A statement that consists of one word, taken as a name. -/
def looseWord : Reader Node := do
  let start ← offset
  let name ← leaf .identifier
  node (.other "expression_statement") start [name]

/-- A statement. -/
def statement (g : Grammar) : Reader Node := do
  if ← atSign "@" then g.decorated
  else if ← atLooseWord then looseWord
  else if ← atImport then g.importStatement
  else if ← atWord "export" then g.exportStatement (← offset) []
  else g.plainStatement

end Seams.Script.Grammar
