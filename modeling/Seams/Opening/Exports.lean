import Seams.Text.Blank
import Seams.Workbench

/-!
# Opening exports

Every form of export is brought down to pairs of an exported name and a variable that holds its
value, and the statement is changed just as far as is needed for that variable to be assignable.

* The default export of an assignable variable becomes an export specifier.
* An exported function becomes a variable, hoisted to the top of the module.
* An exported class becomes a variable in its place.
* Any other default export is stored in a new variable.
* Exported `let` and `var` declarations stay as they are.
* Exported constants stay as they are, unless options say that constants may be weakened.
* A specifier that names a constant or an import is turned to a copy of it.

Functions and classes lose their names on the way, so that what refers to them by name inside
their own bodies reaches the variable. Exports from other modules are left alone.

## Main definitions

* `codeWithoutName` — a function or class without its name
* `Workbench.openDefaultExport`, `Workbench.openVariables`, `Workbench.openSpecifier`,
  `Workbench.hoistFunction`, `Workbench.inlineClass` — the forms of exports
* `Workbench.openExport` — open an export statement
-/

namespace Seams

/-! ### Pieces of code -/

/-- The name under which the default of a module is exported. -/
def defaultName : String := "default"

/-- An export specifier. -/
def specifierCode (localName name : String) : String :=
  if localName = name then localName else s!"{localName} as {name}"

/-- The statement that exports a variable under a name. -/
def exportCode (localName name : String) : String :=
  let specifier := specifierCode localName name
  s!"export \x7b {specifier} \x7d;"

/-- The statement that exports a variable as the default. -/
def defaultExportCode (localName : String) : String :=
  s!"export \x7b {localName} as {defaultName} \x7d;"

/-- The text of a function or class with its name cut out and one space in its place. -/
def codeWithoutName (source : List UInt8) (node : Node) : Except Failure String :=
  match node.child? .name with
  | none => readText (node.bytes source)
  | some name => do
    let head ← readText (Text.slice source node.start name.start)
    let tail ← readText (Text.slice source name.stop node.stop)
    return s!"{Text.trimEnd head} {Text.trimStart tail}"

namespace Workbench

/-! ### Weakening constants -/

/-- Turn the declaration of a constant into a `let`, if the name is a declared constant. -/
def weaken (bench : Workbench) (name : String) : Traced Workbench :=
  match bench.scope.get? name with
  | none => return bench
  | some binding =>
    match bench.scope.weaken binding with
    | none => return bench
    | some (scope, declaration) => do
      Traced.note (.constWeakened name)
      let bench := bench.setScope scope
      match declaration.node.keyword? with
      | none => return bench
      | some keyword => bench.replaceNode keyword "let"

/-! ### Functions and classes -/

/-- The variable for an exported function or class: its own name, which is unbound first, or a
fresh one if it has none. -/
def claimName (bench : Workbench) (node : Node) : Except Failure (String × Workbench) :=
  match node.child? .name with
  | none => return bench.fresh defaultName
  | some nameNode => do
    let name ← bench.text nameNode
    return (name, bench.setScope (bench.scope.remove name))

/-- Enter an export whose value a new variable takes over from a function or class. -/
def claimExport (bench : Workbench) (node : Node) (name : String) :
    Traced (String × Workbench) := do
  let (localName, bench) ← bench.claimName node
  let bench ← (bench.register localName .var).addExport name localName
  return (localName, bench)

/-- Turn an exported function into a hoisted variable. -/
def hoistFunction (bench : Workbench) (statement function : Node) (name : String) :
    Traced Workbench := do
  let (localName, bench) ← bench.claimExport function name
  let code ← codeWithoutName bench.draft.source function
  let bench ← bench.hoist s!"var {localName} = {code};"
  bench.replaceNode statement (exportCode localName name)

/-- The decorators in front of an export statement, each with a space behind it. -/
def decoratorCode (bench : Workbench) (statement : Node) : Except Failure String := do
  let decorators := statement.children.filter fun child => child.kind == .decorator
  let texts ← decorators.mapM fun decorator => do
    return (← bench.draft.slice decorator) ++ " "
  return "".intercalate texts

/-- Turn an exported class into a variable in its place. -/
def inlineClass (bench : Workbench) (statement classNode : Node) (name : String) :
    Traced Workbench := do
  let (localName, bench) ← bench.claimExport classNode name
  let decorators ← bench.decoratorCode statement
  let code ← codeWithoutName bench.draft.source classNode
  let specifier := exportCode localName name
  bench.replaceNode statement s!"var {localName} = {decorators}{code};\n{specifier}"

/-! ### Default exports -/

/-- Store the value of a default export in a new variable. -/
def storeDefault (bench : Workbench) (statement value : Node) : Traced Workbench := do
  let (localName, bench) := bench.fresh defaultName
  let bench ← (bench.register localName .var).addExport defaultName localName
  let code ← bench.draft.slice value
  let specifier := defaultExportCode localName
  bench.replaceNode statement s!"var {localName} = {code};\n{specifier}"

/-- Open a default export that is a mere name: it stays with its variable if that can be assigned,
perhaps after weakening. -/
def openDefaultName (bench : Workbench) (statement target : Node) : Traced Workbench := do
  let name ← bench.text target
  let bench ← if bench.options.unsafeConst then bench.weaken name else pure bench
  match bench.scope.get? name with
  | some binding =>
    if binding.isImmutable then bench.storeDefault statement target
    else
      let bench ← bench.addExport defaultName name
      bench.replaceNode statement (defaultExportCode name)
  | none => bench.storeDefault statement target

/-- Open a default export. -/
def openDefaultExport (bench : Workbench) (statement : Node) : Traced Workbench :=
  match (statement.child? .declaration).or (statement.child? .value) with
  | none => return bench
  | some target =>
    if target.kind = .identifier then bench.openDefaultName statement target
    else if target.kind.isFunctionDeclaration || target.kind.isFunctionExpression then
      bench.hoistFunction statement target defaultName
    else if target.kind.isClass then bench.inlineClass statement target defaultName
    else bench.storeDefault statement target

/-! ### Exported declarations -/

/-- Weaken the constants of some names in turn. -/
def weakenAll (bench : Workbench) : List String → Traced Workbench
  | [] => return bench
  | name :: rest => do (← bench.weaken name).weakenAll rest

/-- Enter variables that are exported under their own names. -/
def addExports (bench : Workbench) : List String → Traced Workbench
  | [] => return bench
  | name :: rest => do (← bench.addExport name name).addExports rest

/-- Open the export of a variable declaration. -/
def openVariables (bench : Workbench) (declaration : Node) : Traced Workbench := do
  let names ← (declaration.declared.mapM bench.text : Except Failure (List String))
  if declaration.bindingKind = .const then
    if bench.options.unsafeConst then (← bench.weakenAll names).addExports names
    else
      Traced.note (.constantsKept names)
      return bench
  else bench.addExports names

/-- The name of an exported function or class. -/
def declaredName (bench : Workbench) (declaration : Node) : Except Failure String :=
  match declaration.child? .name with
  | some name => bench.text name
  | none => .error .nameless

/-- Open the export of a declaration. -/
def openDeclaration (bench : Workbench) (statement declaration : Node) : Traced Workbench := do
  if declaration.kind.isVariableDeclaration then bench.openVariables declaration
  else if declaration.kind.isFunctionDeclaration then
    bench.hoistFunction statement declaration (← bench.declaredName declaration)
  else if declaration.kind.isClass then
    bench.inlineClass statement declaration (← bench.declaredName declaration)
  else return bench

/-! ### Export specifiers -/

/-- The nodes of the variable and of the exported name in an export specifier, which are the same
if it does not rename. -/
def specifierParts (specifier : Node) : Except Failure (Node × Node) :=
  let parts := specifier.children.filter fun child => child.kind != .keywordAs
  match parts.head?, parts.getLast? with
  | some first, some last => .ok (first, last)
  | _, _ => .error .emptySpecifier

/-- Turn a specifier to a copy of the constant or import it names. -/
def copySpecifier (bench : Workbench) (statement specifier : Node) (localName name : String) :
    Traced Workbench := do
  let (copy, bench) := bench.fresh localName
  let bench := bench.register copy .var
  let bench ← bench.edit (·.insert statement.start s!"var {copy} = {localName};\n")
  let bench ← bench.replaceNode specifier s!"{copy} as {name}"
  bench.addExport name copy

/-- Open an export specifier whose parts are names. -/
def openNamedSpecifier (bench : Workbench) (statement specifier : Node)
    (localName name : String) : Traced Workbench :=
  match bench.scope.get? localName with
  | none => do
    Traced.note (.unboundSpecifierKept localName)
    return bench
  | some binding => do
    if bench.options.unsafeConst && binding.kind == .const then
      (← bench.weaken localName).addExport name localName
    else if binding.isImmutable then bench.copySpecifier statement specifier localName name
    else bench.addExport name localName

/-- Open an export specifier. -/
def openSpecifier (bench : Workbench) (statement specifier : Node) : Traced Workbench := do
  let (localNode, nameNode) ← specifierParts specifier
  if localNode.kind = .string ∨ nameNode.kind = .string then
    Traced.note (.stringSpecifierKept (← bench.text specifier))
    return bench
  let localName ← bench.text localNode
  let name ← bench.text nameNode
  bench.openNamedSpecifier statement specifier localName name

/-- Open export specifiers in turn. -/
def openSpecifiers (bench : Workbench) (statement : Node) : List Node → Traced Workbench
  | [] => return bench
  | specifier :: rest => do
    (← bench.openSpecifier statement specifier).openSpecifiers statement rest

/-- Open an export statement without declaration: the specifiers of its first clause. -/
def openClause (bench : Workbench) (statement : Node) : Traced Workbench :=
  match statement.namedChildren.find? fun child => child.kind == .exportClause with
  | none => return bench
  | some clause =>
    bench.openSpecifiers statement
      (clause.namedChildren.filter fun child => child.kind == .exportSpecifier)

/-! ### Export statements -/

/-- Open an export statement. -/
def openExport (bench : Workbench) (statement : Node) : Traced Workbench := do
  if (statement.child? .source).isSome then
    Traced.note .reexportKept
    return bench
  if statement.isDefaultExport then bench.openDefaultExport statement
  else
    match statement.child? .declaration with
    | some declaration => bench.openDeclaration statement declaration
    | none => bench.openClause statement

end Workbench

end Seams
