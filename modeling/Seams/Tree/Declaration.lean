import Seams.Tree.Node

/-!
# What declarations bind

Which identifiers a pattern, a declaration, a statement or an import binds, and how. All answers
are nodes, in the order in which they stand in the module.

## Main definitions

* `Node.binders` — the identifiers a declarator name or pattern binds
* `Node.declared` — the identifiers a `var`, `let` or `const` declaration binds
* `Node.nestedVars` — the identifiers declared by `var` in the blocks of a statement
* `Node.importBindings` — the local names an import statement introduces
* `BindingKind`, `Node.bindingKind` — how a declaration binds
-/

namespace Seams

/-- How a name is bound at the top level of a module. -/
inductive BindingKind where
  | var
  | let
  | const
  /-- Imported from another module. -/
  | module
  /-- Declared as a function, and so bound from the start. -/
  | hoisted
  deriving DecidableEq, Repr

namespace BindingKind

/-- The word for a kind of binding. -/
def name : BindingKind → String
  | .var => "var"
  | .let => "let"
  | .const => "const"
  | .module => "module"
  | .hoisted => "hoisted"

/-- Whether a binding of this kind can never be assigned. -/
def isImmutable : BindingKind → Bool
  | .const | .module => true
  | _ => false

end BindingKind

namespace Node

/-! ### Patterns and declarations -/

mutual

/-- The identifiers that a declarator name or pattern binds. A property binds by its value and a
default binds by its left side, so neither keys nor default values count. -/
def binders : Node → List Node
  | node@⟨kind, _, _, _, _, _, _, children⟩ =>
    match kind with
    | .identifier | .shorthandPattern => [node]
    | .pairPattern => bindersAt .value children
    | .assignmentPattern | .objectAssignmentPattern => bindersAt .left children
    | .objectPattern | .arrayPattern | .restPattern => bindersOfNamed children
    | _ => []

/-- The identifiers bound by the first node that plays a given part. -/
def bindersAt (role : Role) : List Node → List Node
  | [] => []
  | child :: rest => if child.role == some role then binders child else bindersAt role rest

/-- The identifiers bound by the nodes that stand for constructs. -/
def bindersOfNamed : List Node → List Node
  | [] => []
  | child :: rest => (if child.named then binders child else []) ++ bindersOfNamed rest

end

/-- The identifiers that one declarator binds; other nodes are no declarators and bind none. -/
def declaratorBinders (declarator : Node) : List Node :=
  if declarator.kind = .variableDeclarator then
    match declarator.child? .name with
    | some name => name.binders
    | none => []
  else []

/-- The identifiers that a `var`, `let` or `const` declaration binds. -/
def declared (declaration : Node) : List Node :=
  declaration.namedChildren.flatMap declaratorBinders

/-! ### Variables of blocks -/

/-- The identifiers that a node itself declares by `var`: as a declaration, or in the head of a
loop over the members of something. -/
def ownVars (node : Node) : List Node :=
  match node.kind with
  | .variableDeclaration => node.declared
  | .forInStatement =>
    match node.child? .kind, node.child? .left with
    | some keyword, some left => if keyword.kind = .keywordVar then left.binders else []
    | _, _ => []
  | _ => []

/-- The identifiers declared by `var` in a list of trees, function and class bodies left out. -/
def nestedVarsOf : List Node → List Node
  | [] => []
  | node :: rest =>
    if node.kind.opensVarScope then nestedVarsOf rest
    else node.ownVars ++ nestedVarsOf (node.namedChildren ++ rest)
termination_by pending => sizeAll pending
decreasing_by
  · have := node.size_eq
    simp only [sizeAll]; omega
  · have := node.size_eq
    have : sizeAll node.namedChildren ≤ sizeAll node.children := sizeAll_filter_le _ _
    simp only [sizeAll_append, sizeAll]; omega

/-- The identifiers that a statement declares by `var` for the whole module, wherever they stand
in its blocks. -/
def nestedVars (statement : Node) : List Node :=
  nestedVarsOf [statement]

/-! ### Keywords -/

/-- The `var`, `let` or `const` of a declaration. -/
def keyword? (declaration : Node) : Option Node :=
  declaration.children.find? fun child =>
    child.kind == .keywordVar || child.kind == .keywordLet || child.kind == .keywordConst

/-- How a declaration binds: as its keyword says, and like `let` if it has none. -/
def bindingKind (declaration : Node) : BindingKind :=
  if declaration.kind = .variableDeclaration then .var
  else
    match declaration.keyword?.map Node.kind with
    | some .keywordVar => .var
    | some .keywordConst => .const
    | _ => .let

/-- Whether an export statement exports the default of the module. -/
def isDefaultExport (statement : Node) : Bool :=
  statement.children.any fun child => child.kind == .keywordDefault

end Node

/-! ### Imports -/

/-- The form in which an import introduces a local name. -/
inductive ImportForm where
  /-- The default of the other module. -/
  | standard
  /-- The other module as a whole. -/
  | whole
  /-- One export of the other module. -/
  | single
  deriving DecidableEq, Repr

/-- The word for a form of import. -/
def ImportForm.name : ImportForm → String
  | .standard => "default"
  | .whole => "namespace"
  | .single => "named"

/-- One local name that an import statement introduces. -/
structure ImportBinding where
  form : ImportForm
  /-- The node of the local name. -/
  localName : Node
  /-- The node that says what is imported under this name. -/
  specifier : Node
  deriving Repr

namespace Node

/-- The local name of an import specifier: its alias if it has one. -/
def specifierBinding? (specifier : Node) : Option ImportBinding :=
  if specifier.kind = .importSpecifier then
    ((specifier.child? .alias).or (specifier.child? .name)).map (⟨.single, ·, specifier⟩)
  else none

/-- The local names that one part of an import clause introduces. -/
def clausePartBindings (part : Node) : List ImportBinding :=
  match part.kind with
  | .identifier => [⟨.standard, part, part⟩]
  | .namespaceImport =>
    (part.namedChildren.filter fun child => child.kind == .identifier).map (⟨.whole, ·, part⟩)
  | .namedImports => part.namedChildren.filterMap specifierBinding?
  | _ => []

/-- The local names that an import statement introduces. -/
def importBindings (statement : Node) : List ImportBinding :=
  (statement.namedChildren.filter fun clause => clause.kind == .importClause).flatMap
    fun clause => clause.namedChildren.flatMap clausePartBindings

end Node

end Seams
