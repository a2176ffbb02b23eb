import Seams.Table
import Seams.Tree.Declaration

/-!
# The scope of a module

Which names a module binds at its top level, how, and which identifiers occur anywhere in it. The
second set keeps generated names from meeting a name of the module.

A direct declaration decides how its name is bound, the last one if there are several. A `var`
within the blocks of another statement binds only a name that is not bound yet.

## Main definitions

* `Binding`, `Scope` — the table of bindings and the set of identifiers
* `Scope.register`, `Scope.remove`, `Scope.weaken` — changing the table
* `Scope.ofTree` — the scope of a syntax tree

## Main results

* `Scope.get?_register`, `Scope.get?_remove`, `Scope.get?_loosen` — the table after a change
-/

namespace Seams

/-! ### Bindings -/

/-- The declaration behind a binding. It is told from others by the place of its statement among
the top-level statements, each of which holds at most one. -/
structure Declaration where
  site : Nat
  node : Node
  deriving Repr

/-- How a name is bound. -/
structure Binding where
  kind : BindingKind
  /-- The `let` or `const` declaration that binds the name. -/
  declaration : Option Declaration := none
  deriving Repr

/-- Whether the name can never be assigned. -/
def Binding.isImmutable (binding : Binding) : Bool :=
  binding.kind.isImmutable

/-- Constants and imports can never be assigned. -/
theorem Binding.isImmutable_iff {binding : Binding} :
    binding.isImmutable = true ↔ binding.kind = .const ∨ binding.kind = .module := by
  rw [isImmutable]
  cases binding.kind <;> simp [BindingKind.isImmutable]

theorem Binding.isImmutable_eq_false_iff {binding : Binding} :
    binding.isImmutable = false ↔ binding.kind ≠ .const ∧ binding.kind ≠ .module := by
  rw [← Bool.not_eq_true, isImmutable_iff, not_or]

/-- Whether a binding comes from the declaration at a given site. -/
def Binding.isFrom (binding : Binding) (site : Nat) : Bool :=
  binding.declaration.any fun declaration => declaration.site == site

/-- The bindings of a module, and the identifiers that occur in it. -/
structure Scope where
  bindings : Table Binding := .empty
  references : List String := []
  deriving Repr

namespace Scope

/-! ### Looking up and changing -/

/-- How a name is bound, if it is. -/
def get? (scope : Scope) (name : String) : Option Binding :=
  scope.bindings.get? name

/-- Whether a name is bound. -/
def binds (scope : Scope) (name : String) : Bool :=
  scope.bindings.contains name

/-- Note that an identifier occurs. -/
def addReference (scope : Scope) (name : String) : Scope :=
  { scope with references := scope.references.insert name }

/-- Bind a name, whatever it was bound to before. -/
def register (scope : Scope) (name : String) (kind : BindingKind)
    (declaration : Option Declaration := none) : Scope :=
  { scope.addReference name with bindings := scope.bindings.insert name ⟨kind, declaration⟩ }

/-- Unbind a name; as an identifier it stays. -/
def remove (scope : Scope) (name : String) : Scope :=
  { scope with bindings := scope.bindings.erase name }

/-- Turn all bindings of the declaration at a site into `let`. -/
def loosen (scope : Scope) (site : Nat) : Scope :=
  { scope with
    bindings := scope.bindings.map fun binding =>
      if binding.isFrom site then { binding with kind := .let } else binding }

/-- Turn a `const` binding into `let`, and with it all that its declaration binds. The answer has
the declaration, whose keyword is to be changed as well; there is none if the binding is not a
`const` with a declaration. -/
def weaken (scope : Scope) (binding : Binding) : Option (Scope × Declaration) :=
  match binding.kind, binding.declaration with
  | .const, some declaration => some (scope.loosen declaration.site, declaration)
  | _, _ => none

/-! ### The table after a change -/

theorem binds_iff {scope : Scope} {name : String} :
    scope.binds name = true ↔ ∃ binding, scope.get? name = some binding :=
  Table.contains_iff

@[simp] theorem get?_addReference (scope : Scope) (name other : String) :
    (scope.addReference name).get? other = scope.get? other := rfl

@[simp] theorem get?_register (scope : Scope) (name other : String) (kind : BindingKind)
    (declaration : Option Declaration) :
    (scope.register name kind declaration).get? other =
      if other = name then some ⟨kind, declaration⟩ else scope.get? other :=
  Table.get?_insert _ _ _ _

@[simp] theorem get?_remove (scope : Scope) (name other : String) :
    (scope.remove name).get? other = if other = name then none else scope.get? other :=
  Table.get?_erase _ _ _

theorem binds_register {scope : Scope} {name other : String} {kind : BindingKind}
    {declaration : Option Declaration} (h : scope.binds other = true) :
    (scope.register name kind declaration).binds other = true := by
  rw [binds_iff] at *
  rw [get?_register]
  split
  · exact ⟨_, rfl⟩
  · exact h

/-- A binding after the constants declared at a site have been weakened. -/
theorem get?_loosen (scope : Scope) (site : Nat) (name : String) :
    (scope.loosen site).get? name = (scope.get? name).map fun binding =>
      if binding.isFrom site then { binding with kind := .let } else binding :=
  Table.get?_map _ _ _

@[simp] theorem mem_references_addReference {scope : Scope} {name other : String} :
    other ∈ (scope.addReference name).references ↔ other = name ∨ other ∈ scope.references := by
  simp [addReference]

@[simp] theorem mem_references_register {scope : Scope} {name other : String} {kind : BindingKind}
    {declaration : Option Declaration} :
    other ∈ (scope.register name kind declaration).references ↔
      other = name ∨ other ∈ scope.references := by
  simp [register, addReference]

/-- Only a constant with a declaration can be weakened. -/
theorem weaken_eq_some {scope after : Scope} {binding : Binding} {declaration : Declaration} :
    scope.weaken binding = some (after, declaration) ↔
      binding.kind = .const ∧ binding.declaration = some declaration ∧
        after = scope.loosen declaration.site := by
  obtain ⟨kind, declared⟩ := binding
  cases kind <;> cases declared <;> simp [weaken]
  constructor
  · rintro ⟨rfl, rfl⟩
    exact ⟨rfl, rfl⟩
  · rintro ⟨rfl, rfl⟩
    exact ⟨rfl, rfl⟩

/-! ### The scope of a tree -/

/-- Bind the names of a list of identifiers alike. -/
def registerAll (source : List UInt8) (scope : Scope) (identifiers : List Node)
    (kind : BindingKind) (declaration : Option Declaration := none) : Except Failure Scope :=
  identifiers.foldlM (fun scope identifier => do
    return scope.register (← identifier.text source) kind declaration) scope

/-- Bind the name of a function or class, if it has one. -/
def registerName (source : List UInt8) (scope : Scope) (declaration : Node) (kind : BindingKind) :
    Except Failure Scope :=
  scope.registerAll source (declaration.child? .name).toList kind

/-- Bind what a declaration of the statement at `site` declares. -/
def registerDeclaration (source : List UInt8) (site : Nat) (scope : Scope) (declaration : Node) :
    Except Failure Scope :=
  match declaration.kind with
  | .lexicalDeclaration =>
    scope.registerAll source declaration.declared declaration.bindingKind (some ⟨site, declaration⟩)
  | .variableDeclaration =>
    scope.registerAll source declaration.declared declaration.bindingKind
  | .functionDeclaration | .generatorDeclaration => scope.registerName source declaration .hoisted
  | .classDeclaration => scope.registerName source declaration .let
  | _ => .ok scope

/-- Bind the variables declared in the blocks of a statement, except for names already bound. -/
def registerNested (source : List UInt8) (scope : Scope) (statement : Node) :
    Except Failure Scope :=
  statement.nestedVars.foldlM (fun scope identifier => do
    let name ← identifier.text source
    return if scope.binds name then scope else scope.register name .var) scope

/-- Bind what the statement at `site` binds at the top level. -/
def registerStatement (source : List UInt8) (site : Nat) (scope : Scope) (statement : Node) :
    Except Failure Scope :=
  match statement.kind with
  | .importStatement =>
    scope.registerAll source (statement.importBindings.map ImportBinding.localName) .module
  | .exportStatement =>
    match statement.child? .declaration with
    | some declaration => scope.registerDeclaration source site declaration
    | none => .ok scope
  | .lexicalDeclaration | .variableDeclaration | .functionDeclaration | .generatorDeclaration
  | .classDeclaration => scope.registerDeclaration source site statement
  | _ => scope.registerNested source statement

/-- The identifiers that occur in a tree. -/
def ofReferences (source : List UInt8) (root : Node) : Except Failure Scope :=
  (root.subtreeBackwards.filter fun node => node.kind.isIdentifier).foldlM
    (fun scope node => do return scope.addReference (← node.text source)) {}

/-- The scope of the module with a given syntax tree. -/
def ofTree (source : List UInt8) (root : Node) : Except Failure Scope := do
  let scope ← ofReferences source root
  root.namedChildren.zipIdx.foldlM
    (fun scope (statement, site) => scope.registerStatement source site statement) scope

end Scope

end Seams
