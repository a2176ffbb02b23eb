import Seams.Opening
import Seams.Proofs.Step

/-!
# The work in full

A step tells what happens to the scope and the inventory. An act tells the rest as well: which edits
are made, which exports are entered, and what in the module is the occasion. A constant is weakened
only if options allow it and an export exposes it; a name is claimed only where an exported function
or class bears it; and edits go to few places, none of them in a declaration of constants.

## Main definitions

* `Node.Exposes`, `Node.Claims` — what an export statement does with names
* `Module.Hosts` — a place for edits
* `Act`, `Does` — what is done in one go
* `Acts`, `Works`, `Performs` — what is done in a run

## Main results

* `Does.reaches`, `Works.reaches` — an act is a run of steps
* `Acts.edits`, `Acts.exports` — the edits made and the exports entered in a run
* `Works.settled` — names stay settled
-/

namespace Seams

/-! ### What export statements do with names -/

namespace Node

/-- An export statement whose exports do not come from another module. -/
structure IsOwnExport (statement : Node) : Prop where
  kind : statement.kind = .exportStatement
  source : statement.child? .source = none

instance (statement : Node) : Decidable statement.IsOwnExport :=
  decidable_of_iff (statement.kind = .exportStatement ∧ statement.child? .source = none)
    ⟨fun h => ⟨h.1, h.2⟩, fun h => ⟨h.kind, h.source⟩⟩

/-- The declaration or value that an export statement exports. -/
def exportTarget? (statement : Node) : Option Node :=
  if statement.isDefaultExport then (statement.child? .declaration).or (statement.child? .value)
  else statement.child? .declaration

theorem declaration_of_exportTarget? {statement target : Node}
    (h : statement.exportTarget? = some target)
    (hsome : (statement.child? .declaration).isSome = true) :
    statement.child? .declaration = some target := by
  obtain ⟨declaration, hdeclaration⟩ := Option.isSome_iff_exists.mp hsome
  rw [exportTarget?, hdeclaration] at h
  rw [hdeclaration, ← h]
  split <;> rfl

/-- Whether a node defines a function or class. -/
def isDefinition (node : Node) : Bool :=
  node.kind.isFunctionDeclaration || node.kind.isFunctionExpression || node.kind.isClass

/-- The specifiers of an export statement: those of its first clause. -/
def exportSpecifiers (statement : Node) : List Node :=
  match statement.namedChildren.find? fun child => child.kind == .exportClause with
  | none => []
  | some clause => clause.namedChildren.filter fun child => child.kind == .exportSpecifier

theorem exportSpecifiers_subset {specifier statement : Node}
    (h : specifier ∈ statement.exportSpecifiers) : specifier ∈ statement.subtree := by
  rw [exportSpecifiers] at h
  split at h
  · cases h
  · rename_i clause hclause
    have hspecifier := mem_subtree_of_mem_namedChildren (List.mem_filter.mp h).1
    exact subtree_trans hspecifier
      (mem_subtree_of_mem_namedChildren (List.mem_of_find?_eq_some hclause))

/-- A specifier exports the variable `localName` as `name`, without strings. -/
def Specifies (source : List UInt8) (specifier : Node) (localName name : String) : Prop :=
  ∃ localNode nameNode, Workbench.specifierParts specifier = .ok (localNode, nameNode) ∧
    localNode.kind ≠ .string ∧ nameNode.kind ≠ .string ∧
    localNode.text source = .ok localName ∧ nameNode.text source = .ok name

/-- A specifier has a string in it. -/
def Quotes (specifier : Node) : Prop :=
  ∃ localNode nameNode, Workbench.specifierParts specifier = .ok (localNode, nameNode) ∧
    (localNode.kind = .string ∨ nameNode.kind = .string)

theorem Quotes.not_specifies {specifier : Node} (h : specifier.Quotes) (source : List UInt8)
    (localName name : String) : ¬ specifier.Specifies source localName name := by
  obtain ⟨localNode, nameNode, hparts, hstring⟩ := h
  rintro ⟨_, _, hparts', hlocal, hname, -⟩
  obtain ⟨rfl, rfl⟩ := Prod.mk.inj (Except.ok.inj (hparts.symm.trans hparts'))
  exact hstring.elim hlocal hname

theorem Specifies.unique {source : List UInt8} {specifier : Node}
    {localName name other exported : String} (h : specifier.Specifies source localName name)
    (h' : specifier.Specifies source other exported) : localName = other ∧ name = exported := by
  obtain ⟨localNode, nameNode, hparts, -, -, hlocal, hname⟩ := h
  obtain ⟨_, _, hparts', -, -, hlocal', hname'⟩ := h'
  obtain ⟨rfl, rfl⟩ := Prod.mk.inj (Except.ok.inj (hparts.symm.trans hparts'))
  exact ⟨Except.ok.inj (hlocal.symm.trans hlocal'), Except.ok.inj (hname.symm.trans hname')⟩

/-- An export statement exposes a variable, which has to be weakened if it is a constant. -/
inductive Exposes (source : List UInt8) (statement : Node) (name : String) : Prop
  /-- It declares the variable as a constant. -/
  | declared {declaration identifier : Node} (hdefault : statement.isDefaultExport = false)
      (hdeclaration : statement.child? .declaration = some declaration)
      (hvariables : declaration.kind.isVariableDeclaration = true)
      (hconst : declaration.bindingKind = .const)
      (hidentifier : identifier ∈ declaration.declared) (hname : identifier.text source = .ok name)
  /-- One of its specifiers names the variable. -/
  | specified {specifier : Node} {exported : String} (hdefault : statement.isDefaultExport = false)
      (hdeclaration : statement.child? .declaration = none)
      (hspecifier : specifier ∈ statement.exportSpecifiers)
      (hname : specifier.Specifies source name exported)
  /-- The variable is the default. -/
  | default {target : Node} (hdefault : statement.isDefaultExport = true)
      (htarget : statement.exportTarget? = some target) (hkind : target.kind = .identifier)
      (hname : target.text source = .ok name)

section

variable {source : List UInt8} {statement : Node} {name : String}

/-- The default exposes a variable by being its name. -/
theorem exposes_default (hdefault : statement.isDefaultExport = true) {target : Node}
    (htarget : statement.exportTarget? = some target) : statement.Exposes source name ↔
      target.kind = .identifier ∧ target.text source = .ok name := by
  constructor
  · intro h
    cases h with
    | declared hother | specified hother => simp [hdefault] at hother
    | default _ hother hkind hname =>
      obtain rfl := Option.some.inj (htarget.symm.trans hother)
      exact ⟨hkind, hname⟩
  · rintro ⟨hkind, hname⟩
    exact .default hdefault htarget hkind hname

/-- An exported declaration of constants exposes them. -/
theorem exposes_declaration (hdefault : statement.isDefaultExport = false) {declaration : Node}
    (hdeclaration : statement.child? .declaration = some declaration) :
    statement.Exposes source name ↔ declaration.kind.isVariableDeclaration = true ∧
      declaration.bindingKind = .const ∧
      ∃ identifier ∈ declaration.declared, identifier.text source = .ok name := by
  constructor
  · intro h
    cases h with
    | declared _ hother hvariables hconst hidentifier hname =>
      obtain rfl := Option.some.inj (hdeclaration.symm.trans hother)
      exact ⟨hvariables, hconst, _, hidentifier, hname⟩
    | specified _ hother => simp [hdeclaration] at hother
    | default hother => simp [hdefault] at hother
  · rintro ⟨hvariables, hconst, identifier, hidentifier, hname⟩
    exact .declared hdefault hdeclaration hvariables hconst hidentifier hname

/-- Without a declaration, specifiers expose the variables that they name. -/
theorem exposes_specifiers (hdefault : statement.isDefaultExport = false)
    (hdeclaration : statement.child? .declaration = none) : statement.Exposes source name ↔
      ∃ specifier ∈ statement.exportSpecifiers, ∃ exported,
        specifier.Specifies source name exported := by
  constructor
  · intro h
    cases h with
    | declared _ hother => simp [hdeclaration] at hother
    | specified _ _ hspecifier hname => exact ⟨_, hspecifier, _, hname⟩
    | default hother => simp [hdefault] at hother
  · rintro ⟨specifier, hspecifier, exported, hname⟩
    exact .specified hdefault hdeclaration hspecifier hname

end

/-- The names under which an exported declaration is entered, as a function or class or with its
variables, unless these are constants that stay constant. -/
def declaredExports (source : List UInt8) (unsafeConst : Bool) (declaration : Node) :
    Except Failure (List String) :=
  if declaration.kind.isVariableDeclaration then
    if declaration.bindingKind = .const ∧ unsafeConst = false then .ok []
    else declaration.declared.mapM (Node.text source)
  else if declaration.kind.isFunctionDeclaration || declaration.kind.isClass then
    (declaration.child? .name).toList.mapM (Node.text source)
  else .ok []

/-- A statement may be replaced, as a whole or in parts: it has no `let` or `const` declaration, or
it exports that as the default. -/
def IsReplaceable (statement : Node) : Prop :=
  statement.lexical? = none ∨
    statement.kind = .exportStatement ∧ statement.isDefaultExport = true

/-- An export statement exports a function or class of a given name. -/
def Claims (source : List UInt8) (statement : Node) (name : String) : Prop :=
  ∃ target nameNode, statement.exportTarget? = some target ∧ target.isDefinition = true ∧
    target.child? .name = some nameNode ∧ nameNode.text source = .ok name

end Node

namespace Module

/-- An export statement of a module exposes a variable. -/
def Exposes (m : Module) (name : String) : Prop :=
  ∃ statement ∈ m.root.namedChildren, statement.IsOwnExport ∧
    statement.Exposes (Text.encode m.source) name

/-- An export statement of a module exports a function or class of a given name. -/
def Claims (m : Module) (name : String) : Prop :=
  ∃ statement ∈ m.root.namedChildren, statement.IsOwnExport ∧
    statement.Claims (Text.encode m.source) name

/-- A place where a module is edited, other than the keyword of a constant: the top, the ends of a
statement, or a node in a statement that may be replaced. -/
inductive Hosts (m : Module) (top : Nat) (edit : Edit) : Prop
  | top (hstart : edit.start = top) (hstop : edit.stop = top)
  | before {statement : Node} (hstatement : statement ∈ m.root.namedChildren)
      (hstart : edit.start = statement.start) (hstop : edit.stop = statement.start)
  | behind {statement : Node} (hstatement : statement ∈ m.root.namedChildren)
      (hstart : edit.start = statement.stop) (hstop : edit.stop = statement.stop)
  | within {statement node : Node} (hstatement : statement ∈ m.root.namedChildren)
      (hreplaceable : statement.IsReplaceable)
      (hnode : node ∈ statement.subtree) (hstart : edit.start = node.start)
      (hstop : edit.stop = node.stop)

/-- A harmless edit: it is not at the keyword of a constant, and does not look like one that is. -/
structure Admits (m : Module) (bench : Workbench) (edit : Edit) : Prop where
  hosts : m.Hosts (bench.hashbangEnd.getD 0) edit
  plain : edit.text ≠ "let"

end Module

/-! ### Acts -/

/-- The draft with some more edits. -/
def Draft.record (draft : Draft) (edits : List Edit) : Draft :=
  { draft with edits := draft.edits ++ edits }

theorem Draft.record_source (draft : Draft) (edits : List Edit) :
    (draft.record edits).source = draft.source := rfl

theorem Draft.record_record (draft : Draft) (edits more : List Edit) :
    (draft.record edits).record more = draft.record (edits ++ more) := by
  simp [record]

theorem Draft.nextOrder_record (draft : Draft) (edits : List Edit) :
    (draft.record edits).nextOrder = draft.nextOrder + edits.length := by
  simp only [nextOrder, record, List.length_append]
  omega

@[simp] theorem Draft.record_nil (draft : Draft) : draft.record [] = draft := by
  simp [record]

/-- What is done to a module in one go. -/
inductive Act where
  /-- A declaration of constants is weakened, and its keyword is replaced. -/
  | weaken (declaration : Declaration) (edits : List Edit)
  /-- The draft is edited. -/
  | rewrite (edit : Edit)
  /-- An import is taken in under an alias. -/
  | intercept (edit : Edit)
  /-- An export stays with its variable. -/
  | keep (name localName : String)
  /-- A variable takes over the name of an exported function or class. -/
  | claim (name localName : String)
  /-- The value of an export goes to a generated variable. -/
  | store (name localName : String) (edits : List Edit)

namespace Act

/-- The edits that are made. -/
def edits : Act → List Edit
  | weaken _ edits | store _ _ edits => edits
  | rewrite edit | intercept edit => [edit]
  | keep .. | claim .. => []

/-- The exports that are entered. -/
def exports : Act → List Export
  | keep name localName | claim name localName | store name localName _ => [⟨name, localName, none⟩]
  | weaken .. | rewrite .. | intercept .. => []

/-- The declaration that is weakened. -/
def weakened : Act → List Declaration
  | weaken declaration _ => [declaration]
  | rewrite .. | intercept .. | keep .. | claim .. | store .. => []

end Act

/-- The edit of the keyword of a declaration that is weakened. -/
def Draft.keywordEdits (draft : Draft) (declaration : Node) : List Edit :=
  declaration.keyword?.toList.map fun keyword =>
    ⟨keyword.start, keyword.stop, "let", draft.nextOrder⟩

/-- An act of the work on the statements of a module. -/
inductive Does (m : Module) : Workbench → Act → Workbench → Prop
  | weaken {bench : Workbench} {name : String} {binding : Binding} {declaration : Declaration}
      (hb : bench.scope.get? name = some binding) (hconst : binding.kind = .const)
      (hd : binding.declaration = some declaration) (hpermits : bench.options.unsafeConst = true)
      (hexposed : m.Exposes name) :
      Does m bench (.weaken declaration (bench.draft.keywordEdits declaration.node))
        { bench.setScope (bench.scope.loosen declaration.site) with
          draft := bench.draft.record (bench.draft.keywordEdits declaration.node) }
  | rewrite {bench : Workbench} {edit : Edit} (hedit : m.Admits bench edit) :
      Does m bench (.rewrite edit) { bench with draft := bench.draft.record [edit] }
  | intercept {bench : Workbench} {statement : Node} {name : String} {edit : Edit}
      (hstatement : statement ∈ m.root.namedChildren)
      (hname : statement.Introduces (Text.encode m.source) name) (hedit : m.Admits bench edit) :
      Does m bench (.intercept edit)
        { (bench.fresh name).2.register (bench.fresh name).1 .module with
          draft := bench.draft.record [edit]
          inventory := bench.inventory.addImport name (bench.fresh name).1 }
  /-- The variable was looked up. -/
  | keep {bench : Workbench} {name localName : String} {binding : Binding}
      (hb : bench.scope.get? localName = some binding) (hkind : binding.kind ≠ .module)
      (hsettled : bench.scope.Settled localName) :
      Does m bench (.keep name localName)
        { bench with inventory := bench.inventory.addExport name localName }
  /-- The variable is exported where it is declared. -/
  | declare {bench : Workbench} {statement : Node} {name : String}
      (hstatement : statement ∈ m.root.namedChildren) (hkind : statement.kind = .exportStatement)
      (hname : statement.Introduces (Text.encode m.source) name)
      (hsettled : statement.BindsConstants → bench.scope.Settled name) :
      Does m bench (.keep name name)
        { bench with inventory := bench.inventory.addExport name name }
  | claim {bench : Workbench} {name localName : String} (hclaims : m.Claims localName) :
      Does m bench (.claim name localName)
        { (bench.setScope (bench.scope.remove localName)).register localName .var with
          inventory := bench.inventory.addExport name localName }
  | store {bench : Workbench} {base name : String} {edits : List Edit}
      (hedits : ∀ edit ∈ edits, m.Admits bench edit) :
      Does m bench (.store name (bench.fresh base).1 edits)
        { (bench.fresh base).2.register (bench.fresh base).1 .var with
          draft := bench.draft.record edits
          inventory := bench.inventory.addExport name (bench.fresh base).1 }

/-- A run of acts. -/
inductive Acts (m : Module) : Workbench → List Act → Workbench → Prop
  | refl {bench : Workbench} : Acts m bench [] bench
  | act {a b c : Workbench} {act : Act} {acts : List Act} (first : Does m a act b)
      (rest : Acts m b acts c) : Acts m a (act :: acts) c

/-- Some acts lead from one state of the work to another. -/
def Works (m : Module) (a b : Workbench) : Prop :=
  ∃ acts, Acts m a acts b

/-- Some acts lead from one state of the work to another and enter exports under given names. -/
def Performs (m : Module) (a : Workbench) (names : List String) (b : Workbench) : Prop :=
  ∃ acts, Acts m a acts b ∧ (acts.flatMap Act.exports).map Export.name = names

section

variable {m : Module} {a b c : Workbench} {act : Act} {acts more : List Act}
  {names others : List String}

theorem Acts.trans (h : Acts m a acts b) (h' : Acts m b more c) : Acts m a (acts ++ more) c := by
  induction h with
  | refl => exact h'
  | act first _ ih => exact .act first (ih h')

/-- What every act keeps, a run keeps. -/
theorem Acts.keeps {P : Workbench → Prop} (hact : ∀ a act b, Does m a act b → P a → P b)
    (h : Acts m a acts b) (ha : P a) : P b := by
  induction h with
  | refl => exact ha
  | act first _ ih => exact ih (hact _ _ _ first ha)

theorem Works.refl : Works m a a :=
  ⟨[], .refl⟩

theorem Works.trans (h : Works m a b) (h' : Works m b c) : Works m a c := by
  obtain ⟨acts, hacts⟩ := h
  obtain ⟨more, hmore⟩ := h'
  exact ⟨acts ++ more, hacts.trans hmore⟩

theorem Does.works (h : Does m a act b) : Works m a b :=
  ⟨[act], .act h .refl⟩

theorem Performs.refl : Performs m a [] a :=
  ⟨[], .refl, rfl⟩

theorem Performs.trans (h : Performs m a names b) (h' : Performs m b others c) :
    Performs m a (names ++ others) c := by
  obtain ⟨acts, hacts, rfl⟩ := h
  obtain ⟨more, hmore, rfl⟩ := h'
  exact ⟨acts ++ more, hacts.trans hmore, by rw [List.flatMap_append, List.map_append]⟩

theorem Does.performs (h : Does m a act b) : Performs m a (act.exports.map Export.name) b :=
  ⟨[act], .act h .refl, by simp⟩

theorem Performs.works (h : Performs m a names b) : Works m a b := by
  obtain ⟨acts, hacts, -⟩ := h
  exact ⟨acts, hacts⟩

/-! ### Acts are steps -/

/-- **An act is a run of steps.** -/
theorem Does.reaches (h : Does m a act b) : Reaches m a b := by
  cases h with
  | @weaken _ _ declaration hb hconst hd =>
    have hedit : Step m (a.setScope (a.scope.loosen declaration.site)) .rest _ :=
      .edit (a.draft.record_source (a.draft.keywordEdits declaration.node))
    exact (Step.weaken hb hconst hd).reaches.trans hedit.reaches
  | rewrite => exact (Step.edit (a.draft.record_source _)).reaches
  | intercept hstatement hname =>
    exact (Step.intercept hstatement hname (a.draft.record_source _)).reaches
  | keep hb hkind hsettled => exact (Step.keep hb hkind hsettled).reaches
  | declare hstatement hkind hname hsettled =>
    exact (Step.declare hstatement hkind hname hsettled).reaches
  | claim => exact Step.claim.reaches
  | store => exact (Step.store (a.draft.record_source _)).reaches

theorem Works.reaches (h : Works m a b) : Reaches m a b := by
  obtain ⟨acts, hacts⟩ := h
  exact hacts.keeps (P := Reaches m a) (fun _ _ _ hact ha => ha.trans hact.reaches) .refl

theorem Works.source (h : Works m a b) : b.draft.source = a.draft.source :=
  h.reaches.source

/-- Names stay settled: no constant comes back. -/
theorem Works.settled (h : Works m a b) {name : String} (ha : a.scope.Settled name) :
    b.scope.Settled name := by
  obtain ⟨deeds, hsteps⟩ := h.reaches
  refine hsteps.rebinds (P := fun found => ∀ binding, found = some binding →
    binding.kind = .const → binding.declaration = none) (fun x y hxy hx => ?_) name ha
  rintro binding rfl hconst
  cases hxy with
  | same => exact hx binding rfl hconst
  | loosened | asVar | asModule => cases hconst

/-! ### What a run leaves behind -/

theorem Does.options (h : Does m a act b) : b.options = a.options := by
  cases h <;> rfl

theorem Works.options (h : Works m a b) : b.options = a.options := by
  obtain ⟨acts, hacts⟩ := h
  exact hacts.keeps (P := fun bench => bench.options = a.options)
    (fun _ _ _ hact ha => hact.options.trans ha) rfl

theorem Does.hashbangEnd (h : Does m a act b) : b.hashbangEnd = a.hashbangEnd := by
  cases h <;> rfl

theorem Works.hashbangEnd (h : Works m a b) : b.hashbangEnd = a.hashbangEnd := by
  obtain ⟨acts, hacts⟩ := h
  exact hacts.keeps (P := fun bench => bench.hashbangEnd = a.hashbangEnd)
    (fun _ _ _ hact ha => hact.hashbangEnd.trans ha) rfl

theorem Does.edits (h : Does m a act b) : b.draft.edits = a.draft.edits ++ act.edits := by
  cases h with
  | weaken | rewrite | intercept | store => rfl
  | keep | declare | claim => exact (List.append_nil _).symm

/-- **The edits of a run** come after those that were there. -/
theorem Acts.edits (h : Acts m a acts b) :
    b.draft.edits = a.draft.edits ++ acts.flatMap Act.edits := by
  induction h with
  | refl => exact (List.append_nil _).symm
  | act first _ ih => rw [ih, first.edits, List.append_assoc, List.flatMap_cons]

theorem Works.edits_kept (h : Works m a b) : a.draft.edits <+: b.draft.edits := by
  obtain ⟨acts, hacts⟩ := h
  exact ⟨_, hacts.edits.symm⟩

theorem Does.exports (h : Does m a act b) :
    b.inventory.exports = a.inventory.exports ++ act.exports := by
  cases h with
  | weaken | rewrite | intercept => exact (List.append_nil _).symm
  | keep | declare | claim | store => rfl

/-- **The exports of a run** come after those that were there. -/
theorem Acts.exports (h : Acts m a acts b) :
    b.inventory.exports = a.inventory.exports ++ acts.flatMap Act.exports := by
  induction h with
  | refl => exact (List.append_nil _).symm
  | act first _ ih => rw [ih, first.exports, List.append_assoc, List.flatMap_cons]

theorem Performs.map_exports (h : Performs m a names b) :
    b.inventory.exports.map Export.name = a.inventory.exports.map Export.name ++ names := by
  obtain ⟨acts, hacts, rfl⟩ := h
  rw [hacts.exports, List.map_append]

end

end Seams
