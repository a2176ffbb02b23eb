import Seams.Proofs.GeneratedNames
import Seams.Proofs.ScopeOfTree

/-!
# The work as a run of steps

Whatever statement is worked on, the state of the work changes in few ways. A step edits the draft,
weakens a declaration, takes in an import under a generated alias, or enters an export: one that
stays with its variable, one that takes over the name of a function or class, or one whose value
goes to a generated variable. Everything that holds of the state all along is proved for these
steps, and follows for the statements.

## Main definitions

* `Scope.Settled` — a name is no constant that could still be weakened
* `Step`, `Deed` — a step of the work, and the name it generates
* `Steps`, `Reaches` — the steps of a run
* `Rebinds` — what a step may do to the binding of a name

## Main results

* `Step.rebinds`, `Steps.rebinds` — bindings along a step and along a run
* `Step.issued`, `Steps.issued` — the names that a step and a run generate
-/

namespace Seams

/-- Whether a statement is an import or has a `const` declaration, as it stands or exported. -/
def Node.BindsConstants (statement : Node) : Prop :=
  statement.kind = .importStatement ∨
    ∃ declaration, statement.lexical? = some declaration ∧ declaration.bindingKind = .const

/-- A name is no constant that could still be weakened. -/
def Scope.Settled (scope : Scope) (name : String) : Prop :=
  ∀ binding, scope.get? name = some binding → binding.kind = .const → binding.declaration = none

/-! ### Steps -/

/-- What a step does, as far as a name is generated. -/
inductive Deed where
  /-- An import is taken in under a generated alias. -/
  | intercept (localName : String)
  /-- The value of an export goes to a generated variable. -/
  | store (localName : String)
  /-- No name is generated. -/
  | rest
  deriving DecidableEq, Repr

/-- The generated name. -/
def Deed.names : Deed → List String
  | intercept localName | store localName => [localName]
  | rest => []

/-- A step of the work on the statements of a module. -/
inductive Step (m : Module) : Workbench → Deed → Workbench → Prop
  /-- The draft is edited. -/
  | edit {bench : Workbench} {draft : Draft} (hsource : draft.source = bench.draft.source) :
      Step m bench .rest { bench with draft }
  /-- The declaration of a constant is weakened. -/
  | weaken {bench : Workbench} {name : String} {binding : Binding} {declaration : Declaration}
      (hb : bench.scope.get? name = some binding) (hconst : binding.kind = .const)
      (hd : binding.declaration = some declaration) :
      Step m bench .rest (bench.setScope (bench.scope.loosen declaration.site))
  /-- An imported name is taken in under an alias. -/
  | intercept {bench : Workbench} {statement : Node} {name : String} {draft : Draft}
      (hstatement : statement ∈ m.root.namedChildren)
      (hname : statement.Introduces (Text.encode m.source) name)
      (hsource : draft.source = bench.draft.source) :
      Step m bench (.intercept (bench.fresh name).1)
        { (bench.fresh name).2.register (bench.fresh name).1 .module with
          draft, inventory := bench.inventory.addImport name (bench.fresh name).1 }
  /-- An export stays with a variable that was looked up. -/
  | keep {bench : Workbench} {name localName : String} {binding : Binding}
      (hb : bench.scope.get? localName = some binding) (hkind : binding.kind ≠ .module)
      (hsettled : bench.scope.Settled localName) :
      Step m bench .rest { bench with inventory := bench.inventory.addExport name localName }
  /-- A variable is exported where it is declared. -/
  | declare {bench : Workbench} {statement : Node} {name : String}
      (hstatement : statement ∈ m.root.namedChildren) (hkind : statement.kind = .exportStatement)
      (hname : statement.Introduces (Text.encode m.source) name)
      (hsettled : statement.BindsConstants → bench.scope.Settled name) :
      Step m bench .rest { bench with inventory := bench.inventory.addExport name name }
  /-- A variable takes over the name of an exported function or class. -/
  | claim {bench : Workbench} {name localName : String} :
      Step m bench .rest
        { (bench.setScope (bench.scope.remove localName)).register localName .var with
          inventory := bench.inventory.addExport name localName }
  /-- The value of an export goes to a generated variable. -/
  | store {bench : Workbench} {base name : String} {draft : Draft}
      (hsource : draft.source = bench.draft.source) :
      Step m bench (.store (bench.fresh base).1)
        { (bench.fresh base).2.register (bench.fresh base).1 .var with
          draft, inventory := bench.inventory.addExport name (bench.fresh base).1 }

/-- A run of steps, with what they do. -/
inductive Steps (m : Module) : Workbench → List Deed → Workbench → Prop
  | refl {bench : Workbench} : Steps m bench [] bench
  | step {a b c : Workbench} {deed : Deed} {deeds : List Deed} (first : Step m a deed b)
      (rest : Steps m b deeds c) : Steps m a (deed :: deeds) c

/-- There is a run of steps from one state of the work to another. -/
def Reaches (m : Module) (a b : Workbench) : Prop :=
  ∃ deeds, Steps m a deeds b

section

variable {m : Module} {a b c : Workbench} {deed : Deed} {deeds more : List Deed}

theorem Steps.trans (h : Steps m a deeds b) (h' : Steps m b more c) :
    Steps m a (deeds ++ more) c := by
  induction h with
  | refl => exact h'
  | step first _ ih => exact .step first (ih h')

theorem Reaches.refl : Reaches m a a :=
  ⟨[], .refl⟩

theorem Reaches.trans (h : Reaches m a b) (h' : Reaches m b c) : Reaches m a c := by
  obtain ⟨deeds, hsteps⟩ := h
  obtain ⟨more, hmore⟩ := h'
  exact ⟨deeds ++ more, hsteps.trans hmore⟩

theorem Step.reaches (h : Step m a deed b) : Reaches m a b :=
  ⟨[deed], .step h .refl⟩

/-- What every step keeps, a run keeps. -/
theorem Steps.keeps {P : Workbench → Prop} (hstep : ∀ a deed b, Step m a deed b → P a → P b)
    (h : Steps m a deeds b) (ha : P a) : P b := by
  induction h with
  | refl => exact ha
  | step first _ ih => exact ih (hstep _ _ _ first ha)

/-! ### What stays -/

theorem Step.source (h : Step m a deed b) : b.draft.source = a.draft.source := by
  cases h with
  | edit hsource => exact hsource
  | intercept _ _ hsource => exact hsource
  | store hsource => exact hsource
  | weaken | keep | declare | claim => rfl

theorem Step.runtime (h : Step m a deed b) : b.runtime = a.runtime := by
  cases h <;> rfl

theorem Steps.runtime (h : Steps m a deeds b) : b.runtime = a.runtime :=
  h.keeps (P := fun bench => bench.runtime = a.runtime)
    (fun _ _ _ hstep ha => hstep.runtime.trans ha) rfl

theorem Reaches.source (h : Reaches m a b) : b.draft.source = a.draft.source := by
  obtain ⟨deeds, hsteps⟩ := h
  exact hsteps.keeps (P := fun bench => bench.draft.source = a.draft.source)
    (fun _ _ _ hstep ha => hstep.source.trans ha) rfl

theorem Step.references (h : Step m a deed b) {name : String} (hname : name ∈ a.scope.references) :
    name ∈ b.scope.references := by
  cases h with
  | intercept | store | claim => exact Scope.mem_references_register.mpr (.inr hname)
  | edit | weaken | keep | declare => exact hname

/-! ### Bindings -/

/-- What a step may do to the binding of a name. -/
inductive Rebinds : Option Binding → Option Binding → Prop
  | same {binding : Option Binding} : Rebinds binding binding
  | loosened {binding : Binding} : Rebinds (some binding) (some { binding with kind := .let })
  | asVar {binding : Option Binding} : Rebinds binding (some ⟨.var, none⟩)
  | asModule : Rebinds none (some ⟨.module, none⟩)

/-- **What a step does to bindings.** -/
theorem Step.rebinds (h : Step m a deed b) (name : String) :
    Rebinds (a.scope.get? name) (b.scope.get? name) := by
  cases h with
  | edit => exact .same
  | keep => exact .same
  | declare => exact .same
  | @weaken _ _ declaration =>
    show Rebinds _ ((a.scope.loosen declaration.site).get? name)
    rw [Scope.get?_loosen]
    cases hget : a.scope.get? name with
    | none => exact .same
    | some binding =>
      show Rebinds _ (some (if binding.isFrom declaration.site then _ else _))
      split
      · exact .loosened
      · exact .same
  | @intercept _ base =>
    show Rebinds _ ((a.scope.register (a.fresh base).1 .module).get? name)
    rw [Scope.get?_register]
    have hunbound : a.scope.binds (a.fresh base).1 = false := (a.names.grants_fresh base).unbound
    split
    · rename_i heq
      rw [heq, Scope.get?_eq_none_iff.mpr hunbound]
      exact .asModule
    · exact .same
  | @claim _ localName =>
    show Rebinds _ (((a.scope.remove localName).register localName .var).get? name)
    rw [Scope.get?_register, Scope.get?_remove]
    split
    · exact .asVar
    · exact .same
  | @store base =>
    show Rebinds _ ((a.scope.register (a.fresh base).1 .var).get? name)
    rw [Scope.get?_register]
    split
    · exact .asVar
    · exact .same

/-- What holds of the binding of a name, whatever steps do to it, holds of it along a run. -/
theorem Steps.rebinds {P : Option Binding → Prop} (hP : ∀ x y, Rebinds x y → P x → P y)
    (h : Steps m a deeds b) (name : String) (ha : P (a.scope.get? name)) :
    P (b.scope.get? name) :=
  h.keeps (P := fun bench => P (bench.scope.get? name))
    (fun _ _ _ hstep => hP _ _ (hstep.rebinds name)) ha

theorem Rebinds.isSome {x y : Option Binding} (h : Rebinds x y) (hx : x.isSome = true) :
    y.isSome = true := by
  cases h with
  | same => exact hx
  | loosened | asVar | asModule => rfl

/-- No step turns a binding into an import. -/
theorem Rebinds.notModule {x y : Option Binding} (h : Rebinds x y)
    (hx : ∃ binding, x = some binding ∧ binding.kind ≠ .module) :
    ∃ binding, y = some binding ∧ binding.kind ≠ .module := by
  obtain ⟨binding, rfl, hkind⟩ := hx
  cases h with
  | same => exact ⟨binding, rfl, hkind⟩
  | loosened => exact ⟨_, rfl, nofun⟩
  | asVar => exact ⟨_, rfl, nofun⟩

/-- What is bound stays bound. -/
theorem Step.binds (h : Step m a deed b) {name : String} (hname : a.scope.binds name = true) :
    b.scope.binds name = true :=
  (h.rebinds name).isSome hname

theorem Steps.binds (h : Steps m a deeds b) {name : String} (hname : a.scope.binds name = true) :
    b.scope.binds name = true :=
  h.rebinds (fun _ _ hxy hx => hxy.isSome hx) name hname

/-! ### Exports -/

/-- **What holds of the variables behind all exports** goes on to do so along a step if it holds of
each variable that an export can be entered with. -/
theorem Step.exports {P : Scope → String → Prop} (h : Step m a deed b)
    (hkept : ∀ name, P a.scope name → P b.scope name)
    (hkeep : ∀ name binding, a.scope.get? name = some binding → binding.kind ≠ .module →
      a.scope.Settled name → P a.scope name)
    (hdeclare : ∀ statement ∈ m.root.namedChildren, statement.kind = .exportStatement → ∀ name,
      statement.Introduces (Text.encode m.source) name →
      (statement.BindsConstants → a.scope.Settled name) → P a.scope name)
    (hvar : ∀ (scope : Scope) (name : String), P (scope.register name .var) name)
    (ha : ∀ entry ∈ a.inventory.exports, P a.scope entry.localName) :
    ∀ entry ∈ b.inventory.exports, P b.scope entry.localName := by
  have hold : ∀ entry ∈ a.inventory.exports, P b.scope entry.localName :=
    fun entry hentry => hkept _ (ha entry hentry)
  -- An export that is entered comes last.
  have hnew : ∀ name localName, P b.scope localName →
      ∀ entry ∈ (a.inventory.addExport name localName).exports, P b.scope entry.localName := by
    intro name localName hlocal entry hentry
    rcases List.mem_append.mp hentry with hentry | hentry
    · exact hold entry hentry
    · obtain rfl := List.mem_singleton.mp hentry
      exact hlocal
  cases h with
  | edit | weaken | intercept => exact hold
  | keep hb hkind hsettled => exact hnew _ _ (hkeep _ _ hb hkind hsettled)
  | declare hstatement hkind hname hsettled =>
    exact hnew _ _ (hdeclare _ hstatement hkind _ hname hsettled)
  | claim | store => exact hnew _ _ (hvar _ _)

/-! ### Generated names -/

/-- A step generates no name, or it generates a fresh one. -/
theorem Step.generates (h : Step m a deed b) :
    (deed.names = [] ∧ b.names.issued = a.names.issued) ∨
      ∃ base, deed.names = [(a.names.fresh base).1] ∧
        b.names.issued = (a.names.fresh base).1 :: a.names.issued := by
  cases h with
  | edit | weaken | keep | declare | claim => exact .inl ⟨rfl, rfl⟩
  | @intercept _ base => exact .inr ⟨base, rfl, (a.names.grants_fresh base).issued⟩
  | @store base => exact .inr ⟨base, rfl, (a.names.grants_fresh base).issued⟩

/-- **The names that a step generates** were neither bound nor generated before, and are no
identifiers of the module. -/
theorem Step.issued (h : Step m a deed b) : b.names.issued = deed.names ++ a.names.issued ∧
    ∀ name ∈ deed.names, name ∉ a.names.issued ∧ a.scope.binds name = false ∧
      name ∉ a.scope.references := by
  rcases h.generates with ⟨hnames, hissued⟩ | ⟨base, hnames, hissued⟩
  · rw [hnames]
    exact ⟨hissued, fun _ hname => nomatch hname⟩
  · rw [hnames]
    refine ⟨hissued, fun name hname => ?_⟩
    have hgrants := a.names.grants_fresh base
    obtain rfl := List.mem_singleton.mp hname
    exact ⟨hgrants.new, hgrants.unbound, a.names.fresh_not_mem_references base⟩

/-- The names that a run generates. -/
def generated (deeds : List Deed) : List String :=
  deeds.flatMap Deed.names

/-- **The names that a run generates** differ from each other and from what was there before. -/
theorem Steps.issued (h : Steps m a deeds b) :
    (generated deeds).Nodup ∧
      (∀ name, name ∈ b.names.issued ↔ name ∈ generated deeds ∨ name ∈ a.names.issued) ∧
      ∀ name ∈ generated deeds, name ∉ a.names.issued ∧ a.scope.binds name = false ∧
        name ∉ a.scope.references := by
  induction h with
  | refl => simp [generated]
  | @step a b c deed deeds first _ ih =>
    obtain ⟨hissued, hfirst⟩ := first.issued
    obtain ⟨hnodup, hmem, hrest⟩ := ih
    have hlater : ∀ name ∈ generated deeds, name ∉ deed.names ∧ name ∉ a.names.issued := by
      intro name hname
      have hnew := (hrest name hname).1
      rw [hissued, List.mem_append, not_or] at hnew
      exact hnew
    have hgenerated : generated (deed :: deeds) = deed.names ++ generated deeds :=
      List.flatMap_cons
    refine ⟨?_, fun name => ?_, fun name hname => ?_⟩
    · rw [hgenerated, List.nodup_append']
      refine ⟨?_, hnodup, fun name hname hin => (hlater name hin).1 hname⟩
      cases deed <;> simp [Deed.names]
    · rw [hmem, hissued, hgenerated, List.mem_append, List.mem_append]
      exact or_left_comm.trans or_assoc.symm
    · rw [hgenerated] at hname
      rcases List.mem_append.mp hname with hname | hname
      · exact hfirst name hname
      · obtain ⟨-, hunbound, hreference⟩ := hrest name hname
        refine ⟨(hlater name hname).2, ?_, fun hin => hreference (first.references hin)⟩
        rw [← Bool.not_eq_true] at *
        exact fun hbound => hunbound (first.binds hbound)

theorem Step.isMadeUp (h : Step m a deed b) : ∀ name ∈ deed.names, Names.IsMadeUp name := by
  intro name hname
  rcases h.generates with ⟨hnames, -⟩ | ⟨base, hnames, -⟩
  · rw [hnames] at hname
    cases hname
  · rw [hnames] at hname
    obtain rfl := List.mem_singleton.mp hname
    exact a.names.isMadeUp_fresh base

theorem Steps.isMadeUp (h : Steps m a deeds b) : ∀ name ∈ generated deeds, Names.IsMadeUp name := by
  induction h with
  | refl => exact fun _ hname => nomatch hname
  | step first _ ih =>
    intro name hname
    rcases List.mem_append.mp hname with hname | hname
    · exact first.isMadeUp name hname
    · exact ih name hname

/-- The names of a run that are aliases of imports. -/
def aliases (deeds : List Deed) : List String :=
  deeds.filterMap fun
    | .intercept localName => some localName
    | _ => none

/-- The names of a run that are variables of exports. -/
def stored (deeds : List Deed) : List String :=
  deeds.filterMap fun
    | .store localName => some localName
    | _ => none

/-- What a run generates is an alias or a variable. -/
theorem generated_perm (deeds : List Deed) :
    (generated deeds).Perm (aliases deeds ++ stored deeds) := by
  induction deeds with
  | nil => exact .nil
  | cons deed rest ih =>
    cases deed with
    | intercept localName => exact ih.cons localName
    | store localName => exact (ih.cons localName).trans List.perm_middle.symm
    | rest => exact ih

/-- What was found stays found. -/
theorem Step.mem_imports (h : Step m a deed b) {entry : Import}
    (hentry : entry ∈ a.inventory.imports) : entry ∈ b.inventory.imports := by
  cases h with
  | intercept => exact List.mem_append_left _ hentry
  | edit | weaken | keep | declare | claim | store => exact hentry

theorem Reaches.mem_imports (h : Reaches m a b) {entry : Import}
    (hentry : entry ∈ a.inventory.imports) : entry ∈ b.inventory.imports := by
  obtain ⟨deeds, hsteps⟩ := h
  exact hsteps.keeps (P := fun bench => entry ∈ bench.inventory.imports)
    (fun _ _ _ hstep => hstep.mem_imports) hentry

theorem Step.imports (h : Step m a deed b) :
    b.inventory.imports.map Import.alias =
      a.inventory.imports.map Import.alias ++ aliases [deed] := by
  cases h with
  | intercept => exact List.map_append
  | edit | weaken | keep | declare | claim | store => exact (List.append_nil _).symm

/-- Every import has an alias of the run, in the same order. -/
theorem Steps.imports (h : Steps m a deeds b) :
    b.inventory.imports.map Import.alias =
      a.inventory.imports.map Import.alias ++ aliases deeds := by
  induction h with
  | refl => exact (List.append_nil _).symm
  | @step _ _ _ deed deeds first _ ih =>
    rw [ih, first.imports, List.append_assoc]
    exact congrArg _ (List.filterMap_append (l := [deed])).symm

end

end Seams
