import Seams.Proofs.WeakenedConstants

/-!
# Modules without constants

Options only say whether constants may be weakened. So for a module that declares none they make no
difference at all: it is opened, or fails to be, in the same way, and with the same events.

Work from two workbenches that differ in their options goes on side by side, and the results differ
in their options again. Where the options are looked at, this is because there is nothing to weaken;
everywhere else it is because nothing there depends on them.

## Main definitions

* `Workbench.withOptions` — a workbench with other options
* `Node.DeclaresConstants`, `Module.WithoutConstants` — a statement with a `const` declaration, and
  a module without such statements

## Main results

* `Workbench.visitAll_withOptions` — statements are worked on alike
* `Workbench.addOverrides_withOptions` — override functions are added alike
* `Module.WithoutConstants.transform_eq` — a module without constants is opened alike
-/

namespace Seams

/-! ### Work as a lawful monad -/

namespace Traced

variable {α β : Type}

instance : LawfulMonad Traced :=
  LawfulMonad.mk' Traced
    (by
      rintro α ⟨events, result⟩
      cases result <;> simp [Functor.map, bind])
    (by
      intro α β value next
      simp [Bind.bind, Pure.pure, bind])
    (by
      rintro α β γ ⟨events, result⟩ next last
      cases result with
      | error failure => rfl
      | ok value =>
        simp only [Bind.bind, bind]
        cases (next value).result <;> simp)

@[simp] theorem lift_map (f : α → β) (result : Except Failure α) :
    (liftM (f <$> result) : Traced β) = f <$> (liftM result : Traced α) := by
  cases result <;> rfl

/-- What comes next matters only for the result that there is. -/
theorem bind_congr_ok {work : Traced α} {next other : α → Traced β}
    (h : ∀ a, work.result = .ok a → next a = other a) : work >>= next = work >>= other := by
  show bind work next = bind work other
  unfold bind
  cases hwork : work.result with
  | error failure => rfl
  | ok a => simp only [h a hwork]

end Traced

/-! ### Work that does not look at options -/

namespace Workbench

/-- The workbench with other options. -/
def withOptions (options : Options) (bench : Workbench) : Workbench :=
  { bench with options }

section

variable (options : Options) (bench : Workbench)

@[simp] theorem scope_withOptions : (bench.withOptions options).scope = bench.scope := rfl

@[simp] theorem draft_withOptions : (bench.withOptions options).draft = bench.draft := rfl

@[simp] theorem runtime_withOptions : (bench.withOptions options).runtime = bench.runtime := rfl

@[simp] theorem inventory_withOptions :
    (bench.withOptions options).inventory = bench.inventory := rfl

@[simp] theorem text_withOptions (node : Node) :
    (bench.withOptions options).text node = bench.text node := rfl

@[simp] theorem declaredName_withOptions (declaration : Node) :
    (bench.withOptions options).declaredName declaration = bench.declaredName declaration := rfl

@[simp] theorem decoratorCode_withOptions (statement : Node) :
    (bench.withOptions options).decoratorCode statement = bench.decoratorCode statement := rfl

@[simp] theorem setScope_withOptions (scope : Scope) :
    (bench.withOptions options).setScope scope = (bench.setScope scope).withOptions options := rfl

@[simp] theorem register_withOptions (name : String) (kind : BindingKind) :
    (bench.withOptions options).register name kind =
      (bench.register name kind).withOptions options := rfl

@[simp] theorem fresh_withOptions (base : String) : (bench.withOptions options).fresh base =
    ((bench.fresh base).1, (bench.fresh base).2.withOptions options) := rfl

@[simp] theorem reserve_withOptions (preferred : String) (fallback : Option String) :
    (bench.withOptions options).reserve preferred fallback =
      Prod.map id (withOptions options) <$> bench.reserve preferred fallback := by
  simp [reserve]
  rfl

@[simp] theorem addExport_withOptions (name localName : String) :
    (bench.withOptions options).addExport name localName =
      withOptions options <$> bench.addExport name localName := rfl

@[simp] theorem addImport_withOptions (name localName : String) :
    (bench.withOptions options).addImport name localName =
      withOptions options <$> bench.addImport name localName := rfl

/-! #### Edits -/

@[simp] theorem edit_withOptions (change : Draft → Except Failure Draft) :
    (bench.withOptions options).edit change = withOptions options <$> bench.edit change := by
  simp [edit]
  rfl

@[simp] theorem replaceNode_withOptions (node : Node) (text : String) :
    (bench.withOptions options).replaceNode node text =
      withOptions options <$> bench.replaceNode node text := by
  simp [replaceNode]

@[simp] theorem hoist_withOptions (statement : String) :
    (bench.withOptions options).hoist statement =
      withOptions options <$> bench.hoist statement := by
  simp [hoist]
  rfl

@[simp] theorem prepend_withOptions (statement : String) :
    (bench.withOptions options).prepend statement =
      withOptions options <$> bench.prepend statement := by
  simp [prepend]
  rfl

/-! #### Exports -/

@[simp] theorem claimName_withOptions (node : Node) :
    (bench.withOptions options).claimName node =
      Prod.map id (withOptions options) <$> bench.claimName node := by
  simp only [claimName]
  split
  · rfl
  · simp

@[simp] theorem claimExport_withOptions (node : Node) (name : String) :
    (bench.withOptions options).claimExport node name =
      Prod.map id (withOptions options) <$> bench.claimExport node name := by
  simp [claimExport]

@[simp] theorem hoistFunction_withOptions (statement function : Node) (name : String) :
    (bench.withOptions options).hoistFunction statement function name =
      withOptions options <$> bench.hoistFunction statement function name := by
  simp [hoistFunction]

@[simp] theorem inlineClass_withOptions (statement classNode : Node) (name : String) :
    (bench.withOptions options).inlineClass statement classNode name =
      withOptions options <$> bench.inlineClass statement classNode name := by
  simp [inlineClass]

@[simp] theorem storeDefault_withOptions (statement value : Node) :
    (bench.withOptions options).storeDefault statement value =
      withOptions options <$> bench.storeDefault statement value := by
  simp [storeDefault]

@[simp] theorem addExports_withOptions (names : List String) :
    (bench.withOptions options).addExports names =
      withOptions options <$> bench.addExports names := by
  induction names generalizing bench with
  | nil => simp [addExports]
  | cons name rest ih => simp [addExports, ih]

@[simp] theorem copySpecifier_withOptions (statement specifier : Node) (localName name : String) :
    (bench.withOptions options).copySpecifier statement specifier localName name =
      withOptions options <$> bench.copySpecifier statement specifier localName name := by
  simp [copySpecifier]

/-! #### Imports -/

@[simp] theorem placeAlias_withOptions (binding : ImportBinding) (localName : String) :
    (bench.withOptions options).placeAlias binding localName =
      withOptions options <$> bench.placeAlias binding localName := by
  simp only [placeAlias]
  split <;> simp

@[simp] theorem interceptBinding_withOptions (binding : ImportBinding) :
    (bench.withOptions options).interceptBinding binding =
      Prod.map (withOptions options) id <$> bench.interceptBinding binding := by
  simp only [interceptBinding, text_withOptions, map_bind]
  refine bind_congr fun name => ?_
  split <;> simp

@[simp] theorem interceptAll_withOptions (bindings : List ImportBinding) :
    (bench.withOptions options).interceptAll bindings =
      Prod.map (withOptions options) id <$> bench.interceptAll bindings := by
  induction bindings generalizing bench with
  | nil => simp [interceptAll]
  | cons binding rest ih => simp [interceptAll, ih]

@[simp] theorem openImport_withOptions (statement : Node) :
    (bench.withOptions options).openImport statement =
      withOptions options <$> bench.openImport statement := by
  simp only [openImport, interceptAll_withOptions, bind_map_left, map_bind]
  refine bind_congr ?_
  rintro ⟨taken, entries⟩
  by_cases hempty : entries = [] <;> simp [hempty]

/-! #### Override functions -/

@[simp] theorem assignSlots_withOptions (exports : List Export) :
    (bench.withOptions options).assignSlots exports =
      Prod.map id (withOptions options) (bench.assignSlots exports) := by
  induction exports generalizing bench with
  | nil => rfl
  | cons entry rest ih =>
    have hrest := ih { (bench.fresh entry.name).2 with
      inventory := bench.inventory.setSlot entry.name (bench.fresh entry.name).1 }
    exact congrArg (fun assigned : List Export × Workbench =>
      ({ entry with slot := some (bench.fresh entry.name).1 } :: assigned.1, assigned.2)) hrest

theorem nameAll_withOptions {α : Type} {nameOne : Workbench → α → Traced (String × Workbench)}
    (hone : ∀ bench entry, nameOne (bench.withOptions options) entry =
      Prod.map id (withOptions options) <$> nameOne bench entry) (entries : List α) :
    nameAll nameOne (bench.withOptions options) entries =
      Prod.map id (withOptions options) <$> nameAll nameOne bench entries := by
  induction entries generalizing bench with
  | nil => simp [nameAll]
  | cons entry rest ih => simp [nameAll, hone, ih]

@[simp] theorem nameExport_withOptions (entry : Export) :
    (bench.withOptions options).nameExport entry =
      Prod.map id (withOptions options) <$> bench.nameExport entry := by
  simp only [nameExport]
  split <;> simp

@[simp] theorem nameImport_withOptions (entry : Import) :
    (bench.withOptions options).nameImport entry =
      Prod.map id (withOptions options) <$> bench.nameImport entry := by
  simp [nameImport]

@[simp] theorem planOverrides_withOptions : (bench.withOptions options).planOverrides =
    Prod.map id (withOptions options) <$> bench.planOverrides := by
  simp [planOverrides, nameAll_withOptions]

@[simp] theorem addFunctions_withOptions : (bench.withOptions options).addFunctions =
    Prod.map id (withOptions options) <$> bench.addFunctions := by
  simp [addFunctions]

/-- **Override functions are added alike**, whatever the options. -/
theorem addOverrides_withOptions : (bench.withOptions options).addOverrides =
    Prod.map id (withOptions options) <$> bench.addOverrides := by
  by_cases hempty : bench.inventory.isEmpty = true <;> simp [addOverrides, hempty]

end

end Workbench

/-! ### Nothing to weaken -/

/-- A scope in which nothing is bound as a constant. -/
def Scope.ConstantFree (scope : Scope) : Prop :=
  ∀ name binding, scope.get? name = some binding → binding.kind ≠ .const

/-- No constant comes up while a module is worked on. -/
theorem Works.constantFree {m : Module} {a b : Workbench} (h : Works m a b)
    (ha : a.scope.ConstantFree) : b.scope.ConstantFree := by
  obtain ⟨deeds, hsteps⟩ := h.reaches
  intro name
  refine hsteps.rebinds (P := fun found => ∀ binding, found = some binding →
    binding.kind ≠ .const) (fun x y hxy hx => ?_) name (ha name)
  rintro binding rfl
  cases hxy with
  | same => exact hx binding rfl
  | loosened | asVar | asModule => nofun

/-- A statement with a `const` declaration, as it stands or exported. -/
def Node.DeclaresConstants (statement : Node) : Prop :=
  ∃ declaration ∈ statement.lexical?, declaration.bindingKind = .const

instance (statement : Node) : Decidable statement.DeclaresConstants :=
  inferInstanceAs (Decidable (∃ declaration ∈ statement.lexical?, _))

namespace Workbench

section

variable (options : Options) {bench : Workbench} (hfree : bench.scope.ConstantFree)
include hfree

theorem weaken_of_constantFree (name : String) : bench.weaken name = pure bench := by
  rw [weaken]
  cases hb : bench.scope.get? name with
  | none => rfl
  | some binding =>
    have hweaken : bench.scope.weaken binding = none := by
      rw [Option.eq_none_iff_forall_ne_some]
      rintro ⟨scope, declaration⟩ hweaken
      exact hfree name binding hb (Scope.weaken_eq_some.mp hweaken).1
    simp only [hweaken]

theorem openDefaultName_withOptions (statement target : Node) :
    (bench.withOptions options).openDefaultName statement target =
      withOptions options <$> bench.openDefaultName statement target := by
  have hother : (bench.withOptions options).scope.ConstantFree := hfree
  simp only [openDefaultName, text_withOptions, map_bind, weaken_of_constantFree hfree,
    weaken_of_constantFree hother, ite_self, pure_bind, scope_withOptions]
  refine bind_congr fun name => ?_
  cases bench.scope.get? name with
  | none => simp
  | some binding => by_cases himmutable : binding.isImmutable = true <;> simp [himmutable]

theorem openDefaultExport_withOptions (statement : Node) :
    (bench.withOptions options).openDefaultExport statement =
      withOptions options <$> bench.openDefaultExport statement := by
  simp only [openDefaultExport]
  split
  · simp
  · rename_i target _
    rw [openDefaultName_withOptions options hfree, hoistFunction_withOptions,
      inlineClass_withOptions, storeDefault_withOptions]
    simp only [apply_ite (withOptions options <$> ·)]

theorem openNamedSpecifier_withOptions (statement specifier : Node) (localName name : String) :
    (bench.withOptions options).openNamedSpecifier statement specifier localName name =
      withOptions options <$> bench.openNamedSpecifier statement specifier localName name := by
  simp only [openNamedSpecifier, scope_withOptions]
  cases hb : bench.scope.get? localName with
  | none => simp
  | some binding =>
    have hconst : (binding.kind == .const) = false := by simpa using hfree localName binding hb
    by_cases himmutable : binding.isImmutable = true <;> simp [hconst, himmutable]

theorem openSpecifier_withOptions (statement specifier : Node) :
    (bench.withOptions options).openSpecifier statement specifier =
      withOptions options <$> bench.openSpecifier statement specifier := by
  simp only [openSpecifier, text_withOptions, map_bind]
  refine bind_congr ?_
  rintro ⟨localNode, nameNode⟩
  by_cases hstring : localNode.kind = .string ∨ nameNode.kind = .string
  · simp [hstring]
  · simp [hstring, openNamedSpecifier_withOptions options hfree]

end

section

variable (options : Options) (bench : Workbench)

/-- A declaration without constants is exported alike. -/
theorem openVariables_withOptions {declaration : Node} (hconst : declaration.bindingKind ≠ .const) :
    (bench.withOptions options).openVariables declaration =
      withOptions options <$> bench.openVariables declaration := by
  have htexts : declaration.declared.mapM (bench.withOptions options).text =
    declaration.declared.mapM bench.text := rfl
  simp [openVariables, hconst, htexts]

theorem openDeclaration_withOptions (statement : Node) {declaration : Node}
    (hconst : declaration.kind.isVariableDeclaration = true → declaration.bindingKind ≠ .const) :
    (bench.withOptions options).openDeclaration statement declaration =
      withOptions options <$> bench.openDeclaration statement declaration := by
  simp only [openDeclaration]
  by_cases hvariables : declaration.kind.isVariableDeclaration = true
  · simp [hvariables, openVariables_withOptions options bench (hconst hvariables)]
  · by_cases hfunction : declaration.kind.isFunctionDeclaration = true
    · simp [hvariables, hfunction]
    · by_cases hclass : declaration.kind.isClass = true <;> simp [hvariables, hfunction, hclass]

end

/-! ### Statements -/

section

variable {m : Module} {bench : Workbench} {statement : Node} (options : Options)
  (hstatement : statement ∈ m.root.namedChildren)
  (hsource : bench.draft.source = Text.encode m.source) (hfree : bench.scope.ConstantFree)
include hstatement hsource hfree

theorem openSpecifiers_withOptions (hown : statement.IsOwnExport)
    (hdefault : statement.isDefaultExport = false) (hchild : statement.child? .declaration = none)
    {specifiers : List Node} (hspecifiers : ∀ s ∈ specifiers, s ∈ statement.exportSpecifiers) :
    (bench.withOptions options).openSpecifiers statement specifiers =
      withOptions options <$> bench.openSpecifiers statement specifiers := by
  induction specifiers generalizing bench with
  | nil => simp [openSpecifiers]
  | cons specifier rest ih =>
    simp only [openSpecifiers, openSpecifier_withOptions options hfree, bind_map_left, map_bind]
    refine Traced.bind_congr_ok fun next hnext => ?_
    have hworks : Works m bench next := by
      rcases openSpecifier_opens hstatement hown hdefault hchild
        (hspecifiers specifier (List.mem_cons_self ..)) bench hsource next hnext with
        ⟨localName, name, -, hopens⟩ | ⟨-, rfl⟩
      · exact hopens.performs.works
      · exact .refl
    exact ih (hworks.source.trans hsource) (hworks.constantFree hfree)
      fun s hs => hspecifiers s (List.mem_cons_of_mem _ hs)

/-- **An export statement** without a `const` declaration is opened alike. -/
theorem openExport_withOptions (hkind : statement.kind = .exportStatement)
    (hconst : ¬ statement.DeclaresConstants) :
    (bench.withOptions options).openExport statement =
      withOptions options <$> bench.openExport statement := by
  simp only [openExport]
  by_cases hforeign : (statement.child? .source).isSome = true
  · simp [hforeign]
  · have hown : statement.IsOwnExport := ⟨hkind, by simpa using hforeign⟩
    cases hdefault : statement.isDefaultExport with
    | true => simp [hforeign, openDefaultExport_withOptions options hfree]
    | false =>
      cases hchild : statement.child? .declaration with
      | some declaration =>
        have hkeyword : declaration.kind.isVariableDeclaration = true →
            declaration.bindingKind ≠ .const := by
          intro hvariables hbinding
          by_cases hvar : declaration.kind = .variableDeclaration
          · rw [Node.bindingKind, if_pos hvar] at hbinding
            cases hbinding
          · have hlexical : declaration.kind = .lexicalDeclaration := by
              cases hcase : declaration.kind <;>
                simp_all [Kind.isVariableDeclaration]
            exact hconst ⟨declaration, by simp [Node.lexical?, hkind, hchild, hlexical], hbinding⟩
        simp [hforeign, openDeclaration_withOptions options bench statement hkeyword]
      | none =>
        simp [hforeign, openClause_eq,
          openSpecifiers_withOptions options hstatement hsource hfree hown hdefault hchild
            (fun _ hs => hs)]

theorem visit_withOptions (hconst : ¬ statement.DeclaresConstants) :
    (bench.withOptions options).visit statement =
      withOptions options <$> bench.visit statement := by
  simp only [visit]
  split
  · exact openImport_withOptions options bench statement
  · rename_i hkind
    exact openExport_withOptions options hstatement hsource hfree hkind hconst
  · simp

end

/-- **Statements are worked on alike**, whatever the options, if there are no constants. -/
theorem visitAll_withOptions {m : Module} (options : Options) {statements : List Node}
    (hstatements : ∀ s ∈ statements, s ∈ m.root.namedChildren ∧ ¬ s.DeclaresConstants)
    {bench : Workbench} (hsource : bench.draft.source = Text.encode m.source)
    (hfree : bench.scope.ConstantFree) :
    (bench.withOptions options).visitAll statements =
      withOptions options <$> bench.visitAll statements := by
  induction statements generalizing bench with
  | nil => simp [visitAll]
  | cons statement rest ih =>
    obtain ⟨hstatement, hconst⟩ := hstatements statement (List.mem_cons_self ..)
    simp only [visitAll, visit_withOptions options hstatement hsource hfree hconst, bind_map_left,
      map_bind]
    refine Traced.bind_congr_ok fun next hnext => ?_
    have hworks := visit_works hsource hstatement next hnext
    exact ih (fun s hs => hstatements s (List.mem_cons_of_mem _ hs)) (hworks.source.trans hsource)
      (hworks.constantFree hfree)

end Workbench

/-! ### Modules -/

namespace Module

/-- A module in which no statement at the top level is or exports a `const` declaration. -/
def WithoutConstants (m : Module) : Prop :=
  ∀ statement ∈ m.root.namedChildren, ¬ statement.DeclaresConstants

instance (m : Module) : Decidable m.WithoutConstants :=
  inferInstanceAs (Decidable (∀ statement ∈ m.root.namedChildren, _))

/-- The work begins alike. -/
theorem start_withOptions (options others : Options) (source : List UInt8) (root : Node) :
    Workbench.start others source root =
      Workbench.withOptions others <$> Workbench.start options source root := by
  simp only [Workbench.start, map_bind]
  refine bind_congr fun scope => bind_congr fun _ => ?_
  -- The first workbench is the other one with other options.
  show ((⟨options, root.hashbangEnd, ⟨source, []⟩, ⟨scope, []⟩, {}, {}⟩ :
    Workbench).withOptions others).reserve _ >>= _ = _
  simp only [Workbench.reserve_withOptions, bind_map_left]
  rfl

namespace WithoutConstants

variable {m : Module} (h : m.WithoutConstants)
include h

theorem constantFree {begun : Workbench} (hbegun : Begun m begun) :
    begun.scope.ConstantFree := by
  intro name binding hb hconst
  obtain ⟨declaration, -, hdeclaration, -⟩ := hbegun.constant hb hconst
  obtain ⟨statement, hstands, hlexical⟩ := hdeclaration.stands
  exact h statement (List.mem_of_getElem? hstands) ⟨_, hlexical, hdeclaration.keyword⟩

theorem work_withOptions (options others : Options) :
    m.work others = Prod.map id (Workbench.withOptions others) <$> m.work options := by
  simp only [work, start_withOptions options others, bind_map_left, map_bind]
  refine Traced.bind_congr_ok fun begun hstart => ?_
  have hbegun := Workbench.start_ensures m options begun hstart
  rw [Workbench.visitAll_withOptions others (fun statement hs => ⟨hs, h statement hs⟩)
    hbegun.source (h.constantFree hbegun), bind_map_left]
  exact bind_congr fun visited => visited.addOverrides_withOptions others

/-- **A module without constants is opened alike**, whatever the options: it has the same code and
the same override functions or fails for the same reason, and the same events happen. -/
theorem transform_eq (options others : Options) : m.transform options = m.transform others := by
  have hopening : m.opening others = m.opening options := by
    simp only [opening, h.work_withOptions options others, bind_map_left]
    rfl
  rw [transform, transform, hopening]

end WithoutConstants

end Module

end Seams
