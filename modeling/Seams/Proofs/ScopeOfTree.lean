import Seams.Proofs.WellFormed

/-!
# What the scope of a tree holds

The scope of a module is built by going through its statements once. Most statements that bind
names bind them *directly*: an import, or a declaration that stands at the top level or is
exported. Any other statement can only bind the variables of its blocks, and only if they have no
binding yet.

## Main definitions

* `Node.lexical?` — the `let` or `const` declaration that a statement is or exports
* `Node.introduced`, `Node.introducedAs` — what a statement binds directly, and how
* `Node.Introduces` — a statement introduces a name

## Main results

* `Scope.registerStatement_spec` — what one statement adds to a scope
* `Scope.ofTree_binding`, `Scope.ofTree_binds`, `Scope.ofTree_sole`, `Scope.ofTree_references` —
  what the scope of a tree holds
* `Scope.ofTree_ok` — a well-formed tree has a scope
-/

namespace Seams

/-! ### Walks over lists that may stop -/

theorem mem_mapM_ok {α β : Type} {f : α → Except Failure β} {items : List α} {images : List β}
    (h : items.mapM f = .ok images) {image : β} :
    image ∈ images ↔ ∃ item ∈ items, f item = .ok image := by
  induction items generalizing images with
  | nil =>
    obtain rfl : images = [] := by simpa [pure, Except.pure, eq_comm] using h
    simp
  | cons item rest ih =>
    rw [List.mapM_cons] at h
    obtain ⟨first, hfirst, h⟩ := bind_eq_ok.mp h
    obtain ⟨others, hothers, h⟩ := bind_eq_ok.mp h
    obtain rfl : first :: others = images := by simpa [pure, Except.pure] using h
    simp [ih hothers, hfirst, eq_comm]

theorem foldlM_keeps {α β : Type} {f : β → α → Except Failure β} {P : β → Prop} {items : List α}
    (step : ∀ state item next, item ∈ items → P state → f state item = .ok next → P next)
    {state final : β} (hstart : P state) (hrun : items.foldlM f state = .ok final) : P final := by
  induction items generalizing state with
  | nil =>
    obtain rfl : state = final := by simpa [pure, Except.pure] using hrun
    exact hstart
  | cons item rest ih =>
    rw [List.foldlM_cons] at hrun
    obtain ⟨next, hnext, hrest⟩ := bind_eq_ok.mp hrun
    exact ih (fun s i n hi => step s i n (List.mem_cons_of_mem _ hi))
      (step state item next (List.mem_cons_self ..) hstart hnext) hrest

theorem foldlM_ok {α β : Type} {f : β → α → Except Failure β} {items : List α}
    (step : ∀ state, ∀ item ∈ items, ∃ next, f state item = .ok next) (state : β) :
    ∃ final, items.foldlM f state = .ok final := by
  induction items generalizing state with
  | nil => exact ⟨state, rfl⟩
  | cons item rest ih =>
    obtain ⟨next, hnext⟩ := step state item (List.mem_cons_self ..)
    obtain ⟨final, hfinal⟩ := ih (fun s i hi => step s i (List.mem_cons_of_mem _ hi)) next
    exact ⟨final, by rw [List.foldlM_cons]; exact bind_eq_ok.mpr ⟨next, hnext, hfinal⟩⟩

/-! ### What a statement binds directly -/

/-- The statements that bind names directly: imports, exports and declarations. -/
def Kind.bindsDirectly : Kind → Bool
  | .importStatement | .exportStatement | .lexicalDeclaration | .variableDeclaration
  | .functionDeclaration | .generatorDeclaration | .classDeclaration => true
  | _ => false

namespace Node

/-- The `let` or `const` declaration that a statement is or exports. -/
def lexical? (statement : Node) : Option Node :=
  match statement.kind with
  | .lexicalDeclaration => some statement
  | .exportStatement =>
    (statement.child? .declaration).filter fun declaration =>
      declaration.kind == .lexicalDeclaration
  | _ => none

/-- The identifiers that a declaration binds. -/
def declarationNames (declaration : Node) : List Node :=
  match declaration.kind with
  | .lexicalDeclaration | .variableDeclaration => declaration.declared
  | .functionDeclaration | .generatorDeclaration | .classDeclaration =>
    (declaration.child? .name).toList
  | _ => []

/-- How a declaration of the statement at `site` binds its identifiers. -/
def declarationBinding (site : Nat) (declaration : Node) : Binding :=
  match declaration.kind with
  | .lexicalDeclaration => ⟨declaration.bindingKind, some ⟨site, declaration⟩⟩
  | .functionDeclaration | .generatorDeclaration => ⟨.hoisted, none⟩
  | .classDeclaration => ⟨.let, none⟩
  | _ => ⟨declaration.bindingKind, none⟩

/-- The identifiers that a statement binds directly: the local names of an import, or the names of
a declaration that stands at the top level or is exported. -/
def introduced (statement : Node) : List Node :=
  match statement.kind with
  | .importStatement => statement.importBindings.map ImportBinding.localName
  | .exportStatement => ((statement.child? .declaration).map declarationNames).getD []
  | _ => statement.declarationNames

/-- How the statement at `site` binds its identifiers. -/
def introducedAs (site : Nat) (statement : Node) : Binding :=
  match statement.kind with
  | .importStatement => ⟨.module, none⟩
  | .exportStatement =>
    ((statement.child? .declaration).map (declarationBinding site)).getD ⟨.var, none⟩
  | _ => statement.declarationBinding site

/-- A statement binds a name directly. -/
def Introduces (source : List UInt8) (statement : Node) (name : String) : Prop :=
  ∃ identifier ∈ statement.introduced, identifier.text source = .ok name

theorem introduces_import_iff {source : List UInt8} {statement : Node} {name : String}
    (hkind : statement.kind = .importStatement) : statement.Introduces source name ↔
      ∃ binding ∈ statement.importBindings, binding.localName.text source = .ok name := by
  simp only [Introduces, introduced, hkind, List.mem_map]
  constructor
  · rintro ⟨_, ⟨binding, hbinding, rfl⟩, htext⟩
    exact ⟨binding, hbinding, htext⟩
  · rintro ⟨binding, hbinding, htext⟩
    exact ⟨binding.localName, ⟨binding, hbinding, rfl⟩, htext⟩

theorem declarationNames_subset {a declaration : Node} (h : a ∈ declaration.declarationNames) :
    a ∈ declaration.subtree := by
  rw [declarationNames] at h
  split at h
  · exact declared_subset h
  · exact declared_subset h
  · exact mem_subtree_of_child? (Option.mem_toList.mp h)
  · exact mem_subtree_of_child? (Option.mem_toList.mp h)
  · exact mem_subtree_of_child? (Option.mem_toList.mp h)
  · cases h

theorem introduced_subset {a statement : Node} (h : a ∈ statement.introduced) :
    a ∈ statement.subtree := by
  rw [introduced] at h
  split at h
  · obtain ⟨binding, hbinding, rfl⟩ := List.mem_map.mp h
    exact (importBindings_subset hbinding).1
  · cases hdeclaration : statement.child? .declaration with
    | none => simp [hdeclaration] at h
    | some declaration =>
      refine subtree_trans (declarationNames_subset ?_) (mem_subtree_of_child? hdeclaration)
      simpa [hdeclaration] using h
  · exact declarationNames_subset h

theorem lexical?_subset {declaration statement : Node} (h : statement.lexical? = some declaration) :
    declaration ∈ statement.subtree := by
  rw [lexical?] at h
  split at h
  · rw [← Option.some.inj h]
    exact statement.self_mem_subtree
  · exact mem_subtree_of_child? (Option.filter_eq_some_iff.mp h).1
  · cases h

/-- Only `let` and `const` declarations stand behind their bindings. -/
theorem declarationBinding_declaration {site : Nat} {declaration : Node} {d : Declaration}
    (h : (declaration.declarationBinding site).declaration = some d) :
    declaration.kind = .lexicalDeclaration ∧ d = ⟨site, declaration⟩ := by
  rw [declarationBinding] at h
  split at h
  · rename_i hkind
    exact ⟨hkind, (Option.some.inj h).symm⟩
  all_goals cases h

theorem introducedAs_declaration {site : Nat} {statement : Node} {d : Declaration}
    (h : (statement.introducedAs site).declaration = some d) :
    d.site = site ∧ statement.lexical? = some d.node := by
  rw [introducedAs] at h
  split at h
  · cases h
  · rename_i hkind
    cases hdeclaration : statement.child? .declaration with
    | none => simp [hdeclaration] at h
    | some declaration =>
      obtain ⟨hlexical, rfl⟩ := declarationBinding_declaration (by simpa [hdeclaration] using h)
      simp [lexical?, hkind, hdeclaration, hlexical]
  · obtain ⟨hlexical, rfl⟩ := declarationBinding_declaration h
    simp [lexical?, hlexical]

/-- A constant has its declaration behind it. -/
theorem declarationBinding_const {site : Nat} {declaration : Node}
    (h : (declaration.declarationBinding site).kind = .const)
    (hnames : declaration.declarationNames ≠ []) :
    (declaration.declarationBinding site).declaration = some ⟨site, declaration⟩ := by
  unfold declarationBinding declarationNames at *
  cases hkind : declaration.kind <;> simp_all [bindingKind]

theorem introducedAs_const {site : Nat} {statement : Node}
    (h : (statement.introducedAs site).kind = .const) (hnames : statement.introduced ≠ []) :
    ∃ d, (statement.introducedAs site).declaration = some d := by
  unfold introducedAs at *
  rw [introduced] at hnames
  split at h
  · cases h
  · rename_i hkind
    cases hdeclaration : statement.child? .declaration with
    | none => simp [hkind, hdeclaration] at hnames
    | some declaration =>
      simp only [hkind, hdeclaration, Option.map_some, Option.getD_some] at *
      exact ⟨_, declarationBinding_const h hnames⟩
  · rename_i himport hexport
    split at hnames
    · rename_i hkind
      exact absurd hkind himport
    · rename_i hkind
      exact absurd hkind hexport
    · exact ⟨_, declarationBinding_const h hnames⟩

end Node

namespace Scope

theorem get?_eq_none_iff {scope : Scope} {name : String} :
    scope.get? name = none ↔ scope.binds name = false := by
  rw [← Bool.not_eq_true, binds_iff, ← Option.isSome_iff_exists, Option.not_isSome_iff_eq_none]

/-! ### Binding one name after the other -/

/-- Bind names alike, one after the other. -/
def registerNames (scope : Scope) (names : List String) (binding : Binding) : Scope :=
  names.foldl (fun scope name => scope.register name binding.kind binding.declaration) scope

theorem registerAll_eq (source : List UInt8) (scope : Scope) (identifiers : List Node)
    (binding : Binding) :
    scope.registerAll source identifiers binding.kind binding.declaration =
      (identifiers.mapM (Node.text source)).map fun names => scope.registerNames names binding := by
  induction identifiers generalizing scope with
  | nil => rfl
  | cons identifier rest ih =>
    unfold registerAll at *
    rw [List.foldlM_cons, List.mapM_cons]
    cases hname : identifier.text source with
    | error failure => rfl
    | ok name =>
      show List.foldlM _ (scope.register name binding.kind binding.declaration) rest = _
      rw [ih]
      cases rest.mapM (Node.text source) <;> rfl

theorem get?_registerNames (scope : Scope) (names : List String) (binding : Binding)
    (other : String) :
    (scope.registerNames names binding).get? other =
      if other ∈ names then some binding else scope.get? other := by
  induction names generalizing scope with
  | nil => simp [registerNames]
  | cons name rest ih =>
    show ((scope.register name binding.kind binding.declaration).registerNames rest binding).get?
      other = _
    rw [ih, get?_register]
    by_cases hrest : other ∈ rest <;> by_cases hname : other = name <;> simp [hrest, hname]

theorem references_registerNames (scope : Scope) (names : List String) (binding : Binding)
    {other : String} (h : other ∈ scope.references) :
    other ∈ (scope.registerNames names binding).references := by
  induction names generalizing scope with
  | nil => exact h
  | cons name rest ih => exact ih _ (mem_references_register.mpr (.inr h))

/-! ### What one statement adds -/

/-- How a scope changes when the statement at `site` is taken into it. -/
structure Admits (source : List UInt8) (site : Nat) (statement : Node) (before after : Scope) :
    Prop where
  /-- A binding is an old one, that of a variable in a block, or as the statement introduces it. -/
  binding : ∀ name binding, after.get? name = some binding → before.get? name = some binding ∨
    binding = ⟨.var, none⟩ ∨
    statement.Introduces source name ∧ binding = statement.introducedAs site
  /-- What was bound stays bound. -/
  kept : ∀ name, before.binds name = true → after.binds name = true
  /-- What the statement introduces is bound. -/
  introduced : ∀ name, statement.Introduces source name → after.binds name = true
  /-- Identifiers stay. -/
  references : ∀ name ∈ before.references, name ∈ after.references

theorem registerAll_eq_ok {source : List UInt8} {before after : Scope} {identifiers : List Node}
    {binding : Binding} (h : before.registerAll source identifiers binding.kind
      binding.declaration = .ok after) :
    ∃ names, identifiers.mapM (Node.text source) = .ok names ∧
      after = before.registerNames names binding := by
  rw [registerAll_eq] at h
  cases hmap : identifiers.mapM (Node.text source) with
  | error failure => simp [hmap, Except.map] at h
  | ok names => exact ⟨names, rfl, by simpa [hmap, Except.map] using h.symm⟩

theorem Admits.of_registerAll {source : List UInt8} {site : Nat} {statement : Node}
    {before after : Scope}
    (h : before.registerAll source statement.introduced (statement.introducedAs site).kind
      (statement.introducedAs site).declaration = .ok after) :
    Admits source site statement before after := by
  obtain ⟨names, hnames, rfl⟩ := registerAll_eq_ok h
  have hmem : ∀ name, name ∈ names ↔ statement.Introduces source name :=
    fun name => mem_mapM_ok hnames
  constructor
  · intro name binding hb
    rw [get?_registerNames] at hb
    by_cases hname : name ∈ names
    · rw [if_pos hname] at hb
      exact .inr (.inr ⟨(hmem name).mp hname, (Option.some.inj hb).symm⟩)
    · rw [if_neg hname] at hb
      exact .inl hb
  · intro name hb
    rw [binds_iff] at *
    rw [get?_registerNames]
    split
    · exact ⟨_, rfl⟩
    · exact hb
  · intro name hb
    rw [binds_iff, get?_registerNames, if_pos ((hmem name).mpr hb)]
    exact ⟨_, rfl⟩
  · intro name hb
    exact references_registerNames before names _ hb

theorem registerDeclaration_eq (source : List UInt8) (site : Nat) (scope : Scope)
    (declaration : Node) :
    scope.registerDeclaration source site declaration =
      scope.registerAll source declaration.declarationNames
        (declaration.declarationBinding site).kind
        (declaration.declarationBinding site).declaration := by
  rw [registerDeclaration, Node.declarationNames, Node.declarationBinding, registerName]
  cases declaration.kind <;> rfl

/-- A statement binds what it introduces, or it introduces nothing and may bind the variables of
its blocks. -/
theorem registerStatement_cases (source : List UInt8) (site : Nat) (scope : Scope)
    (statement : Node) :
    statement.kind.bindsDirectly = true ∧ scope.registerStatement source site statement =
        scope.registerAll source statement.introduced (statement.introducedAs site).kind
          (statement.introducedAs site).declaration ∨
      statement.kind.bindsDirectly = false ∧ statement.introduced = [] ∧
        scope.registerStatement source site statement = scope.registerNested source statement := by
  rw [registerStatement, Node.introduced, Node.introducedAs]
  cases hkind : statement.kind with
  | importStatement => exact .inl ⟨rfl, rfl⟩
  | exportStatement =>
    cases statement.child? .declaration with
    | none => exact .inl ⟨rfl, rfl⟩
    | some declaration => exact .inl ⟨rfl, registerDeclaration_eq ..⟩
  | lexicalDeclaration => exact .inl ⟨rfl, registerDeclaration_eq ..⟩
  | variableDeclaration => exact .inl ⟨rfl, registerDeclaration_eq ..⟩
  | functionDeclaration => exact .inl ⟨rfl, registerDeclaration_eq ..⟩
  | generatorDeclaration => exact .inl ⟨rfl, registerDeclaration_eq ..⟩
  | classDeclaration => exact .inl ⟨rfl, registerDeclaration_eq ..⟩
  | _ => exact .inr ⟨rfl, by simp [Node.declarationNames, hkind], rfl⟩

theorem Admits.of_registerNested {source : List UInt8} {site : Nat} {statement : Node}
    {before after : Scope} (hnone : statement.introduced = [])
    (h : before.registerNested source statement = .ok after) :
    Admits source site statement before after := by
  refine foldlM_keeps (P := Admits source site statement before) ?_ ?_ h
  · intro scope identifier next _ hscope hnext
    obtain ⟨name, -, hnext⟩ := bind_eq_ok.mp hnext
    obtain rfl : (if scope.binds name then scope else scope.register name .var) = next := by
      simpa [pure, Except.pure] using hnext
    split
    · exact hscope
    · constructor
      · intro other binding hb
        rw [get?_register] at hb
        split at hb
        · exact .inr (.inl (Option.some.inj hb).symm)
        · exact hscope.binding other binding hb
      · intro other hb
        exact binds_register (hscope.kept other hb)
      · intro other hb
        exact binds_register (hscope.introduced other hb)
      · intro other hb
        exact mem_references_register.mpr (.inr (hscope.references other hb))
  · refine ⟨fun _ _ hb => .inl hb, fun _ hb => hb, fun name hb => ?_, fun _ hb => hb⟩
    obtain ⟨identifier, hmem, -⟩ := hb
    rw [hnone] at hmem
    cases hmem

/-- **What one statement adds to a scope.** -/
theorem registerStatement_spec {source : List UInt8} {site : Nat} {statement : Node}
    {before after : Scope} (h : before.registerStatement source site statement = .ok after) :
    Admits source site statement before after := by
  rcases registerStatement_cases source site before statement with ⟨-, heq⟩ | ⟨-, hnone, heq⟩
  · exact .of_registerAll (heq ▸ h)
  · exact .of_registerNested hnone (heq ▸ h)

/-- The variables of a statement's blocks are bound if nothing else binds their names. -/
theorem get?_registerNested {source : List UInt8} {statement : Node} {before after : Scope}
    (h : before.registerNested source statement = .ok after) (name : String) :
    ∃ names, statement.nestedVars.mapM (Node.text source) = .ok names ∧
      after.get? name =
        (before.get? name).or (if name ∈ names then some ⟨.var, none⟩ else none) := by
  rw [registerNested] at h
  generalize statement.nestedVars = identifiers at h ⊢
  induction identifiers generalizing before with
  | nil =>
    obtain rfl : before = after := by simpa [pure, Except.pure] using h
    exact ⟨[], rfl, by simp⟩
  | cons identifier rest ih =>
    rw [List.foldlM_cons] at h
    obtain ⟨next, hnext, hrest⟩ := bind_eq_ok.mp h
    obtain ⟨own, hown, hnext⟩ := bind_eq_ok.mp hnext
    obtain rfl : (if before.binds own then before else before.register own .var) = next := by
      simpa [pure, Except.pure] using hnext
    obtain ⟨names, hnames, hget⟩ := ih hrest
    have hfirst : (if before.binds own then before else before.register own .var).get? name =
        (before.get? name).or (if name = own then some ⟨.var, none⟩ else none) := by
      by_cases hname : name = own
      · subst hname
        rw [if_pos rfl]
        split
        · rename_i hbound
          obtain ⟨binding, hbinding⟩ := binds_iff.mp hbound
          rw [hbinding, Option.some_or]
        · rename_i hunbound
          rw [get?_register, if_pos rfl, get?_eq_none_iff.mpr ((Bool.not_eq_true _).mp hunbound),
            Option.none_or]
      · rw [if_neg hname, Option.or_none]
        split
        · rfl
        · rw [get?_register, if_neg hname]
    refine ⟨own :: names, ?_, ?_⟩
    · rw [List.mapM_cons, hown, hnames]
      rfl
    · rw [hget, hfirst, Option.or_assoc]
      by_cases hname : name = own <;> simp [hname]

/-- A statement decides how names are bound that it introduces. It leaves others as they are, if
they are bound: the variables of its blocks come second. -/
theorem get?_registerStatement {source : List UInt8} {site : Nat} {statement : Node}
    {before after : Scope} (h : before.registerStatement source site statement = .ok after)
    (name : String) :
    (statement.Introduces source name → after.get? name = some (statement.introducedAs site)) ∧
      (¬ statement.Introduces source name → before.binds name = true →
        after.get? name = before.get? name) := by
  rcases registerStatement_cases source site before statement with ⟨-, heq⟩ | ⟨-, hnone, heq⟩
  · obtain ⟨names, hnames, rfl⟩ := registerAll_eq_ok (heq ▸ h)
    have hmem : name ∈ names ↔ statement.Introduces source name := mem_mapM_ok hnames
    rw [get?_registerNames, ← hmem]
    exact ⟨fun hname => if_pos hname, fun hname _ => if_neg hname⟩
  · refine ⟨fun ⟨identifier, hmem, _⟩ => ?_, fun _ hbound => ?_⟩
    · rw [hnone] at hmem
      cases hmem
    · obtain ⟨names, -, hget⟩ := get?_registerNested (heq ▸ h) name
      obtain ⟨binding, hbinding⟩ := binds_iff.mp hbound
      rw [hget, hbinding, Option.some_or]

/-! ### The scope of a tree -/

/-- What the scope of a module holds after some of its statements have been taken into it. -/
structure Holds (source : List UInt8) (statements : List (Node × Nat)) (start scope : Scope) :
    Prop where
  binding : ∀ name binding, scope.get? name = some binding → start.get? name = some binding ∨
    binding = ⟨.var, none⟩ ∨ ∃ entry ∈ statements,
      entry.1.Introduces source name ∧ binding = entry.1.introducedAs entry.2
  kept : ∀ name, start.binds name = true → scope.binds name = true
  introduced : ∀ entry ∈ statements, ∀ name, entry.1.Introduces source name →
    scope.binds name = true
  references : ∀ name ∈ start.references, name ∈ scope.references

theorem holds_of_foldlM {source : List UInt8} {statements : List (Node × Nat)} {start final : Scope}
    (h : statements.foldlM (fun scope (statement, site) =>
      scope.registerStatement source site statement) start = .ok final) :
    Holds source statements start final := by
  induction statements generalizing start with
  | nil =>
    obtain rfl : start = final := by simpa [pure, Except.pure] using h
    exact ⟨fun _ _ hb => .inl hb, fun _ hb => hb, by simp, fun _ hb => hb⟩
  | cons entry rest ih =>
    rw [List.foldlM_cons] at h
    obtain ⟨next, hnext, hrest⟩ := bind_eq_ok.mp h
    have hfirst := registerStatement_spec hnext
    have hholds := ih hrest
    constructor
    · intro name binding hb
      rcases hholds.binding name binding hb with hb | hb | ⟨other, hother, hb⟩
      · rcases hfirst.binding name binding hb with hb | hb | hb
        · exact .inl hb
        · exact .inr (.inl hb)
        · exact .inr (.inr ⟨entry, List.mem_cons_self .., hb⟩)
      · exact .inr (.inl hb)
      · exact .inr (.inr ⟨other, List.mem_cons_of_mem _ hother, hb⟩)
    · intro name hb
      exact hholds.kept name (hfirst.kept name hb)
    · intro other hother name hb
      rcases List.mem_cons.mp hother with rfl | hother
      · exact hholds.kept name (hfirst.introduced name hb)
      · exact hholds.introduced other hother name hb
    · intro name hb
      exact hholds.references name (hfirst.references name hb)

/-- A name that only one of some statements introduces is bound as it does. -/
theorem get?_of_foldlM {source : List UInt8} {statements : List (Node × Nat)} {start final : Scope}
    (h : statements.foldlM (fun scope (statement, site) =>
      scope.registerStatement source site statement) start = .ok final) {name : String}
    {binding : Binding}
    (hsole : ∀ entry ∈ statements, entry.1.Introduces source name →
      entry.1.introducedAs entry.2 = binding)
    (hstart : start.get? name = some binding ∨
      ∃ entry ∈ statements, entry.1.Introduces source name) :
    final.get? name = some binding := by
  induction statements generalizing start with
  | nil =>
    obtain rfl : start = final := by simpa [pure, Except.pure] using h
    exact hstart.resolve_right (by simp)
  | cons entry rest ih =>
    rw [List.foldlM_cons] at h
    obtain ⟨next, hnext, hrest⟩ := bind_eq_ok.mp h
    obtain ⟨hown, hkept⟩ := get?_registerStatement hnext name
    refine ih hrest (fun other h => hsole other (List.mem_cons_of_mem _ h)) ?_
    by_cases hname : entry.1.Introduces source name
    · left
      rw [hown hname, hsole entry (List.mem_cons_self ..) hname]
    · rcases hstart with hstart | ⟨other, hmem, hother⟩
      · left
        rw [hkept hname (binds_iff.mpr ⟨binding, hstart⟩), hstart]
      · rcases List.mem_cons.mp hmem with rfl | hmem
        · exact absurd hother hname
        · exact .inr ⟨other, hmem, hother⟩

/-- Noting identifiers binds nothing, and puts down their names. -/
theorem references_of_foldlM {source : List UInt8} {nodes : List Node} {start final : Scope}
    (h : nodes.foldlM (fun scope node => do
      return scope.addReference (← node.text source)) start = .ok final) :
    (∀ name, final.get? name = start.get? name) ∧
      ∀ name, name ∈ final.references ↔
        name ∈ start.references ∨ ∃ node ∈ nodes, node.text source = .ok name := by
  induction nodes generalizing start with
  | nil =>
    obtain rfl : start = final := by simpa [pure, Except.pure] using h
    exact ⟨fun _ => rfl, by simp⟩
  | cons node rest ih =>
    rw [List.foldlM_cons] at h
    obtain ⟨next, hnext, hrest⟩ := bind_eq_ok.mp h
    obtain ⟨own, hown, hnext⟩ := bind_eq_ok.mp hnext
    obtain rfl : start.addReference own = next := by simpa [pure, Except.pure] using hnext
    obtain ⟨hget, hall⟩ := ih hrest
    refine ⟨fun name => by rw [hget, get?_addReference], fun name => ?_⟩
    simp only [hall, mem_references_addReference, List.mem_cons, exists_eq_or_imp, hown,
      Except.ok.injEq, @eq_comm _ own]
    rw [or_assoc, or_left_comm]

section OfTree

variable {source : List UInt8} {root : Node} {scope : Scope}

theorem ofTree_holds (h : ofTree source root = .ok scope) :
    ∃ start, ofReferences source root = .ok start ∧
      Holds source root.namedChildren.zipIdx start scope := by
  obtain ⟨start, hstart, hrun⟩ := bind_eq_ok.mp h
  exact ⟨start, hstart, holds_of_foldlM hrun⟩

/-- **Every binding has its reason.** A name is bound as one of the statements introduces it, or as
a variable. -/
theorem ofTree_binding (h : ofTree source root = .ok scope) {name : String} {binding : Binding}
    (hb : scope.get? name = some binding) :
    binding = ⟨.var, none⟩ ∨ ∃ (site : Nat) (statement : Node),
      root.namedChildren[site]? = some statement ∧
        statement.Introduces source name ∧ binding = statement.introducedAs site := by
  obtain ⟨start, hstart, hholds⟩ := ofTree_holds h
  rcases hholds.binding name binding hb with hb | hb | ⟨⟨statement, site⟩, hentry, hb⟩
  · rw [(references_of_foldlM hstart).1] at hb
    cases hb
  · exact .inl hb
  · exact .inr ⟨site, statement, List.mem_zipIdx_iff_getElem?.mp hentry, hb⟩

/-- What a statement introduces is bound. -/
theorem ofTree_binds (h : ofTree source root = .ok scope) {statement : Node}
    (hstatement : statement ∈ root.namedChildren) {name : String}
    (hname : statement.Introduces source name) : scope.binds name = true := by
  obtain ⟨start, -, hholds⟩ := ofTree_holds h
  obtain ⟨site, hsite⟩ := List.getElem?_of_mem hstatement
  exact hholds.introduced (statement, site) (List.mem_zipIdx_iff_getElem?.mpr hsite) name hname

/-- A name that only one statement introduces is bound as it does, whatever stands in blocks. -/
theorem ofTree_sole (h : ofTree source root = .ok scope) {site : Nat} {statement : Node}
    (hsite : root.namedChildren[site]? = some statement) {name : String}
    (hname : statement.Introduces source name)
    (hsole : ∀ (other : Nat) (node : Node), root.namedChildren[other]? = some node →
      node.Introduces source name → other = site) :
    scope.get? name = some (statement.introducedAs site) := by
  obtain ⟨start, -, hrun⟩ := bind_eq_ok.mp h
  refine get?_of_foldlM hrun (fun entry hentry hintroduces => ?_)
    (.inr ⟨(statement, site), List.mem_zipIdx_iff_getElem?.mpr hsite, hname⟩)
  have hentry := List.mem_zipIdx_iff_getElem?.mp hentry
  obtain rfl := hsole _ _ hentry hintroduces
  rw [Option.some.inj (hentry.symm.trans hsite)]

/-- Every identifier of the tree is known. -/
theorem ofTree_references (h : ofTree source root = .ok scope) {node : Node}
    (hnode : node ∈ root.subtree) (hkind : node.kind.isIdentifier = true) {name : String}
    (hname : node.text source = .ok name) : name ∈ scope.references := by
  obtain ⟨start, hstart, hholds⟩ := ofTree_holds h
  refine hholds.references name (((references_of_foldlM hstart).2 name).mpr (.inr ⟨node, ?_, hname⟩))
  exact List.mem_filter.mpr ⟨Node.mem_subtreeBackwards_iff.mpr hnode, hkind⟩

/-- A constant has its declaration behind it. -/
theorem ofTree_const (h : ofTree source root = .ok scope) {name : String} {binding : Binding}
    (hb : scope.get? name = some binding) (hconst : binding.kind = .const) :
    ∃ d, binding.declaration = some d := by
  rcases ofTree_binding h hb with rfl | ⟨site, statement, -, ⟨identifier, hmem, -⟩, rfl⟩
  · cases hconst
  · exact Node.introducedAs_const hconst (List.ne_nil_of_mem hmem)

/-- The declaration behind a binding is the one at its site. -/
theorem ofTree_declaration (h : ofTree source root = .ok scope) {name : String}
    {binding : Binding} (hb : scope.get? name = some binding) {d : Declaration}
    (hd : binding.declaration = some d) :
    ∃ statement, root.namedChildren[d.site]? = some statement ∧
      statement.lexical? = some d.node := by
  rcases ofTree_binding h hb with rfl | ⟨site, statement, hsite, -, rfl⟩
  · cases hd
  · obtain ⟨rfl, hlexical⟩ := Node.introducedAs_declaration hd
    exact ⟨statement, hsite, hlexical⟩

end OfTree

/-! ### Success -/

theorem registerAll_ok {text : String} {root : Node} (hroot : root.WellFormed text)
    {identifiers : List Node} (hmem : ∀ node ∈ identifiers, node ∈ root.subtree) (scope : Scope)
    (binding : Binding) :
    ∃ after, scope.registerAll (Text.encode text) identifiers binding.kind binding.declaration =
      .ok after := by
  obtain ⟨names, hnames⟩ := hroot.mapM_text_ok hmem
  refine ⟨scope.registerNames names binding, ?_⟩
  rw [registerAll_eq]
  show (identifiers.mapM fun node : Node => node.text (Text.encode text)).map _ = _
  rw [hnames]
  rfl

theorem registerStatement_ok {text : String} {statement : Node}
    (hstatement : statement.WellFormed text) (scope : Scope) (site : Nat) :
    ∃ after, scope.registerStatement (Text.encode text) site statement = .ok after := by
  rcases registerStatement_cases (Text.encode text) site scope statement with
    ⟨-, heq⟩ | ⟨-, -, heq⟩
  · rw [heq]
    exact registerAll_ok hstatement (fun node => Node.introduced_subset) scope _
  · rw [heq]
    refine foldlM_ok (fun scope identifier hidentifier => ?_) scope
    obtain ⟨name, hname⟩ := (hstatement.below (Node.nestedVars_subset hidentifier)).text_ok
    exact ⟨_, bind_eq_ok.mpr ⟨name, hname, rfl⟩⟩

/-- **A well-formed tree has a scope.** -/
theorem ofTree_ok {text : String} {root : Node} (hroot : root.WellFormed text) :
    ∃ scope, ofTree (Text.encode text) root = .ok scope := by
  obtain ⟨start, hstart⟩ : ∃ start, ofReferences (Text.encode text) root = .ok start := by
    refine foldlM_ok (fun scope node hnode => ?_) _
    have hmem := Node.mem_subtreeBackwards_iff.mp (List.mem_filter.mp hnode).1
    obtain ⟨name, hname⟩ := (hroot.below hmem).text_ok
    exact ⟨_, bind_eq_ok.mpr ⟨name, hname, rfl⟩⟩
  have hone : ∀ (scope : Scope), ∀ entry ∈ root.namedChildren.zipIdx,
      ∃ next, registerStatement (Text.encode text) entry.2 scope entry.1 = .ok next := by
    intro scope entry hentry
    have hmem := Node.mem_subtree_of_mem_namedChildren (List.fst_mem_of_mem_zipIdx hentry)
    exact registerStatement_ok (hroot.below hmem) scope entry.2
  obtain ⟨final, hfinal⟩ := foldlM_ok hone start
  exact ⟨final, bind_eq_ok.mpr ⟨start, hstart, hfinal⟩⟩

end Scope

end Seams
