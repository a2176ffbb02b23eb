import Seams.Proofs.Run

/-!
# No override assigns to a constant

An override function assigns to the variable behind an export, so this variable must not be a
constant or an import. Each form of export sees to this in its own way, and an exported `let` or
`var` is not even looked up. What makes them agree is that a constant has its declaration behind
it, that no step makes anything immutable but new names, and that names of constants are declared
only once.

## Main definitions

* `Module.SoleConstants` — what an import or constant introduces, no other statement introduces
* `Scope.Assignable` — a name is bound and can be assigned
* `Sound` — the variables behind all exports can be assigned, and those still to come can be made so

## Main results

* `Begun.sound`, `Step.sound`, `Steps.sound` — the invariant, at the beginning and along a run
* `exports_assignable` — the variable behind an export can be assigned at any time
-/

namespace Seams

/-- A name that an import or a `const` declaration introduces is introduced by no other top-level
statement. -/
def Module.SoleConstants (m : Module) : Prop :=
  ∀ (i j : Nat) (a b : Node) (name : String), m.root.namedChildren[i]? = some a →
    m.root.namedChildren[j]? = some b → a.BindsConstants →
    a.Introduces (Text.encode m.source) name → b.Introduces (Text.encode m.source) name → i = j

/-- If what belongs to the items of a list is apart, it tells their places apart. -/
theorem place_eq_of_pairwise {α β : Type} {items : List α} {parts : α → List β}
    (h : items.Pairwise fun a b => ∀ part ∈ parts a, part ∉ parts b)
    {i j : Nat} {a b : α} {part : β} (ha : items[i]? = some a) (hb : items[j]? = some b)
    (hpart : part ∈ parts a) (hpart' : part ∈ parts b) : i = j := by
  obtain ⟨hi, rfl⟩ := List.getElem?_eq_some_iff.mp ha
  obtain ⟨hj, rfl⟩ := List.getElem?_eq_some_iff.mp hb
  have hpairwise := List.pairwise_iff_getElem.mp h
  rcases Nat.lt_trichotomy i j with hlt | heq | hgt
  · exact absurd hpart' (hpairwise i j hi hj hlt _ hpart)
  · exact heq
  · exact absurd hpart (hpairwise j i hj hi hgt _ hpart')

/-- Names of constants are introduced once if no two statements introduce the same name. -/
theorem Module.soleConstants_of_pairwise {m : Module} (h : m.root.namedChildren.Pairwise fun a b =>
    ∀ text ∈ a.introduced.map (Node.text (Text.encode m.source)),
      text ∉ b.introduced.map (Node.text (Text.encode m.source))) : m.SoleConstants :=
  fun _ _ _ _ _ ha hb _ hname hname' =>
    place_eq_of_pairwise h ha hb (List.mem_map.mpr hname) (List.mem_map.mpr hname')

/-- A name is bound and can be assigned. -/
def Scope.Assignable (scope : Scope) (name : String) : Prop :=
  ∃ binding, scope.get? name = some binding ∧ binding.isImmutable = false

/-! ### How statements bind -/

namespace Node

theorem bindingKind_ne_module (declaration : Node) : declaration.bindingKind ≠ .module := by
  rw [bindingKind]
  split
  · simp
  · split <;> simp

theorem declarationBinding_ne_module (site : Nat) (declaration : Node) :
    (declaration.declarationBinding site).kind ≠ .module := by
  rw [declarationBinding]
  split
  · exact declaration.bindingKind_ne_module
  · simp
  · simp
  · simp
  · exact declaration.bindingKind_ne_module

/-- A declaration that binds something immutable is a `const` declaration. -/
theorem declarationBinding_immutable {site : Nat} {declaration : Node}
    (hnames : declaration.declarationNames ≠ [])
    (h : (declaration.declarationBinding site).isImmutable = true) :
    declaration.kind = .lexicalDeclaration ∧ declaration.bindingKind = .const := by
  have hconst : (declaration.declarationBinding site).kind = .const :=
    (Binding.isImmutable_iff.mp h).resolve_right (declarationBinding_ne_module site declaration)
  have hlexical := (declarationBinding_declaration
    (declarationBinding_const hconst hnames)).1
  refine ⟨hlexical, ?_⟩
  rwa [declarationBinding, hlexical] at hconst

/-- A statement that binds something immutable is an import or has a `const` declaration. -/
theorem introducedAs_immutable {site : Nat} {statement : Node} (hnames : statement.introduced ≠ [])
    (h : (statement.introducedAs site).isImmutable = true) : statement.BindsConstants := by
  unfold introduced introducedAs at *
  split at h
  · exact .inl ‹_›
  · rename_i hkind
    simp only [hkind] at hnames
    cases hchild : statement.child? .declaration with
    | none => simp [hchild] at hnames
    | some declaration =>
      rw [hchild] at h hnames
      obtain ⟨hlexical, hconst⟩ := declarationBinding_immutable hnames h
      exact .inr ⟨declaration, by simp [lexical?, hkind, hchild, hlexical], hconst⟩
  · rename_i himport hexport
    have hnames : statement.declarationNames ≠ [] := by
      split at hnames
      · exact absurd ‹_› himport
      · exact absurd ‹_› hexport
      · exact hnames
    obtain ⟨hlexical, hconst⟩ := declarationBinding_immutable hnames h
    exact .inr ⟨statement, by simp [lexical?, hlexical], hconst⟩

/-- An export statement binds nothing as an import does. -/
theorem introducedAs_ne_module {site : Nat} {statement : Node}
    (hkind : statement.kind = .exportStatement) : (statement.introducedAs site).kind ≠ .module := by
  rw [introducedAs, hkind]
  cases hchild : statement.child? .declaration with
  | none => simp
  | some declaration => exact declarationBinding_ne_module site declaration

end Node

/-! ### The invariant -/

theorem Rebinds.assignable {x y : Option Binding} (h : Rebinds x y)
    (hx : ∃ binding, x = some binding ∧ binding.isImmutable = false) :
    ∃ binding, y = some binding ∧ binding.isImmutable = false := by
  obtain ⟨binding, rfl, hmutable⟩ := hx
  cases h with
  | same => exact ⟨binding, rfl, hmutable⟩
  | loosened => exact ⟨_, rfl, rfl⟩
  | asVar => exact ⟨_, rfl, rfl⟩

theorem Rebinds.declared {x y : Option Binding} (h : Rebinds x y)
    (hx : ∀ binding, x = some binding → binding.kind = .const → binding.declaration ≠ none) :
    ∀ binding, y = some binding → binding.kind = .const → binding.declaration ≠ none := by
  intro binding hbinding hconst
  cases h with
  | same => exact hx binding hbinding hconst
  | loosened | asVar | asModule =>
    cases hbinding
    cases hconst

/-- The variables behind all exports can be assigned, and those still to come can be made so. -/
structure Sound (m : Module) (bench : Workbench) : Prop where
  /-- A constant has its declaration behind it. -/
  declared : ∀ name binding, bench.scope.get? name = some binding → binding.kind = .const →
    binding.declaration ≠ none
  /-- What an export statement declares is no import. -/
  own : ∀ statement ∈ m.root.namedChildren, statement.kind = .exportStatement → ∀ name,
    statement.Introduces (Text.encode m.source) name →
    ∃ binding, bench.scope.get? name = some binding ∧ binding.kind ≠ .module
  /-- What it declares without `const` can be assigned. -/
  free : ∀ statement ∈ m.root.namedChildren, ¬ statement.BindsConstants → ∀ name,
    statement.Introduces (Text.encode m.source) name → bench.scope.Assignable name
  exports : ∀ entry ∈ bench.inventory.exports, bench.scope.Assignable entry.localName

section

variable {m : Module} {a b : Workbench} {deed : Deed} {deeds : List Deed}

/-- A settled name that is no import can be assigned, since no constant lacks its declaration. -/
theorem Sound.assignable (h : Sound m a) {name : String} (hsettled : a.scope.Settled name)
    {binding : Binding} (hb : a.scope.get? name = some binding) (hkind : binding.kind ≠ .module) :
    a.scope.Assignable name := by
  have hconst : binding.kind ≠ .const := fun hconst =>
    h.declared name binding hb hconst (hsettled binding hb hconst)
  exact ⟨binding, hb, Binding.isImmutable_eq_false_iff.mpr ⟨hconst, hkind⟩⟩

/-- What a statement introduces is immutable in the beginning only if this very statement makes it
so. -/
theorem Begun.introducedAs_of_immutable (h : Begun m a) (hsole : m.SoleConstants)
    {statement : Node} (hstatement : statement ∈ m.root.namedChildren) {name : String}
    (hname : statement.Introduces (Text.encode m.source) name) {binding : Binding}
    (hb : a.scope.get? name = some binding) (himmutable : binding.isImmutable = true) :
    statement.BindsConstants ∧ ∃ site, binding = statement.introducedAs site := by
  obtain ⟨j, hj⟩ := List.getElem?_of_mem hstatement
  rcases Scope.ofTree_binding h.scope hb with rfl | ⟨i, other, hi, ⟨identifier, hmem, htext⟩, rfl⟩
  · cases himmutable
  · have hconstants := Node.introducedAs_immutable (List.ne_nil_of_mem hmem) himmutable
    obtain rfl := hsole i j other statement name hi hj hconstants ⟨identifier, hmem, htext⟩ hname
    obtain rfl := Option.some.inj (hi.symm.trans hj)
    exact ⟨hconstants, i, rfl⟩

/-- **The invariant at the beginning.** -/
theorem Begun.sound (h : Begun m a) (hsole : m.SoleConstants) : Sound m a where
  declared name binding hb hconst := by
    obtain ⟨d, hd⟩ := Scope.ofTree_const h.scope hb hconst
    simp [hd]
  own statement hstatement hkind name hname := by
    obtain ⟨binding, hb⟩ := Scope.binds_iff.mp (Scope.ofTree_binds h.scope hstatement hname)
    refine ⟨binding, hb, ?_⟩
    intro hmodule
    obtain ⟨-, site, rfl⟩ := h.introducedAs_of_immutable hsole hstatement hname hb
      (Binding.isImmutable_iff.mpr (.inr hmodule))
    exact Node.introducedAs_ne_module hkind hmodule
  free statement hstatement hfree name hname := by
    obtain ⟨binding, hb⟩ := Scope.binds_iff.mp (Scope.ofTree_binds h.scope hstatement hname)
    refine ⟨binding, hb, ?_⟩
    rw [← Bool.not_eq_true]
    intro himmutable
    exact hfree (h.introducedAs_of_immutable hsole hstatement hname hb himmutable).1
  exports := by simp [h.inventory]

/-- **The invariant along a step.** -/
theorem Step.sound (h : Step m a deed b) (ha : Sound m a) : Sound m b where
  declared name := (h.rebinds name).declared (ha.declared name)
  own statement hstatement hkind name hname :=
    (h.rebinds name).notModule (ha.own statement hstatement hkind name hname)
  free statement hstatement hfree name hname :=
    (h.rebinds name).assignable (ha.free statement hstatement hfree name hname)
  exports := by
    refine h.exports (fun name => (h.rebinds name).assignable) ?_ ?_ ?_ ha.exports
    · exact fun name binding hb hkind hsettled => ha.assignable hsettled hb hkind
    · intro statement hstatement hkind name hname hsettled
      by_cases hconstants : statement.BindsConstants
      · obtain ⟨binding, hb, hmodule⟩ := ha.own statement hstatement hkind name hname
        exact ha.assignable (hsettled hconstants) hb hmodule
      · exact ha.free statement hstatement hconstants name hname
    · exact fun scope name => ⟨⟨.var, none⟩, by rw [Scope.get?_register, if_pos rfl], rfl⟩

/-- **The invariant along a run.** -/
theorem Steps.sound (h : Steps m a deeds b) (ha : Sound m a) : Sound m b :=
  h.keeps (fun _ _ _ hstep => hstep.sound) ha

end

/-- **No override assigns to a constant.** If names of imports and constants are introduced once,
then whatever number of statements has been worked on, the variable behind each export found so far
is bound, and neither a constant nor an import. -/
theorem Module.SoleConstants.exports_assignable {m : Module} (hsole : m.SoleConstants)
    {options : Options} {begun visited : Workbench} {count : Nat}
    (hstart : (Workbench.start options (Text.encode m.source) m.root).result = .ok begun)
    (hvisit : (begun.visitAll (m.root.namedChildren.take count)).result = .ok visited) :
    ∀ entry ∈ visited.inventory.exports, ∃ binding,
      visited.scope.get? entry.localName = some binding ∧
        binding.kind ≠ .const ∧ binding.kind ≠ .module := by
  have hbegun := Workbench.start_ensures m options begun hstart
  obtain ⟨deeds, hsteps⟩ := Workbench.visitAll_walks hbegun.source
    (fun _ hs => List.mem_of_mem_take hs) visited hvisit
  intro entry hentry
  obtain ⟨binding, hb, hmutable⟩ := (hsteps.sound (hbegun.sound hsole)).exports entry hentry
  exact ⟨binding, hb, Binding.isImmutable_eq_false_iff.mp hmutable⟩

theorem specimen_soleConstants : Module.specimen.SoleConstants :=
  Module.soleConstants_of_pairwise (by decide +kernel)

/-- The specimen exports a constant, which is weakened on the way. -/
theorem exports_assignable_specimen : Module.specimen.SoleConstants ∧ ∃ begun visited,
    (Workbench.start { unsafeConst := true } (Text.encode Module.specimen.source)
      Module.specimen.root).result = .ok begun ∧
    (begun.visitAll (Module.specimen.root.namedChildren.take 3)).result = .ok visited ∧
    ∀ entry ∈ visited.inventory.exports, ∃ binding,
      visited.scope.get? entry.localName = some binding ∧
        binding.kind ≠ .const ∧ binding.kind ≠ .module := by
  have hwell := Module.specimen_wellFormed
  obtain ⟨begun, hstart, hbegun⟩ := Tidy.start_gives hwell { unsafeConst := true }
  obtain ⟨visited, hvisit, -⟩ := hbegun.visitAll_gives hwell Module.specimen_exportable
    (fun _ hs => List.mem_of_mem_take hs) (fun _ _ => Nat.zero_le _) hwell.statements.take
  exact ⟨specimen_soleConstants, begun, visited, hstart, hvisit,
    specimen_soleConstants.exports_assignable hstart hvisit⟩

end Seams
