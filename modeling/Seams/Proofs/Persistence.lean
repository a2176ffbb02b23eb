import Seams.Proofs.Copies
import Seams.Proofs.ScopeTable

/-!
# What becomes of the bindings of a module

How a statement is opened depends on how names are bound at that moment, and opening the statements
before it has changed some of that. Names of functions and classes are unbound and bound anew,
constants are weakened by whole declarations, and generated names are bound on top. None of this may
lead a later statement astray: a name that the module binds must stay bound, and one that could be
assigned must never come back as a constant.

So each binding is followed from the moment the work has begun. It stays, or it is a constant that
becomes a variable together with the keyword in front of it, or its name is that of an exported
function or class. Whatever else gets bound was generated.

## Main definitions

* `Module.Claimed` — the names of the functions and classes that some statements export
* `Persists` — what may become of a binding
* `Descends` — the scope has come from the one in the beginning

## Main results

* `Does.descends`, `Works.descends` — along an act and along a run
* `Module.scope_persists` — the scope after any number of statements
-/

namespace Seams

/-! ### Bindings along the way -/

theorem Binding.isFrom_iff {binding : Binding} {site : Nat} :
    binding.isFrom site = true ↔ ∃ d, binding.declaration = some d ∧ d.site = site := by
  rw [isFrom]
  cases binding.declaration with
  | none => simp
  | some declaration => simp

/-- A name is that of a function or class that one of some statements exports. -/
def Module.Claimed (m : Module) (statements : List Node) (name : String) : Prop :=
  ∃ statement ∈ statements, statement.IsOwnExport ∧ statement.Claims (Text.encode m.source) name

/-- What may become of the binding of a name while some statements are worked on. -/
inductive Persists (m : Module) (options : Options) (statements : List Node) (edits : List Edit)
    (name : String) (before : Binding) : Binding → Prop
  | same : Persists m options statements edits name before before
  /-- A constant is weakened, and its keyword with it. -/
  | weakened {declaration : Declaration} {edit : Edit} (hconst : before.kind = .const)
      (hpermits : options.unsafeConst = true) (hdeclaration : before.declaration = some declaration)
      (hdeclares : m.IsConst declaration) (hedit : edit ∈ edits)
      (hrewords : edit.Rewords declaration) :
      Persists m options statements edits name before { before with kind := .let }
  /-- A variable takes over the name of a function or class. -/
  | claimed (hclaimed : m.Claimed statements name) :
      Persists m options statements edits name before ⟨.var, none⟩

/-- The scope has come from the one in the beginning by work on some statements. -/
structure Descends (m : Module) (options : Options) (statements : List Node)
    (begun bench : Workbench) : Prop where
  options_eq : bench.options = options
  /-- What was bound is bound, and its binding has changed for a reason if at all. -/
  kept : ∀ name before, begun.scope.get? name = some before → ∃ after,
    bench.scope.get? name = some after ∧
      Persists m options statements bench.draft.edits name before after
  /-- What was not bound before has no declaration, and is generated or taken over. -/
  added : ∀ name binding, begun.scope.get? name = none → bench.scope.get? name = some binding →
    binding.declaration = none ∧ (name ∈ bench.names.issued ∨ m.Claimed statements name)
  /-- What is bound also occurs, and no other name has come to occur. -/
  references : ∀ name, name ∈ bench.scope.references ↔
    name ∈ begun.scope.references ∨ bench.scope.binds name = true

section

variable {m front : Module} {options : Options} {statements : List Node}
  {begun a b : Workbench} {act : Act} {acts : List Act} {name : String}

theorem Persists.mono {edits more : List Edit} {before after : Binding}
    (h : Persists m options statements edits name before after) (hmore : edits ⊆ more) :
    Persists m options statements more name before after := by
  cases h with
  | same => exact .same
  | weakened hconst hpermits hdeclaration hdeclares hedit hrewords =>
    exact .weakened hconst hpermits hdeclaration hdeclares (hmore hedit) hrewords
  | claimed hclaimed => exact .claimed hclaimed

/-- Bindings with declarations at one site are the same in the beginning. -/
theorem Begun.eq_of_site (h : Begun m begun) {other : String} {x y : Binding} {d e : Declaration}
    (hx : begun.scope.get? name = some x) (hd : x.declaration = some d)
    (hy : begun.scope.get? other = some y) (he : y.declaration = some e)
    (hsite : d.site = e.site) : x = y := by
  rcases Scope.ofTree_binding h.scope hx with rfl | ⟨site, statement, hstatement, -, rfl⟩
  · cases hd
  · rcases Scope.ofTree_binding h.scope hy with rfl | ⟨place, again, hagain, -, rfl⟩
    · cases he
    · obtain ⟨rfl, -⟩ := Node.introducedAs_declaration hd
      obtain ⟨rfl, -⟩ := Node.introducedAs_declaration he
      rw [hsite] at hstatement ⊢
      rw [Option.some.inj (hstatement.symm.trans hagain)]

/-- The scope in the beginning comes from itself. -/
theorem Begun.descends (h : Begun m begun) (hoptions : begun.options = options) :
    Descends m options statements begun begun where
  options_eq := hoptions
  kept name before hb := ⟨before, hb, .same⟩
  added name binding hnone hb := by
    rw [hnone] at hb
    cases hb
  references name := by
    constructor
    · exact .inl
    · rintro (hreference | hbound)
      · exact hreference
      · exact Scope.ofTree_referenced h.scope hbound

/-- A constant with a declaration has been one from the beginning. -/
theorem Descends.constant (h : Descends m options statements begun a) {binding : Binding}
    {declaration : Declaration} (hb : a.scope.get? name = some binding)
    (hconst : binding.kind = .const) (hd : binding.declaration = some declaration) :
    begun.scope.get? name = some binding := by
  cases hentry : begun.scope.get? name with
  | none =>
    rw [(h.added name binding hentry hb).1] at hd
    cases hd
  | some before =>
    obtain ⟨after, hafter, hpersists⟩ := h.kept name before hentry
    obtain rfl := Option.some.inj (hb.symm.trans hafter)
    cases hpersists with
    | same => rfl
    | weakened | claimed => cases hconst

/-! ### What acts do -/

theorem Does.issued_subset (h : Does m a act b) : a.names.issued ⊆ b.names.issued := by
  obtain ⟨deeds, hsteps⟩ := h.reaches
  intro name hname
  exact (hsteps.issued.2.1 name).mpr (.inr hname)

theorem Does.edits_subset (h : Does m a act b) : a.draft.edits ⊆ b.draft.edits := by
  rw [h.edits]
  exact List.subset_append_left _ _

/-- An act that leaves the scope alone. -/
theorem Descends.of_scope_eq (ha : Descends m options statements begun a)
    (h : Does front a act b) (hscope : b.scope = a.scope) :
    Descends m options statements begun b where
  options_eq := h.options.trans ha.options_eq
  kept name before hb := by
    obtain ⟨after, hafter, hpersists⟩ := ha.kept name before hb
    exact ⟨after, hscope ▸ hafter, hpersists.mono h.edits_subset⟩
  added name binding hnone hb := by
    obtain ⟨hdeclaration, hreason⟩ := ha.added name binding hnone (hscope ▸ hb)
    exact ⟨hdeclaration, hreason.imp_left fun hissued => h.issued_subset hissued⟩
  references name := hscope ▸ ha.references name

/-- An act that binds one name: a new one, or that of a function or class. -/
theorem Descends.rebind (ha : Descends m options statements begun a) (h : Does front a act b)
    {kind : BindingKind}
    (hget : ∀ other, b.scope.get? other =
      if other = name then some ⟨kind, none⟩ else a.scope.get? other)
    (hreferences : ∀ other, other ∈ b.scope.references ↔
      other = name ∨ other ∈ a.scope.references)
    (hreason : (begun.scope.get? name = none ∧ name ∈ b.names.issued) ∨
      (kind = .var ∧ m.Claimed statements name)) :
    Descends m options statements begun b where
  options_eq := h.options.trans ha.options_eq
  kept other before hb := by
    rw [hget]
    by_cases heq : other = name
    · rw [if_pos heq]
      subst heq
      rcases hreason with ⟨hnone, -⟩ | ⟨rfl, hclaimed⟩
      · rw [hnone] at hb
        cases hb
      · exact ⟨_, rfl, .claimed hclaimed⟩
    · rw [if_neg heq]
      obtain ⟨after, hafter, hpersists⟩ := ha.kept other before hb
      exact ⟨after, hafter, hpersists.mono h.edits_subset⟩
  added other binding hnone hb := by
    rw [hget] at hb
    by_cases heq : other = name
    · rw [if_pos heq] at hb
      subst heq
      obtain rfl := Option.some.inj hb
      exact ⟨rfl, hreason.imp And.right And.right⟩
    · rw [if_neg heq] at hb
      obtain ⟨hdeclaration, hreason⟩ := ha.added other binding hnone hb
      exact ⟨hdeclaration, hreason.imp_left fun hissued => h.issued_subset hissued⟩
  references other := by
    have hbinds : b.scope.binds other = true ↔ other = name ∨ a.scope.binds other = true := by
      rw [Scope.binds_iff, hget, Scope.binds_iff]
      by_cases heq : other = name
      · simp [heq]
      · simp [heq]
    rw [hreferences, hbinds, ha.references]
    exact or_left_comm

/-- An act that weakens a declaration of constants. -/
theorem Descends.loosen (hbegun : Begun m begun) (ha : Descends m options statements begun a)
    {binding : Binding} {declaration : Declaration} (hb : a.scope.get? name = some binding)
    (hconst : binding.kind = .const) (hd : binding.declaration = some declaration)
    (hpermits : a.options.unsafeConst = true) :
    Descends m options statements begun
      { a.setScope (a.scope.loosen declaration.site) with
        draft := a.draft.record (a.draft.keywordEdits declaration.node) } := by
  have hentry := ha.constant hb hconst hd
  obtain ⟨_, hd', hdeclares, -⟩ := hbegun.constant hentry hconst
  obtain rfl := Option.some.inj (hd.symm.trans hd')
  obtain ⟨keyword, hkeyword⟩ := hdeclares.exists_keyword
  have hpermits : options.unsafeConst = true := ha.options_eq ▸ hpermits
  have hmore : a.draft.edits ⊆
      (a.draft.record (a.draft.keywordEdits declaration.node)).edits :=
    List.subset_append_left _ _
  have hedit : ⟨keyword.start, keyword.stop, "let", a.draft.nextOrder⟩ ∈
      (a.draft.record (a.draft.keywordEdits declaration.node)).edits := by
    simp [Draft.record, Draft.keywordEdits, hkeyword]
  constructor
  · exact ha.options_eq
  · intro other before hbefore
    obtain ⟨after, hafter, hpersists⟩ := ha.kept other before hbefore
    refine ⟨_, (Scope.get?_loosen ..).trans (by rw [hafter, Option.map_some]), ?_⟩
    cases hpersists with
    | same =>
      split
      · rename_i hfrom
        -- it is bound by the very declaration that is weakened
        obtain ⟨d, hdeclaration, hsite⟩ := Binding.isFrom_iff.mp hfrom
        obtain rfl := hbegun.eq_of_site hbefore hdeclaration hentry hd hsite
        exact .weakened hconst hpermits hd hdeclares hedit ⟨keyword, hkeyword, rfl, rfl, rfl⟩
      · exact .same
    | weakened hwas hallowed hdeclaration hdeclared hdone hrewords =>
      have hagain : Persists m options statements _ other before { before with kind := .let } :=
        .weakened hwas hallowed hdeclaration hdeclared (hmore hdone) hrewords
      split
      · exact hagain
      · exact hagain
    | claimed hclaimed => exact .claimed hclaimed
  · intro other after hnone hafter
    obtain ⟨before, hbefore, rfl⟩ :=
      Option.map_eq_some_iff.mp ((Scope.get?_loosen ..).symm.trans hafter)
    obtain ⟨hdeclaration, hreason⟩ := ha.added other before hnone hbefore
    refine ⟨?_, hreason⟩
    split
    · exact hdeclaration
    · exact hdeclaration
  · intro other
    show other ∈ a.scope.references ↔ _ ∨ (a.scope.loosen declaration.site).binds other = true
    rw [Scope.binds_loosen]
    exact ha.references other

/-- **What an act does to the scope.** The module that the act is for may be cut off behind the
statements that were worked on. -/
theorem Does.descends (h : Does front a act b) (hbegun : Begun m begun)
    (hfront : ∀ name, front.Claims name → m.Claimed statements name)
    (ha : Descends m options statements begun a) : Descends m options statements begun b := by
  -- A generated name is bound nowhere, and so it was not bound in the beginning.
  have hfresh : ∀ base, begun.scope.get? (a.fresh base).1 = none := by
    intro base
    cases hentry : begun.scope.get? (a.fresh base).1 with
    | none => rfl
    | some before =>
      obtain ⟨after, hafter, -⟩ := ha.kept _ before hentry
      have hunbound : a.scope.binds (a.fresh base).1 = false := (a.names.grants_fresh base).unbound
      rw [Scope.get?_eq_none_iff.mpr hunbound] at hafter
      cases hafter
  have hissued : ∀ base, (a.fresh base).1 ∈ (a.fresh base).2.names.issued := by
    intro base
    show _ ∈ (a.names.fresh base).2.issued
    rw [(a.names.grants_fresh base).issued]
    exact List.mem_cons_self ..
  have hact := h
  cases h with
  | rewrite => exact ha.of_scope_eq hact rfl
  | keep => exact ha.of_scope_eq hact rfl
  | declare => exact ha.of_scope_eq hact rfl
  | weaken hb hconst hd hpermits => exact ha.loosen hbegun hb hconst hd hpermits
  | @intercept _ base =>
    exact ha.rebind hact (fun _ => Scope.get?_register ..)
      (fun _ => Scope.mem_references_register) (.inl ⟨hfresh base, hissued base⟩)
  | @store base =>
    exact ha.rebind hact (fun _ => Scope.get?_register ..)
      (fun _ => Scope.mem_references_register) (.inl ⟨hfresh base, hissued base⟩)
  | @claim _ localName hclaims =>
    have hget : ∀ other, ((a.scope.remove localName).register localName .var).get? other =
        if other = localName then some ⟨.var, none⟩ else a.scope.get? other := by
      intro other
      rw [Scope.get?_register, Scope.get?_remove]
      by_cases heq : other = localName
      · rw [if_pos heq, if_pos heq]
      · rw [if_neg heq, if_neg heq, if_neg heq]
    exact ha.rebind hact hget (fun _ => Scope.mem_references_register)
      (.inr ⟨rfl, hfront _ hclaims⟩)

/-- **What a run does to the scope.** -/
theorem Works.descends (h : Works front a b) (hbegun : Begun m begun)
    (hfront : ∀ name, front.Claims name → m.Claimed statements name)
    (ha : Descends m options statements begun a) : Descends m options statements begun b := by
  obtain ⟨acts, hacts⟩ := h
  exact hacts.keeps (fun _ _ _ hact => hact.descends hbegun hfront) ha

end

/-! ### The first statements of a module -/

namespace Module

/-- A module without the statements behind the first ones. -/
def cut (m : Module) (count : Nat) : Module :=
  { m with root := { m.root with children := m.root.namedChildren.take count } }

theorem namedChildren_cut (m : Module) (count : Nat) :
    (m.cut count).root.namedChildren = m.root.namedChildren.take count := by
  refine List.filter_eq_self.mpr ?_
  intro statement hstatement
  exact (List.mem_filter.mp (List.mem_of_mem_take hstatement)).2

/-- What the first statements claim, one of them claims. -/
theorem claimed_of_cut {m : Module} {count : Nat} {name : String} (h : (m.cut count).Claims name) :
    m.Claimed (m.root.namedChildren.take count) name := by
  obtain ⟨statement, hstatement, hclaims⟩ := h
  rw [namedChildren_cut] at hstatement
  exact ⟨statement, hstatement, hclaims⟩

/-- **Nothing is unbound, and nothing is frozen again.** After any number of statements every name
that was bound in the beginning is bound and occurs. Its binding is the same, or it was a constant,
options allow for it to be weakened and its keyword has been replaced, or one of these statements
exports a function or class of that name. Any other name that is bound was generated, or is the name
of such a function or class. And whatever was bound or could be assigned after fewer statements,
still is and still can. -/
theorem scope_persists {m : Module} {options : Options} {begun visited : Workbench} {count : Nat}
    (hstart : (Workbench.start options (Text.encode m.source) m.root).result = .ok begun)
    (hvisit : (begun.visitAll (m.root.namedChildren.take count)).result = .ok visited) :
    Descends m options (m.root.namedChildren.take count) begun visited ∧
      (∀ name, begun.scope.binds name = true → name ∈ visited.scope.references) ∧
      ∀ earlier ≤ count, ∀ bench,
        (begun.visitAll (m.root.namedChildren.take earlier)).result = .ok bench → ∀ name,
          (bench.scope.binds name = true → visited.scope.binds name = true) ∧
            (bench.scope.Assignable name → visited.scope.Assignable name) := by
  have hbegun := Workbench.start_ensures m options begun hstart
  have hoptions := (Workbench.start_frame _ _ _ _ hstart).1
  have hworks : Works (m.cut count) begun visited :=
    Workbench.visitAll_works (m := m.cut count) hbegun.source
      (fun statement hstatement => (m.namedChildren_cut count).symm ▸ hstatement) visited hvisit
  have hdescends := hworks.descends hbegun (fun _ => claimed_of_cut) (hbegun.descends hoptions)
  refine ⟨hdescends, ?_, ?_⟩
  · intro name hname
    exact (hdescends.references name).mpr (.inl (Scope.ofTree_referenced hbegun.scope hname))
  · intro earlier hle bench hbench name
    have hfront : m.root.namedChildren.take earlier <+: m.root.namedChildren.take count :=
      List.take_prefix_take_left hle
    obtain ⟨deeds, hsteps⟩ := (Workbench.visitAll_works_on hbegun.source hfront
      (fun _ hs => List.mem_of_mem_take hs) hbench hvisit).reaches
    constructor
    · exact hsteps.binds
    · exact hsteps.rebinds (fun _ _ hrebinds => hrebinds.assignable) name

/-- The specimen exports a constant, which is weakened when all of it has been worked on. -/
theorem scope_persists_specimen : ∃ begun visited,
    (Workbench.start { unsafeConst := true } (Text.encode specimen.source)
      specimen.root).result = .ok begun ∧
    (begun.visitAll (specimen.root.namedChildren.take 3)).result = .ok visited ∧
    Descends specimen { unsafeConst := true } (specimen.root.namedChildren.take 3) begun visited ∧
    (∀ name, begun.scope.binds name = true → name ∈ visited.scope.references) ∧
    ∀ earlier ≤ 3, ∀ bench,
      (begun.visitAll (specimen.root.namedChildren.take earlier)).result = .ok bench → ∀ name,
        (bench.scope.binds name = true → visited.scope.binds name = true) ∧
          (bench.scope.Assignable name → visited.scope.Assignable name) := by
  have hwell := specimen_wellFormed
  obtain ⟨begun, hstart, hbegun⟩ := Tidy.start_gives hwell { unsafeConst := true }
  obtain ⟨visited, hvisit, -⟩ := hbegun.visitAll_gives hwell specimen_exportable
    (fun _ hs => List.mem_of_mem_take hs) (fun _ _ => Nat.zero_le _) hwell.statements.take
  exact ⟨begun, visited, hstart, hvisit, scope_persists hstart hvisit⟩

end Module

end Seams
