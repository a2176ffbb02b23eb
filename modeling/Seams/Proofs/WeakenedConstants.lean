import Seams.Proofs.Constants
import Seams.Proofs.ExportAccounts

/-!
# Which constants are weakened

If options allow it, a declaration of constants whose names are exported becomes one of variables.
Two things have to be kept in step for this: the bindings of its names, and the keyword in the
draft. Exports come in several forms, a declaration may have several names, and each of them may be
exported more than once. Still a declaration is weakened once, and only if it has to be: the first
export of one of its names turns all its bindings, and no later one finds a constant.

## Main definitions

* `Module.SoleNames` — no name is declared twice
* `Module.IsConst`, `Declaration.Binds` — the declarations of constants, and their names
* `Module.Yields` — such a declaration has to be weakened
* `Gated` — bindings and draft agree on what has been weakened so far

## Main results

* `Begun.gated`, `Does.gated`, `Acts.gated` — they agree in the beginning, along an act and along
  a run
* `Gated.mem_weakened_iff`, `Gated.reworded` — what has been weakened, and how often keywords are
  replaced
* `Module.SoleNames.constants_gated` — what has been weakened when a module is opened
-/

namespace Seams

/-! ### Declarations of constants -/

namespace Node

/-- The name of the function or class that an export statement exports. -/
def claimed (statement : Node) : List Node :=
  if statement.IsOwnExport then
    ((statement.exportTarget?.filter isDefinition).bind (Node.child? · .name)).toList
  else []

/-- A statement declares a name: it introduces the name, or exports a function or class that has
it. -/
def Declares (source : List UInt8) (statement : Node) (name : String) : Prop :=
  ∃ identifier ∈ statement.introduced ++ statement.claimed, identifier.text source = .ok name

theorem Introduces.declares {source : List UInt8} {statement : Node} {name : String}
    (h : statement.Introduces source name) : statement.Declares source name := by
  obtain ⟨identifier, hmem, htext⟩ := h
  exact ⟨identifier, List.mem_append_left _ hmem, htext⟩

theorem Claims.declares {source : List UInt8} {statement : Node} {name : String}
    (hown : statement.IsOwnExport) (h : statement.Claims source name) :
    statement.Declares source name := by
  obtain ⟨target, nameNode, htarget, hdefinition, hname, htext⟩ := h
  refine ⟨nameNode, List.mem_append_right _ ?_, htext⟩
  simp [claimed, hown, htarget, Option.filter, hdefinition, hname]

theorem kind_of_lexical? {declaration statement : Node}
    (h : statement.lexical? = some declaration) : declaration.kind = .lexicalDeclaration := by
  rw [lexical?] at h
  split at h
  · rename_i hkind
    rw [← Option.some.inj h]
    exact hkind
  · simpa using (Option.filter_eq_some_iff.mp h).2
  · cases h

/-- A statement with a `let` or `const` declaration introduces the names of this declaration. -/
theorem introduced_of_lexical? {declaration statement : Node}
    (h : statement.lexical? = some declaration) :
    statement.introduced = declaration.declared := by
  have hlexical := kind_of_lexical? h
  rw [lexical?] at h
  split at h
  · rename_i hkind
    obtain rfl := Option.some.inj h
    simp only [introduced, hkind, declarationNames]
  · rename_i hkind
    have hchild := (Option.filter_eq_some_iff.mp h).1
    simp only [introduced, hkind, hchild, Option.map_some, Option.getD_some, declarationNames,
      hlexical]
  · cases h

/-- It binds them as the keyword says, and remembers the declaration. -/
theorem introducedAs_of_lexical? {declaration statement : Node}
    (h : statement.lexical? = some declaration) (site : Nat) :
    statement.introducedAs site = ⟨declaration.bindingKind, some ⟨site, declaration⟩⟩ := by
  have hlexical := kind_of_lexical? h
  rw [lexical?] at h
  split at h
  · rename_i hkind
    obtain rfl := Option.some.inj h
    simp only [introducedAs, hkind, declarationBinding]
  · rename_i hkind
    have hchild := (Option.filter_eq_some_iff.mp h).1
    simp only [introducedAs, hkind, hchild, Option.map_some, Option.getD_some, declarationBinding,
      hlexical]
  · cases h

/-- A statement with such a declaration exports no function or class. -/
theorem not_claims_of_lexical? {declaration statement : Node}
    (h : statement.lexical? = some declaration) (hkind : statement.kind = .exportStatement)
    (source : List UInt8) (name : String) : ¬ statement.Claims source name := by
  rintro ⟨target, nameNode, htarget, hdefinition, -⟩
  have hlexical := kind_of_lexical? h
  simp only [lexical?, hkind] at h
  have hchild := (Option.filter_eq_some_iff.mp h).1
  have hdeclaration := declaration_of_exportTarget? htarget (by simp [hchild])
  obtain rfl := Option.some.inj (hchild.symm.trans hdeclaration)
  simp [isDefinition, hlexical, Kind.isFunctionDeclaration, Kind.isFunctionExpression,
    Kind.isClass] at hdefinition

end Node

/-- A declaration binds a name. -/
def Declaration.Binds (source : List UInt8) (declaration : Declaration) (name : String) : Prop :=
  ∃ identifier ∈ declaration.node.declared, identifier.text source = .ok name

namespace Module

/-- No name is declared by two top-level statements. -/
def SoleNames (m : Module) : Prop :=
  ∀ (i j : Nat) (a b : Node) (name : String), m.root.namedChildren[i]? = some a →
    m.root.namedChildren[j]? = some b → a.Declares (Text.encode m.source) name →
    b.Declares (Text.encode m.source) name → i = j

theorem soleNames_of_pairwise {m : Module} (h : m.root.namedChildren.Pairwise fun a b =>
    ∀ text ∈ (a.introduced ++ a.claimed).map (Node.text (Text.encode m.source)),
      text ∉ (b.introduced ++ b.claimed).map (Node.text (Text.encode m.source))) : m.SoleNames :=
  fun _ _ _ _ _ ha hb hname hname' =>
    place_eq_of_pairwise h ha hb (List.mem_map.mpr hname) (List.mem_map.mpr hname')

/-- A declaration of constants: a top-level statement is or exports it, and its keyword is
`const`. -/
structure IsConst (m : Module) (declaration : Declaration) : Prop where
  stands : ∃ statement, m.root.namedChildren[declaration.site]? = some statement ∧
    statement.lexical? = some declaration.node
  keyword : declaration.node.bindingKind = .const

/-- A declaration of constants has to be weakened: options allow it, and an export exposes one of
its names. -/
def Yields (m : Module) (options : Options) (declaration : Declaration) : Prop :=
  options.unsafeConst = true ∧
    ∃ name, declaration.Binds (Text.encode m.source) name ∧ m.Exposes name

namespace IsConst

variable {m : Module} {d other : Declaration} {name : String}

/-- A statement has one declaration at most. -/
theorem eq_of_site (hd : m.IsConst d) (hother : m.IsConst other) (h : d.site = other.site) :
    d = other := by
  obtain ⟨statement, hsite, hlexical⟩ := hd.stands
  obtain ⟨_, hsite', hlexical'⟩ := hother.stands
  rw [h] at hsite
  obtain rfl := Option.some.inj (hsite.symm.trans hsite')
  obtain ⟨site, node⟩ := d
  obtain ⟨site', node'⟩ := other
  obtain rfl : node = node' := Option.some.inj (hlexical.symm.trans hlexical')
  obtain rfl : site = site' := h
  rfl

theorem exists_keyword (hd : m.IsConst d) : ∃ keyword, d.node.keyword? = some keyword := by
  cases hkeyword : d.node.keyword? with
  | some keyword => exact ⟨keyword, rfl⟩
  | none =>
    have hconst := hd.keyword
    rw [Node.bindingKind, hkeyword] at hconst
    split at hconst <;> cases hconst

/-- The statement of a declaration introduces its names. -/
theorem introduces (hd : m.IsConst d) (hname : d.Binds (Text.encode m.source) name) :
    ∃ statement, m.root.namedChildren[d.site]? = some statement ∧
      statement.lexical? = some d.node ∧ statement.Introduces (Text.encode m.source) name := by
  obtain ⟨statement, hsite, hlexical⟩ := hd.stands
  obtain ⟨identifier, hmem, htext⟩ := hname
  refine ⟨statement, hsite, hlexical, identifier, ?_, htext⟩
  rwa [Node.introduced_of_lexical? hlexical]

/-- What a declaration of constants binds, nothing else claims. -/
theorem not_claimed (hd : m.IsConst d) (hsole : m.SoleNames)
    (hname : d.Binds (Text.encode m.source) name) : ¬ m.Claims name := by
  rintro ⟨other, hother, hown, hclaims⟩
  obtain ⟨statement, hsite, hlexical, hintroduces⟩ := hd.introduces hname
  obtain ⟨place, hplace⟩ := List.getElem?_of_mem hother
  obtain rfl := hsole _ _ _ _ name hsite hplace hintroduces.declares (hclaims.declares hown)
  obtain rfl := Option.some.inj (hsite.symm.trans hplace)
  exact Node.not_claims_of_lexical? hlexical hown.kind _ _ hclaims

end IsConst

end Module

/-! ### The invariant -/

/-- The edits that turn a keyword into `let`. -/
def Draft.rewordings (draft : Draft) : List Edit :=
  draft.edits.filter fun edit => edit.text = "let"

/-- An edit turns the keyword of a declaration into `let`. -/
def Edit.Rewords (edit : Edit) (declaration : Declaration) : Prop :=
  ∃ keyword, declaration.node.keyword? = some keyword ∧ edit.start = keyword.start ∧
    edit.stop = keyword.stop ∧ edit.text = "let"

/-- Bindings and draft agree that these declarations of constants have been weakened so far, in
this order. -/
structure Gated (m : Module) (bench : Workbench) (weakened : List Declaration) : Prop where
  /-- No declaration is weakened twice. -/
  once : (weakened.map Declaration.site).Nodup
  /-- Their keywords have been replaced, in the same order, and no others. -/
  edits : List.Forall₂ Edit.Rewords bench.draft.rewordings weakened
  /-- Each of them had to be weakened. -/
  reasons : ∀ d ∈ weakened, m.IsConst d ∧ m.Yields bench.options d
  /-- The names of each declaration of constants are bound as variables if it has been weakened,
  and as constants otherwise. -/
  bindings : ∀ d, m.IsConst d → ∀ name, d.Binds (Text.encode m.source) name →
    bench.scope.get? name =
      some ⟨if d.site ∈ weakened.map Declaration.site then .let else .const, some d⟩
  /-- No other names are bound by it. -/
  owned : ∀ name binding d, bench.scope.get? name = some binding →
    binding.declaration = some d → m.IsConst d → d.Binds (Text.encode m.source) name
  /-- And there are no other constants. -/
  constants : ∀ name binding, bench.scope.get? name = some binding → binding.kind = .const →
    ∃ d, binding.declaration = some d ∧ m.IsConst d

section

variable {m : Module} {a b : Workbench} {act : Act} {acts : List Act}
  {weakened : List Declaration}

theorem Draft.rewordings_record (draft : Draft) (edits : List Edit) :
    (draft.record edits).rewordings =
      draft.rewordings ++ edits.filter fun edit => edit.text = "let" :=
  List.filter_append ..

theorem Draft.rewordings_record_of_plain {draft : Draft} {edits : List Edit}
    (h : ∀ edit ∈ edits, edit.text ≠ "let") :
    (draft.record edits).rewordings = draft.rewordings := by
  rw [rewordings_record, List.filter_eq_nil_iff.mpr (by simpa using h), List.append_nil]

/-- Behind every constant there is its declaration in the beginning. -/
theorem Begun.constant (h : Begun m a) {name : String} {binding : Binding}
    (hb : a.scope.get? name = some binding) (hconst : binding.kind = .const) :
    ∃ d, binding.declaration = some d ∧ m.IsConst d ∧ d.Binds (Text.encode m.source) name := by
  rcases Scope.ofTree_binding h.scope hb with rfl | ⟨site, statement, hsite, hintroduces, rfl⟩
  · cases hconst
  · obtain ⟨identifier, hmem, htext⟩ := hintroduces
    obtain ⟨d, hd⟩ := Node.introducedAs_const hconst (List.ne_nil_of_mem hmem)
    obtain ⟨rfl, hlexical⟩ := Node.introducedAs_declaration hd
    rw [Node.introducedAs_of_lexical? hlexical] at hconst
    exact ⟨d, hd, ⟨⟨statement, hsite, hlexical⟩, hconst⟩, identifier,
      Node.introduced_of_lexical? hlexical ▸ hmem, htext⟩

/-- **They agree in the beginning**: nothing has been weakened. -/
theorem Begun.gated (h : Begun m a) (hsole : m.SoleNames) (hdraft : a.draft.edits = []) :
    Gated m a [] where
  once := List.nodup_nil
  edits := by
    rw [Draft.rewordings, hdraft]
    exact .nil
  reasons := nofun
  bindings d hd name hname := by
    obtain ⟨statement, hsite, hlexical, hintroduces⟩ := hd.introduces hname
    have hb := Scope.ofTree_sole h.scope hsite hintroduces fun other node hother hagain =>
      hsole _ _ _ _ name hother hsite hagain.declares hintroduces.declares
    rw [hb, Node.introducedAs_of_lexical? hlexical, hd.keyword]
    rfl
  owned name binding d hb hdeclaration _ := by
    rcases Scope.ofTree_binding h.scope hb with rfl | ⟨site, statement, -, hintroduces, rfl⟩
    · cases hdeclaration
    · obtain ⟨-, hlexical⟩ := Node.introducedAs_declaration hdeclaration
      obtain ⟨identifier, hmem, htext⟩ := hintroduces
      exact ⟨identifier, Node.introduced_of_lexical? hlexical ▸ hmem, htext⟩
  constants name binding hb hconst := by
    obtain ⟨d, hdeclaration, hd, -⟩ := h.constant hb hconst
    exact ⟨d, hdeclaration, hd⟩

/-! ### Acts -/

/-- Where a binding has its declaration from, whatever is done to it. -/
theorem Rebinds.declaration {x y : Option Binding} (h : Rebinds x y) {binding : Binding}
    {d : Declaration} (hy : y = some binding) (hd : binding.declaration = some d) :
    ∃ before, x = some before ∧ before.declaration = some d := by
  cases h with
  | same => exact ⟨binding, hy, hd⟩
  | loosened =>
    obtain rfl := Option.some.inj hy
    exact ⟨_, rfl, hd⟩
  | asVar | asModule =>
    obtain rfl := Option.some.inj hy
    cases hd

/-- Nothing is made a constant. -/
theorem Rebinds.constant {x y : Option Binding} (h : Rebinds x y) {binding : Binding}
    (hy : y = some binding) (hconst : binding.kind = .const) : x = some binding := by
  cases h with
  | same => exact hy
  | loosened | asVar | asModule =>
    obtain rfl := Option.some.inj hy
    cases hconst

/-- What a step cannot do to a binding, an act cannot do either. -/
theorem Does.rebinds {P : Option Binding → Prop} (h : Does m a act b)
    (hP : ∀ x y, Rebinds x y → P x → P y) (name : String) (ha : P (a.scope.get? name)) :
    P (b.scope.get? name) := by
  obtain ⟨deeds, hsteps⟩ := h.reaches
  exact hsteps.rebinds hP name ha

theorem Does.owned (h : Does m a act b) (ha : Gated m a weakened) (name : String)
    (binding : Binding) (d : Declaration) (hb : b.scope.get? name = some binding)
    (hd : binding.declaration = some d) (hconst : m.IsConst d) :
    d.Binds (Text.encode m.source) name := by
  refine h.rebinds (P := fun found => ∀ binding, found = some binding →
    binding.declaration = some d → d.Binds (Text.encode m.source) name) ?_ name
    (fun before hbefore hd => ha.owned name before d hbefore hd hconst) binding hb hd
  intro x y hxy hx after hy hd
  obtain ⟨before, hbefore, hd⟩ := hxy.declaration hy hd
  exact hx before hbefore hd

theorem Does.constants (h : Does m a act b) (ha : Gated m a weakened) (name : String)
    (binding : Binding) (hb : b.scope.get? name = some binding) (hconst : binding.kind = .const) :
    ∃ d, binding.declaration = some d ∧ m.IsConst d := by
  refine h.rebinds (P := fun found => ∀ binding, found = some binding → binding.kind = .const →
    ∃ d, binding.declaration = some d ∧ m.IsConst d) ?_ name (ha.constants name) binding hb hconst
  intro x y hxy hx after hy hconst
  exact hx after (hxy.constant hy hconst) hconst

/-- The names of constants are bound, so none of them is generated. -/
theorem Gated.ne_fresh (ha : Gated m a weakened) {d : Declaration} (hd : m.IsConst d)
    {name : String} (hname : d.Binds (Text.encode m.source) name) (base : String) :
    name ≠ (a.fresh base).1 := by
  rintro rfl
  have hunbound : a.scope.binds (a.fresh base).1 = false := (a.names.grants_fresh base).unbound
  have hb := ha.bindings d hd _ hname
  rw [Scope.get?_eq_none_iff.mpr hunbound] at hb
  cases hb

/-- An act that does not weaken leaves constants as they are. -/
theorem Does.get?_const (h : Does m a act b) (hsole : m.SoleNames) (ha : Gated m a weakened)
    (hnone : act.weakened = []) {d : Declaration} (hd : m.IsConst d) {name : String}
    (hname : d.Binds (Text.encode m.source) name) : b.scope.get? name = a.scope.get? name := by
  cases h with
  | weaken => cases hnone
  | rewrite | keep | declare => rfl
  | intercept =>
    exact (Scope.get?_register ..).trans (if_neg (ha.ne_fresh hd hname _))
  | store =>
    exact (Scope.get?_register ..).trans (if_neg (ha.ne_fresh hd hname _))
  | @claim _ localName hclaims =>
    have hne : name ≠ localName := by
      rintro rfl
      exact hd.not_claimed hsole hname hclaims
    show ((a.scope.remove localName).register localName .var).get? name = a.scope.get? name
    rw [Scope.get?_register, if_neg hne, Scope.get?_remove, if_neg hne]

/-- It replaces no keyword. -/
theorem Does.rewordings (h : Does m a act b) (hnone : act.weakened = []) :
    b.draft.rewordings = a.draft.rewordings := by
  cases h with
  | weaken => cases hnone
  | keep | declare | claim => rfl
  | rewrite hedit =>
    exact Draft.rewordings_record_of_plain (by simpa using hedit.plain)
  | intercept _ _ hedit =>
    exact Draft.rewordings_record_of_plain (by simpa using hedit.plain)
  | store hedits =>
    exact Draft.rewordings_record_of_plain fun edit hedit => (hedits edit hedit).plain

/-- A declaration with a name that is still a constant has not been weakened yet. -/
theorem Gated.not_mem_weakened (ha : Gated m a weakened) {d : Declaration} (hd : m.IsConst d)
    {name : String} {binding : Binding} (hname : d.Binds (Text.encode m.source) name)
    (hb : a.scope.get? name = some binding) (hconst : binding.kind = .const) :
    d.site ∉ weakened.map Declaration.site := by
  intro hin
  have hbound := ha.bindings d hd name hname
  rw [if_pos hin] at hbound
  obtain rfl := Option.some.inj (hb.symm.trans hbound)
  cases hconst

/-- Weakening a declaration turns the bindings of its names, and no others. -/
theorem Gated.get?_loosen (ha : Gated m a weakened) (d : Declaration) {other : Declaration}
    (hother : m.IsConst other) {name : String} (hname : other.Binds (Text.encode m.source) name) :
    (a.scope.loosen d.site).get? name =
      some ⟨if other.site ∈ (weakened ++ [d]).map Declaration.site then .let else .const,
        some other⟩ := by
  rw [Scope.get?_loosen, ha.bindings other hother name hname, Option.map_some]
  by_cases hsite : other.site = d.site
  · simp [Binding.isFrom, hsite]
  · simp [Binding.isFrom, hsite]

/-- The keyword of the declaration is replaced after those before. -/
theorem Gated.rewordings_keywordEdits (ha : Gated m a weakened) {d : Declaration}
    (hd : m.IsConst d) : List.Forall₂ Edit.Rewords
      (a.draft.record (a.draft.keywordEdits d.node)).rewordings (weakened ++ [d]) := by
  obtain ⟨keyword, hkeyword⟩ := hd.exists_keyword
  rw [Draft.rewordings_record]
  refine List.rel_append ha.edits ?_
  simp [Draft.keywordEdits, hkeyword, Edit.Rewords]

/-- **They agree along an act.** -/
theorem Does.gated (h : Does m a act b) (hsole : m.SoleNames) (ha : Gated m a weakened) :
    Gated m b (weakened ++ act.weakened) := by
  have howned := h.owned ha
  have hconstants := h.constants ha
  have hoptions := h.options
  by_cases hact : act.weakened = []
  · rw [hact, List.append_nil]
    refine ⟨ha.once, ?_, ?_, fun d hd name hname => ?_, howned, hconstants⟩
    · rw [h.rewordings hact]
      exact ha.edits
    · rw [hoptions]
      exact ha.reasons
    · rw [h.get?_const hsole ha hact hd hname]
      exact ha.bindings d hd name hname
  · cases h with
    | rewrite | intercept | keep | declare | claim | store => exact absurd rfl hact
    | @weaken name binding d hb hconst hdeclaration hpermits hexposed =>
      rw [Act.weakened]
      obtain ⟨other, heq, hd⟩ := ha.constants name binding hb hconst
      obtain rfl : d = other := Option.some.inj (hdeclaration.symm.trans heq)
      have hname := ha.owned name binding d hb hdeclaration hd
      have hnew := ha.not_mem_weakened hd hname hb hconst
      refine ⟨?_, ha.rewordings_keywordEdits hd, ?_,
        fun other hother name hname => ha.get?_loosen d hother hname, howned, hconstants⟩
      · rw [List.map_append, List.nodup_append']
        refine ⟨ha.once, List.nodup_singleton _, ?_⟩
        simpa [List.disjoint_singleton] using hnew
      · intro other hother
        rcases List.mem_append.mp hother with hother | hother
        · exact ha.reasons other hother
        · obtain rfl := List.mem_singleton.mp hother
          exact ⟨hd, hpermits, name, hname, hexposed⟩

/-- **They agree along every run.** -/
theorem Acts.gated (h : Acts m a acts b) (hsole : m.SoleNames) (ha : Gated m a weakened) :
    Gated m b (weakened ++ acts.flatMap Act.weakened) := by
  induction h generalizing weakened with
  | refl => simpa using ha
  | act first _ ih =>
    rw [List.flatMap_cons, ← List.append_assoc]
    exact ih (first.gated hsole ha)

theorem Works.gated (h : Works m a b) (hsole : m.SoleNames) (ha : Gated m a weakened) :
    ∃ more, Gated m b (weakened ++ more) := by
  obtain ⟨acts, hacts⟩ := h
  exact ⟨_, hacts.gated hsole ha⟩

/-- They still agree when the functions have been added. -/
theorem Gated.addOverrides (ha : Gated m a weakened) {overrides : Overrides}
    (h : a.addOverrides.result = .ok (overrides, b)) : Gated m b weakened := by
  obtain ⟨hscope, hoptions, added, hdraft, hadds⟩ := Workbench.addOverrides_frame h
  have hrewordings : b.draft.rewordings = a.draft.rewordings := by
    rw [hdraft]
    exact Draft.rewordings_record_of_plain fun edit hedit => (hadds edit hedit).plain
  obtain ⟨honce, hedits, hreasons, hbindings, howned, hconstants⟩ := ha
  rw [← hrewordings] at hedits
  rw [← hoptions] at hreasons
  rw [← hscope] at hbindings howned hconstants
  exact ⟨honce, hedits, hreasons, hbindings, howned, hconstants⟩

/-! ### What has been weakened -/

/-- When nothing exposed is left constant, what had to be weakened has been. -/
theorem Gated.mem_weakened_iff (ha : Gated m a weakened)
    (hsettled : a.options.unsafeConst = true → ∀ name, m.Exposes name → a.scope.Settled name)
    {d : Declaration} (hd : m.IsConst d) :
    d.site ∈ weakened.map Declaration.site ↔ m.Yields a.options d := by
  constructor
  · intro hin
    obtain ⟨other, hother, hsite⟩ := List.mem_map.mp hin
    obtain ⟨hconst, hyields⟩ := ha.reasons other hother
    rwa [hconst.eq_of_site hd hsite] at hyields
  · rintro ⟨hpermits, name, hname, hexposed⟩
    by_contra hnot
    have hb := ha.bindings d hd name hname
    rw [if_neg hnot] at hb
    have hnone := hsettled hpermits name hexposed _ hb rfl
    cases hnone

/-- Counting along two lists that agree. -/
theorem countP_eq_of_forall₂ {α β : Type} {R : α → β → Prop} {p : α → Bool} {q : β → Bool}
    {as : List α} {bs : List β} (h : List.Forall₂ R as bs)
    (hpq : ∀ a b, b ∈ bs → R a b → p a = q b) : as.countP p = bs.countP q := by
  induction h with
  | nil => rfl
  | @cons a b as bs hab _ ih =>
    rw [List.countP_cons, List.countP_cons, hpq a b (List.mem_cons_self ..) hab,
      ih fun a b hb => hpq a b (List.mem_cons_of_mem _ hb)]

end

/-- A keyword is replaced a number of times: so many of the edits of keywords belong to its
declaration. -/
structure Reworded (m : Module) (bench : Workbench) (weakened : List Declaration)
    (declaration : Declaration) (count : Nat) : Prop where
  own : weakened.countP (fun other => other.site = declaration.site) = count
  /-- So many edits are in its place, unless another declaration has its keyword there as well. -/
  edits : ∀ keyword, declaration.node.keyword? = some keyword →
    (∀ other, m.IsConst other → ∀ same, other.node.keyword? = some same →
      same.start = keyword.start → same.stop = keyword.stop → other.site = declaration.site) →
    bench.draft.edits.countP (fun edit => edit.start = keyword.start ∧
      edit.stop = keyword.stop ∧ edit.text = "let") = count

/-- **The number of edits** of the keyword of a declaration: one if it has been weakened. -/
theorem Gated.reworded {m : Module} {bench : Workbench} {weakened : List Declaration}
    (h : Gated m bench weakened) {d : Declaration} (hd : m.IsConst d) :
    Reworded m bench weakened d (if d.site ∈ weakened.map Declaration.site then 1 else 0) := by
  have hown : weakened.countP (fun other => other.site = d.site) =
      if d.site ∈ weakened.map Declaration.site then 1 else 0 := by
    have hcount : weakened.countP (fun other => other.site = d.site) =
        (weakened.map Declaration.site).count d.site := by
      rw [List.count, List.countP_map]
      rfl
    rw [hcount]
    split
    · exact List.count_eq_one_of_mem h.once ‹_›
    · exact List.count_eq_zero_of_not_mem ‹_›
  refine ⟨hown, fun keyword hkeyword hsole => ?_⟩
  have hrewordings : bench.draft.edits.countP (fun edit => edit.start = keyword.start ∧
      edit.stop = keyword.stop ∧ edit.text = "let") =
        bench.draft.rewordings.countP fun edit =>
          edit.start = keyword.start ∧ edit.stop = keyword.stop := by
    rw [Draft.rewordings, List.countP_filter]
    simp only [← Bool.decide_and, and_assoc]
  rw [hrewordings, ← hown]
  refine countP_eq_of_forall₂ h.edits fun edit other hother hrewords => ?_
  obtain ⟨same, hsame, hstart, hstop, -⟩ := hrewords
  have hother := (h.reasons other hother).1
  rw [hstart, hstop, decide_eq_decide]
  constructor
  · rintro ⟨hstart, hstop⟩
    exact hsole other hother same hsame hstart hstop
  · intro hsite
    obtain rfl := hother.eq_of_site hd hsite
    obtain rfl := Option.some.inj (hsame.symm.trans hkeyword)
    exact ⟨rfl, rfl⟩

/-! ### Opened modules -/

namespace Module

/-- **Constants are gated.** If no name is declared twice, then at any time of the work on a module
that is opened, bindings and draft agree on the declarations of constants that have been weakened.
In the end these are the ones that have to be: the keyword of such a declaration is replaced once,
and that of any other not at all. -/
theorem SoleNames.constants_gated {m : Module} (hsole : m.SoleNames) {options : Options}
    {opening : Opening} (h : (m.transform options).outcome = .opened opening) :
    ∃ begun visited last,
      (Workbench.start options (Text.encode m.source) m.root).result = .ok begun ∧
      (begun.visitAll m.root.namedChildren).result = .ok visited ∧
      visited.addOverrides.result = .ok (opening.overrides, last) ∧
      (last.finalCode m.source).result = .ok opening.code ∧
      (∀ count bench between,
        (begun.visitAll (m.root.namedChildren.take count)).result = .ok bench →
        Works m bench between → ∃ weakened, Gated m between weakened) ∧
      ∃ weakened, Gated m last weakened ∧ ∀ declaration, m.IsConst declaration →
        (m.Yields options declaration → Reworded m last weakened declaration 1) ∧
        (¬ m.Yields options declaration → Reworded m last weakened declaration 0) := by
  obtain ⟨begun, visited, last, hstart, hvisit, hadd, hcode⟩ := exists_course h
  obtain ⟨hoptions, -, hdraft⟩ := Workbench.start_frame options _ _ begun hstart
  have hbegun := Workbench.start_ensures m options begun hstart
  have hgated : Gated m begun [] := hbegun.gated hsole (by rw [hdraft])
  refine ⟨begun, visited, last, hstart, hvisit, hadd, hcode,
    fun count bench between hbench hworks => ?_, ?_⟩
  · have hvisited := Workbench.visitAll_works hbegun.source
      (fun _ hs => List.mem_of_mem_take hs) bench hbench
    exact (hvisited.trans hworks).gated hsole hgated
  · obtain ⟨names, hopens⟩ := Workbench.visitAll_opens hbegun.source (fun _ hs => hs) visited hvisit
    have hworks := hopens.performs.works
    obtain ⟨weakened, hvisited⟩ := hworks.gated hsole hgated
    have hsettled := hopens.settled
    rw [← hworks.options] at hsettled
    have hyields : visited.options = options := hworks.options.trans hoptions
    refine ⟨weakened, hvisited.addOverrides hadd, fun d hd => ?_⟩
    have hreworded := (hvisited.addOverrides hadd).reworded hd
    have hiff := hvisited.mem_weakened_iff hsettled hd
    rw [hyields] at hiff
    constructor
    · intro hyes
      rwa [if_pos (hiff.mpr hyes)] at hreworded
    · intro hno
      rwa [if_neg fun hin => hno (hiff.mp hin)] at hreworded

theorem specimen_soleNames : specimen.SoleNames :=
  soleNames_of_pairwise (by decide +kernel)

/-- The specimen is opened with its constant weakened. -/
theorem constants_gated_specimen : specimen.SoleNames ∧ ∃ opening,
    (specimen.transform { unsafeConst := true }).outcome = .opened opening ∧
    ∃ begun visited last,
      (Workbench.start { unsafeConst := true } (Text.encode specimen.source)
        specimen.root).result = .ok begun ∧
      (begun.visitAll specimen.root.namedChildren).result = .ok visited ∧
      visited.addOverrides.result = .ok (opening.overrides, last) ∧
      (last.finalCode specimen.source).result = .ok opening.code ∧
      (∀ count bench between,
        (begun.visitAll (specimen.root.namedChildren.take count)).result = .ok bench →
        Works specimen bench between → ∃ weakened, Gated specimen between weakened) ∧
      ∃ weakened, Gated specimen last weakened ∧
        ∀ declaration, specimen.IsConst declaration →
          (specimen.Yields { unsafeConst := true } declaration →
            Reworded specimen last weakened declaration 1) ∧
          (¬ specimen.Yields { unsafeConst := true } declaration →
            Reworded specimen last weakened declaration 0) := by
  obtain ⟨opening, hopened, -⟩ := specimen_opened { unsafeConst := true }
  exact ⟨specimen_soleNames, opening, hopened, specimen_soleNames.constants_gated hopened⟩

end Module

end Seams
