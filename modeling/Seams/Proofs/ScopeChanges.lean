import Seams.Proofs.Persistence

/-!
# Scopes under change

While a module is worked on, names are bound and unbound in its scope, and constants are weakened.
A constant is weakened by its whole declaration, and the keyword of that declaration has to be
changed once. So all names that one declaration binds must be of one kind at any time, although no
part of the scope says so: it follows from how the scope came about, and each change keeps it, since
only weakening changes the kind of a binding, and does so for the whole declaration.

A declaration that was weakened is not weakened again, whatever happens to the scope later.

## Main definitions

* `Scope.Change`, `Scope.changeAll` — changes of a scope, and scopes after several changes
* `Scope.Coherent` — what holds of a scope at any time
* `Scope.token?` — the keyword to change when a name is weakened
* `Scope.Spent` — a declaration that binds no constants any more
* `Scope.Weakens` — what weakening a constant does to a scope

## Main results

* `Scope.ofTree_coherent`, `Scope.Coherent.change` — the scope of a tree, and one change
* `Scope.Coherent.weakens` — weakening a constant
* `Scope.coherent_changeAll` — the scope of a tree after any changes
-/

namespace Seams

/-! ### Names in a table -/

namespace Table

variable {α β : Type}

theorem names_insert (table : Table α) (name : String) (value : α) :
    (table.insert name value).names =
      if name ∈ table.names then table.names else table.names ++ [name] := by
  obtain ⟨entries⟩ := table
  show (setEntry name value entries).map Prod.fst =
    if name ∈ entries.map Prod.fst then entries.map Prod.fst else entries.map Prod.fst ++ [name]
  induction entries with
  | nil => rfl
  | cons entry rest ih =>
    rw [setEntry, List.map_cons]
    by_cases heq : entry.1 = name
    · rw [if_pos heq, if_pos (heq ▸ List.mem_cons_self ..), List.map_cons, heq]
    · rw [if_neg heq, List.map_cons, ih]
      by_cases hmem : name ∈ rest.map Prod.fst
      · rw [if_pos hmem, if_pos (List.mem_cons_of_mem _ hmem)]
      · have hnew : name ∉ entry.1 :: rest.map Prod.fst := by
          simp [Ne.symm heq, hmem]
        rw [if_neg hmem, if_neg hnew, List.cons_append]

theorem names_erase (table : Table α) (name : String) :
    (table.erase name).names = table.names.filter (· != name) := by
  rw [names, names, erase, List.filter_map]
  rfl

theorem names_map (f : α → β) (table : Table α) : (table.map f).names = table.names := by
  rw [names, names, map, List.map_map]
  rfl

theorem nodup_insert {table : Table α} (h : table.names.Nodup) (name : String) (value : α) :
    (table.insert name value).names.Nodup := by
  rw [names_insert]
  split
  · exact h
  · rename_i hnew
    refine List.nodup_append.mpr ⟨h, List.nodup_singleton name, ?_⟩
    rintro other hother _ hname rfl
    exact hnew (List.mem_singleton.mp hname ▸ hother)

/-- Where no name is there twice, every entry is what its name leads to. -/
theorem get?_of_mem {table : Table α} (h : table.names.Nodup) {name : String} {value : α}
    (hmem : (name, value) ∈ table.entries) : table.get? name = some value := by
  obtain ⟨entries⟩ := table
  show entries.lookup name = some value
  induction entries with
  | nil => cases hmem
  | cons entry rest ih =>
    obtain ⟨hnew, hrest⟩ := List.nodup_cons.mp h
    rw [lookup_cons_ite]
    rcases List.mem_cons.mp hmem with rfl | hmem
    · exact if_pos rfl
    · have hne : name ≠ entry.1 := by
        rintro rfl
        exact hnew (List.mem_map.mpr ⟨_, hmem, rfl⟩)
      rw [if_neg hne]
      exact ih hrest hmem

end Table

/-- A binding after the declaration at a site has been weakened. -/
def Binding.loosened (site : Nat) (binding : Binding) : Binding :=
  if binding.isFrom site then { binding with kind := .let } else binding

namespace Binding

variable {site : Nat} {binding : Binding}

theorem loosened_of_isFrom (h : binding.isFrom site = true) :
    binding.loosened site = { binding with kind := .let } :=
  if_pos h

theorem loosened_of_not_isFrom (h : binding.isFrom site = false) :
    binding.loosened site = binding :=
  if_neg (by simp [h])

@[simp] theorem loosened_declaration :
    (binding.loosened site).declaration = binding.declaration := by
  rw [loosened]
  split <;> rfl

theorem isFrom_of_declaration {d : Declaration} (h : binding.declaration = some d) :
    binding.isFrom site = (d.site == site) := by
  rw [isFrom, h]
  rfl

/-- Weakening makes no constants. -/
theorem loosened_const (h : (binding.loosened site).kind = .const) :
    binding.isFrom site = false ∧ binding.loosened site = binding := by
  cases hfrom : binding.isFrom site with
  | true =>
    rw [loosened_of_isFrom hfrom] at h
    cases h
  | false => exact ⟨rfl, loosened_of_not_isFrom hfrom⟩

end Binding

namespace Scope

/-! ### Changes -/

/-- A change of a scope: a name is bound without a declaration, unbound, or weakened. -/
inductive Change where
  | register (name : String) (kind : BindingKind)
  | remove (name : String)
  | weaken (name : String)

/-- No constant comes without its declaration. -/
def Change.Permitted : Change → Prop
  | .register _ kind => kind ≠ .const
  | .remove _ | .weaken _ => True

/-- What one change leads to. A name that is not bound cannot be weakened. -/
def change (scope : Scope) : Change → Scope
  | .register name kind => scope.register name kind
  | .remove name => scope.remove name
  | .weaken name =>
    (((scope.get? name).bind scope.weaken).map Prod.fst).getD scope

/-- What several changes lead to. -/
def changeAll (scope : Scope) (changes : List Change) : Scope :=
  changes.foldl change scope

theorem get?_loosen_loosened (scope : Scope) (site : Nat) (name : String) :
    (scope.loosen site).get? name = (scope.get? name).map (Binding.loosened site) :=
  get?_loosen scope site name

/-- A name is weakened by its declaration, or nothing changes. -/
theorem change_weaken (scope : Scope) (name : String) :
    scope.change (.weaken name) = scope ∨ ∃ binding d, scope.get? name = some binding ∧
      binding.kind = .const ∧ binding.declaration = some d ∧
        scope.change (.weaken name) = scope.loosen d.site := by
  rw [change]
  cases hget : scope.get? name with
  | none => exact .inl rfl
  | some binding =>
    rw [Option.bind_some]
    cases hweaken : scope.weaken binding with
    | none => exact .inl rfl
    | some result =>
      obtain ⟨hconst, hd, hafter⟩ := weaken_eq_some.mp hweaken
      exact .inr ⟨binding, result.2, rfl, hconst, hd, hafter⟩

/-! ### What holds at any time -/

/-- What holds of a scope of a tree at any time. -/
structure Coherent (source : List UInt8) (root : Node) (scope : Scope) : Prop where
  /-- No name is in the table twice. -/
  names : scope.bindings.names.Nodup
  /-- What is bound also occurs. -/
  known : ∀ name, scope.binds name = true → name ∈ scope.references
  /-- The declaration behind a binding is that of a statement, which introduces the name. -/
  stands : ∀ name binding d, scope.get? name = some binding → binding.declaration = some d →
    ∃ statement, root.namedChildren[d.site]? = some statement ∧
      statement.lexical? = some d.node ∧ statement.Introduces source name
  /-- A constant has a declaration, and its keyword is `const`. -/
  constant : ∀ name binding, scope.get? name = some binding → binding.kind = .const →
    ∃ d keyword, binding.declaration = some d ∧ d.node.kind = .lexicalDeclaration ∧
      d.node.keyword? = some keyword ∧ keyword.kind = .keywordConst
  /-- All that one declaration binds is of one kind. -/
  agree : ∀ name binding other another d e, scope.get? name = some binding →
    scope.get? other = some another → binding.declaration = some d →
    another.declaration = some e → d.site = e.site → binding.kind = another.kind

/-! ### The scope of a tree -/

end Scope

/-- A declaration of constants has `const` as its keyword. -/
theorem Node.keyword?_of_const {declaration : Node} (h : declaration.bindingKind = .const) :
    ∃ keyword, declaration.keyword? = some keyword ∧ keyword.kind = .keywordConst := by
  rw [bindingKind] at h
  split at h
  · cases h
  · split at h
    · cases h
    · rename_i hkind
      exact Option.map_eq_some_iff.mp hkind
    · cases h

namespace Scope

section OfTree

variable {source : List UInt8} {root : Node} {scope : Scope}

theorem nodup_register (h : scope.bindings.names.Nodup) (name : String) (kind : BindingKind)
    (declaration : Option Declaration) :
    (scope.register name kind declaration).bindings.names.Nodup :=
  Table.nodup_insert h name _

theorem nodup_registerAll {after : Scope} {identifiers : List Node} {kind : BindingKind}
    {declaration : Option Declaration} (h : scope.bindings.names.Nodup)
    (hafter : scope.registerAll source identifiers kind declaration = .ok after) :
    after.bindings.names.Nodup := by
  refine foldlM_keeps (P := fun scope => scope.bindings.names.Nodup) ?_ h hafter
  intro before identifier next _ hbefore hnext
  obtain ⟨name, -, hnext⟩ := bind_eq_ok.mp hnext
  obtain rfl := Except.ok.inj hnext
  exact nodup_register hbefore name kind declaration

theorem nodup_registerStatement {after : Scope} {site : Nat} {statement : Node}
    (h : scope.bindings.names.Nodup)
    (hafter : scope.registerStatement source site statement = .ok after) :
    after.bindings.names.Nodup := by
  rcases registerStatement_cases source site scope statement with ⟨-, heq⟩ | ⟨-, -, heq⟩
  · exact nodup_registerAll h (heq ▸ hafter)
  · rw [heq] at hafter
    refine foldlM_keeps (P := fun scope => scope.bindings.names.Nodup) ?_ h hafter
    intro before identifier next _ hbefore hnext
    obtain ⟨name, -, hnext⟩ := bind_eq_ok.mp hnext
    obtain rfl := Except.ok.inj hnext
    split
    · exact hbefore
    · exact nodup_register hbefore name .var none

theorem nodup_ofTree (h : ofTree source root = .ok scope) : scope.bindings.names.Nodup := by
  obtain ⟨start, hstart, hrun⟩ := bind_eq_ok.mp h
  refine foldlM_keeps (P := fun scope => scope.bindings.names.Nodup) ?_ ?_ hrun
  · rintro before ⟨statement, site⟩ next - hbefore hnext
    exact nodup_registerStatement hbefore hnext
  · refine foldlM_keeps (P := fun scope => scope.bindings.names.Nodup) ?_ List.nodup_nil hstart
    intro before node next _ hbefore hnext
    obtain ⟨name, -, hnext⟩ := bind_eq_ok.mp hnext
    obtain rfl := Except.ok.inj hnext
    exact hbefore

/-- In the scope of a tree, a binding with a declaration is as its keyword says. -/
theorem ofTree_kind (h : ofTree source root = .ok scope) {name : String} {binding : Binding}
    (hb : scope.get? name = some binding) {d : Declaration} (hd : binding.declaration = some d) :
    ∃ statement, root.namedChildren[d.site]? = some statement ∧
      statement.lexical? = some d.node ∧ statement.Introduces source name ∧
        binding.kind = d.node.bindingKind := by
  rcases ofTree_binding h hb with rfl | ⟨site, statement, hsite, hname, rfl⟩
  · cases hd
  · obtain ⟨rfl, hlexical⟩ := Node.introducedAs_declaration hd
    refine ⟨statement, hsite, hlexical, hname, ?_⟩
    rw [Node.introducedAs_of_lexical? hlexical]

/-- **The scope of a tree is coherent.** -/
theorem ofTree_coherent (h : ofTree source root = .ok scope) : scope.Coherent source root where
  names := nodup_ofTree h
  known _ := ofTree_referenced h
  stands name binding d hb hd := by
    obtain ⟨statement, hplace, hlexical, hname, -⟩ := ofTree_kind h hb hd
    exact ⟨statement, hplace, hlexical, hname⟩
  constant name binding hb hconst := by
    obtain ⟨d, hd⟩ := ofTree_const h hb hconst
    obtain ⟨statement, -, hlexical, -, hkind⟩ := ofTree_kind h hb hd
    obtain ⟨keyword, hkeyword, hword⟩ := Node.keyword?_of_const (hkind.symm.trans hconst)
    exact ⟨d, keyword, hd, Node.kind_of_lexical? hlexical, hkeyword, hword⟩
  agree name binding other another d e hb hother hd he hsite := by
    obtain ⟨statement, hplace, hlexical, -, hkind⟩ := ofTree_kind h hb hd
    obtain ⟨again, hplace', hlexical', -, hkind'⟩ := ofTree_kind h hother he
    rw [hsite] at hplace
    obtain rfl := Option.some.inj (hplace.symm.trans hplace')
    obtain hnode : d.node = e.node := Option.some.inj (hlexical.symm.trans hlexical')
    rw [hkind, hkind', hnode]

end OfTree

/-! ### One change -/

namespace Coherent

variable {source : List UInt8} {root : Node} {scope : Scope}

theorem register (h : scope.Coherent source root) (name : String) {kind : BindingKind}
    (hkind : kind ≠ .const) : (scope.register name kind).Coherent source root := by
  have hold : ∀ other binding d, (scope.register name kind).get? other = some binding →
      binding.declaration = some d → scope.get? other = some binding := by
    intro other binding d hb hd
    rw [get?_register] at hb
    split at hb
    · obtain rfl := Option.some.inj hb
      cases hd
    · exact hb
  constructor
  · exact nodup_register h.names name kind none
  · intro other hbound
    rw [mem_references_register]
    by_cases heq : other = name
    · exact .inl heq
    · right
      obtain ⟨binding, hb⟩ := binds_iff.mp hbound
      rw [get?_register, if_neg heq] at hb
      exact h.known other (binds_iff.mpr ⟨binding, hb⟩)
  · intro other binding d hb hd
    exact h.stands other binding d (hold other binding d hb hd) hd
  · intro other binding hb hconst
    rw [get?_register] at hb
    split at hb
    · obtain rfl := Option.some.inj hb
      exact absurd hconst hkind
    · exact h.constant other binding hb hconst
  · intro first binding other another d e hb hother hd he hsite
    exact h.agree first binding other another d e (hold first binding d hb hd)
      (hold other another e hother he) hd he hsite

theorem remove (h : scope.Coherent source root) (name : String) :
    (scope.remove name).Coherent source root := by
  have hold : ∀ other binding, (scope.remove name).get? other = some binding →
      scope.get? other = some binding := by
    intro other binding hb
    rw [get?_remove] at hb
    split at hb
    · cases hb
    · exact hb
  constructor
  · show (scope.bindings.erase name).names.Nodup
    rw [Table.names_erase]
    exact h.names.filter _
  · intro other hbound
    obtain ⟨binding, hb⟩ := binds_iff.mp hbound
    exact h.known other (binds_iff.mpr ⟨binding, hold other binding hb⟩)
  · intro other binding d hb hd
    exact h.stands other binding d (hold other binding hb) hd
  · intro other binding hb hconst
    exact h.constant other binding (hold other binding hb) hconst
  · intro first binding other another d e hb hother hd he hsite
    exact h.agree first binding other another d e (hold first binding hb)
      (hold other another hother) hd he hsite

/-- A declaration is weakened as a whole, so what it binds stays of one kind. -/
theorem loosen (h : scope.Coherent source root) (site : Nat) :
    (scope.loosen site).Coherent source root := by
  have hold : ∀ {other binding}, (scope.loosen site).get? other = some binding →
      ∃ before, scope.get? other = some before ∧ before.loosened site = binding := by
    intro other binding hb
    rwa [get?_loosen_loosened, Option.map_eq_some_iff] at hb
  constructor
  · show (scope.bindings.map _).names.Nodup
    rw [Table.names_map]
    exact h.names
  · intro other hbound
    rw [binds_loosen] at hbound
    exact h.known other hbound
  · intro other binding d hb hd
    obtain ⟨before, hbefore, rfl⟩ := hold hb
    rw [Binding.loosened_declaration] at hd
    exact h.stands other before d hbefore hd
  · intro other binding hb hconst
    obtain ⟨before, hbefore, rfl⟩ := hold hb
    rw [Binding.loosened_declaration]
    rw [(Binding.loosened_const hconst).2] at hconst
    exact h.constant other before hbefore hconst
  · intro first binding other another d e hb hother hd he hsite
    obtain ⟨before, hbefore, rfl⟩ := hold hb
    obtain ⟨earlier, hearlier, rfl⟩ := hold hother
    rw [Binding.loosened_declaration] at hd he
    have hkind := h.agree first before other earlier d e hbefore hearlier hd he hsite
    have hfrom : before.isFrom site = earlier.isFrom site := by
      rw [Binding.isFrom_of_declaration hd, Binding.isFrom_of_declaration he, hsite]
    rw [Binding.loosened, Binding.loosened, hfrom]
    split
    · rfl
    · exact hkind

/-- **One change** keeps a scope coherent. -/
theorem change (h : scope.Coherent source root) {change : Change} (hpermitted : change.Permitted) :
    (scope.change change).Coherent source root := by
  cases change with
  | register name kind => exact h.register name hpermitted
  | remove name => exact h.remove name
  | weaken name =>
    rcases scope.change_weaken name with heq | ⟨binding, d, -, -, -, heq⟩
    · rw [heq]
      exact h
    · rw [heq]
      exact h.loosen d.site

/-- So do several changes. -/
theorem changeAll {changes : List Change} (h : scope.Coherent source root)
    (hpermitted : ∀ change ∈ changes, change.Permitted) :
    (scope.changeAll changes).Coherent source root := by
  induction changes generalizing scope with
  | nil => exact h
  | cons first rest ih =>
    obtain ⟨hfirst, hrest⟩ := List.forall_mem_cons.mp hpermitted
    exact ih (h.change hfirst) hrest

end Coherent

/-! ### Weakening -/

/-- Only constants are weakened. -/
theorem weaken_eq_none {scope : Scope} {binding : Binding} (h : binding.kind ≠ .const) :
    scope.weaken binding = none := by
  rw [← Option.not_isSome_iff_eq_none, Option.isSome_iff_exists]
  rintro ⟨⟨after, d⟩, hweaken⟩
  exact h (weaken_eq_some.mp hweaken).1

/-- The keyword that is to be changed when a binding is weakened. -/
def token? (scope : Scope) (binding : Binding) : Option Node :=
  (scope.weaken binding).bind fun result => result.2.node.keyword?

/-- What the declaration at a site binds, if anything, is no constant any more. -/
def Spent (scope : Scope) (site : Nat) : Prop :=
  ∀ name binding, scope.get? name = some binding → binding.isFrom site = true →
    binding.kind ≠ .const

theorem spent_loosen (scope : Scope) (site : Nat) : (scope.loosen site).Spent site := by
  intro name binding hb hfrom hconst
  rw [get?_loosen_loosened, Option.map_eq_some_iff] at hb
  obtain ⟨before, -, rfl⟩ := hb
  obtain ⟨hnot, heq⟩ := Binding.loosened_const hconst
  rw [heq, hnot] at hfrom
  cases hfrom

/-- A declaration that is spent stays so. -/
theorem Spent.change {scope : Scope} {site : Nat} (h : scope.Spent site) {change : Change}
    (hpermitted : change.Permitted) : (scope.change change).Spent site := by
  intro name binding hb hfrom
  cases change with
  | register other kind =>
    rw [Scope.change, get?_register] at hb
    split at hb
    · obtain rfl := Option.some.inj hb
      exact hpermitted
    · exact h name binding hb hfrom
  | remove other =>
    rw [Scope.change, get?_remove] at hb
    split at hb
    · cases hb
    · exact h name binding hb hfrom
  | weaken other =>
    rcases scope.change_weaken other with heq | ⟨first, d, -, -, -, heq⟩
    · rw [heq] at hb
      exact h name binding hb hfrom
    · rw [heq, get?_loosen_loosened, Option.map_eq_some_iff] at hb
      obtain ⟨before, hbefore, rfl⟩ := hb
      intro hconst
      rw [(Binding.loosened_const hconst).2] at hfrom hconst
      exact h name before hbefore hfrom hconst

theorem Spent.changeAll {scope : Scope} {site : Nat} {changes : List Change}
    (h : scope.Spent site) (hpermitted : ∀ change ∈ changes, change.Permitted) :
    (scope.changeAll changes).Spent site := by
  induction changes generalizing scope with
  | nil => exact h
  | cons first rest ih =>
    obtain ⟨hfirst, hrest⟩ := List.forall_mem_cons.mp hpermitted
    exact ih (h.change hfirst) hrest

/-- What weakening a declaration of constants does to a scope. -/
structure Weakens (scope : Scope) (d : Declaration) (after : Scope) : Prop where
  /-- All that the declaration binds was constant and is variable. -/
  weakened : ∀ name binding, scope.get? name = some binding → binding.declaration = some d →
    binding.kind = .const ∧ after.get? name = some { binding with kind := .let }
  /-- All other bindings stay. -/
  others : ∀ name binding, scope.get? name = some binding → binding.declaration ≠ some d →
    after.get? name = some binding
  /-- No name is bound or unbound. -/
  names : after.bindings.names = scope.bindings.names
  references : after.references = scope.references
  /-- Whatever happens later, the declaration is not weakened again. -/
  once : ∀ changes : List Change, (∀ change ∈ changes, change.Permitted) →
    ∀ name binding, (after.changeAll changes).get? name = some binding →
      binding.declaration = some d → (after.changeAll changes).weaken binding = none

namespace Coherent

variable {source : List UInt8} {root : Node} {scope : Scope} (h : scope.Coherent source root)
include h

/-- Where one binding has a declaration, the others from its site have the same. -/
theorem isFrom_iff {name other : String} {binding another : Binding} {d : Declaration}
    (hb : scope.get? name = some binding) (hd : binding.declaration = some d)
    (hother : scope.get? other = some another) :
    another.isFrom d.site = true ↔ another.declaration = some d := by
  rw [Binding.isFrom_iff]
  constructor
  · rintro ⟨e, he, hsite⟩
    obtain ⟨statement, hplace, hlexical, -⟩ := h.stands name binding d hb hd
    obtain ⟨again, hplace', hlexical', -⟩ := h.stands other another e hother he
    rw [hsite] at hplace'
    obtain rfl := Option.some.inj (hplace.symm.trans hplace')
    have hnode : d.node = e.node := Option.some.inj (hlexical.symm.trans hlexical')
    have heq : e = d := by
      show Declaration.mk e.site e.node = d
      rw [hsite, ← hnode]
    exact heq ▸ he
  · intro hdeclaration
    exact ⟨d, hdeclaration, rfl⟩

/-- **Weakening a constant** turns all that its declaration binds into variables, and changes
nothing else. -/
theorem weakens {name : String} {binding : Binding} {d : Declaration}
    (hb : scope.get? name = some binding) (hd : binding.declaration = some d)
    (hconst : binding.kind = .const) : scope.Weakens d (scope.loosen d.site) where
  weakened other another hother hfrom := by
    have hkind := h.agree name binding other another d d hb hother hd hfrom rfl
    refine ⟨hkind.symm.trans hconst, ?_⟩
    rw [get?_loosen_loosened, hother, Option.map_some,
      Binding.loosened_of_isFrom ((h.isFrom_iff hb hd hother).mpr hfrom)]
  others other another hother hnot := by
    have hfrom : another.isFrom d.site = false :=
      Bool.not_eq_true _ ▸ mt (h.isFrom_iff hb hd hother).mp hnot
    rw [get?_loosen_loosened, hother, Option.map_some, Binding.loosened_of_not_isFrom hfrom]
  names := Table.names_map _ scope.bindings
  references := rfl
  once changes hpermitted other another hother hfrom := by
    have hspent := (scope.spent_loosen d.site).changeAll hpermitted
    exact weaken_eq_none (hspent other another hother (Binding.isFrom_iff.mpr ⟨d, hfrom, rfl⟩))

/-- There is a keyword to change exactly if a constant is weakened. -/
theorem token?_isSome_iff {name : String} {binding : Binding}
    (hb : scope.get? name = some binding) :
    (scope.token? binding).isSome = true ↔ binding.kind = .const := by
  constructor
  · intro hsome
    obtain ⟨token, htoken⟩ := Option.isSome_iff_exists.mp hsome
    obtain ⟨⟨after, d⟩, hweaken, -⟩ := Option.bind_eq_some_iff.mp htoken
    exact (weaken_eq_some.mp hweaken).1
  · intro hconst
    obtain ⟨d, keyword, hd, -, hkeyword, -⟩ := h.constant name binding hb hconst
    have hweaken : scope.weaken binding = some (scope.loosen d.site, d) :=
      weaken_eq_some.mpr ⟨hconst, hd, rfl⟩
    rw [token?, hweaken, Option.bind_some, hkeyword]
    rfl

end Coherent

/-- **A scope of a tree at any time.** Take the scope of a tree, and any changes that bind names
without a declaration, unbind names and weaken names. Every name leads to the one entry that it has
in the table, and occurs in the module. A constant has a declaration with the keyword `const`, and
all that one declaration binds is of one kind. Weakening the binding of a name gives a keyword to
change exactly if it is a constant, namely that of its declaration. Then all that the declaration
binds has become variable and nothing else has changed, and it is never weakened again. -/
theorem coherent_changeAll {source : List UInt8} {root : Node} {scope : Scope}
    {changes : List Change} (h : ofTree source root = .ok scope)
    (hpermitted : ∀ change ∈ changes, change.Permitted) :
    let last := scope.changeAll changes
    last.Coherent source root ∧
      (∀ entry ∈ last.bindings.entries, last.get? entry.1 = some entry.2) ∧
      ∀ name binding, last.get? name = some binding →
        ((last.token? binding).isSome = true ↔ binding.kind = .const) ∧
        (binding.kind ≠ .const → last.weaken binding = none) ∧
        ∀ token, last.token? binding = some token → ∃ d after,
          last.weaken binding = some (after, d) ∧ binding.declaration = some d ∧
            d.node.keyword? = some token ∧ token.kind = .keywordConst ∧ last.Weakens d after := by
  intro last
  have hlast : last.Coherent source root := (ofTree_coherent h).changeAll hpermitted
  refine ⟨hlast, ?_, ?_⟩
  · intro entry hentry
    exact Table.get?_of_mem hlast.names hentry
  intro name binding hb
  refine ⟨hlast.token?_isSome_iff hb, weaken_eq_none, ?_⟩
  intro token htoken
  obtain ⟨⟨after, d⟩, hweaken, hkeyword⟩ := Option.bind_eq_some_iff.mp htoken
  obtain ⟨hconst, hd, rfl⟩ := weaken_eq_some.mp hweaken
  obtain ⟨e, keyword, he, -, hkeyword', hword⟩ := hlast.constant name binding hb hconst
  obtain rfl := Option.some.inj (hd.symm.trans he)
  obtain rfl := Option.some.inj (hkeyword.symm.trans hkeyword')
  exact ⟨d, _, hweaken, hd, hkeyword, hword, hlast.weakens hb hd hconst⟩

/-- The text of a module with one declaration of two constants. -/
def pairText : String :=
  "const a = 1, b = 2;\n"

/-- The tree of that module. -/
def pairTree : Node :=
  { kind := .program, start := 0, stop := 20, children := [
    { kind := .lexicalDeclaration, start := 0, stop := 19, children := [
      { kind := .keywordConst, start := 0, stop := 5, named := false },
      { kind := .variableDeclarator, start := 6, stop := 11, children := [
        { kind := .identifier, start := 6, stop := 7, role := some .name }] },
      { kind := .variableDeclarator, start := 13, stop := 18, children := [
        { kind := .identifier, start := 13, stop := 14, role := some .name }] }] }] }

/-- One of its constants is replaced by a variable, which leaves the other one to be weakened. -/
theorem coherent_changeAll_pair : ∃ scope, ofTree (Text.encode pairText) pairTree = .ok scope ∧
    let last := scope.changeAll [.remove "a", .register "a" .var]
    last.Coherent (Text.encode pairText) pairTree ∧
    ∃ binding token d after, last.get? "b" = some binding ∧ last.token? binding = some token ∧
      last.weaken binding = some (after, d) ∧ token.kind = .keywordConst ∧
        last.Weakens d after := by
  have hwell : pairTree.WellFormed pairText := by decide +kernel
  obtain ⟨scope, h⟩ := ofTree_ok hwell
  have hpermitted : ∀ change ∈ [.remove "a", .register "a" .var], Change.Permitted change := by
    simp [Change.Permitted]
  obtain ⟨hcoherent, -, hweakens⟩ := coherent_changeAll h hpermitted
  have hkind : (ofTree (Text.encode pairText) pairTree).toOption.bind (fun scope =>
      ((scope.changeAll [.remove "a", .register "a" .var]).get? "b").map Binding.kind) =
        some .const := by
    decide +kernel
  rw [h] at hkind
  obtain ⟨binding, hb, hconst⟩ := Option.map_eq_some_iff.mp hkind
  obtain ⟨hsome, -, hgives⟩ := hweakens "b" binding hb
  obtain ⟨token, htoken⟩ := Option.isSome_iff_exists.mp (hsome.mpr hconst)
  obtain ⟨d, after, hweaken, -, -, hword, hafter⟩ := hgives token htoken
  exact ⟨scope, h, hcoherent, binding, token, d, after, hb, htoken, hweaken, hword, hafter⟩

end Scope

end Seams
