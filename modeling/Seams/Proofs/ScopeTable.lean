import Seams.Proofs.Binders
import Seams.Proofs.ScopeOfTree

/-!
# The table of a scope

The scope of a module comes of going through its statements once, and each binding is written over
an earlier one of its name, unless it is that of a variable in a block. What the table holds in the
end can be told of any name without going through the statements: the last statement that binds the
name directly decides, wherever others stand, and a variable of a block counts only if there is no
such statement.

## Main definitions

* `Node.BindsDirectly` — a statement binds an identifier as an import or a declaration
* `Node.BindsName`, `Node.NestsName` — a statement binds a name directly, or in its blocks
* `Node.Decides` — the last statement that binds a name directly
* `Scope.Tabulates` — what a scope holds, name by name

## Main results

* `Node.introduces_iff` — what a statement is found to introduce, it binds directly
* `Scope.get?_of_not_introduced` — statements that do not bind a name directly
* `Scope.ofTree_referenced`, `Scope.ofTree_knows` — which identifiers a scope knows
* `Scope.ofTree_tabulates` — the scope of a tree
-/

namespace Seams

namespace Node

/-! ### Statements that bind directly -/

/-- A declaration binds an identifier: by a declarator, or as the name of a function or class. -/
inductive DeclaresIdentifier (declaration identifier : Node) : Prop
  | variable (hkind : declaration.kind.isVariableDeclaration = true)
      (h : declaration.DeclaresVariable identifier)
  | named (hkind : declaration.kind.isFunctionDeclaration = true ∨
        declaration.kind = .classDeclaration)
      (hname : declaration.child? .name = some identifier)

/-- A statement binds an identifier directly: as an import, as an exported declaration or as a
declaration. -/
inductive BindsDirectly (statement identifier : Node) : Prop
  | imported (hkind : statement.kind = .importStatement) (h : statement.ImportsAs identifier)
  | exported {declaration : Node} (hkind : statement.kind = .exportStatement)
      (hdeclaration : statement.child? .declaration = some declaration)
      (h : declaration.DeclaresIdentifier identifier)
  | declared (h : statement.DeclaresIdentifier identifier)

/-- A statement binds a name directly. -/
def BindsName (source : List UInt8) (statement : Node) (name : String) : Prop :=
  ∃ identifier, statement.BindsDirectly identifier ∧ identifier.text source = .ok name

/-- A statement that binds no names directly declares a name by `var` in its blocks. -/
def NestsName (source : List UInt8) (statement : Node) (name : String) : Prop :=
  statement.kind.bindsDirectly = false ∧
    ∃ identifier, statement.NestsVar identifier ∧ identifier.text source = .ok name

theorem mem_declarationNames_iff {declaration identifier : Node} :
    identifier ∈ declaration.declarationNames ↔ declaration.DeclaresIdentifier identifier := by
  constructor
  · intro h
    cases hkind : declaration.kind <;> rw [declarationNames, hkind] at h
    case lexicalDeclaration => exact .variable (by rw [hkind]; rfl) (mem_declared_iff.mp h)
    case variableDeclaration => exact .variable (by rw [hkind]; rfl) (mem_declared_iff.mp h)
    case functionDeclaration => exact .named (.inl (by rw [hkind]; rfl)) (Option.mem_toList.mp h)
    case generatorDeclaration => exact .named (.inl (by rw [hkind]; rfl)) (Option.mem_toList.mp h)
    case classDeclaration => exact .named (.inr hkind) (Option.mem_toList.mp h)
    all_goals cases h
  · rintro (⟨hkind, h⟩ | ⟨hkind, hname⟩)
    · have hmem := mem_declared_iff.mpr h
      cases hk : declaration.kind <;> rw [hk] at hkind <;> cases hkind <;>
        rw [declarationNames, hk] <;> exact hmem
    · have hmem := Option.mem_toList.mpr hname
      cases hk : declaration.kind <;> rw [hk] at hkind <;>
        rcases hkind with hkind | hkind <;> cases hkind <;>
        rw [declarationNames, hk] <;> exact hmem

theorem DeclaresIdentifier.bindsDirectly {declaration identifier : Node}
    (h : declaration.DeclaresIdentifier identifier) : declaration.kind.bindsDirectly = true ∧
      declaration.kind ≠ .importStatement ∧ declaration.kind ≠ .exportStatement := by
  rcases h with ⟨hkind, -⟩ | ⟨hkind | hkind, -⟩
  · cases hk : declaration.kind <;> rw [hk] at hkind <;> cases hkind <;> decide
  · cases hk : declaration.kind <;> rw [hk] at hkind <;> cases hkind <;> decide
  · rw [hkind]
    decide

/-- What a statement is found to introduce, it binds directly. -/
theorem mem_introduced_iff {statement identifier : Node} :
    identifier ∈ statement.introduced ↔ statement.BindsDirectly identifier := by
  constructor
  · intro h
    rw [introduced] at h
    split at h
    · rename_i hkind
      exact .imported hkind (mem_importBindings_iff.mp (List.mem_map.mp h))
    · rename_i hkind
      cases hdeclaration : statement.child? .declaration with
      | none => simp [hdeclaration] at h
      | some declaration =>
        refine .exported hkind hdeclaration (mem_declarationNames_iff.mp ?_)
        simpa [hdeclaration] using h
    · exact .declared (mem_declarationNames_iff.mp h)
  · rintro (⟨hkind, h⟩ | ⟨hkind, hdeclaration, h⟩ | h)
    · rw [introduced, hkind]
      exact List.mem_map.mpr (mem_importBindings_iff.mpr h)
    · rw [introduced, hkind]
      simpa [hdeclaration] using mem_declarationNames_iff.mpr h
    · rw [introduced]
      obtain ⟨-, himport, hexport⟩ := h.bindsDirectly
      split
      · contradiction
      · contradiction
      · exact mem_declarationNames_iff.mpr h

theorem introduces_iff {source : List UInt8} {statement : Node} {name : String} :
    statement.Introduces source name ↔ statement.BindsName source name := by
  simp only [Introduces, BindsName, mem_introduced_iff]

/-- Only a `let` or `const` declaration stands behind what a statement binds. -/
theorem declaration_introducedAs_iff {site : Nat} {statement : Node} {d : Declaration} :
    (statement.introducedAs site).declaration = some d ↔
      d.site = site ∧ statement.lexical? = some d.node := by
  refine ⟨introducedAs_declaration, ?_⟩
  obtain ⟨place, node⟩ := d
  rintro ⟨rfl, hlexical⟩
  dsimp only at hlexical ⊢
  cases hkind : statement.kind <;> rw [lexical?, hkind] at hlexical
  case lexicalDeclaration =>
    obtain rfl := Option.some.inj hlexical
    simp [introducedAs, declarationBinding, hkind]
  case exportStatement =>
    obtain ⟨hdeclaration, hdeclares⟩ := Option.filter_eq_some_iff.mp hlexical
    rw [beq_iff_eq] at hdeclares
    simp [introducedAs, declarationBinding, hkind, hdeclaration, hdeclares]
  all_goals cases hlexical

end Node

/-- The last statement of a module that binds a name directly, and its place. -/
structure Node.Decides (source : List UInt8) (root : Node) (name : String) (site : Nat)
    (statement : Node) : Prop where
  stands : root.namedChildren[site]? = some statement
  binds : statement.BindsName source name
  last : ∀ (place : Nat) (other : Node), site < place → root.namedChildren[place]? = some other →
    ¬ other.BindsName source name

/-- Of the members of a list with some property, one is the last. -/
theorem exists_last {α : Type} {P : α → Prop} {items : List α} (h : ∃ item ∈ items, P item) :
    ∃ (i : Nat) (item : α), items[i]? = some item ∧ P item ∧
      ∀ (j : Nat) (other : α), i < j → items[j]? = some other → ¬ P other := by
  induction items with
  | nil => simp at h
  | cons first rest ih =>
    by_cases hrest : ∃ item ∈ rest, P item
    · obtain ⟨i, item, hitem, hholds, hlast⟩ := ih hrest
      refine ⟨i + 1, item, by simpa using hitem, hholds, fun j other hj hother => ?_⟩
      obtain ⟨j, rfl⟩ : ∃ k, j = k + 1 := ⟨j - 1, by omega⟩
      exact hlast j other (by omega) (by simpa using hother)
    · have hfirst : P first := by
        obtain ⟨item, hitem, hholds⟩ := h
        rcases List.mem_cons.mp hitem with rfl | hitem
        · exact hholds
        · exact absurd ⟨item, hitem, hholds⟩ hrest
      refine ⟨0, first, rfl, hfirst, fun j other hj hother hholds => hrest ⟨other, ?_, hholds⟩⟩
      obtain ⟨j, rfl⟩ : ∃ k, j = k + 1 := ⟨j - 1, by omega⟩
      exact List.mem_of_getElem? (by simpa using hother)

namespace Node

variable {source : List UInt8} {root statement : Node} {name : String} {site : Nat}

/-- A name that some statement binds directly is decided by one. -/
theorem exists_decides (h : ∃ statement ∈ root.namedChildren, statement.BindsName source name) :
    ∃ site statement, root.Decides source name site statement := by
  obtain ⟨site, statement, hstands, hbinds, hlast⟩ := exists_last h
  exact ⟨site, statement, hstands, hbinds, hlast⟩

theorem not_decides_iff : (∀ site statement, ¬ root.Decides source name site statement) ↔
    ∀ statement ∈ root.namedChildren, ¬ statement.BindsName source name := by
  constructor
  · intro h statement hstatement hbinds
    obtain ⟨site, last, hdecides⟩ := exists_decides ⟨statement, hstatement, hbinds⟩
    exact h site last hdecides
  · intro h site statement hdecides
    exact h statement (List.mem_of_getElem? hdecides.stands) hdecides.binds

/-- Only one statement decides. -/
theorem Decides.unique {other : Nat} {node : Node} (h : root.Decides source name site statement)
    (hother : root.Decides source name other node) : site = other ∧ statement = node := by
  obtain rfl : site = other := by
    rcases Nat.lt_trichotomy site other with hlt | heq | hlt
    · exact absurd hother.binds (h.last _ _ hlt hother.stands)
    · exact heq
    · exact absurd h.binds (hother.last _ _ hlt h.stands)
  exact ⟨rfl, Option.some.inj (h.stands.symm.trans hother.stands)⟩

end Node

namespace Scope

variable {source : List UInt8} {root : Node} {scope before after : Scope}

/-! ### How names are bound -/

/-- A name that nothing binds, and a statement does not bind directly, can become a variable of its
blocks. -/
theorem get?_registerStatement_of_none {site : Nat} {statement : Node} {name : String}
    (h : before.registerStatement source site statement = .ok after)
    (hname : ¬ statement.Introduces source name) (hnone : before.get? name = none)
    (binding : Binding) : after.get? name = some binding ↔
      binding = ⟨.var, none⟩ ∧ statement.NestsName source name := by
  rcases registerStatement_cases source site before statement with
    ⟨hdirect, heq⟩ | ⟨hnested, -, heq⟩
  · obtain ⟨names, hnames, rfl⟩ := registerAll_eq_ok (heq ▸ h)
    have hmem : name ∉ names := fun hmem => hname ((mem_mapM_ok hnames).mp hmem)
    rw [get?_registerNames, if_neg hmem, hnone, Node.NestsName, hdirect]
    simp
  · obtain ⟨names, hnames, hget⟩ := get?_registerNested (heq ▸ h) name
    have hmem : name ∈ names ↔ statement.NestsName source name := by
      rw [mem_mapM_ok hnames, Node.NestsName]
      simp only [Node.mem_nestedVars_iff, hnested, true_and]
    rw [hget, hnone, Option.none_or, ← hmem]
    by_cases hin : name ∈ names
    · simp [hin, eq_comm]
    · simp [hin]

/-- **Statements that do not bind a name directly** leave its binding as it is. If it has none, it
can become a variable of their blocks. -/
theorem get?_of_not_introduced {statements : List (Node × Nat)}
    (h : statements.foldlM (fun scope (statement, site) =>
      scope.registerStatement source site statement) before = .ok after) {name : String}
    (hname : ∀ entry ∈ statements, ¬ entry.1.Introduces source name) :
    (before.binds name = true → after.get? name = before.get? name) ∧
      (before.get? name = none → ∀ binding, after.get? name = some binding ↔
        binding = ⟨.var, none⟩ ∧ ∃ entry ∈ statements, entry.1.NestsName source name) := by
  induction statements generalizing before with
  | nil =>
    obtain rfl : before = after := by simpa [pure, Except.pure] using h
    exact ⟨fun _ => rfl, fun hnone binding => by simp [hnone]⟩
  | cons entry rest ih =>
    rw [List.foldlM_cons] at h
    obtain ⟨next, hnext, hrest⟩ := bind_eq_ok.mp h
    have hentry := hname entry (List.mem_cons_self ..)
    obtain ⟨hbound, hfree⟩ := ih hrest fun other hother => hname other (List.mem_cons_of_mem _ hother)
    constructor
    · intro hbefore
      have hkept := (get?_registerStatement hnext name).2 hentry hbefore
      rw [hbound (by rwa [binds_iff, hkept, ← binds_iff]), hkept]
    · intro hnone binding
      have hfirst := get?_registerStatement_of_none hnext hentry hnone
      simp only [List.mem_cons, exists_eq_or_imp]
      by_cases hnests : entry.1.NestsName source name
      · -- The variable of this statement is bound, and later statements leave it.
        have hvar := (hfirst ⟨.var, none⟩).mpr ⟨rfl, hnests⟩
        rw [hbound (binds_iff.mpr ⟨_, hvar⟩), hfirst]
        simp [hnests]
      · have hstill : next.get? name = none := by
          rw [Option.eq_none_iff_forall_ne_some]
          exact fun other hother => hnests ((hfirst other).mp hother).2
        rw [hfree hstill]
        simp [hnests]

/-- The last statement that binds a name directly decides how it is bound. -/
theorem get?_of_last {front back : List (Node × Nat)} {entry : Node × Nat} {name : String}
    (h : (front ++ entry :: back).foldlM (fun scope (statement, site) =>
      scope.registerStatement source site statement) before = .ok after)
    (hentry : entry.1.Introduces source name)
    (hback : ∀ other ∈ back, ¬ other.1.Introduces source name) :
    after.get? name = some (entry.1.introducedAs entry.2) := by
  rw [List.foldlM_append] at h
  obtain ⟨first, -, h⟩ := bind_eq_ok.mp h
  rw [List.foldlM_cons] at h
  obtain ⟨next, hnext, hrest⟩ := bind_eq_ok.mp h
  have hdecided := (get?_registerStatement hnext name).1 hentry
  rw [(get?_of_not_introduced hrest hback).1 (binds_iff.mpr ⟨_, hdecided⟩), hdecided]

theorem ofTree_get?_of_decides (h : ofTree source root = .ok scope) {name : String} {site : Nat}
    {statement : Node} (hdecides : root.Decides source name site statement) :
    scope.get? name = some (statement.introducedAs site) := by
  obtain ⟨start, -, hrun⟩ := bind_eq_ok.mp h
  obtain ⟨hsite, hstatement⟩ := List.getElem?_eq_some_iff.mp hdecides.stands
  have hlength : site < root.namedChildren.zipIdx.length := by rwa [List.length_zipIdx]
  have hentry : root.namedChildren.zipIdx[site] = (statement, site) := by simp [hstatement]
  rw [← List.take_append_drop site root.namedChildren.zipIdx,
    List.drop_eq_getElem_cons hlength, hentry] at hrun
  refine get?_of_last hrun (Node.introduces_iff.mpr hdecides.binds) fun other hother => ?_
  obtain ⟨i, hi⟩ := List.getElem?_of_mem hother
  rw [List.getElem?_drop, List.getElem?_zipIdx] at hi
  obtain ⟨node, hnode, rfl⟩ := Option.map_eq_some_iff.mp hi
  rw [Node.introduces_iff]
  exact hdecides.last (site + 1 + i) node (by omega) hnode

/-! ### Which identifiers are known -/

/-- A scope knows some identifiers, and what it binds. -/
def Knows (identifiers : List String) (scope : Scope) : Prop :=
  ∀ name, name ∈ scope.references ↔ name ∈ identifiers ∨ scope.binds name = true

theorem binds_register_iff {name other : String} {kind : BindingKind}
    {declaration : Option Declaration} :
    (scope.register name kind declaration).binds other = true ↔
      other = name ∨ scope.binds other = true := by
  rw [binds_iff, get?_register, binds_iff]
  by_cases heq : other = name
  · simp [heq]
  · simp [heq]

section

variable {identifiers : List String}

theorem Knows.register (h : scope.Knows identifiers) (name : String) (kind : BindingKind)
    (declaration : Option Declaration) :
    (scope.register name kind declaration).Knows identifiers := by
  intro other
  rw [mem_references_register, binds_register_iff, h other]
  exact or_left_comm

theorem Knows.registerAll (h : scope.Knows identifiers) {nodes : List Node} {kind : BindingKind}
    {declaration : Option Declaration}
    (hafter : scope.registerAll source nodes kind declaration = .ok after) :
    after.Knows identifiers := by
  refine foldlM_keeps (P := Knows identifiers) ?_ h hafter
  intro before identifier next _ hbefore hnext
  obtain ⟨name, -, hnext⟩ := bind_eq_ok.mp hnext
  obtain rfl := Except.ok.inj hnext
  exact hbefore.register name kind declaration

theorem Knows.registerNested (h : scope.Knows identifiers) {statement : Node}
    (hafter : scope.registerNested source statement = .ok after) : after.Knows identifiers := by
  refine foldlM_keeps (P := Knows identifiers) ?_ h hafter
  intro before identifier next _ hbefore hnext
  obtain ⟨name, -, hnext⟩ := bind_eq_ok.mp hnext
  obtain rfl := Except.ok.inj hnext
  split
  · exact hbefore
  · exact hbefore.register name .var none

theorem Knows.registerStatement (h : scope.Knows identifiers) {site : Nat} {statement : Node}
    (hafter : scope.registerStatement source site statement = .ok after) :
    after.Knows identifiers := by
  rcases registerStatement_cases source site scope statement with ⟨-, heq⟩ | ⟨-, -, heq⟩
  · exact h.registerAll (heq ▸ hafter)
  · exact h.registerNested (heq ▸ hafter)

end

/-- **A scope knows the identifiers of its tree**, and what it binds. -/
theorem ofTree_knows (h : ofTree source root = .ok scope) (name : String) :
    name ∈ scope.references ↔
      (∃ node ∈ root.subtree, node.kind.isIdentifier = true ∧ node.text source = .ok name) ∨
        scope.binds name = true := by
  obtain ⟨start, hstart, hrun⟩ := bind_eq_ok.mp h
  obtain ⟨hget, hreferences⟩ := references_of_foldlM hstart
  -- Nothing is bound before the first statement.
  have hbegin : start.Knows start.references := fun other => by
    have hunbound : start.binds other = false := get?_eq_none_iff.mp (hget other)
    simp [hunbound]
  have hknows : scope.Knows start.references :=
    foldlM_keeps (P := Knows start.references)
      (fun _ _ _ _ hbefore hnext => hbefore.registerStatement hnext) hbegin hrun
  rw [hknows, hreferences]
  simp only [List.not_mem_nil, false_or, List.mem_filter, Node.mem_subtreeBackwards_iff, and_assoc]

/-- What a module binds also occurs in it. -/
theorem ofTree_referenced (h : ofTree source root = .ok scope) {name : String}
    (hname : scope.binds name = true) : name ∈ scope.references :=
  (ofTree_knows h name).mpr (.inr hname)

/-! ### The table -/

/-- What the scope of a module holds, told of any name. -/
structure Tabulates (source : List UInt8) (root : Node) (scope : Scope) : Prop where
  /-- A name is bound exactly if a statement binds it directly, or else in its blocks. -/
  binds_iff : ∀ name, scope.binds name = true ↔ ∃ statement ∈ root.namedChildren,
    statement.BindsName source name ∨ statement.NestsName source name
  /-- The last statement that binds it directly decides how. -/
  decided : ∀ name site statement, root.Decides source name site statement →
    scope.get? name = some (statement.introducedAs site)
  /-- It is a variable if there is no such statement, or if that one says so. -/
  var_iff : ∀ name binding, scope.get? name = some binding →
    (binding.kind = .var ↔ (∀ site statement, ¬ root.Decides source name site statement) ∨
      ∃ site statement, root.Decides source name site statement ∧
        (statement.introducedAs site).kind = .var)
  /-- Only a `let` or `const` declaration that decides stands behind it. -/
  declaration_iff : ∀ name binding d, scope.get? name = some binding →
    (binding.declaration = some d ↔ ∃ statement, root.Decides source name d.site statement ∧
      statement.lexical? = some d.node)
  /-- Known are the identifiers that occur anywhere in the tree, and the names that are bound. -/
  references_iff : ∀ name, name ∈ scope.references ↔
    (∃ node ∈ root.subtree, node.kind.isIdentifier = true ∧ node.text source = .ok name) ∨
      scope.binds name = true

/-- Nothing but a variable of a block is bound if no statement binds its name directly. -/
theorem ofTree_get?_of_undecided (h : ofTree source root = .ok scope) {name : String}
    (hname : ∀ statement ∈ root.namedChildren, ¬ statement.BindsName source name)
    (binding : Binding) : scope.get? name = some binding ↔
      binding = ⟨.var, none⟩ ∧ ∃ statement ∈ root.namedChildren,
        statement.NestsName source name := by
  obtain ⟨start, hstart, hrun⟩ := bind_eq_ok.mp h
  have hfree : start.get? name = none := (references_of_foldlM hstart).1 name
  have hentries : ∀ entry ∈ root.namedChildren.zipIdx, ¬ entry.1.Introduces source name :=
    fun entry hentry => by
      rw [Node.introduces_iff]
      exact hname entry.1 (List.fst_mem_of_mem_zipIdx hentry)
  rw [(get?_of_not_introduced hrun hentries).2 hfree binding]
  refine and_congr_right fun _ => ⟨?_, ?_⟩
  · rintro ⟨entry, hentry, hnests⟩
    exact ⟨entry.1, List.fst_mem_of_mem_zipIdx hentry, hnests⟩
  · rintro ⟨statement, hstatement, hnests⟩
    obtain ⟨site, hsite⟩ := List.getElem?_of_mem hstatement
    exact ⟨(statement, site), List.mem_zipIdx_iff_getElem?.mpr hsite, hnests⟩

/-- A binding is that of the deciding statement, or else that of a variable. -/
theorem ofTree_decided_or (h : ofTree source root = .ok scope) {name : String} {binding : Binding}
    (hb : scope.get? name = some binding) :
    (∃ site statement, root.Decides source name site statement ∧
      binding = statement.introducedAs site) ∨
    (∀ site statement, ¬ root.Decides source name site statement) ∧ binding = ⟨.var, none⟩ := by
  by_cases hdecided : ∃ site statement, root.Decides source name site statement
  · obtain ⟨site, statement, hdecides⟩ := hdecided
    refine .inl ⟨site, statement, hdecides, ?_⟩
    exact Option.some.inj (hb.symm.trans (ofTree_get?_of_decides h hdecides))
  · have hnone : ∀ site statement, ¬ root.Decides source name site statement :=
      fun site statement hdecides => hdecided ⟨site, statement, hdecides⟩
    exact .inr ⟨hnone, ((ofTree_get?_of_undecided h (Node.not_decides_iff.mp hnone) binding).mp hb).1⟩

theorem ofTree_binds_iff (h : ofTree source root = .ok scope) (name : String) :
    scope.binds name = true ↔ ∃ statement ∈ root.namedChildren,
      statement.BindsName source name ∨ statement.NestsName source name := by
  by_cases hdirect : ∃ statement ∈ root.namedChildren, statement.BindsName source name
  · obtain ⟨site, statement, hdecides⟩ := Node.exists_decides hdirect
    obtain ⟨direct, hmem, hbinds⟩ := hdirect
    exact iff_of_true (binds_iff.mpr ⟨_, ofTree_get?_of_decides h hdecides⟩)
      ⟨direct, hmem, .inl hbinds⟩
  · have hnone : ∀ statement ∈ root.namedChildren, ¬ statement.BindsName source name :=
      fun statement hmem hbinds => hdirect ⟨statement, hmem, hbinds⟩
    simp only [binds_iff, ofTree_get?_of_undecided h hnone, exists_eq_left]
    exact exists_congr fun statement => and_congr_right fun hmem => by simp [hnone statement hmem]

/-- **The scope of a tree.** What it binds is bound by statements, the last direct one decides how,
and it knows the identifiers of the tree. -/
theorem ofTree_tabulates (h : ofTree source root = .ok scope) :
    scope.Tabulates source root := by
  refine ⟨ofTree_binds_iff h, fun _ _ _ => ofTree_get?_of_decides h, ?_, ?_, ofTree_knows h⟩
  · intro name binding hb
    rcases ofTree_decided_or h hb with ⟨site, statement, hdecides, rfl⟩ | ⟨hnone, rfl⟩
    · constructor
      · exact fun hvar => .inr ⟨site, statement, hdecides, hvar⟩
      · rintro (hnone | ⟨other, node, hother, hvar⟩)
        · exact absurd hdecides (hnone site statement)
        · obtain ⟨rfl, rfl⟩ := hdecides.unique hother
          exact hvar
    · exact iff_of_true rfl (.inl hnone)
  · intro name binding d hb
    rcases ofTree_decided_or h hb with ⟨site, statement, hdecides, rfl⟩ | ⟨hnone, rfl⟩
    · rw [Node.declaration_introducedAs_iff]
      constructor
      · rintro ⟨rfl, hlexical⟩
        exact ⟨statement, hdecides, hlexical⟩
      · rintro ⟨node, hother, hlexical⟩
        obtain ⟨rfl, rfl⟩ := hdecides.unique hother
        exact ⟨rfl, hlexical⟩
    · refine iff_of_false (by simp) ?_
      rintro ⟨statement, hdecides, -⟩
      exact hnone _ _ hdecides

/-- The text of a module with variables in a block and a function of the same name as one. -/
def blockText : String :=
  "{ var a, b; }\nfunction a() {}\n"

/-- The tree of that module. -/
def blockTree : Node :=
  { kind := .program, start := 0, stop := 30, children := [
    { kind := .other "statement_block", start := 0, stop := 13, children := [
      { kind := .variableDeclaration, start := 2, stop := 11, children := [
        { kind := .keywordVar, start := 2, stop := 5, named := false },
        { kind := .variableDeclarator, start := 6, stop := 7, children := [
          { kind := .identifier, start := 6, stop := 7, role := some .name }] },
        { kind := .variableDeclarator, start := 9, stop := 10, children := [
          { kind := .identifier, start := 9, stop := 10, role := some .name }] }] }] },
    { kind := .functionDeclaration, start := 14, stop := 29, children := [
      { kind := .identifier, start := 23, stop := 24, role := some .name }] }] }

/-- How that module binds its names: the function decides, although the variable stands first. -/
theorem ofTree_tabulates_block : ∃ scope, ofTree (Text.encode blockText) blockTree = .ok scope ∧
    scope.Tabulates (Text.encode blockText) blockTree ∧
    (scope.get? "a").map Binding.kind = some .hoisted ∧
    (scope.get? "b").map Binding.kind = some .var := by
  have hwell : blockTree.WellFormed blockText := by decide +kernel
  obtain ⟨scope, h⟩ := ofTree_ok hwell
  have hkinds : (ofTree (Text.encode blockText) blockTree).toOption.map
      (fun scope => ((scope.get? "a").map Binding.kind, (scope.get? "b").map Binding.kind)) =
        some (some .hoisted, some .var) := by
    decide +kernel
  rw [h] at hkinds
  obtain ⟨ha, hb⟩ := Prod.mk.inj (Option.some.inj hkinds)
  exact ⟨scope, h, ofTree_tabulates h, ha, hb⟩

end Scope

end Seams
