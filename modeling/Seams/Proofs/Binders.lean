import Seams.Proofs.Subtree

/-!
# Which identifiers are bound

What patterns, declarations, imports and the blocks of statements bind is collected by functions that
go through a tree, one of them with a list of trees still to visit. Which identifiers they come back
with can be told without any order: by saying how an identifier is reached. So keys, default values
and the bodies of functions are left out because no way leads there.

## Main definitions

* `Node.Binds` — a pattern binds an identifier
* `Node.DeclaresVariable`, `Node.NestsVar` — so does a declaration, or one in the blocks of a
  statement
* `Node.TakesIn`, `Node.ImportsAs` — so does a part of an import, or an import statement

## Main results

* `Node.mem_binders_iff`, `Node.mem_declared_iff`, `Node.mem_nestedVars_iff`,
  `Node.mem_importBindings_iff` — what is collected is what is bound
-/

namespace Seams

namespace Node

/-! ### Patterns -/

/-- A pattern binds an identifier: a property by its value, a default by its left side, and other
patterns by any of their parts. -/
inductive Binds : Node → Node → Prop
  | self {pattern : Node}
      (hkind : pattern.kind = .identifier ∨ pattern.kind = .shorthandPattern) :
    Binds pattern pattern
  | value {pattern value identifier : Node} (hkind : pattern.kind = .pairPattern)
      (hvalue : pattern.child? .value = some value) (h : Binds value identifier) :
    Binds pattern identifier
  | left {pattern left identifier : Node}
      (hkind : pattern.kind = .assignmentPattern ∨ pattern.kind = .objectAssignmentPattern)
      (hleft : pattern.child? .left = some left) (h : Binds left identifier) :
    Binds pattern identifier
  | part {pattern part identifier : Node}
      (hkind : pattern.kind = .objectPattern ∨ pattern.kind = .arrayPattern ∨
        pattern.kind = .restPattern)
      (hpart : part ∈ pattern.namedChildren) (h : Binds part identifier) :
    Binds pattern identifier

variable {pattern identifier : Node}

theorem mem_binders_child? {role : Role} :
    identifier ∈ ((pattern.child? role).map binders).getD [] ↔
      ∃ child, pattern.child? role = some child ∧ identifier ∈ child.binders := by
  cases pattern.child? role <;> simp

/-- What a pattern is found to bind, it binds. -/
theorem binds_of_mem_binders (h : identifier ∈ pattern.binders) : pattern.Binds identifier := by
  induction pattern using induction with
  | step pattern ih =>
    have hone : ∀ {role}, identifier ∈ ((pattern.child? role).map binders).getD [] →
        ∃ child, pattern.child? role = some child ∧ child.Binds identifier := by
      intro role hmem
      obtain ⟨child, hchild, hmem⟩ := mem_binders_child?.mp hmem
      exact ⟨child, hchild, ih child (mem_children_of_child? hchild) hmem⟩
    have hall : identifier ∈ pattern.namedChildren.flatMap binders →
        ∃ part ∈ pattern.namedChildren, part.Binds identifier := by
      intro hmem
      obtain ⟨part, hpart, hmem⟩ := List.mem_flatMap.mp hmem
      exact ⟨part, hpart, ih part (mem_children_of_mem_namedChildren hpart) hmem⟩
    rw [binders_eq] at h
    cases hkind : pattern.kind <;> rw [hkind] at h
    case identifier =>
      rw [List.mem_singleton.mp h]
      exact .self (.inl hkind)
    case shorthandPattern =>
      rw [List.mem_singleton.mp h]
      exact .self (.inr hkind)
    case pairPattern =>
      obtain ⟨value, hvalue, h⟩ := hone h
      exact .value hkind hvalue h
    case assignmentPattern =>
      obtain ⟨left, hleft, h⟩ := hone h
      exact .left (.inl hkind) hleft h
    case objectAssignmentPattern =>
      obtain ⟨left, hleft, h⟩ := hone h
      exact .left (.inr hkind) hleft h
    case objectPattern =>
      obtain ⟨part, hpart, h⟩ := hall h
      exact .part (.inl hkind) hpart h
    case arrayPattern =>
      obtain ⟨part, hpart, h⟩ := hall h
      exact .part (.inr (.inl hkind)) hpart h
    case restPattern =>
      obtain ⟨part, hpart, h⟩ := hall h
      exact .part (.inr (.inr hkind)) hpart h
    all_goals cases h

/-- **A pattern is found to bind what it binds**, and nothing else. -/
theorem mem_binders_iff : identifier ∈ pattern.binders ↔ pattern.Binds identifier := by
  refine ⟨binds_of_mem_binders, fun h => ?_⟩
  induction h with
  | self hkind =>
    rw [binders_eq]
    rcases hkind with hkind | hkind <;> simp [hkind]
  | value hkind hvalue _ ih =>
    rw [binders_eq, hkind]
    exact mem_binders_child?.mpr ⟨_, hvalue, ih⟩
  | left hkind hleft _ ih =>
    rw [binders_eq]
    rcases hkind with hkind | hkind <;>
      rw [hkind] <;> exact mem_binders_child?.mpr ⟨_, hleft, ih⟩
  | part hkind hpart _ ih =>
    rw [binders_eq]
    rcases hkind with hkind | hkind | hkind <;>
      rw [hkind] <;> exact List.mem_flatMap.mpr ⟨_, hpart, ih⟩

/-! ### Declarations -/

/-- A declaration binds an identifier by the pattern of one of its declarators. -/
def DeclaresVariable (declaration identifier : Node) : Prop :=
  ∃ declarator ∈ declaration.namedChildren, declarator.kind = .variableDeclarator ∧
    ∃ pattern, declarator.child? .name = some pattern ∧ pattern.Binds identifier

theorem mem_declaratorBinders_iff {declarator : Node} :
    identifier ∈ declarator.declaratorBinders ↔ declarator.kind = .variableDeclarator ∧
      ∃ pattern, declarator.child? .name = some pattern ∧ pattern.Binds identifier := by
  rw [declaratorBinders]
  by_cases hkind : declarator.kind = .variableDeclarator
  · cases declarator.child? .name <;> simp [hkind, mem_binders_iff]
  · simp [hkind]

theorem mem_declared_iff {declaration : Node} :
    identifier ∈ declaration.declared ↔ declaration.DeclaresVariable identifier := by
  simp only [declared, List.mem_flatMap, mem_declaratorBinders_iff, DeclaresVariable]

/-! ### Variables of blocks -/

/-- A node declares an identifier by `var`, as a declaration or in the head of a loop over the
members of something. -/
inductive OwnsVar (node identifier : Node) : Prop
  | declaration (hkind : node.kind = .variableDeclaration)
      (h : node.DeclaresVariable identifier)
  | loop {keyword left : Node} (hkind : node.kind = .forInStatement)
      (hkeyword : node.child? .kind = some keyword) (hvar : keyword.kind = .keywordVar)
      (hleft : node.child? .left = some left) (h : left.Binds identifier)

/-- An identifier is declared by `var` at or below a node, and neither in a function nor in the body
of a class. -/
inductive NestsVar : Node → Node → Prop
  | own {node identifier : Node} (houtside : node.kind.opensVarScope = false)
      (h : node.OwnsVar identifier) : NestsVar node identifier
  | child {node child identifier : Node} (houtside : node.kind.opensVarScope = false)
      (hchild : child ∈ node.namedChildren) (h : NestsVar child identifier) :
    NestsVar node identifier

theorem mem_ownVars_iff {node : Node} : identifier ∈ node.ownVars ↔ node.OwnsVar identifier := by
  rw [ownVars]
  constructor
  · intro h
    split at h
    · rename_i hkind
      exact .declaration hkind (mem_declared_iff.mp h)
    · rename_i hkind
      split at h
      · rename_i keyword left hkeyword hleft
        split at h
        · rename_i hvar
          exact .loop hkind hkeyword hvar hleft (mem_binders_iff.mp h)
        · cases h
      · cases h
    · cases h
  · rintro (⟨hkind, h⟩ | ⟨hkind, hkeyword, hvar, hleft, h⟩)
    · rw [hkind]
      exact mem_declared_iff.mpr h
    · simp only [hkind, hkeyword, hleft, hvar, if_true]
      exact mem_binders_iff.mpr h

theorem nestsVar_iff {node : Node} : node.NestsVar identifier ↔
    node.kind.opensVarScope = false ∧
      (node.OwnsVar identifier ∨ ∃ child ∈ node.namedChildren, child.NestsVar identifier) := by
  constructor
  · rintro (⟨houtside, h⟩ | ⟨houtside, hchild, h⟩)
    · exact ⟨houtside, .inl h⟩
    · exact ⟨houtside, .inr ⟨_, hchild, h⟩⟩
  · rintro ⟨houtside, h | ⟨child, hchild, h⟩⟩
    · exact .own houtside h
    · exact .child houtside hchild h

/-- **The walk through blocks** finds the variables of the trees that it has to visit. -/
theorem mem_nestedVarsOf_iff (pending : List Node) :
    identifier ∈ nestedVarsOf pending ↔ ∃ node ∈ pending, node.NestsVar identifier := by
  fun_induction nestedVarsOf pending with
  | case1 => simp
  | case2 node rest hscope ih =>
    have hnode : ¬ node.NestsVar identifier := by
      rw [nestsVar_iff, hscope]
      simp
    simp [ih, hnode]
  | case3 node rest hscope ih =>
    have hnode : node.NestsVar identifier ↔ node.OwnsVar identifier ∨
        ∃ child ∈ node.namedChildren, child.NestsVar identifier := by
      rw [nestsVar_iff]
      simp [hscope]
    rw [List.mem_append, ih, mem_ownVars_iff]
    simp only [List.mem_append, List.mem_cons, or_and_right, exists_or, exists_eq_left]
    rw [hnode, or_assoc]

theorem mem_nestedVars_iff {statement : Node} :
    identifier ∈ statement.nestedVars ↔ statement.NestsVar identifier := by
  rw [nestedVars, mem_nestedVarsOf_iff]
  simp

/-! ### Imports -/

/-- A part of an import clause introduces a local name: that of the default, that of the other
module as a whole, or that of one of its exports, which is an alias if it has one. -/
inductive TakesIn (part identifier : Node) : Prop
  | standard (hkind : part.kind = .identifier) (hself : identifier = part)
  | whole (hkind : part.kind = .namespaceImport) (hchild : identifier ∈ part.namedChildren)
      (hidentifier : identifier.kind = .identifier)
  | single {specifier : Node} (hkind : part.kind = .namedImports)
      (hmem : specifier ∈ part.namedChildren) (hspecifier : specifier.kind = .importSpecifier)
      (hname : specifier.child? .alias = some identifier ∨
        specifier.child? .alias = none ∧ specifier.child? .name = some identifier)

/-- An import statement introduces a local name. -/
def ImportsAs (statement identifier : Node) : Prop :=
  ∃ clause ∈ statement.namedChildren, clause.kind = .importClause ∧
    ∃ part ∈ clause.namedChildren, part.TakesIn identifier

theorem specifierBinding?_eq_some {specifier : Node} {binding : ImportBinding} :
    specifier.specifierBinding? = some binding ↔
      specifier.kind = .importSpecifier ∧ binding = ⟨.single, binding.localName, specifier⟩ ∧
        (specifier.child? .alias = some binding.localName ∨
          specifier.child? .alias = none ∧ specifier.child? .name = some binding.localName) := by
  rw [specifierBinding?]
  by_cases hkind : specifier.kind = .importSpecifier
  · rw [if_pos hkind, Option.map_eq_some_iff]
    constructor
    · rintro ⟨localName, hname, rfl⟩
      exact ⟨hkind, rfl, Option.or_eq_some_iff.mp hname⟩
    · rintro ⟨-, hbinding, hname⟩
      exact ⟨binding.localName, Option.or_eq_some_iff.mpr hname, hbinding.symm⟩
  · simp [hkind]

theorem mem_clausePartBindings_iff {part : Node} :
    (∃ binding ∈ part.clausePartBindings, binding.localName = identifier) ↔
      part.TakesIn identifier := by
  constructor
  · rintro ⟨binding, hmem, rfl⟩
    rw [clausePartBindings] at hmem
    split at hmem
    · rename_i hkind
      rw [List.mem_singleton.mp hmem]
      exact .standard hkind rfl
    · rename_i hkind
      obtain ⟨child, hchild, rfl⟩ := List.mem_map.mp hmem
      obtain ⟨hchild, hidentifier⟩ := List.mem_filter.mp hchild
      exact .whole hkind hchild (by simpa using hidentifier)
    · rename_i hkind
      obtain ⟨specifier, hspecifier, hbinding⟩ := List.mem_filterMap.mp hmem
      obtain ⟨hsingle, -, hname⟩ := specifierBinding?_eq_some.mp hbinding
      exact .single hkind hspecifier hsingle hname
    · cases hmem
  · rintro (⟨hkind, rfl⟩ | ⟨hkind, hchild, hidentifier⟩ | ⟨hkind, hmem, hspecifier, hname⟩)
    · exact ⟨⟨.standard, identifier, identifier⟩, by simp [clausePartBindings, hkind], rfl⟩
    · refine ⟨⟨.whole, identifier, part⟩, ?_, rfl⟩
      rw [clausePartBindings, hkind]
      refine List.mem_map.mpr ⟨identifier, ?_, rfl⟩
      exact List.mem_filter.mpr ⟨hchild, by simp [hidentifier]⟩
    · rename_i specifier
      refine ⟨⟨.single, identifier, specifier⟩, ?_, rfl⟩
      rw [clausePartBindings, hkind]
      refine List.mem_filterMap.mpr ⟨specifier, hmem, ?_⟩
      exact specifierBinding?_eq_some.mpr ⟨hspecifier, rfl, hname⟩

/-- **An import statement is found to introduce** the local names that it introduces. -/
theorem mem_importBindings_iff {statement : Node} :
    (∃ binding ∈ statement.importBindings, binding.localName = identifier) ↔
      statement.ImportsAs identifier := by
  constructor
  · rintro ⟨binding, hbinding, hname⟩
    obtain ⟨clause, hclause, hbinding⟩ := List.mem_flatMap.mp hbinding
    obtain ⟨part, hpart, hbinding⟩ := List.mem_flatMap.mp hbinding
    obtain ⟨hclause, hkind⟩ := List.mem_filter.mp hclause
    exact ⟨clause, hclause, by simpa using hkind, part, hpart,
      mem_clausePartBindings_iff.mp ⟨binding, hbinding, hname⟩⟩
  · rintro ⟨clause, hclause, hkind, part, hpart, htakes⟩
    obtain ⟨binding, hbinding, hname⟩ := mem_clausePartBindings_iff.mpr htakes
    refine ⟨binding, List.mem_flatMap.mpr ⟨clause, ?_, ?_⟩, hname⟩
    · exact List.mem_filter.mpr ⟨hclause, by simp [hkind]⟩
    · exact List.mem_flatMap.mpr ⟨part, hpart, hbinding⟩

end Node

end Seams
