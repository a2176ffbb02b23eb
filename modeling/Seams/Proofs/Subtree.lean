import Seams.Tree.Declaration

/-!
# Walking a syntax tree

A walk over a tree meets the nodes at or below its root, and only these. What declarations and
imports bind are such nodes, so whatever holds of every node of a module holds of the names that
the module binds.

## Main results

* `Node.induction` — what passes from the children of a node to the node holds of all nodes
* `Node.mem_subtree_iff`, `Node.subtree_trans` — the nodes at or below a node
* `Node.mem_subtreeBackwards_iff` — a walk in the other direction meets the same nodes
* `Node.declared_subset`, `Node.nestedVars_subset`, `Node.importBindings_subset` — what a statement
  binds stands below it
-/

namespace Seams

namespace Node

/-! ### Induction over trees -/

theorem size_le_sizeAll {child : Node} {nodes : List Node} (h : child ∈ nodes) :
    child.size ≤ sizeAll nodes := by
  induction nodes with
  | nil => cases h
  | cons node rest ih =>
    simp only [sizeAll]
    rcases List.mem_cons.mp h with rfl | h
    · omega
    · have := ih h
      omega

theorem size_lt_of_mem_children {child node : Node} (h : child ∈ node.children) :
    child.size < node.size := by
  have := size_le_sizeAll h
  have := node.size_eq
  omega

/-- What holds of a node whenever it holds of all its children holds of all nodes. -/
theorem induction {P : Node → Prop} (step : ∀ node, (∀ child ∈ node.children, P child) → P node)
    (node : Node) : P node := by
  induction h : node.size using Nat.strongRecOn generalizing node with
  | ind size ih =>
    refine step node fun child hchild => ih child.size ?_ child rfl
    rw [← h]
    exact size_lt_of_mem_children hchild

/-! ### The nodes at or below a node -/

theorem subtree_eq (node : Node) : node.subtree = node :: subtreeAll node.children := by
  cases node
  rfl

theorem subtreeBackwards_eq (node : Node) :
    node.subtreeBackwards = node :: subtreeBackwardsAll node.children := by
  cases node
  rfl

theorem mem_subtreeAll_iff {a : Node} {nodes : List Node} :
    a ∈ subtreeAll nodes ↔ ∃ node ∈ nodes, a ∈ node.subtree := by
  induction nodes with
  | nil => simp [subtreeAll]
  | cons node rest ih => simp [subtreeAll, ih]

theorem mem_subtreeBackwardsAll_iff {a : Node} {nodes : List Node} :
    a ∈ subtreeBackwardsAll nodes ↔ ∃ node ∈ nodes, a ∈ node.subtreeBackwards := by
  induction nodes with
  | nil => simp [subtreeBackwardsAll]
  | cons node rest ih =>
    simp only [subtreeBackwardsAll, List.mem_append, ih, List.mem_cons, exists_eq_or_imp]
    exact or_comm

theorem mem_subtree_iff {a node : Node} :
    a ∈ node.subtree ↔ a = node ∨ ∃ child ∈ node.children, a ∈ child.subtree := by
  rw [subtree_eq, List.mem_cons, mem_subtreeAll_iff]

theorem mem_subtreeBackwards_iff {a node : Node} :
    a ∈ node.subtreeBackwards ↔ a ∈ node.subtree := by
  induction node using induction with
  | step node ih =>
    rw [subtreeBackwards_eq, List.mem_cons, mem_subtreeBackwardsAll_iff, mem_subtree_iff]
    refine or_congr_right (exists_congr fun child => and_congr_right fun hchild => ?_)
    exact ih child hchild

theorem self_mem_subtree (node : Node) : node ∈ node.subtree :=
  mem_subtree_iff.mpr (.inl rfl)

theorem subtree_trans {a b c : Node} (hab : a ∈ b.subtree) (hbc : b ∈ c.subtree) :
    a ∈ c.subtree := by
  induction c using induction with
  | step c ih =>
    rcases mem_subtree_iff.mp hbc with rfl | ⟨child, hchild, hb⟩
    · exact hab
    · exact mem_subtree_iff.mpr (.inr ⟨child, hchild, ih child hchild hb⟩)

theorem mem_subtree_of_mem_children {child node : Node} (h : child ∈ node.children) :
    child ∈ node.subtree :=
  mem_subtree_iff.mpr (.inr ⟨child, h, child.self_mem_subtree⟩)

theorem mem_children_of_mem_namedChildren {child node : Node} (h : child ∈ node.namedChildren) :
    child ∈ node.children :=
  (List.mem_filter.mp h).1

theorem mem_subtree_of_mem_namedChildren {child node : Node} (h : child ∈ node.namedChildren) :
    child ∈ node.subtree :=
  mem_subtree_of_mem_children (mem_children_of_mem_namedChildren h)

theorem mem_children_of_child? {child node : Node} {role : Role}
    (h : node.child? role = some child) : child ∈ node.children :=
  List.mem_of_find?_eq_some h

theorem mem_subtree_of_child? {child node : Node} {role : Role}
    (h : node.child? role = some child) : child ∈ node.subtree :=
  mem_subtree_of_mem_children (mem_children_of_child? h)

/-! ### What patterns and declarations bind -/

theorem bindersAt_eq (role : Role) (nodes : List Node) :
    bindersAt role nodes =
      ((nodes.find? fun child => child.role == some role).map binders).getD [] := by
  induction nodes with
  | nil => rfl
  | cons node rest ih =>
    by_cases h : node.role == some role
    · simp [bindersAt, h]
    · simp [bindersAt, h, ih]

theorem bindersOfNamed_eq (nodes : List Node) :
    bindersOfNamed nodes = (nodes.filter Node.named).flatMap binders := by
  induction nodes with
  | nil => rfl
  | cons node rest ih => by_cases h : node.named <;> simp [bindersOfNamed, h, ih]

/-- What a pattern binds, by its kind: itself, or what one child or all named children bind. -/
theorem binders_eq (node : Node) :
    node.binders = match node.kind with
      | .identifier | .shorthandPattern => [node]
      | .pairPattern => ((node.child? .value).map binders).getD []
      | .assignmentPattern | .objectAssignmentPattern => ((node.child? .left).map binders).getD []
      | .objectPattern | .arrayPattern | .restPattern => node.namedChildren.flatMap binders
      | _ => [] := by
  obtain ⟨kind, start, stop, role, named, missing, textless, children⟩ := node
  cases kind <;> simp [binders, bindersAt_eq, bindersOfNamed_eq, child?, namedChildren]

theorem binders_subset {a node : Node} (h : a ∈ node.binders) : a ∈ node.subtree := by
  induction node using induction with
  | step node ih =>
    have hone : ∀ role, a ∈ ((node.child? role).map binders).getD [] → a ∈ node.subtree := by
      intro role ha
      cases hchild : node.child? role with
      | none => simp [hchild] at ha
      | some child =>
        have hmem := mem_children_of_child? hchild
        exact subtree_trans (ih child hmem (by simpa [hchild] using ha))
          (mem_subtree_of_mem_children hmem)
    have hall : a ∈ node.namedChildren.flatMap binders → a ∈ node.subtree := by
      intro ha
      obtain ⟨child, hchild, ha⟩ := List.mem_flatMap.mp ha
      have hmem := mem_children_of_mem_namedChildren hchild
      exact subtree_trans (ih child hmem ha) (mem_subtree_of_mem_children hmem)
    rw [binders_eq] at h
    split at h
    · rw [List.mem_singleton.mp h]
      exact self_mem_subtree node
    · rw [List.mem_singleton.mp h]
      exact self_mem_subtree node
    · exact hone _ h
    · exact hone _ h
    · exact hone _ h
    · exact hall h
    · exact hall h
    · exact hall h
    · cases h

theorem declared_subset {a declaration : Node} (h : a ∈ declaration.declared) :
    a ∈ declaration.subtree := by
  obtain ⟨declarator, hdeclarator, ha⟩ := List.mem_flatMap.mp h
  refine subtree_trans ?_ (mem_subtree_of_mem_namedChildren hdeclarator)
  rw [declaratorBinders] at ha
  split at ha
  · split at ha
    · rename_i name hname
      exact subtree_trans (binders_subset ha) (mem_subtree_of_child? hname)
    · cases ha
  · cases ha

/-! ### Variables of blocks -/

theorem ownVars_subset {a node : Node} (h : a ∈ node.ownVars) : a ∈ node.subtree := by
  rw [ownVars] at h
  split at h
  · exact declared_subset h
  · split at h
    · rename_i left _ hleft
      split at h
      · exact subtree_trans (binders_subset h) (mem_subtree_of_child? hleft)
      · cases h
    · cases h
  · cases h

theorem nestedVarsOf_subset {a : Node} (pending : List Node) (h : a ∈ nestedVarsOf pending) :
    ∃ node ∈ pending, a ∈ node.subtree := by
  fun_induction nestedVarsOf pending with
  | case1 => cases h
  | case2 node rest _ ih =>
    obtain ⟨other, hother, ha⟩ := ih h
    exact ⟨other, List.mem_cons_of_mem _ hother, ha⟩
  | case3 node rest _ ih =>
    rcases List.mem_append.mp h with h | h
    · exact ⟨node, List.mem_cons_self .., ownVars_subset h⟩
    · obtain ⟨other, hother, ha⟩ := ih h
      rcases List.mem_append.mp hother with hother | hother
      · exact ⟨node, List.mem_cons_self ..,
          subtree_trans ha (mem_subtree_of_mem_namedChildren hother)⟩
      · exact ⟨other, List.mem_cons_of_mem _ hother, ha⟩

theorem nestedVars_subset {a statement : Node} (h : a ∈ statement.nestedVars) :
    a ∈ statement.subtree := by
  obtain ⟨node, hnode, ha⟩ := nestedVarsOf_subset [statement] h
  rwa [List.mem_singleton.mp hnode] at ha

/-! ### What imports bind -/

/-- The local name and the specifier of an imported binding stand below the part of the clause
that introduces it. -/
theorem clausePartBindings_subset {binding : ImportBinding} {part : Node}
    (h : binding ∈ part.clausePartBindings) :
    binding.localName ∈ part.subtree ∧ binding.specifier ∈ part.subtree := by
  rw [clausePartBindings] at h
  split at h
  · rw [List.mem_singleton.mp h]
    exact ⟨self_mem_subtree part, self_mem_subtree part⟩
  · obtain ⟨child, hchild, rfl⟩ := List.mem_map.mp h
    exact ⟨mem_subtree_of_mem_namedChildren (List.mem_filter.mp hchild).1, self_mem_subtree part⟩
  · obtain ⟨specifier, hspecifier, hb⟩ := List.mem_filterMap.mp h
    have hbelow := mem_subtree_of_mem_namedChildren hspecifier
    rw [specifierBinding?] at hb
    split at hb
    · obtain ⟨localName, hname, rfl⟩ := Option.map_eq_some_iff.mp hb
      rcases Option.or_eq_some_iff.mp hname with hname | ⟨-, hname⟩
      · exact ⟨subtree_trans (mem_subtree_of_child? hname) hbelow, hbelow⟩
      · exact ⟨subtree_trans (mem_subtree_of_child? hname) hbelow, hbelow⟩
    · cases hb
  · cases h

theorem importBindings_subset {binding : ImportBinding} {statement : Node}
    (h : binding ∈ statement.importBindings) :
    binding.localName ∈ statement.subtree ∧ binding.specifier ∈ statement.subtree := by
  obtain ⟨clause, hclause, hb⟩ := List.mem_flatMap.mp h
  obtain ⟨part, hpart, hb⟩ := List.mem_flatMap.mp hb
  have hbelow : part ∈ statement.subtree :=
    subtree_trans (mem_subtree_of_mem_namedChildren hpart)
      (mem_subtree_of_mem_namedChildren (List.mem_filter.mp hclause).1)
  obtain ⟨hlocal, hspecifier⟩ := clausePartBindings_subset hb
  exact ⟨subtree_trans hlocal hbelow, subtree_trans hspecifier hbelow⟩

end Node

end Seams
