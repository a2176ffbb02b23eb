import Mathlib.Data.List.Sort
import Seams.Proofs.Binders
import Seams.Proofs.WellFormed

/-!
# Where names are bound

Patterns nest, and of their parts only some bind. Which identifiers a declaration binds has been
told as a set; here their order and number count as well. Two nodes of a tree may look the same, so
a node is told by its place: at each node on the way down, the index of the child to go to. The
document order of nodes is then the lexicographic order of their places, and a list that follows
this order holds no node twice.

Such a list is given by its places alone. So it is enough to say which places bind, which is a
matter of the way that leads there, and the collector either gives exactly the nodes at these places
or is wrong. In a tree whose nodes lie inside each other in order, the identifiers also follow each
other in the text.

## Main definitions

* `Node.at?` — the node at a place
* `Node.PlaysAt` — the first child that plays a part
* `Node.BindsAt`, `Node.DeclaresAt` — a pattern or a declaration binds the node at a place
* `Node.SetAside` — a place in a key, in a default value or in an initial value
* `Node.Enumerates` — a list holds the nodes at certain places, in document order

## Main results

* `Node.Enumerates.unique` — the places give the list
* `Node.binders_enumerates`, `Node.declared_enumerates` — what is collected, place by place
* `Node.BindsAt.not_setAside` — no way to a bound name leads through a key or a value
* `Node.Nested.binders_pairwise`, `Node.Nested.declared_pairwise` — bound names in the text
* `Node.declared_in_document_order` — all of this together
-/

namespace Seams

namespace Node

/-! ### Places -/

/-- The node at a place, which says at each node on the way down which child comes next. -/
def at? : Node → List Nat → Option Node
  | node, [] => some node
  | node, index :: place => node.children[index]?.bind fun child => child.at? place

/-- The first child that plays a given part, with its index. -/
structure PlaysAt (node : Node) (role : Role) (index : Nat) (child : Node) : Prop where
  child_eq : node.children[index]? = some child
  role_eq : child.role = some role
  first : ∀ earlier < index, ∀ other, node.children[earlier]? = some other → other.role ≠ some role

/-- The place goes through the first child that plays a given part. -/
def ThroughRole (node : Node) (role : Role) (At : Node → List Nat → Prop) (place : List Nat) :
    Prop :=
  ∃ index child rest, place = index :: rest ∧ node.PlaysAt role index child ∧ At child rest

/-- The place goes through the child with a given index, which stands for a construct. -/
def ThroughChild (node : Node) (index : Nat) (At : Node → List Nat → Prop) (place : List Nat) :
    Prop :=
  ∃ child rest, place = index :: rest ∧ node.children[index]? = some child ∧
    child.named = true ∧ At child rest

/-- The place goes through a child that stands for a construct. -/
def ThroughNamed (node : Node) (At : Node → List Nat → Prop) (place : List Nat) : Prop :=
  ∃ index, node.ThroughChild index At place

variable {node child root : Node} {role : Role} {index : Nat} {place : List Nat}

theorem PlaysAt.unique {other : Node} {index' : Nat} (h : node.PlaysAt role index child)
    (h' : node.PlaysAt role index' other) : index' = index ∧ other = child := by
  obtain hlt | rfl | hlt := Nat.lt_trichotomy index' index
  · exact absurd h'.role_eq (h.first index' hlt other h'.child_eq)
  · exact ⟨rfl, Option.some.inj (h'.child_eq.symm.trans h.child_eq)⟩
  · exact absurd h.role_eq (h'.first index hlt child h.child_eq)

theorem exists_playsAt_of_child? (h : node.child? role = some child) :
    ∃ index, node.PlaysAt role index child := by
  obtain ⟨hrole, index, hindex, hchild, hfirst⟩ := List.find?_eq_some_iff_getElem.mp h
  refine ⟨index, by rw [List.getElem?_eq_getElem hindex, hchild], by simpa using hrole, ?_⟩
  intro earlier hlt other hother
  obtain ⟨_, rfl⟩ := List.getElem?_eq_some_iff.mp hother
  simpa using hfirst earlier hlt

theorem not_playsAt_of_child? (h : node.child? role = none) : ¬ node.PlaysAt role index child :=
  fun hplays => List.find?_eq_none.mp h child (List.mem_of_getElem? hplays.child_eq)
    (by simp [hplays.role_eq])

/-! ### Which places bind -/

/-- A pattern binds the node at a place: an identifier binds itself, a property binds by its value,
a default by its left side, and other patterns by any of their parts. -/
inductive BindsAt : Node → List Nat → Prop
  | self {pattern : Node}
      (hkind : pattern.kind = .identifier ∨ pattern.kind = .shorthandPattern) :
    BindsAt pattern []
  | value {pattern value : Node} {index : Nat} {place : List Nat}
      (hkind : pattern.kind = .pairPattern) (hvalue : pattern.PlaysAt .value index value)
      (h : BindsAt value place) : BindsAt pattern (index :: place)
  | left {pattern left : Node} {index : Nat} {place : List Nat}
      (hkind : pattern.kind = .assignmentPattern ∨ pattern.kind = .objectAssignmentPattern)
      (hleft : pattern.PlaysAt .left index left) (h : BindsAt left place) :
    BindsAt pattern (index :: place)
  | part {pattern part : Node} {index : Nat} {place : List Nat}
      (hkind : pattern.kind = .objectPattern ∨ pattern.kind = .arrayPattern ∨
        pattern.kind = .restPattern)
      (hpart : pattern.children[index]? = some part) (hnamed : part.named = true)
      (h : BindsAt part place) : BindsAt pattern (index :: place)

/-- A declaration binds the node at a place: by the name of one of its declarators. -/
def DeclaresAt (declaration : Node) : List Nat → Prop :=
  declaration.ThroughNamed fun declarator place =>
    declarator.kind = .variableDeclarator ∧ declarator.ThroughRole .name BindsAt place

/-- Which places of a pattern bind, by its kind. -/
theorem bindsAt_iff {pattern : Node} : pattern.BindsAt place ↔
    match pattern.kind with
    | .identifier | .shorthandPattern => place = []
    | .pairPattern => pattern.ThroughRole .value BindsAt place
    | .assignmentPattern | .objectAssignmentPattern => pattern.ThroughRole .left BindsAt place
    | .objectPattern | .arrayPattern | .restPattern => pattern.ThroughNamed BindsAt place
    | _ => False := by
  constructor
  · rintro (hkind | ⟨hkind, hvalue, h⟩ | ⟨hkind, hleft, h⟩ | ⟨hkind, hpart, hnamed, h⟩)
    · rcases hkind with hkind | hkind <;> rw [hkind]
    · rw [hkind]
      exact ⟨_, _, _, rfl, hvalue, h⟩
    · rcases hkind with hkind | hkind <;> rw [hkind] <;> exact ⟨_, _, _, rfl, hleft, h⟩
    · rcases hkind with hkind | hkind | hkind <;> rw [hkind] <;>
        exact ⟨_, _, _, rfl, hpart, hnamed, h⟩
  · intro h
    cases hkind : pattern.kind <;> rw [hkind] at h
    case identifier => exact h ▸ .self (.inl hkind)
    case shorthandPattern => exact h ▸ .self (.inr hkind)
    case pairPattern =>
      obtain ⟨index, value, rest, rfl, hvalue, h⟩ := h
      exact .value hkind hvalue h
    case assignmentPattern =>
      obtain ⟨index, left, rest, rfl, hleft, h⟩ := h
      exact .left (.inl hkind) hleft h
    case objectAssignmentPattern =>
      obtain ⟨index, left, rest, rfl, hleft, h⟩ := h
      exact .left (.inr hkind) hleft h
    case objectPattern =>
      obtain ⟨index, part, rest, rfl, hpart, hnamed, h⟩ := h
      exact .part (.inl hkind) hpart hnamed h
    case arrayPattern =>
      obtain ⟨index, part, rest, rfl, hpart, hnamed, h⟩ := h
      exact .part (.inr (.inl hkind)) hpart hnamed h
    case restPattern =>
      obtain ⟨index, part, rest, rfl, hpart, hnamed, h⟩ := h
      exact .part (.inr (.inr hkind)) hpart hnamed h
    all_goals cases h

/-! ### Which places are set aside -/

/-- A child by which its parent binds nothing: in a declarator whatever is not its name, in a
property whatever is not its value, such as its key, and beside a default whatever is not the left
side, such as the default value. -/
def PassesOver (node child : Node) : Prop :=
  match node.kind with
  | .variableDeclarator => child.role ≠ some .name
  | .pairPattern => child.role ≠ some .value
  | .assignmentPattern | .objectAssignmentPattern => child.role ≠ some .left
  | _ => False

/-- A place at or below a child by which its parent binds nothing. -/
inductive SetAside : Node → List Nat → Prop
  | here {node child : Node} {index : Nat} {place : List Nat}
      (hchild : node.children[index]? = some child) (h : node.PassesOver child) :
    SetAside node (index :: place)
  | deeper {node child : Node} {index : Nat} {place : List Nat}
      (hchild : node.children[index]? = some child) (h : SetAside child place) :
    SetAside node (index :: place)

theorem setAside_cons_iff (hchild : node.children[index]? = some child) :
    node.SetAside (index :: place) ↔ node.PassesOver child ∨ child.SetAside place := by
  constructor
  · rintro (⟨hother, h⟩ | ⟨hother, h⟩)
    · rw [hchild] at hother
      exact .inl (Option.some.inj hother ▸ h)
    · rw [hchild] at hother
      exact .inr (Option.some.inj hother ▸ h)
  · rintro (h | h)
    · exact .here hchild h
    · exact .deeper hchild h

/-- **No way to a bound name leads through a key or a default value.** -/
theorem BindsAt.not_setAside {pattern : Node} (h : pattern.BindsAt place) :
    ¬ pattern.SetAside place := by
  induction h with
  | self => rintro ⟨⟩
  | value hkind hvalue _ ih =>
    rw [setAside_cons_iff hvalue.child_eq, PassesOver, hkind]
    exact not_or.mpr ⟨fun hother => hother hvalue.role_eq, ih⟩
  | left hkind hleft _ ih =>
    rw [setAside_cons_iff hleft.child_eq, PassesOver]
    refine not_or.mpr ⟨fun hother => ?_, ih⟩
    rcases hkind with hkind | hkind <;> rw [hkind] at hother <;> exact hother hleft.role_eq
  | part hkind hpart _ _ ih =>
    rw [setAside_cons_iff hpart, PassesOver]
    refine not_or.mpr ⟨fun hother => ?_, ih⟩
    rcases hkind with hkind | hkind | hkind <;> rw [hkind] at hother <;> exact hother

/-- In a declaration, no way to a bound name leads through an initial value either. -/
theorem DeclaresAt.not_setAside {declaration : Node} (h : declaration.DeclaresAt place)
    (hkind : declaration.kind.isVariableDeclaration = true) : ¬ declaration.SetAside place := by
  obtain ⟨index, declarator, rest, rfl, hdeclarator, -, hkind', inner, pattern, below, rfl, hname,
    hbinds⟩ := h
  have hpassed : ¬ declaration.PassesOver declarator := by
    rw [PassesOver]
    cases hk : declaration.kind <;> rw [hk] at hkind <;> cases hkind <;> exact not_false
  have hnamed : ¬ declarator.PassesOver pattern := by
    rw [PassesOver, hkind']
    exact fun hother => hother hname.role_eq
  rw [setAside_cons_iff hdeclarator, setAside_cons_iff hname.child_eq]
  exact not_or.mpr ⟨hpassed, not_or.mpr ⟨hnamed, hbinds.not_setAside⟩⟩

/-! ### Lists in document order -/

/-- A list holds the nodes at certain places of a tree, each place once and in document order. -/
def Enumerates (root : Node) (At : List Nat → Prop) (nodes : List Node) : Prop :=
  ∃ places : List (List Nat), places.Pairwise (· < ·) ∧ (∀ place, place ∈ places ↔ At place) ∧
    nodes.map some = places.map root.at?

namespace Enumerates

variable {At Before After : List Nat → Prop} {nodes more : List Node}

/-- **The places give the list**: no other list holds the same nodes in document order. -/
theorem unique (h : root.Enumerates At nodes) (hmore : root.Enumerates At more) : nodes = more := by
  obtain ⟨places, hordered, hplaces, hnodes⟩ := h
  obtain ⟨places', hordered', hplaces', hmore⟩ := hmore
  have hsame : places = places' := hordered.eq_of_mem_iff hordered' fun place => by
    rw [hplaces, hplaces']
  apply List.map_injective_iff.mpr (Option.some_injective Node)
  rw [hnodes, hmore, hsame]

theorem congr (h : root.Enumerates Before nodes) (hiff : ∀ place, Before place ↔ After place) :
    root.Enumerates After nodes := by
  obtain ⟨places, hordered, hplaces, hnodes⟩ := h
  exact ⟨places, hordered, fun place => by rw [hplaces, hiff], hnodes⟩

theorem nil (h : ∀ place, ¬ At place) : root.Enumerates At [] :=
  ⟨[], .nil, fun place => by simp [h place], rfl⟩

theorem self (h : ∀ place, At place ↔ place = []) : root.Enumerates At [root] :=
  ⟨[[]], List.pairwise_singleton _ _, fun place => by simp [h place], rfl⟩

/-- Two lists make one, if the places of the second come after those of the first. -/
theorem append (h : root.Enumerates Before nodes) (hmore : root.Enumerates After more)
    (hlt : ∀ place, Before place → ∀ later, After later → place < later) :
    root.Enumerates (fun place => Before place ∨ After place) (nodes ++ more) := by
  obtain ⟨places, hordered, hplaces, hnodes⟩ := h
  obtain ⟨later, hordered', hlater, hmore⟩ := hmore
  refine ⟨places ++ later, List.pairwise_append.mpr ⟨hordered, hordered', ?_⟩, ?_, ?_⟩
  · exact fun place hplace other hother =>
      hlt place ((hplaces place).mp hplace) other ((hlater other).mp hother)
  · exact fun place => by rw [List.mem_append, hplaces, hlater]
  · rw [List.map_append, List.map_append, hnodes, hmore]

/-- What is listed below a child is listed below its parent, by longer places. -/
theorem under (h : child.Enumerates At nodes) (hchild : root.children[index]? = some child) :
    root.Enumerates (fun place => ∃ rest, place = index :: rest ∧ At rest) nodes := by
  obtain ⟨places, hordered, hplaces, hnodes⟩ := h
  refine ⟨places.map (index :: ·), ?_, fun place => ?_, ?_⟩
  · refine List.pairwise_map.mpr (hordered.imp fun hlt => ?_)
    exact List.cons_lt_cons_iff.mpr (.inr ⟨rfl, hlt⟩)
  · simp only [List.mem_map, hplaces]
    exact exists_congr fun rest => by rw [and_comm, eq_comm]
  · rw [hnodes, List.map_map]
    exact List.map_congr_left fun rest _ => by simp [at?, hchild]

section Children

variable {At : Node → List Nat → Prop} {f : Node → List Node}
  (hf : ∀ child ∈ root.children, child.Enumerates (At child) (f child))

include hf

/-- The list of the first child that plays a part, if there is one. -/
theorem throughRole (role : Role) :
    root.Enumerates (root.ThroughRole role At) (((root.child? role).map f).getD []) := by
  cases hchild : root.child? role with
  | none =>
    refine .nil fun place => ?_
    rintro ⟨index, child, rest, -, hplays, -⟩
    exact not_playsAt_of_child? hchild hplays
  | some child =>
    obtain ⟨index, hplays⟩ := exists_playsAt_of_child? hchild
    refine ((hf child (mem_children_of_child? hchild)).under hplays.child_eq).congr fun place => ?_
    constructor
    · rintro ⟨rest, rfl, hrest⟩
      exact ⟨index, child, rest, rfl, hplays, hrest⟩
    · rintro ⟨index', other, rest, rfl, hother, hrest⟩
      obtain ⟨rfl, rfl⟩ := hplays.unique hother
      exact ⟨rest, rfl, hrest⟩

/-- The list of one child, if it is there and named. -/
theorem throughChild (index : Nat) : root.Enumerates (root.ThroughChild index At)
    ((root.children[index]?.toList.filter Node.named).flatMap f) := by
  cases hchild : root.children[index]? with
  | none => exact .nil fun place => by simp [ThroughChild, hchild]
  | some child =>
    cases hnamed : child.named with
    | false => simpa [hnamed] using nil (fun place => by simp [ThroughChild, hchild, hnamed])
    | true =>
      have hlist := (hf child (List.mem_of_getElem? hchild)).under hchild
      simpa [hnamed] using hlist.congr fun place => by simp [ThroughChild, hchild, hnamed]

/-- The lists of the first children, one after the other. The places of the next child all come
after those of the children before it. -/
theorem throughFront (count : Nat) :
    root.Enumerates (fun place => ∃ index < count, root.ThroughChild index At place)
      (((root.children.take count).filter Node.named).flatMap f) := by
  induction count with
  | zero => exact .nil fun place => by simp
  | succ count ih =>
    rw [List.take_add_one, List.filter_append, List.flatMap_append]
    refine (ih.append (throughChild hf count) ?_).congr fun place => Nat.exists_lt_succ_right.symm
    rintro _ ⟨index, hlt, child, rest, rfl, -⟩ _ ⟨other, rest', rfl, -⟩
    exact List.cons_lt_cons_iff.mpr (.inl hlt)

/-- The lists of all named children. -/
theorem throughNamed :
    root.Enumerates (root.ThroughNamed At) (root.namedChildren.flatMap f) := by
  have hall := throughFront hf root.children.length
  rw [List.take_length] at hall
  refine hall.congr fun place => exists_congr fun index => and_iff_right_of_imp ?_
  rintro ⟨child, rest, -, hchild, -⟩
  exact (List.getElem?_eq_some_iff.mp hchild).1

end Children

end Enumerates

/-! ### What is collected -/

/-- **A pattern is found to bind** the nodes at the places where it binds, in document order. -/
theorem binders_enumerates (pattern : Node) :
    pattern.Enumerates pattern.BindsAt pattern.binders := by
  induction pattern using induction with
  | step pattern ih =>
    -- The collector and the places that bind split into the same cases.
    refine Enumerates.congr ?_ fun place => bindsAt_iff.symm
    rw [binders_eq]
    cases pattern.kind
    case identifier | shorthandPattern => exact .self fun place => Iff.rfl
    case pairPattern => exact .throughRole ih .value
    case assignmentPattern | objectAssignmentPattern => exact .throughRole ih .left
    case objectPattern | arrayPattern | restPattern => exact .throughNamed ih
    all_goals exact .nil fun place => not_false

theorem declaratorBinders_eq (declarator : Node) : declarator.declaratorBinders =
    if declarator.kind = .variableDeclarator then ((declarator.child? .name).map binders).getD []
    else [] := by
  rw [declaratorBinders]
  cases declarator.child? .name <;> rfl

/-- A declarator is found to bind the nodes at the places where its name binds. -/
theorem declaratorBinders_enumerates (declarator : Node) :
    declarator.Enumerates
      (fun place => declarator.kind = .variableDeclarator ∧
        declarator.ThroughRole .name BindsAt place)
      declarator.declaratorBinders := by
  rw [declaratorBinders_eq]
  by_cases hkind : declarator.kind = .variableDeclarator
  · rw [if_pos hkind]
    have hname : declarator.Enumerates (declarator.ThroughRole .name BindsAt) _ :=
      .throughRole (fun child _ => binders_enumerates child) .name
    exact hname.congr fun place => (and_iff_right hkind).symm
  · rw [if_neg hkind]
    exact .nil fun place hplace => hkind hplace.1

/-- **A declaration is found to bind** the nodes at the places where it binds, in document order. -/
theorem declared_enumerates (declaration : Node) :
    declaration.Enumerates declaration.DeclaresAt declaration.declared :=
  .throughNamed fun declarator _ => declaratorBinders_enumerates declarator

/-! ### Bound names in the text -/

/-- A pattern binds identifiers and shorthands only. -/
theorem Binds.kind_eq {pattern identifier : Node} (h : pattern.Binds identifier) :
    identifier.kind = .identifier ∨ identifier.kind = .shorthandPattern := by
  induction h with
  | self hkind => exact hkind
  | value _ _ _ ih => exact ih
  | left _ _ _ ih => exact ih
  | part _ _ _ ih => exact ih

/-- What is collected from the first child that plays a part follows each other in the text, if this
holds of what is collected from any child. -/
theorem pairwise_child? {f : Node → List Node}
    (hf : ∀ child ∈ node.children, (f child).Pairwise fun a b => a.stop ≤ b.start) (role : Role) :
    (((node.child? role).map f).getD []).Pairwise fun a b => a.stop ≤ b.start := by
  cases hchild : node.child? role with
  | none => exact .nil
  | some child => exact hf child (mem_children_of_child? hchild)

/-- What is collected from the named children of a node follows each other in the text, if this
holds of what is collected from each of them. -/
theorem Nested.pairwise_flatMap (h : node.Nested) {f : Node → List Node}
    (hbelow : ∀ child ∈ node.namedChildren, ∀ a ∈ f child, a ∈ child.subtree)
    (hf : ∀ child ∈ node.namedChildren, (f child).Pairwise fun a b => a.stop ≤ b.start) :
    (node.namedChildren.flatMap f).Pairwise fun a b => a.stop ≤ b.start := by
  refine List.pairwise_flatMap.mpr ⟨hf, ?_⟩
  -- Of two children the first ends before the second begins, and each holds what comes of it.
  refine (h.children.pairwise.filter Node.named).imp_of_mem fun hfirst hsecond hle a ha b hb => ?_
  have hwithin := (h.below (mem_subtree_of_mem_namedChildren hfirst)).within (hbelow _ hfirst a ha)
  have hwithin' :=
    (h.below (mem_subtree_of_mem_namedChildren hsecond)).within (hbelow _ hsecond b hb)
  omega

/-- **The names that a pattern binds** follow each other in the text. -/
theorem Nested.binders_pairwise {pattern : Node} (h : pattern.Nested) :
    pattern.binders.Pairwise fun a b => a.stop ≤ b.start := by
  induction pattern using induction with
  | step pattern ih =>
    have hchildren : ∀ child ∈ pattern.children,
        child.binders.Pairwise fun a b => a.stop ≤ b.start :=
      fun child hchild => ih child hchild (h.below (mem_subtree_of_mem_children hchild))
    rw [binders_eq]
    cases pattern.kind
    case identifier | shorthandPattern => exact List.pairwise_singleton _ _
    case pairPattern | assignmentPattern | objectAssignmentPattern =>
      exact pairwise_child? hchildren _
    case objectPattern | arrayPattern | restPattern =>
      exact h.pairwise_flatMap (fun _ _ _ => binders_subset) fun child hchild =>
        hchildren child (mem_children_of_mem_namedChildren hchild)
    all_goals exact .nil

/-- **The names that a declaration binds** follow each other in the text. -/
theorem Nested.declared_pairwise {declaration : Node} (h : declaration.Nested) :
    declaration.declared.Pairwise fun a b => a.stop ≤ b.start := by
  refine h.pairwise_flatMap (fun declarator _ a ha => ?_) fun declarator hdeclarator => ?_
  · obtain ⟨-, name, hname, hbinds⟩ := mem_declaratorBinders_iff.mp ha
    exact subtree_trans (binders_subset (mem_binders_iff.mpr hbinds)) (mem_subtree_of_child? hname)
  · have hnested := h.below (mem_subtree_of_mem_namedChildren hdeclarator)
    rw [declaratorBinders_eq]
    by_cases hkind : declarator.kind = .variableDeclarator
    · rw [if_pos hkind]
      exact pairwise_child? (fun child hchild =>
        (hnested.below (mem_subtree_of_mem_children hchild)).binders_pairwise) .name
    · rw [if_neg hkind]
      exact .nil

/-- **The identifiers that a declaration is found to bind**, in a tree whose nodes lie inside each
other in order as those of a well-formed tree do (`WellFormed.nested`), are the nodes at the places
where it binds, each place once and in document order, and there is no other such list. None of
these places is in a key, a default value or an initial value, each holds an identifier or a
shorthand, and the nodes follow each other in the text. -/
theorem declared_in_document_order {root declaration : Node} (hroot : root.Nested)
    (hbelow : declaration ∈ root.subtree)
    (hkind : declaration.kind.isVariableDeclaration = true) :
    (∀ nodes, declaration.Enumerates declaration.DeclaresAt nodes ↔ nodes = declaration.declared) ∧
      (∀ place, declaration.DeclaresAt place → ¬ declaration.SetAside place) ∧
      (∀ identifier ∈ declaration.declared,
        identifier.kind = .identifier ∨ identifier.kind = .shorthandPattern) ∧
      declaration.declared.Pairwise fun a b => a.stop ≤ b.start := by
  refine ⟨fun nodes => ⟨fun h => ?_, fun h => ?_⟩, fun place h => h.not_setAside hkind, ?_, ?_⟩
  · exact h.unique declaration.declared_enumerates
  · exact h ▸ declaration.declared_enumerates
  · intro identifier hmem
    obtain ⟨_, _, _, _, _, hbinds⟩ := mem_declared_iff.mp hmem
    exact hbinds.kind_eq
  · exact (hroot.below hbelow).declared_pairwise

/-- The declaration `let { [k]: [a, , b = k], c = a, /* d */ ...e } = f, g;`. -/
def destructuring : Node :=
  { kind := .lexicalDeclaration, start := 0, stop := 54, children := [
    { kind := .keywordLet, start := 0, stop := 3, role := some .kind, named := false },
    { kind := .variableDeclarator, start := 4, stop := 50, children := [
      { kind := .objectPattern, start := 4, stop := 46, role := some .name, children := [
        { kind := .pairPattern, start := 6, stop := 23, children := [
          { kind := .other "computed_property_name", start := 6, stop := 9,
            role := some (.other "key"), children := [
            { kind := .identifier, start := 7, stop := 8 }] },
          { kind := .arrayPattern, start := 11, stop := 23, role := some .value, children := [
            { kind := .identifier, start := 12, stop := 13 },
            { kind := .assignmentPattern, start := 17, stop := 22, children := [
              { kind := .identifier, start := 17, stop := 18, role := some .left },
              { kind := .identifier, start := 21, stop := 22,
                role := some (.other "right") }] }] }] },
        { kind := .objectAssignmentPattern, start := 25, stop := 30, children := [
          { kind := .shorthandPattern, start := 25, stop := 26, role := some .left },
          { kind := .identifier, start := 29, stop := 30, role := some (.other "right") }] },
        { kind := .comment, start := 32, stop := 39 },
        { kind := .restPattern, start := 40, stop := 44, children := [
          { kind := .identifier, start := 43, stop := 44 }] }] },
      { kind := .identifier, start := 49, stop := 50, role := some .value }] },
    { kind := .variableDeclarator, start := 52, stop := 53, children := [
      { kind := .identifier, start := 52, stop := 53, role := some .name }] }] }

/-- A program that consists of this declaration. -/
def destructuringProgram : Node :=
  { kind := .program, start := 0, stop := 54, children := [destructuring] }

/-- The names `a`, `b`, `c`, `e` and `g` are bound in this order, and the `k` of the computed key is
not. -/
theorem declared_in_document_order_destructuring :
    destructuringProgram.Nested ∧ destructuring ∈ destructuringProgram.subtree ∧
      destructuring.kind.isVariableDeclaration = true ∧
      destructuring.declared.map (fun node => (node.start, node.stop)) =
        [(12, 13), (17, 18), (25, 26), (43, 44), (52, 53)] ∧
      destructuring.Enumerates destructuring.DeclaresAt destructuring.declared ∧
      ¬ destructuring.DeclaresAt [1, 0, 0, 0, 0] ∧
      destructuring.declared.Pairwise fun a b => a.stop ≤ b.start := by
  have hnested : destructuringProgram.Nested := by decide
  have hmem : destructuring ∈ destructuringProgram.subtree :=
    mem_subtree_of_mem_children (List.mem_cons_self ..)
  have hkey : destructuring.SetAside [1, 0, 0, 0, 0] :=
    .deeper rfl (.deeper rfl (.deeper rfl (.here rfl (by decide : some (Role.other "key") ≠ _))))
  obtain ⟨henumerates, haside, -, hordered⟩ := declared_in_document_order hnested hmem rfl
  exact ⟨hnested, hmem, rfl, by decide, (henumerates _).mpr rfl, fun h => haside _ h hkey, hordered⟩

end Node

end Seams
