import Seams.Opening
import Seams.Proofs.Boundary
import Seams.Proofs.Subtree

/-!
# Well-formed trees

A tree may hold anything, but one that a parser made fits its text: every node has its text at
hand and splits no character, and the children of a node follow each other inside the node. Then
every node can be read, and of two nodes one ends before the other begins, unless one of them is
at or below the other.

## Main definitions

* `Node.InOrder` — nodes that follow each other between two offsets
* `Node.Nested` — a tree whose nodes lie inside each other in order
* `Node.Fits`, `Node.WellFormed` — a node and a tree that fit a text

## Main results

* `Node.Nested.within` — what stands below a node lies inside it
* `Node.WellFormed.text_ok`, `Node.WellFormed.readText_ok` — every node can be read
-/

namespace Seams

theorem mapM_ok {α β : Type} {f : α → Except Failure β} {items : List α}
    (h : ∀ item ∈ items, ∃ image, f item = .ok image) : ∃ images, items.mapM f = .ok images := by
  induction items with
  | nil => exact ⟨[], rfl⟩
  | cons item rest ih =>
    obtain ⟨image, himage⟩ := h item (List.mem_cons_self ..)
    obtain ⟨images, himages⟩ := ih fun other hother => h other (List.mem_cons_of_mem _ hother)
    exact ⟨image :: images, by rw [List.mapM_cons, himage, himages]; rfl⟩

namespace Node

/-! ### Nodes in a row -/

/-- Nodes that follow each other between two offsets, and none of which runs backwards. -/
def InOrder (start stop : Nat) : List Node → Prop
  | [] => start ≤ stop
  | node :: rest => start ≤ node.start ∧ node.start ≤ node.stop ∧ InOrder node.stop stop rest

instance InOrder.decidable (start stop : Nat) : (nodes : List Node) →
    Decidable (InOrder start stop nodes)
  | [] => inferInstanceAs (Decidable (start ≤ stop))
  | node :: rest =>
    have := InOrder.decidable node.stop stop rest
    inferInstanceAs (Decidable (_ ∧ _ ∧ _))

theorem InOrder.le {start stop : Nat} {nodes : List Node} (h : InOrder start stop nodes) :
    start ≤ stop := by
  induction nodes generalizing start with
  | nil => exact h
  | cons node rest ih =>
    obtain ⟨hstart, hnode, hrest⟩ := h
    have := ih hrest
    omega

theorem InOrder.bounds {start stop : Nat} {nodes : List Node} (h : InOrder start stop nodes)
    {node : Node} (hnode : node ∈ nodes) :
    start ≤ node.start ∧ node.start ≤ node.stop ∧ node.stop ≤ stop := by
  induction nodes generalizing start with
  | nil => cases hnode
  | cons first rest ih =>
    obtain ⟨hstart, hfirst, hrest⟩ := h
    rcases List.mem_cons.mp hnode with rfl | hnode
    · exact ⟨hstart, hfirst, hrest.le⟩
    · obtain ⟨h₁, h₂, h₃⟩ := ih hrest hnode
      exact ⟨by omega, h₂, h₃⟩

/-- Of two nodes in a row, the earlier one ends before the later one begins. -/
theorem InOrder.pairwise {start stop : Nat} {nodes : List Node} (h : InOrder start stop nodes) :
    nodes.Pairwise fun a b => a.stop ≤ b.start := by
  induction nodes generalizing start with
  | nil => exact .nil
  | cons first rest ih =>
    obtain ⟨-, -, hrest⟩ := h
    exact .cons (fun node hnode => (hrest.bounds hnode).1) (ih hrest)

/-- Of the named children of a node, later ones begin where those before end, or later. -/
theorem InOrder.stop_le_start {start stop : Nat} {node : Node}
    (h : InOrder start stop node.children) {i j : Nat} {a b : Node}
    (ha : node.namedChildren[i]? = some a) (hb : node.namedChildren[j]? = some b) (hij : i < j) :
    a.stop ≤ b.start := by
  obtain ⟨hi, rfl⟩ := List.getElem?_eq_some_iff.mp ha
  obtain ⟨hj, rfl⟩ := List.getElem?_eq_some_iff.mp hb
  exact List.pairwise_iff_getElem.mp (h.pairwise.filter _) i j hi hj hij

/-- Of two nodes in a row, one ends before the other begins. -/
theorem InOrder.disjoint_of_ne {start stop : Nat} {nodes : List Node}
    (h : InOrder start stop nodes) {a b : Node} (ha : a ∈ nodes) (hb : b ∈ nodes) (hab : a ≠ b) :
    a.stop ≤ b.start ∨ b.stop ≤ a.start := by
  induction nodes generalizing start with
  | nil => cases ha
  | cons first rest ih =>
    obtain ⟨-, -, hrest⟩ := h
    rcases List.mem_cons.mp ha with rfl | hrestA <;> rcases List.mem_cons.mp hb with rfl | hrestB
    · exact absurd rfl hab
    · exact .inl (hrest.bounds hrestB).1
    · exact .inr (hrest.bounds hrestA).1
    · exact ih hrest hrestA hrestB

/-! ### Nested trees -/

/-- A tree in which the children of every node follow each other inside it. -/
def Nested (root : Node) : Prop :=
  ∀ node ∈ root.subtree, InOrder node.start node.stop node.children

instance (root : Node) : Decidable (Nested root) :=
  inferInstanceAs (Decidable (∀ node ∈ root.subtree, InOrder node.start node.stop node.children))

namespace Nested

variable {root a b : Node}

theorem children (h : root.Nested) : InOrder root.start root.stop root.children :=
  h root root.self_mem_subtree

theorem below (h : root.Nested) (ha : a ∈ root.subtree) : a.Nested :=
  fun node hnode => h node (subtree_trans hnode ha)

/-- What stands at or below a node lies inside it. -/
theorem within (h : root.Nested) (ha : a ∈ root.subtree) :
    root.start ≤ a.start ∧ a.start ≤ a.stop ∧ a.stop ≤ root.stop := by
  induction root using induction with
  | step root ih =>
    rcases mem_subtree_iff.mp ha with rfl | ⟨child, hchild, ha⟩
    · exact ⟨Nat.le_refl _, h.children.le, Nat.le_refl _⟩
    · obtain ⟨h₁, h₂, h₃⟩ := h.children.bounds hchild
      obtain ⟨h₄, h₅, h₆⟩ := ih child hchild (h.below (mem_subtree_of_mem_children hchild)) ha
      exact ⟨by omega, h₅, by omega⟩

end Nested

/-! ### Trees that fit a text -/

/-- A node that fits a text: it splits no character, its text is at hand, and its children follow
each other inside it. -/
structure Fits (text : String) (node : Node) : Prop where
  start : Text.IsBoundary text node.start
  stop : Text.IsBoundary text node.stop
  textful : node.textless = false
  children : InOrder node.start node.stop node.children

instance (text : String) (node : Node) : Decidable (Fits text node) :=
  decidable_of_iff
    (Text.IsBoundary text node.start ∧ Text.IsBoundary text node.stop ∧ node.textless = false ∧
      InOrder node.start node.stop node.children)
    ⟨fun h => ⟨h.1, h.2.1, h.2.2.1, h.2.2.2⟩, fun h => ⟨h.start, h.stop, h.textful, h.children⟩⟩

/-- A tree all of whose nodes fit a text. -/
def WellFormed (text : String) (root : Node) : Prop :=
  ∀ node ∈ root.subtree, node.Fits text

instance (text : String) (root : Node) : Decidable (WellFormed text root) :=
  inferInstanceAs (Decidable (∀ node ∈ root.subtree, node.Fits text))

namespace WellFormed

variable {text : String} {root a : Node}

theorem fits (h : root.WellFormed text) : root.Fits text :=
  h root root.self_mem_subtree

theorem below (h : root.WellFormed text) (ha : a ∈ root.subtree) : a.WellFormed text :=
  fun node hnode => h node (subtree_trans hnode ha)

theorem child? {role : Role} (h : root.WellFormed text) (ha : root.child? role = some a) :
    a.WellFormed text :=
  h.below (mem_subtree_of_child? ha)

theorem start_le_stop (h : root.WellFormed text) : root.start ≤ root.stop :=
  h.fits.children.le

theorem nested (h : root.WellFormed text) : root.Nested :=
  fun node hnode => (h node hnode).children

/-- What stands at or below a node lies inside it. -/
theorem within (h : root.WellFormed text) (ha : a ∈ root.subtree) :
    root.start ≤ a.start ∧ a.start ≤ a.stop ∧ a.stop ≤ root.stop :=
  h.nested.within ha

/-! ### Reading nodes -/

theorem readText_ok (h : root.WellFormed text) :
    ∃ piece, readText (root.bytes (Text.encode text)) = .ok piece :=
  readText_slice h.fits.start h.fits.stop h.start_le_stop

theorem text_ok (h : root.WellFormed text) :
    ∃ piece, root.text (Text.encode text) = .ok piece := by
  rw [Node.text, h.fits.textful]
  exact h.readText_ok

theorem mapM_text_ok (h : root.WellFormed text) {nodes : List Node}
    (hnodes : ∀ node ∈ nodes, node ∈ root.subtree) :
    ∃ pieces, nodes.mapM (fun node => node.text (Text.encode text)) = .ok pieces :=
  mapM_ok fun node hnode => (h.below (hnodes node hnode)).text_ok

end WellFormed

end Node

/-- A module whose tree fits its source. -/
def Module.WellFormed (m : Module) : Prop :=
  m.root.WellFormed m.source

instance (m : Module) : Decidable m.WellFormed :=
  inferInstanceAs (Decidable (m.root.WellFormed m.source))

end Seams
