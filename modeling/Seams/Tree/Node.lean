import Seams.Failure
import Seams.Tree.Kind

/-!
# Syntax trees

A node of a syntax tree is labelled with its kind and covers a range of bytes of the module. A
tree may hold anything: the ranges need not lie in the module, and children need not lie in their
parent. Whoever needs more says so as a hypothesis.

## Main definitions

* `Node` — a syntax tree
* `Node.child?`, `Node.namedChildren`, `Node.hasError` — its parts
* `Node.bytes`, `Node.text` — what it covers
* `Node.subtree`, `Node.subtreeBackwards` — all nodes at or below a node
-/

namespace Seams

/-- A node of a syntax tree. -/
structure Node where
  kind : Kind
  /-- The offset of the first byte. -/
  start : Nat
  /-- The offset after the last byte. -/
  stop : Nat
  /-- The part the node plays in its parent. -/
  role : Option Role := none
  /-- Whether the node stands for a construct; punctuation and keywords do not. -/
  named : Bool := true
  /-- Whether the node stands for something that is not in the module and had to be there. -/
  missing : Bool := false
  /-- Whether the text of the node is not at hand. -/
  textless : Bool := false
  children : List Node := []
  deriving Repr, Inhabited

namespace Node

/-- The node with another part to play in its parent. -/
def inRole (node : Node) (role : Role) : Node :=
  { node with role := some role }

/-! ### Children -/

/-- The children that stand for constructs. -/
def namedChildren (node : Node) : List Node :=
  node.children.filter Node.named

/-- The first child that plays a given part. -/
def child? (node : Node) (role : Role) : Option Node :=
  node.children.find? fun child => child.role == some role

/-! ### Text -/

/-- The bytes of the module that a node covers. -/
def bytes (source : List UInt8) (node : Node) : List UInt8 :=
  Text.slice source node.start node.stop

/-- The text of a node, which must be at hand. -/
def text (source : List UInt8) (node : Node) : Except Failure String :=
  if node.textless then .error (.textless node.kind.name) else readText (node.bytes source)

/-! ### All nodes of a tree -/

mutual

/-- The number of nodes at or below a node. -/
def size : Node → Nat
  | ⟨_, _, _, _, _, _, _, children⟩ => sizeAll children + 1

/-- The number of nodes in a list of trees. -/
def sizeAll : List Node → Nat
  | [] => 0
  | node :: rest => size node + sizeAll rest

end

mutual

/-- The nodes at or below a node, in the order in which they begin. -/
def subtree : Node → List Node
  | node@⟨_, _, _, _, _, _, _, children⟩ => node :: subtreeAll children

/-- The nodes of a list of trees, in order. -/
def subtreeAll : List Node → List Node
  | [] => []
  | node :: rest => subtree node ++ subtreeAll rest

end

mutual

/-- The nodes at or below a node, each before those below it, and of two neighbours the later one
first. -/
def subtreeBackwards : Node → List Node
  | node@⟨_, _, _, _, _, _, _, children⟩ => node :: subtreeBackwardsAll children

/-- The nodes of a list of trees, the last tree first. -/
def subtreeBackwardsAll : List Node → List Node
  | [] => []
  | node :: rest => subtreeBackwardsAll rest ++ subtreeBackwards node

end

mutual

/-- Whether a node at or below this one is missing or marks a piece that could not be parsed. -/
def hasError : Node → Bool
  | ⟨kind, _, _, _, _, missing, _, children⟩ => missing || kind == .error || hasErrorAny children

/-- Whether a tree of a list has an error. -/
def hasErrorAny : List Node → Bool
  | [] => false
  | node :: rest => hasError node || hasErrorAny rest

end

/-! ### Sizes, for the walks that keep a list of trees still to visit -/

theorem size_eq (node : Node) : node.size = sizeAll node.children + 1 := by
  cases node; rfl

theorem sizeAll_append (xs ys : List Node) : sizeAll (xs ++ ys) = sizeAll xs + sizeAll ys := by
  induction xs with
  | nil => simp [sizeAll]
  | cons x xs ih => simp [sizeAll, ih, Nat.add_assoc]

theorem sizeAll_filter_le (p : Node → Bool) (xs : List Node) :
    sizeAll (xs.filter p) ≤ sizeAll xs := by
  induction xs with
  | nil => simp
  | cons x xs ih => by_cases h : p x <;> simp [h, sizeAll] <;> omega

end Node

end Seams
