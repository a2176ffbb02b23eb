import Seams.Tree.Node

/-!
# Syntax faults of a module

A tree that was made from faulty source marks the places at fault: a node stands for something
that is missing, or for a piece that could not be parsed.

## Main definitions

* `Position`, `Position.ofOffset` — lines and columns
* `SyntaxFault`, `SyntaxFault.message` — one fault and its report
* `Node.syntaxFaults` — the first faults of a tree, at most a given number
-/

namespace Seams

/-! ### Positions -/

/-- A place in a module by line and column, both counted from zero, the column in bytes. -/
structure Position where
  line : Nat
  column : Nat
  deriving DecidableEq, Repr

/-- The byte that ends a line. -/
def lineFeed : UInt8 := 0x0A

/-- The position of a byte offset. -/
def Position.ofOffset (source : List UInt8) (offset : Nat) : Position :=
  let before := source.take offset
  ⟨before.count lineFeed, (before.reverse.takeWhile (· != lineFeed)).length⟩

/-! ### Faults -/

/-- A fault in the source of a module. -/
inductive SyntaxFault where
  /-- Something of this kind is missing. -/
  | missing (kind : String) (place : Position)
  /-- A piece that could not be parsed begins here. -/
  | unexpected (place : Position)
  deriving DecidableEq, Repr

/-- A fault in words, its place counted from one. -/
def SyntaxFault.message : SyntaxFault → String
  | .missing kind place =>
    s!"Missing '{kind}' at line {place.line + 1}, column {place.column + 1}"
  | .unexpected place => s!"Syntax error at line {place.line + 1}, column {place.column + 1}"

namespace Node

/-- The fault that a node itself marks. -/
def ownFault? (source : List UInt8) (node : Node) : Option SyntaxFault :=
  let place := Position.ofOffset source node.start
  if node.missing then some (.missing node.kind.name place)
  else if node.kind = .error then some (.unexpected place)
  else none

/-- The children below which faults may be reported beside a node's own. A piece that could not be
parsed is one fault, whatever it holds, and a tree without errors is passed over as a whole. -/
def suspects (node : Node) : List Node :=
  if (node.missing || node.kind != .error) && node.hasError then node.children else []

theorem sizeAll_suspects_lt (node : Node) : sizeAll node.suspects < node.size := by
  rw [suspects, size_eq]
  split <;> simp [sizeAll]

/-- The first faults in a list of trees, at most a given number. -/
def faultsIn (source : List UInt8) : Nat → List Node → List SyntaxFault
  | 0, _ => []
  | _, [] => []
  | limit + 1, node :: rest =>
    match node.ownFault? source with
    | some fault => fault :: faultsIn source limit (node.suspects ++ rest)
    | none => faultsIn source (limit + 1) (node.suspects ++ rest)
termination_by _ pending => sizeAll pending
decreasing_by
  all_goals
    have := node.sizeAll_suspects_lt
    simp only [sizeAll_append, sizeAll]
    omega

/-- The first faults of a tree in the order of the module, at most `limit` of them, and none if the
limit is negative. -/
def syntaxFaults (source : List UInt8) (root : Node) (limit : Int) : List SyntaxFault :=
  faultsIn source limit.toNat [root]

/-- How many faults are reported for one module. -/
def faultLimit : Nat := 20

end Node

end Seams
