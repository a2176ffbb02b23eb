import Seams.Proofs.Outcomes
import Seams.Proofs.Subtree

/-!
# The faults of a tree in full

Faults are reported by a walk that keeps a list of trees still to visit, passes over trees without
errors, and stops as soon as it has enough. All faults of a tree can be listed by a plain recursion
over it, without any of this. The walk gives the beginning of that listing: what it passes over has
no faults to list, and the trees that it still has to visit are, at any time, those whose faults come
next.

## Main definitions

* `Node.faults` — all faults of a tree

## Main results

* `Node.faults_of_not_hasError` — a tree without errors has no faults
* `Node.faults_eq` — a node's own fault comes first, then those of its suspects
* `Node.faultsIn_eq_take` — the walk gives the beginning of the listing
* `Node.syntaxFaults_eq_take` — so does the report on a tree
-/

namespace Seams

namespace Node

/-! ### The listing -/

mutual

/-- All faults at or below a node, in the order of the module. A missing node is a fault, and there
may be more below it. Any other piece that could not be parsed is one fault as a whole. -/
def faults (source : List UInt8) : Node → List SyntaxFault
  | ⟨kind, start, _, _, _, missing, _, children⟩ =>
    let place := Position.ofOffset source start
    if missing then .missing kind.name place :: faultsOfAll source children
    else if kind = .error then [.unexpected place]
    else faultsOfAll source children

/-- All faults of a list of trees, in order. -/
def faultsOfAll (source : List UInt8) : List Node → List SyntaxFault
  | [] => []
  | node :: rest => faults source node ++ faultsOfAll source rest

end

variable {source : List UInt8}

theorem faultsOfAll_append (xs ys : List Node) :
    faultsOfAll source (xs ++ ys) = faultsOfAll source xs ++ faultsOfAll source ys := by
  induction xs with
  | nil => rfl
  | cons x xs ih => rw [List.cons_append, faultsOfAll, faultsOfAll, ih, List.append_assoc]

theorem faults_of_missing {node : Node} (h : node.missing = true) : node.faults source =
    .missing node.kind.name (Position.ofOffset source node.start) ::
      faultsOfAll source node.children := by
  obtain ⟨kind, start, stop, role, named, missing, textless, children⟩ := node
  rw [faults, if_pos h]

theorem faults_of_error {node : Node} (hmissing : node.missing = false)
    (hkind : node.kind = .error) :
    node.faults source = [.unexpected (Position.ofOffset source node.start)] := by
  obtain ⟨kind, start, stop, role, named, missing, textless, children⟩ := node
  rw [faults, if_neg (by simpa using hmissing), if_pos hkind]

theorem faults_of_construct {node : Node} (hmissing : node.missing = false)
    (hkind : node.kind ≠ .error) : node.faults source = faultsOfAll source node.children := by
  obtain ⟨kind, start, stop, role, named, missing, textless, children⟩ := node
  rw [faults, if_neg (by simpa using hmissing), if_neg hkind]

/-! ### What the walk leaves out -/

/-- Trees without errors have no faults, if this holds of each of them. -/
theorem faultsOfAll_eq_nil {nodes : List Node}
    (hnodes : ∀ node ∈ nodes, node.hasError = false → node.faults source = [])
    (h : hasErrorAny nodes = false) : faultsOfAll source nodes = [] := by
  induction nodes with
  | nil => rfl
  | cons node rest ih =>
    rw [hasErrorAny, Bool.or_eq_false_iff] at h
    rw [faultsOfAll, hnodes node (List.mem_cons_self ..) h.1,
      ih (fun other hother => hnodes other (List.mem_cons_of_mem _ hother)) h.2]
    rfl

/-- **A tree without errors has no faults.** -/
theorem faults_of_not_hasError {node : Node} (h : node.hasError = false) :
    node.faults source = [] := by
  induction node using induction with
  | step node ih =>
    rw [hasError_eq, Bool.or_eq_false_iff, Bool.or_eq_false_iff, beq_eq_false_iff_ne] at h
    obtain ⟨⟨hmissing, hkind⟩, hbelow⟩ := h
    rw [faults_of_construct hmissing hkind]
    exact faultsOfAll_eq_nil ih hbelow

/-- What is passed over below a node has no faults. -/
theorem faultsOfAll_children (node : Node) :
    (if node.hasError then faultsOfAll source node.children else []) =
      faultsOfAll source node.children := by
  by_cases herror : node.hasError = true
  · rw [if_pos herror]
  · rw [Bool.not_eq_true] at herror
    rw [hasError_eq, Bool.or_eq_false_iff] at herror
    rw [faultsOfAll_eq_nil (fun _ _ => faults_of_not_hasError) herror.2, ite_self]

/-- A node's own fault comes first, and then those of the trees that may have some beside it. -/
theorem faults_eq (node : Node) : node.faults source =
    (node.ownFault? source).toList ++ faultsOfAll source node.suspects := by
  have hsuspects : faultsOfAll source node.suspects =
      if (node.missing || node.kind != .error) = true then faultsOfAll source node.children
      else [] := by
    rw [suspects, ← faultsOfAll_children node]
    cases node.missing || node.kind != .error <;> cases node.hasError <;> rfl
  rw [hsuspects, ownFault?]
  by_cases hmissing : node.missing = true
  · rw [faults_of_missing hmissing]
    simp [hmissing]
  · rw [Bool.not_eq_true] at hmissing
    by_cases hkind : node.kind = .error
    · rw [faults_of_error hmissing hkind]
      simp [hmissing, hkind]
    · rw [faults_of_construct hmissing hkind]
      simp [hmissing, hkind]

/-! ### The walk -/

/-- **The walk gives the beginning of the listing** of the trees that it has to visit. -/
theorem faultsIn_eq_take (source : List UInt8) (limit : Nat) (pending : List Node) :
    faultsIn source limit pending = (faultsOfAll source pending).take limit := by
  fun_induction faultsIn source limit pending with
  | case1 => rw [List.take_zero]
  | case2 => rw [faultsOfAll, List.take_nil]
  | case3 node rest limit fault hown ih =>
    rw [faultsOfAll, faults_eq, hown, List.append_assoc, ← faultsOfAll_append, ih]
    rfl
  | case4 node rest limit hown ih =>
    rw [faultsOfAll, faults_eq, hown, List.append_assoc, ← faultsOfAll_append, ih]
    rfl

/-- **The faults that are reported** are the first ones of all faults of the tree, as many as the
limit allows for, and there is one if the tree has an error and the limit allows for any. -/
theorem syntaxFaults_eq_take (source : List UInt8) (root : Node) (limit : Int) :
    root.syntaxFaults source limit = (root.faults source).take limit.toNat ∧
      (root.hasError = true → 0 < limit → root.syntaxFaults source limit ≠ []) := by
  constructor
  · rw [syntaxFaults, faultsIn_eq_take, faultsOfAll, faultsOfAll, List.append_nil]
  · intro herror hlimit hnone
    rw [syntaxFaults, faultsIn_eq_nil _ _ _ (by omega), hasErrorAny, herror] at hnone
    cases hnone

-- A missing node may have faults below it, a piece that could not be parsed has none.
example : faults [] { kind := .program, start := 0, stop := 0, children := [
    { kind := .error, start := 0, stop := 0, missing := true, children := [
      { kind := .error, start := 0, stop := 0, children := [
        { kind := .identifier, start := 0, stop := 0, missing := true }] }] }] } =
    [.missing "ERROR" ⟨0, 0⟩, .unexpected ⟨0, 0⟩] := by
  decide +kernel

end Node

end Seams
