import Seams.Proofs.Subtree

/-!
# Variables of blocks by recursion

The variables that the blocks of a statement declare by `var` are looked for by a loop. It keeps the
trees still to visit on a stack, takes the one on top, and puts its children there in reverse, so
that the first of them is taken next. The bodies of functions and classes are cut off. The variables
can be told by a plain recursion over the tree as well, which knows of no stack.

The two agree because a turn of the loop leaves one list as it is: what was found so far, followed
by the variables of the trees on the stack, from the top downwards. The loop ends because a turn
takes at least one node off the stack for good, so there are no more turns than nodes in the tree.

## Main definitions

* `Node.blockVars` — the variables of a tree, by recursion
* `BlockWalk`, `BlockWalk.turn?` — the loop and one turn of it
* `BlockWalk.outcome` — what the loop comes to

## Main results

* `Node.blockVars_eq` — the recursion, as one equation
* `Node.nestedVarsOf_eq_flatMap` — the variables of a list of trees are those of each tree in turn
* `BlockWalk.outcome_turn?`, `BlockWalk.load_turn?` — what a turn keeps, and that it gets somewhere
* `BlockWalk.exists_turns?` — the loop ends, and with what
* `Node.nestedVars_eq_blockVars` — the loop, the walk and the recursion give the same list
-/

namespace Seams

namespace Node

/-! ### The recursion -/

/-- The identifiers that the head of a loop over the members of something declares, if it declares
them by `var`. -/
def loopVars (loop : Node) : List Node :=
  if (loop.child? .kind).map Node.kind = some .keywordVar then
    ((loop.child? .left).map binders).getD []
  else []

mutual

/-- The identifiers declared by `var` at or below a node: none where `var` does not reach outside,
and otherwise those of the node itself, followed by those of its named children in order. -/
def blockVars : Node → List Node
  | node@⟨kind, _, _, _, _, _, _, children⟩ =>
    if kind.opensVarScope then []
    else
      (if kind = .variableDeclaration then node.declared
        else if kind = .forInStatement then node.loopVars
        else []) ++ blockVarsOfNamed children

/-- The identifiers declared by `var` at or below the named nodes of a list. -/
def blockVarsOfNamed : List Node → List Node
  | [] => []
  | child :: rest => (if child.named then blockVars child else []) ++ blockVarsOfNamed rest

end

theorem blockVarsOfNamed_eq (nodes : List Node) :
    blockVarsOfNamed nodes = (nodes.filter Node.named).flatMap blockVars := by
  induction nodes with
  | nil => rfl
  | cons node rest ih => by_cases h : node.named <;> simp [blockVarsOfNamed, h, ih]

/-- What a node declares itself, by its kind. -/
theorem ownVars_eq (node : Node) : node.ownVars =
    if node.kind = .variableDeclaration then node.declared
    else if node.kind = .forInStatement then node.loopVars
    else [] := by
  rw [ownVars, loopVars]
  cases node.kind
  case forInStatement => cases node.child? .kind <;> cases node.child? .left <;> simp
  all_goals rfl

/-- The recursion, as one equation. -/
theorem blockVars_eq (node : Node) : node.blockVars =
    if node.kind.opensVarScope then []
    else node.ownVars ++ node.namedChildren.flatMap blockVars := by
  rw [ownVars_eq]
  obtain ⟨kind, start, stop, role, named, missing, textless, children⟩ := node
  rw [blockVars, blockVarsOfNamed_eq]
  rfl

theorem blockVars_of_opensVarScope {node : Node} (h : node.kind.opensVarScope = true) :
    node.blockVars = [] := by
  rw [blockVars_eq, if_pos h]

theorem blockVars_of_not_opensVarScope {node : Node} (h : node.kind.opensVarScope = false) :
    node.blockVars = node.ownVars ++ node.namedChildren.flatMap blockVars := by
  rw [blockVars_eq, if_neg (by simpa using h)]

/-- **The walk through a list of trees** finds the variables of each tree in turn. -/
theorem nestedVarsOf_eq_flatMap (pending : List Node) :
    nestedVarsOf pending = pending.flatMap blockVars := by
  fun_induction nestedVarsOf pending with
  | case1 => rfl
  | case2 node rest hscope ih =>
    rw [List.flatMap_cons, blockVars_of_opensVarScope hscope, List.nil_append, ih]
  | case3 node rest hscope ih =>
    rw [Bool.not_eq_true] at hscope
    rw [List.flatMap_cons, blockVars_of_not_opensVarScope hscope, ih, List.flatMap_append,
      List.append_assoc]

theorem sizeAll_reverse (nodes : List Node) : sizeAll nodes.reverse = sizeAll nodes := by
  induction nodes with
  | nil => rfl
  | cons node rest ih =>
    rw [List.reverse_cons, sizeAll_append, ih, sizeAll, sizeAll, sizeAll]
    omega

end Node

/-! ### The loop -/

/-- The loop that looks for the variables of blocks, in the middle of its work. -/
structure BlockWalk where
  /-- The trees still to visit, the one on top last. -/
  stack : List Node
  /-- The identifiers found so far. -/
  found : List Node

namespace BlockWalk

open Node

/-- The loop before its first turn. -/
def begun (statement : Node) : BlockWalk :=
  ⟨[statement], []⟩

/-- What a turn of the loop makes of the node on top, when the rest of the stack is given. -/
def visit (rest found : List Node) (node : Node) : BlockWalk :=
  if node.kind.opensVarScope then ⟨rest, found⟩
  else ⟨rest ++ node.namedChildren.reverse, found ++ node.ownVars⟩

/-- One turn of the loop, which is over when the stack is empty. -/
def turn? (walk : BlockWalk) : Option BlockWalk :=
  walk.stack.getLast?.map (visit walk.stack.dropLast walk.found)

/-- A number of turns, if the loop is not over before. -/
def turns? : Nat → BlockWalk → Option BlockWalk
  | 0, walk => some walk
  | count + 1, walk => walk.turn?.bind (turns? count)

/-- What is found in the end: what was found so far and the variables of the trees on the stack,
from the top downwards. -/
def outcome (walk : BlockWalk) : List Node :=
  walk.found ++ walk.stack.reverse.flatMap blockVars

/-- The number of nodes of the trees on the stack. -/
def load (walk : BlockWalk) : Nat :=
  sizeAll walk.stack

variable {walk next : BlockWalk}

theorem exists_of_turn? (h : walk.turn? = some next) :
    ∃ rest node, walk.stack = rest ++ [node] ∧ next = visit rest walk.found node := by
  obtain ⟨node, htop, rfl⟩ := Option.map_eq_some_iff.mp h
  obtain ⟨rest, hstack⟩ := List.getLast?_eq_some_iff.mp htop
  exact ⟨rest, node, hstack, by rw [hstack, List.dropLast_concat]⟩

/-- The loop is over only when the stack is empty. -/
theorem turn?_eq_none_iff : walk.turn? = none ↔ walk.stack = [] := by
  rw [turn?, Option.map_eq_none_iff, List.getLast?_eq_none_iff]

/-- **A turn does not change what is found in the end.** -/
theorem outcome_turn? (h : walk.turn? = some next) : next.outcome = walk.outcome := by
  obtain ⟨rest, node, hstack, rfl⟩ := exists_of_turn? h
  rw [outcome, outcome, hstack, List.reverse_append, List.reverse_singleton, List.singleton_append,
    List.flatMap_cons, visit]
  by_cases hscope : node.kind.opensVarScope = true
  · rw [if_pos hscope, blockVars_of_opensVarScope hscope, List.nil_append]
  · -- The children were put on the stack in reverse, so from the top they stand in their order.
    rw [if_neg hscope, blockVars_of_not_opensVarScope (by simpa using hscope), List.reverse_append,
      List.reverse_reverse, List.flatMap_append]
    simp only [List.append_assoc]

/-- **A turn takes at least one node off the stack.** -/
theorem load_turn? (h : walk.turn? = some next) : next.load < walk.load := by
  obtain ⟨rest, node, hstack, rfl⟩ := exists_of_turn? h
  have hnode := node.size_eq
  have hnamed : sizeAll node.namedChildren ≤ sizeAll node.children := sizeAll_filter_le _ _
  rw [load, load, hstack, sizeAll_append, sizeAll, sizeAll, visit]
  by_cases hscope : node.kind.opensVarScope = true
  · rw [if_pos hscope]
    change sizeAll rest < _
    omega
  · rw [if_neg hscope, sizeAll_append, sizeAll_reverse]
    omega

/-- **The loop ends**, after at most as many turns as there are nodes to visit, and has found by
then what it was to find. -/
theorem exists_turns? (walk : BlockWalk) :
    ∃ count ≤ walk.load, walk.turns? count = some ⟨[], walk.outcome⟩ := by
  induction hload : walk.load using Nat.strongRecOn generalizing walk with
  | ind load ih =>
    subst hload
    cases hturn : walk.turn? with
    | none =>
      obtain ⟨stack, found⟩ := walk
      obtain rfl : stack = [] := turn?_eq_none_iff.mp hturn
      exact ⟨0, Nat.zero_le _, by simp [turns?, outcome]⟩
    | some next =>
      have hless := load_turn? hturn
      obtain ⟨count, hcount, hturns⟩ := ih next.load hless next rfl
      refine ⟨count + 1, by omega, ?_⟩
      rw [turns?, hturn, Option.bind_some, hturns, outcome_turn? hturn]

end BlockWalk

namespace Node

/-- **The variables of the blocks of a statement** are those that the recursion gives, in the same
order. The loop over a stack finds this list too, and is over after at most as many turns as the
statement has nodes. -/
theorem nestedVars_eq_blockVars (statement : Node) :
    statement.nestedVars = statement.blockVars ∧
      ∃ count ≤ statement.size,
        (BlockWalk.begun statement).turns? count = some ⟨[], statement.blockVars⟩ := by
  have houtcome : (BlockWalk.begun statement).outcome = statement.blockVars := by
    simp [BlockWalk.begun, BlockWalk.outcome]
  have hload : (BlockWalk.begun statement).load = statement.size := by
    simp [BlockWalk.begun, BlockWalk.load, sizeAll]
  constructor
  · rw [nestedVars, nestedVarsOf_eq_flatMap, List.flatMap_singleton]
  · rw [← hload, ← houtcome]
    exact BlockWalk.exists_turns? _

-- `for (var a of b) { function c() { var d; } var e; }`
example : (blockVars { kind := .forInStatement, start := 0, stop := 51, children := [
    { kind := .keywordVar, start := 5, stop := 8, role := some .kind, named := false },
    { kind := .identifier, start := 9, stop := 10, role := some .left },
    { kind := .other "statement_block", start := 17, stop := 51, children := [
      { kind := .functionDeclaration, start := 19, stop := 42, children := [
        { kind := .variableDeclaration, start := 34, stop := 40, children := [
          { kind := .variableDeclarator, start := 38, stop := 39, children := [
            { kind := .identifier, start := 38, stop := 39, role := some .name }] }] }] },
      { kind := .variableDeclaration, start := 43, stop := 49, children := [
        { kind := .variableDeclarator, start := 47, stop := 48, children := [
          { kind := .identifier, start := 47, stop := 48, role := some .name }] }] }] }] }).map
      Node.start = [9, 47] := by
  decide

end Node

end Seams
