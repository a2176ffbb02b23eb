import Seams.Tree.Node

/-!
# Expressions that turn out to be patterns

Whether `{ a, b: [c] }` is a value or a pattern is known only when an assignment sign or an arrow
follows. Until then it is read as a value, and then turned into the pattern that it spells. A
shorthand with a default, as in `{ a = 1 }`, can only be part of a pattern.

## Main definitions

* `Node.isValue` — whether what was read can stand as a value
* `Node.asPattern?` — the pattern that a value spells
* `Node.asTarget?` — what an assignment can write to
-/

namespace Seams

/-- Object literals. -/
def Kind.object : Kind := .other "object"

/-- Array literals. -/
def Kind.array : Kind := .other "array"

/-- Properties with a key and a value. -/
def Kind.pair : Kind := .other "pair"

/-- What is spread in a literal or a call. -/
def Kind.spread : Kind := .other "spread_element"

/-- Assignments of a value as it is. -/
def Kind.assignment : Kind := .other "assignment_expression"

/-- Expressions between round brackets. -/
def Kind.parenthesized : Kind := .other "parenthesized_expression"

/-- The places other than plain variables that can be written to. -/
def Kind.places : List Kind :=
  [.other "member_expression", .other "subscript_expression", .other "undefined"]

namespace Node

/-! ### Values -/

mutual

/-- Whether what was read can stand as a value: no literal in it has a shorthand with a default. -/
def isValue : Node → Bool
  | ⟨kind, _, _, _, _, _, _, children⟩ =>
    if kind = .objectAssignmentPattern then false
    else if kind = .object || kind = .array || kind = .pair || kind = .spread then
      areValues children
    else true

/-- Whether everything in a list can stand as a value. -/
def areValues : List Node → Bool
  | [] => true
  | node :: rest => isValue node && areValues rest

end

/-! ### Patterns -/

/-- The kind of pattern that a kind of literal spells. -/
def patternKind? (kind : Kind) : Option Kind :=
  if kind = .object then some .objectPattern
  else if kind = .array then some .arrayPattern
  else if kind = .pair then some .pairPattern
  else if kind = .spread then some .restPattern
  else none

mutual

/-- The pattern that a value spells, if it spells one. -/
def asPattern? : Node → Option Node
  | node@⟨kind, start, stop, role, named, missing, textless, children⟩ =>
    if kind = .identifier || Kind.places.contains kind then some node
    else if kind = .objectAssignmentPattern || kind = .objectPattern || kind = .arrayPattern ||
        kind = .restPattern || kind = .parenthesized then some node
    else if kind = .shorthandProperty then some { node with kind := .shorthandPattern }
    else if kind = .assignment then some { node with kind := .assignmentPattern }
    else
      match patternKind? kind with
      | some patternKind =>
        (asPatterns? children).map (⟨patternKind, start, stop, role, named, missing, textless, ·⟩)
      | none => none

/-- The patterns that values spell, if all of them do. Only the value of a property has to. -/
def asPatterns? : List Node → Option (List Node)
  | [] => some []
  | node :: rest => do
    let pattern ← if node.role = some (.other "key") then some node else asPattern? node
    return pattern :: (← asPatterns? rest)

end

/-- What an assignment to a value writes to, if the value is assignable. -/
def asTarget? (node : Node) : Option Node :=
  if node.kind = .assignment || node.kind = .spread then none else node.asPattern?

/-- Whether a value can be changed in place: a variable, a member, or either in brackets. -/
def isSimpleTarget (node : Node) : Bool :=
  node.kind == .identifier || Kind.places.contains node.kind || node.kind == .parenthesized

end Node

end Seams
