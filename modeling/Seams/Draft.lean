import Seams.Failure
import Seams.Tree.Node

/-!
# Drafts: a module with edits on it

A module is never printed from its tree. Every change is an edit against byte offsets of the
source, and rendering splices all edits in one go, so whatever no edit touches stays as it was.

At one offset, texts that were prepended come first, the latest of them ahead; then the texts that
were inserted, in the order in which they came; then a replacement that begins there. Replacements
must not overlap.

## Main definitions

* `Edit`, `Draft` — an edit, and a source with the edits made so far
* `Draft.replace`, `Draft.insert`, `Draft.prepend`, `Draft.append` — making an edit
* `Draft.render` — the text that results
-/

namespace Seams

/-- Bytes from `start` up to `stop` give way to `text`. -/
structure Edit where
  start : Nat
  stop : Nat
  text : String
  /-- The rank among the edits at one offset. -/
  order : Int
  deriving DecidableEq, Repr

namespace Edit

/-- Whether the edit only adds text. -/
def isInsertion (edit : Edit) : Bool :=
  edit.start == edit.stop

/-- Whether an edit is rendered no later than another: the one that begins earlier comes first, at
one offset insertions come before replacements, and then the rank decides. -/
def precedes (a b : Edit) : Bool :=
  if a.start != b.start then a.start < b.start
  else if a.isInsertion != b.isInsertion then a.isInsertion
  else a.order ≤ b.order

end Edit

/-- The source of a module and the edits made so far, in the order in which they were made. -/
structure Draft where
  source : List UInt8
  edits : List Edit := []
  deriving DecidableEq, Repr

namespace Draft

/-! ### Making edits -/

/-- The number of edits made so far. -/
def editCount (draft : Draft) : Nat :=
  draft.edits.length

/-- The rank of the next edit. -/
def nextOrder (draft : Draft) : Int :=
  draft.edits.length + 1

/-- Replace the bytes from `start` up to `stop`. -/
def replace (draft : Draft) (start stop : Int) (text : String) : Except Failure Draft :=
  if 0 ≤ start ∧ start ≤ stop ∧ stop ≤ draft.source.length then
    .ok { draft with
      edits := draft.edits ++ [⟨start.toNat, stop.toNat, text, draft.nextOrder⟩] }
  else .error (.rangeOutside start stop draft.source.length)

/-- Insert a text at an offset, after what was inserted there before. -/
def insert (draft : Draft) (offset : Int) (text : String) : Except Failure Draft :=
  draft.replace offset offset text

/-- Insert a text at an offset, ahead of what was inserted there before. -/
def prepend (draft : Draft) (offset : Int) (text : String) : Except Failure Draft :=
  if 0 ≤ offset ∧ offset ≤ draft.source.length then
    .ok { draft with
      edits := draft.edits ++ [⟨offset.toNat, offset.toNat, text, -draft.nextOrder⟩] }
  else .error (.offsetOutside offset draft.source.length)

/-- Insert a text at the end. -/
def append (draft : Draft) (text : String) : Except Failure Draft :=
  draft.insert draft.source.length text

/-- Replace what a node covers. -/
def replaceNode (draft : Draft) (node : Node) (text : String) : Except Failure Draft :=
  draft.replace node.start node.stop text

/-! ### Reading the source -/

/-- The source text that a node covers. -/
def slice (draft : Draft) (node : Node) : Except Failure String :=
  readText (node.bytes draft.source)

/-! ### Rendering -/

/-- Splice edits that are in rendering order into the source, of which `reached` bytes are used
up. -/
def splice (source : List UInt8) : Nat → List Edit → Except Failure (List UInt8)
  | reached, [] => .ok (source.drop reached)
  | reached, edit :: rest =>
    if edit.start < reached then .error (.overlap edit.start reached)
    else do
      let after ← splice source edit.stop rest
      return Text.slice source reached edit.start ++ Text.encode edit.text ++ after

/-- The bytes of the edited source. -/
def renderBytes (draft : Draft) : Except Failure (List UInt8) :=
  splice draft.source 0 (draft.edits.mergeSort Edit.precedes)

/-- The text of the edited source. -/
def render (draft : Draft) : Except Failure String := do
  readText (← draft.renderBytes)

end Draft

end Seams
