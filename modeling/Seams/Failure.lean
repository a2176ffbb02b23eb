import Seams.Text.Utf8

/-!
# Why a module cannot be opened

The causes for which work on one module stops: edits that do not fit the module or each other,
nodes without text, and declarations that lack the part the work needs.

## Main definitions

* `Failure` — the causes
* `Failure.category`, `Failure.message` — their report
-/

namespace Seams

/-- Why work on a module stopped. -/
inductive Failure where
  /-- The range of an edit does not lie in the module. -/
  | rangeOutside (start stop : Int) (size : Nat)
  /-- The place of an insertion does not lie in the module. -/
  | offsetOutside (offset : Int) (size : Nat)
  /-- An edit begins in what an earlier one has replaced. -/
  | overlap (start reached : Nat)
  /-- The bytes of a node, or of the edited module, are no text. -/
  | undecodable (fault : Text.Fault)
  /-- A node whose text is needed has none. -/
  | textless (kind : String)
  /-- An exported function or class has no name. -/
  | nameless
  /-- An export specifier names nothing. -/
  | emptySpecifier
  deriving DecidableEq, Repr

/-- The category under which a failure is reported. -/
def Failure.category : Failure → String
  | .rangeOutside .. | .offsetOutside .. | .overlap .. => "ValueError"
  | .undecodable .. => "UnicodeDecodeError"
  | .textless .. => "RewireError"
  | .nameless => "AttributeError"
  | .emptySpecifier => "IndexError"

/-- A failure in words. -/
def Failure.message : Failure → String
  | .rangeOutside start stop size => s!"Edit range {start}:{stop} outside source of {size} bytes"
  | .offsetOutside offset size => s!"Offset {offset} outside source of {size} bytes"
  | .overlap start reached =>
    s!"Overlapping edits at byte {start} (already consumed up to {reached})"
  | .undecodable fault => fault.message
  | .textless kind => s!"No source text available for {kind} node"
  | .nameless => "'NoneType' object has no attribute 'text'"
  | .emptySpecifier => "list index out of range"

/-- The text of bytes, or the failure to read them. -/
def readText (bytes : List UInt8) : Except Failure String :=
  (Text.decode bytes).mapError .undecodable

end Seams
