import Seams.Code.Runtime
import Seams.Draft
import Seams.Inventory
import Seams.Log.Traced
import Seams.Names
import Seams.Options

/-!
# The workbench

All that changes while one module is opened: the draft, the names with their scope, and the
inventory. Each statement is worked on in turn, and each step takes a workbench to the next one.

## Main definitions

* `Workbench`, `Workbench.start` — the state of the work, and how it begins
* `Workbench.fresh`, `Workbench.reserve`, `Workbench.register` — names
* `Workbench.addExport`, `Workbench.addImport` — the inventory
* `Workbench.edit`, `Workbench.hoist`, `Workbench.prepend` — the draft
-/

namespace Seams

/-- The state of the work on one module. -/
structure Workbench where
  options : Options
  /-- The end of the hashbang line, if the module begins with one. -/
  hashbangEnd : Option Nat
  draft : Draft
  names : Names
  runtime : RuntimeNames := {}
  inventory : Inventory := {}
  deriving Repr

/-- The end of the hashbang line that a tree begins with. -/
def Node.hashbangEnd (root : Node) : Option Nat :=
  match root.children with
  | first :: _ => if first.kind = .hashbang then some first.stop else none
  | [] => none

namespace Workbench

/-! ### Names -/

/-- The scope of the module. -/
def scope (bench : Workbench) : Scope :=
  bench.names.scope

/-- The workbench with another scope. -/
def setScope (bench : Workbench) (scope : Scope) : Workbench :=
  { bench with names := { bench.names with scope } }

/-- Bind a name at the top level. -/
def register (bench : Workbench) (name : String) (kind : BindingKind) : Workbench :=
  bench.setScope (bench.scope.register name kind)

/-- Generate a fresh name. -/
def fresh (bench : Workbench) (base : String) : String × Workbench :=
  let (name, names) := bench.names.fresh base
  (name, { bench with names })

/-- Generate a name by choice. -/
def reserve (bench : Workbench) (preferred : String) (fallback : Option String := none) :
    Traced (String × Workbench) := do
  let reservation := bench.names.reserve preferred fallback
  Traced.noteAll (reservation.refused.map .nameInUse)
  return (reservation.name, { bench with names := reservation.names })

/-! ### The inventory -/

/-- Enter an export into the inventory. -/
def addExport (bench : Workbench) (name localName : String) : Traced Workbench := do
  Traced.note (.exportFound name localName)
  return { bench with inventory := bench.inventory.addExport name localName }

/-- Enter an import into the inventory. -/
def addImport (bench : Workbench) (name localName : String) : Traced Workbench := do
  Traced.note (.importFound name localName)
  return { bench with inventory := bench.inventory.addImport name localName }

/-! ### The draft -/

/-- The text of a node. -/
def text (bench : Workbench) (node : Node) : Except Failure String :=
  node.text bench.draft.source

/-- Make an edit. -/
def edit (bench : Workbench) (change : Draft → Except Failure Draft) :
    Except Failure Workbench := do
  return { bench with draft := ← change bench.draft }

/-- Replace what a node covers. -/
def replaceNode (bench : Workbench) (node : Node) (text : String) : Except Failure Workbench :=
  bench.edit (·.replaceNode node text)

/-- Insert a statement at the top of the module, after those hoisted before. -/
def hoist (bench : Workbench) (statement : String) : Except Failure Workbench :=
  bench.edit fun draft =>
    match bench.hashbangEnd with
    | some stop => draft.insert stop ("\n" ++ statement)
    | none => draft.insert 0 (statement ++ "\n")

/-- Insert a statement at the top of the module, ahead of all that were hoisted. -/
def prepend (bench : Workbench) (statement : String) : Except Failure Workbench :=
  bench.edit fun draft =>
    match bench.hashbangEnd with
    | some stop => draft.prepend stop ("\n" ++ statement)
    | none => draft.prepend 0 (statement ++ "\n")

/-! ### The beginning -/

/-- The workbench for a module, with its scope known and the names of the runtime reserved. -/
def start (options : Options) (source : List UInt8) (root : Node) : Traced Workbench := do
  let scope ← Scope.ofTree source root
  Traced.note (.scopeBuilt scope.bindings.size scope.references.length)
  let bench : Workbench := ⟨options, root.hashbangEnd, ⟨source, []⟩, ⟨scope, []⟩, {}, {}⟩
  let usual : RuntimeNames := {}
  let (handlerTable, bench) ← bench.reserve usual.handlerTable
  let (wrapFunction, bench) ← bench.reserve usual.wrapFunction
  let (applyFunction, bench) ← bench.reserve usual.applyFunction
  return { bench with runtime := ⟨handlerTable, wrapFunction, applyFunction⟩ }

end Workbench

end Seams
