import Seams.Code.Override
import Seams.Opening.Imports
import Seams.Opening.Exports

/-!
# Adding the override functions

Once every statement has been worked on, the module gets its override functions. The handler table
goes to the very top. Everything else goes to the end: the variables that keep the values at
start-up, the override functions of exports and imports, the function that undoes them all, and
the runtime. A module without exports and imports gets nothing.

## Main definitions

* `Overrides` — the functions that a module got
* `OverridePlan`, `OverridePlan.code` — the names of all that is added, and the code
* `Workbench.assignSlots`, `Workbench.nameExport`, `Workbench.nameImport` — naming
* `Workbench.planOverrides`, `Workbench.addOverrides` — adding the functions
-/

namespace Seams

/-- The override functions of an opened module by exported and by imported name, and the function
that undoes them. -/
structure Overrides where
  exports : Table String := .empty
  imports : Table String := .empty
  restore : Option String := none
  deriving DecidableEq, Repr

/-- The names of all that is added to a module that has exports or imports. -/
structure OverridePlan where
  /-- The exports that count, with their slots, each with the name of its function. -/
  exports : List (Export × String)
  /-- The imports, each with the name of its function. -/
  imports : List (Import × String)
  /-- The parameter of every function. -/
  parameter : String
  /-- The function that undoes the others. -/
  restore : String
  deriving DecidableEq, Repr

namespace OverridePlan

/-- The code that goes to the end of the module. -/
def code (plan : OverridePlan) (names : RuntimeNames) : String :=
  let exports := plan.exports.map Prod.fst
  let imports := plan.imports.map Prod.fst
  let captures := if exports.isEmpty then [] else [captureCode exports]
  let body := captures ++
    plan.exports.map (fun (entry, name) =>
      exportOverrideCode name entry.localName plan.parameter) ++
    plan.imports.map (fun (entry, name) => importOverrideCode name entry plan.parameter names) ++
    [restoreCode plan.restore exports imports names, names.helpersCode]
  "\n" ++ joinLines body ++ "\n"

/-- The functions by exported and by imported name. -/
def overrides (plan : OverridePlan) : Overrides where
  exports := .ofList (plan.exports.map fun (entry, name) => (entry.name, name))
  imports := .ofList (plan.imports.map fun (entry, name) => (entry.name, name))
  restore := some plan.restore

end OverridePlan

namespace Workbench

/-! ### Names for what is added -/

/-- Give exports their slots in turn. -/
def assignSlots (bench : Workbench) : List Export → List Export × Workbench
  | [] => ([], bench)
  | entry :: rest =>
    let (slot, bench) := bench.fresh entry.name
    let bench := { bench with inventory := bench.inventory.setSlot entry.name slot }
    let (entries, bench) := bench.assignSlots rest
    ({ entry with slot := some slot } :: entries, bench)

/-- The name of the override function of an export. -/
def nameExport (bench : Workbench) (entry : Export) : Traced (String × Workbench) :=
  if entry.name = defaultName then
    bench.reserve "rewire" (some (overridePrefix ++ defaultName))
  else bench.reserve (overridePrefix ++ entry.name)

/-- The name of the override function of an import. -/
def nameImport (bench : Workbench) (entry : Import) : Traced (String × Workbench) :=
  bench.reserve (overridePrefix ++ entry.name)

/-- Entries in turn with the names of their override functions. -/
def nameAll {α : Type} (nameOne : Workbench → α → Traced (String × Workbench))
    (bench : Workbench) : List α → Traced (List (α × String) × Workbench)
  | [] => return ([], bench)
  | entry :: rest => do
    let (name, bench) ← nameOne bench entry
    let (named, bench) ← nameAll nameOne bench rest
    return ((entry, name) :: named, bench)

/-! ### Adding the functions -/

/-- Name the override functions of a module, the slots of its exports and the parameter. -/
def planOverrides (bench : Workbench) : Traced (OverridePlan × Workbench) := do
  Traced.noteAll (bench.inventory.repeatedExports.map fun entry =>
    .exportRepeated entry.name entry.localName)
  let (exports, bench) := bench.assignSlots bench.inventory.uniqueExports
  let imports := bench.inventory.imports
  let (parameter, bench) ← bench.reserve "$stub"
  let (namedExports, bench) ← nameAll nameExport bench exports
  let (namedImports, bench) ← nameAll nameImport bench imports
  let (restore, bench) ← bench.reserve "restore" (some "restore$rewire")
  return (⟨namedExports, namedImports, parameter, restore⟩, bench)

/-- Add the override functions of a module that has exports or imports. -/
def addFunctions (bench : Workbench) : Traced (Overrides × Workbench) := do
  let (plan, bench) ← bench.planOverrides
  let bench ← bench.prepend bench.runtime.tableCode
  let bench ← bench.edit (·.append (plan.code bench.runtime))
  let overrides := plan.overrides
  Traced.note (.overridesMade overrides.exports.size overrides.imports.size plan.restore)
  return (overrides, bench)

/-- Add the override functions of a module, if there is anything to override. -/
def addOverrides (bench : Workbench) : Traced (Overrides × Workbench) := do
  if bench.inventory.isEmpty then
    Traced.note .nothingFound
    return ({}, bench)
  bench.addFunctions

end Workbench

end Seams
