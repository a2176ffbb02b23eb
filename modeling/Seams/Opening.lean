import Seams.Opening.Overrides
import Seams.Tree.SyntaxFault

/-!
# Opening a module

An opened module behaves as before, until a test gives one of its exports or imports a new value
through the override functions that the module now exports as well. The statements are worked on
in the order of the module; those that neither import nor export stay as they are.

A module is opened from its source and its syntax tree. Nothing is printed from the tree: a module
without exports and imports comes out exactly as it was.

## Main definitions

* `Module`, `Opening` — what goes in and what comes out
* `Module.work`, `Module.opening` — opening a module, with the events and the failure, if it fails
* `Module.process` — the same for a tree that may have syntax faults
* `openModule` — the same for settings that may be wrong
-/

namespace Seams

/-- A module: its source text and the syntax tree of that text. -/
structure Module where
  source : String
  root : Node
  deriving Repr

/-- An opened module: its code, and the override functions it has. -/
structure Opening where
  code : String
  overrides : Overrides
  deriving DecidableEq, Repr

/-! ### Statement by statement -/

namespace Workbench

/-- Work on one top-level statement. -/
def visit (bench : Workbench) (statement : Node) : Traced Workbench :=
  match statement.kind with
  | .importStatement => bench.openImport statement
  | .exportStatement => bench.openExport statement
  | _ => return bench

/-- Work on top-level statements in turn. -/
def visitAll (bench : Workbench) : List Node → Traced Workbench
  | [] => return bench
  | statement :: rest => do (← bench.visit statement).visitAll rest

/-- The code that the edits lead to. Without edits that is the source itself. -/
def finalCode (bench : Workbench) (source : String) : Traced String := do
  if bench.draft.editCount = 0 then return source
  let bytes ← bench.draft.renderBytes
  Traced.note (.rendered bench.draft.editCount)
  readText bytes

end Workbench

namespace Module

/-- Work on all statements of a module and add the override functions. -/
def work (m : Module) (options : Options) : Traced (Overrides × Workbench) := do
  let bench ← Workbench.start options (Text.encode m.source) m.root
  let bench ← bench.visitAll m.root.namedChildren
  bench.addOverrides

/-- Open a module. -/
def opening (m : Module) (options : Options) : Traced Opening := do
  let (overrides, bench) ← m.work options
  let code ← bench.finalCode m.source
  Traced.note (.opened overrides.exports.size overrides.imports.size)
  return ⟨code, overrides⟩

end Module

/-! ### Outcomes -/

/-- What comes of a module. -/
inductive Outcome where
  | opened (opening : Opening)
  /-- The source has syntax faults. -/
  | unparsable (faults : List SyntaxFault)
  /-- The work on the module stopped. -/
  | failed (failure : Failure)
  deriving DecidableEq, Repr

/-- A failure in the words in which it is reported for a module. -/
def Failure.report (failure : Failure) : String :=
  s!"Transformation failed: {failure.category}: {failure.message}"

namespace Outcome

/-- Whether the module was opened. -/
def succeeded : Outcome → Bool
  | opened _ => true
  | _ => false

/-- The errors that are reported. -/
def errors : Outcome → List String
  | opened _ => []
  | unparsable faults => faults.map SyntaxFault.message
  | failed failure => [failure.report]

/-- The code of the opened module, empty if there is none. -/
def code : Outcome → String
  | opened opening => opening.code
  | _ => ""

/-- The override functions of the opened module, if there is one. -/
def overrides? : Outcome → Option Overrides
  | opened opening => some opening.overrides
  | _ => none

end Outcome

/-- What came of some work, with the events on the way. -/
structure Report (α : Type) where
  events : List Event
  outcome : α
  deriving Repr

namespace Module

/-- Open a module whose tree has no faults, and report what came of it. -/
def transform (m : Module) (options : Options) : Report Outcome :=
  let work := m.opening options
  match work.result with
  | .ok opening => ⟨work.events, .opened opening⟩
  | .error failure => ⟨work.events ++ [.failed failure.report], .failed failure⟩

/-- The syntax faults of a module that are reported. -/
def syntaxFaults (m : Module) : List SyntaxFault :=
  m.root.syntaxFaults (Text.encode m.source) Node.faultLimit

/-- Open a module, unless its tree has faults, and report what came of it. -/
def process (m : Module) (options : Options) : Report Outcome :=
  if m.root.hasError then
    let faults := m.syntaxFaults
    ⟨faults.map fun fault => .syntaxFault fault.message, .unparsable faults⟩
  else
    let report := m.transform options
    ⟨.parsed m.root.namedChildren.length :: report.events, report.outcome⟩

end Module

/-- Check settings before a run over modules, with the events of a run that begins. -/
def prepare (settings : Settings) : Except OptionError (Report Options) := do
  let options ← settings.validate
  return ⟨[.optionsChecked options.unsafeConst, .openerReady options.unsafeConst], options⟩

/-! ### Opening a single module -/

/-- Why a single module was not opened. -/
inductive OpeningError where
  | options (error : OptionError)
  | unparsable (faults : List SyntaxFault)
  | failed (failure : Failure)
  deriving DecidableEq, Repr

namespace OpeningError

/-- The reason in words. -/
def message : OpeningError → String
  | options error => error.message
  | unparsable _ => "Source contains syntax errors"
  | failed _ => "Rewiring failed"

/-- The errors behind the reason. -/
def details : OpeningError → List String
  | options _ => []
  | unparsable faults => faults.map SyntaxFault.message
  | failed failure => [failure.report]

end OpeningError

/-- The settings to use: given as a whole or else by name, but not both. -/
def chooseSettings (given : Option Settings) (named : Table Setting) :
    Except OptionError Settings :=
  match given with
  | none => Settings.ofTable named
  | some settings => if named.size = 0 then .ok settings else .error .givenTwice

/-- The code of an opened module, or why it was not opened. -/
def openModule (m : Module) (given : Option Settings) (named : Table Setting) :
    Except OpeningError String := do
  let settings ← (chooseSettings given named).mapError .options
  let options ← settings.validate.mapError .options
  match (m.process options).outcome with
  | .opened opening => .ok opening.code
  | .unparsable faults => .error (.unparsable faults)
  | .failed failure => .error (.failed failure)

end Seams
