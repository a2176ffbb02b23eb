import Seams.Log.Level
import Seams.Table

/-!
# Loggers

A registry of loggers with dotted names. A logger below another one hands its records on, unless
told not to, and takes its level from above if it has none. The root logger stands above all. A
logger is set up with a handler that writes to the console, and with one that writes to a file if
a file is given; a logger that is merely asked for gets a console handler only if nothing above it
has one.

A logger exists from the time it is first asked for by its exact name, even if the request fails.

## Main definitions

* `LogFile`, `Handler`, `Logger`, `Registry` — the loggers and what they write to
* `Registry.setup`, `Registry.obtain` — setting a logger up, and asking for one
* `Registry.setLevel`, `Registry.addConsole`, `Registry.addFile` — changing a logger
* `Registry.log` — logging a record
-/

namespace Seams

/-! ### Loggers and handlers -/

/-- The size in bytes at which a log file is closed and a new one begun. -/
def Handler.fileSizeLimit : Nat := 10 * 1024 * 1024

/-- How many full log files are kept. -/
def Handler.backupCount : Nat := 5

/-- A log file, with the limits it is kept to. -/
structure LogFile where
  path : String
  sizeLimit : Nat := Handler.fileSizeLimit
  backups : Nat := Handler.backupCount
  deriving DecidableEq, Repr

/-- A log file goes by its path. -/
instance : Coe LogFile String := ⟨LogFile.path⟩

/-- Where records of some level or above are written. -/
inductive Handler where
  | console (level : Level)
  | file (level : Level) (file : LogFile)
  deriving DecidableEq, Repr

namespace Handler

/-- The lowest level that a handler writes. -/
def level : Handler → Level
  | console level => level
  | file level _ => level

/-- Whether a handler writes to the console. -/
def isConsole : Handler → Bool
  | console _ => true
  | file .. => false

end Handler

/-- A logger: its level, if it has one of its own, its handlers in the order in which they were
added, and whether it hands records on to the logger above. -/
structure Logger where
  level : Option Level := none
  handlers : List Handler := []
  propagates : Bool := true
  deriving DecidableEq, Repr

/-- All loggers, and the contents of the log files: every line that was written to a path, since
closing a file that has reached its limit, and beginning a new one, is left out. -/
structure Registry where
  root : Logger := { level := some .warning }
  loggers : Table Logger := .empty
  files : Table String := .empty
  deriving DecidableEq, Repr

/-- A level was asked for that there is not. -/
structure UnknownLevel where
  name : String
  deriving DecidableEq, Repr

/-- The complaint about a level that there is not. -/
def UnknownLevel.message (error : UnknownLevel) : String :=
  s!"Invalid log level: {error.name}. " ++
    "Must be one of ['DEBUG', 'INFO', 'WARNING', 'ERROR', 'CRITICAL']"

/-- The level with a given name. -/
def Level.parse (name : String) : Except UnknownLevel Level :=
  match Level.ofName? name with
  | some level => .ok level
  | none => .error ⟨name⟩

/-! ### Dotted names -/

/-- The names above one that is given back to front, the nearest first: what stands before its last
dot, and so on as long as that is not empty. -/
def namesAboveReversed (name : List Char) : List String :=
  match _h : name.dropWhile (· != '.') with
  | _ :: c :: rest => String.ofList (c :: rest).reverse :: namesAboveReversed (c :: rest)
  | _ => []
termination_by name.length
decreasing_by
  have := (List.dropWhile_sublist (l := name) (· != '.')).length_le
  simp only [_h, List.length_cons] at this ⊢
  omega

/-- The names above a dotted name, the nearest first. -/
def namesAbove (name : String) : List String :=
  namesAboveReversed name.toList.reverse

namespace Registry

/-! ### Finding loggers -/

/-- The name of the root logger. -/
def rootName : String := "root"

/-- Whether a name is that of the root logger, which also goes without a name. -/
def isRoot (name : String) : Bool :=
  name == "" || name == rootName

/-- The name a logger knows itself by. -/
def properName (name : String) : String :=
  if isRoot name then rootName else name

/-- The logger of a name; one that does not exist yet is blank. -/
def logger (registry : Registry) (name : String) : Logger :=
  if isRoot name then registry.root else (registry.loggers.get? name).getD {}

/-- The registry with a logger changed, which exists from then on. -/
def modify (registry : Registry) (name : String) (change : Logger → Logger) : Registry :=
  if isRoot name then { registry with root := change registry.root }
  else { registry with loggers := registry.loggers.insert name (change (registry.logger name)) }

/-- The registry in which a logger exists. -/
def demand (registry : Registry) (name : String) : Registry :=
  registry.modify name id

/-- The loggers above one whose name is given back to front, the nearest first and the root left
out. Above a logger stands the nearest one that exists among those named by what is in front of a
dot; of two dots in a row only the last one counts for this.

A new logger takes over those below it that were there before. The library that keeps the loggers
slips here for the names that begin the name of the root, which are `r`, `ro` and `roo`: loggers
that hung on the root stay there, past the new one. This is left out, so that these names are like
any others. -/
def loggersAbove (registry : Registry) (name : List Char) : List Logger :=
  match _h : name.dropWhile (· != '.') with
  | _ :: c :: rest =>
    match registry.loggers.get? (String.ofList (c :: rest).reverse) with
    | some logger => logger :: registry.loggersAbove (c :: rest)
    | none => registry.loggersAbove rest
  | _ => []
termination_by name.length
decreasing_by
  all_goals
    have := (List.dropWhile_sublist (l := name) (· != '.')).length_le
    simp only [_h, List.length_cons] at this ⊢
    omega

/-- The loggers from one up to the root. -/
def chain (registry : Registry) (name : String) : List Logger :=
  if isRoot name then [registry.root]
  else registry.logger name :: registry.loggersAbove name.toList.reverse ++ [registry.root]

/-- The loggers of a chain that a record reaches: up to the first one that hands nothing on. -/
def reached : List Logger → List Logger
  | [] => []
  | logger :: rest => logger :: if logger.propagates then reached rest else []

/-- The handlers that a record of a logger reaches. -/
def reachedHandlers (registry : Registry) (name : String) : List Handler :=
  (reached (registry.chain name)).flatMap Logger.handlers

/-! ### Changing a logger -/

/-- The outcome of a request: the registry afterwards, and an error if the request failed. -/
abbrev Answer (α : Type) := Registry × Except UnknownLevel α

/-- Have a logger report from a level on. -/
def setLevel (registry : Registry) (name level : String) : Answer Unit :=
  let registry := registry.demand name
  match Level.parse level with
  | .error error => (registry, .error error)
  | .ok level => (registry.modify name fun logger => { logger with level := some level }, .ok ())

/-- Add a handler to a logger. -/
def addHandler (registry : Registry) (name : String) (handler : Handler) : Registry :=
  registry.modify name fun logger => { logger with handlers := logger.handlers ++ [handler] }

/-- Add a handler that writes to the console. -/
def addConsole (registry : Registry) (name : String) (level : String := "INFO") : Answer Unit :=
  let registry := registry.demand name
  match Level.parse level with
  | .error error => (registry, .error error)
  | .ok level => (registry.addHandler name (.console level), .ok ())

/-- The registry in which a log file exists. -/
def createFile (registry : Registry) (path : String) : Registry :=
  if registry.files.contains path then registry
  else { registry with files := registry.files.insert path "" }

/-- Add a handler that writes to a file, which exists from then on. -/
def addFile (registry : Registry) (name path : String) (level : String := "DEBUG") : Answer Unit :=
  let registry := registry.demand name
  match Level.parse level with
  | .error error => (registry, .error error)
  | .ok level => ((registry.createFile path).addHandler name (.file level { path }), .ok ())

/-- Say whether a logger hands records on. -/
def setPropagates (registry : Registry) (name : String) (value : Bool) : Registry :=
  registry.modify name fun logger => { logger with propagates := value }

/-! ### The loggers after a change -/

theorem properName_of_isRoot {name : String} (h : isRoot name = true) :
    properName name = rootName :=
  if_pos h

theorem properName_of_not_isRoot {name : String} (h : ¬isRoot name = true) :
    properName name = name :=
  if_neg h

theorem isRoot_iff {name : String} : isRoot name = true ↔ properName name = rootName := by
  refine ⟨properName_of_isRoot, fun hproper => ?_⟩
  by_cases h : isRoot name = true
  · exact h
  · rw [properName_of_not_isRoot h] at hproper
    simp [isRoot, hproper]

@[simp] theorem isRoot_rootName : isRoot rootName = true := rfl

/-- A logger is the same under its own name. -/
theorem logger_properName (registry : Registry) (name : String) :
    registry.logger (properName name) = registry.logger name := by
  by_cases h : isRoot name = true
  · rw [properName_of_isRoot h, logger, logger, if_pos isRoot_rootName, if_pos h]
  · rw [properName_of_not_isRoot h]

theorem logger_congr {name other : String} (h : properName name = properName other)
    (registry : Registry) : registry.logger name = registry.logger other := by
  rw [← logger_properName, h, logger_properName]

theorem logger_modify (registry : Registry) (name other : String) (change : Logger → Logger) :
    (registry.modify name change).logger other =
      if properName other = properName name then change (registry.logger name)
      else registry.logger other := by
  by_cases hname : isRoot name = true
  · by_cases hother : isRoot other = true
    · rw [if_pos ((properName_of_isRoot hother).trans (properName_of_isRoot hname).symm)]
      simp [modify, logger, hname, hother]
    · have hne : properName other ≠ properName name := by
        rw [properName_of_isRoot hname]
        exact mt isRoot_iff.mpr hother
      rw [if_neg hne]
      simp [modify, logger, hname, hother]
  · rw [properName_of_not_isRoot hname]
    by_cases hother : isRoot other = true
    · have hne : properName other ≠ name := by
        rw [properName_of_isRoot hother]
        rintro rfl
        exact hname isRoot_rootName
      rw [if_neg hne]
      simp [modify, logger, hname, hother]
    · rw [properName_of_not_isRoot hother]
      simp only [modify, logger, hname, hother, Table.get?_insert, if_false, Bool.false_eq_true]
      split <;> simp_all

@[simp] theorem logger_demand (registry : Registry) (name : String) :
    (registry.demand name).logger = registry.logger := by
  funext other
  rw [demand, logger_modify]
  split
  · rename_i heq
    exact logger_congr heq.symm registry
  · rfl

/-- Two changes of a logger in a row are one. -/
theorem modify_modify (registry : Registry) (name : String) (first second : Logger → Logger) :
    (registry.modify name first).modify name second = registry.modify name (second ∘ first) := by
  have hlogger : (registry.modify name first).logger name = first (registry.logger name) := by
    rw [logger_modify, if_pos rfl]
  by_cases h : isRoot name = true
  · simp [modify, h]
  · rw [modify, if_neg h, hlogger]
    simp [modify, h, Table.insert_insert]

/-! ### Setting up and asking for loggers -/

/-- Set a logger up: give it a level, a console handler of that level unless it has one, and a
handler for a file, if one is given, unless it has one. -/
def setup (registry : Registry) (name : String) (level : String := "INFO")
    (file : Option String := none) : Answer String :=
  match registry.setLevel name level with
  | (registry, .error error) => (registry, .error error)
  | (registry, .ok ()) =>
    let handlers := (registry.logger name).handlers
    let registry :=
      if handlers.any Handler.isConsole then registry else (registry.addConsole name level).1
    let registry := match file with
      | some path =>
        if handlers.any (fun handler => !handler.isConsole) then registry
        else (registry.addFile name path).1
      | none => registry
    (registry, .ok (properName name))

/-- Ask for the loggers of some names in turn, until one has a handler of its own; tell whether
one had. -/
def searchHandlers (registry : Registry) : List String → Registry × Bool
  | [] => (registry, false)
  | name :: rest =>
    let registry := registry.demand name
    if (registry.logger name).handlers.isEmpty then registry.searchHandlers rest
    else (registry, true)

/-- Ask for a logger. It is set up if there is no handler that its records reach, none at a name
above it, and none at the root. -/
def obtain (registry : Registry) (name : String) : Answer String :=
  let registry := registry.demand name
  if (registry.reachedHandlers name).isEmpty then
    match registry.searchHandlers (namesAbove name) with
    | (registry, true) => (registry, .ok (properName name))
    | (registry, false) =>
      if registry.root.handlers.isEmpty then registry.setup name
      else (registry, .ok (properName name))
  else (registry, .ok (properName name))

/-! ### Logging -/

/-- The level from which on a logger reports: its own, or that of the nearest one above. -/
def effectiveRank (registry : Registry) (name : String) : Nat :=
  ((registry.chain name).findSome? Logger.level).elim 0 Level.rank

/-- A record as a file shows it, with marks for the time and the place in the program. -/
def fileLine (name : String) (level : Level) (text : String) : String :=
  s!"<time> - {name} - {level.name} - <where> - {text}\n"

/-- A record as the console shows it. -/
def consoleLine (level : Level) (text : String) : String :=
  s!"{level.name}: {text}\n"

/-- The registry with a line added to a log file. -/
def appendFile (registry : Registry) (path line : String) : Registry :=
  { registry with
    files := registry.files.insert path ((registry.files.get? path).getD "" ++ line) }

/-- Pass a record to a handler; the answer has what the console shows. -/
def write (name : String) (level : Level) (text : String) (state : Registry × String)
    (handler : Handler) : Registry × String :=
  if level.rank < handler.level.rank then state
  else
    match handler with
    | .console _ => (state.1, state.2 ++ consoleLine level text)
    | .file _ file => (state.1.appendFile file (fileLine (properName name) level text), state.2)

/-- Log a record; the answer has what the console shows. Where no handler is reached, warnings and
what is more urgent are shown bare. -/
def log (registry : Registry) (name : String) (level : Level) (text : String) :
    Registry × String :=
  let registry := registry.demand name
  if level.rank < registry.effectiveRank name then (registry, "")
  else
    match registry.reachedHandlers name with
    | [] => (registry, if Level.warning.rank ≤ level.rank then text ++ "\n" else "")
    | handlers => handlers.foldl (write name level text) (registry, "")

end Registry

end Seams
