import Seams.Table

/-!
# Options

How a module is opened can be set by options that come in as loose values. They are checked before
any module is touched: every name must be known, the version of the option format must be
supported, and the switch must be a boolean, in this order.

## Main definitions

* `Setting` — a loose value
* `Settings`, `Settings.ofTable` — the values of all options, and how they are gathered by name
* `Options`, `Settings.validate` — options that have been checked
* `OptionError` — what can be wrong with them
-/

namespace Seams

/-! ### Loose values -/

/-- A value given for an option. -/
inductive Setting where
  | absent
  | flag (value : Bool)
  | number (value : Int)
  | text (value : String)
  deriving DecidableEq, Repr

namespace Setting

/-- A value as a message shows it. -/
def shown : Setting → String
  | .absent => "None"
  | .flag true => "True"
  | .flag false => "False"
  | .number value => toString value
  | .text value => value

/-- Whether a value counts as switched on where it is used unchecked: every value does but false,
zero, the empty text and no value at all. -/
def isOn : Setting → Bool
  | .absent => false
  | .flag value => value
  | .number value => value != 0
  | .text value => value != ""

end Setting

/-- A value for each option. -/
structure Settings where
  /-- Whether constants may be made assignable. -/
  unsafeConst : Setting := .flag false
  /-- The version of the option format. -/
  version : Setting := .text "1.0"
  deriving DecidableEq, Repr

/-- Options that have been checked. -/
structure Options where
  /-- Whether constants may be made assignable. -/
  unsafeConst : Bool := false
  deriving DecidableEq, Repr

/-! ### What can be wrong -/

/-- Why options are refused. -/
inductive OptionError where
  | unknownName (name : String)
  | unsupportedVersion (version : Setting)
  | notBoolean
  /-- Options came both as checked settings and by name. -/
  | givenTwice
  deriving DecidableEq, Repr

/-- The reason in words. -/
def OptionError.message : OptionError → String
  | .unknownName name =>
    s!"Unknown option '{name}' in configuration. " ++
      "Valid options: ['unsafeConst', 'unsafe_const', 'version']"
  | .unsupportedVersion version =>
    s!"Invalid version: {version.shown}. Expected one of ['1.0']"
  | .notBoolean => "Option 'unsafe_const' must be a boolean"
  | .givenTwice => "Pass either a config or keyword options, not both"

namespace Settings

/-! ### Checking -/

/-- The one supported version of the option format. -/
def supportedVersion : Setting := .text "1.0"

/-- Check the values of all options. -/
def validate (settings : Settings) : Except OptionError Options :=
  if settings.version = supportedVersion then
    match settings.unsafeConst with
    | .flag value => .ok ⟨value⟩
    | _ => .error .notBoolean
  else .error (.unsupportedVersion settings.version)

/-! ### Gathering options by name -/

/-- The settings with the option of a given name set. The switch has two spellings. -/
def set (settings : Settings) (name : String) (value : Setting) : Except OptionError Settings :=
  if name = "unsafe_const" ∨ name = "unsafeConst" then .ok { settings with unsafeConst := value }
  else if name = "version" then .ok { settings with version := value }
  else .error (.unknownName name)

/-- The checked settings given by name; of two spellings of one option, the later one counts. -/
def ofTable (table : Table Setting) : Except OptionError Settings := do
  let settings ← table.entries.foldlM (fun settings entry => settings.set entry.1 entry.2) {}
  let _ ← settings.validate
  return settings

end Settings

end Seams
