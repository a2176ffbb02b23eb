import Seams.Log.Level
import Seams.Text.Shown

/-!
# What is logged while a module is opened

Each step of the work that is worth a log record is an event. An event knows the logger that
reports it, its level and its words.

## Main definitions

* `Event` — the events
* `Event.logger`, `Event.level`, `Event.message` — the record of an event
-/

namespace Seams

/-- Something that happened while a module was opened. -/
inductive Event where
  | optionsChecked (unsafeConst : Bool)
  | openerReady (unsafeConst : Bool)
  | parsed (statements : Nat)
  | syntaxFault (message : String)
  | scopeBuilt (bindings identifiers : Nat)
  | constWeakened (name : String)
  | nameInUse (name : String)
  | exportFound (name localName : String)
  | importFound (name localName : String)
  | exportRepeated (name localName : String)
  | overrideImportKept (name : String)
  | reexportKept
  | constantsKept (names : List String)
  | stringSpecifierKept (text : String)
  | unboundSpecifierKept (name : String)
  | rendered (edits : Nat)
  | nothingFound
  | overridesMade (exports imports : Nat) (restore : String)
  | opened (exports imports : Nat)
  | failed (message : String)
  deriving DecidableEq, Repr

namespace Event

/-- The logger that reports an event. -/
def logger : Event → String
  | optionsChecked .. => "jsrewire.core.config"
  | openerReady .. | parsed .. | syntaxFault .. => "jsrewire.processors.js_processor"
  | scopeBuilt .. | constWeakened .. => "jsrewire.core.scope"
  | nameInUse .. => "jsrewire.core.identifier_allocator"
  | exportFound .. | importFound .. | exportRepeated .. => "jsrewire.core.module_state"
  | overrideImportKept .. => "jsrewire.processors.import_interceptor"
  | reexportKept | constantsKept .. | stringSpecifierKept .. | unboundSpecifierKept .. =>
    "jsrewire.processors.export_normalizer"
  | rendered .. => "jsrewire.processors.source_editor"
  | nothingFound | overridesMade .. => "jsrewire.processors.stub_synthesizer"
  | opened .. | failed .. => "jsrewire.processors.rewire_transformer"

/-- The level at which an event is reported. -/
def level : Event → Level
  | syntaxFault .. | failed .. => .error
  | opened .. => .info
  | _ => .debug

/-- A switch as a message shows it. -/
def shownSwitch (value : Bool) : String :=
  if value then "True" else "False"

/-- An event in words. -/
def message : Event → String
  | optionsChecked value => s!"Configuration validated (unsafe_const={shownSwitch value})"
  | openerReady value => s!"JavaScriptProcessor initialized (unsafe_const={shownSwitch value})"
  | parsed statements => s!"Parsed {statements} top-level statements"
  | syntaxFault message => message
  | scopeBuilt bindings identifiers =>
    s!"Module scope built: {bindings} bindings, {identifiers} identifiers"
  | constWeakened name => s!"Weakened const declaration of '{name}' to let"
  | nameInUse name => s!"Generated name '{name}' already bound, disambiguating"
  | exportFound name localName => s!"Registered export '{name}' -> '{localName}'"
  | importFound name localName => s!"Registered import '{name}' (alias '{localName}')"
  | exportRepeated name localName => s!"Dropping duplicate export '{name}' -> '{localName}'"
  | overrideImportKept name => s!"Not intercepting override function import '{name}'"
  | reexportKept => "Skipping re-export with explicit source"
  | constantsKept names => s!"Leaving constant export(s) {Text.showNames names} untouched"
  | stringSpecifierKept text => s!"Skipping string-named export specifier: {text}"
  | unboundSpecifierKept name => s!"No binding for exported name '{name}', skipping"
  | rendered edits => s!"Rendered {edits} edits"
  | nothingFound => "No exports or imports registered, nothing to synthesize"
  | overridesMade exports imports restore =>
    s!"Synthesized {exports} export and {imports} import override(s), restore as '{restore}'"
  | opened exports imports => s!"Rewired module: {exports} export(s), {imports} import(s)"
  | failed message => message

end Event

end Seams
