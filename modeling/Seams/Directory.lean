import Seams.Table
import Seams.Text.Shown

/-!
# The directory of public names

The names that the packages make public, and where each of them is defined.

## Main definitions

* `Package`, `Directory.entries` — the packages and their public names
* `Directory.find` — looking a name up
-/

namespace Seams

/-- A package with public names. -/
inductive Package where
  | whole
  | processors
  deriving DecidableEq, Repr

/-- The full name of a package. -/
def Package.name : Package → String
  | .whole => "jsrewire"
  | .processors => "jsrewire.processors"

namespace Directory

/-- What a public name stands for. -/
inductive Entry where
  /-- Something defined in a module of the package. -/
  | definition (home name : String)
  /-- A text. -/
  | text (value : String)
  deriving DecidableEq, Repr

/-- A package has no such public name. -/
structure UnknownName where
  package : Package
  name : String
  deriving DecidableEq, Repr

/-- The complaint about a name that is not public. -/
def UnknownName.message (error : UnknownName) : String :=
  s!"module '{error.package.name}' has no attribute {Text.showName error.name}"

/-- The public names of the package as a whole. -/
def wholeEntries : Table Entry := .ofList [
  ("RewireConfig", .definition "jsrewire.core.config" "RewireConfig"),
  ("RewireError", .definition "jsrewire.core.errors" "RewireError"),
  ("SourceParseError", .definition "jsrewire.core.errors" "SourceParseError"),
  ("JavaScriptProcessor", .definition "jsrewire.processors.js_processor" "JavaScriptProcessor"),
  ("rewire", .definition "jsrewire.processors.js_processor" "rewire"),
  ("__version__", .text "1.0.0")]

/-- The public names of the processors. -/
def processorEntries : Table Entry :=
  let home (place : String) (name : String) :=
    (name, Entry.definition s!"jsrewire.processors.{place}" name)
  .ofList [
    home "js_processor" "JavaScriptProcessor",
    home "js_processor" "ParseResult",
    home "js_processor" "GenerateResult",
    home "js_processor" "rewire",
    home "rewire_transformer" "RewireTransformer",
    home "rewire_transformer" "TransformResult",
    home "rewire_context" "RewireContext",
    home "export_normalizer" "ExportNormalizer",
    home "import_interceptor" "ImportInterceptor",
    home "stub_synthesizer" "StubSynthesizer",
    home "source_editor" "SourceEditor",
    home "proxy_runtime_js" "ProxyRuntimeNames"]

/-- The public names of a package. -/
def entries : Package → Table Entry
  | .whole => wholeEntries
  | .processors => processorEntries

/-- What a public name of a package stands for. -/
def find (package : Package) (name : String) : Except UnknownName Entry :=
  match (entries package).get? name with
  | some entry => .ok entry
  | none => .error ⟨package, name⟩

end Directory

end Seams
