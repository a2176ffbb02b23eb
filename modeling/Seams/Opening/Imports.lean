import Seams.Code.Override
import Seams.Workbench

/-!
# Opening imports

An imported name is taken in under an alias, and right after the import statement the name itself
is declared anew, as a variable with the value behind the alias put through the runtime. So
`import foo, { bar } from './dep';` gives way to

* `import _foo, { bar as _bar } from './dep';`
* `let foo = _rewireProxyIfNeeded(_foo, "foo");`
* `let bar = _rewireProxyIfNeeded(_bar, "bar");`

Override functions that come from another opened module are left alone.

## Main definitions

* `Workbench.interceptBinding` — take in one name under an alias
* `Workbench.openImport` — open an import statement
-/

namespace Seams

/-- What the names of override functions begin with. -/
def overridePrefix : String := "rewire$"

/-- Whether a name is that of an override function. -/
def isOverrideName (name : String) : Bool :=
  overridePrefix.toList.isPrefixOf name.toList

namespace Workbench

/-- Put the alias of an import in its place: behind the specifier of a single export that has no
alias yet, instead of the local name otherwise. -/
def placeAlias (bench : Workbench) (binding : ImportBinding) (localName : String) :
    Except Failure Workbench := do
  if binding.form = .single ∧ (binding.specifier.child? .alias).isNone then
    let specifier ← bench.draft.slice binding.specifier
    bench.replaceNode binding.specifier s!"{specifier} as {localName}"
  else bench.replaceNode binding.localName localName

/-- Take in one imported name under an alias, if it is not that of an override function. -/
def interceptBinding (bench : Workbench) (binding : ImportBinding) :
    Traced (Workbench × Option Import) := do
  let name ← bench.text binding.localName
  if isOverrideName name then
    Traced.note (.overrideImportKept name)
    return (bench, none)
  let (localName, bench) := bench.fresh name
  let bench := bench.register localName .module
  let bench ← bench.placeAlias binding localName
  let bench ← bench.addImport name localName
  return (bench, some ⟨name, localName⟩)

/-- Take in imported names in turn, and tell which ones were intercepted. -/
def interceptAll (bench : Workbench) : List ImportBinding → Traced (Workbench × List Import)
  | [] => return (bench, [])
  | binding :: rest => do
    let (bench, entry) ← bench.interceptBinding binding
    let (bench, entries) ← bench.interceptAll rest
    return (bench, entry.toList ++ entries)

/-- Open an import statement. -/
def openImport (bench : Workbench) (statement : Node) : Traced Workbench := do
  let (bench, entries) ← bench.interceptAll statement.importBindings
  if entries.isEmpty then return bench
  let lines := entries.map fun entry => "\n" ++ interceptionCode entry bench.runtime
  bench.edit (·.insert statement.stop ("".intercalate lines))

end Workbench

end Seams
