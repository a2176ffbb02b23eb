import Seams.Code.Runtime
import Seams.Inventory
import Seams.Text.Quoted

/-!
# Override functions

The functions an opened module exports beside its own exports: one for each export and each
intercepted import that gives it a new value, and one that undoes all of this.

## Main definitions

* `exportOverrideCode`, `importOverrideCode` — functions that give a new value
* `restoreCode` — the function that puts everything back
* `captureCode` — the variables that keep the values at start-up
* `interceptionCode` — the declaration that puts a name in front of an import
-/

namespace Seams

/-- The function `function` that assigns its argument to the variable behind an export. -/
def exportOverrideCode (function localName parameter : String) : String :=
  joinLines [
    s!"export function {function}({parameter}) \x7b",
    s!"  {localName} = {parameter};",
    "\x7d"]

/-- The function `function` that overrides an intercepted import by its argument. -/
def importOverrideCode (function : String) (entry : Import) (parameter : String)
    (names : RuntimeNames) : String :=
  let call := s!"{names.applyFunction}({entry.name}, {Text.quote entry.name}, {parameter})"
  joinLines [
    s!"export function {function}({parameter}) \x7b",
    s!"  {entry.name} = {call};",
    "\x7d"]

/-- The declaration that lets a module use an intercepted import under its own name. -/
def interceptionCode (entry : Import) (names : RuntimeNames) : String :=
  s!"let {entry.name} = {names.wrapFunction}({entry.alias}, {Text.quote entry.name});"

/-! ### Capturing and restoring -/

/-- A slot as code shows it. An export without a slot shows as `None`. -/
def slotCode (entry : Export) : String :=
  entry.slot.getD "None"

/-- The declaration of the slots, each with the value its export has at start-up. -/
def captureCode (exports : List Export) : String :=
  let captures := exports.map fun entry => s!"{slotCode entry} = {entry.localName}"
  "var " ++ ", ".intercalate captures ++ ";"

/-- The assignment that gives an export its captured value back. -/
def restoreExportCode (entry : Export) : String :=
  s!"{entry.localName} = {slotCode entry};"

/-- The statement that empties all handlers, which makes every proxy pass everything on again. -/
def emptyHandlersCode (names : RuntimeNames) : String :=
  let table := names.handlerTable
  s!"Object.keys({table}).forEach(k1 => " ++
    s!"Object.keys({table}[k1]).forEach(k2 => delete {table}[k1][k2]));"

/-- The statement that gives an import its value back where it was never wrapped. -/
def restoreImportCode (entry : Import) : List String :=
  [s!"if (!{objectLikeTest entry.alias}) \x7b",
    s!"  {entry.name} = {entry.alias};",
    "\x7d"]

/-- The function `function` that undoes every override. -/
def restoreCode (function : String) (exports : List Export) (imports : List Import)
    (names : RuntimeNames) : String :=
  let body := exports.map restoreExportCode ++ emptyHandlersCode names ::
    imports.flatMap restoreImportCode
  joinLines (s!"export function {function}() \x7b" :: body.map ("  " ++ ·) ++ ["\x7d"])

end Seams
