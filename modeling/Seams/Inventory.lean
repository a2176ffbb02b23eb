/-!
# The inventory of a module

What a module exports and imports, as far as tests can override it, in the order in which it was
found. An export may be found twice under one name; the first entry counts, and it alone gets a
slot in which the value at start-up is kept.

## Main definitions

* `Export`, `Import`, `Inventory` — the entries
* `Inventory.uniqueExports`, `Inventory.repeatedExports` — the entries that count, and the others
* `Inventory.setSlot` — give an export its slot
-/

namespace Seams

/-- An exported name and the variable that holds its value. -/
structure Export where
  name : String
  localName : String
  /-- The variable that keeps the value the export had at start-up. -/
  slot : Option String := none
  deriving DecidableEq, Repr

/-- An imported name as the module uses it, and the alias under which the value comes in. -/
structure Import where
  name : String
  «alias» : String
  deriving DecidableEq, Repr

/-- The exports and imports found in a module. -/
structure Inventory where
  exports : List Export := []
  imports : List Import := []
  deriving DecidableEq, Repr

namespace Inventory

/-- Add an export. -/
def addExport (inventory : Inventory) (name localName : String) : Inventory :=
  { inventory with exports := inventory.exports ++ [⟨name, localName, none⟩] }

/-- Add an import. -/
def addImport (inventory : Inventory) (name localName : String) : Inventory :=
  { inventory with imports := inventory.imports ++ [⟨name, localName⟩] }

/-- Whether nothing was found. -/
def isEmpty (inventory : Inventory) : Bool :=
  inventory.exports.isEmpty && inventory.imports.isEmpty

/-! ### One export for each name -/

/-- The entries whose name is neither among `seen` nor that of an earlier entry. -/
def firstOfEach (seen : List String) : List Export → List Export
  | [] => []
  | entry :: rest =>
    if seen.contains entry.name then firstOfEach seen rest
    else entry :: firstOfEach (entry.name :: seen) rest

/-- The entries whose name is among `seen` or that of an earlier entry. -/
def laterOfEach (seen : List String) : List Export → List Export
  | [] => []
  | entry :: rest =>
    if seen.contains entry.name then entry :: laterOfEach seen rest
    else laterOfEach (entry.name :: seen) rest

/-- The exports that count, one for each name. -/
def uniqueExports (inventory : Inventory) : List Export :=
  firstOfEach [] inventory.exports

/-- The exports that do not count, since their name was there before. -/
def repeatedExports (inventory : Inventory) : List Export :=
  laterOfEach [] inventory.exports

/-- The entries with the slot of the first one of a given name set. -/
def setFirstSlot (name slot : String) : List Export → List Export
  | [] => []
  | entry :: rest =>
    if entry.name = name then { entry with slot := some slot } :: rest
    else entry :: setFirstSlot name slot rest

/-- Set the slot of the export that counts under a given name. -/
def setSlot (inventory : Inventory) (name slot : String) : Inventory :=
  { inventory with exports := setFirstSlot name slot inventory.exports }

end Inventory

end Seams
