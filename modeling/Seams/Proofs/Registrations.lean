import Mathlib.Data.List.Induction
import Seams.Proofs.ExportAccounts

/-!
# Registrations in any order

An inventory grows by one entry at a time. Between two entries, an export may get its slot through
the list of exports that count. That list is no copy: a slot that is set in it is seen among all
exports, at the place where the name was registered first. So an index of the list has to mean the
same place at all times, whatever is registered in between.

The places of first registrations depend on the registered names alone, and another registration
can only add to them. That carries all other statements.

## Main definitions

* `Inventory.Call`, `Inventory.after` — entries and slots in any order
* `Inventory.firstPlaces` — the places in a list of names where a name occurs first
* `Inventory.Records` — what an inventory owes to the calls that made it

## Main results

* `Inventory.uniqueExports_at_firstPlaces` — the exports that count are the first registrations
* `Inventory.exports_assign`, `Inventory.uniqueExports_assign` — what a slot changes
* `Inventory.Records.call`, `Inventory.after_calls` — one call, and an inventory after any calls
* `Workbench.inventory_assignSlots` — the slots of a module come from such calls
-/

namespace Seams

/-- An export as it was registered. -/
def Export.pair (entry : Export) : String × String :=
  (entry.name, entry.localName)

/-- An import as it was registered. -/
def Import.pair (entry : Import) : String × String :=
  (entry.name, entry.alias)

/-- The export with a slot. -/
def Export.withSlot (slot : String) (entry : Export) : Export :=
  { entry with slot := some slot }

namespace Inventory

/-! ### Calls -/

/-- An entry is added, or a slot is given to the export at an index of those that count. -/
inductive Call where
  | addExport (name localName : String)
  | addImport (name localName : String)
  | assign (index : Nat) (slot : String)

/-- The export that a call registers. -/
def Call.export? : Call → Option (String × String)
  | .addExport name localName => some (name, localName)
  | _ => none

/-- The import that a call registers. -/
def Call.import? : Call → Option (String × String)
  | .addImport name localName => some (name, localName)
  | _ => none

/-- Give a slot to the export at an index of those that count. -/
def assign (inventory : Inventory) (index : Nat) (slot : String) : Inventory :=
  match inventory.uniqueExports[index]? with
  | some entry => inventory.setSlot entry.name slot
  | none => inventory

/-- What one call leads to. -/
def call (inventory : Inventory) : Call → Inventory
  | .addExport name localName => inventory.addExport name localName
  | .addImport name localName => inventory.addImport name localName
  | .assign index slot => inventory.assign index slot

/-- What several calls lead to. -/
def after (inventory : Inventory) (calls : List Call) : Inventory :=
  calls.foldl call inventory

/-! ### First places -/

/-- Whether a name occurs first at a place. -/
def isFirstPlace (names : List String) (place : Nat) : Bool :=
  names[place]?.any fun name => !(names.take place).contains name

/-- The places where a name occurs first, in order. -/
def firstPlaces (names : List String) : List Nat :=
  (List.range names.length).filter (isFirstPlace names)

theorem isFirstPlace_iff {names : List String} {place : Nat} :
    isFirstPlace names place = true ↔
      ∃ name, names[place]? = some name ∧ name ∉ names.take place := by
  rw [isFirstPlace]
  cases names[place]? <;> simp

theorem mem_firstPlaces {names : List String} {place : Nat} :
    place ∈ firstPlaces names ↔ ∃ name, names[place]? = some name ∧ name ∉ names.take place := by
  rw [firstPlaces, List.mem_filter, isFirstPlace_iff, List.mem_range]
  constructor
  · exact And.right
  · rintro ⟨name, hname, hnew⟩
    exact ⟨(List.getElem?_eq_some_iff.mp hname).1, name, hname, hnew⟩

/-- One more name adds a place if it is new. -/
theorem firstPlaces_append_singleton (names : List String) (name : String) :
    firstPlaces (names ++ [name]) =
      firstPlaces names ++ if name ∈ names then [] else [names.length] := by
  have hbefore : (List.range names.length).filter (isFirstPlace (names ++ [name])) =
      firstPlaces names := by
    refine List.filter_congr fun place hplace => ?_
    have hlt : place < names.length := List.mem_range.mp hplace
    rw [isFirstPlace, isFirstPlace, List.getElem?_append_left hlt,
      List.take_append_of_le_length (Nat.le_of_lt hlt)]
  have hlast : [names.length].filter (isFirstPlace (names ++ [name])) =
      if name ∈ names then [] else [names.length] := by
    have hat : isFirstPlace (names ++ [name]) names.length = true ↔ name ∉ names := by
      simp [isFirstPlace_iff]
    split
    · rename_i hmem
      exact List.filter_cons_of_neg fun hfirst => hat.mp hfirst hmem
    · rename_i hnew
      exact List.filter_cons_of_pos (hat.mpr hnew)
  rw [firstPlaces, List.length_append, List.length_singleton, List.range_succ,
    List.filter_append, hbefore, hlast]

/-- More names only add places. -/
theorem firstPlaces_prefix_append (names more : List String) :
    firstPlaces names <+: firstPlaces (names ++ more) := by
  induction more using List.reverseRecOn with
  | nil => simp
  | append_singleton more name ih =>
    rw [← List.append_assoc, firstPlaces_append_singleton]
    exact ih.trans (List.prefix_append ..)

/-! ### The exports that count -/

theorem firstOfEach_append_singleton (seen : List String) (exports : List Export)
    (entry : Export) :
    firstOfEach seen (exports ++ [entry]) =
      firstOfEach seen exports ++
        if entry.name ∈ seen ∨ entry.name ∈ exports.map Export.name then [] else [entry] := by
  induction exports generalizing seen with
  | nil => simp [firstOfEach]
  | cons first rest ih =>
    rw [List.cons_append, firstOfEach, firstOfEach, List.map_cons]
    split
    · rename_i hseen
      have hiff : entry.name ∈ seen ∨ entry.name ∈ rest.map Export.name ↔
          entry.name ∈ seen ∨ entry.name ∈ first.name :: rest.map Export.name := by
        have hmem : first.name ∈ seen := List.contains_iff_mem.mp hseen
        by_cases heq : entry.name = first.name
        · simp [heq, hmem]
        · simp [heq]
      rw [ih, ite_cond_congr (propext hiff)]
    · have hiff : entry.name ∈ first.name :: seen ∨ entry.name ∈ rest.map Export.name ↔
          entry.name ∈ seen ∨ entry.name ∈ first.name :: rest.map Export.name := by
        rw [List.mem_cons, List.mem_cons, or_assoc, or_left_comm]
      rw [ih, ite_cond_congr (propext hiff), List.cons_append]

/-- **The exports that count** are those at the first places, in order. -/
theorem uniqueExports_at_firstPlaces (inventory : Inventory) :
    inventory.uniqueExports.map some =
      (firstPlaces (inventory.exports.map Export.name)).map (inventory.exports[·]?) := by
  obtain ⟨exports, -⟩ := inventory
  show (firstOfEach [] exports).map some = (firstPlaces (exports.map Export.name)).map (exports[·]?)
  induction exports using List.reverseRecOn with
  | nil => rfl
  | append_singleton exports entry ih =>
    have hbefore : (firstPlaces (exports.map Export.name)).map ((exports ++ [entry])[·]?) =
        (firstPlaces (exports.map Export.name)).map (exports[·]?) := by
      refine List.map_congr_left fun place hplace => ?_
      obtain ⟨name, hname, -⟩ := mem_firstPlaces.mp hplace
      have hlt := (List.getElem?_eq_some_iff.mp hname).1
      exact List.getElem?_append_left (by simpa using hlt)
    rw [firstOfEach_append_singleton, List.map_append, List.map_append, List.map_singleton,
      firstPlaces_append_singleton, List.map_append, hbefore, ih]
    by_cases hseen : entry.name ∈ exports.map Export.name
    · rw [if_pos (.inr hseen), if_pos hseen]
      rfl
    · rw [if_neg (not_or.mpr ⟨List.not_mem_nil, hseen⟩), if_neg hseen, List.length_map]
      simp

theorem uniqueExports_nodup (inventory : Inventory) :
    (inventory.uniqueExports.map Export.name).Nodup :=
  (firstOfEach_nodup [] inventory.exports).1

theorem mem_uniqueExports_names {inventory : Inventory} {name : String} :
    name ∈ inventory.uniqueExports.map Export.name ↔ name ∈ inventory.exports.map Export.name := by
  rw [map_name_uniqueExports, List.mem_eraseDups]

/-- Another registration of a name does not count. -/
theorem uniqueExports_addExport {inventory : Inventory} {name localName : String}
    (h : name ∈ inventory.exports.map Export.name) :
    (inventory.addExport name localName).uniqueExports = inventory.uniqueExports := by
  show firstOfEach [] (inventory.exports ++ [⟨name, localName, none⟩]) = _
  rw [firstOfEach_append_singleton, if_pos (.inr h), List.append_nil]
  rfl

/-! ### Slots -/

/-- A slot that is set by name goes to the first entry of that name. -/
theorem setFirstSlot_eq_modify {exports : List Export} {place : Nat} {entry : Export}
    (slot : String) (hentry : exports[place]? = some entry)
    (hfirst : entry.name ∉ (exports.take place).map Export.name) :
    setFirstSlot entry.name slot exports = exports.modify place (Export.withSlot slot) := by
  induction exports generalizing place with
  | nil => simp at hentry
  | cons first rest ih =>
    cases place with
    | zero =>
      obtain rfl : first = entry := by simpa using hentry
      rw [setFirstSlot, if_pos rfl]
      rfl
    | succ place =>
      rw [List.take_succ_cons, List.map_cons, List.mem_cons, not_or] at hfirst
      rw [setFirstSlot, if_neg (Ne.symm hfirst.1), ih (by simpa using hentry) hfirst.2]
      rfl

/-- The entries that count keep their order when one of them gets a slot. -/
theorem firstOfEach_setFirstSlot {seen : List String} {name : String} (slot : String)
    (exports : List Export) (h : name ∉ seen) :
    firstOfEach seen (setFirstSlot name slot exports) =
      setFirstSlot name slot (firstOfEach seen exports) := by
  induction exports generalizing seen with
  | nil => rfl
  | cons first rest ih =>
    rw [setFirstSlot]
    by_cases heq : first.name = name
    · have hnew : seen.contains first.name = false := by simpa [heq] using h
      rw [if_pos heq, firstOfEach, firstOfEach, if_neg (by simpa using hnew),
        if_neg (by simpa using hnew), setFirstSlot, if_pos heq]
    · rw [if_neg heq, firstOfEach, firstOfEach]
      split
      · exact ih h
      · rw [setFirstSlot, if_neg heq, ih (by simpa [Ne.symm heq] using h)]

theorem map_pair_setFirstSlot (name slot : String) (exports : List Export) :
    (setFirstSlot name slot exports).map Export.pair = exports.map Export.pair := by
  induction exports with
  | nil => rfl
  | cons first rest ih =>
    rw [setFirstSlot]
    split
    · rfl
    · rw [List.map_cons, ih, List.map_cons]

/-- An index of the list of exports that count means a place among all exports. -/
theorem getElem?_uniqueExports (inventory : Inventory) (index : Nat) :
    inventory.uniqueExports[index]? =
      (firstPlaces (inventory.exports.map Export.name))[index]?.bind (inventory.exports[·]?) := by
  calc inventory.uniqueExports[index]?
      = (inventory.uniqueExports[index]?.map some).join := by
        cases inventory.uniqueExports[index]? <;> rfl
    _ = ((firstPlaces (inventory.exports.map Export.name))[index]?.map
          (inventory.exports[·]?)).join := by
        rw [← List.getElem?_map, uniqueExports_at_firstPlaces, List.getElem?_map]
    _ = _ := by
        cases (firstPlaces (inventory.exports.map Export.name))[index]? <;> rfl

/-- **A slot** that is given through an index of the exports that count is the slot of the first
registration behind that index. -/
theorem exports_assign {inventory : Inventory} {index place : Nat} (slot : String)
    (h : (firstPlaces (inventory.exports.map Export.name))[index]? = some place) :
    (inventory.assign index slot).exports =
      inventory.exports.modify place (Export.withSlot slot) := by
  obtain ⟨name, hname, hnew⟩ := mem_firstPlaces.mp (List.mem_of_getElem? h)
  rw [List.getElem?_map, Option.map_eq_some_iff] at hname
  obtain ⟨entry, hentry, rfl⟩ := hname
  rw [assign, getElem?_uniqueExports, h, Option.bind_some, hentry]
  exact setFirstSlot_eq_modify slot hentry (by rwa [List.map_take])

theorem assign_of_no_place {inventory : Inventory} {index : Nat} (slot : String)
    (h : (firstPlaces (inventory.exports.map Export.name))[index]? = none) :
    inventory.assign index slot = inventory := by
  rw [assign, getElem?_uniqueExports, h]
  rfl

/-- In the list of exports that count, the slot is at the index through which it was given. -/
theorem uniqueExports_assign (inventory : Inventory) (index : Nat) (slot : String) :
    (inventory.assign index slot).uniqueExports =
      inventory.uniqueExports.modify index (Export.withSlot slot) := by
  rw [assign]
  cases hentry : inventory.uniqueExports[index]? with
  | none => rw [List.modify_eq_self (List.getElem?_eq_none_iff.mp hentry)]
  | some entry =>
    have hfirst : entry.name ∉ (inventory.uniqueExports.take index).map Export.name := by
      have hnodup := inventory.uniqueExports_nodup
      have hlt := (List.getElem?_eq_some_iff.mp hentry).1
      rw [← List.take_append_drop index inventory.uniqueExports, List.map_append,
        List.drop_eq_getElem_cons hlt, (List.getElem?_eq_some_iff.mp hentry).2,
        List.map_cons] at hnodup
      intro hmem
      exact (List.nodup_append.mp hnodup).2.2 _ hmem _ (List.mem_cons_self ..) rfl
    show firstOfEach [] (setFirstSlot entry.name slot inventory.exports) = _
    rw [firstOfEach_setFirstSlot _ _ (List.not_mem_nil)]
    exact setFirstSlot_eq_modify slot hentry hfirst

/-! ### An inventory after any calls -/

theorem map_name_of_pairs {exports others : List Export}
    (h : exports.map Export.pair = others.map Export.pair) :
    exports.map Export.name = others.map Export.name := by
  simpa [Function.comp_def, Export.pair] using congrArg (List.map Prod.fst) h

theorem pairs_assign (inventory : Inventory) (index : Nat) (slot : String) :
    (inventory.assign index slot).exports.map Export.pair = inventory.exports.map Export.pair := by
  rw [assign]
  split
  · exact map_pair_setFirstSlot _ slot inventory.exports
  · rfl

theorem imports_assign (inventory : Inventory) (index : Nat) (slot : String) :
    (inventory.assign index slot).imports = inventory.imports := by
  rw [assign]
  split <;> rfl

/-- What an inventory owes to the calls that made it. -/
structure Records (calls : List Call) (inventory : Inventory) : Prop where
  /-- The exports are the registered ones, in the order of the calls. -/
  exports : inventory.exports.map Export.pair = calls.filterMap Call.export?
  imports : inventory.imports.map Import.pair = calls.filterMap Call.import?
  /-- Only a first registration ever has a slot. -/
  unslotted : ∀ place entry, inventory.exports[place]? = some entry →
    place ∉ firstPlaces (inventory.exports.map Export.name) → entry.slot = none

namespace Records

variable {calls : List Call} {inventory : Inventory}

theorem addExport (h : Records calls inventory) (name localName : String) :
    Records (calls ++ [.addExport name localName]) (inventory.addExport name localName) where
  exports := by
    rw [Inventory.addExport, List.map_append, h.exports, List.filterMap_append]
    rfl
  imports := by
    rw [Inventory.addExport, h.imports, List.filterMap_append]
    exact (List.append_nil _).symm
  unslotted := by
    intro place entry hentry hplace
    rw [Inventory.addExport, List.getElem?_append] at hentry
    rw [Inventory.addExport, List.map_append] at hplace
    split at hentry
    · refine h.unslotted place entry hentry fun hfirst => hplace ?_
      exact (firstPlaces_prefix_append _ _).subset hfirst
    · obtain rfl := List.mem_singleton.mp (List.mem_of_getElem? hentry)
      rfl

theorem addImport (h : Records calls inventory) (name localName : String) :
    Records (calls ++ [.addImport name localName]) (inventory.addImport name localName) where
  exports := by
    rw [Inventory.addImport, h.exports, List.filterMap_append]
    exact (List.append_nil _).symm
  imports := by
    rw [Inventory.addImport, List.map_append, h.imports, List.filterMap_append]
    rfl
  unslotted := h.unslotted

theorem assign (h : Records calls inventory) (index : Nat) (slot : String) :
    Records (calls ++ [.assign index slot]) (inventory.assign index slot) where
  exports := by
    rw [pairs_assign, h.exports, List.filterMap_append]
    exact (List.append_nil _).symm
  imports := by
    rw [imports_assign, h.imports, List.filterMap_append]
    exact (List.append_nil _).symm
  unslotted := by
    intro place entry hentry hplace
    rw [map_name_of_pairs (inventory.pairs_assign index slot)] at hplace
    cases hindex : (firstPlaces (inventory.exports.map Export.name))[index]? with
    | none =>
      rw [assign_of_no_place slot hindex] at hentry
      exact h.unslotted place entry hentry hplace
    | some first =>
      -- The slot goes to a first place, and this is none.
      have hne : first ≠ place := fun heq => hplace (heq ▸ List.mem_of_getElem? hindex)
      rw [exports_assign slot hindex, List.getElem?_modify_ne _ _ hne] at hentry
      exact h.unslotted place entry hentry hplace

/-- **One call** is recorded. -/
theorem call (h : Records calls inventory) (call : Call) :
    Records (calls ++ [call]) (inventory.call call) := by
  cases call with
  | addExport name localName => exact h.addExport name localName
  | addImport name localName => exact h.addImport name localName
  | assign index slot => exact h.assign index slot

/-- Several calls are recorded. -/
theorem after (h : Records calls inventory) (later : List Call) :
    Records (calls ++ later) (inventory.after later) := by
  induction later generalizing calls inventory with
  | nil => rwa [List.append_nil]
  | cons call rest ih =>
    rw [List.append_cons]
    exact ih (h.call call)

theorem map_name (h : Records calls inventory) :
    inventory.exports.map Export.name = (calls.filterMap Call.export?).map Prod.fst := by
  rw [← h.exports, List.map_map]
  rfl

end Records

theorem records_empty : Records [] {} where
  exports := rfl
  imports := rfl
  unslotted := by simp

/-- **An inventory after any calls.** Its exports and imports are the registered ones in the order
of the calls, and stay so. The exports that count have different names, all that were registered;
they are those at the first places of the registered names, and no call moves them. A slot that is
given through an index is the slot of the first registration there, in both lists, and changes
nothing else. No other registration has a slot, and one of a known name changes neither the list of
exports that count nor a slot. -/
theorem after_calls (calls : List Call) :
    let inventory := after {} calls
    let registered := calls.filterMap Call.export?
    let places := firstPlaces (registered.map Prod.fst)
    (inventory.exports.map Export.pair = registered ∧
      inventory.imports.map Import.pair = calls.filterMap Call.import? ∧
      ∀ later, registered <+: (inventory.after later).exports.map Export.pair) ∧
    ((inventory.uniqueExports.map Export.name).Nodup ∧
      (∀ name, name ∈ inventory.uniqueExports.map Export.name ↔ name ∈ registered.map Prod.fst) ∧
      inventory.uniqueExports.map some = places.map (inventory.exports[·]?) ∧
      ∀ later, places <+: firstPlaces ((inventory.after later).exports.map Export.name)) ∧
    (∀ index place slot, places[index]? = some place →
      (inventory.assign index slot).exports =
          inventory.exports.modify place (Export.withSlot slot) ∧
        (inventory.assign index slot).uniqueExports =
          inventory.uniqueExports.modify index (Export.withSlot slot) ∧
        (inventory.assign index slot).imports = inventory.imports) ∧
    (∀ place entry, inventory.exports[place]? = some entry → place ∉ places → entry.slot = none) ∧
    ∀ name localName, name ∈ registered.map Prod.fst →
      (inventory.addExport name localName).uniqueExports = inventory.uniqueExports ∧
        (inventory.addExport name localName).exports.map Export.slot =
          inventory.exports.map Export.slot ++ [none] := by
  intro inventory registered places
  have hrecords : Records calls inventory := records_empty.after calls
  have hlater : ∀ later, registered <+: (inventory.after later).exports.map Export.pair := by
    intro later
    rw [(hrecords.after later).exports, List.filterMap_append]
    exact List.prefix_append ..
  have hnames : inventory.exports.map Export.name = registered.map Prod.fst := hrecords.map_name
  have hplaces : firstPlaces (inventory.exports.map Export.name) = places := by rw [hnames]
  refine ⟨⟨hrecords.exports, hrecords.imports, hlater⟩,
    ⟨inventory.uniqueExports_nodup, ?_, ?_, ?_⟩, ?_, ?_, ?_⟩
  · intro name
    rw [mem_uniqueExports_names, hnames]
  · rw [uniqueExports_at_firstPlaces, hplaces]
  · intro later
    rw [(hrecords.after later).map_name, List.filterMap_append, List.map_append]
    exact firstPlaces_prefix_append _ _
  · intro index place slot hindex
    rw [← hplaces] at hindex
    exact ⟨exports_assign slot hindex, inventory.uniqueExports_assign index slot,
      inventory.imports_assign index slot⟩
  · intro place entry hentry hplace
    rw [← hplaces] at hplace
    exact hrecords.unslotted place entry hentry hplace
  · intro name localName hname
    rw [← hnames] at hname
    exact ⟨uniqueExports_addExport hname, List.map_append⟩

-- The slot of a name that is registered twice is that of its first registration.
example : (after {} [.addExport "a" "x", .addExport "a" "y", .addExport "b" "z",
    .assign 1 "_b", .addExport "b" "w", .assign 0 "_a"]).exports =
      [⟨"a", "x", some "_a"⟩, ⟨"a", "y", none⟩, ⟨"b", "z", some "_b"⟩, ⟨"b", "w", none⟩] := by
  decide +kernel

end Inventory

/-! ### The slots of a module -/

/-- The calls that give slots to exports from an index on. -/
def slotCalls (index : Nat) : List String → List Inventory.Call
  | [] => []
  | slot :: rest => .assign index slot :: slotCalls (index + 1) rest

/-- Slots change no name among the exports that count. -/
theorem Inventory.names_uniqueExports_assign (inventory : Inventory) (index : Nat)
    (slot : String) :
    (inventory.assign index slot).uniqueExports.map Export.name =
      inventory.uniqueExports.map Export.name := by
  rw [map_name_uniqueExports, map_name_uniqueExports,
    map_name_of_pairs (inventory.pairs_assign index slot)]

/-- A slot that is set by name is given through the index of that name. -/
theorem Inventory.setSlot_eq_assign {inventory : Inventory} {index : Nat} {name : String}
    (slot : String) (h : (inventory.uniqueExports.map Export.name)[index]? = some name) :
    inventory.setSlot name slot = inventory.assign index slot := by
  rw [List.getElem?_map, Option.map_eq_some_iff] at h
  obtain ⟨entry, hentry, rfl⟩ := h
  rw [assign, hentry]

/-- **The slots of a module** are given through the list of exports that count, in order. -/
theorem Workbench.inventory_assignSlots (bench : Workbench) (index : Nat) (entries : List Export)
    (h : entries.map Export.name = (bench.inventory.uniqueExports.map Export.name).drop index) :
    (bench.assignSlots entries).2.inventory =
      bench.inventory.after
        (slotCalls index ((bench.assignSlots entries).1.filterMap Export.slot)) := by
  induction entries generalizing bench index with
  | nil => rfl
  | cons entry rest ih =>
    rw [List.map_cons] at h
    have hname : (bench.inventory.uniqueExports.map Export.name)[index]? = some entry.name := by
      rw [← List.head?_drop, ← h]
      rfl
    have hrest : rest.map Export.name =
        (bench.inventory.uniqueExports.map Export.name).drop (index + 1) := by
      rw [← List.tail_drop, ← h]
      rfl
    let next : Workbench := { (bench.fresh entry.name).2 with
      inventory := bench.inventory.setSlot entry.name (bench.fresh entry.name).1 }
    have hnext : next.inventory = bench.inventory.assign index (bench.fresh entry.name).1 :=
      Inventory.setSlot_eq_assign _ hname
    show (next.assignSlots rest).2.inventory =
      (bench.inventory.assign index (bench.fresh entry.name).1).after
        (slotCalls (index + 1) ((next.assignSlots rest).1.filterMap Export.slot))
    rw [← hnext]
    refine ih next (index + 1) ?_
    rw [hnext, Inventory.names_uniqueExports_assign]
    exact hrest

end Seams
