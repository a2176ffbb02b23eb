/-!
# Tables

A table maps names to values and remembers in which order the names were first put in. Giving a
name a new value leaves it in its place.

## Main definitions

* `Table`, `Table.get?`, `Table.insert`, `Table.erase`, `Table.ofList`

## Main results

* `Table.get?_insert`, `Table.get?_erase`, `Table.get?_map` — what a table holds after a change
* `Table.contains_ofList` — the names of a table that is set from entries
-/

namespace Seams

/-- A finite map from names to values, in the order in which the names came in. -/
structure Table (α : Type) where
  entries : List (String × α) := []
  deriving Repr, DecidableEq

namespace Table

variable {α β : Type}

/-- The table without names. -/
def empty : Table α := {}

/-! ### Looking up -/

/-- The value of a name. -/
def get? (table : Table α) (name : String) : Option α :=
  table.entries.lookup name

/-- Whether the table has a name. -/
def contains (table : Table α) (name : String) : Bool :=
  (table.get? name).isSome

/-- The names, in order. -/
def names (table : Table α) : List String :=
  table.entries.map Prod.fst

/-- The number of names. -/
def size (table : Table α) : Nat :=
  table.entries.length

/-! ### Changing -/

/-- The entries with `name` set to `value`: in its place if it is there, at the end if not. -/
def setEntry (name : String) (value : α) : List (String × α) → List (String × α)
  | [] => [(name, value)]
  | entry :: rest =>
    if entry.1 = name then (name, value) :: rest else entry :: setEntry name value rest

/-- The table with `name` set to `value`. -/
def insert (table : Table α) (name : String) (value : α) : Table α :=
  ⟨setEntry name value table.entries⟩

/-- The table without `name`. -/
def erase (table : Table α) (name : String) : Table α :=
  ⟨table.entries.filter fun entry => entry.1 != name⟩

/-- The table with every value replaced by its image. -/
def map (f : α → β) (table : Table α) : Table β :=
  ⟨table.entries.map fun entry => (entry.1, f entry.2)⟩

/-- The table that results from setting names to values in turn. -/
def ofList (entries : List (String × α)) : Table α :=
  entries.foldl (fun table entry => table.insert entry.1 entry.2) empty

/-! ### What a table holds after a change -/

theorem lookup_cons_ite (name other : String) (value : α) (rest : List (String × α)) :
    ((name, value) :: rest).lookup other =
      if other = name then some value else rest.lookup other := by
  by_cases h : other = name
  · simp [h]
  · simp [List.lookup_cons, beq_eq_false_iff_ne.mpr h, h]

theorem lookup_setEntry (name other : String) (value : α) (entries : List (String × α)) :
    (setEntry name value entries).lookup other =
      if other = name then some value else entries.lookup other := by
  induction entries with
  | nil => simp [setEntry, lookup_cons_ite]
  | cons entry rest ih =>
    obtain ⟨k, v⟩ := entry
    by_cases hk : k = name
    · simp only [setEntry, hk, if_true, lookup_cons_ite]
      split <;> rfl
    · simp only [setEntry, hk, if_false, lookup_cons_ite, ih]
      split <;> simp_all

theorem get?_insert (table : Table α) (name other : String) (value : α) :
    (table.insert name value).get? other = if other = name then some value else table.get? other :=
  lookup_setEntry name other value table.entries

theorem setEntry_setEntry (name : String) (value later : α) (entries : List (String × α)) :
    setEntry name later (setEntry name value entries) = setEntry name later entries := by
  induction entries with
  | nil => simp [setEntry]
  | cons entry rest ih =>
    by_cases hk : entry.1 = name
    · simp [setEntry, hk]
    · simp [setEntry, hk, ih]

/-- Only the last of several values of a name stays. -/
theorem insert_insert (table : Table α) (name : String) (value later : α) :
    (table.insert name value).insert name later = table.insert name later :=
  congrArg mk (setEntry_setEntry name value later table.entries)

theorem setEntry_of_lookup {name : String} {value : α} {entries : List (String × α)}
    (h : entries.lookup name = some value) : setEntry name value entries = entries := by
  induction entries with
  | nil => simp at h
  | cons entry rest ih =>
    obtain ⟨k, v⟩ := entry
    rw [lookup_cons_ite] at h
    by_cases hk : k = name
    · obtain rfl : v = value := by simpa [hk] using h
      rw [setEntry, if_pos hk, hk]
    · rw [if_neg (Ne.symm hk)] at h
      rw [setEntry, if_neg hk, ih h]

/-- Setting a name to the value it has changes nothing. -/
theorem insert_of_get? {table : Table α} {name : String} {value : α}
    (h : table.get? name = some value) : table.insert name value = table :=
  congrArg mk (setEntry_of_lookup h)

theorem get?_erase (table : Table α) (name other : String) :
    (table.erase name).get? other = if other = name then none else table.get? other := by
  obtain ⟨entries⟩ := table
  simp only [erase, get?]
  induction entries with
  | nil => simp
  | cons entry rest ih =>
    obtain ⟨k, v⟩ := entry
    by_cases hk : k = name
    · simp only [hk, List.filter_cons, bne_self_eq_false, lookup_cons_ite]
      split <;> simp_all
    · simp only [List.filter_cons, bne_iff_ne.mpr hk, if_true, lookup_cons_ite, ih]
      split <;> simp_all

theorem get?_map (f : α → β) (table : Table α) (name : String) :
    (table.map f).get? name = (table.get? name).map f := by
  obtain ⟨entries⟩ := table
  simp only [map, get?]
  induction entries with
  | nil => simp
  | cons entry rest ih =>
    obtain ⟨k, v⟩ := entry
    simp only [List.map_cons, lookup_cons_ite, ih]
    split <;> rfl

theorem contains_iff {table : Table α} {name : String} :
    table.contains name = true ↔ ∃ value, table.get? name = some value := by
  rw [contains, Option.isSome_iff_exists]

theorem mem_names_iff {table : Table α} {name : String} :
    name ∈ table.names ↔ table.contains name = true := by
  obtain ⟨entries⟩ := table
  simp only [names, contains, get?]
  induction entries with
  | nil => simp
  | cons entry rest ih =>
    obtain ⟨k, v⟩ := entry
    by_cases hk : name = k
    · simp [hk]
    · simp [lookup_cons_ite, hk, ih]

theorem setEntry_of_not_mem {name : String} {value : α} {entries : List (String × α)}
    (h : name ∉ entries.map Prod.fst) :
    setEntry name value entries = entries ++ [(name, value)] := by
  induction entries with
  | nil => rfl
  | cons entry rest ih =>
    obtain ⟨hne, hrest⟩ := not_or.mp (mt List.mem_cons.mpr h)
    rw [setEntry, if_neg (Ne.symm hne), ih hrest, List.cons_append]

theorem contains_insert {table : Table α} {name other : String} {value : α} :
    (table.insert name value).contains other = true ↔
      other = name ∨ table.contains other = true := by
  rw [contains, get?_insert, contains]
  split
  · rename_i heq
    simp [heq]
  · rename_i hne
    simp [hne]

/-- A table that is set from entries has their names, whatever is set twice. -/
theorem contains_ofList {entries : List (String × α)} {name : String} :
    (ofList entries).contains name = true ↔ name ∈ entries.map Prod.fst := by
  have hfold : ∀ table : Table α,
      (entries.foldl (fun table entry => table.insert entry.1 entry.2) table).contains name = true ↔
        name ∈ entries.map Prod.fst ∨ table.contains name = true := by
    induction entries with
    | nil => simp
    | cons entry rest ih =>
      intro table
      rw [List.foldl_cons, ih, contains_insert, List.map_cons, List.mem_cons]
      constructor
      · rintro (hrest | hfirst | htable)
        · exact .inl (.inr hrest)
        · exact .inl (.inl hfirst)
        · exact .inr htable
      · rintro ((hfirst | hrest) | htable)
        · exact .inr (.inl hfirst)
        · exact .inl hrest
        · exact .inr (.inr htable)
  have hempty : (empty : Table α).contains name = false := rfl
  rw [ofList, hfold, hempty]
  simp

/-- A table that is set from entries with different names has their names, in order. -/
theorem names_ofList {entries : List (String × α)} (h : (entries.map Prod.fst).Nodup) :
    (ofList entries).names = entries.map Prod.fst := by
  have hfold : ∀ table : Table α, (table.names ++ entries.map Prod.fst).Nodup →
      (entries.foldl (fun table entry => table.insert entry.1 entry.2) table).names =
        table.names ++ entries.map Prod.fst := by
    clear h
    induction entries with
    | nil => exact fun table _ => (List.append_nil _).symm
    | cons entry rest ih =>
      intro table hnodup
      have hnew : entry.1 ∉ table.entries.map Prod.fst := fun hmem =>
        (List.nodup_append.mp hnodup).2.2 _ hmem _ (List.mem_cons_self ..) rfl
      have hinsert : (table.insert entry.1 entry.2).names = table.names ++ [entry.1] := by
        rw [insert, names, setEntry_of_not_mem hnew, List.map_append]
        rfl
      rw [List.foldl_cons, ih _ (by simpa [hinsert] using hnodup), hinsert]
      simp
  exact hfold .empty (by simpa [names, empty] using h)

end Table

end Seams
