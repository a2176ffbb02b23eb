import Seams.Proofs.Copies

/-!
# Nothing changes unless something is found

A module without exports and imports comes out as it went in, and gets no override functions. The
code asks for this once, at the end, when it looks at the inventory. It does not ask whether any
edit was made by then, so the promise rests on how statements are worked on: constants are weakened
before the export that calls for it is entered, specifiers are copied before, functions are hoisted
after, and in every branch the edits and the entry must come together.

So each function that opens a statement is taken by itself, for any tree and any state. Some enter
an export or import whenever they succeed. The others do so too, or leave the state as it is.

## Main definitions

* `Workbench.Enters` — there is one more export or import at least
* `Workbench.StaysOrEnters` — nothing has changed, or something was entered
* `Module.FindsNothing` — no statement brings an export or import
* `Module.Course.ByFindings` — what an opened module owes to its exports and imports

## Main results

* `Workbench.visit_staysOrEnters`, `Workbench.visitAll_staysOrEnters` — one statement and several
* `Module.findsNothing_iff` — nothing is found if and only if the inventory stays empty
* `Module.opened_by_findings` — override functions, edits and tables of an opened module
-/

namespace Seams

/-! ### Entries -/

/-- The number of exports and imports that were found. -/
def Inventory.size (inventory : Inventory) : Nat :=
  inventory.exports.length + inventory.imports.length

theorem Inventory.size_addExport (inventory : Inventory) (name localName : String) :
    (inventory.addExport name localName).size = inventory.size + 1 := by
  simp only [size, addExport, List.length_append, List.length_singleton]
  omega

theorem Inventory.size_addImport (inventory : Inventory) (name localName : String) :
    (inventory.addImport name localName).size = inventory.size + 1 := by
  simp only [size, addImport, List.length_append, List.length_singleton]
  omega

theorem Inventory.isEmpty_iff {inventory : Inventory} :
    inventory.isEmpty = true ↔ inventory = {} := by
  obtain ⟨exports, imports⟩ := inventory
  simp [isEmpty]

namespace Workbench

/-- Something was found between two stages of the work. -/
def Enters (before after : Workbench) : Prop :=
  before.inventory.size < after.inventory.size

/-- Nothing has changed between two stages of the work, or something was found. -/
def StaysOrEnters (before after : Workbench) : Prop :=
  after = before ∨ before.Enters after

section

variable {a b c : Workbench}

theorem Enters.after (heq : b.inventory = a.inventory) (h : b.Enters c) : a.Enters c := by
  rw [Enters, heq] at h
  exact h

theorem Enters.before (h : a.Enters b) (heq : c.inventory = b.inventory) : a.Enters c := by
  rw [Enters, heq]
  exact h

theorem StaysOrEnters.refl : a.StaysOrEnters a :=
  .inl rfl

theorem StaysOrEnters.trans (h : a.StaysOrEnters b) (h' : b.StaysOrEnters c) :
    a.StaysOrEnters c := by
  rcases h with rfl | h
  · exact h'
  · rcases h' with rfl | h'
    · exact .inr h
    · exact .inr (Nat.lt_trans h h')

theorem Enters.staysOrEnters {work : Traced Workbench} (h : work.Ensures a.Enters) :
    work.Ensures a.StaysOrEnters :=
  h.mono fun _ => .inr

/-- Whatever was found is still there. -/
theorem StaysOrEnters.size_le (h : a.StaysOrEnters b) : a.inventory.size ≤ b.inventory.size := by
  rcases h with rfl | h
  · exact Nat.le_refl _
  · exact Nat.le_of_lt h

/-- If nothing more was found, then nothing has changed at all. -/
theorem StaysOrEnters.eq_of_inventory (h : a.StaysOrEnters b) (heq : b.inventory = a.inventory) :
    b = a := by
  rcases h with h | h
  · exact h
  · rw [Enters, heq] at h
    exact absurd h (Nat.lt_irrefl _)

end

variable {bench : Workbench}

/-! ### What enters nothing by itself -/

theorem edit_inventory {change : Draft → Except Failure Draft} {next : Workbench}
    (h : bench.edit change = .ok next) : next.inventory = bench.inventory := by
  obtain ⟨draft, -, rfl⟩ := edit_eq h
  rfl

theorem claimName_inventory {node : Node} {localName : String} {next : Workbench}
    (h : bench.claimName node = .ok (localName, next)) : next.inventory = bench.inventory := by
  rw [claimName] at h
  split at h
  · cases h
    rfl
  · obtain ⟨name, -, h⟩ := bind_eq_ok.mp h
    cases h
    rfl

theorem weaken_inventory (bench : Workbench) (name : String) :
    (bench.weaken name).Ensures fun next => next.inventory = bench.inventory := by
  rw [weaken]
  split
  · exact .pure rfl
  · split
    · exact .pure rfl
    · refine .note_bind ?_
      split
      · exact .pure rfl
      · refine .lift fun next hnext => ?_
        rw [edit_inventory hnext]
        rfl

theorem weakenAll_inventory (bench : Workbench) (names : List String) :
    (bench.weakenAll names).Ensures fun next => next.inventory = bench.inventory := by
  induction names generalizing bench with
  | nil => exact .pure rfl
  | cons name rest ih =>
    refine .bind (bench.weaken_inventory name) ?_
    intro next hnext
    exact (ih next).mono fun last hlast => hlast.trans hnext

/-! ### Functions, classes and other values -/

theorem addExport_enters (bench : Workbench) (name localName : String) :
    (bench.addExport name localName).Ensures bench.Enters := by
  refine (addExport_ensures bench name localName).mono ?_
  rintro _ rfl
  rw [Enters, Inventory.size_addExport]
  exact Nat.lt_succ_self _

theorem claimExport_enters (bench : Workbench) (node : Node) (name : String) :
    (bench.claimExport node name).Ensures fun claimed => bench.Enters claimed.2 := by
  refine .lift_bind ?_
  rintro ⟨localName, claimed⟩ hclaimed
  refine .bind (addExport_enters _ name localName) ?_
  intro next hnext
  exact .pure (hnext.after (claimName_inventory hclaimed))

theorem hoistFunction_enters (bench : Workbench) (statement function : Node) (name : String) :
    (bench.hoistFunction statement function name).Ensures bench.Enters := by
  refine .bind (bench.claimExport_enters function name) ?_
  rintro ⟨localName, claimed⟩ hclaimed
  refine .lift_bind fun code _ => .lift_bind fun hoisted hhoisted => .lift fun next hnext => ?_
  exact (hclaimed.before (edit_inventory hhoisted)).before (edit_inventory hnext)

theorem inlineClass_enters (bench : Workbench) (statement classNode : Node) (name : String) :
    (bench.inlineClass statement classNode name).Ensures bench.Enters := by
  refine .bind (bench.claimExport_enters classNode name) ?_
  rintro ⟨localName, claimed⟩ hclaimed
  refine .lift_bind fun decorators _ => .lift_bind fun code _ => .lift fun next hnext => ?_
  exact hclaimed.before (edit_inventory hnext)

theorem storeDefault_enters (bench : Workbench) (statement value : Node) :
    (bench.storeDefault statement value).Ensures bench.Enters := by
  refine .bind (addExport_enters _ defaultName (bench.fresh defaultName).1) ?_
  intro entered hentered
  refine .lift_bind fun code _ => .lift fun next hnext => ?_
  exact (hentered.after rfl).before (edit_inventory hnext)

/-! ### Default exports -/

/-- A default export that is a name is entered, whether or not it was weakened before. -/
theorem openDefaultName_enters (bench : Workbench) (statement target : Node) :
    (bench.openDefaultName statement target).Ensures bench.Enters := by
  rw [openDefaultName]
  refine .lift_bind fun name _ => ?_
  extract_lets keepName
  have hkeep : ∀ next, next.inventory = bench.inventory →
      (keepName next).Ensures bench.Enters := by
    intro next heq
    have hstore : (next.storeDefault statement target).Ensures bench.Enters :=
      (next.storeDefault_enters statement target).mono fun last hlast => hlast.after heq
    unfold keepName
    split
    · split
      · exact hstore
      · refine .bind (next.addExport_enters defaultName name) ?_
        intro entered hentered
        refine .lift fun last hlast => ?_
        exact (hentered.after heq).before (edit_inventory hlast)
    · exact hstore
  split
  · exact .bind (bench.weaken_inventory name) hkeep
  · exact .bind (P := fun next => next.inventory = bench.inventory) (.pure rfl) hkeep

theorem openDefaultExport_staysOrEnters (bench : Workbench) (statement : Node) :
    (bench.openDefaultExport statement).Ensures bench.StaysOrEnters := by
  rw [openDefaultExport]
  split
  · exact .pure .refl
  · rename_i target _
    split
    · exact Enters.staysOrEnters (bench.openDefaultName_enters statement target)
    · split
      · exact Enters.staysOrEnters (bench.hoistFunction_enters statement target defaultName)
      · split
        · exact Enters.staysOrEnters (bench.inlineClass_enters statement target defaultName)
        · exact Enters.staysOrEnters (bench.storeDefault_enters statement target)

/-! ### Exported declarations -/

theorem addExports_staysOrEnters (bench : Workbench) (names : List String) :
    (bench.addExports names).Ensures bench.StaysOrEnters := by
  induction names generalizing bench with
  | nil => exact .pure .refl
  | cons name rest ih =>
    refine .bind (bench.addExport_enters name name) ?_
    intro next hnext
    exact (ih next).mono fun last hlast => StaysOrEnters.trans (.inr hnext) hlast

/-- Weakening comes before the entries, but the names that are weakened are those that are
entered. -/
theorem weakenAll_addExports_staysOrEnters (bench : Workbench) (names : List String) :
    (bench.weakenAll names >>= fun next => next.addExports names).Ensures bench.StaysOrEnters := by
  cases names with
  | nil => exact .bind (P := (· = bench)) (.pure rfl) fun next hnext => .pure (.inl hnext)
  | cons name rest =>
    refine .bind (bench.weakenAll_inventory (name :: rest)) ?_
    intro next hnext
    refine .bind (next.addExport_enters name name) ?_
    intro entered hentered
    exact (addExports_staysOrEnters entered rest).mono fun last hlast =>
      StaysOrEnters.trans (.inr (hentered.after hnext)) hlast

theorem openVariables_staysOrEnters (bench : Workbench) (declaration : Node) :
    (bench.openVariables declaration).Ensures bench.StaysOrEnters := by
  refine .lift_bind fun names _ => ?_
  split
  · split
    · exact bench.weakenAll_addExports_staysOrEnters names
    · exact .note_bind (.pure .refl)
  · exact bench.addExports_staysOrEnters names

theorem openDeclaration_staysOrEnters (bench : Workbench) (statement declaration : Node) :
    (bench.openDeclaration statement declaration).Ensures bench.StaysOrEnters := by
  rw [openDeclaration]
  split
  · exact bench.openVariables_staysOrEnters declaration
  · split
    · refine .lift_bind fun name _ => ?_
      exact Enters.staysOrEnters (bench.hoistFunction_enters statement declaration name)
    · split
      · refine .lift_bind fun name _ => ?_
        exact Enters.staysOrEnters (bench.inlineClass_enters statement declaration name)
      · exact .pure .refl

/-! ### Export specifiers -/

theorem copySpecifier_enters (bench : Workbench) (statement specifier : Node)
    (localName name : String) :
    (bench.copySpecifier statement specifier localName name).Ensures bench.Enters := by
  refine (bench.copySpecifier_ensures statement specifier localName name).mono ?_
  rintro _ rfl
  rw [Enters, Inventory.size_addExport]
  exact Nat.lt_succ_self _

theorem openNamedSpecifier_staysOrEnters (bench : Workbench) (statement specifier : Node)
    (localName name : String) :
    (bench.openNamedSpecifier statement specifier localName name).Ensures bench.StaysOrEnters := by
  rw [openNamedSpecifier]
  split
  · exact .note_bind (.pure .refl)
  · split
    · refine .bind (bench.weaken_inventory localName) ?_
      intro weakened hweakened
      refine Enters.staysOrEnters ?_
      exact (weakened.addExport_enters name localName).mono fun next hnext => hnext.after hweakened
    · split
      · refine Enters.staysOrEnters ?_
        exact bench.copySpecifier_enters statement specifier localName name
      · exact Enters.staysOrEnters (bench.addExport_enters name localName)

theorem openSpecifier_staysOrEnters (bench : Workbench) (statement specifier : Node) :
    (bench.openSpecifier statement specifier).Ensures bench.StaysOrEnters := by
  refine .lift_bind ?_
  rintro ⟨localNode, nameNode⟩ -
  dsimp only
  split
  · exact .lift_bind fun text _ => .note_bind (.pure .refl)
  · refine .lift_bind fun localName _ => .lift_bind fun name _ => ?_
    exact bench.openNamedSpecifier_staysOrEnters statement specifier localName name

theorem openSpecifiers_staysOrEnters (bench : Workbench) (statement : Node)
    (specifiers : List Node) :
    (bench.openSpecifiers statement specifiers).Ensures bench.StaysOrEnters := by
  induction specifiers generalizing bench with
  | nil => exact .pure .refl
  | cons specifier rest ih =>
    refine .bind (bench.openSpecifier_staysOrEnters statement specifier) ?_
    intro next hnext
    exact (ih next).mono fun last hlast => hnext.trans hlast

theorem openExport_staysOrEnters (bench : Workbench) (statement : Node) :
    (bench.openExport statement).Ensures bench.StaysOrEnters := by
  rw [openExport]
  split
  · exact .note_bind (.pure .refl)
  · split
    · exact bench.openDefaultExport_staysOrEnters statement
    · split
      · exact bench.openDeclaration_staysOrEnters statement _
      · rw [openClause_eq]
        exact bench.openSpecifiers_staysOrEnters statement _

/-! ### Imports -/

theorem addImport_enters (bench : Workbench) (name localName : String) :
    (bench.addImport name localName).Ensures bench.Enters := by
  refine .note_bind (.pure ?_)
  rw [Enters, Inventory.size_addImport]
  exact Nat.lt_succ_self _

theorem placeAlias_inventory {binding : ImportBinding} {localName : String} {next : Workbench}
    (h : bench.placeAlias binding localName = .ok next) : next.inventory = bench.inventory := by
  rw [placeAlias] at h
  split at h
  · obtain ⟨specifier, -, h⟩ := bind_eq_ok.mp h
    exact edit_inventory h
  · exact edit_inventory h

/-- An imported name is entered if it is intercepted, and left alone otherwise. -/
theorem interceptBinding_staysOrEnters (bench : Workbench) (binding : ImportBinding) :
    (bench.interceptBinding binding).Ensures fun taken =>
      (taken.2 = none ∧ taken.1 = bench) ∨ (taken.2.isSome = true ∧ bench.Enters taken.1) := by
  refine .lift_bind fun name _ => ?_
  split
  · exact .note_bind (.pure (.inl ⟨rfl, rfl⟩))
  · refine .lift_bind fun placed hplaced => ?_
    refine .bind (placed.addImport_enters name (bench.fresh name).1) ?_
    intro next hnext
    have hplaced : placed.inventory = bench.inventory := (placeAlias_inventory hplaced).trans rfl
    exact .pure (.inr ⟨rfl, hnext.after hplaced⟩)

theorem interceptAll_staysOrEnters (bench : Workbench) (bindings : List ImportBinding) :
    (bench.interceptAll bindings).Ensures fun taken =>
      (taken.2 = [] ∧ taken.1 = bench) ∨ (taken.2 ≠ [] ∧ bench.Enters taken.1) := by
  induction bindings generalizing bench with
  | nil => exact .pure (.inl ⟨rfl, rfl⟩)
  | cons binding rest ih =>
    refine .bind (bench.interceptBinding_staysOrEnters binding) ?_
    rintro ⟨next, entry⟩ hnext
    refine .bind (ih next) ?_
    rintro ⟨last, entries⟩ hlast
    refine .pure ?_
    rcases hnext with ⟨rfl, rfl⟩ | ⟨hentry, hnext⟩
    · exact hlast
    · obtain ⟨found, rfl⟩ := Option.isSome_iff_exists.mp hentry
      refine .inr ⟨by simp, ?_⟩
      rcases hlast with ⟨-, rfl⟩ | ⟨-, hlast⟩
      · exact hnext
      · exact Nat.lt_trans hnext hlast

theorem openImport_staysOrEnters (bench : Workbench) (statement : Node) :
    (bench.openImport statement).Ensures bench.StaysOrEnters := by
  intro next hnext
  obtain ⟨taken, entries, htaken, rfl⟩ := openImport_taken hnext
  have htaken := bench.interceptAll_staysOrEnters statement.importBindings _ htaken
  rcases htaken with ⟨hnone, heq⟩ | ⟨-, hentered⟩
  · left
    dsimp only at hnone heq
    rw [hnone, heq]
    rfl
  · right
    refine hentered.before ?_
    split <;> rfl

/-! ### Statements -/

/-- **Working on one statement** changes nothing, or it brings an export or import. -/
theorem visit_staysOrEnters (bench : Workbench) (statement : Node) :
    (bench.visit statement).Ensures bench.StaysOrEnters := by
  rw [visit]
  split
  · exact bench.openImport_staysOrEnters statement
  · exact bench.openExport_staysOrEnters statement
  · exact .pure .refl

theorem visitAll_staysOrEnters (bench : Workbench) (statements : List Node) :
    (bench.visitAll statements).Ensures bench.StaysOrEnters := by
  induction statements generalizing bench with
  | nil => exact .pure .refl
  | cons statement rest ih =>
    refine .bind (bench.visit_staysOrEnters statement) ?_
    intro next hnext
    exact (ih next).mono fun last hlast => hnext.trans hlast

end Workbench

/-! ### Override functions -/

namespace Workbench

theorem addOverrides_of_isEmpty {bench : Workbench} (h : bench.inventory.isEmpty = true) :
    bench.addOverrides.result = .ok ({}, bench) := by
  rw [addOverrides, h]
  rfl

/-- Functions are added to a module in which something was found. -/
theorem addOverrides_planned {bench last : Workbench} {overrides : Overrides}
    (hfound : bench.inventory.isEmpty = false)
    (h : bench.addOverrides.result = .ok (overrides, last)) :
    ∃ plan planned, Planned bench plan planned ∧ plan.overrides = overrides := by
  rcases addOverrides_ok h with ⟨hempty, -, -⟩ | ⟨plan, planned, topped, hplan, heq, -, -⟩
  · rw [hempty] at hfound
    cases hfound
  · exact ⟨plan, planned, planOverrides_ensures bench _ hplan, heq⟩

end Workbench

section

variable {visited planned : Workbench} {plan : OverridePlan}

/-- Every export has an override function under its name, and there are no others. -/
theorem Planned.contains_exports (h : Planned visited plan planned) (name : String) :
    plan.overrides.exports.contains name = true ↔
      name ∈ visited.inventory.exports.map Export.name := by
  have hkeys : (plan.exports.map fun entry => (entry.1.name, entry.2)).map Prod.fst =
      plan.exports.map fun entry => entry.1.name := by
    simp [Function.comp_def]
  show (Table.ofList _).contains name = true ↔ _
  rw [Table.contains_ofList, hkeys, h.names_exports, Inventory.map_name_uniqueExports,
    List.mem_eraseDups]

/-- Every import has an override function under its name, and there are no others. -/
theorem Planned.contains_imports (h : Planned visited plan planned) (name : String) :
    plan.overrides.imports.contains name = true ↔
      name ∈ visited.inventory.imports.map Import.name := by
  have hkeys : (plan.imports.map fun entry => (entry.1.name, entry.2)).map Prod.fst =
      (plan.imports.map Prod.fst).map Import.name := by
    simp [Function.comp_def]
  show (Table.ofList _).contains name = true ↔ _
  rw [Table.contains_ofList, hkeys, h.imports]

end

/-! ### Opened modules -/

namespace Module

/-- No statement of a module brings an export or import, when it has its turn. -/
def FindsNothing (m : Module) (begun : Workbench) : Prop :=
  ∀ site statement before after, m.root.namedChildren[site]? = some statement →
    (begun.visitAll (m.root.namedChildren.take site)).result = .ok before →
    (before.visit statement).result = .ok after → after.inventory = before.inventory

/-- **Nothing is found** if and only if the inventory is in the end what it was at the start. -/
theorem findsNothing_iff {m : Module} {begun visited : Workbench}
    (hvisit : (begun.visitAll m.root.namedChildren).result = .ok visited) :
    m.FindsNothing begun ↔ visited.inventory = begun.inventory := by
  constructor
  · intro hnothing
    -- the state is the same after each number of statements
    have hsame : ∀ count next,
        (begun.visitAll (m.root.namedChildren.take count)).result = .ok next → next = begun := by
      intro count
      induction count with
      | zero =>
        intro next hnext
        exact (Except.ok.inj hnext).symm
      | succ count ih =>
        intro next hnext
        cases hplace : m.root.namedChildren[count]? with
        | none =>
          rw [List.take_add_one, hplace, Option.toList_none, List.append_nil] at hnext
          exact ih next hnext
        | some statement =>
          obtain ⟨before, hbefore, hnext⟩ := (Workbench.visitAll_take_succ hplace).mp hnext
          have hstays := before.visit_staysOrEnters statement next hnext
          rw [hstays.eq_of_inventory (hnothing _ _ _ _ hplace hbefore hnext)]
          exact ih before hbefore
    rw [hsame m.root.namedChildren.length visited (by rw [List.take_length]; exact hvisit)]
  · intro heq site statement before after hplace hbefore hafter
    have hwhole := hvisit
    rw [← List.take_append_drop (site + 1) m.root.namedChildren] at hwhole
    obtain ⟨next, hnext, hrest⟩ := Workbench.visitAll_append.mp hwhole
    obtain ⟨again, hagain, hsite⟩ := (Workbench.visitAll_take_succ hplace).mp hnext
    obtain rfl : before = again := Except.ok.inj (hbefore.symm.trans hagain)
    obtain rfl : after = next := Except.ok.inj (hafter.symm.trans hsite)
    -- Otherwise the inventory would have grown, and it never shrinks again.
    rcases before.visit_staysOrEnters statement after hafter with hstays | hentered
    · rw [hstays]
    · have hfirst := (begun.visitAll_staysOrEnters _ before hbefore).size_le
      have hlast := (after.visitAll_staysOrEnters _ visited hrest).size_le
      rw [Workbench.Enters] at hentered
      rw [heq] at hlast
      omega

/-- The stages of the work on an opened module. -/
structure Course (m : Module) (options : Options) (opening : Opening) where
  begun : Workbench
  visited : Workbench
  last : Workbench
  starts : (Workbench.start options (Text.encode m.source) m.root).result = .ok begun
  visits : (begun.visitAll m.root.namedChildren).result = .ok visited
  adds : visited.addOverrides.result = .ok (opening.overrides, last)
  renders : (last.finalCode m.source).result = .ok opening.code

end Module

namespace Module.Course

variable {m : Module} {options : Options} {opening : Opening} (course : m.Course options opening)

/-- What an opened module owes to the exports and imports that were found. -/
structure ByFindings : Prop where
  /-- The inventory tells whether any statement brought something. -/
  found : m.FindsNothing course.begun ↔ course.visited.inventory = {}
  /-- There is no function that undoes the others just where nothing was found. -/
  restore : opening.overrides.restore = none ↔ course.visited.inventory = {}
  /-- Where nothing was found, the work ends as it began, and the module is what it was. -/
  untouched : course.visited.inventory = {} →
    course.last = course.begun ∧ course.last.draft.edits = [] ∧ opening = ⟨m.source, {}⟩
  /-- The tables have the names of the exports and imports that were found, and no others. -/
  exports : ∀ name, opening.overrides.exports.contains name = true ↔
    name ∈ course.visited.inventory.exports.map Export.name
  imports : ∀ name, opening.overrides.imports.contains name = true ↔
    name ∈ course.visited.inventory.imports.map Import.name

theorem isBegun : Begun m course.begun :=
  Workbench.start_ensures m options _ course.starts

theorem findsNothing_iff : m.FindsNothing course.begun ↔ course.visited.inventory = {} := by
  rw [Module.findsNothing_iff course.visits, course.isBegun.inventory]

/-- A module in which nothing was found stays as it is. -/
theorem eq_of_empty (h : course.visited.inventory = {}) :
    course.last = course.begun ∧ course.last.draft.edits = [] ∧ opening = ⟨m.source, {}⟩ := by
  have hvisited : course.visited = course.begun :=
    (course.begun.visitAll_staysOrEnters _ _ course.visits).eq_of_inventory
      (h.trans course.isBegun.inventory.symm)
  have hadds := Workbench.addOverrides_of_isEmpty (Inventory.isEmpty_iff.mpr h)
  rw [course.adds] at hadds
  obtain ⟨hoverrides, hlast⟩ := Prod.mk.inj (Except.ok.inj hadds)
  have hedits : course.last.draft.edits = [] := by
    rw [hlast, hvisited, (Workbench.start_frame _ _ _ _ course.starts).2.2]
  have hcode := course.renders
  rw [Workbench.finalCode, if_pos (by rw [Draft.editCount, hedits]; rfl)] at hcode
  refine ⟨hlast.trans hvisited, hedits, ?_⟩
  calc opening
      = ⟨opening.code, opening.overrides⟩ := rfl
    _ = ⟨m.source, {}⟩ := by rw [← Except.ok.inj hcode, hoverrides]

theorem byFindings : course.ByFindings := by
  cases hempty : course.visited.inventory.isEmpty with
  | true =>
    have hnothing := Inventory.isEmpty_iff.mp hempty
    have hopening := (course.eq_of_empty hnothing).2.2
    have hoverrides : opening.overrides = {} := congrArg Opening.overrides hopening
    refine ⟨course.findsNothing_iff, ?_, course.eq_of_empty, ?_, ?_⟩
    · simp [hoverrides, hnothing]
    · intro name
      rw [hoverrides, hnothing]
      simp [Table.contains, Table.get?, Table.empty]
    · intro name
      rw [hoverrides, hnothing]
      simp [Table.contains, Table.get?, Table.empty]
  | false =>
    have hsome : course.visited.inventory ≠ {} := by
      intro hnothing
      rw [Inventory.isEmpty_iff.mpr hnothing] at hempty
      cases hempty
    obtain ⟨plan, planned, hplanned, hoverrides⟩ :=
      Workbench.addOverrides_planned hempty course.adds
    refine ⟨course.findsNothing_iff, ?_, course.eq_of_empty, ?_, ?_⟩
    · have hrestore : opening.overrides.restore ≠ none := by
        rw [← hoverrides]
        exact Option.some_ne_none _
      exact iff_of_false hrestore hsome
    · rw [← hoverrides]
      exact hplanned.contains_exports
    · rw [← hoverrides]
      exact hplanned.contains_imports

end Module.Course

/-- **An opened module owes what it got to what was found in it.** It has a function that undoes the
others if and only if an export or import was found, and its tables then have the names of all that
was found. If no statement brings one, then no edit was made, no constant was weakened, and the
module comes out as it was, with no override functions. -/
theorem Module.opened_by_findings {m : Module} {options : Options} {opening : Opening}
    (h : (m.transform options).outcome = .opened opening) :
    ∃ course : m.Course options opening, course.ByFindings := by
  obtain ⟨begun, visited, last, hstart, hvisit, hadd, hcode⟩ := exists_course h
  exact ⟨⟨begun, visited, last, hstart, hvisit, hadd, hcode⟩, Course.byFindings _⟩

namespace Module

/-- A module that exports one constant: `export const b = 1;`. -/
def constant : Module where
  source := "export const b = 1;\n"
  root := { kind := .program, start := 0, stop := 20, children := [
    { kind := .exportStatement, start := 0, stop := 19, children := [
      { kind := .other "export", start := 0, stop := 6, named := false },
      { kind := .lexicalDeclaration, start := 7, stop := 19, role := some .declaration,
        children := [
        { kind := .keywordConst, start := 7, stop := 12, role := some .kind, named := false },
        { kind := .variableDeclarator, start := 13, stop := 18, children := [
          { kind := .identifier, start := 13, stop := 14, role := some .name },
          { kind := .other "number", start := 17, stop := 18, role := some .value }] }] }] }] }

/-- The exported constant comes out as it was, and the specimen gets override functions. -/
theorem opened_by_findings_constant :
    ((constant.transform {}).outcome = .opened ⟨constant.source, {}⟩ ∧
      ∃ course : constant.Course {} ⟨constant.source, {}⟩, course.ByFindings) ∧
    ∃ opening, (specimen.transform {}).outcome = .opened opening ∧
      opening.overrides.restore.isSome = true ∧
      ∃ course : specimen.Course {} opening, course.ByFindings := by
  have hconstant : (constant.transform {}).outcome = .opened ⟨constant.source, {}⟩ := by
    decide +kernel
  obtain ⟨opening, hopened, hsome⟩ := specimen_opened {}
  exact ⟨⟨hconstant, opened_by_findings hconstant⟩, opening, hopened, hsome,
    opened_by_findings hopened⟩

end Module

end Seams
