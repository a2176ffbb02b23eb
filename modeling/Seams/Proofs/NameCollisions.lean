import Seams.Proofs.Run

/-!
# Generated names collide with nothing

All names that an opened module gets differ from each other, and the module has bound none of them.
Most are unlike every identifier of the module, too: only a name that was reserved as it was wanted
may occur in it. The parameter of the override functions hides none of the variables that they
assign to or the function that they call.

## Main definitions

* `Module.Mentions` — an identifier of the module
* `Entered` — whatever was found in a module is bound
* `Module.Run.names` — all names that an opened module gets
* `Module.Run.Apart` — the names collide with nothing

## Main results

* `Module.Run.names_nodup`, `Module.Run.names_unbound` — the names differ and are new
* `Module.Run.not_mentions_of_mem` — names that are made up are no identifiers of the module
* `Module.opened_apart` — the names of an opened module collide with nothing
-/

namespace Seams

/-- A name is the text of an identifier anywhere in a module. -/
def Module.Mentions (m : Module) (name : String) : Prop :=
  ∃ node ∈ m.root.subtree, node.kind.isIdentifier = true ∧
    node.text (Text.encode m.source) = .ok name

/-! ### What was found is bound -/

/-- The variables behind all exports are bound, and so are the names of all imports, those that
were found and those still to come. -/
structure Entered (m : Module) (bench : Workbench) : Prop where
  introduced : ∀ statement ∈ m.root.namedChildren, ∀ name,
    statement.Introduces (Text.encode m.source) name → bench.scope.binds name = true
  exports : ∀ entry ∈ bench.inventory.exports, bench.scope.binds entry.localName = true
  imports : ∀ entry ∈ bench.inventory.imports, bench.scope.binds entry.name = true

section

variable {m : Module} {a b : Workbench} {deed : Deed} {deeds : List Deed}

theorem Begun.entered (h : Begun m a) : Entered m a where
  introduced _ hstatement _ hname := Scope.ofTree_binds h.scope hstatement hname
  exports := by simp [h.inventory]
  imports := by simp [h.inventory]

theorem Step.entered (h : Step m a deed b) (ha : Entered m a) : Entered m b where
  introduced statement hstatement name hname :=
    h.binds (ha.introduced statement hstatement name hname)
  exports := by
    refine h.exports (P := fun scope name => scope.binds name = true) (fun name => h.binds) ?_ ?_ ?_
      ha.exports
    · exact fun name binding hb _ _ => Scope.binds_iff.mpr ⟨binding, hb⟩
    · exact fun statement hstatement _ name hname _ => ha.introduced statement hstatement name hname
    · exact fun scope name => Scope.binds_iff.mpr ⟨_, by rw [Scope.get?_register, if_pos rfl]⟩
  imports := by
    have hold : ∀ entry ∈ a.inventory.imports, b.scope.binds entry.name = true :=
      fun entry hentry => h.binds (ha.imports entry hentry)
    cases h with
    | @intercept statement name draft hstatement hname hsource =>
      intro entry hentry
      rcases List.mem_append.mp hentry with hentry | hentry
      · exact hold entry hentry
      · obtain rfl := List.mem_singleton.mp hentry
        exact Scope.binds_register (ha.introduced statement hstatement name hname)
    | edit | weaken | keep | declare | claim | store => exact hold

theorem Steps.entered (h : Steps m a deeds b) (ha : Entered m a) : Entered m b :=
  h.keeps (fun _ _ _ hstep => hstep.entered) ha

end

namespace Module.Run

variable {m : Module} {options : Options} (run : m.Run options)

/-! ### All names -/

/-- The names at the top level that an opened module gets: those of the runtime, the aliases of the
imports, the variables made for exports, the slots, and the override functions. -/
def names : List String :=
  run.visited.runtime.all ++ run.visited.inventory.imports.map Import.alias ++
    stored run.deeds ++ run.plan.slots ++ run.plan.functions

/-- The reservations by choice: for the runtime, the parameter and the override functions. -/
def reserved : List (List String × String) :=
  run.visited.runtime.reserved ++ (["$stub"], run.plan.parameter) :: run.plan.reserved

theorem imports_alias : run.visited.inventory.imports.map Import.alias = aliases run.deeds := by
  rw [run.steps.imports, run.isBegun.inventory]
  rfl

/-- What was generated before the statements were worked on. -/
theorem grants_begun :
    Names.GrantsAll ⟨run.begun.scope, []⟩ run.visited.runtime.all run.begun.names := by
  rw [run.steps.runtime]
  exact run.isBegun.reserves.grants

/-- What was generated after the statements were worked on. -/
theorem grants_planned : run.visited.names.GrantsAll
    (run.plan.slots ++ run.plan.parameter :: run.plan.functions) run.planned.names := by
  have hgrants := run.isPlanned.reserves.grants
  rw [List.map_append, List.map_cons, List.map_map, run.plan.reserved_names] at hgrants
  simpa [Function.comp_def] using hgrants

theorem mem_visited_issued {name : String} : name ∈ run.visited.names.issued ↔
    name ∈ generated run.deeds ∨ name ∈ run.visited.runtime.all := by
  rw [run.steps.issued.2.1, run.grants_begun.issued]
  simp

/-- **The names differ from each other.** -/
theorem names_nodup : run.names.Nodup := by
  obtain ⟨hgenerated, -, hnew⟩ := run.steps.issued
  have hperm := generated_perm run.deeds
  have hruntime : (run.visited.runtime.all ++ generated run.deeds).Nodup := by
    refine List.nodup_append'.mpr ⟨run.grants_begun.nodup, hgenerated, fun name h₁ h₂ => ?_⟩
    exact (hnew name h₂).1 ((run.grants_begun.issued name).mpr (.inl h₁))
  have hadded : (run.plan.slots ++ run.plan.functions).Nodup := by
    refine run.grants_planned.nodup.sublist ?_
    exact (List.Sublist.refl _).append (List.sublist_cons_self _ _)
  have hall : ((run.visited.runtime.all ++ generated run.deeds) ++
      (run.plan.slots ++ run.plan.functions)).Nodup := by
    refine List.nodup_append'.mpr ⟨hruntime, hadded, fun name h₁ h₂ => ?_⟩
    refine run.grants_planned.new name ?_ (run.mem_visited_issued.mpr ?_)
    · simp only [List.mem_append, List.mem_cons] at h₂ ⊢
      tauto
    · simp only [List.mem_append] at h₁
      tauto
  rw [names, imports_alias, List.append_assoc, List.append_assoc _ _ (stored run.deeds)]
  exact (((hperm.append_left _).append_right _).nodup_iff).mp hall

/-- A name of an opened module is one of the runtime, one that the statements led to, or one that
was added in the end. -/
theorem mem_names {name : String} (h : name ∈ run.names) :
    name ∈ run.visited.runtime.all ∨ name ∈ generated run.deeds ∨
      name ∈ run.plan.slots ++ run.plan.parameter :: run.plan.functions := by
  have hperm := (generated_perm run.deeds).mem_iff (a := name)
  rw [names, imports_alias] at h
  simp only [List.mem_append, List.mem_cons] at *
  tauto

/-- **The module has bound none of the names.** -/
theorem names_unbound {name : String} (h : name ∈ run.names) :
    run.begun.scope.binds name = false := by
  rcases run.mem_names h with h | h | h
  · exact run.grants_begun.unbound name h
  · exact (run.steps.issued.2.2 name h).2.1
  · have hunbound : run.visited.scope.binds name = false := run.grants_planned.unbound name h
    rw [← Bool.not_eq_true] at *
    exact fun hbound => hunbound (run.steps.binds hbound)

/-! ### Identifiers -/

theorem mem_references_of_mentions {name : String} (h : m.Mentions name) :
    name ∈ run.begun.scope.references := by
  obtain ⟨node, hnode, hkind, htext⟩ := h
  exact Scope.ofTree_references run.isBegun.scope hnode hkind htext

theorem mem_visited_references {name : String} (h : m.Mentions name) :
    name ∈ run.visited.scope.references :=
  run.steps.keeps (P := fun bench => name ∈ bench.scope.references)
    (fun _ _ _ hstep hname => hstep.references hname) (run.mem_references_of_mentions h)

/-- **A name that is made up is no identifier of the module.** -/
theorem not_mentions_of_mem {name : String}
    (h : name ∈ run.visited.inventory.imports.map Import.alias ++ stored run.deeds ++
      run.plan.slots) : ¬ m.Mentions name := by
  intro hmentions
  rw [imports_alias] at h
  rcases List.mem_append.mp h with h | h
  · have hgenerated := (generated_perm run.deeds).mem_iff.mpr h
    exact (run.steps.issued.2.2 name hgenerated).2.2 (run.mem_references_of_mentions hmentions)
  · have hslot : (([] : List String), name) ∈
        run.plan.slots.map (([], ·)) ++ (["$stub"], run.plan.parameter) :: run.plan.reserved :=
      List.mem_append_left _ (List.mem_map_of_mem h)
    rcases run.isPlanned.reserves.mem_or_fresh hslot with hnone | ⟨-, hnot⟩
    · cases hnone
    · exact hnot (run.mem_visited_references hmentions)

/-- A reserved name that is not as it was wanted is no identifier of the module either. -/
theorem not_mentions_of_reserved {choices : List String} {name : String}
    (h : (choices, name) ∈ run.reserved) (hmadeUp : name ∉ choices) : ¬ m.Mentions name := by
  intro hmentions
  rcases List.mem_append.mp h with h | h
  · rw [run.steps.runtime] at h
    exact (run.isBegun.reserves.mem_or_fresh h).elim hmadeUp
      fun hnot => hnot.2 (run.mem_references_of_mentions hmentions)
  · have hplanned : (choices, name) ∈
        run.plan.slots.map (([], ·)) ++ (["$stub"], run.plan.parameter) :: run.plan.reserved :=
      List.mem_append_right _ h
    exact (run.isPlanned.reserves.mem_or_fresh hplanned).elim hmadeUp
      fun hnot => hnot.2 (run.mem_visited_references hmentions)

/-! ### The parameter -/

theorem parameter_unbound : run.visited.scope.binds run.plan.parameter = false :=
  run.grants_planned.unbound _ (List.mem_append_right _ (List.mem_cons_self ..))

/-- The parameter is none of the names that an opened module gets. -/
theorem parameter_not_mem_names : run.plan.parameter ∉ run.names := by
  intro h
  have hnodup := run.grants_planned.nodup
  have hnew := run.grants_planned.new run.plan.parameter
    (List.mem_append_right _ (List.mem_cons_self ..))
  rw [List.nodup_append', List.nodup_cons] at hnodup
  obtain ⟨-, ⟨hfunctions, -⟩, hslots⟩ := hnodup
  have hslots : run.plan.parameter ∉ run.plan.slots := fun hslot =>
    hslots hslot (List.mem_cons_self ..)
  rw [mem_visited_issued, not_or] at hnew
  have hperm := (generated_perm run.deeds).mem_iff (a := run.plan.parameter)
  rw [names, imports_alias] at h
  simp only [List.mem_append] at *
  tauto

end Module.Run

/-! ### Opened modules -/

/-- The names of a run collide with nothing. -/
structure Module.Run.Apart {m : Module} {options : Options} (run : m.Run options) : Prop where
  /-- The names differ from each other. -/
  distinct : run.names.Nodup
  /-- The module has bound none of them at its top level. -/
  unbound : ∀ scope, Scope.ofTree (Text.encode m.source) m.root = .ok scope →
    ∀ name ∈ run.names, scope.binds name = false
  /-- Aliases, variables and slots are made up, and no identifiers of the module. -/
  madeUp : ∀ name ∈ run.visited.inventory.imports.map Import.alias ++ stored run.deeds ++
    run.plan.slots, ¬ m.Mentions name
  /-- A reserved name that is none of its choices is made up as well. -/
  reserved : ∀ entry ∈ run.reserved, entry.2 ∉ entry.1 → ¬ m.Mentions entry.2
  /-- The parameter hides no variable behind an export. -/
  exports : ∀ entry ∈ run.visited.inventory.exports, run.plan.parameter ≠ entry.localName
  /-- The parameter hides no name of an import. -/
  imports : ∀ entry ∈ run.visited.inventory.imports, run.plan.parameter ≠ entry.name
  slots : run.plan.parameter ∉ run.plan.slots
  applyFunction : run.plan.parameter ≠ run.visited.runtime.applyFunction

theorem Module.Run.apart {m : Module} {options : Options} (run : m.Run options) : run.Apart := by
  have hentered := run.steps.entered run.isBegun.entered
  have hbound : ∀ name, run.visited.scope.binds name = true → run.plan.parameter ≠ name := by
    rintro _ hname rfl
    rw [run.parameter_unbound] at hname
    cases hname
  have hparameter := run.parameter_not_mem_names
  simp only [names, List.mem_append, not_or] at hparameter
  obtain ⟨⟨⟨⟨hruntime, -⟩, -⟩, hslots⟩, -⟩ := hparameter
  refine ⟨run.names_nodup, fun scope hscope name hname => ?_,
    fun name hname => run.not_mentions_of_mem hname,
    fun entry hentry hmadeUp => run.not_mentions_of_reserved hentry hmadeUp,
    fun entry hentry => hbound _ (hentered.exports entry hentry),
    fun entry hentry => hbound _ (hentered.imports entry hentry), hslots, fun heq => ?_⟩
  · obtain rfl : run.begun.scope = scope := by
      simpa using run.isBegun.scope.symm.trans hscope
    exact run.names_unbound hname
  · exact hruntime (by simp [heq, RuntimeNames.all])

/-- **Generated names collide with nothing.** The names at the top level that an opened module gets
differ from each other, and the module has bound none of them. A name that is made up, be it from
the start or because what was wanted is in use, is the text of no identifier of the module. And the
parameter of the override functions is none of the variables they assign to, no slot, and not the
applying function. -/
theorem Module.opened_apart {m : Module} {options : Options} {opening : Opening}
    (h : (m.transform options).outcome = .opened opening)
    (hsome : opening.overrides.restore.isSome = true) :
    ∃ run : m.Run options, run.plan.overrides = opening.overrides ∧ run.Apart := by
  obtain ⟨run, hoverrides⟩ := exists_run h hsome
  exact ⟨run, hoverrides, run.apart⟩

/-! ### Modules with something to override -/

theorem Workbench.addOverrides_restore {bench : Workbench} (h : bench.inventory.isEmpty = false) :
    bench.addOverrides.Ensures fun added => added.1.restore.isSome = true := by
  rw [addOverrides, h]
  intro added hadded
  obtain ⟨⟨plan, _⟩, _, hadded⟩ := Traced.bind_ok.mp hadded
  obtain ⟨_, _, hadded⟩ := Traced.bind_ok.mp hadded
  obtain ⟨_, _, hadded⟩ := Traced.bind_ok.mp hadded
  obtain ⟨_, _, hadded⟩ := Traced.bind_ok.mp hadded
  rw [← Except.ok.inj hadded]
  rfl

/-- A well-formed module in which something is found is opened with override functions. -/
theorem Module.opened_of_found {m : Module} (hm : m.WellFormed) (hexports : m.Exportable)
    {options : Options} (hfound : ∀ begun visited,
      (Workbench.start options (Text.encode m.source) m.root).result = .ok begun →
      (begun.visitAll m.root.namedChildren).result = .ok visited →
      visited.inventory.isEmpty = false) :
    ∃ opening, (m.transform options).outcome = .opened opening ∧
      opening.overrides.restore.isSome = true := by
  obtain ⟨begun, hstart, hbegun⟩ := Tidy.start_gives hm options
  obtain ⟨visited, hvisit, stop, hvisited⟩ := hbegun.visitAll_gives hm hexports
    (fun _ hs => hs) (fun _ _ => Nat.zero_le _) hm.statements
  obtain ⟨⟨overrides, bench⟩, hadd, htidy⟩ := hvisited.addOverrides_gives hm
  obtain ⟨code, -, hcode⟩ := htidy.finalCode_ok
  have hwork : (m.work options).result = .ok (overrides, bench) :=
    Traced.bind_ok.mpr ⟨begun, hstart, Traced.bind_ok.mpr ⟨visited, hvisit, hadd⟩⟩
  exact ⟨⟨code, overrides⟩, transform_eq_opened.mpr ⟨bench, hwork, hcode⟩,
    Workbench.addOverrides_restore (hfound begun visited hstart hvisit) _ hadd⟩

/-- A well-formed module that imports something is opened with override functions. -/
theorem Module.opened_of_import {m : Module} (hm : m.WellFormed) (hexports : m.Exportable)
    {options : Options} {statement : Node} {binding : ImportBinding} {name : String}
    (hstatement : statement ∈ m.root.namedChildren) (hkind : statement.kind = .importStatement)
    (hbinding : binding ∈ statement.importBindings)
    (hname : binding.localName.text (Text.encode m.source) = .ok name)
    (hoverride : isOverrideName name = false) :
    ∃ opening, (m.transform options).outcome = .opened opening ∧
      opening.overrides.restore.isSome = true := by
  refine opened_of_found hm hexports ?_
  intro begun visited hstart hvisit
  have hsource := (Workbench.start_ensures m options begun hstart).source
  obtain ⟨entry, hentry, -⟩ := Workbench.visitAll_finds hsource (fun _ hs => hs) hstatement
    hkind hbinding hname hoverride visited hvisit
  have hne : visited.inventory.imports ≠ [] := List.ne_nil_of_mem hentry
  simp [Inventory.isEmpty, hne]

theorem Module.specimen_imports : ∃ statement ∈ specimen.root.namedChildren,
    statement.kind = .importStatement ∧ ∃ binding ∈ statement.importBindings,
      binding.localName.text (Text.encode specimen.source) = .ok "a" := by
  decide +kernel

theorem Module.specimen_opened (options : Options) :
    ∃ opening, (specimen.transform options).outcome = .opened opening ∧
      opening.overrides.restore.isSome = true := by
  obtain ⟨statement, hstatement, hkind, binding, hbinding, hname⟩ := specimen_imports
  exact opened_of_import specimen_wellFormed specimen_exportable hstatement hkind hbinding hname
    (by decide)

/-- The specimen is opened, with names for its import and its export. -/
theorem Module.opened_apart_specimen : ∃ opening,
    (specimen.transform {}).outcome = .opened opening ∧
    opening.overrides.restore.isSome = true ∧
    ∃ run : specimen.Run {}, run.plan.overrides = opening.overrides ∧ run.Apart := by
  obtain ⟨opening, hopened, hsome⟩ := specimen_opened {}
  exact ⟨opening, hopened, hsome, opened_apart hopened hsome⟩

end Seams
