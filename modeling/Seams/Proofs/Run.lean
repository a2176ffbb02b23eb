import Seams.Proofs.Completion
import Seams.Proofs.Walk

/-!
# The course of the work on a module

The work on a module begins with its scope and the reserved names of the runtime. Then come the
statements, in a run of steps. If exports or imports were found, slots are generated for the
exports, and a name is reserved for the parameter and for each override function, in a run of
reservations.

## Main definitions

* `Begun`, `Planned` — what is known when the work has begun, and when the functions have names
* `OverridePlan.functions`, `OverridePlan.slots` — the names of what is added
* `Module.Run` — the course of the work on one module

## Main results

* `Workbench.start_ensures`, `Workbench.planOverrides_ensures` — the first and the last stage
* `Module.exists_course` — the stages of the work on an opened module
* `Module.exists_run` — an opened module with override functions has a run behind it
-/

namespace Seams

/-! ### The beginning -/

/-- The names of the runtime. -/
def RuntimeNames.all (names : RuntimeNames) : List String :=
  [names.handlerTable, names.wrapFunction, names.applyFunction]

/-- The reservations for the names of the runtime: its usual names are the choices. -/
def RuntimeNames.reserved (names : RuntimeNames) : List (List String × String) :=
  ({} : RuntimeNames).all.zipWith (fun usual name => ([usual], name)) names.all

/-- The work on a module has begun. -/
structure Begun (m : Module) (bench : Workbench) : Prop where
  scope : Scope.ofTree (Text.encode m.source) m.root = .ok bench.scope
  source : bench.draft.source = Text.encode m.source
  inventory : bench.inventory = {}
  reserves : Names.Reserves ⟨bench.scope, []⟩ bench.runtime.reserved bench.names

theorem Begun.of_reserves {m : Module} {bench : Workbench} {scope : Scope}
    (hscope : Scope.ofTree (Text.encode m.source) m.root = .ok scope)
    (hsource : bench.draft.source = Text.encode m.source) (hinventory : bench.inventory = {})
    (h : Names.Reserves ⟨scope, []⟩ bench.runtime.reserved bench.names) : Begun m bench := by
  have heq : bench.scope = scope := h.grants.scope
  exact ⟨heq ▸ hscope, hsource, hinventory, heq ▸ h⟩

theorem Workbench.reserve_ensures (bench : Workbench) (preferred : String)
    (fallback : Option String := none) : (bench.reserve preferred fallback).Ensures
      (· = ((bench.names.reserve preferred fallback).name,
        { bench with names := (bench.names.reserve preferred fallback).names })) :=
  .noteAll_bind (.pure rfl)

theorem Workbench.start_ensures (m : Module) (options : Options) :
    (Workbench.start options (Text.encode m.source) m.root).Ensures (Begun m) := by
  refine .lift_bind ?_
  intro scope hscope
  refine .note_bind ?_
  refine .bind (reserve_ensures _ _) ?_
  rintro _ rfl
  refine .bind (reserve_ensures _ _) ?_
  rintro _ rfl
  refine .bind (reserve_ensures _ _) ?_
  rintro _ rfl
  refine .pure (.of_reserves hscope rfl rfl ?_)
  exact .cons (.cons (.cons .nil))

/-- A module begins with an empty draft. -/
theorem Workbench.start_frame (options : Options) (source : List UInt8) (root : Node) :
    (Workbench.start options source root).Ensures fun bench => bench.options = options ∧
      bench.hashbangEnd = root.hashbangEnd ∧ bench.draft = ⟨source, []⟩ := by
  refine .lift_bind fun scope _ => .note_bind ?_
  refine .bind (reserve_ensures _ _) ?_
  rintro _ rfl
  refine .bind (reserve_ensures _ _) ?_
  rintro _ rfl
  refine .bind (reserve_ensures _ _) ?_
  rintro _ rfl
  exact .pure ⟨rfl, rfl, rfl⟩

/-! ### The names of what is added -/

/-- The names that are tried for the override function of an export. -/
def Export.choices (entry : Export) : List String :=
  if entry.name = defaultName then ["rewire", overridePrefix ++ defaultName]
  else [overridePrefix ++ entry.name]

/-- The names that are tried for the override function of an import. -/
def Import.choices (entry : Import) : List String :=
  [overridePrefix ++ entry.name]

namespace OverridePlan

/-- The names of the override functions. -/
def functions (plan : OverridePlan) : List String :=
  plan.exports.map Prod.snd ++ plan.imports.map Prod.snd ++ [plan.restore]

/-- The names of the slots. -/
def slots (plan : OverridePlan) : List String :=
  plan.exports.filterMap fun entry => entry.1.slot

/-- The reservations for the override functions. -/
def reserved (plan : OverridePlan) : List (List String × String) :=
  plan.exports.map (fun entry => (entry.1.choices, entry.2)) ++
    plan.imports.map (fun entry => (entry.1.choices, entry.2)) ++
    [(["restore", "restore$rewire"], plan.restore)]

theorem reserved_names (plan : OverridePlan) : plan.reserved.map Prod.snd = plan.functions := by
  simp [reserved, functions, Function.comp_def]

end OverridePlan

/-- What is added has its names. There is no choice of a slot. -/
structure Planned (visited : Workbench) (plan : OverridePlan) (planned : Workbench) : Prop where
  /-- The exports are those that count, but for their slots. -/
  exports : plan.exports.map (fun entry => (entry.1.name, entry.1.localName)) =
    visited.inventory.uniqueExports.map fun entry => (entry.name, entry.localName)
  imports : plan.imports.map Prod.fst = visited.inventory.imports
  slotted : ∀ entry ∈ plan.exports, entry.1.slot.isSome = true
  reserves : visited.names.Reserves
    (plan.slots.map (([], ·)) ++ (["$stub"], plan.parameter) :: plan.reserved) planned.names

/-- Only the names and the inventory of two workbenches differ. -/
structure Workbench.Frame (before after : Workbench) : Prop where
  options : after.options = before.options
  hashbangEnd : after.hashbangEnd = before.hashbangEnd
  draft : after.draft = before.draft

theorem Workbench.Frame.trans {a b c : Workbench} (h : a.Frame b) (h' : b.Frame c) : a.Frame c :=
  ⟨h'.options.trans h.options, h'.hashbangEnd.trans h.hashbangEnd, h'.draft.trans h.draft⟩

namespace Workbench

theorem assignSlots_spec (bench : Workbench) (exports : List Export) :
    let assigned := bench.assignSlots exports
    assigned.1.map (fun entry => (entry.name, entry.localName)) =
        exports.map (fun entry => (entry.name, entry.localName)) ∧
      (∀ entry ∈ assigned.1, entry.slot.isSome = true) ∧
      assigned.2.inventory.imports = bench.inventory.imports ∧
      bench.names.Reserves ((assigned.1.filterMap Export.slot).map (([], ·))) assigned.2.names := by
  induction exports generalizing bench with
  | nil => exact ⟨rfl, by simp [assignSlots], rfl, .nil⟩
  | cons entry rest ih =>
    obtain ⟨hnames, hslotted, himports, hreserves⟩ := ih { (bench.fresh entry.name).2 with
      inventory := bench.inventory.setSlot entry.name (bench.fresh entry.name).1 }
    refine ⟨congrArg (_ :: ·) hnames, fun other hother => ?_, himports, ?_⟩
    · rcases List.mem_cons.mp hother with rfl | hother
      · rfl
      · exact hslotted other hother
    · exact .cons hreserves

/-- A run of reservations, one for each entry of a list. -/
theorem nameAll_ensures {α : Type} {nameOne : Workbench → α → Traced (String × Workbench)}
    {choices : α → List String}
    (hone : ∀ bench entry, ∃ base, (nameOne bench entry).Ensures
      (· = ((bench.names.reserveFrom base (choices entry)).name,
        { bench with names := (bench.names.reserveFrom base (choices entry)).names })))
    (bench : Workbench) (entries : List α) :
    (nameAll nameOne bench entries).Ensures fun named =>
      named.1.map Prod.fst = entries ∧
        bench.names.Reserves (named.1.map fun entry => (choices entry.1, entry.2))
          named.2.names := by
  induction entries generalizing bench with
  | nil => exact .pure ⟨rfl, .nil⟩
  | cons entry rest ih =>
    obtain ⟨base, hfirst⟩ := hone bench entry
    refine .bind hfirst ?_
    rintro _ rfl
    refine .bind (ih _) ?_
    rintro ⟨named, last⟩ ⟨hentries, hreserves⟩
    exact .pure ⟨congrArg (entry :: ·) hentries, .cons hreserves⟩

theorem nameExport_ensures (bench : Workbench) (entry : Export) :
    ∃ base, (bench.nameExport entry).Ensures
      (· = ((bench.names.reserveFrom base entry.choices).name,
        { bench with names := (bench.names.reserveFrom base entry.choices).names })) := by
  rw [nameExport, Export.choices]
  split
  · exact ⟨_, reserve_ensures _ _ _⟩
  · exact ⟨_, reserve_ensures _ _⟩

theorem nameImport_ensures (bench : Workbench) (entry : Import) :
    ∃ base, (bench.nameImport entry).Ensures
      (· = ((bench.names.reserveFrom base entry.choices).name,
        { bench with names := (bench.names.reserveFrom base entry.choices).names })) :=
  ⟨_, reserve_ensures _ _⟩

/-- **Naming what is added** is a run of reservations. -/
theorem planOverrides_ensures (bench : Workbench) :
    bench.planOverrides.Ensures fun planned => Planned bench planned.1 planned.2 := by
  obtain ⟨hnames, hslotted, hinventory, hslots⟩ :=
    bench.assignSlots_spec bench.inventory.uniqueExports
  refine .noteAll_bind ?_
  refine .bind (reserve_ensures _ _) ?_
  rintro _ rfl
  refine .bind (nameAll_ensures nameExport_ensures _ _) ?_
  rintro ⟨exports, _⟩ ⟨hexports, hfirst⟩
  refine .bind (nameAll_ensures nameImport_ensures _ _) ?_
  rintro ⟨imports, last⟩ ⟨himports, hsecond⟩
  refine .bind (reserve_ensures _ _ _) ?_
  rintro _ rfl
  have hentries : exports.map Prod.fst = (bench.assignSlots bench.inventory.uniqueExports).1 :=
    hexports
  refine .pure ⟨?_, himports.trans hinventory, fun entry hentry => ?_, ?_⟩
  · rw [← hnames, ← hentries, List.map_map]
    rfl
  · exact hslotted _ (hentries ▸ List.mem_map_of_mem hentry)
  · rw [← hentries, List.filterMap_map] at hslots
    have hrestore : last.names.Reserves [(["restore", "restore$rewire"], _)]
        (last.names.reserve "restore" (some "restore$rewire")).names := .cons .nil
    have hfunctions := hfirst.append (hsecond.append hrestore)
    rw [← List.append_assoc] at hfunctions
    exact hslots.append (.cons hfunctions)

theorem assignSlots_frame (bench : Workbench) (exports : List Export) :
    bench.Frame (bench.assignSlots exports).2 := by
  induction exports generalizing bench with
  | nil => exact ⟨rfl, rfl, rfl⟩
  | cons entry rest ih => exact ⟨(ih _).options, (ih _).hashbangEnd, (ih _).draft⟩

theorem nameAll_frame {α : Type} {nameOne : Workbench → α → Traced (String × Workbench)}
    (hone : ∀ bench entry, ∃ name names,
      (nameOne bench entry).Ensures (· = (name, { bench with names })))
    (bench : Workbench) (entries : List α) :
    (nameAll nameOne bench entries).Ensures fun named => bench.Frame named.2 := by
  induction entries generalizing bench with
  | nil => exact .pure ⟨rfl, rfl, rfl⟩
  | cons entry rest ih =>
    obtain ⟨name, names, hfirst⟩ := hone bench entry
    refine .bind hfirst ?_
    rintro _ rfl
    refine .bind (ih _) ?_
    rintro ⟨named, last⟩ hlast
    exact .pure ⟨hlast.options, hlast.hashbangEnd, hlast.draft⟩

/-- Naming what is added changes names and the inventory, and nothing else. -/
theorem planOverrides_frame (bench : Workbench) :
    bench.planOverrides.Ensures fun planned => bench.Frame planned.2 := by
  have hslots := bench.assignSlots_frame bench.inventory.uniqueExports
  refine .noteAll_bind ?_
  refine .bind (reserve_ensures _ _) ?_
  rintro _ rfl
  refine .bind (nameAll_frame (fun bench entry => ?_) _ _) ?_
  · obtain ⟨base, hname⟩ := nameExport_ensures bench entry
    exact ⟨_, _, hname⟩
  rintro ⟨exports, named⟩ hnamed
  refine .bind (nameAll_frame (fun bench entry => ⟨_, _, reserve_ensures _ _⟩) _ _) ?_
  rintro ⟨imports, last⟩ hlast
  refine .bind (reserve_ensures _ _ _) ?_
  rintro _ rfl
  have hnamed : bench.Frame named :=
    hslots.trans ⟨hnamed.options, hnamed.hashbangEnd, hnamed.draft⟩
  have hlast := hnamed.trans hlast
  exact .pure ⟨hlast.options, hlast.hashbangEnd, hlast.draft⟩

end Workbench

/-! ### Runs -/

/-- The course of the work on a module that has something to override. -/
structure Module.Run (m : Module) (options : Options) where
  begun : Workbench
  /-- What the steps of the work on the statements do. -/
  deeds : List Deed
  visited : Workbench
  plan : OverridePlan
  planned : Workbench
  starts : (Workbench.start options (Text.encode m.source) m.root).result = .ok begun
  visits : (begun.visitAll m.root.namedChildren).result = .ok visited
  steps : Steps m begun deeds visited
  plans : visited.planOverrides.result = .ok (plan, planned)

/-- The work on an opened module: it begins, goes through the statements, and adds the functions. -/
theorem Module.exists_course {m : Module} {options : Options} {opening : Opening}
    (h : (m.transform options).outcome = .opened opening) :
    ∃ begun visited bench,
      (Workbench.start options (Text.encode m.source) m.root).result = .ok begun ∧
      (begun.visitAll m.root.namedChildren).result = .ok visited ∧
      visited.addOverrides.result = .ok (opening.overrides, bench) ∧
      (bench.finalCode m.source).result = .ok opening.code := by
  obtain ⟨bench, hwork, hcode⟩ := transform_eq_opened.mp h
  obtain ⟨begun, hstart, hwork⟩ := Traced.bind_ok.mp hwork
  obtain ⟨visited, hvisit, hadd⟩ := Traced.bind_ok.mp hwork
  exact ⟨begun, visited, bench, hstart, hvisit, hadd, hcode⟩

/-- Functions are added if there is anything to override, and otherwise nothing happens. -/
theorem Workbench.addOverrides_ok {bench last : Workbench} {overrides : Overrides}
    (h : bench.addOverrides.result = .ok (overrides, last)) :
    (bench.inventory.isEmpty = true ∧ overrides = {} ∧ last = bench) ∨
      ∃ plan planned topped, bench.planOverrides.result = .ok (plan, planned) ∧
        plan.overrides = overrides ∧ planned.prepend planned.runtime.tableCode = .ok topped ∧
        topped.edit (·.append (plan.code topped.runtime)) = .ok last := by
  rw [addOverrides] at h
  split at h
  · rename_i hempty
    obtain ⟨_, _, h⟩ := Traced.bind_ok.mp h
    obtain ⟨rfl, rfl⟩ := Prod.mk.inj (Except.ok.inj h)
    exact .inl ⟨hempty, rfl, rfl⟩
  · obtain ⟨⟨plan, planned⟩, hplan, h⟩ := Traced.bind_ok.mp h
    obtain ⟨topped, htop, h⟩ := Traced.bind_ok.mp h
    obtain ⟨final, hend, h⟩ := Traced.bind_ok.mp h
    obtain ⟨_, _, h⟩ := Traced.bind_ok.mp h
    obtain ⟨rfl, rfl⟩ := Prod.mk.inj (Except.ok.inj h)
    exact .inr ⟨plan, planned, topped, hplan, rfl, htop, hend⟩

/-- An edit that adds text of its own, at the top of a module or at the end. -/
structure Workbench.Adds (bench : Workbench) (edit : Edit) : Prop where
  plain : edit.text ≠ "let"
  insertion : edit.stop = edit.start
  place : edit.start = bench.hashbangEnd.getD 0 ∨ edit.start = bench.draft.source.length

/-- The functions leave bindings as they are, and add text at the top and at the end. -/
theorem Workbench.addOverrides_frame {bench last : Workbench} {overrides : Overrides}
    (h : bench.addOverrides.result = .ok (overrides, last)) :
    last.scope = bench.scope ∧ last.options = bench.options ∧
      ∃ added, last.draft = bench.draft.record added ∧ ∀ edit ∈ added, bench.Adds edit := by
  rcases addOverrides_ok h with ⟨-, -, rfl⟩ | ⟨plan, planned, topped, hplan, -, htop, hend⟩
  · exact ⟨rfl, rfl, [], by simp, nofun⟩
  · have hscope : planned.scope = bench.scope :=
      (planOverrides_ensures bench _ hplan).reserves.grants.scope
    obtain ⟨hoptions, hhashbang, hdraft⟩ := planOverrides_frame bench _ hplan
    obtain ⟨first, hline, hfirst, hfirstStop, rfl⟩ := prepend_record htop
    obtain ⟨second, htext, hsecond, hsecondStop, rfl⟩ := append_record hend
    have hcode : '\n' ∈ second.text.toList := by
      simp [htext, OverridePlan.code, String.toList_append]
    refine ⟨hscope, hoptions, [first, second], ?_, ?_⟩
    · rw [← hdraft]
      exact planned.draft.record_record [first] [second]
    · simp only [List.forall_mem_cons, List.not_mem_nil, false_implies, implies_true, and_true]
      exact ⟨⟨ne_let_of_mem hline (by decide), hfirstStop, .inl (hhashbang ▸ hfirst)⟩,
        ne_let_of_mem hcode (by decide), hsecondStop, .inr (hdraft ▸ hsecond)⟩

/-- An opened module has no functions, or it has a run behind it, and the code of the functions is
appended to the draft that its code comes from. -/
theorem Module.opened_cases {m : Module} {options : Options} {opening : Opening}
    (h : (m.transform options).outcome = .opened opening) :
    opening.overrides = {} ∨ ∃ (run : m.Run options) (topped last : Workbench),
      run.plan.overrides = opening.overrides ∧
      run.planned.prepend run.planned.runtime.tableCode = .ok topped ∧
      topped.edit (·.append (run.plan.code topped.runtime)) = .ok last ∧
      (last.finalCode m.source).result = .ok opening.code := by
  obtain ⟨begun, visited, last, hstart, hvisit, hadd, hcode⟩ := exists_course h
  have hsource := (Workbench.start_ensures m options begun hstart).source
  obtain ⟨deeds, hsteps⟩ := Workbench.visitAll_walks hsource (fun _ hs => hs) visited hvisit
  rcases Workbench.addOverrides_ok hadd with
    ⟨-, hnone, -⟩ | ⟨plan, planned, topped, hplan, heq, htop, hend⟩
  · exact .inl hnone
  · exact .inr ⟨⟨begun, deeds, visited, plan, planned, hstart, hvisit, hsteps, hplan⟩, topped, last,
      heq, htop, hend, hcode⟩

/-- **An opened module with override functions has a run behind it.** -/
theorem Module.exists_run {m : Module} {options : Options} {opening : Opening}
    (h : (m.transform options).outcome = .opened opening)
    (hsome : opening.overrides.restore.isSome = true) :
    ∃ run : m.Run options, run.plan.overrides = opening.overrides := by
  rcases opened_cases h with hnone | ⟨run, _, _, heq, -⟩
  · -- Without functions there is none that undoes the others.
    rw [hnone] at hsome
    cases hsome
  · exact ⟨run, heq⟩

namespace Module.Run

variable {m : Module} {options : Options} (run : m.Run options)

theorem isBegun : Begun m run.begun :=
  Workbench.start_ensures m options _ run.starts

theorem isPlanned : Planned run.visited run.plan run.planned :=
  run.visited.planOverrides_ensures _ run.plans

end Module.Run

end Seams
