import Mathlib.Logic.Function.Basic
import Seams.Proofs.NameCollisions
import Seams.Proofs.Pieces

/-!
# Restoring undoes overrides

The code that goes to the end of a module assigns variables to variables: the slots take the values
of the exports at start-up, each override function assigns its argument to the variable behind its
export, and the restoring function assigns the slots back. On a store of variables this undoes any
sequence of calls, although exports may share a variable. It rests on names alone: the slots differ
from each other, and neither a slot nor the parameter is a variable behind an export.

## Main definitions

* `Assignment`, `Store` — assignments, and the variables on which they run
* `OverridePlan.script` — the added code, written with its assignments
* `OverridePlan.capture`, `OverridePlan.call`, `OverridePlan.putBack` — what the added code does
* `OverridePlan.Separate` — the names of the added code are kept apart

## Main results

* `OverridePlan.code_eq_script` — the added code consists of these assignments
* `OverridePlan.Separate.putBack_callAll` — putting back undoes any calls
* `Module.restore_undoes_overrides` — so it is with the code of every opened module
-/

namespace Seams

/-! ### Assignments -/

/-- The values of all variables. -/
abbrev Store (Value : Type) := String → Value

/-- The assignment of one variable to another. -/
structure Assignment where
  target : String
  source : String
  deriving DecidableEq, Repr

namespace Assignment

/-- An assignment as code. -/
def code (assignment : Assignment) : String :=
  s!"{assignment.target} = {assignment.source}"

/-- An exported function that does one assignment, as code. -/
def functionCode (body : Assignment) (function parameter : String) : String :=
  joinLines [s!"export function {function}({parameter}) \x7b", s!"  {body.code};", "\x7d"]

variable {Value : Type}

/-- The store after an assignment. -/
def run (store : Store Value) (assignment : Assignment) : Store Value :=
  Function.update store assignment.target (store assignment.source)

/-- The store after some assignments in turn. -/
def runAll (store : Store Value) (assignments : List Assignment) : Store Value :=
  assignments.foldl run store

/-- The store after the call of a function that does one assignment. Its parameter is a variable of
its own, which hides an outer one of the same name during the call. -/
def call (parameter : String) (body : Assignment) (store : Store Value) (value : Value) :
    Store Value :=
  Function.update (run (Function.update store parameter value) body) parameter (store parameter)

variable {store : Store Value} {assignments : List Assignment}

theorem run_target (store : Store Value) (assignment : Assignment) :
    run store assignment assignment.target = store assignment.source :=
  Function.update_self ..

theorem run_of_ne {assignment : Assignment} {name : String} (h : name ≠ assignment.target) :
    run store assignment name = store name :=
  Function.update_of_ne h _ _

/-- Variables that are not assigned stay as they are. -/
theorem runAll_of_not_target {name : String} (h : ∀ a ∈ assignments, name ≠ a.target) :
    runAll store assignments name = store name := by
  induction assignments generalizing store with
  | nil => rfl
  | cons first rest ih =>
    have hrest : runAll (run store first) rest name = run store first name :=
      ih fun a ha => h a (List.mem_cons_of_mem _ ha)
    exact hrest.trans (run_of_ne (h first (List.mem_cons_self ..)))

/-- If all assignments give their targets the values of one store, and read no variable that they
assign, then their targets have these values in the end, in whatever order they are assigned and
however often. -/
theorem runAll_target {goal : Store Value}
    (hgoal : ∀ a ∈ assignments, store a.source = goal a.target)
    (hapart : ∀ a ∈ assignments, ∀ b ∈ assignments, a.source ≠ b.target) :
    ∀ a ∈ assignments, runAll store assignments a.target = goal a.target := by
  induction assignments generalizing store with
  | nil => exact fun _ ha => nomatch ha
  | cons first rest ih =>
    have hfirst : first ∈ first :: rest := List.mem_cons_self ..
    have hrest : ∀ b ∈ rest, run store first b.source = goal b.target := by
      intro b hb
      have hmem : b ∈ first :: rest := List.mem_cons_of_mem _ hb
      rw [run_of_ne (hapart b hmem first hfirst), hgoal b hmem]
    have ih := ih hrest fun b hb c hc =>
      hapart b (List.mem_cons_of_mem _ hb) c (List.mem_cons_of_mem _ hc)
    intro a ha
    by_cases hagain : ∃ b ∈ rest, b.target = a.target
    · obtain ⟨b, hb, heq⟩ := hagain
      rw [← heq]
      exact ih b hb
    · -- No later assignment has this target, so the first one decides.
      obtain rfl : a = first := (List.mem_cons.mp ha).resolve_right fun hin => hagain ⟨a, hin, rfl⟩
      have hkept : runAll (run store a) rest a.target = run store a a.target :=
        runAll_of_not_target fun b hb heq => hagain ⟨b, hb, heq.symm⟩
      exact hkept.trans ((run_target store a).trans (hgoal a hfirst))

/-- Targets that differ can be given any values. -/
theorem exists_goal (store : Store Value) (hnodup : (assignments.map target).Nodup) :
    ∃ goal : Store Value, ∀ a ∈ assignments, store a.source = goal a.target := by
  induction assignments with
  | nil => exact ⟨store, fun _ ha => nomatch ha⟩
  | cons first rest ih =>
    obtain ⟨hnew, hnodup⟩ := List.nodup_cons.mp hnodup
    obtain ⟨goal, hgoal⟩ := ih hnodup
    refine ⟨Function.update goal first.target (store first.source), fun a ha => ?_⟩
    rcases List.mem_cons.mp ha with rfl | ha
    · exact (Function.update_self a.target _ goal).symm
    · have hne : a.target ≠ first.target := fun heq => hnew (heq ▸ List.mem_map_of_mem ha)
      exact (hgoal a ha).trans (Function.update_of_ne hne _ _).symm

/-- A call whose parameter hides no variable that is assigned gives the argument to that variable,
and does nothing else. -/
theorem call_eq {parameter localName : String} (hne : parameter ≠ localName) (store : Store Value)
    (value : Value) : call parameter ⟨localName, parameter⟩ store value =
      Function.update store localName value := by
  simp only [call, run, Function.update_self]
  rw [Function.update_comm hne.symm, Function.update_idem, Function.update_eq_self]

end Assignment

/-! ### The assignments of the added code -/

namespace Export

/-- The slot takes the value of the export. -/
def capture (entry : Export) : Assignment :=
  ⟨slotCode entry, entry.localName⟩

/-- The export takes the value of a parameter. -/
def override (entry : Export) (parameter : String) : Assignment :=
  ⟨entry.localName, parameter⟩

/-- The export takes the value of its slot. -/
def putBack (entry : Export) : Assignment :=
  ⟨entry.localName, slotCode entry⟩

end Export

namespace OverridePlan

variable {Value : Type} (plan : OverridePlan)

/-- The assignments with which the slots are declared. -/
def captures : List Assignment :=
  plan.exports.map fun entry => entry.1.capture

/-- The assignments that put the exports back. -/
def putBacks : List Assignment :=
  plan.exports.map fun entry => entry.1.putBack

/-- The declaration of the slots as code, if there are any. -/
def captureScript : List String :=
  if plan.captures.isEmpty then []
  else ["var " ++ ", ".intercalate (plan.captures.map Assignment.code) ++ ";"]

/-- The override functions of exports as code. -/
def callScript : List String :=
  plan.exports.map fun entry =>
    (entry.1.override plan.parameter).functionCode entry.2 plan.parameter

/-- The restoring function as code. What it does about imports comes after what it does about
exports. -/
def restoreScript (names : RuntimeNames) : String :=
  let body := plan.putBacks.map (·.code ++ ";") ++ emptyHandlersCode names ::
    (plan.imports.map Prod.fst).flatMap restoreImportCode
  joinLines (s!"export function {plan.restore}() \x7b" :: body.map ("  " ++ ·) ++ ["\x7d"])

/-- The added code, written with its assignments. -/
def script (names : RuntimeNames) : String :=
  let body := plan.captureScript ++ plan.callScript ++
    plan.imports.map (fun (entry, name) => importOverrideCode name entry plan.parameter names) ++
    [plan.restoreScript names, names.helpersCode]
  "\n" ++ joinLines body ++ "\n"

theorem captureScript_eq : plan.captureScript =
    if (plan.exports.map Prod.fst).isEmpty then []
    else [captureCode (plan.exports.map Prod.fst)] := by
  rw [captureScript, captureCode, captures, List.isEmpty_map, List.isEmpty_map, List.map_map,
    List.map_map]
  rfl

theorem callScript_eq : plan.callScript = plan.exports.map fun (entry, name) =>
    exportOverrideCode name entry.localName plan.parameter := by
  refine List.map_congr_left fun entry _ => ?_
  simp [exportOverrideCode, Assignment.functionCode, Assignment.code, Export.override, toString,
    String.append_assoc]

theorem restoreScript_eq (names : RuntimeNames) : plan.restoreScript names =
    restoreCode plan.restore (plan.exports.map Prod.fst) (plan.imports.map Prod.fst) names := by
  have hlines : plan.putBacks.map (·.code ++ ";") =
      (plan.exports.map Prod.fst).map restoreExportCode := by
    rw [putBacks, List.map_map, List.map_map]
    rfl
  rw [restoreScript, restoreCode, hlines]

/-- **The added code consists of these assignments.** -/
theorem code_eq_script (names : RuntimeNames) : plan.code names = plan.script names := by
  rw [code, script, captureScript_eq, callScript_eq, restoreScript_eq]

/-- What the declaration of the slots does. -/
def capture (store : Store Value) : Store Value :=
  Assignment.runAll store plan.captures

/-- What a call of the override function of an export does. -/
def call (store : Store Value) (entry : Export × String) (value : Value) : Store Value :=
  Assignment.call plan.parameter (entry.1.override plan.parameter) store value

/-- What some calls of override functions do in turn, each with its value. -/
def callAll (store : Store Value) (calls : List ((Export × String) × Value)) : Store Value :=
  calls.foldl (fun store entry => plan.call store entry.1 entry.2) store

/-- What the restoring function does about exports. -/
def putBack (store : Store Value) : Store Value :=
  Assignment.runAll store plan.putBacks

/-- The names of the added code are kept apart, as far as exports go. -/
structure Separate : Prop where
  /-- No two exports have one slot. -/
  slots : (plan.exports.map fun entry => slotCode entry.1).Nodup
  /-- No slot is a variable behind an export. -/
  locals : ∀ a ∈ plan.exports, ∀ b ∈ plan.exports, slotCode a.1 ≠ b.1.localName
  /-- The parameter hides no variable behind an export. -/
  parameter : ∀ entry ∈ plan.exports, plan.parameter ≠ entry.1.localName

namespace Separate

variable {plan : OverridePlan} (h : plan.Separate)
include h

/-- Every slot takes the value of its export. -/
theorem capture_slot (store : Store Value) {entry : Export × String}
    (hentry : entry ∈ plan.exports) :
    plan.capture store (slotCode entry.1) = store entry.1.localName := by
  have hnodup : (plan.captures.map Assignment.target).Nodup := by
    rw [captures, List.map_map]
    exact h.slots
  obtain ⟨goal, hgoal⟩ := Assignment.exists_goal store hnodup
  have hmem := List.mem_map_of_mem (f := fun entry : Export × String => entry.1.capture) hentry
  refine (Assignment.runAll_target hgoal ?_ _ hmem).trans (hgoal _ hmem).symm
  intro a ha b hb
  obtain ⟨first, hfirst, rfl⟩ := List.mem_map.mp ha
  obtain ⟨second, hsecond, rfl⟩ := List.mem_map.mp hb
  exact (h.locals second hsecond first hfirst).symm

omit h in
/-- Capturing changes nothing but slots. -/
theorem capture_of_not_slot (store : Store Value) {name : String}
    (hname : ∀ entry ∈ plan.exports, name ≠ slotCode entry.1) :
    plan.capture store name = store name := by
  refine Assignment.runAll_of_not_target fun a ha => ?_
  obtain ⟨entry, hentry, rfl⟩ := List.mem_map.mp ha
  exact hname entry hentry

/-- Capturing leaves the exports as they are. -/
theorem capture_local (store : Store Value) {entry : Export × String}
    (hentry : entry ∈ plan.exports) :
    plan.capture store entry.1.localName = store entry.1.localName :=
  capture_of_not_slot store fun other hother => (h.locals other hother entry hentry).symm

/-- An override function gives its argument to the variable behind its export, and does nothing
else. -/
theorem call_eq (store : Store Value) {entry : Export × String} (hentry : entry ∈ plan.exports)
    (value : Value) : plan.call store entry value =
      Function.update store entry.1.localName value :=
  Assignment.call_eq (h.parameter entry hentry) store value

/-- Calls change nothing but variables behind exports. -/
theorem callAll_of_not_local (store : Store Value) {calls : List ((Export × String) × Value)}
    (hcalls : ∀ call ∈ calls, call.1 ∈ plan.exports) {name : String}
    (hname : ∀ entry ∈ plan.exports, name ≠ entry.1.localName) :
    plan.callAll store calls name = store name := by
  induction calls generalizing store with
  | nil => rfl
  | cons first rest ih =>
    have hfirst := hcalls first (List.mem_cons_self ..)
    have hrest : plan.callAll (plan.call store first.1 first.2) rest name =
        plan.call store first.1 first.2 name :=
      ih _ fun call hcall => hcalls call (List.mem_cons_of_mem _ hcall)
    refine hrest.trans ?_
    rw [h.call_eq store hfirst, Function.update_of_ne (hname first.1 hfirst)]

omit h in
/-- Putting back changes nothing but variables behind exports. -/
theorem putBack_of_not_local (store : Store Value) {name : String}
    (hname : ∀ entry ∈ plan.exports, name ≠ entry.1.localName) :
    plan.putBack store name = store name := by
  refine Assignment.runAll_of_not_target fun a ha => ?_
  obtain ⟨entry, hentry, rfl⟩ := List.mem_map.mp ha
  exact hname entry hentry

/-- **Putting back undoes any calls** of override functions after the capture. -/
theorem putBack_callAll (store : Store Value) {calls : List ((Export × String) × Value)}
    (hcalls : ∀ call ∈ calls, call.1 ∈ plan.exports) :
    plan.putBack (plan.callAll (plan.capture store) calls) = plan.capture store := by
  funext name
  by_cases hname : ∃ entry ∈ plan.exports, name = entry.1.localName
  · obtain ⟨entry, hentry, rfl⟩ := hname
    have hmem := List.mem_map_of_mem (f := fun entry : Export × String => entry.1.putBack) hentry
    refine Assignment.runAll_target (fun a ha => ?_) (fun a ha b hb => ?_) _ hmem
    · -- Calls leave the slots alone, so each still has the value of its export.
      obtain ⟨other, hother, rfl⟩ := List.mem_map.mp ha
      have hslot := h.callAll_of_not_local (plan.capture store) hcalls (h.locals other hother)
      exact hslot.trans ((h.capture_slot store hother).trans (h.capture_local store hother).symm)
    · obtain ⟨first, hfirst, rfl⟩ := List.mem_map.mp ha
      obtain ⟨second, hsecond, rfl⟩ := List.mem_map.mp hb
      exact h.locals first hfirst second hsecond
  · have hother : ∀ entry ∈ plan.exports, name ≠ entry.1.localName :=
      fun entry hentry heq => hname ⟨entry, hentry, heq⟩
    rw [putBack_of_not_local _ hother, h.callAll_of_not_local _ hcalls hother]

end Separate

end OverridePlan

/-! ### Opened modules -/

theorem Inventory.firstOfEach_subset (seen : List String) (exports : List Export) :
    firstOfEach seen exports ⊆ exports := by
  induction exports generalizing seen with
  | nil => exact List.nil_subset _
  | cons entry rest ih =>
    rw [firstOfEach]
    split
    · exact List.subset_cons_of_subset _ (ih seen)
    · exact List.cons_subset_cons _ (ih (entry.name :: seen))

namespace Module

variable {m : Module} {options : Options}

/-- The exports that get functions are among those that were found. -/
theorem Run.mem_exports (run : m.Run options) {entry : Export × String}
    (hentry : entry ∈ run.plan.exports) :
    ∃ found ∈ run.visited.inventory.exports, found.localName = entry.1.localName := by
  have hmem := List.mem_map_of_mem (f := fun entry : Export × String =>
    (entry.1.name, entry.1.localName)) hentry
  rw [run.isPlanned.exports] at hmem
  obtain ⟨found, hfound, heq⟩ := List.mem_map.mp hmem
  exact ⟨found, Inventory.firstOfEach_subset _ _ hfound, congrArg Prod.snd heq⟩

theorem Run.map_slotCode (run : m.Run options) :
    run.plan.exports.map (fun entry => slotCode entry.1) = run.plan.slots := by
  have hslotted := run.isPlanned.slotted
  rw [OverridePlan.slots, ← List.filterMap_eq_map]
  refine List.filterMap_congr fun entry hentry => ?_
  obtain ⟨slot, hslot⟩ := Option.isSome_iff_exists.mp (hslotted entry hentry)
  simp [slotCode, hslot]

/-- Slots are new, and variables behind exports were there before. -/
theorem Run.slotCode_ne_local (run : m.Run options) {entry : Export × String} {found : Export}
    (hentry : entry ∈ run.plan.exports) (hfound : found ∈ run.visited.inventory.exports) :
    slotCode entry.1 ≠ found.localName := by
  intro heq
  have hslot : slotCode entry.1 ∈ run.plan.slots :=
    run.map_slotCode ▸ List.mem_map_of_mem hentry
  have hunbound : run.visited.scope.binds (slotCode entry.1) = false :=
    run.grants_planned.unbound _ (List.mem_append_left _ hslot)
  rw [heq, (run.steps.entered run.isBegun.entered).exports found hfound] at hunbound
  cases hunbound

/-- **The names of the added code are kept apart.** -/
theorem Run.separate (run : m.Run options) : run.plan.Separate where
  slots := by
    rw [run.map_slotCode]
    exact (List.nodup_append'.mp run.grants_planned.nodup).1
  locals a ha b hb := by
    obtain ⟨found, hfound, hlocal⟩ := run.mem_exports hb
    rw [← hlocal]
    exact run.slotCode_ne_local ha hfound
  parameter entry hentry := by
    obtain ⟨found, hfound, hlocal⟩ := run.mem_exports hentry
    rw [← hlocal]
    exact run.apart.exports found hfound

/-- The added code stands in the code of the opened module. -/
theorem Run.script_infix (run : m.Run options) {topped last : Workbench} {opening : Opening}
    (htop : run.planned.prepend run.planned.runtime.tableCode = .ok topped)
    (hend : topped.edit (·.append (run.plan.code topped.runtime)) = .ok last)
    (hcode : (last.finalCode m.source).result = .ok opening.code) :
    Text.encode (run.plan.script run.planned.runtime) <:+: Text.encode opening.code := by
  have hruntime : topped.runtime = run.planned.runtime := by
    obtain ⟨_, -, heq⟩ := bind_eq_ok.mp htop
    rw [← Except.ok.inj heq]
  obtain ⟨edit, htext, -, -, rfl⟩ := Workbench.append_record hend
  have hedit : edit ∈ (topped.draft.record [edit]).edits :=
    List.mem_append_right _ (List.mem_singleton_self edit)
  have hbytes := Workbench.finalCode_bytes hcode (List.ne_nil_of_mem hedit)
  rw [← OverridePlan.code_eq_script, ← hruntime, ← htext]
  exact Draft.text_infix hbytes hedit

/-- Whatever the variables hold at start-up, and whatever override functions are called after the
capture, putting back undoes it. -/
structure Run.Undoes (run : m.Run options) {Value : Type} (initial : Store Value)
    (calls : List ((Export × String) × Value)) : Prop where
  /-- A call gives its argument to the variable behind its export, and does nothing else. -/
  assigns : ∀ call ∈ calls, ∀ store, run.plan.call store call.1 call.2 =
    Function.update store call.1.1.localName call.2
  /-- The capture leaves the exports as they are, those with repeated names as well. -/
  captured : ∀ entry ∈ run.visited.inventory.exports,
    run.plan.capture initial entry.localName = initial entry.localName
  /-- Every variable behind an export gets the value back that it had at the capture. -/
  restored : ∀ entry ∈ run.visited.inventory.exports,
    run.plan.putBack (run.plan.callAll (run.plan.capture initial) calls) entry.localName =
      run.plan.capture initial entry.localName
  /-- The slots stay as they were. -/
  slots : ∀ slot ∈ run.plan.slots,
    run.plan.putBack (run.plan.callAll (run.plan.capture initial) calls) slot =
      run.plan.callAll (run.plan.capture initial) calls slot
  /-- Every other variable stays as it was. -/
  others : ∀ name, (∀ entry ∈ run.plan.exports, name ≠ entry.1.localName) →
    run.plan.putBack (run.plan.callAll (run.plan.capture initial) calls) name =
      run.plan.callAll (run.plan.capture initial) calls name
  /-- Putting back once more changes nothing. -/
  again : run.plan.putBack (run.plan.putBack (run.plan.callAll (run.plan.capture initial) calls)) =
    run.plan.putBack (run.plan.callAll (run.plan.capture initial) calls)

theorem Run.undoes (run : m.Run options) {Value : Type} (initial : Store Value)
    {calls : List ((Export × String) × Value)}
    (hcalls : ∀ call ∈ calls, call.1 ∈ run.plan.exports) :
    run.Undoes initial calls := by
  have hseparate := run.separate
  have hback := hseparate.putBack_callAll initial hcalls
  refine ⟨fun call hcall store => hseparate.call_eq store (hcalls call hcall) call.2,
    fun entry hentry => ?_, fun _ _ => congrFun hback _, fun slot hslot => ?_,
    fun _ => OverridePlan.Separate.putBack_of_not_local _, ?_⟩
  · refine OverridePlan.Separate.capture_of_not_slot initial fun other hother heq => ?_
    exact run.slotCode_ne_local hother hentry heq.symm
  · rw [← run.map_slotCode] at hslot
    obtain ⟨entry, hentry, rfl⟩ := List.mem_map.mp hslot
    exact OverridePlan.Separate.putBack_of_not_local _ (hseparate.locals entry hentry)
  · -- After the first time, all is as it was at the capture, when nothing had been called yet.
    have hnone : ∀ call ∈ ([] : List ((Export × String) × Value)), call.1 ∈ run.plan.exports :=
      nofun
    rw [hback]
    exact hseparate.putBack_callAll initial hnone

/-- **Restoring undoes overrides.** In the code of an opened module stands the script that captures
its exports, overrides them and puts them back. Whatever the variables hold at start-up, and
whatever override functions are called after the capture, with any values and in any order, putting
back gives every variable behind an export the value that it had at the capture, and changes no
other variable. Without exports and imports there are no override functions. -/
theorem restore_undoes_overrides {opening : Opening}
    (h : (m.transform options).outcome = .opened opening) :
    opening.overrides = {} ∨ ∃ run : m.Run options, run.plan.overrides = opening.overrides ∧
      Text.encode (run.plan.script run.planned.runtime) <:+: Text.encode opening.code ∧
      ∀ (Value : Type) (initial : Store Value) (calls : List ((Export × String) × Value)),
        (∀ call ∈ calls, call.1 ∈ run.plan.exports) → run.Undoes initial calls := by
  refine (opened_cases h).imp_right ?_
  rintro ⟨run, topped, last, hoverrides, htop, hend, hcode⟩
  exact ⟨run, hoverrides, run.script_infix htop hend hcode, fun _ initial _ => run.undoes initial⟩

/-- The specimen has an export to capture, and an override of it is undone. -/
theorem restore_undoes_overrides_specimen : ∃ opening,
    (specimen.transform {}).outcome = .opened opening ∧ ∃ run : specimen.Run {},
      run.plan.overrides = opening.overrides ∧
      Text.encode (run.plan.script run.planned.runtime) <:+: Text.encode opening.code ∧
      ∀ (Value : Type) (initial : Store Value) (calls : List ((Export × String) × Value)),
        (∀ call ∈ calls, call.1 ∈ run.plan.exports) → run.Undoes initial calls := by
  obtain ⟨opening, hopened, hsome⟩ := specimen_opened {}
  refine ⟨opening, hopened, (restore_undoes_overrides hopened).resolve_left fun hnone => ?_⟩
  rw [hnone] at hsome
  cases hsome

end Module

end Seams
