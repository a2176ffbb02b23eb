import Seams.Proofs.Findings
import Seams.Proofs.Layout
import Seams.Proofs.Literals

/-!
# Handler keys

The handler of a wrapped import is found under a key, and the key stands in the code of an opened
module twice: where the import is declared anew and wrapped, behind its import statement, and in its
override function, at the end. The two pieces of code are made at different times from different
data. They agree since an import gets into the inventory only when an import statement is worked on,
together with the edit that declares it anew, and everything that comes later keeps both.

## Main definitions

* `RuntimeNames.wrapLine`, `RuntimeNames.overrideFunction` — the code with the key left open
* `Workbench.Declares` — the imports in the inventory are declared anew
* `Module.Run.Keyed` — both pieces of code have the same key

## Main results

* `Workbench.openExport_imports` — export statements bring no imports
* `Workbench.visitAll_declares` — imports are declared anew when they are found
* `Module.opened_keys` — the keys of an opened module
-/

namespace Seams

/-! ### Export statements bring no imports -/

namespace Workbench

variable {bench : Workbench}

theorem addExport_imports (bench : Workbench) (name localName : String) :
    (bench.addExport name localName).Ensures fun next =>
      next.inventory.imports = bench.inventory.imports := by
  refine (addExport_ensures bench name localName).mono ?_
  rintro _ rfl
  rfl

theorem edit_imports {change : Draft → Except Failure Draft} {next : Workbench}
    (h : bench.edit change = .ok next) : next.inventory.imports = bench.inventory.imports := by
  rw [edit_inventory h]

theorem claimExport_imports (bench : Workbench) (node : Node) (name : String) :
    (bench.claimExport node name).Ensures fun claimed =>
      claimed.2.inventory.imports = bench.inventory.imports := by
  refine .lift_bind ?_
  rintro ⟨localName, claimed⟩ hclaimed
  have hinventory := claimName_inventory hclaimed
  refine .bind (addExport_imports _ name localName) ?_
  intro next hnext
  exact .pure (hnext.trans (congrArg Inventory.imports hinventory))

theorem hoistFunction_imports (bench : Workbench) (statement function : Node) (name : String) :
    (bench.hoistFunction statement function name).Ensures fun next =>
      next.inventory.imports = bench.inventory.imports := by
  refine .bind (bench.claimExport_imports function name) ?_
  rintro ⟨localName, claimed⟩ hclaimed
  refine .lift_bind fun code _ => .lift_bind fun hoisted hhoisted => .lift fun next hnext => ?_
  exact (edit_imports hnext).trans ((edit_imports hhoisted).trans hclaimed)

theorem inlineClass_imports (bench : Workbench) (statement classNode : Node) (name : String) :
    (bench.inlineClass statement classNode name).Ensures fun next =>
      next.inventory.imports = bench.inventory.imports := by
  refine .bind (bench.claimExport_imports classNode name) ?_
  rintro ⟨localName, claimed⟩ hclaimed
  refine .lift_bind fun decorators _ => .lift_bind fun code _ => .lift fun next hnext => ?_
  exact (edit_imports hnext).trans hclaimed

theorem storeDefault_imports (bench : Workbench) (statement value : Node) :
    (bench.storeDefault statement value).Ensures fun next =>
      next.inventory.imports = bench.inventory.imports := by
  refine .bind (addExport_imports _ defaultName (bench.fresh defaultName).1) ?_
  intro entered hentered
  refine .lift_bind fun code _ => .lift fun next hnext => ?_
  exact (edit_imports hnext).trans hentered

theorem openDefaultName_imports (bench : Workbench) (statement target : Node) :
    (bench.openDefaultName statement target).Ensures fun next =>
      next.inventory.imports = bench.inventory.imports := by
  rw [openDefaultName]
  refine .lift_bind fun name _ => ?_
  extract_lets keepName
  have hkeep : ∀ next : Workbench, next.inventory = bench.inventory →
      (keepName next).Ensures fun last => last.inventory.imports = bench.inventory.imports := by
    intro next heq
    have hstore : (next.storeDefault statement target).Ensures fun last =>
        last.inventory.imports = bench.inventory.imports :=
      (next.storeDefault_imports statement target).mono fun last hlast => by rw [hlast, heq]
    unfold keepName
    split
    · split
      · exact hstore
      · refine .bind (next.addExport_imports defaultName name) ?_
        intro entered hentered
        refine .lift fun last hlast => ?_
        rw [edit_imports hlast, hentered, heq]
    · exact hstore
  split
  · exact .bind (bench.weaken_inventory name) hkeep
  · exact .bind (P := fun next => next.inventory = bench.inventory) (.pure rfl) hkeep

theorem openDefaultExport_imports (bench : Workbench) (statement : Node) :
    (bench.openDefaultExport statement).Ensures fun next =>
      next.inventory.imports = bench.inventory.imports := by
  rw [openDefaultExport]
  split
  · exact .pure rfl
  · rename_i target _
    split
    · exact bench.openDefaultName_imports statement target
    · split
      · exact bench.hoistFunction_imports statement target defaultName
      · split
        · exact bench.inlineClass_imports statement target defaultName
        · exact bench.storeDefault_imports statement target

theorem addExports_imports (bench : Workbench) (names : List String) :
    (bench.addExports names).Ensures fun next =>
      next.inventory.imports = bench.inventory.imports := by
  induction names generalizing bench with
  | nil => exact .pure rfl
  | cons name rest ih =>
    refine .bind (bench.addExport_imports name name) ?_
    intro next hnext
    exact (ih next).mono fun last hlast => hlast.trans hnext

theorem openVariables_imports (bench : Workbench) (declaration : Node) :
    (bench.openVariables declaration).Ensures fun next =>
      next.inventory.imports = bench.inventory.imports := by
  refine .lift_bind fun names _ => ?_
  split
  · split
    · refine .bind (bench.weakenAll_inventory names) ?_
      intro next hnext
      exact (next.addExports_imports names).mono fun last hlast => by rw [hlast, hnext]
    · exact .note_bind (.pure rfl)
  · exact bench.addExports_imports names

theorem openDeclaration_imports (bench : Workbench) (statement declaration : Node) :
    (bench.openDeclaration statement declaration).Ensures fun next =>
      next.inventory.imports = bench.inventory.imports := by
  rw [openDeclaration]
  split
  · exact bench.openVariables_imports declaration
  · split
    · refine .lift_bind fun name _ => ?_
      exact bench.hoistFunction_imports statement declaration name
    · split
      · refine .lift_bind fun name _ => ?_
        exact bench.inlineClass_imports statement declaration name
      · exact .pure rfl

theorem copySpecifier_imports (bench : Workbench) (statement specifier : Node)
    (localName name : String) :
    (bench.copySpecifier statement specifier localName name).Ensures fun next =>
      next.inventory.imports = bench.inventory.imports := by
  refine (bench.copySpecifier_ensures statement specifier localName name).mono ?_
  rintro _ rfl
  rfl

theorem openNamedSpecifier_imports (bench : Workbench) (statement specifier : Node)
    (localName name : String) :
    (bench.openNamedSpecifier statement specifier localName name).Ensures fun next =>
      next.inventory.imports = bench.inventory.imports := by
  rw [openNamedSpecifier]
  split
  · exact .note_bind (.pure rfl)
  · split
    · refine .bind (bench.weaken_inventory localName) ?_
      intro weakened hweakened
      exact (weakened.addExport_imports name localName).mono fun next hnext => by
        rw [hnext, hweakened]
    · split
      · exact bench.copySpecifier_imports statement specifier localName name
      · exact bench.addExport_imports name localName

theorem openSpecifier_imports (bench : Workbench) (statement specifier : Node) :
    (bench.openSpecifier statement specifier).Ensures fun next =>
      next.inventory.imports = bench.inventory.imports := by
  refine .lift_bind ?_
  rintro ⟨localNode, nameNode⟩ -
  dsimp only
  split
  · exact .lift_bind fun text _ => .note_bind (.pure rfl)
  · refine .lift_bind fun localName _ => .lift_bind fun name _ => ?_
    exact bench.openNamedSpecifier_imports statement specifier localName name

theorem openSpecifiers_imports (bench : Workbench) (statement : Node) (specifiers : List Node) :
    (bench.openSpecifiers statement specifiers).Ensures fun next =>
      next.inventory.imports = bench.inventory.imports := by
  induction specifiers generalizing bench with
  | nil => exact .pure rfl
  | cons specifier rest ih =>
    refine .bind (bench.openSpecifier_imports statement specifier) ?_
    intro next hnext
    exact (ih next).mono fun last hlast => hlast.trans hnext

/-- **Export statements bring no imports.** -/
theorem openExport_imports (bench : Workbench) (statement : Node) :
    (bench.openExport statement).Ensures fun next =>
      next.inventory.imports = bench.inventory.imports := by
  rw [openExport]
  split
  · exact .note_bind (.pure rfl)
  · split
    · exact bench.openDefaultExport_imports statement
    · split
      · exact bench.openDeclaration_imports statement _
      · rw [openClause_eq]
        exact bench.openSpecifiers_imports statement _

/-! ### Import statements declare what they bring -/

theorem addImport_imports (bench : Workbench) (name localName : String) :
    (bench.addImport name localName).Ensures fun next =>
      next.inventory.imports = bench.inventory.imports ++ [⟨name, localName⟩] :=
  .note_bind (.pure rfl)

/-- One imported name is entered if it is intercepted. -/
theorem interceptBinding_imports (bench : Workbench) (binding : ImportBinding) :
    (bench.interceptBinding binding).Ensures fun taken =>
      taken.1.inventory.imports = bench.inventory.imports ++ taken.2.toList := by
  refine .lift_bind fun name _ => ?_
  split
  · exact .note_bind (.pure (List.append_nil _).symm)
  · refine .lift_bind fun placed hplaced => ?_
    have hinventory : placed.inventory = bench.inventory := (placeAlias_inventory hplaced).trans rfl
    refine .bind (placed.addImport_imports name (bench.fresh name).1) ?_
    intro next hnext
    rw [hinventory] at hnext
    exact .pure hnext

theorem interceptAll_imports_eq (bench : Workbench) (bindings : List ImportBinding) :
    (bench.interceptAll bindings).Ensures fun taken =>
      taken.1.inventory.imports = bench.inventory.imports ++ taken.2 := by
  induction bindings generalizing bench with
  | nil => exact .pure (List.append_nil _).symm
  | cons binding rest ih =>
    refine .bind (bench.interceptBinding_imports binding) ?_
    rintro ⟨next, entry⟩ hnext
    refine .bind (ih next) ?_
    rintro ⟨last, entries⟩ hlast
    refine .pure ?_
    show last.inventory.imports = _
    rw [hlast, hnext, List.append_assoc]

end Workbench

/-- An edit declares an import anew, perhaps together with others. -/
def Edit.Declares (names : RuntimeNames) (entry : Import) (edit : Edit) : Prop :=
  ∃ entries : List Import, entry ∈ entries ∧
    edit.text = "".intercalate (entries.map fun entry => "\n" ++ interceptionCode entry names)

namespace Workbench

/-- An import is declared anew behind an import statement. -/
def DeclaresImport (m : Module) (bench : Workbench) (entry : Import) : Prop :=
  ∃ statement ∈ m.root.namedChildren, statement.kind = .importStatement ∧
    ∃ edit ∈ bench.draft.edits, edit.start = statement.stop ∧ edit.stop = statement.stop ∧
      edit.Declares bench.runtime entry

/-- All imports in the inventory are declared anew. -/
def Declares (m : Module) (bench : Workbench) : Prop :=
  ∀ entry ∈ bench.inventory.imports, bench.DeclaresImport m entry

variable {m : Module} {bench next : Workbench} {statement : Node}

theorem DeclaresImport.mono {entry : Import} (h : bench.DeclaresImport m entry)
    (hworks : Works m bench next) : next.DeclaresImport m entry := by
  obtain ⟨deeds, hsteps⟩ := hworks.reaches
  obtain ⟨statement, hstatement, hkind, edit, hedit, hstart, hstop, hdeclares⟩ := h
  refine ⟨statement, hstatement, hkind, edit, hworks.edits_kept.subset hedit, hstart, hstop, ?_⟩
  rwa [hsteps.runtime]

/-- An import statement declares the imports that it brings. -/
theorem openImport_declares (h : bench.Declares m)
    (hsource : bench.draft.source = Text.encode m.source)
    (hstatement : statement ∈ m.root.namedChildren) (hkind : statement.kind = .importStatement) :
    (bench.openImport statement).Ensures (Declares m) := by
  intro next hnext
  have hworks := (openImport_performs hsource hstatement hkind next hnext).works
  obtain ⟨taken, entries, htaken, rfl⟩ := openImport_taken hnext
  have himports := bench.interceptAll_imports_eq statement.importBindings _ htaken
  by_cases hempty : entries.isEmpty = true
  · rw [if_pos hempty] at hworks ⊢
    rw [List.isEmpty_iff.mp hempty, List.append_nil] at himports
    intro entry hentry
    exact (h entry (himports ▸ hentry)).mono hworks
  · rw [if_neg hempty] at hworks ⊢
    intro entry hentry
    have hentry : entry ∈ bench.inventory.imports ++ entries := himports ▸ hentry
    rcases List.mem_append.mp hentry with hold | hnew
    · exact (h entry hold).mono hworks
    · exact ⟨statement, hstatement, hkind, taken.interceptionEdit statement entries,
        List.mem_append_right _ (List.mem_singleton_self _), rfl, rfl, entries, hnew, rfl⟩

/-- So does every statement, since others bring none. -/
theorem visit_declares (h : bench.Declares m)
    (hsource : bench.draft.source = Text.encode m.source)
    (hstatement : statement ∈ m.root.namedChildren) :
    (bench.visit statement).Ensures (Declares m) := by
  intro next hnext
  have hworks := visit_works hsource hstatement next hnext
  rw [visit] at hnext
  split at hnext
  · rename_i hkind
    exact openImport_declares h hsource hstatement hkind next hnext
  · intro entry hentry
    rw [bench.openExport_imports statement next hnext] at hentry
    exact (h entry hentry).mono hworks
  · obtain rfl := Except.ok.inj hnext
    exact h

/-- **Imports are declared anew** when they are found, and stay so. -/
theorem visitAll_declares {statements : List Node} (h : bench.Declares m)
    (hsource : bench.draft.source = Text.encode m.source)
    (hstatements : ∀ statement ∈ statements, statement ∈ m.root.namedChildren) :
    (bench.visitAll statements).Ensures (Declares m) := by
  induction statements generalizing bench with
  | nil => exact .pure h
  | cons statement rest ih =>
    obtain ⟨hstatement, hrest⟩ := List.forall_mem_cons.mp hstatements
    intro last hlast
    obtain ⟨next, hnext, hlast⟩ := Traced.bind_ok.mp hlast
    have hworks := visit_works hsource hstatement next hnext
    exact ih (visit_declares h hsource hstatement next hnext) (hworks.source.trans hsource) hrest
      last hlast

/-! ### The runtime keeps its names -/

theorem assignSlots_runtime (bench : Workbench) (exports : List Export) :
    (bench.assignSlots exports).2.runtime = bench.runtime := by
  induction exports generalizing bench with
  | nil => rfl
  | cons entry rest ih => exact ih _

theorem nameAll_runtime {α : Type} {nameOne : Workbench → α → Traced (String × Workbench)}
    (hone : ∀ bench entry, (nameOne bench entry).Ensures fun named =>
      named.2.runtime = bench.runtime) (bench : Workbench) (entries : List α) :
    (nameAll nameOne bench entries).Ensures fun named => named.2.runtime = bench.runtime := by
  induction entries generalizing bench with
  | nil => exact .pure rfl
  | cons entry rest ih =>
    refine .bind (hone bench entry) ?_
    rintro ⟨name, next⟩ hnext
    refine .bind (ih next) ?_
    rintro ⟨named, last⟩ hlast
    exact .pure (hlast.trans hnext)

/-- Naming what is added leaves the names of the runtime as they are. -/
theorem planOverrides_runtime (bench : Workbench) :
    bench.planOverrides.Ensures fun planned => planned.2.runtime = bench.runtime := by
  have hslots := bench.assignSlots_runtime bench.inventory.uniqueExports
  refine .noteAll_bind ?_
  refine .bind (reserve_ensures _ _) ?_
  rintro _ rfl
  refine .bind (nameAll_runtime (fun bench entry => ?_) _ _) ?_
  · obtain ⟨base, hname⟩ := nameExport_ensures bench entry
    refine hname.mono ?_
    rintro _ rfl
    rfl
  rintro ⟨exports, named⟩ hnamed
  refine .bind (nameAll_runtime (fun bench entry => ?_) _ _) ?_
  · obtain ⟨base, hname⟩ := nameImport_ensures bench entry
    refine hname.mono ?_
    rintro _ rfl
    rfl
  rintro ⟨imports, last⟩ hlast
  refine .bind (reserve_ensures _ _ _) ?_
  rintro _ rfl
  exact .pure (hlast.trans (hnamed.trans hslots))

end Workbench

/-! ### Keys -/

namespace RuntimeNames

/-- The line that declares an import anew and wraps its value, with an expression for the key. -/
def wrapLine (names : RuntimeNames) (entry : Import) (key : String) : String :=
  s!"let {entry.name} = {names.wrapFunction}({entry.alias}, {key});"

/-- The override function of an import, with an expression for the key. -/
def overrideFunction (names : RuntimeNames) (function : String) (entry : Import)
    (parameter key : String) : String :=
  joinLines [
    s!"export function {function}({parameter}) \x7b",
    s!"  {entry.name} = {names.applyFunction}({entry.name}, {key}, {parameter});",
    "\x7d"]

theorem interceptionCode_eq (names : RuntimeNames) (entry : Import) :
    interceptionCode entry names = names.wrapLine entry (Text.quote entry.name) := rfl

theorem importOverrideCode_eq (names : RuntimeNames) (function : String) (entry : Import)
    (parameter : String) : importOverrideCode function entry parameter names =
      names.overrideFunction function entry parameter (Text.quote entry.name) := by
  simp [importOverrideCode, overrideFunction, toString, String.append_assoc]

end RuntimeNames

namespace Module

variable {m : Module} {options : Options}

/-- An import has one key in both places of an opened module. -/
structure Run.Keyed (run : m.Run options) (pieces : List Piece) (entry : Import)
    (function key : String) : Prop where
  /-- Behind an import statement, the import is declared anew and wrapped under the key. -/
  wrapped : ∃ statement ∈ m.root.namedChildren, statement.kind = .importStatement ∧
    ∃ (edit : Edit) (lines : List String), Piece.made edit ∈ pieces ∧
      edit.start = statement.stop ∧ edit.stop = statement.stop ∧
      edit.text = "".intercalate (lines.map ("\n" ++ ·)) ∧
      run.visited.runtime.wrapLine entry key ∈ lines
  /-- At the end, its override function gives the key. -/
  applied : ∃ (edit : Edit) (lines : List String), Piece.made edit ∈ pieces ∧
    edit.start = (Text.encode m.source).length ∧ edit.stop = edit.start ∧
    edit.text = "\n" ++ joinLines lines ++ "\n" ∧
    run.visited.runtime.overrideFunction function entry run.plan.parameter key ∈ lines

theorem Run.declares (run : m.Run options) : run.visited.Declares m := by
  have hbegun := run.isBegun
  have hnone : run.begun.Declares m := by
    intro entry hentry
    rw [hbegun.inventory] at hentry
    cases hentry
  exact Workbench.visitAll_declares hnone hbegun.source (fun _ hs => hs) _ run.visits

section

variable (run : m.Run options) {topped last : Workbench} {code : String}
  (htop : run.planned.prepend run.planned.runtime.tableCode = .ok topped)
  (hend : topped.edit (·.append (run.plan.code topped.runtime)) = .ok last)
include htop hend

/-- The draft of an opened module has the edits for its statements, and two more, of which the last
one adds the functions at the end. -/
theorem Run.edits_eq : last.draft.source = Text.encode m.source ∧ ∃ first added,
    last.draft.edits = run.visited.draft.edits ++ [first, added] ∧
      added.start = (Text.encode m.source).length ∧ added.stop = added.start ∧
      added.text = run.plan.code run.visited.runtime := by
  obtain ⟨first, -, -, -, htopped⟩ := Workbench.prepend_record htop
  obtain ⟨added, htext, hstart, hstop, hlast⟩ := Workbench.append_record hend
  obtain ⟨-, -, hdraft⟩ := Workbench.planOverrides_frame run.visited _ run.plans
  have hruntime : topped.runtime = run.visited.runtime := by
    rw [htopped]
    exact Workbench.planOverrides_runtime run.visited _ run.plans
  have hsource : topped.draft.source = Text.encode m.source := by
    rw [htopped, Draft.record_source, hdraft, Reaches.source ⟨_, run.steps⟩, run.isBegun.source]
  refine ⟨by rw [hlast]; exact hsource, first, added, ?_, ?_, hstop, ?_⟩
  · rw [hlast, htopped, ← hdraft]
    exact List.append_assoc ..
  · rw [hstart, hsource]
  · rw [htext, hruntime]

/-- The two places of an import have the key that is the literal for its name. -/
theorem Run.keyed {entry : Import × String} (hentry : entry ∈ run.plan.imports) :
    run.Keyed last.draft.pieces entry.1 entry.2 (Text.quote entry.1.name) := by
  obtain ⟨-, first, added, hedits, hstart, hstop, htext⟩ := run.edits_eq htop hend
  have hmade : ∀ edit ∈ last.draft.edits, Piece.made edit ∈ last.draft.pieces := fun edit hedit =>
    Draft.made_mem_piecesFrom.mpr (List.mem_mergeSort.mpr hedit)
  constructor
  · have hfound : entry.1 ∈ run.visited.inventory.imports :=
      run.isPlanned.imports ▸ List.mem_map_of_mem hentry
    obtain ⟨statement, hstatement, hkind, edit, hedit, hbegin, hfinish, entries, hmem, hlines⟩ :=
      run.declares entry.1 hfound
    refine ⟨statement, hstatement, hkind, edit,
      entries.map (interceptionCode · run.visited.runtime), hmade edit ?_, hbegin, hfinish, ?_, ?_⟩
    · rw [hedits]
      exact List.mem_append_left _ hedit
    · rw [hlines, List.map_map]
      rfl
    · rw [← RuntimeNames.interceptionCode_eq]
      exact List.mem_map_of_mem hmem
  · refine ⟨added, (run.plan.parts run.visited.runtime).flatten, hmade added ?_, hstart, hstop, ?_,
      ?_⟩
    · rw [hedits]
      exact List.mem_append_right _ (by simp)
    · rw [htext, OverridePlan.code_eq_parts]
    · have hcodes : importOverrideCode entry.2 entry.1 run.plan.parameter run.visited.runtime ∈
          run.plan.imports.map fun entry =>
            importOverrideCode entry.2 entry.1 run.plan.parameter run.visited.runtime :=
        List.mem_map.mpr ⟨entry, hentry, rfl⟩
      rw [← RuntimeNames.importOverrideCode_eq]
      exact List.mem_flatten.mpr ⟨_, by simp [OverridePlan.parts], hcodes⟩

end

/-- A module that gets no override functions stays what it was. -/
theorem eq_of_no_overrides {opening : Opening}
    (h : (m.transform options).outcome = .opened opening) (hnone : opening.overrides = {}) :
    opening = ⟨m.source, {}⟩ := by
  obtain ⟨begun, visited, last, hstart, hvisit, hadd, hcode⟩ := exists_course h
  have hcourse := Course.byFindings ⟨begun, visited, last, hstart, hvisit, hadd, hcode⟩
  have hempty := hcourse.restore.mp (by rw [hnone])
  exact (hcourse.untouched hempty).2.2

/-- **Handler keys agree.** A module is opened, whatever the names of its imports are. Each import
is declared anew behind its import statement and has an override function, and both hand the same
key to the runtime: a literal for the name of the import. It has only printable ASCII characters,
no quote inside ends it, and it reads back as the name, so imports with different names have
different keys. A module without override functions stays what it was. -/
theorem opened_keys {opening : Opening} (h : (m.transform options).outcome = .opened opening) :
    opening = ⟨m.source, {}⟩ ∨ ∃ (run : m.Run options) (pieces : List Piece),
      run.plan.overrides = opening.overrides ∧
      Text.encode opening.code = pieces.flatMap (Piece.bytes (Text.encode m.source)) ∧
      run.plan.imports.map Prod.fst = run.visited.inventory.imports ∧
      (∀ entry ∈ run.plan.imports,
        run.Keyed pieces entry.1 entry.2 (Text.quote entry.1.name) ∧
          Text.IsLiteral (Text.quote entry.1.name) entry.1.name) ∧
      ∀ a ∈ run.plan.imports, ∀ b ∈ run.plan.imports,
        Text.quote a.1.name = Text.quote b.1.name ↔ a.1.name = b.1.name := by
  refine (opened_cases h).imp (eq_of_no_overrides h) ?_
  rintro ⟨run, topped, last, hoverrides, htop, hend, hcode⟩
  obtain ⟨hsource, -⟩ := run.edits_eq htop hend
  have hrender := Draft.renderBytes_eq (Workbench.finalCode_renders hcode hsource)
  rw [hsource] at hrender
  exact ⟨run, last.draft.pieces, hoverrides, hrender, run.isPlanned.imports,
    fun entry hentry => ⟨run.keyed htop hend hentry, Text.isLiteral_quote entry.1.name⟩,
    fun a _ b _ => Text.quote_inj⟩

/-- The specimen has an import, which is wrapped and overridden under one key. -/
theorem opened_keys_specimen : ∃ opening, (specimen.transform {}).outcome = .opened opening ∧
    ∃ (run : specimen.Run {}) (pieces : List Piece), run.plan.overrides = opening.overrides ∧
      Text.encode opening.code = pieces.flatMap (Piece.bytes (Text.encode specimen.source)) ∧
      run.plan.imports.map Prod.fst = run.visited.inventory.imports ∧
      (∀ entry ∈ run.plan.imports,
        run.Keyed pieces entry.1 entry.2 (Text.quote entry.1.name) ∧
          Text.IsLiteral (Text.quote entry.1.name) entry.1.name) ∧
      ∀ a ∈ run.plan.imports, ∀ b ∈ run.plan.imports,
        Text.quote a.1.name = Text.quote b.1.name ↔ a.1.name = b.1.name := by
  obtain ⟨opening, hopened, hsome⟩ := specimen_opened {}
  refine ⟨opening, hopened, (opened_keys hopened).resolve_left fun hsame => ?_⟩
  rw [hsame] at hsome
  cases hsome

end Module

end Seams
