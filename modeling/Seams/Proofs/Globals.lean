import Seams.Proofs.ExportedNames
import Seams.Proofs.HandlerKeys
import Seams.Proofs.ScopeTable

/-!
# Globals that added code uses

The code that is added to a module calls three globals by their names. It stands in the module, so
it finds them unless something at the top level has such a name. What is generated for the module
never has: generated names begin with other letters. But a module keeps the names that it binds
itself. Its declarations stay, an exported function or class becomes a variable of the same name,
and an import is declared anew under its own name. So a global is hidden from the added code exactly
if the module binds its name.

## Main definitions

* `runtimeGlobals` — the globals, each with the code that calls it
* `Module.BindsName` — a module binds a name at its top level
* `Module.Run.Binds` — so does the opened module

## Main results

* `Module.Run.binds_iff` — an opened module binds what the module binds, and what is generated
* `Module.Run.not_mem_names` — no generated name is that of a global
* `Module.globals_hidden_iff` — exactly when a global is hidden from the added code
* `Module.proxied_hides` — an import that hides a global
-/

namespace Seams

/-! ### Code in the code of a module -/

/-- Each of several texts stands in them joined. -/
theorem Text.infix_intercalate {separator part : String} {parts : List String}
    (h : part ∈ parts) : encode part <:+: encode (separator.intercalate parts) := by
  induction parts with
  | nil => cases h
  | cons first rest ih =>
    cases rest with
    | nil =>
      obtain rfl := List.mem_singleton.mp h
      simp
    | cons second rest =>
      rw [String.intercalate_cons_cons, encode_append, encode_append]
      rcases List.mem_cons.mp h with rfl | hrest
      · exact ((List.prefix_append _ _).trans (List.prefix_append _ _)).isInfix
      · exact (ih hrest).trans (List.suffix_append _ _).isInfix

/-- So does each part of a line in lines. -/
theorem Text.infix_joinLines (before part after : String) {lines : List String}
    (h : before ++ part ++ after ∈ lines) : encode part <:+: encode (joinLines lines) := by
  refine List.IsInfix.trans ?_ (infix_intercalate h)
  rw [encode_append, encode_append]
  exact List.infix_append _ _ _

/-- The globals that added code uses, each with the code that calls it. -/
def runtimeGlobals : List (String × String) :=
  [("Object", "Object.keys("), ("Proxy", "new Proxy("), ("Error", "throw new Error(")]

/-- The runtime calls all of them. -/
theorem RuntimeNames.helpersCode_calls (names : RuntimeNames) {entry : String × String}
    (h : entry ∈ runtimeGlobals) : Text.encode entry.2 <:+: Text.encode names.helpersCode := by
  have hwrap : Text.encode names.wrapCode <:+: Text.encode names.helpersCode := by
    rw [helpersCode]
    exact Text.infix_intercalate (List.mem_cons_self ..)
  have happly : Text.encode names.applyCode <:+: Text.encode names.helpersCode := by
    rw [helpersCode]
    exact Text.infix_intercalate (List.mem_cons_of_mem _ (List.mem_cons_self ..))
  simp only [runtimeGlobals, List.mem_cons, List.not_mem_nil, or_false] at h
  rcases h with rfl | rfl | rfl
  · refine List.IsInfix.trans ?_ happly
    exact Text.infix_joinLines "    " _ "handler).forEach(k => delete handler[k]);" (by simp)
  · refine List.IsInfix.trans ?_ hwrap
    exact Text.infix_joinLines "    return " _ "obj, handler);" (by simp)
  · refine List.IsInfix.trans ?_ happly
    exact Text.infix_joinLines "    " _ (RuntimeNames.complaintCode ++ ");")
      (by simp [toString, String.append_assoc])

/-- The restoring function calls one of them. -/
theorem restoreCode_calls (function : String) (exports : List Export) (imports : List Import)
    (names : RuntimeNames) :
    Text.encode "Object.keys(" <:+: Text.encode (restoreCode function exports imports names) := by
  obtain ⟨rest, hrest⟩ : ∃ rest, emptyHandlersCode names = "Object.keys(" ++ rest := by
    simp only [emptyHandlersCode, toString, String.append_assoc]
    exact ⟨_, rfl⟩
  have hline : "  " ++ "Object.keys(" ++ rest = "  " ++ emptyHandlersCode names := by
    rw [hrest, String.append_assoc]
  rw [restoreCode]
  refine Text.infix_joinLines "  " _ rest ?_
  rw [hline]
  simp

/-! ### What a module binds -/

namespace Node

/-- A statement stays with all that it declares: it imports nothing, and it does not export a
function or class. -/
def Remains (statement : Node) : Prop :=
  statement.kind ≠ .importStatement ∧
    (statement.IsOwnExport → ∀ target ∈ statement.exportTarget?, target.isDefinition = false)

variable {source : List UInt8} {statement target : Node} {name : String}

/-- A function or class declares nothing but its name. -/
theorem name_of_mem_declarationNames {declaration identifier : Node}
    (hdefinition : declaration.isDefinition = true)
    (h : identifier ∈ declaration.declarationNames) :
    declaration.child? .name = some identifier := by
  rw [declarationNames] at h
  split at h
  · rename_i hkind
    rw [isDefinition, hkind] at hdefinition
    cases hdefinition
  · rename_i hkind
    rw [isDefinition, hkind] at hdefinition
    cases hdefinition
  · exact Option.mem_toList.mp h
  · exact Option.mem_toList.mp h
  · exact Option.mem_toList.mp h
  · cases h

/-- What a statement introduces that exports a function or class, is the name of that. -/
theorem claims_of_introduces (hkind : statement.kind = .exportStatement)
    (htarget : statement.exportTarget? = some target) (hdefinition : target.isDefinition = true)
    (h : statement.Introduces source name) : statement.Claims source name := by
  obtain ⟨identifier, hmem, hname⟩ := h
  rw [introduced, hkind] at hmem
  cases hdeclaration : statement.child? .declaration with
  | none => simp [hdeclaration] at hmem
  | some declaration =>
    have heq := declaration_of_exportTarget? htarget (by rw [hdeclaration]; rfl)
    obtain rfl := Option.some.inj (hdeclaration.symm.trans heq)
    rw [hdeclaration] at hmem
    exact ⟨declaration, identifier, htarget, hdefinition,
      name_of_mem_declarationNames hdefinition hmem, hname⟩

end Node

/-- Every import in the inventory is introduced by a statement. -/
def Workbench.ImportsIntroduced (m : Module) (bench : Workbench) : Prop :=
  ∀ entry ∈ bench.inventory.imports, ∃ statement ∈ m.root.namedChildren,
    statement.Introduces (Text.encode m.source) entry.name

theorem Step.importsIntroduced {m : Module} {a b : Workbench} {deed : Deed} (h : Step m a deed b)
    (ha : a.ImportsIntroduced m) : b.ImportsIntroduced m := by
  cases h with
  | intercept hstatement hname =>
    intro entry hentry
    rcases List.mem_append.mp hentry with hold | hnew
    · exact ha entry hold
    · obtain rfl := List.mem_singleton.mp hnew
      exact ⟨_, hstatement, hname⟩
  | edit | weaken | keep | declare | claim | store => exact ha

namespace Module

variable {m : Module} {options : Options}

/-- A module binds a name at its top level: a statement does, directly or in its blocks, or it
exports a function or class of that name. -/
def BindsName (m : Module) (name : String) : Prop :=
  (∃ statement ∈ m.root.namedChildren, statement.BindsName (Text.encode m.source) name ∨
    statement.NestsName (Text.encode m.source) name) ∨ m.Claims name

/-- What an opened module binds at its top level. -/
inductive Run.Binds (run : m.Run options) (name : String) : Prop
  /-- A statement stays, and what it binds. -/
  | kept {statement : Node} (hstatement : statement ∈ m.root.namedChildren)
      (hremains : statement.Remains)
      (hbinds : statement.BindsName (Text.encode m.source) name ∨
        statement.NestsName (Text.encode m.source) name)
  /-- An override function is imported, which stays as it is. -/
  | imported {statement : Node} (hstatement : statement ∈ m.root.namedChildren)
      (hkind : statement.kind = .importStatement)
      (hbinds : statement.BindsName (Text.encode m.source) name)
      (hoverride : isOverrideName name = true)
  /-- Another import is declared anew under its name. -/
  | redeclared {entry : Import} (hentry : entry ∈ run.visited.inventory.imports)
      (hname : entry.name = name)
  /-- An exported function or class becomes a variable of its name. -/
  | claimed (hclaims : m.Claims name)
  /-- A name is generated. -/
  | added (hname : name ∈ run.names)

namespace Run

variable (run : m.Run options)

/-- Every import that is found is introduced by a statement. -/
theorem import_introduced {entry : Import} (hentry : entry ∈ run.visited.inventory.imports) :
    ∃ statement ∈ m.root.namedChildren,
      statement.Introduces (Text.encode m.source) entry.name := by
  have hnone : run.begun.ImportsIntroduced m := by
    intro other hother
    rw [run.isBegun.inventory] at hother
    cases hother
  exact run.steps.keeps (fun _ _ _ hstep => hstep.importsIntroduced) hnone entry hentry

/-- What an import statement binds is declared anew, or it is an override function. -/
theorem binds_import {statement : Node} (hstatement : statement ∈ m.root.namedChildren)
    (hkind : statement.kind = .importStatement) {name : String}
    (hbinds : statement.BindsName (Text.encode m.source) name) : run.Binds name := by
  cases hoverride : isOverrideName name with
  | true => exact .imported hstatement hkind hbinds hoverride
  | false =>
    have hintroduces := Node.introduces_iff.mpr hbinds
    obtain ⟨binding, hbinding, hname⟩ := (Node.introduces_import_iff hkind).mp hintroduces
    obtain ⟨entry, hentry, heq⟩ := Workbench.visitAll_finds run.isBegun.source (fun _ hs => hs)
      hstatement hkind hbinding hname hoverride _ run.visits
    exact .redeclared hentry heq

/-- **What an opened module binds** is what the module binds, and what is generated. -/
theorem binds_iff {name : String} : run.Binds name ↔ m.BindsName name ∨ name ∈ run.names := by
  constructor
  · intro h
    cases h with
    | kept hstatement _ hbinds => exact .inl (.inl ⟨_, hstatement, hbinds⟩)
    | imported hstatement _ hbinds _ => exact .inl (.inl ⟨_, hstatement, .inl hbinds⟩)
    | redeclared hentry hname =>
      obtain ⟨statement, hstatement, hintroduces⟩ := run.import_introduced hentry
      rw [hname] at hintroduces
      exact .inl (.inl ⟨statement, hstatement, .inl (Node.introduces_iff.mp hintroduces)⟩)
    | claimed hclaims => exact .inl (.inr hclaims)
    | added hname => exact .inr hname
  · rintro ((⟨statement, hstatement, hbinds⟩ | hclaims) | hname)
    · by_cases hremains : statement.Remains
      · exact .kept hstatement hremains hbinds
      · by_cases hkind : statement.kind = .importStatement
        · refine run.binds_import hstatement hkind (hbinds.resolve_right fun hnests => ?_)
          have hindirect := hnests.1
          rw [hkind] at hindirect
          cases hindirect
        · have hdefines : statement.IsOwnExport ∧
              ∃ target, statement.exportTarget? = some target ∧ target.isDefinition = true := by
            simpa [Node.Remains, hkind] using hremains
          obtain ⟨hown, target, htarget, hdefinition⟩ := hdefines
          have hbinds := hbinds.resolve_right fun hnests => by
            have hindirect := hnests.1
            rw [hown.kind] at hindirect
            cases hindirect
          exact .claimed ⟨statement, hstatement, hown, Node.claims_of_introduces hown.kind htarget
            hdefinition (Node.introduces_iff.mpr hbinds)⟩
    · exact .claimed hclaims
    · exact .added hname

/-- Generated names begin with few letters. -/
theorem head?_of_mem_names {name : String} (h : name ∈ run.names) :
    name.toList.head? = some '_' ∨ name.toList.head? = some 'r' := by
  have hreserved : ∀ choices, (choices, name) ∈
      run.plan.slots.map (([], ·)) ++ (["$stub"], run.plan.parameter) :: run.plan.reserved →
      name ∈ choices ∨ Names.IsMadeUp name :=
    fun choices hentry => (run.isPlanned.reserves.mem_or_fresh hentry).imp_right And.left
  simp only [names, imports_alias, List.mem_append, or_assoc] at h
  rcases h with hruntime | halias | hstored | hslot | hfunction
  · exact .inl (run.runtime_isMadeUp hruntime)
  · have hgenerated := (generated_perm run.deeds).mem_iff.mpr (List.mem_append_left _ halias)
    exact .inl (run.steps.isMadeUp name hgenerated)
  · have hgenerated := (generated_perm run.deeds).mem_iff.mpr (List.mem_append_right _ hstored)
    exact .inl (run.steps.isMadeUp name hgenerated)
  · refine .inl ((hreserved [] ?_).resolve_left List.not_mem_nil)
    exact List.mem_append_left _ (List.mem_map_of_mem hslot)
  · rw [← run.plan.reserved_names] at hfunction
    obtain ⟨⟨choices, _⟩, hentry, rfl⟩ := List.mem_map.mp hfunction
    rcases hreserved choices (List.mem_append_right _ (List.mem_cons_of_mem _ hentry)) with
      hchoice | hmadeUp
    · exact .inr (run.head?_of_mem_choices hentry hchoice)
    · exact .inl hmadeUp

/-- No generated name is that of a global. -/
theorem not_mem_names {entry : String × String} (h : entry ∈ runtimeGlobals) :
    entry.1 ∉ run.names := by
  intro hmem
  have hhead := run.head?_of_mem_names hmem
  simp only [runtimeGlobals, List.mem_cons, List.not_mem_nil, or_false] at h
  rcases h with rfl | rfl | rfl
  · revert hhead
    decide
  · revert hhead
    decide
  · revert hhead
    decide

/-- Each import is declared anew in the code, under its own name. -/
theorem interceptionCode_infix {topped last : Workbench} {code : String}
    (htop : run.planned.prepend run.planned.runtime.tableCode = .ok topped)
    (hend : topped.edit (·.append (run.plan.code topped.runtime)) = .ok last)
    (hcode : (last.finalCode m.source).result = .ok code) {entry : Import}
    (hentry : entry ∈ run.visited.inventory.imports) :
    Text.encode (interceptionCode entry run.visited.runtime) <:+: Text.encode code := by
  obtain ⟨hsource, first, added, hedits, -⟩ := run.edits_eq htop hend
  obtain ⟨_, -, -, edit, hedit, -, -, entries, hmem, htext⟩ := run.declares entry hentry
  have hbytes := Workbench.finalCode_renders hcode hsource
  have hin : edit ∈ last.draft.edits := hedits ▸ List.mem_append_left _ hedit
  refine List.IsInfix.trans ?_ (Draft.text_infix hbytes hin)
  have hpart := List.mem_map_of_mem (f := fun entry =>
    "\n" ++ interceptionCode entry run.visited.runtime) hmem
  rw [htext]
  refine List.IsInfix.trans ?_ (Text.infix_intercalate hpart)
  rw [Text.encode_append]
  exact (List.suffix_append _ _).isInfix

/-- The restoring function and the runtime stand in the code. -/
theorem added_infix {topped last : Workbench} {code : String}
    (htop : run.planned.prepend run.planned.runtime.tableCode = .ok topped)
    (hend : topped.edit (·.append (run.plan.code topped.runtime)) = .ok last)
    (hcode : (last.finalCode m.source).result = .ok code) {part : String}
    (hpart : part ∈ (run.plan.parts run.visited.runtime).flatten) :
    Text.encode part <:+: Text.encode code := by
  obtain ⟨hsource, first, added, hedits, -, -, htext⟩ := run.edits_eq htop hend
  have hbytes := Workbench.finalCode_renders hcode hsource
  have hin : added ∈ last.draft.edits := by simp [hedits]
  refine List.IsInfix.trans ?_ (Draft.text_infix hbytes hin)
  rw [htext, OverridePlan.code_eq_parts, Text.encode_append, Text.encode_append]
  exact (Text.infix_intercalate hpart).trans (List.infix_append _ _ _)

end Run

/-- The restoring function of an opened module. -/
def Run.restoring (run : m.Run options) : String :=
  restoreCode run.plan.restore (run.plan.exports.map Prod.fst) (run.plan.imports.map Prod.fst)
    run.visited.runtime

/-- What stands in the code of an opened module. -/
structure Run.Calls (run : m.Run options) (code : String) : Prop where
  /-- The restoring function, which calls a global, -/
  restore : Text.encode run.restoring <:+: Text.encode code ∧
    Text.encode "Object.keys(" <:+: Text.encode run.restoring
  /-- the runtime, which calls all of them, -/
  runtime : Text.encode run.visited.runtime.helpersCode <:+: Text.encode code ∧
    ∀ entry ∈ runtimeGlobals, Text.encode entry.2 <:+: Text.encode run.visited.runtime.helpersCode
  /-- and a declaration of each import under its own name. -/
  imports : ∀ entry ∈ run.visited.inventory.imports,
    Text.encode (interceptionCode entry run.visited.runtime) <:+: Text.encode code

theorem Run.calls (run : m.Run options) {topped last : Workbench} {code : String}
    (htop : run.planned.prepend run.planned.runtime.tableCode = .ok topped)
    (hend : topped.edit (·.append (run.plan.code topped.runtime)) = .ok last)
    (hcode : (last.finalCode m.source).result = .ok code) : run.Calls code where
  restore := ⟨run.added_infix htop hend hcode (by simp [OverridePlan.parts, restoring]),
    restoreCode_calls _ _ _ _⟩
  runtime := ⟨run.added_infix htop hend hcode (by simp [OverridePlan.parts]),
    fun _ => run.visited.runtime.helpersCode_calls⟩
  imports _ := run.interceptionCode_infix htop hend hcode

/-- **Exactly when a global is hidden.** A module is opened. Its code calls some globals, in the
function that restores and in the runtime. At its top level are the names that the module binds and
those that are generated, and no global has a generated name. So code that calls a global finds
something else under its name if and only if the module itself binds that. A module without override
functions stays what it was. -/
theorem globals_hidden_iff {opening : Opening}
    (h : (m.transform options).outcome = .opened opening) :
    opening = ⟨m.source, {}⟩ ∨ ∃ run : m.Run options, run.plan.overrides = opening.overrides ∧
      run.Calls opening.code ∧
      (∀ name, run.Binds name ↔ m.BindsName name ∨ name ∈ run.names) ∧
      ∀ entry ∈ runtimeGlobals, run.Binds entry.1 ↔ m.BindsName entry.1 := by
  refine (opened_cases h).imp (eq_of_no_overrides h) ?_
  rintro ⟨run, topped, last, hoverrides, htop, hend, hcode⟩
  refine ⟨run, hoverrides, run.calls htop hend hcode, fun _ => run.binds_iff, ?_⟩
  intro entry hentry
  rw [run.binds_iff]
  exact or_iff_left (run.not_mem_names hentry)

/-- The specimen is opened, and its code calls the globals. -/
theorem globals_hidden_iff_specimen : ∃ opening,
    (specimen.transform {}).outcome = .opened opening ∧
    ∃ run : specimen.Run {}, run.plan.overrides = opening.overrides ∧ run.Calls opening.code ∧
      (∀ name, run.Binds name ↔ specimen.BindsName name ∨ name ∈ run.names) ∧
      ∀ entry ∈ runtimeGlobals, run.Binds entry.1 ↔ specimen.BindsName entry.1 := by
  obtain ⟨opening, hopened, hsome⟩ := specimen_opened {}
  refine ⟨opening, hopened, (globals_hidden_iff hopened).resolve_left fun hsame => ?_⟩
  rw [hsame] at hsome
  cases hsome

/-! ### An import that hides a global -/

/-- A module that imports something under the name of a global: `import Proxy from './dep';`. -/
def proxied : Module where
  source := "import Proxy from './dep';\n"
  root := { kind := .program, start := 0, stop := 27, children := [
    { kind := .importStatement, start := 0, stop := 26, children := [
      { kind := .other "import", start := 0, stop := 6, named := false },
      { kind := .importClause, start := 7, stop := 12, children := [
        { kind := .identifier, start := 7, stop := 12 }] },
      { kind := .string, start := 18, stop := 25, role := some .source }] }] }

theorem proxied_wellFormed : proxied.WellFormed := by
  decide +kernel

theorem proxied_imports : ∃ statement ∈ proxied.root.namedChildren,
    statement.kind = .importStatement ∧ ∃ binding ∈ statement.importBindings,
      binding.localName.text (Text.encode proxied.source) = .ok "Proxy" := by
  decide +kernel

theorem proxied_opened : ∃ opening, (proxied.transform {}).outcome = .opened opening ∧
    opening.overrides.restore.isSome = true := by
  obtain ⟨statement, hstatement, hkind, binding, hbinding, hname⟩ := proxied_imports
  exact opened_of_import proxied_wellFormed (by decide +kernel) hstatement hkind hbinding hname
    (by decide)

/-- **A module may hide a global.** It imports something as `Proxy`, and the opened module declares
that name anew. So the runtime, which makes a `Proxy` of every import, finds the name of the import
instead of the global. -/
theorem proxied_hides : proxied.WellFormed ∧ ∃ opening,
    (proxied.transform {}).outcome = .opened opening ∧ opening.overrides.restore.isSome = true ∧
      Text.encode "new Proxy(" <:+: Text.encode opening.code ∧
      Text.encode "let Proxy = " <:+: Text.encode opening.code ∧
      ∃ run : proxied.Run {}, run.plan.overrides = opening.overrides ∧ run.Binds "Proxy" := by
  obtain ⟨opening, hopened, hsome⟩ := proxied_opened
  refine ⟨proxied_wellFormed, opening, hopened, hsome, ?_⟩
  obtain hnone | ⟨run, topped, last, hoverrides, htop, hend, hcode⟩ := opened_cases hopened
  · rw [hnone] at hsome
    cases hsome
  · obtain ⟨-, ⟨hruntime, hcalls⟩, hdeclared⟩ := run.calls htop hend hcode
    obtain ⟨statement, hstatement, hkind, binding, hbinding, hname⟩ := proxied_imports
    obtain ⟨entry, hentry, heq⟩ := Workbench.visitAll_finds run.isBegun.source (fun _ hs => hs)
      hstatement hkind hbinding hname (by decide) _ run.visits
    refine ⟨(hcalls ("Proxy", _) (by simp [runtimeGlobals])).trans hruntime, ?_, run, hoverrides,
      .redeclared hentry heq⟩
    obtain ⟨rest, hrest⟩ : ∃ rest,
        interceptionCode entry run.visited.runtime = "let Proxy = " ++ rest := by
      refine ⟨run.visited.runtime.wrapFunction ++ "(" ++ entry.alias ++ ", " ++
        Text.quote entry.name ++ ");", ?_⟩
      simp [interceptionCode, heq, toString, String.append_assoc]
    refine List.IsInfix.trans ?_ (hdeclared entry hentry)
    rw [hrest, Text.encode_append]
    exact (List.prefix_append _ _).isInfix

end Module

end Seams
