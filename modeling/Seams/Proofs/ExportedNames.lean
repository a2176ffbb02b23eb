import Seams.Proofs.NameCollisions

/-!
# Exported names of an opened module

An opened module exports what it exported before, and the override functions. The names of the
functions are reserved with a view to what the module binds, which is not what it exports: an
export may be renamed, and it may come from another module. So the exported names differ only if no
exported name is the first unbound choice for the name of an override function.

## Main definitions

* `Node.exportedNames`, `Module.exportedNames` — the names that a statement and a module export
* `Module.Run.Meets` — an exported name that an override function gets as well

## Main results

* `Module.Run.reserved_clear` — override functions do not compete for their first choices
* `Module.exports_distinct_iff` — exactly when the exported names of an opened module differ
* `renamed_collides` — a module for which they do not
-/

namespace Seams

/-! ### What a module exports -/

namespace Node

/-- The name that a node stands for in an export: what is between the quotes, if it is a string. -/
def exportedName (source : List UInt8) (node : Node) : Except Failure String := do
  let text ← node.text source
  return if node.kind = .string then String.ofList (text.toList.drop 1).dropLast else text

/-- The nodes of the names under which a statement without default exports something. -/
def exportedNodes (statement : Node) : List Node :=
  match statement.child? .declaration with
  | some declaration =>
    if declaration.kind.isVariableDeclaration then declaration.declared
    else if declaration.kind.isFunctionDeclaration || declaration.kind.isClass then
      (declaration.child? .name).toList
    else []
  | none =>
    statement.namedChildren.flatMap fun child =>
      if child.kind = .exportClause then
        (child.namedChildren.filter fun specifier => specifier.kind == .exportSpecifier).filterMap
          fun specifier => (specifier.children.filter fun part => part.kind != .keywordAs).getLast?
      else if child.kind = .other "namespace_export" then child.namedChildren.getLast?.toList
      else []

/-- The names that a statement exports. What a whole other module exports has no names here. -/
def exportedNames (source : List UInt8) (statement : Node) : Except Failure (List String) :=
  if statement.kind = .exportStatement then
    if statement.isDefaultExport then .ok [defaultName]
    else statement.exportedNodes.mapM (exportedName source)
  else .ok []

end Node

/-- The names that a module exports. -/
def Module.exportedNames (m : Module) : Except Failure (List String) := do
  let names ← m.root.namedChildren.mapM (Node.exportedNames (Text.encode m.source))
  return names.flatten

/-! ### Unique exports -/

theorem Inventory.firstOfEach_nodup (seen : List String) (exports : List Export) :
    ((firstOfEach seen exports).map Export.name).Nodup ∧
      ∀ entry ∈ firstOfEach seen exports, entry.name ∉ seen := by
  induction exports generalizing seen with
  | nil => simp [firstOfEach]
  | cons entry rest ih =>
    rw [firstOfEach]
    split
    · exact ih seen
    · rename_i hnew
      obtain ⟨hnodup, hseen⟩ := ih (entry.name :: seen)
      refine ⟨List.nodup_cons.mpr ⟨fun hmem => ?_, hnodup⟩, fun other hother => ?_⟩
      · obtain ⟨other, hother, heq⟩ := List.mem_map.mp hmem
        exact hseen other hother (heq ▸ List.mem_cons_self ..)
      · rcases List.mem_cons.mp hother with rfl | hother
        · simpa using hnew
        · exact fun hin => hseen other hother (List.mem_cons_of_mem _ hin)

namespace Module.Run

variable {m : Module} {options : Options} (run : m.Run options)

/-- Each name is exported once, as far as override functions go. -/
theorem exports_nodup : (run.plan.exports.map fun entry => entry.1.name).Nodup := by
  have hnames : run.plan.exports.map (fun entry => entry.1.name) =
      run.visited.inventory.uniqueExports.map Export.name := by
    have h := congrArg (List.map Prod.fst) run.isPlanned.exports
    simpa [Function.comp_def] using h
  rw [hnames]
  exact (Inventory.firstOfEach_nodup [] _).1

/-! ### What the choices are -/

theorem mem_reserved {entry : List String × String} (h : entry ∈ run.plan.reserved) :
    (∃ e ∈ run.plan.exports, entry = (e.1.choices, e.2)) ∨
      (∃ i ∈ run.plan.imports, entry = (i.1.choices, i.2)) ∨
      entry = (["restore", "restore$rewire"], run.plan.restore) := by
  simp only [OverridePlan.reserved, List.mem_append, List.mem_map, List.mem_singleton] at h
  rcases h with (⟨e, he, rfl⟩ | ⟨i, hi, rfl⟩) | rfl
  · exact .inl ⟨e, he, rfl⟩
  · exact .inr (.inl ⟨i, hi, rfl⟩)
  · exact .inr (.inr rfl)

theorem head?_override (name : String) : (overridePrefix ++ name).toList.head? = some 'r' := by
  rw [String.toList_append]
  rfl

theorem override_ne (name : String) :
    overridePrefix ++ name ≠ "rewire" ∧ overridePrefix ++ name ≠ "restore" := by
  have hlist : (overridePrefix ++ name).toList = "rewire$".toList ++ name.toList :=
    String.toList_append
  constructor
  · intro heq
    rw [heq] at hlist
    simp at hlist
  · intro heq
    rw [heq] at hlist
    simp at hlist

/-- What is tried for an override function: a name with the prefix of all such names, or one of the
special names for a default export and for the function that undoes overrides. -/
theorem choice_cases {entry : List String × String} (h : entry ∈ run.plan.reserved)
    {choice : String} (hchoice : choice ∈ entry.1) :
    (∃ name, choice = overridePrefix ++ name) ∨ choice = "restore$rewire" ∨
      (choice = "rewire" ∧ ∃ e ∈ run.plan.exports, e.1.name = defaultName ∧ e.2 = entry.2) ∨
      (choice = "restore" ∧ entry.2 = run.plan.restore) := by
  rcases run.mem_reserved h with ⟨e, he, rfl⟩ | ⟨i, -, rfl⟩ | rfl
  · dsimp only [Export.choices] at hchoice
    split at hchoice
    · rename_i hdefault
      rcases List.mem_cons.mp hchoice with rfl | hchoice
      · exact .inr (.inr (.inl ⟨rfl, e, he, hdefault, rfl⟩))
      · exact .inl ⟨_, List.mem_singleton.mp hchoice⟩
    · exact .inl ⟨_, List.mem_singleton.mp hchoice⟩
  · exact .inl ⟨_, List.mem_singleton.mp hchoice⟩
  · rcases List.mem_cons.mp hchoice with rfl | hchoice
    · exact .inr (.inr (.inr ⟨rfl, rfl⟩))
    · exact .inr (.inl (List.mem_singleton.mp hchoice))

/-- A choice that has others after it is one of the special names. -/
theorem eq_of_mem_dropLast {entry : List String × String} (h : entry ∈ run.plan.reserved)
    {choice : String} (hchoice : choice ∈ entry.1.dropLast) :
    choice = "rewire" ∨ choice = "restore" := by
  rcases run.mem_reserved h with ⟨e, -, rfl⟩ | ⟨i, -, rfl⟩ | rfl
  · dsimp only [Export.choices] at hchoice
    split at hchoice
    · exact .inl (List.mem_singleton.mp hchoice)
    · cases hchoice
  · cases hchoice
  · exact .inr (List.mem_singleton.mp hchoice)

/-- All choices begin with the same letter. -/
theorem head?_of_mem_choices {entry : List String × String} (h : entry ∈ run.plan.reserved)
    {choice : String} (hchoice : choice ∈ entry.1) : choice.toList.head? = some 'r' := by
  rcases run.choice_cases h hchoice with ⟨name, rfl⟩ | rfl | ⟨rfl, -⟩ | ⟨rfl, -⟩
  · exact head?_override name
  · decide
  · decide
  · decide

/-- A choice that has others after it is tried for one function only. -/
theorem eq_of_shared_choice {first second : List String × String}
    (hfirst : first ∈ run.plan.reserved) (hsecond : second ∈ run.plan.reserved) {choice : String}
    (hchoice : choice ∈ first.1.dropLast) (hshared : choice ∈ second.1) :
    first.2 = second.2 := by
  have hmem := List.dropLast_subset _ hchoice
  rcases run.eq_of_mem_dropLast hfirst hchoice with rfl | rfl
  · -- Only one export is the default.
    have howner : ∀ entry ∈ run.plan.reserved, "rewire" ∈ entry.1 →
        ∃ e ∈ run.plan.exports, e.1.name = defaultName ∧ e.2 = entry.2 := by
      intro entry hentry hin
      rcases run.choice_cases hentry hin with ⟨name, heq⟩ | heq | ⟨-, howner⟩ | ⟨heq, -⟩
      · exact absurd heq.symm (override_ne name).1
      · exact absurd heq (by decide)
      · exact howner
      · exact absurd heq (by decide)
    obtain ⟨e, he, hname, hgiven⟩ := howner first hfirst hmem
    obtain ⟨e', he', hname', hgiven'⟩ := howner second hsecond hshared
    have hsame := List.inj_on_of_nodup_map run.exports_nodup he he' (hname.trans hname'.symm)
    rw [← hgiven, ← hgiven', hsame]
  · have howner : ∀ entry ∈ run.plan.reserved, "restore" ∈ entry.1 →
        entry.2 = run.plan.restore := by
      intro entry hentry hin
      rcases run.choice_cases hentry hin with ⟨name, heq⟩ | heq | ⟨heq, -⟩ | ⟨-, howner⟩
      · exact absurd heq.symm (override_ne name).2
      · exact absurd heq (by decide)
      · exact absurd heq (by decide)
      · exact howner
    exact (howner first hfirst hmem).trans (howner second hsecond hshared).symm

/-! ### What is in use when functions get their names -/

theorem runtime_isMadeUp {name : String} (h : name ∈ run.visited.runtime.all) :
    Names.IsMadeUp name := by
  rw [run.steps.runtime] at h
  have hreserves := run.isBegun.reserves
  simp only [RuntimeNames.all, List.mem_cons, List.not_mem_nil, or_false] at h
  have hchosen : ∀ usual name, ([usual], name) ∈ run.begun.runtime.reserved →
      Names.IsMadeUp usual → Names.IsMadeUp name := by
    intro usual name hmem husual
    rcases hreserves.mem_or_fresh hmem with hchoice | ⟨hmadeUp, -⟩
    · rwa [List.mem_singleton.mp hchoice]
    · exact hmadeUp
  rcases h with rfl | rfl | rfl
  · exact hchosen ({} : RuntimeNames).handlerTable _ (.head _) (by decide)
  · exact hchosen ({} : RuntimeNames).wrapFunction _ (.tail _ (.head _)) (by decide)
  · exact hchosen ({} : RuntimeNames).applyFunction _ (.tail _ (.tail _ (.head _))) (by decide)

theorem head?_ne_of_isMadeUp {name : String} (h : Names.IsMadeUp name) :
    name.toList.head? ≠ some 'r' := by
  rw [h]
  decide

theorem head?_of_visited_issued {name : String} (h : name ∈ run.visited.names.issued) :
    name.toList.head? ≠ some 'r' := by
  rcases run.mem_visited_issued.mp h with h | h
  · exact head?_ne_of_isMadeUp (run.steps.isMadeUp name h)
  · exact head?_ne_of_isMadeUp (run.runtime_isMadeUp h)

/-- No choice for an override function is in use by another kind of generated name. -/
theorem exists_reserves : ∃ names : Names, names.scope = run.visited.scope ∧
    names.Reserves run.plan.reserved run.planned.names ∧
    ∀ name ∈ names.issued, name.toList.head? ≠ some 'r' := by
  have hreserves := run.isPlanned.reserves
  rw [← List.singleton_append, ← List.append_assoc] at hreserves
  obtain ⟨names, hfirst, hsecond⟩ := hreserves.split
  refine ⟨names, hfirst.grants.scope, hsecond, fun name hname => ?_⟩
  rcases (hfirst.grants.issued name).mp hname with hgiven | hbefore
  · obtain ⟨⟨choices, _⟩, hentry, rfl⟩ := List.mem_map.mp hgiven
    rcases hfirst.mem_or_fresh hentry with hchoice | ⟨hmadeUp, -⟩
    · -- There is no choice of a slot, so this is the parameter.
      rcases List.mem_append.mp hentry with hslot | hparameter
      · obtain ⟨_, -, heq⟩ := List.mem_map.mp hslot
        cases heq
        cases hchoice
      · cases List.mem_singleton.mp hparameter
        rw [List.mem_singleton.mp hchoice]
        decide
    · exact head?_ne_of_isMadeUp hmadeUp
  · exact run.head?_of_visited_issued hbefore

/-! ### Competition for names -/

/-- **Override functions do not compete for their first choices.** If there is another choice for a
name, then no other function gets the one that was refused. -/
theorem reserved_clear {entry : List String × String} (h : entry ∈ run.plan.reserved)
    {choice : String} (hchoice : choice ∈ entry.1.dropLast) (hne : choice ≠ entry.2) :
    choice ∉ run.plan.functions := by
  intro hmem
  rw [← run.plan.reserved_names] at hmem
  obtain ⟨⟨choices, _⟩, hother, rfl⟩ := List.mem_map.mp hmem
  obtain ⟨names, -, hreserves, -⟩ := run.exists_reserves
  have hhead := run.head?_of_mem_choices h (List.dropLast_subset _ hchoice)
  have hin := (hreserves.mem_or_fresh hother).resolve_right
    fun hmadeUp => head?_ne_of_isMadeUp hmadeUp.1 hhead
  exact hne (run.eq_of_shared_choice h hother hchoice hin).symm

/-! ### Exported names that meet -/

/-- A name is the first choice for an override function that the module does not bind, or it is the
name that was made up for the function. -/
def Meets (entry : List String × String) (name : String) : Prop :=
  entry.1.find? (fun choice => !run.visited.scope.binds choice) = some name ∨
    entry.2 ∉ entry.1 ∧ entry.2 = name

/-- **Which names override functions have.** -/
theorem mem_functions_iff {name : String} :
    name ∈ run.plan.functions ↔ ∃ entry ∈ run.plan.reserved, run.Meets entry name := by
  obtain ⟨names, hscope, hreserves, hissued⟩ := run.exists_reserves
  have hclear : ∀ entry ∈ run.plan.reserved, ∀ choice ∈ entry.1, choice ∉ names.issued :=
    fun entry hentry choice hchoice hin =>
      hissued choice hin (run.head?_of_mem_choices hentry hchoice)
  constructor
  · intro hname
    rw [← run.plan.reserved_names] at hname
    obtain ⟨⟨choices, given⟩, hentry, rfl⟩ := List.mem_map.mp hname
    refine ⟨_, hentry, ?_⟩
    by_cases hchoice : given ∈ choices
    · refine .inl ?_
      rw [← hscope]
      refine hreserves.find?_of_mem hentry hchoice fun c hc hne => ?_
      rw [run.plan.reserved_names]
      exact ⟨run.reserved_clear hentry hc hne,
        hclear _ hentry c (List.dropLast_subset _ hc)⟩
    · exact .inr ⟨hchoice, rfl⟩
  · rintro ⟨entry, hentry, hfind | ⟨-, rfl⟩⟩
    · rw [← hscope] at hfind
      have hchoice := List.mem_of_find?_eq_some hfind
      rw [← run.plan.reserved_names]
      exact (hreserves.mem_of_find? hentry hfind).resolve_right (hclear entry hentry name hchoice)
    · rw [← run.plan.reserved_names]
      exact List.mem_map_of_mem hentry

theorem functions_nodup : run.plan.functions.Nodup :=
  run.names_nodup.sublist (List.sublist_append_right _ _)

/-- The names that the opened module exports: what the module itself exports, and the override
functions. -/
def exportedNames : Except Failure (List String) := do
  return (← m.exportedNames) ++ run.plan.functions

/-- **Exactly when exported names differ.** -/
theorem nodup_append_functions {names : List String} (h : names.Nodup) :
    (names ++ run.plan.functions).Nodup ↔
      ∀ name ∈ names, ∀ entry ∈ run.plan.reserved, ¬ run.Meets entry name := by
  rw [List.nodup_append']
  constructor
  · rintro ⟨-, -, hdisjoint⟩ name hname entry hentry hmeets
    exact hdisjoint hname (run.mem_functions_iff.mpr ⟨entry, hentry, hmeets⟩)
  · refine fun hapart => ⟨h, run.functions_nodup, fun name hname hfunction => ?_⟩
    obtain ⟨entry, hentry, hmeets⟩ := run.mem_functions_iff.mp hfunction
    exact hapart name hname entry hentry hmeets

end Module.Run

/-! ### Opened modules -/

/-- **Exactly when the exported names of an opened module differ.** If a module exports each name
once, then the opened module does so if and only if no exported name is the first choice for the
name of an override function that the module does not bind, nor made up for such a function. -/
theorem Module.exports_distinct_iff {m : Module} {options : Options} {opening : Opening}
    {names : List String} (h : (m.transform options).outcome = .opened opening)
    (hsome : opening.overrides.restore.isSome = true) (hnames : m.exportedNames = .ok names)
    (hdistinct : names.Nodup) :
    ∃ run : m.Run options, run.plan.overrides = opening.overrides ∧
      ∃ all, run.exportedNames = .ok all ∧ (all.Nodup ↔
        ∀ name ∈ names, ∀ entry ∈ run.plan.reserved, ¬ run.Meets entry name) := by
  obtain ⟨run, hoverrides⟩ := exists_run h hsome
  refine ⟨run, hoverrides, names ++ run.plan.functions, ?_, run.nodup_append_functions hdistinct⟩
  rw [Run.exportedNames, hnames]
  rfl

/-- The specimen exports one name, and is opened. -/
theorem Module.exports_distinct_iff_specimen : specimen.exportedNames = .ok ["b"] ∧
    ["b"].Nodup ∧ ∃ opening, (specimen.transform {}).outcome = .opened opening ∧
      opening.overrides.restore.isSome = true ∧
      ∃ run : specimen.Run {}, run.plan.overrides = opening.overrides ∧
        ∃ all, run.exportedNames = .ok all ∧ (all.Nodup ↔
          ∀ name ∈ ["b"], ∀ entry ∈ run.plan.reserved, ¬ run.Meets entry name) := by
  have hnames : specimen.exportedNames = .ok ["b"] := by decide +kernel
  have hdistinct : ["b"].Nodup := by decide
  obtain ⟨opening, hopened, hsome⟩ := specimen_opened {}
  exact ⟨hnames, hdistinct, opening, hopened, hsome,
    exports_distinct_iff hopened hsome hnames hdistinct⟩

/-! ### A name that meets -/

/-- An export of a variable that can be assigned is entered, and nothing else changes. -/
theorem Workbench.openSpecifier_of_mutable {bench : Workbench}
    {statement specifier localNode nameNode : Node} {localName name : String} {binding : Binding}
    (hparts : specifierParts specifier = .ok (localNode, nameNode))
    (hstring : ¬ (localNode.kind = .string ∨ nameNode.kind = .string))
    (hlocal : bench.text localNode = .ok localName) (hname : bench.text nameNode = .ok name)
    (hb : bench.scope.get? localName = some binding) (hmutable : binding.isImmutable = false) :
    (bench.openSpecifier statement specifier).result =
      .ok { bench with inventory := bench.inventory.addExport name localName } := by
  have hconst := (Binding.isImmutable_eq_false_iff.mp hmutable).1
  refine Traced.bind_ok.mpr ⟨_, hparts, ?_⟩
  show (if localNode.kind = .string ∨ nameNode.kind = .string then _ else _ :
    Traced Workbench).result = _
  rw [if_neg hstring]
  refine Traced.bind_ok.mpr ⟨_, hlocal, Traced.bind_ok.mpr ⟨_, hname, ?_⟩⟩
  rw [openNamedSpecifier]
  rw [hb]
  simp only [beq_eq_false_iff_ne.mpr hconst, hmutable, Bool.and_false, Bool.false_eq_true, if_false]
  rfl

namespace Module

/-- A module that exports a variable under the name of the function that undoes overrides, and does
not bind that name. -/
def renamed : Module where
  source := "let a = 1;\nexport { a as restore };\n"
  root := { kind := .program, start := 0, stop := 36, children := [
    { kind := .lexicalDeclaration, start := 0, stop := 10, children := [
      { kind := .keywordLet, start := 0, stop := 3, role := some .kind, named := false },
      { kind := .variableDeclarator, start := 4, stop := 9, children := [
        { kind := .identifier, start := 4, stop := 5, role := some .name },
        { kind := .other "number", start := 8, stop := 9, role := some .value }] }] },
    { kind := .exportStatement, start := 11, stop := 35, children := [
      { kind := .other "export", start := 11, stop := 17, named := false },
      { kind := .exportClause, start := 18, stop := 34, children := [
        { kind := .exportSpecifier, start := 20, stop := 32, children := [
          { kind := .identifier, start := 20, stop := 21, role := some .name },
          { kind := .keywordAs, start := 22, stop := 24, named := false },
          { kind := .identifier, start := 25, stop := 32, role := some .alias }] }] }] }] }

theorem renamed_scope {begun : Workbench} (h : Begun renamed begun) :
    begun.scope.binds "restore" = false ∧
      ∃ binding, begun.scope.get? "a" = some binding ∧ binding.isImmutable = false := by
  have hscope : (Scope.ofTree (Text.encode renamed.source) renamed.root).map (fun scope =>
      (scope.binds "restore", (scope.get? "a").map Binding.isImmutable)) =
        .ok (false, some false) := by
    decide +kernel
  rw [h.scope] at hscope
  obtain ⟨hrestore, ha⟩ := Prod.mk.inj (Except.ok.inj hscope)
  exact ⟨hrestore, Option.map_eq_some_iff.mp ha⟩

theorem renamed_visits {begun : Workbench} (h : Begun renamed begun) :
    (begun.visitAll renamed.root.namedChildren).result =
      .ok { begun with inventory := begun.inventory.addExport "restore" "a" } := by
  obtain ⟨-, binding, hb, hmutable⟩ := renamed_scope h
  refine Traced.bind_ok.mpr ⟨begun, rfl, Traced.bind_ok.mpr ⟨_, ?_, rfl⟩⟩
  show (begun.openExport _).result = _
  rw [Workbench.openExport]
  rw [if_neg (by decide), if_neg (by decide)]
  refine Traced.bind_ok.mpr
    ⟨_, Workbench.openSpecifier_of_mutable rfl (by decide) ?_ ?_ hb hmutable, rfl⟩
  · rw [Workbench.text, h.source]
    decide +kernel
  · rw [Workbench.text, h.source]
    decide +kernel

/-- **Exported names may collide.** The module exports one name, and the opened module exports a
function of the same name. -/
theorem renamed_collides : renamed.exportedNames = .ok ["restore"] ∧
    ∃ opening, (renamed.transform {}).outcome = .opened opening ∧
      opening.overrides.restore = some "restore" := by
  refine ⟨by decide +kernel, ?_⟩
  obtain ⟨opening, hopened, hsome⟩ : ∃ opening, (renamed.transform {}).outcome = .opened opening ∧
      opening.overrides.restore.isSome = true := by
    refine opened_of_found (by decide +kernel) (by decide +kernel) ?_
    intro begun visited hstart hvisit
    rw [renamed_visits (Workbench.start_ensures _ _ _ hstart)] at hvisit
    rw [← Except.ok.inj hvisit]
    simp [Inventory.isEmpty, Inventory.addExport]
  obtain ⟨run, hoverrides⟩ := exists_run hopened hsome
  have hscope : run.visited.scope = run.begun.scope := by
    have hvisited := run.visits.symm.trans (renamed_visits run.isBegun)
    rw [Except.ok.inj hvisited]
    rfl
  have hentry : (["restore", "restore$rewire"], run.plan.restore) ∈ run.plan.reserved :=
    List.mem_append_right _ (List.mem_singleton_self _)
  have hmem : "restore" ∈ run.plan.functions := by
    refine run.mem_functions_iff.mpr ⟨_, hentry, .inl ?_⟩
    rw [hscope]
    exact List.find?_cons_of_pos (by simp [(renamed_scope run.isBegun).1])
  have hrestore : run.plan.restore = "restore" := by
    by_contra hne
    exact run.reserved_clear hentry (List.mem_singleton_self _) (Ne.symm hne) hmem
  refine ⟨opening, hopened, ?_⟩
  rw [← hoverrides, OverridePlan.overrides, hrestore]

end Module

end Seams
