import Seams.Proofs.Lineage

/-!
# Setting up and asking for loggers

Setting a logger up changes this logger alone: it gets the level, and the handlers it has none of
their kind of.

Asking for a logger looks for handlers along two ways, the chain of loggers that exist and the
dotted names, and brings the loggers of those names into being. The chain may pass over a name and
may end early, where a logger hands nothing on; the names do not tell of the root. But together
they cover the lineage, and neither leaves it. So the logger is set up just if its lineage is bare,
and nothing else about it matters.

## Main definitions

* `Logger.setUp` — a logger that was set up
* `Logger.Extends` — a logger has more handlers, but no second one of a kind
* `Registry.Wakes` — nothing happens but that blank loggers come into being

## Main results

* `Registry.setup_of_parse`, `Registry.setup_of_unknown` — setting a logger up
* `Registry.obtain_of_isBare`, `Registry.obtain_of_not_isBare` — asking for a logger
* `Registry.obtain_obtain` — asking once more changes nothing
-/

namespace Seams

/-! ### A logger that is set up -/

namespace Logger

/-- The number of handlers that write to the console. -/
def consoles (logger : Logger) : Nat :=
  logger.handlers.countP Handler.isConsole

/-- The number of handlers that write to a file. -/
def files (logger : Logger) : Nat :=
  logger.handlers.countP (!·.isConsole)

/-- The console handler a logger gets when it is set up, unless it has one. -/
def missingConsole (level : Level) (logger : Logger) : List Handler :=
  if logger.handlers.any Handler.isConsole then [] else [.console level]

/-- The handler for a file that a logger gets when it is set up, unless it has one. -/
def missingFile (file : Option String) (logger : Logger) : List Handler :=
  match file with
  | some path => if logger.handlers.any (!·.isConsole) then [] else [.file .debug { path }]
  | none => []

/-- A logger after it was set up. -/
def setUp (level : Level) (file : Option String) (logger : Logger) : Logger :=
  { logger with
    level := some level
    handlers := logger.handlers ++ (logger.missingConsole level ++ logger.missingFile file) }

/-- A logger that was set up writes to the console. -/
theorem exists_console_setUp (level : Level) (file : Option String) (logger : Logger) :
    ∃ handler ∈ (logger.setUp level file).handlers, handler.isConsole = true := by
  by_cases h : logger.handlers.any Handler.isConsole = true
  · obtain ⟨handler, hmem, hconsole⟩ := List.any_eq_true.mp h
    exact ⟨handler, List.mem_append_left _ hmem, hconsole⟩
  · refine ⟨.console level, List.mem_append_right _ (List.mem_append_left _ ?_), rfl⟩
    rw [missingConsole, if_neg h]
    exact List.mem_singleton_self _

theorem handlers_setUp_ne_nil (level : Level) (file : Option String) (logger : Logger) :
    (logger.setUp level file).handlers ≠ [] := by
  obtain ⟨handler, hmem, -⟩ := exists_console_setUp level file logger
  exact List.ne_nil_of_mem hmem

/-- A logger has more handlers than before, but no second one of a kind. -/
structure Extends (before after : Logger) : Prop where
  handlers : before.handlers <+: after.handlers
  consoles : after.consoles ≤ max 1 before.consoles
  files : after.files ≤ max 1 before.files

namespace Extends

variable {before middle after : Logger}

theorem refl (logger : Logger) : Extends logger logger where
  handlers := List.prefix_refl _
  consoles := Nat.le_max_right ..
  files := Nat.le_max_right ..

theorem trans (h : Extends before middle) (h' : Extends middle after) : Extends before after where
  handlers := h.handlers.trans h'.handlers
  consoles := by
    have hfirst := h.consoles
    have hsecond := h'.consoles
    omega
  files := by
    have hfirst := h.files
    have hsecond := h'.files
    omega

/-- A logger that is set up gets a handler of a kind only if it has none. -/
theorem setUp (level : Level) (file : Option String) (logger : Logger) :
    Extends logger (logger.setUp level file) where
  handlers := List.prefix_append ..
  consoles := by
    have hfile : (logger.missingFile file).countP Handler.isConsole = 0 := by
      cases file with
      | none => rfl
      | some path =>
        rw [missingFile]
        split <;> rfl
    rw [Logger.consoles, Logger.setUp, List.countP_append, List.countP_append, hfile,
      missingConsole, Logger.consoles]
    split
    · exact Nat.le_max_right ..
    · rename_i hnone
      have hzero : logger.handlers.countP Handler.isConsole = 0 := by
        simpa [List.countP_eq_zero] using hnone
      rw [hzero]
      exact Nat.le_max_left ..
  files := by
    have hconsole : (logger.missingConsole level).countP (!·.isConsole) = 0 := by
      rw [missingConsole]
      split <;> rfl
    rw [Logger.files, Logger.setUp, List.countP_append, List.countP_append, hconsole, Logger.files]
    cases file with
    | none => exact Nat.le_max_right ..
    | some path =>
      rw [missingFile]
      split
      · exact Nat.le_max_right ..
      · rename_i hnone
        have hzero : logger.handlers.countP (!·.isConsole) = 0 := by
          simpa [List.countP_eq_zero] using hnone
        rw [hzero]
        exact Nat.le_max_left ..

end Extends

/-- A logger with a level of its own. -/
def withLevel (level : Level) (logger : Logger) : Logger :=
  { logger with level := some level }

/-- A logger with some more handlers. -/
def withHandlers (handlers : List Handler) (logger : Logger) : Logger :=
  { logger with handlers := logger.handlers ++ handlers }

end Logger

namespace Registry

/-! ### Setting up -/

theorem modify_congr {registry : Registry} {name : String} {first second : Logger → Logger}
    (h : first (registry.logger name) = second (registry.logger name)) :
    registry.modify name first = registry.modify name second := by
  rw [modify, modify]
  split
  · rename_i hroot
    rw [logger, if_pos hroot] at h
    rw [h]
  · rw [h]

theorem modify_withFiles (registry : Registry) (files : Table String) (name : String)
    (change : Logger → Logger) :
    ({ registry with files } : Registry).modify name change =
      { registry.modify name change with files } := by
  rw [modify, modify]
  split <;> rfl

theorem files_modify (registry : Registry) (name : String) (change : Logger → Logger) :
    (registry.modify name change).files = registry.files := by
  rw [modify]
  split <;> rfl

theorem createFile_eq (registry : Registry) (path : String) :
    ∃ files, registry.createFile path = { registry with files } := by
  rw [createFile]
  split
  · exact ⟨registry.files, rfl⟩
  · exact ⟨_, rfl⟩

section SetUp

variable {registry : Registry} {name levelName : String} {level : Level}

theorem setLevel_of_parse (h : Level.parse levelName = .ok level) :
    registry.setLevel name levelName = (registry.modify name (Logger.withLevel level), .ok ()) := by
  rw [setLevel, h]
  show ((registry.modify name id).modify name _, _) = _
  rw [modify_modify]
  rfl

theorem addConsole_of_parse (h : Level.parse levelName = .ok level) :
    registry.addConsole name levelName =
      (registry.modify name (Logger.withHandlers [.console level]), .ok ()) := by
  rw [addConsole, h]
  show ((registry.modify name id).modify name _, _) = _
  rw [modify_modify]
  rfl

theorem addFile_of_parse (h : Level.parse levelName = .ok level) (registry : Registry)
    (name path : String) :
    ∃ files, registry.addFile name path levelName =
      ({ registry.modify name (Logger.withHandlers [.file level { path }]) with files },
        .ok ()) := by
  rw [addFile, h]
  obtain ⟨files, hfiles⟩ := (registry.modify name id).createFile_eq path
  refine ⟨files, ?_⟩
  show (((registry.modify name id).createFile path).modify name _, _) = _
  rw [hfiles, modify_withFiles, modify_modify]
  rfl

/-- A console handler is added just where there is none. -/
theorem missingConsole_of_parse (h : Level.parse levelName = .ok level) (registry : Registry)
    (name : String) :
    (if (registry.logger name).handlers.any Handler.isConsole then
        registry.modify name (Logger.withLevel level)
      else ((registry.modify name (Logger.withLevel level)).addConsole name levelName).1) =
      registry.modify name (Logger.withHandlers ((registry.logger name).missingConsole level) ∘
        Logger.withLevel level) := by
  rw [Logger.missingConsole]
  split
  · exact modify_congr (by simp [Logger.withHandlers])
  · rw [addConsole_of_parse h, modify_modify]

/-- Setting a logger up changes this logger alone, apart from log files. -/
theorem setup_of_parse (h : Level.parse levelName = .ok level) (registry : Registry)
    (name : String) (file : Option String) :
    ∃ files, registry.setup name levelName file =
      ({ registry.modify name (Logger.setUp level file) with files }, .ok (properName name)) := by
  let own : Logger := registry.logger name
  have hhandlers : ((registry.modify name (Logger.withLevel level)).logger name).handlers =
      own.handlers := by
    rw [logger_modify, if_pos rfl]
    rfl
  -- Without a file to add, the files stay what they are.
  have hkept : own.missingFile file = [] →
      registry.modify name
          (Logger.withHandlers (own.missingConsole level) ∘ Logger.withLevel level) =
        { registry.modify name (Logger.setUp level file) with files := registry.files } := by
    intro hnone
    rw [← registry.files_modify name (Logger.setUp level file)]
    refine modify_congr ?_
    show Logger.withHandlers _ _ = Logger.setUp level file own
    rw [Logger.setUp, hnone, List.append_nil]
    rfl
  rw [setup, setLevel_of_parse h]
  simp only [hhandlers, own, missingConsole_of_parse h]
  cases file with
  | none => exact ⟨registry.files, congrArg (·, _) (hkept rfl)⟩
  | some path =>
    dsimp only
    by_cases hfile : own.handlers.any (!·.isConsole) = true
    · rw [if_pos hfile]
      exact ⟨registry.files, congrArg (·, _) (hkept (if_pos hfile))⟩
    · have hdebug : Level.parse "DEBUG" = .ok .debug := by decide +kernel
      have hmissing : own.missingFile (some path) = [.file .debug { path }] := if_neg hfile
      obtain ⟨files, hadd⟩ := addFile_of_parse hdebug (registry.modify name
        (Logger.withHandlers (own.missingConsole level) ∘ Logger.withLevel level)) name path
      refine ⟨files, ?_⟩
      rw [if_neg hfile, hadd, modify_modify, ← hmissing]
      refine congrArg (({ · with files }, _)) (modify_congr ?_)
      show Logger.withHandlers _ (Logger.withHandlers _ _) = Logger.setUp level (some path) own
      rw [Logger.setUp, ← List.append_assoc]
      rfl

theorem setup_of_unknown {error : UnknownLevel} (h : Level.parse levelName = .error error)
    (file : Option String) :
    registry.setup name levelName file = (registry.demand name, .error error) := by
  rw [setup, setLevel, h]

end SetUp

/-! ### Loggers that come into being -/

theorem has_modify_self (registry : Registry) (name : String) (change : Logger → Logger) :
    (registry.modify name change).Has name := by
  by_cases hname : isRoot name = true
  · exact .inl hname
  · rw [modify, if_neg hname]
    exact .inr (Table.contains_insert.mpr (.inl rfl))

theorem has_demand (registry : Registry) (name : String) : (registry.demand name).Has name :=
  registry.has_modify_self name id

theorem Has.modify {registry : Registry} {other : String} (h : registry.Has other) (name : String)
    (change : Logger → Logger) : (registry.modify name change).Has other := by
  obtain hroot | hother := h
  · exact .inl hroot
  · rw [Registry.modify]
    split
    · exact .inr hother
    · exact .inr (Table.contains_insert.mpr (.inr hother))

theorem RootApart.modify {registry : Registry} (h : registry.RootApart) (name : String)
    (change : Logger → Logger) : (registry.modify name change).RootApart := by
  rw [Registry.modify]
  split
  · exact h
  · rename_i hname
    have hne : rootName ≠ name := by
      rintro rfl
      exact hname isRoot_rootName
    rw [RootApart, Table.get?_insert, if_neg hne]
    exact h

/-- Nothing happens to a registry but that blank loggers come into being. -/
structure Wakes (before after : Registry) : Prop where
  logger : after.logger = before.logger
  has : ∀ name, before.Has name → after.Has name
  apart : before.RootApart → after.RootApart

namespace Wakes

variable {registry middle after : Registry}

theorem refl (registry : Registry) : Wakes registry registry where
  logger := rfl
  has _ h := h
  apart h := h

theorem trans (h : Wakes registry middle) (h' : Wakes middle after) : Wakes registry after where
  logger := h'.logger.trans h.logger
  has name hname := h'.has name (h.has name hname)
  apart hapart := h'.apart (h.apart hapart)

theorem demand (registry : Registry) (name : String) : Wakes registry (registry.demand name) where
  logger := logger_demand registry name
  has _ h := h.modify name id
  apart h := h.modify name id

theorem isBare_iff (h : Wakes registry after) {name : String} :
    after.IsBare name ↔ registry.IsBare name := by
  rw [IsBare, IsBare, h.logger]

theorem root (h : Wakes registry after) : after.root = registry.root :=
  congrFun h.logger rootName

end Wakes

/-- Asking for a logger that exists brings nothing into being. -/
theorem demand_of_has {registry : Registry} {name : String} (h : registry.Has name) :
    registry.demand name = registry := by
  rw [demand, modify]
  split
  · rfl
  · rename_i hname
    obtain ⟨found, hfound⟩ := Table.contains_iff.mp (h.resolve_left hname)
    have hlogger : registry.logger name = found := by
      rw [logger, if_neg hname, hfound]
      rfl
    rw [hlogger]
    exact congrArg (fun loggers => ({ registry with loggers } : Registry))
      (Table.insert_of_get? hfound)

/-! ### Asking -/

section Search

variable {registry : Registry} {name : String} {rest names : List String}

theorem searchHandlers_of_handlers (h : (registry.logger name).handlers ≠ []) :
    registry.searchHandlers (name :: rest) = (registry.demand name, true) := by
  rw [searchHandlers, logger_demand]
  exact if_neg (by simpa using h)

theorem searchHandlers_of_none (h : (registry.logger name).handlers = []) :
    registry.searchHandlers (name :: rest) = (registry.demand name).searchHandlers rest := by
  rw [searchHandlers, logger_demand]
  exact if_pos (by simpa using h)

theorem wakes_searchHandlers (registry : Registry) (names : List String) :
    Wakes registry (registry.searchHandlers names).1 := by
  induction names generalizing registry with
  | nil => exact .refl registry
  | cons name rest ih =>
    by_cases h : (registry.logger name).handlers = []
    · rw [searchHandlers_of_none h]
      exact (Wakes.demand registry name).trans (ih _)
    · rw [searchHandlers_of_handlers h]
      exact .demand registry name

/-- The search comes back without a handler if there is none, and then has asked for all names. -/
theorem searchHandlers_eq_false_iff :
    (registry.searchHandlers names).2 = false ↔
      ∀ upper ∈ names, (registry.logger upper).handlers = [] := by
  induction names generalizing registry with
  | nil => simp [searchHandlers]
  | cons name rest ih =>
    by_cases h : (registry.logger name).handlers = []
    · rw [searchHandlers_of_none h, ih, logger_demand]
      simp [h]
    · rw [searchHandlers_of_handlers h]
      simp [h]

theorem has_searchHandlers (h : (registry.searchHandlers names).2 = false) :
    ∀ upper ∈ names, (registry.searchHandlers names).1.Has upper := by
  induction names generalizing registry with
  | nil => simp
  | cons name rest ih =>
    have hname := searchHandlers_eq_false_iff.mp h name (List.mem_cons_self ..)
    rw [searchHandlers_of_none hname] at h ⊢
    intro upper hupper
    obtain rfl | hrest := List.mem_cons.mp hupper
    · exact (wakes_searchHandlers _ rest).has _ (has_demand ..)
    · exact ih h upper hrest

/-- A second search goes the same way. -/
theorem searchHandlers_searchHandlers (registry : Registry) (names : List String) :
    (registry.searchHandlers names).1.searchHandlers names = registry.searchHandlers names := by
  induction names generalizing registry with
  | nil => rfl
  | cons name rest ih =>
    have hdemand : (registry.demand name).Has name := registry.has_demand name
    by_cases h : (registry.logger name).handlers = []
    · rw [searchHandlers_of_none h]
      have hwakes := wakes_searchHandlers (registry.demand name) rest
      have hafter : (((registry.demand name).searchHandlers rest).1.logger name).handlers = [] := by
        rw [hwakes.logger, logger_demand]
        exact h
      rw [searchHandlers_of_none hafter, demand_of_has (hwakes.has name hdemand), ih]
    · rw [searchHandlers_of_handlers h]
      have hafter : ((registry.demand name).logger name).handlers ≠ [] := by
        rw [logger_demand]
        exact h
      rw [searchHandlers_of_handlers hafter, demand_of_has hdemand]

end Search

theorem reached_isPrefix (loggers : List Logger) : reached loggers <+: loggers := by
  induction loggers with
  | nil => exact List.prefix_refl _
  | cons logger rest ih =>
    rw [reached]
    split
    · exact (List.prefix_cons_inj logger).mpr ih
    · exact (List.prefix_cons_inj logger).mpr (List.nil_prefix ..)

/-- A chain starts with the logger itself. -/
theorem exists_chain_eq (registry : Registry) (name : String) :
    ∃ above, registry.chain name = registry.logger name :: above := by
  rw [chain, logger]
  split
  · exact ⟨[], rfl⟩
  · exact ⟨_, rfl⟩

/-- Along the chain nothing is found that is not in the lineage. -/
theorem reachedHandlers_of_isBare {registry : Registry} (hroot : registry.RootApart) {name : String}
    (h : registry.IsBare name) : registry.reachedHandlers name = [] := by
  obtain ⟨names, -, hsub, hchain, -⟩ := exists_chainNames hroot name
  rw [reachedHandlers, List.flatMap_eq_nil_iff]
  intro logger hlogger
  have hmem := (reached_isPrefix _).subset hlogger
  rw [hchain] at hmem
  obtain ⟨upper, hupper, rfl⟩ := List.mem_map.mp hmem
  exact h upper (hsub hupper)

theorem reachedHandlers_of_own {registry : Registry} {name : String}
    (h : (registry.logger name).handlers ≠ []) : registry.reachedHandlers name ≠ [] := by
  obtain ⟨above, hchain⟩ := registry.exists_chain_eq name
  rw [reachedHandlers, hchain, reached, List.flatMap_cons]
  exact fun hnil => h (List.append_eq_nil_iff.mp hnil).1

section Obtain

variable {registry : Registry} {name : String}

theorem obtain_demand (registry : Registry) (name : String) :
    (registry.demand name).obtain name = registry.obtain name := by
  rw [obtain, obtain, demand_of_has (registry.has_demand name)]

theorem obtain_of_reached (hhas : registry.Has name) (h : registry.reachedHandlers name ≠ []) :
    registry.obtain name = (registry, .ok (properName name)) := by
  rw [obtain]
  simp [demand_of_has hhas, h]

/-- A search along the names follows where the chain leads to no handler. -/
theorem obtain_of_unreached (hhas : registry.Has name) (h : registry.reachedHandlers name = []) :
    registry.obtain name =
      if (registry.searchHandlers (namesAbove name)).2 = false ∧ registry.root.handlers = [] then
        (registry.searchHandlers (namesAbove name)).1.setup name
      else ((registry.searchHandlers (namesAbove name)).1, .ok (properName name)) := by
  have hwakes := registry.wakes_searchHandlers (namesAbove name)
  rw [← hwakes.root, obtain]
  simp only [demand_of_has hhas, h, List.isEmpty_nil, if_true]
  obtain ⟨woken, found⟩ := registry.searchHandlers (namesAbove name)
  cases found <;> simp

/-- A logger with a bare lineage is set up to show information. By then all names above it exist. -/
theorem obtain_of_isBare (hroot : registry.RootApart) (h : registry.IsBare name) :
    ∃ woken files, Wakes registry woken ∧ (∀ upper ∈ namesAbove name, woken.Has upper) ∧
      registry.obtain name =
        ({ woken.modify name (Logger.setUp .info none) with files }, .ok (properName name)) := by
  have hdemand : Wakes registry (registry.demand name) := .demand registry name
  have hwakes := (registry.demand name).wakes_searchHandlers (namesAbove name)
  have hbare : (registry.demand name).IsBare name := hdemand.isBare_iff.mpr h
  have hsearch : ((registry.demand name).searchHandlers (namesAbove name)).2 = false :=
    searchHandlers_eq_false_iff.mpr fun upper hupper =>
      hbare upper (mem_lineage.mpr (.inr (.inl hupper)))
  have hinfo : Level.parse "INFO" = .ok .info := by decide +kernel
  obtain ⟨files, hsetup⟩ := setup_of_parse hinfo
    ((registry.demand name).searchHandlers (namesAbove name)).1 name none
  refine ⟨_, files, hdemand.trans hwakes, has_searchHandlers hsearch, ?_⟩
  rw [← obtain_demand, obtain_of_unreached (registry.has_demand name)
    (reachedHandlers_of_isBare (hdemand.apart hroot) hbare), ← hsetup]
  exact if_pos ⟨hsearch, hbare rootName (rootName_mem_lineage name)⟩

/-- A logger with a handler in its lineage is left as it is, and so it stays when it is asked for
once more. -/
theorem obtain_of_not_isBare (h : ¬registry.IsBare name) :
    ∃ woken, Wakes registry woken ∧ registry.obtain name = (woken, .ok (properName name)) ∧
      woken.obtain name = (woken, .ok (properName name)) := by
  have hdemand : Wakes registry (registry.demand name) := .demand registry name
  have hhas : (registry.demand name).Has name := registry.has_demand name
  rw [← obtain_demand]
  by_cases hreached : (registry.demand name).reachedHandlers name = []
  · have hwakes := (registry.demand name).wakes_searchHandlers (namesAbove name)
    have hnot : ¬(((registry.demand name).searchHandlers (namesAbove name)).2 = false ∧
        (registry.demand name).root.handlers = []) := by
      rintro ⟨hsearch, hrootBare⟩
      refine h (hdemand.isBare_iff.mp ?_)
      intro upper hupper
      obtain rfl | habove | rfl := mem_lineage.mp hupper
      · rw [logger_properName]
        exact not_imp_comm.mp reachedHandlers_of_own (not_not_intro hreached)
      · exact searchHandlers_eq_false_iff.mp hsearch upper habove
      · exact hrootBare
    refine ⟨_, hdemand.trans hwakes, (obtain_of_unreached hhas hreached).trans (if_neg hnot), ?_⟩
    by_cases hlater : ((registry.demand name).searchHandlers
        (namesAbove name)).1.reachedHandlers name = []
    · rw [obtain_of_unreached (hwakes.has name hhas) hlater, searchHandlers_searchHandlers,
        hwakes.root]
      exact if_neg hnot
    · exact obtain_of_reached (hwakes.has name hhas) hlater
  · exact ⟨_, hdemand, obtain_of_reached hhas hreached, obtain_of_reached hhas hreached⟩

/-- **Asking once more** changes nothing. -/
theorem obtain_obtain (hroot : registry.RootApart) (name : String) :
    (registry.obtain name).1.obtain name =
      ((registry.obtain name).1, .ok (properName name)) := by
  by_cases h : registry.IsBare name
  · obtain ⟨woken, files, -, -, hobtain⟩ := obtain_of_isBare hroot h
    rw [hobtain]
    refine obtain_of_reached (woken.has_modify_self name _) (reachedHandlers_of_own ?_)
    show ((woken.modify name (Logger.setUp .info none)).logger name).handlers ≠ []
    rw [logger_modify, if_pos rfl]
    exact Logger.handlers_setUp_ne_nil _ _ _
  · obtain ⟨woken, -, hobtain, hagain⟩ := obtain_of_not_isBare h
    rw [hobtain]
    exact hagain

end Obtain

end Registry

end Seams
