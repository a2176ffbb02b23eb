import Seams.Proofs.LoggerRequests

/-!
# Records on the console

A record passes two gates: the level from which on its logger reports, and then, at each handler
that it reaches, the level of the handler. The console shows it once for every console handler that
lets it through.

Setting a logger up sets the first gate, and gives the logger a console handler of the same level,
but only if it has none. A console handler that was there before keeps its level, so whether the
logger is heard at the level it was set up with depends on what came before.

## Main definitions

* `Handler.shows` — whether a handler shows records of a level on the console
* `Registry.timesShown` — how often the console shows a record

## Main results

* `Registry.log_shown` — what the console shows of a record
* `Registry.setup_shown_iff` — when a logger is heard at the level it is set up with
* `Registry.setup_unheard` — a logger that is not
-/

namespace Seams

/-- Whether a handler shows records of a level on the console. -/
def Handler.shows (level : Level) (handler : Handler) : Bool :=
  handler.isConsole && decide (handler.level.rank ≤ level.rank)

namespace Registry

/-! ### What the console shows -/

/-- How often the console shows a record of a level. -/
def timesShown (registry : Registry) (name : String) (level : Level) : Nat :=
  if level.rank < registry.effectiveRank name then 0
  else (registry.reachedHandlers name).countP (Handler.shows level)

/-- A handler adds a line to the console just if it shows the record. -/
theorem write_shown (name : String) (level : Level) (text : String) (state : Registry × String)
    (handler : Handler) :
    (write name level text state handler).2 =
      state.2 ++ if handler.shows level then consoleLine level text else "" := by
  cases handler with
  | console least =>
    rw [write]
    split
    · rename_i hlt
      have hnot : (Handler.console least).shows level = false := by simp [Handler.shows, hlt]
      rw [hnot]
      exact String.append_empty.symm
    · rename_i hle
      have hshows : (Handler.console least).shows level = true := by
        simpa [Handler.shows, Handler.isConsole] using hle
      rw [hshows]
      rfl
  | file least file =>
    have hkept : (write name level text state (.file least file)).2 = state.2 := by
      rw [write]
      split <;> rfl
    exact hkept.trans String.append_empty.symm

/-- Handlers write one after another, so the lines add up. -/
theorem foldl_write_shown (name : String) (level : Level) (text : String)
    (state : Registry × String) (handlers : List Handler) :
    (handlers.foldl (write name level text) state).2 =
      state.2 ++ String.join
        (List.replicate (handlers.countP (Handler.shows level)) (consoleLine level text)) := by
  induction handlers generalizing state with
  | nil => simp
  | cons handler rest ih =>
    rw [List.foldl_cons, ih, write_shown, String.append_assoc]
    congr 1
    by_cases h : handler.shows level = true
    · rw [List.countP_cons_of_pos h, List.replicate_succ, String.join_cons, if_pos h]
    · rw [List.countP_cons_of_neg h, if_neg h, String.empty_append]

/-- A change of a logger does not reach the loggers above it. -/
theorem chain_modify (registry : Registry) (name : String) (change : Logger → Logger) :
    (registry.modify name change).chain name =
      change (registry.logger name) :: (registry.chain name).tail := by
  have hself : (registry.modify name change).logger name = change (registry.logger name) := by
    rw [logger_modify, if_pos rfl]
  by_cases hname : isRoot name = true
  · rw [chain, chain, if_pos hname, if_pos hname, ← hself, logger, if_pos hname]
    rfl
  · have habove : (registry.modify name change).loggersAbove name.toList.reverse =
        registry.loggersAbove name.toList.reverse := by
      refine loggersAbove_congr _ fun upper hupper => ?_
      have hne : upper ≠ name := by
        rintro rfl
        exact Nat.lt_irrefl _ (length_lt_of_mem_namesAbove hupper)
      rw [modify, if_neg hname, Table.get?_insert, if_neg hne]
    have hroot : (registry.modify name change).root = registry.root := by
      rw [modify, if_neg hname]
    rw [chain, chain, if_neg hname, if_neg hname, habove, hroot, hself]
    rfl

theorem chain_demand (registry : Registry) (name : String) :
    (registry.demand name).chain name = registry.chain name := by
  obtain ⟨above, hchain⟩ := registry.exists_chain_eq name
  rw [demand, chain_modify, hchain]
  rfl

theorem effectiveRank_demand (registry : Registry) (name : String) :
    (registry.demand name).effectiveRank name = registry.effectiveRank name := by
  rw [effectiveRank, chain_demand, effectiveRank]

theorem reachedHandlers_demand (registry : Registry) (name : String) :
    (registry.demand name).reachedHandlers name = registry.reachedHandlers name := by
  rw [reachedHandlers, chain_demand, reachedHandlers]

/-- **What the console shows of a record**: a line for every handler that lets it through. -/
theorem log_shown {registry : Registry} {name : String} (h : registry.reachedHandlers name ≠ [])
    (level : Level) (text : String) :
    (registry.log name level text).2 =
      String.join (List.replicate (registry.timesShown name level) (consoleLine level text)) := by
  rw [log, timesShown, effectiveRank_demand, reachedHandlers_demand]
  cases hreached : registry.reachedHandlers name with
  | nil => exact absurd hreached h
  | cons handler rest =>
    dsimp only
    split
    · rfl
    · rw [foldl_write_shown, String.empty_append]

/-! ### Hearing a logger that was set up -/

theorem reachedHandlers_of_chain {registry : Registry} {name : String} {own : Logger}
    {above : List Logger} (h : registry.chain name = own :: above) :
    registry.reachedHandlers name =
      own.handlers ++ if own.propagates then (reached above).flatMap Logger.handlers else [] := by
  rw [reachedHandlers, h, reached, List.flatMap_cons]
  split <;> rfl

/-- Of the handlers that a logger gets when it is set up, one shows records of its level just if
the logger had no console handler before. -/
theorem exists_missing_shows_iff (level : Level) (file : Option String) (own : Logger) :
    (∃ handler ∈ own.missingConsole level ++ own.missingFile file, handler.shows level = true) ↔
      ∀ handler ∈ own.handlers, handler.isConsole = false := by
  have hfile : ∀ handler ∈ own.missingFile file, ¬handler.shows level = true := by
    intro handler hmem
    cases file with
    | none => cases hmem
    | some path =>
      rw [Logger.missingFile] at hmem
      split at hmem
      · cases hmem
      · rw [List.mem_singleton.mp hmem]
        exact Bool.false_ne_true
  by_cases hany : own.handlers.any Handler.isConsole = true
  · rw [Logger.missingConsole, if_pos hany, List.nil_append]
    obtain ⟨handler, hmem, hconsole⟩ := List.any_eq_true.mp hany
    refine iff_of_false ?_ fun hnone => ?_
    · rintro ⟨missing, hmissing, hshows⟩
      exact hfile missing hmissing hshows
    · exact Bool.false_ne_true ((hnone handler hmem).symm.trans hconsole)
  · rw [Logger.missingConsole, if_neg hany]
    refine iff_of_true ⟨.console level, ?_, ?_⟩ ?_
    · exact List.mem_append_left _ (List.mem_singleton_self _)
    · simp [Handler.shows, Handler.isConsole, Handler.level]
    · simpa using hany

theorem chain_withFiles (registry : Registry) (files : Table String) (name : String) :
    ({ registry with files } : Registry).chain name = registry.chain name := by
  have habove : ({ registry with files } : Registry).loggersAbove name.toList.reverse =
      registry.loggersAbove name.toList.reverse :=
    loggersAbove_congr _ fun _ _ => rfl
  rw [chain, chain, habove]
  rfl

/-- **A logger is heard** at the level it is set up with just if it had no console handler of its
own before, or if its records reached a console handler of that level or a lower one already. The
console shows a line for each handler that lets the record through. -/
theorem setup_shown_iff {levelName : String} {level : Level}
    (h : Level.parse levelName = .ok level) (registry : Registry) (name : String)
    (file : Option String) (text : String) :
    (registry.setup name levelName file).2 = .ok (properName name) ∧
      ((registry.setup name levelName file).1.log name level text).2 =
        String.join (List.replicate ((registry.setup name levelName file).1.timesShown name level)
          (consoleLine level text)) ∧
      (0 < (registry.setup name levelName file).1.timesShown name level ↔
        (∀ handler ∈ (registry.logger name).handlers, handler.isConsole = false) ∨
          ∃ handler ∈ registry.reachedHandlers name, handler.shows level = true) := by
  obtain ⟨files, hsetup⟩ := setup_of_parse h registry name file
  obtain ⟨above, hchain⟩ := registry.exists_chain_eq name
  let after : Registry := (registry.setup name levelName file).1
  have hafter : after.chain name = (registry.logger name).setUp level file :: above := by
    show (registry.setup name levelName file).1.chain name = _
    rw [hsetup]
    show ({ registry.modify name (Logger.setUp level file) with files } : Registry).chain name = _
    rw [chain_withFiles, chain_modify, hchain]
    rfl
  have hrank : after.effectiveRank name = level.rank := by
    rw [effectiveRank, hafter]
    rfl
  have hreached := reachedHandlers_of_chain hafter
  have hbefore := reachedHandlers_of_chain hchain
  refine ⟨by rw [hsetup], log_shown ?_ level text, ?_⟩
  · show after.reachedHandlers name ≠ []
    rw [hreached]
    exact fun hnil => Logger.handlers_setUp_ne_nil level file _ (List.append_eq_nil_iff.mp hnil).1
  · show 0 < after.timesShown name level ↔ _
    rw [timesShown, hrank, if_neg (Nat.lt_irrefl _), List.countP_pos_iff, hreached, hbefore,
      ← exists_missing_shows_iff level file]
    constructor
    · rintro ⟨handler, hmem, hshows⟩
      obtain hset | habove := List.mem_append.mp hmem
      · obtain hown | hmissing := List.mem_append.mp hset
        · exact .inr ⟨handler, List.mem_append_left _ hown, hshows⟩
        · exact .inl ⟨handler, hmissing, hshows⟩
      · exact .inr ⟨handler, List.mem_append_right _ habove, hshows⟩
    · rintro (⟨handler, hmissing, hshows⟩ | ⟨handler, hmem, hshows⟩)
      · exact ⟨handler, List.mem_append_left _ (List.mem_append_right _ hmissing), hshows⟩
      · obtain hown | habove := List.mem_append.mp hmem
        · exact ⟨handler, List.mem_append_left _ (List.mem_append_left _ hown), hshows⟩
        · exact ⟨handler, List.mem_append_right _ habove, hshows⟩

/-- A registry with a logger that was set up for information. -/
def informed : Registry :=
  (({} : Registry).setup "a").1

/-- A logger whose own handler asks for more urgent records is heard through one above it. -/
theorem setup_shown_iff_below :
    Level.parse "debug" = .ok .debug ∧
      0 < (((informed.setup "a.b").1.addConsole "a" "DEBUG").1.setup "a.b" "debug").1.timesShown
        "a.b" .debug := by
  have hdebug : Level.parse "debug" = .ok .debug := by decide +kernel
  refine ⟨hdebug, ((setup_shown_iff hdebug ((informed.setup "a.b").1.addConsole "a" "DEBUG").1
    "a.b" none "").2.2).mpr (.inr ⟨.console .debug, ?_, ?_⟩)⟩
  · decide +kernel
  · decide +kernel

/-- **A logger that is not heard** at the level it is set up with: the console handler that it got
when it was set up before still asks for more urgent records. -/
theorem setup_unheard :
    (informed.setup "a" "DEBUG").2 = .ok "a" ∧
      ((informed.setup "a" "DEBUG").1.logger "a").level = some .debug ∧
      (informed.setup "a" "DEBUG").1.timesShown "a" .debug = 0 ∧
      ((informed.setup "a" "DEBUG").1.log "a" .debug "note").2 = "" := by
  decide +kernel

end Registry

end Seams
