import Mathlib.Data.Finset.Card
import Mathlib.Data.List.Induction
import Seams.Proofs.ConsoleLines

/-!
# Console handlers along a chain

Where loggers are only ever asked for, a logger gets a console handler if nothing in its lineage has
one. Nothing is known then of the loggers below it. If one of those was asked for earlier, it may
have a handler of its own, and from then on both stand on one chain, and the console shows every
record twice that takes it.

So all depends on the order of the requests. No chain has two console handlers, and no record is
shown twice, just if whenever a logger is asked for after one below it, it or one above it had been
asked for before.

## Main definitions

* `Registry.obtainAll` — a new registry after loggers were asked for
* `Registry.AskedDownwards` — whether loggers were asked for in a good order
* `Registry.Obtained` — what such a registry owes to the names that were asked for
* `Registry.SoleHandlers` — of two loggers in a line, at most one has handlers
* `Registry.chainConsoles` — the number of console handlers along a chain
* `Registry.ShownOnce` — the console does not show a record twice

## Main results

* `Registry.soleHandlers_obtain_iff`, `Registry.soleHandlers_iff` — one request, and any requests
* `Registry.Obtained.chainConsoles_le_one`, `Registry.Obtained.exists_two_le` — handlers in a line
  and handlers along a chain
* `Registry.chains_single_iff` — when no chain has two console handlers
* `Registry.chains_doubled` — an order in which one does
-/

namespace Seams

/-! ### Counting -/

/-- In a list without duplicates at most one element fulfils a condition just if any two that do
are equal. -/
theorem countP_le_one_iff {α : Type} [DecidableEq α] {l : List α} (hnodup : l.Nodup)
    (p : α → Bool) :
    l.countP p ≤ 1 ↔ ∀ a ∈ l, p a = true → ∀ b ∈ l, p b = true → a = b := by
  rw [List.countP_eq_length_filter, ← List.toFinset_card_of_nodup (hnodup.filter p),
    Finset.card_le_one]
  simp only [List.mem_toFinset, List.mem_filter, and_imp]

theorem length_join_replicate (count : Nat) (line : String) :
    (String.join (List.replicate count line)).length = count * line.length := by
  induction count with
  | zero => simp
  | succ count ih =>
    rw [List.replicate_succ, String.join_cons, String.length_append, ih, Nat.succ_mul, Nat.add_comm]

namespace Registry

/-! ### Requests in an order -/

/-- A new registry after loggers were asked for. -/
def obtainAll (names : List String) : Registry :=
  after {} (names.map .obtain)

/-- Whenever a logger is asked for after one below it, it or one above it had been asked for
before. -/
def AskedDownwards (names : List String) : Prop :=
  ∀ before name later, names = before ++ name :: later →
    ∀ lower ∈ before, properName name ∈ lineage lower →
      ∃ upper ∈ before, properName upper ∈ lineage name

theorem askedDownwards_nil : AskedDownwards [] := by
  intro before name later h
  simp at h

theorem askedDownwards_append_singleton (names : List String) (name : String) :
    AskedDownwards (names ++ [name]) ↔
      AskedDownwards names ∧ ∀ lower ∈ names, properName name ∈ lineage lower →
        ∃ upper ∈ names, properName upper ∈ lineage name := by
  constructor
  · intro h
    refine ⟨fun before other later heq => ?_, h names name [] rfl⟩
    exact h before other (later ++ [name]) (by rw [heq, List.append_assoc, List.cons_append])
  · rintro ⟨hnames, hname⟩ before other later heq
    cases later using List.reverseRecOn with
    | nil =>
      obtain ⟨rfl, hlast⟩ := List.append_inj' heq rfl
      obtain rfl : name = other := by simpa using hlast
      exact hname
    | append_singleton later last =>
      rw [← List.cons_append, ← List.append_assoc] at heq
      exact hnames before other later (List.append_inj' heq rfl).1

theorem obtainAll_append_singleton (names : List String) (name : String) :
    obtainAll (names ++ [name]) = ((obtainAll names).obtain name).1 := by
  rw [obtainAll, List.map_append, after, List.foldl_append]
  rfl

/-! ### What was asked for -/

/-- What a registry owes to the names that were asked for, if nothing else ever happened. -/
structure Obtained (names : List String) (registry : Registry) : Prop where
  apart : registry.RootApart
  propagates : ∀ name, (registry.logger name).propagates = true
  /-- Loggers with handlers have one, and a level. -/
  equipped : ∀ name, (registry.logger name).handlers ≠ [] →
    (registry.logger name).handlers = [.console .info] ∧
      (registry.logger name).level = some .info
  /-- They were asked for. -/
  asked : ∀ name, (registry.logger name).handlers ≠ [] →
    ∃ given ∈ names, properName given = properName name
  /-- All in their lineage exists. -/
  has : ∀ name, (registry.logger name).handlers ≠ [] →
    ∀ upper ∈ lineage name, registry.Has upper
  /-- Whatever was asked for has a handler in its lineage. -/
  covered : ∀ given ∈ names, ¬registry.IsBare given

theorem obtained_nil : Obtained [] {} := by
  have hblank : ∀ name, (({} : Registry).logger name).handlers = [] := by
    intro name
    rw [logger]
    split <;> rfl
  exact {
    apart := rfl
    propagates := by
      intro name
      rw [logger]
      split <;> rfl
    equipped := fun name h => absurd (hblank name) h
    asked := fun name h => absurd (hblank name) h
    has := fun name h => absurd (hblank name) h
    covered := by simp }

namespace Obtained

variable {names : List String} {registry : Registry} {name : String}

/-- Blank loggers make no difference. -/
theorem wakes (h : Obtained names registry) {woken : Registry} (hwakes : Wakes registry woken) :
    Obtained names woken where
  apart := hwakes.apart h.apart
  propagates := hwakes.logger ▸ h.propagates
  equipped := hwakes.logger ▸ h.equipped
  asked := hwakes.logger ▸ h.asked
  has other hother upper hupper := by
    rw [hwakes.logger] at hother
    exact hwakes.has upper (h.has other hother upper hupper)
  covered given hgiven := mt hwakes.isBare_iff.mp (h.covered given hgiven)

/-- Log files make no difference. -/
theorem withFiles (h : Obtained names registry) (files : Table String) :
    Obtained names { registry with files } where
  apart := h.apart
  propagates := h.propagates
  equipped := h.equipped
  asked := h.asked
  has := h.has
  covered := h.covered

/-- A name that is asked for without effect had a handler in its lineage. -/
theorem cover (h : Obtained names registry) (hnot : ¬registry.IsBare name) :
    Obtained (names ++ [name]) registry where
  apart := h.apart
  propagates := h.propagates
  equipped := h.equipped
  asked other hother := by
    obtain ⟨given, hgiven, heq⟩ := h.asked other hother
    exact ⟨given, List.mem_append_left _ hgiven, heq⟩
  has := h.has
  covered given hgiven := by
    obtain hgiven | hgiven := List.mem_append.mp hgiven
    · exact h.covered given hgiven
    · rwa [List.mem_singleton.mp hgiven]

/-- A logger that is asked for while its lineage is bare gets a console handler. -/
theorem equip (h : Obtained names registry) (hbare : registry.IsBare name)
    (hhas : ∀ upper ∈ namesAbove name, registry.Has upper) :
    Obtained (names ++ [name]) (registry.modify name (Logger.setUp .info none)) := by
  have hlogger : ∀ other, (registry.modify name (Logger.setUp .info none)).logger other =
      if properName other = properName name then (registry.logger name).setUp .info none
      else registry.logger other := fun other => logger_modify ..
  have hown : (registry.logger name).handlers = [] := by
    rw [← logger_properName]
    exact hbare _ (properName_mem_lineage name)
  have hlineage : ∀ upper ∈ lineage name,
      (registry.modify name (Logger.setUp .info none)).Has upper := by
    intro upper hupper
    obtain rfl | habove | rfl := mem_lineage.mp hupper
    · exact (has_modify_self ..).properName
    · exact (hhas upper habove).modify name _
    · exact .inl isRoot_rootName
  constructor
  case apart => exact h.apart.modify name _
  case propagates =>
    intro other
    rw [hlogger]
    split
    · exact h.propagates name
    · exact h.propagates other
  case equipped =>
    intro other hother
    rw [hlogger] at hother ⊢
    by_cases heq : properName other = properName name
    · rw [if_pos heq]
      refine ⟨?_, rfl⟩
      show (registry.logger name).handlers ++ _ = _
      rw [Logger.missingConsole, hown]
      rfl
    · rw [if_neg heq] at hother ⊢
      exact h.equipped other hother
  case asked =>
    intro other hother
    by_cases heq : properName other = properName name
    · exact ⟨name, List.mem_append_right _ (List.mem_singleton_self _), heq.symm⟩
    · rw [hlogger, if_neg heq] at hother
      obtain ⟨given, hgiven, hsame⟩ := h.asked other hother
      exact ⟨given, List.mem_append_left _ hgiven, hsame⟩
  case has =>
    intro other hother upper hupper
    by_cases heq : properName other = properName name
    · rw [lineage_congr heq] at hupper
      exact hlineage upper hupper
    · rw [hlogger, if_neg heq] at hother
      exact (h.has other hother upper hupper).modify name _
  case covered =>
    intro given hgiven hafter
    obtain hgiven | hgiven := List.mem_append.mp hgiven
    · refine h.covered given hgiven fun upper hupper => ?_
      have hnil := hafter upper hupper
      rw [hlogger] at hnil
      split at hnil
      · exact absurd hnil (Logger.handlers_setUp_ne_nil _ _ _)
      · exact hnil
    · obtain rfl := List.mem_singleton.mp hgiven
      have hnil := hafter _ (properName_mem_lineage given)
      rw [logger_properName, hlogger, if_pos rfl] at hnil
      exact Logger.handlers_setUp_ne_nil _ _ _ hnil

/-- **One more logger that is asked for.** -/
theorem obtain (h : Obtained names registry) (name : String) :
    Obtained (names ++ [name]) (registry.obtain name).1 := by
  by_cases hbare : registry.IsBare name
  · obtain ⟨woken, files, hwakes, hhas, hobtain⟩ := obtain_of_isBare h.apart hbare
    rw [hobtain]
    exact ((h.wakes hwakes).equip (hwakes.isBare_iff.mpr hbare) hhas).withFiles files
  · obtain ⟨woken, hwakes, hobtain, -⟩ := obtain_of_not_isBare hbare
    rw [hobtain]
    exact (h.wakes hwakes).cover (mt hwakes.isBare_iff.mp hbare)

end Obtained

theorem obtained_obtainAll (names : List String) : Obtained names (obtainAll names) := by
  induction names using List.reverseRecOn with
  | nil => exact obtained_nil
  | append_singleton names name ih =>
    rw [obtainAll_append_singleton]
    exact ih.obtain name

/-! ### Handlers in a line -/

/-- Of two loggers in a line, at most one has handlers. -/
def SoleHandlers (registry : Registry) : Prop :=
  ∀ lower upper, upper ∈ lineage lower → (registry.logger lower).handlers ≠ [] →
    (registry.logger upper).handlers ≠ [] → upper = properName lower

section Step

variable {names : List String} {registry : Registry} {name : String}

/-- Where a lineage is bare, nothing in it was asked for. -/
theorem Obtained.not_mem_lineage (h : Obtained names registry) (hbare : registry.IsBare name)
    {upper : String} (hupper : upper ∈ names) : properName upper ∉ lineage name := by
  intro hmem
  refine h.covered upper hupper fun other hother => hbare other ?_
  rw [← lineage_properName] at hother
  exact lineage_subset hmem hother

/-- Where a lineage is not bare, something in it was asked for. -/
theorem Obtained.exists_upper (h : Obtained names registry) (hnot : ¬registry.IsBare name) :
    ∃ upper ∈ names, properName upper ∈ lineage name := by
  obtain ⟨upper, hupper, hhandlers⟩ := not_isBare_iff.mp hnot
  obtain ⟨given, hgiven, heq⟩ := h.asked upper hhandlers
  exact ⟨given, hgiven, by rwa [heq, properName_of_mem_lineage hupper]⟩

/-- The loggers with handlers, after a logger with a bare lineage was asked for. -/
theorem handlers_obtain_of_isBare (hroot : registry.RootApart) (hbare : registry.IsBare name)
    (other : String) :
    ((registry.obtain name).1.logger other).handlers ≠ [] ↔
      properName other = properName name ∨ (registry.logger other).handlers ≠ [] := by
  rw [logger_obtain_of_isBare hroot hbare]
  by_cases heq : properName other = properName name
  · rw [if_pos heq]
    exact iff_of_true (Logger.handlers_setUp_ne_nil _ _ _) (.inl heq)
  · rw [if_neg heq]
    exact (or_iff_right heq).symm

/-- What was asked for below has a handler in its lineage, which would stand below the new one. -/
theorem Obtained.not_below (h : Obtained names registry) (hbare : registry.IsBare name)
    (hsole : (registry.obtain name).1.SoleHandlers) {lower : String} (hlower : lower ∈ names) :
    properName name ∉ lineage lower := by
  intro hmem
  have hafter := handlers_obtain_of_isBare h.apart hbare
  obtain ⟨equipped, hequipped, hhandlers⟩ := not_isBare_iff.mp (h.covered lower hlower)
  obtain habove | hbelow := lineage_total hmem hequipped
  · have hsame := hsole equipped (properName name) habove
      ((hafter equipped).mpr (.inr hhandlers))
      ((hafter _).mpr (.inl (properName_of_mem_lineage hmem)))
    rw [properName_of_mem_lineage hequipped] at hsame
    exact hhandlers (hbare equipped (hsame ▸ properName_mem_lineage name))
  · rw [lineage_properName] at hbelow
    exact hhandlers (hbare equipped hbelow)

/-- A new handler stands alone in every line, if nothing below it was asked for. -/
theorem Obtained.soleHandlers_obtain (h : Obtained names registry) (hbare : registry.IsBare name)
    (hsole : registry.SoleHandlers) (hnone : ∀ lower ∈ names, properName name ∉ lineage lower) :
    (registry.obtain name).1.SoleHandlers := by
  have hafter := handlers_obtain_of_isBare h.apart hbare
  intro lower upper hupper hlow hup
  have hproper := properName_of_mem_lineage hupper
  obtain hlow | hlow := (hafter lower).mp hlow
  · obtain hup | hup := (hafter upper).mp hup
    · rw [← hproper, hup, hlow]
    · rw [lineage_congr hlow] at hupper
      exact absurd (hbare upper hupper) hup
  · obtain hup | hup := (hafter upper).mp hup
    · obtain ⟨given, hgiven, heq⟩ := h.asked lower hlow
      rw [← lineage_congr heq, ← hproper, hup] at hupper
      exact absurd hupper (hnone given hgiven)
    · exact hsole lower upper hupper hlow hup

/-- **One more request** puts a second handler in a line just if a logger below was asked for
before, but none in the lineage. -/
theorem soleHandlers_obtain_iff (h : Obtained names registry) (name : String) :
    (registry.obtain name).1.SoleHandlers ↔
      registry.SoleHandlers ∧ ∀ lower ∈ names, properName name ∈ lineage lower →
        ∃ upper ∈ names, properName upper ∈ lineage name := by
  by_cases hbare : registry.IsBare name
  · have hafter := handlers_obtain_of_isBare h.apart hbare
    constructor
    · intro hsole
      refine ⟨fun lower upper hupper hlow hup => ?_, fun lower hlower hmem => ?_⟩
      · exact hsole lower upper hupper ((hafter lower).mpr (.inr hlow))
          ((hafter upper).mpr (.inr hup))
      · exact absurd hmem (h.not_below hbare hsole hlower)
    · rintro ⟨hsole, hupper⟩
      refine h.soleHandlers_obtain hbare hsole fun lower hlower hmem => ?_
      obtain ⟨upper, hgiven, habove⟩ := hupper lower hlower hmem
      exact h.not_mem_lineage hbare hgiven habove
  · rw [SoleHandlers, logger_obtain_of_not_isBare hbare]
    exact (and_iff_left fun _ _ _ => h.exists_upper hbare).symm

end Step

/-- **Any requests** leave at most one logger with handlers in every line just if they were made
downwards. -/
theorem soleHandlers_iff (names : List String) :
    (obtainAll names).SoleHandlers ↔ AskedDownwards names := by
  induction names using List.reverseRecOn with
  | nil =>
    refine iff_of_true ?_ askedDownwards_nil
    rintro lower upper - hlow -
    obtain ⟨given, hgiven, -⟩ := obtained_nil.asked lower hlow
    cases hgiven
  | append_singleton names name ih =>
    rw [obtainAll_append_singleton, soleHandlers_obtain_iff (obtained_obtainAll names), ih,
      askedDownwards_append_singleton]

/-! ### Handlers along a chain -/

/-- The number of console handlers along a chain. -/
def chainConsoles (registry : Registry) (name : String) : Nat :=
  ((registry.chain name).flatMap Logger.handlers).countP Handler.isConsole

/-- A record is shown by console handlers along the chain. -/
theorem timesShown_le_chainConsoles (registry : Registry) (name : String) (level : Level) :
    registry.timesShown name level ≤ registry.chainConsoles name := by
  rw [timesShown]
  split
  · exact Nat.zero_le _
  · obtain ⟨rest, hrest⟩ := reached_isPrefix (registry.chain name)
    have hconsole : ∀ handler ∈ registry.reachedHandlers name, handler.shows level = true →
        handler.isConsole = true :=
      fun _ _ hshows => (Bool.and_eq_true_iff.mp hshows).1
    calc (registry.reachedHandlers name).countP (Handler.shows level)
        ≤ (registry.reachedHandlers name).countP Handler.isConsole :=
          List.countP_mono_left hconsole
      _ ≤ registry.chainConsoles name := by
          rw [chainConsoles, ← hrest, List.flatMap_append, List.countP_append]
          exact Nat.le_add_right ..

/-- Where all loggers hand records on, a record reaches all of a chain. -/
theorem reached_of_propagates {loggers : List Logger}
    (h : ∀ logger ∈ loggers, logger.propagates = true) : reached loggers = loggers := by
  induction loggers with
  | nil => rfl
  | cons logger rest ih =>
    rw [reached, if_pos (h logger (List.mem_cons_self ..)),
      ih fun other hother => h other (List.mem_cons_of_mem _ hother)]

section Chain

variable {names : List String} {registry : Registry} {name : String}

/-- A chain has as many handlers of the kind that loggers get as it has loggers with handlers. -/
theorem Obtained.countP_handlers (h : Obtained names registry) {p : Handler → Bool}
    (hp : p (.console .info) = true) (chainNames : List String) :
    ((chainNames.map registry.logger).flatMap Logger.handlers).countP p =
      chainNames.countP fun upper => !(registry.logger upper).handlers.isEmpty := by
  induction chainNames with
  | nil => rfl
  | cons upper rest ih =>
    rw [List.map_cons, List.flatMap_cons, List.countP_append, ih]
    by_cases hnil : (registry.logger upper).handlers = []
    · rw [hnil, List.countP_nil, List.countP_cons_of_neg (by simp [hnil]), Nat.zero_add]
    · rw [(h.equipped upper hnil).1, List.countP_cons_of_pos hp, List.countP_nil,
        List.countP_cons_of_pos (by simp [hnil]), Nat.add_comm]

/-- A logger with handlers shows its records as often as there are console handlers along its
chain. -/
theorem Obtained.timesShown_eq (h : Obtained names registry)
    (hname : (registry.logger name).handlers ≠ []) :
    registry.timesShown name .info = registry.chainConsoles name := by
  obtain ⟨above, habove⟩ := registry.exists_chain_eq name
  obtain ⟨chainNames, -, -, hchain, -⟩ := exists_chainNames h.apart name
  have hrank : registry.effectiveRank name = Level.info.rank := by
    rw [effectiveRank, habove, List.findSome?_cons, (h.equipped name hname).2]
    rfl
  have hreached : reached (registry.chain name) = registry.chain name := by
    refine reached_of_propagates fun logger hlogger => ?_
    rw [hchain] at hlogger
    obtain ⟨upper, -, rfl⟩ := List.mem_map.mp hlogger
    exact h.propagates upper
  rw [timesShown, hrank, if_neg (Nat.lt_irrefl _), reachedHandlers, hreached, chainConsoles, hchain,
    h.countP_handlers rfl, h.countP_handlers rfl]

/-- A chain has at most one console handler, if of two loggers in a line at most one has any. -/
theorem Obtained.chainConsoles_le_one (h : Obtained names registry) (hsole : registry.SoleHandlers)
    (name : String) : registry.chainConsoles name ≤ 1 := by
  obtain ⟨chainNames, hnodup, hsub, hchain, -⟩ := exists_chainNames h.apart name
  rw [chainConsoles, hchain, h.countP_handlers rfl, countP_le_one_iff hnodup]
  intro upper hupper hhandlers other hother hhandlers'
  have hne : (registry.logger upper).handlers ≠ [] := by simpa using hhandlers
  have hne' : (registry.logger other).handlers ≠ [] := by simpa using hhandlers'
  obtain habove | hbelow := lineage_total (hsub hupper) (hsub hother)
  · exact (hsole other upper habove hne' hne).trans (properName_of_mem_lineage (hsub hother))
  · exact ((hsole upper other hbelow hne hne').trans (properName_of_mem_lineage (hsub hupper))).symm

/-- If two loggers in a line have handlers, the lower one has both on its chain. -/
theorem Obtained.exists_two_le (h : Obtained names registry) (hnot : ¬registry.SoleHandlers) :
    ∃ name, registry.Has name ∧ 2 ≤ registry.chainConsoles name ∧
      2 ≤ registry.timesShown name .info := by
  rw [SoleHandlers] at hnot
  push Not at hnot
  obtain ⟨lower, upper, hupper, hlow, hup, hne⟩ := hnot
  have hlow' : (registry.logger (properName lower)).handlers ≠ [] := by
    rwa [logger_properName]
  have hhas := h.has lower hlow
  have htwo : 2 ≤ registry.chainConsoles (properName lower) := by
    obtain ⟨chainNames, hnodup, -, hchain, hall⟩ := exists_chainNames h.apart (properName lower)
    have hsub : lineage lower ⊆ chainNames := by
      rw [lineage_properName, namesAbove_properName] at hall
      exact hall fun given hgiven => hhas given (mem_lineage.mpr (.inr (.inl hgiven)))
    rw [chainConsoles, hchain, h.countP_handlers rfl, ← not_lt, Nat.lt_succ_iff,
      countP_le_one_iff hnodup]
    intro hsame
    exact hne (hsame upper (hsub hupper) (by simpa using hup) (properName lower)
      (hsub (properName_mem_lineage lower)) (by simpa using hlow'))
  refine ⟨properName lower, hhas _ (properName_mem_lineage lower), htwo, ?_⟩
  rwa [h.timesShown_eq hlow']

end Chain

/-! ### Records that are shown once -/

section Shown

variable {registry : Registry} {name : String} {level : Level}

/-- What the console shows of a record is nothing, a line, or the bare text. -/
def ShownOnce (registry : Registry) (name : String) (level : Level) (text : String) : Prop :=
  (registry.log name level text).2 ∈ ["", consoleLine level text, text ++ "\n"]

theorem shownOnce_of_timesShown (h : registry.timesShown name level ≤ 1) (text : String) :
    registry.ShownOnce name level text := by
  rw [ShownOnce]
  by_cases hreached : registry.reachedHandlers name = []
  · rw [log, effectiveRank_demand, reachedHandlers_demand, hreached]
    dsimp only
    split
    · exact List.mem_cons_self ..
    · split <;> simp
  · rw [log_shown hreached]
    obtain hzero | hone := Nat.le_one_iff_eq_zero_or_eq_one.mp h
    · rw [hzero]
      exact List.mem_cons_self ..
    · rw [hone]
      simp [String.join_cons]

/-- A record that is shown twice is longer on the console than one that is not. -/
theorem not_shownOnce_of_timesShown (h : 2 ≤ registry.timesShown name .info) :
    ¬registry.ShownOnce name .info "" := by
  have hreached : registry.reachedHandlers name ≠ [] := by
    intro hnil
    rw [timesShown, hnil] at h
    split at h <;> simp at h
  have hlength : ((registry.log name .info "").2).length = registry.timesShown name .info * 7 := by
    rw [log_shown hreached, length_join_replicate]
    rfl
  have hline : (consoleLine .info "").length = 7 := rfl
  intro honce
  rw [ShownOnce] at honce
  simp only [List.mem_cons, List.not_mem_nil, or_false] at honce
  obtain heq | heq | heq := honce
  · rw [heq, String.length_empty] at hlength
    omega
  · rw [heq, hline] at hlength
    omega
  · rw [heq] at hlength
    have hbare : ("" ++ "\n" : String).length = 1 := rfl
    omega

end Shown

/-- **When no chain has two console handlers**, after loggers were asked for in some order: just if
whenever one was asked for after one below it, it or one above it had been asked for before. Just
then, no record of any logger is shown twice. -/
theorem chains_single_iff (names : List String) :
    ((∀ name, (obtainAll names).Has name → (obtainAll names).chainConsoles name ≤ 1) ↔
      AskedDownwards names) ∧
    ((∀ name level text, (obtainAll names).ShownOnce name level text) ↔ AskedDownwards names) := by
  have h := obtained_obtainAll names
  rw [← soleHandlers_iff]
  refine ⟨⟨fun hsingle => ?_, fun hsole name _ => h.chainConsoles_le_one hsole name⟩,
    ⟨fun honce => ?_, fun hsole name level text => ?_⟩⟩
  · by_contra hnot
    obtain ⟨name, hhas, htwo, -⟩ := h.exists_two_le hnot
    exact absurd (hsingle name hhas) (Nat.not_le.mpr htwo)
  · by_contra hnot
    obtain ⟨name, -, -, htwo⟩ := h.exists_two_le hnot
    exact not_shownOnce_of_timesShown htwo (honce name .info "")
  · exact shownOnce_of_timesShown ((timesShown_le_chainConsoles _ name level).trans
      (h.chainConsoles_le_one hsole name)) text

/-- **A record that is shown twice**: a logger was asked for after one below it, and both have a
console handler. -/
theorem chains_doubled :
    (obtainAll ["a.b", "a"]).Has "a.b" ∧ (obtainAll ["a.b", "a"]).chainConsoles "a.b" = 2 ∧
      ((obtainAll ["a.b", "a"]).log "a.b" .info "note").2 = "INFO: note\nINFO: note\n" :=
  ⟨.inr (by decide +kernel), by decide +kernel, by decide +kernel⟩

end Registry

end Seams
