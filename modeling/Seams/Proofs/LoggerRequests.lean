import Seams.Proofs.LoggerSetup

/-!
# Loggers after any requests

Requests to set loggers up, and for loggers, come in any order, and some fail for a level that there
is not. What one of them does to the loggers is told in one equation: there is at most one logger
that it sets up, and all others stay as they are. What holds after any requests follows by induction
along them.

## Main definitions

* `Request`, `Registry.answer`, `Registry.after` — requests, and a registry after several of them
* `Registry.setUpBy?`, `Registry.levelsSet` — what requests set up
* `Registry.Heeds` — what a registry owes to the requests that were made of it

## Main results

* `Registry.logger_answer` — the loggers after one request
* `Registry.level_after`, `Registry.extends_after` — levels and handlers after any requests
* `Registry.after_requests` — a registry after any requests
-/

namespace Seams

/-! ### Requests -/

/-- A request to set a logger up, or to have a logger. -/
inductive Request where
  | setUp (name level : String) (file : Option String)
  | obtain (name : String)

namespace Registry

/-- The answer to a request. -/
def answer (registry : Registry) : Request → Answer String
  | .setUp name level file => registry.setup name level file
  | .obtain name => registry.obtain name

/-- A registry after several requests. -/
def after (registry : Registry) (requests : List Request) : Registry :=
  requests.foldl (fun registry request => (registry.answer request).1) registry

/-- The logger that a request sets up, with its level and its file: the one that the request is
for, if there is such a level, and one that is asked for while its lineage is bare. -/
def setUpBy? (registry : Registry) : Request → Option (String × Level × Option String)
  | .setUp name levelName file => (Level.ofName? levelName).map fun level => (name, level, file)
  | .obtain name => if registry.IsBare name then some (name, .info, none) else none

/-- The levels with which requests set up a logger, in order. -/
def levelsSet (registry : Registry) (name : String) : List Request → List Level
  | [] => []
  | request :: rest =>
    (match registry.setUpBy? request with
      | some (other, level, _) => if properName name = properName other then [level] else []
      | none => []) ++ (registry.answer request).1.levelsSet name rest

theorem parse_eq (levelName : String) :
    Level.parse levelName =
      match Level.ofName? levelName with
      | some level => .ok level
      | none => .error ⟨levelName⟩ := rfl

section Answer

variable {registry : Registry} {request : Request} {name : String} {level : Level}
  {file : Option String}

/-- A request that sets a logger up changes this logger alone. -/
theorem answer_of_setUpBy? (hroot : registry.RootApart)
    (h : registry.setUpBy? request = some (name, level, file)) :
    ∃ woken files, Wakes registry woken ∧ registry.answer request =
      ({ woken.modify name (Logger.setUp level file) with files }, .ok (properName name)) := by
  cases request with
  | setUp other levelName path =>
    obtain ⟨found, hfound, heq⟩ := Option.map_eq_some_iff.mp h
    cases heq
    have hparse : Level.parse levelName = .ok level := by rw [parse_eq, hfound]
    obtain ⟨files, hsetup⟩ := setup_of_parse hparse registry name file
    exact ⟨registry, files, .refl registry, hsetup⟩
  | obtain other =>
    rw [setUpBy?] at h
    split at h
    · rename_i hbare
      cases h
      obtain ⟨woken, files, hwakes, -, hobtain⟩ := obtain_of_isBare hroot hbare
      exact ⟨woken, files, hwakes, hobtain⟩
    · cases h

/-- Any other request changes no logger. -/
theorem answer_of_not_setUpBy? (h : registry.setUpBy? request = none) :
    Wakes registry (registry.answer request).1 := by
  cases request with
  | setUp name levelName file =>
    have hnone : Level.ofName? levelName = none := by simpa [setUpBy?] using h
    have hparse : Level.parse levelName = .error ⟨levelName⟩ := by rw [parse_eq, hnone]
    rw [answer, setup_of_unknown hparse]
    exact .demand registry name
  | obtain name =>
    rw [setUpBy?] at h
    split at h
    · cases h
    · rename_i hnot
      obtain ⟨woken, hwakes, hobtain, -⟩ := obtain_of_not_isBare hnot
      rw [answer, hobtain]
      exact hwakes

/-- **The loggers after a request.** -/
theorem logger_answer (hroot : registry.RootApart) (request : Request) (other : String) :
    (registry.answer request).1.logger other =
      match registry.setUpBy? request with
      | some (name, level, file) =>
        if properName other = properName name then (registry.logger other).setUp level file
        else registry.logger other
      | none => registry.logger other := by
  cases h : registry.setUpBy? request with
  | none => exact congrFun (answer_of_not_setUpBy? h).logger other
  | some set =>
    obtain ⟨name, level, file⟩ := set
    obtain ⟨woken, files, hwakes, hanswer⟩ := answer_of_setUpBy? hroot h
    rw [hanswer]
    show (woken.modify name (Logger.setUp level file)).logger other = _
    rw [logger_modify, hwakes.logger]
    show _ = if properName other = properName name then _ else _
    split
    · rename_i heq
      rw [logger_congr heq]
    · rfl

theorem rootApart_answer (hroot : registry.RootApart) (request : Request) :
    (registry.answer request).1.RootApart := by
  cases h : registry.setUpBy? request with
  | none => exact (answer_of_not_setUpBy? h).apart hroot
  | some set =>
    obtain ⟨name, level, file⟩ := set
    obtain ⟨woken, files, hwakes, hanswer⟩ := answer_of_setUpBy? hroot h
    rw [hanswer]
    exact (hwakes.apart hroot).modify name _

theorem extends_answer (hroot : registry.RootApart) (request : Request) (other : String) :
    (registry.logger other).Extends ((registry.answer request).1.logger other) := by
  rw [logger_answer hroot]
  split
  · split
    · exact .setUp ..
    · exact .refl _
  · exact .refl _

/-- A request that fails sets nothing up. -/
theorem setUpBy?_of_error (hroot : registry.RootApart) {error : UnknownLevel}
    (h : (registry.answer request).2 = .error error) : registry.setUpBy? request = none := by
  cases hset : registry.setUpBy? request with
  | none => rfl
  | some set =>
    obtain ⟨name, level, file⟩ := set
    obtain ⟨woken, files, -, hanswer⟩ := answer_of_setUpBy? hroot hset
    rw [hanswer] at h
    cases h

end Answer

/-! ### A registry after any requests -/

theorem after_cons (registry : Registry) (request : Request) (rest : List Request) :
    registry.after (request :: rest) = (registry.answer request).1.after rest := rfl

theorem rootApart_after {registry : Registry} (hroot : registry.RootApart)
    (requests : List Request) : (registry.after requests).RootApart := by
  induction requests generalizing registry with
  | nil => exact hroot
  | cons request rest ih => exact ih (rootApart_answer hroot request)

theorem extends_after {registry : Registry} (hroot : registry.RootApart)
    (requests : List Request) (name : String) :
    (registry.logger name).Extends ((registry.after requests).logger name) := by
  induction requests generalizing registry with
  | nil => exact .refl _
  | cons request rest ih =>
    exact (extends_answer hroot request name).trans (ih (rootApart_answer hroot request))

/-- A logger has the level it was set up with last. -/
theorem level_after {registry : Registry} (hroot : registry.RootApart) (requests : List Request)
    (name : String) :
    ((registry.after requests).logger name).level =
      (registry.levelsSet name requests).getLast?.or (registry.logger name).level := by
  induction requests generalizing registry with
  | nil => rfl
  | cons request rest ih =>
    rw [after_cons, ih (rootApart_answer hroot request), levelsSet, List.getLast?_append,
      Option.or_assoc, logger_answer hroot]
    congr 1
    split
    · split <;> rfl
    · rfl

/-- What a registry owes to the requests that were made of it. -/
structure Heeds (before : Registry) (requests : List Request) (after : Registry) : Prop where
  /-- No handler is lost, and there is no second one of a kind that was not there. -/
  extended : ∀ name, (before.logger name).Extends (after.logger name)
  /-- A request that fails changes no logger. -/
  failed : ∀ request error, (after.answer request).2 = .error error →
    (after.answer request).1.logger = after.logger
  /-- A logger has the level it was set up with last, if it was set up at all. -/
  level : ∀ name, (after.logger name).level =
    (before.levelsSet name requests).getLast?.or (before.logger name).level
  /-- Asking for a logger changes something just if there is no handler in its lineage. -/
  obtained : ∀ name,
    (∃ other, ((after.obtain name).1.logger other).level ≠ (after.logger other).level ∨
      ((after.obtain name).1.logger other).handlers ≠ (after.logger other).handlers) ↔
    after.IsBare name
  /-- Then there is one. -/
  found : ∀ name, ¬(after.obtain name).1.IsBare name
  /-- Asking once more changes nothing. -/
  again : ∀ name, ((after.obtain name).1.obtain name).1 = (after.obtain name).1

section Obtained

variable {registry : Registry} {name : String}

/-- A logger that is asked for while its lineage is bare writes to the console from then on. -/
theorem logger_obtain_of_isBare (hroot : registry.RootApart) (h : registry.IsBare name)
    (other : String) :
    (registry.obtain name).1.logger other =
      if properName other = properName name then (registry.logger other).setUp .info none
      else registry.logger other := by
  have hlogger := logger_answer hroot (.obtain name) other
  rwa [setUpBy?, if_pos h] at hlogger

theorem logger_obtain_of_not_isBare (h : ¬registry.IsBare name) :
    (registry.obtain name).1.logger = registry.logger := by
  obtain ⟨woken, hwakes, hobtain, -⟩ := obtain_of_not_isBare h
  rw [hobtain, hwakes.logger]

/-- Asking for a logger leaves a handler in its lineage. -/
theorem not_isBare_obtain (hroot : registry.RootApart) (name : String) :
    ¬(registry.obtain name).1.IsBare name := by
  intro hbare
  by_cases h : registry.IsBare name
  · have hnil := hbare (properName name) (properName_mem_lineage name)
    rw [logger_properName, logger_obtain_of_isBare hroot h, if_pos rfl] at hnil
    exact Logger.handlers_setUp_ne_nil _ _ _ hnil
  · refine h ?_
    rwa [IsBare, logger_obtain_of_not_isBare h] at hbare

/-- Asking for a logger changes something just if its lineage is bare. -/
theorem obtain_changes_iff (hroot : registry.RootApart) (name : String) :
    (∃ other, ((registry.obtain name).1.logger other).level ≠ (registry.logger other).level ∨
      ((registry.obtain name).1.logger other).handlers ≠ (registry.logger other).handlers) ↔
    registry.IsBare name := by
  constructor
  · rintro ⟨other, hchange⟩
    by_contra hnot
    rw [logger_obtain_of_not_isBare hnot] at hchange
    exact hchange.elim (· rfl) (· rfl)
  · intro hbare
    refine ⟨name, .inr ?_⟩
    have hnil : (registry.logger name).handlers = [] := by
      rw [← logger_properName]
      exact hbare _ (properName_mem_lineage name)
    rw [logger_obtain_of_isBare hroot hbare, if_pos rfl, hnil]
    exact Logger.handlers_setUp_ne_nil _ _ _

end Obtained

/-- **A registry after any requests** to set loggers up, or to have them, some of which may fail.
No logger has lost a handler, nor got a second one that writes to the console, or to a file. A
request that fails changes no logger. A logger has the level it was set up with last. Asking for a
logger changes something just if there is no handler on it, on the loggers of the dotted names
above it and on the root, whichever of them hand records on; then there is one, and asking once
more changes nothing. -/
theorem after_requests {registry : Registry} (hroot : registry.RootApart)
    (requests : List Request) : registry.Heeds requests (registry.after requests) where
  extended := extends_after hroot requests
  failed request error h :=
    (answer_of_not_setUpBy? (setUpBy?_of_error (rootApart_after hroot requests) h)).logger
  level := level_after hroot requests
  obtained := obtain_changes_iff (rootApart_after hroot requests)
  found := not_isBare_obtain (rootApart_after hroot requests)
  again name := by rw [obtain_obtain (rootApart_after hroot requests)]

/-- A registry with a logger that has a handler twice and keeps its records to itself. -/
def crowded : Registry where
  loggers := .ofList [("a", ⟨some .error, [.console .info, .console .error], false⟩)]

/-- A request that fails, one for a logger below others, one that succeeds, and two that have
loggers set up. -/
def crowdedRequests : List Request :=
  [.setUp "a.b" "verbose" none, .obtain "a.b.c", .setUp "a.b" "ınfo" (some "x.log"),
    .obtain "d.e", .obtain "d"]

theorem after_requests_crowded :
    crowded.RootApart ∧ crowded.Heeds crowdedRequests (crowded.after crowdedRequests) ∧
      crowded.levelsSet "a.b" crowdedRequests = [.info] ∧
      (crowded.after crowdedRequests).logger "a.b" =
        ⟨some .info, [.console .info, .file .debug { path := "x.log" }], true⟩ := by
  have hroot : crowded.RootApart := rfl
  exact ⟨hroot, after_requests hroot crowdedRequests, by decide +kernel, by decide +kernel⟩

end Registry

end Seams
