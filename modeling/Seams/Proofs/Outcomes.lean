import Seams.Opening

/-!
# What comes of a module, told in two ways

A single module is opened in one call that gives its code or stops with an error. The same module
may be processed with a report, which tells what came of it without stopping. Both rest on one
outcome, and the two must never tell different things about it: code here and an error there, or an
error whose details are not the errors of the report.

A report of failure without a single error would be as bad. Whether a tree has faults is asked of
the tree as a whole, while the faults that are reported come from a walk that passes over whatever
has none and stops at a limit. So it takes an induction along that walk to see that it comes back
with a fault whenever there is one.

## Main definitions

* `Outcome.Coherent` — success, errors, code and override functions tell the same story
* `Module.OpensAlike` — what opening a module gives is what processing it reports

## Main results

* `Node.faultsIn_eq_nil`, `Module.syntaxFaults_eq_nil` — faults are reported where there are some
* `Module.process_coherent`, `Module.transform_coherent` — every outcome is coherent
* `openModule_opensAlike` — opening and processing a module agree
-/

namespace Seams

/-! ### The walk for faults -/

namespace Node

theorem hasError_eq (node : Node) :
    node.hasError = (node.missing || node.kind == .error || hasErrorAny node.children) := by
  cases node
  rfl

theorem hasErrorAny_append (xs ys : List Node) :
    hasErrorAny (xs ++ ys) = (hasErrorAny xs || hasErrorAny ys) := by
  induction xs with
  | nil => rfl
  | cons x xs ih => rw [List.cons_append, hasErrorAny, hasErrorAny, ih, Bool.or_assoc]

theorem ownFault?_eq_none {source : List UInt8} {node : Node} :
    node.ownFault? source = none ↔ node.missing = false ∧ (node.kind == .error) = false := by
  rw [ownFault?]
  by_cases hmissing : node.missing = true
  · simp [hmissing]
  · by_cases hkind : node.kind = .error
    · simp [hmissing, hkind]
    · simp [hmissing, hkind]

theorem hasError_of_ownFault? {source : List UInt8} {node : Node} {fault : SyntaxFault}
    (h : node.ownFault? source = some fault) : node.hasError = true := by
  cases herror : node.hasError with
  | true => rfl
  | false =>
    rw [hasError_eq, Bool.or_eq_false_iff, Bool.or_eq_false_iff] at herror
    rw [ownFault?_eq_none.mpr herror.1] at h
    cases h

/-- Below a node that is no fault itself, the walk goes on wherever there is one. -/
theorem hasErrorAny_suspects {source : List UInt8} {node : Node}
    (h : node.ownFault? source = none) : hasErrorAny node.suspects = node.hasError := by
  obtain ⟨hmissing, hkind⟩ := ownFault?_eq_none.mp h
  have hbelow : node.hasError = hasErrorAny node.children := by
    rw [hasError_eq, hmissing, hkind, Bool.false_or, Bool.false_or]
  by_cases herror : node.hasError = true
  · have hsuspects : node.suspects = node.children := by
      simp [suspects, herror, bne, hkind]
    rw [hsuspects, hbelow]
  · have hsuspects : node.suspects = [] := by
      simp [suspects, herror]
    rw [hsuspects, hasErrorAny, (Bool.not_eq_true _).mp herror]

/-- **The walk finds a fault** if and only if one of the trees has an error, however small the limit
is, as long as it allows for one. -/
theorem faultsIn_eq_nil (source : List UInt8) (limit : Nat) (pending : List Node)
    (hlimit : limit ≠ 0) : faultsIn source limit pending = [] ↔ hasErrorAny pending = false := by
  fun_induction faultsIn source limit pending with
  | case1 => exact absurd rfl hlimit
  | case2 => simp [hasErrorAny]
  | case3 node rest limit fault hown =>
    rw [hasErrorAny, hasError_of_ownFault? hown]
    simp
  | case4 node rest limit hown ih =>
    -- the list that comes next has an error where this one has
    rw [ih hlimit, hasErrorAny_append, hasErrorAny_suspects hown, hasErrorAny]

end Node

/-- A module has reported faults if and only if its tree has an error. -/
theorem Module.syntaxFaults_eq_nil (m : Module) :
    m.syntaxFaults = [] ↔ m.root.hasError = false := by
  have hwalk := Node.faultsIn_eq_nil (Text.encode m.source) Node.faultLimit [m.root] (by decide)
  rw [Node.hasErrorAny, Node.hasErrorAny, Bool.or_false] at hwalk
  exact hwalk

/-! ### Coherent outcomes -/

/-- An outcome tells one story: there are errors unless the module was opened, and code and
override functions only if it was. -/
structure Outcome.Coherent (outcome : Outcome) : Prop where
  errors : outcome.succeeded = true ↔ outcome.errors = []
  code : outcome.succeeded = false → outcome.code = ""
  overrides : outcome.overrides?.isSome = outcome.succeeded

/-- Only a list of faults with no fault in it could spoil an outcome. -/
theorem Outcome.coherent_iff {outcome : Outcome} :
    outcome.Coherent ↔ outcome ≠ .unparsable [] := by
  constructor
  · rintro ⟨herrors, -, -⟩ rfl
    have hsucceeded : (Outcome.unparsable []).succeeded = true := herrors.mpr rfl
    cases hsucceeded
  · intro hne
    cases outcome with
    | opened opening => exact ⟨by simp [succeeded, errors], by simp [succeeded], rfl⟩
    | failed failure => exact ⟨by simp [succeeded, errors], fun _ => rfl, rfl⟩
    | unparsable faults =>
      have hfaults : faults ≠ [] := fun h => hne (by rw [h])
      exact ⟨by simp [succeeded, errors, hfaults], fun _ => rfl, rfl⟩

namespace Module

theorem transform_ne_unparsable (m : Module) (options : Options) (faults : List SyntaxFault) :
    (m.transform options).outcome ≠ .unparsable faults := by
  rw [transform]
  cases (m.opening options).result <;> simp

theorem process_of_hasError {m : Module} (h : m.root.hasError = true) (options : Options) :
    (m.process options).outcome = .unparsable m.syntaxFaults := by
  rw [process, if_pos h]

theorem process_of_not_hasError {m : Module} (h : m.root.hasError = false) (options : Options) :
    (m.process options).outcome = (m.transform options).outcome := by
  rw [process, h]
  rfl

theorem transform_coherent (m : Module) (options : Options) :
    (m.transform options).outcome.Coherent :=
  Outcome.coherent_iff.mpr (m.transform_ne_unparsable options [])

theorem process_coherent (m : Module) (options : Options) :
    (m.process options).outcome.Coherent := by
  cases herror : m.root.hasError with
  | true =>
    rw [process_of_hasError herror, Outcome.coherent_iff]
    intro hnone
    have hfaults : m.syntaxFaults = [] := Outcome.unparsable.inj hnone
    rw [m.syntaxFaults_eq_nil.mp hfaults] at herror
    cases herror
  | false =>
    rw [process_of_not_hasError herror]
    exact m.transform_coherent options

end Module

/-! ### Opening and processing -/

/-- The code of an outcome, or the reason why there is none. -/
def Outcome.toExcept : Outcome → Except OpeningError String
  | opened opening => .ok opening.code
  | unparsable faults => .error (.unparsable faults)
  | failed failure => .error (.failed failure)

/-- With settings that are in order, opening a module passes on the outcome of processing it. -/
theorem openModule_eq {m : Module} {given : Option Settings} {named : Table Setting}
    {settings : Settings} {options : Options} (hchoice : chooseSettings given named = .ok settings)
    (hvalid : settings.validate = .ok options) :
    openModule m given named = (m.process options).outcome.toExcept := by
  rw [openModule, hchoice]
  show ((settings.validate.mapError OpeningError.options).bind fun options =>
    (m.process options).outcome.toExcept) = _
  rw [hvalid]
  rfl

namespace Module

/-- What comes of opening a module is what is reported when it is processed. -/
structure OpensAlike (m : Module) (options : Options) (result : Except OpeningError String) :
    Prop where
  /-- The code is that of a success. -/
  code : ∀ code, result = .ok code ↔
    (m.process options).outcome.succeeded = true ∧ (m.process options).outcome.code = code
  /-- Faults are the reason just for a tree that has errors. -/
  unparsable : (∃ faults, result = .error (.unparsable faults)) ↔ m.root.hasError = true
  /-- The work is the reason just where it was begun and stopped. -/
  failed : (∃ failure, result = .error (.failed failure)) ↔
    m.root.hasError = false ∧ (m.transform options).outcome.succeeded = false
  /-- The details are the errors of the report. -/
  details : ∀ error, result = .error error → error.details = (m.process options).outcome.errors
  /-- Work that stopped is one error, whose text says why. -/
  single : ∀ failure, result = .error (.failed failure) →
    (m.transform options).outcome.errors = [failure.report] ∧
      (m.process options).outcome.errors = [failure.report]
  /-- The reason in words says no more than whether the tree has errors. -/
  wording : ∀ error, result = .error error →
    error.message = if m.root.hasError then "Source contains syntax errors" else "Rewiring failed"

theorem opensAlike_of_hasError {m : Module} (h : m.root.hasError = true) (options : Options) :
    m.OpensAlike options (m.process options).outcome.toExcept := by
  have hprocess := process_of_hasError h options
  constructor
  · intro code
    simp [hprocess, Outcome.toExcept, Outcome.succeeded]
  · simp [hprocess, Outcome.toExcept, h]
  · simp [hprocess, Outcome.toExcept, h]
  · intro error herror
    rw [hprocess] at herror ⊢
    cases herror
    rfl
  · intro failure herror
    rw [hprocess] at herror
    cases herror
  · intro error herror
    rw [hprocess] at herror
    cases herror
    rw [if_pos h]
    rfl

theorem opensAlike_of_not_hasError {m : Module} (h : m.root.hasError = false)
    (options : Options) : m.OpensAlike options (m.process options).outcome.toExcept := by
  have hprocess := process_of_not_hasError h options
  have hparsable := m.transform_ne_unparsable options
  cases houtcome : (m.transform options).outcome with
  | unparsable faults => exact absurd houtcome (hparsable faults)
  | opened opening =>
    rw [houtcome] at hprocess
    constructor
    · simp [hprocess, Outcome.toExcept, Outcome.succeeded, Outcome.code]
    · simp [hprocess, Outcome.toExcept, h]
    · simp [hprocess, Outcome.toExcept, houtcome, Outcome.succeeded]
    all_goals
      rw [hprocess]
      intro _ herror
      cases herror
  | failed failure =>
    rw [houtcome] at hprocess
    constructor
    · simp [hprocess, Outcome.toExcept, Outcome.succeeded]
    · simp [hprocess, Outcome.toExcept, h]
    · simp [hprocess, Outcome.toExcept, h, houtcome, Outcome.succeeded]
    · intro error herror
      rw [hprocess] at herror ⊢
      cases herror
      rfl
    · intro other herror
      rw [hprocess] at herror ⊢
      cases herror
      rw [houtcome]
      exact ⟨rfl, rfl⟩
    · intro error herror
      rw [hprocess] at herror
      cases herror
      rw [h]
      rfl

end Module

/-- **Opening a module and processing it agree.** With settings in order, opening a module gives
code if and only if the report is one of success with that code. It stops over syntax faults if and
only if the tree has an error, and over the work if and only if the work has stopped, each time with
the errors of the report. And a report is one of success if and only if it has no errors: any other
has no code and no override functions. -/
theorem openModule_opensAlike (m : Module) {given : Option Settings} {named : Table Setting}
    {settings : Settings} {options : Options} (hchoice : chooseSettings given named = .ok settings)
    (hvalid : settings.validate = .ok options) :
    m.OpensAlike options (openModule m given named) ∧
      (m.process options).outcome.Coherent ∧ (m.transform options).outcome.Coherent ∧
      (m.syntaxFaults = [] ↔ m.root.hasError = false) := by
  rw [openModule_eq hchoice hvalid]
  refine ⟨?_, m.process_coherent options, m.transform_coherent options, m.syntaxFaults_eq_nil⟩
  cases herror : m.root.hasError with
  | true => exact Module.opensAlike_of_hasError herror options
  | false => exact Module.opensAlike_of_not_hasError herror options

/-- A module whose last declaration is given no value: `let a = ;`. -/
def Module.unfinished : Module where
  source := "let a = ;"
  root :=
    { kind := .program, start := 0, stop := 9, children :=
      [{ kind := .lexicalDeclaration, start := 0, stop := 9, children :=
        [{ kind := .keywordLet, start := 0, stop := 3, role := some .kind, named := false },
          { kind := .variableDeclarator, start := 4, stop := 8, children :=
            [{ kind := .identifier, start := 4, stop := 5, role := some .name },
              { kind := .other "=", start := 6, stop := 7, named := false },
              { kind := .identifier, start := 8, stop := 8, role := some .value,
                missing := true }] },
          { kind := .other ";", start := 8, stop := 9, named := false }] }] }

/-- The one fault of the module, two levels below the statement, is the detail of its error. -/
theorem openModule_opensAlike_unfinished :
    chooseSettings none ⟨[("unsafeConst", .flag true)]⟩ = .ok { unsafeConst := .flag true } ∧
      ({ unsafeConst := .flag true } : Settings).validate = .ok { unsafeConst := true } ∧
      (Module.unfinished.process { unsafeConst := true }).outcome.errors =
        ["Missing 'identifier' at line 1, column 9"] ∧
      Module.unfinished.OpensAlike { unsafeConst := true }
        (openModule .unfinished none ⟨[("unsafeConst", .flag true)]⟩) := by
  have hchoice : chooseSettings none ⟨[("unsafeConst", .flag true)]⟩ =
      .ok { unsafeConst := .flag true } := rfl
  have hvalid : ({ unsafeConst := .flag true } : Settings).validate =
      .ok { unsafeConst := true } := rfl
  refine ⟨hchoice, hvalid, ?_, (openModule_opensAlike .unfinished hchoice hvalid).1⟩
  decide +kernel

end Seams
