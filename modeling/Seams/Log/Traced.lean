import Seams.Failure
import Seams.Log.Event

/-!
# Work that is logged and may fail

A piece of work on a module gives the events that happened, in order, and a result or the reason
why there is none. The events before a failure are kept.

## Main definitions

* `Traced` — events with a result or a failure; a monad
* `Traced.note`, `Traced.lift` — log an event, take over a result that logs nothing
* `Traced.Gives` — the work succeeds, with a result of a given kind
* `Traced.Ensures` — if the work succeeds, then with a result of a given kind

## Main results

* `Traced.result_bind` — the result of work does not depend on what is logged
* `Traced.bind_ok` — work in two steps succeeds if both steps do
* `Traced.Gives.bind`, `Traced.Ensures.bind` — the same for work whose result has a property
-/

namespace Seams

/-- The events of a piece of work, and what came of it. -/
structure Traced (α : Type) where
  events : List Event
  result : Except Failure α

namespace Traced

variable {α β : Type}

/-- Go on with what came of a piece of work, unless it failed. -/
def bind (work : Traced α) (next : α → Traced β) : Traced β :=
  match work.result with
  | .ok value => ⟨work.events ++ (next value).events, (next value).result⟩
  | .error failure => ⟨work.events, .error failure⟩

instance : Monad Traced where
  pure value := ⟨[], .ok value⟩
  bind := bind

/-- Log an event. -/
def note (event : Event) : Traced Unit :=
  ⟨[event], .ok ()⟩

/-- Log some events. -/
def noteAll (events : List Event) : Traced Unit :=
  ⟨events, .ok ()⟩

/-- Work that logs nothing. -/
def lift (result : Except Failure α) : Traced α :=
  ⟨[], result⟩

instance : MonadLift (Except Failure) Traced where
  monadLift := lift

/-! ### Results alone -/

@[simp] theorem result_pure (value : α) : (pure value : Traced α).result = .ok value := rfl

@[simp] theorem result_note (event : Event) : (note event).result = .ok () := rfl

@[simp] theorem result_noteAll (events : List Event) : (noteAll events).result = .ok () := rfl

@[simp] theorem result_lift (result : Except Failure α) : (lift result).result = result := rfl

/-- The result of work in two steps is the second step's result on the first one's. -/
@[simp] theorem result_bind (work : Traced α) (next : α → Traced β) :
    (work >>= next).result = work.result.bind fun value => (next value).result := by
  show (bind work next).result = _
  unfold bind
  cases work.result <;> rfl

end Traced

/-! ### Success -/

/-- Two steps that may fail succeed together if both do. -/
theorem bind_eq_ok {α β : Type} {first : Except Failure α} {next : α → Except Failure β} {b : β} :
    first.bind next = .ok b ↔ ∃ a, first = .ok a ∧ next a = .ok b := by
  cases first with
  | error failure => simp [Except.bind]
  | ok a => simp [Except.bind]

namespace Traced

variable {α β : Type}

theorem bind_ok {work : Traced α} {next : α → Traced β} {b : β} :
    (work >>= next).result = .ok b ↔ ∃ a, work.result = .ok a ∧ (next a).result = .ok b := by
  rw [result_bind, bind_eq_ok]

/-- The work succeeds, and its result has a property. -/
def Gives (work : Traced α) (P : α → Prop) : Prop :=
  ∃ a, work.result = .ok a ∧ P a

theorem Gives.pure {P : α → Prop} {a : α} (h : P a) : (Pure.pure a : Traced α).Gives P :=
  ⟨a, rfl, h⟩

theorem Gives.bind {work : Traced α} {next : α → Traced β} {P : α → Prop} {Q : β → Prop}
    (h : work.Gives P) (hnext : ∀ a, P a → (next a).Gives Q) : (work >>= next).Gives Q := by
  obtain ⟨a, ha, hP⟩ := h
  obtain ⟨b, hb, hQ⟩ := hnext a hP
  exact ⟨b, bind_ok.mpr ⟨a, ha, hb⟩, hQ⟩

theorem Gives.mono {work : Traced α} {P Q : α → Prop} (h : work.Gives P) (hPQ : ∀ a, P a → Q a) :
    work.Gives Q := by
  obtain ⟨a, ha, hP⟩ := h
  exact ⟨a, ha, hPQ a hP⟩

/-- A step that logs nothing and succeeds is followed by what comes next. -/
theorem Gives.lift_bind {result : Except Failure α} {next : α → Traced β} {Q : β → Prop} {a : α}
    (h : result = .ok a) (hnext : (next a).Gives Q) : (liftM result >>= next).Gives Q :=
  Gives.bind (P := (· = a)) ⟨a, h, rfl⟩ fun _ hb => hb ▸ hnext

/-- Logging stands in the way of nothing. -/
theorem Gives.note_bind {event : Event} {next : Unit → Traced β} {Q : β → Prop}
    (hnext : (next ()).Gives Q) : (note event >>= next).Gives Q :=
  Gives.bind (P := fun _ => True) ⟨(), rfl, trivial⟩ fun _ _ => hnext

theorem Gives.noteAll_bind {events : List Event} {next : Unit → Traced β} {Q : β → Prop}
    (hnext : (next ()).Gives Q) : (noteAll events >>= next).Gives Q :=
  Gives.bind (P := fun _ => True) ⟨(), rfl, trivial⟩ fun _ _ => hnext

/-! ### Results of work that may fail -/

/-- If the work succeeds, its result has a property. -/
def Ensures (work : Traced α) (P : α → Prop) : Prop :=
  ∀ a, work.result = .ok a → P a

theorem Ensures.pure {P : α → Prop} {a : α} (h : P a) : (Pure.pure a : Traced α).Ensures P := by
  intro b hb
  cases hb
  exact h

theorem Ensures.lift {P : α → Prop} {result : Except Failure α} (h : ∀ a, result = .ok a → P a) :
    (liftM result : Traced α).Ensures P :=
  h

theorem Ensures.bind {work : Traced α} {next : α → Traced β} {P : α → Prop} {Q : β → Prop}
    (h : work.Ensures P) (hnext : ∀ a, P a → (next a).Ensures Q) : (work >>= next).Ensures Q := by
  intro b hb
  obtain ⟨a, ha, hb⟩ := bind_ok.mp hb
  exact hnext a (h a ha) b hb

/-- What comes after a step that logs nothing may rely on the step's success. -/
theorem Ensures.lift_bind {result : Except Failure α} {next : α → Traced β} {Q : β → Prop}
    (hnext : ∀ a, result = .ok a → (next a).Ensures Q) : (liftM result >>= next).Ensures Q :=
  Ensures.bind (P := fun a => result = .ok a) (fun _ ha => ha) hnext

theorem Ensures.note_bind {event : Event} {next : Unit → Traced β} {Q : β → Prop}
    (hnext : (next ()).Ensures Q) : (note event >>= next).Ensures Q :=
  Ensures.bind (P := fun _ => True) (fun _ _ => trivial) fun _ _ => hnext

theorem Ensures.noteAll_bind {events : List Event} {next : Unit → Traced β} {Q : β → Prop}
    (hnext : (next ()).Ensures Q) : (noteAll events >>= next).Ensures Q :=
  Ensures.bind (P := fun _ => True) (fun _ _ => trivial) fun _ _ => hnext

theorem Ensures.mono {work : Traced α} {P Q : α → Prop} (h : work.Ensures P)
    (hPQ : ∀ a, P a → Q a) : work.Ensures Q :=
  fun a ha => hPQ a (h a ha)

end Traced

end Seams
