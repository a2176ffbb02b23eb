import Seams.Proofs.GeneratedNames

/-!
# Calls for names, in any order

Names are called for in two ways, and each way asks something else of the scope: a fresh name must
occur nowhere in the module, a reserved name must only be bound nowhere. Between two calls the scope
may change in any way, so a name that was bound when one call was made may be unbound at the next.
What holds the names apart all the same is the one list of the names that were handed out, which
both ways consult and which never loses a name.

## Main definitions

* `Names.Call` — a call for a name, or a change of the scope
* `Names.call`, `Names.after`, `Names.returned` — what one call and what several calls lead to

## Main results

* `Names.call_grants` — one call hands out nothing, or a name that was not handed out before
* `Names.mem_issued_after`, `Names.returned_nodup` — the names of several calls
* `Names.reserveFrom_eq` — which name a wish leads to
* `Names.calls_apart` — names after any calls
-/

namespace Seams

namespace Names

/-! ### Calls -/

/-- A call for a name, or a change of the scope that the names are for. -/
inductive Call where
  | fresh (base : String)
  | reserve (preferred : String) (fallback : Option String)
  | register (name : String) (kind : BindingKind) (declaration : Option Declaration)
  | remove (name : String)
  | weaken (binding : Binding)

/-- What one call leads to: the name that is handed out, if it is a call for a name, and the new
state. -/
def call (names : Names) : Call → Option String × Names
  | .fresh base => (some (names.fresh base).1, (names.fresh base).2)
  | .reserve preferred fallback =>
    (some (names.reserve preferred fallback).name, (names.reserve preferred fallback).names)
  | .register name kind declaration =>
    (none, { names with scope := names.scope.register name kind declaration })
  | .remove name => (none, { names with scope := names.scope.remove name })
  | .weaken binding =>
    (none, { names with scope := ((names.scope.weaken binding).map Prod.fst).getD names.scope })

/-- The state after several calls. -/
def after (names : Names) : List Call → Names
  | [] => names
  | call :: rest => (names.call call).2.after rest

/-- The names that several calls hand out, in order. -/
def returned (names : Names) : List Call → List String
  | [] => []
  | call :: rest => (names.call call).1.toList ++ (names.call call).2.returned rest

/-- **One call** hands out nothing and leaves the list of names as it is, or it hands out a name
that was not on the list and puts it there. -/
theorem call_grants (names : Names) (call : Call) :
    ((names.call call).1 = none ∧ (names.call call).2.issued = names.issued) ∨
      ∃ name, (names.call call).1 = some name ∧ name ∉ names.issued ∧
        (names.call call).2.issued = name :: names.issued := by
  cases call with
  | fresh base =>
    have hgrants := names.grants_fresh base
    exact .inr ⟨_, rfl, hgrants.new, hgrants.issued⟩
  | reserve preferred fallback =>
    have hgrants := names.grants_reserveFrom preferred (preferred :: fallback.toList)
    exact .inr ⟨_, rfl, hgrants.new, hgrants.issued⟩
  | register | remove | weaken => exact .inl ⟨rfl, rfl⟩

/-! ### Several calls -/

/-- A name is on the list after several calls if it was before or one of them has handed it out. -/
theorem mem_issued_after (names : Names) (calls : List Call) (name : String) :
    name ∈ (names.after calls).issued ↔ name ∈ names.returned calls ∨ name ∈ names.issued := by
  induction calls generalizing names with
  | nil => simp [after, returned]
  | cons call rest ih =>
    rw [after, returned, ih, List.mem_append]
    rcases names.call_grants call with ⟨hnone, hissued⟩ | ⟨made, hmade, -, hissued⟩
    · simp [hnone, hissued]
    · rw [hmade, hissued, Option.toList_some, List.mem_singleton, List.mem_cons]
      constructor
      · rintro (hrest | rfl | hbefore)
        · exact .inl (.inr hrest)
        · exact .inl (.inl rfl)
        · exact .inr hbefore
      · rintro ((rfl | hrest) | hbefore)
        · exact .inr (.inl rfl)
        · exact .inl hrest
        · exact .inr (.inr hbefore)

/-- No name is handed out that was on the list before. -/
theorem returned_new (names : Names) (calls : List Call) :
    ∀ name ∈ names.returned calls, name ∉ names.issued := by
  induction calls generalizing names with
  | nil => simp [returned]
  | cons call rest ih =>
    intro name hname
    rw [returned, List.mem_append] at hname
    rcases names.call_grants call with ⟨hnone, hissued⟩ | ⟨made, hmade, hnew, hissued⟩
    · rw [hnone] at hname
      rw [← hissued]
      exact ih _ name (hname.resolve_left (by simp))
    · rcases hname with hname | hname
      · rw [hmade, Option.toList_some, List.mem_singleton] at hname
        rwa [hname]
      · have hlater := ih _ name hname
        rw [hissued, List.mem_cons, not_or] at hlater
        exact hlater.2

/-- **The names that are handed out differ**, whatever happens to the scope in between. -/
theorem returned_nodup (names : Names) (calls : List Call) : (names.returned calls).Nodup := by
  induction calls generalizing names with
  | nil => exact List.nodup_nil
  | cons call rest ih =>
    rw [returned]
    rcases names.call_grants call with ⟨hnone, -⟩ | ⟨made, hmade, -, hissued⟩
    · rw [hnone]
      exact ih _
    · rw [hmade, Option.toList_some, List.singleton_append, List.nodup_cons]
      constructor
      · -- The name is on the list from now on.
        intro hagain
        refine returned_new _ rest made hagain ?_
        rw [hissued]
        exact List.mem_cons_self ..
      · exact ih _

/-! ### Which name a wish leads to -/

/-- **A wish leads to the first choice that is free**, or else to a fresh name. -/
theorem reserveFrom_eq (names : Names) (base : String) (choices : List String) :
    (names.reserveFrom base choices).name =
      (choices.find? fun choice => !names.isReserved choice).getD (names.fresh base).1 := by
  induction choices with
  | nil => rfl
  | cons choice rest ih =>
    cases hreserved : names.isReserved choice with
    | true =>
      rw [name_reserveFrom_of_reserved hreserved, ih, List.find?_cons_of_neg (by simp [hreserved])]
    | false =>
      rw [name_reserveFrom_of_free hreserved, List.find?_cons_of_pos (by simp [hreserved]),
        Option.getD_some]

/-- A name is free for a wish if it is neither bound nor was handed out since the beginning. -/
theorem isReserved_after (scope : Scope) (calls : List Call) (name : String) :
    (after ⟨scope, []⟩ calls).isReserved name =
      ((after ⟨scope, []⟩ calls).scope.binds name ||
        (returned ⟨scope, []⟩ calls).contains name) := by
  have hmem : name ∈ (after ⟨scope, []⟩ calls).issued ↔ name ∈ returned ⟨scope, []⟩ calls := by
    simp [mem_issued_after]
  rw [isReserved]
  congr 1
  rw [Bool.eq_iff_iff, List.contains_iff_mem, List.contains_iff_mem, hmem]

/-- **Names after any calls.** Take any scope, and any calls for names mixed with any changes of the
scope. All names that were handed out differ. A fresh name that is called for next is no identifier
of the module, and bound nowhere. A name that is reserved next is bound nowhere: it is the first of
the wishes that is neither bound nor was handed out before, and a fresh name if there is none. -/
theorem calls_apart (scope : Scope) (calls : List Call) :
    let names := after ⟨scope, []⟩ calls
    let handed := returned ⟨scope, []⟩ calls
    handed.Nodup ∧
      (∀ base, (names.fresh base).1 ∉ names.scope.references ∧
        names.scope.binds (names.fresh base).1 = false) ∧
      ∀ preferred fallback,
        names.scope.binds (names.reserve preferred fallback).name = false ∧
          (names.reserve preferred fallback).name =
            ((preferred :: fallback.toList).find? fun choice =>
              !(names.scope.binds choice || handed.contains choice)).getD
                (names.fresh preferred).1 := by
  intro names handed
  refine ⟨returned_nodup _ calls, fun base => ?_, fun preferred fallback => ?_⟩
  · exact ⟨names.fresh_not_mem_references base, (names.grants_fresh base).unbound⟩
  · constructor
    · exact (names.grants_reserveFrom preferred (preferred :: fallback.toList)).unbound
    · rw [reserve, reserveFrom_eq]
      simp only [names, handed, isReserved_after]

-- A name that was unbound again can be reserved, but it is no fresh name.
example : returned ⟨{}, []⟩ [.register "_a" .let none, .remove "_a", .fresh "a",
    .reserve "_a" none, .reserve "_a" (some "b")] = ["_a2", "_a", "b"] := by
  decide +kernel

end Names

end Seams
