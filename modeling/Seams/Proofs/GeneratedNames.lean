import Mathlib.Data.List.Dedup
import Mathlib.Data.List.Nodup
import Mathlib.Data.List.Perm.Subperm
import Seams.Names

/-!
# Generated names are new

The names of a sequence differ from each other, so among one more of them than there are names
taken, one is free, and the search for a fresh name finds it. A reserved name is new as well, but
it may be an identifier of the module, if it was chosen.

## Main definitions

* `Names.Grants` — a name is generated: it was neither bound nor generated before
* `Names.GrantsAll` — several names are generated, one after the other
* `Names.Reserves` — a run of reservations, each with its choices and the name that was given

## Main results

* `Names.candidate_injective` — the names of a sequence differ
* `Names.grants_fresh`, `Names.fresh_not_mem_references` — what a fresh name is unlike
* `Names.grants_reserveFrom`, `Names.reserveFrom_mem_or_fresh` — what a reserved name is unlike
* `Names.Reserves.grants` — a run of reservations gives names that differ
-/

namespace Seams

namespace Names

/-! ### Sequences of names -/

theorem toDigits_injective {i j : Nat} (h : Nat.toDigits 10 i = Nat.toDigits 10 j) : i = j := by
  have hread := congrArg (fun digits => Nat.ofDigitChars 10 digits 0) h
  simpa only [Nat.ofDigitChars_ten_toDigits] using hread

/-- The names of a sequence differ from each other. -/
theorem candidate_injective {stem : List Char} {i j : Nat} (hi : 1 ≤ i) (hj : 1 ≤ j)
    (h : candidate stem i = candidate stem j) : i = j := by
  simp only [candidate, String.ofList_inj, List.append_cancel_left_eq] at h
  by_cases h₁ : i ≤ 1 <;> by_cases h₂ : j ≤ 1 <;> simp only [h₁, h₂, if_true, if_false] at h
  · omega
  · exact absurd h.symm Nat.toDigits_ne_nil
  · exact absurd h Nat.toDigits_ne_nil
  · exact toDigits_injective h

theorem isTaken_eq_false_iff {names : Names} {name : String} : names.isTaken name = false ↔
    name ∉ names.issued ∧ name ∉ names.scope.references ∧ names.scope.binds name = false := by
  simp [isTaken, and_assoc]

theorem isReserved_eq_false_iff {names : Names} {name : String} : names.isReserved name = false ↔
    names.scope.binds name = false ∧ name ∉ names.issued := by
  simp [isReserved]

theorem mem_taken_iff {names : Names} {name : String} :
    name ∈ names.taken ↔ names.isTaken name = true := by
  simp [taken, isTaken, Scope.binds, Table.mem_names_iff, or_assoc]

/-- A sequence begins with no more taken names than there are. -/
theorem le_length_taken {names : Names} {stem : List Char} {count : Nat}
    (h : ∀ place, 1 ≤ place → place ≤ count → names.isTaken (candidate stem place) = true) :
    count ≤ names.taken.dedup.length := by
  let first := (List.range' 1 count).map (candidate stem)
  have hnodup : first.Nodup := by
    refine List.Nodup.map_on (fun i hi j hj h => ?_) List.nodup_range'
    rw [List.mem_range'_1] at hi hj
    exact candidate_injective hi.1 hj.1 h
  have hsubset : first ⊆ names.taken.dedup := by
    intro name hname
    obtain ⟨place, hplace, rfl⟩ := List.mem_map.mp hname
    rw [List.mem_range'_1] at hplace
    exact List.mem_dedup.mpr (mem_taken_iff.mpr (h place hplace.1 (by omega)))
  have hlength := (List.subperm_of_subset hnodup hsubset).length_le
  rwa [List.length_map, List.length_range'] at hlength

/-- A name that is free stands among the first ones of a sequence. -/
theorem exists_free (names : Names) (stem : List Char) :
    ∃ place, 1 ≤ place ∧ place ≤ names.taken.length + 1 ∧
      names.isTaken (candidate stem place) = false := by
  by_contra hnone
  have htaken : ∀ place, 1 ≤ place → place ≤ names.taken.length + 1 →
      names.isTaken (candidate stem place) = true := by
    intro place h₁ h₂
    by_contra hfree
    exact hnone ⟨place, h₁, h₂, (Bool.not_eq_true _).mp hfree⟩
  have hle := le_length_taken htaken
  have hdedup := (List.dedup_sublist names.taken).length_le
  omega

/-- The search stops at a free name, if there is one ahead. -/
theorem firstFree_free {isTaken : String → Bool} {sequence : Nat → String} {attempts start : Nat}
    (h : ∃ place, start ≤ place ∧ place ≤ start + attempts ∧ isTaken (sequence place) = false) :
    isTaken (firstFree isTaken sequence attempts start) = false := by
  obtain ⟨place, hstart, hstop, hfree⟩ := h
  induction attempts generalizing start with
  | zero =>
    obtain rfl : place = start := by omega
    exact hfree
  | succ attempts ih =>
    rw [firstFree]
    split
    · rename_i htaken
      refine ih ?_ (by omega)
      rcases Nat.eq_or_lt_of_le hstart with rfl | hlt
      · rw [htaken] at hfree
        cases hfree
      · exact hlt
    · rename_i hnot
      simpa using hnot

/-! ### Generating a name -/

/-- A name is generated that was neither bound nor generated before. -/
structure Grants (before : Names) (name : String) (after : Names) : Prop where
  scope : after.scope = before.scope
  issued : after.issued = name :: before.issued
  new : name ∉ before.issued
  unbound : before.scope.binds name = false

theorem grants_issue {names : Names} {name : String} (hnew : name ∉ names.issued)
    (hunbound : names.scope.binds name = false) : names.Grants name (names.issue name) :=
  ⟨rfl, List.insert_of_not_mem hnew, hnew, hunbound⟩

theorem isTaken_fresh (names : Names) (base : String) :
    names.isTaken (names.fresh base).1 = false := by
  refine firstFree_free ?_
  obtain ⟨place, h₁, h₂, hfree⟩ := names.exists_free (stem base)
  exact ⟨place, h₁, by omega, hfree⟩

/-- **Fresh names are new.** -/
theorem grants_fresh (names : Names) (base : String) :
    names.Grants (names.fresh base).1 (names.fresh base).2 := by
  obtain ⟨hnew, -, hunbound⟩ := isTaken_eq_false_iff.mp (names.isTaken_fresh base)
  exact grants_issue hnew hunbound

/-- A fresh name is unlike every identifier of the module. -/
theorem fresh_not_mem_references (names : Names) (base : String) :
    (names.fresh base).1 ∉ names.scope.references :=
  (isTaken_eq_false_iff.mp (names.isTaken_fresh base)).2.1

theorem name_reserveFrom_of_reserved {names : Names} {base choice : String} {rest : List String}
    (h : names.isReserved choice = true) :
    (names.reserveFrom base (choice :: rest)).name = (names.reserveFrom base rest).name := by
  rw [reserveFrom, if_pos h]

theorem name_reserveFrom_of_free {names : Names} {base choice : String} {rest : List String}
    (h : names.isReserved choice = false) :
    (names.reserveFrom base (choice :: rest)).name = choice := by
  rw [reserveFrom, if_neg (by simp [h])]

/-- **Reserved names are new.** -/
theorem grants_reserveFrom (names : Names) (base : String) (choices : List String) :
    names.Grants (names.reserveFrom base choices).name (names.reserveFrom base choices).names := by
  induction choices with
  | nil => exact names.grants_fresh base
  | cons choice rest ih =>
    rw [reserveFrom]
    split
    · exact ih
    · rename_i hfree
      rw [Bool.not_eq_true, isReserved_eq_false_iff] at hfree
      exact grants_issue hfree.2 hfree.1

/-- A reserved name is one of the choices, or a fresh name. -/
theorem reserveFrom_mem_or_fresh (names : Names) (base : String) (choices : List String) :
    (names.reserveFrom base choices).name ∈ choices ∨
      (names.reserveFrom base choices).name = (names.fresh base).1 := by
  induction choices with
  | nil => exact .inr rfl
  | cons choice rest ih =>
    cases hreserved : names.isReserved choice with
    | true =>
      rw [name_reserveFrom_of_reserved hreserved]
      exact ih.imp_left (List.mem_cons_of_mem _)
    | false =>
      rw [name_reserveFrom_of_free hreserved]
      exact .inl (List.mem_cons_self ..)

/-- The first choice that is not bound is reserved, if it was not generated before. -/
theorem reserveFrom_of_find? {names : Names} {base choice : String} {choices : List String}
    (hfind : choices.find? (fun c => !names.scope.binds c) = some choice)
    (hnew : choice ∉ names.issued) : (names.reserveFrom base choices).name = choice := by
  induction choices with
  | nil => cases hfind
  | cons first rest ih =>
    cases hbound : names.scope.binds first with
    | true =>
      rw [List.find?_cons_of_neg (by simp [hbound])] at hfind
      rw [name_reserveFrom_of_reserved (by simp [isReserved, hbound])]
      exact ih hfind
    | false =>
      rw [List.find?_cons_of_pos (by simp [hbound])] at hfind
      obtain rfl := Option.some.inj hfind
      exact name_reserveFrom_of_free (isReserved_eq_false_iff.mpr ⟨hbound, hnew⟩)

/-- A choice that is reserved is the first one that is not bound, if those before it were not
generated before. -/
theorem find?_of_reserveFrom {names : Names} {base : String} {choices : List String}
    (hmem : (names.reserveFrom base choices).name ∈ choices)
    (hclear : ∀ c ∈ choices.dropLast, c ≠ (names.reserveFrom base choices).name →
      c ∉ names.issued) :
    choices.find? (fun c => !names.scope.binds c) = some (names.reserveFrom base choices).name := by
  induction choices with
  | nil => cases hmem
  | cons first rest ih =>
    have hgrants := names.grants_reserveFrom base (first :: rest)
    cases hreserved : names.isReserved first with
    | true =>
      have hne : first ≠ (names.reserveFrom base (first :: rest)).name := by
        intro heq
        have hfree := isReserved_eq_false_iff.mpr ⟨hgrants.unbound, hgrants.new⟩
        rw [← heq, hreserved] at hfree
        cases hfree
      have hrest := (List.mem_cons.mp hmem).resolve_left hne.symm
      rw [List.dropLast_cons_of_ne_nil (List.ne_nil_of_mem hrest)] at hclear
      have hbound : names.scope.binds first = true := by
        simpa [isReserved, hclear first (List.mem_cons_self ..) hne] using hreserved
      rw [List.find?_cons_of_neg (by simp [hbound])]
      rw [name_reserveFrom_of_reserved hreserved] at *
      exact ih hrest fun c hc => hclear c (List.mem_cons_of_mem _ hc)
    | false =>
      rw [name_reserveFrom_of_free hreserved] at *
      exact List.find?_cons_of_pos (by simp [hgrants.unbound])

/-! ### Names that are made up -/

/-- A name that begins like all fresh names. -/
def IsMadeUp (name : String) : Prop :=
  name.toList.head? = some '_'

instance (name : String) : Decidable (IsMadeUp name) :=
  inferInstanceAs (Decidable (_ = _))

theorem firstFree_mem (isTaken : String → Bool) (sequence : Nat → String) (attempts start : Nat) :
    ∃ place, firstFree isTaken sequence attempts start = sequence place := by
  induction attempts generalizing start with
  | zero => exact ⟨start, rfl⟩
  | succ attempts ih =>
    rw [firstFree]
    split
    · exact ih (start + 1)
    · exact ⟨start, rfl⟩

theorem isMadeUp_fresh (names : Names) (base : String) : IsMadeUp (names.fresh base).1 := by
  obtain ⟨place, hplace⟩ :=
    firstFree_mem names.isTaken (candidate (stem base)) names.taken.length 1
  show IsMadeUp (firstFree names.isTaken (candidate (stem base)) names.taken.length 1)
  rw [hplace, IsMadeUp, candidate, String.toList_ofList]
  rfl

/-! ### Generating several names -/

/-- Names are generated one after the other. -/
structure GrantsAll (before : Names) (granted : List String) (after : Names) : Prop where
  scope : after.scope = before.scope
  issued : ∀ name, name ∈ after.issued ↔ name ∈ granted ∨ name ∈ before.issued
  nodup : granted.Nodup
  new : ∀ name ∈ granted, name ∉ before.issued
  unbound : ∀ name ∈ granted, before.scope.binds name = false

theorem GrantsAll.nil {names : Names} : names.GrantsAll [] names :=
  ⟨rfl, by simp, .nil, by simp, by simp⟩

theorem Grants.all {before after : Names} {name : String} (h : before.Grants name after) :
    before.GrantsAll [name] after :=
  ⟨h.scope, by simp [h.issued], List.nodup_singleton _, by simp [h.new], by simp [h.unbound]⟩

theorem GrantsAll.append {a b c : Names} {first second : List String} (h : a.GrantsAll first b)
    (h' : b.GrantsAll second c) : a.GrantsAll (first ++ second) c where
  scope := h'.scope.trans h.scope
  issued name := by
    rw [h'.issued, h.issued, List.mem_append]
    exact or_left_comm.trans or_assoc.symm
  nodup := by
    refine List.nodup_append'.mpr ⟨h.nodup, h'.nodup, fun name hfirst hsecond => ?_⟩
    exact h'.new name hsecond ((h.issued name).mpr (.inl hfirst))
  new name hname := by
    rcases List.mem_append.mp hname with hname | hname
    · exact h.new name hname
    · exact fun hin => h'.new name hname ((h.issued name).mpr (.inr hin))
  unbound name hname := by
    rcases List.mem_append.mp hname with hname | hname
    · exact h.unbound name hname
    · exact h.scope ▸ h'.unbound name hname

/-! ### Runs of reservations -/

/-- A run of reservations, each with its choices and the name that was given. -/
inductive Reserves : Names → List (List String × String) → Names → Prop
  | nil {names : Names} : Reserves names [] names
  | cons {names after : Names} {base : String} {choices : List String}
      {rest : List (List String × String)}
      (more : Reserves (names.reserveFrom base choices).names rest after) :
      Reserves names ((choices, (names.reserveFrom base choices).name) :: rest) after

namespace Reserves

variable {before after : Names} {given : List (List String × String)}

theorem append {last : Names} {more : List (List String × String)}
    (h : before.Reserves given after) (h' : after.Reserves more last) :
    before.Reserves (given ++ more) last := by
  induction h with
  | nil => exact h'
  | cons _ ih => exact .cons (ih h')

/-- A run of reservations can be taken apart. -/
theorem split {more : List (List String × String)} (h : before.Reserves (given ++ more) after) :
    ∃ between, before.Reserves given between ∧ between.Reserves more after := by
  induction given generalizing before with
  | nil => exact ⟨before, .nil, h⟩
  | cons entry rest ih =>
    cases h with
    | cons hrest =>
      obtain ⟨between, hfirst, hsecond⟩ := ih hrest
      exact ⟨between, .cons hfirst, hsecond⟩

/-- **The names that are given differ**, from each other and from what was there before. -/
theorem grants (h : before.Reserves given after) :
    before.GrantsAll (given.map Prod.snd) after := by
  induction h with
  | nil => exact .nil
  | @cons names _ base choices _ _ ih =>
    exact (names.grants_reserveFrom base choices).all.append ih

/-- A name that is given is one of its choices, or made up and unlike every identifier. -/
theorem mem_or_fresh (h : before.Reserves given after) {choices : List String} {name : String}
    (hgiven : (choices, name) ∈ given) :
    name ∈ choices ∨ IsMadeUp name ∧ name ∉ before.scope.references := by
  induction h with
  | nil => cases hgiven
  | @cons names _ base first _ _ ih =>
    rcases List.mem_cons.mp hgiven with heq | hgiven
    · cases heq
      refine (names.reserveFrom_mem_or_fresh base _).imp_right ?_
      intro hfresh
      rw [hfresh]
      exact ⟨names.isMadeUp_fresh base, names.fresh_not_mem_references base⟩
    · exact (names.grants_reserveFrom base first).scope ▸ ih hgiven

/-! ### Which choice is given -/

/-- The first choice that is not bound is given, unless it was generated before. -/
theorem mem_of_find? (h : before.Reserves given after) {choices : List String} {name : String}
    (hgiven : (choices, name) ∈ given) {choice : String}
    (hfind : choices.find? (fun c => !before.scope.binds c) = some choice) :
    choice ∈ given.map Prod.snd ∨ choice ∈ before.issued := by
  induction h with
  | nil => cases hgiven
  | @cons names _ base first rest _ ih =>
    have hgrants := names.grants_reserveFrom base first
    rcases List.mem_cons.mp hgiven with heq | hgiven
    · obtain ⟨rfl, rfl⟩ := Prod.mk.inj heq
      by_cases hissued : choice ∈ names.issued
      · exact .inr hissued
      · exact .inl (List.mem_cons.mpr (.inl (reserveFrom_of_find? hfind hissued).symm))
    · rw [hgrants.scope] at ih
      rcases ih hgiven hfind with hlater | hissued
      · exact .inl (List.mem_cons_of_mem _ hlater)
      · rw [hgrants.issued] at hissued
        rcases List.mem_cons.mp hissued with heq | hissued
        · exact .inl (List.mem_cons.mpr (.inl heq))
        · exact .inr hissued

/-- A choice that is given is the first one that is not bound, if no choice but the last can have
been generated for another wish. -/
theorem find?_of_mem (h : before.Reserves given after) {choices : List String} {name : String}
    (hgiven : (choices, name) ∈ given) (hname : name ∈ choices)
    (hclear : ∀ c ∈ choices.dropLast, c ≠ name → c ∉ given.map Prod.snd ∧ c ∉ before.issued) :
    choices.find? (fun c => !before.scope.binds c) = some name := by
  induction h with
  | nil => cases hgiven
  | @cons names _ base first rest _ ih =>
    have hgrants := names.grants_reserveFrom base first
    rcases List.mem_cons.mp hgiven with heq | hgiven
    · obtain ⟨rfl, rfl⟩ := Prod.mk.inj heq
      exact find?_of_reserveFrom hname fun c hc hne => (hclear c hc hne).2
    · rw [hgrants.scope] at ih
      refine ih hgiven ?_
      intro c hc hne
      obtain ⟨hgivenAll, hissued⟩ := hclear c hc hne
      rw [List.map_cons, List.mem_cons, not_or] at hgivenAll
      refine ⟨hgivenAll.2, ?_⟩
      rw [hgrants.issued, List.mem_cons, not_or]
      exact ⟨hgivenAll.1, hissued⟩

end Reserves

end Names

end Seams
