import Mathlib.Data.List.DropRight
import Seams.Proofs.GeneratedNames

/-!
# Sequences of generated names

A fresh name is searched for in a sequence that has no end, and the search has no bound of its own:
it goes on until a name is free. It comes to an end because only finitely many names are taken and a
sequence never repeats one.

Two sequences do not share a name, unless they are the same. A name of a sequence is its stem with
a number behind it, so this rests on the order in which a stem is made from a base: digits are
stripped last, so no stem ends in one, and what a name has in front of its last digits is the stem.

## Main definitions

* `Names.Finds` — the search without a bound, and how many names it passes over
* `Names.IsStem` — what all stems are like
* `Names.IsRegular` — what all generated names are like

## Main results

* `Names.finds_iff` — the search finds the first name that is free
* `Names.isStem_stem`, `Names.eq_of_candidate_eq` — a name tells the stem of its sequence
* `Names.fresh_first` — a fresh name is the first one of its sequence that is free
-/

namespace Seams

namespace Names

/-! ### Searching without a bound -/

/-- The search in a sequence from a place on. It passes over a number of names that are taken, and
finds the name behind them. -/
inductive Finds (isTaken : String → Bool) (sequence : Nat → String) : Nat → Nat → String → Prop
  | free {place : Nat} (hfree : isTaken (sequence place) = false) :
    Finds isTaken sequence place 0 (sequence place)
  | taken {place passed : Nat} {name : String} (htaken : isTaken (sequence place) = true)
    (more : Finds isTaken sequence (place + 1) passed name) :
    Finds isTaken sequence place (passed + 1) name

section

variable {isTaken : String → Bool} {sequence : Nat → String} {place passed : Nat} {name : String}

/-- **The search finds the first name that is free.** -/
theorem finds_iff : Finds isTaken sequence place passed name ↔
    name = sequence (place + passed) ∧ isTaken name = false ∧
      ∀ i < passed, isTaken (sequence (place + i)) = true := by
  constructor
  · intro h
    induction h with
    | free hfree => exact ⟨rfl, hfree, nofun⟩
    | @taken place passed name htaken more ih =>
      obtain ⟨hname, hfree, hpassed⟩ := ih
      refine ⟨by rw [hname, Nat.add_right_comm, Nat.add_assoc], hfree, fun i hi => ?_⟩
      cases i with
      | zero => exact htaken
      | succ i =>
        rw [← Nat.add_assoc, Nat.add_right_comm]
        exact hpassed i (by omega)
  · rintro ⟨rfl, hfree, hpassed⟩
    induction passed generalizing place with
    | zero => exact .free hfree
    | succ passed ih =>
      have hshift : place + (passed + 1) = place + 1 + passed := by omega
      rw [hshift] at hfree ⊢
      refine .taken (hpassed 0 (by omega)) (ih hfree fun i hi => ?_)
      rw [Nat.add_right_comm, Nat.add_assoc]
      exact hpassed (i + 1) (by omega)

/-- Where a bounded search comes back with a name that is free, the one without a bound does so,
too. -/
theorem finds_firstFree {attempts : Nat}
    (hfree : isTaken (firstFree isTaken sequence attempts place) = false) :
    ∃ passed, Finds isTaken sequence place passed
      (firstFree isTaken sequence attempts place) := by
  induction attempts generalizing place with
  | zero => exact ⟨0, .free hfree⟩
  | succ attempts ih =>
    rw [firstFree] at hfree ⊢
    split at hfree
    · rename_i htaken
      rw [if_pos htaken]
      obtain ⟨passed, hfinds⟩ := ih hfree
      exact ⟨passed + 1, .taken htaken hfinds⟩
    · rename_i hnot
      rw [if_neg hnot]
      exact ⟨0, .free hfree⟩

end

/-! ### Stems -/

/-- The stem of a sequence: it begins with a letter, a digit or `$`, goes on with any characters
that names may have, and does not end in a digit. -/
structure IsStem (stem : List Char) : Prop where
  first : ∃ c rest, stem = c :: rest ∧ (c.isAlphanum = true ∨ c = '$')
  plain : ∀ c ∈ stem, isPlain c = true
  last : stem.rdropWhile Char.isDigit = stem

theorem isPlain_iff {c : Char} :
    isPlain c = true ↔ c = '_' ∨ c.isAlphanum = true ∨ c = '$' := by
  rw [isPlain, Bool.or_eq_true, Bool.or_eq_true, beq_iff_eq, beq_iff_eq, or_right_comm, or_comm]

/-- Whatever a base is, it makes a stem. -/
theorem isStem_stem (base : String) : IsStem (stem base) := by
  let plain := base.toList.map fun c => if isPlain c then c else '_'
  let front := plain.dropWhile (· == '_')
  let stripped := front.rdropWhile Char.isDigit
  have hstem : stem base = if stripped.isEmpty then "temp".toList else stripped := rfl
  have hplain : ∀ c ∈ plain, isPlain c = true := by
    intro c hc
    obtain ⟨d, -, rfl⟩ := List.mem_map.mp hc
    split
    · assumption
    · decide
  have hfront : ∀ c ∈ front, isPlain c = true :=
    fun c hc => hplain c ((List.dropWhile_sublist _).subset hc)
  rw [hstem]
  cases hstripped : stripped with
  | nil =>
    have hall : "temp".toList.all isPlain = true := by decide
    exact ⟨⟨'t', "emp".toList, by decide, .inl (by decide)⟩, List.all_eq_true.mp hall, by decide⟩
  | cons c rest =>
    have hprefix : c :: rest <+: front := hstripped ▸ List.rdropWhile_prefix _ _
    obtain ⟨more, hmore⟩ := hprefix
    have hne : front ≠ [] := by
      rw [← hmore]
      exact List.cons_ne_nil _ _
    -- What stands first is no underscore, since those in front went first.
    have hfirst : c ≠ '_' := by
      have hhead : (front.head hne == '_') = false := List.head_dropWhile_not (· == '_') hne
      simpa only [← hmore, List.cons_append, List.head_cons, beq_eq_false_iff_ne] using hhead
    refine ⟨⟨c, rest, rfl, ?_⟩, fun d hd => ?_, ?_⟩
    · have hc := hfront c (hmore ▸ List.mem_cons_self ..)
      exact (isPlain_iff.mp hc).resolve_left hfirst
    · exact hfront d (hmore ▸ List.mem_append_left _ hd)
    · rw [List.isEmpty_cons, if_neg Bool.false_ne_true, ← hstripped]
      exact List.rdropWhile_idempotent _ _

/-! ### Names of different sequences -/

/-- The number behind a stem is made of digits. -/
theorem isDigit_of_mem_number {place : Nat} {c : Char}
    (hc : c ∈ if place ≤ 1 then [] else Nat.toDigits 10 place) : c.isDigit = true := by
  split at hc
  · cases hc
  · exact Nat.isDigit_of_mem_toDigits (by decide) (by decide) hc

/-- What a name has in front of its last digits is the stem. -/
theorem rdropWhile_candidate {stem : List Char} (h : IsStem stem) (place : Nat) :
    (candidate stem place).toList.rdropWhile Char.isDigit = '_' :: stem := by
  have hdigits : ∀ c ∈ (if place ≤ 1 then [] else Nat.toDigits 10 place).reverse,
      c.isDigit = true := fun c hc => isDigit_of_mem_number (List.mem_reverse.mp hc)
  rw [candidate, String.toList_ofList, List.rdropWhile, List.reverse_append,
    List.dropWhile_append_of_pos hdigits]
  refine List.rdropWhile_eq_self_iff.mpr fun _ => ?_
  obtain ⟨c, rest, hstem, -⟩ := h.first
  have hne : stem ≠ [] := hstem ▸ List.cons_ne_nil _ _
  rw [List.getLast_cons hne]
  exact List.rdropWhile_eq_self_iff.mp h.last hne

/-- **Different sequences share no name.** -/
theorem eq_of_candidate_eq {stem other : List Char} (hstem : IsStem stem) (hother : IsStem other)
    {i j : Nat} (h : candidate stem i = candidate other j) : stem = other := by
  have hcut := congrArg (fun name => name.toList.rdropWhile Char.isDigit) h
  rw [rdropWhile_candidate hstem, rdropWhile_candidate hother] at hcut
  exact (List.cons.inj hcut).2

/-! ### Fresh names -/

/-- A name that begins with an underscore and a letter, a digit or `$`, and goes on with any
characters that names may have. -/
def IsRegular (name : String) : Prop :=
  ∃ first rest, name.toList = '_' :: first :: rest ∧ (first.isAlphanum = true ∨ first = '$') ∧
    ∀ c ∈ rest, isPlain c = true

theorem isRegular_candidate {stem : List Char} (h : IsStem stem) (place : Nat) :
    IsRegular (candidate stem place) := by
  obtain ⟨first, rest, rfl, hfirst⟩ := h.first
  refine ⟨first, _, String.toList_ofList, hfirst, fun c hc => ?_⟩
  rcases List.mem_append.mp hc with hc | hc
  · exact h.plain c (List.mem_cons_of_mem _ hc)
  · simp [isPlain, Char.isAlphanum, isDigit_of_mem_number hc]

/-- **A fresh name is the first one of its sequence that is free.** The search for it comes to an
end, and passes over no more names than are taken. The name is regular, and the sequence that it
stands in shares no name with the sequence of another stem. -/
theorem fresh_first (names : Names) (base : String) :
    (∃ passed ≤ names.taken.dedup.length,
      Finds names.isTaken (candidate (stem base)) 1 passed (names.fresh base).1 ∧
      (names.fresh base).1 = candidate (stem base) (passed + 1) ∧
      names.isTaken (names.fresh base).1 = false ∧
      ∀ place, 1 ≤ place → place ≤ passed →
        names.isTaken (candidate (stem base) place) = true) ∧
    IsRegular (names.fresh base).1 ∧
    ∀ other, stem other ≠ stem base →
      ∀ i j, candidate (stem other) i ≠ candidate (stem base) j := by
  obtain ⟨passed, hfinds⟩ := finds_firstFree (names.isTaken_fresh base)
  obtain ⟨hname, hfree, hpassed⟩ := finds_iff.mp hfinds
  rw [Nat.add_comm] at hname
  have htaken : ∀ place, 1 ≤ place → place ≤ passed →
      names.isTaken (candidate (stem base) place) = true := by
    intro place hfirst hlast
    obtain ⟨i, rfl⟩ := Nat.exists_eq_add_of_le hfirst
    exact hpassed i (by omega)
  refine ⟨⟨passed, le_length_taken htaken, hfinds, hname, hfree, htaken⟩, ?_, ?_⟩
  · exact (show (names.fresh base).1 = _ from hname) ▸ isRegular_candidate (isStem_stem base) _
  · intro other hne i j heq
    exact hne (eq_of_candidate_eq (isStem_stem other) (isStem_stem base) heq)

-- Digits at the end of a base belong to no stem, so this sequence goes on where it meets `_a2`.
example : ((⟨{ references := ["_a", "_a2"] }, []⟩ : Names).fresh "__a-17").1 = "_a_" ∧
    ((⟨{ references := ["_a", "_a2"] }, []⟩ : Names).fresh "a2").1 = "_a3" := by
  decide +kernel

end Names

end Seams
