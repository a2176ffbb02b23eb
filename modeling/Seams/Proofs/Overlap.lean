import Seams.Proofs.Positions

/-!
# When a draft does not render

Rendering walks over sorted edits and compares each of them with what has been used up so far. What
that amounts to is said by the calls alone, two at a time and in whatever order they came: a draft
does not render exactly when one call begins inside what another one replaces, or two of them
replace bytes from one offset on.

## Main definitions

* `Draft.Call.Conflicts` — a call gets in the way of another one
* `Draft.Call.Touches` — a call begins where another one ends, or adds text where that begins

## Main results

* `Draft.splice_ok_iff` — the walk goes through if every edit begins behind those before it
* `Draft.renderBytes_ok_iff` — edits render if they are apart, two by two
* `Draft.overlaps_iff` — a draft overlaps exactly when two of its calls conflict
-/

namespace Seams

namespace Draft.Call

/-- A call replaces bytes, and another one begins inside them, or replaces bytes from the same
offset on. -/
def Conflicts (size : Nat) (call other : Call) : Prop :=
  call.start size < call.stop size ∧
    (call.start size < other.start size ∧ other.start size < call.stop size ∨
      other.start size < other.stop size ∧ other.start size = call.start size)

instance (size : Nat) (call other : Call) : Decidable (call.Conflicts size other) :=
  inferInstanceAs (Decidable (_ ∧ _))

/-- A call begins where another one ends, or adds text where that one begins. -/
def Touches (size : Nat) (call other : Call) : Prop :=
  other.start size = call.stop size ∨
    other.start size = call.start size ∧ other.stop size = other.start size

variable {size : Nat} {call other : Call} {edit mark : Edit}

/-- Calls that merely touch do not conflict. -/
theorem Touches.not_conflicts (h : call.Touches size other)
    (hcall : call.start size ≤ call.stop size) :
    ¬ call.Conflicts size other ∧ ¬ other.Conflicts size call := by
  unfold Touches Conflicts at *
  omega

/-- Calls conflict, this way or that way round, if the edits made for them are not apart. -/
theorem Makes.apart_iff (h : call.Makes size edit) (h' : other.Makes size mark) :
    edit.Apart mark ↔ ¬ call.Conflicts size other ∧ ¬ other.Conflicts size call := by
  have hordered := h.ordered
  have hordered' := h'.ordered
  simp only [Conflicts, h.start, h.stop, h'.start, h'.stop]
  constructor
  · rintro ⟨hleft, hright, hstart⟩
    omega
  · rintro ⟨hleft, hright⟩
    exact ⟨by omega, by omega, by omega⟩

end Draft.Call

namespace Draft

variable {source : List UInt8} {edits : List Edit}

/-! ### The walk over sorted edits -/

/-- **The walk goes through** if no edit begins in what is used up, be it from the start or by an
edit before it. -/
theorem splice_ok_iff {reached : Nat} (hsorted : edits.Pairwise fun a b => a.start ≤ b.start)
    (hordered : ∀ edit ∈ edits, edit.start ≤ edit.stop) :
    (∃ bytes, splice source reached edits = .ok bytes) ↔
      (∀ edit ∈ edits, reached ≤ edit.start) ∧ edits.Pairwise fun a b => a.stop ≤ b.start := by
  induction edits generalizing reached with
  | nil => simp [splice]
  | cons edit rest ih =>
    obtain ⟨hfirst, hrest⟩ := List.pairwise_cons.mp hsorted
    obtain ⟨hedit, hothers⟩ := List.forall_mem_cons.mp hordered
    constructor
    · rintro ⟨bytes, h⟩
      refine ⟨reached_le_start h hsorted, ?_⟩
      rw [splice] at h
      split at h
      · cases h
      · obtain ⟨after, hafter, -⟩ := bind_eq_ok.mp h
        exact List.pairwise_cons.mpr ((ih hrest hothers).mp ⟨after, hafter⟩)
    · rintro ⟨hreached, hfollow⟩
      have hnot : ¬ edit.start < reached := Nat.not_lt.mpr (hreached edit (List.mem_cons_self ..))
      obtain ⟨after, hafter⟩ := (ih hrest hothers).mpr (List.pairwise_cons.mp hfollow)
      exact ⟨_, by rw [splice, if_neg hnot, hafter]; rfl⟩

/-- An edit that begins behind another one is apart from it. -/
theorem apart_of_follow {a b : Edit} (ha : a.start ≤ a.stop) (h : a.stop ≤ b.start) :
    a.Apart b :=
  ⟨by omega, by omega, by omega⟩

/-- **Edits render if they are apart**, two by two, and only then. -/
theorem renderBytes_ok_iff {draft : Draft}
    (hordered : ∀ edit ∈ draft.edits, edit.start ≤ edit.stop) :
    (∃ bytes, draft.renderBytes = .ok bytes) ↔ draft.edits.Pairwise Edit.Apart := by
  have hperm : (draft.edits.mergeSort Edit.precedes).Perm draft.edits := List.mergeSort_perm _ _
  have hordered' : ∀ edit ∈ draft.edits.mergeSort Edit.precedes, edit.start ≤ edit.stop :=
    fun edit hedit => hordered edit (hperm.mem_iff.mp hedit)
  have hsorted : (draft.edits.mergeSort Edit.precedes).Pairwise fun a b => a.precedes b :=
    List.pairwise_mergeSort Edit.precedes_trans Edit.precedes_total _
  rw [renderBytes, splice_ok_iff (sorted_start _) hordered',
    ← hperm.pairwise_iff fun h => Edit.Apart.symm h]
  constructor
  · rintro ⟨-, hfollow⟩
    exact hfollow.imp_of_mem fun ha _ h => apart_of_follow (hordered' _ ha) h
  · intro hapart
    refine ⟨fun _ _ => Nat.zero_le _, (hsorted.and hapart).imp_of_mem ?_⟩
    exact fun _ hb h => h.2.stop_le_start h.1 (hordered' _ hb)

/-! ### Calls that overlap -/

/-- A draft overlaps if its bytes cannot be rendered; whether they read as text does not matter. -/
theorem render_overlap_iff {draft : Draft} :
    (∃ start reached, draft.render = .error (.overlap start reached)) ↔
      ¬ ∃ bytes, draft.renderBytes = .ok bytes := by
  rw [render]
  cases hbytes : draft.renderBytes with
  | error failure =>
    obtain ⟨start, reached, rfl⟩ := splice_error hbytes
    exact iff_of_true ⟨start, reached, rfl⟩ (by simp)
  | ok bytes =>
    refine iff_of_false ?_ (by simp)
    rintro ⟨start, reached, h⟩
    change readText bytes = _ at h
    rw [readText] at h
    cases hread : Text.decode bytes <;> simp [hread, Except.mapError] at h

variable {size : Nat} {calls : List Call}

theorem ordered_of_makes (h : List.Forall₂ (Call.Makes size) calls edits) :
    ∀ call ∈ calls, call.start size ≤ call.stop size := by
  induction h with
  | nil => simp
  | cons hmakes _ ih =>
    refine List.forall_mem_cons.mpr ⟨?_, ih⟩
    have := hmakes.ordered
    rw [hmakes.start, hmakes.stop]
    omega

/-- Edits are apart, two by two, if none of the calls they were made for conflicts with another. -/
theorem pairwise_apart_iff (h : List.Forall₂ (Call.Makes size) calls edits) :
    edits.Pairwise Edit.Apart ↔
      calls.Pairwise fun a b => ¬ a.Conflicts size b ∧ ¬ b.Conflicts size a := by
  induction h with
  | nil => simp
  | @cons call edit calls edits hmakes hrest ih =>
    have hone : (∀ mark ∈ edits, edit.Apart mark) ↔
        ∀ other ∈ calls, ¬ call.Conflicts size other ∧ ¬ other.Conflicts size call := by
      clear ih
      induction hrest with
      | nil => simp
      | cons hmakes' _ ih =>
        rw [List.forall_mem_cons, List.forall_mem_cons, hmakes.apart_iff hmakes', ih]
    rw [List.pairwise_cons, List.pairwise_cons, hone, ih]

/-- Two calls in a list conflict if the list is not free of conflicts between any two of them. -/
theorem exists_conflict_iff :
    ¬ (calls.Pairwise fun a b => ¬ a.Conflicts size b ∧ ¬ b.Conflicts size a) ↔
      ∃ (i j : Nat) (call other : Call), i ≠ j ∧ calls[i]? = some call ∧ calls[j]? = some other ∧
        call.Conflicts size other := by
  rw [List.pairwise_iff_getElem]
  constructor
  · intro h
    simp only [not_forall, not_and_or, not_not] at h
    obtain ⟨i, j, hi, hj, hij, hconflict | hconflict⟩ := h
    · exact ⟨i, j, _, _, Nat.ne_of_lt hij, List.getElem?_eq_getElem hi,
        List.getElem?_eq_getElem hj, hconflict⟩
    · exact ⟨j, i, _, _, Nat.ne_of_gt hij, List.getElem?_eq_getElem hj,
        List.getElem?_eq_getElem hi, hconflict⟩
  · rintro ⟨i, j, call, other, hne, hcall, hother, hconflict⟩ hfree
    obtain ⟨hi, rfl⟩ := List.getElem?_eq_some_iff.mp hcall
    obtain ⟨hj, rfl⟩ := List.getElem?_eq_some_iff.mp hother
    rcases Nat.lt_or_gt_of_ne hne with hij | hji
    · exact (hfree i j hi hj hij).1 hconflict
    · exact (hfree j i hj hi hji).2 hconflict

/-- **A draft overlaps exactly when two of its calls conflict**, in whatever order they came. Calls
that merely touch never conflict. -/
theorem overlaps_iff {draft : Draft} (hcalls : (⟨source, []⟩ : Draft).callAll calls = .ok draft) :
    ((∃ start reached, draft.render = .error (.overlap start reached)) ↔
      ∃ (i j : Nat) (call other : Call), i ≠ j ∧ calls[i]? = some call ∧ calls[j]? = some other ∧
        call.Conflicts source.length other) ∧
    ∀ call ∈ calls, ∀ other ∈ calls, call.Touches source.length other →
      ¬ call.Conflicts source.length other ∧ ¬ other.Conflicts source.length call := by
  obtain ⟨edits, hmakes, -, rfl⟩ := callAll_makes hcalls
  have hordered : ∀ edit ∈ edits, edit.start ≤ edit.stop := by
    intro edit hedit
    obtain ⟨call, -, hcall⟩ := mem_of_makes hmakes hedit
    exact hcall.ordered
  constructor
  · rw [render_overlap_iff, renderBytes_ok_iff (by simpa using hordered), List.nil_append,
      pairwise_apart_iff hmakes, exists_conflict_iff]
  · intro call hcall other _ htouches
    exact htouches.not_conflicts (ordered_of_makes hmakes call hcall)

/-- Two replacements meet in a source, with texts put in at their ends, and a third one, which was
called for last, begins inside the first part. -/
theorem overlaps_iff_late :
    let calls : List Call := [.replace 2 4 "R", .insert 2 "i", .replace 0 2 "L", .prepend 4 "p",
      .replace 1 3 "x"]
    ∃ draft, (⟨Text.encode "abcde", []⟩ : Draft).callAll calls = .ok draft ∧
      ((∃ start reached, draft.render = .error (.overlap start reached)) ↔
        ∃ (i j : Nat) (call other : Call), i ≠ j ∧ calls[i]? = some call ∧
          calls[j]? = some other ∧ call.Conflicts (Text.encode "abcde").length other) ∧
      (∀ call ∈ calls, ∀ other ∈ calls, call.Touches (Text.encode "abcde").length other →
        ¬ call.Conflicts (Text.encode "abcde").length other ∧
          ¬ other.Conflicts (Text.encode "abcde").length call) ∧
      ∃ start reached, draft.render = .error (.overlap start reached) := by
  intro calls
  let edits : List Edit := [⟨2, 4, "R", 1⟩, ⟨2, 2, "i", 2⟩, ⟨0, 2, "L", 3⟩, ⟨4, 4, "p", -4⟩,
    ⟨1, 3, "x", 5⟩]
  have hcalls : (⟨Text.encode "abcde", []⟩ : Draft).callAll calls =
      .ok ⟨Text.encode "abcde", edits⟩ := by decide +kernel
  obtain ⟨hoverlaps, htouches⟩ := overlaps_iff hcalls
  refine ⟨_, hcalls, hoverlaps, htouches, hoverlaps.mpr ⟨2, 4, .replace 0 2 "L", .replace 1 3 "x",
    by decide, rfl, rfl, by decide⟩⟩

end Draft

end Seams
