import Seams.Draft
import Seams.Proofs.Boundary

/-!
# When edits fit together

Rendering stops when an edit begins in what an earlier one has replaced. Edits are sorted before
they are spliced, so whether that happens does not depend on the order in which they were made:
it is enough that the edits are apart from each other, two by two.

## Main definitions

* `Edit.Apart` — two edits that do not get in each other's way
* `Edit.OnBoundaries` — an edit that splits no character

## Main results

* `Draft.render_of_apart` — a draft renders if its edits are apart and split no character
-/

namespace Seams

namespace Edit

/-- Neither edit begins inside what the other one replaces, and they do not both replace bytes
from one offset on. An insertion may stand at either end of a replacement. -/
structure Apart (a b : Edit) : Prop where
  /-- The second edit does not begin inside the first. -/
  left : ¬ (a.start < b.start ∧ b.start < a.stop)
  /-- The first edit does not begin inside the second. -/
  right : ¬ (b.start < a.start ∧ a.start < b.stop)
  /-- At most one of two edits at one offset is a replacement. -/
  start : a.start = b.start → a.stop ≤ a.start ∨ b.stop ≤ b.start

instance (a b : Edit) : Decidable (Apart a b) :=
  decidable_of_iff
    (¬ (a.start < b.start ∧ b.start < a.stop) ∧ ¬ (b.start < a.start ∧ a.start < b.stop) ∧
      (a.start = b.start → a.stop ≤ a.start ∨ b.stop ≤ b.start))
    ⟨fun h => ⟨h.1, h.2.1, h.2.2⟩, fun h => ⟨h.left, h.right, h.start⟩⟩

theorem Apart.symm {a b : Edit} (h : a.Apart b) : b.Apart a :=
  ⟨h.right, h.left, fun he => (h.start he.symm).symm⟩

/-- An edit whose ends lie between characters of the source. -/
structure OnBoundaries (text : String) (edit : Edit) : Prop where
  ordered : edit.start ≤ edit.stop
  start : Text.IsBoundary text edit.start
  stop : Text.IsBoundary text edit.stop

/-! ### The order of rendering -/

/-- The order of rendering is lexicographic: by offset, insertions ahead, then by rank. -/
theorem precedes_iff {a b : Edit} :
    a.precedes b = true ↔ a.start < b.start ∨ a.start = b.start ∧
      (a.isInsertion = true ∧ b.isInsertion = false ∨
        a.isInsertion = b.isInsertion ∧ a.order ≤ b.order) := by
  rw [precedes]
  by_cases hstart : a.start = b.start
  · cases ha : a.isInsertion <;> cases hb : b.isInsertion <;> simp [hstart]
  · simp [hstart]

theorem precedes_total (a b : Edit) : a.precedes b || b.precedes a := by
  simp only [Bool.or_eq_true, precedes_iff]
  cases a.isInsertion <;> cases b.isInsertion <;> simp <;> omega

theorem precedes_trans (a b c : Edit) (hab : a.precedes b) (hbc : b.precedes c) :
    a.precedes c := by
  rw [precedes_iff] at *
  cases ha : a.isInsertion <;> cases hb : b.isInsertion <;> cases hc : c.isInsertion <;>
    simp [ha, hb, hc] at * <;> omega

/-- Of two edits that are apart, the one that is rendered first ends before the other begins. -/
theorem Apart.stop_le_start {a b : Edit} (h : a.Apart b) (hab : a.precedes b)
    (hb : b.start ≤ b.stop) : a.stop ≤ b.start := by
  have hleft := h.left
  rcases precedes_iff.mp hab with hlt | ⟨heq, hrank⟩
  · omega
  · rcases h.start heq with hins | hins
    · omega
    · -- The other edit is an insertion, so this one can be first only as an insertion as well.
      have hb' : b.isInsertion = true := by
        simp only [isInsertion, beq_iff_eq]
        exact Nat.le_antisymm hb hins
      have ha' : a.isInsertion = true := by
        rcases hrank with ⟨ha, -⟩ | ⟨ha, -⟩
        · exact ha
        · rw [ha, hb']
      simp only [isInsertion, beq_iff_eq] at ha'
      omega

end Edit

namespace Draft

/-! ### Rendering -/

/-- Edits that follow each other splice into a text. -/
theorem splice_of_follow {text : String} {reached : Nat} {edits : List Edit}
    (hreached : Text.IsBoundary text reached)
    (hbounds : ∀ edit ∈ edits, edit.OnBoundaries text)
    (hstart : ∀ edit ∈ edits, reached ≤ edit.start)
    (hfollow : edits.Pairwise fun a b => a.stop ≤ b.start) :
    ∃ code, splice (Text.encode text) reached edits = .ok (Text.encode code) := by
  induction edits generalizing reached with
  | nil =>
    obtain ⟨piece, hpiece⟩ := Text.drop_encode hreached
    exact ⟨piece, by rw [splice, hpiece]⟩
  | cons edit rest ih =>
    have hedit := hbounds edit (List.mem_cons_self ..)
    have hle := hstart edit (List.mem_cons_self ..)
    rw [List.pairwise_cons] at hfollow
    obtain ⟨after, hafter⟩ := ih hedit.stop (fun e he => hbounds e (List.mem_cons_of_mem _ he))
      hfollow.1 hfollow.2
    obtain ⟨piece, hpiece⟩ := Text.slice_encode hreached hedit.start hle
    refine ⟨piece ++ edit.text ++ after, ?_⟩
    rw [splice, if_neg (Nat.not_lt.mpr hle), hafter, hpiece, Text.encode_append,
      Text.encode_append]
    rfl

/-- **Edits that are apart render.** The draft of a text renders to a text if its edits are apart
from each other and split no character. -/
theorem render_of_apart {draft : Draft} {text : String} (hsource : draft.source = Text.encode text)
    (hbounds : ∀ edit ∈ draft.edits, edit.OnBoundaries text)
    (hapart : draft.edits.Pairwise Edit.Apart) :
    ∃ code, draft.renderBytes = .ok (Text.encode code) := by
  have hperm : (draft.edits.mergeSort Edit.precedes).Perm draft.edits := List.mergeSort_perm _ _
  have hsorted : (draft.edits.mergeSort Edit.precedes).Pairwise fun a b => a.precedes b :=
    List.pairwise_mergeSort Edit.precedes_trans Edit.precedes_total _
  have happ : (draft.edits.mergeSort Edit.precedes).Pairwise Edit.Apart :=
    (hperm.pairwise_iff fun h => h.symm).mpr hapart
  have hmem : ∀ edit ∈ draft.edits.mergeSort Edit.precedes, edit.OnBoundaries text :=
    fun edit hedit => hbounds edit (hperm.mem_iff.mp hedit)
  rw [renderBytes, hsource]
  refine splice_of_follow (Text.isBoundary_zero text) hmem (fun _ _ => Nat.zero_le _) ?_
  refine (hsorted.and happ).imp_of_mem ?_
  intro _ _ _ hb h
  exact h.2.stop_le_start h.1 (hmem _ hb).ordered

end Draft

end Seams
