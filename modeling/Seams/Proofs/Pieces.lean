import Seams.Opening
import Seams.Proofs.Splice

/-!
# The pieces of a rendered draft

A rendered draft is a row of pieces: bytes of the source that stay, and the texts of edits, by
turns. What stands where in the rendered text is said by the order of the pieces, so that two equal
texts are not mistaken for each other.

## Main definitions

* `Piece`, `Draft.pieces` — the pieces of a rendered draft
* `Piece.Chain` — pieces that go through the source
* `Draft.KeptBefore`, `Draft.KeptAfter` — where the source of a node stands

## Main results

* `Draft.renderBytes_eq` — the rendered bytes are those of the pieces, in order
* `Draft.chain_pieces` — the pieces go through the source
* `Draft.made_before_made` — texts of edits stand in the order of rendering
* `Draft.kept_before_made`, `Draft.made_before_kept` — source that no edit touches stands before
  the text of an edit, or after it
* `Draft.KeptBefore.stop_le`, `Draft.precedes_of_made_before_made` — and only so
-/

namespace Seams

/-- A piece of a rendered draft. -/
inductive Piece where
  /-- The bytes of the source from one offset up to another. -/
  | kept (start stop : Nat)
  /-- The text of an edit. -/
  | made (edit : Edit)
  deriving DecidableEq, Repr

/-- The bytes of a piece. -/
def Piece.bytes (source : List UInt8) : Piece → List UInt8
  | kept start stop => Text.slice source start stop
  | made edit => Text.encode edit.text

/-- The edit behind a piece. -/
def Piece.edit? : Piece → Option Edit
  | kept .. => none
  | made edit => some edit

namespace Draft

/-- The pieces that edits make of the source from an offset on. -/
def piecesFrom (size : Nat) : Nat → List Edit → List Piece
  | reached, [] => [.kept reached size]
  | reached, edit :: rest =>
    .kept reached edit.start :: .made edit :: piecesFrom size edit.stop rest

/-- The pieces of a draft, in the order in which they are rendered. -/
def pieces (draft : Draft) : List Piece :=
  piecesFrom draft.source.length 0 (draft.edits.mergeSort Edit.precedes)

/-! ### Rendering pieces -/

theorem splice_eq {source bytes : List UInt8} {reached : Nat} {edits : List Edit}
    (h : splice source reached edits = .ok bytes) :
    bytes = (piecesFrom source.length reached edits).flatMap (Piece.bytes source) := by
  induction edits generalizing reached bytes with
  | nil =>
    obtain rfl : source.drop reached = bytes := by simpa [splice] using h
    simp [piecesFrom, Piece.bytes, Text.slice, List.take_of_length_le]
  | cons edit rest ih =>
    rw [splice] at h
    split at h
    · cases h
    · obtain ⟨after, hafter, h⟩ := bind_eq_ok.mp h
      rw [← Except.ok.inj h, ih hafter, List.append_assoc]
      rfl

/-- **A draft is rendered piece by piece.** -/
theorem renderBytes_eq {draft : Draft} {bytes : List UInt8} (h : draft.renderBytes = .ok bytes) :
    bytes = draft.pieces.flatMap (Piece.bytes draft.source) :=
  splice_eq h

/-! ### Going through the source -/

end Draft

namespace Piece

/-- Where a piece begins in the source. -/
def start : Piece → Nat
  | kept start _ => start
  | made edit => edit.start

/-- Where it ends. -/
def stop : Piece → Nat
  | kept _ stop => stop
  | made edit => edit.stop

/-- Pieces that go through the source from one offset to another: each of them begins where the one
before it ended. -/
def Chain (start stop : Nat) : List Piece → Prop
  | [] => start = stop
  | piece :: rest => piece.start = start ∧ start ≤ piece.stop ∧ Chain piece.stop stop rest

variable {start stop : Nat} {pieces : List Piece}

theorem Chain.le (h : Chain start stop pieces) : start ≤ stop := by
  induction pieces generalizing start with
  | nil => exact Nat.le_of_eq h
  | cons piece rest ih => exact Nat.le_trans h.2.1 (ih h.2.2)

theorem Chain.bounds (h : Chain start stop pieces) {piece : Piece} (hpiece : piece ∈ pieces) :
    start ≤ piece.start ∧ piece.start ≤ piece.stop ∧ piece.stop ≤ stop := by
  induction pieces generalizing start with
  | nil => cases hpiece
  | cons first rest ih =>
    obtain ⟨hstart, hfirst, hrest⟩ := h
    rcases List.mem_cons.mp hpiece with rfl | hpiece
    · have := hrest.le
      omega
    · have := ih hrest hpiece
      omega

/-- A row of pieces can be cut in two. -/
theorem chain_append {front back : List Piece} :
    Chain start stop (front ++ back) ↔
      ∃ middle, Chain start middle front ∧ Chain middle stop back := by
  induction front generalizing start with
  | nil => simp [Chain]
  | cons piece rest ih => simp [Chain, ih, and_assoc]

/-- Every byte on the way is in a piece that is kept, or it has been replaced. -/
theorem Chain.exists_covering (h : Chain start stop pieces) {offset : Nat} (hstart : start ≤ offset)
    (hstop : offset < stop) : ∃ piece ∈ pieces, piece.start ≤ offset ∧ offset < piece.stop := by
  induction pieces generalizing start with
  | nil =>
    have : start = stop := h
    omega
  | cons piece rest ih =>
    obtain ⟨hpiece, -, hrest⟩ := h
    by_cases hreached : offset < piece.stop
    · exact ⟨piece, List.mem_cons_self .., by omega, hreached⟩
    · obtain ⟨other, hother, hcovers⟩ := ih hrest (by omega)
      exact ⟨other, List.mem_cons_of_mem _ hother, hcovers⟩

end Piece

namespace Draft

/-- Edits that can be spliced make pieces that go through the source. -/
theorem chain_piecesFrom {source bytes : List UInt8} {reached : Nat} {edits : List Edit}
    (hordered : ∀ edit ∈ edits, edit.start ≤ edit.stop ∧ edit.stop ≤ source.length)
    (hreached : reached ≤ source.length) (h : splice source reached edits = .ok bytes) :
    Piece.Chain reached source.length (piecesFrom source.length reached edits) := by
  induction edits generalizing reached bytes with
  | nil => exact ⟨rfl, hreached, rfl⟩
  | cons edit rest ih =>
    rw [splice] at h
    split at h
    · cases h
    · rename_i hle
      obtain ⟨after, hafter, -⟩ := bind_eq_ok.mp h
      obtain ⟨hedit, hinside⟩ := hordered edit (List.mem_cons_self ..)
      exact ⟨rfl, Nat.not_lt.mp hle, rfl, hedit,
        ih (fun other hother => hordered other (List.mem_cons_of_mem _ hother)) hinside hafter⟩

/-- **The pieces of a rendered draft go through its source.** -/
theorem chain_pieces {draft : Draft} {bytes : List UInt8} (h : draft.renderBytes = .ok bytes)
    (hordered : ∀ edit ∈ draft.edits, edit.start ≤ edit.stop ∧ edit.stop ≤ draft.source.length) :
    Piece.Chain 0 draft.source.length draft.pieces :=
  chain_piecesFrom (fun edit hedit => hordered edit (List.mem_mergeSort.mp hedit)) (Nat.zero_le _) h

/-- The texts of edits are pieces, in the order of the edits. -/
theorem map_made_sublist (size reached : Nat) (edits : List Edit) :
    (edits.map Piece.made).Sublist (piecesFrom size reached edits) := by
  induction edits generalizing reached with
  | nil => exact List.nil_sublist _
  | cons edit rest ih => exact ((ih edit.stop).cons_cons _).cons _

/-- The text of every edit stands in the rendered text. -/
theorem text_infix {draft : Draft} {bytes : List UInt8} (h : draft.renderBytes = .ok bytes)
    {edit : Edit} (hedit : edit ∈ draft.edits) : Text.encode edit.text <:+: bytes := by
  rw [renderBytes_eq h]
  have hmem : Piece.made edit ∈ draft.pieces :=
    (map_made_sublist _ _ _).subset (List.mem_map_of_mem (List.mem_mergeSort.mpr hedit))
  obtain ⟨front, back, hpieces⟩ := List.append_of_mem hmem
  rw [hpieces, List.flatMap_append, List.flatMap_cons]
  exact ⟨_, _, List.append_assoc _ _ _⟩

/-! ### The order of pieces -/

/-- Of two members of a sorted list, the one that cannot come later comes first. -/
theorem pair_sublist_of_pairwise {α : Type} {r : α → α → Prop} {items : List α}
    (hsorted : items.Pairwise r) {a b : α} (ha : a ∈ items) (hb : b ∈ items) (hne : a ≠ b)
    (hnot : ¬ r b a) : [a, b].Sublist items := by
  induction items with
  | nil => cases ha
  | cons item rest ih =>
    obtain ⟨hitem, hrest⟩ := List.pairwise_cons.mp hsorted
    rcases List.mem_cons.mp ha with rfl | hrestA
    · have hb := (List.mem_cons.mp hb).resolve_left hne.symm
      exact (List.singleton_sublist.mpr hb).cons_cons _
    · rcases List.mem_cons.mp hb with rfl | hb
      · exact absurd (hitem a hrestA) hnot
      · exact (ih hrest hrestA hb).cons _

variable {draft : Draft} {a b : Edit}

/-- The text of an edit stands before that of another one that cannot be rendered earlier. -/
theorem made_before_made (ha : a ∈ draft.edits) (hb : b ∈ draft.edits)
    (hnot : ¬ b.precedes a = true) : [Piece.made a, Piece.made b].Sublist draft.pieces := by
  have hsorted : (draft.edits.mergeSort Edit.precedes).Pairwise fun a b => a.precedes b :=
    List.pairwise_mergeSort Edit.precedes_trans Edit.precedes_total _
  have hne : a ≠ b := by
    rintro rfl
    exact hnot (by simpa using Edit.precedes_total a a)
  have hpair := pair_sublist_of_pairwise hsorted (List.mem_mergeSort.mpr ha)
    (List.mem_mergeSort.mpr hb) hne hnot
  exact (hpair.map Piece.made).trans (map_made_sublist _ _ _)

/-- Source from `start` to `stop` that no edit touches is kept in one piece. -/
theorem exists_kept {size reached start stop : Nat} {edits : List Edit}
    (huntouched : ∀ edit ∈ edits, edit.stop ≤ start ∨ stop ≤ edit.start)
    (hreached : reached ≤ start) (hsize : stop ≤ size) :
    ∃ first last, first ≤ start ∧ stop ≤ last ∧
      Piece.kept first last ∈ piecesFrom size reached edits := by
  induction edits generalizing reached with
  | nil => exact ⟨reached, size, hreached, hsize, List.mem_singleton_self _⟩
  | cons edit rest ih =>
    rcases huntouched edit (List.mem_cons_self ..) with hstop | hstart
    · obtain ⟨first, last, hfirst, hlast, hmem⟩ :=
        ih (fun e he => huntouched e (List.mem_cons_of_mem _ he)) hstop
      exact ⟨first, last, hfirst, hlast, List.mem_cons_of_mem _ (List.mem_cons_of_mem _ hmem)⟩
    · exact ⟨reached, edit.start, hreached, hstart, List.mem_cons_self ..⟩

/-- A nonempty stretch of source that no edit touches and that ends where the text of an edit is put
stands before that text. -/
theorem kept_before_made_from {size reached start stop : Nat} {edits : List Edit}
    (huntouched : ∀ edit ∈ edits, edit.stop ≤ start ∨ stop ≤ edit.start)
    (hreached : reached ≤ start) (hne : start < stop) (ha : a ∈ edits)
    (hordered : a.start ≤ a.stop) (hstop : stop ≤ a.start) :
    ∃ first last, first ≤ start ∧ stop ≤ last ∧
      [Piece.kept first last, Piece.made a].Sublist (piecesFrom size reached edits) := by
  induction edits generalizing reached with
  | nil => cases ha
  | cons edit rest ih =>
    rcases huntouched edit (List.mem_cons_self ..) with hbefore | hafter
    · -- The edit lies before the stretch, so it is not the one that is sought.
      have hrest : a ∈ rest := (List.mem_cons.mp ha).resolve_left (by rintro rfl; omega)
      obtain ⟨first, last, hfirst, hlast, hsub⟩ :=
        ih (fun e he => huntouched e (List.mem_cons_of_mem _ he)) hbefore hrest
      exact ⟨first, last, hfirst, hlast, (hsub.cons _).cons _⟩
    · have hmade : [Piece.made a].Sublist (.made edit :: piecesFrom size edit.stop rest) :=
        (List.singleton_sublist.mpr (List.mem_map_of_mem ha)).trans
          ((map_made_sublist size edit.stop rest).cons_cons _)
      exact ⟨reached, edit.start, hreached, hafter, hmade.cons_cons _⟩

/-- A nonempty stretch of source that no edit touches stands after the text of an edit that is put
where the stretch begins, or earlier. -/
theorem made_before_kept_from {size reached start stop : Nat} {edits : List Edit}
    (huntouched : ∀ edit ∈ edits, edit.stop ≤ start ∨ stop ≤ edit.start)
    (hreached : reached ≤ start) (hne : start < stop) (hsize : stop ≤ size) (ha : a ∈ edits)
    (hordered : a.start ≤ a.stop) (hstart : a.stop ≤ start)
    (hsorted : edits.Pairwise fun a b => a.start ≤ b.start) :
    ∃ first last, first ≤ start ∧ stop ≤ last ∧
      [Piece.made a, Piece.kept first last].Sublist (piecesFrom size reached edits) := by
  induction edits generalizing reached with
  | nil => cases ha
  | cons edit rest ih =>
    obtain ⟨hedit, hsorted⟩ := List.pairwise_cons.mp hsorted
    have huntouchedRest := fun e he => huntouched e (List.mem_cons_of_mem edit he)
    -- An edit that begins no later than this one cannot lie behind the stretch.
    have hbefore : edit.stop ≤ start := by
      have hle : edit.start ≤ a.start := by
        rcases List.mem_cons.mp ha with rfl | ha
        · exact Nat.le_refl _
        · exact hedit a ha
      rcases huntouched edit (List.mem_cons_self ..) with hbefore | hafter
      · exact hbefore
      · omega
    rcases List.mem_cons.mp ha with rfl | hrest
    · obtain ⟨first, last, hfirst, hlast, hmem⟩ := exists_kept huntouchedRest hbefore hsize
      exact ⟨first, last, hfirst, hlast,
        ((List.singleton_sublist.mpr hmem).cons_cons _).cons _⟩
    · obtain ⟨first, last, hfirst, hlast, hsub⟩ := ih huntouchedRest hbefore hrest hsorted
      exact ⟨first, last, hfirst, hlast, (hsub.cons _).cons _⟩

/-- The edits behind the pieces, in order. -/
theorem filterMap_edit? (size reached : Nat) (edits : List Edit) :
    (piecesFrom size reached edits).filterMap Piece.edit? = edits := by
  induction edits generalizing reached with
  | nil => rfl
  | cons edit rest ih => exact congrArg (edit :: ·) (ih edit.stop)

theorem made_mem_piecesFrom {size reached : Nat} {edits : List Edit} :
    Piece.made a ∈ piecesFrom size reached edits ↔ a ∈ edits := by
  induction edits generalizing reached with
  | nil => simp [piecesFrom]
  | cons edit rest ih => simp [piecesFrom, ih]

/-- Source that stands before the text of an edit ends where the text is put, or earlier. -/
theorem stop_le_of_kept_before_made_from {size reached first last : Nat} {edits : List Edit}
    (hsorted : edits.Pairwise fun a b => a.start ≤ b.start)
    (h : [Piece.kept first last, Piece.made a].Sublist (piecesFrom size reached edits)) :
    last ≤ a.start := by
  induction edits generalizing reached with
  | nil =>
    have hlength := h.length_le
    simp [piecesFrom] at hlength
  | cons edit rest ih =>
    obtain ⟨hedit, hsorted⟩ := List.pairwise_cons.mp hsorted
    cases h with
    | cons _ h =>
      cases h with
      | cons _ h => exact ih hsorted h
    | cons_cons _ h =>
      rcases List.mem_cons.mp (List.singleton_sublist.mp h) with heq | hmem
      · exact Nat.le_of_eq (congrArg Edit.start (Piece.made.inj heq).symm)
      · exact hedit a (made_mem_piecesFrom.mp hmem)

/-! ### Where a node stands -/

/-- The source that a node covers is kept, and stands before the text of an edit. -/
def KeptBefore (draft : Draft) (node : Node) (edit : Edit) : Prop :=
  ∃ first last, first ≤ node.start ∧ node.stop ≤ last ∧
    [Piece.kept first last, Piece.made edit].Sublist draft.pieces

/-- The source that a node covers is kept, and stands after the text of an edit. -/
def KeptAfter (draft : Draft) (edit : Edit) (node : Node) : Prop :=
  ∃ first last, first ≤ node.start ∧ node.stop ≤ last ∧
    [Piece.made edit, Piece.kept first last].Sublist draft.pieces

/-- Edits are rendered in the order in which they begin. -/
theorem sorted_start (edits : List Edit) :
    (edits.mergeSort Edit.precedes).Pairwise fun a b => a.start ≤ b.start := by
  have hsorted : (edits.mergeSort Edit.precedes).Pairwise fun a b => a.precedes b :=
    List.pairwise_mergeSort Edit.precedes_trans Edit.precedes_total _
  refine hsorted.imp fun {a b} h => ?_
  rcases Edit.precedes_iff.mp h with hlt | ⟨heq, -⟩
  · exact Nat.le_of_lt hlt
  · exact Nat.le_of_eq heq

section

variable {node : Node} (hne : node.start < node.stop) (ha : a ∈ draft.edits)
  (hordered : a.start ≤ a.stop)
  (huntouched : ∀ edit ∈ draft.edits, edit.stop ≤ node.start ∨ node.stop ≤ edit.start)
include hne ha hordered huntouched

/-- **Source that no edit touches** stands before the text of an edit that is put behind it. -/
theorem kept_before_made (hstop : node.stop ≤ a.start) : draft.KeptBefore node a :=
  kept_before_made_from (fun edit hedit => huntouched edit (List.mem_mergeSort.mp hedit))
    (Nat.zero_le _) hne (List.mem_mergeSort.mpr ha) hordered hstop

/-- It stands after the text of an edit that is put in front of it. -/
theorem made_before_kept (hsize : node.stop ≤ draft.source.length) (hstart : a.stop ≤ node.start) :
    draft.KeptAfter a node :=
  made_before_kept_from (fun edit hedit => huntouched edit (List.mem_mergeSort.mp hedit))
    (Nat.zero_le _) hne hsize (List.mem_mergeSort.mpr ha) hordered hstart (sorted_start _)

end

/-- Only source that ends in front of the text of an edit stands before it. -/
theorem KeptBefore.stop_le {node : Node} (h : draft.KeptBefore node a) : node.stop ≤ a.start := by
  obtain ⟨first, last, -, hlast, hsub⟩ := h
  exact Nat.le_trans hlast (stop_le_of_kept_before_made_from (sorted_start _) hsub)

/-- Only an edit that is rendered no later has its text before that of another. -/
theorem precedes_of_made_before_made
    (h : [Piece.made a, Piece.made b].Sublist draft.pieces) : a.precedes b = true := by
  have hsorted : (draft.edits.mergeSort Edit.precedes).Pairwise fun a b => a.precedes b :=
    List.pairwise_mergeSort Edit.precedes_trans Edit.precedes_total _
  have hpair := h.filterMap Piece.edit?
  rw [pieces, filterMap_edit?] at hpair
  have hboth : [a, b].Pairwise fun a b => a.precedes b := List.Pairwise.sublist hpair hsorted
  simpa using hboth

end Draft

/-- The code of an opened module comes from its draft, if there are edits on it. -/
theorem Workbench.finalCode_bytes {bench : Workbench} {source code : String}
    (h : (bench.finalCode source).result = .ok code) (hedits : bench.draft.edits ≠ []) :
    bench.draft.renderBytes = .ok (Text.encode code) := by
  rw [finalCode, Draft.editCount, if_neg (by simpa using hedits)] at h
  obtain ⟨bytes, hbytes, h⟩ := Traced.bind_ok.mp h
  obtain ⟨_, _, h⟩ := Traced.bind_ok.mp h
  rw [encode_of_readText h]
  exact hbytes

/-- Without edits as well, the code is what the draft renders to. -/
theorem Workbench.finalCode_renders {bench : Workbench} {source code : String}
    (h : (bench.finalCode source).result = .ok code)
    (hsource : bench.draft.source = Text.encode source) :
    bench.draft.renderBytes = .ok (Text.encode code) := by
  by_cases hedits : bench.draft.edits = []
  · rw [finalCode, Draft.editCount, if_pos (by simp [hedits])] at h
    obtain rfl := Except.ok.inj h
    rw [Draft.renderBytes, hedits, hsource, List.mergeSort_nil, Draft.splice, List.drop_zero]
  · exact finalCode_bytes h hedits

end Seams
