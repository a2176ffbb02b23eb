import Mathlib.Data.List.Forall2
import Mathlib.Data.List.Nodup
import Seams.Proofs.Pieces

/-!
# A draft position by position

Rendering sorts edits and walks over the source once. What comes of it can be said without an
order of edits and without a walk: go through the offsets of the source, and at each one write the
texts that were prepended there, the latest first, then the texts that were inserted there, as they
came, and then the replacement that begins there, or else the byte, unless a replacement covers it.

Said this way it does not depend on what the source is made of: the same description, with another
way to write down a text, tells what the calls make of a list of characters.

## Main definitions

* `Draft.Call`, `Draft.callAll` — calls for edits, and the draft after them
* `Draft.addedAt`, `Draft.contentAt`, `Draft.spliced` — what calls make of a source of any units,
  offset by offset

## Main results

* `Draft.callAll_makes` — the edits that calls make, and their ranks
* `Draft.filter_mergeSort` — edits at one offset are rendered by their calls
* `Draft.splice_eq_rendered` — the walk over sorted edits goes through the offsets
* `Draft.render_eq_spliced` — so a draft is rendered position by position
-/

namespace Seams

/-! ### Calls -/

/-- A call for an edit. -/
inductive Draft.Call where
  | replace (start stop : Int) (text : String)
  | insert (offset : Int) (text : String)
  | prepend (offset : Int) (text : String)
  | append (text : String)
  deriving DecidableEq, Repr

namespace Draft.Call

/-- Where the call begins to change a source of a given size. -/
def start (size : Nat) : Call → Int
  | replace start .. => start
  | insert offset _ | prepend offset _ => offset
  | append _ => size

/-- Where it ends. -/
def stop (size : Nat) : Call → Int
  | replace _ stop _ => stop
  | insert offset _ | prepend offset _ => offset
  | append _ => size

/-- The text that it puts there. -/
def text : Call → String
  | replace _ _ text | insert _ text | prepend _ text | append text => text

/-- Whether it puts text ahead of what was inserted before. -/
def isPrepend : Call → Bool
  | prepend .. => true
  | _ => false

/-- Whether it adds text at an offset and takes nothing away. -/
def insertsAt (size offset : Nat) (call : Call) : Bool :=
  call.start size = offset && call.stop size = offset

/-- Whether it replaces bytes from an offset on. -/
def replacesFrom (size offset : Nat) (call : Call) : Bool :=
  call.start size = offset && offset < call.stop size

/-- Whether it replaces the byte at an offset. -/
def covers (size offset : Nat) (call : Call) : Bool :=
  call.start size ≤ offset && offset < call.stop size

end Draft.Call

namespace Draft

/-- Make the edit that is called for. -/
def call (draft : Draft) : Call → Except Failure Draft
  | .replace start stop text => draft.replace start stop text
  | .insert offset text => draft.insert offset text
  | .prepend offset text => draft.prepend offset text
  | .append text => draft.append text

/-- Make edits in turn. -/
def callAll (draft : Draft) : List Call → Except Failure Draft
  | [] => .ok draft
  | call :: rest => do (← draft.call call).callAll rest

/-! ### What calls make of a source -/

/-- The calls that add text at an offset: those that prepend, the latest first, and then the
others, as they came. -/
def addedAt (size : Nat) (calls : List Call) (offset : Nat) : List Call :=
  (calls.filter fun call => call.insertsAt size offset && call.isPrepend).reverse ++
    calls.filter fun call => call.insertsAt size offset && !call.isPrepend

section

variable {α : Type} (write : String → List α) (source : List α) (calls : List Call)

/-- What comes of the unit at an offset: the replacement that begins there, nothing if a replacement
covers it, and otherwise the unit itself. At the end there is no unit. -/
def contentAt (offset : Nat) : List α :=
  match calls.find? (Call.replacesFrom source.length offset) with
  | some call => write call.text
  | none => if calls.any (Call.covers source.length offset) then [] else source[offset]?.toList

/-- Of the call that replaces a unit only the text matters. -/
theorem contentAt_eq (offset : Nat) : contentAt write source calls offset =
    match (calls.find? (Call.replacesFrom source.length offset)).map Call.text with
    | some new => write new
    | none =>
      if calls.any (Call.covers source.length offset) then [] else source[offset]?.toList := by
  rw [contentAt]
  cases calls.find? (Call.replacesFrom source.length offset) <;> rfl

/-- What stands at an offset of a source after some calls. -/
def splicedAt (offset : Nat) : List α :=
  ((addedAt source.length calls offset).flatMap fun call => write call.text) ++
    contentAt write source calls offset

/-- A source after some calls, offset by offset. Their texts are written in its units. -/
def spliced : List α :=
  (List.range (source.length + 1)).flatMap (splicedAt write source calls)

end

/-! ### The edits that calls make -/

/-- An edit that is made for a call. The edits that prepend are those of negative rank. -/
structure Call.Makes (size : Nat) (call : Call) (edit : Edit) : Prop where
  start : call.start size = edit.start
  stop : call.stop size = edit.stop
  text : call.text = edit.text
  prepend : call.isPrepend = decide (edit.order < 0)
  ordered : edit.start ≤ edit.stop
  inside : edit.stop ≤ size

theorem replace_makes {draft next : Draft} {start stop : Int} {text : String}
    (h : draft.replace start stop text = .ok next) :
    0 ≤ start ∧ start ≤ stop ∧ stop ≤ draft.source.length ∧ next = { draft with
      edits := draft.edits ++ [⟨start.toNat, stop.toNat, text, draft.nextOrder⟩] } := by
  rw [replace] at h
  split at h
  · rename_i hrange
    exact ⟨hrange.1, hrange.2.1, hrange.2.2, (Except.ok.inj h).symm⟩
  · cases h

/-- A call that is accepted makes one edit more, with the next rank. -/
theorem call_makes {draft next : Draft} {call : Call} (h : draft.call call = .ok next) :
    ∃ edit, call.Makes draft.source.length edit ∧
      edit.order.natAbs = draft.edits.length + 1 ∧
      next = { draft with edits := draft.edits ++ [edit] } := by
  have hrank : ¬ draft.nextOrder < 0 := by
    simp only [nextOrder]
    omega
  have hnatAbs : draft.nextOrder.natAbs = draft.edits.length + 1 := by
    simp only [nextOrder]
    omega
  cases call with
  | replace start stop text =>
    obtain ⟨hstart, hle, hstop, rfl⟩ := replace_makes h
    refine ⟨_, ⟨?_, ?_, rfl, by simpa [Call.isPrepend] using hrank, ?_, ?_⟩, hnatAbs, rfl⟩ <;>
      simp only [Call.start, Call.stop] <;> omega
  | insert offset text =>
    obtain ⟨hstart, hle, hstop, rfl⟩ := replace_makes h
    refine ⟨_, ⟨?_, ?_, rfl, by simpa [Call.isPrepend] using hrank, ?_, ?_⟩, hnatAbs, rfl⟩ <;>
      simp only [Call.start, Call.stop] <;> omega
  | append text =>
    obtain ⟨hstart, hle, hstop, rfl⟩ := replace_makes h
    refine ⟨_, ⟨?_, ?_, rfl, by simpa [Call.isPrepend] using hrank, ?_, ?_⟩, hnatAbs, rfl⟩ <;>
      simp only [Call.start, Call.stop] <;> omega
  | prepend offset text =>
    rw [Draft.call, prepend] at h
    split at h
    · have hnegative : -draft.nextOrder < 0 := by
        simp only [nextOrder]
        omega
      refine ⟨⟨offset.toNat, offset.toNat, text, -draft.nextOrder⟩,
        ⟨?_, ?_, rfl, (decide_eq_true hnegative).symm, ?_, ?_⟩,
        (Int.natAbs_neg _).trans hnatAbs, (Except.ok.inj h).symm⟩ <;>
        simp only [Call.start, Call.stop] <;> omega
    · cases h

/-- **Calls that are accepted** make one edit each, with ranks that count the calls. -/
theorem callAll_makes {draft next : Draft} {calls : List Call}
    (h : draft.callAll calls = .ok next) :
    ∃ edits, List.Forall₂ (Call.Makes draft.source.length) calls edits ∧
      edits.map (fun edit => edit.order.natAbs) =
        List.range' (draft.edits.length + 1) edits.length ∧
      next = { draft with edits := draft.edits ++ edits } := by
  induction calls generalizing draft with
  | nil =>
    obtain rfl := Except.ok.inj h
    exact ⟨[], .nil, rfl, by simp⟩
  | cons call rest ih =>
    obtain ⟨first, hfirst, h⟩ := bind_eq_ok.mp h
    obtain ⟨edit, hedit, hrank, rfl⟩ := call_makes hfirst
    obtain ⟨edits, hedits, hranks, rfl⟩ := ih h
    refine ⟨edit :: edits, .cons hedit hedits, ?_, by simp⟩
    simp only [List.length_append, List.length_cons, List.length_nil] at hranks
    simp [hrank, hranks, List.range'_succ]

/-- Calls can be made in two runs. -/
theorem callAll_append {draft last : Draft} {front back : List Call} :
    draft.callAll (front ++ back) = .ok last ↔
      ∃ next, draft.callAll front = .ok next ∧ next.callAll back = .ok last := by
  induction front generalizing draft with
  | nil =>
    constructor
    · exact fun h => ⟨draft, rfl, h⟩
    · rintro ⟨next, hnext, h⟩
      obtain rfl : draft = next := Except.ok.inj hnext
      exact h
  | cons call rest ih =>
    constructor
    · intro h
      obtain ⟨first, hfirst, h⟩ := bind_eq_ok.mp h
      obtain ⟨next, hnext, h⟩ := ih.mp h
      exact ⟨next, bind_eq_ok.mpr ⟨first, hfirst, hnext⟩, h⟩
    · rintro ⟨next, hnext, h⟩
      obtain ⟨first, hfirst, hnext⟩ := bind_eq_ok.mp hnext
      exact bind_eq_ok.mpr ⟨first, hfirst, ih.mpr ⟨next, hnext, h⟩⟩

theorem callAll_singleton {draft last : Draft} {call : Call} :
    draft.callAll [call] = .ok last ↔ draft.call call = .ok last := by
  constructor
  · intro h
    obtain ⟨next, hnext, h⟩ := bind_eq_ok.mp h
    obtain rfl : next = last := Except.ok.inj h
    exact hnext
  · exact fun h => bind_eq_ok.mpr ⟨last, h, rfl⟩

/-! ### The order at one offset -/

variable {edits : List Edit}

theorem ranks_pairwise {count : Nat}
    (h : edits.map (fun edit => edit.order.natAbs) = List.range' count edits.length) :
    edits.Pairwise fun a b => a.order.natAbs < b.order.natAbs := by
  rw [← List.pairwise_map (f := fun edit : Edit => edit.order.natAbs), h]
  exact List.pairwise_lt_range'

/-- No two edits have the same rank. -/
theorem eq_of_order_eq (hranks : edits.Pairwise fun a b => a.order.natAbs < b.order.natAbs)
    {a b : Edit} (ha : a ∈ edits) (hb : b ∈ edits) (h : a.order = b.order) : a = b := by
  have hnodup : (edits.map fun edit => edit.order.natAbs).Nodup := by
    rw [List.nodup_iff_pairwise_ne, List.pairwise_map]
    exact hranks.imp Nat.ne_of_lt
  exact List.inj_on_of_nodup_map hnodup ha hb (congrArg Int.natAbs h)

/-- Of edits that have ranks of their own, there is one order of rendering. -/
theorem eq_of_sorted (hranks : edits.Pairwise fun a b => a.order.natAbs < b.order.natAbs)
    {first second : List Edit} (hfirst : first.Pairwise fun a b => a.precedes b)
    (hsecond : second.Pairwise fun a b => a.precedes b) (hsubset : ∀ edit ∈ first, edit ∈ edits)
    (hperm : first.Perm second) : first = second := by
  refine List.Perm.eq_of_pairwise (fun a b ha hb hab hba => ?_) hfirst hsecond hperm
  refine eq_of_order_eq hranks (hsubset a ha) (hsubset b (hperm.mem_iff.mpr hb)) ?_
  rw [Edit.precedes_iff] at hab hba
  rcases hab with hab | ⟨hstart, hab⟩ <;> rcases hba with hba | ⟨hstart', hba⟩
  · omega
  · omega
  · omega
  · cases ha : a.isInsertion <;> cases hb : b.isInsertion <;> simp [ha, hb] at hab hba <;> omega

/-- **Edits that only their ranks tell apart** are rendered by their calls: those of negative rank
in reverse, and then the others. -/
theorem filter_mergeSort (hranks : edits.Pairwise fun a b => a.order.natAbs < b.order.natAbs)
    {p : Edit → Bool} (hp : ∀ a b, p a → p b → a.order ≤ b.order → a.precedes b) :
    (edits.mergeSort Edit.precedes).filter p =
      (edits.filter fun edit => p edit && edit.order < 0).reverse ++
        edits.filter fun edit => p edit && !(edit.order < 0) := by
  have hsorted : (edits.mergeSort Edit.precedes).Pairwise fun a b => a.precedes b :=
    List.pairwise_mergeSort Edit.precedes_trans Edit.precedes_total _
  have hperm : (edits.mergeSort Edit.precedes).Perm edits := List.mergeSort_perm _ _
  refine eq_of_sorted hranks (hsorted.filter p) ?_ (fun edit hedit => ?_) ?_
  · rw [List.pairwise_append, List.pairwise_reverse]
    refine ⟨?_, ?_, fun a ha b hb => ?_⟩
    · refine (hranks.filter _).imp_of_mem fun {a b} ha hb hab => ?_
      simp only [List.mem_filter, Bool.and_eq_true, decide_eq_true_eq] at ha hb
      exact hp b a hb.2.1 ha.2.1 (by omega)
    · refine (hranks.filter _).imp_of_mem fun {a b} ha hb hab => ?_
      simp only [List.mem_filter, Bool.and_eq_true, Bool.not_eq_true', decide_eq_false_iff_not]
        at ha hb
      exact hp a b ha.2.1 hb.2.1 (by omega)
    · simp only [List.mem_reverse, List.mem_filter, Bool.and_eq_true, Bool.not_eq_true',
        decide_eq_true_eq, decide_eq_false_iff_not] at ha hb
      exact hp a b ha.2.1 hb.2.1 (by omega)
  · exact hperm.mem_iff.mp (List.mem_filter.mp hedit).1
  · refine (hperm.filter p).trans
      (.symm ((List.Perm.append_right _ (List.reverse_perm _)).trans ?_))
    have hparts := List.filter_append_perm (fun edit => decide (edit.order < 0)) (edits.filter p)
    simpa only [List.filter_filter, Bool.and_comm] using hparts

/-! ### The walk over sorted edits -/

/-- What edits in the order of rendering make of the byte at an offset, and of what is in front of
it. -/
def renderedAt (source : List UInt8) (edits : List Edit) (offset : Nat) : List UInt8 :=
  ((edits.filter fun edit => edit.start = offset && edit.isInsertion).flatMap
      fun edit => Text.encode edit.text) ++
    match edits.find? fun edit => edit.start = offset && !edit.isInsertion with
    | some edit => Text.encode edit.text
    | none =>
      if edits.any fun edit => edit.start ≤ offset && offset < edit.stop then []
      else source[offset]?.toList

/-- Where no edit begins, and none before it reaches, there stands the byte of the source. -/
theorem renderedAt_of_lt {source : List UInt8} {offset : Nat}
    (h : ∀ edit ∈ edits, offset < edit.start) :
    renderedAt source edits offset = source[offset]?.toList := by
  have hfilter : (edits.filter fun edit => edit.start = offset && edit.isInsertion) = [] := by
    refine List.filter_eq_nil_iff.mpr fun edit hedit => ?_
    have := h edit hedit
    simp only [Bool.and_eq_true, decide_eq_true_eq]
    omega
  have hfind : (edits.find? fun edit => edit.start = offset && !edit.isInsertion) = none := by
    refine List.find?_eq_none.mpr fun edit hedit => ?_
    have := h edit hedit
    simp only [Bool.and_eq_true, decide_eq_true_eq]
    omega
  have hany : (edits.any fun edit => edit.start ≤ offset && offset < edit.stop) = false := by
    refine List.any_eq_false.mpr fun edit hedit => ?_
    have := h edit hedit
    simp only [Bool.and_eq_true, decide_eq_true_eq]
    omega
  rw [renderedAt, hfilter, hfind, hany]
  rfl

/-- An insertion stands at its offset. -/
theorem renderedAt_insertion {source : List UInt8} {edit : Edit}
    (h : edit.stop = edit.start) :
    renderedAt source (edit :: edits) edit.start =
      Text.encode edit.text ++ renderedAt source edits edit.start := by
  simp [renderedAt, Edit.isInsertion, h]

/-- Behind an edit, only the other edits matter. -/
theorem renderedAt_behind {source : List UInt8} {edit : Edit} {offset : Nat}
    (hstart : edit.start < offset) (hstop : edit.stop ≤ offset) :
    renderedAt source (edit :: edits) offset = renderedAt source edits offset := by
  have hne : edit.start ≠ offset := by omega
  have hout : ¬ offset < edit.stop := by omega
  simp [renderedAt, hne, hout]

/-- A replacement stands at the offset where it begins, if all other edits are behind it. -/
theorem renderedAt_replacement {source : List UInt8} {edit : Edit}
    (hlt : edit.start < edit.stop) (h : ∀ other ∈ edits, edit.stop ≤ other.start) :
    renderedAt source (edit :: edits) edit.start = Text.encode edit.text := by
  have hins : edit.isInsertion = false := by
    simp only [Edit.isInsertion, beq_eq_false_iff_ne]
    omega
  have hfilter : (edits.filter fun other => other.start = edit.start && other.isInsertion) =
      [] := by
    refine List.filter_eq_nil_iff.mpr fun other hother => ?_
    have := h other hother
    simp only [Bool.and_eq_true, decide_eq_true_eq]
    omega
  simp [renderedAt, hins, hfilter]

/-- The rest of what it replaces gives way to nothing. -/
theorem renderedAt_covered {source : List UInt8} {edit : Edit} {offset : Nat}
    (hstart : edit.start < offset) (hstop : offset < edit.stop)
    (h : ∀ other ∈ edits, edit.stop ≤ other.start) :
    renderedAt source (edit :: edits) offset = [] := by
  have hne : edit.start ≠ offset := by omega
  have hin : edit.start ≤ offset := by omega
  have hfilter : (edits.filter fun other => other.start = offset && other.isInsertion) = [] := by
    refine List.filter_eq_nil_iff.mpr fun other hother => ?_
    have := h other hother
    simp only [Bool.and_eq_true, decide_eq_true_eq]
    omega
  have hfind : (edits.find? fun other => other.start = offset && !other.isInsertion) = none := by
    refine List.find?_eq_none.mpr fun other hother => ?_
    have := h other hother
    simp only [Bool.and_eq_true, decide_eq_true_eq]
    omega
  simp [renderedAt, hne, hin, hstop, hfilter, hfind]

/-- The bytes of a source from an offset on, one by one. -/
theorem flatMap_getElem? (source : List UInt8) (start count : Nat) :
    (List.range' start count).flatMap (fun offset => source[offset]?.toList) =
      Text.slice source start (start + count) := by
  induction count generalizing start with
  | zero => simp [Text.slice]
  | succ count ih =>
    rw [List.range'_succ, List.flatMap_cons, ih (start + 1), Text.slice, Text.slice]
    cases hbyte : source[start]? with
    | none =>
      have hlength := List.getElem?_eq_none_iff.mp hbyte
      rw [List.drop_eq_nil_of_le (Nat.le_succ_of_le hlength), List.drop_eq_nil_of_le hlength]
      simp
    | some byte =>
      obtain ⟨hlength, rfl⟩ := List.getElem?_eq_some_iff.mp hbyte
      rw [List.drop_eq_getElem_cons hlength]
      have hcount : start + (count + 1) - start = count + 1 := by omega
      have hrest : start + 1 + count - (start + 1) = count := by omega
      rw [hcount, hrest, List.take_succ_cons]
      rfl

theorem range'_split {start middle stop : Nat} (hstart : start ≤ middle) (hstop : middle ≤ stop) :
    List.range' start (stop - start) =
      List.range' start (middle - start) ++ List.range' middle (stop - middle) := by
  have hmiddle : start + (middle - start) = middle := by omega
  have happend := List.range'_append_1 (s := start) (m := middle - start) (n := stop - middle)
  rw [hmiddle] at happend
  rw [happend]
  congr 1
  omega

/-- Edits that are spliced do not begin in what has been used up. -/
theorem reached_le_start {source bytes : List UInt8} {reached : Nat}
    (h : splice source reached edits = .ok bytes)
    (hsorted : edits.Pairwise fun a b => a.start ≤ b.start) :
    ∀ edit ∈ edits, reached ≤ edit.start := by
  cases edits with
  | nil => exact fun _ hedit => absurd hedit List.not_mem_nil
  | cons first rest =>
    rw [splice] at h
    split at h
    · cases h
    · rename_i hreached
      obtain ⟨hfirst, -⟩ := List.pairwise_cons.mp hsorted
      intro edit hedit
      rcases List.mem_cons.mp hedit with rfl | hedit
      · omega
      · have := hfirst edit hedit
        omega

/-- From an edit on, there stands its text, and then what the other edits make of the rest. -/
theorem rendered_cons {source : List UInt8} {edit : Edit} (hordered : edit.start ≤ edit.stop)
    (hinside : edit.stop ≤ source.length) (h : ∀ other ∈ edits, edit.stop ≤ other.start) :
    (List.range' edit.start (source.length + 1 - edit.start)).flatMap
        (renderedAt source (edit :: edits)) =
      Text.encode edit.text ++
        (List.range' edit.stop (source.length + 1 - edit.stop)).flatMap
          (renderedAt source edits) := by
  -- Behind the edit, its own offset apart, it plays no part any more.
  have hbehind : ∀ offset ∈ List.range' (max edit.stop (edit.start + 1))
      (source.length + 1 - max edit.stop (edit.start + 1)),
      renderedAt source (edit :: edits) offset = renderedAt source edits offset := by
    intro offset hoffset
    have := (List.mem_range'_1.mp hoffset).1
    exact renderedAt_behind (by omega) (by omega)
  rcases Nat.eq_or_lt_of_le hordered with heq | hlt
  · have hsize : source.length + 1 - edit.start = source.length - edit.start + 1 := by omega
    have hmax : max edit.stop (edit.start + 1) = edit.start + 1 := by omega
    rw [hmax, Nat.add_sub_add_right] at hbehind
    rw [← heq, hsize, List.range'_succ, List.flatMap_cons, List.flatMap_cons,
      renderedAt_insertion heq.symm, List.append_assoc, List.flatMap_congr hbehind]
  · have hmax : max edit.stop (edit.start + 1) = edit.stop := by omega
    rw [hmax] at hbehind
    have hcovered : (List.range' (edit.start + 1) (edit.stop - (edit.start + 1))).flatMap
        (renderedAt source (edit :: edits)) = [] := by
      refine List.flatMap_eq_nil_iff.mpr fun offset hoffset => ?_
      have := List.mem_range'_1.mp hoffset
      exact renderedAt_covered (by omega) (by omega) h
    have hsize : source.length + 1 - edit.start =
        source.length + 1 - (edit.start + 1) + 1 := by omega
    have hstop : edit.stop ≤ source.length + 1 := by omega
    have hsplit := range'_split (Nat.succ_le_of_lt hlt) hstop
    rw [Nat.succ_eq_add_one] at hsplit
    rw [hsize, List.range'_succ, List.flatMap_cons, renderedAt_replacement hlt h, hsplit,
      List.flatMap_append, hcovered, List.nil_append, List.flatMap_congr hbehind]

/-- **The walk over sorted edits goes through the offsets.** -/
theorem splice_eq_rendered {source bytes : List UInt8} {reached : Nat}
    (hordered : ∀ edit ∈ edits, edit.start ≤ edit.stop ∧ edit.stop ≤ source.length)
    (hsorted : edits.Pairwise fun a b => a.start ≤ b.start) (hreached : reached ≤ source.length)
    (h : splice source reached edits = .ok bytes) :
    bytes = (List.range' reached (source.length + 1 - reached)).flatMap
      (renderedAt source edits) := by
  induction edits generalizing reached bytes with
  | nil =>
    obtain rfl : source.drop reached = bytes := by simpa [splice] using h
    have hplain : renderedAt source [] = fun offset => source[offset]?.toList :=
      funext fun offset => renderedAt_of_lt (List.forall_mem_nil _)
    rw [hplain, flatMap_getElem?, Text.slice, List.take_of_length_le]
    rw [List.length_drop]
    omega
  | cons edit rest ih =>
    obtain ⟨hedit, hinside⟩ := hordered edit (List.mem_cons_self ..)
    have hreachedEdit := reached_le_start h hsorted edit (List.mem_cons_self ..)
    rw [splice, if_neg (Nat.not_lt.mpr hreachedEdit)] at h
    obtain ⟨after, hafter, h⟩ := bind_eq_ok.mp h
    obtain ⟨hfirst, hrest⟩ := List.pairwise_cons.mp hsorted
    have hfront : ∀ offset ∈ List.range' reached (edit.start - reached),
        renderedAt source (edit :: rest) offset = source[offset]?.toList := by
      intro offset hoffset
      have := List.mem_range'_1.mp hoffset
      refine renderedAt_of_lt fun other hother => ?_
      rcases List.mem_cons.mp hother with rfl | hother
      · omega
      · have := hfirst other hother
        omega
    have hslice : reached + (edit.start - reached) = edit.start := by omega
    rw [← Except.ok.inj h, range'_split hreachedEdit (by omega), List.flatMap_append,
      List.flatMap_congr hfront, flatMap_getElem?, hslice,
      rendered_cons hedit hinside (reached_le_start hafter hrest),
      ih (fun other hother => hordered other (List.mem_cons_of_mem _ hother)) hrest hinside hafter,
      List.append_assoc]

/-! ### From calls to edits -/

section

variable {source : List UInt8} {calls : List Call}

theorem mem_of_makes {size : Nat} (h : List.Forall₂ (Call.Makes size) calls edits) {edit : Edit}
    (hedit : edit ∈ edits) : ∃ call ∈ calls, call.Makes size edit := by
  induction h with
  | nil => cases hedit
  | @cons call other calls edits hmakes _ ih =>
    rcases List.mem_cons.mp hedit with rfl | hedit
    · exact ⟨call, List.mem_cons_self .., hmakes⟩
    · obtain ⟨later, hlater, hmakes⟩ := ih hedit
      exact ⟨later, List.mem_cons_of_mem _ hlater, hmakes⟩

/-- Only what adds text is put ahead. -/
theorem Call.Makes.isInsertion_of_neg {size : Nat} {call : Call} {edit : Edit}
    (h : call.Makes size edit) (hneg : edit.order < 0) : edit.isInsertion = true := by
  have hprepend : call.isPrepend = true := h.prepend.trans (decide_eq_true hneg)
  have hstart := h.start
  have hstop := h.stop
  cases call with
  | prepend offset text =>
    simp only [Call.start, Call.stop] at hstart hstop
    simp only [Edit.isInsertion, beq_iff_eq]
    omega
  | replace | insert | append => cases hprepend

/-- Calls and edits that correspond put down the same texts. -/
theorem flatMap_text_eq {size : Nat} (h : List.Forall₂ (Call.Makes size) calls edits) :
    calls.flatMap (fun call => Text.encode call.text) =
      edits.flatMap fun edit => Text.encode edit.text := by
  induction h with
  | nil => rfl
  | cons hmakes _ ih => rw [List.flatMap_cons, List.flatMap_cons, hmakes.text, ih]

theorem find?_text_eq {size : Nat} (h : List.Forall₂ (Call.Makes size) calls edits)
    {p : Call → Bool} {q : Edit → Bool} (hpq : ∀ call edit, call.Makes size edit →
      p call = q edit) : (calls.find? p).map Call.text = (edits.find? q).map Edit.text := by
  induction h with
  | nil => rfl
  | @cons call edit calls edits hmakes _ ih =>
    rw [List.find?_cons, List.find?_cons, hpq call edit hmakes]
    cases q edit with
    | true => exact congrArg some hmakes.text
    | false => exact ih

theorem any_eq {size : Nat} (h : List.Forall₂ (Call.Makes size) calls edits)
    {p : Call → Bool} {q : Edit → Bool} (hpq : ∀ call edit, call.Makes size edit →
      p call = q edit) : calls.any p = edits.any q := by
  induction h with
  | nil => rfl
  | cons hmakes _ ih => rw [List.any_cons, List.any_cons, hpq _ _ hmakes, ih]

section

variable (hmakes : List.Forall₂ (Call.Makes source.length) calls edits)
  (hranks : edits.Pairwise fun a b => a.order.natAbs < b.order.natAbs) (offset : Nat)
include hmakes hranks

/-- What is added at an offset is rendered by the calls. -/
theorem added_eq :
    ((edits.mergeSort Edit.precedes).filter fun edit =>
        edit.start = offset && edit.isInsertion).flatMap (fun edit => Text.encode edit.text) =
      (addedAt source.length calls offset).flatMap fun call => Text.encode call.text := by
  have hinsertion : ∀ (call : Call) (edit : Edit), call.Makes source.length edit →
      call.insertsAt source.length offset =
        (decide (edit.start = offset) && edit.isInsertion) := by
    intro call edit h
    rw [Call.insertsAt, h.start, h.stop, Edit.isInsertion, Bool.eq_iff_iff]
    simp only [Bool.and_eq_true, decide_eq_true_eq, beq_iff_eq]
    omega
  have hahead := List.rel_filter (R := Call.Makes source.length)
    (p := fun call => call.insertsAt source.length offset && call.isPrepend)
    (q := fun edit => (decide (edit.start = offset) && edit.isInsertion) && edit.order < 0)
    (fun call edit h => by dsimp only; rw [hinsertion call edit h, h.prepend]) hmakes
  have hothers := List.rel_filter (R := Call.Makes source.length)
    (p := fun call => call.insertsAt source.length offset && !call.isPrepend)
    (q := fun edit => (decide (edit.start = offset) && edit.isInsertion) && !(edit.order < 0))
    (fun call edit h => by dsimp only; rw [hinsertion call edit h, h.prepend]) hmakes
  rw [filter_mergeSort hranks fun a b ha hb hab => ?_]
  · exact (flatMap_text_eq (List.rel_append (List.rel_reverse hahead) hothers)).symm
  · simp only [Bool.and_eq_true, decide_eq_true_eq] at ha hb
    exact Edit.precedes_iff.mpr (.inr ⟨ha.1.trans hb.1.symm, .inr ⟨ha.2.trans hb.2.symm, hab⟩⟩)

/-- Of replacements that begin at an offset, the first one that was called for comes first. -/
theorem find?_replacement :
    ((edits.mergeSort Edit.precedes).find? fun edit =>
        edit.start = offset && !edit.isInsertion).map Edit.text =
      (calls.find? (Call.replacesFrom source.length offset)).map Call.text := by
  rw [find?_text_eq hmakes (q := fun edit => decide (edit.start = offset) && !edit.isInsertion)
    fun call edit h => ?_]
  · rw [← List.head?_filter, ← List.head?_filter, filter_mergeSort hranks fun a b ha hb hab => ?_]
    · -- None of them has been put ahead.
      have hneg : ∀ edit ∈ edits, edit.isInsertion = false → ¬ edit.order < 0 := by
        intro edit hedit hreplacement hneg
        obtain ⟨call, -, hcall⟩ := mem_of_makes hmakes hedit
        rw [hcall.isInsertion_of_neg hneg] at hreplacement
        cases hreplacement
      have hnone : (edits.filter fun edit =>
          (decide (edit.start = offset) && !edit.isInsertion) && edit.order < 0) = [] := by
        refine List.filter_eq_nil_iff.mpr fun edit hedit => ?_
        simp only [Bool.and_eq_true, Bool.not_eq_true', decide_eq_true_eq]
        exact fun h => hneg edit hedit h.1.2 h.2
      have hall : (edits.filter fun edit =>
          (decide (edit.start = offset) && !edit.isInsertion) && !(edit.order < 0)) =
          edits.filter fun edit => decide (edit.start = offset) && !edit.isInsertion := by
        refine List.filter_congr fun edit hedit => ?_
        cases hreplacement : edit.isInsertion with
        | true => simp
        | false => simp [hneg edit hedit hreplacement]
      rw [hnone, hall]
      rfl
    · simp only [Bool.and_eq_true, Bool.not_eq_true', decide_eq_true_eq] at ha hb
      exact Edit.precedes_iff.mpr (.inr ⟨ha.1.trans hb.1.symm, .inr ⟨ha.2.trans hb.2.symm, hab⟩⟩)
  · rw [Call.replacesFrom, h.start, h.stop, Edit.isInsertion, Bool.eq_iff_iff]
    have := h.ordered
    simp only [Bool.and_eq_true, Bool.not_eq_true', decide_eq_true_eq, beq_eq_false_iff_ne]
    omega

/-- Sorted edits and calls make the same of an offset. -/
theorem renderedAt_eq_splicedAt :
    renderedAt source (edits.mergeSort Edit.precedes) offset =
      splicedAt Text.encode source calls offset := by
  have hcovers : calls.any (Call.covers source.length offset) =
      (edits.mergeSort Edit.precedes).any fun edit =>
        edit.start ≤ offset && offset < edit.stop := by
    rw [(List.mergeSort_perm edits Edit.precedes).any_eq]
    refine any_eq hmakes fun call edit h => ?_
    rw [Call.covers, h.start, h.stop, Bool.eq_iff_iff]
    simp only [Bool.and_eq_true, decide_eq_true_eq]
    omega
  have hfind := find?_replacement hmakes hranks offset
  rw [renderedAt, splicedAt, added_eq hmakes hranks, contentAt, hcovers]
  congr 1
  cases hcall : calls.find? (Call.replacesFrom source.length offset) <;>
    cases hedit : (edits.mergeSort Edit.precedes).find? fun edit =>
      edit.start = offset && !edit.isInsertion <;>
    simp_all

end

end

/-! ### Rendering -/

/-- Only edits that overlap keep a draft from being spliced. -/
theorem splice_error {source : List UInt8} {reached : Nat} {failure : Failure}
    (h : splice source reached edits = .error failure) :
    ∃ start stop, failure = .overlap start stop := by
  induction edits generalizing reached with
  | nil => cases h
  | cons edit rest ih =>
    rw [splice] at h
    split at h
    · exact ⟨_, _, (Except.error.inj h).symm⟩
    · cases hafter : splice source edit.stop rest with
      | ok after =>
        rw [hafter] at h
        cases h
      | error other =>
        rw [hafter] at h
        obtain rfl : other = failure := Except.error.inj h
        exact ih hafter

/-- **A draft is rendered position by position.** However many edits were called for, in whatever
order: if none of them begins in what another one has replaced, the bytes that are rendered are
what the calls make of the source, offset by offset. -/
theorem render_eq_spliced {source : List UInt8} {calls : List Call} {draft : Draft}
    (hcalls : (⟨source, []⟩ : Draft).callAll calls = .ok draft)
    (hfits : ∀ start reached, draft.render ≠ .error (.overlap start reached)) :
    draft.renderBytes = .ok (spliced Text.encode source calls) ∧
      draft.render = readText (spliced Text.encode source calls) := by
  obtain ⟨edits, hmakes, hranks, rfl⟩ := callAll_makes hcalls
  rw [List.nil_append] at hfits ⊢
  have hordered : ∀ edit ∈ edits.mergeSort Edit.precedes,
      edit.start ≤ edit.stop ∧ edit.stop ≤ source.length := by
    intro edit hedit
    obtain ⟨call, -, hcall⟩ := mem_of_makes hmakes (List.mem_mergeSort.mp hedit)
    exact ⟨hcall.ordered, hcall.inside⟩
  cases hbytes : renderBytes ⟨source, edits⟩ with
  | error failure =>
    obtain ⟨start, reached, rfl⟩ := splice_error hbytes
    exact absurd (by rw [render, hbytes]; rfl) (hfits start reached)
  | ok bytes =>
    have hrendered := splice_eq_rendered hordered (sorted_start edits) (Nat.zero_le _) hbytes
    have heach : ∀ offset ∈ List.range' 0 (source.length + 1),
        renderedAt source (edits.mergeSort Edit.precedes) offset =
          splicedAt Text.encode source calls offset :=
      fun offset _ => renderedAt_eq_splicedAt hmakes (ranks_pairwise hranks) offset
    rw [Nat.sub_zero, List.flatMap_congr heach, ← List.range_eq_range'] at hrendered
    obtain rfl : bytes = spliced Text.encode source calls := hrendered
    exact ⟨rfl, by rw [render, hbytes]; rfl⟩

/-- Five texts and a replacement meet at one offset, and a sixth text stands at the end. -/
theorem render_eq_spliced_ties :
    let calls : List Call := [.insert 2 "i", .replace 2 3 "R", .prepend 2 "p", .replace 2 2 "z",
      .prepend 2 "q", .append "e"]
    ∃ draft, (⟨Text.encode "äbc", []⟩ : Draft).callAll calls = .ok draft ∧
      (∀ start reached, draft.render ≠ .error (.overlap start reached)) ∧
      draft.renderBytes = .ok (spliced Text.encode (Text.encode "äbc") calls) ∧
      draft.render = readText (spliced Text.encode (Text.encode "äbc") calls) ∧
      draft.render = .ok "äqpizRce" := by
  intro calls
  let edits : List Edit := [⟨2, 2, "i", 1⟩, ⟨2, 3, "R", 2⟩, ⟨2, 2, "p", -3⟩, ⟨2, 2, "z", 4⟩,
    ⟨2, 2, "q", -5⟩, ⟨4, 4, "e", 6⟩]
  have hcalls : (⟨Text.encode "äbc", []⟩ : Draft).callAll calls =
      .ok ⟨Text.encode "äbc", edits⟩ := by decide +kernel
  have hsorted : edits.mergeSort Edit.precedes = [⟨2, 2, "q", -5⟩, ⟨2, 2, "p", -3⟩,
      ⟨2, 2, "i", 1⟩, ⟨2, 2, "z", 4⟩, ⟨2, 3, "R", 2⟩, ⟨4, 4, "e", 6⟩] := by
    simp [edits, List.mergeSort, List.MergeSort.Internal.splitInTwo, Edit.precedes,
      Edit.isInsertion]
  have hcode : (⟨Text.encode "äbc", edits⟩ : Draft).render = .ok "äqpizRce" := by
    refine bind_eq_ok.mpr ⟨Text.encode "äqpizRce", ?_, readText_encode _⟩
    rw [renderBytes, hsorted]
    decide +kernel
  have hfits : ∀ start reached, (⟨Text.encode "äbc", edits⟩ : Draft).render ≠
      .error (.overlap start reached) := by
    simp [hcode]
  obtain ⟨hbytes, htext⟩ := render_eq_spliced hcalls hfits
  exact ⟨_, hcalls, hfits, hbytes, htext, hcode⟩

end Draft

end Seams
