import Seams.Proofs.Frame

/-!
# The layout of an opened module

What is added to a module stands in a fixed order, whatever else is inserted at the same offsets.
The hashbang line stays the first one. Next come the handler table and the functions that the module
exports, each as a variable. Only then follow the statements, and after all of them the code of the
override functions. The handler table is added last, and goes ahead; the functions go where they
are called for, and are there in the order of the calls.

## Main definitions

* `Draft.Enclosed` — edits between a first and a last one
* `OverridePlan.parts` — the parts of the code at the end
* `Module.LaidOut` — code in that order

## Main results

* `Draft.Enclosed.mergeSort_eq` — the order in which such edits are rendered
* `Module.opened_layout` — the code of an opened module is in that order
-/

namespace Seams

/-! ### Edits between a first and a last one -/

/-- Whether an edit adds text at an offset. -/
def Edit.addsAt (offset : Nat) (edit : Edit) : Bool :=
  edit.start == offset && edit.isInsertion

namespace Draft

/-- Edits between an offset and the end, followed by two more: one that puts text ahead at this
offset, and one that adds text at the end. -/
structure Enclosed (top size : Nat) (edits : List Edit) (first last : Edit) : Prop where
  ranks : (edits ++ [first, last]).Pairwise fun a b => a.order.natAbs < b.order.natAbs
  le : top ≤ size
  within : ∀ edit ∈ edits, top ≤ edit.start ∧ edit.start ≤ edit.stop ∧ edit.stop ≤ size
  order : ∀ edit ∈ edits, 0 ≤ edit.order
  first_start : first.start = top
  first_stop : first.stop = top
  first_order : first.order < 0
  last_start : last.start = size
  last_stop : last.stop = size
  last_order : 0 ≤ last.order

namespace Enclosed

variable {top size : Nat} {edits : List Edit} {first last : Edit}

theorem first_precedes (h : Enclosed top size edits first last) {edit : Edit}
    (hstart : top ≤ edit.start) (horder : 0 ≤ edit.order) : first.precedes edit := by
  rcases Nat.eq_or_lt_of_le hstart with heq | hlt
  · have hfirst : first.isInsertion = true := by
      simp [Edit.isInsertion, h.first_start, h.first_stop]
    have hrank := h.first_order
    refine Edit.precedes_iff.mpr (.inr ⟨h.first_start.trans heq, ?_⟩)
    cases hedit : edit.isInsertion with
    | true => exact .inr ⟨hfirst, by omega⟩
    | false => exact .inl ⟨hfirst, rfl⟩
  · exact Edit.precedes_iff.mpr (.inl (h.first_start ▸ hlt))

theorem precedes_last (h : Enclosed top size edits first last) {edit : Edit}
    (hedit : edit ∈ edits) : edit.precedes last := by
  obtain ⟨-, hordered, hinside⟩ := h.within edit hedit
  have hrank := (List.pairwise_append.mp h.ranks).2.2 edit hedit last
    (List.mem_cons_of_mem _ (List.mem_singleton_self _))
  have hedit := h.order edit hedit
  have hstart := h.last_start
  have hstop := h.last_stop
  have hlast := h.last_order
  rcases Nat.eq_or_lt_of_le (Nat.le_trans hordered hinside) with heq | hlt
  · -- At the end there is nothing to replace.
    refine Edit.precedes_iff.mpr (.inr ⟨by omega, .inr ⟨?_, by omega⟩⟩)
    rw [Edit.isInsertion, Edit.isInsertion, Bool.eq_iff_iff, beq_iff_eq, beq_iff_eq]
    omega
  · exact Edit.precedes_iff.mpr (.inl (by omega))

/-- Texts at the first offset come in the order in which they were called for. -/
theorem pairwise_addsAt (h : Enclosed top size edits first last) :
    (edits.filter (Edit.addsAt top)).Pairwise fun a b => a.precedes b := by
  have hranks := (List.pairwise_append.mp h.ranks).1.filter (Edit.addsAt top)
  refine hranks.imp_of_mem fun {a b} ha hb hab => ?_
  obtain ⟨ha, hadds⟩ := List.mem_filter.mp ha
  obtain ⟨hb, hadds'⟩ := List.mem_filter.mp hb
  have := h.order a ha
  have := h.order b hb
  simp only [Edit.addsAt, Bool.and_eq_true, beq_iff_eq] at hadds hadds'
  exact Edit.precedes_iff.mpr
    (.inr ⟨hadds.1.trans hadds'.1.symm, .inr ⟨hadds.2.trans hadds'.2.symm, by omega⟩⟩)

/-- They come before everything else. -/
theorem addsAt_precedes (h : Enclosed top size edits first last) {a b : Edit} (hb : b ∈ edits)
    (hadds : a.addsAt top = true) (hnot : b.addsAt top = false) : a.precedes b := by
  have hstart := (h.within b hb).1
  simp only [Edit.addsAt, Bool.and_eq_true, beq_iff_eq] at hadds
  rcases Nat.eq_or_lt_of_le hstart with heq | hlt
  · refine Edit.precedes_iff.mpr (.inr ⟨hadds.1.trans heq, .inl ⟨hadds.2, ?_⟩⟩)
    simpa [Edit.addsAt, heq] using hnot
  · exact Edit.precedes_iff.mpr (.inl (by omega))

/-- **The order in which edits between a first and a last one are rendered**: the first one, the
texts at its offset as they were called for, the others, and the last one. -/
theorem mergeSort_eq (h : Enclosed top size edits first last) :
    (edits ++ [first, last]).mergeSort Edit.precedes =
      first :: (edits.filter (Edit.addsAt top) ++
        ((edits.filter fun edit => !edit.addsAt top).mergeSort Edit.precedes ++ [last])) := by
  have hothers : ∀ {edit},
      edit ∈ (edits.filter fun edit => !edit.addsAt top).mergeSort Edit.precedes →
        edit ∈ edits ∧ edit.addsAt top = false := by
    intro edit hedit
    simpa using List.mem_filter.mp (List.mem_mergeSort.mp hedit)
  have hsorted : ((edits.filter fun edit => !edit.addsAt top).mergeSort
      Edit.precedes).Pairwise fun a b => a.precedes b :=
    List.pairwise_mergeSort Edit.precedes_trans Edit.precedes_total _
  refine eq_of_sorted h.ranks (List.pairwise_mergeSort Edit.precedes_trans Edit.precedes_total _)
    ?_ (fun edit hedit => List.mem_mergeSort.mp hedit) ?_
  · refine List.pairwise_cons.mpr ⟨fun edit hedit => ?_, List.pairwise_append.mpr
      ⟨h.pairwise_addsAt, List.pairwise_append.mpr ⟨hsorted, List.pairwise_singleton _ _, ?_⟩, ?_⟩⟩
    · rcases List.mem_append.mp hedit with hedit | hedit
      · have hedit := (List.mem_filter.mp hedit).1
        exact h.first_precedes (h.within edit hedit).1 (h.order edit hedit)
      · rcases List.mem_append.mp hedit with hedit | hedit
        · have hedit := (hothers hedit).1
          exact h.first_precedes (h.within edit hedit).1 (h.order edit hedit)
        · obtain rfl := List.mem_singleton.mp hedit
          exact h.first_precedes (h.last_start ▸ h.le) h.last_order
    · intro a ha b hb
      obtain rfl := List.mem_singleton.mp hb
      exact h.precedes_last (hothers ha).1
    · intro a ha b hb
      obtain ⟨ha, hadds⟩ := List.mem_filter.mp ha
      rcases List.mem_append.mp hb with hb | hb
      · exact h.addsAt_precedes (hothers hb).1 hadds (hothers hb).2
      · obtain rfl := List.mem_singleton.mp hb
        exact h.precedes_last ha
  · have hsplit : (edits.filter (Edit.addsAt top) ++
        (edits.filter fun edit => !edit.addsAt top).mergeSort Edit.precedes).Perm edits :=
      ((List.mergeSort_perm _ _).append_left _).trans (List.filter_append_perm _ edits)
    have hmiddle : (edits ++ [first, last]).Perm (first :: (edits ++ [last])) := List.perm_middle
    refine (List.mergeSort_perm _ _).trans (hmiddle.trans (.cons _ ?_))
    rw [← List.append_assoc]
    exact hsplit.symm.append_right _

end Enclosed

/-- Calls that put nothing ahead and begin at an offset or behind it, followed by two more. -/
theorem enclosed_of_callAll {source : List UInt8} {calls : List Call} {top : Nat}
    {front back : String} {draft : Draft} (hplain : ∀ call ∈ calls, call.isPrepend = false)
    (hstart : ∀ call ∈ calls, (top : Int) ≤ call.start source.length)
    (hcalls : (⟨source, []⟩ : Draft).callAll (calls ++ [.prepend top front, .append back]) =
      .ok draft) :
    ∃ edits first last, draft = ⟨source, edits ++ [first, last]⟩ ∧
      List.Forall₂ (Call.Makes source.length) calls edits ∧
      Enclosed top source.length edits first last ∧ first.text = front ∧ last.text = back := by
  obtain ⟨all, -, hranks, hall⟩ := callAll_makes hcalls
  obtain ⟨middle, hbegun, hrest⟩ := callAll_append.mp hcalls
  obtain ⟨edits, hmade, -, rfl⟩ := callAll_makes hbegun
  obtain ⟨_, hpair, -, rfl⟩ := callAll_makes hrest
  rcases hpair with _ | ⟨hfirst, _ | ⟨hlast, ⟨⟩⟩⟩
  rename_i first last
  obtain rfl : edits ++ [first, last] = all := congrArg Draft.edits hall
  dsimp only at hmade hfirst hlast
  refine ⟨edits, first, last, rfl, hmade, ?_, hfirst.text.symm, hlast.text.symm⟩
  have hinside := hfirst.inside
  obtain ⟨hfirstStart, hfirstStop, -, hfirstOrder, -, -⟩ := hfirst
  obtain ⟨hlastStart, hlastStop, -, hlastOrder, -, -⟩ := hlast
  simp only [Call.start, Call.stop] at hfirstStart hfirstStop hlastStart hlastStop
  exact {
    ranks := ranks_pairwise hranks
    le := by omega
    within := fun edit hedit => by
      obtain ⟨call, hcall, hmakes⟩ := mem_of_makes hmade hedit
      have := hstart call hcall
      have := hmakes.start
      exact ⟨by omega, hmakes.ordered, hmakes.inside⟩
    order := fun edit hedit => by
      obtain ⟨call, hcall, hmakes⟩ := mem_of_makes hmade hedit
      simpa [hplain call hcall] using hmakes.prepend
    first_start := by omega
    first_stop := by omega
    first_order := by simpa [Call.isPrepend] using hfirstOrder
    last_start := by omega
    last_stop := by omega
    last_order := by simpa [Call.isPrepend] using hlastOrder }

/-! ### Their pieces -/

variable {top size : Nat}

/-- Where texts are added at one offset, no source is used up. -/
theorem flatMap_piecesFrom_front {source : List UInt8} {front others : List Edit}
    (hfront : ∀ edit ∈ front, edit.start = top ∧ edit.stop = top) :
    (piecesFrom size top (front ++ others)).flatMap (Piece.bytes source) =
      (front.flatMap fun edit => Text.encode edit.text) ++
        (piecesFrom size top others).flatMap (Piece.bytes source) := by
  induction front with
  | nil => rfl
  | cons edit rest ih =>
    obtain ⟨hstart, hstop⟩ := hfront edit (List.mem_cons_self ..)
    have hnothing : Piece.bytes source (.kept top edit.start) = [] := by
      simp [Piece.bytes, Text.slice, hstart]
    rw [List.cons_append, piecesFrom, List.flatMap_cons, List.flatMap_cons, hnothing,
      List.nil_append, hstop, ih fun other hother => hfront other (List.mem_cons_of_mem _ hother),
      List.flatMap_cons, List.append_assoc]
    rfl

theorem chain_piecesFrom_front {stop : Nat} {front others : List Edit}
    (hfront : ∀ edit ∈ front, edit.start = top ∧ edit.stop = top)
    (h : Piece.Chain top stop (piecesFrom size top (front ++ others))) :
    Piece.Chain top stop (piecesFrom size top others) := by
  induction front with
  | nil => exact h
  | cons edit rest ih =>
    obtain ⟨-, -, -, -, h⟩ := h
    rw [Piece.stop, (hfront edit (List.mem_cons_self ..)).2] at h
    exact ih (fun other hother => hfront other (List.mem_cons_of_mem _ hother)) h

/-- A text at the end comes behind everything else. -/
theorem piecesFrom_concat {last : Edit} (hstart : last.start = size) (hstop : last.stop = size)
    (reached : Nat) (edits : List Edit) :
    piecesFrom size reached (edits ++ [last]) =
      piecesFrom size reached edits ++ [.made last, .kept size size] := by
  induction edits generalizing reached with
  | nil => simp [piecesFrom, hstart, hstop]
  | cons edit rest ih => simp [piecesFrom, ih]

/-- All pieces behind the texts that are added at an offset, but for the text at the end. -/
def piecesBehind (top size : Nat) (edits : List Edit) : List Piece :=
  piecesFrom size top ((edits.filter fun edit => !edit.addsAt top).mergeSort Edit.precedes)

namespace Enclosed

variable {source bytes : List UInt8} {edits : List Edit} {first last : Edit}

/-- No text that is added at the offset is among them. -/
theorem of_made_mem (h : Enclosed top size edits first last) {edit : Edit}
    (hedit : Piece.made edit ∈ piecesBehind top size edits) :
    top < edit.start ∨ edit.start < edit.stop := by
  obtain ⟨hmem, hnot⟩ := List.mem_filter.mp (List.mem_mergeSort.mp (made_mem_piecesFrom.mp hedit))
  have := h.within edit hmem
  simp only [Edit.addsAt, Edit.isInsertion, Bool.not_eq_true', Bool.and_eq_false_iff,
    beq_eq_false_iff_ne] at hnot
  omega

theorem eq_of_addsAt {edit : Edit} (hedit : edit ∈ edits.filter (Edit.addsAt top)) :
    edit.start = top ∧ edit.stop = top := by
  have hadds := (List.mem_filter.mp hedit).2
  simp only [Edit.addsAt, Edit.isInsertion, Bool.and_eq_true, beq_iff_eq] at hadds
  omega

theorem pieces_eq (h : Enclosed top source.length edits first last) :
    (⟨source, edits ++ [first, last]⟩ : Draft).pieces =
      .kept 0 top :: .made first :: (piecesFrom source.length top
        (edits.filter (Edit.addsAt top) ++
          (edits.filter fun edit => !edit.addsAt top).mergeSort Edit.precedes) ++
            [.made last, .kept source.length source.length]) := by
  rw [pieces, h.mergeSort_eq, ← List.append_assoc, piecesFrom, h.first_start, h.first_stop,
    piecesFrom_concat h.last_start h.last_stop]

section

variable (h : Enclosed top source.length edits first last)
  (hrender : (⟨source, edits ++ [first, last]⟩ : Draft).renderBytes = .ok bytes)
include h hrender

/-- **Edits between a first and a last one make the whole code**: what stands in front of their
offset, the first text, the texts that are added there, all other pieces, and the last text. -/
theorem render_eq : bytes = Text.slice source 0 top ++ Text.encode first.text ++
    ((edits.filter (Edit.addsAt top)).flatMap fun edit => Text.encode edit.text) ++
    (piecesBehind top source.length edits).flatMap (Piece.bytes source) ++
    Text.encode last.text := by
  have hnothing : Text.slice source source.length source.length = [] := by
    simp [Text.slice]
  rw [renderBytes_eq hrender, h.pieces_eq, List.flatMap_cons, List.flatMap_cons,
    List.flatMap_append, flatMap_piecesFrom_front fun edit => eq_of_addsAt]
  simp [piecesBehind, Piece.bytes, hnothing]

/-- The pieces behind the texts that are added go through the rest of the source. -/
theorem chain_piecesBehind :
    Piece.Chain top source.length (piecesBehind top source.length edits) := by
  have hordered : ∀ edit ∈ edits ++ [first, last],
      edit.start ≤ edit.stop ∧ edit.stop ≤ source.length := by
    intro edit hedit
    have := h.le
    rcases List.mem_append.mp hedit with hedit | hedit
    · exact (h.within edit hedit).2
    · rcases List.mem_pair.mp hedit with rfl | rfl
      · rw [h.first_start, h.first_stop]
        omega
      · rw [h.last_start, h.last_stop]
        omega
  have hchain := chain_pieces hrender hordered
  rw [h.pieces_eq] at hchain
  obtain ⟨-, -, -, -, hchain⟩ := hchain
  rw [Piece.stop, h.first_stop] at hchain
  obtain ⟨middle, hchain, hend, -⟩ := Piece.chain_append.mp hchain
  rw [Piece.start, h.last_start] at hend
  rw [← hend] at hchain
  exact chain_piecesFrom_front (fun edit => eq_of_addsAt) hchain

end

end Enclosed

end Draft

/-! ### The parts of opened modules -/

/-- The code that goes to the end, part by part: what keeps the values of exports at start-up, if
there are exports, their override functions, those of imports, the function that undoes them, and
the runtime. -/
def OverridePlan.parts (plan : OverridePlan) (names : RuntimeNames) : List (List String) :=
  let exports := plan.exports.map Prod.fst
  let imports := plan.imports.map Prod.fst
  [if exports.isEmpty then [] else [captureCode exports],
    plan.exports.map fun (entry, name) => exportOverrideCode name entry.localName plan.parameter,
    plan.imports.map fun (entry, name) => importOverrideCode name entry plan.parameter names,
    [restoreCode plan.restore exports imports names],
    [names.helpersCode]]

theorem OverridePlan.code_eq_parts (plan : OverridePlan) (names : RuntimeNames) :
    plan.code names = "\n" ++ joinLines (plan.parts names).flatten ++ "\n" := by
  simp [code, parts]

namespace Module

variable {m : Module} {options : Options}

/-- The hashbang line, if there is one. -/
def hashbangLine (m : Module) : List UInt8 :=
  match m.root.children with
  | first :: _ => if first.kind = .hashbang then first.bytes (Text.encode m.source) else []
  | [] => []

/-- An edit puts a copy in front of a statement at the top, or a text in place of an empty node that
is no statement. -/
def Precedes (m : Module) (options : Options) (edit : Edit) : Prop :=
  (∃ copy : m.Copied options, copy.statement.start = m.top ∧ edit.text = copy.edit.text) ∨
    ∃ node, m.Alters options node ∧ node.start = m.top ∧ node.stop = m.top ∧
      node ∉ m.root.namedChildren

/-- Code in the order in which it is laid out. Some functions are hoisted, in front is what stands
at the top of the module, and the rest follows. -/
structure LaidOut (m : Module) (run : m.Run options) (code : String) (hoists front : List Edit)
    (rest : List Piece) : Prop where
  /-- The hashbang line, the handler table, what stands at the top, all source behind the hashbang
  line with all other texts, and the code that goes to the end. -/
  code_eq : Text.encode code =
    m.hashbangLine ++ Text.encode (m.onTop run.planned.runtime.tableCode) ++
      (front.flatMap fun edit => Text.encode edit.text) ++
      rest.flatMap (Piece.bytes (Text.encode m.source)) ++
      Text.encode ("\n" ++ joinLines (run.plan.parts run.planned.runtime).flatten ++ "\n")
  /-- Each exported function is defined, in the order of the module. -/
  defines : List.Forall₂ (fun function edit => m.Defines function edit.text)
    (m.root.namedChildren.filterMap Node.hoisted?) hoists
  /-- All of them stand at the top, -/
  sublist : hoists.Sublist front
  /-- where texts are inserted only, so no replacement comes before them. -/
  insertions : ∀ edit ∈ front, edit.start = m.top ∧ edit.isInsertion = true
  /-- What else stands there is a copy for the first statement, or goes in place of an empty node in
  a statement. -/
  others : ∀ edit ∈ front, edit ∈ hoists ∨ m.Precedes options edit
  /-- The rest goes through the source behind the hashbang line, -/
  chain : Piece.Chain m.top (Text.encode m.source).length rest
  /-- and whatever replaces something is in it. -/
  replaced : ∀ edit, Piece.made edit ∈ rest → m.top < edit.start ∨ edit.start < edit.stop

/-! ### The top -/

theorem Plain.of_hashbang {child : Node} (h : child.kind = .hashbang) : Plain options child where
  notImport := by simp [h]
  notOwn hown := by simp [hown.kind] at h
  notWeakened := .inr (by simp [Node.lexical?, h])

/-- The hashbang line is what stands in front of the top. -/
theorem slice_top (hhashbang : ∀ first, m.root.children.head? = some first →
      first.kind = .hashbang → first.start = 0) :
    Text.slice (Text.encode m.source) 0 m.top = m.hashbangLine := by
  rw [hashbangLine, top, Node.hashbangEnd]
  cases hchildren : m.root.children with
  | nil => rfl
  | cons first rest =>
    dsimp only
    split
    · rename_i hkind
      rw [Node.bytes, hhashbang first (by rw [hchildren]; rfl) hkind]
      rfl
    · rfl

/-- Statements that are worked on begin at the top or behind it. -/
theorem top_le_of_not_plain (hnested : m.root.Nested) {statement : Node}
    (hstatement : statement ∈ m.root.namedChildren) (hnot : ¬ Plain options statement) :
    m.top ≤ statement.start :=
  (top_beside hnested (Node.mem_children_of_mem_namedChildren hstatement)).resolve_left
    fun hhashbang => hnot (.of_hashbang hhashbang.1)

/-- So do all changes that are made to them. -/
theorem Permits.top_le (hnested : m.root.Nested) {change : Change} (h : m.Permits options change)
    (size : Nat) : (m.top : Int) ≤ (change.call m.top).start size := by
  cases change with
  | alter node text =>
    obtain ⟨statement, hstatement, hnode, hnot⟩ := Alters.exists_holder h
    have htop := top_le_of_not_plain hnested hstatement hnot
    have hmem := Node.mem_subtree_of_mem_namedChildren hstatement
    have hbounds := (hnested.below hmem).within hnode
    exact Int.ofNat_le.mpr (by omega)
  | hoist function text => exact Int.le_refl _
  | copy statement text =>
    obtain ⟨copy, rfl, -⟩ := h
    have hnot : ¬ Plain options copy.statement := fun hplain => hplain.notOwn copy.own
    exact Int.ofNat_le.mpr (top_le_of_not_plain hnested copy.mem hnot)
  | redeclare statement text =>
    have hnot : ¬ Plain options statement := fun hplain => hplain.notImport h.2
    have htop := top_le_of_not_plain hnested h.1 hnot
    have hle := (hnested.below (Node.mem_subtree_of_mem_namedChildren h.1)).children.le
    exact Int.ofNat_le.mpr (by omega)

/-! ### What stands at the top -/

section

variable (hnested : m.root.Nested)
  (hstatements : ∀ statement ∈ m.root.namedChildren, statement.start < statement.stop)
include hnested hstatements

/-- Only copies and texts for empty nodes stand at the top beside functions. -/
theorem Permits.precedes {change : Change} (h : m.Permits options change) {size : Nat}
    {edit : Edit} (hmakes : (change.call m.top).Makes size edit)
    (hadds : edit.addsAt m.top = true) (hnone : change.hoisted? = none) :
    m.Precedes options edit := by
  have hstart := hmakes.start
  have hstop := hmakes.stop
  simp only [Edit.addsAt, Edit.isInsertion, Bool.and_eq_true, beq_iff_eq] at hadds
  cases change with
  | alter node text =>
    simp only [Change.call, Draft.Call.start, Draft.Call.stop] at hstart hstop
    refine .inr ⟨node, h, by omega, by omega, fun hmem => ?_⟩
    have := hstatements node hmem
    omega
  | hoist function text => cases hnone
  | copy statement text =>
    obtain ⟨copy, rfl, htext⟩ := h
    simp only [Change.call, Draft.Call.start] at hstart
    exact .inl ⟨copy, by omega, hmakes.text.symm.trans htext⟩
  | redeclare statement text =>
    -- An import statement that ends at the top would be empty.
    have hnot : ¬ Plain options statement := fun hplain => hplain.notImport h.2
    have htop := top_le_of_not_plain hnested h.1 hnot
    have := hstatements statement h.1
    simp only [Change.call, Draft.Call.start] at hstart
    omega

/-- **The functions stand at the top**, in the order in which changes define them. -/
theorem exists_hoists {changes : List Change} {edits : List Edit} {size : Nat}
    (hmakes : List.Forall₂ (fun change edit => (change.call m.top).Makes size edit) changes edits)
    (hpermits : ∀ change ∈ changes, m.Permits options change) :
    ∃ hoists, List.Forall₂ (fun function edit => m.Defines function edit.text)
        (changes.filterMap Change.hoisted?) hoists ∧
      hoists.Sublist (edits.filter (Edit.addsAt m.top)) ∧
      ∀ edit ∈ edits.filter (Edit.addsAt m.top), edit ∈ hoists ∨ m.Precedes options edit := by
  induction hmakes with
  | nil => exact ⟨[], .nil, .slnil, nofun⟩
  | @cons change edit changes edits hmade _ ih =>
    obtain ⟨hchange, hpermits⟩ := List.forall_mem_cons.mp hpermits
    obtain ⟨hoists, hdefines, hsublist, hothers⟩ := ih hpermits
    cases hhoisted : change.hoisted? with
    | none =>
      rw [List.filterMap_cons_none hhoisted]
      refine ⟨hoists, hdefines, hsublist.trans ?_, fun other hother => ?_⟩
      · exact (List.sublist_cons_self _ _).filter _
      · obtain ⟨hmem, hadds⟩ := List.mem_filter.mp hother
        rcases List.mem_cons.mp hmem with rfl | hmem
        · exact .inr (hchange.precedes hnested hstatements hmade hadds hhoisted)
        · exact hothers other (List.mem_filter.mpr ⟨hmem, hadds⟩)
    | some function =>
      cases change with
      | alter | copy | redeclare => cases hhoisted
      | hoist function text =>
        obtain rfl := Option.some.inj hhoisted
        have hstart := hmade.start
        have hstop := hmade.stop
        simp only [Change.call, Draft.Call.start, Draft.Call.stop] at hstart hstop
        have hadds : edit.addsAt m.top = true := by
          rw [Edit.addsAt, Edit.isInsertion, Bool.and_eq_true, beq_iff_eq, beq_iff_eq]
          omega
        have htext : text = edit.text := hmade.text
        rw [List.filterMap_cons_some hhoisted, List.filter_cons_of_pos hadds]
        refine ⟨edit :: hoists, .cons (htext ▸ hchange) hdefines, hsublist.cons_cons _,
          fun other hother => ?_⟩
        rcases List.mem_cons.mp hother with rfl | hother
        · exact .inl (List.mem_cons_self ..)
        · exact (hothers other hother).imp_left (List.mem_cons_of_mem _)

end

/-! ### The whole code -/

/-- **The layout of an opened module.** Its tree is nested, no statement is empty, and a hashbang
line that comes first begins the source. If functions are added, the code has the hashbang line, the
handler table, the functions that the module exports, the rest of the source with what belongs to
it, and the added code, in this order. -/
theorem opened_layout {opening : Opening} (hnested : m.root.Nested)
    (hstatements : ∀ statement ∈ m.root.namedChildren, statement.start < statement.stop)
    (hhashbang : ∀ first, m.root.children.head? = some first →
      first.kind = .hashbang → first.start = 0)
    (hopened : (m.transform options).outcome = .opened opening)
    (hsome : opening.overrides.restore.isSome = true) :
    ∃ (run : m.Run options) (hoists front : List Edit) (rest : List Piece),
      run.plan.overrides = opening.overrides ∧
      m.LaidOut run opening.code hoists front rest := by
  obtain ⟨changes, added, last, -, hpermits, hhoisted, hcalls, hrender, hadded⟩ :=
    exists_changes hopened
  generalize last.draft = draft at hcalls hrender
  obtain ⟨run, hoverrides, rfl⟩ := hadded.resolve_left fun hnone => by
    rw [hnone.1] at hsome
    cases hsome
  obtain ⟨edits, table, block, rfl, hmakes, henclosed, htable, hblock⟩ :=
    Draft.enclosed_of_callAll (List.forall_mem_map.mpr fun change _ => by cases change <;> rfl)
      (List.forall_mem_map.mpr fun change hchange => (hpermits change hchange).top_le hnested _)
      hcalls
  rw [List.forall₂_map_left_iff] at hmakes
  obtain ⟨hoists, hdefines, hsublist, hothers⟩ :=
    exists_hoists hnested hstatements hmakes hpermits
  refine ⟨run, hoists, edits.filter (Edit.addsAt m.top),
    Draft.piecesBehind m.top (Text.encode m.source).length edits, hoverrides, ?_,
    hhoisted ▸ hdefines, hsublist, fun edit hedit => ?_, hothers,
    henclosed.chain_piecesBehind hrender, fun edit => henclosed.of_made_mem⟩
  · rw [henclosed.render_eq hrender, slice_top hhashbang, htable, hblock,
      OverridePlan.code_eq_parts]
  · simpa [Edit.addsAt] using (List.mem_filter.mp hedit).2

/-- A module with a hashbang line, an import and an exported function. -/
def executable : Module where
  source := "#!/usr/bin/env node\nimport { a } from 'b';\nexport function f() {}\n"
  root := { kind := .program, start := 0, stop := 66, children := [
    { kind := .hashbang, start := 0, stop := 19 },
    { kind := .importStatement, start := 20, stop := 42, children := [
      { kind := .other "import", start := 20, stop := 26, named := false },
      { kind := .importClause, start := 27, stop := 32, children := [
        { kind := .namedImports, start := 27, stop := 32, children := [
          { kind := .importSpecifier, start := 29, stop := 30, children := [
            { kind := .identifier, start := 29, stop := 30, role := some .name }] }] }] },
      { kind := .string, start := 38, stop := 41, role := some .source }] },
    { kind := .exportStatement, start := 43, stop := 65, children := [
      { kind := .other "export", start := 43, stop := 49, named := false },
      { kind := .functionDeclaration, start := 50, stop := 65, role := some .declaration,
        children := [
          { kind := .identifier, start := 59, stop := 60, role := some .name },
          { kind := .other "formal_parameters", start := 60, stop := 62 },
          { kind := .other "statement_block", start := 63, stop := 65 }] }] }] }

theorem executable_opened : ∃ opening, (executable.transform {}).outcome = .opened opening ∧
    opening.overrides.restore.isSome = true := by
  have himports : ∃ statement ∈ executable.root.namedChildren,
      statement.kind = .importStatement ∧ ∃ binding ∈ statement.importBindings,
        binding.localName.text (Text.encode executable.source) = .ok "a" := by
    decide +kernel
  obtain ⟨statement, hstatement, hkind, binding, hbinding, hname⟩ := himports
  exact opened_of_import (by decide +kernel) (by decide +kernel) hstatement hkind hbinding hname
    (by decide)

/-- Its hashbang line stays the first one, and its function is defined at the top. -/
theorem opened_layout_executable : executable.root.Nested ∧
    (∀ statement ∈ executable.root.namedChildren, statement.start < statement.stop) ∧
    (∀ first, executable.root.children.head? = some first →
      first.kind = .hashbang → first.start = 0) ∧
    ∃ opening, (executable.transform {}).outcome = .opened opening ∧
      opening.overrides.restore.isSome = true ∧
      ∃ (run : executable.Run {}) (hoists front : List Edit) (rest : List Piece),
        run.plan.overrides = opening.overrides ∧
        executable.LaidOut run opening.code hoists front rest := by
  have hnested : executable.root.Nested := by decide +kernel
  have hstatements : ∀ statement ∈ executable.root.namedChildren,
      statement.start < statement.stop := by decide +kernel
  have hhashbang : ∀ first, executable.root.children.head? = some first →
      first.kind = .hashbang → first.start = 0 := by
    rintro _ hfirst -
    obtain rfl := Option.some.inj hfirst
    rfl
  obtain ⟨opening, hopened, hsome⟩ := executable_opened
  exact ⟨hnested, hstatements, hhashbang, opening, hopened, hsome,
    opened_layout hnested hstatements hhashbang hopened hsome⟩

end Module

end Seams
