import Seams.Proofs.Changes

/-!
# What stays as it was

Opening a module rewrites little of it. Some nodes give way, and texts are added at a few seams.
Every other byte of the source stays, in its order, and so do all statements and comments in which
no node gives way.

## Main definitions

* `Module.Touches` — an edit that is made when a module is opened
* `Module.Plain` — a child of the root in which nothing gives way
* `Module.Framed` — code that rewrites a module in the permitted places only

## Main results

* `Module.Touches.beside` — edits lie beside what does not give way
* `Module.opened_frame` — the code of an opened module rewrites it in these places only
-/

namespace Seams

namespace Module

variable {m : Module} {options : Options}

/-- An edit that is made when a module is opened: a node gives way, or text is added at the top, in
front of a statement with a specifier that is turned to a copy, behind an import statement, or at
the end. -/
inductive Touches (m : Module) (options : Options) (edit : Edit) : Prop
  | alters {node : Node} (halters : m.Alters options node) (hstart : edit.start = node.start)
      (hstop : edit.stop = node.stop)
  | top (hstart : edit.start = m.top) (hstop : edit.stop = m.top)
  | before (copy : m.Copied options) (hstart : edit.start = copy.statement.start)
      (hstop : edit.stop = copy.statement.start)
  | behind {statement : Node} (hmem : statement ∈ m.root.namedChildren)
      (hkind : statement.kind = .importStatement) (hstart : edit.start = statement.stop)
      (hstop : edit.stop = statement.stop)
  | last (hstart : edit.start = (Text.encode m.source).length)
      (hstop : edit.stop = (Text.encode m.source).length)

/-- A child of the root that is no import, does not export anything of the module's own, and has no
declaration that may be weakened: a comment, for example, or the export of something from another
module. -/
structure Plain (options : Options) (child : Node) : Prop where
  notImport : child.kind ≠ .importStatement
  notOwn : ¬ child.IsOwnExport
  notWeakened : options.unsafeConst = false ∨ child.lexical? = none

/-- Code in which a module is rewritten in the permitted places only. -/
structure Framed (m : Module) (options : Options) (code : String) (pieces : List Piece) :
    Prop where
  /-- The code is put together from pieces of the source and texts of edits. -/
  code_eq : Text.encode code = pieces.flatMap (Piece.bytes (Text.encode m.source))
  /-- The pieces go through the source, so what stays is in its order. -/
  chain : Piece.Chain 0 (Text.encode m.source).length pieces
  /-- Edits are permitted. -/
  touches : ∀ edit, Piece.made edit ∈ pieces → m.Touches options edit
  /-- Every byte stays that is not in a node that gives way. -/
  stays : ∀ offset < (Text.encode m.source).length,
    (∀ node, m.Alters options node → ¬ (node.start ≤ offset ∧ offset < node.stop)) →
    ∃ first last, Piece.kept first last ∈ pieces ∧ first ≤ offset ∧ offset < last
  /-- What no such node meets stays in one piece. -/
  whole : ∀ child ∈ m.root.children,
    (∀ node, m.Alters options node → node.stop ≤ child.start ∨ child.stop ≤ node.start) →
    ∃ first last, Piece.kept first last ∈ pieces ∧ first ≤ child.start ∧ child.stop ≤ last
  /-- So it is with all other statements and with comments. -/
  plain : ∀ child ∈ m.root.children, Plain options child →
    ∃ first last, Piece.kept first last ∈ pieces ∧ first ≤ child.start ∧ child.stop ≤ last

/-! ### What lies beside edits -/

/-- A node that gives way stands in a statement that is not plain. -/
theorem Alters.exists_holder {node : Node} (h : m.Alters options node) :
    ∃ statement ∈ m.root.namedChildren, node ∈ statement.subtree ∧ ¬ Plain options statement := by
  cases h with
  | statement hmem hown => exact ⟨node, hmem, node.self_mem_subtree, fun h => h.notOwn hown⟩
  | imported hmem hkind hbinding _ _ hnode =>
    refine ⟨_, hmem, ?_, fun h => h.notImport hkind⟩
    rw [hnode]
    exact Node.place_mem_of_mem_importBindings hbinding
  | specifier copy hnode =>
    refine ⟨copy.statement, copy.mem, ?_, fun h => h.notOwn copy.own⟩
    refine Node.exportSpecifiers_subset ?_
    rw [copy.specifiers, hnode]
    exact List.mem_append_right _ (List.mem_cons_self ..)
  | @keyword d hd hpermits hkeyword =>
    obtain ⟨statement, hsite, hlexical⟩ := hd.stands
    refine ⟨statement, List.mem_of_getElem? hsite,
      Node.subtree_trans (Node.keyword?_subset hkeyword) (Node.lexical?_subset hlexical),
      fun h => ?_⟩
    rcases h.notWeakened with hsafe | hnone
    · simp [hpermits] at hsafe
    · simp [hlexical] at hnone

section

variable (hnested : m.root.Nested) {child : Node} (hchild : child ∈ m.root.children)
include hnested hchild

/-- Nodes that give way lie beside whatever is plain. -/
theorem Alters.beside (hplain : Plain options child) {node : Node} (h : m.Alters options node) :
    node.stop ≤ child.start ∨ child.stop ≤ node.start := by
  obtain ⟨statement, hstatement, hnode, hnot⟩ := h.exists_holder
  have hmem := Node.mem_children_of_mem_namedChildren hstatement
  have hne : statement ≠ child := by
    rintro rfl
    exact hnot hplain
  obtain ⟨hstart, -, hstop⟩ :=
    (hnested.below (Node.mem_subtree_of_mem_children hmem)).within hnode
  have := hnested.children.disjoint_of_ne hmem hchild hne
  omega

/-- The top lies beside every child of the root, and only the hashbang line lies in front of it. -/
theorem top_beside : child.kind = .hashbang ∧ child.stop ≤ m.top ∨ m.top ≤ child.start := by
  have hchildren := hnested.children
  rw [top, Node.hashbangEnd]
  cases hcases : m.root.children with
  | nil =>
    rw [hcases] at hchild
    cases hchild
  | cons first rest =>
    rw [hcases] at hchild hchildren
    dsimp only
    split
    · rename_i hfirst
      rcases List.mem_cons.mp hchild with rfl | hchild
      · exact .inl ⟨hfirst, Nat.le_refl _⟩
      · exact .inr (hchildren.2.2.bounds hchild).1
    · exact .inr (Nat.zero_le _)

/-- **Edits lie beside what does not give way.** -/
theorem Touches.beside (hsize : m.root.stop ≤ (Text.encode m.source).length)
    (huntouched : ∀ node, m.Alters options node →
      node.stop ≤ child.start ∨ child.stop ≤ node.start)
    {edit : Edit} (h : m.Touches options edit) :
    edit.stop ≤ child.start ∨ child.stop ≤ edit.start := by
  -- A statement is the child itself, or lies beside it.
  have hstatement : ∀ statement ∈ m.root.namedChildren, statement = child ∨
      statement.stop ≤ child.start ∨ child.stop ≤ statement.start := by
    intro statement hmem
    by_cases heq : statement = child
    · exact .inl heq
    · exact .inr (hnested.children.disjoint_of_ne (Node.mem_children_of_mem_namedChildren hmem)
        hchild heq)
  obtain ⟨-, -, hend⟩ := hnested.children.bounds hchild
  cases h with
  | alters halters hstart hstop =>
    have := huntouched _ halters
    omega
  | top hstart hstop =>
    have := top_beside hnested hchild
    omega
  | before copy hstart hstop =>
    have hbounds := hnested.children.bounds (Node.mem_children_of_mem_namedChildren copy.mem)
    rcases hstatement _ copy.mem with rfl | hbeside <;> omega
  | behind hmem _ hstart hstop =>
    have hbounds := hnested.children.bounds (Node.mem_children_of_mem_namedChildren hmem)
    rcases hstatement _ hmem with rfl | hbeside <;> omega
  | last hstart hstop => omega

end

/-! ### Calls and edits -/

/-- The edit for a permitted change. -/
theorem Permits.touches {change : Change} (h : m.Permits options change) {size : Nat} {edit : Edit}
    (hmakes : (change.call m.top).Makes size edit) : m.Touches options edit := by
  have hstart := hmakes.start
  have hstop := hmakes.stop
  cases change with
  | alter node text =>
    exact .alters h (Int.ofNat.inj hstart).symm (Int.ofNat.inj hstop).symm
  | hoist function text => exact .top (Int.ofNat.inj hstart).symm (Int.ofNat.inj hstop).symm
  | copy statement text =>
    obtain ⟨copy, rfl, -⟩ := h
    exact .before copy (Int.ofNat.inj hstart).symm (Int.ofNat.inj hstop).symm
  | redeclare statement text =>
    exact .behind h.1 h.2 (Int.ofNat.inj hstart).symm (Int.ofNat.inj hstop).symm

/-- The code of an opened module comes from a draft with permitted edits only. -/
theorem exists_touches {opening : Opening}
    (hopened : (m.transform options).outcome = .opened opening) :
    ∃ last, (m.work options).result = .ok (opening.overrides, last) ∧
      last.draft.source = Text.encode m.source ∧
      last.draft.renderBytes = .ok (Text.encode opening.code) ∧
      ∀ edit ∈ last.draft.edits, m.Touches options edit ∧
        edit.start ≤ edit.stop ∧ edit.stop ≤ last.draft.source.length := by
  obtain ⟨changes, added, last, hwork, hpermits, -, hcalls, hrender, hadded⟩ :=
    exists_changes hopened
  obtain ⟨edits, hmakes, -, hdraft⟩ := Draft.callAll_makes hcalls
  refine ⟨last, hwork, by rw [hdraft], hrender, ?_⟩
  rw [hdraft]
  intro edit hedit
  obtain ⟨call, hcall, hmade⟩ := Draft.mem_of_makes hmakes hedit
  refine ⟨?_, hmade.ordered, hmade.inside⟩
  rcases List.mem_append.mp hcall with hcall | hcall
  · obtain ⟨change, hchange, rfl⟩ := List.mem_map.mp hcall
    exact (hpermits change hchange).touches hmade
  · rcases hadded with ⟨-, rfl⟩ | ⟨run, -, rfl⟩
    · cases hcall
    · have hstart := hmade.start
      have hstop := hmade.stop
      rcases List.mem_pair.mp hcall with rfl | rfl
      · exact .top (Int.ofNat.inj hstart).symm (Int.ofNat.inj hstop).symm
      · exact .last (Int.ofNat.inj hstart).symm (Int.ofNat.inj hstop).symm

/-- **An opened module is rewritten in the permitted places only.** Its tree is nested and lies in
its source. Then the code is put together from pieces of the source, in their order, and texts for
nodes that give way or in places for additions. Whatever is in no such node stays. -/
theorem opened_frame {opening : Opening} (hnested : m.root.Nested)
    (hsize : m.root.stop ≤ (Text.encode m.source).length)
    (hopened : (m.transform options).outcome = .opened opening) :
    ∃ pieces, m.Framed options opening.code pieces := by
  obtain ⟨last, -, hsource, hrender, hedits⟩ := exists_touches hopened
  generalize last.draft = draft at hsource hrender hedits
  have htouches : ∀ edit, Piece.made edit ∈ draft.pieces → m.Touches options edit :=
    fun edit hedit =>
      (hedits edit (List.mem_mergeSort.mp (Draft.made_mem_piecesFrom.mp hedit))).1
  have hchain := Draft.chain_pieces hrender fun edit hedit => (hedits edit hedit).2
  have hcode := Draft.renderBytes_eq hrender
  rw [hsource] at hchain hcode
  have hwhole : ∀ child ∈ m.root.children, (∀ node, m.Alters options node →
      node.stop ≤ child.start ∨ child.stop ≤ node.start) → ∃ first last,
        Piece.kept first last ∈ draft.pieces ∧ first ≤ child.start ∧ child.stop ≤ last := by
    intro child hchild huntouched
    obtain ⟨-, -, hend⟩ := hnested.children.bounds hchild
    obtain ⟨first, last, hfirst, hlast, hkept⟩ := Draft.exists_kept
      (fun edit hedit => (hedits edit (List.mem_mergeSort.mp hedit)).1.beside hnested hchild hsize
        huntouched) (Nat.zero_le _) (hsource ▸ Nat.le_trans hend hsize)
    exact ⟨first, last, hkept, hfirst, hlast⟩
  refine ⟨draft.pieces, hcode, hchain, htouches, fun offset hoffset huntouched => ?_, hwhole,
    fun child hchild hplain => hwhole child hchild fun node halters =>
      halters.beside hnested hchild hplain⟩
  obtain ⟨piece, hpiece, hstart, hstop⟩ := hchain.exists_covering (Nat.zero_le _) hoffset
  cases piece with
  | kept first last => exact ⟨first, last, hpiece, hstart, hstop⟩
  | made edit =>
    simp only [Piece.start, Piece.stop] at hstart hstop
    -- An edit that takes bytes away replaces a node.
    cases htouches edit hpiece with
    | alters halters hbegin hend =>
      exact absurd ⟨hbegin ▸ hstart, hend ▸ hstop⟩ (huntouched _ halters)
    | top | before | behind | last => omega

/-- The specimen is opened, and what it is made of stays but for the alias, the export specifier and
the texts that are added. -/
theorem opened_frame_specimen : ∃ opening, specimen.root.Nested ∧
    specimen.root.stop ≤ (Text.encode specimen.source).length ∧
    (specimen.transform {}).outcome = .opened opening ∧
    ∃ pieces, specimen.Framed {} opening.code pieces := by
  have hnested := specimen_wellFormed.nested
  have hsize : specimen.root.stop ≤ (Text.encode specimen.source).length := by decide +kernel
  obtain ⟨opening, hopened, -⟩ := specimen_opened {}
  exact ⟨opening, hnested, hsize, hopened, opened_frame hnested hsize hopened⟩

end Module

end Seams
