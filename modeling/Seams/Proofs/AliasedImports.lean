import Mathlib.Data.List.Pairwise
import Seams.Proofs.Binders
import Seams.Proofs.Completion

/-!
# An import statement with aliases put in

An import is intercepted by putting an alias into its statement. Where that goes depends on the form
of the import: behind a specifier without an alias, since the name in it says what is imported, and
in place of the local name otherwise. The first of these is done by an edit that replaces the whole
specifier and puts it back. So what the edits of a statement lead to is told apart from them, by
going through the source once, which stays as it is between one alias and the next.

## Main definitions

* `Interception` — an import that is intercepted, with its entry and its edit
* `Interception.rewrite` — a stretch of source with aliases put in
* `Interception.Spares` — an alias leaves a node as it is
* `Node.IsBystander` — a part of an import statement that has nothing to do with aliases

## Main results

* `Interception.bytes_infix_rewrite`, `Interception.spares_of_isBystander` — what the aliases spare
* `Draft.splice_interceptions`, `Draft.render_interceptions` — the edits of a statement lead to its
  text with the aliases put in
-/

namespace Seams

/-! ### What is intercepted -/

/-- Whether the alias of an import goes behind its specifier: if that is the specifier of a single
export and has no alias yet. -/
def ImportBinding.appends (binding : ImportBinding) : Bool :=
  binding.form = .single ∧ (binding.specifier.child? .alias).isNone

theorem ImportBinding.place_eq (binding : ImportBinding) :
    binding.place = if binding.appends then binding.specifier else binding.localName := by
  simp only [place, appends, decide_eq_true_eq]

/-- Whether an import is intercepted: if its name is not that of an override function. -/
def ImportBinding.isIntercepted (source : List UInt8) (binding : ImportBinding) : Bool :=
  match binding.localName.text source with
  | .ok name => !isOverrideName name
  | .error _ => false

/-- An import that is intercepted: how it is written, its entry in the inventory, and the edit that
puts its alias into the statement. -/
structure Interception where
  binding : ImportBinding
  entry : Import
  edit : Edit

namespace Interception

section

variable (taken : Interception)

/-- Where the alias goes: behind the specifier of a single export that has no alias yet, and to the
local name otherwise. -/
def start : Nat :=
  if taken.binding.appends then taken.binding.specifier.stop else taken.binding.localName.start

/-- Where the source goes on. A local name gives way to its alias, a specifier does not. -/
def stop : Nat :=
  if taken.binding.appends then taken.binding.specifier.stop else taken.binding.localName.stop

/-- What is put there. -/
def text : String :=
  if taken.binding.appends then " as " ++ taken.entry.alias else taken.entry.alias

/-- A node is left as it is: it ends before the alias or begins where the source goes on. -/
def Spares (node : Node) : Prop :=
  node.stop ≤ taken.start ∨ taken.stop ≤ node.start

/-- An interception fits a source: it has the name that is written there, and its edit puts the
alias in. What the edit replaces in front of the alias, it puts back. -/
structure Fits (source : List UInt8) : Prop where
  name : taken.binding.localName.text source = .ok taken.entry.name
  start : taken.edit.start = taken.binding.place.start
  stop : taken.edit.stop = taken.binding.place.stop
  text : Text.encode taken.edit.text =
    Text.slice source taken.binding.place.start taken.start ++ Text.encode taken.text

end

/-- The source from `reached` up to `stop` with aliases put in. -/
def rewrite (source : List UInt8) (stop : Nat) : Nat → List Interception → List UInt8
  | reached, [] => Text.slice source reached stop
  | reached, taken :: rest =>
    Text.slice source reached taken.start ++ Text.encode taken.text ++
      rewrite source stop taken.stop rest

/-- The edits of an intercepted statement: those that put the aliases in, and one behind it. -/
def edits (stop : Nat) (taken : List Interception) (behind : String) (order : Int) : List Edit :=
  taken.map edit ++ [⟨stop, stop, behind, order⟩]

/-- The declarations of intercepted names, one on each line. -/
def declarations (names : RuntimeNames) (taken : List Interception) : String :=
  "".intercalate (taken.map fun t => "\n" ++ interceptionCode t.entry names)

end Interception

/-! ### The text of a statement -/

/-- Two stretches of bytes that meet are one. -/
theorem Text.slice_append_slice {bytes : List UInt8} {start middle stop : Nat}
    (hstart : start ≤ middle) (hstop : middle ≤ stop) :
    slice bytes start middle ++ slice bytes middle stop = slice bytes start stop := by
  obtain ⟨first, rfl⟩ := Nat.exists_eq_add_of_le hstart
  obtain ⟨second, rfl⟩ := Nat.exists_eq_add_of_le hstop
  rw [slice, slice, slice, Nat.add_sub_cancel_left, Nat.add_sub_cancel_left, Nat.add_assoc,
    Nat.add_sub_cancel_left, List.take_add, List.drop_drop]

/-- A stretch of bytes is followed by what is behind it. -/
theorem Text.slice_append_drop {bytes : List UInt8} {start stop : Nat} (h : start ≤ stop) :
    slice bytes start stop ++ bytes.drop stop = bytes.drop start := by
  obtain ⟨count, rfl⟩ := Nat.exists_eq_add_of_le h
  rw [slice, Nat.add_sub_cancel_left, ← List.drop_drop, List.take_append_drop]

namespace Interception

variable {source : List UInt8} {taken : List Interception} {reached stop : Nat}

/-- An alias goes to its place, and takes no more of it than there is. -/
theorem place_bounds (t : Interception)
    (hplace : t.binding.place.start ≤ t.binding.place.stop) :
    t.binding.place.start ≤ t.start ∧ t.start ≤ t.stop ∧ t.stop = t.binding.place.stop := by
  rw [ImportBinding.place_eq] at hplace ⊢
  rw [start, stop]
  cases happends : t.binding.appends <;> rw [happends] at hplace
  case true => exact ⟨hplace, Nat.le_refl _, rfl⟩
  case false => exact ⟨Nat.le_refl _, hplace, rfl⟩

/-- The source in front of the first alias stays as it is. -/
theorem slice_append_rewrite {middle : Nat} (hstart : reached ≤ middle) (hstop : middle ≤ stop)
    (htaken : ∀ t ∈ taken, middle ≤ t.start) :
    Text.slice source reached middle ++ rewrite source stop middle taken =
      rewrite source stop reached taken := by
  cases taken with
  | nil => exact Text.slice_append_slice hstart hstop
  | cons first rest =>
    rw [rewrite, rewrite, ← Text.slice_append_slice hstart (htaken first (List.mem_cons_self ..))]
    simp only [List.append_assoc]

/-- Nodes that all aliases spare stay as they are. -/
theorem bytes_infix_rewrite {node : Node} (hstart : reached ≤ node.start)
    (hnode : node.start ≤ node.stop) (hstop : node.stop ≤ stop)
    (hspares : ∀ t ∈ taken, t.Spares node) :
    node.bytes source <:+: rewrite source stop reached taken := by
  have hslice : ∀ {first last}, first ≤ node.start → node.stop ≤ last →
      node.bytes source <:+: Text.slice source first last := by
    intro first last hfirst hlast
    rw [← Text.slice_append_slice hfirst (Nat.le_trans hnode hlast),
      ← Text.slice_append_slice hnode hlast]
    exact ⟨_, _, List.append_assoc _ _ _⟩
  induction taken generalizing reached with
  | nil => exact hslice hstart hstop
  | cons first rest ih =>
    rw [rewrite]
    rcases hspares first (List.mem_cons_self ..) with hbefore | hbehind
    · have hkept := hslice hstart hbefore
      exact hkept.trans ((List.prefix_append _ _).trans (List.prefix_append _ _)).isInfix
    · have hkept := ih hbehind fun t ht => hspares t (List.mem_cons_of_mem _ ht)
      exact hkept.trans (List.suffix_append _ _).isInfix

/-- What the first edit leads to, and the rest. -/
theorem Fits.rewrite_cons {first : Interception} (h : first.Fits source)
    (hreached : reached ≤ first.binding.place.start)
    (hplace : first.binding.place.start ≤ first.binding.place.stop) (rest : List Interception) :
    rewrite source stop reached (first :: rest) =
      Text.slice source reached first.edit.start ++ Text.encode first.edit.text ++
        rewrite source stop first.edit.stop rest := by
  obtain ⟨hbefore, -, hstop⟩ := first.place_bounds hplace
  rw [rewrite, h.start, h.stop, h.text, ← hstop, ← Text.slice_append_slice hreached hbefore]
  simp only [List.append_assoc]

end Interception

/-! ### What aliases spare -/

/-- A part of an import statement that has nothing to do with aliases: it stands beside the clause
of the imports, it says what is imported, or it is an import that is not intercepted. -/
inductive Node.IsBystander (source : List UInt8) (statement node : Node) : Prop
  | beside (hchild : node ∈ statement.children) (hkind : node.kind ≠ .importClause)
  | imported {binding : ImportBinding} (hbinding : binding ∈ statement.importBindings)
      (hsingle : binding.form = .single) (hname : binding.specifier.child? .name = some node)
  | skipped {binding : ImportBinding} (hbinding : binding ∈ statement.importBindings)
      (hskipped : binding.isIntercepted source = false) (hextent : binding.extent = node)

namespace Node

variable {text : String} {statement : Node} {a b : ImportBinding}

/-- The local name of a single export is its alias, if it has one. -/
theorem localName_of_single (h : a ∈ statement.importBindings) (hsingle : a.form = .single) :
    a.specifier.child? .alias = some a.localName ∨
      a.specifier.child? .alias = none ∧ a.specifier.child? .name = some a.localName := by
  obtain ⟨clause, -, h⟩ := List.mem_flatMap.mp h
  obtain ⟨part, -, h⟩ := List.mem_flatMap.mp h
  rw [clausePartBindings] at h
  split at h
  · rw [List.mem_singleton.mp h] at hsingle
    cases hsingle
  · obtain ⟨child, -, rfl⟩ := List.mem_map.mp h
    cases hsingle
  · obtain ⟨specifier, -, h⟩ := List.mem_filterMap.mp h
    obtain ⟨-, heq, hname⟩ := specifierBinding?_eq_some.mp h
    rw [heq]
    exact hname
  · cases h

theorem IsBystander.mem_subtree {source : List UInt8} {node : Node}
    (h : statement.IsBystander source node) : node ∈ statement.subtree := by
  cases h with
  | beside hchild => exact mem_subtree_of_mem_children hchild
  | imported hbinding _ hname =>
    exact subtree_trans (mem_subtree_of_child? hname) (importBindings_subset hbinding).2
  | skipped hbinding _ hextent => exact hextent ▸ extent_mem_of_mem_importBindings hbinding

/-- Two imports of a statement stand apart. -/
theorem WellFormed.extents_disjoint (h : statement.WellFormed text)
    (ha : a ∈ statement.importBindings) (hb : b ∈ statement.importBindings) (hne : a ≠ b) :
    a.extent.stop ≤ b.extent.start ∨ b.extent.stop ≤ a.extent.start := by
  have : Std.Symm fun a b : ImportBinding =>
      a.extent.stop ≤ b.extent.start ∨ b.extent.stop ≤ a.extent.start := ⟨fun _ _ => Or.symm⟩
  have hapart : statement.importBindings.Pairwise fun a b =>
      a.extent.stop ≤ b.extent.start ∨ b.extent.stop ≤ a.extent.start :=
    (importBindings_successive h).imp .inl
  exact hapart.forall ha hb hne

/-- The name and the alias of a specifier stand apart. -/
theorem WellFormed.name_disjoint_alias {specifier name other : Node}
    (h : specifier.WellFormed text) (hname : specifier.child? .name = some name)
    (hother : specifier.child? .alias = some other) :
    name.stop ≤ other.start ∨ other.stop ≤ name.start := by
  refine h.fits.children.disjoint_of_ne (mem_children_of_child? hname)
    (mem_children_of_child? hother) ?_
  rintro rfl
  have hrole := List.find?_some hname
  have hrole' := List.find?_some hother
  simp at hrole hrole'
  rw [hrole] at hrole'
  cases hrole'

end Node

/-- The alias of a single export spares the name under which it is exported. -/
theorem Interception.spares_name {text : String} {statement : Node} {t : Interception} {name : Node}
    (h : t.binding.specifier.WellFormed text)
    (hmem : t.binding ∈ statement.importBindings) (hsingle : t.binding.form = .single)
    (hname : t.binding.specifier.child? .name = some name) : t.Spares name := by
  rw [Spares, start, stop]
  rcases Node.localName_of_single hmem hsingle with halias | ⟨hnone, -⟩
  · have happends : t.binding.appends = false := by simp [ImportBinding.appends, halias]
    rw [happends]
    exact h.name_disjoint_alias hname halias
  · have happends : t.binding.appends = true := by simp [ImportBinding.appends, hsingle, hnone]
    rw [happends]
    exact .inl (h.within (Node.mem_subtree_of_child? hname)).2.2

/-- **Aliases spare what has nothing to do with them.** -/
theorem Interception.spares_of_isBystander {text : String} {statement node : Node}
    (hwell : statement.WellFormed text) {t : Interception}
    (hmem : t.binding ∈ statement.importBindings)
    (hintercepted : t.binding.isIntercepted (Text.encode text) = true)
    (h : statement.IsBystander (Text.encode text) node) : t.Spares node := by
  obtain ⟨hextent, hplace, hextent'⟩ := hwell.place_within hmem
  obtain ⟨hstart, -, hstop⟩ := t.place_bounds hplace
  -- It is enough to stand apart from what the import takes up.
  have happart : node.stop ≤ t.binding.extent.start ∨ t.binding.extent.stop ≤ node.start →
      t.Spares node := by
    rw [Spares]
    omega
  cases h with
  | beside hchild hkind =>
    obtain ⟨clause, hclause, hpart⟩ := List.mem_flatMap.mp hmem
    obtain ⟨part, hpart, hbinding⟩ := List.mem_flatMap.mp hpart
    obtain ⟨hclause, hclauseKind⟩ := List.mem_filter.mp hclause
    have hbelow := Node.subtree_trans (Node.extent_mem_of_mem_clausePart hbinding)
      (Node.mem_subtree_of_mem_namedChildren hpart)
    have hin := (hwell.below (Node.mem_subtree_of_mem_namedChildren hclause)).within hbelow
    have hne : node ≠ clause := by
      rintro rfl
      exact hkind (by simpa using hclauseKind)
    have hdisjoint := hwell.fits.children.disjoint_of_ne hchild
      (Node.mem_children_of_mem_namedChildren hclause) hne
    exact happart (by omega)
  | @imported binding hbinding hsingle hname =>
    have hspecifier := (Node.importBindings_subset hbinding).2
    have hin := (hwell.below hspecifier).within (Node.mem_subtree_of_child? hname)
    have hextent : binding.extent = binding.specifier := if_pos hsingle
    by_cases heq : binding = t.binding
    · subst heq
      exact spares_name (hwell.below hspecifier) hbinding hsingle hname
    · have hdisjoint := hwell.extents_disjoint hbinding hmem heq
      rw [hextent] at hdisjoint
      exact happart (by omega)
  | @skipped binding hbinding hskipped heq =>
    have hne : binding ≠ t.binding := by
      rintro rfl
      rw [hskipped] at hintercepted
      cases hintercepted
    subst heq
    exact happart (hwell.extents_disjoint hbinding hmem hne)

/-! ### The edits of a statement -/

/-- **The edits of a statement** lead to its text with the aliases put in, and what is inserted
behind it comes next. -/
theorem Draft.splice_interceptions {source : List UInt8} {taken : List Interception}
    {reached stop : Nat} (hfits : ∀ t ∈ taken, t.Fits source) (hreached : reached ≤ stop)
    (hplaces : ∀ t ∈ taken, reached ≤ t.binding.place.start ∧
      t.binding.place.start ≤ t.binding.place.stop ∧ t.binding.place.stop ≤ stop)
    (hfollow : ImportBinding.Follow (taken.map Interception.binding)) (code : String)
    (order : Int) :
    splice source reached (Interception.edits stop taken code order) =
      .ok (Interception.rewrite source stop reached taken ++ Text.encode code ++
        source.drop stop) := by
  rw [Interception.edits]
  induction taken generalizing reached with
  | nil =>
    rw [List.map_nil, List.nil_append, splice, if_neg (Nat.not_lt.mpr hreached)]
    rfl
  | cons first rest ih =>
    obtain ⟨hfirst, hrest⟩ := List.pairwise_cons.mp hfollow
    obtain ⟨hstart, hplace, hstop⟩ := hplaces first (List.mem_cons_self ..)
    have hfit := hfits first (List.mem_cons_self ..)
    have hstop' : first.edit.stop ≤ stop := hfit.stop ▸ hstop
    have hrestPlaces : ∀ t ∈ rest, first.edit.stop ≤ t.binding.place.start ∧
        t.binding.place.start ≤ t.binding.place.stop ∧ t.binding.place.stop ≤ stop := by
      intro t ht
      obtain ⟨-, hordered, hend⟩ := hplaces t (List.mem_cons_of_mem _ ht)
      exact ⟨hfit.stop ▸ hfirst _ (List.mem_map_of_mem ht), hordered, hend⟩
    have hplaced := ih (fun t ht => hfits t (List.mem_cons_of_mem _ ht)) hstop' hrestPlaces hrest
    rw [List.map_cons, List.cons_append, splice,
      if_neg (by rw [hfit.start]; exact Nat.not_lt.mpr hstart), hplaced,
      hfit.rewrite_cons hstart hplace]
    simp only [List.append_assoc]
    rfl

/-- Of two edits, the one that ends where the other begins is rendered first, or the one that was
made first. -/
theorem Edit.precedes_of_follow {a b : Edit} (ha : a.start ≤ a.stop) (h : a.stop ≤ b.start)
    (horder : a.order ≤ b.order) : a.precedes b = true := by
  refine precedes_iff.mpr ?_
  rcases Nat.lt_or_ge a.start b.start with hlt | hge
  · exact .inl hlt
  · have hins : a.isInsertion = true := by
      rw [isInsertion, beq_iff_eq]
      omega
    refine .inr ⟨by omega, ?_⟩
    cases hb : b.isInsertion with
    | false => exact .inl ⟨hins, rfl⟩
    | true => exact .inr ⟨hins, horder⟩

/-! ### Statements -/

section

variable {text : String} {statement : Node} {taken : List Interception}
  (hwell : statement.WellFormed text)
  (hbindings : taken.map Interception.binding =
    statement.importBindings.filter (·.isIntercepted (Text.encode text)))
include hwell hbindings

/-- The places of aliases lie in the statement and split no character. -/
theorem Interception.place_fits {t : Interception} (ht : t ∈ taken) :
    t.binding.place.Fits text ∧ statement.start ≤ t.binding.place.start ∧
      t.binding.place.start ≤ t.binding.place.stop ∧ t.binding.place.stop ≤ statement.stop := by
  have hmem : t.binding ∈ statement.importBindings :=
    (List.mem_filter.mp (hbindings ▸ List.mem_map_of_mem ht)).1
  have hplace := Node.place_mem_of_mem_importBindings hmem
  exact ⟨hwell _ hplace, hwell.within hplace⟩

/-- They follow each other. -/
theorem Interception.places_follow : ImportBinding.Follow (taken.map Interception.binding) := by
  rw [hbindings]
  exact (Node.importBindings_follow hwell).filter _

/-- The edits split no character. -/
theorem Interception.edits_onBoundaries (hfits : ∀ t ∈ taken, t.Fits (Text.encode text))
    (behind : String) (order : Int) :
    ∀ edit ∈ edits statement.stop taken behind order, edit.OnBoundaries text := by
  intro edit hedit
  rcases List.mem_append.mp hedit with hedit | hedit
  · obtain ⟨t, ht, rfl⟩ := List.mem_map.mp hedit
    obtain ⟨hplace, -, hordered, -⟩ := place_fits hwell hbindings ht
    have hfit := hfits t ht
    exact ⟨by rwa [hfit.start, hfit.stop], hfit.start ▸ hplace.start, hfit.stop ▸ hplace.stop⟩
  · rw [List.mem_singleton.mp hedit]
    exact ⟨Nat.le_refl _, hwell.fits.stop, hwell.fits.stop⟩

/-- They follow each other, too. -/
theorem Interception.edits_follow (hfits : ∀ t ∈ taken, t.Fits (Text.encode text))
    (behind : String) (order : Int) :
    (edits statement.stop taken behind order).Pairwise fun a b => a.stop ≤ b.start := by
  have hfollow := List.pairwise_map.mp (places_follow hwell hbindings)
  refine List.pairwise_append.mpr ⟨List.pairwise_map.mpr ?_, List.pairwise_singleton _ _, ?_⟩
  · refine hfollow.imp_of_mem fun {a b} ha hb hab => ?_
    rw [(hfits a ha).stop, (hfits b hb).start]
    exact hab
  · intro edit hedit last hlast
    obtain ⟨t, ht, rfl⟩ := List.mem_map.mp hedit
    rw [List.mem_singleton.mp hlast, (hfits t ht).stop]
    exact (place_fits hwell hbindings ht).2.2.2

/-- The text of a module with one of its import statements intercepted. -/
theorem Draft.render_interceptions (hfits : ∀ t ∈ taken, t.Fits (Text.encode text))
    (hascending : taken.Pairwise fun a b => a.edit.order ≤ b.edit.order) {order : Int}
    (horder : ∀ t ∈ taken, t.edit.order ≤ order) (behind : String) :
    ∃ code, (⟨Text.encode text, Interception.edits statement.stop taken behind order⟩ :
        Draft).render = .ok code ∧
      Text.encode code = (Text.encode text).take statement.start ++
        Interception.rewrite (Text.encode text) statement.stop statement.start taken ++
        Text.encode behind ++ (Text.encode text).drop statement.stop := by
  have hplaces := fun t ht => (Interception.place_fits hwell hbindings (t := t) ht).2
  have hbounds := Interception.edits_onBoundaries hwell hbindings hfits behind order
  have hfollow := Interception.edits_follow hwell hbindings hfits behind order
  -- The edits are in the order of rendering as they were made.
  have hranks : (Interception.edits statement.stop taken behind order).Pairwise
      fun a b => a.order ≤ b.order := by
    refine List.pairwise_append.mpr
      ⟨List.pairwise_map.mpr hascending, List.pairwise_singleton _ _, ?_⟩
    intro edit hedit last hlast
    obtain ⟨t, ht, rfl⟩ := List.mem_map.mp hedit
    rw [List.mem_singleton.mp hlast]
    exact horder t ht
  have hsorted : (Interception.edits statement.stop taken behind order).Pairwise
      fun a b => a.precedes b = true :=
    (hfollow.and hranks).imp_of_mem fun ha _ h =>
      Edit.precedes_of_follow (hbounds _ ha).ordered h.1 h.2
  obtain ⟨code, hcode⟩ := Draft.splice_of_follow (Text.isBoundary_zero text) hbounds
    (fun _ _ => Nat.zero_le _) hfollow
  have hbytes := Draft.splice_interceptions hfits (Nat.zero_le _)
    (fun t ht => ⟨Nat.zero_le _, (hplaces t ht).2⟩)
    (Interception.places_follow hwell hbindings) behind order
  refine ⟨code, ?_, ?_⟩
  · rw [render, renderBytes, List.mergeSort_of_pairwise hsorted, hcode]
    exact readText_encode code
  · rw [← Except.ok.inj (hbytes.symm.trans hcode),
      ← Interception.slice_append_rewrite (Nat.zero_le statement.start) hwell.start_le_stop
        fun t ht => Nat.le_trans (hplaces t ht).1 (t.place_bounds (hplaces t ht).2.1).1]
    rfl

end

end Seams
