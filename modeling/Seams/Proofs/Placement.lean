import Seams.Proofs.ScopeOfTree
import Seams.Proofs.Splice

/-!
# Where edits are placed

While a module is opened, edits are made in three kinds of places: texts are inserted at a *seam*,
an offset that lies inside no statement; the keyword of a constant is replaced when the constant is
weakened; and a statement that is worked on is replaced, as a whole or in parts. A statement that
is or exports a `let` or `const` declaration is never replaced, and a constant is weakened once, so
edits never get in each other's way.

The statements are worked on in order. The offset reached so far bounds the replacements inside
statements, and the next one begins there or later.

## Main definitions

* `Module.IsSeam` — an offset inside no statement
* `Module.Placed` — an edit in one of the three kinds of places
* `Tidy` — a workbench all of whose edits are so placed, and apart from each other

## Main results

* `Tidy.insert_ok`, `Tidy.prepend_ok` — inserting at a seam
* `Tidy.replaceNode_ok` — replacing a node of the statement that is worked on
* `Tidy.weaken_gives` — weakening a constant
-/

namespace Seams

/-! ### Seams -/

/-- An offset between characters that lies inside no top-level statement. -/
structure Module.IsSeam (m : Module) (offset : Nat) : Prop where
  boundary : Text.IsBoundary m.source offset
  outside : ∀ statement ∈ m.root.namedChildren,
    ¬ (statement.start < offset ∧ offset < statement.stop)

namespace Module.WellFormed

variable {m : Module} {statement : Node}

theorem ofStatement (h : m.WellFormed) (hs : statement ∈ m.root.namedChildren) :
    statement.WellFormed m.source :=
  Node.WellFormed.below h (Node.mem_subtree_of_mem_namedChildren hs)

theorem statements (h : m.WellFormed) :
    m.root.namedChildren.Pairwise fun a b => a.stop ≤ b.start :=
  (Node.WellFormed.fits h).children.pairwise.filter _

/-- Statements that come later begin where those before end, or later. -/
theorem stop_le_start (h : m.WellFormed) {i j : Nat} {a b : Node}
    (ha : m.root.namedChildren[i]? = some a) (hb : m.root.namedChildren[j]? = some b)
    (hij : i < j) : a.stop ≤ b.start :=
  (Node.WellFormed.fits h).children.stop_le_start ha hb hij

/-- Of two statements, one ends before the other begins. -/
theorem statements_disjoint (h : m.WellFormed) {i j : Nat} {a b : Node}
    (ha : m.root.namedChildren[i]? = some a) (hb : m.root.namedChildren[j]? = some b)
    (hij : i ≠ j) : a.stop ≤ b.start ∨ b.stop ≤ a.start := by
  rcases Nat.lt_or_gt_of_ne hij with hlt | hgt
  · exact .inl (h.stop_le_start ha hb hlt)
  · exact .inr (h.stop_le_start hb ha hgt)

theorem statements_disjoint_of_ne (h : m.WellFormed) {a b : Node} (ha : a ∈ m.root.namedChildren)
    (hb : b ∈ m.root.namedChildren) (hab : a ≠ b) : a.stop ≤ b.start ∨ b.stop ≤ a.start :=
  (Node.WellFormed.fits h).children.disjoint_of_ne (Node.mem_children_of_mem_namedChildren ha)
    (Node.mem_children_of_mem_namedChildren hb) hab

theorem isSeam_start (h : m.WellFormed) (hs : statement ∈ m.root.namedChildren) :
    m.IsSeam statement.start := by
  refine ⟨(h.ofStatement hs).fits.start, fun other hother hin => ?_⟩
  have := (h.ofStatement hs).start_le_stop
  by_cases heq : other = statement
  · subst heq
    omega
  · have := h.statements_disjoint_of_ne hother hs heq
    omega

theorem isSeam_stop (h : m.WellFormed) (hs : statement ∈ m.root.namedChildren) :
    m.IsSeam statement.stop := by
  refine ⟨(h.ofStatement hs).fits.stop, fun other hother hin => ?_⟩
  have := (h.ofStatement hs).start_le_stop
  by_cases heq : other = statement
  · subst heq
    omega
  · have := h.statements_disjoint_of_ne hother hs heq
    omega

theorem isSeam_zero (m : Module) : m.IsSeam 0 :=
  ⟨Text.isBoundary_zero _, fun _ _ h => Nat.not_lt_zero _ h.1⟩

theorem isSeam_length (h : m.WellFormed) : m.IsSeam (Text.encode m.source).length := by
  refine ⟨Text.isBoundary_length _, fun other hother hin => ?_⟩
  have := (h.ofStatement hother).fits.stop.le_length
  omega

/-- The place behind the hashbang line is a seam. -/
theorem isSeam_hashbang (h : m.WellFormed) {stop : Nat} (hstop : m.root.hashbangEnd = some stop) :
    m.IsSeam stop := by
  rw [Node.hashbangEnd] at hstop
  split at hstop
  · rename_i first rest hchildren
    split at hstop
    · obtain rfl := Option.some.inj hstop
      have horder := (Node.WellFormed.fits h).children.pairwise
      have hmem : first ∈ m.root.children := hchildren ▸ List.mem_cons_self ..
      rw [hchildren, List.pairwise_cons] at horder
      refine ⟨(Node.WellFormed.below h (Node.mem_subtree_of_mem_children hmem)).fits.stop,
        fun other hother hin => ?_⟩
      have hother := Node.mem_children_of_mem_namedChildren hother
      rw [hchildren] at hother
      rcases List.mem_cons.mp hother with rfl | hother
      · omega
      · have := horder.1 other hother
        omega
    · cases hstop
  · cases hstop

end Module.WellFormed

/-! ### Edits that are apart -/

namespace Edit

theorem Apart.of_stop_le {a b : Edit} (h : a.stop ≤ b.start) (ha : a.start ≤ a.stop) :
    a.Apart b :=
  ⟨by omega, by omega, by omega⟩

/-- An insertion is apart from an edit inside which it does not lie. -/
theorem Apart.of_insertion {a b : Edit} (ha : a.stop = a.start)
    (h : ¬ (b.start < a.start ∧ a.start < b.stop)) : a.Apart b :=
  ⟨by omega, h, by omega⟩

/-- An edit inside the range of a node. -/
structure Inside (edit : Edit) (node : Node) : Prop where
  start : node.start ≤ edit.start
  ordered : edit.start ≤ edit.stop
  stop : edit.stop ≤ node.stop

theorem Apart.of_disjoint {a b : Edit} {p q : Node} (ha : a.Inside p) (hb : b.Inside q)
    (h : p.stop ≤ q.start ∨ q.stop ≤ p.start) : a.Apart b := by
  obtain ⟨h₁, h₂, h₃⟩ := ha
  obtain ⟨h₄, h₅, h₆⟩ := hb
  rcases h with h | h
  · exact .of_stop_le (by omega) h₂
  · exact (Apart.of_stop_le (by omega) h₅).symm

theorem Apart.of_seam {m : Module} {a b : Edit} {statement : Node} (hseam : m.IsSeam a.start)
    (ha : a.stop = a.start) (hstatement : statement ∈ m.root.namedChildren)
    (hb : b.Inside statement) : a.Apart b := by
  obtain ⟨h₁, h₂, h₃⟩ := hb
  exact .of_insertion ha fun hin => hseam.outside statement hstatement ⟨by omega, by omega⟩

end Edit

/-- The constants declared at a site have been weakened. -/
def Scope.Weakened (scope : Scope) (site : Nat) : Prop :=
  ∀ name binding, scope.get? name = some binding → binding.isFrom site = true →
    binding.kind ≠ .const

/-- A place where an edit may be made while a module is opened. Inside statements, replacements do
not go beyond the offset `reached`. -/
inductive Module.Placed (m : Module) (reached : Nat) (scope : Scope) (edit : Edit) : Prop where
  | seam (hseam : m.IsSeam edit.start) (hstop : edit.stop = edit.start)
  | keyword {site : Nat} {statement declaration keyword : Node}
      (hstatement : m.root.namedChildren[site]? = some statement)
      (hlexical : statement.lexical? = some declaration)
      (hkeyword : declaration.keyword? = some keyword) (hstart : edit.start = keyword.start)
      (hstop : edit.stop = keyword.stop) (hweakened : scope.Weakened site)
  | part {statement : Node} (hstatement : statement ∈ m.root.namedChildren)
      (hlexical : statement.lexical? = none) (hstart : statement.start ≤ edit.start)
      (hstop : edit.stop ≤ statement.stop) (hreached : edit.stop ≤ reached)

theorem Node.keyword?_subset {declaration keyword : Node}
    (h : declaration.keyword? = some keyword) : keyword ∈ declaration.subtree :=
  mem_subtree_of_mem_children (List.mem_of_find?_eq_some h)

/-- A keyword lies inside the statement of its declaration. -/
theorem Module.WellFormed.keyword_inside {m : Module} (hm : m.WellFormed)
    {statement declaration keyword : Node} {edit : Edit}
    (hstatement : statement ∈ m.root.namedChildren)
    (hlexical : statement.lexical? = some declaration)
    (hkeyword : declaration.keyword? = some keyword) (hstart : edit.start = keyword.start)
    (hstop : edit.stop = keyword.stop) : edit.Inside statement := by
  have hbelow := Node.subtree_trans (Node.keyword?_subset hkeyword) (Node.lexical?_subset hlexical)
  obtain ⟨h₁, h₂, h₃⟩ := (hm.ofStatement hstatement).within hbelow
  exact ⟨by omega, by omega, by omega⟩

/-- An edit that is not at a seam lies inside a statement. -/
theorem Module.Placed.inside {m : Module} {reached : Nat} {scope : Scope} {edit : Edit}
    (h : m.Placed reached scope edit) (hm : m.WellFormed) (hordered : edit.start ≤ edit.stop) :
    edit.stop = edit.start ∨ ∃ statement ∈ m.root.namedChildren, edit.Inside statement := by
  cases h with
  | seam _ hstop => exact .inl hstop
  | keyword hstatement hlexical hkeyword hstart hstop _ =>
    have hmem := List.mem_of_getElem? hstatement
    exact .inr ⟨_, hmem, hm.keyword_inside hmem hlexical hkeyword hstart hstop⟩
  | part hstatement _ hstart hstop _ => exact .inr ⟨_, hstatement, hstart, hordered, hstop⟩

/-- A scope in which nothing new has a declaration behind it, and nothing new is a constant. -/
def Scope.Looser (before after : Scope) : Prop :=
  ∀ name binding, after.get? name = some binding → binding.declaration = none ∨
    ∃ old, before.get? name = some old ∧ binding.declaration = old.declaration ∧
      (binding.kind = .const → old.kind = .const)

namespace Scope

theorem Looser.refl (scope : Scope) : scope.Looser scope :=
  fun _ binding h => .inr ⟨binding, h, rfl, id⟩

theorem looser_register (scope : Scope) (name : String) (kind : BindingKind) :
    scope.Looser (scope.register name kind) := by
  intro other binding h
  rw [get?_register] at h
  split at h
  · exact .inl (by rw [← Option.some.inj h])
  · exact .inr ⟨binding, h, rfl, id⟩

theorem looser_remove (scope : Scope) (name : String) : scope.Looser (scope.remove name) := by
  intro other binding h
  rw [get?_remove] at h
  split at h
  · cases h
  · exact .inr ⟨binding, h, rfl, id⟩

theorem looser_loosen (scope : Scope) (site : Nat) : scope.Looser (scope.loosen site) := by
  intro other binding h
  rw [get?_loosen] at h
  obtain ⟨old, hold, rfl⟩ := Option.map_eq_some_iff.mp h
  refine .inr ⟨old, hold, ?_⟩
  split
  · exact ⟨rfl, fun h => by cases h⟩
  · exact ⟨rfl, id⟩

theorem weakened_loosen (scope : Scope) (site : Nat) : (scope.loosen site).Weakened site := by
  intro name binding h hfrom hconst
  rw [get?_loosen] at h
  obtain ⟨old, -, rfl⟩ := Option.map_eq_some_iff.mp h
  split at hfrom
  · rename_i hold
    simp [hold] at hconst
  · contradiction

theorem Weakened.mono {before after : Scope} {site : Nat} (h : before.Weakened site)
    (hlooser : before.Looser after) : after.Weakened site := by
  intro name binding hb hfrom hconst
  rcases hlooser name binding hb with hnone | ⟨old, hold, hdeclaration, hkind⟩
  · simp [Binding.isFrom, hnone] at hfrom
  · refine h name old hold ?_ (hkind hconst)
    rwa [Binding.isFrom, ← hdeclaration]

end Scope

theorem Module.Placed.mono {m : Module} {reached reached' : Nat} {scope scope' : Scope}
    {edit : Edit} (h : m.Placed reached scope edit) (hreached : reached ≤ reached')
    (hscope : scope.Looser scope') : m.Placed reached' scope' edit := by
  cases h with
  | seam hseam hstop => exact .seam hseam hstop
  | keyword hstatement hlexical hkeyword hstart hstop hweakened =>
    exact .keyword hstatement hlexical hkeyword hstart hstop (hweakened.mono hscope)
  | part hstatement hlexical hstart hstop hbefore =>
    exact .part hstatement hlexical hstart hstop (Nat.le_trans hbefore hreached)

/-! ### Tidy workbenches -/

/-- A workbench whose draft has edits in the right places only, and apart from each other. -/
structure Tidy (m : Module) (reached : Nat) (bench : Workbench) : Prop where
  source : bench.draft.source = Text.encode m.source
  hashbang : bench.hashbangEnd = m.root.hashbangEnd
  /-- The declaration behind a binding is the one at its site. -/
  declarations : ∀ name binding d, bench.scope.get? name = some binding →
    binding.declaration = some d → ∃ statement, m.root.namedChildren[d.site]? = some statement ∧
      statement.lexical? = some d.node
  placed : ∀ edit ∈ bench.draft.edits, m.Placed reached bench.scope edit
  bounds : ∀ edit ∈ bench.draft.edits, edit.OnBoundaries m.source
  apart : bench.draft.edits.Pairwise Edit.Apart

namespace Tidy

variable {m : Module} {reached : Nat} {bench : Workbench}

theorem mono (h : Tidy m reached bench) {reached' : Nat} (hle : reached ≤ reached') :
    Tidy m reached' bench :=
  { h with placed := fun edit hedit => (h.placed edit hedit).mono hle (.refl _) }

/-- A workbench stays tidy while its scope gets looser. -/
theorem setScope (h : Tidy m reached bench) {scope : Scope} (hscope : bench.scope.Looser scope) :
    Tidy m reached (bench.setScope scope) where
  source := h.source
  hashbang := h.hashbang
  declarations name binding d hb hd := by
    rcases hscope name binding hb with hnone | ⟨old, hold, hdeclaration, -⟩
    · rw [hnone] at hd
      cases hd
    · exact h.declarations name old d hold (hdeclaration ▸ hd)
  placed edit hedit := (h.placed edit hedit).mono (Nat.le_refl _) hscope
  bounds := h.bounds
  apart := h.apart

theorem register (h : Tidy m reached bench) (name : String) (kind : BindingKind) :
    Tidy m reached (bench.register name kind) :=
  h.setScope (Scope.looser_register _ _ _)

theorem fresh (h : Tidy m reached bench) (base : String) : Tidy m reached (bench.fresh base).2 :=
  ⟨h.source, h.hashbang, h.declarations, h.placed, h.bounds, h.apart⟩

/-- One more edit. -/
theorem record (h : Tidy m reached bench) {edit : Edit} {reached' : Nat} {scope : Scope}
    (hle : reached ≤ reached') (hscope : bench.scope.Looser scope)
    (hbounds : edit.OnBoundaries m.source) (hplaced : m.Placed reached' scope edit)
    (hapart : ∀ other ∈ bench.draft.edits, other.Apart edit) :
    Tidy m reached' { bench.setScope scope with
      draft := { bench.draft with edits := bench.draft.edits ++ [edit] } } where
  source := h.source
  hashbang := h.hashbang
  declarations := (h.setScope hscope).declarations
  placed other hother := by
    rcases List.mem_append.mp hother with hother | hother
    · exact (h.placed other hother).mono hle hscope
    · rw [List.mem_singleton.mp hother]
      exact hplaced
  bounds other hother := by
    rcases List.mem_append.mp hother with hother | hother
    · exact h.bounds other hother
    · rw [List.mem_singleton.mp hother]
      exact hbounds
  apart := by
    refine List.pairwise_append.mpr ⟨h.apart, List.pairwise_singleton _ _, fun a ha b hb => ?_⟩
    rw [List.mem_singleton.mp hb]
    exact hapart a ha

/-- Whatever is inserted at a seam is apart from every edit. -/
theorem apart_of_seam (h : Tidy m reached bench) (hm : m.WellFormed) {edit other : Edit}
    (hseam : m.IsSeam edit.start) (hstop : edit.stop = edit.start)
    (hother : other ∈ bench.draft.edits) : other.Apart edit := by
  rcases (h.placed other hother).inside hm (h.bounds other hother).ordered with
    hins | ⟨statement, hstatement, hinside⟩
  · exact (Edit.Apart.of_insertion hstop (by omega)).symm
  · exact (Edit.Apart.of_seam hseam hstop hstatement hinside).symm

/-! ### Making edits -/

/-- An edit of a range in the source is made. -/
theorem replace_ok {draft : Draft} {start stop : Nat} (text : String) (hle : start ≤ stop)
    (hstop : stop ≤ draft.source.length) :
    draft.replace start stop text =
      .ok { draft with edits := draft.edits ++ [⟨start, stop, text, draft.nextOrder⟩] } := by
  rw [Draft.replace, if_pos ⟨by omega, by omega, by omega⟩]
  simp

/-- A text can be inserted at a seam. -/
theorem insert_ok (h : Tidy m reached bench) (hm : m.WellFormed) {offset : Nat}
    (hseam : m.IsSeam offset) (text : String) :
    ∃ next, bench.edit (fun draft => draft.insert offset text) = .ok next ∧
      Tidy m reached next := by
  have hlength : offset ≤ bench.draft.source.length := by
    rw [h.source]
    exact hseam.boundary.le_length
  refine ⟨_, bind_eq_ok.mpr ⟨_, replace_ok text (Nat.le_refl _) hlength, rfl⟩, ?_⟩
  exact h.record (Nat.le_refl _) (.refl _) ⟨Nat.le_refl _, hseam.boundary, hseam.boundary⟩
    (.seam hseam rfl) fun _ => h.apart_of_seam hm hseam rfl

/-- A text can be put ahead of what was inserted at a seam. -/
theorem prepend_ok (h : Tidy m reached bench) (hm : m.WellFormed) {offset : Nat}
    (hseam : m.IsSeam offset) (text : String) :
    ∃ next, bench.edit (fun draft => draft.prepend offset text) = .ok next ∧
      Tidy m reached next := by
  have hlength : offset ≤ bench.draft.source.length := by
    rw [h.source]
    exact hseam.boundary.le_length
  have hedit : bench.draft.prepend offset text = .ok { bench.draft with
      edits := bench.draft.edits ++ [⟨offset, offset, text, -bench.draft.nextOrder⟩] } := by
    rw [Draft.prepend, if_pos ⟨by omega, by omega⟩]
    simp
  refine ⟨_, bind_eq_ok.mpr ⟨_, hedit, rfl⟩, ?_⟩
  exact h.record (Nat.le_refl _) (.refl _) ⟨Nat.le_refl _, hseam.boundary, hseam.boundary⟩
    (.seam hseam rfl) fun _ => h.apart_of_seam hm hseam rfl

/-- A node of the statement that is worked on can be replaced, if the replacements inside
statements have not gone beyond its beginning. -/
theorem replaceNode_ok (h : Tidy m reached bench) (hm : m.WellFormed) {statement node : Node}
    (hstatement : statement ∈ m.root.namedChildren) (hlexical : statement.lexical? = none)
    (hnode : node ∈ statement.subtree) (hreached : reached ≤ node.start) (text : String) :
    ∃ next, bench.replaceNode node text = .ok next ∧ Tidy m node.stop next := by
  have hfits := ((hm.ofStatement hstatement).below hnode).fits
  obtain ⟨hstart, hle, hstop⟩ := (hm.ofStatement hstatement).within hnode
  have hlength : node.stop ≤ bench.draft.source.length := by
    rw [h.source]
    exact hfits.stop.le_length
  refine ⟨_, bind_eq_ok.mpr ⟨_, replace_ok text hle hlength, rfl⟩, ?_⟩
  refine h.record (by omega) (.refl _) ⟨hle, hfits.start, hfits.stop⟩
    (.part hstatement hlexical hstart hstop (Nat.le_refl _)) ?_
  intro other hother
  have hordered := (h.bounds other hother).ordered
  cases h.placed other hother with
  | seam hseam hins => exact .of_seam hseam hins hstatement ⟨hstart, hle, hstop⟩
  | @keyword site holder declaration keyword hholder hdeclaration hkeyword hkstart hkstop _ =>
    -- The keyword stands in another statement, since this one has no such declaration.
    have hne : holder ≠ statement := by
      rintro rfl
      rw [hlexical] at hdeclaration
      cases hdeclaration
    have hmem := List.mem_of_getElem? hholder
    exact .of_disjoint (hm.keyword_inside hmem hdeclaration hkeyword hkstart hkstop)
      ⟨hstart, hle, hstop⟩ (hm.statements_disjoint_of_ne hmem hstatement hne)
  | part _ _ _ _ hbefore => exact .of_stop_le (by simp only; omega) hordered

/-- The keyword of a constant that has not been weakened can be replaced. -/
theorem loosen_ok (h : Tidy m reached bench) (hm : m.WellFormed) {name : String}
    {binding : Binding} {d : Declaration} {keyword : Node}
    (hb : bench.scope.get? name = some binding) (hconst : binding.kind = .const)
    (hd : binding.declaration = some d) (hkeyword : d.node.keyword? = some keyword) :
    ∃ next, (bench.setScope (bench.scope.loosen d.site)).replaceNode keyword "let" = .ok next ∧
      Tidy m reached next := by
  obtain ⟨statement, hstatement, hlexical⟩ := h.declarations name binding d hb hd
  have hmem := List.mem_of_getElem? hstatement
  have hbelow := Node.subtree_trans (Node.keyword?_subset hkeyword) (Node.lexical?_subset hlexical)
  have hfits := ((hm.ofStatement hmem).below hbelow).fits
  obtain ⟨hstart, hle, hstop⟩ := (hm.ofStatement hmem).within hbelow
  have hlength : keyword.stop ≤ bench.draft.source.length := by
    rw [h.source]
    exact hfits.stop.le_length
  refine ⟨_, bind_eq_ok.mpr ⟨_, replace_ok "let" hle hlength, rfl⟩, ?_⟩
  refine h.record (Nat.le_refl _) (Scope.looser_loosen _ _) ⟨hle, hfits.start, hfits.stop⟩
    (.keyword hstatement hlexical hkeyword rfl rfl (Scope.weakened_loosen _ _)) ?_
  intro other hother
  have hordered := (h.bounds other hother).ordered
  cases h.placed other hother with
  | seam hseam hins => exact .of_seam hseam hins hmem ⟨hstart, hle, hstop⟩
  | @keyword site holder declaration keyword' hholder hdeclaration hkeyword' hkstart hkstop hweak =>
    -- The keyword of this declaration cannot have been replaced: its constants are still constant.
    have hne : site ≠ d.site := by
      rintro rfl
      exact hweak name binding hb (by simp [Binding.isFrom, hd]) hconst
    exact .of_disjoint
      (hm.keyword_inside (List.mem_of_getElem? hholder) hdeclaration hkeyword' hkstart hkstop)
      ⟨hstart, hle, hstop⟩ (hm.statements_disjoint hholder hstatement hne)
  | @part holder hholder hnone hin₁ hin₂ _ =>
    have hne : holder ≠ statement := by
      rintro rfl
      rw [hnone] at hlexical
      cases hlexical
    exact .of_disjoint ⟨hin₁, hordered, hin₂⟩ ⟨hstart, hle, hstop⟩
      (hm.statements_disjoint_of_ne hholder hmem hne)

/-- **Weakening keeps a workbench tidy.** The keyword of a declaration is replaced when the first
of its constants is weakened, and never again. -/
theorem weaken_gives (h : Tidy m reached bench) (hm : m.WellFormed) (name : String) :
    (bench.weaken name).Gives (Tidy m reached) := by
  rw [Workbench.weaken]
  split
  · exact .pure h
  · rename_i binding hb
    split
    · exact .pure h
    · rename_i scope d hweaken
      obtain ⟨hconst, hd, rfl⟩ := Scope.weaken_eq_some.mp hweaken
      refine .note_bind ?_
      split
      · exact .pure (h.setScope (Scope.looser_loosen _ _))
      · rename_i keyword hkeyword
        exact h.loosen_ok hm hb hconst hd hkeyword

end Tidy

end Seams
