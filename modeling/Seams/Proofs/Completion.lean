import Mathlib.Data.List.Basic
import Seams.Proofs.GeneratedNames
import Seams.Proofs.OpenExports

/-!
# Opening a well-formed module succeeds

Each step of the work on a well-formed module succeeds and leaves the workbench tidy: the scope of
the module is found, its statements are worked on in their order, and the override functions go
to seams. So in the end all edits are apart from each other, and the draft renders.

## Main definitions

* `ImportBinding.extent`, `ImportBinding.place` — the node that an import takes up, and the one that
  gives way to its alias

## Main results

* `Node.importBindings_successive`, `Node.importBindings_follow` — the imports of a statement stand
  one behind the other, and so do the places to which their aliases go
* `Tidy.openImport_gives`, `Tidy.visitAll_gives`, `Tidy.addOverrides_gives` — parts of the work
* `Tidy.finalCode_ok` — the draft on a tidy workbench renders
* `Module.transform_opened` — a well-formed module is opened
-/

namespace Seams

/-! ### Where aliases go -/

namespace ImportBinding

/-- The node that an import takes up: the specifier of a single export, or else its local name. -/
def extent (binding : ImportBinding) : Node :=
  if binding.form = .single then binding.specifier else binding.localName

theorem extent_mem {binding : ImportBinding} {node : Node}
    (hlocal : binding.localName ∈ node.subtree) (hspecifier : binding.specifier ∈ node.subtree) :
    binding.extent ∈ node.subtree := by
  rw [extent]
  split
  · exact hspecifier
  · exact hlocal

/-- Imports that stand one behind the other. -/
def Successive (bindings : List ImportBinding) : Prop :=
  bindings.Pairwise fun a b => a.extent.stop ≤ b.extent.start

/-- The node that gives way to the alias of an import. -/
def place (binding : ImportBinding) : Node :=
  if binding.form = .single ∧ (binding.specifier.child? .alias).isNone then binding.specifier
  else binding.localName

/-- Bindings whose aliases go to places that follow each other. -/
def Follow (bindings : List ImportBinding) : Prop :=
  bindings.Pairwise fun a b => a.place.stop ≤ b.place.start

end ImportBinding

namespace Node

theorem extent_mem_of_mem_clausePart {binding : ImportBinding} {part : Node}
    (h : binding ∈ part.clausePartBindings) : binding.extent ∈ part.subtree := by
  obtain ⟨hlocal, hspecifier⟩ := clausePartBindings_subset h
  exact ImportBinding.extent_mem hlocal hspecifier

theorem extent_mem_of_mem_importBindings {binding : ImportBinding} {statement : Node}
    (h : binding ∈ statement.importBindings) : binding.extent ∈ statement.subtree := by
  obtain ⟨hlocal, hspecifier⟩ := importBindings_subset h
  exact ImportBinding.extent_mem hlocal hspecifier

/-- The binding of a specifier takes up the specifier. -/
theorem extent_of_specifierBinding? {binding : ImportBinding} {specifier : Node}
    (h : specifier.specifierBinding? = some binding) :
    binding.extent = specifier ∧ binding.localName ∈ specifier.subtree := by
  rw [specifierBinding?] at h
  split at h
  · obtain ⟨localName, hname, rfl⟩ := Option.map_eq_some_iff.mp h
    refine ⟨rfl, ?_⟩
    rcases Option.or_eq_some_iff.mp hname with hname | ⟨-, hname⟩
    · exact mem_subtree_of_child? hname
    · exact mem_subtree_of_child? hname
  · cases h

/-- The place of an alias is part of what the import takes up. -/
theorem place_mem_extent {binding : ImportBinding} {statement : Node}
    (h : binding ∈ statement.importBindings) : binding.place ∈ binding.extent.subtree := by
  obtain ⟨clause, -, h⟩ := List.mem_flatMap.mp h
  obtain ⟨part, -, h⟩ := List.mem_flatMap.mp h
  rw [clausePartBindings] at h
  split at h
  · rw [List.mem_singleton.mp h]
    exact self_mem_subtree _
  · obtain ⟨child, -, rfl⟩ := List.mem_map.mp h
    exact self_mem_subtree _
  · obtain ⟨specifier, -, h⟩ := List.mem_filterMap.mp h
    obtain ⟨hextent, hlocal⟩ := extent_of_specifierBinding? h
    rw [ImportBinding.place]
    split
    · rename_i hcase
      rw [ImportBinding.extent, if_pos hcase.1]
      exact self_mem_subtree _
    · exact hextent ▸ hlocal
  · cases h

theorem place_mem_of_mem_importBindings {binding : ImportBinding} {statement : Node}
    (h : binding ∈ statement.importBindings) : binding.place ∈ statement.subtree :=
  subtree_trans (place_mem_extent h) (extent_mem_of_mem_importBindings h)

/-- What nodes in a row bind stands one behind the other, if it does so for each of the nodes. -/
theorem successive_flatMap {text : String} {nodes : List Node}
    {bindings : Node → List ImportBinding} (hwell : ∀ node ∈ nodes, node.WellFormed text)
    (hnodes : nodes.Pairwise fun a b => a.stop ≤ b.start)
    (hbelow : ∀ node ∈ nodes, ∀ binding ∈ bindings node, binding.extent ∈ node.subtree)
    (hown : ∀ node ∈ nodes, ImportBinding.Successive (bindings node)) :
    ImportBinding.Successive (nodes.flatMap bindings) := by
  refine List.pairwise_flatMap.mpr ⟨hown, ?_⟩
  refine hnodes.imp_of_mem fun {a b} ha hb hab first hfirst second hsecond => ?_
  obtain ⟨-, -, h₁⟩ := (hwell a ha).within (hbelow a ha first hfirst)
  obtain ⟨h₂, -, -⟩ := (hwell b hb).within (hbelow b hb second hsecond)
  omega

theorem successive_clausePart {text : String} {part : Node} (h : part.WellFormed text) :
    ImportBinding.Successive part.clausePartBindings := by
  have hchildren : part.namedChildren.Pairwise fun a b => a.stop ≤ b.start :=
    h.fits.children.pairwise.filter _
  rw [clausePartBindings]
  split
  · exact List.pairwise_singleton _ _
  · exact List.pairwise_map.mpr (hchildren.filter _)
  · rw [List.filterMap_eq_flatMap_toList]
    have hwell : ∀ child ∈ part.namedChildren, child.WellFormed text :=
      fun child hchild => h.below (mem_subtree_of_mem_namedChildren hchild)
    refine successive_flatMap hwell hchildren (fun specifier _ binding hbinding => ?_)
      (fun specifier _ => ?_)
    · rw [(extent_of_specifierBinding? (Option.mem_toList.mp hbinding)).1]
      exact specifier.self_mem_subtree
    · cases specifier.specifierBinding? with
      | none => exact .nil
      | some binding => exact List.pairwise_singleton _ _
  · exact .nil

/-- **The imports of a statement stand one behind the other.** -/
theorem importBindings_successive {text : String} {statement : Node}
    (h : statement.WellFormed text) : ImportBinding.Successive statement.importBindings := by
  have hclause : ∀ clause ∈ statement.namedChildren.filter fun c => c.kind == .importClause,
      clause.WellFormed text := fun clause hclause =>
    h.below (mem_subtree_of_mem_namedChildren (List.mem_filter.mp hclause).1)
  refine successive_flatMap hclause ((h.fits.children.pairwise.filter _).filter _) ?_ ?_
  · intro clause _ binding hbinding
    obtain ⟨part, hpart, hbinding⟩ := List.mem_flatMap.mp hbinding
    exact subtree_trans (extent_mem_of_mem_clausePart hbinding)
      (mem_subtree_of_mem_namedChildren hpart)
  · intro clause hmem
    have hparts : ∀ part ∈ clause.namedChildren, part.WellFormed text := fun part hpart =>
      (hclause clause hmem).below (mem_subtree_of_mem_namedChildren hpart)
    exact successive_flatMap hparts ((hclause clause hmem).fits.children.pairwise.filter _)
      (fun part _ binding => extent_mem_of_mem_clausePart)
      (fun part hpart => successive_clausePart (hparts part hpart))

/-- The place of an alias lies within what the import takes up. -/
theorem WellFormed.place_within {text : String} {statement : Node} (h : statement.WellFormed text)
    {binding : ImportBinding} (hbinding : binding ∈ statement.importBindings) :
    binding.extent.start ≤ binding.place.start ∧ binding.place.start ≤ binding.place.stop ∧
      binding.place.stop ≤ binding.extent.stop :=
  (h.below (extent_mem_of_mem_importBindings hbinding)).within (place_mem_extent hbinding)

/-- **The aliases of an import statement go to places that follow each other.** -/
theorem importBindings_follow {text : String} {statement : Node} (h : statement.WellFormed text) :
    ImportBinding.Follow statement.importBindings := by
  refine (importBindings_successive h).imp_of_mem fun {a b} ha hb hab => ?_
  obtain ⟨-, -, hfirst⟩ := h.place_within ha
  obtain ⟨hsecond, -, -⟩ := h.place_within hb
  omega

end Node

namespace Tidy

variable {m : Module} {reached : Nat} {bench : Workbench} {statement : Node}

/-! ### Import statements -/

theorem placeAlias_ok (h : Tidy m reached bench) (hm : m.WellFormed)
    (hstatement : statement ∈ m.root.namedChildren) (hlexical : statement.lexical? = none)
    {binding : ImportBinding} (hbinding : binding ∈ statement.importBindings)
    (hreached : reached ≤ binding.place.start) (localName : String) :
    ∃ next, bench.placeAlias binding localName = .ok next ∧ Tidy m binding.place.stop next := by
  have hreplace := fun text => h.replaceNode_ok hm hstatement hlexical
    (Node.place_mem_of_mem_importBindings hbinding) hreached text
  rw [Workbench.placeAlias]
  split
  · rename_i hcase
    rw [ImportBinding.place, if_pos hcase] at *
    have hbelow := (Node.importBindings_subset hbinding).2
    obtain ⟨specifier, hspecifier⟩ := h.slice_ok ((hm.ofStatement hstatement).below hbelow)
    obtain ⟨next, hnext, htidy⟩ := hreplace s!"{specifier} as {localName}"
    exact ⟨next, bind_eq_ok.mpr ⟨specifier, hspecifier, hnext⟩, htidy⟩
  · rename_i hcase
    rw [ImportBinding.place, if_neg hcase] at *
    exact hreplace localName

theorem interceptBinding_gives (h : Tidy m reached bench) (hm : m.WellFormed)
    (hstatement : statement ∈ m.root.namedChildren) (hlexical : statement.lexical? = none)
    {binding : ImportBinding} (hbinding : binding ∈ statement.importBindings)
    (hreached : reached ≤ binding.place.start) :
    (bench.interceptBinding binding).Gives fun taken => Tidy m binding.place.stop taken.1 := by
  have hwell := hm.ofStatement hstatement
  have hle := (hwell.below (Node.place_mem_of_mem_importBindings hbinding)).start_le_stop
  obtain ⟨name, hname⟩ := h.text_ok (hwell.below (Node.importBindings_subset hbinding).1)
  rw [Workbench.interceptBinding]
  refine .lift_bind hname ?_
  split
  · exact .note_bind (.pure (h.mono (by omega)))
  · obtain ⟨next, hplaced, hnext⟩ := ((h.fresh name).register (bench.fresh name).1 .module
      ).placeAlias_ok hm hstatement hlexical hbinding hreached (bench.fresh name).1
    refine .lift_bind hplaced ?_
    exact .bind (hnext.addImport_gives name _) fun _ hadded => .pure hadded

/-- Bindings whose places follow each other are taken in one after the other. -/
theorem interceptAll_gives (h : Tidy m reached bench) (hm : m.WellFormed)
    (hstatement : statement ∈ m.root.namedChildren) (hlexical : statement.lexical? = none)
    (hend : reached ≤ statement.stop) {bindings : List ImportBinding}
    (hbelow : ∀ binding ∈ bindings, binding ∈ statement.importBindings)
    (hreached : ∀ binding ∈ bindings, reached ≤ binding.place.start)
    (hfollow : ImportBinding.Follow bindings) :
    (bench.interceptAll bindings).Gives fun taken => Tidy m statement.stop taken.1 := by
  induction bindings generalizing reached bench with
  | nil => exact .pure (h.mono hend)
  | cons binding rest ih =>
    obtain ⟨hfirst, hrest⟩ := List.pairwise_cons.mp hfollow
    have hmem := hbelow binding (List.mem_cons_self ..)
    have hin := (hm.ofStatement hstatement).within (Node.place_mem_of_mem_importBindings hmem)
    refine .bind (h.interceptBinding_gives hm hstatement hlexical hmem
      (hreached binding (List.mem_cons_self ..))) ?_
    rintro ⟨next, entry⟩ hnext
    refine .bind (ih hnext hin.2.2 (fun b hb => hbelow b (List.mem_cons_of_mem _ hb)) hfirst hrest)
      ?_
    rintro ⟨last, entries⟩ hlast
    exact .pure hlast

theorem openImport_gives (h : Tidy m reached bench) (hm : m.WellFormed)
    (hstatement : statement ∈ m.root.namedChildren) (hkind : statement.kind = .importStatement)
    (hreached : reached ≤ statement.start) :
    (bench.openImport statement).Gives (Tidy m statement.stop) := by
  have hwell := hm.ofStatement hstatement
  have hle := hwell.start_le_stop
  have hlexical : statement.lexical? = none := by simp [Node.lexical?, hkind]
  refine .bind (h.interceptAll_gives hm hstatement hlexical (by omega) (fun _ hb => hb)
    (fun binding hbinding => ?_) (Node.importBindings_follow hwell)) ?_
  · have := hwell.within (Node.place_mem_of_mem_importBindings hbinding)
    omega
  · rintro ⟨next, entries⟩ hnext
    show (if entries.isEmpty then _ else _ : Traced Workbench).Gives _
    split
    · exact .pure hnext
    · exact hnext.insert_ok hm (hm.isSeam_stop hstatement) _

/-! ### All statements -/

theorem visit_gives (h : Tidy m reached bench) (hm : m.WellFormed) (hexports : m.Exportable)
    (hstatement : statement ∈ m.root.namedChildren) (hreached : reached ≤ statement.start) :
    (bench.visit statement).Gives (Tidy m statement.stop) := by
  have hle := (hm.ofStatement hstatement).start_le_stop
  rw [Workbench.visit]
  split
  · rename_i hkind
    exact h.openImport_gives hm hstatement hkind hreached
  · rename_i hkind
    exact h.openExport_gives hm hstatement hkind (hexports statement hstatement hkind) hreached
  · exact .pure (h.mono (by omega))

/-- **Statements that follow each other are worked on one after the other.** -/
theorem visitAll_gives (h : Tidy m reached bench) (hm : m.WellFormed) (hexports : m.Exportable)
    {statements : List Node} (hstatements : ∀ statement ∈ statements,
      statement ∈ m.root.namedChildren)
    (hreached : ∀ statement ∈ statements, reached ≤ statement.start)
    (hfollow : statements.Pairwise fun a b => a.stop ≤ b.start) :
    (bench.visitAll statements).Gives fun final => ∃ stop, Tidy m stop final := by
  induction statements generalizing reached bench with
  | nil => exact .pure ⟨reached, h⟩
  | cons statement rest ih =>
    obtain ⟨hfirst, hrest⟩ := List.pairwise_cons.mp hfollow
    refine .bind (h.visit_gives hm hexports (hstatements statement (List.mem_cons_self ..))
      (hreached statement (List.mem_cons_self ..))) ?_
    intro next hnext
    exact ih hnext (fun s hs => hstatements s (List.mem_cons_of_mem _ hs)) hfirst hrest

/-! ### Before and after the statements -/

theorem setNames (h : Tidy m reached bench) {names : Names} (hscope : names.scope = bench.scope) :
    Tidy m reached { bench with names } where
  source := h.source
  hashbang := h.hashbang
  declarations name binding d hb := h.declarations name binding d (hscope ▸ hb)
  placed edit hedit := by
    show m.Placed reached names.scope edit
    rw [hscope]
    exact h.placed edit hedit
  bounds := h.bounds
  apart := h.apart

theorem reserve_gives (h : Tidy m reached bench) (preferred : String)
    (fallback : Option String := none) :
    (bench.reserve preferred fallback).Gives fun granted => Tidy m reached granted.2 :=
  .noteAll_bind (.pure (h.setNames (bench.names.grants_reserveFrom _ _).scope))

/-- The work on a well-formed module begins. -/
theorem start_gives (hm : m.WellFormed) (options : Options) :
    (Workbench.start options (Text.encode m.source) m.root).Gives (Tidy m 0) := by
  obtain ⟨scope, hscope⟩ := Scope.ofTree_ok hm
  have hblank : Tidy m 0
      ⟨options, m.root.hashbangEnd, ⟨Text.encode m.source, []⟩, ⟨scope, []⟩, {}, {}⟩ :=
    ⟨rfl, rfl, fun _ _ _ hb hd => Scope.ofTree_declaration hscope hb hd, by simp, by simp, .nil⟩
  refine .lift_bind hscope (.note_bind ?_)
  refine .bind (hblank.reserve_gives _) ?_
  rintro ⟨table, _⟩ h
  refine .bind (h.reserve_gives _) ?_
  rintro ⟨wrap, _⟩ h
  refine .bind (h.reserve_gives _) ?_
  rintro ⟨apply, _⟩ h
  exact .pure ⟨h.source, h.hashbang, h.declarations, h.placed, h.bounds, h.apart⟩

theorem assignSlots (h : Tidy m reached bench) (exports : List Export) :
    Tidy m reached (bench.assignSlots exports).2 := by
  induction exports generalizing bench with
  | nil => exact h
  | cons entry rest ih =>
    have hslot : Tidy m reached { (bench.fresh entry.name).2 with
        inventory := bench.inventory.setSlot entry.name (bench.fresh entry.name).1 } :=
      ⟨h.source, h.hashbang, h.declarations, h.placed, h.bounds, h.apart⟩
    exact ih hslot

theorem nameAll_gives {α : Type} {nameOne : Workbench → α → Traced (String × Workbench)}
    (hone : ∀ bench entry, Tidy m reached bench →
      (nameOne bench entry).Gives fun granted => Tidy m reached granted.2)
    (h : Tidy m reached bench) (entries : List α) :
    (Workbench.nameAll nameOne bench entries).Gives fun named => Tidy m reached named.2 := by
  induction entries generalizing bench with
  | nil => exact .pure h
  | cons entry rest ih =>
    refine .bind (hone bench entry h) ?_
    rintro ⟨name, next⟩ hnext
    refine .bind (ih hnext) ?_
    rintro ⟨named, last⟩ hlast
    exact .pure hlast

theorem nameExport_gives (bench : Workbench) (entry : Export) (h : Tidy m reached bench) :
    (bench.nameExport entry).Gives fun granted => Tidy m reached granted.2 := by
  rw [Workbench.nameExport]
  split
  · exact h.reserve_gives _ _
  · exact h.reserve_gives _

theorem nameImport_gives (bench : Workbench) (entry : Import) (h : Tidy m reached bench) :
    (bench.nameImport entry).Gives fun granted => Tidy m reached granted.2 :=
  h.reserve_gives _

theorem planOverrides_gives (h : Tidy m reached bench) :
    bench.planOverrides.Gives fun planned => Tidy m reached planned.2 := by
  refine .noteAll_bind ?_
  refine .bind ((h.assignSlots bench.inventory.uniqueExports).reserve_gives "$stub") ?_
  rintro ⟨parameter, _⟩ h
  refine .bind (nameAll_gives nameExport_gives h _) ?_
  rintro ⟨exports, _⟩ h
  refine .bind (nameAll_gives nameImport_gives h _) ?_
  rintro ⟨imports, _⟩ h
  refine .bind (h.reserve_gives "restore" (some "restore$rewire")) ?_
  rintro ⟨restore, _⟩ h
  exact .pure h

/-- The override functions go to seams. -/
theorem addOverrides_gives (h : Tidy m reached bench) (hm : m.WellFormed) :
    bench.addOverrides.Gives fun added => Tidy m reached added.2 := by
  rw [Workbench.addOverrides]
  split
  · exact .note_bind (.pure h)
  · refine .bind h.planOverrides_gives ?_
    rintro ⟨plan, planned⟩ hplanned
    obtain ⟨topped, htop, htopped⟩ := hplanned.prependTop_ok hm planned.runtime.tableCode
    obtain ⟨final, hend, hfinal⟩ := htopped.insert_ok hm hm.isSeam_length (plan.code topped.runtime)
    rw [← htopped.source] at hend
    refine .lift_bind htop (.lift_bind hend ?_)
    exact .note_bind (.pure hfinal)

/-- **The draft on a tidy workbench renders**, and that is the code in the end. -/
theorem finalCode_ok (h : Tidy m reached bench) :
    ∃ code, bench.draft.render = .ok code ∧ (bench.finalCode m.source).result = .ok code := by
  obtain ⟨code, hcode⟩ := Draft.render_of_apart h.source h.bounds h.apart
  have hrender : bench.draft.render = .ok code :=
    bind_eq_ok.mpr ⟨_, hcode, readText_encode code⟩
  refine ⟨code, hrender, ?_⟩
  rw [Workbench.finalCode]
  split
  · -- Without edits, rendering gives the source back.
    rename_i hnone
    have hedits : bench.draft.edits = [] := List.length_eq_zero_iff.mp hnone
    rw [Draft.renderBytes, hedits, h.source] at hcode
    have hsource : Text.encode m.source = Text.encode code := by
      simpa [Draft.splice] using hcode
    have hread := (readText_encode m.source).symm.trans (hsource ▸ readText_encode code)
    exact hread
  · exact Traced.bind_ok.mpr ⟨_, hcode, Traced.bind_ok.mpr ⟨(), rfl, readText_encode code⟩⟩

end Tidy

/-! ### Whole modules -/

namespace Module

variable {m : Module}

/-- The work on a well-formed module succeeds and leaves the workbench tidy. -/
theorem work_gives (hm : m.WellFormed) (hexports : m.Exportable) (options : Options) :
    (m.work options).Gives fun done => ∃ stop, Tidy m stop done.2 := by
  refine .bind (Tidy.start_gives hm options) ?_
  intro begun hbegun
  refine .bind (hbegun.visitAll_gives hm hexports (fun _ hs => hs) (fun _ _ => Nat.zero_le _)
    hm.statements) ?_
  rintro visited ⟨stop, hvisited⟩
  exact (hvisited.addOverrides_gives hm).mono fun _ hdone => ⟨stop, hdone⟩

/-- A module is opened if the work on it succeeds and its draft renders, and not otherwise. -/
theorem transform_eq_opened {options : Options} {opening : Opening} :
    (m.transform options).outcome = .opened opening ↔ ∃ bench,
      (m.work options).result = .ok (opening.overrides, bench) ∧
        (bench.finalCode m.source).result = .ok opening.code := by
  have hopening : (m.transform options).outcome = .opened opening ↔
      (m.opening options).result = .ok opening := by
    simp only [transform]
    split <;> simp_all
  rw [hopening, Module.opening, Traced.bind_ok]
  constructor
  · rintro ⟨⟨overrides, bench⟩, hwork, hrest⟩
    obtain ⟨code, hcode, hrest⟩ := Traced.bind_ok.mp hrest
    obtain rfl : ⟨code, overrides⟩ = opening := by simpa [Except.bind] using hrest
    exact ⟨bench, hwork, hcode⟩
  · rintro ⟨bench, hwork, hcode⟩
    exact ⟨_, hwork, Traced.bind_ok.mpr ⟨_, hcode, rfl⟩⟩

/-- **A well-formed module is opened.** If its tree fits its source and its exports have the parts
they need, then no step of the work stops, the edits made on the way are apart from each other, and
the code of the opened module is what the draft renders to. -/
theorem transform_opened (hm : m.WellFormed) (hexports : m.Exportable) (options : Options) :
    ∃ overrides bench code, (m.work options).result = .ok (overrides, bench) ∧
      bench.draft.edits.Pairwise Edit.Apart ∧ bench.draft.render = .ok code ∧
      (m.transform options).outcome = .opened ⟨code, overrides⟩ := by
  obtain ⟨⟨overrides, bench⟩, hwork, stop, htidy⟩ := work_gives hm hexports options
  obtain ⟨code, hrender, hcode⟩ := htidy.finalCode_ok
  exact ⟨overrides, bench, code, hwork, htidy.apart, hrender,
    transform_eq_opened.mpr ⟨bench, hwork, hcode⟩⟩

/-- A small module: it imports a name, passes it to a constant and exports that. -/
def specimen : Module where
  source := "import { a } from 'ö';\nconst b = a;\nexport { b };\n"
  root := { kind := .program, start := 0, stop := 51, children := [
    { kind := .importStatement, start := 0, stop := 23, children := [
      { kind := .other "import", start := 0, stop := 6, named := false },
      { kind := .importClause, start := 7, stop := 12, children := [
        { kind := .namedImports, start := 7, stop := 12, children := [
          { kind := .importSpecifier, start := 9, stop := 10, children := [
            { kind := .identifier, start := 9, stop := 10, role := some .name }] }] }] },
      { kind := .string, start := 18, stop := 22, role := some .source }] },
    { kind := .lexicalDeclaration, start := 24, stop := 36, children := [
      { kind := .keywordConst, start := 24, stop := 29, role := some .kind, named := false },
      { kind := .variableDeclarator, start := 30, stop := 35, children := [
        { kind := .identifier, start := 30, stop := 31, role := some .name },
        { kind := .identifier, start := 34, stop := 35, role := some .value }] }] },
    { kind := .exportStatement, start := 37, stop := 50, children := [
      { kind := .other "export", start := 37, stop := 43, named := false },
      { kind := .exportClause, start := 44, stop := 49, children := [
        { kind := .exportSpecifier, start := 46, stop := 47, children := [
          { kind := .identifier, start := 46, stop := 47, role := some .name }] }] }] }] }

theorem specimen_wellFormed : specimen.WellFormed := by
  decide +kernel

theorem specimen_exportable : specimen.Exportable := by
  decide +kernel

/-- The specimen is opened, with its constant weakened. -/
theorem transform_opened_specimen : (specimen.WellFormed ∧ specimen.Exportable) ∧
    ∃ overrides bench code,
      (specimen.work { unsafeConst := true }).result = .ok (overrides, bench) ∧
      bench.draft.edits.Pairwise Edit.Apart ∧ bench.draft.render = .ok code ∧
      (specimen.transform { unsafeConst := true }).outcome = .opened ⟨code, overrides⟩ :=
  ⟨⟨specimen_wellFormed, specimen_exportable⟩,
    transform_opened specimen_wellFormed specimen_exportable { unsafeConst := true }⟩

end Module

end Seams
