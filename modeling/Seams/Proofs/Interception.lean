import Seams.Proofs.AliasedImports
import Seams.Proofs.Walk

/-!
# How an import statement is intercepted

The names that an import statement introduces are taken in one by one, each under an alias of its
own, and the names of override functions are passed over. Names, inventory, edits and the
declarations behind the statement must all speak of the same imports, in one order. So what is done
is told of the statement as a whole: which imports are intercepted, what is known about their
aliases, and the text to which the edits lead.

Nothing is asked of the workbench on which this happens, but that it is for the text of the tree.

## Main definitions

* `Names.TakesIn` — names are made for imports
* `Workbench.Takes` — imports are taken in on a workbench
* `Workbench.Intercepts` — what intercepting a statement leads to

## Main results

* `Workbench.interceptBinding_takes`, `Workbench.interceptAll_takes` — taking in one name, and all
* `Workbench.visit_intercepts` — an import statement is intercepted
-/

namespace Seams

/-! ### Names for imports -/

namespace Names

/-- Names are made for imports, and bound as imports themselves. -/
structure TakesIn (before : Names) (entries : List Import) (after : Names) : Prop where
  /-- An alias is made from the name, -/
  made : ∀ entry ∈ entries, ∃ place, entry.alias = candidate (stem entry.name) place
  /-- it was not taken before, -/
  new : ∀ entry ∈ entries, before.isTaken entry.alias = false
  /-- and it is not that of another import. -/
  nodup : (entries.map Import.alias).Nodup
  /-- The aliases are bound, and all other bindings are as before. -/
  bound : ∀ name, after.scope.get? name =
    if name ∈ entries.map Import.alias then some ⟨.module, none⟩ else before.scope.get? name
  /-- Nothing else is known as an identifier that was not before. -/
  references : ∀ name, name ∈ after.scope.references ↔
    name ∈ entries.map Import.alias ∨ name ∈ before.scope.references
  /-- Nothing else was generated. -/
  issued : ∀ name, name ∈ after.issued ↔ name ∈ entries.map Import.alias ∨ name ∈ before.issued
  /-- Without imports nothing changes. -/
  idle : entries = [] → after = before

variable {before middle after : Names} {entries more : List Import}

theorem TakesIn.nil (names : Names) : names.TakesIn [] names :=
  ⟨by simp, by simp, .nil, by simp, by simp, by simp, fun _ => rfl⟩

/-- A name that was not taken in the middle is not one of those that were made till then. -/
theorem TakesIn.isTaken_eq_false_iff (h : before.TakesIn entries middle) {name : String} :
    middle.isTaken name = false ↔
      name ∉ entries.map Import.alias ∧ before.isTaken name = false := by
  rw [Names.isTaken_eq_false_iff, Names.isTaken_eq_false_iff, h.issued, h.references,
    ← Scope.get?_eq_none_iff, ← Scope.get?_eq_none_iff, h.bound]
  by_cases hname : name ∈ entries.map Import.alias <;> simp [hname]

theorem TakesIn.append (h : before.TakesIn entries middle) (h' : middle.TakesIn more after) :
    before.TakesIn (entries ++ more) after where
  made entry hentry := by
    rcases List.mem_append.mp hentry with hentry | hentry
    · exact h.made entry hentry
    · exact h'.made entry hentry
  new entry hentry := by
    rcases List.mem_append.mp hentry with hentry | hentry
    · exact h.new entry hentry
    · exact (h.isTaken_eq_false_iff.mp (h'.new entry hentry)).2
  nodup := by
    rw [List.map_append]
    refine List.nodup_append'.mpr ⟨h.nodup, h'.nodup, fun name hfirst hsecond => ?_⟩
    obtain ⟨entry, hentry, rfl⟩ := List.mem_map.mp hsecond
    exact (h.isTaken_eq_false_iff.mp (h'.new entry hentry)).1 hfirst
  bound name := by
    rw [h'.bound, h.bound, List.map_append]
    by_cases hfirst : name ∈ entries.map Import.alias <;>
      by_cases hsecond : name ∈ more.map Import.alias <;> simp [hfirst, hsecond]
  references name := by
    rw [h'.references, h.references, List.map_append, List.mem_append]
    exact or_left_comm.trans or_assoc.symm
  issued name := by
    rw [h'.issued, h.issued, List.map_append, List.mem_append]
    exact or_left_comm.trans or_assoc.symm
  idle hnone := by
    obtain ⟨hfirst, hsecond⟩ := List.append_eq_nil_iff.mp hnone
    exact (h'.idle hsecond).trans (h.idle hfirst)

/-- A fresh name is bound as an import. -/
theorem takesIn_fresh (names : Names) (name : String) :
    names.TakesIn [⟨name, (names.fresh name).1⟩]
      { (names.fresh name).2 with
        scope := names.scope.register (names.fresh name).1 .module } where
  made := by
    obtain ⟨place, hplace⟩ :=
      firstFree_mem names.isTaken (candidate (stem name)) names.taken.length 1
    simpa using ⟨place, hplace⟩
  new := by simpa using names.isTaken_fresh name
  nodup := List.nodup_singleton _
  bound other := by simp
  references other := by simp
  issued other := by simp [(names.grants_fresh name).issued]
  idle hnone := by cases hnone

end Names

/-! ### Taking in names -/

namespace Workbench

/-- The workbench after some imports have been taken in, with the names that were made. -/
def taking (bench : Workbench) (taken : List Interception) (names : Names) : Workbench :=
  { bench with
    draft := bench.draft.record (taken.map Interception.edit)
    names
    inventory := { bench.inventory with
      imports := bench.inventory.imports ++ taken.map Interception.entry } }

/-- Imports are taken in, and their edits are ranked as they were made. -/
structure Takes (source : List UInt8) (bench : Workbench) (taken : List Interception)
    (names : Names) : Prop where
  fits : ∀ t ∈ taken, t.Fits source
  names : bench.names.TakesIn (taken.map Interception.entry) names
  ranks : ∀ t ∈ taken, bench.draft.nextOrder ≤ t.edit.order ∧
    t.edit.order < bench.draft.nextOrder + taken.length
  ascending : taken.Pairwise fun a b => a.edit.order ≤ b.edit.order

variable {source : List UInt8} {bench : Workbench} {taken more : List Interception}
  {names last : Names}

theorem taking_nil (bench : Workbench) : bench.taking [] bench.names = bench := by
  simp [taking]

theorem taking_taking (bench : Workbench) (taken more : List Interception) (names last : Names) :
    (bench.taking taken names).taking more last = bench.taking (taken ++ more) last := by
  simp [taking, Draft.record]

theorem nextOrder_taking (bench : Workbench) (taken : List Interception) (names : Names) :
    (bench.taking taken names).draft.nextOrder = bench.draft.nextOrder + taken.length := by
  simp [taking, Draft.nextOrder_record]

theorem Takes.nil (source : List UInt8) (bench : Workbench) : bench.Takes source [] bench.names :=
  ⟨by simp, .nil _, by simp, .nil⟩

theorem Takes.append (h : bench.Takes source taken names)
    (h' : (bench.taking taken names).Takes source more last) :
    bench.Takes source (taken ++ more) last := by
  have horder := bench.nextOrder_taking taken names
  constructor
  · exact List.forall_mem_append.mpr ⟨h.fits, h'.fits⟩
  · rw [List.map_append]
    exact h.names.append h'.names
  · intro t ht
    rw [List.length_append]
    rcases List.mem_append.mp ht with ht | ht
    · have := h.ranks t ht
      omega
    · have := h'.ranks t ht
      omega
  · refine List.pairwise_append.mpr ⟨h.ascending, h'.ascending, fun a ha b hb => ?_⟩
    have hfirst := h.ranks a ha
    have hsecond := h'.ranks b hb
    omega

variable {text : String} {statement : Node} {binding : ImportBinding}

/-- A node of a well-formed tree can be replaced. -/
theorem replaceNode_eq {node : Node} (hnode : node.WellFormed text)
    (hsource : bench.draft.source = Text.encode text) (code : String) :
    bench.replaceNode node code = .ok { bench with
      draft := bench.draft.record [⟨node.start, node.stop, code, bench.draft.nextOrder⟩] } := by
  have hlength : node.stop ≤ bench.draft.source.length := by
    rw [hsource]
    exact hnode.fits.stop.le_length
  exact bind_eq_ok.mpr ⟨_, Tidy.replace_ok code hnode.start_le_stop hlength, rfl⟩

/-- An alias is put in its place. -/
theorem placeAlias_gives (hwell : statement.WellFormed text)
    (hsource : bench.draft.source = Text.encode text)
    (hbinding : binding ∈ statement.importBindings) {name : String}
    (hname : binding.localName.text (Text.encode text) = .ok name) (localName : String) :
    ∃ edit, bench.placeAlias binding localName =
        .ok { bench with draft := bench.draft.record [edit] } ∧
      Interception.Fits ⟨binding, ⟨name, localName⟩, edit⟩ (Text.encode text) ∧
      edit.order = bench.draft.nextOrder := by
  obtain ⟨hlocal, hspecifier⟩ := Node.importBindings_subset hbinding
  rw [placeAlias]
  by_cases hcase : binding.form = .single ∧ (binding.specifier.child? .alias).isNone
  · have happends : binding.appends = true := decide_eq_true hcase
    have hplace : binding.place = binding.specifier := if_pos hcase
    obtain ⟨code, hcode⟩ := (hwell.below hspecifier).readText_ok
    refine ⟨⟨binding.specifier.start, binding.specifier.stop, s!"{code} as {localName}",
      bench.draft.nextOrder⟩, ?_, ⟨hname, by rw [hplace], by rw [hplace], ?_⟩, rfl⟩
    · rw [if_pos hcase, Draft.slice, hsource]
      exact bind_eq_ok.mpr ⟨code, hcode, replaceNode_eq (hwell.below hspecifier) hsource _⟩
    · have hbytes := encode_of_readText hcode
      rw [Node.bytes] at hbytes
      simp [Interception.start, Interception.text, happends, hplace, ← hbytes, Text.encode_append,
        toString]
  · have happends : binding.appends = false := decide_eq_false hcase
    have hplace : binding.place = binding.localName := if_neg hcase
    refine ⟨⟨binding.localName.start, binding.localName.stop, localName, bench.draft.nextOrder⟩,
      ?_, ⟨hname, by rw [hplace], by rw [hplace], ?_⟩, rfl⟩
    · rw [if_neg hcase]
      exact replaceNode_eq (hwell.below hlocal) hsource _
    · simp [Interception.start, Interception.text, happends, hplace, Text.slice]

/-- **Taking in one name.** It is intercepted, unless it is that of an override function. -/
theorem interceptBinding_takes (hwell : statement.WellFormed text)
    (hsource : bench.draft.source = Text.encode text)
    (hbinding : binding ∈ statement.importBindings) :
    (bench.interceptBinding binding).Gives fun done => ∃ taken names,
      bench.Takes (Text.encode text) taken names ∧ done.1 = bench.taking taken names ∧
        done.2.toList = taken.map Interception.entry ∧
        taken.map Interception.binding =
          [binding].filter (·.isIntercepted (Text.encode text)) := by
  obtain ⟨name, hname⟩ := (hwell.below (Node.importBindings_subset hbinding).1).text_ok
  rw [interceptBinding]
  refine .lift_bind (by rw [Workbench.text, hsource]; exact hname) ?_
  split
  · rename_i hoverride
    refine .note_bind (.pure ⟨[], bench.names, .nil _ _, (taking_nil bench).symm, rfl, ?_⟩)
    simp [ImportBinding.isIntercepted, hname, hoverride]
  · rename_i hother
    have hregistered : ((bench.fresh name).2.register (bench.fresh name).1 .module).draft.source =
        Text.encode text := hsource
    obtain ⟨edit, hplaced, hfits, horder⟩ :=
      placeAlias_gives hwell hregistered hbinding hname (bench.fresh name).1
    refine .lift_bind hplaced (.bind (P := (· = bench.taking
      [⟨binding, ⟨name, (bench.fresh name).1⟩, edit⟩] _)) (.note_bind (.pure rfl)) ?_)
    rintro _ rfl
    refine .pure ⟨[⟨binding, ⟨name, (bench.fresh name).1⟩, edit⟩], _,
      ⟨?_, bench.names.takesIn_fresh name, ?_, ?_⟩, rfl, rfl, ?_⟩
    · simpa using hfits
    · intro t ht
      rw [List.mem_singleton.mp ht]
      have hrank : edit.order = bench.draft.nextOrder := horder
      simp only [List.length_singleton]
      omega
    · exact List.pairwise_singleton _ _
    · simp [ImportBinding.isIntercepted, hname, hother]

/-- **Taking in names one after the other.** -/
theorem interceptAll_takes (hwell : statement.WellFormed text)
    (hsource : bench.draft.source = Text.encode text) {bindings : List ImportBinding}
    (hbindings : ∀ binding ∈ bindings, binding ∈ statement.importBindings) :
    (bench.interceptAll bindings).Gives fun done => ∃ taken names,
      bench.Takes (Text.encode text) taken names ∧ done.1 = bench.taking taken names ∧
        done.2 = taken.map Interception.entry ∧
        taken.map Interception.binding =
          bindings.filter (·.isIntercepted (Text.encode text)) := by
  induction bindings generalizing bench with
  | nil => exact .pure ⟨[], bench.names, .nil _ _, (taking_nil bench).symm, rfl, rfl⟩
  | cons binding rest ih =>
    refine .bind (interceptBinding_takes hwell hsource (hbindings binding (List.mem_cons_self ..)))
      ?_
    rintro ⟨_, entry⟩ ⟨taken, names, htakes, rfl, hentry, hfirst⟩
    have hnext : (bench.taking taken names).draft.source = Text.encode text := hsource
    refine .bind (ih hnext fun other hother => hbindings other (List.mem_cons_of_mem _ hother)) ?_
    rintro ⟨_, entries⟩ ⟨more, last, hmore, rfl, rfl, hrest⟩
    refine .pure ⟨taken ++ more, last, htakes.append hmore, taking_taking .., ?_, ?_⟩
    · rw [List.map_append, ← hentry]
    · rw [List.map_append, hfirst, hrest, ← List.filter_append, List.singleton_append]

end Workbench

/-! ### Statements -/

/-- The edits that are made on an import statement. -/
def Workbench.interceptionEdits (bench : Workbench) (statement : Node)
    (taken : List Interception) : List Edit :=
  if taken.isEmpty then []
  else Interception.edits statement.stop taken (Interception.declarations bench.runtime taken)
    (bench.draft.nextOrder + taken.length)

/-- What intercepting an import statement leads to. -/
structure Workbench.Intercepts (source : List UInt8) (statement : Node) (bench : Workbench)
    (taken : List Interception) (after : Workbench) : Prop where
  /-- The imports of the statement stand one behind the other. -/
  ordered : ImportBinding.Successive statement.importBindings
  /-- Intercepted are those that are not override functions, in their order, -/
  bindings : taken.map Interception.binding =
    statement.importBindings.filter (·.isIntercepted source)
  /-- each under the name that is written in the statement, and by an edit of its own. -/
  fits : ∀ t ∈ taken, t.Fits source
  /-- New aliases are made for them, and bound as imports. -/
  names : bench.names.TakesIn (taken.map Interception.entry) after.names
  /-- They are entered into the inventory, behind those found before. -/
  inventory : after.inventory = { bench.inventory with
    imports := bench.inventory.imports ++ taken.map Interception.entry }
  /-- The draft is edited at the statement and nowhere else. -/
  draft : after.draft = bench.draft.record (bench.interceptionEdits statement taken)
  /-- The edits lead to the statement with the aliases put in. Right behind it, the names are
  declared anew. The rest of the source stays as it is. -/
  code : ∃ code, (⟨source, bench.interceptionEdits statement taken⟩ : Draft).render = .ok code ∧
    Text.encode code = source.take statement.start ++
      Interception.rewrite source statement.stop statement.start taken ++
      Text.encode (Interception.declarations bench.runtime taken) ++ source.drop statement.stop
  /-- So does whatever in the statement has nothing to do with the aliases. -/
  kept : ∀ node, statement.IsBystander source node →
    node.bytes source <:+: Interception.rewrite source statement.stop statement.start taken
  /-- Nothing else changes on the workbench, -/
  rest : after = { bench with
    draft := after.draft, names := after.names, inventory := after.inventory }
  /-- and nothing at all if nothing is intercepted. -/
  unchanged : taken = [] → after = bench

namespace Workbench

variable {text : String} {statement : Node} {bench : Workbench}

/-- The last one is that of the declarations. -/
theorem interceptionEdits_eq {taken : List Interception} (hsome : taken ≠ []) (names : Names) :
    bench.interceptionEdits statement taken = taken.map Interception.edit ++
      [(bench.taking taken names).interceptionEdit statement (taken.map Interception.entry)] := by
  have hempty : taken.isEmpty = false := by simpa using hsome
  rw [interceptionEdits, hempty, if_neg Bool.false_ne_true, Interception.edits, interceptionEdit,
    nextOrder_taking, Interception.declarations, List.map_map]
  rfl

/-- **Opening an import statement** takes in its imports, and declares them anew behind it. -/
theorem openImport_takes (hwell : statement.WellFormed text)
    (hsource : bench.draft.source = Text.encode text) :
    ∃ taken names, bench.Takes (Text.encode text) taken names ∧
      taken.map Interception.binding =
        statement.importBindings.filter (·.isIntercepted (Text.encode text)) ∧
      (bench.openImport statement).result = .ok { bench.taking taken names with
        draft := bench.draft.record (bench.interceptionEdits statement taken) } := by
  obtain ⟨⟨_, _⟩, hdone, taken, names, htakes, rfl, rfl, hbindings⟩ :=
    interceptAll_takes hwell hsource fun _ h => h
  refine ⟨taken, names, htakes, hbindings, Traced.bind_ok.mpr ⟨_, hdone, ?_⟩⟩
  dsimp only
  cases taken with
  | nil => rfl
  | cons first rest =>
    have hlength : statement.stop ≤ (bench.taking (first :: rest) names).draft.source.length := by
      show statement.stop ≤ bench.draft.source.length
      rw [hsource]
      exact hwell.fits.stop.le_length
    refine bind_eq_ok.mpr ⟨_, Tidy.replace_ok _ (Nat.le_refl _) hlength, ?_⟩
    rw [interceptionEdits_eq (List.cons_ne_nil _ _) names, ← Draft.record_record]
    rfl

/-- The text to which they lead. -/
theorem render_interceptionEdits (hwell : statement.WellFormed text) {taken : List Interception}
    (hbindings : taken.map Interception.binding =
      statement.importBindings.filter (·.isIntercepted (Text.encode text)))
    {names : Names} (htakes : bench.Takes (Text.encode text) taken names) :
    ∃ code, (⟨Text.encode text, bench.interceptionEdits statement taken⟩ : Draft).render =
        .ok code ∧
      Text.encode code = (Text.encode text).take statement.start ++
        Interception.rewrite (Text.encode text) statement.stop statement.start taken ++
        Text.encode (Interception.declarations bench.runtime taken) ++
        (Text.encode text).drop statement.stop := by
  rw [interceptionEdits]
  cases taken with
  | nil =>
    refine ⟨text, ?_, ?_⟩
    · rw [List.isEmpty_nil, if_pos rfl, Draft.render, Draft.renderBytes, List.mergeSort_nil,
        Draft.splice, List.drop_zero]
      exact readText_encode text
    · have hempty : Text.encode (Interception.declarations bench.runtime []) = [] := rfl
      rw [hempty, List.append_nil, Interception.rewrite, List.append_assoc,
        Text.slice_append_drop hwell.start_le_stop, List.take_append_drop]
  | cons first rest =>
    rw [List.isEmpty_cons, if_neg Bool.false_ne_true]
    exact Draft.render_interceptions hwell hbindings htakes.fits htakes.ascending
      (fun t ht => Int.le_of_lt (htakes.ranks t ht).2) _

/-- **An import statement is intercepted.** -/
theorem visit_intercepts {m : Module} (hm : m.WellFormed) {statement : Node}
    (hstatement : statement ∈ m.root.subtree) (hkind : statement.kind = .importStatement)
    {bench : Workbench} (hsource : bench.draft.source = Text.encode m.source) :
    ∃ taken after, (bench.visit statement).result = .ok after ∧
      bench.Intercepts (Text.encode m.source) statement taken after := by
  have hwell : statement.WellFormed m.source := Node.WellFormed.below hm hstatement
  obtain ⟨taken, names, htakes, hbindings, hopened⟩ := openImport_takes hwell hsource
  refine ⟨taken, _, by rw [visit, hkind]; exact hopened, ?_⟩
  constructor
  · exact Node.importBindings_successive hwell
  · exact hbindings
  · exact htakes.fits
  · exact htakes.names
  · rfl
  · rfl
  · exact render_interceptionEdits hwell hbindings htakes
  · intro node hnode
    obtain ⟨hstart, hordered, hstop⟩ := hwell.within hnode.mem_subtree
    refine Interception.bytes_infix_rewrite hstart hordered hstop fun t ht => ?_
    obtain ⟨hmem, hintercepted⟩ := List.mem_filter.mp (hbindings ▸ List.mem_map_of_mem ht)
    exact Interception.spares_of_isBystander hwell hmem hintercepted hnode
  · rfl
  · rintro rfl
    have hnames : names = bench.names := htakes.names.idle rfl
    simp [taking, interceptionEdits, hnames]

/-- An import of single exports: one under an alias, one without, and an override function. -/
def mixedImport : Node :=
  { kind := .importStatement, start := 0, stop := 40, children := [
    { kind := .importClause, start := 7, stop := 30, children := [
      { kind := .namedImports, start := 7, stop := 30, children := [
        { kind := .importSpecifier, start := 9, stop := 15, children := [
          { kind := .identifier, start := 9, stop := 10, role := some .name },
          { kind := .identifier, start := 14, stop := 15, role := some .alias }] },
        { kind := .importSpecifier, start := 17, stop := 18, children := [
          { kind := .identifier, start := 17, stop := 18, role := some .name }] },
        { kind := .importSpecifier, start := 20, stop := 28, children := [
          { kind := .identifier, start := 20, stop := 28, role := some .name }] }] }] },
    { kind := .string, start := 36, stop := 39, role := some .source }] }

/-- A module with that import. -/
def importing : Module where
  source := "import { a as b, c, rewire$x } from 'm';\n"
  root := { kind := .program, start := 0, stop := 41, children := [mixedImport] }

/-- The workbench for that module, with nothing done yet. -/
def importingBench : Workbench :=
  ⟨{}, none, ⟨Text.encode importing.source, []⟩, ⟨{}, []⟩, {}, {}⟩

/-- The import is intercepted. -/
theorem visit_intercepts_mixed :
    (importing.WellFormed ∧ mixedImport ∈ importing.root.subtree ∧
      mixedImport.kind = .importStatement ∧
      importingBench.draft.source = Text.encode importing.source) ∧
    ∃ taken after, (importingBench.visit mixedImport).result = .ok after ∧
      importingBench.Intercepts (Text.encode importing.source) mixedImport taken after := by
  have hwell : importing.WellFormed := by decide +kernel
  have hstatement : mixedImport ∈ importing.root.subtree :=
    Node.mem_subtree_of_mem_children (List.mem_singleton_self _)
  exact ⟨⟨hwell, hstatement, rfl, rfl⟩, visit_intercepts hwell hstatement rfl rfl⟩

-- The name of the override function is passed over.
example : (importingBench.visit mixedImport).result.toOption.map
    (fun bench => bench.draft.edits.map Edit.text) =
    some ["_b", "c as _c", "\nlet b = _rewireProxyIfNeeded(_b, \"b\");" ++
      "\nlet c = _rewireProxyIfNeeded(_c, \"c\");"] := by
  decide +kernel

end Workbench

end Seams
