import Seams.Proofs.Pieces
import Seams.Proofs.WeakenedConstants

/-!
# Copies of constants and imports

Neither a constant nor an import can be assigned, so a specifier that exports one is turned to a
copy of it. The copy is declared right in front of the export statement, and there it reads the
constant, or the variable as which the import is declared anew. That is too early if the export
statement comes first in the module, as it may. So whether a copy finds a value is told by the
order of two statements, and by nothing else: not by what else is inserted at the same offset.

## Main definitions

* `Module.Copied` — a specifier that is turned to a copy
* `Module.Redeclares` — an import is declared anew
* `Module.Copied.Placed` — where a copy stands

## Main results

* `Module.Hosts.beside` — without weakening, no edit touches a declaration of constants
* `Module.Copied.placed_by_order` — where a copy stands is told by the order of statements
* `Module.inverted_copies_early` — a copy may stand in front of its constant
-/

namespace Seams

/-! ### Declarations that are not touched -/

/-- Where exports have what they need, no statement with a `let` or `const` declaration may be
replaced. -/
theorem Module.Exportable.lexical?_eq_none {m : Module} (hexports : m.Exportable)
    {statement : Node} (hstatement : statement ∈ m.root.namedChildren)
    (h : statement.IsReplaceable) : statement.lexical? = none := by
  rcases h with hnone | ⟨hkind, hdefault⟩
  · exact hnone
  · have hdeclaration := (hexports statement hstatement hkind).default hdefault
    simp only [Node.lexical?, hkind, Option.filter_eq_none_iff, beq_iff_eq]
    exact hdeclaration

/-- **An edit lies beside a declaration**, unless it weakens it. -/
theorem Module.Hosts.beside {m : Module} {top : Nat} {edit : Edit} (h : m.Hosts top edit)
    (hm : m.WellFormed) (hexports : m.Exportable) (htop : m.IsSeam top) {statement node : Node}
    (hstatement : statement ∈ m.root.namedChildren) (hlexical : statement.lexical? = some node) :
    edit.stop ≤ node.start ∨ node.stop ≤ edit.start := by
  obtain ⟨hstart, -, hstop⟩ :=
    (hm.ofStatement hstatement).within (Node.lexical?_subset hlexical)
  have hseam : ∀ offset, m.IsSeam offset → offset ≤ statement.start ∨ statement.stop ≤ offset := by
    intro offset hoffset
    have := hoffset.outside statement hstatement
    omega
  cases h with
  | top hbegin hend =>
    have := hseam top htop
    omega
  | before hother hbegin hend =>
    have := hseam _ (hm.isSeam_start hother)
    omega
  | behind hother hbegin hend =>
    have := hseam _ (hm.isSeam_stop hother)
    omega
  | @within other part hother hreplaceable hpart hbegin hend =>
    have hne : other ≠ statement := by
      rintro rfl
      rw [hexports.lexical?_eq_none hstatement hreplaceable] at hlexical
      cases hlexical
    obtain ⟨hfirst, -, hlast⟩ := (hm.ofStatement hother).within hpart
    have := hm.statements_disjoint_of_ne hother hstatement hne
    omega

/-- The place for hoisted statements is a seam. -/
theorem Module.WellFormed.isSeam_top {m : Module} (hm : m.WellFormed) :
    m.IsSeam (m.root.hashbangEnd.getD 0) := by
  cases hstop : m.root.hashbangEnd with
  | none => exact Module.WellFormed.isSeam_zero m
  | some stop => exact hm.isSeam_hashbang hstop

/-- The edits on a workbench are in places for edits. -/
def Hosted (m : Module) (bench : Workbench) : Prop :=
  ∀ edit ∈ bench.draft.edits, m.Hosts (bench.hashbangEnd.getD 0) edit

section

variable {m : Module} {a b : Workbench} {act : Act}

/-- Where constants may not be weakened, edits stay in places for edits. -/
theorem Does.hosted (h : Does m a act b) (hsafe : a.options.unsafeConst = false)
    (ha : Hosted m a) : Hosted m b := by
  intro edit hedit
  rw [h.edits] at hedit
  rw [h.hashbangEnd]
  rcases List.mem_append.mp hedit with hedit | hedit
  · exact ha edit hedit
  · cases h with
    | weaken _ _ _ hpermits => simp [hsafe] at hpermits
    | keep | declare | claim => cases hedit
    | rewrite hadmits =>
      obtain rfl := List.mem_singleton.mp hedit
      exact hadmits.hosts
    | intercept _ _ hadmits =>
      obtain rfl := List.mem_singleton.mp hedit
      exact hadmits.hosts
    | store hadmits => exact (hadmits edit hedit).hosts

theorem Works.hosted (h : Works m a b) (hsafe : a.options.unsafeConst = false)
    (ha : Hosted m a) : Hosted m b := by
  obtain ⟨acts, hacts⟩ := h
  refine (hacts.keeps (P := fun bench => bench.options.unsafeConst = false ∧ Hosted m bench) ?_
    ⟨hsafe, ha⟩).2
  rintro _ _ _ hact ⟨hsafe, hhosted⟩
  exact ⟨hact.options ▸ hsafe, hact.hosted hsafe hhosted⟩

theorem Works.edits_length (h : Works m a b) : a.draft.edits.length ≤ b.draft.edits.length :=
  h.edits_kept.length_le

end

/-! ### Stages of the work -/

namespace Workbench

variable {bench last : Workbench}

/-- Work on statements can be cut in two. -/
theorem visitAll_append {front back : List Node} :
    (bench.visitAll (front ++ back)).result = .ok last ↔
      ∃ next, (bench.visitAll front).result = .ok next ∧
        (next.visitAll back).result = .ok last := by
  induction front generalizing bench with
  | nil =>
    constructor
    · exact fun h => ⟨bench, rfl, h⟩
    · rintro ⟨next, hnext, h⟩
      obtain rfl : bench = next := Except.ok.inj hnext
      exact h
  | cons statement rest ih =>
    constructor
    · intro h
      obtain ⟨first, hfirst, h⟩ := Traced.bind_ok.mp h
      obtain ⟨next, hnext, h⟩ := ih.mp h
      exact ⟨next, Traced.bind_ok.mpr ⟨first, hfirst, hnext⟩, h⟩
    · rintro ⟨next, hnext, h⟩
      obtain ⟨first, hfirst, hnext⟩ := Traced.bind_ok.mp hnext
      exact Traced.bind_ok.mpr ⟨first, hfirst, ih.mpr ⟨next, hnext, h⟩⟩

/-- Opening specifiers can be cut in two. -/
theorem openSpecifiers_append {statement : Node} {front back : List Node}
    (h : (bench.openSpecifiers statement (front ++ back)).result = .ok last) :
    ∃ next, (bench.openSpecifiers statement front).result = .ok next ∧
      (next.openSpecifiers statement back).result = .ok last := by
  induction front generalizing bench with
  | nil => exact ⟨bench, rfl, h⟩
  | cons specifier rest ih =>
    obtain ⟨first, hfirst, h⟩ := Traced.bind_ok.mp h
    obtain ⟨next, hnext, h⟩ := ih h
    exact ⟨next, Traced.bind_ok.mpr ⟨first, hfirst, hnext⟩, h⟩

theorem visitAll_singleton {statement : Node} :
    (bench.visitAll [statement]).result = .ok last ↔ (bench.visit statement).result = .ok last := by
  constructor
  · intro h
    obtain ⟨next, hnext, h⟩ := Traced.bind_ok.mp h
    obtain rfl : next = last := Except.ok.inj h
    exact hnext
  · exact fun h => Traced.bind_ok.mpr ⟨last, h, rfl⟩

/-- Work on some statements has gone through the work on the first of them. -/
theorem visitAll_front {front whole : List Node} (hfront : front <+: whole)
    (h : (bench.visitAll whole).result = .ok last) :
    ∃ next, (bench.visitAll front).result = .ok next := by
  obtain ⟨back, rfl⟩ := hfront
  obtain ⟨next, hnext, -⟩ := visitAll_append.mp h
  exact ⟨next, hnext⟩

/-- Work on more statements goes on from the work on fewer of them. -/
theorem visitAll_works_on {m : Module} {next : Workbench}
    (hsource : bench.draft.source = Text.encode m.source) {front whole : List Node}
    (hfront : front <+: whole) (hwhole : ∀ s ∈ whole, s ∈ m.root.namedChildren)
    (hnext : (bench.visitAll front).result = .ok next)
    (hlast : (bench.visitAll whole).result = .ok last) : Works m next last := by
  obtain ⟨back, rfl⟩ := hfront
  obtain ⟨again, hagain, hback⟩ := visitAll_append.mp hlast
  obtain rfl : next = again := Except.ok.inj (hnext.symm.trans hagain)
  have hworks := visitAll_works hsource (fun s hs => hwhole s (List.mem_append_left _ hs)) next
    hnext
  exact visitAll_works (hworks.source.trans hsource)
    (fun s hs => hwhole s (List.mem_append_right _ hs)) last hback

/-- The last of them is worked on at the end. -/
theorem visitAll_take_succ {statements : List Node} {place : Nat} {statement : Node}
    (hplace : statements[place]? = some statement) :
    (bench.visitAll (statements.take (place + 1))).result = .ok last ↔
      ∃ next, (bench.visitAll (statements.take place)).result = .ok next ∧
        (next.visit statement).result = .ok last := by
  rw [List.take_add_one, hplace, Option.toList_some, visitAll_append]
  simp only [visitAll_singleton]

/-- A specifier for a constant or an import is turned to a copy, unless the constant is weakened. -/
theorem openSpecifier_copies {source : List UInt8} {statement specifier : Node}
    {localName name : String} {binding : Binding} (hsource : bench.draft.source = source)
    (hnames : specifier.Specifies source localName name)
    (hb : bench.scope.get? localName = some binding) (himmutable : binding.isImmutable = true)
    (hkept : ¬ (bench.options.unsafeConst = true ∧ binding.kind = .const)) :
    (bench.openSpecifier statement specifier).Ensures
      (· = { (bench.fresh localName).2.register (bench.fresh localName).1 .var with
        draft := bench.draft.record
          [bench.copyEdit statement localName, bench.specifierEdit specifier localName name]
        inventory := bench.inventory.addExport name (bench.fresh localName).1 }) := by
  obtain ⟨localNode, nameNode, hparts, hlocalKind, hnameKind, hlocal, hname⟩ := hnames
  refine .lift_bind ?_
  rintro ⟨_, _⟩ hparts'
  obtain ⟨rfl, rfl⟩ := Prod.mk.inj (Except.ok.inj (hparts.symm.trans hparts'))
  show (if localNode.kind = .string ∨ nameNode.kind = .string then _ else _ :
    Traced Workbench).Ensures _
  rw [if_neg (not_or.mpr ⟨hlocalKind, hnameKind⟩)]
  refine .lift_bind fun own hown => .lift_bind fun exported hexported => ?_
  rw [text, hsource] at hown hexported
  obtain rfl := Except.ok.inj (hlocal.symm.trans hown)
  obtain rfl := Except.ok.inj (hname.symm.trans hexported)
  rw [openNamedSpecifier, hb]
  dsimp only
  rw [if_neg (by simpa using hkept), if_pos himmutable]
  exact bench.copySpecifier_ensures statement specifier localName name

end Workbench

/-! ### Copies -/

/-- A specifier is turned to a copy: it stands in an export statement without source and without
declaration, and when the work comes to it, what it exports is an import, or a constant that may
not be weakened. -/
structure Module.Copied (m : Module) (options : Options) where
  /-- The place of the statement in the module. -/
  site : Nat
  statement : Node
  earlier : List Node
  specifier : Node
  later : List Node
  localName : String
  name : String
  binding : Binding
  begun : Workbench
  /-- The work has come to the statement. -/
  arrived : Workbench
  /-- The work has come to the specifier. -/
  bench : Workbench
  stands : m.root.namedChildren[site]? = some statement
  own : statement.IsOwnExport
  notDefault : statement.isDefaultExport = false
  bare : statement.child? .declaration = none
  specifiers : statement.exportSpecifiers = earlier ++ specifier :: later
  exports : specifier.Specifies (Text.encode m.source) localName name
  starts : (Workbench.start options (Text.encode m.source) m.root).result = .ok begun
  visits : (begun.visitAll (m.root.namedChildren.take site)).result = .ok arrived
  opens : (arrived.openSpecifiers statement earlier).result = .ok bench
  bound : bench.scope.get? localName = some binding
  immutable : binding.isImmutable = true
  kept : ¬ (options.unsafeConst = true ∧ binding.kind = .const)

/-- When the work comes to the import statement at a place, an edit declares a name of it anew. -/
def Module.Redeclares (m : Module) (begun : Workbench) (site : Nat) (name : String) (edit : Edit) :
    Prop :=
  ∃ statement before taken entries, m.root.namedChildren[site]? = some statement ∧
    (begun.visitAll (m.root.namedChildren.take site)).result = .ok before ∧
    (before.interceptAll statement.importBindings).result = .ok (taken, entries) ∧
    (∃ entry ∈ entries, entry.name = name) ∧ edit = taken.interceptionEdit statement entries

section

variable {m : Module} {options : Options}

namespace Module.Copied

variable (copy : m.Copied options)

/-- The edit that declares the copy. -/
def edit : Edit :=
  copy.bench.copyEdit copy.statement copy.localName

theorem mem : copy.statement ∈ m.root.namedChildren :=
  List.mem_of_getElem? copy.stands

theorem isBegun : Begun m copy.begun :=
  Workbench.start_ensures m options _ copy.starts

theorem arrives : Works m copy.begun copy.arrived :=
  Workbench.visitAll_works copy.isBegun.source (fun _ hs => List.mem_of_mem_take hs) _ copy.visits

theorem goesOn : Works m copy.arrived copy.bench := by
  have hsource := copy.arrives.source.trans copy.isBegun.source
  have hspecifiers : ∀ s ∈ copy.earlier, s ∈ copy.statement.exportSpecifiers := by
    intro s hs
    rw [copy.specifiers]
    exact List.mem_append_left _ hs
  obtain ⟨names, hopens⟩ := Workbench.openSpecifiers_opens copy.mem copy.own copy.notDefault
    copy.bare hspecifiers copy.arrived hsource copy.bench copy.opens
  exact hopens.performs.works

theorem works : Works m copy.begun copy.bench :=
  copy.arrives.trans copy.goesOn

theorem options_eq : copy.bench.options = options :=
  copy.works.options.trans (Workbench.start_frame options _ _ _ copy.starts).1

/-- The copy is declared when its statement is worked on. -/
theorem inserted {next : Workbench}
    (h : (copy.begun.visitAll (m.root.namedChildren.take (copy.site + 1))).result = .ok next) :
    copy.edit ∈ next.draft.edits ∧ copy.edit.order ≤ next.draft.edits.length := by
  obtain ⟨arrived, harrived, h⟩ := (Workbench.visitAll_take_succ copy.stands).mp h
  obtain rfl : copy.arrived = arrived := Except.ok.inj (copy.visits.symm.trans harrived)
  rw [Workbench.visit, copy.own.kind] at h
  dsimp only at h
  rw [Workbench.openExport, if_neg (by simp [copy.own.source]), if_neg (by simp [copy.notDefault]),
    copy.bare] at h
  dsimp only at h
  rw [Workbench.openClause_eq, copy.specifiers] at h
  obtain ⟨bench, hbench, h⟩ := Workbench.openSpecifiers_append h
  obtain rfl : copy.bench = bench := Except.ok.inj (copy.opens.symm.trans hbench)
  obtain ⟨copied, hcopied, h⟩ := Traced.bind_ok.mp h
  have hsource := copy.works.source.trans copy.isBegun.source
  have hkept : ¬ (copy.bench.options.unsafeConst = true ∧ copy.binding.kind = .const) := by
    rw [copy.options_eq]
    exact copy.kept
  have heq := Workbench.openSpecifier_copies hsource copy.exports copy.bound copy.immutable hkept
    copied hcopied
  have hdraft : copied.draft = copy.bench.draft.record
      [copy.edit, copy.bench.specifierEdit copy.specifier copy.localName copy.name] :=
    congrArg Workbench.draft heq
  have hspecifiers : ∀ s ∈ copy.later, s ∈ copy.statement.exportSpecifiers := by
    intro s hs
    rw [copy.specifiers]
    exact List.mem_append_right _ (List.mem_cons_of_mem _ hs)
  obtain ⟨names, hopens⟩ := Workbench.openSpecifiers_opens copy.mem copy.own copy.notDefault
    copy.bare hspecifiers copied (by rw [hdraft]; exact hsource) next h
  have hfront := hopens.performs.works.edits_kept
  rw [hdraft] at hfront
  refine ⟨hfront.subset (List.mem_append_right _ (List.mem_cons_self ..)), ?_⟩
  have hlength := hfront.length_le
  simp only [Draft.record, List.length_append, List.length_cons, List.length_nil] at hlength
  simp only [edit, Workbench.copyEdit, Draft.nextOrder]
  omega

/-- The edits that earlier statements lead to are made before the copy is. -/
theorem edits_length_lt_order {count : Nat} {next : Workbench}
    (h : (copy.begun.visitAll (m.root.namedChildren.take count)).result = .ok next)
    (hle : count ≤ copy.site) : next.draft.edits.length < copy.edit.order := by
  have hworks := Workbench.visitAll_works_on copy.isBegun.source (List.take_prefix_take_left hle)
    (fun _ hs => List.mem_of_mem_take hs) h copy.visits
  have hlength := (hworks.trans copy.goesOn).edits_length
  simp only [edit, Workbench.copyEdit, Draft.nextOrder]
  omega

/-- The copy is made before the edits that later statements lead to are. -/
theorem order_le_edits_length {count : Nat} {before : Workbench}
    (h : (copy.begun.visitAll (m.root.namedChildren.take count)).result = .ok before)
    (hlt : copy.site < count) : copy.edit.order ≤ before.draft.edits.length := by
  have hfront := List.take_prefix_take_left (l := m.root.namedChildren) (Nat.succ_le_of_lt hlt)
  obtain ⟨after, hafter⟩ := Workbench.visitAll_front hfront h
  have hworks := Workbench.visitAll_works_on copy.isBegun.source hfront
    (fun _ hs => List.mem_of_mem_take hs) hafter h
  have hlength := hworks.edits_length
  have horder := (copy.inserted hafter).2
  omega

end Module.Copied

section

variable {begun before next : Workbench} (hsource : begun.draft.source = Text.encode m.source)
  {site : Nat} {statement : Node} (hsite : m.root.namedChildren[site]? = some statement)
  (hkind : statement.kind = .importStatement) {name : String}
  (hnext : (begun.visitAll (m.root.namedChildren.take (site + 1))).result = .ok next)
include hsource hsite hkind hnext

/-- An import is declared anew when its statement is worked on, unless it is an override
function. -/
theorem Module.exists_redeclares (hname : statement.Introduces (Text.encode m.source) name)
    (hoverride : isOverrideName name = false) : ∃ edit, m.Redeclares begun site name edit := by
  obtain ⟨before, hbefore, hvisit⟩ := (Workbench.visitAll_take_succ hsite).mp hnext
  have hworks := Workbench.visitAll_works hsource (fun _ hs => List.mem_of_mem_take hs) _ hbefore
  rw [Workbench.visit, hkind] at hvisit
  obtain ⟨taken, entries, htaken, -⟩ := Workbench.openImport_taken hvisit
  obtain ⟨binding, hbinding, htext⟩ := (Node.introduces_import_iff hkind).mp hname
  obtain ⟨entry, hentry, hfound, -⟩ := Workbench.interceptAll_finds (hworks.source.trans hsource)
    (List.mem_of_getElem? hsite) hkind (fun _ h => h) hbinding htext hoverride _ htaken
  exact ⟨taken.interceptionEdit statement entries, statement, before, taken, entries, hsite,
    hbefore, htaken, ⟨entry, hentry, hfound⟩, rfl⟩

/-- The edit is put behind the statement, and made after those of earlier statements. -/
theorem Module.Redeclares.inserted {edit : Edit} (h : m.Redeclares begun site name edit)
    (hbefore : (begun.visitAll (m.root.namedChildren.take site)).result = .ok before) :
    edit ∈ next.draft.edits ∧ edit.start = statement.stop ∧ edit.stop = edit.start ∧
      before.draft.edits.length < edit.order ∧ edit.order ≤ next.draft.edits.length := by
  obtain ⟨_, _, taken, entries, hsite', hbefore', htaken, ⟨entry, hentry, -⟩, rfl⟩ := h
  obtain rfl := Option.some.inj (hsite.symm.trans hsite')
  obtain rfl := Except.ok.inj (hbefore.symm.trans hbefore')
  have hworks := Workbench.visitAll_works hsource (fun _ hs => List.mem_of_mem_take hs) _ hbefore
  have hlength := (Workbench.interceptAll_performs (hworks.source.trans hsource)
    (List.mem_of_getElem? hsite) hkind (fun _ h => h) _ htaken).works.edits_length
  obtain ⟨_, hagain, hvisit⟩ := (Workbench.visitAll_take_succ hsite).mp hnext
  obtain rfl := Except.ok.inj (hbefore.symm.trans hagain)
  rw [Workbench.visit, hkind] at hvisit
  obtain ⟨_, _, htaken', rfl⟩ := Workbench.openImport_taken hvisit
  obtain ⟨rfl, rfl⟩ := Prod.mk.inj (Except.ok.inj (htaken.symm.trans htaken'))
  have hsome : ¬ entries.isEmpty = true := by
    simpa using List.ne_nil_of_mem hentry
  rw [if_neg hsome]
  refine ⟨List.mem_append_right _ (List.mem_singleton_self _), rfl, rfl, ?_, ?_⟩
  · simp only [Workbench.interceptionEdit, Draft.nextOrder]
    dsimp only at hlength
    omega
  · simp [Workbench.interceptionEdit, Draft.nextOrder, Draft.record]

end

/-- The edits that some statements lead to are there in the end. -/
theorem Workbench.edits_subset {begun visited bench last : Workbench} {overrides : Overrides}
    (hsource : begun.draft.source = Text.encode m.source)
    (hvisit : (begun.visitAll m.root.namedChildren).result = .ok visited)
    (hadd : visited.addOverrides.result = .ok (overrides, last)) {count : Nat}
    (h : (begun.visitAll (m.root.namedChildren.take count)).result = .ok bench) {edit : Edit}
    (hedit : edit ∈ bench.draft.edits) : edit ∈ last.draft.edits := by
  have hworks := visitAll_works_on hsource ⟨_, List.take_append_drop count _⟩ (fun _ hs => hs) h
    hvisit
  obtain ⟨-, -, added, hdraft, -⟩ := addOverrides_frame hadd
  rw [hdraft]
  exact List.mem_append_left _ (hworks.edits_kept.subset hedit)

/-- An edit for the functions lies beside every statement. -/
theorem Workbench.Adds.beside {bench : Workbench} {edit : Edit} (h : bench.Adds edit)
    (hm : m.WellFormed) (hsource : bench.draft.source = Text.encode m.source)
    (htop : m.IsSeam (bench.hashbangEnd.getD 0)) {statement node : Node}
    (hstatement : statement ∈ m.root.namedChildren) (hnode : node ∈ statement.subtree) :
    edit.stop ≤ node.start ∨ node.stop ≤ edit.start := by
  obtain ⟨hstart, -, hstop⟩ := (hm.ofStatement hstatement).within hnode
  have hseam : m.IsSeam edit.start := by
    rcases h.place with hplace | hplace
    · rw [hplace]
      exact htop
    · rw [hplace, hsource]
      exact hm.isSeam_length
  have houtside := hseam.outside statement hstatement
  have hinsertion := h.insertion
  omega

/-- Of two insertions, the one that was made later and not further ahead comes second. -/
theorem Edit.not_precedes_of_later {a b : Edit} (ha : a.stop = a.start) (hb : b.stop = b.start)
    (hstart : a.start ≤ b.start) (horder : a.order < b.order) : ¬ b.precedes a = true := by
  intro h
  rcases Edit.precedes_iff.mp h with hlt | ⟨-, hrank⟩
  · omega
  · simp [Edit.isInsertion, ha, hb] at hrank
    omega

namespace Module.Copied

variable (copy : m.Copied options)

/-- Where a copy stands in the code of the opened module. -/
structure Placed (last : Workbench) : Prop where
  declared : copy.edit ∈ last.draft.edits
  /-- A constant has a declaration. This stands before the copy if its statement comes before the
  export statement, and after the copy otherwise. -/
  constant : copy.binding.kind = .const → ∃ d, copy.binding.declaration = some d ∧
    m.IsConst d ∧ d.Binds (Text.encode m.source) copy.localName ∧ (d.node.start < d.node.stop →
      (last.draft.KeptBefore d.node copy.edit ↔ d.site < copy.site) ∧
      (copy.site < d.site → last.draft.KeptAfter copy.edit d.node))
  /-- An import is declared anew, unless it is an override function. This happens before the copy if
  the import statement comes before the export statement, and after the copy otherwise. -/
  imported : ∀ (site : Nat) (statement : Node), m.root.namedChildren[site]? = some statement →
    statement.kind = .importStatement →
    statement.Introduces (Text.encode m.source) copy.localName →
    isOverrideName copy.localName = false →
    ∃ edit, m.Redeclares copy.begun site copy.localName edit ∧ edit ∈ last.draft.edits ∧
      ([Piece.made edit, Piece.made copy.edit].Sublist last.draft.pieces ↔ site < copy.site) ∧
      (copy.site < site → [Piece.made copy.edit, Piece.made edit].Sublist last.draft.pieces)

variable {copy} {visited last : Workbench} {overrides : Overrides}

/-- A constant that is copied was one in the beginning. -/
theorem exists_declaration (hconst : copy.binding.kind = .const) :
    ∃ d, copy.binding.declaration = some d ∧ m.IsConst d ∧
      d.Binds (Text.encode m.source) copy.localName := by
  refine copy.isBegun.constant ?_ hconst
  obtain ⟨deeds, hsteps⟩ := copy.works.reaches
  refine hsteps.rebinds (P := fun found => ∀ binding, found = some binding →
    binding.kind = .const → copy.begun.scope.get? copy.localName = some binding) ?_
    copy.localName (fun _ hb _ => hb) copy.binding copy.bound hconst
  intro x y hxy hx binding hy hconst
  exact hx binding (hxy.constant hy hconst) hconst

section

variable (hvisit : (copy.begun.visitAll m.root.namedChildren).result = .ok visited)
  (hadd : visited.addOverrides.result = .ok (overrides, last))
include hvisit hadd

theorem edit_mem : copy.edit ∈ last.draft.edits := by
  obtain ⟨next, hnext⟩ := Workbench.visitAll_front ⟨_, List.take_append_drop (copy.site + 1) _⟩
    hvisit
  exact Workbench.edits_subset copy.isBegun.source hvisit hadd hnext (copy.inserted hnext).1

theorem source_eq : last.draft.source = Text.encode m.source := by
  obtain ⟨-, -, added, hdraft, -⟩ := Workbench.addOverrides_frame hadd
  rw [hdraft]
  exact (Workbench.visitAll_works copy.isBegun.source (fun _ hs => hs) visited
    hvisit).source.trans copy.isBegun.source

/-- Without weakening, no edit touches a declaration of constants. -/
theorem untouched (hm : m.WellFormed) (hexports : m.Exportable)
    (hsafe : options.unsafeConst = false) {d : Declaration} (hd : m.IsConst d) :
    ∀ edit ∈ last.draft.edits, edit.stop ≤ d.node.start ∨ d.node.stop ≤ edit.start := by
  obtain ⟨statement, hsite, hlexical⟩ := hd.stands
  have hstatement := List.mem_of_getElem? hsite
  obtain ⟨hoptions, hhashbang, hempty⟩ := Workbench.start_frame options _ _ _ copy.starts
  have hworks := Workbench.visitAll_works copy.isBegun.source (fun _ hs => hs) visited hvisit
  have hhosted : Hosted m visited := by
    refine hworks.hosted (by rw [hoptions, hsafe]) fun edit hedit => ?_
    rw [hempty] at hedit
    cases hedit
  have htop : m.IsSeam (visited.hashbangEnd.getD 0) := by
    rw [hworks.hashbangEnd, hhashbang]
    exact hm.isSeam_top
  obtain ⟨-, -, added, hdraft, hadds⟩ := Workbench.addOverrides_frame hadd
  intro edit hedit
  rw [hdraft] at hedit
  rcases List.mem_append.mp hedit with hedit | hedit
  · exact (hhosted edit hedit).beside hm hexports htop hstatement hlexical
  · exact (hadds edit hedit).beside hm (hworks.source.trans copy.isBegun.source) htop hstatement
      (Node.lexical?_subset hlexical)

theorem constant_placed (hm : m.WellFormed) (hexports : m.Exportable) {d : Declaration}
    (hd : m.IsConst d) (hconst : copy.binding.kind = .const)
    (hne : d.node.start < d.node.stop) :
    (last.draft.KeptBefore d.node copy.edit ↔ d.site < copy.site) ∧
      (copy.site < d.site → last.draft.KeptAfter copy.edit d.node) := by
  have hsafe : options.unsafeConst = false := by
    rw [← Bool.not_eq_true]
    exact fun hpermits => copy.kept ⟨hpermits, hconst⟩
  have huntouched := untouched hvisit hadd hm hexports hsafe hd
  have hmem := edit_mem hvisit hadd
  obtain ⟨statement, hsite, hlexical⟩ := hd.stands
  have hstatement := List.mem_of_getElem? hsite
  obtain ⟨hstart, -, hstop⟩ :=
    (hm.ofStatement hstatement).within (Node.lexical?_subset hlexical)
  have hcopy := (hm.ofStatement copy.mem).start_le_stop
  -- The copy is put where the export statement begins.
  have hbegin : copy.edit.start = copy.statement.start := rfl
  have hend : copy.edit.stop = copy.statement.start := rfl
  have hother : d.site ≠ copy.site := by
    intro heq
    obtain rfl := Option.some.inj ((heq ▸ hsite).symm.trans copy.stands)
    simp [Node.lexical?, copy.own.kind, copy.bare] at hlexical
  have hafter : copy.site < d.site → copy.edit.stop ≤ d.node.start := by
    intro hlt
    have := hm.stop_le_start copy.stands hsite hlt
    omega
  refine ⟨⟨fun hbefore => ?_, fun hlt => ?_⟩, fun hlt => ?_⟩
  · by_contra hnot
    have := hafter (by omega)
    have := hbefore.stop_le
    omega
  · have := hm.stop_le_start hsite copy.stands hlt
    exact Draft.kept_before_made hne hmem (by omega) huntouched (by omega)
  · refine Draft.made_before_kept hne hmem (by omega) huntouched ?_ (hafter hlt)
    have := (hm.ofStatement hstatement).fits.stop.le_length
    rw [source_eq hvisit hadd]
    omega

theorem import_placed (hm : m.WellFormed) {site : Nat} {statement : Node}
    (hsite : m.root.namedChildren[site]? = some statement)
    (hkind : statement.kind = .importStatement)
    (hname : statement.Introduces (Text.encode m.source) copy.localName)
    (hoverride : isOverrideName copy.localName = false) :
    ∃ edit, m.Redeclares copy.begun site copy.localName edit ∧ edit ∈ last.draft.edits ∧
      ([Piece.made edit, Piece.made copy.edit].Sublist last.draft.pieces ↔ site < copy.site) ∧
      (copy.site < site →
        [Piece.made copy.edit, Piece.made edit].Sublist last.draft.pieces) := by
  have hsource := copy.isBegun.source
  obtain ⟨before, hbefore⟩ := Workbench.visitAll_front ⟨_, List.take_append_drop site _⟩ hvisit
  obtain ⟨next, hnext⟩ := Workbench.visitAll_front ⟨_, List.take_append_drop (site + 1) _⟩ hvisit
  obtain ⟨edit, hredeclares⟩ := exists_redeclares hsource hsite hkind hnext hname hoverride
  obtain ⟨hin, hbegin, hend, hlower, hupper⟩ :=
    hredeclares.inserted hsource hsite hkind hnext hbefore
  have hedit := Workbench.edits_subset hsource hvisit hadd hnext hin
  have hcopy := edit_mem hvisit hadd
  have hother : site ≠ copy.site := by
    rintro rfl
    obtain rfl := Option.some.inj (hsite.symm.trans copy.stands)
    rw [copy.own.kind] at hkind
    cases hkind
  have hcopyEnd : copy.edit.stop = copy.edit.start := rfl
  have hcopyBegin : copy.edit.start = copy.statement.start := rfl
  have hearlier : site < copy.site → ¬ copy.edit.precedes edit = true := by
    intro hlt
    have := copy.edits_length_lt_order hnext hlt
    have := hm.stop_le_start hsite copy.stands hlt
    exact Edit.not_precedes_of_later hend hcopyEnd (by omega) (by omega)
  have hlater : copy.site < site → ¬ edit.precedes copy.edit = true := by
    intro hlt
    have := copy.order_le_edits_length hbefore hlt
    have := hm.stop_le_start copy.stands hsite hlt
    have := (hm.ofStatement copy.mem).start_le_stop
    have := (hm.ofStatement (List.mem_of_getElem? hsite)).start_le_stop
    exact Edit.not_precedes_of_later hcopyEnd hend (by omega) (by omega)
  refine ⟨edit, hredeclares, hedit, ⟨fun hsub => ?_, fun hlt => ?_⟩, fun hlt => ?_⟩
  · by_contra hnot
    exact hlater (by omega) (Draft.precedes_of_made_before_made hsub)
  · exact Draft.made_before_made hedit hcopy (hearlier hlt)
  · exact Draft.made_before_made hcopy hedit (hlater hlt)

end

/-- **The order of two statements tells where a copy stands.** A well-formed module is opened. In
its code the declaration of a constant stands before a copy of it exactly if its statement comes
before the export statement, and what redeclares an import stands before a copy of it exactly if
the import statement comes before the export statement. -/
theorem placed_by_order (copy : m.Copied options) (hm : m.WellFormed) (hexports : m.Exportable) :
    ∃ overrides last code, (m.work options).result = .ok (overrides, last) ∧
      (m.transform options).outcome = .opened ⟨code, overrides⟩ ∧
      Text.encode code = last.draft.pieces.flatMap (Piece.bytes (Text.encode m.source)) ∧
      copy.Placed last := by
  obtain ⟨⟨overrides, last⟩, hwork, _, htidy⟩ := work_gives hm hexports options
  obtain ⟨code, hrender, hfinal⟩ := htidy.finalCode_ok
  have hopened : (m.transform options).outcome = .opened ⟨code, overrides⟩ :=
    transform_eq_opened.mpr ⟨last, hwork, hfinal⟩
  obtain ⟨begun, hstart, hrest⟩ := Traced.bind_ok.mp hwork
  obtain rfl : copy.begun = begun := Except.ok.inj (copy.starts.symm.trans hstart)
  obtain ⟨visited, hvisit, hadd⟩ := Traced.bind_ok.mp hrest
  obtain ⟨bytes, hbytes, hcode⟩ := bind_eq_ok.mp hrender
  refine ⟨overrides, last, code, hwork, hopened, ?_, edit_mem hvisit hadd, fun hconst => ?_, ?_⟩
  · rw [encode_of_readText hcode, Draft.renderBytes_eq hbytes, source_eq hvisit hadd]
  · obtain ⟨d, hdeclaration, hd, hname⟩ := exists_declaration hconst
    exact ⟨d, hdeclaration, hd, hname, constant_placed hvisit hadd hm hexports hd hconst⟩
  · exact fun site statement hsite hkind hname hoverride =>
      import_placed hvisit hadd hm hsite hkind hname hoverride

end Module.Copied

end

/-! ### A copy that comes too early -/

namespace Module

/-- A module that exports a constant before it declares it. -/
def inverted : Module where
  source := "export { b };\nconst b = 1;\n"
  root := { kind := .program, start := 0, stop := 27, children := [
    { kind := .exportStatement, start := 0, stop := 13, children := [
      { kind := .other "export", start := 0, stop := 6, named := false },
      { kind := .exportClause, start := 7, stop := 12, children := [
        { kind := .exportSpecifier, start := 9, stop := 10, children := [
          { kind := .identifier, start := 9, stop := 10, role := some .name }] }] }] },
    { kind := .lexicalDeclaration, start := 14, stop := 26, children := [
      { kind := .keywordConst, start := 14, stop := 19, role := some .kind, named := false },
      { kind := .variableDeclarator, start := 20, stop := 25, children := [
        { kind := .identifier, start := 20, stop := 21, role := some .name },
        { kind := .other "number", start := 24, stop := 25, role := some .value }] }] }] }

theorem inverted_wellFormed : inverted.WellFormed := by
  decide +kernel

theorem inverted_exportable : inverted.Exportable := by
  decide +kernel

theorem inverted_scope {begun : Workbench} (h : Begun inverted begun) :
    ∃ binding d, begun.scope.get? "b" = some binding ∧ binding.kind = .const ∧
      binding.declaration = some d ∧ d.site = 1 ∧ d.node.start = 14 ∧ d.node.stop = 26 := by
  have hscope : (Scope.ofTree (Text.encode inverted.source) inverted.root).map (fun scope =>
      (scope.get? "b").bind fun binding => binding.declaration.map fun d =>
        (binding.kind, d.site, d.node.start, d.node.stop)) =
        .ok (some (.const, 1, 14, 26)) := by
    decide +kernel
  rw [h.scope] at hscope
  obtain ⟨binding, hb, hdeclaration⟩ := Option.bind_eq_some_iff.mp (Except.ok.inj hscope)
  obtain ⟨d, hd, heq⟩ := Option.map_eq_some_iff.mp hdeclaration
  simp only [Prod.mk.injEq] at heq
  exact ⟨binding, d, hb, heq.1, hd, heq.2⟩

/-- Its specifier is turned to a copy. -/
theorem exists_copied_inverted : ∃ copy : inverted.Copied {}, copy.site = 0 ∧
    copy.binding.kind = .const ∧ ∃ d, copy.binding.declaration = some d ∧ d.site = 1 ∧
      d.node.start = 14 ∧ d.node.stop = 26 := by
  obtain ⟨begun, hstart, -⟩ := Tidy.start_gives inverted_wellFormed {}
  obtain ⟨binding, d, hb, hconst, hd⟩ :=
    inverted_scope (Workbench.start_ensures inverted {} begun hstart)
  let copy : inverted.Copied {} := {
    site := 0
    statement := _
    earlier := []
    specifier := _
    later := []
    localName := "b"
    name := "b"
    binding
    begun
    arrived := begun
    bench := begun
    stands := rfl
    own := by decide
    notDefault := by decide
    bare := rfl
    specifiers := rfl
    exports := ⟨_, _, rfl, by decide, by decide, by decide +kernel, by decide +kernel⟩
    starts := hstart
    visits := rfl
    opens := rfl
    bound := hb
    immutable := Binding.isImmutable_iff.mpr (.inl hconst)
    kept := by simp }
  exact ⟨copy, rfl, hconst, d, hd⟩

/-- **A copy may come too early.** The module declares a constant after it exports it, and in the
code of the opened module the copy that is exported stands before the declaration. -/
theorem inverted_copies_early : inverted.WellFormed ∧ inverted.Exportable ∧
    ∃ (copy : inverted.Copied {}) (overrides : Overrides) (last : Workbench) (d : Declaration),
      (inverted.work {}).result = .ok (overrides, last) ∧ copy.binding.kind = .const ∧
      copy.binding.declaration = some d ∧ last.draft.KeptAfter copy.edit d.node ∧
      ¬ last.draft.KeptBefore d.node copy.edit := by
  obtain ⟨copy, hsite, hconst, d, hdeclaration, hd, hstart, hstop⟩ := exists_copied_inverted
  obtain ⟨other, hother, hisConst, -⟩ := Copied.exists_declaration hconst
  obtain rfl : d = other := Option.some.inj (hdeclaration.symm.trans hother)
  obtain ⟨⟨overrides, last⟩, hwork, -⟩ := work_gives inverted_wellFormed inverted_exportable {}
  obtain ⟨begun, hbegun, hrest⟩ := Traced.bind_ok.mp hwork
  obtain rfl : copy.begun = begun := Except.ok.inj (copy.starts.symm.trans hbegun)
  obtain ⟨visited, hvisit, hadd⟩ := Traced.bind_ok.mp hrest
  obtain ⟨hbefore, hafter⟩ := Copied.constant_placed hvisit hadd inverted_wellFormed
    inverted_exportable hisConst hconst (by omega)
  exact ⟨inverted_wellFormed, inverted_exportable, copy, overrides, last, d, hwork, hconst,
    hdeclaration, hafter (by omega), fun h => absurd (hbefore.mp h) (by omega)⟩

/-- The module is opened, and its copy is where the order of the statements says. -/
theorem placed_by_order_inverted : inverted.WellFormed ∧ inverted.Exportable ∧
    ∃ (copy : inverted.Copied {}) (overrides : Overrides) (last : Workbench) (code : String),
      (inverted.work {}).result = .ok (overrides, last) ∧
      (inverted.transform {}).outcome = .opened ⟨code, overrides⟩ ∧
      Text.encode code =
        last.draft.pieces.flatMap (Piece.bytes (Text.encode inverted.source)) ∧
      copy.Placed last := by
  obtain ⟨copy, -⟩ := exists_copied_inverted
  exact ⟨inverted_wellFormed, inverted_exportable, copy,
    copy.placed_by_order inverted_wellFormed inverted_exportable⟩

end Module

end Seams
