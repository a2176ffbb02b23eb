import Seams.Proofs.ExportAccounts
import Seams.Proofs.WithoutConstants

/-!
# What the permission to weaken constants changes

A module can be opened with and without the permission to weaken constants, and the two runs soon
drift apart: where one weakens a constant, the other copies it, and from then on different names are
bound and different names are generated. Still they agree on what matters to a later specifier,
which is whether the identifiers of the module are bound. A statement binds those of them whose
names a function or class gives to its variable, with and without the permission.

So without the permission no more exports are entered than with it, and they come in the same order.

## Main definitions

* `Node.TakesOver` — an export statement turns a function or class of a given name to a variable
* `Module.only` — a module with one of its statements
* `Trails` — a run without the permission trails one with it
* `Module.SpecifiesPlainly`, `Module.registered` — the assumption on specifiers, and the names of
  the exports that are entered

## Main results

* `Workbench.visit_binds_iff` — which identifiers are bound after a statement
* `Node.accounts_sublist` — a statement enters no more exports without the permission
* `Trails.visit`, `Trails.visitAll` — along a statement and along a run
* `Module.transform_permission` — what the permission changes, and what it does not
-/

namespace Seams

/-! ### Names that are taken over -/

namespace Node

/-- The function or class of an export statement that is turned to a variable. -/
def takenOver? (statement : Node) : Option Node :=
  if statement.isDefaultExport then statement.exportTarget?.filter isDefinition
  else (statement.child? .declaration).filter fun declaration =>
    declaration.kind.isFunctionDeclaration || declaration.kind.isClass

/-- An export statement turns a function or class of a given name to a variable. -/
def TakesOver (source : List UInt8) (statement : Node) (name : String) : Prop :=
  statement.IsOwnExport ∧ ∃ target ∈ statement.takenOver?, ∃ nameNode ∈ target.child? .name,
    nameNode.text source = .ok name

end Node

namespace Workbench

variable {source : List UInt8} {bench : Workbench} {name : String}

/-- The name of a function or class is bound once a variable has taken it over. -/
theorem claimExport_binds (hsource : bench.draft.source = source) {target nameNode : Node}
    (hchild : target.child? .name = some nameNode) (htext : nameNode.text source = .ok name)
    (exported : String) : (bench.claimExport target exported).Ensures fun claimed =>
      claimed.2.scope.binds name = true := by
  refine .lift_bind ?_
  rintro ⟨localName, claimed⟩ hclaim
  refine .bind (addExport_ensures _ exported localName) ?_
  rintro _ rfl
  rw [claimName, hchild] at hclaim
  obtain ⟨own, hown, hclaim⟩ := bind_eq_ok.mp hclaim
  rw [text, hsource, htext] at hown
  cases hown
  cases hclaim
  have hbound : ((bench.scope.remove name).register name .var).binds name = true :=
    Scope.binds_iff.mpr ⟨_, (Scope.get?_register ..).trans (if_pos rfl)⟩
  exact .pure hbound

theorem hoistFunction_binds (hsource : bench.draft.source = source) {target nameNode : Node}
    (hchild : target.child? .name = some nameNode) (htext : nameNode.text source = .ok name)
    (statement : Node) (exported : String) :
    (bench.hoistFunction statement target exported).Ensures (·.scope.binds name = true) := by
  refine .bind (claimExport_binds hsource hchild htext exported) ?_
  rintro ⟨localName, claimed⟩ hclaimed
  refine .lift_bind fun code _ => .lift_bind fun hoisted hhoisted => .lift fun next hnext => ?_
  obtain ⟨_, -, rfl⟩ := edit_eq hhoisted
  obtain ⟨_, -, rfl⟩ := edit_eq hnext
  exact hclaimed

theorem inlineClass_binds (hsource : bench.draft.source = source) {target nameNode : Node}
    (hchild : target.child? .name = some nameNode) (htext : nameNode.text source = .ok name)
    (statement : Node) (exported : String) :
    (bench.inlineClass statement target exported).Ensures (·.scope.binds name = true) := by
  refine .bind (claimExport_binds hsource hchild htext exported) ?_
  rintro ⟨localName, claimed⟩ hclaimed
  refine .lift_bind fun decorators _ => .lift_bind fun code _ => .lift fun next hnext => ?_
  obtain ⟨_, -, rfl⟩ := edit_eq hnext
  exact hclaimed

theorem openDefaultExport_binds (hsource : bench.draft.source = source)
    {statement target nameNode : Node} (htarget : statement.exportTarget? = some target)
    (hdefault : statement.isDefaultExport = true) (hdefinition : target.isDefinition = true)
    (hchild : target.child? .name = some nameNode) (htext : nameNode.text source = .ok name) :
    (bench.openDefaultExport statement).Ensures (·.scope.binds name = true) := by
  rw [Node.exportTarget?, if_pos hdefault] at htarget
  have hkind : target.kind ≠ .identifier := by
    intro hkind
    rw [Node.isDefinition, hkind] at hdefinition
    cases hdefinition
  rw [openDefaultExport, htarget]
  show (if target.kind = .identifier then _ else _ : Traced Workbench).Ensures _
  rw [if_neg hkind]
  split
  · exact hoistFunction_binds hsource hchild htext statement defaultName
  · rename_i hfunction
    have hclass : target.kind.isClass = true := by
      simpa [Node.isDefinition, Bool.or_eq_false_iff.mp (Bool.eq_false_iff.mpr hfunction)]
        using hdefinition
    rw [if_pos hclass]
    exact inlineClass_binds hsource hchild htext statement defaultName

theorem openDeclaration_binds (hsource : bench.draft.source = source)
    {declaration nameNode : Node}
    (hkind : (declaration.kind.isFunctionDeclaration || declaration.kind.isClass) = true)
    (hchild : declaration.child? .name = some nameNode) (htext : nameNode.text source = .ok name)
    (statement : Node) :
    (bench.openDeclaration statement declaration).Ensures (·.scope.binds name = true) := by
  have hvariables : declaration.kind.isVariableDeclaration = false := by
    cases hcase : declaration.kind <;> simp_all [Kind.isFunctionDeclaration, Kind.isClass,
      Kind.isVariableDeclaration]
  rw [openDeclaration, hvariables, if_neg Bool.false_ne_true]
  split
  · exact .lift_bind fun own _ => hoistFunction_binds hsource hchild htext statement own
  · rename_i hfunction
    have hclass : declaration.kind.isClass = true := by simpa [hfunction] using hkind
    rw [if_pos hclass]
    exact .lift_bind fun own _ => inlineClass_binds hsource hchild htext statement own

/-- **What a statement takes over is bound** when it has been worked on. -/
theorem visit_binds (hsource : bench.draft.source = source) {statement : Node}
    (h : statement.TakesOver source name) :
    (bench.visit statement).Ensures (·.scope.binds name = true) := by
  obtain ⟨hown, target, htarget, nameNode, hchild, htext⟩ := h
  rw [visit, hown.kind]
  show (bench.openExport statement).Ensures _
  rw [openExport, hown.source]
  show (if statement.isDefaultExport = true then _ else _ : Traced Workbench).Ensures _
  rw [Node.takenOver?] at htarget
  split
  · rename_i hdefault
    rw [if_pos hdefault, Option.mem_def, Option.filter_eq_some_iff] at htarget
    exact openDefaultExport_binds hsource htarget.1 hdefault htarget.2 hchild htext
  · rename_i hdefault
    rw [if_neg hdefault, Option.mem_def, Option.filter_eq_some_iff] at htarget
    rw [htarget.1]
    exact openDeclaration_binds hsource htarget.2 hchild htext statement

/-- A function expression is no declaration that could be exported, and nothing is done to it. -/
theorem visit_functionExpression {statement declaration : Node} (hown : statement.IsOwnExport)
    (hdefault : statement.isDefaultExport = false)
    (hchild : statement.child? .declaration = some declaration)
    (hkind : declaration.kind.isFunctionExpression = true) :
    bench.visit statement = pure bench := by
  have hvisit : bench.visit statement = bench.openExport statement := by
    rw [visit, hown.kind]
  have hopen : bench.openDeclaration statement declaration = pure bench := by
    rw [openDeclaration]
    cases hcase : declaration.kind <;> simp_all [Kind.isFunctionExpression,
      Kind.isVariableDeclaration, Kind.isFunctionDeclaration, Kind.isClass]
  rw [hvisit, openExport, hown.source, hdefault, hchild]
  exact hopen

end Workbench

/-! ### One statement -/

namespace Module

/-- A module with one of its statements. -/
def only (m : Module) (statement : Node) : Module :=
  { m with root := { m.root with children := [statement] } }

variable {m : Module} {statement : Node}

theorem mem_only (h : statement ∈ m.root.namedChildren) :
    statement ∈ (m.only statement).root.namedChildren :=
  List.mem_filter.mpr ⟨List.mem_singleton_self _, (List.mem_filter.mp h).2⟩

/-- What the module with one statement claims, that statement claims. -/
theorem claims_of_only {name : String} (h : (m.only statement).Claims name) :
    statement.IsOwnExport ∧ statement.Claims (Text.encode m.source) name := by
  obtain ⟨other, hother, hclaims⟩ := h
  obtain rfl := List.mem_singleton.mp (Node.mem_children_of_mem_namedChildren hother)
  exact hclaims

end Module

namespace Workbench

variable {m : Module} {bench : Workbench} {statement : Node}

/-- **Which identifiers are bound** after a statement: those that were bound before, and those whose
functions and classes it takes over. -/
theorem visit_binds_iff (hstatement : statement ∈ m.root.namedChildren)
    (hsource : bench.draft.source = Text.encode m.source) :
    (bench.visit statement).Ensures fun next => ∀ name,
      name ∈ bench.scope.references ∨ name = defaultName →
        (next.scope.binds name = true ↔ bench.scope.binds name = true ∨
          statement.TakesOver (Text.encode m.source) name) := by
  intro next hnext name hname
  have hworks : Works (m.only statement) bench next :=
    visit_works (m := m.only statement) hsource (Module.mem_only hstatement) next hnext
  constructor
  · intro hbound
    by_cases hclaims : (m.only statement).Claims name
    · obtain ⟨hown, target, nameNode, htarget, hdefinition, hchild, htext⟩ :=
        Module.claims_of_only hclaims
      have htakes : target ∈ statement.takenOver? →
          statement.TakesOver (Text.encode m.source) name :=
        fun htaken => ⟨hown, target, htaken, nameNode, hchild, htext⟩
      cases hdefault : statement.isDefaultExport with
      | true =>
        exact .inr (htakes (by simp [Node.takenOver?, hdefault, htarget, hdefinition]))
      | false =>
        rw [Node.exportTarget?, hdefault, if_neg Bool.false_ne_true] at htarget
        by_cases hkind : (target.kind.isFunctionDeclaration || target.kind.isClass) = true
        · exact .inr (htakes (by simp [Node.takenOver?, hdefault, htarget, hkind]))
        · have hexpression : target.kind.isFunctionExpression = true := by
            simp only [Bool.or_eq_true, not_or, Bool.not_eq_true] at hkind
            simpa [Node.isDefinition, hkind.1, hkind.2] using hdefinition
          rw [visit_functionExpression hown hdefault htarget hexpression] at hnext
          obtain rfl := Except.ok.inj hnext
          exact .inl hbound
    · exact .inl (hworks.binds_eq hname hclaims ▸ hbound)
  · rintro (hbound | htakes)
    · exact hworks.binds hbound
    · exact visit_binds hsource htakes next hnext

end Workbench

/-! ### What a statement enters -/

theorem mapM_congr {α β : Type} {f g : α → Except Failure β} {items : List α}
    (h : ∀ item ∈ items, f item = g item) : items.mapM f = items.mapM g := by
  induction items with
  | nil => rfl
  | cons item rest ih =>
    rw [List.mapM_cons, List.mapM_cons, h item (List.mem_cons_self ..),
      ih fun other hother => h other (List.mem_cons_of_mem _ hother)]

namespace Node

variable {source : List UInt8} {kept weakened : Scope} {few many : List String}

theorem declaredExports_sublist {declaration : Node}
    (hfew : declaration.declaredExports source false = .ok few)
    (hmany : declaration.declaredExports source true = .ok many) : few.Sublist many := by
  unfold declaredExports at hfew hmany
  split at hfew
  · rename_i hvariables
    rw [if_pos hvariables, if_neg (by simp)] at hmany
    split at hfew
    · rw [← Except.ok.inj hfew]
      exact List.nil_sublist _
    · rw [Except.ok.inj (hfew.symm.trans hmany)]
  · rename_i hvariables
    rw [if_neg hvariables] at hmany
    rw [Except.ok.inj (hfew.symm.trans hmany)]

/-- A specifier is entered alike if its variable is bound alike. -/
theorem specifierAccounts_congr {specifier : Node}
    (h : ∀ localName name, specifier.Specifies source localName name →
      kept.binds localName = weakened.binds localName) :
    specifier.specifierAccounts source kept = specifier.specifierAccounts source weakened := by
  unfold specifierAccounts
  cases hparts : Workbench.specifierParts specifier with
  | error failure => rfl
  | ok parts =>
    obtain ⟨localNode, nameNode⟩ := parts
    show (if localNode.kind = .string ∨ nameNode.kind = .string then _ else _ :
      Except Failure (List String)) = if localNode.kind = .string ∨ nameNode.kind = .string
        then _ else _
    split
    · rfl
    · rename_i hstring
      obtain ⟨hlocalKind, hnameKind⟩ := not_or.mp hstring
      cases hlocal : localNode.text source with
      | error failure => rfl
      | ok localName =>
        cases hname : nameNode.text source with
        | error failure => rfl
        | ok name =>
          have hbinds := h localName name
            ⟨localNode, nameNode, hparts, hlocalKind, hnameKind, hlocal, hname⟩
          show Except.ok (if kept.binds localName then _ else _) = _
          rw [hbinds]
          rfl

/-- **A statement enters no more exports** where constants are kept, if the variables of its
specifiers are bound alike. -/
theorem accounts_sublist {statement : Node}
    (h : statement.IsOwnExport → ∀ specifier ∈ statement.exportSpecifiers, ∀ localName name,
      specifier.Specifies source localName name →
        kept.binds localName = weakened.binds localName)
    (hfew : statement.accounts source false kept = .ok few)
    (hmany : statement.accounts source true weakened = .ok many) : few.Sublist many := by
  unfold accounts at hfew hmany
  split at hfew
  · rename_i hother
    rw [if_pos hother] at hmany
    rw [Except.ok.inj (hfew.symm.trans hmany)]
  · rename_i hown
    have hown' : statement.IsOwnExport := by
      simp only [not_or, ne_eq, not_not, Bool.not_eq_true, Option.isSome_eq_false_iff,
        Option.isNone_iff_eq_none] at hown
      exact ⟨hown.1, hown.2⟩
    rw [if_neg hown] at hmany
    split at hfew
    · rename_i hdefault
      rw [if_pos hdefault] at hmany
      rw [Except.ok.inj (hfew.symm.trans hmany)]
    · rename_i hdefault
      rw [if_neg hdefault] at hmany
      cases hchild : statement.child? .declaration with
      | some declaration =>
        rw [hchild] at hfew hmany
        exact declaredExports_sublist hfew hmany
      | none =>
        rw [hchild] at hfew hmany
        have heach : statement.exportSpecifiers.mapM (specifierAccounts source kept) =
            statement.exportSpecifiers.mapM (specifierAccounts source weakened) :=
          mapM_congr fun specifier hspecifier =>
            specifierAccounts_congr (h hown' specifier hspecifier)
        rw [heach] at hfew
        rw [Except.ok.inj (hfew.symm.trans hmany)]

end Node

/-! ### Two runs -/

/-- A run that keeps constants trails one that weakens them: both know the identifiers of the
module, these are bound in both or in neither, and the exports that the first one has entered are
among those of the second one, in the same order. -/
structure Trails (m : Module) (known : List String) (kept weakened : Workbench) : Prop where
  keeps : kept.options.unsafeConst = false
  weakens : weakened.options.unsafeConst = true
  sourceKept : kept.draft.source = Text.encode m.source
  sourceWeakened : weakened.draft.source = Text.encode m.source
  references : ∀ name ∈ known,
    name ∈ kept.scope.references ∧ name ∈ weakened.scope.references
  binds : ∀ name, name ∈ known ∨ name = defaultName →
    kept.scope.binds name = weakened.scope.binds name
  exports : (kept.inventory.exports.map Export.name).Sublist
    (weakened.inventory.exports.map Export.name)

/-- The names of the exports that a statement enters, by what is bound when it has its turn. -/
theorem Workbench.visit_names {m : Module} {statement : Node} {bench : Workbench}
    (hstatement : statement ∈ m.root.namedChildren)
    (hsource : bench.draft.source = Text.encode m.source)
    (hknown : statement.SpecifiesAmong (Text.encode m.source) bench.scope.references) :
    (bench.visit statement).Ensures fun next => ∃ names,
      statement.accounts (Text.encode m.source) bench.options.unsafeConst bench.scope = .ok names ∧
        Performs (m.only statement) bench names next := by
  refine visit_accounts (m := m.only statement) (Module.mem_only hstatement) hknown
    (fun htarget name hclaims => ?_) bench hsource ⟨fun _ => id, fun _ _ => rfl⟩
  -- A statement with specifiers claims nothing.
  obtain ⟨-, target, nameNode, hother, -⟩ := Module.claims_of_only hclaims
  rw [htarget] at hother
  cases hother

namespace Trails

variable {m : Module} {known : List String} {kept weakened nextKept nextWeakened : Workbench}

/-- **Along a statement** the run stays behind. -/
theorem visit (h : Trails m known kept weakened) {statement : Node}
    (hstatement : statement ∈ m.root.namedChildren)
    (hknown : statement.SpecifiesAmong (Text.encode m.source) known)
    (hkept : (kept.visit statement).result = .ok nextKept)
    (hweakened : (weakened.visit statement).result = .ok nextWeakened) :
    Trails m known nextKept nextWeakened := by
  have hknownKept : statement.SpecifiesAmong (Text.encode m.source) kept.scope.references :=
    fun hown specifier hspecifier localName name hspecifies =>
      (hknown hown specifier hspecifier localName name hspecifies).imp_left
        fun hlocal => (h.references localName hlocal).1
  have hknownWeakened :
      statement.SpecifiesAmong (Text.encode m.source) weakened.scope.references :=
    fun hown specifier hspecifier localName name hspecifies =>
      (hknown hown specifier hspecifier localName name hspecifies).imp_left
        fun hlocal => (h.references localName hlocal).2
  obtain ⟨few, hfew, hperformsKept⟩ :=
    Workbench.visit_names hstatement h.sourceKept hknownKept nextKept hkept
  obtain ⟨many, hmany, hperformsWeakened⟩ :=
    Workbench.visit_names hstatement h.sourceWeakened hknownWeakened nextWeakened hweakened
  have hbindsKept := Workbench.visit_binds_iff hstatement h.sourceKept nextKept hkept
  have hbindsWeakened :=
    Workbench.visit_binds_iff hstatement h.sourceWeakened nextWeakened hweakened
  rw [h.keeps] at hfew
  rw [h.weakens] at hmany
  refine ⟨hperformsKept.works.options ▸ h.keeps, hperformsWeakened.works.options ▸ h.weakens,
    hperformsKept.works.source.trans h.sourceKept,
    hperformsWeakened.works.source.trans h.sourceWeakened, fun name hname => ?_,
    fun name hname => ?_, ?_⟩
  · obtain ⟨hnameKept, hnameWeakened⟩ := h.references name hname
    exact ⟨hperformsKept.works.references hnameKept,
      hperformsWeakened.works.references hnameWeakened⟩
  · rw [Bool.eq_iff_iff, hbindsKept name (hname.imp_left fun hname => (h.references name hname).1),
      hbindsWeakened name (hname.imp_left fun hname => (h.references name hname).2),
      h.binds name hname]
  · rw [hperformsKept.map_exports, hperformsWeakened.map_exports]
    refine h.exports.append (Node.accounts_sublist ?_ hfew hmany)
    exact fun hown specifier hspecifier localName name hspecifies =>
      h.binds localName (hknown hown specifier hspecifier localName name hspecifies)

/-- **Along a run** it does, too. -/
theorem visitAll (h : Trails m known kept weakened) {statements : List Node}
    (hstatements : ∀ s ∈ statements, s ∈ m.root.namedChildren ∧
      s.SpecifiesAmong (Text.encode m.source) known)
    (hkept : (kept.visitAll statements).result = .ok nextKept)
    (hweakened : (weakened.visitAll statements).result = .ok nextWeakened) :
    Trails m known nextKept nextWeakened := by
  induction statements generalizing kept weakened with
  | nil =>
    obtain rfl := Except.ok.inj hkept
    obtain rfl := Except.ok.inj hweakened
    exact h
  | cons statement rest ih =>
    obtain ⟨middleKept, hfirstKept, hkept⟩ := Traced.bind_ok.mp hkept
    obtain ⟨middleWeakened, hfirstWeakened, hweakened⟩ := Traced.bind_ok.mp hweakened
    obtain ⟨hstatement, hknown⟩ := hstatements statement (List.mem_cons_self ..)
    exact ih (h.visit hstatement hknown hfirstKept hfirstWeakened)
      (fun s hs => hstatements s (List.mem_cons_of_mem _ hs)) hkept hweakened

end Trails

/-! ### Opened modules -/

namespace Module

/-- A module whose specifiers export variables, strings and the default. -/
def SpecifiesPlainly (m : Module) : Prop :=
  ∀ statement ∈ m.root.namedChildren, statement.IsOwnExport →
    statement.SpecifiesPlainly (Text.encode m.source)

instance (m : Module) : Decidable m.SpecifiesPlainly :=
  inferInstanceAs (Decidable (∀ statement ∈ m.root.namedChildren, statement.IsOwnExport →
    statement.SpecifiesPlainly (Text.encode m.source)))

/-- The names of the exports that are entered when the statements of a module are worked on. -/
def registered (m : Module) (options : Options) : Except Failure (List String) := do
  let begun ← (Workbench.start options (Text.encode m.source) m.root).result
  let visited ← (begun.visitAll m.root.namedChildren).result
  return visited.inventory.exports.map Export.name

theorem registered_eq_ok {m : Module} {options : Options} {begun visited : Workbench}
    (hstart : (Workbench.start options (Text.encode m.source) m.root).result = .ok begun)
    (hvisit : (begun.visitAll m.root.namedChildren).result = .ok visited) :
    m.registered options = .ok (visited.inventory.exports.map Export.name) :=
  bind_eq_ok.mpr ⟨begun, hstart, bind_eq_ok.mpr ⟨visited, hvisit, rfl⟩⟩

/-- A well-formed module that enters exports is opened. -/
theorem opened_of_registered {m : Module} (hm : m.WellFormed) (hexports : m.Exportable)
    {options : Options} {names : List String} (h : m.registered options = .ok names)
    (hne : names ≠ []) : ∃ opening, (m.transform options).outcome = .opened opening := by
  obtain ⟨opening, hopened, -⟩ := opened_of_found hm hexports fun begun visited hstart hvisit => by
    have hnames := Except.ok.inj (h.symm.trans (registered_eq_ok hstart hvisit))
    rw [Inventory.isEmpty, Bool.and_eq_false_iff]
    exact .inl (by simpa [hnames] using hne)
  exact ⟨opening, hopened⟩

/-- An opened module has one override function for each name of the exports that were entered. -/
theorem exists_registered {m : Module} {options : Options} {opening : Opening}
    (h : (m.transform options).outcome = .opened opening) :
    ∃ begun visited, (Workbench.start options (Text.encode m.source) m.root).result = .ok begun ∧
      (begun.visitAll m.root.namedChildren).result = .ok visited ∧
      opening.overrides.exports.names =
        (visited.inventory.exports.map Export.name).eraseDups := by
  obtain ⟨begun, visited, last, hstart, hvisit, hadd, -⟩ := exists_course h
  have hsource := (Workbench.start_ensures m options begun hstart).source
  refine ⟨begun, visited, hstart, hvisit, ?_⟩
  rcases Workbench.addOverrides_ok hadd with ⟨hempty, hnone, -⟩ | ⟨plan, planned, _, hplan, heq, -⟩
  · have hexports : visited.inventory.exports = [] := by
      simpa using (Bool.and_eq_true_iff.mp hempty).1
    rw [hexports, hnone]
    rfl
  · obtain ⟨deeds, hsteps⟩ := Workbench.visitAll_walks hsource (fun _ hs => hs) visited hvisit
    rw [← heq]
    exact Run.names_overrides
      ⟨begun, deeds, visited, plan, planned, hstart, hvisit, hsteps, hplan⟩

/-- The runs begin side by side. -/
theorem trails_begun {m : Module} {kept weakened : Workbench}
    (hkept : (Workbench.start { unsafeConst := false } (Text.encode m.source) m.root).result =
      .ok kept)
    (hweakened : (Workbench.start { unsafeConst := true } (Text.encode m.source) m.root).result =
      .ok weakened) : Trails m kept.scope.references kept weakened := by
  have hbegunKept := Workbench.start_ensures m _ kept hkept
  have hbegunWeakened := Workbench.start_ensures m _ weakened hweakened
  have hscope : kept.scope = weakened.scope :=
    Except.ok.inj (hbegunKept.scope.symm.trans hbegunWeakened.scope)
  have hoptionsKept := (Workbench.start_frame _ _ _ kept hkept).1
  have hoptionsWeakened := (Workbench.start_frame _ _ _ weakened hweakened).1
  exact {
    keeps := by rw [hoptionsKept]
    weakens := by rw [hoptionsWeakened]
    sourceKept := hbegunKept.source
    sourceWeakened := hbegunWeakened.source
    references := fun name hname => ⟨hname, hscope ▸ hname⟩
    binds := fun name _ => by rw [hscope]
    exports := by rw [hbegunKept.inventory, hbegunWeakened.inventory] }

/-- **The permission acts only through constants.** A module that declares none is opened, or fails
to be, in the same way with and without it. And if a module whose specifiers export variables,
strings and the default is opened both ways, the exports that are entered without the permission are
among those that are entered with it, in the same order. So no override function of an export is
lost with the permission. -/
theorem transform_permission (m : Module) :
    (m.WithoutConstants →
      m.transform { unsafeConst := true } = m.transform { unsafeConst := false }) ∧
    (m.SpecifiesPlainly → ∀ kept weakened,
      (m.transform { unsafeConst := false }).outcome = .opened kept →
      (m.transform { unsafeConst := true }).outcome = .opened weakened →
      (∃ few many, m.registered { unsafeConst := false } = .ok few ∧
        m.registered { unsafeConst := true } = .ok many ∧ few.Sublist many) ∧
      ∀ name ∈ kept.overrides.exports.names, name ∈ weakened.overrides.exports.names) := by
  refine ⟨fun h => h.transform_eq _ _, fun hplain kept weakened hkept hweakened => ?_⟩
  obtain ⟨begunKept, visitedKept, hstartKept, hvisitKept, hnamesKept⟩ := exists_registered hkept
  obtain ⟨begunWeakened, visitedWeakened, hstartWeakened, hvisitWeakened, hnamesWeakened⟩ :=
    exists_registered hweakened
  have hbegun := Workbench.start_ensures m _ begunKept hstartKept
  have htrails := (trails_begun hstartKept hstartWeakened).visitAll
    (fun statement hstatement => ⟨hstatement, fun hown specifier hspecifier _ _ hspecifies =>
      hbegun.specified_known hstatement (hplain statement hstatement hown) hspecifier hspecifies⟩)
    hvisitKept hvisitWeakened
  refine ⟨⟨_, _, registered_eq_ok hstartKept hvisitKept,
    registered_eq_ok hstartWeakened hvisitWeakened, htrails.exports⟩, ?_⟩
  intro name hname
  rw [hnamesKept, List.mem_eraseDups] at hname
  rw [hnamesWeakened, List.mem_eraseDups]
  exact htrails.exports.mem hname

/-- A module that exports a constant where it is declared, and a variable by a specifier. -/
def gated : Module where
  source := "export const a = 1;\nlet b = 2;\nexport { b };\n"
  root := { kind := .program, start := 0, stop := 45, children := [
    { kind := .exportStatement, start := 0, stop := 19, children := [
      { kind := .other "export", start := 0, stop := 6, named := false },
      { kind := .lexicalDeclaration, start := 7, stop := 19, role := some .declaration,
        children := [
          { kind := .keywordConst, start := 7, stop := 12, role := some .kind, named := false },
          { kind := .variableDeclarator, start := 13, stop := 18, children := [
            { kind := .identifier, start := 13, stop := 14, role := some .name },
            { kind := .other "number", start := 17, stop := 18, role := some .value }] }] }] },
    { kind := .lexicalDeclaration, start := 20, stop := 30, children := [
      { kind := .keywordLet, start := 20, stop := 23, role := some .kind, named := false },
      { kind := .variableDeclarator, start := 24, stop := 29, children := [
        { kind := .identifier, start := 24, stop := 25, role := some .name },
        { kind := .other "number", start := 28, stop := 29, role := some .value }] }] },
    { kind := .exportStatement, start := 31, stop := 44, children := [
      { kind := .other "export", start := 31, stop := 37, named := false },
      { kind := .exportClause, start := 38, stop := 43, children := [
        { kind := .exportSpecifier, start := 40, stop := 41, children := [
          { kind := .identifier, start := 40, stop := 41, role := some .name }] }] }] }] }

/-- A module without constants is opened alike, and one that exports a constant has an override
function more with the permission. -/
theorem transform_permission_gated :
    (renamed.WithoutConstants ∧
      renamed.transform { unsafeConst := true } = renamed.transform { unsafeConst := false }) ∧
    gated.SpecifiesPlainly ∧
      gated.registered { unsafeConst := false } = .ok ["b"] ∧
      gated.registered { unsafeConst := true } = .ok ["a", "b"] ∧ ∃ kept weakened,
        (gated.transform { unsafeConst := false }).outcome = .opened kept ∧
        (gated.transform { unsafeConst := true }).outcome = .opened weakened ∧
        ∀ name ∈ kept.overrides.exports.names, name ∈ weakened.overrides.exports.names := by
  have hrenamed : renamed.WithoutConstants := by decide +kernel
  have hplain : gated.SpecifiesPlainly := by decide +kernel
  have hwell : gated.WellFormed := by decide +kernel
  have hexports : gated.Exportable := by decide +kernel
  have hfew : gated.registered { unsafeConst := false } = .ok ["b"] := by decide +kernel
  have hmany : gated.registered { unsafeConst := true } = .ok ["a", "b"] := by decide +kernel
  obtain ⟨kept, hkept⟩ := opened_of_registered hwell hexports hfew (by decide)
  obtain ⟨weakened, hweakened⟩ := opened_of_registered hwell hexports hmany (by decide)
  obtain ⟨-, hnames⟩ := (transform_permission gated).2 hplain kept weakened hkept hweakened
  exact ⟨⟨hrenamed, (transform_permission renamed).1 hrenamed⟩, hplain, hfew, hmany, kept,
    weakened, hkept, hweakened, hnames⟩

end Module

end Seams
