import Seams.Proofs.ExportedNames

/-!
# The exports of a module are accounted for

Which exports are entered into the inventory can be told from the tree and its scope, statement by
statement. While the statements are worked on, the scope changes: names are generated, constants are
weakened, and functions and classes give their names to variables. But of the identifiers of the
module none is bound or unbound on the way, so what a specifier finds in the changing scope it would
have found in the first one.

## Main definitions

* `Node.SpecifiesPlainly`, `Node.SpecifiesAmong` — what specifiers may export
* `Node.DeclaresNamed` — exported functions and classes with names are declarations
* `Node.Current` — an export statement as the current grammar gives it
* `Node.accounts`, `Module.accounts` — the names under which exports are to be entered
* `Agrees` — the identifiers of the module are bound as in the beginning

## Main results

* `Does.binds_eq`, `Does.agrees` — no act binds or unbinds an identifier
* `Workbench.visitAll_accounts` — the names that are entered are those that are to be
* `Module.Current.exports_accounted` — so it is in every opened module, and each name has a function
-/

namespace Seams

/-! ### Accounts -/

namespace Node

/-- What the specifiers of an export statement export is a variable, a string, or the default. The
last is a token, so its text is its word. -/
def SpecifiesPlainly (source : List UInt8) (statement : Node) : Prop :=
  ∀ specifier ∈ statement.exportSpecifiers,
    ∀ parts ∈ (Workbench.specifierParts specifier).toOption,
      parts.1.kind = .identifier ∨ parts.1.kind = .string ∨
        parts.1.kind = .keywordDefault ∧ parts.1.text source = .ok defaultName

instance (source : List UInt8) (statement : Node) :
    Decidable (statement.SpecifiesPlainly source) :=
  inferInstanceAs (Decidable (∀ specifier ∈ statement.exportSpecifiers,
    ∀ parts ∈ (Workbench.specifierParts specifier).toOption, _))

/-- An exported function or class that has a name is a declaration. -/
def DeclaresNamed (statement : Node) : Prop :=
  ∀ target ∈ statement.exportTarget?, target.isDefinition = true →
    (target.child? .name).isSome = true → (statement.child? .declaration).isSome = true ∧
      (target.kind = .functionDeclaration ∨ target.kind = .generatorDeclaration ∨
        target.kind = .classDeclaration)

instance (statement : Node) : Decidable statement.DeclaresNamed :=
  inferInstanceAs (Decidable (∀ target ∈ statement.exportTarget?, target.isDefinition = true → _))

/-- An export statement as the current grammar gives it. -/
structure Current (source : List UInt8) (statement : Node) : Prop where
  definitions : statement.DeclaresNamed
  specifiers : statement.SpecifiesPlainly source

instance (source : List UInt8) (statement : Node) : Decidable (statement.Current source) :=
  decidable_of_iff (statement.DeclaresNamed ∧ statement.SpecifiesPlainly source)
    ⟨fun h => ⟨h.1, h.2⟩, fun h => ⟨h.definitions, h.specifiers⟩⟩

/-- What the specifiers of an export statement export is among some names, or the default. -/
def SpecifiesAmong (source : List UInt8) (known : List String) (statement : Node) : Prop :=
  statement.IsOwnExport → ∀ specifier ∈ statement.exportSpecifiers, ∀ localName name,
    specifier.Specifies source localName name → localName ∈ known ∨ localName = defaultName

/-- The name under which a specifier is entered, if it is. -/
def specifierAccounts (source : List UInt8) (scope : Scope) (specifier : Node) :
    Except Failure (List String) := do
  let (localNode, nameNode) ← Workbench.specifierParts specifier
  if localNode.kind = .string ∨ nameNode.kind = .string then return []
  let localName ← localNode.text source
  let name ← nameNode.text source
  return if scope.binds localName then [name] else []

/-- The names under which the exports of a statement are entered. -/
def accounts (source : List UInt8) (unsafeConst : Bool) (scope : Scope) (statement : Node) :
    Except Failure (List String) :=
  if statement.kind ≠ .exportStatement ∨ (statement.child? .source).isSome then .ok []
  else if statement.isDefaultExport then
    .ok (if statement.exportTarget?.isSome then [defaultName] else [])
  else
    match statement.child? .declaration with
    | some declaration => declaration.declaredExports source unsafeConst
    | none =>
      (statement.exportSpecifiers.mapM (specifierAccounts source scope)).map List.flatten

end Node

namespace Module

/-- A module all of whose export statements are as the current grammar gives them. -/
def Current (m : Module) : Prop :=
  ∀ statement ∈ m.root.namedChildren, statement.IsOwnExport →
    statement.Current (Text.encode m.source)

instance (m : Module) : Decidable m.Current :=
  inferInstanceAs (Decidable (∀ statement ∈ m.root.namedChildren, statement.IsOwnExport →
    statement.Current (Text.encode m.source)))

/-- The names under which the exports of a module are entered, statement by statement. -/
def accounts (m : Module) (unsafeConst : Bool) (scope : Scope) : Except Failure (List String) :=
  (m.root.namedChildren.mapM (Node.accounts (Text.encode m.source) unsafeConst scope)).map
    List.flatten

end Module

/-! ### What is bound -/

/-- The identifiers of a module, and the name of the default, are bound as in the beginning. -/
structure Agrees (begun bench : Workbench) : Prop where
  references : ∀ name ∈ begun.scope.references, name ∈ bench.scope.references
  binds : ∀ name, name ∈ begun.scope.references ∨ name = defaultName →
    bench.scope.binds name = begun.scope.binds name

namespace Scope

theorem binds_register_of_ne {scope : Scope} {name other : String} {kind : BindingKind}
    (h : other ≠ name) : (scope.register name kind).binds other = scope.binds other := by
  rw [Bool.eq_iff_iff, binds_iff, binds_iff, get?_register, if_neg h]

theorem binds_remove_of_ne {scope : Scope} {name other : String} (h : other ≠ name) :
    (scope.remove name).binds other = scope.binds other := by
  rw [Bool.eq_iff_iff, binds_iff, binds_iff, get?_remove, if_neg h]

theorem binds_loosen (scope : Scope) (site : Nat) (name : String) :
    (scope.loosen site).binds name = scope.binds name := by
  rw [Bool.eq_iff_iff, binds_iff, binds_iff, get?_loosen]
  cases scope.get? name <;> simp

end Scope

section

variable {m : Module} {begun a b : Workbench} {act : Act} {names : List String}

/-- What is known as an identifier stays known. -/
theorem Works.references (h : Works m a b) {name : String} (hname : name ∈ a.scope.references) :
    name ∈ b.scope.references := by
  obtain ⟨deeds, hsteps⟩ := h.reaches
  exact hsteps.keeps (P := fun bench => name ∈ bench.scope.references)
    (fun _ _ _ hstep => hstep.references) hname

/-- What is bound stays bound. -/
theorem Works.binds (h : Works m a b) {name : String} (hname : a.scope.binds name = true) :
    b.scope.binds name = true := by
  obtain ⟨deeds, hsteps⟩ := h.reaches
  exact hsteps.binds hname

/-- A fresh name is neither an identifier that is known nor the name of the default. -/
theorem Workbench.ne_fresh (bench : Workbench) {name : String}
    (hname : name ∈ bench.scope.references ∨ name = defaultName) (base : String) :
    name ≠ (bench.fresh base).1 := by
  rintro rfl
  rcases hname with hname | hdefault
  · exact bench.names.fresh_not_mem_references base hname
  · have hmadeUp : Names.IsMadeUp (bench.fresh base).1 := bench.names.isMadeUp_fresh base
    rw [hdefault] at hmadeUp
    exact absurd hmadeUp (by decide)

/-- No act binds or unbinds an identifier that is known, unless it is claimed. -/
theorem Does.binds_eq (h : Does m a act b) {name : String}
    (hname : name ∈ a.scope.references ∨ name = defaultName) (hclaims : ¬ m.Claims name) :
    b.scope.binds name = a.scope.binds name := by
  cases h with
  | rewrite | keep | declare => rfl
  | weaken => exact Scope.binds_loosen ..
  | intercept => exact Scope.binds_register_of_ne (a.ne_fresh hname _)
  | store => exact Scope.binds_register_of_ne (a.ne_fresh hname _)
  | @claim _ localName hclaim =>
    have hne : name ≠ localName := by
      rintro rfl
      exact hclaims hclaim
    show ((a.scope.remove localName).register localName .var).binds name = a.scope.binds name
    rw [Scope.binds_register_of_ne hne, Scope.binds_remove_of_ne hne]

theorem Works.binds_eq (h : Works m a b) {name : String}
    (hname : name ∈ a.scope.references ∨ name = defaultName) (hclaims : ¬ m.Claims name) :
    b.scope.binds name = a.scope.binds name := by
  obtain ⟨acts, hacts⟩ := h
  have hkept := hacts.keeps (P := fun bench => (name ∈ bench.scope.references ∨
    name = defaultName) ∧ bench.scope.binds name = a.scope.binds name)
    (fun _ _ _ hact hbench => ⟨hbench.1.imp_left hact.works.references,
      (hact.binds_eq hbench.1 hclaims).trans hbench.2⟩) ⟨hname, rfl⟩
  exact hkept.2

/-- **No act binds or unbinds an identifier** of the module, if what is claimed was bound. -/
theorem Does.agrees (h : Does m a act b)
    (hclaims : ∀ name, m.Claims name → begun.scope.binds name = true) (ha : Agrees begun a) :
    Agrees begun b where
  references name hname := h.works.references (ha.references name hname)
  binds name hname := by
    rw [← ha.binds name hname]
    by_cases hclaimed : m.Claims name
    · have hbound : a.scope.binds name = true := (ha.binds name hname).trans (hclaims name hclaimed)
      rw [hbound, h.works.binds hbound]
    · exact h.binds_eq (hname.imp_left (ha.references name)) hclaimed

theorem Works.agrees (h : Works m a b)
    (hclaims : ∀ name, m.Claims name → begun.scope.binds name = true) (ha : Agrees begun a) :
    Agrees begun b := by
  obtain ⟨acts, hacts⟩ := h
  exact hacts.keeps (fun _ _ _ hact => hact.agrees hclaims) ha

end

/-- What a specifier exports is an identifier of the module, or the default, if the tree has no
other nodes in its place. -/
theorem Begun.specified_known {m : Module} {begun : Workbench} (hbegun : Begun m begun)
    {statement specifier : Node} (hstatement : statement ∈ m.root.namedChildren)
    (hplain : statement.SpecifiesPlainly (Text.encode m.source))
    (hspecifier : specifier ∈ statement.exportSpecifiers) {localName name : String}
    (h : specifier.Specifies (Text.encode m.source) localName name) :
    localName ∈ begun.scope.references ∨ localName = defaultName := by
  obtain ⟨localNode, nameNode, hparts, hstring, -, hlocal, -⟩ := h
  have hkind := hplain specifier hspecifier (localNode, nameNode)
    (by simp [hparts, Except.toOption])
  rcases hkind with hkind | hkind | ⟨-, hdefault⟩
  · -- An identifier in the module is known from the start.
    have hmem : localNode ∈ specifier.children := by
      rw [Workbench.specifierParts] at hparts
      split at hparts
      · rename_i first last hfirst _
        obtain ⟨rfl, -⟩ := Prod.mk.inj (Except.ok.inj hparts)
        exact (List.mem_filter.mp (List.mem_of_mem_head? hfirst)).1
      · cases hparts
    have hbelow := Node.subtree_trans (Node.mem_subtree_of_mem_children hmem)
      (Node.exportSpecifiers_subset hspecifier)
    refine .inl (Scope.ofTree_references hbegun.scope
      (Node.subtree_trans hbelow (Node.mem_subtree_of_mem_namedChildren hstatement)) ?_ hlocal)
    rw [hkind]
    rfl
  · exact absurd hkind hstring
  · exact .inr (Except.ok.inj (hlocal.symm.trans hdefault))

namespace Module.Current

variable {m : Module} {begun : Workbench} (hcurrent : m.Current)
include hcurrent

/-- What is claimed was bound in the beginning, since its declaration is at the top level. -/
theorem claims_bound (hbegun : Begun m begun) {name : String} (h : m.Claims name) :
    begun.scope.binds name = true := by
  obtain ⟨statement, hstatement, hown, target, nameNode, htarget, hdefinition, hnameNode,
    hname⟩ := h
  obtain ⟨hsome, hkind⟩ := (hcurrent statement hstatement hown).definitions target htarget
    hdefinition (by simp [hnameNode])
  have hdeclaration := Node.declaration_of_exportTarget? htarget hsome
  refine Scope.ofTree_binds hbegun.scope hstatement ⟨nameNode, ?_, hname⟩
  simp only [Node.introduced, hown.kind, hdeclaration, Option.map_some, Option.getD_some,
    Node.declarationNames]
  rcases hkind with hkind | hkind | hkind <;> simp [hkind, hnameNode]

/-- What a specifier exports is an identifier of the module, or the default. -/
theorem specified_known (hbegun : Begun m begun) {statement specifier : Node}
    (hstatement : statement ∈ m.root.namedChildren) (hown : statement.IsOwnExport)
    (hspecifier : specifier ∈ statement.exportSpecifiers) {localName name : String}
    (h : specifier.Specifies (Text.encode m.source) localName name) :
    localName ∈ begun.scope.references ∨ localName = defaultName :=
  hbegun.specified_known hstatement (hcurrent statement hstatement hown).specifiers hspecifier h

end Module.Current

/-! ### What is entered -/

namespace Node

variable {source : List UInt8} {scope : Scope} {specifier : Node}

theorem IsOwnExport.accounts_eq {statement : Node} {unsafeConst : Bool}
    (h : statement.IsOwnExport) : statement.accounts source unsafeConst scope =
      if statement.isDefaultExport then
        .ok (if statement.exportTarget?.isSome then [defaultName] else [])
      else
        match statement.child? .declaration with
        | some declaration => declaration.declaredExports source unsafeConst
        | none =>
          (statement.exportSpecifiers.mapM (specifierAccounts source scope)).map List.flatten :=
  if_neg (by simp [h.kind, h.source])

theorem Specifies.accounts {localName name : String}
    (h : specifier.Specifies source localName name) : specifier.specifierAccounts source scope =
      .ok (if scope.binds localName then [name] else []) := by
  obtain ⟨localNode, nameNode, hparts, hlocalKind, hnameKind, hlocal, hname⟩ := h
  refine bind_eq_ok.mpr ⟨_, hparts, ?_⟩
  show (if localNode.kind = .string ∨ nameNode.kind = .string then _ else _ :
    Except Failure (List String)) = _
  rw [if_neg (not_or.mpr ⟨hlocalKind, hnameKind⟩)]
  exact bind_eq_ok.mpr ⟨_, hlocal, bind_eq_ok.mpr ⟨_, hname, rfl⟩⟩

theorem Quotes.accounts (h : specifier.Quotes) :
    specifier.specifierAccounts source scope = .ok [] := by
  obtain ⟨localNode, nameNode, hparts, hstring⟩ := h
  refine bind_eq_ok.mpr ⟨_, hparts, ?_⟩
  show (if localNode.kind = .string ∨ nameNode.kind = .string then _ else _ :
    Except Failure (List String)) = _
  rw [if_pos hstring]
  rfl

end Node

/-- Accounts of a list, one after the other. -/
theorem mapM_flatten_cons {α : Type} {f : α → Except Failure (List String)} {item : α}
    {rest : List α} {names more : List String} (hitem : f item = .ok names)
    (hrest : (rest.mapM f).map List.flatten = .ok more) :
    ((item :: rest).mapM f).map List.flatten = .ok (names ++ more) := by
  rw [List.mapM_cons, hitem]
  show ((rest.mapM f).bind fun lists => .ok (names :: lists)).map List.flatten = _
  cases hlists : rest.mapM f with
  | error failure => simp [hlists, Except.map] at hrest
  | ok lists =>
    rw [hlists] at hrest
    rw [← Except.ok.inj hrest]
    rfl

namespace Workbench

variable {m : Module} {begun : Workbench} {statement : Node}

section

variable (hstatement : statement ∈ m.root.namedChildren)
  (hknown : statement.SpecifiesAmong (Text.encode m.source) begun.scope.references)
  (hclaims : statement.exportTarget? = none → ∀ name, m.Claims name →
    begun.scope.binds name = true)
include hstatement hknown hclaims

/-- Specifiers find what they would have found in the beginning. -/
theorem openSpecifiers_accounts (hown : statement.IsOwnExport)
    (hdefault : statement.isDefaultExport = false) (hchild : statement.child? .declaration = none)
    {specifiers : List Node} (hspecifiers : ∀ s ∈ specifiers, s ∈ statement.exportSpecifiers)
    (bench : Workbench) (hsource : bench.draft.source = Text.encode m.source)
    (hagrees : Agrees begun bench) :
    (bench.openSpecifiers statement specifiers).Ensures fun next => ∃ names,
      (specifiers.mapM (Node.specifierAccounts (Text.encode m.source) begun.scope)).map
        List.flatten = .ok names ∧ Performs m bench names next := by
  have htarget : statement.exportTarget? = none := by
    rw [Node.exportTarget?, hdefault]
    exact hchild
  induction specifiers generalizing bench with
  | nil => exact .pure ⟨[], rfl, .refl⟩
  | cons specifier rest ih =>
    have hspecifier := hspecifiers specifier (List.mem_cons_self ..)
    refine .bind (openSpecifier_opens hstatement hown hdefault hchild hspecifier bench hsource)
      fun next hnext => ?_
    have hfirst : ∃ names, specifier.specifierAccounts (Text.encode m.source) begun.scope =
        .ok names ∧ Performs m bench names next := by
      rcases hnext with ⟨localName, name, hspecifies, hopens⟩ | ⟨hquotes, rfl⟩
      · refine ⟨_, hspecifies.accounts, ?_⟩
        rw [← hagrees.binds localName (hknown hown specifier hspecifier localName name hspecifies)]
        exact hopens.performs
      · exact ⟨[], hquotes.accounts, .refl⟩
    obtain ⟨names, haccounts, hfirst⟩ := hfirst
    have hnext := hfirst.works.agrees (hclaims htarget) hagrees
    refine (ih (fun s hs => hspecifiers s (List.mem_cons_of_mem _ hs)) next
      (hfirst.works.source.trans hsource) hnext).mono ?_
    rintro last ⟨more, hmore, hlast⟩
    exact ⟨names ++ more, mapM_flatten_cons haccounts hmore, hfirst.trans hlast⟩

theorem openExport_accounts (hkind : statement.kind = .exportStatement) (bench : Workbench)
    (hsource : bench.draft.source = Text.encode m.source) (hagrees : Agrees begun bench) :
    (bench.openExport statement).Ensures fun next => ∃ names,
      statement.accounts (Text.encode m.source) bench.options.unsafeConst begun.scope = .ok names ∧
        Performs m bench names next := by
  rw [openExport]
  split
  · rename_i hforeign
    exact .note_bind (.pure ⟨[], if_pos (.inr hforeign), .refl⟩)
  · rename_i hown
    have hown : statement.IsOwnExport := ⟨hkind, by simpa using hown⟩
    rw [hown.accounts_eq]
    split
    · rename_i hdefault
      exact (openDefaultExport_opens hstatement hown hdefault bench hsource).mono fun next hnext =>
        ⟨_, rfl, hnext.performs⟩
    · rename_i hdefault
      rw [Bool.not_eq_true] at hdefault
      cases hchild : statement.child? .declaration with
      | some declaration =>
        refine (openDeclaration_opens hstatement hown hdefault hchild bench hsource).mono ?_
        rintro next ⟨names, hnames, hnext⟩
        exact ⟨names, hnames, hnext.performs⟩
      | none =>
        show (bench.openClause statement).Ensures _
        rw [openClause_eq]
        exact openSpecifiers_accounts hstatement hknown hclaims hown hdefault hchild
          (fun _ hs => hs) bench hsource hagrees

theorem visit_accounts (bench : Workbench) (hsource : bench.draft.source = Text.encode m.source)
    (hagrees : Agrees begun bench) : (bench.visit statement).Ensures fun next => ∃ names,
      statement.accounts (Text.encode m.source) bench.options.unsafeConst begun.scope = .ok names ∧
        Performs m bench names next := by
  have hother : statement.kind ≠ .exportStatement →
      statement.accounts (Text.encode m.source) bench.options.unsafeConst begun.scope = .ok [] :=
    fun hkind => if_pos (.inl hkind)
  rw [visit]
  split
  · rename_i hkind
    exact (openImport_performs hsource hstatement hkind).mono fun next hnext =>
      ⟨[], hother (by simp [hkind]), hnext⟩
  · rename_i hkind
    exact openExport_accounts hstatement hknown hclaims hkind bench hsource hagrees
  · rename_i hkind
    exact .pure ⟨[], hother hkind, .refl⟩

end

/-- **The exports of statements are accounted for**, by what was bound in the beginning. -/
theorem visitAll_accounts (hcurrent : m.Current) (hbegun : Begun m begun) {statements : List Node}
    (hstatements : ∀ s ∈ statements, s ∈ m.root.namedChildren) (bench : Workbench)
    (hsource : bench.draft.source = Text.encode m.source) (hagrees : Agrees begun bench) :
    (bench.visitAll statements).Ensures fun next => ∃ names,
      (statements.mapM (Node.accounts (Text.encode m.source) bench.options.unsafeConst
        begun.scope)).map List.flatten = .ok names ∧ Performs m bench names next := by
  induction statements generalizing bench with
  | nil => exact .pure ⟨[], rfl, .refl⟩
  | cons statement rest ih =>
    have hstatement := hstatements statement (List.mem_cons_self ..)
    refine .bind (visit_accounts hstatement (fun hown specifier hspecifier localName name =>
      hcurrent.specified_known hbegun hstatement hown hspecifier)
      (fun _ _ => hcurrent.claims_bound hbegun) bench hsource hagrees) ?_
    rintro next ⟨names, hnames, hfirst⟩
    have hnext := hfirst.works.agrees (fun _ => hcurrent.claims_bound hbegun) hagrees
    refine (ih (fun s hs => hstatements s (List.mem_cons_of_mem _ hs)) next
      (hfirst.works.source.trans hsource) hnext).mono ?_
    rintro last ⟨more, hmore, hlast⟩
    rw [hfirst.works.options] at hmore
    exact ⟨names ++ more, mapM_flatten_cons hnames hmore, hfirst.trans hlast⟩

end Workbench

/-! ### Opened modules -/

/-- The entries that count have the names of all entries, each once, where it occurs first. -/
theorem Inventory.map_name_firstOfEach (seen : List String) (exports : List Export) :
    (firstOfEach seen exports).map Export.name =
      ((exports.map Export.name).filter fun name => !seen.contains name).eraseDups := by
  induction exports generalizing seen with
  | nil => rfl
  | cons entry rest ih =>
    rw [firstOfEach, List.map_cons]
    split
    · rename_i hseen
      rw [ih, List.filter_cons_of_neg (by simpa using hseen)]
    · rename_i hnew
      rw [List.map_cons, ih, List.filter_cons_of_pos (by simpa using hnew), List.eraseDups_cons,
        List.filter_filter]
      congr 2
      refine List.filter_congr fun name _ => ?_
      by_cases heq : name = entry.name <;> simp [heq]

theorem Inventory.map_name_uniqueExports (inventory : Inventory) :
    inventory.uniqueExports.map Export.name =
      (inventory.exports.map Export.name).eraseDups := by
  rw [uniqueExports, map_name_firstOfEach]
  simp

/-- The exports that are planned for have the names of the exports that count. -/
theorem Planned.names_exports {visited planned : Workbench} {plan : OverridePlan}
    (h : Planned visited plan planned) :
    plan.exports.map (fun entry => entry.1.name) =
      visited.inventory.uniqueExports.map Export.name := by
  have hexports := congrArg (List.map Prod.fst) h.exports
  simpa [Function.comp_def] using hexports

/-- The override functions of exports go by the names of the exports that count. -/
theorem Module.Run.names_overrides {m : Module} {options : Options} (run : m.Run options) :
    run.plan.overrides.exports.names =
      (run.visited.inventory.exports.map Export.name).eraseDups := by
  have hkeys : (run.plan.exports.map fun entry => (entry.1.name, entry.2)).map Prod.fst =
      run.plan.exports.map fun entry => entry.1.name := by
    simp [Function.comp_def]
  calc run.plan.overrides.exports.names
      = run.plan.exports.map fun entry => entry.1.name :=
        (Table.names_ofList (hkeys ▸ run.exports_nodup)).trans hkeys
    _ = (run.visited.inventory.exports.map Export.name).eraseDups := by
        rw [run.isPlanned.names_exports, Inventory.map_name_uniqueExports]

namespace Module

/-- **Exports are accounted for.** In every opened module the names of the exports that were
entered, in order, are those that the export statements are to be entered under, one statement after
the other, by what the module bound before it was opened. And the module got one override function
for each of these names, in the order in which they occur first. -/
theorem Current.exports_accounted {m : Module} (hcurrent : m.Current) {options : Options}
    {opening : Opening} (h : (m.transform options).outcome = .opened opening) :
    ∃ begun visited names,
      (Workbench.start options (Text.encode m.source) m.root).result = .ok begun ∧
      (begun.visitAll m.root.namedChildren).result = .ok visited ∧
      Scope.ofTree (Text.encode m.source) m.root = .ok begun.scope ∧
      m.accounts options.unsafeConst begun.scope = .ok names ∧
      visited.inventory.exports.map Export.name = names ∧
      opening.overrides.exports.names = names.eraseDups := by
  obtain ⟨begun, visited, bench, hstart, hvisit, hadd, -⟩ := exists_course h
  have hbegun := Workbench.start_ensures m options begun hstart
  obtain ⟨names, hnames, hperforms⟩ := Workbench.visitAll_accounts hcurrent hbegun (fun _ hs => hs)
    begun hbegun.source ⟨fun _ => id, fun _ _ => rfl⟩ visited hvisit
  rw [(Workbench.start_frame options _ _ begun hstart).1] at hnames
  have hexports : visited.inventory.exports.map Export.name = names := by
    rw [hperforms.map_exports, hbegun.inventory]
    rfl
  refine ⟨begun, visited, names, hstart, hvisit, hbegun.scope, hnames, hexports, ?_⟩
  rcases Workbench.addOverrides_ok hadd with ⟨hempty, hnone, -⟩ | ⟨plan, planned, _, hplan, heq, -⟩
  · have hexports' : visited.inventory.exports = [] := by
      simpa using (Bool.and_eq_true_iff.mp hempty).1
    rw [← hexports, hexports', hnone]
    rfl
  · obtain ⟨deeds, hsteps⟩ := hperforms.works.reaches
    rw [← heq, ← hexports]
    let run : m.Run options :=
      ⟨begun, deeds, visited, plan, planned, hstart, hvisit, hsteps, hplan⟩
    exact run.names_overrides

theorem specimen_current : specimen.Current := by
  decide +kernel

/-- The specimen is opened, and its export is accounted for. -/
theorem exports_accounted_specimen : specimen.Current ∧ ∃ opening,
    (specimen.transform {}).outcome = .opened opening ∧ ∃ begun visited names,
      (Workbench.start {} (Text.encode specimen.source) specimen.root).result = .ok begun ∧
      (begun.visitAll specimen.root.namedChildren).result = .ok visited ∧
      Scope.ofTree (Text.encode specimen.source) specimen.root = .ok begun.scope ∧
      specimen.accounts false begun.scope = .ok names ∧
      visited.inventory.exports.map Export.name = names ∧
      opening.overrides.exports.names = names.eraseDups := by
  obtain ⟨opening, hopened, -⟩ := specimen_opened {}
  exact ⟨specimen_current, opening, hopened, specimen_current.exports_accounted hopened⟩

end Module

end Seams
