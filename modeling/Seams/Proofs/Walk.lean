import Seams.Proofs.Act

/-!
# Working on statements is a run of acts

However the work on a statement goes, as long as it does not stop it is a run of acts. This holds
of every tree; nothing is asked of it. Each form of export enters its exports under known names,
and if options allow it, it leaves no constant behind that it exposes.

## Main definitions

* `Opens` — what comes of opening an export

## Main results

* `Workbench.weaken_settles` — weakening a name settles it
* `Workbench.openSpecifier_opens`, `Workbench.openExport_opens`, `Workbench.openImport_performs` —
  working on a statement
* `Workbench.visitAll_opens`, `Workbench.visitAll_walks` — working on statements in turn
-/

namespace Seams

/-! ### Scopes -/

/-- Weakening a constant settles its name. -/
theorem Scope.settled_loosen {scope : Scope} {name : String} {binding : Binding}
    {declaration : Declaration} (hb : scope.get? name = some binding)
    (hd : binding.declaration = some declaration) :
    (scope.loosen declaration.site).Settled name := by
  intro other hother hconst
  have hfrom : binding.isFrom declaration.site = true := by simp [Binding.isFrom, hd]
  rw [get?_loosen, hb, Option.map_some, if_pos hfrom] at hother
  rw [← Option.some.inj hother] at hconst
  cases hconst

/-- A name that cannot be weakened is settled. -/
theorem Scope.settled_of_weaken {scope : Scope} {name : String} {binding : Binding}
    (hb : scope.get? name = some binding) (h : scope.weaken binding = none) :
    scope.Settled name := by
  intro other hother hconst
  rw [hb] at hother
  obtain rfl := Option.some.inj hother
  rw [weaken] at h
  split at h
  · cases h
  · rename_i hnot
    cases hd : binding.declaration with
    | none => rfl
    | some declaration => exact absurd hd (hnot declaration hconst)

/-! ### Texts that do not weaken -/

/-- A text is no keyword if a character in it does not occur in the keyword. -/
theorem ne_let_of_mem {text : String} {c : Char} (hc : c ∈ text.toList)
    (hnot : c ∉ "let".toList) : text ≠ "let" := by
  rintro rfl
  exact hnot hc

theorem ne_let_of_space {text : String} (h : ' ' ∈ text.toList) : text ≠ "let" :=
  ne_let_of_mem h (by decide)

theorem Names.IsMadeUp.ne_let {name : String} (h : IsMadeUp name) : name ≠ "let" := by
  rintro rfl
  exact absurd h (by decide)

/-! ### Edits -/

/-- A replacement comes after the edits made so far. -/
theorem Draft.replace_eq {draft next : Draft} {start stop : Int} {text : String}
    (h : draft.replace start stop text = .ok next) :
    next = { draft with
      edits := draft.edits ++ [⟨start.toNat, stop.toNat, text, draft.nextOrder⟩] } := by
  rw [Draft.replace] at h
  split at h
  · exact (Except.ok.inj h).symm
  · cases h

theorem Draft.prepend_record {draft next : Draft} {offset : Nat} {text : String}
    (h : draft.prepend offset text = .ok next) :
    ∃ edit, edit.text = text ∧ edit.start = offset ∧ edit.stop = offset ∧
      next = draft.record [edit] := by
  rw [Draft.prepend] at h
  split at h
  · exact ⟨_, rfl, rfl, rfl, (Except.ok.inj h).symm⟩
  · cases h

namespace Workbench

variable {m : Module} {bench next : Workbench}

theorem edit_eq {change : Draft → Except Failure Draft} (h : bench.edit change = .ok next) :
    ∃ draft, change bench.draft = .ok draft ∧ next = { bench with draft } := by
  obtain ⟨draft, hdraft, heq⟩ := bind_eq_ok.mp h
  exact ⟨draft, hdraft, (Except.ok.inj heq).symm⟩

/-- Replacing a range makes one more edit. -/
theorem edit_replace {start stop : Nat} {text : String}
    (h : bench.edit (·.replace start stop text) = .ok next) :
    next = { bench with
      draft := bench.draft.record [⟨start, stop, text, bench.draft.nextOrder⟩] } := by
  obtain ⟨draft, hdraft, rfl⟩ := edit_eq h
  rw [Draft.replace_eq hdraft]
  rfl

/-- What is appended makes one more edit. -/
theorem append_record {text : String} (h : bench.edit (·.append text) = .ok next) :
    ∃ edit, edit.text = text ∧ edit.start = bench.draft.source.length ∧ edit.stop = edit.start ∧
      next = { bench with draft := bench.draft.record [edit] } := by
  obtain ⟨draft, hdraft, rfl⟩ := edit_eq h
  rw [Draft.replace_eq hdraft]
  exact ⟨_, rfl, rfl, rfl, rfl⟩

/-- What is put at the top stands on a line of its own. -/
theorem prepend_record {code : String} (h : bench.prepend code = .ok next) :
    ∃ edit, '\n' ∈ edit.text.toList ∧ edit.start = bench.hashbangEnd.getD 0 ∧
      edit.stop = edit.start ∧ next = { bench with draft := bench.draft.record [edit] } := by
  obtain ⟨draft, hdraft, rfl⟩ := edit_eq h
  split at hdraft
  · rename_i stop hstop
    obtain ⟨edit, htext, hstart, hend, rfl⟩ := Draft.prepend_record hdraft
    exact ⟨edit, by simp [htext, String.toList_append], by simp [hstop, hstart],
      hend.trans hstart.symm, rfl⟩
  · rename_i hnone
    obtain ⟨edit, htext, hstart, hend, rfl⟩ := @Draft.prepend_record _ _ 0 _ hdraft
    exact ⟨edit, by simp [htext, String.toList_append], by simp [hnone, hstart],
      hend.trans hstart.symm, rfl⟩

theorem hoist_eq {code : String} (h : bench.hoist code = .ok next) :
    ∃ text, (text = "\n" ++ code ∨ text = code ++ "\n") ∧ next = { bench with
      draft := bench.draft.record [⟨bench.hashbangEnd.getD 0, bench.hashbangEnd.getD 0, text,
        bench.draft.nextOrder⟩] } := by
  rw [hoist] at h
  cases hstop : bench.hashbangEnd with
  | none =>
    simp only [hstop] at h
    exact ⟨_, .inr rfl, by rw [edit_replace h]; simp [hstop]⟩
  | some stop =>
    simp only [hstop] at h
    exact ⟨_, .inl rfl, by rw [edit_replace h]; simp [hstop]⟩

/-- Replacing a node in a statement that may be replaced. -/
theorem replaceNode_performs {statement node : Node} (hstatement : statement ∈ m.root.namedChildren)
    (hreplaceable : statement.IsReplaceable)
    (hnode : node ∈ statement.subtree) {text : String} (hplain : text ≠ "let")
    (bench : Workbench) :
    (liftM (bench.replaceNode node text) : Traced Workbench).Ensures (Performs m bench []) := by
  refine .lift fun next h => ?_
  rw [edit_replace h]
  exact (Does.rewrite ⟨.within hstatement hreplaceable hnode rfl rfl, hplain⟩).performs

theorem hoist_performs {code : String} (hspace : ' ' ∈ code.toList)
    (h : bench.hoist code = .ok next) : Performs m bench [] next := by
  obtain ⟨text, htext, rfl⟩ := hoist_eq h
  refine (Does.rewrite ⟨.top rfl rfl, ne_let_of_space ?_⟩).performs
  rcases htext with rfl | rfl <;> simp [String.toList_append, hspace]

end Workbench

/-! ### Weakening -/

/-- What comes of opening an export: exports are entered under given names, and if options allow
it, what is exposed is settled. -/
structure Opens (m : Module) (bench : Workbench) (names : List String) (exposed : String → Prop)
    (next : Workbench) : Prop where
  performs : Performs m bench names next
  settled : bench.options.unsafeConst = true → ∀ name, exposed name → next.scope.Settled name

section

variable {m : Module} {bench next last : Workbench} {names more : List String}
  {exposed other : String → Prop}

/-- Work that comes before changes nothing about what is exposed. -/
theorem Opens.after (h : Opens m next more exposed last) (hfirst : Performs m bench names next) :
    Opens m bench (names ++ more) exposed last :=
  ⟨hfirst.trans h.performs, fun hpermits => h.settled (hfirst.works.options ▸ hpermits)⟩

/-- What was exposed before stays settled. -/
theorem Opens.before (h : Opens m bench names exposed next) (hlast : Opens m next more other last) :
    Opens m bench (names ++ more) (fun name => exposed name ∨ other name) last := by
  refine ⟨h.performs.trans hlast.performs, fun hpermits name hname => ?_⟩
  rcases hname with hname | hname
  · exact hlast.performs.works.settled (h.settled hpermits name hname)
  · exact hlast.settled (h.performs.works.options ▸ hpermits) name hname

theorem Opens.of_none (h : Performs m bench names next) (hnone : ∀ name, ¬ exposed name) :
    Opens m bench names exposed next :=
  ⟨h, fun _ name hname => absurd hname (hnone name)⟩

theorem Opens.mono (h : Opens m bench names exposed next)
    (hmono : ∀ name, other name → exposed name) :
    Opens m bench names other next :=
  ⟨h.performs, fun hpermits name hname => h.settled hpermits name (hmono name hname)⟩

end

namespace Workbench

variable {m : Module}

/-- **Weakening a name settles it.** -/
theorem weaken_settles (bench : Workbench) {name : String}
    (hpermits : bench.options.unsafeConst = true) (hexposed : m.Exposes name) :
    (bench.weaken name).Ensures (Opens m bench [] (· = name)) := by
  rw [weaken]
  split
  · rename_i hnone
    refine .pure ⟨.refl, ?_⟩
    rintro - _ rfl binding hb
    rw [hnone] at hb
    cases hb
  · rename_i binding hb
    split
    · rename_i hnone
      refine .pure ⟨.refl, ?_⟩
      rintro - _ rfl
      exact Scope.settled_of_weaken hb hnone
    · rename_i scope declaration hweaken
      obtain ⟨hconst, hd, rfl⟩ := Scope.weaken_eq_some.mp hweaken
      -- The act loosens the scope and edits the keyword, if there is one.
      have hact := Does.weaken hb hconst hd hpermits hexposed
      have hopens : ∀ next, next = { bench.setScope (bench.scope.loosen declaration.site) with
          draft := bench.draft.record (bench.draft.keywordEdits declaration.node) } →
          Opens m bench [] (· = name) next := by
        rintro _ rfl
        refine ⟨hact.performs, ?_⟩
        rintro - _ rfl
        exact Scope.settled_loosen hb hd
      refine .note_bind ?_
      split
      · rename_i hkeyword
        refine .pure (hopens _ ?_)
        simp [Draft.record, Draft.keywordEdits, hkeyword, setScope]
      · rename_i keyword hkeyword
        refine .lift fun next hnext => hopens next ?_
        rw [edit_replace hnext]
        simp [Draft.keywordEdits, hkeyword, setScope]

theorem weakenAll_settles (bench : Workbench) {names : List String}
    (hpermits : bench.options.unsafeConst = true) (hexposed : ∀ name ∈ names, m.Exposes name) :
    (bench.weakenAll names).Ensures (Opens m bench [] (· ∈ names)) := by
  induction names generalizing bench with
  | nil => exact .pure (.of_none .refl fun _ => List.not_mem_nil)
  | cons name rest ih =>
    refine .bind (bench.weaken_settles hpermits (hexposed name (List.mem_cons_self ..))) ?_
    intro next hnext
    have hpermits' := hnext.performs.works.options ▸ hpermits
    refine (ih next hpermits' fun other h => hexposed other (List.mem_cons_of_mem _ h)).mono ?_
    exact fun last hlast => (hnext.before hlast).mono fun _ => List.mem_cons.mp

/-! ### Functions, classes and other values -/

theorem addExport_ensures (bench : Workbench) (name localName : String) :
    (bench.addExport name localName).Ensures
      (· = { bench with inventory := bench.inventory.addExport name localName }) :=
  .note_bind (.pure rfl)

end Workbench

/-- An own export statement of a module, with what it exports. -/
structure Module.Exported (m : Module) (statement target : Node) : Prop where
  mem : statement ∈ m.root.namedChildren
  own : statement.IsOwnExport
  target : statement.exportTarget? = some target
  /-- The statement may be replaced. -/
  replaceable : statement.IsReplaceable

namespace Workbench

variable {m : Module} {statement target : Node}

theorem replaceStatement_performs (h : m.Exported statement target) {text : String}
    (hspace : ' ' ∈ text.toList) (bench : Workbench) :
    (liftM (bench.replaceNode statement text) : Traced Workbench).Ensures (Performs m bench []) :=
  replaceNode_performs h.mem h.replaceable statement.self_mem_subtree (ne_let_of_space hspace) bench

/-- A fresh variable takes an export. -/
theorem store_performs (bench : Workbench) (base name : String) :
    Performs m bench [name] { (bench.fresh base).2.register (bench.fresh base).1 .var with
      inventory := bench.inventory.addExport name (bench.fresh base).1 } := by
  have hact := @Does.store m bench base name [] nofun
  rw [Draft.record_nil] at hact
  exact hact.performs

theorem claimExport_performs (h : m.Exported statement target)
    (hdefinition : target.isDefinition = true) (name : String) (bench : Workbench)
    (hsource : bench.draft.source = Text.encode m.source) :
    (bench.claimExport target name).Ensures fun claimed => Performs m bench [name] claimed.2 := by
  refine .lift_bind ?_
  rintro ⟨localName, claimed⟩ hclaim
  refine .bind (addExport_ensures _ name localName) ?_
  rintro _ rfl
  rw [claimName] at hclaim
  split at hclaim
  · cases hclaim
    exact .pure (store_performs bench defaultName name)
  · rename_i nameNode hnameNode
    obtain ⟨own, hown, hclaim⟩ := bind_eq_ok.mp hclaim
    cases hclaim
    rw [text, hsource] at hown
    have hclaims : m.Claims localName :=
      ⟨statement, h.mem, h.own, target, nameNode, h.target, hdefinition, hnameNode, hown⟩
    exact .pure (Does.claim hclaims).performs

theorem hoistFunction_performs (h : m.Exported statement target)
    (hdefinition : target.isDefinition = true) (name : String) (bench : Workbench)
    (hsource : bench.draft.source = Text.encode m.source) :
    (bench.hoistFunction statement target name).Ensures (Performs m bench [name]) := by
  refine .bind (claimExport_performs h hdefinition name bench hsource) ?_
  rintro ⟨localName, claimed⟩ hclaimed
  refine .lift_bind fun code _ => .lift_bind fun hoisted hhoisted => ?_
  have hhoist := hclaimed.trans (hoist_performs (by simp [String.toList_append, toString]) hhoisted)
  refine (replaceStatement_performs h ?_ hoisted).mono fun next hnext => hhoist.trans hnext
  simp [exportCode, String.toList_append, toString]

theorem inlineClass_performs (h : m.Exported statement target)
    (hdefinition : target.isDefinition = true) (name : String) (bench : Workbench)
    (hsource : bench.draft.source = Text.encode m.source) :
    (bench.inlineClass statement target name).Ensures (Performs m bench [name]) := by
  refine .bind (claimExport_performs h hdefinition name bench hsource) ?_
  rintro ⟨localName, claimed⟩ hclaimed
  refine .lift_bind fun decorators _ => .lift_bind fun code _ => ?_
  refine (replaceStatement_performs h ?_ claimed).mono fun next hnext => hclaimed.trans hnext
  simp [String.toList_append, toString]

theorem storeDefault_performs (h : m.Exported statement target) (bench : Workbench) :
    (bench.storeDefault statement target).Ensures (Performs m bench [defaultName]) := by
  refine .bind (addExport_ensures _ defaultName (bench.fresh defaultName).1) ?_
  rintro _ rfl
  refine .lift_bind fun code _ => ?_
  refine (replaceStatement_performs h ?_ _).mono fun next hnext =>
    (store_performs bench defaultName defaultName).trans hnext
  simp [String.toList_append, toString]

/-! ### Default exports -/

/-- A name whose binding is not immutable stays with its variable. -/
theorem keep_does {bench : Workbench} {name localName : String} {binding : Binding}
    (hb : bench.scope.get? localName = some binding) (hmutable : binding.isImmutable = false) :
    Does m bench (.keep name localName)
      { bench with inventory := bench.inventory.addExport name localName } := by
  obtain ⟨hconst, hmodule⟩ := Binding.isImmutable_eq_false_iff.mp hmutable
  refine .keep hb hmodule ?_
  intro other hother hother'
  rw [hb] at hother
  obtain rfl := Option.some.inj hother
  exact absurd hother' hconst

theorem openDefaultName_opens (h : m.Exported statement target)
    (hdefault : statement.isDefaultExport = true) (hkind : target.kind = .identifier)
    (bench : Workbench) (hsource : bench.draft.source = Text.encode m.source) :
    (bench.openDefaultName statement target).Ensures
      (Opens m bench [defaultName] (statement.Exposes (Text.encode m.source))) := by
  rw [openDefaultName]
  refine .lift_bind fun name hname => ?_
  rw [text, hsource] at hname
  have hexposes : statement.Exposes (Text.encode m.source) name :=
    .default hdefault h.target hkind hname
  have hone : ∀ other, statement.Exposes (Text.encode m.source) other → other = name := by
    intro other hother
    have hother := ((Node.exposes_default hdefault h.target).mp hother).2
    exact Except.ok.inj (hother.symm.trans hname)
  extract_lets keepName
  have hkeep : ∀ next, Opens m bench [] (· = name) next → (keepName next).Ensures
      (Opens m bench [defaultName] (statement.Exposes (Text.encode m.source))) := by
    intro next hnext
    have hfinish : ∀ last, Performs m next [defaultName] last →
        Opens m bench [defaultName] (statement.Exposes (Text.encode m.source)) last := by
      intro last hlast
      exact (hnext.before (.of_none hlast fun _ => not_false)).mono fun other hother =>
        .inl (hone other hother)
    have hstore := (storeDefault_performs h next).mono hfinish
    unfold keepName
    split
    · rename_i binding hb
      split
      · exact hstore
      · rename_i hmutable
        have hkeep : Performs m next [defaultName]
            { next with inventory := next.inventory.addExport defaultName name } :=
          (keep_does hb (by simpa using hmutable)).performs
        refine .bind (addExport_ensures next defaultName name) ?_
        rintro _ rfl
        refine (replaceStatement_performs h ?_ _).mono fun last hlast =>
          hfinish last (hkeep.trans hlast)
        simp [defaultExportCode, String.toList_append, toString]
    · exact hstore
  split
  · rename_i hpermits
    exact .bind (bench.weaken_settles hpermits ⟨statement, h.mem, h.own, hexposes⟩) hkeep
  · rename_i hsafe
    exact .bind (.pure ⟨.refl, fun hpermits => absurd hpermits hsafe⟩) hkeep

theorem openDefaultExport_opens (hstatement : statement ∈ m.root.namedChildren)
    (hown : statement.IsOwnExport) (hdefault : statement.isDefaultExport = true)
    (bench : Workbench) (hsource : bench.draft.source = Text.encode m.source) :
    (bench.openDefaultExport statement).Ensures
      (Opens m bench (if statement.exportTarget?.isSome then [defaultName] else [])
        (statement.Exposes (Text.encode m.source))) := by
  have htarget : statement.exportTarget? =
      (statement.child? .declaration).or (statement.child? .value) := if_pos hdefault
  rw [openDefaultExport, ← htarget]
  split
  · rename_i hnone
    refine .pure (.of_none (by simpa [hnone] using .refl) fun name hname => ?_)
    cases hname with
    | declared hother | specified hother => simp [hdefault] at hother
    | default _ hother => simp [hnone] at hother
  · rename_i target htarget
    have h : m.Exported statement target := ⟨hstatement, hown, htarget, .inr ⟨hown.kind, hdefault⟩⟩
    rw [htarget, Option.isSome_some, if_pos rfl]
    -- Whatever is no name exposes none.
    have hother : target.kind ≠ .identifier → ∀ next, Performs m bench [defaultName] next →
        Opens m bench [defaultName] (statement.Exposes (Text.encode m.source)) next :=
      fun hkind next hnext => .of_none hnext fun name hname =>
        hkind ((Node.exposes_default hdefault htarget).mp hname).1
    split
    · rename_i hkind
      exact openDefaultName_opens h hdefault hkind bench hsource
    · rename_i hkind
      split
      · rename_i hfunction
        have hdefinition : target.isDefinition = true := by
          rw [Node.isDefinition, hfunction, Bool.true_or]
        exact (hoistFunction_performs h hdefinition _ bench hsource).mono (hother hkind)
      · split
        · rename_i hclass
          have hdefinition : target.isDefinition = true := by
            rw [Node.isDefinition, hclass, Bool.or_true]
          exact (inlineClass_performs h hdefinition _ bench hsource).mono (hother hkind)
        · exact (storeDefault_performs h bench).mono (hother hkind)

/-! ### Exported declarations -/

section

variable {declaration : Node}

theorem introduced_of_declaration (hkind : statement.kind = .exportStatement)
    (hchild : statement.child? .declaration = some declaration)
    (hvariables : declaration.kind.isVariableDeclaration = true) :
    statement.introduced = declaration.declared := by
  simp only [Node.introduced, hkind, hchild, Option.map_some, Option.getD_some,
    Node.declarationNames]
  cases hcase : declaration.kind <;> simp [hcase, Kind.isVariableDeclaration] at hvariables ⊢

/-- Variables are exported where they are declared, if their constants are settled. -/
theorem addExports_performs (hstatement : statement ∈ m.root.namedChildren)
    (hkind : statement.kind = .exportStatement) {names : List String}
    (hnames : ∀ name ∈ names, statement.Introduces (Text.encode m.source) name)
    (bench : Workbench)
    (hsettled : statement.BindsConstants → ∀ name ∈ names, bench.scope.Settled name) :
    (bench.addExports names).Ensures (Performs m bench names) := by
  induction names generalizing bench with
  | nil => exact .pure .refl
  | cons name rest ih =>
    have hmem : name ∈ name :: rest := List.mem_cons_self ..
    have hdeclare : Performs m bench [name]
        { bench with inventory := bench.inventory.addExport name name } :=
      (Does.declare hstatement hkind (hnames name hmem) fun h => hsettled h name hmem).performs
    refine .bind (bench.addExport_ensures name name) ?_
    rintro _ rfl
    refine (ih (fun other h => hnames other (List.mem_cons_of_mem _ h))
      { bench with inventory := bench.inventory.addExport name name }
      fun h other hother => hsettled h other (List.mem_cons_of_mem _ hother)).mono ?_
    exact fun _ hlast => hdeclare.trans hlast

theorem openVariables_opens (hstatement : statement ∈ m.root.namedChildren)
    (hown : statement.IsOwnExport) (hdefault : statement.isDefaultExport = false)
    (hchild : statement.child? .declaration = some declaration)
    (hvariables : declaration.kind.isVariableDeclaration = true) (bench : Workbench)
    (hsource : bench.draft.source = Text.encode m.source) :
    (bench.openVariables declaration).Ensures fun next => ∃ names,
      declaration.declaredExports (Text.encode m.source) bench.options.unsafeConst = .ok names ∧
        Opens m bench names (statement.Exposes (Text.encode m.source)) next := by
  have hexports : declaration.declaredExports (Text.encode m.source) bench.options.unsafeConst =
      if declaration.bindingKind = .const ∧ bench.options.unsafeConst = false then .ok []
      else declaration.declared.mapM (Node.text (Text.encode m.source)) :=
    if_pos hvariables
  refine .lift_bind fun names hnames => ?_
  have hmapM : declaration.declared.mapM (Node.text (Text.encode m.source)) = .ok names := by
    rw [← hnames, ← hsource]
    rfl
  have hmem : ∀ name, statement.Exposes (Text.encode m.source) name ↔
      declaration.bindingKind = .const ∧ name ∈ names := by
    intro name
    rw [Node.exposes_declaration hdefault hchild, mem_mapM_ok hmapM]
    exact and_iff_right hvariables
  have hintroduced : ∀ name ∈ names, statement.Introduces (Text.encode m.source) name := by
    intro name hname
    obtain ⟨identifier, hidentifier, htext⟩ := (mem_mapM_ok hmapM).mp hname
    refine ⟨identifier, ?_, htext⟩
    rwa [introduced_of_declaration hown.kind hchild hvariables]
  split
  · rename_i hconst
    split
    · rename_i hpermits
      have hexposed : ∀ name ∈ names, m.Exposes name :=
        fun name hname => ⟨statement, hstatement, hown, (hmem name).mpr ⟨hconst, hname⟩⟩
      refine .bind (bench.weakenAll_settles hpermits hexposed) fun next hnext => ?_
      refine (addExports_performs hstatement hown.kind hintroduced next
        fun _ => hnext.settled hpermits).mono fun last hlast => ⟨names, ?_, ?_⟩
      · rw [hexports, if_neg (by simp [hpermits]), hmapM]
      · exact (hnext.before (.of_none hlast fun _ => not_false)).mono fun name hname =>
          .inl ((hmem name).mp hname).2
    · rename_i hsafe
      refine .note_bind (.pure ⟨[], ?_, .refl, fun hpermits => absurd hpermits hsafe⟩)
      rw [hexports, if_pos ⟨hconst, by simpa using hsafe⟩]
  · rename_i hnotConst
    have hfree : ¬ statement.BindsConstants := by
      rintro (himport | ⟨constants, hlexical, hconst⟩)
      · rw [hown.kind] at himport
        cases himport
      · -- The declaration has no other keyword than the one that was looked at.
        simp only [Node.lexical?, hown.kind, hchild, Option.filter_eq_some_iff, Option.some.injEq]
          at hlexical
        rw [← hlexical.1] at hconst
        exact hnotConst hconst
    refine (addExports_performs hstatement hown.kind hintroduced bench
      fun h => absurd h hfree).mono fun last hlast => ⟨names, ?_, .of_none hlast fun name hname =>
        hnotConst ((hmem name).mp hname).1⟩
    rw [hexports, if_neg fun h => hnotConst h.1, hmapM]

theorem openDeclaration_opens (hstatement : statement ∈ m.root.namedChildren)
    (hown : statement.IsOwnExport) (hdefault : statement.isDefaultExport = false)
    (hchild : statement.child? .declaration = some declaration) (bench : Workbench)
    (hsource : bench.draft.source = Text.encode m.source) :
    (bench.openDeclaration statement declaration).Ensures fun next => ∃ names,
      declaration.declaredExports (Text.encode m.source) bench.options.unsafeConst = .ok names ∧
        Opens m bench names (statement.Exposes (Text.encode m.source)) next := by
  have htarget : statement.exportTarget? = some declaration := by
    rw [Node.exportTarget?, hdefault]
    exact hchild
  by_cases hvariables : declaration.kind.isVariableDeclaration = true
  · rw [openDeclaration, if_pos hvariables]
    exact openVariables_opens hstatement hown hdefault hchild hvariables bench hsource
  · have hlexical : statement.lexical? = none := by
      simp only [Node.lexical?, hown.kind, hchild, Option.filter_eq_none_iff, Option.some.injEq,
        forall_eq', beq_iff_eq]
      intro hkind
      rw [hkind] at hvariables
      exact hvariables rfl
    have h : m.Exported statement declaration := ⟨hstatement, hown, htarget, .inl hlexical⟩
    have hnone : ∀ name, ¬ statement.Exposes (Text.encode m.source) name := fun name hname =>
      hvariables ((Node.exposes_declaration hdefault hchild).mp hname).1
    -- A function or class is entered under its name.
    have hnamed : (declaration.kind.isFunctionDeclaration || declaration.kind.isClass) = true →
        ∀ name, bench.declaredName declaration = .ok name → declaration.declaredExports
          (Text.encode m.source) bench.options.unsafeConst = .ok [name] := by
      intro hkind name hname
      rw [Node.declaredExports, if_neg hvariables, if_pos hkind]
      rw [declaredName] at hname
      split at hname
      · rename_i nameNode hnameNode
        rw [text, hsource] at hname
        rw [hnameNode, Option.toList_some, List.mapM_cons, hname]
        rfl
      · cases hname
    rw [openDeclaration, if_neg hvariables]
    split
    · rename_i hfunction
      have hdefinition : declaration.isDefinition = true := by
        rw [Node.isDefinition, hfunction, Bool.true_or, Bool.true_or]
      refine .lift_bind fun name hname => ?_
      exact (hoistFunction_performs h hdefinition name bench hsource).mono fun next hnext =>
        ⟨[name], hnamed (by rw [hfunction, Bool.true_or]) name hname, .of_none hnext hnone⟩
    · rename_i hfunction
      split
      · rename_i hclass
        have hdefinition : declaration.isDefinition = true := by
          rw [Node.isDefinition, hclass, Bool.or_true]
        refine .lift_bind fun name hname => ?_
        exact (inlineClass_performs h hdefinition name bench hsource).mono fun next hnext =>
          ⟨[name], hnamed (by rw [hclass, Bool.or_true]) name hname, .of_none hnext hnone⟩
      · rename_i hclass
        refine .pure ⟨[], ?_, .of_none .refl hnone⟩
        rw [Node.declaredExports, if_neg hvariables, if_neg (by simp [hfunction, hclass])]

end

/-! ### Export specifiers -/

section

variable {specifier : Node}

/-- The edit that declares the copy of a variable ahead of a statement. -/
def copyEdit (bench : Workbench) (statement : Node) (localName : String) : Edit :=
  ⟨statement.start, statement.start, s!"var {(bench.fresh localName).1} = {localName};\n",
    bench.draft.nextOrder⟩

/-- The edit that makes a specifier name the copy. -/
def specifierEdit (bench : Workbench) (specifier : Node) (localName name : String) : Edit :=
  ⟨specifier.start, specifier.stop, s!"{(bench.fresh localName).1} as {name}",
    bench.draft.nextOrder + 1⟩

/-- **Copying** a constant or import makes two edits, and the copy is a fresh variable. -/
theorem copySpecifier_ensures (bench : Workbench) (statement specifier : Node)
    (localName name : String) : (bench.copySpecifier statement specifier localName name).Ensures
      (· = { (bench.fresh localName).2.register (bench.fresh localName).1 .var with
        draft := bench.draft.record
          [bench.copyEdit statement localName, bench.specifierEdit specifier localName name]
        inventory := bench.inventory.addExport name (bench.fresh localName).1 }) := by
  have hdraft : (bench.fresh localName).2.draft = bench.draft := rfl
  have hinventory : (bench.fresh localName).2.inventory = bench.inventory := rfl
  rw [copySpecifier, copyEdit, specifierEdit]
  generalize bench.fresh localName = made at *
  obtain ⟨copy, fresh⟩ := made
  dsimp only at *
  refine .lift_bind fun declared hdeclared => .lift_bind fun placed hplaced => ?_
  refine (addExport_ensures placed name copy).mono ?_
  rintro _ rfl
  rw [edit_replace hplaced, edit_replace hdeclared]
  simp only [Draft.record_record, Draft.nextOrder_record, register, setScope, hdraft, hinventory]
  rfl

theorem copySpecifier_performs (hstatement : statement ∈ m.root.namedChildren)
    (hlexical : statement.lexical? = none) (hspecifier : specifier ∈ statement.subtree)
    (localName name : String) (bench : Workbench) :
    (bench.copySpecifier statement specifier localName name).Ensures
      (Performs m bench [name]) := by
  refine (bench.copySpecifier_ensures statement specifier localName name).mono ?_
  rintro _ rfl
  refine (Does.store fun edit hedit => ?_).performs
  rcases List.mem_cons.mp hedit with rfl | hedit
  · refine ⟨.before hstatement rfl rfl, ne_let_of_space ?_⟩
    simp [copyEdit, String.toList_append, toString]
  · obtain rfl := List.mem_singleton.mp hedit
    refine ⟨.within hstatement (.inl hlexical) hspecifier rfl rfl, ne_let_of_space ?_⟩
    simp [specifierEdit, String.toList_append, toString]

theorem openNamedSpecifier_opens (hstatement : statement ∈ m.root.namedChildren)
    (hlexical : statement.lexical? = none) (hspecifier : specifier ∈ statement.subtree)
    {localName : String} (hexposed : m.Exposes localName) (name : String) (bench : Workbench) :
    (bench.openNamedSpecifier statement specifier localName name).Ensures
      (Opens m bench (if bench.scope.binds localName then [name] else []) (· = localName)) := by
  rw [openNamedSpecifier]
  split
  · rename_i hnone
    have hunbound : bench.scope.binds localName = false := by
      rw [← Bool.not_eq_true, Scope.binds_iff]
      simp [hnone]
    refine .note_bind (.pure ⟨by simpa [hunbound] using .refl, ?_⟩)
    rintro - _ rfl binding hb
    rw [hnone] at hb
    cases hb
  · rename_i binding hb
    rw [Scope.binds_iff.mpr ⟨binding, hb⟩, if_pos rfl]
    split
    · rename_i hweaken
      obtain ⟨hpermits, hconst⟩ := Bool.and_eq_true_iff.mp hweaken
      refine .bind (bench.weaken_settles hpermits hexposed) fun next hnext => ?_
      refine (addExport_ensures next name localName).mono ?_
      rintro _ rfl
      -- The binding was a constant, and no step turns it into an import.
      obtain ⟨deeds, hsteps⟩ := hnext.performs.works.reaches
      obtain ⟨after, hafter, hkind⟩ := hsteps.rebinds
        (P := fun b => ∃ binding, b = some binding ∧ binding.kind ≠ .module)
        (fun _ _ => Rebinds.notModule) localName ⟨binding, hb, by simp [beq_iff_eq.mp hconst]⟩
      have hkeep : Performs m next [name]
          { next with inventory := next.inventory.addExport name localName } :=
        (Does.keep hafter hkind (hnext.settled hpermits localName rfl)).performs
      exact (hnext.before (.of_none hkeep fun _ => not_false)).mono fun _ => .inl
    · rename_i hnotWeaken
      split
      · rename_i himmutable
        refine (copySpecifier_performs hstatement hlexical hspecifier localName name bench).mono ?_
        intro next hnext
        refine ⟨hnext, ?_⟩
        rintro hpermits _ rfl
        refine hnext.works.settled fun other hother hconst => ?_
        obtain rfl := Option.some.inj (hb.symm.trans hother)
        simp [hpermits, hconst] at hnotWeaken
      · rename_i hmutable
        refine (addExport_ensures bench name localName).mono ?_
        rintro _ rfl
        refine ⟨(keep_does hb (by simpa using hmutable)).performs, ?_⟩
        rintro - _ rfl other hother hconst
        obtain rfl := Option.some.inj (hb.symm.trans hother)
        simp [Binding.isImmutable_iff.mpr (.inl hconst)] at hmutable

/-- **Opening a specifier** enters the name that it exports, if the variable is bound, and does
nothing if there is a string in it. -/
theorem openSpecifier_opens (hstatement : statement ∈ m.root.namedChildren)
    (hown : statement.IsOwnExport) (hdefault : statement.isDefaultExport = false)
    (hchild : statement.child? .declaration = none)
    (hspecifier : specifier ∈ statement.exportSpecifiers) (bench : Workbench)
    (hsource : bench.draft.source = Text.encode m.source) :
    (bench.openSpecifier statement specifier).Ensures fun next =>
      (∃ localName name, specifier.Specifies (Text.encode m.source) localName name ∧
        Opens m bench (if bench.scope.binds localName then [name] else []) (· = localName) next) ∨
      specifier.Quotes ∧ next = bench := by
  refine .lift_bind ?_
  rintro ⟨localNode, nameNode⟩ hparts
  show (if localNode.kind = .string ∨ nameNode.kind = .string then _ else _ :
    Traced Workbench).Ensures _
  split
  · rename_i hstring
    exact .lift_bind fun text _ =>
      .note_bind (.pure (.inr ⟨⟨localNode, nameNode, hparts, hstring⟩, rfl⟩))
  · rename_i hstring
    obtain ⟨hlocalKind, hnameKind⟩ := not_or.mp hstring
    refine .lift_bind fun localName hlocal => .lift_bind fun name hname => ?_
    rw [text, hsource] at hlocal hname
    have hspecifies : specifier.Specifies (Text.encode m.source) localName name :=
      ⟨localNode, nameNode, hparts, hlocalKind, hnameKind, hlocal, hname⟩
    have hlexical : statement.lexical? = none := by
      simp [Node.lexical?, hown.kind, hchild]
    have hexposed : m.Exposes localName :=
      ⟨statement, hstatement, hown, .specified hdefault hchild hspecifier hspecifies⟩
    exact (openNamedSpecifier_opens hstatement hlexical (Node.exportSpecifiers_subset hspecifier)
      hexposed name bench).mono fun next hnext => .inl ⟨localName, name, hspecifies, hnext⟩

/-- Opening specifiers in turn. Which names they enter is told by what is bound when each of them
has its turn. -/
theorem openSpecifiers_opens (hstatement : statement ∈ m.root.namedChildren)
    (hown : statement.IsOwnExport) (hdefault : statement.isDefaultExport = false)
    (hchild : statement.child? .declaration = none) {specifiers : List Node}
    (hspecifiers : ∀ s ∈ specifiers, s ∈ statement.exportSpecifiers) (bench : Workbench)
    (hsource : bench.draft.source = Text.encode m.source) :
    (bench.openSpecifiers statement specifiers).Ensures fun next => ∃ names,
      Opens m bench names (fun name => ∃ specifier ∈ specifiers, ∃ exported,
        specifier.Specifies (Text.encode m.source) name exported) next := by
  induction specifiers generalizing bench with
  | nil => exact .pure ⟨[], .of_none .refl (by simp)⟩
  | cons specifier rest ih =>
    refine .bind (openSpecifier_opens hstatement hown hdefault hchild
      (hspecifiers specifier (List.mem_cons_self ..)) bench hsource) fun next hnext => ?_
    have hfirst : ∃ names, Opens m bench names (fun name => ∃ exported,
        specifier.Specifies (Text.encode m.source) name exported) next := by
      rcases hnext with ⟨localName, name, hspecifies, hopens⟩ | ⟨hquotes, rfl⟩
      · refine ⟨_, hopens.mono ?_⟩
        rintro other ⟨exported, hother⟩
        exact (hother.unique hspecifies).1
      · exact ⟨[], .of_none .refl fun name ⟨exported, hname⟩ =>
          hquotes.not_specifies _ name exported hname⟩
    obtain ⟨names, hfirst⟩ := hfirst
    refine (ih (fun s hs => hspecifiers s (List.mem_cons_of_mem _ hs)) next
      (hfirst.performs.works.source.trans hsource)).mono ?_
    rintro last ⟨more, hlast⟩
    refine ⟨names ++ more, (hfirst.before hlast).mono ?_⟩
    rintro name ⟨other, hother, exported, hname⟩
    rcases List.mem_cons.mp hother with rfl | hother
    · exact .inl ⟨exported, hname⟩
    · exact .inr ⟨other, hother, exported, hname⟩

theorem openClause_eq (bench : Workbench) (statement : Node) :
    bench.openClause statement = bench.openSpecifiers statement statement.exportSpecifiers := by
  rw [openClause, Node.exportSpecifiers]
  cases statement.namedChildren.find? fun child => child.kind == .exportClause <;> rfl

end

/-! ### Statements -/

section

variable {bench : Workbench}

/-- **Opening an export statement** settles what it exposes, if options allow it. -/
theorem openExport_opens (hstatement : statement ∈ m.root.namedChildren)
    (hkind : statement.kind = .exportStatement)
    (hsource : bench.draft.source = Text.encode m.source) :
    (bench.openExport statement).Ensures fun next => ∃ names, Opens m bench names
      (fun name => statement.IsOwnExport ∧ statement.Exposes (Text.encode m.source) name)
      next := by
  rw [openExport]
  split
  · rename_i hforeign
    refine .note_bind (.pure ⟨[], .of_none .refl fun name hname => ?_⟩)
    rw [hname.1.source] at hforeign
    cases hforeign
  · rename_i hown
    have hown : statement.IsOwnExport := ⟨hkind, by simpa using hown⟩
    split
    · rename_i hdefault
      exact (openDefaultExport_opens hstatement hown hdefault bench hsource).mono fun next hnext =>
        ⟨_, hnext.mono fun name hname => hname.2⟩
    · rename_i hdefault
      rw [Bool.not_eq_true] at hdefault
      split
      · rename_i declaration hchild
        refine (openDeclaration_opens hstatement hown hdefault hchild bench hsource).mono ?_
        rintro next ⟨names, -, hnext⟩
        exact ⟨names, hnext.mono fun name hname => hname.2⟩
      · rename_i hchild
        rw [openClause_eq]
        refine (openSpecifiers_opens hstatement hown hdefault hchild (fun _ hs => hs) bench
          hsource).mono ?_
        rintro next ⟨names, hnext⟩
        exact ⟨names, hnext.mono fun name hname =>
          (Node.exposes_specifiers hdefault hchild).mp hname.2⟩

/-! ### Import statements -/

/-- An alias is put into the specifier or in place of the name. -/
theorem placeAlias_eq {binding : ImportBinding} {localName : String} {next : Workbench}
    (hmadeUp : Names.IsMadeUp localName) (h : bench.placeAlias binding localName = .ok next) :
    ∃ node text, (node = binding.specifier ∨ node = binding.localName) ∧ text ≠ "let" ∧
      next = { bench with
        draft := bench.draft.record [⟨node.start, node.stop, text, bench.draft.nextOrder⟩] } := by
  rw [placeAlias] at h
  split at h
  · obtain ⟨specifier, -, h⟩ := bind_eq_ok.mp h
    refine ⟨binding.specifier, _, .inl rfl, ne_let_of_space ?_, edit_replace h⟩
    simp [String.toList_append, toString]
  · exact ⟨binding.localName, localName, .inr rfl, hmadeUp.ne_let, edit_replace h⟩

theorem import_lexical? (hkind : statement.kind = .importStatement) :
    statement.lexical? = none := by
  rw [Node.lexical?, hkind]

theorem interceptBinding_performs (hsource : bench.draft.source = Text.encode m.source)
    (hstatement : statement ∈ m.root.namedChildren) (hkind : statement.kind = .importStatement)
    {binding : ImportBinding} (hbinding : binding ∈ statement.importBindings) :
    (bench.interceptBinding binding).Ensures fun taken => Performs m bench [] taken.1 := by
  refine .lift_bind ?_
  intro name hname
  have hintroduces : statement.Introduces (Text.encode m.source) name := by
    rw [Workbench.text, hsource] at hname
    exact (Node.introduces_import_iff hkind).mpr ⟨binding, hbinding, hname⟩
  split
  · exact .note_bind (.pure .refl)
  · refine .lift_bind ?_
    intro placed hplaced
    refine .bind (P := fun next => next = { placed with
      inventory := placed.inventory.addImport name (bench.fresh name).1 })
      (.note_bind (.pure rfl)) ?_
    rintro _ rfl
    obtain ⟨node, text, hnode, hplain, rfl⟩ :=
      placeAlias_eq (bench.names.isMadeUp_fresh name) hplaced
    have hnode : node ∈ statement.subtree := by
      obtain ⟨hlocal, hspecifier⟩ := Node.importBindings_subset hbinding
      rcases hnode with rfl | rfl
      · exact hspecifier
      · exact hlocal
    exact .pure (Does.intercept hstatement hintroduces
      ⟨.within hstatement (.inl (import_lexical? hkind)) hnode rfl rfl, hplain⟩).performs

theorem interceptAll_performs (hsource : bench.draft.source = Text.encode m.source)
    (hstatement : statement ∈ m.root.namedChildren) (hkind : statement.kind = .importStatement)
    {bindings : List ImportBinding} (hbindings : ∀ b ∈ bindings, b ∈ statement.importBindings) :
    (bench.interceptAll bindings).Ensures fun taken => Performs m bench [] taken.1 := by
  induction bindings generalizing bench with
  | nil => exact .pure .refl
  | cons binding rest ih =>
    refine .bind (interceptBinding_performs hsource hstatement hkind
      (hbindings binding (List.mem_cons_self ..))) ?_
    rintro ⟨next, entry⟩ hnext
    refine .bind (ih (hnext.works.source.trans hsource)
      fun b hb => hbindings b (List.mem_cons_of_mem _ hb)) ?_
    rintro ⟨last, entries⟩ hlast
    exact .pure (hnext.trans hlast)

/-- The edit that declares imports anew behind their statement. -/
def interceptionEdit (bench : Workbench) (statement : Node) (entries : List Import) : Edit :=
  ⟨statement.stop, statement.stop,
    "".intercalate (entries.map fun entry => "\n" ++ interceptionCode entry bench.runtime),
    bench.draft.nextOrder⟩

/-- Names are taken in first, and then declared anew behind the statement. -/
theorem openImport_taken {next : Workbench} (h : (bench.openImport statement).result = .ok next) :
    ∃ taken entries, (bench.interceptAll statement.importBindings).result = .ok (taken, entries) ∧
      next = if entries.isEmpty then taken
        else { taken with
          draft := taken.draft.record [taken.interceptionEdit statement entries] } := by
  obtain ⟨⟨taken, entries⟩, htaken, h⟩ := Traced.bind_ok.mp h
  refine ⟨taken, entries, htaken, ?_⟩
  dsimp only at h
  split at h
  · rename_i hempty
    rw [if_pos hempty]
    exact (Except.ok.inj h).symm
  · rename_i hsome
    rw [if_neg hsome]
    exact edit_replace h

/-- Declaring imports anew is an act. -/
theorem redeclare_does (hstatement : statement ∈ m.root.namedChildren) {entries : List Import}
    (hsome : entries ≠ []) (taken : Workbench) :
    Does m taken (.rewrite (taken.interceptionEdit statement entries)) { taken with
      draft := taken.draft.record [taken.interceptionEdit statement entries] } := by
  refine .rewrite ⟨.behind hstatement rfl rfl, ?_⟩
  obtain ⟨entry, rest, rfl⟩ := List.exists_cons_of_ne_nil hsome
  have hline : '\n' ∈ (taken.interceptionEdit statement (entry :: rest)).text.toList := by
    simp [interceptionEdit, String.intercalate_cons_append, String.toList_append]
  exact ne_let_of_mem hline (by decide)

/-- **Opening an import statement** is a run of acts that enter no exports. -/
theorem openImport_performs (hsource : bench.draft.source = Text.encode m.source)
    (hstatement : statement ∈ m.root.namedChildren) (hkind : statement.kind = .importStatement) :
    (bench.openImport statement).Ensures (Performs m bench []) := by
  intro next hnext
  obtain ⟨taken, entries, htaken, rfl⟩ := openImport_taken hnext
  have htaken := interceptAll_performs hsource hstatement hkind (fun _ h => h) _ htaken
  split
  · exact htaken
  · rename_i hsome
    exact htaken.trans (redeclare_does hstatement (by simpa using hsome) taken).performs

/-! ### All statements -/

theorem visit_opens (hsource : bench.draft.source = Text.encode m.source)
    (hstatement : statement ∈ m.root.namedChildren) :
    (bench.visit statement).Ensures fun next => ∃ names, Opens m bench names
      (fun name => statement.IsOwnExport ∧ statement.Exposes (Text.encode m.source) name)
      next := by
  rw [visit]
  split
  · rename_i hkind
    refine (openImport_performs hsource hstatement hkind).mono fun next hnext =>
      ⟨[], .of_none hnext fun name hname => ?_⟩
    rw [hname.1.kind] at hkind
    cases hkind
  · rename_i hkind
    exact openExport_opens hstatement hkind hsource
  · rename_i hkind
    exact .pure ⟨[], .of_none .refl fun name hname => hkind hname.1.kind⟩

theorem visit_works (hsource : bench.draft.source = Text.encode m.source)
    (hstatement : statement ∈ m.root.namedChildren) :
    (bench.visit statement).Ensures (Works m bench) :=
  (visit_opens hsource hstatement).mono fun _ ⟨_, h⟩ => h.performs.works

/-- **Working on statements in turn is a run of acts**, and it settles what they expose. -/
theorem visitAll_opens (hsource : bench.draft.source = Text.encode m.source)
    {statements : List Node} (hstatements : ∀ s ∈ statements, s ∈ m.root.namedChildren) :
    (bench.visitAll statements).Ensures fun next => ∃ names, Opens m bench names
      (fun name => ∃ statement ∈ statements, statement.IsOwnExport ∧
        statement.Exposes (Text.encode m.source) name) next := by
  induction statements generalizing bench with
  | nil => exact .pure ⟨[], .of_none .refl (by simp)⟩
  | cons statement rest ih =>
    refine .bind (visit_opens hsource (hstatements statement (List.mem_cons_self ..))) ?_
    rintro next ⟨names, hnext⟩
    refine (ih (hnext.performs.works.source.trans hsource)
      fun s hs => hstatements s (List.mem_cons_of_mem _ hs)).mono ?_
    rintro last ⟨more, hlast⟩
    refine ⟨names ++ more, (hnext.before hlast).mono ?_⟩
    rintro name ⟨other, hother, hname⟩
    rcases List.mem_cons.mp hother with rfl | hother
    · exact .inl hname
    · exact .inr ⟨other, hother, hname⟩

theorem visitAll_works (hsource : bench.draft.source = Text.encode m.source)
    {statements : List Node} (hstatements : ∀ s ∈ statements, s ∈ m.root.namedChildren) :
    (bench.visitAll statements).Ensures (Works m bench) :=
  (visitAll_opens hsource hstatements).mono fun _ ⟨_, h⟩ => h.performs.works

/-- **Working on statements in turn is a run of steps.** -/
theorem visitAll_walks (hsource : bench.draft.source = Text.encode m.source)
    {statements : List Node} (hstatements : ∀ s ∈ statements, s ∈ m.root.namedChildren) :
    (bench.visitAll statements).Ensures (Reaches m bench) :=
  (visitAll_works hsource hstatements).mono fun _ => Works.reaches

/-! ### Imports are found -/

/-- The inventory has an import under a name. -/
def FindsImport (bench : Workbench) (name : String) : Prop :=
  ∃ entry ∈ bench.inventory.imports, entry.name = name

theorem FindsImport.mono {next : Workbench} {name : String} (h : bench.FindsImport name)
    (hnext : Works m bench next) : next.FindsImport name := by
  obtain ⟨entry, hentry, hname⟩ := h
  exact ⟨entry, hnext.reaches.mem_imports hentry, hname⟩

variable {binding : ImportBinding} {name : String}

theorem interceptBinding_finds (hname : bench.text binding.localName = .ok name)
    (hoverride : isOverrideName name = false) :
    (bench.interceptBinding binding).Ensures fun taken =>
      ∃ entry, taken.2 = some entry ∧ entry.name = name ∧ entry ∈ taken.1.inventory.imports := by
  refine .lift_bind ?_
  intro other hother
  rw [hname] at hother
  obtain rfl := Except.ok.inj hother
  rw [if_neg (by simp [hoverride])]
  refine .lift_bind ?_
  intro placed _
  refine .bind (P := fun next => ⟨name, (bench.fresh name).1⟩ ∈ next.inventory.imports)
    (.note_bind (.pure ?_)) fun next hnext => .pure ⟨_, rfl, rfl, hnext⟩
  exact List.mem_append_right _ (List.mem_singleton_self _)

/-- An import is taken in when its statement is worked on, unless it is an override function. -/
theorem interceptAll_finds (hsource : bench.draft.source = Text.encode m.source)
    (hstatement : statement ∈ m.root.namedChildren) (hkind : statement.kind = .importStatement)
    {bindings : List ImportBinding} (hbindings : ∀ b ∈ bindings, b ∈ statement.importBindings)
    (hbinding : binding ∈ bindings)
    (hname : binding.localName.text (Text.encode m.source) = .ok name)
    (hoverride : isOverrideName name = false) :
    (bench.interceptAll bindings).Ensures fun taken =>
      ∃ entry ∈ taken.2, entry.name = name ∧ entry ∈ taken.1.inventory.imports := by
  induction bindings generalizing bench with
  | nil => cases hbinding
  | cons first rest ih =>
    have hrest : ∀ b ∈ rest, b ∈ statement.importBindings :=
      fun b hb => hbindings b (List.mem_cons_of_mem _ hb)
    intro taken htaken
    obtain ⟨⟨next, found⟩, hfirst, htaken⟩ := Traced.bind_ok.mp htaken
    obtain ⟨⟨last, entries⟩, hlast, htaken⟩ := Traced.bind_ok.mp htaken
    obtain rfl : (last, found.toList ++ entries) = taken := Except.ok.inj htaken
    have hsource' := (interceptBinding_performs hsource hstatement hkind
      (hbindings first (List.mem_cons_self ..)) _ hfirst).works.source.trans hsource
    rcases List.mem_cons.mp hbinding with rfl | hbinding
    · obtain ⟨entry, rfl, hentry, hmem⟩ :=
        interceptBinding_finds (by rwa [Workbench.text, hsource]) hoverride _ hfirst
      have hrest := interceptAll_performs hsource' hstatement hkind hrest (last, entries) hlast
      exact ⟨entry, List.mem_append_left _ (List.mem_singleton_self _), hentry,
        hrest.works.reaches.mem_imports hmem⟩
    · obtain ⟨entry, hentry, hfound⟩ := ih hsource' hrest hbinding (last, entries) hlast
      exact ⟨entry, List.mem_append_right _ hentry, hfound⟩

/-- **Every import is found** when its statement is worked on, unless it is an override function. -/
theorem visitAll_finds (hsource : bench.draft.source = Text.encode m.source)
    {statements : List Node} (hstatements : ∀ s ∈ statements, s ∈ m.root.namedChildren)
    (hstatement : statement ∈ statements) (hkind : statement.kind = .importStatement)
    (hbinding : binding ∈ statement.importBindings)
    (hname : binding.localName.text (Text.encode m.source) = .ok name)
    (hoverride : isOverrideName name = false) :
    (bench.visitAll statements).Ensures fun visited => visited.FindsImport name := by
  induction statements generalizing bench with
  | nil => cases hstatement
  | cons first rest ih =>
    have hrest : ∀ s ∈ rest, s ∈ m.root.namedChildren :=
      fun s hs => hstatements s (List.mem_cons_of_mem _ hs)
    have hfirst := hstatements first (List.mem_cons_self ..)
    intro visited hvisited
    obtain ⟨next, hnext, hlast⟩ := Traced.bind_ok.mp hvisited
    have hsource' := (visit_works hsource hfirst _ hnext).source.trans hsource
    rcases List.mem_cons.mp hstatement with rfl | hstatement
    · rw [visit, hkind] at hnext
      obtain ⟨taken, entries, htaken, rfl⟩ := openImport_taken hnext
      obtain ⟨entry, -, hentry, hfound⟩ := interceptAll_finds hsource hfirst hkind (fun _ h => h)
        hbinding hname hoverride _ htaken
      have hnext : FindsImport (if entries.isEmpty then taken else { taken with
          draft := taken.draft.record [taken.interceptionEdit statement entries] }) name := by
        refine ⟨entry, ?_, hentry⟩
        split <;> exact hfound
      exact hnext.mono (visitAll_works hsource' hrest visited hlast)
    · exact ih hsource' hrest hstatement visited hlast

end

end Workbench

end Seams
