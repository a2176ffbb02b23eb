import Seams.Proofs.Placement

/-!
# Opening exports keeps a workbench tidy

Work on an export stops when a node cannot be read, when a declaration lacks the name it is
exported by, or when an edit does not fit. None of this happens to a well-formed tree whose exports
have the parts they need: the work succeeds, and the workbench is tidy afterwards.

A statement is replaced as a whole, or its specifiers are, one after the other. A constant that an
export weakens may be declared in any statement.

## Main definitions

* `Node.Exportable`, `Module.Exportable` — the exports of a module have the parts they need

## Main results

* `Tidy.openDefaultExport_gives`, `Tidy.openDeclaration_gives`, `Tidy.openClause_gives` — the forms
  of exports
* `Tidy.openExport_gives` — opening an export statement
-/

namespace Seams

/-! ### What exports need -/

/-- An export statement has the parts that the work on it needs. -/
structure Node.Exportable (statement : Node) : Prop where
  /-- No `let` or `const` declaration is exported as the default. -/
  default : statement.isDefaultExport = true → ∀ declaration ∈ statement.child? .declaration,
    declaration.kind ≠ .lexicalDeclaration
  /-- An exported function or class has a name, unless it is the default. -/
  named : statement.isDefaultExport = false → ∀ declaration ∈ statement.child? .declaration,
    (declaration.kind.isFunctionDeclaration || declaration.kind.isClass) = true →
    (declaration.child? .name).isSome = true
  /-- An export specifier names something. -/
  specifiers : ∀ clause ∈ statement.namedChildren, clause.kind = .exportClause →
    ∀ specifier ∈ clause.namedChildren, specifier.kind = .exportSpecifier →
    ∃ part ∈ specifier.children, part.kind ≠ .keywordAs

instance (statement : Node) : Decidable statement.Exportable :=
  decidable_of_iff
    ((statement.isDefaultExport = true → ∀ declaration ∈ statement.child? .declaration,
        declaration.kind ≠ .lexicalDeclaration) ∧
      (statement.isDefaultExport = false → ∀ declaration ∈ statement.child? .declaration,
        (declaration.kind.isFunctionDeclaration || declaration.kind.isClass) = true →
        (declaration.child? .name).isSome = true) ∧
      ∀ clause ∈ statement.namedChildren, clause.kind = .exportClause →
        ∀ specifier ∈ clause.namedChildren, specifier.kind = .exportSpecifier →
        ∃ part ∈ specifier.children, part.kind ≠ .keywordAs)
    ⟨fun h => ⟨h.1, h.2.1, h.2.2⟩, fun h => ⟨h.default, h.named, h.specifiers⟩⟩

/-- Every export statement of a module has the parts that the work on it needs. -/
def Module.Exportable (m : Module) : Prop :=
  ∀ statement ∈ m.root.namedChildren, statement.kind = .exportStatement → statement.Exportable

instance (m : Module) : Decidable m.Exportable :=
  inferInstanceAs (Decidable (∀ statement ∈ m.root.namedChildren,
    statement.kind = .exportStatement → statement.Exportable))

/-- The parts of a specifier that names something are children of it. -/
theorem Workbench.specifierParts_ok {specifier : Node}
    (h : ∃ part ∈ specifier.children, part.kind ≠ .keywordAs) :
    ∃ first last, specifierParts specifier = .ok (first, last) ∧
      first ∈ specifier.children ∧ last ∈ specifier.children := by
  obtain ⟨part, hpart, hkind⟩ := h
  have hne : specifier.children.filter (fun child => child.kind != .keywordAs) ≠ [] :=
    List.ne_nil_of_mem (List.mem_filter.mpr ⟨hpart, bne_iff_ne.mpr hkind⟩)
  refine ⟨_, _, ?_, (List.mem_filter.mp (List.head_mem hne)).1,
    (List.mem_filter.mp (List.getLast_mem hne)).1⟩
  rw [specifierParts, List.head?_eq_some_head hne, List.getLast?_eq_some_getLast hne]

namespace Tidy

variable {m : Module} {reached : Nat} {bench : Workbench} {statement node : Node}

/-! ### Reading -/

theorem text_ok (h : Tidy m reached bench) (hnode : node.WellFormed m.source) :
    ∃ text, bench.text node = .ok text := by
  rw [Workbench.text, h.source]
  exact hnode.text_ok

theorem slice_ok (h : Tidy m reached bench) (hnode : node.WellFormed m.source) :
    ∃ text, bench.draft.slice node = .ok text := by
  rw [Draft.slice, h.source]
  exact hnode.readText_ok

theorem codeWithoutName_ok (h : Tidy m reached bench) (hnode : node.WellFormed m.source) :
    ∃ code, codeWithoutName bench.draft.source node = .ok code := by
  rw [codeWithoutName, h.source]
  split
  · exact hnode.readText_ok
  · rename_i name hname
    have hfits := (hnode.child? hname).fits
    obtain ⟨h₁, h₂, h₃⟩ := hnode.within (Node.mem_subtree_of_child? hname)
    obtain ⟨head, hhead⟩ := readText_slice hnode.fits.start hfits.start h₁
    obtain ⟨tail, htail⟩ := readText_slice hfits.stop hnode.fits.stop h₃
    exact ⟨_, bind_eq_ok.mpr ⟨head, hhead, bind_eq_ok.mpr ⟨tail, htail, rfl⟩⟩⟩

theorem decoratorCode_ok (h : Tidy m reached bench) (hstatement : statement.WellFormed m.source) :
    ∃ code, bench.decoratorCode statement = .ok code := by
  have hone : ∀ decorator ∈ statement.children.filter fun child => child.kind == .decorator,
      ∃ text, (do return (← bench.draft.slice decorator) ++ " ") = Except.ok text := by
    intro decorator hdecorator
    have hchild := Node.mem_subtree_of_mem_children (List.mem_filter.mp hdecorator).1
    obtain ⟨text, htext⟩ := h.slice_ok (hstatement.below hchild)
    exact ⟨_, bind_eq_ok.mpr ⟨text, htext, rfl⟩⟩
  obtain ⟨texts, htexts⟩ := mapM_ok hone
  exact ⟨_, bind_eq_ok.mpr ⟨texts, htexts, rfl⟩⟩

/-! ### The inventory and the top of the module -/

theorem addExport_gives (h : Tidy m reached bench) (name localName : String) :
    (bench.addExport name localName).Gives (Tidy m reached) :=
  .note_bind (.pure ⟨h.source, h.hashbang, h.declarations, h.placed, h.bounds, h.apart⟩)

theorem addImport_gives (h : Tidy m reached bench) (name localName : String) :
    (bench.addImport name localName).Gives (Tidy m reached) :=
  .note_bind (.pure ⟨h.source, h.hashbang, h.declarations, h.placed, h.bounds, h.apart⟩)

theorem hoist_ok (h : Tidy m reached bench) (hm : m.WellFormed) (code : String) :
    ∃ next, bench.hoist code = .ok next ∧ Tidy m reached next := by
  rw [Workbench.hoist]
  cases hstop : bench.hashbangEnd with
  | none => exact h.insert_ok hm (Module.WellFormed.isSeam_zero m) _
  | some stop => exact h.insert_ok hm (hm.isSeam_hashbang (h.hashbang ▸ hstop)) _

theorem prependTop_ok (h : Tidy m reached bench) (hm : m.WellFormed) (code : String) :
    ∃ next, bench.prepend code = .ok next ∧ Tidy m reached next := by
  rw [Workbench.prepend]
  cases hstop : bench.hashbangEnd with
  | none => exact h.prepend_ok hm (Module.WellFormed.isSeam_zero m) _
  | some stop => exact h.prepend_ok hm (hm.isSeam_hashbang (h.hashbang ▸ hstop)) _

/-! ### Functions, classes and other values -/

theorem claimName_ok (h : Tidy m reached bench) (hnode : node.WellFormed m.source) :
    ∃ localName next, bench.claimName node = .ok (localName, next) ∧ Tidy m reached next := by
  rw [Workbench.claimName]
  split
  · exact ⟨_, _, rfl, h.fresh defaultName⟩
  · rename_i nameNode hname
    obtain ⟨name, hname⟩ := h.text_ok (hnode.child? hname)
    exact ⟨name, _, bind_eq_ok.mpr ⟨name, hname, rfl⟩, h.setScope (Scope.looser_remove _ _)⟩

theorem claimExport_gives (h : Tidy m reached bench) (hnode : node.WellFormed m.source)
    (name : String) :
    (bench.claimExport node name).Gives fun claimed => Tidy m reached claimed.2 := by
  obtain ⟨localName, next, hclaim, hnext⟩ := h.claimName_ok hnode
  refine .lift_bind hclaim ?_
  exact .bind ((hnext.register localName .var).addExport_gives name localName) fun _ h => .pure h

theorem hoistFunction_gives (h : Tidy m reached bench) (hm : m.WellFormed)
    (hstatement : statement ∈ m.root.namedChildren) (hlexical : statement.lexical? = none)
    (hnode : node.WellFormed m.source) (hreached : reached ≤ statement.start) (name : String) :
    (bench.hoistFunction statement node name).Gives (Tidy m statement.stop) := by
  refine .bind (h.claimExport_gives hnode name) ?_
  rintro ⟨localName, claimed⟩ hclaimed
  obtain ⟨code, hcode⟩ := hclaimed.codeWithoutName_ok hnode
  obtain ⟨hoisted, hhoist, htidy⟩ := hclaimed.hoist_ok hm s!"var {localName} = {code};"
  refine .lift_bind hcode (.lift_bind hhoist ?_)
  exact htidy.replaceNode_ok hm hstatement hlexical statement.self_mem_subtree hreached _

theorem inlineClass_gives (h : Tidy m reached bench) (hm : m.WellFormed)
    (hstatement : statement ∈ m.root.namedChildren) (hlexical : statement.lexical? = none)
    (hnode : node.WellFormed m.source) (hreached : reached ≤ statement.start) (name : String) :
    (bench.inlineClass statement node name).Gives (Tidy m statement.stop) := by
  refine .bind (h.claimExport_gives hnode name) ?_
  rintro ⟨localName, claimed⟩ hclaimed
  obtain ⟨decorators, hdecorators⟩ := hclaimed.decoratorCode_ok (hm.ofStatement hstatement)
  obtain ⟨code, hcode⟩ := hclaimed.codeWithoutName_ok hnode
  refine .lift_bind hdecorators (.lift_bind hcode ?_)
  exact hclaimed.replaceNode_ok hm hstatement hlexical statement.self_mem_subtree hreached _

theorem storeDefault_gives (h : Tidy m reached bench) (hm : m.WellFormed)
    (hstatement : statement ∈ m.root.namedChildren) (hlexical : statement.lexical? = none)
    (hnode : node.WellFormed m.source) (hreached : reached ≤ statement.start) :
    (bench.storeDefault statement node).Gives (Tidy m statement.stop) := by
  refine .bind (((h.fresh defaultName).register _ .var).addExport_gives defaultName _) ?_
  intro stored hstored
  obtain ⟨code, hcode⟩ := hstored.slice_ok hnode
  refine .lift_bind hcode ?_
  exact hstored.replaceNode_ok hm hstatement hlexical statement.self_mem_subtree hreached _

/-! ### Default exports -/

theorem openDefaultName_gives (h : Tidy m reached bench) (hm : m.WellFormed)
    (hstatement : statement ∈ m.root.namedChildren) (hlexical : statement.lexical? = none)
    (hnode : node.WellFormed m.source) (hreached : reached ≤ statement.start) :
    (bench.openDefaultName statement node).Gives (Tidy m statement.stop) := by
  obtain ⟨name, hname⟩ := h.text_ok hnode
  rw [Workbench.openDefaultName]
  refine .lift_bind hname ?_
  extract_lets keepName
  have hkeep : ∀ next, Tidy m reached next → (keepName next).Gives (Tidy m statement.stop) := by
    intro next hnext
    unfold keepName
    split
    · split
      · exact hnext.storeDefault_gives hm hstatement hlexical hnode hreached
      · refine .bind (hnext.addExport_gives defaultName name) ?_
        intro exported hexported
        exact hexported.replaceNode_ok hm hstatement hlexical statement.self_mem_subtree hreached _
    · exact hnext.storeDefault_gives hm hstatement hlexical hnode hreached
  split
  · exact .bind (h.weaken_gives hm name) hkeep
  · exact .bind (.pure h) hkeep

theorem openDefaultExport_gives (h : Tidy m reached bench) (hm : m.WellFormed)
    (hstatement : statement ∈ m.root.namedChildren) (hlexical : statement.lexical? = none)
    (hreached : reached ≤ statement.start) :
    (bench.openDefaultExport statement).Gives (Tidy m statement.stop) := by
  have hle := (hm.ofStatement hstatement).start_le_stop
  rw [Workbench.openDefaultExport]
  split
  · exact .pure (h.mono (by omega))
  · rename_i target htarget
    have htarget : target.WellFormed m.source := by
      rcases Option.or_eq_some_iff.mp htarget with htarget | ⟨-, htarget⟩
      · exact (hm.ofStatement hstatement).child? htarget
      · exact (hm.ofStatement hstatement).child? htarget
    split
    · exact h.openDefaultName_gives hm hstatement hlexical htarget hreached
    · split
      · exact h.hoistFunction_gives hm hstatement hlexical htarget hreached _
      · split
        · exact h.inlineClass_gives hm hstatement hlexical htarget hreached _
        · exact h.storeDefault_gives hm hstatement hlexical htarget hreached

/-! ### Exported declarations -/

theorem weakenAll_gives (h : Tidy m reached bench) (hm : m.WellFormed) (names : List String) :
    (bench.weakenAll names).Gives (Tidy m reached) := by
  induction names generalizing bench with
  | nil => exact .pure h
  | cons name rest ih => exact .bind (h.weaken_gives hm name) fun _ hnext => ih hnext

theorem addExports_gives (h : Tidy m reached bench) (names : List String) :
    (bench.addExports names).Gives (Tidy m reached) := by
  induction names generalizing bench with
  | nil => exact .pure h
  | cons name rest ih => exact .bind (h.addExport_gives name name) fun _ hnext => ih hnext

theorem openVariables_gives (h : Tidy m reached bench) (hm : m.WellFormed)
    (hnode : node.WellFormed m.source) : (bench.openVariables node).Gives (Tidy m reached) := by
  obtain ⟨names, hnames⟩ : ∃ names, node.declared.mapM bench.text = .ok names :=
    mapM_ok fun identifier hidentifier =>
      h.text_ok (hnode.below (Node.declared_subset hidentifier))
  refine .lift_bind hnames ?_
  split
  · split
    · exact .bind (h.weakenAll_gives hm names) fun _ hnext => hnext.addExports_gives names
    · exact .note_bind (.pure h)
  · exact h.addExports_gives names

theorem declaredName_ok (h : Tidy m reached bench) (hnode : node.WellFormed m.source)
    (hname : (node.child? .name).isSome = true) : ∃ name, bench.declaredName node = .ok name := by
  obtain ⟨nameNode, hname⟩ := Option.isSome_iff_exists.mp hname
  obtain ⟨name, htext⟩ := h.text_ok (hnode.child? hname)
  exact ⟨name, by rw [Workbench.declaredName, hname]; exact htext⟩

theorem openDeclaration_gives (h : Tidy m reached bench) (hm : m.WellFormed)
    (hstatement : statement ∈ m.root.namedChildren) (hkind : statement.kind = .exportStatement)
    (hchild : statement.child? .declaration = some node) (hreached : reached ≤ statement.start)
    (hnamed : (node.kind.isFunctionDeclaration || node.kind.isClass) = true →
      (node.child? .name).isSome = true) :
    (bench.openDeclaration statement node).Gives (Tidy m statement.stop) := by
  have hle := (hm.ofStatement hstatement).start_le_stop
  have hnode : node.WellFormed m.source := (hm.ofStatement hstatement).child? hchild
  have hlexical : node.kind ≠ .lexicalDeclaration → statement.lexical? = none := by
    intro hne
    simp [Node.lexical?, hkind, hchild, hne]
  rw [Workbench.openDeclaration]
  split
  · exact (h.openVariables_gives hm hnode).mono fun _ hnext => hnext.mono (by omega)
  · split
    · rename_i hfunction
      obtain ⟨name, hname⟩ := h.declaredName_ok hnode (hnamed (by simp [hfunction]))
      refine .lift_bind hname ?_
      refine h.hoistFunction_gives hm hstatement (hlexical ?_) hnode hreached name
      rintro hlex
      simp [hlex, Kind.isFunctionDeclaration] at hfunction
    · split
      · rename_i hclass
        obtain ⟨name, hname⟩ := h.declaredName_ok hnode (hnamed (by simp [hclass]))
        refine .lift_bind hname ?_
        refine h.inlineClass_gives hm hstatement (hlexical ?_) hnode hreached name
        rintro hlex
        simp [hlex, Kind.isClass] at hclass
      · exact .pure (h.mono (by omega))

/-! ### Export specifiers -/

theorem copySpecifier_gives (h : Tidy m reached bench) (hm : m.WellFormed)
    (hstatement : statement ∈ m.root.namedChildren) (hlexical : statement.lexical? = none)
    (hnode : node ∈ statement.subtree) (hreached : reached ≤ node.start) (localName name : String) :
    (bench.copySpecifier statement node localName name).Gives (Tidy m node.stop) := by
  have hseam := hm.isSeam_start hstatement
  obtain ⟨declared, hdeclared, htidy⟩ := ((h.fresh localName).register
    (bench.fresh localName).1 .var).insert_ok hm hseam
      s!"var {(bench.fresh localName).1} = {localName};\n"
  obtain ⟨placed, hplaced, htidy⟩ := htidy.replaceNode_ok hm hstatement hlexical hnode hreached
    s!"{(bench.fresh localName).1} as {name}"
  refine .lift_bind hdeclared (.lift_bind hplaced ?_)
  exact htidy.addExport_gives name _

theorem openNamedSpecifier_gives (h : Tidy m reached bench) (hm : m.WellFormed)
    (hstatement : statement ∈ m.root.namedChildren) (hlexical : statement.lexical? = none)
    (hnode : node ∈ statement.subtree) (hreached : reached ≤ node.start) (localName name : String) :
    (bench.openNamedSpecifier statement node localName name).Gives (Tidy m node.stop) := by
  have hle := ((hm.ofStatement hstatement).below hnode).start_le_stop
  have hmono : ∀ next, Tidy m reached next → Tidy m node.stop next :=
    fun next hnext => hnext.mono (by omega)
  rw [Workbench.openNamedSpecifier]
  split
  · exact .note_bind (.pure (hmono _ h))
  · split
    · exact .bind (h.weaken_gives hm localName) fun _ hnext =>
        (hnext.addExport_gives name localName).mono hmono
    · split
      · exact h.copySpecifier_gives hm hstatement hlexical hnode hreached localName name
      · exact (h.addExport_gives name localName).mono hmono

theorem openSpecifier_gives (h : Tidy m reached bench) (hm : m.WellFormed)
    (hstatement : statement ∈ m.root.namedChildren) (hlexical : statement.lexical? = none)
    (hnode : node ∈ statement.subtree) (hreached : reached ≤ node.start)
    (hparts : ∃ part ∈ node.children, part.kind ≠ .keywordAs) :
    (bench.openSpecifier statement node).Gives (Tidy m node.stop) := by
  have hwell := (hm.ofStatement hstatement).below hnode
  have hle := hwell.start_le_stop
  obtain ⟨first, last, hfirstLast, hfirst, hlast⟩ := Workbench.specifierParts_ok hparts
  obtain ⟨text, htext⟩ := h.text_ok hwell
  obtain ⟨localName, hlocal⟩ := h.text_ok (hwell.below (Node.mem_subtree_of_mem_children hfirst))
  obtain ⟨name, hname⟩ := h.text_ok (hwell.below (Node.mem_subtree_of_mem_children hlast))
  refine .lift_bind hfirstLast ?_
  show (if first.kind = .string ∨ last.kind = .string then _ else _ : Traced Workbench).Gives _
  split
  · refine .lift_bind htext ?_
    exact .note_bind (.pure (h.mono (by omega)))
  · refine .lift_bind hlocal (.lift_bind hname ?_)
    exact h.openNamedSpecifier_gives hm hstatement hlexical hnode hreached localName name

/-- Specifiers that follow each other are opened one after the other. -/
theorem openSpecifiers_gives (h : Tidy m reached bench) (hm : m.WellFormed)
    (hstatement : statement ∈ m.root.namedChildren) (hlexical : statement.lexical? = none)
    (hend : reached ≤ statement.stop) {specifiers : List Node}
    (hbelow : ∀ specifier ∈ specifiers, specifier ∈ statement.subtree)
    (hreached : ∀ specifier ∈ specifiers, reached ≤ specifier.start)
    (hfollow : specifiers.Pairwise fun a b => a.stop ≤ b.start)
    (hparts : ∀ specifier ∈ specifiers, ∃ part ∈ specifier.children, part.kind ≠ .keywordAs) :
    (bench.openSpecifiers statement specifiers).Gives (Tidy m statement.stop) := by
  induction specifiers generalizing reached bench with
  | nil => exact .pure (h.mono hend)
  | cons specifier rest ih =>
    obtain ⟨hfirst, hrest⟩ := List.pairwise_cons.mp hfollow
    have hmem : specifier ∈ specifier :: rest := List.mem_cons_self ..
    have hin := (hm.ofStatement hstatement).within (hbelow specifier hmem)
    refine .bind (h.openSpecifier_gives hm hstatement hlexical (hbelow specifier hmem)
      (hreached specifier hmem) (hparts specifier hmem)) ?_
    intro next hnext
    exact ih hnext hin.2.2 (fun s hs => hbelow s (List.mem_cons_of_mem _ hs)) hfirst hrest
      (fun s hs => hparts s (List.mem_cons_of_mem _ hs))

theorem openClause_gives (h : Tidy m reached bench) (hm : m.WellFormed)
    (hstatement : statement ∈ m.root.namedChildren) (hlexical : statement.lexical? = none)
    (hreached : reached ≤ statement.start) (hexportable : statement.Exportable) :
    (bench.openClause statement).Gives (Tidy m statement.stop) := by
  have hle := (hm.ofStatement hstatement).start_le_stop
  rw [Workbench.openClause]
  split
  · exact .pure (h.mono (by omega))
  · rename_i clause hclause
    have hkind : clause.kind = .exportClause := by simpa using List.find?_some hclause
    have hmem : clause ∈ statement.namedChildren := List.mem_of_find?_eq_some hclause
    have hwell := (hm.ofStatement hstatement).below (Node.mem_subtree_of_mem_namedChildren hmem)
    have hbelow : ∀ specifier ∈ clause.namedChildren, specifier ∈ statement.subtree :=
      fun specifier hs => Node.subtree_trans (Node.mem_subtree_of_mem_namedChildren hs)
        (Node.mem_subtree_of_mem_namedChildren hmem)
    refine h.openSpecifiers_gives hm hstatement hlexical (by omega) (fun specifier hs => ?_)
      (fun specifier hs => ?_) ((hwell.fits.children.pairwise.filter _).filter _)
      (fun specifier hs => ?_)
    · exact hbelow specifier (List.mem_filter.mp hs).1
    · have := (hm.ofStatement hstatement).within (hbelow specifier (List.mem_filter.mp hs).1)
      omega
    · obtain ⟨hs, hspecifier⟩ := List.mem_filter.mp hs
      exact hexportable.specifiers clause hmem hkind specifier hs (by simpa using hspecifier)

/-! ### Export statements -/

theorem openExport_gives (h : Tidy m reached bench) (hm : m.WellFormed)
    (hstatement : statement ∈ m.root.namedChildren) (hkind : statement.kind = .exportStatement)
    (hexportable : statement.Exportable) (hreached : reached ≤ statement.start) :
    (bench.openExport statement).Gives (Tidy m statement.stop) := by
  have hle := (hm.ofStatement hstatement).start_le_stop
  rw [Workbench.openExport]
  split
  · exact .note_bind (.pure (h.mono (by omega)))
  · split
    · rename_i hdefault
      refine h.openDefaultExport_gives hm hstatement ?_ hreached
      have := hexportable.default hdefault
      cases hdeclaration : statement.child? .declaration with
      | none => simp [Node.lexical?, hkind, hdeclaration]
      | some declaration => simp [Node.lexical?, hkind, hdeclaration, this declaration hdeclaration]
    · rename_i hnotDefault
      split
      · rename_i declaration hdeclaration
        exact h.openDeclaration_gives hm hstatement hkind hdeclaration hreached
          (hexportable.named (by simpa using hnotDefault) declaration hdeclaration)
      · rename_i hdeclaration
        refine h.openClause_gives hm hstatement ?_ hreached hexportable
        simp [Node.lexical?, hkind, hdeclaration]

end Tidy

end Seams
