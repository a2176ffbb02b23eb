import Seams.Proofs.Copies
import Seams.Proofs.Positions

/-!
# The changes that are made to a module

Every edit that is made while the statements of a module are worked on is one of four changes: a
node is replaced, a function is defined at the top, a copy is declared in front of a statement, or
imports are declared anew behind a statement. Which nodes may be replaced is told by the module and
the options alone, and which functions are defined at the top, by the module alone.

## Main definitions

* `Module.Alters` — a node that may be replaced
* `Node.hoisted?`, `Module.Defines` — functions that are defined at the top
* `Change`, `Module.Permits` — the changes
* `Makes` — what comes of some of the work, with the functions defined by it

## Main results

* `Workbench.visit_makes`, `Workbench.visitAll_makes` — working on statements makes such changes
* `Module.exists_changes` — all calls for edits that lead to the code of an opened module
-/

namespace Seams

/-! ### Nodes and functions -/

/-- The function that an own export statement exports. -/
def Node.hoisted? (statement : Node) : Option Node :=
  if statement.IsOwnExport then
    statement.exportTarget?.filter fun target => target.kind.isFunctionDeclaration ||
      statement.isDefaultExport && target.kind.isFunctionExpression
  else none

/-- A node that may be replaced when a module is opened. -/
inductive Module.Alters (m : Module) (options : Options) (node : Node) : Prop
  /-- An own export statement that exports a default, a function or a class. -/
  | statement (hmem : node ∈ m.root.namedChildren) (hown : node.IsOwnExport)
      (hexports : node.isDefaultExport = true ∨ ∃ declaration,
        node.child? .declaration = some declaration ∧
          (declaration.kind.isFunctionDeclaration || declaration.kind.isClass) = true)
  /-- The place for the alias of an import that is not an override function. -/
  | imported {statement : Node} {binding : ImportBinding} {name : String}
      (hmem : statement ∈ m.root.namedChildren) (hkind : statement.kind = .importStatement)
      (hbinding : binding ∈ statement.importBindings)
      (hname : binding.localName.text (Text.encode m.source) = .ok name)
      (hoverride : isOverrideName name = false) (hnode : node = binding.place)
  /-- An export specifier that is turned to a copy. -/
  | specifier (copy : m.Copied options) (hnode : node = copy.specifier)
  /-- The keyword of a declaration of constants, if options allow it. -/
  | keyword {d : Declaration} (hd : m.IsConst d) (hpermits : options.unsafeConst = true)
      (hkeyword : d.node.keyword? = some node)

namespace Module

/-- The offset behind the hashbang line, if there is one. -/
def top (m : Module) : Nat :=
  m.root.hashbangEnd.getD 0

/-- A statement at the top of a module, on a line of its own. -/
def onTop (m : Module) (code : String) : String :=
  if m.root.hashbangEnd.isSome then "\n" ++ code else code ++ "\n"

/-- A text at the top of a module defines a function as a variable. The variable has the name of the
function, or a generated one. -/
def Defines (m : Module) (function : Node) (text : String) : Prop :=
  ∃ localName code, codeWithoutName (Text.encode m.source) function = .ok code ∧
    text = m.onTop s!"var {localName} = {code};" ∧
    (∀ name, function.child? .name = some name → name.text (Text.encode m.source) = .ok localName) ∧
    (function.child? .name = none → Names.IsMadeUp localName)

end Module

/-! ### Changes -/

/-- A change that is made to a module. -/
inductive Change where
  /-- A node is replaced. -/
  | alter (node : Node) (text : String)
  /-- A function is defined at the top. -/
  | hoist (function : Node) (text : String)
  /-- A copy is declared in front of a statement. -/
  | copy (statement : Node) (text : String)
  /-- Imports are declared anew behind a statement. -/
  | redeclare (statement : Node) (text : String)

namespace Change

/-- The edit that is called for. -/
def call (top : Nat) : Change → Draft.Call
  | alter node text => .replace node.start node.stop text
  | hoist _ text => .insert top text
  | copy statement text => .insert statement.start text
  | redeclare statement text => .insert statement.stop text

/-- The function that is defined. -/
def hoisted? : Change → Option Node
  | hoist function _ => some function
  | alter .. | copy .. | redeclare .. => none

end Change

/-- A change that may be made when a module is opened. -/
def Module.Permits (m : Module) (options : Options) : Change → Prop
  | .alter node _ => m.Alters options node
  | .hoist function text => m.Defines function text
  | .copy statement text =>
    ∃ copy : m.Copied options, copy.statement = statement ∧ text = copy.edit.text
  | .redeclare statement _ =>
    statement ∈ m.root.namedChildren ∧ statement.kind = .importStatement

/-! ### Work that makes changes -/

/-- The statements of a module are being worked on. -/
structure Underway (m : Module) (options : Options) (bench : Workbench) : Prop where
  source : bench.draft.source = Text.encode m.source
  hashbangEnd : bench.hashbangEnd = m.root.hashbangEnd
  options : bench.options = options
  constants : ∀ name binding d, bench.scope.get? name = some binding → binding.kind = .const →
    binding.declaration = some d → m.IsConst d

/-- Some of the work has made permitted changes, with which it has defined some functions. -/
structure Makes (m : Module) (options : Options) (before : Workbench) (hoisted : List Node)
    (after : Workbench) : Prop where
  underway : Underway m options after
  changes : ∃ changes : List Change, (∀ change ∈ changes, m.Permits options change) ∧
    changes.filterMap Change.hoisted? = hoisted ∧
    before.draft.callAll (changes.map (Change.call m.top)) = .ok after.draft

section

variable {m : Module} {options : Options} {a b c bench next : Workbench} {hoisted more : List Node}

theorem Makes.refl (h : Underway m options a) : Makes m options a [] a :=
  ⟨h, [], nofun, rfl, rfl⟩

theorem Makes.trans (h : Makes m options a hoisted b) (h' : Makes m options b more c) :
    Makes m options a (hoisted ++ more) c := by
  obtain ⟨changes, hpermits, rfl, hcalls⟩ := h.changes
  obtain ⟨others, hpermits', rfl, hcalls'⟩ := h'.changes
  refine ⟨h'.underway, changes ++ others, List.forall_mem_append.mpr ⟨hpermits, hpermits'⟩,
    List.filterMap_append, ?_⟩
  rw [List.map_append]
  exact Draft.callAll_append.mpr ⟨b.draft, hcalls, hcalls'⟩

/-- What leaves the draft alone and makes no new constants is no change. -/
theorem Makes.of_draft_eq (h : Underway m options a) (hdraft : b.draft = a.draft)
    (hhashbang : b.hashbangEnd = a.hashbangEnd) (hoptions : b.options = a.options)
    (hscope : a.scope.Looser b.scope) : Makes m options a [] b where
  underway := {
    source := hdraft ▸ h.source
    hashbangEnd := hhashbang.trans h.hashbangEnd
    options := hoptions.trans h.options
    constants := by
      intro name binding d hb hconst hd
      rcases hscope name binding hb with hnone | ⟨old, hold, hdeclaration, hkind⟩
      · rw [hnone] at hd
        cases hd
      · exact h.constants name old d hold (hkind hconst) (hdeclaration ▸ hd) }
  changes := ⟨[], nofun, rfl, congrArg Except.ok hdraft.symm⟩

/-- One change. -/
theorem Makes.one (h : Underway m options bench) (change : Change)
    (hpermits : m.Permits options change)
    (hedit : bench.edit (·.call (change.call m.top)) = .ok next) :
    Makes m options bench change.hoisted?.toList next := by
  obtain ⟨draft, hdraft, rfl⟩ := Workbench.edit_eq hedit
  obtain ⟨edit, -, -, rfl⟩ := Draft.call_makes hdraft
  refine ⟨⟨h.source, h.hashbangEnd, h.options, h.constants⟩, [change], ?_, ?_, ?_⟩
  · exact List.forall_mem_singleton.mpr hpermits
  · cases change <;> rfl
  · exact Draft.callAll_singleton.mpr hdraft

namespace Workbench

theorem replaceNode_makes (h : Underway m options bench) {node : Node}
    (halters : m.Alters options node) {text : String}
    (hnext : bench.replaceNode node text = .ok next) : Makes m options bench [] next :=
  .one h (.alter node text) halters hnext

/-- Weakening replaces keywords only. -/
theorem weaken_makes (h : Underway m options bench) (hpermits : options.unsafeConst = true)
    (name : String) : (bench.weaken name).Ensures (Makes m options bench []) := by
  rw [weaken]
  split
  · exact .pure (.refl h)
  · rename_i binding hb
    split
    · exact .pure (.refl h)
    · rename_i scope declaration hweaken
      obtain ⟨hconst, hd, rfl⟩ := Scope.weaken_eq_some.mp hweaken
      have hloosened : Makes m options bench []
          (bench.setScope (bench.scope.loosen declaration.site)) :=
        .of_draft_eq h rfl rfl rfl (Scope.looser_loosen _ _)
      refine .note_bind ?_
      split
      · exact .pure hloosened
      · rename_i keyword hkeyword
        refine .lift fun next hnext => hloosened.trans ?_
        exact replaceNode_makes hloosened.underway
          (.keyword (h.constants name binding declaration hb hconst hd) hpermits hkeyword) hnext

theorem weakenAll_makes (h : Underway m options bench) (hpermits : options.unsafeConst = true)
    (names : List String) : (bench.weakenAll names).Ensures (Makes m options bench []) := by
  induction names generalizing bench with
  | nil => exact .pure (.refl h)
  | cons name rest ih =>
    refine .bind (weaken_makes h hpermits name) fun next hnext => ?_
    exact (ih hnext.underway).mono fun last hlast => hnext.trans hlast

theorem addExport_makes (h : Underway m options bench) (name localName : String) :
    (bench.addExport name localName).Ensures (Makes m options bench []) :=
  .note_bind (.pure (.of_draft_eq h rfl rfl rfl (.refl _)))

theorem addExports_makes (h : Underway m options bench) (names : List String) :
    (bench.addExports names).Ensures (Makes m options bench []) := by
  induction names generalizing bench with
  | nil => exact .pure (.refl h)
  | cons name rest ih =>
    refine .bind (addExport_makes h name name) fun next hnext => ?_
    exact (ih hnext.underway).mono fun last hlast => hnext.trans hlast

/-! ### Functions, classes and other values -/

theorem claimName_makes (h : Underway m options bench) {node : Node} {claimed : String × Workbench}
    (hclaimed : bench.claimName node = .ok claimed) :
    Makes m options bench [] claimed.2 ∧
      (∀ name, node.child? .name = some name →
        name.text (Text.encode m.source) = .ok claimed.1) ∧
      (node.child? .name = none → Names.IsMadeUp claimed.1) := by
  rw [claimName] at hclaimed
  split at hclaimed
  · rename_i hnone
    obtain rfl := Except.ok.inj hclaimed
    refine ⟨.of_draft_eq h rfl rfl rfl (.refl _), ?_, fun _ => bench.names.isMadeUp_fresh _⟩
    simp [hnone]
  · rename_i nameNode hname
    obtain ⟨name, htext, hclaimed⟩ := bind_eq_ok.mp hclaimed
    obtain rfl := Except.ok.inj hclaimed
    rw [text, h.source] at htext
    refine ⟨.of_draft_eq h rfl rfl rfl (Scope.looser_remove _ _), ?_, ?_⟩
    · rintro _ hother
      obtain rfl := Option.some.inj (hname.symm.trans hother)
      exact htext
    · simp [hname]

theorem claimExport_makes (h : Underway m options bench) (node : Node) (name : String) :
    (bench.claimExport node name).Ensures fun claimed => Makes m options bench [] claimed.2 ∧
      (∀ name, node.child? .name = some name →
        name.text (Text.encode m.source) = .ok claimed.1) ∧
      (node.child? .name = none → Names.IsMadeUp claimed.1) := by
  refine .lift_bind ?_
  rintro ⟨localName, claimed⟩ hclaim
  obtain ⟨hclaimed, hnamed⟩ := claimName_makes h hclaim
  have hregistered : Makes m options claimed [] (claimed.register localName .var) :=
    .of_draft_eq hclaimed.underway rfl rfl rfl (Scope.looser_register _ _ _)
  refine .bind (addExport_makes hregistered.underway name localName) fun entered hentered => ?_
  exact .pure ⟨hclaimed.trans (hregistered.trans hentered), hnamed⟩

/-- What is hoisted goes to the top. -/
theorem hoist_makes (h : Underway m options bench) {function : Node} {code : String}
    (hdefines : m.Defines function (m.onTop code)) (hnext : bench.hoist code = .ok next) :
    Makes m options bench [function] next := by
  refine .one h (.hoist function (m.onTop code)) hdefines ?_
  rw [hoist] at hnext
  rw [← hnext, h.hashbangEnd, Change.call, Module.onTop, Module.top]
  cases m.root.hashbangEnd <;> rfl

theorem hoistFunction_makes (h : Underway m options bench) {statement : Node}
    (halters : m.Alters options statement) (function : Node) (name : String) :
    (bench.hoistFunction statement function name).Ensures (Makes m options bench [function]) := by
  refine .bind (claimExport_makes h function name) ?_
  rintro ⟨localName, claimed⟩ ⟨hclaimed, hnamed⟩
  refine .lift_bind fun code hcode => .lift_bind fun hoisted hhoisted => ?_
  rw [hclaimed.underway.source] at hcode
  have hhoist := hoist_makes hclaimed.underway ⟨localName, code, hcode, rfl, hnamed⟩ hhoisted
  refine .lift fun next hnext => ?_
  exact hclaimed.trans (hhoist.trans (replaceNode_makes hhoist.underway halters hnext))

theorem inlineClass_makes (h : Underway m options bench) {statement : Node}
    (halters : m.Alters options statement) (classNode : Node) (name : String) :
    (bench.inlineClass statement classNode name).Ensures (Makes m options bench []) := by
  refine .bind (claimExport_makes h classNode name) ?_
  rintro ⟨localName, claimed⟩ ⟨hclaimed, -⟩
  refine .lift_bind fun decorators _ => .lift_bind fun code _ => .lift fun next hnext => ?_
  exact hclaimed.trans (replaceNode_makes hclaimed.underway halters hnext)

theorem storeDefault_makes (h : Underway m options bench) {statement : Node}
    (halters : m.Alters options statement) (value : Node) :
    (bench.storeDefault statement value).Ensures (Makes m options bench []) := by
  have hregistered : Makes m options bench []
      ((bench.fresh defaultName).2.register (bench.fresh defaultName).1 .var) :=
    .of_draft_eq h rfl rfl rfl (Scope.looser_register _ _ _)
  refine .bind (addExport_makes hregistered.underway _ _) fun entered hentered => ?_
  have hentered := hregistered.trans hentered
  refine .lift_bind fun code _ => .lift fun next hnext => ?_
  exact hentered.trans (replaceNode_makes hentered.underway halters hnext)

theorem openDefaultName_makes (h : Underway m options bench) {statement : Node}
    (halters : m.Alters options statement) (target : Node) :
    (bench.openDefaultName statement target).Ensures (Makes m options bench []) := by
  rw [openDefaultName]
  refine .lift_bind fun name _ => ?_
  extract_lets keepName
  have hkeep : ∀ next, Makes m options bench [] next →
      (keepName next).Ensures (Makes m options bench []) := by
    intro next hnext
    have hstore := (storeDefault_makes hnext.underway halters target).mono
      fun last hlast => hnext.trans hlast
    unfold keepName
    split
    · split
      · exact hstore
      · refine .bind (addExport_makes hnext.underway defaultName name) fun entered hentered => ?_
        refine .lift fun last hlast => hnext.trans (hentered.trans ?_)
        exact replaceNode_makes hentered.underway halters hlast
    · exact hstore
  split
  · rename_i hpermits
    exact .bind (weaken_makes h (h.options ▸ hpermits) name) hkeep
  · exact .bind (.pure (.refl h)) hkeep

/-! ### Export statements -/

section

variable {statement : Node}

theorem hoisted?_eq (hown : statement.IsOwnExport) {target : Node}
    (htarget : statement.exportTarget? = some target) : statement.hoisted? =
      if (target.kind.isFunctionDeclaration ||
        statement.isDefaultExport && target.kind.isFunctionExpression) = true
      then some target else none := by
  rw [Node.hoisted?, if_pos hown, htarget, Option.filter]

theorem openDefaultExport_makes (h : Underway m options bench)
    (hstatement : statement ∈ m.root.namedChildren) (hown : statement.IsOwnExport)
    (hdefault : statement.isDefaultExport = true) :
    (bench.openDefaultExport statement).Ensures
      (Makes m options bench statement.hoisted?.toList) := by
  have htarget : statement.exportTarget? =
      (statement.child? .declaration).or (statement.child? .value) := if_pos hdefault
  have halters : m.Alters options statement := .statement hstatement hown (.inl hdefault)
  rw [openDefaultExport, ← htarget]
  split
  · rename_i hnone
    rw [Node.hoisted?, if_pos hown, hnone]
    exact .pure (.refl h)
  · rename_i target htarget
    rw [hoisted?_eq hown htarget, hdefault, Bool.true_and]
    split
    · rename_i hkind
      rw [hkind]
      exact openDefaultName_makes h halters target
    · split
      · exact hoistFunction_makes h halters target defaultName
      · split
        · exact inlineClass_makes h halters target defaultName
        · exact storeDefault_makes h halters target

theorem openVariables_makes (h : Underway m options bench) (declaration : Node) :
    (bench.openVariables declaration).Ensures (Makes m options bench []) := by
  refine .lift_bind fun names _ => ?_
  split
  · split
    · rename_i hpermits
      refine .bind (weakenAll_makes h (h.options ▸ hpermits) names) fun next hnext => ?_
      exact (addExports_makes hnext.underway names).mono fun last hlast => hnext.trans hlast
    · exact .note_bind (.pure (.refl h))
  · exact addExports_makes h names

theorem openDeclaration_makes (h : Underway m options bench)
    (hstatement : statement ∈ m.root.namedChildren) (hown : statement.IsOwnExport)
    (hdefault : statement.isDefaultExport = false) {declaration : Node}
    (hchild : statement.child? .declaration = some declaration) :
    (bench.openDeclaration statement declaration).Ensures
      (Makes m options bench statement.hoisted?.toList) := by
  have htarget : statement.exportTarget? = some declaration := by
    rw [Node.exportTarget?, hdefault]
    exact hchild
  have halters : (declaration.kind.isFunctionDeclaration || declaration.kind.isClass) = true →
      m.Alters options statement :=
    fun hkind => .statement hstatement hown (.inr ⟨declaration, hchild, hkind⟩)
  rw [openDeclaration, hoisted?_eq hown htarget, hdefault, Bool.false_and, Bool.or_false]
  split
  · rename_i hvariables
    have hnot : ¬ declaration.kind.isFunctionDeclaration = true := by
      cases hkind : declaration.kind <;>
        simp [hkind, Kind.isVariableDeclaration, Kind.isFunctionDeclaration] at hvariables ⊢
    rw [if_neg hnot]
    exact openVariables_makes h declaration
  · split
    · rename_i hfunction
      exact .lift_bind fun name _ =>
        hoistFunction_makes h (halters (by rw [hfunction, Bool.true_or])) declaration name
    · split
      · rename_i hclass
        exact .lift_bind fun name _ =>
          inlineClass_makes h (halters (by rw [hclass, Bool.or_true])) declaration name
      · exact .pure (.refl h)

/-- Opening one more specifier. -/
theorem openSpecifiers_concat {first last : Workbench} {earlier : List Node} {specifier : Node}
    (hfirst : (bench.openSpecifiers statement earlier).result = .ok first)
    (hlast : (first.openSpecifier statement specifier).result = .ok last) :
    (bench.openSpecifiers statement (earlier ++ [specifier])).result = .ok last := by
  induction earlier generalizing bench with
  | nil =>
    obtain rfl : bench = first := Except.ok.inj hfirst
    exact Traced.bind_ok.mpr ⟨last, hlast, rfl⟩
  | cons other rest ih =>
    obtain ⟨next, hnext, hfirst⟩ := Traced.bind_ok.mp hfirst
    exact Traced.bind_ok.mpr ⟨next, hnext, ih hfirst⟩

/-- Turning a specifier to a copy. -/
theorem copySpecifier_makes (copy : m.Copied options) (h : Underway m options copy.bench) :
    (copy.bench.copySpecifier copy.statement copy.specifier copy.localName copy.name).Ensures
      (Makes m options copy.bench []) := by
  have hregistered : Makes m options copy.bench []
      ((copy.bench.fresh copy.localName).2.register (copy.bench.fresh copy.localName).1 .var) :=
    .of_draft_eq h rfl rfl rfl (Scope.looser_register _ _ _)
  refine .lift_bind fun declared hdeclared => .lift_bind fun placed hplaced => ?_
  have hdeclared := hregistered.trans
    (.one hregistered.underway (.copy copy.statement copy.edit.text) ⟨copy, rfl, rfl⟩ hdeclared)
  have hplaced := hdeclared.trans
    (replaceNode_makes hdeclared.underway (.specifier copy rfl) hplaced)
  exact (addExport_makes hplaced.underway _ _).mono fun last hlast => hplaced.trans hlast

end

end Workbench

end

/-! ### Specifiers -/

/-- The work has come to an own export statement without declaration. -/
structure Module.Arrives (m : Module) (options : Options) (site : Nat) (statement : Node)
    (begun arrived : Workbench) : Prop where
  stands : m.root.namedChildren[site]? = some statement
  own : statement.IsOwnExport
  notDefault : statement.isDefaultExport = false
  bare : statement.child? .declaration = none
  starts : (Workbench.start options (Text.encode m.source) m.root).result = .ok begun
  visits : (begun.visitAll (m.root.namedChildren.take site)).result = .ok arrived

namespace Workbench

variable {m : Module} {options : Options} {bench : Workbench}

section

variable {statement specifier : Node} {site : Nat} {begun arrived : Workbench}
  {earlier later : List Node} (harrives : m.Arrives options site statement begun arrived)
include harrives

theorem openNamedSpecifier_makes (hopens :
      (arrived.openSpecifiers statement earlier).result = .ok bench)
    (hspecifiers : statement.exportSpecifiers = earlier ++ specifier :: later)
    {localName name : String} (hexports : specifier.Specifies (Text.encode m.source) localName name)
    (h : Underway m options bench) :
    (bench.openNamedSpecifier statement specifier localName name).Ensures
      (Makes m options bench []) := by
  rw [openNamedSpecifier]
  split
  · exact .note_bind (.pure (.refl h))
  · rename_i binding hb
    split
    · rename_i hweaken
      obtain ⟨hpermits, -⟩ := Bool.and_eq_true_iff.mp hweaken
      refine .bind (weaken_makes h (h.options ▸ hpermits) localName) fun next hnext => ?_
      exact (addExport_makes hnext.underway _ _).mono fun last hlast => hnext.trans hlast
    · rename_i hkept
      split
      · rename_i himmutable
        let copy : m.Copied options := {
          site, statement, earlier, specifier, later, localName, name, binding, begun, arrived,
          bench
          stands := harrives.stands
          own := harrives.own
          notDefault := harrives.notDefault
          bare := harrives.bare
          specifiers := hspecifiers
          exports := hexports
          starts := harrives.starts
          visits := harrives.visits
          opens := hopens
          bound := hb
          immutable := himmutable
          kept := by
            rw [← h.options]
            simpa using hkept }
        exact copySpecifier_makes copy h
      · exact addExport_makes h name localName

theorem openSpecifier_makes (hopens :
      (arrived.openSpecifiers statement earlier).result = .ok bench)
    (hspecifiers : statement.exportSpecifiers = earlier ++ specifier :: later)
    (h : Underway m options bench) :
    (bench.openSpecifier statement specifier).Ensures (Makes m options bench []) := by
  refine .lift_bind ?_
  rintro ⟨localNode, nameNode⟩ hparts
  show (if localNode.kind = .string ∨ nameNode.kind = .string then _ else _ :
    Traced Workbench).Ensures _
  split
  · exact .lift_bind fun text _ => .note_bind (.pure (.refl h))
  · rename_i hstring
    obtain ⟨hlocalKind, hnameKind⟩ := not_or.mp hstring
    refine .lift_bind fun localName hlocal => .lift_bind fun name hname => ?_
    rw [text, h.source] at hlocal hname
    exact openNamedSpecifier_makes harrives hopens hspecifiers
      ⟨localNode, nameNode, hparts, hlocalKind, hnameKind, hlocal, hname⟩ h

/-- Opening the specifiers that are left. -/
theorem openSpecifiers_makes (hopens :
      (arrived.openSpecifiers statement earlier).result = .ok bench)
    (hspecifiers : statement.exportSpecifiers = earlier ++ later) (h : Underway m options bench) :
    (bench.openSpecifiers statement later).Ensures (Makes m options bench []) := by
  induction later generalizing earlier bench with
  | nil => exact .pure (.refl h)
  | cons specifier rest ih =>
    intro last hlast
    obtain ⟨next, hnext, hlast⟩ := Traced.bind_ok.mp hlast
    have hmakes := openSpecifier_makes harrives hopens hspecifiers h next hnext
    have hrest : statement.exportSpecifiers = (earlier ++ [specifier]) ++ rest := by
      rw [hspecifiers, List.append_assoc, List.singleton_append]
    exact hmakes.trans
      (ih (openSpecifiers_concat hopens hnext) hrest hmakes.underway last hlast)

end

/-! ### Statements -/

section

variable {statement : Node} {binding : ImportBinding}

/-- An alias is put in its place. -/
theorem placeAlias_place {localName : String} {next : Workbench}
    (h : bench.placeAlias binding localName = .ok next) :
    ∃ text, bench.replaceNode binding.place text = .ok next := by
  rw [placeAlias] at h
  rw [ImportBinding.place]
  split at h
  · rename_i hcase
    obtain ⟨specifier, -, h⟩ := bind_eq_ok.mp h
    rw [if_pos hcase]
    exact ⟨_, h⟩
  · rename_i hcase
    rw [if_neg hcase]
    exact ⟨_, h⟩

theorem interceptBinding_makes (h : Underway m options bench)
    (hstatement : statement ∈ m.root.namedChildren) (hkind : statement.kind = .importStatement)
    (hbinding : binding ∈ statement.importBindings) :
    (bench.interceptBinding binding).Ensures fun taken => Makes m options bench [] taken.1 := by
  refine .lift_bind fun name hname => ?_
  rw [text, h.source] at hname
  split
  · exact .note_bind (.pure (.refl h))
  · rename_i hoverride
    have hregistered : Makes m options bench []
        ((bench.fresh name).2.register (bench.fresh name).1 .module) :=
      .of_draft_eq h rfl rfl rfl (Scope.looser_register _ _ _)
    refine .lift_bind fun placed hplaced => ?_
    obtain ⟨text, hplaced⟩ := placeAlias_place hplaced
    have halters : m.Alters options binding.place :=
      .imported hstatement hkind hbinding hname (by simpa using hoverride) rfl
    have hplaced := hregistered.trans (replaceNode_makes hregistered.underway halters hplaced)
    have hentered : (placed.addImport name (bench.fresh name).1).Ensures
        (Makes m options bench []) :=
      .note_bind (.pure (hplaced.trans (.of_draft_eq hplaced.underway rfl rfl rfl (.refl _))))
    exact .bind hentered fun next hnext => .pure hnext

theorem interceptAll_makes (h : Underway m options bench)
    (hstatement : statement ∈ m.root.namedChildren) (hkind : statement.kind = .importStatement)
    {bindings : List ImportBinding} (hbindings : ∀ b ∈ bindings, b ∈ statement.importBindings) :
    (bench.interceptAll bindings).Ensures fun taken => Makes m options bench [] taken.1 := by
  induction bindings generalizing bench with
  | nil => exact .pure (.refl h)
  | cons binding rest ih =>
    refine .bind (interceptBinding_makes h hstatement hkind
      (hbindings binding (List.mem_cons_self ..))) ?_
    rintro ⟨next, entry⟩ hnext
    refine .bind (ih hnext.underway fun b hb => hbindings b (List.mem_cons_of_mem _ hb)) ?_
    rintro ⟨last, entries⟩ hlast
    exact .pure (hnext.trans hlast)

theorem openImport_makes (h : Underway m options bench)
    (hstatement : statement ∈ m.root.namedChildren) (hkind : statement.kind = .importStatement) :
    (bench.openImport statement).Ensures (Makes m options bench []) := by
  refine .bind (interceptAll_makes h hstatement hkind fun _ hb => hb) ?_
  rintro ⟨taken, entries⟩ htaken
  show (if entries.isEmpty then _ else _ : Traced Workbench).Ensures _
  split
  · exact .pure htaken
  · exact .lift fun next hnext => htaken.trans
      (.one htaken.underway (.redeclare statement _) ⟨hstatement, hkind⟩ hnext)

section

variable {site : Nat} {begun : Workbench}
  (hstands : m.root.namedChildren[site]? = some statement)
  (hstarts : (Workbench.start options (Text.encode m.source) m.root).result = .ok begun)
  (hvisits : (begun.visitAll (m.root.namedChildren.take site)).result = .ok bench)
  (h : Underway m options bench)
include hstands hstarts hvisits h

theorem openExport_makes (hkind : statement.kind = .exportStatement) :
    (bench.openExport statement).Ensures (Makes m options bench statement.hoisted?.toList) := by
  have hstatement := List.mem_of_getElem? hstands
  rw [openExport]
  split
  · rename_i hforeign
    have hnotOwn : ¬ statement.IsOwnExport := fun hown => by simp [hown.source] at hforeign
    rw [Node.hoisted?, if_neg hnotOwn]
    exact .note_bind (.pure (.refl h))
  · rename_i hown
    have hown : statement.IsOwnExport := ⟨hkind, by simpa using hown⟩
    split
    · rename_i hdefault
      exact openDefaultExport_makes h hstatement hown hdefault
    · rename_i hdefault
      rw [Bool.not_eq_true] at hdefault
      split
      · rename_i declaration hchild
        exact openDeclaration_makes h hstatement hown hdefault hchild
      · rename_i hchild
        have hnone : statement.hoisted? = none := by
          rw [Node.hoisted?, if_pos hown, Node.exportTarget?, hdefault]
          simp [hchild]
        rw [openClause_eq, hnone]
        exact openSpecifiers_makes ⟨hstands, hown, hdefault, hchild, hstarts, hvisits⟩ rfl
          (List.nil_append _).symm h

/-- **Working on a statement** makes permitted changes, and defines the function that the statement
exports, if it exports one. -/
theorem visit_makes :
    (bench.visit statement).Ensures (Makes m options bench statement.hoisted?.toList) := by
  have hnone : statement.kind ≠ .exportStatement → statement.hoisted? = none :=
    fun hkind => if_neg fun hown => hkind hown.kind
  rw [visit]
  split
  · rename_i hkind
    rw [hnone (by simp [hkind])]
    exact openImport_makes h (List.mem_of_getElem? hstands) hkind
  · rename_i hkind
    exact openExport_makes hstands hstarts hvisits h hkind
  · rename_i hkind
    rw [hnone hkind]
    exact .pure (.refl h)

end

/-- **Working on statements in turn** makes permitted changes, and defines the functions that they
export, in their order. -/
theorem visitAll_makes {begun : Workbench}
    (hstarts : (Workbench.start options (Text.encode m.source) m.root).result = .ok begun)
    (h : Underway m options begun) (count : Nat) :
    (begun.visitAll (m.root.namedChildren.take count)).Ensures
      (Makes m options begun ((m.root.namedChildren.take count).filterMap Node.hoisted?)) := by
  induction count with
  | zero => exact .pure (.refl h)
  | succ count ih =>
    cases hstands : m.root.namedChildren[count]? with
    | none =>
      have hlength := List.getElem?_eq_none_iff.mp hstands
      rw [List.take_of_length_le (by omega)]
      rwa [List.take_of_length_le hlength] at ih
    | some statement =>
      intro last hlast
      obtain ⟨next, hnext, hlast⟩ := (visitAll_take_succ hstands).mp hlast
      have hmakes := ih next hnext
      rw [List.take_add_one, hstands, List.filterMap_append]
      have hlast := visit_makes hstands hstarts hnext hmakes.underway last hlast
      have hone : (some statement).toList.filterMap Node.hoisted? = statement.hoisted?.toList := by
        cases hhoisted : statement.hoisted? <;> simp [hhoisted]
      rw [hone]
      exact hmakes.trans hlast

end

end Workbench

/-! ### Opened modules -/

theorem Workbench.start_underway (m : Module) (options : Options) :
    (Workbench.start options (Text.encode m.source) m.root).Ensures (Underway m options) := by
  intro begun hstart
  have hbegun := start_ensures m options begun hstart
  obtain ⟨hoptions, hhashbang, -⟩ := start_frame options _ _ begun hstart
  refine ⟨hbegun.source, hhashbang, hoptions, fun name binding d hb hconst hd => ?_⟩
  obtain ⟨other, hother, hisConst, -⟩ := hbegun.constant hb hconst
  obtain rfl := Option.some.inj (hd.symm.trans hother)
  exact hisConst

/-- What is put ahead at the top. -/
theorem Workbench.prepend_call {m : Module} {bench next : Workbench} {code : String}
    (hhashbang : bench.hashbangEnd = m.root.hashbangEnd) (h : bench.prepend code = .ok next) :
    bench.draft.call (.prepend m.top (m.onTop code)) = .ok next.draft := by
  obtain ⟨draft, hdraft, rfl⟩ := edit_eq h
  rw [hhashbang] at hdraft
  rw [Draft.call, Module.onTop, Module.top]
  cases hstop : m.root.hashbangEnd with
  | none => simpa [hstop] using hdraft
  | some stop => simpa [hstop] using hdraft

namespace Module

variable {m : Module} {options : Options} {opening : Opening}

/-- **The calls for edits that lead to the code of an opened module**: permitted changes that define
all exported functions in their order, and if functions are added, one call for the handler table
and one for the rest. -/
theorem exists_changes (h : (m.transform options).outcome = .opened opening) :
    ∃ (changes : List Change) (added : List Draft.Call) (last : Workbench),
      (m.work options).result = .ok (opening.overrides, last) ∧
      (∀ change ∈ changes, m.Permits options change) ∧
      changes.filterMap Change.hoisted? = m.root.namedChildren.filterMap Node.hoisted? ∧
      (⟨Text.encode m.source, []⟩ : Draft).callAll (changes.map (Change.call m.top) ++ added) =
        .ok last.draft ∧
      last.draft.renderBytes = .ok (Text.encode opening.code) ∧
      (opening.overrides = {} ∧ added = [] ∨
        ∃ run : m.Run options, run.plan.overrides = opening.overrides ∧
          added = [.prepend m.top (m.onTop run.planned.runtime.tableCode),
            .append (run.plan.code run.planned.runtime)]) := by
  obtain ⟨begun, visited, last, hstart, hvisit, hadd, hcode⟩ := exists_course h
  have hbegun := Workbench.start_underway m options begun hstart
  obtain ⟨-, -, hdraft⟩ := Workbench.start_frame options _ _ begun hstart
  have hmakes := Workbench.visitAll_makes hstart hbegun m.root.namedChildren.length visited
    (by rwa [List.take_length])
  obtain ⟨changes, hpermits, hhoisted, hcalls⟩ := hmakes.changes
  rw [List.take_length] at hhoisted
  rw [hdraft] at hcalls
  have hrender : last.draft.renderBytes = .ok (Text.encode opening.code) := by
    obtain ⟨-, -, added, heq, -⟩ := Workbench.addOverrides_frame hadd
    refine Workbench.finalCode_renders hcode ?_
    rw [heq]
    exact hmakes.underway.source
  have hwork : (m.work options).result = .ok (opening.overrides, last) :=
    Traced.bind_ok.mpr ⟨begun, hstart, Traced.bind_ok.mpr ⟨visited, hvisit, hadd⟩⟩
  rcases Workbench.addOverrides_ok hadd with
    ⟨-, hnone, rfl⟩ | ⟨plan, planned, topped, hplan, heq, htop, hend⟩
  · exact ⟨changes, [], last, hwork, hpermits, hhoisted, by rwa [List.append_nil], hrender,
      .inl ⟨hnone, rfl⟩⟩
  · obtain ⟨deeds, hsteps⟩ := Workbench.visitAll_walks hbegun.source (fun _ hs => hs) visited hvisit
    obtain ⟨-, hhashbang, hplanned⟩ := Workbench.planOverrides_frame visited _ hplan
    refine ⟨changes, _, last, hwork, hpermits, hhoisted, ?_, hrender,
      .inr ⟨⟨begun, deeds, visited, plan, planned, hstart, hvisit, hsteps, hplan⟩, heq, rfl⟩⟩
    have htop' := Workbench.prepend_call (hhashbang.trans hmakes.underway.hashbangEnd) htop
    rw [hplanned] at htop'
    refine Draft.callAll_append.mpr ⟨visited.draft, hcalls, ?_⟩
    have hruntime : topped.runtime = planned.runtime := by
      obtain ⟨_, _, rfl⟩ := Workbench.edit_eq htop
      rfl
    obtain ⟨draft, hdraft, rfl⟩ := Workbench.edit_eq hend
    rw [hruntime] at hdraft
    exact bind_eq_ok.mpr ⟨topped.draft, htop', Draft.callAll_singleton.mpr hdraft⟩

end Module

end Seams
