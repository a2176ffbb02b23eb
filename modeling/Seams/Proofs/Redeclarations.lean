import Seams.Proofs.Frame

/-!
# Imports that are declared anew

What a module imports is there before any of its code runs. In an opened module an imported name is
that of a variable, which is declared right behind the import statement. Import statements may stand
anywhere, so a statement that comes before one of them runs when the variable has no value yet.
Whether a statement finds an imported name declared is told by the order of the two statements,
whatever else is inserted, moved or replaced around them.

## Main definitions

* `Draft.Ahead` — the text of an edit stands before all that is in the place of a node
* `Module.Redeclaration` — an imported name is declared anew
* `Module.Redeclared` — where this happens

## Main results

* `Draft.ahead_iff` — a text is ahead of the nodes that begin where it is put, or later
* `Module.opened_redeclared` — a name is declared ahead of the statements behind its import
* `Module.late_runs_early` — a statement may come before the declaration of a name that it uses
-/

namespace Seams

/-! ### Texts ahead of a node -/

/-- A piece stands in the place of a node, or of a part of it. -/
def Piece.Meets (piece : Piece) (node : Node) : Prop :=
  piece.start < node.stop ∧ node.start < piece.stop

namespace Draft

variable {draft : Draft} {edit : Edit} {node : Node}

/-- The text of an edit stands before all that is in the place of a node. -/
def Ahead (draft : Draft) (edit : Edit) (node : Node) : Prop :=
  ∃ front back, draft.pieces = front ++ .made edit :: back ∧ ∀ piece ∈ front, ¬ piece.Meets node

/-- **A text is ahead of a node** exactly if it is put where the node begins, or earlier. -/
theorem ahead_iff {size : Nat} (hchain : Piece.Chain 0 size draft.pieces)
    (hedit : edit ∈ draft.edits) (hne : node.start < node.stop) :
    draft.Ahead edit node ↔ edit.start ≤ node.start := by
  constructor
  · rintro ⟨front, back, hpieces, hfront⟩
    rw [hpieces] at hchain
    obtain ⟨_, hchain, rfl, -⟩ := Piece.chain_append.mp hchain
    by_contra hlt
    -- The first byte of the node is in front of the text, in some piece.
    obtain ⟨piece, hpiece, hstart, hstop⟩ :=
      hchain.exists_covering (Nat.zero_le _) (Nat.not_le.mp hlt)
    exact hfront piece hpiece ⟨Nat.lt_of_le_of_lt hstart hne, hstop⟩
  · intro hle
    have hmade : Piece.made edit ∈ draft.pieces :=
      made_mem_piecesFrom.mpr (List.mem_mergeSort.mpr hedit)
    obtain ⟨front, back, hpieces⟩ := List.append_of_mem hmade
    rw [hpieces] at hchain
    obtain ⟨_, hchain, rfl, -⟩ := Piece.chain_append.mp hchain
    refine ⟨front, back, hpieces, fun piece hpiece hmeets => ?_⟩
    exact absurd hmeets.2 (Nat.not_lt.mpr (Nat.le_trans (hchain.bounds hpiece).2.2 hle))

end Draft

/-! ### Names that are declared anew -/

/-- An import statement introduces a name that is not one of an override function. -/
structure Node.Imports (source : List UInt8) (statement : Node) (name : String) : Prop where
  kind : statement.kind = .importStatement
  introduces : statement.Introduces source name
  notOverride : isOverrideName name = false

namespace Workbench

variable {m : Module} {bench : Workbench} {statement : Node}

/-- An import is taken in under the name that it has in the module. -/
theorem interceptBinding_name (bench : Workbench) (binding : ImportBinding) :
    (bench.interceptBinding binding).Ensures fun taken => ∀ entry ∈ taken.2,
      bench.text binding.localName = .ok entry.name ∧ isOverrideName entry.name = false := by
  refine .lift_bind fun name hname => ?_
  split
  · exact .note_bind (.pure nofun)
  · rename_i hoverride
    refine .lift_bind fun placed _ => .bind (P := fun _ => True) (fun _ _ => trivial) fun _ _ =>
      .pure fun entry hentry => ?_
    obtain rfl := Option.some.inj hentry
    exact ⟨hname, by simpa using hoverride⟩

/-- Only names that the statement imports are taken in. -/
theorem interceptAll_imports (hsource : bench.draft.source = Text.encode m.source)
    (hstatement : statement ∈ m.root.namedChildren) (hkind : statement.kind = .importStatement)
    {bindings : List ImportBinding} (hbindings : ∀ b ∈ bindings, b ∈ statement.importBindings) :
    (bench.interceptAll bindings).Ensures fun taken =>
      ∀ entry ∈ taken.2, statement.Imports (Text.encode m.source) entry.name := by
  induction bindings generalizing bench with
  | nil => exact .pure nofun
  | cons binding rest ih =>
    have hbinding := hbindings binding (List.mem_cons_self ..)
    intro taken htaken
    obtain ⟨⟨next, found⟩, hfirst, htaken⟩ := Traced.bind_ok.mp htaken
    obtain ⟨⟨last, entries⟩, hlast, htaken⟩ := Traced.bind_ok.mp htaken
    obtain rfl : (last, found.toList ++ entries) = taken := Except.ok.inj htaken
    have hperforms := interceptBinding_performs hsource hstatement hkind hbinding _ hfirst
    intro entry hentry
    rcases List.mem_append.mp hentry with hentry | hentry
    · obtain ⟨hname, hoverride⟩ := interceptBinding_name bench binding _ hfirst entry
        (Option.mem_toList.mp hentry)
      rw [text, hsource] at hname
      exact ⟨hkind, (Node.introduces_import_iff hkind).mpr ⟨binding, hbinding, hname⟩, hoverride⟩
    · exact ih (hperforms.works.source.trans hsource)
        (fun b hb => hbindings b (List.mem_cons_of_mem _ hb)) (last, entries) hlast entry hentry

end Workbench

namespace Module

variable {m : Module} {options : Options}

/-- An edit declares a name anew behind an import statement. -/
structure Redeclaration (m : Module) (begun : Workbench) where
  /-- The place of the statement in the module. -/
  site : Nat
  statement : Node
  name : String
  edit : Edit
  stands : m.root.namedChildren[site]? = some statement
  kind : statement.kind = .importStatement
  redeclares : m.Redeclares begun site name edit

/-- No statement stands in front of an import statement whose names are declared anew, unless it is
an import statement, too. -/
def ImportsFirst (m : Module) : Prop :=
  ∀ (site : Nat) (statement : Node) (name : String), m.root.namedChildren[site]? = some statement →
    statement.Imports (Text.encode m.source) name →
    ∀ (place : Nat) (other : Node), m.root.namedChildren[place]? = some other →
      other.kind ≠ .importStatement → other.start < other.stop → site < place

/-- Where imported names are declared anew in the code of an opened module. -/
structure Redeclared (m : Module) (begun last : Workbench) : Prop where
  /-- Each imported name is declared anew, -/
  declared : ∀ (site : Nat) (statement : Node) (name : String),
    m.root.namedChildren[site]? = some statement → statement.Imports (Text.encode m.source) name →
    ∃ redeclaration : m.Redeclaration begun,
      redeclaration.site = site ∧ redeclaration.name = name
  /-- and so is nothing else. -/
  imports : ∀ redeclaration : m.Redeclaration begun,
    redeclaration.statement.Imports (Text.encode m.source) redeclaration.name
  made : ∀ redeclaration : m.Redeclaration begun, redeclaration.edit ∈ last.draft.edits
  /-- This is ahead of another statement exactly if the import statement comes first. -/
  ahead_iff : ∀ (redeclaration : m.Redeclaration begun) (place : Nat) (other : Node),
    m.root.namedChildren[place]? = some other → place ≠ redeclaration.site →
    other.start < other.stop →
    (last.draft.Ahead redeclaration.edit other ↔ redeclaration.site < place)
  /-- So it is ahead of all statements but imports exactly if imports come first. -/
  all_ahead_iff : (∀ (redeclaration : m.Redeclaration begun) (place : Nat) (other : Node),
    m.root.namedChildren[place]? = some other → other.kind ≠ .importStatement →
    other.start < other.stop → last.draft.Ahead redeclaration.edit other) ↔ m.ImportsFirst

namespace Redeclaration

variable {begun visited last : Workbench} {overrides : Overrides}
  (redeclaration : m.Redeclaration begun)

theorem imports (hsource : begun.draft.source = Text.encode m.source) :
    redeclaration.statement.Imports (Text.encode m.source) redeclaration.name := by
  obtain ⟨_, before, taken, entries, hsite, hbefore, htaken, ⟨entry, hentry, hname⟩, -⟩ :=
    redeclaration.redeclares
  obtain rfl := Option.some.inj (redeclaration.stands.symm.trans hsite)
  have hworks := Workbench.visitAll_works hsource (fun _ hs => List.mem_of_mem_take hs) _ hbefore
  rw [← hname]
  exact Workbench.interceptAll_imports (hworks.source.trans hsource) (List.mem_of_getElem? hsite)
    redeclaration.kind (fun _ h => h) _ htaken entry hentry

section

variable (hsource : begun.draft.source = Text.encode m.source)
  (hvisit : (begun.visitAll m.root.namedChildren).result = .ok visited)
  (hadd : visited.addOverrides.result = .ok (overrides, last))
include hsource hvisit hadd

theorem inserted : redeclaration.edit ∈ last.draft.edits ∧
    redeclaration.edit.start = redeclaration.statement.stop := by
  have hstands := redeclaration.stands
  obtain ⟨before, hbefore⟩ := Workbench.visitAll_front ⟨_, List.take_append_drop _ _⟩ hvisit
  obtain ⟨next, hnext⟩ := Workbench.visitAll_front ⟨_, List.take_append_drop _ _⟩ hvisit
  obtain ⟨hmem, hstart, -⟩ := redeclaration.redeclares.inserted hsource hstands redeclaration.kind
    hnext hbefore
  exact ⟨Workbench.edits_subset hsource hvisit hadd hnext hmem, hstart⟩

variable (hordered : Node.InOrder m.root.start m.root.stop m.root.children) {size : Nat}
  (hchain : Piece.Chain 0 size last.draft.pieces)
include hordered hchain

/-- **A name is declared ahead of another statement** exactly if the import statement comes
first. -/
theorem ahead_iff {place : Nat} {other : Node}
    (hplace : m.root.namedChildren[place]? = some other) (hother : place ≠ redeclaration.site)
    (hne : other.start < other.stop) :
    last.draft.Ahead redeclaration.edit other ↔ redeclaration.site < place := by
  obtain ⟨hmem, hstart⟩ := redeclaration.inserted hsource hvisit hadd
  have hstands := redeclaration.stands
  rw [Draft.ahead_iff hchain hmem hne, hstart]
  constructor
  · intro hle
    by_contra hlt
    have := hordered.stop_le_start hplace hstands (by omega)
    have := hordered.bounds
      (Node.mem_children_of_mem_namedChildren (List.mem_of_getElem? hstands))
    omega
  · exact hordered.stop_le_start hstands hplace

end

end Redeclaration

/-! ### Opened modules -/

section

variable {begun visited last : Workbench} {overrides : Overrides}
  (hsource : begun.draft.source = Text.encode m.source)
  (hvisit : (begun.visitAll m.root.namedChildren).result = .ok visited)
include hsource hvisit

theorem exists_redeclaration {site : Nat} {statement : Node} {name : String}
    (hstands : m.root.namedChildren[site]? = some statement)
    (himports : statement.Imports (Text.encode m.source) name) :
    ∃ redeclaration : m.Redeclaration begun,
      redeclaration.site = site ∧ redeclaration.name = name := by
  obtain ⟨next, hnext⟩ := Workbench.visitAll_front ⟨_, List.take_append_drop (site + 1) _⟩ hvisit
  obtain ⟨edit, hredeclares⟩ := exists_redeclares hsource hstands himports.kind hnext
    himports.introduces himports.notOverride
  exact ⟨⟨site, statement, name, edit, hstands, himports.kind, hredeclares⟩, rfl, rfl⟩

/-- Imported names are declared anew behind their import statements. -/
theorem redeclared (hadd : visited.addOverrides.result = .ok (overrides, last))
    (hordered : Node.InOrder m.root.start m.root.stop m.root.children) {size : Nat}
    (hchain : Piece.Chain 0 size last.draft.pieces) : m.Redeclared begun last where
  declared _ _ _ := exists_redeclaration hsource hvisit
  imports redeclaration := redeclaration.imports hsource
  made redeclaration := (redeclaration.inserted hsource hvisit hadd).1
  ahead_iff redeclaration _ _ := redeclaration.ahead_iff hsource hvisit hadd hordered hchain
  all_ahead_iff := by
    -- What is no import statement stands elsewhere.
    have hother : ∀ (redeclaration : m.Redeclaration begun) {place : Nat} {other : Node},
        m.root.namedChildren[place]? = some other → other.kind ≠ .importStatement →
        place ≠ redeclaration.site := by
      rintro redeclaration _ other hplace hkind rfl
      obtain rfl := Option.some.inj (redeclaration.stands.symm.trans hplace)
      exact hkind redeclaration.kind
    constructor
    · intro hall site statement name hstands himports place other hplace hkind hne
      obtain ⟨redeclaration, rfl, -⟩ := exists_redeclaration hsource hvisit hstands himports
      have hahead := hall redeclaration place other hplace hkind hne
      exact (redeclaration.ahead_iff hsource hvisit hadd hordered hchain hplace
        (hother redeclaration hplace hkind) hne).mp hahead
    · intro hfirst redeclaration place other hplace hkind hne
      have hlt := hfirst _ _ _ redeclaration.stands (redeclaration.imports hsource) place other
        hplace hkind hne
      exact (redeclaration.ahead_iff hsource hvisit hadd hordered hchain hplace
        (hother redeclaration hplace hkind) hne).mpr hlt

end

/-- The course of a module that is opened, and the pieces of its code. -/
theorem exists_pieces {opening : Opening}
    (hopened : (m.transform options).outcome = .opened opening) :
    ∃ begun visited last, (m.work options).result = .ok (opening.overrides, last) ∧
      (Workbench.start options (Text.encode m.source) m.root).result = .ok begun ∧
      (begun.visitAll m.root.namedChildren).result = .ok visited ∧
      visited.addOverrides.result = .ok (opening.overrides, last) ∧
      Text.encode opening.code =
        last.draft.pieces.flatMap (Piece.bytes (Text.encode m.source)) ∧
      Piece.Chain 0 (Text.encode m.source).length last.draft.pieces := by
  obtain ⟨last, hwork, hsource, hrender, hedits⟩ := exists_touches hopened
  have hcode := Draft.renderBytes_eq hrender
  have hchain := Draft.chain_pieces hrender fun edit hedit => (hedits edit hedit).2
  rw [hsource] at hcode hchain
  obtain ⟨begun, hstart, hrest⟩ := Traced.bind_ok.mp hwork
  obtain ⟨visited, hvisit, hadd⟩ := Traced.bind_ok.mp hrest
  exact ⟨begun, visited, last, hwork, hstart, hvisit, hadd, hcode, hchain⟩

/-- **Imported names are declared ahead of the statements that stand behind their import.** A module
is opened in which statements follow each other. Each imported name is declared anew in its code,
and another statement finds it declared exactly if the import statement comes first. So all
statements do exactly if imports come first in the module. -/
theorem opened_redeclared {opening : Opening}
    (hordered : Node.InOrder m.root.start m.root.stop m.root.children)
    (hopened : (m.transform options).outcome = .opened opening) :
    ∃ begun last, (m.work options).result = .ok (opening.overrides, last) ∧
      (Workbench.start options (Text.encode m.source) m.root).result = .ok begun ∧
      Text.encode opening.code =
        last.draft.pieces.flatMap (Piece.bytes (Text.encode m.source)) ∧
      m.Redeclared begun last := by
  obtain ⟨begun, visited, last, hwork, hstart, hvisit, hadd, hcode, hchain⟩ :=
    exists_pieces hopened
  have hsource := (Workbench.start_ensures m options begun hstart).source
  exact ⟨begun, last, hwork, hstart, hcode, redeclared hsource hvisit hadd hordered hchain⟩

/-! ### A statement that runs too early -/

/-- A module that calls a function before it imports it. -/
def late : Module where
  source := "foo();\nimport foo from './dep';\n"
  root := { kind := .program, start := 0, stop := 32, children := [
    { kind := .other "expression_statement", start := 0, stop := 6, children := [
      { kind := .other "call_expression", start := 0, stop := 5, children := [
        { kind := .identifier, start := 0, stop := 3 },
        { kind := .other "arguments", start := 3, stop := 5 }] }] },
    { kind := .importStatement, start := 7, stop := 31, children := [
      { kind := .other "import", start := 7, stop := 13, named := false },
      { kind := .importClause, start := 14, stop := 17, children := [
        { kind := .identifier, start := 14, stop := 17 }] },
      { kind := .string, start := 23, stop := 30, role := some .source }] }] }

theorem late_imports : ∃ statement, late.root.namedChildren[1]? = some statement ∧
    statement.Imports (Text.encode late.source) "foo" ∧ ∃ binding ∈ statement.importBindings,
      binding.localName.text (Text.encode late.source) = .ok "foo" := by
  refine ⟨_, rfl, ⟨rfl, ?_, by decide⟩, by decide +kernel⟩
  rw [Node.Introduces]
  decide +kernel

theorem late_calls : ∃ call, late.root.namedChildren[0]? = some call ∧
    call.kind ≠ .importStatement ∧ call.start < call.stop :=
  ⟨_, rfl, by decide, by decide⟩

theorem late_wellFormed : late.WellFormed := by
  decide +kernel

theorem late_exportable : late.Exportable := by
  decide +kernel

theorem late_opened : ∃ opening, (late.transform {}).outcome = .opened opening := by
  obtain ⟨statement, hstands, himports, binding, hbinding, hname⟩ := late_imports
  obtain ⟨opening, hopened, -⟩ := opened_of_import late_wellFormed late_exportable
    (List.mem_of_getElem? hstands) himports.kind hbinding hname himports.notOverride
  exact ⟨opening, hopened⟩

/-- **A statement may run too early.** The module calls a function before it imports it, and in the
code of the opened module the call stands before the declaration of the function's name. -/
theorem late_runs_early : late.WellFormed ∧ ∃ (opening : Opening) (begun last : Workbench)
    (redeclaration : late.Redeclaration begun) (call : Node),
      (late.transform {}).outcome = .opened opening ∧
      (late.work {}).result = .ok (opening.overrides, last) ∧
      (Workbench.start {} (Text.encode late.source) late.root).result = .ok begun ∧
      redeclaration.name = "foo" ∧ redeclaration.edit ∈ last.draft.edits ∧
      late.root.namedChildren[0]? = some call ∧ call.kind ≠ .importStatement ∧
      call.start < call.stop ∧ ¬ last.draft.Ahead redeclaration.edit call := by
  obtain ⟨opening, hopened⟩ := late_opened
  obtain ⟨begun, visited, last, hwork, hstart, hvisit, hadd, -, hchain⟩ := exists_pieces hopened
  have hsource := (Workbench.start_ensures late {} begun hstart).source
  obtain ⟨statement, hstands, himports, -⟩ := late_imports
  obtain ⟨redeclaration, hsite, hname⟩ := exists_redeclaration hsource hvisit hstands himports
  have hordered := late_wellFormed.nested.children
  obtain ⟨call, hcall, hkind, hne⟩ := late_calls
  have hahead := redeclaration.ahead_iff hsource hvisit hadd hordered hchain hcall (by omega) hne
  exact ⟨late_wellFormed, opening, begun, last, redeclaration, call, hopened, hwork, hstart,
    hname, (redeclaration.inserted hsource hvisit hadd).1, hcall, hkind, hne,
    fun h => absurd (hahead.mp h) (by omega)⟩

/-- The module is opened, and its import is declared anew where the order of the statements says. -/
theorem opened_redeclared_late : Node.InOrder late.root.start late.root.stop late.root.children ∧
    ∃ opening, (late.transform {}).outcome = .opened opening ∧
      ∃ begun last, (late.work {}).result = .ok (opening.overrides, last) ∧
        (Workbench.start {} (Text.encode late.source) late.root).result = .ok begun ∧
        Text.encode opening.code =
          last.draft.pieces.flatMap (Piece.bytes (Text.encode late.source)) ∧
        late.Redeclared begun last := by
  have hordered := late_wellFormed.nested.children
  obtain ⟨opening, hopened⟩ := late_opened
  exact ⟨hordered, opening, hopened, opened_redeclared hordered hopened⟩

end Module

end Seams
