import Mathlib.Data.List.DropRight
import Seams.Opening.Exports
import Seams.Proofs.WellFormed
import Seams.Script.Char

/-!
# Code without its name

Where an exported function or class loses its name, blanks are trimmed on both sides of the cut.
Up to blanks nothing else is lost. But a line end is a blank, too, and one of them may be what ends
a line comment: it is kept only if something other than blanks follows it in front of the name.
Otherwise the comment swallows what follows, down to the end of its line.

To say where a character of the new code comes from, characters carry their offsets. A reader of
such characters knows where comments begin and skips them, line comments up to the end of the line.

## Main definitions

* `Text.Located`, `Text.between` — characters with their offsets, and those between two offsets
* `Node.unnamed` — the code of a node without its name
* `Node.ClosedIn`, `Node.ClosedAhead` — a line ends between a comment and the name in the new code,
  and a line that ends there in the module is not trimmed
* `readCode` — what is read from characters besides blanks and comments

## Main results

* `Node.closedIn_unnamed` — which line comments are closed in the new code
* `readCode_unnamed` — what is read from the new code
* `codeWithoutName_keeps` — the code of a node without its name, up to blanks, for each comment, and
  as it is read
* `codeWithoutName_swallows` — a line comment that swallows the parameters and the body
-/

namespace Seams

/-! ### Characters in their places -/

namespace Text

/-- A character of a text. -/
structure Located where
  char : Char
  /-- The offset of its first byte. -/
  offset : Nat
  deriving DecidableEq, Repr

/-- Characters in their places, from an offset on. -/
def locate (start : Nat) : List Char → List Located
  | [] => []
  | c :: rest => ⟨c, start⟩ :: locate (start + c.utf8Size) rest

/-- The characters of a text that begin between two offsets. -/
def between (text : String) (start stop : Nat) : List Located :=
  (locate 0 text.toList).filter fun located =>
    start ≤ located.offset && located.offset < stop

theorem map_char_locate (start : Nat) (chars : List Char) :
    (locate start chars).map Located.char = chars := by
  induction chars generalizing start with
  | nil => rfl
  | cons c rest ih => rw [locate, List.map_cons, ih]

theorem locate_append (start : Nat) (before after : List Char) :
    locate start (before ++ after) =
      locate start before ++ locate (start + (encodeChars before).length) after := by
  induction before generalizing start with
  | nil => rfl
  | cons c before ih =>
    rw [List.cons_append, locate, ih, locate, length_encodeChars_cons, Nat.add_assoc,
      List.cons_append]

theorem mem_locate {start : Nat} {chars : List Char} {located : Located}
    (h : located ∈ locate start chars) :
    start ≤ located.offset ∧ located.offset < start + (encodeChars chars).length := by
  induction chars generalizing start with
  | nil => cases h
  | cons c rest ih =>
    have hsize := length_encodeChars_cons c rest
    have := c.utf8Size_pos
    rcases List.mem_cons.mp h with rfl | h
    · exact ⟨Nat.le_refl _, by simp only; omega⟩
    · have := ih h
      omega

/-- Characters follow each other. -/
theorem locate_pairwise (start : Nat) (chars : List Char) :
    (locate start chars).Pairwise fun a b => a.offset < b.offset := by
  induction chars generalizing start with
  | nil => exact .nil
  | cons c rest ih =>
    refine .cons (fun located hlocated => ?_) (ih _)
    have := mem_locate hlocated
    have := c.utf8Size_pos
    simp only
    omega

theorem between_pairwise (text : String) (start stop : Nat) :
    (between text start stop).Pairwise fun a b => a.offset < b.offset :=
  (locate_pairwise 0 text.toList).filter _

theorem mem_between {text : String} {start stop : Nat} {located : Located} :
    located ∈ between text start stop ↔
      located ∈ locate 0 text.toList ∧ start ≤ located.offset ∧ located.offset < stop := by
  simp [between]

/-- Characters between two offsets stay if only those between them are wanted, -/
theorem filter_locate_inside {start stop first : Nat} {chars : List Char} (hfirst : start ≤ first)
    (hlast : first + (encodeChars chars).length ≤ stop) :
    ((locate first chars).filter fun located =>
      start ≤ located.offset && located.offset < stop) = locate first chars := by
  refine List.filter_eq_self.mpr fun located hlocated => ?_
  have := mem_locate hlocated
  simp only [Bool.and_eq_true, decide_eq_true_eq]
  omega

/-- and those in front of them or behind them go. -/
theorem filter_locate_outside {start stop first : Nat} {chars : List Char}
    (h : first + (encodeChars chars).length ≤ start ∨ stop ≤ first) :
    ((locate first chars).filter fun located =>
      start ≤ located.offset && located.offset < stop) = [] := by
  refine List.filter_eq_nil_iff.mpr fun located hlocated => ?_
  have := mem_locate hlocated
  simp only [Bool.and_eq_true, decide_eq_true_eq]
  omega

/-- The characters between two boundaries are those of a piece of the text. -/
theorem between_eq {text : String} {before piece after : List Char}
    (h : text.toList = before ++ (piece ++ after)) :
    between text (encodeChars before).length (encodeChars (before ++ piece)).length =
      locate (encodeChars before).length piece := by
  rw [between, h, locate_append, locate_append, List.filter_append, List.filter_append,
    Nat.zero_add, encodeChars_append, List.length_append,
    filter_locate_outside (.inl (Nat.le_of_eq (Nat.zero_add _))),
    filter_locate_inside (Nat.le_refl _) (Nat.le_refl _),
    filter_locate_outside (.inr (Nat.le_refl _)), List.nil_append, List.append_nil]

/-- What is read between two boundaries are the characters there. -/
theorem readText_between {text : String} {start stop : Nat} (hstart : IsBoundary text start)
    (hstop : IsBoundary text stop) (hle : start ≤ stop) :
    readText (slice (encode text) start stop) =
      .ok (String.ofList ((between text start stop).map Located.char)) := by
  obtain ⟨before, rest, hbefore, rfl⟩ := isBoundary_iff.mp hstart
  obtain ⟨upTo, after, hupTo, rfl⟩ := isBoundary_iff.mp hstop
  obtain ⟨piece, rfl⟩ := prefix_of_length_le hbefore hupTo hle
  rw [List.append_assoc] at hupTo
  have hbytes : encode text = encodeChars before ++ (encodeChars piece ++ encodeChars after) := by
    rw [show encode text = encodeChars text.toList from rfl, hupTo, encodeChars_append,
      encodeChars_append]
  rw [between_eq hupTo, map_char_locate, slice, hbytes, List.drop_left, encodeChars_append,
    List.length_append, Nat.add_sub_cancel_left, List.take_left, ← encode_ofList, readText_encode]

/-- The characters that end a line of a script; a carriage return is one of them. -/
def isLineEnd (c : Char) : Bool :=
  Script.endsLine c || c == '\r'

theorem isBlank_of_isLineEnd {c : Char} (h : isLineEnd c = true) : isBlank c = true := by
  simp only [isLineEnd, Script.endsLine, Bool.or_eq_true, beq_iff_eq] at h
  rcases h with ((rfl | h) | h) | rfl
  · decide
  · simp [isBlank, h]
  · simp [isBlank, h]
  · decide

/-- What is left of characters in a row once those of a kind are trimmed at their end: those of
another kind, and those that have one of another kind behind them. -/
theorem mem_rdropWhile {chars : List Located} {p : Located → Bool} {located : Located}
    (hsorted : chars.Pairwise fun a b => a.offset < b.offset) :
    located ∈ chars.rdropWhile p ↔ located ∈ chars ∧
      (p located = false ∨ ∃ other ∈ chars, located.offset < other.offset ∧ p other = false) := by
  induction chars using List.reverseRecOn with
  | nil => simp
  | append_singleton chars last ih =>
    obtain ⟨hchars, -, hlast⟩ := List.pairwise_append.mp hsorted
    have hlast : ∀ other ∈ chars, other.offset < last.offset := fun other hother =>
      hlast other hother last (List.mem_singleton_self _)
    cases htrimmed : p last with
    | true =>
      rw [List.rdropWhile_concat_pos p chars last htrimmed, ih hchars]
      constructor
      · rintro ⟨hlocated, hkept⟩
        refine ⟨List.mem_append_left _ hlocated, hkept.imp_right ?_⟩
        rintro ⟨other, hother, hbehind⟩
        exact ⟨other, List.mem_append_left _ hother, hbehind⟩
      · rintro ⟨hlocated, hkept⟩
        simp only [List.mem_append, List.mem_singleton] at hlocated hkept
        rcases hlocated with hlocated | rfl
        · refine ⟨hlocated, hkept.imp_right ?_⟩
          rintro ⟨other, hother | rfl, hbehind, hkept⟩
          · exact ⟨other, hother, hbehind, hkept⟩
          · simp [htrimmed] at hkept
        · rcases hkept with hkept | ⟨other, hother | rfl, hbehind, -⟩
          · simp [htrimmed] at hkept
          · exact absurd (hlast other hother) (Nat.lt_asymm hbehind)
          · exact absurd hbehind (Nat.lt_irrefl _)
    | false =>
      rw [List.rdropWhile_concat_neg p chars last (by simp [htrimmed])]
      refine ⟨fun hlocated => ⟨hlocated, ?_⟩, And.left⟩
      rcases List.mem_append.mp hlocated with hlocated | hlocated
      · exact .inr ⟨last, by simp, hlast located hlocated, htrimmed⟩
      · exact .inl (by rw [List.mem_singleton.mp hlocated, htrimmed])

end Text

/-! ### The code without the name -/

namespace Node

/-- Whether a character is trimmed around the name. -/
def trims (located : Text.Located) : Bool :=
  Text.isBlank located.char

/-- The characters of a node without its name: those in front of it without the blanks they end
with, a space in the place of the name, and those behind it without the blanks they begin with. -/
def unnamed (text : String) (node name : Node) : List Text.Located :=
  (Text.between text node.start name.start).rdropWhile trims ++
    ⟨' ', name.start⟩ :: (Text.between text name.stop node.stop).dropWhile trims

theorem trimEnd_located (chars : List Text.Located) :
    Text.trimEnd (String.ofList (chars.map Text.Located.char)) =
      String.ofList ((chars.rdropWhile trims).map Text.Located.char) := by
  rw [Text.trimEnd, String.toList_ofList, ← List.map_reverse, List.dropWhile_map,
    ← List.map_reverse]
  rfl

theorem trimStart_located (chars : List Text.Located) :
    Text.trimStart (String.ofList (chars.map Text.Located.char)) =
      String.ofList ((chars.dropWhile trims).map Text.Located.char) := by
  rw [Text.trimStart, String.toList_ofList, List.dropWhile_map]
  rfl

theorem filter_rdropWhile (chars : List Text.Located) :
    (chars.rdropWhile trims).filter (fun located => !trims located) =
      chars.filter fun located => !trims located := by
  have htrimmed : (chars.rtakeWhile trims).filter (fun located => !trims located) = [] :=
    List.filter_eq_nil_iff.mpr fun located hlocated => by simp [List.mem_rtakeWhile_imp hlocated]
  conv_rhs => rw [← List.rdropWhile_append_rtakeWhile (p := trims) (l := chars)]
  rw [List.filter_append, htrimmed, List.append_nil]

theorem filter_dropWhile (chars : List Text.Located) :
    (chars.dropWhile trims).filter (fun located => !trims located) =
      chars.filter fun located => !trims located := by
  have htrimmed : (chars.takeWhile trims).filter (fun located => !trims located) = [] :=
    List.filter_eq_nil_iff.mpr fun located hlocated => by simp [List.mem_takeWhile_imp hlocated]
  conv_rhs => rw [← List.takeWhile_append_dropWhile (p := trims) (l := chars)]
  rw [List.filter_append, htrimmed, List.nil_append]

/-- Up to blanks, the characters are those of the node with the name cut out. -/
theorem filter_unnamed (text : String) (node name : Node) :
    (node.unnamed text name).filter (fun located => !trims located) =
      (Text.between text node.start name.start ++ Text.between text name.stop node.stop).filter
        fun located => !trims located := by
  have hspace : trims ⟨' ', name.start⟩ = true := by
    simp [trims, Text.isBlank]
  rw [unnamed, List.filter_append, filter_rdropWhile, List.filter_cons_of_neg (by simp [hspace]),
    filter_dropWhile, List.filter_append]

section

variable {text : String} {node name : Node} (hnode : node.WellFormed text)
  (hname : node.child? .name = some name)
include hnode hname

/-- Cutting out the name succeeds, and yields these characters. -/
theorem codeWithoutName_eq : codeWithoutName (Text.encode text) node =
    .ok (String.ofList ((node.unnamed text name).map Text.Located.char)) := by
  have hmem := mem_subtree_of_child? hname
  have hwithin := hnode.within hmem
  have hhead := Text.readText_between hnode.fits.start (hnode name hmem).start hwithin.1
  have htail := Text.readText_between (hnode name hmem).stop hnode.fits.stop hwithin.2.2
  rw [codeWithoutName, hname]
  dsimp only
  rw [hhead, htail]
  refine congrArg Except.ok (String.toList_inj.mp ?_)
  rw [trimEnd_located, trimStart_located, unnamed]
  simp [toString]

end

/-! ### Line comments in front of the name -/

/-- The characters of a node. -/
def chars (text : String) (node : Node) : List Text.Located :=
  Text.between text node.start node.stop

/-- Whether a node is a comment that reaches up to the end of its line. -/
def isLineComment (text : String) (comment : Node) : Bool :=
  comment.kind == .comment &&
    ['/', '/'].isPrefixOf ((comment.chars text).map Text.Located.char) &&
    (comment.chars text).all fun located => !Text.isLineEnd located.char

/-- The comments below a node. -/
def comments (node : Node) : List Node :=
  (subtreeAll node.children).filter fun comment => comment.kind == .comment

theorem mem_subtree_of_mem_comments {node comment : Node} (h : comment ∈ node.comments) :
    comment ∈ node.subtree := by
  rw [subtree_eq]
  exact List.mem_cons_of_mem _ (List.mem_filter.mp h).1

/-- Among some characters, a line ends between a comment and the name. -/
def ClosedIn (chars : List Text.Located) (comment name : Node) : Prop :=
  ∃ located ∈ chars, Text.isLineEnd located.char ∧ comment.stop ≤ located.offset ∧
    located.offset < name.start

instance (chars : List Text.Located) (comment name : Node) :
    Decidable (ClosedIn chars comment name) :=
  inferInstanceAs (Decidable (∃ located ∈ chars, _ ∧ _))

/-- In the module, a line ends between a comment and the name, and something other than blanks
follows in front of the name. -/
def ClosedAhead (text : String) (comment name : Node) : Prop :=
  ∃ located ∈ Text.between text comment.stop name.start, Text.isLineEnd located.char ∧
    ∃ other ∈ Text.between text comment.stop name.start, located.offset < other.offset ∧
      Text.isBlank other.char = false

section

variable {text : String} {node name comment : Node} (hnode : node.WellFormed text)
  (hname : node.child? .name = some name)
include hnode hname

/-- What stands in front of the name in the code are the characters of the module there, trimmed at
their end. -/
theorem mem_unnamed {located : Text.Located} (hlt : located.offset < name.start) :
    located ∈ node.unnamed text name ↔
      located ∈ (Text.between text node.start name.start).rdropWhile trims := by
  have hwithin := hnode.within (mem_subtree_of_child? hname)
  rw [unnamed, List.mem_append, List.mem_cons]
  refine ⟨fun h => ?_, Or.inl⟩
  rcases h with h | rfl | h
  · exact h
  · exact absurd hlt (Nat.lt_irrefl _)
  · have := (Text.mem_between.mp ((List.dropWhile_sublist _).mem h)).2.1
    omega

/-- **Which line comments are closed.** Behind a comment in front of the name a line ends in the
code exactly if one ends there in the module and is not trimmed. -/
theorem closedIn_unnamed (hcomment : comment ∈ node.subtree) :
    ClosedIn (node.unnamed text name) comment name ↔ ClosedAhead text comment name := by
  have hstart := (hnode.within hcomment).1
  have hstop := (hnode.below hcomment).start_le_stop
  constructor
  · rintro ⟨located, hlocated, hends, hbehind, hlt⟩
    rw [mem_unnamed hnode hname hlt, Text.mem_rdropWhile (Text.between_pairwise ..)] at hlocated
    obtain ⟨hlocated, hkept | ⟨other, hother, hle, hkept⟩⟩ := hlocated
    · rw [trims, Text.isBlank_of_isLineEnd hends] at hkept
      cases hkept
    · rw [Text.mem_between] at hlocated hother
      exact ⟨located, Text.mem_between.mpr ⟨hlocated.1, hbehind, hlt⟩, hends, other,
        Text.mem_between.mpr ⟨hother.1, by omega, hother.2.2⟩, hle, hkept⟩
  · rintro ⟨located, hlocated, hends, other, hother, hlt, hkept⟩
    rw [Text.mem_between] at hlocated hother
    refine ⟨located, ?_, hends, hlocated.2⟩
    rw [mem_unnamed hnode hname hlocated.2.2, Text.mem_rdropWhile (Text.between_pairwise ..)]
    exact ⟨Text.mem_between.mpr ⟨hlocated.1, by omega, hlocated.2.2⟩, .inr ⟨other,
      Text.mem_between.mpr ⟨hother.1, by omega, hother.2.2⟩, hlt, hkept⟩⟩

end

end Node

/-! ### Reading the code -/

section

variable (text : String) (comments : List Node)

/-- Whether a line comment begins with a character. -/
def opensLine (located : Text.Located) : Bool :=
  comments.any fun comment =>
    comment.isLineComment text && (comment.chars text).head? == some located

/-- Whether a character stands in a comment. -/
def inComment (located : Text.Located) : Bool :=
  comments.any fun comment => (comment.chars text).contains located

/-- Whether the rest of the line belongs to a comment behind a character, if it does in front of the
character. -/
def swallows (swallowed : Bool) (located : Text.Located) : Bool :=
  swallowed && !Text.isLineEnd located.char || opensLine text comments located

/-- What is read from characters besides blanks and comments, given whether the line is part of a
comment to begin with. -/
def readCode : Bool → List Text.Located → List Char
  | _, [] => []
  | swallowed, located :: rest =>
    let swallowed := swallows text comments swallowed located
    if swallowed || Text.isBlank located.char || inComment text comments located then
      readCode swallowed rest
    else located.char :: readCode swallowed rest

theorem readCode_append (swallowed : Bool) (chars rest : List Text.Located) :
    readCode text comments swallowed (chars ++ rest) = readCode text comments swallowed chars ++
      readCode text comments (chars.foldl (swallows text comments) swallowed) rest := by
  induction chars generalizing swallowed with
  | nil => rfl
  | cons located chars ih =>
    rw [List.cons_append, readCode, readCode, List.foldl_cons, ih]
    split
    · rfl
    · rw [List.cons_append]

/-- Nothing is read from blanks. -/
theorem readCode_blank (swallowed : Bool) {chars : List Text.Located}
    (h : ∀ located ∈ chars, Node.trims located = true) :
    readCode text comments swallowed chars = [] := by
  induction chars generalizing swallowed with
  | nil => rfl
  | cons located chars ih =>
    obtain ⟨hblank, hchars⟩ := List.forall_mem_cons.mp h
    rw [Node.trims] at hblank
    rw [readCode]
    simp [hblank, ih _ hchars]

variable {text} {comments}

/-- A line comment begins with a slash. -/
theorem char_of_opensLine {located : Text.Located} (h : opensLine text comments located = true) :
    located.char = '/' := by
  obtain ⟨comment, -, hopens⟩ := List.any_eq_true.mp h
  simp only [Node.isLineComment, Bool.and_eq_true, beq_iff_eq] at hopens
  obtain ⟨⟨⟨-, hslashes⟩, -⟩, hfirst⟩ := hopens
  obtain ⟨rest, hchars⟩ := List.head?_eq_some_iff.mp hfirst
  rw [hchars, List.map_cons, List.isPrefixOf_cons_cons, Bool.and_eq_true, beq_iff_eq] at hslashes
  exact hslashes.1.symm

/-- Every line comment begins with some character. -/
theorem exists_opensLine {comment : Node} (hcomment : comment ∈ comments)
    (hline : comment.isLineComment text = true) :
    ∃ first ∈ comment.chars text, opensLine text comments first = true := by
  cases hchars : comment.chars text with
  | nil => simp [Node.isLineComment, hchars] at hline
  | cons first rest =>
    exact ⟨first, List.mem_cons_self,
      List.any_eq_true.mpr ⟨comment, hcomment, by simp [hline, hchars]⟩⟩

/-- Behind some characters the line is part of a comment exactly if a line comment begins with one
of them and no line ends after it. -/
theorem foldl_swallows_iff {chars : List Text.Located}
    (hsorted : chars.Pairwise fun a b => a.offset < b.offset) :
    chars.foldl (swallows text comments) false = true ↔
      ∃ first ∈ chars, opensLine text comments first = true ∧
        ∀ located ∈ chars, first.offset < located.offset →
          Text.isLineEnd located.char = false := by
  induction chars using List.reverseRecOn with
  | nil => simp
  | append_singleton chars last ih =>
    obtain ⟨hchars, -, hlast⟩ := List.pairwise_append.mp hsorted
    have hlast : ∀ other ∈ chars, other.offset < last.offset := fun other hother =>
      hlast other hother last (List.mem_singleton_self _)
    rw [List.foldl_append, List.foldl_cons, List.foldl_nil, swallows, Bool.or_eq_true,
      Bool.and_eq_true, ih hchars, Bool.not_eq_true']
    simp only [List.mem_append, List.mem_singleton]
    constructor
    · rintro (⟨⟨first, hfirst, hopens, hline⟩, hends⟩ | hopens)
      · refine ⟨first, .inl hfirst, hopens, ?_⟩
        rintro located (hlocated | rfl) hbehind
        · exact hline located hlocated hbehind
        · exact hends
      · refine ⟨last, .inr rfl, hopens, ?_⟩
        rintro located (hlocated | rfl) hbehind
        · exact absurd (hlast located hlocated) (Nat.lt_asymm hbehind)
        · exact absurd hbehind (Nat.lt_irrefl _)
    · rintro ⟨first, hfirst | rfl, hopens, hline⟩
      · exact .inl ⟨⟨first, hfirst, hopens, fun located hlocated => hline located (.inl hlocated)⟩,
          hline last (.inr rfl) (hlast first hfirst)⟩
      · exact .inr hopens

/-- Blanks begin no comment. -/
theorem foldl_swallows_blank {chars : List Text.Located}
    (h : ∀ located ∈ chars, Node.trims located = true) :
    chars.foldl (swallows text comments) false = false := by
  induction chars with
  | nil => rfl
  | cons located chars ih =>
    obtain ⟨hblank, hchars⟩ := List.forall_mem_cons.mp h
    have hopens : opensLine text comments located = false := by
      refine Bool.eq_false_iff.mpr fun hopens => ?_
      rw [Node.trims, char_of_opensLine hopens] at hblank
      exact absurd hblank (by decide)
    rw [List.foldl_cons, swallows, hopens]
    exact ih hchars

/-- Blanks at the end can be left out. -/
theorem readCode_rdropWhile (swallowed : Bool) (chars : List Text.Located) :
    readCode text comments swallowed (chars.rdropWhile Node.trims) =
      readCode text comments swallowed chars := by
  conv_rhs => rw [← List.rdropWhile_append_rtakeWhile (p := Node.trims) (l := chars)]
  rw [readCode_append, readCode_blank _ _ _ fun _ => List.mem_rtakeWhile_imp, List.append_nil]

/-- Blanks at the beginning can be left out, too, unless they are part of a comment. -/
theorem readCode_dropWhile (chars : List Text.Located) :
    readCode text comments false (chars.dropWhile Node.trims) =
      readCode text comments false chars := by
  conv_rhs => rw [← List.takeWhile_append_dropWhile (p := Node.trims) (l := chars)]
  rw [readCode_append, readCode_blank _ _ _ fun _ => List.mem_takeWhile_imp,
    foldl_swallows_blank fun _ => List.mem_takeWhile_imp, List.nil_append]

/-- What is read from the code of a node without its name: what is read in front of the name, and
then what is read behind it, perhaps in a comment. -/
theorem readCode_unnamed (node name : Node) :
    readCode text comments false (node.unnamed text name) =
      readCode text comments false (Text.between text node.start name.start) ++
        readCode text comments
          (((Text.between text node.start name.start).rdropWhile Node.trims).foldl
            (swallows text comments) false)
          ((Text.between text name.stop node.stop).dropWhile Node.trims) := by
  have hspace : ∀ swallowed rest, readCode text comments swallowed (⟨' ', name.start⟩ :: rest) =
      readCode text comments swallowed rest := by
    intro swallowed rest
    have hopens : opensLine text comments ⟨' ', name.start⟩ = false := by
      refine Bool.eq_false_iff.mpr fun hopens => ?_
      have hslash : ' ' = '/' := char_of_opensLine hopens
      exact absurd hslash (by decide)
    have hends : Text.isLineEnd ' ' = false := by decide
    have hblank : Text.isBlank ' ' = true := by decide
    simp [readCode, swallows, hopens, hends, hblank]
  rw [Node.unnamed, readCode_append, readCode_rdropWhile, hspace]

end

namespace Node

variable {text : String} {node name : Node} (hnode : node.WellFormed text)
  (hname : node.child? .name = some name)
include hnode hname

/-- A comment that begins in front of the name ends there. -/
theorem stop_le_of_comment {comment : Node} (hcomment : comment ∈ node.comments)
    (hlt : comment.start < name.start) : comment.stop ≤ name.start := by
  obtain ⟨child, hchild, hbelow⟩ := mem_subtreeAll_iff.mp (List.mem_filter.mp hcomment).1
  have hwithin := (hnode.below (mem_subtree_of_mem_children hchild)).within hbelow
  have hne : child ≠ name := by
    rintro rfl
    omega
  rcases hnode.fits.children.disjoint_of_ne hchild (mem_children_of_child? hname) hne with h | h
  · omega
  · have := (hnode.below (mem_subtree_of_child? hname)).start_le_stop
    omega

/-- What follows the name is part of a comment exactly if a line comment in front of the name is not
closed. -/
theorem foldl_swallows_unnamed :
    ((Text.between text node.start name.start).rdropWhile trims).foldl
        (swallows text node.comments) false = true ↔
      ∃ comment ∈ node.comments, comment.isLineComment text = true ∧
        comment.stop ≤ name.start ∧ ¬ ClosedIn (node.unnamed text name) comment name := by
  have hsorted := Text.between_pairwise text node.start name.start
  rw [foldl_swallows_iff (hsorted.sublist (List.rdropWhile_prefix _ _).sublist)]
  constructor
  · rintro ⟨first, hfirst, hopens, hline⟩
    obtain ⟨comment, hcomment, hopens⟩ := List.any_eq_true.mp hopens
    rw [Bool.and_eq_true, beq_iff_eq] at hopens
    have hinside := Text.mem_between.mp (List.mem_of_head? hopens.2)
    have hbefore := Text.mem_between.mp ((List.rdropWhile_prefix _ _).mem hfirst)
    have hstop := stop_le_of_comment hnode hname hcomment (by omega)
    refine ⟨comment, hcomment, hopens.1, hstop, ?_⟩
    rintro ⟨located, hlocated, hends, hbehind, hlt⟩
    rw [mem_unnamed hnode hname hlt] at hlocated
    rw [hline located hlocated (by omega)] at hends
    cases hends
  · rintro ⟨comment, hcomment, hlineComment, hstop, hopen⟩
    have hends := (Bool.and_eq_true_iff.mp hlineComment).2
    obtain ⟨first, hfirst, hopens⟩ := exists_opensLine hcomment hlineComment
    have hinside := Text.mem_between.mp hfirst
    have hwithin := hnode.within (mem_subtree_of_mem_comments hcomment)
    refine ⟨first, (Text.mem_rdropWhile hsorted).mpr
      ⟨Text.mem_between.mpr ⟨hinside.1, by omega, by omega⟩, .inl ?_⟩, hopens, ?_⟩
    · rw [trims, char_of_opensLine hopens]
      decide
    · intro located hlocated hbehind
      have hbefore := Text.mem_between.mp ((List.rdropWhile_prefix _ _).mem hlocated)
      by_cases hin : located.offset < comment.stop
      · -- No line ends in the comment itself.
        have hmem : located ∈ comment.chars text :=
          Text.mem_between.mpr ⟨hbefore.1, by omega, hin⟩
        simpa using List.all_eq_true.mp hends located hmem
      · refine Bool.eq_false_iff.mpr fun hlineEnd => hopen ⟨located, ?_, hlineEnd, by omega,
          hbefore.2.2⟩
        rwa [mem_unnamed hnode hname hbefore.2.2]

end Node

/-! ### What is kept, and what a comment swallows -/

/-- **The code of a node without its name** is there for every node of a well-formed tree that has a
name. Up to blanks it is the code of the node with the name cut out. Behind a line comment in front
of the name a line ends in it exactly if one ends there in the module and something other than
blanks follows before the name. If that holds of each of these comments, what is read from the code
besides blanks and comments is what is read in front of the name and what is read behind it;
otherwise what is behind the name is read as part of a comment, down to the end of its line. -/
theorem codeWithoutName_keeps {text : String} {node name : Node} (hnode : node.WellFormed text)
    (hname : node.child? .name = some name) :
    let head := Text.between text node.start name.start
    let tail := Text.between text name.stop node.stop
    let unnamed := node.unnamed text name
    let read := readCode text node.comments
    ∃ code, codeWithoutName (Text.encode text) node = .ok code ∧
      code.toList = unnamed.map Text.Located.char ∧
      code.toList.filter (fun c => !Text.isBlank c) =
        ((head ++ tail).map Text.Located.char).filter (fun c => !Text.isBlank c) ∧
      (∀ comment ∈ node.comments, comment.isLineComment text → comment.stop ≤ name.start →
        (Node.ClosedIn unnamed comment name ↔ Node.ClosedAhead text comment name)) ∧
      ((∀ comment ∈ node.comments, comment.isLineComment text → comment.stop ≤ name.start →
          Node.ClosedAhead text comment name) →
        read false unnamed = read false head ++ read false tail) ∧
      ((∃ comment ∈ node.comments, comment.isLineComment text ∧ comment.stop ≤ name.start ∧
          ¬ Node.ClosedAhead text comment name) →
        read false unnamed = read false head ++ read true (tail.dropWhile Node.trims)) := by
  intro head tail unnamed read
  have hclosed : ∀ comment ∈ node.comments, (Node.ClosedIn unnamed comment name ↔
      Node.ClosedAhead text comment name) := fun comment hcomment =>
    Node.closedIn_unnamed hnode hname (Node.mem_subtree_of_mem_comments hcomment)
  have hread := @readCode_unnamed text node.comments node name
  have hswallowed := Node.foldl_swallows_unnamed hnode hname
  refine ⟨_, Node.codeWithoutName_eq hnode hname, String.toList_ofList, ?_,
    fun comment hcomment _ _ => hclosed comment hcomment, fun hall => ?_, ?_⟩
  · rw [String.toList_ofList, List.filter_map, List.filter_map]
    exact congrArg (List.map Text.Located.char) (Node.filter_unnamed text node name)
  · have hfree := Bool.eq_false_iff.mpr (mt hswallowed.mp ?_)
    · rwa [hfree, readCode_dropWhile] at hread
    · rintro ⟨comment, hcomment, hline, hstop, hopen⟩
      exact hopen ((hclosed comment hcomment).mpr (hall comment hcomment hline hstop))
  · rintro ⟨comment, hcomment, hline, hstop, hopen⟩
    have hopen : ¬ Node.ClosedIn unnamed comment name := mt (hclosed comment hcomment).mp hopen
    rwa [hswallowed.mpr ⟨comment, hcomment, hline, hstop, hopen⟩] at hread

/-- A generator function with a line comment in front of its asterisk. -/
def starred : Node :=
  { kind := .generatorDeclaration, start := 0, stop := 25, children := [
    { kind := .function, start := 0, stop := 8, named := false },
    { kind := .comment, start := 9, stop := 16 },
    { kind := .other "*", start := 17, stop := 18, named := false },
    { kind := .identifier, start := 19, stop := 20, role := some .name },
    { kind := .other "formal_parameters", start := 20, stop := 22 },
    { kind := .other "statement_block", start := 23, stop := 25 }] }

/-- The asterisk keeps the end of the line in its place. -/
theorem codeWithoutName_keeps_starred :
    let text := "function // note\n* f() {}"
    starred.WellFormed text ∧ ∃ name, starred.child? .name = some name ∧
      (∀ comment ∈ starred.comments, comment.isLineComment text → comment.stop ≤ name.start →
        Node.ClosedAhead text comment name) ∧
      codeWithoutName (Text.encode text) starred = .ok "function // note\n* () {}" ∧
      readCode text starred.comments false (starred.unnamed text name) =
        "function*(){}".toList := by
  intro text
  have hnode : starred.WellFormed text := by decide +kernel
  have hname : starred.child? .name = some starred.children[3] := rfl
  obtain ⟨code, hcode, hchars, -, hclosed, hread, -⟩ := codeWithoutName_keeps hnode hname
  have hkept : ∀ comment ∈ starred.comments, comment.isLineComment text →
      comment.stop ≤ starred.children[3].start →
      Node.ClosedIn (starred.unnamed text starred.children[3]) comment starred.children[3] := by
    decide +kernel
  have hahead : ∀ comment ∈ starred.comments, comment.isLineComment text →
      comment.stop ≤ starred.children[3].start →
      Node.ClosedAhead text comment starred.children[3] := fun comment hcomment hline hstop =>
    (hclosed comment hcomment hline hstop).mp (hkept comment hcomment hline hstop)
  refine ⟨hnode, _, hname, hahead, ?_, ?_⟩
  · rw [hcode]
    refine congrArg Except.ok (String.toList_inj.mp ?_)
    rw [hchars]
    decide +kernel
  · rw [hread hahead]
    decide +kernel

/-- A function with a line comment between its keyword and its name. -/
def noted : Node :=
  { kind := .functionDeclaration, start := 7, stop := 41, children := [
    { kind := .function, start := 7, stop := 15, named := false },
    { kind := .comment, start := 16, stop := 23 },
    { kind := .identifier, start := 24, stop := 25, role := some .name },
    { kind := .other "formal_parameters", start := 25, stop := 27 },
    { kind := .other "statement_block", start := 28, stop := 41 }] }

/-- **A comment may swallow the parameters and the body.** Behind the comment only a line end stands
in front of the name. It is trimmed, so no line ends between the comment and what followed the
name, and nothing but the keyword is read from the code. -/
theorem codeWithoutName_swallows :
    let text := "export function // note\nf() { return 1; }\n"
    noted.WellFormed text ∧ ∃ name comment, noted.child? .name = some name ∧
      comment ∈ noted.children ∧ comment.isLineComment text ∧ comment.stop ≤ name.start ∧
      codeWithoutName (Text.encode text) noted = .ok "function // note () { return 1; }" ∧
      ¬ Node.ClosedIn (noted.unnamed text name) comment name ∧
      readCode text noted.comments false (noted.unnamed text name) = "function".toList ∧
      readCode text noted.comments false (Text.between text noted.start name.start) ++
          readCode text noted.comments false (Text.between text name.stop noted.stop) =
        "function(){return1;}".toList := by
  intro text
  have hnode : noted.WellFormed text := by decide +kernel
  have hname : noted.child? .name = some noted.children[2] := rfl
  refine ⟨hnode, _, noted.children[1], hname, List.getElem_mem _, by decide +kernel, by decide, ?_,
    by decide +kernel, by decide +kernel, by decide +kernel⟩
  rw [Node.codeWithoutName_eq hnode hname]
  exact congrArg Except.ok (by decide +kernel)

end Seams
