import Seams.Script.Token

/-!
# Tokens in their place

Between tokens stand blanks and comments. A lexeme is the next token together with what is known of
its place: its offset in bytes, the comments before it, and whether a line ends before it.

## Main definitions

* `Script.Gap`, `Script.skipGap` — blanks and comments
* `Script.Lexeme`, `Script.Lexeme.read` — the next token in its place
-/

namespace Seams.Script

/-- The number of bytes that characters take. -/
def byteLength (chars : List Char) : Nat :=
  chars.foldl (fun total c => total + c.utf8Size) 0

/-! ### Blanks and comments -/

/-- The length of a comment up to the end of its line. -/
def lineCommentLength (source : List Char) : Nat :=
  spanLength (fun c => !endsLine c) source

/-- The length of a piece inside a comment between marks. -/
def blockPieceLength : List Char → Nat
  | '*' :: '/' :: _ => 0
  | _ :: _ => 1
  | [] => 0

/-- The length of the comment at the front, or zero. A comment between marks has to be closed. -/
def commentLength (source : List Char) : Nat :=
  match source with
  | '/' :: '/' :: rest => lineCommentLength rest + 2
  | '/' :: '*' :: rest =>
    let inner := runLength blockPieceLength rest
    if (rest.drop inner).isEmpty then 0 else inner + 4
  | _ => 0

/-- What stands between two tokens. -/
structure Gap where
  /-- Whether a line ends in it, be it in a comment. -/
  newLine : Bool := false
  /-- Where its comments begin and end, the last one first. -/
  comments : List (Nat × Nat) := []
  /-- The offset of the token after it. -/
  offset : Nat
  /-- The source from that token on. -/
  rest : List Char

/-- Read blanks and comments behind those of a gap. -/
def Gap.extend (gap : Gap) : Gap :=
  match _h : gap.rest with
  | [] => gap
  | c :: rest =>
    if isSpace c then
      extend { gap with
        newLine := gap.newLine || endsLine c
        offset := gap.offset + c.utf8Size
        rest := rest }
    else
      match commentLength gap.rest with
      | 0 => gap
      | n + 1 =>
        let comment := gap.rest.take (n + 1)
        let stop := gap.offset + byteLength comment
        extend { gap with
          newLine := gap.newLine || comment.any endsLine
          comments := (gap.offset, stop) :: gap.comments
          offset := stop
          rest := gap.rest.drop (n + 1) }
termination_by gap.rest.length
decreasing_by
  all_goals
    simp only [_h, List.length_cons, List.length_drop]
    omega

/-- The gap at the front of the source. -/
def skipGap (offset : Nat) (source : List Char) : Gap :=
  Gap.extend { offset, rest := source }

/-! ### Lexemes -/

/-- A token in its place. -/
structure Lexeme where
  token : Token
  /-- Whether a line ends between the token before and this one. -/
  newLine : Bool
  /-- Where the comments before the token begin and end, in order. -/
  comments : List (Nat × Nat)
  /-- The offset of the token. -/
  start : Nat
  /-- The number of characters of the token. -/
  length : Nat
  /-- The source from the token on. -/
  source : List Char

namespace Lexeme

/-- The token that comes next in the source, which stands at an offset. -/
def read (offset : Nat) (source : List Char) : Lexeme :=
  let gap := skipGap offset source
  let (token, length) := scan gap.rest
  { token, length, newLine := gap.newLine, comments := gap.comments.reverse, start := gap.offset,
    source := gap.rest }

end Lexeme

end Seams.Script
