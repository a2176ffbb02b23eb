/-!
# UTF-8 text as a list of bytes

Offsets into a module are byte offsets, so a module is edited as a list of bytes and read back as
text. Writing never fails. Reading fails on ill-formed bytes, and then names the first place where
no character can be read.

## Main definitions

* `Text.encode` — the bytes of a text
* `Text.decode` — the text of well-formed bytes, or the first fault
* `Text.slice` — the bytes between two offsets, cut at the end of the list
* `Text.Fault` — where and why bytes are no text
-/

namespace Seams.Text

/-! ### Writing and cutting -/

/-- The UTF-8 bytes of a text. -/
def encode (text : String) : List UInt8 :=
  text.toList.flatMap String.utf8EncodeChar

theorem encode_append (s t : String) : encode (s ++ t) = encode s ++ encode t := by
  simp [encode]

/-- The bytes from offset `start` up to offset `stop`. Offsets beyond the end are cut, and a range
that runs backwards is empty. -/
def slice (bytes : List UInt8) (start stop : Nat) : List UInt8 :=
  (bytes.drop start).take (stop - start)

/-! ### Faults -/

/-- Why no character can be read at a place. -/
inductive Fault.Cause where
  /-- The byte begins no character. -/
  | startByte
  /-- A character begins, and a byte that cannot belong to it follows. -/
  | continuation
  /-- A character begins, and the bytes end before it does. -/
  | truncated
  deriving DecidableEq, Repr

/-- The first place where bytes are not text: the bytes from `start` up to `stop` begin with the
byte `lead` and form no character. -/
structure Fault where
  cause : Fault.Cause
  lead : UInt8
  start : Nat
  stop : Nat
  deriving DecidableEq, Repr

/-- The bytes that may follow a leading byte, one range for each; `none` for a byte that begins no
character. The ranges leave out overlong forms, surrogates and what lies above U+10FFFF. -/
def tailRanges (lead : UInt8) : Option (List (UInt8 × UInt8)) :=
  let tail : UInt8 × UInt8 := (0x80, 0xBF)
  if lead ≤ 0x7F then some []
  else if lead < 0xC2 then none
  else if lead ≤ 0xDF then some [tail]
  else if lead = 0xE0 then some [(0xA0, 0xBF), tail]
  else if lead = 0xED then some [(0x80, 0x9F), tail]
  else if lead ≤ 0xEF then some [tail, tail]
  else if lead = 0xF0 then some [(0x90, 0xBF), tail, tail]
  else if lead ≤ 0xF3 then some [tail, tail, tail]
  else if lead = 0xF4 then some [(0x80, 0x8F), tail, tail]
  else none

/-- How far the bytes fit the ranges: how many fit in turn, and what stopped the walk, if
anything did. -/
def matchTail : List (UInt8 × UInt8) → List UInt8 → Nat × Option Fault.Cause
  | [], _ => (0, none)
  | _ :: _, [] => (0, some .truncated)
  | (low, high) :: ranges, b :: rest =>
    if low ≤ b ∧ b ≤ high then
      let (count, stopped) := matchTail ranges rest
      (count + 1, stopped)
    else (0, some .continuation)

/-- The first fault of `bytes`, which stand at offset `start`. -/
def firstFault (start : Nat) (bytes : List UInt8) : Option Fault :=
  match bytes with
  | [] => none
  | lead :: rest =>
    match tailRanges lead with
    | none => some ⟨.startByte, lead, start, start + 1⟩
    | some ranges =>
      match matchTail ranges rest with
      | (count, some cause) => some ⟨cause, lead, start, start + 1 + count⟩
      | (count, none) => firstFault (start + 1 + count) (rest.drop count)
termination_by bytes.length
decreasing_by simp only [List.length_drop, List.length_cons]; omega

/-- A byte as two hexadecimal digits. -/
def hexByte (b : UInt8) : String :=
  String.ofList [Nat.digitChar (b.toNat / 16), Nat.digitChar (b.toNat % 16)]

/-- The fault in words: the bytes by their offsets, and the cause. -/
def Fault.message (fault : Fault) : String :=
  let place :=
    if fault.stop = fault.start + 1 then
      s!"byte 0x{hexByte fault.lead} in position {fault.start}"
    else s!"bytes in position {fault.start}-{fault.stop - 1}"
  let cause := match fault.cause with
    | .startByte => "invalid start byte"
    | .continuation => "invalid continuation byte"
    | .truncated => "unexpected end of data"
  s!"'utf-8' codec can't decode {place}: {cause}"

/-! ### Reading -/

/-- The text that bytes stand for, or the first fault in them. -/
def decode (bytes : List UInt8) : Except Fault String :=
  match String.fromUTF8? bytes.toByteArray with
  | some text => .ok text
  | none => .error ((firstFault 0 bytes).getD ⟨.truncated, 0, bytes.length, bytes.length⟩)

/-- What was written reads back. -/
theorem decode_encode (text : String) : decode (encode text) = .ok text := by
  have h : (encode text).toByteArray = text.toByteArray := by
    simpa [encode, List.utf8Encode] using (String.utf8Encode_toList (b := text))
  simp only [decode, h, String.fromUTF8?, dif_pos text.isValidUTF8, String.fromUTF8]

end Seams.Text
