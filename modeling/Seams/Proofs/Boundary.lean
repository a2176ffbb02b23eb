import Seams.Failure

/-!
# Character boundaries

A text is edited through the offsets of its bytes, and the bytes of a piece are a text again only
if the piece begins and ends between two characters. These offsets are the boundaries of a text.
They can be listed, so whether an offset is one of them can be decided.

## Main definitions

* `Text.offsets`, `Text.IsBoundary` — the offsets between the characters of a text

## Main results

* `Text.isBoundary_iff` — a boundary splits the text, and the bytes before it are those of the
  first part
* `Text.slice_encode` — the bytes between two boundaries are those of a text
-/

namespace Seams.Text

/-! ### Listing boundaries -/

/-- The offsets around and between characters that begin at `start`. -/
def offsets (start : Nat) : List Char → List Nat
  | [] => [start]
  | c :: rest => start :: offsets (start + c.utf8Size) rest

/-- An offset into the bytes of a text that lies around or between its characters. -/
def IsBoundary (text : String) (offset : Nat) : Prop :=
  offset ∈ offsets 0 text.toList

instance (text : String) (offset : Nat) : Decidable (IsBoundary text offset) :=
  inferInstanceAs (Decidable (offset ∈ offsets 0 text.toList))

/-! ### What a boundary splits -/

/-- The bytes of characters. -/
def encodeChars (chars : List Char) : List UInt8 :=
  chars.flatMap String.utf8EncodeChar

theorem encodeChars_append (before after : List Char) :
    encodeChars (before ++ after) = encodeChars before ++ encodeChars after := by
  simp [encodeChars]

theorem length_encodeChars_cons (c : Char) (rest : List Char) :
    (encodeChars (c :: rest)).length = c.utf8Size + (encodeChars rest).length := by
  simp [encodeChars]

theorem length_encodeChars_concat (before : List Char) (c : Char) :
    (encodeChars (before ++ [c])).length = (encodeChars before).length + c.utf8Size := by
  simp [encodeChars]

theorem encode_ofList (chars : List Char) : encode (String.ofList chars) = encodeChars chars := by
  simp [encode, encodeChars]

theorem mem_offsets_iff {start offset : Nat} {chars : List Char} :
    offset ∈ offsets start chars ↔
      ∃ before after, chars = before ++ after ∧ start + (encodeChars before).length = offset := by
  induction chars generalizing start with
  | nil =>
    simp only [offsets, List.mem_singleton]
    constructor
    · rintro rfl
      exact ⟨[], [], rfl, by simp [encodeChars]⟩
    · rintro ⟨before, after, h, rfl⟩
      obtain ⟨rfl, rfl⟩ := List.append_eq_nil_iff.mp h.symm
      simp [encodeChars]
  | cons c rest ih =>
    simp only [offsets, List.mem_cons, ih]
    constructor
    · rintro (rfl | ⟨before, after, rfl, rfl⟩)
      · exact ⟨[], c :: rest, rfl, by simp [encodeChars]⟩
      · exact ⟨c :: before, after, rfl, by rw [length_encodeChars_cons, Nat.add_assoc]⟩
    · rintro ⟨before, after, h, rfl⟩
      cases before with
      | nil => exact .inl (by simp [encodeChars])
      | cons d before =>
        obtain ⟨rfl, rfl⟩ := List.cons_eq_cons.mp h
        exact .inr ⟨before, after, rfl, by rw [length_encodeChars_cons, Nat.add_assoc]⟩

theorem isBoundary_iff {text : String} {offset : Nat} :
    IsBoundary text offset ↔
      ∃ before after, text.toList = before ++ after ∧ (encodeChars before).length = offset := by
  rw [IsBoundary, mem_offsets_iff]
  simp only [Nat.zero_add]

theorem isBoundary_zero (text : String) : IsBoundary text 0 :=
  isBoundary_iff.mpr ⟨[], text.toList, rfl, rfl⟩

theorem isBoundary_length (text : String) : IsBoundary text (encode text).length :=
  isBoundary_iff.mpr ⟨text.toList, [], (List.append_nil _).symm, rfl⟩

theorem IsBoundary.le_length {text : String} {offset : Nat} (h : IsBoundary text offset) :
    offset ≤ (encode text).length := by
  obtain ⟨before, after, hsplit, rfl⟩ := isBoundary_iff.mp h
  rw [show encode text = encodeChars text.toList from rfl, hsplit, encodeChars_append,
    List.length_append]
  exact Nat.le_add_right _ _

/-! ### Pieces between boundaries -/

theorem encodeChars_eq_nil {chars : List Char} : encodeChars chars = [] ↔ chars = [] := by
  cases chars with
  | nil => simp [encodeChars]
  | cons c rest => simp [encodeChars, String.utf8EncodeChar_ne_nil]

/-- Of two beginnings of one text, the one with fewer bytes is a beginning of the other. -/
theorem prefix_of_length_le {chars first firstRest second secondRest : List Char}
    (h₁ : chars = first ++ firstRest) (h₂ : chars = second ++ secondRest)
    (hle : (encodeChars first).length ≤ (encodeChars second).length) : first <+: second := by
  have hfirst : first <+: chars := ⟨firstRest, h₁.symm⟩
  have hsecond : second <+: chars := ⟨secondRest, h₂.symm⟩
  rcases List.prefix_or_prefix_of_prefix hfirst hsecond with h | h
  · exact h
  · obtain ⟨extra, rfl⟩ := h
    have hnil : encodeChars extra = [] := by
      rw [encodeChars_append, List.length_append] at hle
      exact List.length_eq_zero_iff.mp (by omega)
    have hextra : extra = [] := encodeChars_eq_nil.mp hnil
    simp [hextra]

/-- The bytes between two boundaries of a text are the bytes of a text. -/
theorem slice_encode {text : String} {start stop : Nat} (hstart : IsBoundary text start)
    (hstop : IsBoundary text stop) (hle : start ≤ stop) :
    ∃ piece, slice (encode text) start stop = encode piece := by
  obtain ⟨before, rest, hbefore, rfl⟩ := isBoundary_iff.mp hstart
  obtain ⟨upTo, after, hupTo, rfl⟩ := isBoundary_iff.mp hstop
  obtain ⟨piece, rfl⟩ := prefix_of_length_le hbefore hupTo hle
  refine ⟨String.ofList piece, ?_⟩
  have hbytes : encode text = encodeChars before ++ (encodeChars piece ++ encodeChars after) := by
    rw [show encode text = encodeChars text.toList from rfl, hupTo, encodeChars_append,
      encodeChars_append, List.append_assoc]
  rw [slice, hbytes, List.drop_left, encodeChars_append, List.length_append,
    Nat.add_sub_cancel_left, List.take_left, encode_ofList]

/-- The bytes from a boundary on are the bytes of a text. -/
theorem drop_encode {text : String} {start : Nat} (hstart : IsBoundary text start) :
    ∃ piece, (encode text).drop start = encode piece := by
  obtain ⟨piece, hpiece⟩ := slice_encode hstart (isBoundary_length text) hstart.le_length
  refine ⟨piece, ?_⟩
  rw [← hpiece, slice, List.take_of_length_le]
  simp

end Seams.Text

namespace Seams

/-- What was written can be read. -/
theorem readText_encode (text : String) : readText (Text.encode text) = .ok text := by
  rw [readText, Text.decode_encode]
  rfl

/-- What was read is written as it was. -/
theorem encode_of_readText {bytes : List UInt8} {text : String} (h : readText bytes = .ok text) :
    Text.encode text = bytes := by
  have hbytes : (Text.encode text).toByteArray = text.toByteArray := by
    simpa [Text.encode, List.utf8Encode] using (String.utf8Encode_toList (b := text))
  simp only [readText, Text.decode, String.fromUTF8?] at h
  split at h
  · rename_i found hfound
    obtain rfl := Except.ok.inj h
    split at hfound
    · obtain rfl := Option.some.inj hfound
      simpa [String.fromUTF8] using congrArg (fun array => array.data.toList) hbytes
    · cases hfound
  · cases h

/-- The bytes between two boundaries of a text can be read. -/
theorem readText_slice {text : String} {start stop : Nat} (hstart : Text.IsBoundary text start)
    (hstop : Text.IsBoundary text stop) (hle : start ≤ stop) :
    ∃ piece, readText (Text.slice (Text.encode text) start stop) = .ok piece := by
  obtain ⟨piece, hpiece⟩ := Text.slice_encode hstart hstop hle
  exact ⟨piece, by rw [hpiece, readText_encode]⟩

end Seams
