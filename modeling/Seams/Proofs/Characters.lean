import Seams.Proofs.Positions

/-!
# Editing by bytes and by characters

Offsets into a module count bytes, but whoever calls for an edit has a piece of text in mind. As
long as no call splits a character this makes no difference: what is rendered is the text that
results if the same edits are made to the string of characters, at the places that the offsets stand
for.

The description of a draft offset by offset serves for both, with bytes or characters as the units
of the source. The bytes of a character go together, since calls begin and end only around them: all
of them are kept, or all of them give way.

## Main definitions

* `Text.position` — how many characters stand in front of an offset
* `Draft.Call.OnBoundaries`, `Draft.Call.onCharacters` — a call that splits no character, and the
  same call in terms of characters

## Main results

* `Text.position_eq`, `Text.position_lt_iff` — positions of boundaries
* `Draft.splicedAt_position` — what stands at a boundary, in bytes and in characters
* `Draft.spliced_encode` — splicing bytes and splicing characters come to the same text
* `Draft.render_eq_characters` — so a draft is rendered character by character
-/

namespace Seams

/-! ### Positions -/

namespace Text

variable {text : String} {before after : List Char}

/-- The number of characters in front of an offset between characters. -/
def position (text : String) (offset : Nat) : Nat :=
  (offsets 0 text.toList).idxOf offset

theorem idxOf_offsets (start : Nat) (before after : List Char) :
    (offsets start (before ++ after)).idxOf (start + (encodeChars before).length) =
      before.length := by
  induction before generalizing start with
  | nil => cases after <;> simp [offsets, encodeChars]
  | cons c before ih =>
    have hne : start ≠ start + (c.utf8Size + (encodeChars before).length) := by
      have := c.utf8Size_pos
      omega
    rw [List.cons_append, offsets, length_encodeChars_cons, List.idxOf_cons_ne _ hne,
      ← Nat.add_assoc, ih]
    rfl

/-- The offset behind some characters has their number as its position. -/
theorem position_eq (h : text.toList = before ++ after) :
    position text (encodeChars before).length = before.length := by
  have hindex := idxOf_offsets 0 before after
  rwa [Nat.zero_add, ← h] at hindex

theorem position_length (text : String) : position text (encode text).length = text.toList.length :=
  position_eq (List.append_nil _).symm

/-- Positions are in the order of the offsets. -/
theorem position_le {a b : Nat} (ha : IsBoundary text a) (hb : IsBoundary text b) (h : a ≤ b) :
    position text a ≤ position text b := by
  obtain ⟨front, rest, hfront, rfl⟩ := isBoundary_iff.mp ha
  obtain ⟨upTo, behind, hupTo, rfl⟩ := isBoundary_iff.mp hb
  rw [position_eq hfront, position_eq hupTo]
  exact (prefix_of_length_le hfront hupTo h).length_le

theorem position_lt_iff {a b : Nat} (ha : IsBoundary text a) (hb : IsBoundary text b) :
    position text a < position text b ↔ a < b := by
  constructor
  · intro h
    exact Nat.lt_of_not_le fun hle => Nat.not_le.mpr h (position_le hb ha hle)
  · intro h
    obtain ⟨front, rest, hfront, rfl⟩ := isBoundary_iff.mp ha
    obtain ⟨upTo, behind, hupTo, rfl⟩ := isBoundary_iff.mp hb
    obtain ⟨extra, rfl⟩ := prefix_of_length_le hfront hupTo (Nat.le_of_lt h)
    have hextra : extra ≠ [] := by
      rintro rfl
      simp at h
    have := List.length_pos_iff.mpr hextra
    rw [position_eq hfront, position_eq hupTo, List.length_append]
    omega

theorem position_inj {a b : Nat} (ha : IsBoundary text a) (hb : IsBoundary text b) :
    position text a = position text b ↔ a = b := by
  have hab := position_lt_iff ha hb
  have hba := position_lt_iff hb ha
  omega

/-- The bytes of a character. -/
theorem slice_character {c : Char} (h : text.toList = before ++ c :: after) :
    slice (encode text) (encodeChars before).length ((encodeChars before).length + c.utf8Size) =
      String.utf8EncodeChar c := by
  have hbytes : encode text =
      encodeChars before ++ (String.utf8EncodeChar c ++ encodeChars after) := by
    rw [show encode text = encodeChars text.toList from rfl, h, encodeChars_append]
    rfl
  rw [slice, hbytes, List.drop_left, Nat.add_sub_cancel_left, ← String.length_utf8EncodeChar,
    List.take_left]

/-- No boundary lies inside a character. -/
theorem IsBoundary.outside {a : Nat} {c : Char} (ha : IsBoundary text a)
    (h : text.toList = before ++ c :: after) :
    a ≤ (encodeChars before).length ∨ (encodeChars before).length + c.utf8Size ≤ a := by
  have hnext : text.toList = (before ++ [c]) ++ after := by simpa using h
  have hfront := position_lt_iff (isBoundary_iff.mpr ⟨before, _, h, rfl⟩) ha
  have hback := position_lt_iff ha (isBoundary_iff.mpr ⟨before ++ [c], _, hnext, rfl⟩)
  rw [position_eq h] at hfront
  rw [position_eq hnext, length_encodeChars_concat, List.length_append,
    List.length_singleton] at hback
  omega

end Text

/-! ### Calls in terms of characters -/

namespace Draft.Call

/-- A call whose ends lie between characters of the source. -/
structure OnBoundaries (text : String) (call : Call) : Prop where
  start : ∃ offset : Nat, call.start (Text.encode text).length = offset ∧
    Text.IsBoundary text offset
  stop : ∃ offset : Nat, call.stop (Text.encode text).length = offset ∧
    Text.IsBoundary text offset

/-- The call with positions of characters in place of offsets. -/
def onCharacters (text : String) : Call → Call
  | replace start stop new =>
    replace (Text.position text start.toNat) (Text.position text stop.toNat) new
  | insert offset new => insert (Text.position text offset.toNat) new
  | prepend offset new => prepend (Text.position text offset.toNat) new
  | append new => append new

variable {text : String} {call : Call} {offset : Nat}

@[simp] theorem text_onCharacters (text : String) (call : Call) :
    (call.onCharacters text).text = call.text := by
  cases call <;> rfl

@[simp] theorem isPrepend_onCharacters (text : String) (call : Call) :
    (call.onCharacters text).isPrepend = call.isPrepend := by
  cases call <;> rfl

theorem start_onCharacters (h : call.start (Text.encode text).length = offset) :
    (call.onCharacters text).start text.toList.length = Text.position text offset := by
  cases call with
  | append new =>
    obtain rfl : (Text.encode text).length = offset := Int.ofNat_inj.mp h
    exact congrArg Int.ofNat (Text.position_length text).symm
  | replace start stop new =>
    obtain rfl : start = offset := h
    rfl
  | insert start new | prepend start new =>
    obtain rfl : start = offset := h
    rfl

theorem stop_onCharacters (h : call.stop (Text.encode text).length = offset) :
    (call.onCharacters text).stop text.toList.length = Text.position text offset := by
  cases call with
  | append new => exact @start_onCharacters text (append new) offset h
  | replace start stop new =>
    obtain rfl : stop = offset := h
    rfl
  | insert stop new | prepend stop new =>
    obtain rfl : stop = offset := h
    rfl

namespace OnBoundaries

/-- At a boundary a call does to characters what it does to bytes. -/
theorem at_position (h : call.OnBoundaries text) (hoffset : Text.IsBoundary text offset) :
    (call.onCharacters text).insertsAt text.toList.length (Text.position text offset) =
        call.insertsAt (Text.encode text).length offset ∧
      (call.onCharacters text).replacesFrom text.toList.length (Text.position text offset) =
        call.replacesFrom (Text.encode text).length offset ∧
      (call.onCharacters text).covers text.toList.length (Text.position text offset) =
        call.covers (Text.encode text).length offset := by
  obtain ⟨start, hstart, hstartBoundary⟩ := h.start
  obtain ⟨stop, hstop, hstopBoundary⟩ := h.stop
  have hstartEq := Text.position_inj hstartBoundary hoffset
  have hstopEq := Text.position_inj hstopBoundary hoffset
  have hstopLt := Text.position_lt_iff hoffset hstopBoundary
  have hstartLt := Text.position_lt_iff hoffset hstartBoundary
  rw [insertsAt, insertsAt, replacesFrom, replacesFrom, covers, covers, start_onCharacters hstart,
    stop_onCharacters hstop, hstart, hstop]
  refine ⟨Bool.eq_iff_iff.mpr ?_, Bool.eq_iff_iff.mpr ?_, Bool.eq_iff_iff.mpr ?_⟩ <;>
    simp only [Bool.and_eq_true, decide_eq_true_eq] <;> omega

/-- Inside a character no call begins, and one that covers it covers all of it. -/
theorem inside (h : call.OnBoundaries text) {before after : List Char} {c : Char}
    (htext : text.toList = before ++ c :: after)
    (hstart : (Text.encodeChars before).length < offset)
    (hstop : offset < (Text.encodeChars before).length + c.utf8Size) :
    call.start (Text.encode text).length ≠ offset ∧
      call.covers (Text.encode text).length offset =
        call.covers (Text.encode text).length (Text.encodeChars before).length := by
  obtain ⟨first, hfirst, hfirstBoundary⟩ := h.start
  obtain ⟨last, hlast, hlastBoundary⟩ := h.stop
  have hfirstOutside := hfirstBoundary.outside htext
  have hlastOutside := hlastBoundary.outside htext
  rw [covers, covers, hfirst, hlast]
  refine ⟨by omega, Bool.eq_iff_iff.mpr ?_⟩
  simp only [Bool.and_eq_true, decide_eq_true_eq]
  omega

end OnBoundaries

end Draft.Call

/-! ### Bytes and characters -/

namespace Draft

section

variable {text : String} {calls : List Call}

theorem filter_onCharacters {p q : Call → Bool}
    (h : ∀ call ∈ calls, p (call.onCharacters text) = q call) :
    (calls.map (Call.onCharacters text)).filter p =
      (calls.filter q).map (Call.onCharacters text) := by
  rw [List.filter_map]
  exact congrArg _ (List.filter_congr h)

variable (hcalls : ∀ call ∈ calls, call.OnBoundaries text)
include hcalls

/-- What is added at a boundary is added at its position. -/
theorem addedAt_position {offset : Nat} (hoffset : Text.IsBoundary text offset) :
    addedAt text.toList.length (calls.map (Call.onCharacters text)) (Text.position text offset) =
      (addedAt (Text.encode text).length calls offset).map (Call.onCharacters text) := by
  have hinserts : ∀ call ∈ calls,
      (call.onCharacters text).insertsAt text.toList.length (Text.position text offset) =
        call.insertsAt (Text.encode text).length offset :=
    fun call hcall => ((hcalls call hcall).at_position hoffset).1
  rw [addedAt, addedAt, List.map_append, List.map_reverse]
  congr 2
  · exact filter_onCharacters fun call hcall => by simp [hinserts call hcall]
  · exact filter_onCharacters fun call hcall => by simp [hinserts call hcall]

/-- What replaces the bytes from a boundary on replaces the characters from its position on. -/
theorem find?_position {offset : Nat} (hoffset : Text.IsBoundary text offset) :
    ((calls.map (Call.onCharacters text)).find?
        (Call.replacesFrom text.toList.length (Text.position text offset))).map Call.text =
      (calls.find? (Call.replacesFrom (Text.encode text).length offset)).map Call.text := by
  rw [← List.head?_filter, ← List.head?_filter, filter_onCharacters fun call hcall =>
    ((hcalls call hcall).at_position hoffset).2.1]
  cases calls.filter (Call.replacesFrom (Text.encode text).length offset) <;> simp

theorem any_covers_position {offset : Nat} (hoffset : Text.IsBoundary text offset) :
    (calls.map (Call.onCharacters text)).any
        (Call.covers text.toList.length (Text.position text offset)) =
      calls.any (Call.covers (Text.encode text).length offset) := by
  rw [List.any_map, Bool.eq_iff_iff, List.any_eq_true, List.any_eq_true]
  refine exists_congr fun call => and_congr_right fun hcall => ?_
  rw [Function.comp_apply, ((hcalls call hcall).at_position hoffset).2.2]

/-- Inside a character nothing is added, and its bytes stay unless all of it is covered. -/
theorem splicedAt_inside {offset : Nat} {before after : List Char} {c : Char}
    (htext : text.toList = before ++ c :: after)
    (hstart : (Text.encodeChars before).length < offset)
    (hstop : offset < (Text.encodeChars before).length + c.utf8Size) :
    splicedAt Text.encode (Text.encode text) calls offset =
      if calls.any (Call.covers (Text.encode text).length (Text.encodeChars before).length) then []
      else (Text.encode text)[offset]?.toList := by
  have hinside := fun call hcall => (hcalls call hcall).inside htext hstart hstop
  have hnone : ∀ call ∈ calls, call.insertsAt (Text.encode text).length offset = false ∧
      call.replacesFrom (Text.encode text).length offset = false := by
    intro call hcall
    simp [Call.insertsAt, Call.replacesFrom, (hinside call hcall).1]
  have hadded : addedAt (Text.encode text).length calls offset = [] := by
    rw [addedAt, List.append_eq_nil_iff, List.reverse_eq_nil_iff, List.filter_eq_nil_iff,
      List.filter_eq_nil_iff]
    exact ⟨fun call hcall => by simp [(hnone call hcall).1],
      fun call hcall => by simp [(hnone call hcall).1]⟩
  have hfind : calls.find? (Call.replacesFrom (Text.encode text).length offset) = none :=
    List.find?_eq_none.mpr fun call hcall => by simp [(hnone call hcall).2]
  have hcovers : calls.any (Call.covers (Text.encode text).length offset) =
      calls.any (Call.covers (Text.encode text).length (Text.encodeChars before).length) := by
    rw [Bool.eq_iff_iff, List.any_eq_true, List.any_eq_true]
    refine exists_congr fun call => and_congr_right fun hcall => ?_
    rw [(hinside call hcall).2]
  rw [splicedAt, hadded, contentAt, hfind, hcovers]
  rfl

/-- What is added at a boundary is the same text in bytes and in characters. -/
theorem added_position {offset : Nat} (hoffset : Text.IsBoundary text offset) :
    ((addedAt (Text.encode text).length calls offset).flatMap fun call => Text.encode call.text) =
      Text.encodeChars ((addedAt text.toList.length (calls.map (Call.onCharacters text))
        (Text.position text offset)).flatMap fun call => call.text.toList) := by
  rw [addedAt_position hcalls hoffset, List.flatMap_map, Text.encodeChars, List.flatMap_assoc]
  simp only [Call.text_onCharacters]
  rfl

/-- What stands at a boundary, with the bytes that come after it in the same character, is what
stands at its position: these bytes go if a call covers the boundary, and stay otherwise. -/
theorem splicedAt_position {offset : Nat} (hoffset : Text.IsBoundary text offset)
    {inner : List UInt8}
    (hgone : calls.any (Call.covers (Text.encode text).length offset) = true → inner = [])
    (hkept : calls.any (Call.covers (Text.encode text).length offset) = false →
      (Text.encode text)[offset]?.toList ++ inner =
        Text.encodeChars text.toList[Text.position text offset]?.toList) :
    splicedAt Text.encode (Text.encode text) calls offset ++ inner =
      Text.encodeChars (splicedAt String.toList text.toList
        (calls.map (Call.onCharacters text)) (Text.position text offset)) := by
  rw [splicedAt, splicedAt, contentAt_eq, contentAt_eq, added_position hcalls hoffset,
    Text.encodeChars_append, List.append_assoc, find?_position hcalls hoffset,
    any_covers_position hcalls hoffset]
  congr 1
  cases hreplaced : (calls.find? (Call.replacesFrom (Text.encode text).length offset)).map
      Call.text with
  | some new =>
    -- the replacement covers all of the character
    obtain ⟨call, hcall, rfl⟩ := Option.map_eq_some_iff.mp hreplaced
    have hreplaces := List.find?_some hcall
    have hcovered : calls.any (Call.covers (Text.encode text).length offset) = true := by
      refine List.any_eq_true.mpr ⟨call, List.mem_of_find?_eq_some hcall, ?_⟩
      simp only [Call.replacesFrom, Call.covers, Bool.and_eq_true, decide_eq_true_eq] at hreplaces ⊢
      omega
    rw [hgone hcovered, List.append_nil]
    rfl
  | none =>
    cases hcovered : calls.any (Call.covers (Text.encode text).length offset) with
    | true => simp [hgone hcovered, Text.encodeChars]
    | false => exact hkept hcovered

/-- **The bytes of a character** become what the character becomes, with the texts in front of
it. -/
theorem splicedAt_character {before after : List Char} {c : Char}
    (htext : text.toList = before ++ c :: after) :
    (List.range' (Text.encodeChars before).length c.utf8Size).flatMap
        (splicedAt Text.encode (Text.encode text) calls) =
      Text.encodeChars (splicedAt String.toList text.toList
        (calls.map (Call.onCharacters text)) before.length) := by
  have hboundary := Text.isBoundary_iff.mpr ⟨before, c :: after, htext, rfl⟩
  have hposition := Text.position_eq htext
  obtain ⟨more, hmore⟩ := Nat.exists_eq_add_one.mpr c.utf8Size_pos
  -- what becomes of the bytes behind the first one
  have hinside : ∀ offset ∈ List.range' ((Text.encodeChars before).length + 1) more,
      splicedAt Text.encode (Text.encode text) calls offset =
        if calls.any (Call.covers (Text.encode text).length (Text.encodeChars before).length)
        then [] else (Text.encode text)[offset]?.toList := by
    intro offset hoffset
    have := List.mem_range'_1.mp hoffset
    exact splicedAt_inside hcalls htext (by omega) (by omega)
  rw [hmore, List.range'_succ, List.flatMap_cons, List.flatMap_congr hinside, ← hposition]
  refine splicedAt_position hcalls hboundary ?_ ?_
  · intro hcovered
    exact List.flatMap_eq_nil_iff.mpr fun _ _ => if_pos hcovered
  · intro hcovered
    have hbytes := flatMap_getElem? (Text.encode text) (Text.encodeChars before).length (more + 1)
    rw [List.range'_succ, List.flatMap_cons] at hbytes
    simp only [hcovered, Bool.false_eq_true, if_false]
    rw [hbytes, ← hmore, Text.slice_character htext, hposition]
    simp [htext, Text.encodeChars]

/-- At the end there are only texts. -/
theorem splicedAt_length :
    splicedAt Text.encode (Text.encode text) calls (Text.encode text).length =
      Text.encodeChars (splicedAt String.toList text.toList
        (calls.map (Call.onCharacters text)) text.toList.length) := by
  have hend := splicedAt_position hcalls (Text.isBoundary_length text) (fun _ => rfl) fun _ => by
    rw [Text.position_length, List.getElem?_eq_none (Nat.le_refl _),
      List.getElem?_eq_none (Nat.le_refl _)]
    rfl
  rwa [List.append_nil, Text.position_length] at hend

/-- **Splicing bytes and splicing characters** come to the same text, if no call splits a
character. -/
theorem spliced_encode :
    spliced Text.encode (Text.encode text) calls =
      Text.encodeChars (spliced String.toList text.toList
        (calls.map (Call.onCharacters text))) := by
  have hfrom : ∀ before after, text.toList = before ++ after →
      (List.range' (Text.encodeChars before).length
          ((Text.encode text).length + 1 - (Text.encodeChars before).length)).flatMap
          (splicedAt Text.encode (Text.encode text) calls) =
        Text.encodeChars ((List.range' before.length
          (text.toList.length + 1 - before.length)).flatMap (splicedAt String.toList text.toList
            (calls.map (Call.onCharacters text)))) := by
    intro before after htext
    induction after generalizing before with
    | nil =>
      obtain rfl : text.toList = before := by simpa using htext
      have hlength : (Text.encodeChars text.toList).length = (Text.encode text).length := rfl
      rw [hlength, Nat.add_sub_cancel_left, Nat.add_sub_cancel_left, List.range'_one,
        List.range'_one, List.flatMap_singleton, List.flatMap_singleton, splicedAt_length hcalls]
    | cons c after ih =>
      have hnext : text.toList = (before ++ [c]) ++ after := by simpa using htext
      have hstop := (Text.isBoundary_iff.mpr ⟨before ++ [c], after, hnext, rfl⟩).le_length
      have hlength : before.length + 1 ≤ text.toList.length := by
        rw [hnext]
        simp
      have hrest := ih (before ++ [c]) hnext
      rw [Text.length_encodeChars_concat, List.length_append, List.length_singleton] at hrest
      rw [Text.length_encodeChars_concat] at hstop
      rw [range'_split (Nat.le_add_right _ c.utf8Size) (Nat.le_succ_of_le hstop),
        range'_split (Nat.le_add_right _ 1) (Nat.le_succ_of_le hlength), List.flatMap_append,
        List.flatMap_append, Text.encodeChars_append, hrest, Nat.add_sub_cancel_left,
        Nat.add_sub_cancel_left, List.range'_one, List.flatMap_singleton,
        splicedAt_character hcalls htext]
  have hall := hfrom [] text.toList rfl
  rwa [Text.encodeChars, List.flatMap_nil, List.length_nil, List.length_nil, Nat.sub_zero,
    Nat.sub_zero, ← List.range_eq_range', ← List.range_eq_range'] at hall

end

/-- **A draft is rendered character by character.** If no call splits a character and none begins
in what another one has replaced, reading the rendered bytes succeeds, and the text is what the
calls make of the characters of the source, at the positions that their offsets stand for. -/
theorem render_eq_characters {text : String} {calls : List Call} {draft : Draft}
    (hcalls : (⟨Text.encode text, []⟩ : Draft).callAll calls = .ok draft)
    (hbounds : ∀ call ∈ calls, call.OnBoundaries text)
    (hfits : ∀ start reached, draft.render ≠ .error (.overlap start reached)) :
    draft.render = .ok (String.ofList
      (spliced String.toList text.toList (calls.map (Call.onCharacters text)))) := by
  rw [(render_eq_spliced hcalls hfits).2, spliced_encode hbounds,
    ← Text.encode_ofList, readText_encode]

/-- Characters of one to four bytes, one of which gives way between two texts that are put in. -/
theorem render_eq_characters_widths :
    let calls : List Call := [.insert 3 "→", .replace 3 6 "é", .prepend 3 "«", .append "!",
      .replace 1 3 ""]
    ∃ draft, (⟨Text.encode "aä€𝄞", []⟩ : Draft).callAll calls = .ok draft ∧
      (∀ call ∈ calls, call.OnBoundaries "aä€𝄞") ∧
      (∀ start reached, draft.render ≠ .error (.overlap start reached)) ∧
      calls.map (Call.onCharacters "aä€𝄞") = [.insert 2 "→", .replace 2 3 "é", .prepend 2 "«",
        .append "!", .replace 1 2 ""] ∧
      draft.render = .ok "a«→é𝄞!" := by
  intro calls
  let edits : List Edit := [⟨3, 3, "→", 1⟩, ⟨3, 6, "é", 2⟩, ⟨3, 3, "«", -3⟩, ⟨10, 10, "!", 4⟩,
    ⟨1, 3, "", 5⟩]
  have hcalls : (⟨Text.encode "aä€𝄞", []⟩ : Draft).callAll calls =
      .ok ⟨Text.encode "aä€𝄞", edits⟩ := by decide +kernel
  have hbounds : ∀ call ∈ calls, call.OnBoundaries "aä€𝄞" := by
    simp only [calls, List.forall_mem_cons]
    exact ⟨⟨⟨3, rfl, by decide +kernel⟩, ⟨3, rfl, by decide +kernel⟩⟩,
      ⟨⟨3, rfl, by decide +kernel⟩, ⟨6, rfl, by decide +kernel⟩⟩,
      ⟨⟨3, rfl, by decide +kernel⟩, ⟨3, rfl, by decide +kernel⟩⟩,
      ⟨⟨10, by decide +kernel, by decide +kernel⟩, ⟨10, by decide +kernel, by decide +kernel⟩⟩,
      ⟨⟨1, rfl, by decide +kernel⟩, ⟨3, rfl, by decide +kernel⟩⟩, by simp⟩
  have hfits : ∀ start reached, (⟨Text.encode "aä€𝄞", edits⟩ : Draft).render ≠
      .error (.overlap start reached) := by
    have hsorted : edits.mergeSort Edit.precedes = [⟨1, 3, "", 5⟩, ⟨3, 3, "«", -3⟩,
        ⟨3, 3, "→", 1⟩, ⟨3, 6, "é", 2⟩, ⟨10, 10, "!", 4⟩] := by
      simp [edits, List.mergeSort, List.MergeSort.Internal.splitInTwo, Edit.precedes,
        Edit.isInsertion]
    have hbytes : (⟨Text.encode "aä€𝄞", edits⟩ : Draft).renderBytes =
        .ok (Text.encode "a«→é𝄞!") := by
      rw [renderBytes, hsorted]
      decide +kernel
    simp [render, hbytes, readText_encode, bind, Except.bind]
  refine ⟨_, hcalls, hbounds, hfits, by decide +kernel, ?_⟩
  rw [render_eq_characters hcalls hbounds hfits]
  exact congrArg (fun chars => Except.ok (String.ofList chars)) (by decide +kernel)

end Draft

end Seams
