import Mathlib.Tactic.IntervalCases
import Mathlib.Tactic.SplitIfs
import Seams.Text.Quoted

/-!
# String literals that read back

Generated code hands names over as string literals, and whoever runs it reads them back. A literal
is read here the way JSON and ECMAScript agree on: from quote to quote, with escapes in between, to
UTF-16 units and from those to characters. Reading is undone by quoting for every text, so a literal
is worth its text, and two texts never share a literal.

The reader is a machine that looks at one character at a time, so whatever stands behind a
character matters only through the rest of the list. One lemma on a single character carries
everything: what `escape` writes, the machine reads as the units of that character.

## Main definitions

* `Text.Reading`, `Text.readUnits` — reading the units of a literal
* `Text.decodeUnits` — the text that units stand for
* `Text.readLiteral` — reading a literal, with what stands behind it
* `Text.IsLiteral` — a literal for a text

## Main results

* `Text.readUnits_escape` — a character reads back as its units
* `Text.decodeUnits_units` — units stand for the text that they come from
* `Text.readLiteral_quoteChars`, `Text.readUnits_body` — a literal reads back, and only its last
  character ends it
* `Text.isLiteral_quote`, `Text.quote_inj` — every text has a literal, and no two share one
-/

namespace Seams.Text

/-! ### Reading units -/

/-- The value of a hexadecimal digit. -/
def hexValue? (c : Char) : Option Nat :=
  if '0' ≤ c ∧ c ≤ '9' then some (c.toNat - '0'.toNat)
  else if 'a' ≤ c ∧ c ≤ 'f' then some (c.toNat - 'a'.toNat + 10)
  else if 'A' ≤ c ∧ c ≤ 'F' then some (c.toNat - 'A'.toNat + 10)
  else none

/-- The unit that a letter stands for behind a backslash. -/
def escapedUnit? (letter : Char) : Option Nat :=
  match letter with
  | '"' => some 0x22
  | '\\' => some 0x5C
  | '/' => some 0x2F
  | 'b' => some 0x08
  | 'f' => some 0x0C
  | 'n' => some 0x0A
  | 'r' => some 0x0D
  | 't' => some 0x09
  | _ => none

/-- Where in a literal a character stands: by itself, behind a backslash, or where hexadecimal
digits are called for, so many more and with the value of those before. -/
inductive Reading where
  | plain
  | escaped
  | digits (more value : Nat)

/-- Put units in front of what was read. -/
def prefixUnits (front : List Nat) (read : Option (List Nat × List Char)) :
    Option (List Nat × List Char) :=
  read.map fun (units, rest) => (front ++ units, rest)

/-- Read units up to the closing quote, and tell what stands behind it. -/
def readUnits : Reading → List Char → Option (List Nat × List Char)
  | _, [] => none
  | .plain, c :: rest =>
    if c = '"' then some ([], rest)
    else if c = '\\' then readUnits .escaped rest
    else if 0x20 ≤ c.toNat then prefixUnits (units c) (readUnits .plain rest)
    else none
  | .escaped, c :: rest =>
    if c = 'u' then readUnits (.digits 3 0) rest
    else
      match escapedUnit? c with
      | some unit => prefixUnits [unit] (readUnits .plain rest)
      | none => none
  | .digits more value, c :: rest =>
    match hexValue? c, more with
    | some digit, 0 => prefixUnits [16 * value + digit] (readUnits .plain rest)
    | some digit, more + 1 => readUnits (.digits more (16 * value + digit)) rest
    | none, _ => none

/-! ### Reading characters back -/

theorem hexValue?_digitChar {digit : Nat} (h : digit < 16) :
    hexValue? (Nat.digitChar digit) = some digit := by
  interval_cases digit <;> rfl

/-- Four digits read back as the unit that they were made from. -/
theorem readUnits_unitEscape {unit : Nat} (h : unit < 0x10000) (rest : List Char) :
    readUnits .plain (unitEscape unit ++ rest) = prefixUnits [unit] (readUnits .plain rest) := by
  have hdigit : ∀ weight, hexValue? (Nat.digitChar (unit / weight % 16)) =
      some (unit / weight % 16) := fun weight => hexValue?_digitChar (Nat.mod_lt _ (by omega))
  have hvalue : 16 * (16 * (16 * (16 * 0 + unit / 0x1000 % 16) + unit / 0x100 % 16) +
      unit / 0x10 % 16) + unit / 1 % 16 = unit := by omega
  show readUnits (.digits 3 0) (Nat.digitChar (unit / 0x1000 % 16) ::
    Nat.digitChar (unit / 0x100 % 16) :: Nat.digitChar (unit / 0x10 % 16) ::
      Nat.digitChar (unit / 1 % 16) :: rest) = _
  simp only [readUnits, hdigit, hvalue]

/-- A short escape is a letter that reads back as the character. -/
theorem shortEscape?_eq_some {c letter : Char} (h : shortEscape? c = some letter) :
    letter ≠ 'u' ∧ escapedUnit? letter = some c.toNat := by
  rw [shortEscape?] at h
  split_ifs at h with hquote hslash hnewline hreturn htab hback hfeed <;> cases h
  · exact ⟨by decide, by rw [hquote]; rfl⟩
  · exact ⟨by decide, by rw [hslash]; rfl⟩
  · exact ⟨by decide, by rw [hnewline]; rfl⟩
  · exact ⟨by decide, by rw [hreturn]; rfl⟩
  · exact ⟨by decide, by rw [htab]; rfl⟩
  · exact ⟨by decide, by rw [hback]; rfl⟩
  · exact ⟨by decide, by rw [hfeed]; rfl⟩

/-- Only characters of one unit have short escapes. -/
theorem units_of_shortEscape? {c letter : Char} (h : shortEscape? c = some letter) :
    units c = [c.toNat] := by
  have hsmall : c.toNat < 0x80 := by
    rw [shortEscape?] at h
    split_ifs at h with hquote hslash hnewline hreturn htab hback hfeed
    all_goals first | omega | (subst c; decide)
  rw [units, if_pos (by omega)]

/-- A character without a short escape neither ends a literal nor begins an escape. -/
theorem ne_of_shortEscape?_eq_none {c : Char} (h : shortEscape? c = none) :
    c ≠ '"' ∧ c ≠ '\\' := by
  constructor
  · rintro rfl
    cases h
  · rintro rfl
    cases h

/-- Characters are no surrogates. -/
theorem toNat_valid (c : Char) :
    c.toNat < 0xD800 ∨ 0xDFFF < c.toNat ∧ c.toNat < 0x110000 :=
  c.valid

theorem units_lt (c : Char) : ∀ unit ∈ units c, unit < 0x10000 := by
  have hvalid := toNat_valid c
  intro unit hunit
  rw [units] at hunit
  split at hunit
  · rename_i hlt
    rwa [List.mem_singleton.mp hunit]
  · simp only [List.mem_cons, List.not_mem_nil, or_false] at hunit
    have hhigh : (c.toNat - 0x10000) / 0x400 < 0x400 := by omega
    have hlow : (c.toNat - 0x10000) % 0x400 < 0x400 := Nat.mod_lt _ (by omega)
    rcases hunit with hunit | hunit
    · omega
    · omega

theorem prefixUnits_append (front more : List Nat) (read : Option (List Nat × List Char)) :
    prefixUnits front (prefixUnits more read) = prefixUnits (front ++ more) read := by
  cases read <;> simp [prefixUnits]

theorem prefixUnits_nil (read : Option (List Nat × List Char)) : prefixUnits [] read = read := by
  cases read <;> rfl

theorem readUnits_unitEscapes {list : List Nat} (h : ∀ unit ∈ list, unit < 0x10000)
    (rest : List Char) :
    readUnits .plain (list.flatMap unitEscape ++ rest) =
      prefixUnits list (readUnits .plain rest) := by
  induction list with
  | nil => exact (prefixUnits_nil _).symm
  | cons unit list ih =>
    obtain ⟨hunit, hlist⟩ := List.forall_mem_cons.mp h
    rw [List.flatMap_cons, List.append_assoc, readUnits_unitEscape hunit, ih hlist,
      prefixUnits_append]
    rfl

/-- **A character reads back** as its units, whatever stands behind it. -/
theorem readUnits_escape (c : Char) (rest : List Char) :
    readUnits .plain (escape c ++ rest) = prefixUnits (units c) (readUnits .plain rest) := by
  rw [escape]
  cases hshort : shortEscape? c with
  | some letter =>
    obtain ⟨hne, hunit⟩ := shortEscape?_eq_some hshort
    show readUnits .plain ('\\' :: letter :: rest) = _
    simp only [readUnits, hne, hunit, units_of_shortEscape? hshort]
    rfl
  | none =>
    obtain ⟨hquote, hslash⟩ := ne_of_shortEscape?_eq_none hshort
    dsimp only
    split
    · rename_i hprintable
      show readUnits .plain (c :: rest) = _
      rw [readUnits, if_neg hquote, if_neg hslash, if_pos hprintable.1]
    · exact readUnits_unitEscapes (units_lt c) rest

/-- The characters of a text read back as its units. -/
theorem readUnits_flatMap_escape (text rest : List Char) :
    readUnits .plain (text.flatMap escape ++ rest) =
      prefixUnits (text.flatMap units) (readUnits .plain rest) := by
  induction text with
  | nil => exact (prefixUnits_nil _).symm
  | cons c text ih =>
    rw [List.flatMap_cons, List.append_assoc, readUnits_escape, ih, prefixUnits_append]
    rfl

/-! ### From units to text -/

/-- The text that units stand for. A unit that is one half of a surrogate pair stands for nothing
without the other half. -/
def decodeUnits : List Nat → Option (List Char)
  | [] => some []
  | unit :: rest =>
    if 0xD800 ≤ unit ∧ unit ≤ 0xDBFF then
      match rest with
      | low :: rest =>
        if 0xDC00 ≤ low ∧ low ≤ 0xDFFF then
          (decodeUnits rest).map
            (Char.ofNat (0x10000 + (unit - 0xD800) * 0x400 + (low - 0xDC00)) :: ·)
        else none
      | [] => none
    else if 0xDC00 ≤ unit ∧ unit ≤ 0xDFFF then none
    else (decodeUnits rest).map (Char.ofNat unit :: ·)

/-- The units of a character stand for it. -/
theorem decodeUnits_units_append (c : Char) (rest : List Nat) :
    decodeUnits (units c ++ rest) = (decodeUnits rest).map (c :: ·) := by
  have hvalid := toNat_valid c
  rw [units]
  split
  · rename_i hlt
    have hhigh : ¬ (0xD800 ≤ c.toNat ∧ c.toNat ≤ 0xDBFF) := by omega
    have hlow : ¬ (0xDC00 ≤ c.toNat ∧ c.toNat ≤ 0xDFFF) := by omega
    rw [List.singleton_append, decodeUnits.eq_def]
    dsimp only
    rw [if_neg hhigh, if_neg hlow, Char.ofNat_toNat]
  · rename_i hge
    have hhigh : 0xD800 ≤ 0xD800 + (c.toNat - 0x10000) / 0x400 ∧
        0xD800 + (c.toNat - 0x10000) / 0x400 ≤ 0xDBFF := by omega
    have hlow : 0xDC00 ≤ 0xDC00 + (c.toNat - 0x10000) % 0x400 ∧
        0xDC00 + (c.toNat - 0x10000) % 0x400 ≤ 0xDFFF := by omega
    have hvalue : 0x10000 + (0xD800 + (c.toNat - 0x10000) / 0x400 - 0xD800) * 0x400 +
        (0xDC00 + (c.toNat - 0x10000) % 0x400 - 0xDC00) = c.toNat := by omega
    show decodeUnits (_ :: _ :: rest) = _
    rw [decodeUnits, if_pos hhigh, if_pos hlow, hvalue, Char.ofNat_toNat]

/-- **Units stand for the text that they come from.** -/
theorem decodeUnits_units (text : List Char) : decodeUnits (text.flatMap units) = some text := by
  induction text with
  | nil => rfl
  | cons c text ih =>
    rw [List.flatMap_cons, decodeUnits_units_append, ih]
    rfl

/-! ### Literals -/

/-- Read the literal that a list of characters begins with, and tell what stands behind it. -/
def readLiteral : List Char → Option (List Char × List Char)
  | '"' :: rest => do
    let (units, rest) ← readUnits .plain rest
    return (← decodeUnits units, rest)
  | _ => none

/-- **A literal reads back** as its text, and it ends where it ends. -/
theorem readLiteral_quoteChars (text rest : List Char) :
    readLiteral (quoteChars text ++ rest) = some (text, rest) := by
  have hbody : readUnits .plain (text.flatMap escape ++ ('"' :: rest)) =
      some (text.flatMap units, rest) := by
    rw [readUnits_flatMap_escape]
    simp [readUnits, prefixUnits]
  have hsplit : quoteChars text ++ rest = '"' :: (text.flatMap escape ++ ('"' :: rest)) := by
    simp [quoteChars]
  rw [hsplit]
  show (readUnits .plain _).bind _ = _
  rw [hbody, Option.bind_some]
  show (decodeUnits _).bind _ = _
  rw [decodeUnits_units]
  rfl

/-- Without the last quote a literal has no end: nothing inside closes it. -/
theorem readUnits_body (text : List Char) : readUnits .plain (text.flatMap escape) = none := by
  have hread := readUnits_flatMap_escape text []
  rwa [List.append_nil] at hread

/-! ### The characters of literals -/

/-- A printable ASCII character. -/
def Printable (c : Char) : Prop :=
  0x20 ≤ c.toNat ∧ c.toNat ≤ 0x7E

instance (c : Char) : Decidable (Printable c) :=
  inferInstanceAs (Decidable (_ ∧ _))

theorem printable_digitChar {digit : Nat} (h : digit < 16) : Printable (Nat.digitChar digit) := by
  interval_cases digit <;> decide

theorem printable_of_mem_unitEscape {unit : Nat} : ∀ c ∈ unitEscape unit, Printable c := by
  have hdigit : ∀ weight, Printable (Nat.digitChar (unit / weight % 16)) :=
    fun weight => printable_digitChar (Nat.mod_lt _ (by omega))
  simp only [unitEscape, List.forall_mem_cons, hdigit, true_and]
  exact ⟨by decide, by decide, nofun⟩

theorem printable_of_shortEscape? {c letter : Char} (h : shortEscape? c = some letter) :
    Printable letter := by
  rw [shortEscape?] at h
  split_ifs at h <;> cases h <;> decide

/-- A character is escaped with printable characters only. -/
theorem printable_of_mem_escape {c : Char} : ∀ e ∈ escape c, Printable e := by
  rw [escape]
  cases hshort : shortEscape? c with
  | some letter =>
    simpa [printable_of_shortEscape? hshort] using (by decide : Printable '\\')
  | none =>
    dsimp only
    split
    · rename_i hprintable
      simpa [Printable] using hprintable
    · intro e he
      obtain ⟨unit, -, he⟩ := List.mem_flatMap.mp he
      exact printable_of_mem_unitEscape e he

/-- **All characters of a literal are printable**, whatever text it is for. -/
theorem printable_of_mem_quoteChars {text : List Char} : ∀ c ∈ quoteChars text, Printable c := by
  have hquote : Printable '"' := by decide
  intro c hc
  rw [quoteChars, List.mem_cons, List.mem_append, List.mem_singleton] at hc
  rcases hc with rfl | hc | rfl
  · exact hquote
  · obtain ⟨e, -, hc⟩ := List.mem_flatMap.mp hc
    exact printable_of_mem_escape c hc
  · exact hquote

/-! ### What a literal is -/

/-- A literal for a text. -/
structure IsLiteral (literal text : String) : Prop where
  printable : ∀ c ∈ literal.toList, Printable c
  /-- It ends with the quote that closes it, and nothing before does. -/
  closed : ∃ body, literal.toList = '"' :: (body ++ ['"']) ∧ readUnits .plain body = none
  /-- It reads back as the text, whatever stands behind it. -/
  reads : ∀ rest, readLiteral (literal.toList ++ rest) = some (text.toList, rest)

/-- **Every text has a literal.** -/
theorem isLiteral_quote (text : String) : IsLiteral (quote text) text := by
  have hchars : (quote text).toList = quoteChars text.toList := String.toList_ofList
  refine ⟨?_, ⟨text.toList.flatMap escape, hchars, readUnits_body text.toList⟩, fun rest => ?_⟩
  · rw [hchars]
    exact printable_of_mem_quoteChars
  · rw [hchars]
    exact readLiteral_quoteChars text.toList rest

-- Beyond the first plane a character takes two units.
example : quote "é😀" = "\"\\u00e9\\ud83d\\ude00\"" := by decide +kernel

/-- A literal is for one text only. -/
theorem IsLiteral.unique {literal text other : String} (h : IsLiteral literal text)
    (h' : IsLiteral literal other) : text = other := by
  have hread := h.reads []
  rw [h'.reads] at hread
  have hlist : other.toList = text.toList := congrArg Prod.fst (Option.some.inj hread)
  exact (String.toList_inj.mp hlist).symm

/-- Texts with one literal are the same. -/
theorem quote_inj {text other : String} : quote text = quote other ↔ text = other := by
  constructor
  · intro h
    exact (isLiteral_quote text).unique (h ▸ isLiteral_quote other)
  · exact congrArg quote

end Seams.Text
