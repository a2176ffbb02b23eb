import Mathlib.Data.List.Basic
import Seams.Options

/-!
# Options given by name

Options come in under names, in an order, and one of them has two spellings. Their values are
gathered in one pass, which stops at a name that is not known; only what the pass leaves is
checked. So an unknown name is complained about before any value is looked at, and of a value that
is overridden by a later one nothing is ever seen, however wrong it is.

The outcome is told by three questions about the entries: which is the first name that is not
known, and which values come last under the name of the version and under the spellings of the
switch.

## Main definitions

* `OptionError.subject` — what an error complains about
* `Settings.lastGiven`, `Settings.updated` — the value that counts, and the settings with those
  values
* `Settings.FirstUnknown` — a name is the first one that is not known

## Main results

* `OptionError.subject_infix` — an error is reported with what it complains about
* `Settings.ofTable_eq` — gathering and checking options, in closed form
* `Settings.ofTable_answers` — when options are accepted, and which error they get if not
-/

namespace Seams

/-! ### Errors -/

/-- What an error complains about: a name, a value, or what is told of an option. -/
def OptionError.subject : OptionError → String
  | .unknownName name => name
  | .unsupportedVersion version => version.shown
  | .notBoolean => "unsafe_const"
  | .givenTwice => "config"

theorem toList_infix_append (front text back : String) :
    text.toList <:+: (front ++ text ++ back).toList :=
  ⟨front.toList, back.toList, by rw [String.toList_append, String.toList_append]⟩

/-- The report of an error names what it complains about. -/
theorem OptionError.subject_infix (error : OptionError) :
    error.subject.toList <:+: error.message.toList := by
  cases error with
  | unknownName name =>
    have hmessage : (unknownName name).message = "Unknown option '" ++ name ++
        ("' in configuration. " ++ "Valid options: ['unsafeConst', 'unsafe_const', 'version']") :=
      String.append_assoc ..
    rw [hmessage]
    exact toList_infix_append ..
  | unsupportedVersion version =>
    exact toList_infix_append "Invalid version: " version.shown ". Expected one of ['1.0']"
  | notBoolean => exact ⟨"Option '".toList, "' must be a boolean".toList, by decide⟩
  | givenTwice => exact ⟨"Pass either a ".toList, " or keyword options, not both".toList, by decide⟩

namespace Settings

/-! ### Values that count -/

/-- The spellings of the switch. -/
def switchNames : List String := ["unsafe_const", "unsafeConst"]

/-- The names under which options are known. -/
def knownNames : List String := "version" :: switchNames

/-- The value that counts among those given under some names: the last one. -/
def lastGiven (names : List String) (entries : List (String × Setting)) : Option Setting :=
  (entries.filter fun entry => names.contains entry.1).getLast?.map Prod.snd

/-- The settings with the values that count among some entries. -/
def updated (settings : Settings) (entries : List (String × Setting)) : Settings where
  unsafeConst := (lastGiven switchNames entries).getD settings.unsafeConst
  version := (lastGiven ["version"] entries).getD settings.version

/-- A name is the first one that is not known. -/
def FirstUnknown (names : List String) (name : String) : Prop :=
  name ∉ knownNames ∧
    ∃ before after, names = before ++ name :: after ∧ ∀ earlier ∈ before, earlier ∈ knownNames

/-- A value under other names does not count. -/
theorem lastGiven_append_cons_of_not_mem {names : List String} {entry : String × Setting}
    (h : entry.1 ∉ names) (before after : List (String × Setting)) :
    lastGiven names (before ++ entry :: after) = lastGiven names (before ++ after) := by
  simp [lastGiven, h]

/-- A value counts unless there is a later one. -/
theorem lastGiven_append (names : List String) (before after : List (String × Setting)) :
    lastGiven names (before ++ after) =
      (lastGiven names after).or (lastGiven names before) := by
  rw [lastGiven, List.filter_append, List.getLast?_append, Option.map_or]
  rfl

theorem lastGiven_singleton (names : List String) (entry : String × Setting) :
    lastGiven names [entry] = if entry.1 ∈ names then some entry.2 else none := by
  by_cases h : entry.1 ∈ names <;> simp [lastGiven, h]

/-- What comes before a value does not count. -/
theorem lastGiven_append_cons_of_mem {names : List String} {entry : String × Setting}
    (h : entry.1 ∈ names) (before after : List (String × Setting)) :
    lastGiven names (before ++ entry :: after) = (lastGiven names after).or (some entry.2) := by
  rw [lastGiven_append, ← List.singleton_append, lastGiven_append, lastGiven_singleton, if_pos h,
    Option.or_assoc, Option.some_or]

/-- Values that come in later are put on top of earlier ones. -/
theorem updated_updated (settings : Settings) (before after : List (String × Setting)) :
    (settings.updated before).updated after = settings.updated (before ++ after) := by
  simp only [updated, lastGiven_append, Option.getD_or]

/-! ### Gathering -/

theorem set_of_known {name : String} (h : name ∈ knownNames) (settings : Settings)
    (value : Setting) : settings.set name value = .ok (settings.updated [(name, value)]) := by
  have hname : name = "version" ∨ name = "unsafe_const" ∨ name = "unsafeConst" := by
    simpa [knownNames, switchNames] using h
  simp only [updated, lastGiven_singleton]
  obtain rfl | rfl | rfl := hname <;> rfl

theorem set_of_unknown {name : String} (h : name ∉ knownNames) (settings : Settings)
    (value : Setting) : settings.set name value = .error (.unknownName name) := by
  have hname : ¬name = "version" ∧ ¬name = "unsafe_const" ∧ ¬name = "unsafeConst" := by
    simpa [knownNames, switchNames] using h
  rw [set, if_neg (not_or.mpr hname.2), if_neg hname.1]

/-- Options are gathered up to the first name that is not known. -/
theorem foldlM_set (settings : Settings) (entries : List (String × Setting)) :
    entries.foldlM (fun settings entry => settings.set entry.1 entry.2) settings =
      match (entries.map Prod.fst).find? (!knownNames.contains ·) with
      | some name => .error (.unknownName name)
      | none => .ok (settings.updated entries) := by
  induction entries generalizing settings with
  | nil => rfl
  | cons entry rest ih =>
    rw [List.foldlM_cons, List.map_cons]
    by_cases hknown : entry.1 ∈ knownNames
    · rw [set_of_known hknown, List.find?_cons_of_neg (by simpa using hknown)]
      show rest.foldlM _ (settings.updated [entry]) = _
      rw [ih, updated_updated]
      rfl
    · rw [set_of_unknown hknown, List.find?_cons_of_pos (by simpa using hknown)]
      rfl

/-- **Options in closed form**: the first name that is not known, or else what comes of checking
the values that count. -/
theorem ofTable_eq (table : Table Setting) :
    ofTable table =
      match table.names.find? (!knownNames.contains ·) with
      | some name => .error (.unknownName name)
      | none => (updated {} table.entries).validate.map fun _ => updated {} table.entries := by
  rw [ofTable, foldlM_set, Table.names]
  cases (table.entries.map Prod.fst).find? (!knownNames.contains ·) with
  | some name => rfl
  | none =>
    show (validate _).bind (fun _ => .ok _) = _
    cases (updated {} table.entries).validate <;> rfl

/-! ### Unknown names -/

/-- Whether every name is known. -/
def AllKnown (table : Table Setting) : Prop :=
  ∀ name ∈ table.names, name ∈ knownNames

theorem find?_unknown_iff {names : List String} {name : String} :
    names.find? (!knownNames.contains ·) = some name ↔ FirstUnknown names name := by
  rw [List.find?_eq_some_iff_append]
  simp [FirstUnknown]

theorem ofTable_of_firstUnknown {table : Table Setting} {name : String}
    (h : FirstUnknown table.names name) : ofTable table = .error (.unknownName name) := by
  rw [ofTable_eq, find?_unknown_iff.mpr h]

theorem ofTable_of_allKnown {table : Table Setting} (h : AllKnown table) :
    ofTable table =
      (updated {} table.entries).validate.map fun _ => updated {} table.entries := by
  have hnone : table.names.find? (!knownNames.contains ·) = none := by
    simpa [AllKnown, List.find?_eq_none] using h
  rw [ofTable_eq, hnone]

/-- Where some name is not known, one of them is the first. -/
theorem allKnown_or_firstUnknown (table : Table Setting) :
    AllKnown table ∨ ∃ name, FirstUnknown table.names name := by
  cases hfind : table.names.find? (!knownNames.contains ·) with
  | some name => exact .inr ⟨name, find?_unknown_iff.mp hfind⟩
  | none => exact .inl (by simpa [AllKnown, List.find?_eq_none] using hfind)

theorem FirstUnknown.not_allKnown {table : Table Setting} {name : String}
    (h : FirstUnknown table.names name) : ¬AllKnown table := by
  obtain ⟨hunknown, before, after, hnames, -⟩ := h
  exact fun hall => hunknown (hall name (hnames ▸ by simp))

/-! ### Values -/

/-- Whether the version, if there is one, is supported. -/
def VersionSupported (table : Table Setting) : Prop :=
  ∀ version, lastGiven ["version"] table.entries = some version → version = supportedVersion

/-- Whether the switch, if it is given, is a boolean where it is given last. -/
def SwitchBoolean (table : Table Setting) : Prop :=
  ∀ value, lastGiven switchNames table.entries = some value → ∃ flag, value = .flag flag

theorem updated_version_iff {table : Table Setting} :
    (updated {} table.entries).version = supportedVersion ↔ VersionSupported table := by
  rw [VersionSupported, updated]
  cases lastGiven ["version"] table.entries <;> simp [supportedVersion]

theorem updated_unsafeConst_iff {table : Table Setting} :
    (∃ flag, (updated {} table.entries).unsafeConst = .flag flag) ↔ SwitchBoolean table := by
  rw [SwitchBoolean, updated]
  cases lastGiven switchNames table.entries <;> simp

theorem validate_of_unsupported {settings : Settings} (h : settings.version ≠ supportedVersion) :
    settings.validate = .error (.unsupportedVersion settings.version) :=
  if_neg h

theorem validate_of_flag {settings : Settings} {flag : Bool}
    (hversion : settings.version = supportedVersion) (hflag : settings.unsafeConst = .flag flag) :
    settings.validate = .ok ⟨flag⟩ := by
  rw [validate, if_pos hversion, hflag]

theorem validate_of_not_flag {settings : Settings} (hversion : settings.version = supportedVersion)
    (hflag : ¬∃ flag, settings.unsafeConst = .flag flag) :
    settings.validate = .error .notBoolean := by
  rw [validate, if_pos hversion]
  split
  · rename_i flag heq
    exact absurd ⟨flag, heq⟩ hflag
  · rfl

/-! ### The answer -/

section Answers

variable {table : Table Setting}

/-- A version that is not supported was given. -/
theorem exists_version_of_unsupported (h : ¬VersionSupported table) :
    ∃ version, lastGiven ["version"] table.entries = some version ∧ version ≠ supportedVersion ∧
      (updated {} table.entries).version = version := by
  rw [VersionSupported] at h
  push Not at h
  obtain ⟨version, hgiven, hne⟩ := h
  exact ⟨version, hgiven, hne, by rw [updated, hgiven]; rfl⟩

/-- What can come of options, and when. -/
theorem ofTable_cases (table : Table Setting) :
    (∃ name, FirstUnknown table.names name ∧ ofTable table = .error (.unknownName name)) ∨
    (AllKnown table ∧ ∃ version, lastGiven ["version"] table.entries = some version ∧
      version ≠ supportedVersion ∧ ofTable table = .error (.unsupportedVersion version)) ∨
    (AllKnown table ∧ VersionSupported table ∧ ¬SwitchBoolean table ∧
      ofTable table = .error .notBoolean) ∨
    (AllKnown table ∧ VersionSupported table ∧ SwitchBoolean table ∧
      ofTable table = .ok (updated {} table.entries)) := by
  obtain hknown | ⟨name, hname⟩ := allKnown_or_firstUnknown table
  · rw [ofTable_of_allKnown hknown]
    by_cases hversion : VersionSupported table
    · by_cases hswitch : SwitchBoolean table
      · obtain ⟨flag, hflag⟩ := updated_unsafeConst_iff.mpr hswitch
        rw [validate_of_flag (updated_version_iff.mpr hversion) hflag]
        exact .inr (.inr (.inr ⟨hknown, hversion, hswitch, rfl⟩))
      · rw [validate_of_not_flag (updated_version_iff.mpr hversion)
          (mt updated_unsafeConst_iff.mp hswitch)]
        exact .inr (.inr (.inl ⟨hknown, hversion, hswitch, rfl⟩))
    · obtain ⟨version, hgiven, hne, hupdated⟩ := exists_version_of_unsupported hversion
      rw [validate_of_unsupported (mt updated_version_iff.mp hversion), hupdated]
      exact .inr (.inl ⟨hknown, version, hgiven, hne, rfl⟩)
  · exact .inl ⟨name, hname, ofTable_of_firstUnknown hname⟩

/-- A value of the switch that is overridden later may as well not be there. -/
theorem ofTable_overridden {name other : String} (hname : name ∈ switchNames)
    (hother : other ∈ switchNames) (value last : Setting)
    (before between after : List (String × Setting)) :
    ofTable ⟨before ++ (name, value) :: between ++ (other, last) :: after⟩ =
      ofTable ⟨before ++ between ++ (other, last) :: after⟩ := by
  have hknown : name ∈ knownNames := List.mem_cons_of_mem _ hname
  have hversion : name ∉ ["version"] := by
    rintro hmem
    obtain rfl := List.mem_singleton.mp hmem
    exact absurd hname (by decide)
  have hupdated : updated {} (before ++ (name, value) :: between ++ (other, last) :: after) =
      updated {} (before ++ between ++ (other, last) :: after) := by
    have hlast : ∀ front, lastGiven switchNames (front ++ (other, last) :: after) =
        (lastGiven switchNames after).or (some last) :=
      fun front => lastGiven_append_cons_of_mem hother front after
    rw [updated, updated, hlast, hlast, List.append_assoc, List.cons_append,
      lastGiven_append_cons_of_not_mem hversion, List.append_assoc]
  have hnames : (before ++ (name, value) :: between ++ (other, last) :: after).map Prod.fst =
      before.map Prod.fst ++ name :: (between ++ (other, last) :: after).map Prod.fst := by
    simp
  rw [ofTable_eq, ofTable_eq, hupdated, Table.names, Table.names, hnames, List.find?_append,
    List.find?_cons_of_neg (by simpa using hknown), ← List.find?_append, ← List.map_append,
    ← List.append_assoc]

/-- **Options given by name** are accepted if every name is known, the version is supported and the
last value of the switch is a boolean; the settings have just these values, and the usual ones for
what is not given. If not, the error is about the first name that is not known; if there is none,
about the version; and if that is supported, about the switch. The report of an error names what it
is about. A value of the switch that is overridden later may as well not be there. -/
theorem ofTable_answers (table : Table Setting) :
    (∀ settings, ofTable table = .ok settings ↔
      AllKnown table ∧ VersionSupported table ∧ SwitchBoolean table ∧
        settings = updated {} table.entries) ∧
    (∀ name, ofTable table = .error (.unknownName name) ↔ FirstUnknown table.names name) ∧
    (∀ version, ofTable table = .error (.unsupportedVersion version) ↔
      AllKnown table ∧ lastGiven ["version"] table.entries = some version ∧
        version ≠ supportedVersion) ∧
    (ofTable table = .error .notBoolean ↔
      AllKnown table ∧ VersionSupported table ∧ ¬SwitchBoolean table) ∧
    (∀ error, ofTable table = .error error →
      error ≠ .givenTwice ∧ error.subject.toList <:+: error.message.toList) ∧
    ∀ before name value between other last after,
      table.entries = before ++ (name, value) :: between ++ (other, last) :: after →
      name ∈ switchNames → other ∈ switchNames →
      ofTable ⟨before ++ between ++ (other, last) :: after⟩ = ofTable table := by
  have hunknown : ∀ name, ofTable table = .error (.unknownName name) ↔
      FirstUnknown table.names name := by
    refine fun name => ⟨fun heq => ?_, ofTable_of_firstUnknown⟩
    obtain ⟨other, hother, h⟩ | ⟨-, _, -, -, h⟩ | ⟨-, -, -, h⟩ | ⟨-, -, -, h⟩ := ofTable_cases table
    · obtain rfl : other = name := by simpa [h] using heq
      exact hother
    all_goals simp [h] at heq
  have hreport : ∀ error, ofTable table = .error error →
      error ≠ .givenTwice ∧ error.subject.toList <:+: error.message.toList := by
    rintro error heq
    refine ⟨?_, error.subject_infix⟩
    rintro rfl
    obtain ⟨_, -, h⟩ | ⟨-, _, -, -, h⟩ | ⟨-, -, -, h⟩ | ⟨-, -, -, h⟩ := ofTable_cases table <;>
      simp [h] at heq
  have hoverridden : ∀ before name value between other last after,
      table.entries = before ++ (name, value) :: between ++ (other, last) :: after →
      name ∈ switchNames → other ∈ switchNames →
      ofTable ⟨before ++ between ++ (other, last) :: after⟩ = ofTable table := by
    rintro before name value between other last after hentries hname hother
    rw [← ofTable_overridden hname hother value, ← hentries]
  obtain ⟨name, hname, h⟩ | ⟨hknown, version, hgiven, hne, h⟩ |
    ⟨hknown, hversion, hswitch, h⟩ | ⟨hknown, hversion, hswitch, h⟩ := ofTable_cases table
  · have hnot : ¬AllKnown table := hname.not_allKnown
    exact ⟨by simp [h, hnot], hunknown, by simp [h, hnot], by simp [h, hnot], hreport, hoverridden⟩
  · have hnot : ¬VersionSupported table := fun hsupported => hne (hsupported version hgiven)
    refine ⟨by simp [h, hnot], hunknown, fun other => ?_, by simp [h, hnot], hreport, hoverridden⟩
    rw [h, hgiven]
    constructor
    · rintro ⟨⟩
      exact ⟨hknown, rfl, hne⟩
    · rintro ⟨-, ⟨⟩, -⟩
      rfl
  · refine ⟨by simp [h, hswitch], hunknown, fun other => ?_, by simp [h, hknown, hversion, hswitch],
      hreport, hoverridden⟩
    rw [h]
    exact ⟨nofun, fun hother => absurd (hversion other hother.2.1) hother.2.2⟩
  · refine ⟨fun settings => ?_, hunknown, fun other => ?_, by simp [h, hswitch], hreport,
      hoverridden⟩
    · simp [h, hknown, hversion, hswitch, eq_comm]
    · rw [h]
      exact ⟨nofun, fun hother => absurd (hversion other hother.2.1) hother.2.2⟩

-- An overridden value may be as wrong as it likes, and a wrong version is told before the switch.
example : ofTable ⟨[("unsafe_const", .text "yes"), ("unsafeConst", .flag true)]⟩ =
      .ok { unsafeConst := .flag true } ∧
    ofTable ⟨[("unsafeConst", .number 1), ("version", .absent)]⟩ =
      .error (.unsupportedVersion .absent) := by
  decide +kernel

end Answers

end Settings

end Seams
