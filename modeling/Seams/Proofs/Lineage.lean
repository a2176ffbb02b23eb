import Mathlib.Data.List.Basic
import Seams.Log.Registry

/-!
# Lineages of loggers

Above a logger stand the loggers of the names that its dotted name begins with, and the root above
all. Two ways lead up from a logger. The names themselves lead to all of these; the chain that
records take leads from logger to logger and only to those that exist, and where there are dots in
a row it may pass over one.

Names lead up in one line: what is above a name that is above is itself above, and of two names
above a third one is above the other. The chain never leaves this line.

## Main definitions

* `Registry.lineage` — the proper names of a logger and of all above it
* `Registry.RootApart` — the root logger has no second entry
* `Registry.IsBare` — no logger of a lineage has a handler

## Main results

* `mem_namesAbove_suffix` — what is above a name that is above
* `Registry.lineage_subset`, `Registry.lineage_total` — lineages are lines
* `Registry.exists_chainNames` — the chain follows the lineage
-/

namespace Seams

/-! ### Names above

Names are taken apart back to front, so the recursion is on reversed names. -/

section Reversed

variable {name rest : List Char} {dot c : Char} {upper : String}

theorem namesAboveReversed_of_dropWhile (h : name.dropWhile (· != '.') = dot :: c :: rest) :
    namesAboveReversed name =
      String.ofList (c :: rest).reverse :: namesAboveReversed (c :: rest) := by
  rw [namesAboveReversed]
  split
  · rename_i heq
    rw [h] at heq
    cases heq
    rfl
  · rename_i heq
    exact absurd h (heq _ _ _)

theorem namesAboveReversed_eq_nil
    (h : ∀ dot c rest, name.dropWhile (· != '.') = dot :: c :: rest → False) :
    namesAboveReversed name = [] := by
  rw [namesAboveReversed]
  split
  · rename_i heq
    exact (h _ _ _ heq).elim
  · rfl

theorem length_of_dropWhile (h : name.dropWhile (· != '.') = dot :: c :: rest) :
    (c :: rest).length < name.length := by
  have hle := (List.dropWhile_sublist (l := name) (· != '.')).length_le
  rw [h, List.length_cons] at hle
  exact hle

theorem namesAbove_ofList_reverse (name : List Char) :
    namesAbove (String.ofList name.reverse) = namesAboveReversed name := by
  rw [namesAbove, String.toList_ofList, List.reverse_reverse]

/-- Above a name that is above stands the rest of the line. -/
theorem suffix_of_mem_namesAboveReversed (h : upper ∈ namesAboveReversed name) :
    upper :: namesAbove upper <:+ namesAboveReversed name := by
  induction name using namesAboveReversed.induct with
  | case1 name dot c rest hdot ih =>
    rw [namesAboveReversed_of_dropWhile hdot] at h ⊢
    obtain rfl | hrest := List.mem_cons.mp h
    · simp only [namesAbove_ofList_reverse, List.suffix_refl]
    · exact (ih hrest).trans (List.suffix_cons ..)
  | case2 name hnone =>
    rw [namesAboveReversed_eq_nil hnone] at h
    cases h

theorem length_lt_of_mem_namesAboveReversed (h : upper ∈ namesAboveReversed name) :
    upper.toList.length < name.length := by
  induction name using namesAboveReversed.induct with
  | case1 name dot c rest hdot ih =>
    have hlt := length_of_dropWhile hdot
    rw [namesAboveReversed_of_dropWhile hdot] at h
    obtain rfl | hrest := List.mem_cons.mp h
    · rwa [String.toList_ofList, List.length_reverse]
    · exact Nat.lt_trans (ih hrest) hlt
  | case2 name hnone =>
    rw [namesAboveReversed_eq_nil hnone] at h
    cases h

theorem ne_empty_of_mem_namesAboveReversed (h : upper ∈ namesAboveReversed name) : upper ≠ "" := by
  induction name using namesAboveReversed.induct with
  | case1 name dot c rest hdot ih =>
    rw [namesAboveReversed_of_dropWhile hdot] at h
    obtain rfl | hrest := List.mem_cons.mp h
    · intro hempty
      simpa using congrArg String.toList hempty
    · exact ih hrest
  | case2 name hnone =>
    rw [namesAboveReversed_eq_nil hnone] at h
    cases h

/-- A name with its last character cut off has no other names above it. -/
theorem namesAboveReversed_sublist_cons (c : Char) (rest : List Char) :
    (namesAboveReversed rest).Sublist (namesAboveReversed (c :: rest)) := by
  by_cases hdot : c = '.'
  · subst hdot
    cases rest with
    | nil =>
      have hnil : namesAboveReversed [] = [] := namesAboveReversed_eq_nil (by simp)
      rw [hnil]
      exact List.nil_sublist _
    | cons next rest =>
      have hdrop : ('.' :: next :: rest).dropWhile (· != '.') = '.' :: next :: rest := rfl
      rw [namesAboveReversed_of_dropWhile hdrop]
      exact List.sublist_cons_self ..
  · have hdrop : (c :: rest).dropWhile (· != '.') = rest.dropWhile (· != '.') :=
      List.dropWhile_cons_of_pos (by simpa using hdot)
    rw [namesAboveReversed, namesAboveReversed, hdrop]

theorem namesAboveReversed_nodup (name : List Char) : (namesAboveReversed name).Nodup := by
  induction name using namesAboveReversed.induct with
  | case1 name dot c rest hdot ih =>
    rw [namesAboveReversed_of_dropWhile hdot]
    refine List.nodup_cons.mpr ⟨fun hmem => ?_, ih⟩
    have hlt := length_lt_of_mem_namesAboveReversed hmem
    rw [String.toList_ofList, List.length_reverse] at hlt
    exact Nat.lt_irrefl _ hlt
  | case2 name hnone =>
    rw [namesAboveReversed_eq_nil hnone]
    exact List.nodup_nil

end Reversed

section Names

variable {name upper other : String}

/-- Above a name that is above stands the rest of the line. -/
theorem mem_namesAbove_suffix (h : upper ∈ namesAbove name) :
    upper :: namesAbove upper <:+ namesAbove name :=
  suffix_of_mem_namesAboveReversed h

theorem length_lt_of_mem_namesAbove (h : upper ∈ namesAbove name) :
    upper.toList.length < name.toList.length := by
  simpa using length_lt_of_mem_namesAboveReversed h

theorem namesAbove_subset (h : upper ∈ namesAbove name) : namesAbove upper ⊆ namesAbove name :=
  fun _ hmem => (mem_namesAbove_suffix h).subset (List.mem_cons_of_mem _ hmem)

/-- Of two names above a third one, one is above the other. -/
theorem namesAbove_total (hupper : upper ∈ namesAbove name) (hother : other ∈ namesAbove name) :
    upper = other ∨ upper ∈ namesAbove other ∨ other ∈ namesAbove upper := by
  have hlines := List.suffix_or_suffix_of_suffix (mem_namesAbove_suffix hupper)
    (mem_namesAbove_suffix hother)
  obtain h | h := hlines
  · have hmem : upper ∈ other :: namesAbove other := h.subset (List.mem_cons_self ..)
    obtain rfl | hmem := List.mem_cons.mp hmem
    · exact .inl rfl
    · exact .inr (.inl hmem)
  · have hmem : other ∈ upper :: namesAbove upper := h.subset (List.mem_cons_self ..)
    obtain rfl | hmem := List.mem_cons.mp hmem
    · exact .inl rfl
    · exact .inr (.inr hmem)

end Names

namespace Registry

variable {name upper other : String}

/-! ### Lineages -/

/-- The proper names of a logger and of all loggers above it, up to the root. -/
def lineage (name : String) : List String :=
  properName name :: namesAbove name ++ [rootName]

theorem mem_lineage :
    upper ∈ lineage name ↔
      upper = properName name ∨ upper ∈ namesAbove name ∨ upper = rootName := by
  simp [lineage]

theorem namesAbove_of_isRoot (h : isRoot name = true) : namesAbove name = [] := by
  have hname : name = "" ∨ name = "root" := by simpa [isRoot, rootName] using h
  obtain rfl | rfl := hname
  · exact namesAboveReversed_eq_nil (by simp)
  · exact namesAboveReversed_eq_nil (by simp)

theorem namesAbove_properName (name : String) : namesAbove (properName name) = namesAbove name := by
  by_cases h : isRoot name = true
  · rw [properName_of_isRoot h, namesAbove_of_isRoot h, namesAbove_of_isRoot isRoot_rootName]
  · rw [properName_of_not_isRoot h]

theorem isRoot_iff_of_mem_namesAboveReversed {reversed : List Char}
    (h : upper ∈ namesAboveReversed reversed) : isRoot upper = true ↔ upper = rootName := by
  simp [isRoot, ne_empty_of_mem_namesAboveReversed h]

/-- The names in a lineage are proper ones. -/
theorem properName_of_mem_lineage (h : upper ∈ lineage name) : properName upper = upper := by
  have hproper : ∀ given, properName (properName given) = properName given := by
    intro given
    by_cases hroot : isRoot given = true
    · rw [properName_of_isRoot hroot, properName_of_isRoot isRoot_rootName]
    · rw [properName_of_not_isRoot hroot, properName_of_not_isRoot hroot]
  obtain rfl | habove | rfl := mem_lineage.mp h
  · exact hproper name
  · by_cases hroot : upper = rootName
    · rw [hroot, properName_of_isRoot isRoot_rootName]
    · exact properName_of_not_isRoot (mt (isRoot_iff_of_mem_namesAboveReversed habove).mp hroot)
  · exact properName_of_isRoot isRoot_rootName

theorem properName_mem_lineage (name : String) : properName name ∈ lineage name :=
  mem_lineage.mpr (.inl rfl)

theorem rootName_mem_lineage (name : String) : rootName ∈ lineage name :=
  mem_lineage.mpr (.inr (.inr rfl))

/-- A logger has the same lineage under its own name. -/
theorem lineage_properName (name : String) : lineage (properName name) = lineage name := by
  rw [lineage, namesAbove_properName,
    properName_of_mem_lineage (properName_mem_lineage name), lineage]

theorem lineage_congr (h : properName name = properName other) : lineage name = lineage other := by
  rw [← lineage_properName, h, lineage_properName]

/-- What is above a logger of a lineage is in the lineage. -/
theorem lineage_subset (h : upper ∈ lineage name) : lineage upper ⊆ lineage name := by
  intro other hother
  rw [mem_lineage, properName_of_mem_lineage h] at hother
  obtain rfl | habove | rfl := hother
  · exact h
  · rw [mem_lineage] at h ⊢
    obtain rfl | hupper | rfl := h
    · rw [namesAbove_properName] at habove
      exact .inr (.inl habove)
    · exact .inr (.inl (namesAbove_subset hupper habove))
    · rw [namesAbove_of_isRoot isRoot_rootName] at habove
      cases habove
  · exact rootName_mem_lineage name

/-- Of two loggers in a lineage, one is in the lineage of the other. -/
theorem lineage_total (hupper : upper ∈ lineage name) (hother : other ∈ lineage name) :
    upper ∈ lineage other ∨ other ∈ lineage upper := by
  obtain rfl | habove | rfl := mem_lineage.mp hupper
  · exact .inr (by rwa [lineage_properName])
  · obtain rfl | habove' | rfl := mem_lineage.mp hother
    · exact .inl (by rwa [lineage_properName])
    · obtain rfl | h | h := namesAbove_total habove habove'
      · rw [← properName_of_mem_lineage hupper]
        exact .inl (by rw [lineage_properName]; exact properName_mem_lineage _)
      · exact .inl (mem_lineage.mpr (.inr (.inl h)))
      · exact .inr (mem_lineage.mpr (.inr (.inl h)))
    · exact .inr (rootName_mem_lineage _)
  · exact .inl (rootName_mem_lineage _)

/-! ### Chains -/

/-- Whether the root logger has no second entry, under its own name. -/
def RootApart (registry : Registry) : Prop :=
  registry.loggers.get? rootName = none

/-- Whether a logger exists. -/
def Has (registry : Registry) (name : String) : Prop :=
  isRoot name = true ∨ registry.loggers.contains name = true

theorem Has.properName {registry : Registry} (h : registry.Has name) :
    registry.Has (properName name) := by
  by_cases hname : isRoot name = true
  · rw [properName_of_isRoot hname]
    exact .inl isRoot_rootName
  · rwa [properName_of_not_isRoot hname]

section Above

variable {registry : Registry} {reversed rest : List Char} {dot c : Char}

theorem loggersAbove_of_some {found : Logger}
    (h : reversed.dropWhile (· != '.') = dot :: c :: rest)
    (hfound : registry.loggers.get? (String.ofList (c :: rest).reverse) = some found) :
    registry.loggersAbove reversed = found :: registry.loggersAbove (c :: rest) := by
  rw [loggersAbove]
  split
  · rename_i heq
    rw [h] at heq
    cases heq
    rw [hfound]
  · rename_i heq
    exact absurd h (heq _ _ _)

theorem loggersAbove_of_none (h : reversed.dropWhile (· != '.') = dot :: c :: rest)
    (hnone : registry.loggers.get? (String.ofList (c :: rest).reverse) = none) :
    registry.loggersAbove reversed = registry.loggersAbove rest := by
  rw [loggersAbove]
  split
  · rename_i heq
    rw [h] at heq
    cases heq
    rw [hnone]
  · rename_i heq
    exact absurd h (heq _ _ _)

theorem loggersAbove_eq_nil
    (h : ∀ dot c rest, reversed.dropWhile (· != '.') = dot :: c :: rest → False) :
    registry.loggersAbove reversed = [] := by
  rw [loggersAbove]
  split
  · rename_i heq
    exact (h _ _ _ heq).elim
  · rfl

/-- Only what is found under the names above is above. -/
theorem loggersAbove_congr {registry other : Registry} (reversed : List Char)
    (h : ∀ upper ∈ namesAboveReversed reversed,
      registry.loggers.get? upper = other.loggers.get? upper) :
    registry.loggersAbove reversed = other.loggersAbove reversed := by
  induction reversed using loggersAbove.induct registry with
  | case1 reversed dot c rest hdot found hfound ih =>
    rw [namesAboveReversed_of_dropWhile hdot] at h
    have hother := (h _ (List.mem_cons_self ..)).symm.trans hfound
    rw [loggersAbove_of_some hdot hfound, loggersAbove_of_some hdot hother,
      ih fun upper hupper => h upper (List.mem_cons_of_mem _ hupper)]
  | case2 reversed dot c rest hdot hnone ih =>
    rw [namesAboveReversed_of_dropWhile hdot] at h
    have hother := (h _ (List.mem_cons_self ..)).symm.trans hnone
    rw [loggersAbove_of_none hdot hnone, loggersAbove_of_none hdot hother, ih fun upper hupper =>
      h upper (List.mem_cons_of_mem _ ((namesAboveReversed_sublist_cons c rest).subset hupper))]
  | case3 reversed hstop =>
    rw [loggersAbove_eq_nil hstop, loggersAbove_eq_nil hstop]

/-- The loggers above are those of some of the names above; of all, if all exist. -/
theorem exists_names_loggersAbove (hroot : registry.RootApart) (reversed : List Char) :
    ∃ names : List String, names.Sublist (namesAboveReversed reversed) ∧ rootName ∉ names ∧
      registry.loggersAbove reversed = names.map registry.logger ∧
      ((∀ upper ∈ namesAboveReversed reversed, registry.Has upper) →
        ∀ upper ∈ namesAboveReversed reversed, upper ≠ rootName → upper ∈ names) := by
  induction reversed using loggersAbove.induct registry with
  | case1 reversed dot c rest hdot found hfound ih =>
    obtain ⟨names, hsub, hnot, heq, hall⟩ := ih
    have hne : String.ofList (c :: rest).reverse ≠ rootName := by
      intro heq
      rw [heq, hroot] at hfound
      cases hfound
    have habove : String.ofList (c :: rest).reverse ∈ namesAboveReversed reversed := by
      rw [namesAboveReversed_of_dropWhile hdot]
      exact List.mem_cons_self ..
    have hlogger : registry.logger (String.ofList (c :: rest).reverse) = found := by
      rw [logger, if_neg (mt (isRoot_iff_of_mem_namesAboveReversed habove).mp hne), hfound]
      rfl
    rw [namesAboveReversed_of_dropWhile hdot, loggersAbove_of_some hdot hfound]
    refine ⟨_ :: names, hsub.cons_cons _, ?_, by rw [List.map_cons, hlogger, heq], ?_⟩
    · exact fun hmem => (List.mem_cons.mp hmem).elim (fun h => hne h.symm) hnot
    · intro hhas upper hupper hother
      obtain rfl | hupper := List.mem_cons.mp hupper
      · exact List.mem_cons_self ..
      · have hrest := hall fun given hgiven => hhas given (List.mem_cons_of_mem _ hgiven)
        exact List.mem_cons_of_mem _ (hrest upper hupper hother)
  | case2 reversed dot c rest hdot hnone ih =>
    obtain ⟨names, hsub, hnot, heq, -⟩ := ih
    rw [namesAboveReversed_of_dropWhile hdot, loggersAbove_of_none hdot hnone]
    refine ⟨names, (hsub.trans (namesAboveReversed_sublist_cons c rest)).cons _, hnot, heq, ?_⟩
    -- The one name above that goes without an entry is that of the root, and nothing is above it.
    intro hhas upper hupper hother
    have hhead := hhas _ (List.mem_cons_self ..)
    rw [Has, Table.contains, hnone] at hhead
    have habove : String.ofList (c :: rest).reverse ∈ namesAboveReversed reversed := by
      rw [namesAboveReversed_of_dropWhile hdot]
      exact List.mem_cons_self ..
    have hrootName : String.ofList (c :: rest).reverse = rootName :=
      (isRoot_iff_of_mem_namesAboveReversed habove).mp (hhead.resolve_right Bool.false_ne_true)
    obtain rfl | hupper := List.mem_cons.mp hupper
    · exact absurd hrootName hother
    · rw [← namesAbove_ofList_reverse, hrootName, namesAbove_of_isRoot isRoot_rootName] at hupper
      cases hupper
  | case3 reversed hstop =>
    refine ⟨[], List.nil_sublist _, List.not_mem_nil, ?_, ?_⟩
    · rw [loggersAbove_eq_nil hstop]
      rfl
    · rw [namesAboveReversed_eq_nil hstop]
      exact fun _ upper hupper => (List.not_mem_nil hupper).elim

end Above

/-- The chain of a logger runs through its lineage; it takes in all of it if all of it exists. -/
theorem exists_chainNames {registry : Registry} (hroot : registry.RootApart) (name : String) :
    ∃ names : List String, names.Nodup ∧ names ⊆ lineage name ∧
      registry.chain name = names.map registry.logger ∧
      ((∀ upper ∈ namesAbove name, registry.Has upper) → lineage name ⊆ names) := by
  by_cases hname : isRoot name = true
  · have hlineage : lineage name = [rootName, rootName] := by
      rw [lineage, properName_of_isRoot hname, namesAbove_of_isRoot hname]
      rfl
    refine ⟨[rootName], by simp, by simp [hlineage], ?_, by simp [hlineage]⟩
    rw [chain, if_pos hname]
    rfl
  · obtain ⟨above, hsub, hnot, heq, hall⟩ := exists_names_loggersAbove hroot name.toList.reverse
    have hproper : properName name = name := properName_of_not_isRoot hname
    have hne : name ≠ rootName := by
      rintro rfl
      exact hname isRoot_rootName
    have hself : name ∉ above := fun hmem =>
      Nat.lt_irrefl _ (length_lt_of_mem_namesAbove (hsub.subset hmem))
    refine ⟨name :: (above ++ [rootName]), ?_, ?_, ?_, ?_⟩
    · have hnodup : above.Nodup := (namesAboveReversed_nodup _).sublist hsub
      have hlast : (above ++ [rootName]).Nodup :=
        List.nodup_append.mpr ⟨hnodup, by simp, by
          rintro upper hupper _ hlast rfl
          exact hnot (List.mem_singleton.mp hlast ▸ hupper)⟩
      exact List.nodup_cons.mpr ⟨by simp [hself, hne], hlast⟩
    · intro upper hupper
      rw [mem_lineage, hproper]
      rw [List.mem_cons, List.mem_append, List.mem_singleton] at hupper
      exact hupper.imp_right (Or.imp_left fun habove => hsub.subset habove)
    · rw [chain, if_neg hname, heq, List.map_cons, List.map_append]
      rfl
    · intro hhas upper hupper
      rw [mem_lineage, hproper] at hupper
      rw [List.mem_cons, List.mem_append, List.mem_singleton]
      obtain h | habove | h := hupper
      · exact .inl h
      · by_cases hroot' : upper = rootName
        · exact .inr (.inr hroot')
        · exact .inr (.inl (hall hhas upper habove hroot'))
      · exact .inr (.inr h)

/-- Whether nothing in the lineage of a logger has a handler. -/
def IsBare (registry : Registry) (name : String) : Prop :=
  ∀ upper ∈ lineage name, (registry.logger upper).handlers = []

instance (registry : Registry) (name : String) : Decidable (registry.IsBare name) :=
  inferInstanceAs (Decidable (∀ upper ∈ lineage name, _ = _))

theorem not_isBare_iff {registry : Registry} {name : String} :
    ¬registry.IsBare name ↔ ∃ upper ∈ lineage name, (registry.logger upper).handlers ≠ [] := by
  simp [IsBare]

end Registry

end Seams
