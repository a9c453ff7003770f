import LogTemplate.Run
import Mathlib.Data.List.Infix
import Mathlib.Logic.Basic

/-! Patterns that dumps are ignored by. Backslashes count as slashes in a path and stay what they are in
a pattern, so a pattern that is written with one stands in no path and ignores nothing. -/

namespace LogTemplate

theorem isIgnored_iff {patterns : List String} {path : String} : isIgnored patterns path = true ↔
    ∃ p ∈ patterns, p ≠ "" ∧ p.toList <:+: forwardSlashes path.toList := by
  unfold isIgnored
  simp only [List.any_eq_true, Bool.and_eq_true_iff, Bool.not_eq_true', Text.hasInfix_iff,
    ← Bool.not_eq_true, String.isEmpty_iff, ne_eq]

theorem isIgnored_mono {patterns patterns' : List String} (h : patterns ⊆ patterns')
    {path : String} (hignored : isIgnored patterns path = true) :
    isIgnored patterns' path = true := by
  obtain ⟨p, hp, hmatch⟩ := List.any_eq_true.mp hignored
  exact List.any_eq_true.mpr ⟨p, h hp, hmatch⟩

/-! ### Separators -/

theorem backslash_not_mem_forwardSlashes (cs : List Char) : '\\' ∉ forwardSlashes cs := by
  intro h
  obtain ⟨c, -, hc⟩ := List.mem_map.mp h
  split at hc
  · exact absurd hc (by decide)
  · next hne => exact hne hc

theorem forwardSlashes_of_not_mem {cs : List Char} (h : '\\' ∉ cs) : forwardSlashes cs = cs := by
  have hsame (c : Char) (hc : c ∈ cs) : (if c = '\\' then '/' else c) = c :=
    if_neg (ne_of_mem_of_not_mem hc h)
  exact (List.map_congr_left hsame).trans (List.map_id' cs)

def slashed (text : String) : String := String.ofList (forwardSlashes text.toList)

theorem toList_slashed (text : String) : (slashed text).toList = forwardSlashes text.toList :=
  String.toList_ofList

theorem slashed_eq_empty_iff {text : String} : slashed text = "" ↔ text = "" := by
  rw [← String.toList_inj, ← String.toList_inj, toList_slashed]
  exact List.map_eq_nil_iff

theorem forwardSlashes_slashed (text : String) :
    forwardSlashes (slashed text).toList = forwardSlashes text.toList := by
  rw [toList_slashed, forwardSlashes_of_not_mem (backslash_not_mem_forwardSlashes _)]

variable {patterns : List String} {path : String}

theorem isIgnored_iff_of_plain : isIgnored patterns path = true ↔
    ∃ p ∈ patterns, p ≠ "" ∧ '\\' ∉ p.toList ∧ p.toList <:+: forwardSlashes path.toList := by
  rw [isIgnored_iff]
  refine exists_congr fun p => and_congr_right' (and_congr_right' (iff_and_self.mpr fun h hmem => ?_))
  exact backslash_not_mem_forwardSlashes _ (h.subset hmem)

theorem isIgnored_map_slashed_iff : isIgnored (patterns.map slashed) (slashed path) = true ↔
    ∃ p ∈ patterns, p ≠ "" ∧ (slashed p).toList <:+: (slashed path).toList := by
  rw [isIgnored_iff, forwardSlashes_slashed, ← toList_slashed]
  simp only [List.mem_map, exists_exists_and_eq_and, ne_eq, slashed_eq_empty_iff]

def plainPatterns (patterns : List String) : List String := patterns.filter fun p => '\\' ∉ p.toList

theorem isIgnored_plainPatterns (patterns : List String) (path : String) :
    isIgnored (plainPatterns patterns) path = isIgnored patterns path := by
  rw [Bool.eq_iff_iff, isIgnored_iff, isIgnored_iff_of_plain]
  refine exists_congr fun p => ?_
  rw [plainPatterns, List.mem_filter, decide_eq_true_eq, and_assoc]
  exact and_congr_right' and_left_comm

theorem isIgnored_slashed (patterns : List String) (path : String) :
    isIgnored patterns (slashed path) = isIgnored patterns path := by
  rw [Bool.eq_iff_iff, isIgnored_iff, isIgnored_iff, forwardSlashes_slashed]

theorem isIgnored_map_slashed_eq_iff :
    isIgnored (patterns.map slashed) (slashed path) = isIgnored patterns path ↔
      ((∃ p ∈ patterns, '\\' ∈ p.toList ∧ (slashed p).toList <:+: (slashed path).toList) →
        isIgnored patterns path = true) := by
  have hmore (h : isIgnored patterns path = true) :
      isIgnored (patterns.map slashed) (slashed path) = true := by
    obtain ⟨p, hp, hne, hplain, hinfix⟩ := isIgnored_iff_of_plain.mp h
    refine isIgnored_map_slashed_iff.mpr ⟨p, hp, hne, ?_⟩
    rwa [toList_slashed, toList_slashed, forwardSlashes_of_not_mem hplain]
  rw [Bool.eq_iff_iff]
  constructor
  · rintro h ⟨p, hp, hbackslash, hinfix⟩
    refine h.mp (isIgnored_map_slashed_iff.mpr ⟨p, hp, ?_, hinfix⟩)
    rintro rfl
    cases hbackslash
  · refine fun h => ⟨fun hslashed => ?_, hmore⟩
    obtain ⟨p, hp, hne, hinfix⟩ := isIgnored_map_slashed_iff.mp hslashed
    by_cases hbackslash : '\\' ∈ p.toList
    · exact h ⟨p, hp, hbackslash, hinfix⟩
    · rw [toList_slashed, toList_slashed, forwardSlashes_of_not_mem hbackslash] at hinfix
      exact isIgnored_iff.mpr ⟨p, hp, hne, hinfix⟩

theorem Options.analyze_congr_patterns {o : Options}
    (h : ∀ path, isIgnored patterns path = isIgnored o.ignoredPatterns path) (stamp : Stamp)
    (t : FileTree) : { o with ignoredPatterns := patterns }.analyze stamp t = o.analyze stamp t := by
  have hfiles : { o with ignoredPatterns := patterns }.files t = o.files t := by
    unfold files
    simp only [h]
  unfold analyze
  rw [hfiles]
  rfl

/-- How separators are written makes no difference in a path. In the patterns it does, exactly where a
pattern with a backslash would be found if it had slashes instead and no pattern ignores the path
anyway: as they are, patterns with a backslash ignore nothing, and every run is the same without
them. -/
theorem isIgnored_separators (patterns : List String) (path : String) :
    isIgnored patterns (slashed path) = isIgnored patterns path ∧
    (isIgnored (patterns.map slashed) (slashed path) = isIgnored patterns path ↔
      ((∃ p ∈ patterns, '\\' ∈ p.toList ∧ (slashed p).toList <:+: (slashed path).toList) →
        isIgnored patterns path = true)) ∧
    isIgnored (plainPatterns patterns) path = isIgnored patterns path ∧
    ∀ (o : Options) (stamp : Stamp) (t : FileTree),
      { o with ignoredPatterns := plainPatterns patterns }.analyze stamp t =
        { o with ignoredPatterns := patterns }.analyze stamp t := by
  have hplain := isIgnored_plainPatterns patterns
  refine ⟨isIgnored_slashed patterns path, isIgnored_map_slashed_eq_iff, hplain path, fun o => ?_⟩
  exact Options.analyze_congr_patterns (o := { o with ignoredPatterns := patterns }) hplain

/-- A dump is not ignored by a pattern that its path begins with, and would be with slashes in both. -/
theorem isIgnored_ne_slashed :
    "obj\\a".toList <+: "obj\\a.callsites.json".toList ∧
    isIgnored ["obj\\a"] "obj\\a.callsites.json" = false ∧
    isIgnored (["obj\\a"].map slashed) (slashed "obj\\a.callsites.json") = true := by
  decide +kernel

end LogTemplate
