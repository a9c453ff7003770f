import LogTemplate.Proofs.Cache.Soundness

/-! Which surfaces a cache is good for. The digest that a cache carries stands for the set of types it
was made for, unless a name goes over more than one line. -/

namespace LogTemplate

theorem CacheMetadata.isCompatible_current_iff {s s' : Surface} (seconds : Nat) :
    (current s seconds).isCompatible s' = true ↔ s.fingerprint = s'.fingerprint := by
  simp [isCompatible, current]

namespace Surface

theorem fingerprint_eq_iff {s s' : Surface}
    (hfree : CollisionFree fun x => x = s.listing ∨ x = s'.listing) :
    s.fingerprint = s'.fingerprint ↔ s.listing = s'.listing :=
  ⟨hfree s.listing s'.listing (.inl rfl) (.inr rfl), fun h => by rw [fingerprint, h, fingerprint]⟩

theorem listing_ofTypes_eq_empty_iff {names : List String} (h : ∀ n ∈ names, '\n' ∉ n.toList) :
    (ofTypes names).listing = "" ↔ ∀ n ∈ names, n = "" := by
  rw [listing_eq_empty_iff fun n hn => h n (mem_ofTypes_iff.mp hn)]
  constructor
  · intro hs n hn
    rw [← mem_ofTypes_iff] at hn
    rcases hs with hs | hs
    · rw [hs] at hn
      cases hn
    · rw [hs] at hn
      exact List.mem_singleton.mp hn
  · intro hall
    cases names with
    | nil => exact .inl rfl
    | cons name names =>
      have hempty : ∀ n, n ∈ name :: names ↔ n ∈ [""] := by
        intro n
        refine ⟨fun hn => List.mem_singleton.mpr (hall n hn), fun hn => ?_⟩
        rw [List.mem_singleton.mp hn, ← hall name (List.mem_cons_self ..)]
        exact List.mem_cons_self ..
      exact .inr (ofTypes_eq_iff.mpr hempty)

/-- Types with names of one line each have the fingerprint of other such types exactly if they are the
same set, or if neither has a name but the empty one; and exactly then a cache made for the first is
good for the second. -/
theorem fingerprint_ofTypes_eq_iff {names names' : List String}
    (hline : ∀ n ∈ names ++ names', '\n' ∉ n.toList)
    (hfree : CollisionFree fun x => x = (ofTypes names).listing ∨ x = (ofTypes names').listing) :
    ((ofTypes names).fingerprint = (ofTypes names').fingerprint ↔
      (∀ n, n ∈ names ↔ n ∈ names') ∨ ∀ n ∈ names ++ names', n = "") ∧
    ∀ seconds, (CacheMetadata.current (ofTypes names) seconds).isCompatible (ofTypes names') = true ↔
      (∀ n, n ∈ names ↔ n ∈ names') ∨ ∀ n ∈ names ++ names', n = "" := by
  have h : ∀ n ∈ names, '\n' ∉ n.toList := fun n hn => hline n (List.mem_append_left _ hn)
  have h' : ∀ n ∈ names', '\n' ∉ n.toList := fun n hn => hline n (List.mem_append_right _ hn)
  have hsame : (ofTypes names).fingerprint = (ofTypes names').fingerprint ↔
      (∀ n, n ∈ names ↔ n ∈ names') ∨ ∀ n ∈ names ++ names', n = "" := by
    rw [fingerprint_eq_iff hfree, listing_eq_iff (fun n hn => h n (mem_ofTypes_iff.mp hn))
      (fun n hn => h' n (mem_ofTypes_iff.mp hn)), ofTypes_eq_iff, listing_ofTypes_eq_empty_iff h,
      listing_ofTypes_eq_empty_iff h', List.forall_mem_append]
  exact ⟨hsame, fun seconds => (CacheMetadata.isCompatible_current_iff seconds).trans hsame⟩

theorem fingerprint_ofTypes_ne_of_further_name :
    (∀ n ∈ ["Facade", "App.Log"] ++ ["App.Log"], '\n' ∉ n.toList) ∧
    (CollisionFree fun x =>
      x = (ofTypes ["Facade", "App.Log"]).listing ∨ x = (ofTypes ["App.Log"]).listing) ∧
    (ofTypes ["Facade", "App.Log"]).fingerprint ≠ (ofTypes ["App.Log"]).fingerprint ∧
    (CacheMetadata.current (ofTypes ["Facade", "App.Log"]) 0).isCompatible (ofTypes ["App.Log"])
      ≠ true := by
  have hline : ∀ n ∈ ["Facade", "App.Log"] ++ ["App.Log"], '\n' ∉ n.toList := by decide
  have hdiffer : Sha256.hex (Text.bytes (ofTypes ["Facade", "App.Log"]).listing)
      ≠ Sha256.hex (Text.bytes (ofTypes ["App.Log"]).listing) := by decide +kernel
  have hfree : CollisionFree fun x =>
      x = (ofTypes ["Facade", "App.Log"]).listing ∨ x = (ofTypes ["App.Log"]).listing := by
    rintro x y (rfl | rfl) (rfl | rfl) heq
    · rfl
    · exact absurd heq hdiffer
    · exact absurd heq.symm hdiffer
    · rfl
  have hnot : ¬ ((∀ n, n ∈ ["Facade", "App.Log"] ↔ n ∈ ["App.Log"]) ∨
      ∀ n ∈ ["Facade", "App.Log"] ++ ["App.Log"], n = "") := by
    rintro (h | h)
    · exact absurd ((h "Facade").mp (by decide)) (by decide)
    · exact absurd (h "Facade" (by decide)) (by decide)
  obtain ⟨hfingerprint, hcompatible⟩ := fingerprint_ofTypes_eq_iff hline hfree
  exact ⟨hline, hfree, mt hfingerprint.mp hnot, mt (hcompatible 0).mp hnot⟩

/-- Two names on a line each are listed like one name of two lines, so a cache made for them is good
for a surface that has neither. -/
theorem isCompatible_of_name_of_two_lines :
    (ofTypes ["App.Log", "Facade"]).fingerprint = (ofTypes ["App.Log\nFacade"]).fingerprint ∧
    (∀ seconds, (CacheMetadata.current (ofTypes ["App.Log", "Facade"]) seconds).isCompatible
      (ofTypes ["App.Log\nFacade"]) = true) ∧
    ¬ ∀ n, n ∈ ["App.Log", "Facade"] ↔ n ∈ ["App.Log\nFacade"] := by
  have hfingerprint : (ofTypes ["App.Log", "Facade"]).fingerprint
      = (ofTypes ["App.Log\nFacade"]).fingerprint := by
    have hlisting : (ofTypes ["App.Log", "Facade"]).listing = (ofTypes ["App.Log\nFacade"]).listing := by
      decide
    rw [fingerprint, hlisting, fingerprint]
  refine ⟨hfingerprint, fun seconds => ?_, fun h => ?_⟩
  · exact (CacheMetadata.isCompatible_current_iff seconds).mpr hfingerprint
  · exact absurd ((h "Facade").mp (by decide)) (by decide)

end Surface

end LogTemplate
