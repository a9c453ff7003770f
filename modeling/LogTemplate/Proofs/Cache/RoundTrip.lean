import LogTemplate.Cache.Basic
import LogTemplate.Proofs.Dump.Location
import LogTemplate.Proofs.Text.Raw

/-! The text of a cache is read back as the cache, and only the whole text is read. -/

namespace LogTemplate

open Json Json.Reader

namespace Json

variable {α : Type}

theorem foldl_put_of_nodup {done entries : List (String × α)}
    (hnew : ((done ++ entries).map Prod.fst).Nodup) :
    entries.foldl (fun entries e => Entries.put e.1 e.2 entries) done = done ++ entries := by
  induction entries generalizing done with
  | nil => rw [List.foldl_nil, List.append_nil]
  | cons e entries ih =>
    have hname : e.1 ∉ done.map Prod.fst := by
      rw [List.map_append, List.nodup_append] at hnew
      intro h
      exact hnew.2.2 e.1 h e.1 (List.mem_cons_self ..) rfl
    have happend : done ++ e :: entries = done ++ [e] ++ entries := by
      rw [List.append_assoc]
      rfl
    rw [happend] at hnew ⊢
    rw [List.foldl_cons, Entries.put_of_not_mem hname]
    exact ih hnew

theorem readsFields_dictionary {s : Shape α} {entries : List (String × α)}
    (hnames : (entries.map Prod.fst).Nodup) (h : ∀ e ∈ entries, s.RoundTrips e.2) {levels : Nat}
    (hdepth : depthFields (entries.map fun e => (e.1, s.write e.2)) ≤ levels) :
    ReadsFields (fun name entries => do
        colon
        let a ← s.stream levels
        return Entries.put name a entries)
      (entries.map fun e => (e.1, s.write e.2)) [] entries := by
  have hread : ∀ e ∈ entries, s.RoundTrips e.2 ∧ (s.write e.2).depth ≤ levels := by
    intro e he
    have hle := depth_le_depthFields
      (List.mem_map_of_mem (f := fun e : String × α => (e.1, s.write e.2)) he)
    exact ⟨h e he, Nat.le_trans hle hdepth⟩
  have hfields := Shape.readsFields_foldl
    (fun name entries => do
      colon
      let a ← s.stream levels
      return Entries.put name a entries)
    Entries.put (fun _ _ _ => rfl) hread []
  rwa [foldl_put_of_nodup hnames, List.nil_append] at hfields

theorem Shape.Sealed.dictionary {s : Shape α} {entries : List (String × α)}
    (hnames : (entries.map Prod.fst).Nodup) (h : ∀ e ∈ entries, s.Sealed e.2) :
    s.dictionary.Sealed entries := by
  have hreads : ∀ e ∈ entries, s.RoundTrips e.2 := fun e he => (h e he).toRoundTrips
  refine ⟨⟨opens_object _, fun levels hdepth => ?_⟩, fun levels hdepth => ?_⟩
  · obtain ⟨m, rfl, hfields⟩ := exists_levels_of_object hdepth
    refine reads_of_begin rfl (fun l => head?_write_object l _) fun l rest _ => ?_
    have hobject := accepts_object (f := pure) (readsFields_dictionary hnames hreads hfields)
      (accepts_pure · entries) l rest
    simp only [bind_pure] at hobject
    exact hobject
  · obtain ⟨m, rfl, hfields⟩ := exists_levels_of_object hdepth
    have hspends : ∀ f ∈ entries.map (fun e => (e.1, s.write e.2)), SpendsField
        (fun name entries => do
          colon
          let a ← s.stream m
          return Entries.put name a entries) f.1 f.2 := by
      intro f hf entries' l text hcut
      obtain ⟨e, he, rfl⟩ := List.mem_map.mp hf
      have hle := Nat.le_trans (depth_le_depthFields hf) hfields
      exact (((h e he).spends m hle).map fun a => Entries.put e.1 a entries').colon l hcut
    refine spends_of_begin rfl (fun l => head?_write_object l _) fun l u hu => ?_
    have hobject := refuses_object (f := pure) (readsFields_dictionary hnames hreads hfields) hspends
      (fun _ => leaves_pure (P := (· = [])) rfl _) l hu
    simp only [bind_pure] at hobject
    exact hobject.leaves

end Json

theorem Severity.isSealed (s : Severity) : Severity.shape.Sealed s := by
  cases s <;> exact Shape.sealed_plain rfl rfl

theorem Diagnostic.isSealed (d : Diagnostic) : Diagnostic.shape.Sealed d :=
  Shape.sealed_record (by decide)
    (.cons (Member.sealed_ofShape (Shape.sealed_text d.ruleId) _ _ _) <|
      .cons (Member.sealed_ofShape d.severity.isSealed _ _ _) <|
      .cons (Member.sealed_ofShape d.location.isSealed _ _ _) <|
      .cons (Member.sealed_ofShape (Shape.sealed_text d.message) _ _ _) <|
      .cons (Member.sealed_ofShape (Shape.sealed_text d.text) _ _ _) .nil)
    rfl

theorem CachedDump.isSealed (d : CachedDump) : CachedDump.shape.Sealed d :=
  Shape.sealed_record (by decide)
    (.cons (Member.sealed_ofShape (Shape.sealed_text d.hash) _ _ _) <|
      .cons (Member.sealed_ofShape (Shape.sealed_text d.compilation) _ _ _) <|
      .cons (Member.sealed_ofShape (Shape.sealed_uint64 d.callSites) _ _ _) <|
      .cons (Member.sealed_ofShape (.list fun g _ => g.isSealed) _ _ _) .nil)
    rfl

theorem CacheMetadata.isSealed (m : CacheMetadata) : CacheMetadata.shape.Sealed m :=
  Shape.sealed_record (by decide)
    (.cons (Member.sealed_ofShape (Shape.sealed_uint32 m.cacheVersion) _ _ _) <|
      .cons (Member.sealed_ofShape (Shape.sealed_text m.toolVersion) _ _ _) <|
      .cons (Member.sealed_ofShape (Shape.sealed_text m.surfaceHash) _ _ _) <|
      .cons (Member.sealed_ofShape (Shape.sealed_uint64 m.createdAt) _ _ _) .nil)
    rfl

theorem Diagnostic.depth_write (d : Diagnostic) : (Diagnostic.shape.write d).depth = 2 := rfl

theorem CachedDump.depth_write_le (d : CachedDump) : (CachedDump.shape.write d).depth ≤ 4 := by
  have hitems : depthItems (d.diagnostics.map Diagnostic.shape.write) ≤ 2 := by
    refine depthItems_le fun v hv => ?_
    obtain ⟨g, _, rfl⟩ := List.mem_map.mp hv
    exact Nat.le_of_eq g.depth_write
  have hdepth : (CachedDump.shape.write d).depth =
      max 0 (max 0 (max 0 (max (depthItems (d.diagnostics.map Diagnostic.shape.write) + 1) 0))) + 1 :=
    rfl
  omega

theorem Cache.depth_write_le (c : Cache) : (Cache.shape.write c).depth ≤ maxDepth := by
  have hdumps : (CachedDump.shape.dictionary.write c.dumps).depth ≤ 5 := by
    refine Nat.succ_le_succ (depthFields_le fun f hf => ?_)
    obtain ⟨e, _, rfl⟩ := List.mem_map.mp hf
    exact e.2.depth_write_le
  have hdepth : (Cache.shape.write c).depth =
      max 1 (max (CachedDump.shape.dictionary.write c.dumps).depth 0) + 1 := rfl
  have hmax : maxDepth = 127 := rfl
  omega

section

variable {c : Cache} (hnames : (c.dumps.map Prod.fst).Nodup)

include hnames

theorem Cache.isSealed : Cache.shape.Sealed c :=
  Shape.sealed_record (by decide)
    (.cons (Member.sealed_ofShape c.metadata.isSealed _ _ _) <|
      .cons (Member.sealed_ofShape (.dictionary hnames fun e _ => e.2.isSealed) _ _ _) .nil)
    rfl

theorem Cache.parse_text : Cache.parse c.text = .ok c :=
  readAll_write ((Cache.isSealed hnames).reads maxDepth c.depth_write_le) (.indented 0)

theorem Cache.parse_of_isCut {x : String} (h : IsCut x.toList c.text.toList) :
    ∃ e, Cache.parse x = .error e := by
  have hcut : IsCut x.toList ([] ++ Json.write (.indented 0) (Cache.shape.write c)) := by
    rwa [Cache.text, pretty, String.toList_ofList] at h
  have hrefuses : (Cache.shape.stream maxDepth).Refuses x.toList :=
    Shape.refuses_record (by decide)
      (.cons (Member.sealed_ofShape c.metadata.isSealed _ _ _) <|
        .cons (Member.sealed_ofShape (.dictionary hnames fun e _ => e.2.isSealed) _ _ _) .nil)
      c.depth_write_le (.indented 0) blank_nil hcut
  exact hrefuses.exists_error

/-- A cache that was not written to its end is not taken for another one. -/
theorem Cache.eq_of_parse {x : String} (h : Text.bytes x <+: Text.bytes c.text) {c' : Cache}
    (hparse : Cache.parse x = .ok c') : c' = c := by
  obtain ⟨rest, hrest⟩ := h
  rw [Text.bytes_eq_encode, Text.bytes_eq_encode] at hrest
  obtain ⟨cs, hcs⟩ := Text.exists_eq_append_of_encode hrest
  by_cases hwhole : cs = []
  · have hx : x = c.text := by rw [← String.toList_inj, hcs, hwhole, List.append_nil]
    rw [hx, Cache.parse_text hnames] at hparse
    exact (Except.ok.inj hparse).symm
  · obtain ⟨e, he⟩ := Cache.parse_of_isCut hnames ⟨cs, hwhole, hcs.symm⟩
    rw [he] at hparse
    cases hparse

end

end LogTemplate
