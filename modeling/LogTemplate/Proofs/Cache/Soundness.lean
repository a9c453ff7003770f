import LogTemplate.Incremental
import LogTemplate.Proofs.Cache.RoundTrip
import LogTemplate.Proofs.Surface.Fingerprint

/-! Entries of a cache against what an analysis finds without one. A sound cache knows of contents
under one surface what that surface makes of them; then a file it has an entry for need not be read
as a dump. -/

namespace LogTemplate

def Surface.fresh? (s : Surface) (content : String) : Option CachedDump :=
  (Json.readAll (Dump.shape.stream Json.maxDepth) content).toOption.map
    (s.examine (Sha256.hex (Text.bytes content)))

/-- No two of the texts have the same digest. -/
def CollisionFree (hashed : String → Prop) : Prop :=
  ∀ x y, hashed x → hashed y →
    Sha256.hex (Text.bytes x) = Sha256.hex (Text.bytes y) → x = y

/-- A cache whose entries are what a surface makes of contents, all of that among what was hashed. -/
structure Cache.Sound (hashed : String → Prop) (c : Cache) : Prop where
  nodup : (c.dumps.map Prod.fst).Nodup
  entries : ∃ s : Surface, s.IsPlain ∧ hashed s.listing ∧ c.metadata.surfaceHash = s.fingerprint ∧
    ∀ e ∈ c.dumps, ∃ content, hashed content ∧ s.fresh? content = some e.2

theorem Dump.toOption_parse (path : RawText) (content : String) :
    (Dump.parse path content).toOption
      = (Json.readAll (Dump.shape.stream Json.maxDepth) content).toOption := by
  unfold Dump.parse
  cases Json.readAll (Dump.shape.stream Json.maxDepth) content <;> rfl

def DumpResult.unmarked (r : DumpResult) : DumpResult := { r with cached := false }

namespace Surface

theorem hash_of_fresh? {s : Surface} {content : String} {d : CachedDump}
    (h : s.fresh? content = some d) : d.hash = Sha256.hex (Text.bytes content) := by
  obtain ⟨dump, -, rfl⟩ := Option.map_eq_some_iff.mp h
  rfl

theorem toOption_process_none (s : Surface) (t : FileTree) (path : RawText) :
    (s.process none t path).toOption
      = (t.readText path).toOption.bind fun content => (s.fresh? content).map fun d => (d, false) := by
  unfold process
  cases t.readText path with
  | error e => rfl
  | ok content =>
    have hparse := Dump.toOption_parse path content
    show ((Dump.parse path content).map fun d => (s.examine _ d, false)).toOption
      = (s.fresh? content).map fun d => (d, false)
    unfold fresh?
    rw [← hparse]
    cases Dump.parse path content <;> rfl

/-- What is known from before, if it can be relied on under a surface. -/
def Reliable (hashed : String → Prop) (s : Surface) (old : Option Cache) : Prop :=
  ∀ c, old = some c → c.Sound hashed ∧ c.metadata.isCompatible s = true

/-- What is known from before of a content that may be asked for is what the surface makes of it. -/
def Faithful (hashed : String → Prop) (s : Surface) (old : Option Cache) : Prop :=
  ∀ c, old = some c → ∀ path content d, hashed content →
    c.find? path (Sha256.hex (Text.bytes content)) = some d → s.fresh? content = some d

theorem faithful_none (hashed : String → Prop) (s : Surface) : s.Faithful hashed none := nofun

theorem unmarked_of_mem_analyzeFiles_none {s : Surface} {t : FileTree} {files : List RawText}
    {seconds : Nat} {r : DumpResult} (hr : r ∈ (s.analyzeFiles none seconds t files).1) :
    r.unmarked = r := by
  obtain ⟨⟨path, d, cached⟩, hdone, rfl⟩ := List.mem_map.mp hr
  obtain ⟨path', -, hprocess⟩ := List.mem_filterMap.mp hdone
  rw [toOption_process_none] at hprocess
  obtain ⟨⟨d', mark⟩, hfound, heq⟩ := Option.map_eq_some_iff.mp hprocess
  obtain ⟨content, -, hfresh⟩ := Option.bind_eq_some_iff.mp hfound
  obtain ⟨d'', -, hmark⟩ := Option.map_eq_some_iff.mp hfresh
  cases hmark
  cases heq
  rfl

variable {hashed : String → Prop} {s : Surface} {old : Option Cache} {t : FileTree}
  {files : List RawText}

theorem faithful_of_made (hfree : CollisionFree hashed) {c : Cache}
    (hmade : ∀ e ∈ c.dumps, ∃ content, hashed content ∧ s.fresh? content = some e.2) :
    s.Faithful hashed (some c) := by
  intro c' hc' path content d hcontent hfind
  cases hc'
  unfold Cache.find? at hfind
  obtain ⟨hlookup, hdigest⟩ := Option.filter_eq_some_iff.mp hfind
  obtain ⟨content', hcontent', hfresh⟩ := hmade (path.display, d) (Entries.mem_of_lookup hlookup)
  -- the digest tells the content, wherever it stood
  have hsame : Sha256.hex (Text.bytes content') = Sha256.hex (Text.bytes content) := by
    rw [← hash_of_fresh? hfresh]
    exact of_decide_eq_true hdigest
  rw [← hfree content' content hcontent' hcontent hsame]
  exact hfresh

theorem Reliable.faithful (hfree : CollisionFree hashed) (hs : s.IsPlain)
    (hlisting : hashed s.listing) (h : s.Reliable hashed old) : s.Faithful hashed old := by
  rintro c rfl
  obtain ⟨hc, hcompatible⟩ := h c rfl
  obtain ⟨s', hs', hlisting', hhash, hentries⟩ := hc.entries
  -- the surface that the entries were made under is this one
  have hfingerprint : s'.fingerprint = s.fingerprint := by
    unfold CacheMetadata.isCompatible at hcompatible
    rw [Bool.and_eq_true, decide_eq_true_eq] at hcompatible
    exact hhash.symm.trans hcompatible.2
  obtain rfl : s' = s :=
    listing_inj hs' hs (hfree s'.listing s.listing hlisting' hlisting hfingerprint)
  exact faithful_of_made hfree hentries c rfl

section

variable (hold : s.Faithful hashed old)

include hold

theorem process_eq_fresh? {path : RawText} (hcontent : ∀ x, t.readText path = .ok x → hashed x) :
    (s.process old t path).toOption.map Prod.fst
      = (t.readText path).toOption.bind s.fresh? := by
  cases hread : t.readText path with
  | error e =>
    unfold process
    rw [hread]
    rfl
  | ok content =>
    have hfresh : (s.process none t path).toOption.map Prod.fst = s.fresh? content := by
      rw [toOption_process_none, hread]
      show ((s.fresh? content).map fun d => (d, false)).map Prod.fst = s.fresh? content
      rw [Option.map_map]
      exact Option.map_id'
    unfold process at hfresh ⊢
    rw [hread] at hfresh ⊢
    dsimp only at hfresh ⊢
    cases hfind : old.bind (·.find? path (Sha256.hex (Text.bytes content))) with
    | none => exact hfresh
    | some d =>
      obtain ⟨c, rfl, hd⟩ := Option.bind_eq_some_iff.mp hfind
      exact (hold c rfl path content d (hcontent content hread) hd).symm

variable (hcontents : ∀ path ∈ files, ∀ x, t.readText path = .ok x → hashed x)

include hcontents

theorem analyzeFiles_unmarked (seconds : Nat) :
    (s.analyzeFiles old seconds t files).1.map DumpResult.unmarked
      = files.filterMap fun path =>
          ((t.readText path).toOption.bind s.fresh?).map (CachedDump.result · path false) := by
  unfold analyzeFiles
  rw [List.map_map, List.map_filterMap]
  refine List.filterMap_congr fun path hpath => ?_
  rw [← process_eq_fresh? hold (hcontents path hpath)]
  cases (s.process old t path).toOption <;> rfl

theorem dumps_analyzeFiles (seconds : Nat) :
    (s.analyzeFiles old seconds t files).2.dumps
      = (files.filterMap fun path => ((t.readText path).toOption.bind s.fresh?).map (path, ·)).foldl
          (fun entries e => Entries.put e.1.display e.2 entries) [] := by
  have hfound : (files.filterMap fun path => ((t.readText path).toOption.bind s.fresh?).map (path, ·))
      = (files.filterMap fun path => (s.process old t path).toOption.map (path, ·)).map
          fun found => (found.1, found.2.1) := by
    rw [List.map_filterMap]
    refine List.filterMap_congr fun path hpath => ?_
    rw [← process_eq_fresh? hold (hcontents path hpath)]
    cases (s.process old t path).toOption <;> rfl
  rw [hfound, List.foldl_map]
  rfl

theorem exists_readText_of_mem_dumps {seconds : Nat} {e : String × CachedDump}
    (he : e ∈ (s.analyzeFiles old seconds t files).2.dumps) :
    ∃ path content, path ∈ files ∧ path.display = e.1 ∧ t.readText path = .ok content ∧
      s.fresh? content = some e.2 := by
  rw [dumps_analyzeFiles hold hcontents] at he
  rcases Entries.mem_foldl_put he with hnil | ⟨found, hfound, rfl⟩
  · cases hnil
  obtain ⟨path, hpath, hd⟩ := List.mem_filterMap.mp hfound
  obtain ⟨d, hfresh, rfl⟩ := Option.map_eq_some_iff.mp hd
  obtain ⟨content, hcontent, hfresh⟩ := Option.bind_eq_some_iff.mp hfresh
  cases hread : t.readText path with
  | error e =>
    rw [hread] at hcontent
    cases hcontent
  | ok x =>
    rw [hread] at hcontent
    cases hcontent
    exact ⟨path, content, hpath, rfl, hread, hfresh⟩

theorem analyzeFiles_transparent {t' : FileTree}
    (hread : ∀ path ∈ files, t'.readText path = t.readText path) (seconds seconds' : Nat) :
    (s.analyzeFiles old seconds t' files).1.map DumpResult.unmarked
      = (s.analyzeFiles none seconds' t files).1 := by
  have hsame : (s.analyzeFiles none seconds' t files).1.map DumpResult.unmarked
      = (s.analyzeFiles none seconds' t files).1 :=
    (List.map_congr_left fun r hr => unmarked_of_mem_analyzeFiles_none hr).trans (List.map_id _)
  have hcontents' : ∀ path ∈ files, ∀ x, t'.readText path = .ok x → hashed x := by
    intro path hpath x hx
    rw [hread path hpath] at hx
    exact hcontents path hpath x hx
  rw [← hsame, analyzeFiles_unmarked hold hcontents' seconds,
    analyzeFiles_unmarked (faithful_none hashed s) hcontents seconds']
  refine List.filterMap_congr fun path hpath => ?_
  rw [hread path hpath]

theorem sound_analyzeFiles (hs : s.IsPlain) (hlisting : hashed s.listing) (seconds : Nat) :
    (s.analyzeFiles old seconds t files).2.Sound hashed where
  nodup := Entries.nodup_foldl_put List.nodup_nil
  entries := by
    refine ⟨s, hs, hlisting, rfl, fun e he => ?_⟩
    obtain ⟨path, content, hpath, -, hread, hfresh⟩ := exists_readText_of_mem_dumps hold hcontents he
    exact ⟨content, hcontents path hpath content hread, hfresh⟩

end

end Surface

end LogTemplate
