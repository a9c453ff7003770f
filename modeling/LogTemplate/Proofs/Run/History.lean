import LogTemplate.Proofs.Cache.Footprint
import LogTemplate.Proofs.Cache.Handover
import LogTemplate.Proofs.Run.Uncached

/-! Histories of a project: edits of its files and runs with the cache in any order. As long as edits
leave the cache files alone each of these holds the text of a sound cache, and so a run with the
cache finds what it would find without one. -/

namespace LogTemplate.History

/-- An edit leaves any other files; a run has its options and uses the cache. -/
inductive Step where
  | edit (after : FileTree)
  | run (options : Options) (stamp : Stamp)

def Step.after (t : FileTree) : Step → FileTree
  | edit after => after
  | run o stamp => (o.cached.analyze stamp t).2

theorem Step.after_run (o : Options) (stamp : Stamp) (t : FileTree) :
    (Step.run o stamp).after t = (o.cached.analyze stamp t).2 := rfl

def moments : FileTree → List Step → List (FileTree × Step)
  | _, [] => []
  | t, step :: rest => (t, step) :: moments (step.after t) rest

/-- The texts of which the runs take digests: listings of surfaces and contents of dumps. -/
def Hashed (start : FileTree) (steps : List Step) (x : String) : Prop :=
  ∃ t o stamp files, (t, Step.run o stamp) ∈ moments start steps ∧ o.LooksAt t files ∧
    (x = o.surface.listing ∨ ∃ path ∈ files, t.readText path = .ok x)

/-- What is assumed of a history, with the places set aside for cache files. No file is there at
first, edits bring none there that was not at such a place before, and no run finds its cache file
elsewhere or takes it for a dump. -/
structure Undisturbed (place : List RawText → Prop) (start : FileTree) (steps : List Step) :
    Prop where
  empty : ∀ p content, place p → start.top.view p ≠ some (.file content)
  edits : ∀ t after, (t, Step.edit after) ∈ moments start steps →
    ∀ p content, place p → after.top.view p = some (.file content) →
      ∃ p', place p' ∧ t.top.view p' = some (.file content)
  found : ∀ t o stamp, (t, Step.run o stamp) ∈ moments start steps →
    ∀ p, t.resolve .target (Cache.file o.root) = .ok (.taken p) → place p
  apart : ∀ t o stamp files, (t, Step.run o stamp) ∈ moments start steps → o.LooksAt t files →
    ∀ path ∈ files, t.resolve .target path ≠ t.resolve .target (Cache.file o.root)
  plain : ∀ t o stamp, (t, Step.run o stamp) ∈ moments start steps →
    ∀ name ∈ o.extraTypes, '\n' ∉ name.toList
  collisionFree : CollisionFree (Hashed start steps)

/-- Each file at a place for caches holds the text of a sound cache, or what there was room for of
it. This is what edits and runs keep, in whatever order they come. -/
def Sound (place : List RawText → Prop) (hashed : String → Prop) (t : FileTree) : Prop :=
  ∀ p content, place p → t.top.view p = some (.file content) →
    ∃ c : Cache, c.Sound hashed ∧ content <+: Text.bytes c.text

theorem Sound.reliable_load {place : List RawText → Prop} {hashed : String → Prop} {t : FileTree}
    {root : RawText} (h : Sound place hashed t)
    (hfound : ∀ p, t.resolve .target (Cache.file root) = .ok (.taken p) → place p) (s : Surface) :
    s.Reliable hashed (Cache.load root s t).1 := by
  intro c hc
  unfold Cache.load at hc
  cases hread : t.readText (Cache.file root) with
  | error e =>
    rw [hread] at hc
    cases hc
  | ok x =>
    obtain ⟨p, content, hresolve, hview, htext⟩ := FileTree.readText_eq_ok_iff.mp hread
    obtain ⟨c', hc', hbegins⟩ := h p content (hfound p hresolve) hview
    rw [Text.ofBytes?_eq_some_iff.mp htext] at hbegins
    rw [hread] at hc
    dsimp only at hc
    cases hparse : Cache.parse x with
    | error e =>
      rw [hparse] at hc
      cases hc
    | ok found =>
      obtain rfl := Cache.eq_of_parse hc'.nodup hbegins hparse
      rw [hparse] at hc
      dsimp only at hc
      by_cases hcompatible : found.metadata.isCompatible s = true
      · rw [if_pos hcompatible] at hc
        obtain rfl := Option.some.inj hc
        exact ⟨hc', hcompatible⟩
      · rw [if_neg hcompatible] at hc
        cases hc

section

variable {place : List RawText → Prop} {start : FileTree} {steps : List Step} {t : FileTree}
  {o : Options} {stamp : Stamp} {files : List RawText}

/-! ### One run -/

theorem hashed_of_looksAt (hmem : (t, Step.run o stamp) ∈ moments start steps)
    (hlooks : o.LooksAt t files) :
    Hashed start steps o.surface.listing ∧
      ∀ path ∈ files, ∀ x, t.readText path = .ok x → Hashed start steps x := by
  refine ⟨⟨t, o, stamp, files, hmem, hlooks, .inl rfl⟩, ?_⟩
  intro path hpath x hx
  exact ⟨t, o, stamp, files, hmem, hlooks, .inr ⟨path, hpath, hx⟩⟩

namespace Undisturbed

variable (h : Undisturbed place start steps) (hmem : (t, Step.run o stamp) ∈ moments start steps)

include h hmem

theorem isPlain : o.surface.IsPlain := Surface.isPlain_standard.extend (h.plain t o stamp hmem)

theorem readText_load (hlooks : o.LooksAt t files) :
    ∀ path ∈ files, (Cache.load o.root o.surface t).2.readText path = t.readText path := by
  intro path hpath
  exact Cache.readText_load o.surface (Options.isFile_of_mem_files hlooks.2 hpath)
    (h.apart t o stamp files hmem hlooks path hpath)

variable (hsound : Sound place (Hashed start steps) t)

include hsound

theorem transparent :
    (o.cached.analyze stamp t).1.map Outcome.unmarked = (o.uncached.analyze stamp t).1 := by
  by_cases hlooks : ∃ files, o.LooksAt t files
  · obtain ⟨files, hlooks⟩ := hlooks
    obtain ⟨hlisting, hcontents⟩ := hashed_of_looksAt hmem hlooks
    have hreliable := hsound.reliable_load (h.found t o stamp hmem) o.surface
    have hfaithful := hreliable.faithful h.collisionFree (h.isPlain hmem) hlisting
    have hsame := Surface.analyzeFiles_transparent hfaithful hcontents (h.readText_load hmem hlooks)
      stamp.seconds stamp.seconds
    rw [Options.analyze_cached_of_looksAt hlooks, Options.analyze_uncached_of_looksAt hlooks, ← hsame]
    exact congrArg Except.ok (Outcome.unmarked_ofDumps _ _)
  · obtain ⟨f, hcached, huncached⟩ := Options.analyze_of_not_looksAt (not_exists.mp hlooks) stamp
    rw [hcached, huncached]
    rfl

theorem sound_analyze : Sound place (Hashed start steps) (o.cached.analyze stamp t).2 := by
  by_cases hlooks : ∃ files, o.LooksAt t files
  · obtain ⟨files, hlooks⟩ := hlooks
    obtain ⟨hlisting, hcontents⟩ := hashed_of_looksAt hmem hlooks
    have hreliable := hsound.reliable_load (h.found t o stamp hmem) o.surface
    have hcontents' : ∀ path ∈ files, ∀ x,
        (Cache.load o.root o.surface t).2.readText path = .ok x → Hashed start steps x := by
      intro path hpath x hx
      rw [h.readText_load hmem hlooks path hpath] at hx
      exact hcontents path hpath x hx
    have hfaithful := hreliable.faithful h.collisionFree (h.isPlain hmem) hlisting
    have hcache := Surface.sound_analyzeFiles hfaithful hcontents' (h.isPlain hmem) hlisting
      stamp.seconds
    intro p content hp hview
    rw [Options.analyze_cached_snd_of_looksAt hlooks] at hview
    rcases Cache.filesFrom_save_load hlooks.1 o.surface stamp _ p content hview with hnew | hold
    · exact ⟨_, hcache, hnew⟩
    · exact hsound p content hp hold
  · obtain ⟨f, hcached, -⟩ := Options.analyze_of_not_looksAt (not_exists.mp hlooks) stamp
    rw [hcached]
    exact hsound

end Undisturbed

/-! ### All runs -/

theorem Undisturbed.sound_after (h : Undisturbed place start steps) {step : Step}
    (hmem : (t, step) ∈ moments start steps) (hsound : Sound place (Hashed start steps) t) :
    Sound place (Hashed start steps) (step.after t) := by
  cases step with
  | edit after =>
    intro p content hp hview
    obtain ⟨p', hp', hview'⟩ := h.edits t after hmem p content hp hview
    exact hsound p' content hp' hview'
  | run o stamp => exact h.sound_analyze hmem hsound

theorem Undisturbed.sound_of_mem (h : Undisturbed place start steps) {rest : List Step}
    (hrest : ∀ m ∈ moments t rest, m ∈ moments start steps)
    (hsound : Sound place (Hashed start steps) t) {t' : FileTree} {step : Step}
    (hmem : (t', step) ∈ moments t rest) : Sound place (Hashed start steps) t' := by
  -- over the steps to come, while the assumptions stay those on the whole history
  induction rest generalizing t with
  | nil => cases hmem
  | cons first rest ih =>
    rcases List.mem_cons.mp hmem with heq | hmem
    · cases heq
      exact hsound
    · have hfirst := h.sound_after (hrest (t, first) (List.mem_cons_self ..)) hsound
      exact ih (fun m hm => hrest m (List.mem_cons_of_mem _ hm)) hfirst hmem

/-- Every run of an undisturbed history finds what it would find without the cache. -/
theorem cached_run_transparent (h : Undisturbed place start steps)
    (hmem : (t, Step.run o stamp) ∈ moments start steps) :
    (o.cached.analyze stamp t).1.map Outcome.unmarked = (o.uncached.analyze stamp t).1 := by
  have hstart : Sound place (Hashed start steps) start :=
    fun p content hp hview => absurd hview (h.empty p content hp)
  exact h.transparent hmem (h.sound_of_mem (fun _ hm => hm) hstart hmem)

end

/-! ### Two runs over one dump -/

def twiceOptions : Options := { root := "/work", extraTypes := ["T"] }

def twiceStamp : Stamp := ⟨1, 2, none⟩

def twiceDump : RawText := "/work/a.callsites.json"

def twiceStart : FileTree where
  top := .directory
    [("work", .directory [("a.callsites.json", .file (Text.bytes Round.soleContent))])]
  workingDirectory := ["work"]

def twiceSteps : List Step := [.run twiceOptions twiceStamp, .run twiceOptions twiceStamp]

def twicePlace : List RawText := ["work", "a.callsites.json"]

def twiceCache : List RawText := ["work", ".tmplint", "cache.json"]

structure TwiceFinds (t : FileTree) : Prop where
  looksAt : twiceOptions.LooksAt t [twiceDump]
  resolve : t.resolve .target twiceDump = .ok (.taken twicePlace)
  content : t.readText twiceDump = .ok Round.soleContent
  cache : ∀ p, t.resolve .target (Cache.file "/work") = .ok (.taken p) → p = twiceCache

theorem twiceFinds_of_eval {t : FileTree}
    (h : t.isDirectory "/work" = true ∧ (twiceOptions.files t).toOption = some [twiceDump] ∧
      (t.resolve .target twiceDump).toOption = some (.taken twicePlace) ∧
      (t.resolve .target (Cache.file "/work")).toOption
        ∈ [none, some (.free ["work", ".tmplint"] "cache.json"), some (.taken twiceCache)])
    (hview : t.top.view twicePlace = some (.file (Text.bytes Round.soleContent))) : TwiceFinds t := by
  obtain ⟨hdir, hfiles, hresolve, hcache⟩ := h
  have hplace := Json.eq_ok_of_toOption hresolve
  refine ⟨⟨hdir, Json.eq_ok_of_toOption hfiles⟩, hplace, ?_, fun p hp => ?_⟩
  · exact FileTree.readText_eq_ok_iff.mpr ⟨_, _, hplace, hview, Text.ofBytes?_bytes _⟩
  · rw [hp] at hcache
    simpa [Except.toOption] using hcache

theorem twiceFinds_start : TwiceFinds twiceStart := twiceFinds_of_eval (by decide +kernel) rfl

/-! The first run finds no cache and makes the directory for its own, be that too large to be kept or
not. -/

def twiceMade : FileTree := (twiceStart.createDirectories (Cache.directory "/work")).2

def firstCache : Cache :=
  (twiceOptions.surface.analyzeFiles none twiceStamp.seconds twiceStart [twiceDump]).2

theorem load_twiceStart (s : Surface) : Cache.load "/work" s twiceStart = (none, twiceStart) := by
  have hnone : twiceStart.readText (Cache.file "/work") = .error .notFound := by rfl
  refine Cache.load_of_not_readText s fun x hx => ?_
  rw [hnone] at hx
  cases hx

theorem save_twiceStart (c : Cache) :
    Cache.save "/work" twiceStamp c twiceStart = Cache.store "/work" twiceStamp c twiceMade := by
  have hexists : ¬ twiceStart.pathExists (Cache.directory "/work") = true := by decide +kernel
  have hmade : twiceStart.createDirectories (Cache.directory "/work") = (.ok (), twiceMade) := by rfl
  unfold Cache.save
  rw [if_neg hexists, hmade]

theorem after_twiceStart : (Step.run twiceOptions twiceStamp).after twiceStart
    = (Cache.store "/work" twiceStamp firstCache twiceMade).2 := by
  have hroot : twiceOptions.root = "/work" := rfl
  rw [Step.after_run, Options.analyze_cached_snd_of_looksAt twiceFinds_start.looksAt,
    Options.saved, Options.newCache, hroot, load_twiceStart]
  dsimp only
  rw [save_twiceStart, firstCache]

theorem twiceFinds_after : TwiceFinds ((Step.run twiceOptions twiceStamp).after twiceStart) := by
  rw [after_twiceStart]
  by_cases hlarge : Cache.sizeLimit < (Text.bytes firstCache.text).length
  · rw [Cache.store_of_large hlarge]
    exact twiceFinds_of_eval (by decide +kernel) rfl
  · rw [Cache.store_of_small hlarge]
    exact twiceFinds_of_eval (by decide +kernel) rfl

theorem twice_of_mem {t : FileTree} {step : Step} (h : (t, step) ∈ moments twiceStart twiceSteps) :
    step = .run twiceOptions twiceStamp ∧ TwiceFinds t := by
  rcases List.mem_cons.mp h with heq | h
  · cases heq
    exact ⟨rfl, twiceFinds_start⟩
  · obtain heq := List.mem_singleton.mp h
    cases heq
    exact ⟨rfl, twiceFinds_after⟩

theorem twice_hashed {x : String} (h : Hashed twiceStart twiceSteps x) :
    x = twiceOptions.surface.listing ∨ x = Round.soleContent := by
  obtain ⟨t, o, stamp, files, hmem, hlooks, hx⟩ := h
  obtain ⟨hstep, hfinds⟩ := twice_of_mem hmem
  cases hstep
  rcases hx with rfl | ⟨path, hpath, hx⟩
  · exact .inl rfl
  · obtain rfl := Except.ok.inj (hlooks.2.symm.trans hfinds.looksAt.2)
    obtain rfl := List.mem_singleton.mp hpath
    exact .inr (Except.ok.inj (hx.symm.trans hfinds.content))

theorem twice_undisturbed : Undisturbed (· = twiceCache) twiceStart twiceSteps where
  empty := by
    have hnone : twiceStart.top.view twiceCache = none := by decide
    rintro p content rfl
    rw [hnone]
    nofun
  edits t after hmem := by cases (twice_of_mem hmem).1
  found t o stamp hmem := by
    obtain ⟨hstep, hfinds⟩ := twice_of_mem hmem
    cases hstep
    exact hfinds.cache
  apart t o stamp files hmem hlooks path hpath := by
    obtain ⟨hstep, hfinds⟩ := twice_of_mem hmem
    cases hstep
    obtain rfl := Except.ok.inj (hlooks.2.symm.trans hfinds.looksAt.2)
    obtain rfl := List.mem_singleton.mp hpath
    intro heq
    have hplace : twicePlace = twiceCache :=
      hfinds.cache twicePlace (heq.symm.trans hfinds.resolve)
    exact absurd hplace (by decide)
  plain t o stamp hmem := by
    cases (twice_of_mem hmem).1
    decide
  collisionFree := by
    have hdiffer : Sha256.hex (Text.bytes twiceOptions.surface.listing)
        ≠ Sha256.hex (Text.bytes Round.soleContent) := by decide +kernel
    intro x y hx hy heq
    rcases twice_hashed hx with rfl | rfl <;> rcases twice_hashed hy with rfl | rfl
    · rfl
    · exact absurd heq hdiffer
    · exact absurd heq.symm hdiffer
    · rfl

theorem cached_run_transparent_twice :
    Undisturbed (· = twiceCache) twiceStart twiceSteps ∧
      (twiceOptions.cached.analyze twiceStamp
          ((Step.run twiceOptions twiceStamp).after twiceStart)).1.map Outcome.unmarked
        = (twiceOptions.uncached.analyze twiceStamp
            ((Step.run twiceOptions twiceStamp).after twiceStart)).1 ∧
      ∃ out, (twiceOptions.uncached.analyze twiceStamp
            ((Step.run twiceOptions twiceStamp).after twiceStart)).1 = .ok out ∧
        out.summary.diagnostics = [.invalidTemplate ⟨"a.cs", 1, 1, 0⟩ "\x7b"] := by
  have hparse : Dump.parse twiceDump Round.soleContent = .ok Round.soleDump :=
    Dump.parse_eq_ok_iff.mpr (Dump.parse_eq_ok_iff.mp Round.parse_soleContent)
  refine ⟨twice_undisturbed,
    cached_run_transparent twice_undisturbed (List.mem_cons_of_mem _ (List.mem_cons_self ..)), _,
    congrArg Prod.fst (Options.analyze_eq_found rfl twiceFinds_after.looksAt.uncached twiceStamp), ?_⟩
  rw [Options.found, Dump.loadAll_singleton twiceFinds_after.content hparse]
  decide +kernel

end LogTemplate.History
