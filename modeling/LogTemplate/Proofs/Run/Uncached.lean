import LogTemplate.Proofs.Dump.RoundTrip
import LogTemplate.Proofs.FileTree.Effects
import LogTemplate.Proofs.Run.Outcome

/-! A run without a cache: one result for each dump that can be loaded, and nothing else. -/

namespace LogTemplate

def Dump.loadAll (t : FileTree) (files : List RawText) : List (RawText × Dump) :=
  files.filterMap fun path => (Dump.load t path).toOption.map (path, ·)

theorem Dump.mem_loadAll_iff {t : FileTree} {files : List RawText} {path : RawText} {d : Dump} :
    (path, d) ∈ Dump.loadAll t files ↔ path ∈ files ∧ Dump.load t path = .ok d := by
  unfold Dump.loadAll
  rw [List.mem_filterMap]
  constructor
  · rintro ⟨path', hpath, hd⟩
    obtain ⟨d', hload, heq⟩ := Option.map_eq_some_iff.mp hd
    cases heq
    refine ⟨hpath, ?_⟩
    cases hresult : Dump.load t path with
    | error e =>
      rw [hresult] at hload
      cases hload
    | ok d' =>
      rw [hresult] at hload
      cases hload
      rfl
  · rintro ⟨hpath, hload⟩
    refine ⟨path, hpath, ?_⟩
    rw [hload]
    rfl

theorem Dump.loadAll_singleton {t : FileTree} {path : RawText} {content : String} {d : Dump}
    (hread : t.readText path = .ok content) (hparse : Dump.parse path content = .ok d) :
    Dump.loadAll t [path] = [(path, d)] := by
  have hload : Dump.load t path = .ok d := by
    unfold Dump.load
    rw [hread]
    exact hparse
  rw [Dump.loadAll, List.filterMap_cons, hload]
  rfl

namespace Surface

variable (s : Surface)

def resultOf (e : RawText × Dump) : DumpResult :=
  ⟨e.1, e.2.compilation, e.2.calls.length.toUInt64, s.diagnostics e.2.calls, false⟩

theorem result_process_none (t : FileTree) (path : RawText) :
    (s.process none t path).toOption.map (fun found => found.1.result path found.2)
      = (Dump.load t path).toOption.map fun d => s.resultOf (path, d) := by
  unfold process Dump.load
  cases t.readText path with
  | error e => rfl
  | ok content =>
    dsimp only [Option.bind_none]
    cases Dump.parse path content <;> rfl

theorem analyzeFiles_none (seconds : Nat) (t : FileTree) (files : List RawText) :
    (s.analyzeFiles none seconds t files).1 = (Dump.loadAll t files).map s.resultOf := by
  unfold analyzeFiles Dump.loadAll
  dsimp only
  rw [List.map_filterMap, List.map_filterMap]
  refine List.filterMap_congr fun path _ => ?_
  have hresult := result_process_none s t path
  rw [Option.map_map, Option.map_map]
  exact hresult

end Surface

namespace Options

/-- What a run without a cache finds in some files. -/
def found (o : Options) (t : FileTree) (files : List RawText) : Outcome :=
  .ofDumps files.length ((Dump.loadAll t files).map o.surface.resultOf)

variable {o : Options} {t : FileTree} {files : List RawText}

theorem uncached_eq_self (h : o.useCache = false) : o.uncached = o := by
  unfold uncached
  rw [← h]

theorem cached_eq_self (h : o.useCache = true) : o.cached = o := by
  unfold cached
  rw [← h]

theorem analyze_eq_error (h : ∀ files, ¬ o.LooksAt t files) (stamp : Stamp) :
    ∃ f, o.analyze stamp t = (.error f, t) := by
  obtain ⟨f, hcached, huncached⟩ := analyze_of_not_looksAt h stamp
  cases hcache : o.useCache with
  | true =>
    rw [cached_eq_self hcache] at hcached
    exact ⟨f, hcached⟩
  | false =>
    rw [uncached_eq_self hcache] at huncached
    exact ⟨f, huncached⟩

theorem exists_looksAt_of_analyze_eq_ok {stamp : Stamp} {out : Outcome}
    (h : (o.analyze stamp t).1 = .ok out) : ∃ files, o.LooksAt t files := by
  by_contra hnone
  obtain ⟨f, hfails⟩ := analyze_eq_error (not_exists.mp hnone) stamp
  rw [hfails] at h
  cases h

theorem analyze_eq_found (hcache : o.useCache = false) (h : o.LooksAt t files) (stamp : Stamp) :
    o.analyze stamp t = (.ok (o.found t files), t) := by
  have hanalyze := analyze_uncached_of_looksAt h stamp
  rw [uncached_eq_self hcache, Surface.analyzeFiles_none] at hanalyze
  exact hanalyze

theorem analyze_snd_eq_self (h : o.useCache = true → ∀ files, ¬ o.LooksAt t files)
    (stamp : Stamp) : (o.analyze stamp t).2 = t := by
  by_cases hlooks : ∃ files, o.LooksAt t files
  · obtain ⟨files, hlooks⟩ := hlooks
    have hcache : o.useCache = false := Bool.eq_false_iff.mpr fun hcache => h hcache files hlooks
    rw [analyze_eq_found hcache hlooks]
  · obtain ⟨f, hfails⟩ := analyze_eq_error (not_exists.mp hlooks) stamp
    rw [hfails]

end Options

/-! ### A project of one dump, with calls of a standard type and of two others -/

namespace Sample

def call (type text : String) (line : UInt32) : Call Expr :=
  ⟨⟨"Log", type, [⟨"message", .string⟩]⟩, [⟨some 0, some (.string text ⟨"a.cs", line, 1, 0⟩)⟩], none⟩

def dump : Dump where
  compilation := "p"
  calls := [call "Microsoft.Extensions.Logging.ILogger" "a" 1, call "T" "\x7b" 2, call "U" "\x7b" 3]

def path : RawText := "/work/a.callsites.json"

def tree : FileTree where
  top := .directory [("work", .directory [("a.callsites.json", .file (Text.bytes dump.text))])]
  workingDirectory := ["work"]

/-- The calls of one of the two other types are inspected. -/
def options : Options := { root := "/work", extraTypes := ["T"] }

def stamp : Stamp := ⟨1, 2, none⟩

def finding (line : UInt32) : Diagnostic := .invalidTemplate ⟨"a.cs", line, 1, 0⟩ "\x7b"

theorem parse_text : Dump.parse path dump.text = .ok dump :=
  Dump.parse_text_of_depth_le (by decide +kernel) path

theorem readText_tree : tree.readText path = .ok dump.text := by
  have hplace : tree.resolve .target path = .ok (.taken ["work", "a.callsites.json"]) :=
    Json.eq_ok_of_toOption (by decide +kernel)
  exact FileTree.readText_eq_ok_iff.mpr ⟨_, _, hplace, rfl, Text.ofBytes?_bytes dump.text⟩

theorem looksAt_tree : options.LooksAt tree [path] :=
  ⟨by decide +kernel, Json.eq_ok_of_toOption (by decide +kernel)⟩

theorem found_tree (o : Options) : o.found tree [path] = .ofDumps 1 [o.surface.resultOf (path, dump)] := by
  rw [Options.found, Dump.loadAll_singleton readText_tree parse_text]
  rfl

theorem diagnostics_found (o : Options) :
    (o.found tree [path]).summary.diagnostics = Diagnostic.sort (o.surface.diagnostics dump.calls) := by
  rw [found_tree]
  simp [Outcome.ofDumps, Surface.resultOf]

end Sample

end LogTemplate
