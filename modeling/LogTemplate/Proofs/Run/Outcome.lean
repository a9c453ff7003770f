import LogTemplate.Proofs.Cache.Soundness
import LogTemplate.Run

/-! A run with a cache and the same run without one. Both fail alike, and where they do not the one
puts together the results of an analysis with the cache that was found, the other those of an
analysis without any. -/

namespace LogTemplate

def Outcome.unmarked (o : Outcome) : Outcome where
  summary := { o.summary with stats := { o.summary.stats with cachedFiles := 0 } }
  dumps := o.dumps.map DumpResult.unmarked

theorem Outcome.unmarked_ofDumps (dumpFiles : Nat) (results : List DumpResult) :
    (ofDumps dumpFiles results).unmarked = ofDumps dumpFiles (results.map DumpResult.unmarked) := by
  have hsort : (results.map DumpResult.unmarked).mergeSort
        (fun a b => (Path.order a.path b.path).isLE)
      = (results.mergeSort fun a b => (Path.order a.path b.path).isLE).map DumpResult.unmarked :=
    (List.map_mergeSort (f := DumpResult.unmarked) fun _ _ _ _ => rfl).symm
  unfold ofDumps
  dsimp only
  rw [hsort]
  generalize (results.mergeSort fun a b => (Path.order a.path b.path).isLE) = dumps
  have hdiagnostics : (dumps.map DumpResult.unmarked).flatMap DumpResult.diagnostics
      = dumps.flatMap DumpResult.diagnostics := List.flatMap_map ..
  have hcount : (dumps.map DumpResult.unmarked).countP DumpResult.cached = 0 := by
    rw [List.countP_eq_zero]
    intro r hr
    obtain ⟨r', -, rfl⟩ := List.mem_map.mp hr
    exact Bool.false_ne_true
  rw [hdiagnostics, hcount, List.length_map, total_map]
  rfl

theorem FileTree.dumpFiles_eq_ok_iff {t : FileTree} {excluded : List String} {root : RawText}
    {files : List RawText} : t.dumpFiles excluded root = .ok files ↔
      ∃ nodes, t.visit (skippedDirectories ++ excluded) root = .ok nodes ∧
        (∀ node ∈ nodes, ¬ (node.2.isDirectory && isTooLong node.1) = true) ∧
        files = Path.sort ((nodes.map Prod.fst).filter fun path => t.isFile path && isDumpFile path) := by
  unfold dumpFiles
  cases t.visit (skippedDirectories ++ excluded) root with
  | error e => exact iff_of_false nofun fun h => nomatch h.choose_spec.1
  | ok nodes =>
    dsimp only
    cases hfind : nodes.find? fun node => node.2.isDirectory && isTooLong node.1 with
    | some node =>
      have hlong : (node.2.isDirectory && isTooLong node.1) = true := by
        apply List.find?_some (p := fun node : RawText × Node => node.2.isDirectory && isTooLong node.1)
        exact hfind
      refine iff_of_false nofun ?_
      rintro ⟨nodes', heq, hshort, -⟩
      cases heq
      exact hshort node (List.mem_of_find?_eq_some hfind) hlong
    | none =>
      constructor
      · intro h
        exact ⟨nodes, rfl, List.find?_eq_none.mp hfind, (Except.ok.inj h).symm⟩
      · rintro ⟨nodes', heq, -, rfl⟩
        cases heq
        rfl

theorem FileTree.isFile_of_mem_dumpFiles {t : FileTree} {excluded : List String} {root : RawText}
    {files : List RawText} (h : t.dumpFiles excluded root = .ok files) {path : RawText}
    (hpath : path ∈ files) : t.isFile path = true := by
  obtain ⟨nodes, -, -, rfl⟩ := dumpFiles_eq_ok_iff.mp h
  obtain ⟨-, hfile⟩ := List.mem_filter.mp (List.mem_mergeSort.mp hpath)
  exact (Bool.and_eq_true_iff.mp hfile).1

namespace Options

theorem files_eq_ok_iff {o : Options} {t : FileTree} {files : List RawText} :
    o.files t = .ok files ↔ ∃ dumps, t.dumpFiles o.excludedDirectories o.root = .ok dumps ∧
      files = dumps.filter fun path =>
        !isIgnored o.ignoredPatterns ((Path.relativeTo? o.root path).getD path).display := by
  unfold Options.files
  cases t.dumpFiles o.excludedDirectories o.root with
  | error f => exact iff_of_false nofun fun h => nomatch h.choose_spec.1
  | ok dumps =>
    constructor
    · intro h
      exact ⟨dumps, rfl, (Except.ok.inj h).symm⟩
    · rintro ⟨dumps', heq, rfl⟩
      cases heq
      rfl

theorem isFile_of_mem_files {o : Options} {t : FileTree} {files : List RawText}
    (h : o.files t = .ok files) {path : RawText} (hpath : path ∈ files) : t.isFile path = true := by
  obtain ⟨dumps, hdumps, rfl⟩ := files_eq_ok_iff.mp h
  exact FileTree.isFile_of_mem_dumpFiles hdumps (List.mem_of_mem_filter hpath)

def cached (o : Options) : Options := { o with useCache := true }

def uncached (o : Options) : Options := { o with useCache := false }

/-- The dumps a run looks at, if it comes to that. -/
def LooksAt (o : Options) (t : FileTree) (files : List RawText) : Prop :=
  t.isDirectory o.root = true ∧ o.files t = .ok files

def recalled (o : Options) (t : FileTree) : Option Cache × FileTree :=
  if o.useCache then Cache.load o.root o.surface t else (none, t)

def newCache (o : Options) (stamp : Stamp) (t : FileTree) (files : List RawText) : Cache :=
  (o.surface.analyzeFiles (Cache.load o.root o.surface t).1 stamp.seconds
    (Cache.load o.root o.surface t).2 files).2

def saved (o : Options) (stamp : Stamp) (t : FileTree) (files : List RawText) :
    Except Error Unit × FileTree :=
  Cache.save o.root stamp (o.newCache stamp t files) (Cache.load o.root o.surface t).2

section

variable {o : Options} {t : FileTree} {files : List RawText}

theorem analyze_of_looksAt (h : o.LooksAt t files) (stamp : Stamp) :
    o.analyze stamp t
      = (.ok (.ofDumps files.length
            (o.surface.analyzeFiles (o.recalled t).1 stamp.seconds (o.recalled t).2 files).1),
          if o.useCache then (Cache.save o.root stamp (o.surface.analyzeFiles (o.recalled t).1
            stamp.seconds (o.recalled t).2 files).2 (o.recalled t).2).2 else (o.recalled t).2) := by
  have hroot : ¬ (!t.isDirectory o.root) = true := by
    rw [h.1]
    exact Bool.false_ne_true
  unfold analyze
  rw [if_neg hroot, h.2]
  rfl

theorem LooksAt.uncached (h : o.LooksAt t files) : o.uncached.LooksAt t files := h

theorem analyze_uncached_of_looksAt (h : o.LooksAt t files) (stamp : Stamp) :
    o.uncached.analyze stamp t
      = (.ok (.ofDumps files.length (o.surface.analyzeFiles none stamp.seconds t files).1), t) :=
  analyze_of_looksAt h.uncached stamp

theorem analyze_cached_of_looksAt (h : o.LooksAt t files) (stamp : Stamp) :
    o.cached.analyze stamp t
      = (.ok (.ofDumps files.length (o.surface.analyzeFiles (Cache.load o.root o.surface t).1
            stamp.seconds (Cache.load o.root o.surface t).2 files).1), (o.saved stamp t files).2) := by
  have hlooks : o.cached.LooksAt t files := h
  exact analyze_of_looksAt hlooks stamp

theorem analyze_cached_snd_of_looksAt (h : o.LooksAt t files) (stamp : Stamp) :
    (o.cached.analyze stamp t).2 = (o.saved stamp t files).2 := by
  rw [analyze_cached_of_looksAt h]

theorem analyze_of_not_looksAt (h : ∀ files, ¬ o.LooksAt t files) (stamp : Stamp) :
    ∃ f, o.cached.analyze stamp t = (.error f, t) ∧ o.uncached.analyze stamp t = (.error f, t) := by
  by_cases hdir : t.isDirectory o.root = true
  · cases hfiles : o.files t with
    | ok files => exact absurd ⟨hdir, hfiles⟩ (h files)
    | error f =>
      have hroot : ¬ (!t.isDirectory o.root) = true := by
        rw [hdir]
        exact Bool.false_ne_true
      have hfails {o' : Options} (hsame : o'.root = o.root) (hfiles' : o'.files t = .error f) :
          o'.analyze stamp t = (.error f, t) := by
        unfold analyze
        rw [hsame, if_neg hroot, hfiles']
      exact ⟨f, hfails rfl hfiles, hfails rfl hfiles⟩
  · have hroot : (!t.isDirectory o.root) = true := by
      rw [Bool.eq_false_iff.mpr hdir]
      rfl
    have hfails {o' : Options} (hsame : o'.root = o.root) : o'.analyze stamp t
        = (.error ⟨.invalidArgument s!"not a directory: {o.root.display}", []⟩, t) := by
      unfold analyze
      rw [hsame, if_pos hroot]
    exact ⟨_, hfails rfl, hfails rfl⟩

end

end Options

end LogTemplate
