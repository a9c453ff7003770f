import LogTemplate.Proofs.Cache.Footprint
import LogTemplate.Proofs.Run.Uncached

/-! What a run changes. Without a cache, and where it fails, that is nothing; else it is the cache
file, and its directory if there is none. -/

namespace LogTemplate

open FileTree Function

namespace Cache

/-- Where the cache of a root is kept: in the directory that `.tmplint` is or leads to, else in the
one to be made of it. -/
structure Home (t : FileTree) (root : RawText) (r d : List RawText) : Prop where
  leads : t.resolve .target root = .ok (.taken r)
  of_directory : t.isDirectory (directory root) = true →
    t.resolve .target (directory root) = .ok (.taken d)
  of_not_directory : ¬ t.isDirectory (directory root) = true → d = r ++ [directoryName]

/-- No cache can be stored: `.tmplint` is no directory, or the cache file is one. -/
def IsBlocked (t : FileTree) (root : RawText) (r d : List RawText) : Prop :=
  (t.top.view (r ++ [directoryName]) ≠ none ∧ ¬ t.isDirectory (directory root) = true) ∨
    t.top.view (d ++ [fileName]) = some .directory

/-- Two trees that are the same but for the cache file and its directory. -/
structure Frame (t t' : FileTree) (r d : List RawText) : Prop where
  view : ∀ place, place ≠ r ++ [directoryName] → place ≠ d ++ [fileName] →
    t'.top.view place = t.top.view place
  directory : t'.top.view (r ++ [directoryName]) = t.top.view (r ++ [directoryName]) ∨
    t.top.view (r ++ [directoryName]) = none ∧ t'.top.view (r ++ [directoryName]) = some .directory
  workingDirectory : t'.workingDirectory = t.workingDirectory

variable {root : RawText} {stamp : Stamp} {t t' : FileTree} {r d : List RawText}

theorem exists_home (hdir : t.isDirectory root = true) : ∃ r d, Home t root r d := by
  obtain ⟨r, hr⟩ := exists_leadsTo_of_isDirectory hdir
  by_cases hhome : t.isDirectory (directory root) = true
  · obtain ⟨d, hd⟩ := exists_leadsTo_of_isDirectory hhome
    exact ⟨r, d, hr.resolve, fun _ => hd.resolve, fun hnot => absurd hhome hnot⟩
  · exact ⟨r, _, hr.resolve, fun hyes => absurd hyes hhome, fun _ => rfl⟩

theorem Home.leadsTo (h : Home t root r d) (hdir : t.isDirectory root = true) :
    t.LeadsTo root r := by
  obtain ⟨r', hr'⟩ := exists_leadsTo_of_isDirectory hdir
  have hsame : r' = r := Spot.taken.inj (Except.ok.inj (hr'.resolve.symm.trans h.leads))
  exact hsame ▸ hr'

theorem Home.eq_of_leadsTo {d' : List RawText} (h : Home t root r d)
    (hd' : t.LeadsTo (directory root) d') : d' = d := by
  have hhome := h.of_directory hd'.isDirectory
  exact Spot.taken.inj (Except.ok.inj (hd'.resolve.symm.trans hhome))

theorem places_ne (r d : List RawText) : r ++ [directoryName] ≠ d ++ [fileName] := by
  intro h
  have hlast := (List.append_inj' h rfl).2
  exact absurd hlast (by decide)

theorem Frame.refl (t : FileTree) (r d : List RawText) : Frame t t r d :=
  ⟨fun _ _ _ => rfl, .inl rfl, rfl⟩

theorem frame_of_updated {l : Option Label} (h : t.Updated (d ++ [fileName]) l t') :
    Frame t t' r d where
  view place _ hplace := by rw [h.view, update_of_ne hplace]
  directory := .inl (by rw [h.view, update_of_ne (places_ne r d)])
  workingDirectory := h.workingDirectory

theorem frame_of_created {l : Option Label} {t₁ : FileTree}
    (hfree : t.top.view (r ++ [directoryName]) = none)
    (hmade : t.Updated (r ++ [directoryName]) (some .directory) t₁)
    (h : t₁.Updated (r ++ [directoryName] ++ [fileName]) l t') : Frame t t' r (r ++ [directoryName]) where
  view place hdirectory hfile := by rw [h.view, update_of_ne hfile, hmade.view, update_of_ne hdirectory]
  directory := by
    refine .inr ⟨hfree, ?_⟩
    rw [h.view, update_of_ne (places_ne r _), hmade.view, update_self]
  workingDirectory := h.workingDirectory.trans hmade.workingDirectory

theorem frame_save_load (hdir : t.isDirectory root = true) (hhome : Home t root r d)
    (h : stamp.IsUnused t) (s : Surface) (c : Cache)
    (hroom : ¬ IsCutOff root stamp (save root stamp c (load root s t).2).1) :
    Frame t (save root stamp c (load root s t).2).2 r d ∧
      stamp.IsUnused (save root stamp c (load root s t).2).2 ∧
      (IsBlocked t root r d → (save root stamp c (load root s t).2).2 = t) := by
  cases save_load_footprint hdir (hhome.leadsTo hdir) h s c hroom with
  | same hsame =>
    rw [hsame]
    exact ⟨.refl t r d, h, fun _ => rfl⟩
  | file hleads hold hupdated =>
    have hplace := hhome.eq_of_leadsTo hleads
    subst hplace
    refine ⟨frame_of_updated hupdated, isUnused_of_updated h (.inl rfl) hupdated, ?_⟩
    rintro (⟨-, hnot⟩ | hdirectory)
    · exact absurd hleads.isDirectory hnot
    · exact absurd hdirectory hold
  | created hfree hmade hupdated =>
    have hnone : ¬ t.isDirectory (directory root) = true := by
      intro hexists
      obtain ⟨d', hd'⟩ := exists_leadsTo_of_isDirectory hexists
      have hroot := ne_empty_of_isDirectory hdir
      exact (hhome.leadsTo hdir).view_last_ne_none hroot isFileName_directory hd'.resolve hfree
    have hplace := hhome.of_not_directory hnone
    subst hplace
    refine ⟨frame_of_created hfree hmade hupdated, ?_, ?_⟩
    · exact isUnused_of_updated (isUnused_of_updated h (.inr rfl) hmade) (.inl rfl) hupdated
    · rintro (⟨hthere, -⟩ | hdirectory)
      · exact absurd hfree hthere
      · have hbelow : t.top.view (r ++ [directoryName] ++ [fileName]) = none :=
          Node.view_append_cons_of_ne_directory (by rw [hfree]; nofun) fileName []
        rw [hbelow] at hdirectory
        cases hdirectory

theorem not_readText_of_isBlocked (hhome : Home t root r d) (hblocked : IsBlocked t root r d)
    (x : String) : t.readText (file root) ≠ .ok x := by
  intro hread
  obtain ⟨d', hd'⟩ := exists_leadsTo_of_pathExists (directory_ne_empty root) isFileName_fileName
    (pathExists_of_readText hread)
  rcases hblocked with ⟨-, hnot⟩ | hdirectory
  · exact hnot hd'.isDirectory
  have hplace := hhome.eq_of_leadsTo hd'
  subst hplace
  obtain ⟨q, content, hr, hq, -⟩ := readText_eq_ok_iff.mp hread
  have hend : q = d' ++ [fileName] :=
    hd'.eq_append (directory_ne_empty root) isFileName_fileName hr hdirectory
  rw [hend, hdirectory] at hq
  cases hq

end Cache

theorem Dump.loadAll_congr {t t' : FileTree} {files : List RawText}
    (h : ∀ path ∈ files, t'.readText path = t.readText path) :
    Dump.loadAll t' files = Dump.loadAll t files := by
  unfold Dump.loadAll Dump.load
  refine List.filterMap_congr fun path hpath => ?_
  rw [h path hpath]

namespace Options

variable {o : Options} {stamp : Stamp} {t : FileTree} {files : List RawText}

theorem analyze_fst_of_no_cache (h : o.LooksAt t files)
    (hnone : ∀ x, t.readText (Cache.file o.root) ≠ .ok x) (stamp : Stamp) :
    (o.analyze stamp t).1 = .ok (o.found t files) := by
  cases hcache : o.useCache with
  | false => rw [analyze_eq_found hcache h]
  | true =>
    have hanalyze := analyze_cached_of_looksAt h stamp
    rw [cached_eq_self hcache, Cache.load_of_not_readText o.surface hnone,
      Surface.analyzeFiles_none] at hanalyze
    exact congrArg Prod.fst hanalyze

/-- The cache of a run is begun to be written and there is no room for all of it. -/
def IsCutOff (o : Options) (stamp : Stamp) (t : FileTree) : Prop :=
  ∃ files, o.LooksAt t files ∧ Cache.IsCutOff o.root stamp (o.saved stamp t files).1

theorem analyze_snd_of_idle
    (h : o.useCache = false ∨ ∃ f, (o.analyze stamp t).1 = .error f) : (o.analyze stamp t).2 = t := by
  refine analyze_snd_eq_self (fun hcache files hlooks => ?_) stamp
  rcases h with h | ⟨f, hfails⟩
  · rw [h] at hcache
    cases hcache
  · rw [analyze_of_looksAt hlooks] at hfails
    cases hfails

/-- A run without a cache and a run that fails leave the tree as it was. Any other finds, where no cache
can be stored, what it finds in each tree with the same dumps in which there is no cache yet. If the
name it writes its cache under at first is new, and what it begins to write is written whole, it
changes nothing but the cache file, in the directory that `.tmplint` is or leads to or is made to be,
leaves no file of that name, and where no cache can be stored changes nothing at all. -/
theorem analyze_frame (o : Options) (stamp : Stamp) (t : FileTree) :
    ((o.useCache = false ∨ ∃ f, (o.analyze stamp t).1 = .error f) → (o.analyze stamp t).2 = t) ∧
    ∀ out, o.useCache = true → (o.analyze stamp t).1 = .ok out →
      ∃ r d, Cache.Home t o.root r d ∧
        (Cache.IsBlocked t o.root r d → ∀ files, o.LooksAt t files →
          ∀ t' stamp', o.LooksAt t' files → (∀ path ∈ files, t'.readText path = t.readText path) →
            (∀ x, t'.readText (Cache.file o.root) ≠ .ok x) → (o.analyze stamp' t').1 = .ok out) ∧
        (stamp.IsUnused t → ¬ o.IsCutOff stamp t →
          Cache.Frame t (o.analyze stamp t).2 r d ∧ stamp.IsUnused (o.analyze stamp t).2 ∧
            (Cache.IsBlocked t o.root r d → (o.analyze stamp t).2 = t)) := by
  refine ⟨analyze_snd_of_idle, fun out hcache hout => ?_⟩
  obtain ⟨files, hlooks⟩ := exists_looksAt_of_analyze_eq_ok hout
  obtain ⟨r, d, hhome⟩ := Cache.exists_home hlooks.1
  refine ⟨r, d, hhome, fun hblock files' hlooks' t' stamp' hthere hread hnone => ?_,
    fun hunused hroom => ?_⟩
  · have hnone' := Cache.not_readText_of_isBlocked hhome hblock
    rw [analyze_fst_of_no_cache hlooks' hnone'] at hout
    rw [analyze_fst_of_no_cache hthere hnone, ← hout, found, Dump.loadAll_congr hread]
    rfl
  · have hafter := analyze_cached_snd_of_looksAt hlooks stamp
    rw [cached_eq_self hcache] at hafter
    rw [hafter]
    exact Cache.frame_save_load hlooks.1 hhome hunused o.surface (o.newCache stamp t files)
      fun hcut => hroom ⟨files, hlooks, hcut⟩

/-! ### A file in place of the directory -/

def blockedTree : FileTree := Sample.tree.put ["work", Cache.directoryName] (.file [])

theorem readText_blockedTree : blockedTree.readText Sample.path = .ok Sample.dump.text := by
  have hplace : blockedTree.resolve .target Sample.path = .ok (.taken ["work", "a.callsites.json"]) :=
    Json.eq_ok_of_toOption (by decide +kernel)
  exact FileTree.readText_eq_ok_iff.mpr ⟨_, _, hplace, rfl, Text.ofBytes?_bytes Sample.dump.text⟩

theorem looksAt_blockedTree : Sample.options.LooksAt blockedTree [Sample.path] :=
  ⟨by decide +kernel, Json.eq_ok_of_toOption (by decide +kernel)⟩

theorem analyze_frame_blocked : ∃ out,
    Sample.options.useCache = true ∧
    (Sample.options.analyze Sample.stamp blockedTree).1 = .ok out ∧
    out.summary.diagnostics = [Sample.finding 2] ∧
    Cache.IsBlocked blockedTree "/work" ["work"] ["work", Cache.directoryName] ∧
    (Sample.options.analyze Sample.stamp Sample.tree).1 = .ok out ∧
    Sample.stamp.IsUnused blockedTree ∧ ¬ Sample.options.IsCutOff Sample.stamp blockedTree ∧
    (Sample.options.analyze Sample.stamp blockedTree).2 = blockedTree := by
  have hnot : blockedTree.top.view ["work", Cache.directoryName] ≠ none ∧
      ¬ blockedTree.isDirectory (Cache.directory "/work") = true := by
    decide +kernel
  have hblocked : Cache.IsBlocked blockedTree "/work" ["work"] ["work", Cache.directoryName] :=
    .inl hnot
  have hunused : Sample.stamp.IsUnused blockedTree := unused_of_not_mem_names (by decide +kernel)
  have hroom : ¬ Sample.options.IsCutOff Sample.stamp blockedTree := by
    rintro ⟨files, -, hlimited, -⟩
    exact hlimited rfl
  have hempty (t : FileTree) (h : (t.readText (Cache.file "/work")).toOption = none) (x : String) :
      t.readText (Cache.file "/work") ≠ .ok x := by
    intro hx
    rw [hx] at h
    cases h
  have hrun := analyze_fst_of_no_cache looksAt_blockedTree (hempty _ (by decide +kernel)) Sample.stamp
  obtain ⟨r, d, hhome, hfinds, hkeeps⟩ :=
    (analyze_frame Sample.options Sample.stamp blockedTree).2 _ rfl hrun
  have hr : r = ["work"] := by
    have hwork : blockedTree.resolve .target "/work" = .ok (.taken ["work"]) :=
      Json.eq_ok_of_toOption (by decide +kernel)
    exact Spot.taken.inj (Except.ok.inj (hhome.leads.symm.trans hwork))
  subst hr
  have hd := hhome.of_not_directory hnot.2
  subst hd
  have hsame : ∀ path ∈ [Sample.path], Sample.tree.readText path = blockedTree.readText path := by
    rw [List.forall_mem_singleton, Sample.readText_tree, readText_blockedTree]
  have hstored := hfinds hblocked [Sample.path] looksAt_blockedTree Sample.tree Sample.stamp
    Sample.looksAt_tree hsame (hempty _ (by decide +kernel))
  obtain ⟨-, -, hunchanged⟩ := hkeeps hunused hroom
  refine ⟨_, rfl, hrun, ?_, hblocked, hstored, hunused, hroom, hunchanged hblocked⟩
  have hdumps : Dump.loadAll blockedTree [Sample.path] = Dump.loadAll Sample.tree [Sample.path] :=
    Dump.loadAll_congr fun path hpath => (hsame path hpath).symm
  have hreported : Sample.options.surface.diagnostics Sample.dump.calls = [Sample.finding 2] := by
    decide +kernel
  rw [found, hdumps]
  show (Sample.options.found Sample.tree [Sample.path]).summary.diagnostics = _
  rw [Sample.diagnostics_found, hreported]
  exact List.mergeSort_of_pairwise (by decide)

/-! ### A file of the name that is used at first, a full disk, and a path that is too long -/

/-- What a run without dumps keeps in the first second of the clock. -/
def noDumps : Cache := ⟨.current .standard 0, []⟩

theorem length_noDumps : (Text.bytes noDumps.text).length = 202 := by
  decide +kernel

theorem store_noDumps (root : RawText) (stamp : Stamp) (t : FileTree) :
    Cache.store root stamp noDumps t = Cache.replaceFile root stamp (Text.bytes noDumps.text) t := by
  refine Cache.store_of_small ?_
  rw [length_noDumps]
  decide

theorem analyze_of_no_dumps (hcache : o.useCache = true) (htypes : o.extraTypes = [])
    (hseconds : stamp.seconds = 0) (h : o.LooksAt t [])
    (hnone : ∀ x, t.readText (Cache.file o.root) ≠ .ok x) :
    (o.analyze stamp t).1.isOk = true ∧ o.saved stamp t [] = Cache.save o.root stamp noDumps t ∧
      (o.analyze stamp t).2 = (Cache.save o.root stamp noDumps t).2 := by
  have hsaved : o.saved stamp t [] = Cache.save o.root stamp noDumps t := by
    unfold saved newCache Options.surface
    rw [Cache.load_of_not_readText _ hnone, htypes, hseconds]
    rfl
  have hanalyze := analyze_cached_of_looksAt h stamp
  rw [cached_eq_self hcache, hsaved] at hanalyze
  rw [hanalyze]
  exact ⟨rfl, hsaved, rfl⟩

def emptyOptions : Options := { root := "/work" }

def temporaryPlace : List RawText :=
  ["work", Cache.directoryName, Cache.temporaryName Sample.stamp]

def heldTree : FileTree where
  top := .directory [("work", .directory
    [(Cache.directoryName, .directory [(Cache.temporaryName Sample.stamp, .file [0])])])]
  workingDirectory := ["work"]

def fullStamp : Stamp := { Sample.stamp with room := some 0 }

/-- The path of a directory of caches is short enough here, and that of a cache file is not. -/
def longOptions : Options := { root := ⟨Text.bytes "/work" ++ List.replicate 4078 Path.slash⟩ }

/-- The directory of caches is made and nothing is in it. -/
def madeTree : FileTree := FileTree.empty.put ["work", Cache.directoryName] (.directory [])

theorem seconds_sample : Sample.stamp.seconds = 0 := by decide

theorem analyze_heldTree :
    heldTree.top.view temporaryPlace = some (.file [0]) ∧
      (emptyOptions.analyze Sample.stamp heldTree).1.isOk = true ∧
      (emptyOptions.analyze Sample.stamp heldTree).2.top.view temporaryPlace = none := by
  have hlooks : emptyOptions.LooksAt heldTree [] :=
    ⟨by decide +kernel, Json.eq_ok_of_toOption (by decide +kernel)⟩
  have hthere : heldTree.pathExists (Cache.directory emptyOptions.root) = true := by decide +kernel
  obtain ⟨hok, -, hafter⟩ := analyze_of_no_dumps rfl rfl seconds_sample hlooks nofun
  refine ⟨rfl, hok, ?_⟩
  rw [hafter, Cache.save_of_pathExists hthere, store_noDumps]
  rfl

theorem analyze_fullStamp :
    (emptyOptions.analyze fullStamp .empty).1.isOk = true ∧
      (emptyOptions.analyze fullStamp .empty).2.top.view temporaryPlace = some (.file []) := by
  have hlooks : emptyOptions.LooksAt .empty [] :=
    ⟨by decide +kernel, Json.eq_ok_of_toOption (by decide +kernel)⟩
  have hseconds : fullStamp.seconds = 0 := seconds_sample
  have hnot : ¬ FileTree.empty.pathExists (Cache.directory emptyOptions.root) = true := by
    decide +kernel
  have hmade : FileTree.empty.createDirectories (Cache.directory emptyOptions.root)
      = (.ok (), madeTree) := rfl
  obtain ⟨hok, -, hafter⟩ := analyze_of_no_dumps rfl rfl hseconds hlooks nofun
  obtain ⟨b, content, hcontent⟩ := List.exists_cons_of_length_eq_add_one length_noDumps
  refine ⟨hok, ?_⟩
  rw [hafter, Cache.save_of_created hnot hmade, store_noDumps, hcontent]
  rfl

theorem size_longRoot : longOptions.root.size = 4083 := by
  show (Text.bytes "/work" ++ List.replicate 4078 Path.slash).length = 4083
  rw [List.length_append, List.length_replicate]
  rfl

theorem names_longRoot : names longOptions.root = [RawText.ofText "work"] :=
  names_append_slashes "/work" 4078

theorem allowed_longRoot : Allowed longOptions.root := by
  refine ⟨fun hempty => ?_, fun hnul => ?_, ?_⟩
  · have hsize := size_longRoot
    rw [hempty] at hsize
    cases hsize
  · rcases List.mem_append.mp hnul with hname | hslash
    · exact absurd hname (by decide)
    · exact absurd (List.eq_of_mem_replicate hslash) (by decide)
  · unfold isTooLong
    rw [size_longRoot]
    rfl

theorem allowed_longDirectory : Allowed (Cache.directory longOptions.root) := by
  refine allowed_join allowed_longRoot Cache.isFileName_directory ?_
  rw [size_longRoot]
  decide

theorem isTooLong_longFile {name : RawText} (hname : IsFileName name) (hsize : 5 ≤ name.size) :
    isTooLong (Path.join (Cache.directory longOptions.root) name) = true := by
  have hdirectory := (size_join longOptions.root Cache.isFileName_directory).1
  have hfile := (size_join (Cache.directory longOptions.root) hname).1
  have height : Cache.directoryName.size = 8 := rfl
  rw [size_longRoot, height] at hdirectory
  unfold Cache.directory isTooLong maxPathSize at *
  rw [decide_eq_true_iff]
  omega

theorem node?_longRoot {access : Access} (haccess : access ≠ .output) :
    FileTree.empty.node? access longOptions.root = .ok (.directory []) := by
  refine node?_eq_ok_iff.mpr ⟨["work"], ?_, rfl⟩
  rw [resolve_of_allowed allowed_longRoot, steps, names_longRoot]
  -- the slashes at the end are a step that stays in the directory
  cases access with
  | output => exact absurd rfl haccess
  | entry => split <;> rfl
  | target => split <;> rfl

theorem looksAt_longOptions : longOptions.LooksAt .empty [] := by
  have hnode : FileTree.empty.node? .target longOptions.root = .ok (.directory []) :=
    node?_longRoot (by decide)
  have hdirectory : FileTree.empty.isDirectory longOptions.root = true := by
    unfold isDirectory
    rw [hnode]
  have hfile : FileTree.empty.isFile longOptions.root = false := by
    unfold isFile
    rw [hnode]
  have hvisit : FileTree.empty.visit skippedDirectories longOptions.root = .ok [] ∨
      FileTree.empty.visit skippedDirectories longOptions.root
        = .ok [(longOptions.root, .directory [])] := by
    unfold visit
    rw [node?_longRoot (by decide)]
    dsimp only
    split
    · exact .inl rfl
    · exact .inr rfl
  refine ⟨hdirectory, files_eq_ok_iff.mpr ⟨[], ?_, rfl⟩⟩
  rcases hvisit with hnothing | hroot
  · exact dumpFiles_eq_ok_iff.mpr ⟨_, hnothing, nofun, by simp [Path.sort]⟩
  · refine dumpFiles_eq_ok_iff.mpr ⟨_, hroot, ?_, ?_⟩
    · simp [allowed_longRoot.2.2]
    · simp [hfile, Path.sort]

theorem createDirectories_longDirectory :
    ¬ FileTree.empty.pathExists (Cache.directory longOptions.root) = true ∧
      FileTree.empty.createDirectories (Cache.directory longOptions.root) = (.ok (), madeTree) := by
  have hroot := allowed_longRoot.1
  have hname := Cache.isFileName_directory
  have hwalk (access : Access) (ss : List RawText) :
      FileTree.empty.resolveSteps access (Path.join longOptions.root Cache.directoryName) ss
        = walk FileTree.empty.top access maxLinks [] ss := by
    have hallowed : Allowed (Path.join longOptions.root Cache.directoryName) := allowed_longDirectory
    have hbase : FileTree.empty.base longOptions.root = [] := rfl
    rw [resolveSteps_of_allowed hallowed, base_join hroot hname, hbase]
  constructor
  · intro hthere
    obtain ⟨place, hplace⟩ := exists_resolve_of_pathExists hthere
    unfold resolve Cache.directory at hplace
    rw [hwalk, steps_join hroot hname, names_longRoot] at hplace
    cases hplace
  · refine createDirectories_of_ok hroot hname ?_
    unfold createDirectory
    rw [hwalk, names_join hroot hname, names_longRoot]
    rfl

theorem analyze_longOptions :
    (longOptions.analyze Sample.stamp .empty).1.isOk = true ∧
      (longOptions.saved Sample.stamp .empty []).1.isOk = false ∧
      FileTree.empty.top.view ["work", Cache.directoryName] = none ∧
      (longOptions.analyze Sample.stamp .empty).2.top.view ["work", Cache.directoryName]
        = some .directory := by
  have hnone : ∀ x, FileTree.empty.readText (Cache.file longOptions.root) ≠ .ok x := by
    intro x hx
    obtain ⟨place, content, hr, -⟩ := readText_eq_ok_iff.mp hx
    have hshort := (allowed_of_resolveSteps hr).2.2
    rw [Cache.file, isTooLong_longFile Cache.isFileName_fileName (by decide)] at hshort
    cases hshort
  have htemporary : isTooLong (Cache.temporaryFile longOptions.root Sample.stamp) = true :=
    isTooLong_longFile (Cache.isFileName_temporaryName Sample.stamp) (by decide)
  obtain ⟨hnot, hmade⟩ := createDirectories_longDirectory
  obtain ⟨e, hfails⟩ :=
    Cache.replaceFile_of_isTooLong htemporary (Text.bytes noDumps.text) madeTree
  have hstored : Cache.save longOptions.root Sample.stamp noDumps .empty = (.error e, madeTree) := by
    rw [Cache.save_of_created hnot hmade, store_noDumps, hfails]
  obtain ⟨hok, hsaved, hafter⟩ :=
    analyze_of_no_dumps rfl rfl seconds_sample looksAt_longOptions hnone
  rw [hsaved, hafter, hstored]
  exact ⟨hok, rfl, rfl, rfl⟩

/-- The file is lost; what was begun to be written stays; and the directory is made though nothing can
be written in it. -/
theorem analyze_beyond_frame :
    (heldTree.top.view temporaryPlace = some (.file [0]) ∧
      (emptyOptions.analyze Sample.stamp heldTree).1.isOk = true ∧
      (emptyOptions.analyze Sample.stamp heldTree).2.top.view temporaryPlace = none) ∧
    ((emptyOptions.analyze fullStamp .empty).1.isOk = true ∧
      (emptyOptions.analyze fullStamp .empty).2.top.view temporaryPlace = some (.file [])) ∧
    (longOptions.analyze Sample.stamp .empty).1.isOk = true ∧
      (longOptions.saved Sample.stamp .empty []).1.isOk = false ∧
      FileTree.empty.top.view ["work", Cache.directoryName] = none ∧
      (longOptions.analyze Sample.stamp .empty).2.top.view ["work", Cache.directoryName]
        = some .directory :=
  ⟨analyze_heldTree, analyze_fullStamp, analyze_longOptions⟩

end Options

end LogTemplate
