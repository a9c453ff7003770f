import LogTemplate.Proofs.Call.Reporting
import LogTemplate.Proofs.CommandLine.OutputPath
import LogTemplate.Proofs.FileTree.Contents
import LogTemplate.Proofs.Run.Selection
import LogTemplate.Proofs.Run.Uncached

/-! The exit code of the command as a check on a project: without a cache it is zero if the run comes
to its end and every call that is inspected has a template of the grammar, and else it is one. -/

namespace LogTemplate

/-! ### Calls -/

/-- If the template argument of a call has a text before the program runs, that is a template. -/
def Call.IsValid {ε : Type} [Host ε] (c : Call ε) : Prop :=
  ∀ i e text, c.signature.IsTemplateParameter i → c.Binds i e → foldText e = some text →
    text.toList ∈ Template.grammar

theorem Surface.diagnostics_eq_nil_iff {ε : Type} [Host ε] {s : Surface} {calls : List (Call ε)} :
    s.diagnostics calls = [] ↔
      ∀ c ∈ calls, c.signature.declaringType ∈ s.types → c.IsValid := by
  unfold diagnostics
  rw [List.filterMap_eq_nil_iff]
  refine forall₂_congr fun c _ => ?_
  rw [classify_silent_iff]
  constructor
  · intro hsilent hmem i e text hi he ht
    by_contra hinvalid
    exact hsilent _ ⟨hmem, i, e, text, hi, he, ht, hinvalid, rfl⟩
  · rintro hvalid d ⟨hmem, i, e, text, hi, he, ht, hinvalid, -⟩
    exact hinvalid (hvalid hmem i e text hi he ht)

theorem Options.isClean_found_iff {o : Options} {t : FileTree} {files : List RawText} :
    (o.found t files).summary.isClean = true ↔
      ∀ path ∈ files, ∀ d, Dump.load t path = .ok d →
        ∀ c ∈ d.calls, c.signature.declaringType ∈ o.surface.types → c.IsValid := by
  have hsort : (o.found t files).summary.isClean = true ↔
      ∀ r ∈ (Dump.loadAll t files).map o.surface.resultOf, r.diagnostics = [] := by
    unfold Summary.isClean found Outcome.ofDumps Diagnostic.sort
    dsimp only
    rw [List.isEmpty_iff, ← List.length_eq_zero_iff, List.length_mergeSort,
      List.length_eq_zero_iff, List.flatMap_eq_nil_iff]
    exact forall_congr' fun r => by rw [List.mem_mergeSort]
  rw [hsort]
  constructor
  · intro hnone path hpath d hload
    have hmem := List.mem_map_of_mem (f := o.surface.resultOf) (Dump.mem_loadAll_iff.mpr ⟨hpath, hload⟩)
    exact Surface.diagnostics_eq_nil_iff.mp (hnone _ hmem)
  · intro hvalid r hr
    obtain ⟨⟨path, d⟩, he, rfl⟩ := List.mem_map.mp hr
    obtain ⟨hpath, hload⟩ := Dump.mem_loadAll_iff.mp he
    exact Surface.diagnostics_eq_nil_iff.mpr (hvalid path hpath d hload)

/-! ### Settings -/

inductive Settings.Loads (t : FileTree) (root : RawText) : Option Settings → Prop
  | absent (h : t.pathExists (Path.join root fileName) = false) : Loads t root none
  | present {text : String} {s : Settings} (hread : t.readText (Path.join root fileName) = .ok text)
    (hparse : parse text = .ok s) : Loads t root (some s)

theorem Settings.load_eq_ok_iff {t : FileTree} {root : RawText} {settings : Option Settings} :
    load t root = .ok settings ↔ Loads t root settings := by
  unfold load
  dsimp only
  constructor
  · intro hload
    by_cases hexists : t.pathExists (Path.join root fileName) = true
    · have hfound : ¬ (!t.pathExists (Path.join root fileName)) = true := by
        rw [hexists]
        exact Bool.false_ne_true
      rw [if_neg hfound] at hload
      cases hread : t.readText (Path.join root fileName) with
      | error e =>
        rw [hread] at hload
        cases hload
      | ok text =>
        rw [hread] at hload
        dsimp only at hload
        cases hparse : parse text with
        | error e =>
          rw [hparse] at hload
          cases hload
        | ok s =>
          rw [hparse] at hload
          cases hload
          exact .present hread hparse
    · have habsent : t.pathExists (Path.join root fileName) = false := Bool.eq_false_iff.mpr hexists
      rw [habsent] at hload
      cases hload
      exact .absent habsent
  · intro hloads
    cases hloads with
    | absent habsent =>
      rw [habsent]
      rfl
    | present hread hparse =>
      rw [FileTree.pathExists_of_readText hread, hread]
      dsimp only
      rw [hparse]
      rfl

/-! ### The report -/

/-- A path for a report: below the working directory, and a file can be written there, with room for
all of it. -/
structure TakesReport (t : FileTree) (room : Option Nat) (path report : String) : Prop where
  noNul : '\x00' ∉ path.toList
  relative : Path.isAbsolute path = false
  noTraversal : Component.up ∉ Path.components path
  writable : ∃ t', t.write path (Text.bytes report) = .ok t'
  fits : ∀ n, room = some n → (Text.bytes report).length ≤ n

theorem Summary.writeReport_eq_ok_iff {s : Summary} {room : Option Nat} {path : String}
    {t : FileTree} : (s.writeReport room path t).1 = .ok () ↔ TakesReport t room path s.json := by
  unfold writeReport
  constructor
  · intro hreport
    cases hcheck : checkOutputPath path with
    | error e =>
      rw [hcheck] at hreport
      cases hreport
    | ok path' =>
      obtain ⟨rfl, hnul, habsolute, hup⟩ := checkOutputPath_eq_ok_iff.mp hcheck
      rw [hcheck] at hreport
      dsimp only at hreport
      have hwritten := FileTree.written_writeWithin t room path' (Text.bytes s.json)
      generalize t.writeWithin room path' (Text.bytes s.json) = answer at hwritten hreport
      cases hwritten with
      | none e => cases hreport
      | beginning _ _ _ => cases hreport
      | whole hroom hwrite => exact ⟨hnul, habsolute, hup, ⟨_, hwrite⟩, hroom⟩
  · intro h
    have hcheck := checkOutputPath_eq_ok_iff.mpr ⟨rfl, h.noNul, h.relative, h.noTraversal⟩
    obtain ⟨u, hwrite⟩ := h.writable
    rw [hcheck]
    dsimp only
    rw [FileTree.writeWithin_of_fits h.fits hwrite]

/-! ### The command -/

theorem Summary.exitCode_eq_zero_iff {s : Summary} : s.exitCode = 0 ↔ s.isClean = true := by
  unfold exitCode
  cases s.isClean <;> decide

theorem Summary.exitCode_eq_zero_or_one (s : Summary) : s.exitCode = 0 ∨ s.exitCode = 1 := by
  unfold exitCode
  cases s.isClean <;> decide

namespace Arguments

def Ignores (a : Arguments) (settings : Option Settings) (path : RawText) : Prop :=
  ∃ p, (p ∈ a.ignored ∨ ∃ s, settings = some s ∧ p ∈ s.ignoredPatterns) ∧ p ≠ "" ∧
    p.toList <:+: forwardSlashes ((Path.relativeTo? a.root path).getD path).display.toList

def Inspects (a : Arguments) (settings : Option Settings) (name : String) : Prop :=
  name ∈ Surface.standard.types ∨ name ∈ a.surfaceTypes ∨
    ∃ s, settings = some s ∧ name ∈ s.extraTypes

def heeded (a : Arguments) (settings : Option Settings) (dumps : List RawText) : List RawText :=
  dumps.filter fun path => !isIgnored (a.options settings).ignoredPatterns
    ((Path.relativeTo? a.root path).getD path).display

def report (a : Arguments) (t : FileTree) (settings : Option Settings) (dumps : List RawText) : String :=
  ((a.options settings).found t (a.heeded settings dumps)).summary.json

/-- A project passes the check with its settings and the dumps below its root. -/
structure Passes (a : Arguments) (stamp : Stamp) (t : FileTree) (settings : Option Settings)
    (dumps : List RawText) : Prop where
  loads : Settings.Loads t a.root settings
  directory : t.isDirectory a.root = true
  walked : t.dumpFiles a.excludedDirectories a.root = .ok dumps
  report : ∀ path, a.output = some path →
    TakesReport t stamp.room path (a.report t settings dumps)
  valid : ∀ path ∈ dumps, ¬ a.Ignores settings path → ∀ d, Dump.load t path = .ok d →
    ∀ c ∈ d.calls, a.Inspects settings c.signature.declaringType → c.IsValid

variable {a : Arguments} {settings : Option Settings} {t : FileTree} {stamp : Stamp}

theorem mem_heeded_iff {dumps : List RawText} {path : RawText} :
    path ∈ a.heeded settings dumps ↔ path ∈ dumps ∧ ¬ a.Ignores settings path := by
  have hmem (p : String) : p ∈ (a.options settings).ignoredPatterns ↔
      p ∈ a.ignored ∨ ∃ s, settings = some s ∧ p ∈ s.ignoredPatterns := by
    cases settings with
    | none => exact ⟨.inl, fun h => h.elim id nofun⟩
    | some s => exact List.mem_append.trans (or_congr_right (by simp))
  have hignored : isIgnored (a.options settings).ignoredPatterns
        ((Path.relativeTo? a.root path).getD path).display = true ↔ a.Ignores settings path := by
    rw [isIgnored_iff]
    exact exists_congr fun p => and_congr_left' (hmem p)
  unfold heeded
  rw [List.mem_filter, ← hignored, Bool.not_eq_true', Bool.not_eq_true]

theorem mem_surface_options_iff {name : String} :
    name ∈ (a.options settings).surface.types ↔ a.Inspects settings name := by
  rw [Options.mem_surface_iff]
  refine or_congr_right ?_
  cases settings with
  | none => exact ⟨.inl, fun h => h.elim id nofun⟩
  | some s => exact List.mem_append.trans (or_congr_right (by simp))

theorem looksAt_options_iff {files : List RawText} :
    (a.options settings).LooksAt t files ↔ t.isDirectory a.root = true ∧
      ∃ dumps, t.dumpFiles a.excludedDirectories a.root = .ok dumps ∧
        files = a.heeded settings dumps := by
  have hroot : (a.options settings).root = a.root := by cases settings <;> rfl
  have hexcluded : (a.options settings).excludedDirectories = a.excludedDirectories := by
    cases settings <;> rfl
  unfold Options.LooksAt heeded
  rw [Options.files_eq_ok_iff, hroot, hexcluded]

theorem analyze_of_noCache (hcache : a.noCache = true) (stamp : Stamp) (t : FileTree) :
    (∃ settings files, Settings.Loads t a.root settings ∧ (a.options settings).LooksAt t files ∧
      a.analyze stamp t = (.ok ((a.options settings).found t files, a.wantsJson settings), t)) ∨
    (∃ f, a.analyze stamp t = (.error f, t)) ∧
      ∀ settings files, Settings.Loads t a.root settings → ¬ (a.options settings).LooksAt t files := by
  unfold analyze
  cases hload : Settings.load t a.root with
  | error f =>
    refine .inr ⟨⟨f, rfl⟩, fun settings files hloads => ?_⟩
    rw [Settings.load_eq_ok_iff.mpr hloads] at hload
    cases hload
  | ok settings =>
    have huncached : (a.options settings).useCache = false := by
      cases settings <;> exact congrArg not hcache
    dsimp only
    by_cases hlooks : ∃ files, (a.options settings).LooksAt t files
    · obtain ⟨files, hlooks⟩ := hlooks
      refine .inl ⟨settings, files, Settings.load_eq_ok_iff.mp hload, hlooks, ?_⟩
      rw [Options.analyze_eq_found huncached hlooks]
    · obtain ⟨f, hfails⟩ := Options.analyze_eq_error (not_exists.mp hlooks) stamp
      rw [hfails]
      refine .inr ⟨⟨_, rfl⟩, fun settings' files hloads hlooks' => ?_⟩
      rw [Settings.load_eq_ok_iff.mpr hloads] at hload
      obtain rfl := Except.ok.inj hload
      exact hlooks ⟨files, hlooks'⟩

theorem exitCode_run_of_failure {f : Failure} {t' : FileTree}
    (h : a.analyze stamp t = (.error f, t')) : (a.run stamp t).1.exitCode = 1 := by
  unfold run
  rw [h]
  rfl

theorem exitCode_run_of_outcome {out : Outcome} {json : Bool} {t' : FileTree}
    (h : a.analyze stamp t = (.ok (out, json), t')) :
    ((a.run stamp t).1.exitCode = 0 ↔
        (∀ path, a.output = some path → TakesReport t' stamp.room path out.summary.json) ∧
          out.summary.isClean = true) ∧
      ((a.run stamp t).1.exitCode = 0 ∨ (a.run stamp t).1.exitCode = 1) := by
  have hcode := out.summary.exitCode_eq_zero_or_one
  rw [← out.summary.exitCode_eq_zero_iff]
  unfold run
  rw [h]
  dsimp only
  cases houtput : a.output with
  | none =>
    have hnone : ∀ path, none = some path →
        TakesReport t' stamp.room path out.summary.json := nofun
    exact ⟨(and_iff_right hnone).symm, hcode⟩
  | some path =>
    have hsole : (∀ path', some path = some path' →
        TakesReport t' stamp.room path' out.summary.json) ↔
          TakesReport t' stamp.room path out.summary.json :=
      ⟨fun h => h path rfl, fun h path' heq => Option.some.inj heq ▸ h⟩
    rw [hsole, ← out.summary.writeReport_eq_ok_iff]
    dsimp only
    generalize out.summary.writeReport stamp.room path t' = answer
    obtain ⟨written, u⟩ := answer
    cases written with
    | error f =>
      have hone : (Answer.ofFailure f).exitCode ≠ 0 := by
        show (1 : UInt32) ≠ 0
        decide
      exact ⟨iff_of_false hone fun hboth => (nomatch hboth.1), .inr rfl⟩
    | ok _ => exact ⟨(and_iff_right rfl).symm, hcode⟩

theorem exists_passes_iff {files : List RawText} (hloads : Settings.Loads t a.root settings)
    (hlooks : (a.options settings).LooksAt t files) :
    (∃ settings' dumps, a.Passes stamp t settings' dumps) ↔
      (∀ path, a.output = some path →
          TakesReport t stamp.room path ((a.options settings).found t files).summary.json) ∧
        ((a.options settings).found t files).summary.isClean = true := by
  obtain ⟨hdirectory, dumps, hdumps, rfl⟩ := looksAt_options_iff.mp hlooks
  rw [Options.isClean_found_iff]
  simp only [mem_heeded_iff, mem_surface_options_iff, and_imp]
  constructor
  · rintro ⟨settings', dumps', h⟩
    -- settings and dumps are determined by the files
    have hsettings := (Settings.load_eq_ok_iff.mpr h.loads).symm.trans
      (Settings.load_eq_ok_iff.mpr hloads)
    obtain rfl := Except.ok.inj hsettings
    obtain rfl := Except.ok.inj (h.walked.symm.trans hdumps)
    exact ⟨h.report, h.valid⟩
  · rintro ⟨hreport, hvalid⟩
    exact ⟨settings, dumps, hloads, hdirectory, hdumps, hreport, hvalid⟩

theorem Passes.exists_looksAt {dumps : List RawText} (h : a.Passes stamp t settings dumps) :
    ∃ files, (a.options settings).LooksAt t files :=
  ⟨_, looksAt_options_iff.mpr ⟨h.directory, dumps, h.walked, rfl⟩⟩

theorem exitCode_run_iff (hcache : a.noCache = true) (stamp : Stamp) (t : FileTree) :
    ((a.run stamp t).1.exitCode = 0 ↔ ∃ settings dumps, a.Passes stamp t settings dumps) ∧
      ((a.run stamp t).1.exitCode = 0 ∨ (a.run stamp t).1.exitCode = 1) := by
  rcases analyze_of_noCache hcache stamp t with
    ⟨settings, files, hloads, hlooks, hrun⟩ | ⟨⟨f, hfails⟩, hnone⟩
  · rw [exists_passes_iff hloads hlooks]
    exact exitCode_run_of_outcome hrun
  · have hone := exitCode_run_of_failure hfails
    refine ⟨iff_of_false ?_ ?_, .inr hone⟩
    · rw [hone]
      decide
    · rintro ⟨settings, dumps, h⟩
      obtain ⟨files, hlooks⟩ := h.exists_looksAt
      exact hnone settings files h.loads hlooks

end Arguments

/-- Without a cache the command exits with zero exactly if the project passes, and else with one. -/
theorem exitCode_command {words : List String} {a : Arguments}
    (hparse : Arguments.parse words = .run a) (hcache : a.noCache = true) (stamp : Stamp)
    (t : FileTree) :
    ((command words stamp t).1.exitCode = 0 ↔ ∃ settings dumps, a.Passes stamp t settings dumps) ∧
      ((command words stamp t).1.exitCode ≠ 0 → (command words stamp t).1.exitCode = 1) := by
  have hrun : command words stamp t = a.run stamp t := by
    unfold command
    rw [hparse]
  have hcode := Arguments.exitCode_run_iff hcache stamp t
  rw [hrun]
  exact ⟨hcode.1, fun hne => hcode.2.resolve_left hne⟩

/-! ### A call that is inspected and valid, and one that is not valid once it is inspected -/

def plainWords : List String := ["--no-cache", "/work"]

def plainArguments : Arguments := { path := some "/work", noCache := true }

def strictWords : List String := ["--no-cache", "--surface-type", "T", "/work"]

def strictArguments : Arguments := { plainArguments with surfaceTypes := ["T"] }

theorem exists_passes_sample_iff {a : Arguments} (hroot : a.root = "/work") (houtput : a.output = none)
    (hlooks : (a.options none).LooksAt Sample.tree [Sample.path]) :
    (∃ settings dumps, a.Passes Sample.stamp Sample.tree settings dumps) ↔
      (a.options none).surface.diagnostics Sample.dump.calls = [] := by
  have hloads : Settings.Loads Sample.tree a.root none := by
    rw [hroot]
    exact .absent (by decide +kernel)
  rw [Arguments.exists_passes_iff hloads hlooks, houtput, and_iff_right nofun, Summary.isClean,
    Sample.diagnostics_found, List.isEmpty_iff, Diagnostic.sort, ← List.length_eq_zero_iff,
    List.length_mergeSort, List.length_eq_zero_iff]

theorem exitCode_command_plain :
    (Arguments.parse plainWords = .run plainArguments ∧ plainArguments.noCache = true ∧
      (command plainWords Sample.stamp Sample.tree).1.exitCode = 0 ∧
      ∃ settings dumps, plainArguments.Passes Sample.stamp Sample.tree settings dumps) ∧
    Arguments.parse strictWords = .run strictArguments ∧ strictArguments.noCache = true ∧
      (command strictWords Sample.stamp Sample.tree).1.exitCode = 1 ∧
      ¬ ∃ settings dumps, strictArguments.Passes Sample.stamp Sample.tree settings dumps := by
  have hparse : Arguments.parse plainWords = .run plainArguments := by decide +kernel
  have hparse' : Arguments.parse strictWords = .run strictArguments := by decide +kernel
  have hlooks : (plainArguments.options none).LooksAt Sample.tree [Sample.path] :=
    ⟨by decide +kernel, Json.eq_ok_of_toOption (by decide +kernel)⟩
  have hlooks' : (strictArguments.options none).LooksAt Sample.tree [Sample.path] :=
    ⟨by decide +kernel, Json.eq_ok_of_toOption (by decide +kernel)⟩
  have hpasses : ∃ settings dumps, plainArguments.Passes Sample.stamp Sample.tree settings dumps :=
    (exists_passes_sample_iff rfl rfl hlooks).mpr (by decide +kernel)
  have hfails : ¬ ∃ settings dumps, strictArguments.Passes Sample.stamp Sample.tree settings dumps :=
    fun h => absurd ((exists_passes_sample_iff rfl rfl hlooks').mp h) (by decide +kernel)
  have hcode := exitCode_command hparse rfl Sample.stamp Sample.tree
  have hcode' := exitCode_command hparse' rfl Sample.stamp Sample.tree
  exact ⟨⟨hparse, rfl, hcode.1.mpr hpasses, hpasses⟩, hparse', rfl,
    hcode'.2 (mt hcode'.1.mp hfails), hfails⟩

end LogTemplate
