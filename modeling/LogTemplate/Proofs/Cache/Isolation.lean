import LogTemplate.Proofs.Cache.Repetition

/-! Files that are left out of an analysis make no difference to the others, and the cache that an
analysis leaves mirrors its results. -/

namespace LogTemplate

/-- The files that are left out: those that cannot be read, and those that are no dumps, unless the
cache knows their content. -/
def leavesOut (old : Option Cache) (t : FileTree) (path : RawText) : Bool :=
  match t.readText path with
  | .error _ => true
  | .ok content =>
    (old.bind (·.find? path (Sha256.hex (Text.bytes content)))).isNone
      && !(Dump.parse path content).isOk

namespace Surface

variable {s : Surface} {old : Option Cache} {t : FileTree} {files : List RawText} {path : RawText}

theorem toOption_process_eq_none_iff :
    (s.process old t path).toOption = none ↔ leavesOut old t path = true := by
  unfold leavesOut
  cases hread : t.readText path with
  | error e => simp [process_of_unreadable hread, Except.toOption]
  | ok content =>
    dsimp only
    cases hfind : old.bind (·.find? path (Sha256.hex (Text.bytes content))) with
    | some d => simp [process_of_known hread hfind, Except.toOption]
    | none =>
      rw [process_of_unknown hread hfind]
      cases Dump.parse path content <;> simp [Except.map, Except.toOption, Except.isOk, Except.toBool]

theorem exists_readText_of_finding? {d : CachedDump} (h : s.finding? old t path = some d) :
    ∃ content, t.readText path = .ok content ∧ d.hash = Sha256.hex (Text.bytes content) := by
  cases hread : t.readText path with
  | error e =>
    rw [finding?, process_of_unreadable hread] at h
    cases h
  | ok content => exact ⟨content, rfl, hash_of_finding? hread h⟩

def alone (s : Surface) (old : Option Cache) (t : FileTree) (path : RawText) : Option DumpResult :=
  (s.process old t path).toOption.map fun found => found.1.result path found.2

theorem alone_eq_none_iff : s.alone old t path = none ↔ leavesOut old t path = true := by
  rw [alone, Option.map_eq_none_iff, toOption_process_eq_none_iff]

theorem analyzeFiles_fst_eq (s : Surface) (old : Option Cache) (seconds : Nat) (t : FileTree)
    (files : List RawText) :
    (s.analyzeFiles old seconds t files).1 = files.filterMap (s.alone old t) := by
  rw [analyzeFiles_eq, findings, List.map_filterMap]
  refine List.filterMap_congr fun path _ => ?_
  rw [alone, Option.map_map]
  rfl

theorem findings_filter (s : Surface) (old : Option Cache) (t : FileTree) (files : List RawText) :
    s.findings old t (files.filter fun path => !leavesOut old t path) = s.findings old t files := by
  unfold findings
  rw [List.filterMap_filter]
  refine List.filterMap_congr fun path _ => ?_
  cases hout : leavesOut old t path with
  | false => rfl
  | true =>
    rw [toOption_process_eq_none_iff.mpr hout]
    rfl

theorem mem_findings_of_mem {seconds : Nat} {r : DumpResult}
    (hr : r ∈ (s.analyzeFiles old seconds t files).1) :
    ∃ d, r.path ∈ files ∧ s.finding? old t r.path = some d ∧ d.result r.path r.cached = r := by
  obtain ⟨path, found, hfound, rfl⟩ := (mem_fst_analyzeFiles_iff seconds).mp hr
  obtain ⟨hpath, hfinding⟩ := mem_findings_finding? hfound
  exact ⟨found.1, hpath, hfinding, rfl⟩

theorem exists_lookup_of_mem_analyzeFiles {seconds : Nat} {r : DumpResult}
    (hr : r ∈ (s.analyzeFiles old seconds t files).1)
    (hshown : ∀ r' ∈ (s.analyzeFiles old seconds t files).1, r'.path.display = r.path.display →
      r'.path = r.path) :
    ∃ content, t.readText r.path = .ok content ∧
      (s.analyzeFiles old seconds t files).2.dumps.lookup r.path.display
        = some ⟨Sha256.hex (Text.bytes content), r.compilation, r.callSites, r.diagnostics⟩ := by
  obtain ⟨d, hpath, hfinding, hresult⟩ := mem_findings_of_mem hr
  obtain ⟨content, hread, hhash⟩ := exists_readText_of_finding? hfinding
  have hlookup := lookup_dumps_analyzeFiles s old seconds hpath
    fun p hp halike d' hd' => by
      obtain ⟨found, hprocess, rfl⟩ := Option.map_eq_some_iff.mp hd'
      have hfound := (mem_fst_analyzeFiles_iff seconds).mpr
        ⟨p, found, mem_findings_iff.mpr ⟨hp, hprocess⟩, rfl⟩
      obtain rfl : p = r.path := hshown _ hfound halike
      exact hd'
  refine ⟨content, hread, hlookup.trans (hfinding.trans ?_)⟩
  rw [← hhash, ← hresult]
  rfl

theorem mem_dumps_analyzeFiles_iff {seconds : Nat} {name : String} :
    name ∈ (s.analyzeFiles old seconds t files).2.dumps.map Prod.fst ↔
      ∃ r ∈ (s.analyzeFiles old seconds t files).1, r.path.display = name := by
  rw [analyzeFiles_eq]
  refine Entries.mem_names_foldl_put.trans ?_
  simp only [List.map_nil, List.not_mem_nil, false_or, List.mem_map, exists_exists_and_eq_and]
  rfl

/-- The results of an analysis are those of its files one by one, none for a file that is left out.
Such files make no difference, to the results as to the new cache. In it each name is there for a
result, and each result has an entry that tells the same under the digest of its file unless another
one is shown alike. -/
theorem analyzeFiles_isolates (s : Surface) (old : Option Cache) (seconds : Nat) (t : FileTree)
    (files : List RawText) :
    (s.analyzeFiles old seconds t files).1
        = files.flatMap (fun path => (s.analyzeFiles old seconds t [path]).1) ∧
      (∀ path, if leavesOut old t path then (s.analyzeFiles old seconds t [path]).1 = []
        else ∃ r, (s.analyzeFiles old seconds t [path]).1 = [r] ∧ r.path = path) ∧
      (∀ files', (files'.filter fun path => !leavesOut old t path)
          = (files.filter fun path => !leavesOut old t path) →
        s.analyzeFiles old seconds t files' = s.analyzeFiles old seconds t files) ∧
      ((s.analyzeFiles old seconds t files).2.dumps.map Prod.fst).Nodup ∧
      (∀ name, name ∈ (s.analyzeFiles old seconds t files).2.dumps.map Prod.fst ↔
        ∃ r ∈ (s.analyzeFiles old seconds t files).1, r.path.display = name) ∧
      ∀ r ∈ (s.analyzeFiles old seconds t files).1,
        (∀ r' ∈ (s.analyzeFiles old seconds t files).1, r'.path.display = r.path.display →
          r'.path = r.path) →
        ∃ content, t.readText r.path = .ok content ∧
          (s.analyzeFiles old seconds t files).2.dumps.lookup r.path.display
            = some ⟨Sha256.hex (Text.bytes content), r.compilation, r.callSites, r.diagnostics⟩ := by
  have halone (path : RawText) :
      (s.analyzeFiles old seconds t [path]).1 = (s.alone old t path).toList := by
    rw [analyzeFiles_fst_eq, List.filterMap_cons]
    cases s.alone old t path <;> rfl
  refine ⟨?_, fun path => ?_, fun files' hkept => ?_, Entries.nodup_foldl_put List.nodup_nil,
    fun name => mem_dumps_analyzeFiles_iff, fun r hr => exists_lookup_of_mem_analyzeFiles hr⟩
  · rw [analyzeFiles_fst_eq, List.filterMap_eq_flatMap_toList]
    exact List.flatMap_congr fun path _ => (halone path).symm
  · rw [halone]
    split
    · next hout => rw [alone_eq_none_iff.mpr hout, Option.toList_none]
    · next hkept =>
      obtain ⟨r, hr⟩ := Option.ne_none_iff_exists'.mp (mt alone_eq_none_iff.mp hkept)
      obtain ⟨found, -, rfl⟩ := Option.map_eq_some_iff.mp hr
      exact ⟨_, by rw [hr, Option.toList_some], rfl⟩
  · rw [analyzeFiles_eq, analyzeFiles_eq, ← findings_filter s old t files', hkept, findings_filter]

/-! The one dump of a directory, beside a file that is no dump and one that is not there. -/

def mixedTree : FileTree := Round.soleTree.put ["b.callsites.json"] (.file (Text.bytes "x"))

def mixedFiles : List RawText :=
  ["b.callsites.json", Round.soleFile, "lost.callsites.json", Round.soleFile]

theorem readText_mixedTree : mixedTree.readText Round.soleFile = .ok Round.soleContent ∧
    mixedTree.readText "b.callsites.json" = .ok "x" := by
  have hsole : mixedTree.resolve .target Round.soleFile = .ok (.taken [Round.soleFile]) := by rfl
  have hbad : mixedTree.resolve .target "b.callsites.json" = .ok (.taken ["b.callsites.json"]) := by
    rfl
  exact ⟨FileTree.readText_eq_ok_iff.mpr ⟨_, _, hsole, rfl, Text.ofBytes?_bytes _⟩,
    FileTree.readText_eq_ok_iff.mpr ⟨_, _, hbad, rfl, Text.ofBytes?_bytes _⟩⟩

theorem parse_malformed : (Dump.parse "b.callsites.json" "x").isOk = false := by decide +kernel

theorem analyzeFiles_isolates_mixed :
    (mixedFiles.filter fun path => !leavesOut none mixedTree path)
      = ([Round.soleFile, Round.soleFile].filter fun path => !leavesOut none mixedTree path) ∧
    (ofTypes ["T"]).analyzeFiles none 0 mixedTree mixedFiles
      = (ofTypes ["T"]).analyzeFiles none 0 mixedTree [Round.soleFile, Round.soleFile] := by
  have hlost : leavesOut none mixedTree "lost.callsites.json" = true := by rfl
  have hbad : leavesOut none mixedTree "b.callsites.json" = true := by
    rw [leavesOut, readText_mixedTree.2]
    dsimp only
    rw [parse_malformed]
    rfl
  have hkept : (mixedFiles.filter fun path => !leavesOut none mixedTree path)
      = ([Round.soleFile, Round.soleFile].filter fun path => !leavesOut none mixedTree path) := by
    simp [mixedFiles, List.filter_cons, hbad, hlost]
  exact ⟨hkept, (analyzeFiles_isolates _ _ _ _ _).2.2.1 _ hkept⟩

def knowingCache : Cache where
  metadata := .current (ofTypes []) 0
  dumps := [("b.callsites.json", ⟨Sha256.hex (Text.bytes "x"), "", 0, []⟩)]

/-- A file that is no dump is not left out where the cache knows its content, and of two files that are
shown alike only one has an entry. -/
theorem analyzeFiles_of_known_malformed :
    (mixedTree.readText "b.callsites.json" = .ok "x" ∧
      (Dump.parse "b.callsites.json" "x").isOk = false ∧
      ((ofTypes []).analyzeFiles (some knowingCache) 0 mixedTree ["b.callsites.json"]).1
        = [⟨"b.callsites.json", "", 0, [], true⟩]) ∧
    ((ofTypes []).analyzeFiles none 0 alikeTree alikeFiles).1.map DumpResult.path = alikeFiles ∧
    ((ofTypes []).analyzeFiles none 0 alikeTree alikeFiles).2.dumps.map (fun e => e.2.hash)
      = [Sha256.hex (Text.bytes "\x7b \x7d")] := by
  have hknown : (some knowingCache).bind
      (·.find? "b.callsites.json" (Sha256.hex (Text.bytes "x")))
        = some ⟨Sha256.hex (Text.bytes "x"), "", 0, []⟩ := by
    rw [Option.bind_some, Cache.find?, RawText.display_ofText, knowingCache, List.lookup_cons_self]
    exact Option.filter_some_pos (decide_eq_true rfl)
  refine ⟨⟨readText_mixedTree.2, parse_malformed, ?_⟩, by decide +kernel⟩
  rw [analyzeFiles_fst_eq, List.filterMap_cons, alone, process_of_known readText_mixedTree.2 hknown]
  rfl

end Surface

end LogTemplate
