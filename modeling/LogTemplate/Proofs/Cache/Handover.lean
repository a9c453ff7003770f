import Mathlib.Data.List.Chain
import LogTemplate.Proofs.Cache.Soundness
import LogTemplate.Proofs.FileTree.Effects

/-! Analyses one after the other, each with the cache that the one before it returned. An analysis
looks a content up by its digest alone, so a cache is worth as much as the surface it was made
under. -/

namespace LogTemplate

/-- One analysis: its surface, the files as it finds them, and whether it takes the cache that is
handed to it. -/
structure Round where
  surface : Surface
  tree : FileTree
  files : List RawText
  seconds : Nat
  reuse : Bool

namespace Round

def analyze (r : Round) (handed : Option Cache) : List DumpResult × Cache :=
  r.surface.analyzeFiles (if r.reuse then handed else none) r.seconds r.tree r.files

def handOver (rounds : List Round) : Option Cache :=
  rounds.foldl (fun handed r => some (r.analyze handed).2) none

theorem handOver_append_singleton (rounds : List Round) (r : Round) :
    handOver (rounds ++ [r]) = some (r.analyze (handOver rounds)).2 := by
  unfold handOver
  rw [List.foldl_append, List.foldl_cons, List.foldl_nil]

/-- A cache is taken for the surface only that it was made under. -/
def Keeps (q r : Round) : Prop := r.reuse = true → q.surface = r.surface

def Read (rounds : List Round) (content : String) : Prop :=
  ∃ r ∈ rounds, ∃ path ∈ r.files, r.tree.readText path = .ok content

section

variable {hashed : String → Prop} (hfree : CollisionFree hashed)

include hfree

theorem faithful_of_keeps {q r : Round} (hkeeps : q.Keeps r) {c : Cache}
    (hmade : ∀ e ∈ c.dumps, ∃ content, hashed content ∧ q.surface.fresh? content = some e.2) :
    r.surface.Faithful hashed (if r.reuse then some c else none) := by
  cases hreuse : r.reuse with
  | false => exact Surface.faithful_none hashed r.surface
  | true =>
    rw [hkeeps hreuse] at hmade
    exact Surface.faithful_of_made hfree hmade

theorem faithful_handOver {rounds : List Round} {r : Round}
    (hkeeps : (rounds ++ [r]).IsChain Keeps) (hread : ∀ x, Read rounds x → hashed x) :
    r.surface.Faithful hashed (if r.reuse then handOver rounds else none) := by
  -- from the last round backwards, since each takes what the rounds before it handed over
  induction rounds using List.reverseRecOn generalizing r with
  | nil =>
    rw [handOver, List.foldl_nil, ite_self]
    exact Surface.faithful_none hashed r.surface
  | append_singleton rounds q ih =>
    obtain ⟨hbefore, -, hlast⟩ := List.isChain_append.mp hkeeps
    have hq : ∀ path ∈ q.files, ∀ x, q.tree.readText path = .ok x → hashed x := by
      intro path hpath x hx
      exact hread x ⟨q, List.mem_append_right _ (List.mem_singleton_self q), path, hpath, hx⟩
    have hold := ih hbefore fun x ⟨p, hp, hx⟩ => hread x ⟨p, List.mem_append_left _ hp, hx⟩
    rw [handOver_append_singleton]
    refine faithful_of_keeps hfree (hlast q (by simp) r rfl) fun e he => ?_
    obtain ⟨path, content, hpath, -, hcontent, hfresh⟩ :=
      Surface.exists_readText_of_mem_dumps hold hq he
    exact ⟨content, hq path hpath content hcontent, hfresh⟩

end

/-- Rounds each of which takes a cache only under the surface it was made under find what they would
find without one, and hand on the cache that they would hand on then: its entries are what the surface
it is stamped with makes of the files. -/
theorem analyze_handOver {rounds : List Round} {r : Round}
    (hkeeps : (rounds ++ [r]).IsChain Keeps) (hfree : CollisionFree (Read (rounds ++ [r]))) :
    (r.analyze (handOver rounds)).1.map DumpResult.unmarked = (r.analyze none).1 ∧
      (r.analyze (handOver rounds)).2 = (r.analyze none).2 ∧
      (r.analyze (handOver rounds)).2.metadata.surfaceHash = r.surface.fingerprint ∧
      ∀ e ∈ (r.analyze (handOver rounds)).2.dumps, ∃ path content, path ∈ r.files ∧
        path.display = e.1 ∧ r.tree.readText path = .ok content ∧
        r.surface.fresh? content = some e.2 := by
  have hcontents : ∀ path ∈ r.files, ∀ x, r.tree.readText path = .ok x → Read (rounds ++ [r]) x := by
    intro path hpath x hx
    exact ⟨r, List.mem_append_right _ (List.mem_singleton_self r), path, hpath, hx⟩
  have hold := faithful_handOver hfree hkeeps fun x ⟨q, hq, hx⟩ =>
    (⟨q, List.mem_append_left _ hq, hx⟩ : Read (rounds ++ [r]) x)
  have hnone := Surface.faithful_none (Read (rounds ++ [r])) r.surface
  have hdumps : (r.analyze (handOver rounds)).2.dumps = (r.analyze none).2.dumps := by
    unfold analyze
    rw [Surface.dumps_analyzeFiles hold hcontents, ite_self, Surface.dumps_analyzeFiles hnone hcontents]
  refine ⟨?_, congrArg (Cache.mk (.current r.surface r.seconds)) hdumps, rfl, fun e he => ?_⟩
  · unfold analyze
    rw [Surface.analyzeFiles_transparent hold hcontents (fun _ _ => rfl) r.seconds r.seconds, ite_self]
  · exact Surface.exists_readText_of_mem_dumps hold hcontents he

/-! ### A cache of another surface -/

section

variable {path : RawText} {content : String} {d : Dump}

def finding (r : Round) (content : String) (d : Dump) : CachedDump :=
  r.surface.examine (Sha256.hex (Text.bytes content)) d

theorem analyze_none_of_parse {r : Round} (hfiles : r.files = [path])
    (hread : r.tree.readText path = .ok content) (hparse : Dump.parse path content = .ok d) :
    r.analyze none = ([(r.finding content d).result path false],
      ⟨.current r.surface r.seconds, [(path.display, r.finding content d)]⟩) := by
  have hprocess : r.surface.process none r.tree path = .ok (r.finding content d, false) := by
    unfold Surface.process
    rw [hread]
    show (Dump.parse path content).map _ = _
    rw [hparse]
    rfl
  rw [analyze, ite_self, Surface.analyzeFiles, hfiles, List.filterMap_cons, hprocess]
  rfl

theorem analyze_of_unchanged {q r : Round} (hq : q.files = [path]) (hr : r.files = [path])
    (hreuse : r.reuse = true) (hreadq : q.tree.readText path = .ok content)
    (hreadr : r.tree.readText path = .ok content) (hparse : Dump.parse path content = .ok d) :
    r.analyze (some (q.analyze none).2) = ([(q.finding content d).result path true],
      ⟨.current r.surface r.seconds, [(path.display, q.finding content d)]⟩) := by
  have hfind : (q.analyze none).2.find? path (Sha256.hex (Text.bytes content)) =
      some (q.finding content d) := by
    rw [analyze_none_of_parse hq hreadq hparse, Cache.find?, List.lookup_cons_self]
    exact Option.filter_some_pos (decide_eq_true rfl)
  have hprocess : r.surface.process (some (q.analyze none).2) r.tree path =
      .ok (q.finding content d, true) := by
    unfold Surface.process
    rw [hreadr]
    dsimp only
    rw [Option.bind_some, hfind]
  rw [analyze, hreuse, if_pos rfl, Surface.analyzeFiles, hr, List.filterMap_cons, hprocess]
  rfl

end

/-! One dump with one call, of a type that is on a surface or not. -/

def soleFile : RawText := "a.callsites.json"

def soleContent : String :=
  "\x7b\"call_sites\":[\x7b\"method\":\x7b\"name\":\"Log\",\"declaring_type\":\"T\"," ++
  "\"parameters\":[\x7b\"name\":\"message\",\"type\":\"string\"\x7d]\x7d,\"arguments\":[" ++
  "\x7b\"parameter\":0,\"value\":\x7b\"kind\":\"constant\",\"value\":\x7b\"type\":\"string\"," ++
  "\"value\":\"\x7b\"\x7d,\"location\":\x7b\"file\":\"a.cs\",\"line\":1,\"column\":1\x7d\x7d\x7d]\x7d]\x7d"

def soleDump : Dump where
  compilation := ""
  calls :=
    [⟨⟨"Log", "T", [⟨"message", .string⟩]⟩, [⟨some 0, some (.string "\x7b" ⟨"a.cs", 1, 1, 0⟩)⟩], none⟩]

def soleTree : FileTree where
  top := .directory [(soleFile, .file (Text.bytes soleContent))]
  workingDirectory := []

def soleRound (names : List String) (reuse : Bool) : Round :=
  ⟨.ofTypes names, soleTree, [soleFile], 0, reuse⟩

theorem readText_soleTree : soleTree.readText soleFile = .ok soleContent := by
  have hplace : soleTree.resolve .target soleFile = .ok (.taken [soleFile]) := by rfl
  exact FileTree.readText_eq_ok_iff.mpr
    ⟨[soleFile], Text.bytes soleContent, hplace, rfl, Text.ofBytes?_bytes soleContent⟩

theorem parse_soleContent : Dump.parse soleFile soleContent = .ok soleDump :=
  Json.eq_ok_of_toOption (by decide +kernel)

theorem collisionFree_soleRounds (names names' : List String) (reuse reuse' : Bool) :
    CollisionFree (Read [soleRound names reuse, soleRound names' reuse']) := by
  have hsole {x : String} (hx : Read [soleRound names reuse, soleRound names' reuse'] x) :
      x = soleContent := by
    obtain ⟨r, hr, path, hpath, hx⟩ := hx
    have hr : r.tree = soleTree ∧ r.files = [soleFile] := by
      rcases List.mem_cons.mp hr with rfl | hr
      · exact ⟨rfl, rfl⟩
      · rw [List.mem_singleton.mp hr]
        exact ⟨rfl, rfl⟩
    rw [hr.2, List.mem_singleton] at hpath
    rw [hr.1, hpath, readText_soleTree] at hx
    exact (Except.ok.inj hx).symm
  intro x y hx hy _
  rw [hsole hx, hsole hy]

theorem analyze_handOver_sole :
    ([soleRound ["T"] false] ++ [soleRound ["T"] true]).IsChain Keeps ∧
    CollisionFree (Read ([soleRound ["T"] false] ++ [soleRound ["T"] true])) ∧
    ((soleRound ["T"] true).analyze (handOver [soleRound ["T"] false])).1.map DumpResult.unmarked
      = ((soleRound ["T"] true).analyze none).1 := by
  have hkeeps : ([soleRound ["T"] false] ++ [soleRound ["T"] true]).IsChain Keeps :=
    List.isChain_pair.mpr fun _ => rfl
  have hfree := collisionFree_soleRounds ["T"] ["T"] false true
  exact ⟨hkeeps, hfree, (analyze_handOver hkeeps hfree).1⟩

/-- A cache made under the surface without types hides the call from a surface that has its type. -/
theorem analyze_handOver_of_other_surface :
    CollisionFree (Read ([soleRound [] true] ++ [soleRound ["T"] true])) ∧
    ((soleRound ["T"] true).analyze (handOver [soleRound [] true])).1.map DumpResult.unmarked
      ≠ ((soleRound ["T"] true).analyze none).1 := by
  refine ⟨collisionFree_soleRounds [] ["T"] true true, fun h => ?_⟩
  have hhanded : handOver [soleRound [] true] = some ((soleRound [] true).analyze none).2 := rfl
  have hstale := analyze_of_unchanged (q := soleRound [] true) (r := soleRound ["T"] true) rfl rfl rfl
    readText_soleTree readText_soleTree parse_soleContent
  have hfresh := analyze_none_of_parse (r := soleRound ["T"] true) rfl readText_soleTree
    parse_soleContent
  rw [hhanded, hstale, hfresh] at h
  have hsame : (Surface.ofTypes []).diagnostics soleDump.calls
      = (Surface.ofTypes ["T"]).diagnostics soleDump.calls :=
    congrArg DumpResult.diagnostics (List.singleton_inj.mp h)
  revert hsame
  decide +kernel

end Round

end LogTemplate
