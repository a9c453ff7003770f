import Mathlib.Data.List.Induction
import LogTemplate.Proofs.Cache.Handover
import LogTemplate.Proofs.Text.Raw

/-! An analysis made again over files that did not change. The cache that an analysis leaves has an
entry for each file that could be read as a dump, under the digest that the next one asks for; so the
next one finds all of it there, whatever surface it is made under. -/

namespace LogTemplate

/-! ### Entries put one after another -/

namespace Entries

variable {κ α β : Type} [DecidableEq κ] (key : β → κ) (value : β → α) {bs : List β} {b : β}

theorem lookup_foldl_put (hb : b ∈ bs) (hsame : ∀ b' ∈ bs, key b' = key b → value b' = value b)
    (entries : List (κ × α)) :
    (bs.foldl (fun entries b => put (key b) (value b) entries) entries).lookup (key b)
      = some (value b) := by
  -- from the last one backwards, since it is the last one of a name that counts
  induction bs using List.reverseRecOn with
  | nil => cases hb
  | append_singleton bs c ih =>
    rw [List.foldl_append, List.foldl_cons, List.foldl_nil, lookup_put]
    by_cases hkey : key b = key c
    · rw [if_pos hkey, hsame c (by simp) hkey.symm]
    · rw [if_neg hkey]
      have hbefore : b ∈ bs := by
        rcases List.mem_append.mp hb with hb | hb
        · exact hb
        · exact absurd (congrArg key (List.mem_singleton.mp hb)) hkey
      exact ih hbefore fun b' hb' => hsame b' (List.mem_append_left _ hb')

theorem lookup_foldl_put_of_forall_ne {name : κ} (h : ∀ b ∈ bs, key b ≠ name)
    (entries : List (κ × α)) :
    (bs.foldl (fun entries b => put (key b) (value b) entries) entries).lookup name
      = entries.lookup name := by
  induction bs generalizing entries with
  | nil => rfl
  | cons b bs ih =>
    obtain ⟨hb, hbs⟩ := List.forall_mem_cons.mp h
    rw [List.foldl_cons, ih hbs, lookup_put, if_neg (Ne.symm hb)]

end Entries

namespace Surface

variable {s : Surface} {old : Option Cache} {t : FileTree} {files : List RawText} {path : RawText}

theorem process_of_unreadable {e : IoError} (h : t.readText path = .error e) :
    s.process old t path = .error (.io path e) := by
  unfold process
  rw [h]

theorem hash_of_find? {c : Cache} {hash : String} {d : CachedDump} (h : c.find? path hash = some d) :
    d.hash = hash := by
  unfold Cache.find? at h
  exact of_decide_eq_true (Option.filter_eq_some_iff.mp h).2

theorem process_of_known {content : String} {d : CachedDump} (h : t.readText path = .ok content)
    (hknown : old.bind (·.find? path (Sha256.hex (Text.bytes content))) = some d) :
    s.process old t path = .ok (d, true) := by
  unfold process
  rw [h]
  dsimp only
  rw [hknown]

theorem process_of_unknown {content : String} (h : t.readText path = .ok content)
    (hunknown : old.bind (·.find? path (Sha256.hex (Text.bytes content))) = none) :
    s.process old t path = (Dump.parse path content).map
      fun d => (s.examine (Sha256.hex (Text.bytes content)) d, false) := by
  unfold process
  rw [h]
  dsimp only
  rw [hunknown]

def findings (s : Surface) (old : Option Cache) (t : FileTree) (files : List RawText) :
    List (RawText × CachedDump × Bool) :=
  files.filterMap fun path => (s.process old t path).toOption.map (path, ·)

theorem mem_findings_iff {found : CachedDump × Bool} :
    (path, found) ∈ s.findings old t files ↔
      path ∈ files ∧ (s.process old t path).toOption = some found := by
  unfold findings
  rw [List.mem_filterMap]
  constructor
  · rintro ⟨path', hpath, hfound⟩
    obtain ⟨found', hprocess, heq⟩ := Option.map_eq_some_iff.mp hfound
    cases heq
    exact ⟨hpath, hprocess⟩
  · rintro ⟨hpath, hprocess⟩
    exact ⟨path, hpath, by rw [hprocess, Option.map_some]⟩

theorem analyzeFiles_eq (s : Surface) (old : Option Cache) (seconds : Nat) (t : FileTree)
    (files : List RawText) : s.analyzeFiles old seconds t files
      = ((s.findings old t files).map fun f => f.2.1.result f.1 f.2.2,
        ⟨.current s seconds, (s.findings old t files).foldl
          (fun entries f => Entries.put f.1.display f.2.1 entries) []⟩) := rfl

def finding? (s : Surface) (old : Option Cache) (t : FileTree) (path : RawText) : Option CachedDump :=
  (s.process old t path).toOption.map Prod.fst

theorem mem_findings_finding? {found : CachedDump × Bool} (h : (path, found) ∈ s.findings old t files) :
    path ∈ files ∧ s.finding? old t path = some found.1 := by
  obtain ⟨hpath, hprocess⟩ := mem_findings_iff.mp h
  rw [finding?, hprocess]
  exact ⟨hpath, rfl⟩

theorem hash_of_finding? {content : String} {d : CachedDump} (hread : t.readText path = .ok content)
    (h : s.finding? old t path = some d) : d.hash = Sha256.hex (Text.bytes content) := by
  unfold finding? at h
  cases hfind : old.bind (·.find? path (Sha256.hex (Text.bytes content))) with
  | some known =>
    rw [process_of_known hread hfind] at h
    cases h
    obtain ⟨c, -, hknown⟩ := Option.bind_eq_some_iff.mp hfind
    exact hash_of_find? hknown
  | none =>
    rw [process_of_unknown hread hfind] at h
    cases hparse : Dump.parse path content with
    | error e =>
      rw [hparse] at h
      cases h
    | ok dump =>
      rw [hparse] at h
      cases h
      rfl

theorem finding?_congr {path' : RawText} (hshown : path'.display = path.display)
    (hread : t.readText path' = t.readText path) : s.finding? old t path' = s.finding? old t path := by
  unfold finding? process
  rw [hread]
  cases t.readText path with
  | error e => rfl
  | ok content =>
    have hfind (hash : String) : old.bind (·.find? path' hash) = old.bind (·.find? path hash) := by
      unfold Cache.find?
      rw [hshown]
    dsimp only
    rw [hfind]
    cases old.bind (·.find? path (Sha256.hex (Text.bytes content))) with
    | some d => rfl
    | none =>
      have hparse := (Dump.toOption_parse path' content).trans (Dump.toOption_parse path content).symm
      revert hparse
      cases Dump.parse path' content <;> cases Dump.parse path content <;>
        simp +contextual [Except.toOption, Except.map]

theorem lookup_dumps_analyzeFiles (s : Surface) (old : Option Cache) (seconds : Nat)
    (hpath : path ∈ files) (hshown : ∀ p ∈ files, p.display = path.display →
      ∀ d, s.finding? old t p = some d → s.finding? old t path = some d) :
    (s.analyzeFiles old seconds t files).2.dumps.lookup path.display = s.finding? old t path := by
  rw [analyzeFiles_eq]
  dsimp only
  cases hfinding : s.finding? old t path with
  | some d =>
    obtain ⟨found, hprocess, rfl⟩ := Option.map_eq_some_iff.mp hfinding
    refine Entries.lookup_foldl_put (fun f : RawText × CachedDump × Bool => f.1.display)
      (fun f => f.2.1) (mem_findings_iff.mpr ⟨hpath, hprocess⟩) ?_ []
    rintro ⟨p, found'⟩ hfound halike
    obtain ⟨hp, hfound⟩ := mem_findings_finding? hfound
    have hsame := hshown p hp halike found'.1 hfound
    rw [hfinding] at hsame
    exact (Option.some.inj hsame).symm
  | none =>
    refine Entries.lookup_foldl_put_of_forall_ne
      (fun f : RawText × CachedDump × Bool => f.1.display) (fun f => f.2.1) ?_ []
    rintro ⟨p, found⟩ hfound halike
    obtain ⟨hp, hfound⟩ := mem_findings_finding? hfound
    have hsame := hshown p hp halike found.1 hfound
    rw [hfinding] at hsame
    cases hsame

/-! ### The analysis made again -/

/-- A cache that knows of each file that can be read what was found in it, and nothing of one in which
nothing was. -/
def Keeps (s : Surface) (old : Option Cache) (t : FileTree) (files : List RawText) (c : Cache) : Prop :=
  ∀ path ∈ files, ∀ content, t.readText path = .ok content →
    c.find? path (Sha256.hex (Text.bytes content)) = s.finding? old t path

/-- Files that are shown alike, if there are such, hold the same. -/
def ShownApart (t : FileTree) (files : List RawText) : Prop :=
  ∀ p ∈ files, ∀ q ∈ files, p.display = q.display → t.readText p = t.readText q

theorem shownApart_ofText (t : FileTree) (texts : List String) :
    ShownApart t (texts.map RawText.ofText) := by
  intro p hp q hq hshown
  obtain ⟨a, -, rfl⟩ := List.mem_map.mp hp
  obtain ⟨b, -, rfl⟩ := List.mem_map.mp hq
  rw [RawText.display_ofText, RawText.display_ofText] at hshown
  rw [hshown]

theorem keeps_of_shownApart (s : Surface) (old : Option Cache) (seconds : Nat)
    (h : ShownApart t files) : s.Keeps old t files (s.analyzeFiles old seconds t files).2 := by
  intro path hpath content hread
  have hlookup := lookup_dumps_analyzeFiles s old seconds hpath
    fun p hp hshown d hd => by rw [← finding?_congr hshown (h p hp path hpath hshown), hd]
  rw [Cache.find?, hlookup]
  cases hfinding : s.finding? old t path with
  | none => rfl
  | some d => exact Option.filter_some_pos (decide_eq_true (hash_of_finding? hread hfinding))

theorem process_again (s' : Surface) {t' : FileTree} {c : Cache} (h : s.Keeps old t files c)
    (hpath : path ∈ files) (hsame : t'.readText path = t.readText path) :
    s'.process (some c) t' path = (s.process old t path).map fun found => (found.1, true) := by
  cases hread : t.readText path with
  | error e =>
    rw [process_of_unreadable (hsame.trans hread), process_of_unreadable hread]
    rfl
  | ok content =>
    have hagain : (some c).bind (·.find? path (Sha256.hex (Text.bytes content)))
        = s.finding? old t path := h path hpath content hread
    unfold finding? at hagain
    cases hprocess : s.process old t path with
    | ok found =>
      rw [hprocess] at hagain
      rw [process_of_known (hsame.trans hread) hagain]
      rfl
    | error e =>
      rw [hprocess] at hagain
      rw [process_of_unknown (hsame.trans hread) hagain]
      cases hfind : old.bind (·.find? path (Sha256.hex (Text.bytes content))) with
      | some d =>
        rw [process_of_known hread hfind] at hprocess
        cases hprocess
      | none =>
        rw [process_of_unknown hread hfind] at hprocess
        cases hparse : Dump.parse path content with
        | ok dump =>
          rw [hparse] at hprocess
          cases hprocess
        | error e' =>
          rw [hparse] at hprocess
          cases hprocess
          rfl

/-- An analysis that finds what another one left: the same in the same order, all of it in the cache,
failing at the same files and leaving the same entries. -/
structure Repeats (s s' : Surface) (old : Option Cache) (seconds seconds' : Nat) (t t' : FileTree)
    (files : List RawText) : Prop where
  results : (s'.analyzeFiles (some (s.analyzeFiles old seconds t files).2) seconds' t' files).1
    = (s.analyzeFiles old seconds t files).1.map fun r => { r with cached := true }
  failures : ∀ path ∈ files, ∀ e,
    s'.process (some (s.analyzeFiles old seconds t files).2) t' path = .error e ↔
      s.process old t path = .error e
  dumps : (s'.analyzeFiles (some (s.analyzeFiles old seconds t files).2) seconds' t' files).2.dumps
    = (s.analyzeFiles old seconds t files).2.dumps

section

variable {s' : Surface} {t' : FileTree} {seconds seconds' : Nat}

theorem repeats_of_keeps (hread : ∀ path ∈ files, t'.readText path = t.readText path)
    (h : s.Keeps old t files (s.analyzeFiles old seconds t files).2) :
    Repeats s s' old seconds seconds' t t' files := by
  have hagain (path : RawText) (hpath : path ∈ files) :=
    process_again s' h hpath (hread path hpath)
  have hfindings : s'.findings (some (s.analyzeFiles old seconds t files).2) t' files
      = (s.findings old t files).map fun f => (f.1, f.2.1, true) := by
    unfold findings
    rw [List.map_filterMap]
    refine List.filterMap_congr fun path hpath => ?_
    rw [hagain path hpath]
    cases s.process old t path <;> rfl
  refine ⟨?_, fun path hpath e => ?_, ?_⟩
  · rw [analyzeFiles_eq, hfindings, analyzeFiles_eq, List.map_map, List.map_map]
    rfl
  · rw [hagain path hpath]
    cases s.process old t path with
    | error e' => exact Iff.rfl
    | ok found => exact iff_of_false nofun nofun
  · rw [analyzeFiles_eq, hfindings, analyzeFiles_eq, List.foldl_map]

theorem eq_of_result_eq {d d' : CachedDump} {path path' : RawText} (cached cached' : Bool)
    (hhash : d.hash = d'.hash) (h : d.result path cached = d'.result path' cached') : d = d' := by
  cases d
  cases d'
  cases hhash
  cases h
  rfl

theorem mem_fst_analyzeFiles_iff (seconds : Nat) {r : DumpResult} :
    r ∈ (s.analyzeFiles old seconds t files).1 ↔
      ∃ path found, (path, found) ∈ s.findings old t files ∧ found.1.result path found.2 = r := by
  rw [analyzeFiles_eq, List.mem_map, Prod.exists]

theorem keeps_of_results (hread : ∀ path ∈ files, t'.readText path = t.readText path)
    (h : (s'.analyzeFiles (some (s.analyzeFiles old seconds t files).2) seconds' t' files).1
      = (s.analyzeFiles old seconds t files).1.map fun r => { r with cached := true }) :
    s.Keeps old t files (s.analyzeFiles old seconds t files).2 := by
  intro path hpath content hcontent
  have hcontent' := (hread path hpath).trans hcontent
  cases hfind : (s.analyzeFiles old seconds t files).2.find? path (Sha256.hex (Text.bytes content)) with
  | some d =>
    have hprocess : s'.process (some (s.analyzeFiles old seconds t files).2) t' path
        = .ok (d, true) := process_of_known hcontent' hfind
    have hagain := (mem_fst_analyzeFiles_iff seconds').mpr
      ⟨path, _, mem_findings_iff.mpr ⟨hpath, congrArg Except.toOption hprocess⟩, rfl⟩
    rw [h] at hagain
    obtain ⟨r, hr, heq⟩ := List.mem_map.mp hagain
    obtain ⟨q, found, hfound, rfl⟩ := (mem_fst_analyzeFiles_iff seconds).mp hr
    obtain rfl : q = path := congrArg DumpResult.path heq
    obtain ⟨-, hfinding⟩ := mem_findings_finding? hfound
    rw [hfinding]
    refine congrArg some (eq_of_result_eq true true ?_ heq.symm)
    rw [hash_of_find? hfind, hash_of_finding? hcontent hfinding]
  | none =>
    cases hfinding : s.finding? old t path with
    | none => rfl
    | some d =>
      -- what was found before is found again, and so was in the cache
      obtain ⟨found, hprocess, rfl⟩ := Option.map_eq_some_iff.mp hfinding
      have hbefore := (mem_fst_analyzeFiles_iff seconds).mpr
        ⟨path, _, mem_findings_iff.mpr ⟨hpath, hprocess⟩, rfl⟩
      have hagain := List.mem_map_of_mem (f := fun r => { r with cached := true }) hbefore
      rw [← h] at hagain
      obtain ⟨q, found', hfound', heq⟩ := (mem_fst_analyzeFiles_iff seconds').mp hagain
      obtain rfl : q = path := congrArg DumpResult.path heq
      obtain ⟨-, hprocess'⟩ := mem_findings_iff.mp hfound'
      have hunknown : (some (s.analyzeFiles old seconds t files).2).bind
          (·.find? q (Sha256.hex (Text.bytes content))) = none := hfind
      rw [process_of_unknown hcontent' hunknown] at hprocess'
      have hmark : found'.2 = true := congrArg DumpResult.cached heq
      cases hparse : Dump.parse q content with
      | error e =>
        rw [hparse] at hprocess'
        cases hprocess'
      | ok dump =>
        rw [hparse] at hprocess'
        cases hprocess'
        cases hmark

/-- An analysis that is made again with the cache it left, by any surface, repeats the first one just
if the cache keeps what was found; and it does so where files are shown apart. -/
theorem analyzeFiles_again (hread : ∀ path ∈ files, t'.readText path = t.readText path)
    (old : Option Cache) (s s' : Surface) (seconds seconds' : Nat) :
    (Repeats s s' old seconds seconds' t t' files ↔
        s.Keeps old t files (s.analyzeFiles old seconds t files).2) ∧
      (ShownApart t files → Repeats s s' old seconds seconds' t t' files) :=
  ⟨⟨fun h => keeps_of_results hread h.results, repeats_of_keeps hread⟩,
    fun h => repeats_of_keeps hread (keeps_of_shownApart s old seconds h)⟩

end

/-! The one dump of a directory to which a file is added, listed twice and beside a file that is not
there. -/

def grownTree : FileTree := Round.soleTree.put ["notes"] (.file [])

def repeatedFiles : List RawText := [Round.soleFile, "lost.callsites.json", Round.soleFile]

theorem analyzeFiles_again_repeated :
    (∀ path ∈ repeatedFiles, grownTree.readText path = Round.soleTree.readText path) ∧
    ((ofTypes []).analyzeFiles (some ((ofTypes ["T"]).analyzeFiles
        (Round.handOver [Round.soleRound ["U"] false]) 0 Round.soleTree repeatedFiles).2)
        1 grownTree repeatedFiles).1
      = ((ofTypes ["T"]).analyzeFiles (Round.handOver [Round.soleRound ["U"] false]) 0
          Round.soleTree repeatedFiles).1.map fun r => { r with cached := true } := by
  have hread : ∀ path ∈ repeatedFiles, grownTree.readText path = Round.soleTree.readText path := by
    have hplace : grownTree.resolve .target Round.soleFile = .ok (.taken [Round.soleFile]) := by rfl
    have hsole : grownTree.readText Round.soleFile = Round.soleTree.readText Round.soleFile := by
      rw [Round.readText_soleTree]
      exact FileTree.readText_eq_ok_iff.mpr
        ⟨[Round.soleFile], Text.bytes Round.soleContent, hplace, rfl, Text.ofBytes?_bytes _⟩
    have hlost : grownTree.readText "lost.callsites.json"
        = Round.soleTree.readText "lost.callsites.json" := by rfl
    unfold repeatedFiles
    rw [List.forall_mem_cons, List.forall_mem_cons, List.forall_mem_singleton]
    exact ⟨hsole, hlost, hsole⟩
  have hshown : ShownApart Round.soleTree repeatedFiles :=
    shownApart_ofText Round.soleTree ["a.callsites.json", "lost.callsites.json", "a.callsites.json"]
  exact ⟨hread, ((analyzeFiles_again hread _ _ _ _ _).2 hshown).results⟩

/-! Two dumps below directories whose names differ in a byte that is no character. -/

def alikeFiles : List RawText :=
  [⟨[0x64, 0xfe]⟩ ++ "/x.callsites.json", ⟨[0x64, 0xff]⟩ ++ "/x.callsites.json"]

def alikeTree : FileTree where
  top := .directory
    [(⟨[0x64, 0xfe]⟩, .directory [("x.callsites.json", .file (Text.bytes "\x7b\x7d"))]),
     (⟨[0x64, 0xff]⟩, .directory [("x.callsites.json", .file (Text.bytes "\x7b \x7d"))])]
  workingDirectory := []

/-- The second dump takes the entry of the first, which then is read again. -/
theorem analyzeFiles_again_of_shown_alike :
    ((ofTypes []).analyzeFiles none 0 alikeTree alikeFiles).1.map DumpResult.path = alikeFiles ∧
    ((ofTypes []).analyzeFiles (some ((ofTypes []).analyzeFiles none 0 alikeTree alikeFiles).2) 0
        alikeTree alikeFiles).1
      ≠ ((ofTypes []).analyzeFiles none 0 alikeTree alikeFiles).1.map
          fun r => { r with cached := true } := by
  decide +kernel

end Surface

end LogTemplate
