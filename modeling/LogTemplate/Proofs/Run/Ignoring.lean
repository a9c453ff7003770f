import LogTemplate.Proofs.Run.Discovery
import LogTemplate.Proofs.Run.Outcome
import LogTemplate.Proofs.Run.Patterns

/-! Ignored dumps. Patterns are sought in the names that lead from the root to a dump; how the root is
spelled, and what names lead to it, makes no difference. -/

namespace LogTemplate

open FileTree

namespace Path

/-! ### What is left of a path below a root -/

theorem dropBeginning_append (as bs : List Component) : dropBeginning as (as ++ bs) = some bs := by
  induction as with
  | nil => rfl
  | cons a as ih =>
    rw [List.cons_append, dropBeginning, if_pos rfl]
    exact ih

theorem ofComponents_names (names : List RawText) : ofComponents (names.map .name) = joined names := by
  unfold ofComponents
  rw [List.map_map]
  exact congrArg joined (List.map_id names)

theorem relativeTo?_below {path : RawText} {names : List RawText} (hpath : path ≠ "")
    (hnames : ∀ name ∈ names, IsFileName name) :
    relativeTo? path (below path names) = some (joined names) := by
  unfold relativeTo?
  rw [components_below hpath hnames, dropBeginning_append, Option.map_some, ofComponents_names]

end Path

/-! ### Patterns -/

/-- A pattern that is not empty stands in the names as they are shown, these being joined by slashes and
backslashes in them being read as slashes. -/
def Matches (patterns : List String) (names : List RawText) : Prop :=
  ∃ p ∈ patterns, p ≠ "" ∧ p.toList <:+: forwardSlashes (Path.joined names).display.toList

theorem isIgnored_joined_iff {patterns : List String} {names : List RawText} :
    isIgnored patterns (Path.joined names).display = true ↔ Matches patterns names := isIgnored_iff

instance (patterns : List String) (names : List RawText) : Decidable (Matches patterns names) :=
  decidable_of_iff _ isIgnored_joined_iff

namespace FileTree

variable {t : FileTree} {excluded : List String} {place names files : List RawText}
  {root path : RawText}

theorem Reaches.isFileName (ht : t.top.WellNamed) (h : t.Reaches excluded place names) :
    ∀ name ∈ names, IsFileName name := by
  intro name hname
  obtain ⟨n, hat⟩ : ∃ n, t.top.at? (place ++ names) = some n := by
    refine Option.ne_none_iff_exists'.mp fun hnone => h.entry ?_
    unfold Node.view
    rw [hnone, Option.map_none]
  exact (ht.of_at? hat).2 name (List.mem_append_right place hname)

theorem exists_below_of_mem_dumpFiles (ht : t.top.WellNamed) (hroot : t.isDirectory root = true)
    (h : t.dumpFiles excluded root = .ok files) (hpath : path ∈ files) :
    ∃ names, names ≠ [] ∧ (∀ name ∈ names, IsFileName name) ∧ path = Path.below root names := by
  obtain ⟨-, ⟨place, names, hplace, hreaches, rfl⟩, hfile, -⟩ := isDumpBelow_of_mem ht h hpath
  refine ⟨names, ?_, hreaches.isFileName ht, rfl⟩
  rintro rfl
  obtain ⟨r, hr, hdirectory⟩ := isDirectory_iff.mp hroot
  rw [← List.append_nil r] at hdirectory
  exact not_isFile_of_directory ht hr hdirectory hfile

end FileTree

namespace Options

variable {o : Options} {t : FileTree} {gathered kept names : List RawText}

theorem below_mem_files_iff (hroot : o.root ≠ "")
    (h : t.dumpFiles o.excludedDirectories o.root = .ok gathered) (hkept : o.files t = .ok kept)
    (hnames : ∀ name ∈ names, IsFileName name) : Path.below o.root names ∈ kept ↔
      Path.below o.root names ∈ gathered ∧ ¬ Matches o.ignoredPatterns names := by
  obtain ⟨dumps, hdumps, rfl⟩ := files_eq_ok_iff.mp hkept
  obtain rfl := Except.ok.inj (h.symm.trans hdumps)
  rw [List.mem_filter, Path.relativeTo?_below hroot hnames, Option.getD_some, Bool.not_eq_true',
    ← isIgnored_joined_iff, Bool.not_eq_true]

/-- A run over a directory analyses the dumps that are found there but for those it ignores, and it
ignores a dump exactly if a pattern stands in the names that lead to it from the root. These are what
the path of the dump has behind that of the root, however the root is spelled. -/
theorem analyze_ignores (ht : t.top.WellNamed) (hroot : t.isDirectory o.root = true)
    (h : t.dumpFiles o.excludedDirectories o.root = .ok gathered) (stamp : Stamp) :
    ∃ kept, kept.Sublist gathered ∧
      (o.analyze stamp t).1 = .ok (.ofDumps kept.length
        (o.surface.analyzeFiles (o.recalled t).1 stamp.seconds (o.recalled t).2 kept).1) ∧
      (∀ path ∈ gathered, ∃ names, names ≠ [] ∧ (∀ name ∈ names, IsFileName name) ∧
        path = Path.below o.root names ∧
        Path.components path = Path.components o.root ++ names.map .name) ∧
      ∀ names, (∀ name ∈ names, IsFileName name) → Path.below o.root names ∈ gathered →
        Path.relativeTo? o.root (Path.below o.root names) = some (Path.joined names) ∧
        (Path.below o.root names ∉ kept ↔ Matches o.ignoredPatterns names) := by
  have hne : o.root ≠ "" := ne_empty_of_isDirectory hroot
  have hfiles := files_eq_ok_iff.mpr ⟨gathered, h, rfl⟩
  refine ⟨_, List.filter_sublist, congrArg Prod.fst (analyze_of_looksAt ⟨hroot, hfiles⟩ stamp),
    fun path hpath => ?_, fun names hnames hmem => ⟨Path.relativeTo?_below hne hnames, ?_⟩⟩
  · obtain ⟨names, hnonempty, hnames, rfl⟩ := exists_below_of_mem_dumpFiles ht hroot h hpath
    exact ⟨names, hnonempty, hnames, rfl, Path.components_below hne hnames⟩
  · rw [below_mem_files_iff hne h hfiles hnames, and_iff_right hmem, not_not]

/-! A root below a directory with a name that a pattern stands in, spelled with more slashes and dots
than it needs, and a directory with a backslash in its name. -/

def ignoringTree : FileTree where
  top := .directory [("obj", .directory [("p", .directory
    [("a.callsites.json", .file []),
     ("x\\obj", .directory [("b.callsites.json", .file [])])])])]
  workingDirectory := []

def ignoringOptions : Options where
  root := "/obj/p//."
  useCache := false
  ignoredPatterns := ["", "/obj"]

def ignoringFiles : List RawText :=
  ["/obj/p//./a.callsites.json", "/obj/p//./x\\obj/b.callsites.json"]

theorem dumpFiles_ignoringTree : ignoringTree.dumpFiles [] "/obj/p//." = .ok ignoringFiles := by
  refine dumpFiles_eq_ok_iff.mpr ⟨_, rfl, by decide +kernel, ?_⟩
  exact (Path.sort_eq_of_perm (by decide +kernel) (by decide)).symm

theorem analyze_ignores_backslash :
    ignoringTree.top.WellNamed ∧ ignoringTree.isDirectory ignoringOptions.root = true ∧
    ignoringTree.dumpFiles [] "/obj/p//." = .ok ignoringFiles ∧
    ∃ kept, kept.Sublist ignoringFiles ∧
      (ignoringOptions.analyze ⟨0, 0, none⟩ ignoringTree).1 = .ok (.ofDumps kept.length
        (ignoringOptions.surface.analyzeFiles none 0 ignoringTree kept).1) ∧
      ("/obj/p//./a.callsites.json" : RawText) ∈ kept ∧
      ("/obj/p//./x\\obj/b.callsites.json" : RawText) ∉ kept := by
  have hnamed : ignoringTree.top.WellNamed := by decide
  have hroot : ignoringTree.isDirectory ignoringOptions.root = true := by decide +kernel
  obtain ⟨kept, hsub, hanalyze, -, hkept⟩ :=
    analyze_ignores (o := ignoringOptions) hnamed hroot dumpFiles_ignoringTree ⟨0, 0, none⟩
  refine ⟨hnamed, hroot, dumpFiles_ignoringTree, kept, hsub, hanalyze, ?_, ?_⟩
  · have hplain := (hkept ["a.callsites.json"] (by decide) (by decide)).2
    exact not_not.mp (mt hplain.mp (by decide))
  · have hbackslash := (hkept ["x\\obj", "b.callsites.json"] (by decide) (by decide)).2
    exact hbackslash.mpr (by decide)

end Options

end LogTemplate
