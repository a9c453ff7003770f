import LogTemplate.Proofs.FileTree.Below
import LogTemplate.Proofs.Run.Outcome
import LogTemplate.Proofs.Run.Sorting
import LogTemplate.Proofs.Text.Raw

/-! Discovery finds the dumps at and below a root that are reached through directories whose names are
not excluded, each of them once and in order, and nothing else. -/

namespace LogTemplate

theorem isExcluded_iff {excluded : List String} {name : RawText} :
    isExcluded excluded name = true ↔ name ∈ excluded.map RawText.ofText := by
  unfold isExcluded
  rw [Option.any_eq_true, List.mem_map]
  refine exists_congr fun text => ?_
  rw [RawText.toText?_eq_some_iff, List.contains_iff_mem, and_comm, eq_comm (a := name)]

namespace Node

inductive Visits (excluded : List String) : Node → List RawText → Node → Prop where
  | here (n : Node) : Visits excluded n [] n
  | entry {es : List (RawText × Node)} {name : RawText} {n m : Node} {names : List RawText}
      (hmem : (name, n) ∈ es) (hkept : n.isDirectory = true → name ∉ excluded.map RawText.ofText)
      (hrest : Visits excluded n names m) : Visits excluded (directory es) (name :: names) m

variable {excluded : List String} {names : List RawText} {path : RawText} {n m : Node}
  {es : List (RawText × Node)}

/-! ### What is visited -/

theorem visit_eq_cons (excluded : List String) (path : RawText) (n : Node) :
    n.visit excluded path = (path, n) :: visitAll excluded path n.entries := by
  cases n <;> rfl

theorem isSkipped_iff {name : RawText} : (n.isDirectory && isExcluded excluded name) = true ↔
    ¬ (n.isDirectory = true → name ∉ excluded.map RawText.ofText) := by
  rw [Bool.and_eq_true_iff, isExcluded_iff, Classical.not_imp, not_not]

mutual

theorem mem_visit_iff (n : Node) {path p : RawText} {m : Node} :
    (p, m) ∈ n.visit excluded path ↔ ∃ names, Visits excluded n names m ∧ p = Path.below path names := by
  rw [visit_eq_cons, List.mem_cons]
  constructor
  · rintro (heq | hmem)
    · cases heq
      exact ⟨[], .here n, rfl⟩
    · cases n with
      | file content => cases hmem
      | link target => cases hmem
      | directory es =>
        obtain ⟨name, child, names, hchild, hkept, hvisits, rfl⟩ := (mem_visitAll_iff es).mp hmem
        exact ⟨name :: names, .entry hchild hkept hvisits, rfl⟩
  · rintro ⟨names, hvisits, rfl⟩
    cases n with
    | file content =>
      cases hvisits
      exact .inl rfl
    | link target =>
      cases hvisits
      exact .inl rfl
    | directory es =>
      cases hvisits with
      | here => exact .inl rfl
      | entry hchild hkept hrest =>
        exact .inr ((mem_visitAll_iff es).mpr ⟨_, _, _, hchild, hkept, hrest, rfl⟩)

theorem mem_visitAll_iff (es : List (RawText × Node)) {path p : RawText} {m : Node} :
    (p, m) ∈ visitAll excluded path es ↔ ∃ name n names, (name, n) ∈ es ∧
      (n.isDirectory = true → name ∉ excluded.map RawText.ofText) ∧ Visits excluded n names m ∧
      p = Path.below path (name :: names) := by
  cases es with
  | nil =>
    refine iff_of_false List.not_mem_nil ?_
    rintro ⟨name, n, names, hmem, -⟩
    cases hmem
  | cons e rest =>
    obtain ⟨name, n⟩ := e
    rw [visitAll, List.mem_append, mem_visitAll_iff rest]
    constructor
    · rintro (hmem | ⟨name', n', names, hmem, hrest⟩)
      · split_ifs at hmem with hskip
        · cases hmem
        · obtain ⟨names, hvisits, rfl⟩ := (mem_visit_iff n).mp hmem
          exact ⟨name, n, names, List.mem_cons_self .., not_not.mp (mt isSkipped_iff.mpr hskip),
            hvisits, rfl⟩
      · exact ⟨name', n', names, List.mem_cons_of_mem _ hmem, hrest⟩
    · rintro ⟨name', n', names, hmem, hkept, hvisits, rfl⟩
      rcases List.mem_cons.mp hmem with heq | hmem
      · cases heq
        rw [if_neg fun hskip => isSkipped_iff.mp hskip hkept]
        exact .inl ((mem_visit_iff n).mpr ⟨names, hvisits, rfl⟩)
      · exact .inr ⟨name', n', names, hmem, hkept, hvisits, rfl⟩

end

theorem Visits.at? (hn : n.WellNamed) (h : Visits excluded n names m) : n.at? names = some m := by
  induction h with
  | here n => rfl
  | entry hmem _ _ ih =>
    rw [at?_directory_cons, Entries.lookup_of_mem hn.1 hmem]
    exact ih (hn.2.of_mem hmem).2

theorem Visits.kept (h : Visits excluded n names m) :
    ∀ name ∈ names.dropLast, name ∉ excluded.map RawText.ofText := by
  induction h with
  | here n => exact List.forall_mem_nil _
  | entry hmem hkept hrest ih =>
    cases hrest with
    | here => exact List.forall_mem_nil _
    -- the node is a directory, for there is something below it
    | entry => exact List.forall_mem_cons.mpr ⟨hkept rfl, ih⟩

theorem visits_of_at? (hat : n.at? names = some m) (hm : m.isDirectory = false)
    (hkept : ∀ name ∈ names.dropLast, name ∉ excluded.map RawText.ofText) : Visits excluded n names m := by
  induction names generalizing n with
  | nil =>
    obtain rfl := Option.some.inj hat
    exact .here n
  | cons name rest ih =>
    cases n with
    | file content => cases hat
    | link target => cases hat
    | directory es =>
      rw [at?_directory_cons] at hat
      obtain ⟨child, hchild, hat⟩ := Option.bind_eq_some_iff.mp hat
      have hmem := Entries.mem_of_lookup hchild
      cases rest with
      | nil =>
        obtain rfl := Option.some.inj hat
        refine .entry hmem (fun hdir => ?_) (.here child)
        rw [hm] at hdir
        cases hdir
      | cons next rest =>
        obtain ⟨hname, hrest⟩ := List.forall_mem_cons.mp hkept
        exact .entry hmem (fun _ => hname) (ih hat hrest)

/-! ### Visited once -/

theorem components_of_mem_visitAll (hpath : path ≠ "") (hnamed : AllWellNamed es)
    {e : RawText × Node} (h : e ∈ visitAll excluded path es) :
    ∃ name ∈ es.map Prod.fst, ∃ rest,
      Path.components e.1 = Path.components path ++ .name name :: rest := by
  obtain ⟨name, n, names, hmem, -, hvisits, hp⟩ := (mem_visitAll_iff es).mp h
  obtain ⟨hname, hn⟩ := hnamed.of_mem hmem
  have hnames : ∀ x ∈ name :: names, FileTree.IsFileName x :=
    List.forall_mem_cons.mpr ⟨hname, (hn.of_at? (hvisits.at? hn)).2⟩
  refine ⟨name, List.mem_map_of_mem hmem, names.map .name, ?_⟩
  rw [hp, Path.components_below hpath hnames, List.map_cons]

mutual

theorem pairwise_visit (n : Node) (hn : n.WellNamed) {path : RawText} (hpath : path ≠ "") :
    (n.visit excluded path).Pairwise fun a b => Path.components a.1 ≠ Path.components b.1 := by
  cases n with
  | file content => exact List.pairwise_singleton _ _
  | link target => exact List.pairwise_singleton _ _
  | directory es =>
    refine List.pairwise_cons.mpr ⟨fun e he heq => ?_, pairwise_visitAll es hn.1 hn.2 hpath⟩
    obtain ⟨name, -, rest, hcomponents⟩ := components_of_mem_visitAll hpath hn.2 he
    exact absurd (List.self_eq_append_right.mp (heq.trans hcomponents)) (List.cons_ne_nil _ _)

theorem pairwise_visitAll (es : List (RawText × Node)) (hes : (es.map Prod.fst).Nodup)
    (hnamed : AllWellNamed es) {path : RawText} (hpath : path ≠ "") :
    (visitAll excluded path es).Pairwise fun a b => Path.components a.1 ≠ Path.components b.1 := by
  cases es with
  | nil => exact List.Pairwise.nil
  | cons e rest =>
    obtain ⟨name, n⟩ := e
    obtain ⟨hname, hn, hrest⟩ := hnamed
    obtain ⟨hnew, hnodup⟩ := List.nodup_cons.mp hes
    have hfirst : (visitAll excluded path [(name, n)]).Pairwise
        fun a b => Path.components a.1 ≠ Path.components b.1 := by
      rw [visitAll, visitAll, List.append_nil]
      split_ifs
      · exact List.Pairwise.nil
      · exact pairwise_visit n hn (FileTree.join_ne_empty hpath hname)
    have hsplit : visitAll excluded path ((name, n) :: rest)
        = visitAll excluded path [(name, n)] ++ visitAll excluded path rest := by
      rw [visitAll, visitAll, visitAll, List.append_nil]
    rw [hsplit]
    refine List.pairwise_append.mpr ⟨hfirst, pairwise_visitAll rest hnodup hrest hpath, ?_⟩
    intro a ha b hb heq
    -- two paths below different entries part where the names of the entries stand
    have hone : AllWellNamed [(name, n)] := ⟨hname, hn, trivial⟩
    obtain ⟨x, hx, as, has⟩ := components_of_mem_visitAll hpath hone ha
    obtain ⟨y, hy, bs, hbs⟩ := components_of_mem_visitAll hpath hrest hb
    rw [has, hbs, List.append_cancel_left_eq] at heq
    cases heq
    rw [List.mem_singleton.mp hx] at hy
    exact hnew hy

end

end Node

namespace FileTree

/-- The root is no directory itself, or one whose name is not excluded. Where its path ends in no name
the path stands for one. -/
def KeepsRoot (t : FileTree) (excluded : List String) (root : RawText) : Prop :=
  ∀ es, t.node? .entry root = .ok (.directory es) →
    (Path.fileName? root).getD root ∉ excluded.map RawText.ofText

/-- Names that lead from a place to an entry at or below it, through directories none of which is a
link or has an excluded name. -/
structure Reaches (t : FileTree) (excluded : List String) (place names : List RawText) :
    Prop where
  entry : t.top.view (place ++ names) ≠ none
  directories : ∀ above, above <+: names → above ≠ names →
    t.top.view (place ++ above) = some .directory
  kept : ∀ name ∈ names.dropLast, name ∉ excluded.map RawText.ofText

/-- A dump at or below a root that is reached past no excluded directory. It may be a link to a file,
and the root a link to a directory. -/
structure IsDumpBelow (t : FileTree) (excluded : List String) (root path : RawText) : Prop where
  keepsRoot : t.KeepsRoot excluded root
  reached : ∃ place names, t.resolve .target root = .ok (.taken place) ∧
    t.Reaches excluded place names ∧ path = Path.below root names
  isFile : t.isFile path = true
  isNamed : ∃ stem : RawText, Path.fileName? path = some (stem ++ ".callsites.json")

variable {t : FileTree} {excluded : List String} {root path : RawText}

theorem exists_of_visit {nodes : List (RawText × Node)} (h : t.visit excluded root = .ok nodes) :
    ∃ place n, t.resolve .target root = .ok (.taken place) ∧ t.top.at? place = some n ∧
      (t.KeepsRoot excluded root ∧ nodes = n.visit excluded root ∨
        ¬ t.KeepsRoot excluded root ∧ nodes = []) := by
  unfold visit at h
  cases hentry : t.node? .entry root with
  | error e =>
    rw [hentry] at h
    cases h
  | ok n =>
    rw [hentry] at h
    obtain ⟨place, hplace, hat⟩ := node?_eq_ok_iff.mp hentry
    have hresolve (hlink : ∀ target, n ≠ .link target) :
        t.resolve .target root = .ok (.taken place) := by
      refine resolve_target_of_entry (fun target heq => ?_) hplace
      exact hlink target (Option.some.inj (hat.symm.trans heq))
    cases n with
    | link target =>
      dsimp only at h
      cases htarget : t.node? .target root with
      | error e =>
        rw [htarget] at h
        cases h
      | ok m =>
        rw [htarget] at h
        obtain ⟨place', hplace', hat'⟩ := node?_eq_ok_iff.mp htarget
        refine ⟨place', m, hplace', hat', .inl ⟨fun es hes => ?_, ?_⟩⟩
        · rw [hentry] at hes
          cases hes
        · rw [Node.visit_eq_cons]
          exact (Except.ok.inj h).symm
    | file content =>
      refine ⟨place, _, hresolve nofun, hat, .inl ⟨fun es hes => ?_, (Except.ok.inj h).symm⟩⟩
      rw [hentry] at hes
      cases hes
    | directory es =>
      dsimp only at h
      refine ⟨place, _, hresolve nofun, hat, ?_⟩
      have hkeeps : t.KeepsRoot excluded root ↔
          (Path.fileName? root).getD root ∉ excluded.map RawText.ofText :=
        ⟨fun hall => hall es hentry, fun hname _ _ => hname⟩
      split_ifs at h with hskip
      · refine .inr ⟨fun hkept => Node.isSkipped_iff.mp hskip fun _ => hkeeps.mp hkept, ?_⟩
        exact (Except.ok.inj h).symm
      · refine .inl ⟨hkeeps.mpr ?_, (Except.ok.inj h).symm⟩
        exact not_not.mp (mt Node.isSkipped_iff.mpr hskip) rfl

theorem isDumpFile_iff : isDumpFile path = true ↔
    ∃ stem : String, Path.fileName? path = some ((stem : RawText) ++ dumpSuffix) := by
  unfold isDumpFile
  rw [Option.any_eq_true]
  constructor
  · rintro ⟨name, hname, hsuffix⟩
    obtain ⟨raw, hraw, hname⟩ := Option.bind_eq_some_iff.mp hname
    obtain ⟨stem, hstem⟩ := List.isSuffixOf_iff_suffix.mp hsuffix
    have hsplit : name = String.ofList stem ++ dumpSuffix := by
      rw [← String.toList_inj, String.toList_append, String.toList_ofList, hstem]
    refine ⟨String.ofList stem, hraw.trans (congrArg some ?_)⟩
    rw [RawText.toText?_eq_some_iff.mp hname, hsplit, RawText.ofText_append]
  · rintro ⟨stem, hname⟩
    rw [← RawText.ofText_append] at hname
    refine ⟨stem ++ dumpSuffix, ?_, List.isSuffixOf_iff_suffix.mpr ⟨stem.toList, ?_⟩⟩
    · rw [hname, Option.bind_some, RawText.toText?_ofText]
    · rw [String.toList_append]

theorem isDumpFile_of_isNamed {name : String} {stem : RawText}
    (hname : Path.fileName? path = some (name : RawText))
    (hstem : Path.fileName? path = some (stem ++ ".callsites.json")) : isDumpFile path = true := by
  obtain ⟨left, rfl⟩ := RawText.exists_eq_append_of_ofText dumpSuffix rfl (by decide)
    (Option.some.inj (hname.symm.trans hstem))
  exact isDumpFile_iff.mpr ⟨left, by rw [hname, RawText.ofText_append]⟩

variable {files : List RawText}

theorem mem_visit_iff_reaches {place : List RawText} {n : Node} (ht : t.top.WellNamed)
    (hroot : t.resolve .target root = .ok (.taken place)) (hat : t.top.at? place = some n)
    (hfile : t.isFile path = true) : path ∈ (n.visit excluded root).map Prod.fst ↔
      ∃ names, t.Reaches excluded place names ∧ path = Path.below root names := by
  have hbelow (names : List RawText) : t.top.at? (place ++ names) = n.at? names := by
    rw [Node.at?_append, hat, Option.bind_some]
  constructor
  · intro hmem
    obtain ⟨⟨_, m⟩, hnode, rfl⟩ := List.mem_map.mp hmem
    obtain ⟨names, hvisits, hpath⟩ := (Node.mem_visit_iff n).mp hnode
    have hentry : t.top.view (place ++ names) ≠ none := by
      unfold Node.view
      rw [hbelow, hvisits.at? (ht.of_at? hat).1]
      exact Option.some_ne_none _
    refine ⟨names, ⟨hentry, ?_, hvisits.kept⟩, hpath⟩
    rintro above ⟨rest, rfl⟩ hne
    refine Node.view_of_prefix (fun hrest => hne ?_) hentry
    rw [hrest, List.append_nil]
  · rintro ⟨names, hreaches, rfl⟩
    obtain ⟨l, hl⟩ := Option.ne_none_iff_exists'.mp hreaches.entry
    obtain ⟨m, hm, rfl⟩ := Option.map_eq_some_iff.mp hl
    -- a directory is visited only if its own name is kept, but its path leads to no file
    have hm' : m.isDirectory = false := by
      cases m with
      | file content => rfl
      | link target => rfl
      | directory es => exact absurd hfile (not_isFile_of_directory ht hroot hl)
    have hvisits := Node.visits_of_at? ((hbelow names).symm.trans hm) hm' hreaches.kept
    exact List.mem_map.mpr ⟨_, (Node.mem_visit_iff n).mpr ⟨names, hvisits, rfl⟩, rfl⟩

theorem isDumpBelow_of_mem (ht : t.top.WellNamed) (h : t.dumpFiles excluded root = .ok files)
    (hpath : path ∈ files) : t.IsDumpBelow (skippedDirectories ++ excluded) root path := by
  obtain ⟨nodes, hvisit, -, rfl⟩ := dumpFiles_eq_ok_iff.mp h
  obtain ⟨place, n, hroot, hat, hnodes⟩ := exists_of_visit hvisit
  rw [Path.sort, List.mem_mergeSort, List.mem_filter, Bool.and_eq_true_iff] at hpath
  obtain ⟨hmem, hfile, hdump⟩ := hpath
  obtain ⟨stem, hnamed⟩ := isDumpFile_iff.mp hdump
  rcases hnodes with ⟨hkeeps, rfl⟩ | ⟨-, rfl⟩
  · obtain ⟨names, hreaches, hbelow⟩ := (mem_visit_iff_reaches ht hroot hat hfile).mp hmem
    exact ⟨hkeeps, ⟨place, names, hroot, hreaches, hbelow⟩, hfile, stem, hnamed⟩
  · cases hmem

theorem mem_dumpFiles_of_isDumpBelow (ht : t.top.WellNamed)
    (h : t.dumpFiles excluded root = .ok files) {name : String}
    (hname : Path.fileName? path = some (name : RawText))
    (hbelow : t.IsDumpBelow (skippedDirectories ++ excluded) root path) : path ∈ files := by
  obtain ⟨nodes, hvisit, -, rfl⟩ := dumpFiles_eq_ok_iff.mp h
  obtain ⟨place, n, hroot, hat, hnodes⟩ := exists_of_visit hvisit
  obtain ⟨hkeeps, ⟨place', names, hroot', hreaches, hpath⟩, hfile, stem, hstem⟩ := hbelow
  rw [Path.sort, List.mem_mergeSort, List.mem_filter, Bool.and_eq_true_iff]
  refine ⟨?_, hfile, isDumpFile_of_isNamed hname hstem⟩
  rcases hnodes with ⟨-, rfl⟩ | ⟨hnot, -⟩
  · rw [hroot] at hroot'
    cases hroot'
    exact (mem_visit_iff_reaches ht hroot hat hfile).mpr ⟨names, hreaches, hpath⟩
  · exact absurd hkeeps hnot

theorem pairwise_dumpFiles (ht : t.top.WellNamed) (h : t.dumpFiles excluded root = .ok files) :
    files.Pairwise fun a b => Path.order a b = .lt := by
  obtain ⟨nodes, hvisit, -, rfl⟩ := dumpFiles_eq_ok_iff.mp h
  obtain ⟨place, n, hroot, hat, hnodes⟩ := exists_of_visit hvisit
  have hpaths : (nodes.map Prod.fst).Pairwise fun a b => Path.components a ≠ Path.components b := by
    rcases hnodes with ⟨-, rfl⟩ | ⟨-, rfl⟩
    · exact List.pairwise_map.mpr
        (Node.pairwise_visit n (ht.of_at? hat).1 (allowed_of_resolveSteps hroot).1)
    · exact List.Pairwise.nil
  exact Path.pairwise_sort (hpaths.filter _)

/-- Where the names of a tree can stand in paths, discovery finds dumps at and below a root only, and all
of those whose names are texts, each once and in the strict order of their paths, whatever the order
they come up in. -/
theorem dumpFiles_exact (ht : t.top.WellNamed) (h : t.dumpFiles excluded root = .ok files) :
    (∀ path ∈ files,
      t.IsDumpBelow ([".git", ".tmplint", "node_modules", "target"] ++ excluded) root path) ∧
    (∀ (path : RawText) (name : String), Path.fileName? path = some (name : RawText) →
      t.IsDumpBelow ([".git", ".tmplint", "node_modules", "target"] ++ excluded) root path →
      path ∈ files) ∧
    files.Nodup ∧ files.Pairwise (fun a b => Path.order a b = .lt) ∧
    ∀ arrived, arrived.Perm files → Path.sort arrived = files := by
  have hstrict := pairwise_dumpFiles ht h
  refine ⟨fun path => isDumpBelow_of_mem ht h, fun path name => mem_dumpFiles_of_isDumpBelow ht h,
    hstrict.imp fun {a b} hab heq => ?_, hstrict,
    fun arrived harrived => Path.sort_eq_of_perm harrived hstrict⟩
  rw [heq, Path.order_eq_eq_iff.mpr rfl] at hab
  cases hab

/-! A root that is a link to a directory with a link to a file, a link to a directory, and directories
that are excluded, one of them always. -/

def linkedDirectory : Node := .directory
  [("b.callsites.json", .link "notes"), ("notes", .file []), ("more", .link "out"),
   ("out", .directory [("c.callsites.json", .file [])]),
   ("target", .directory [("d.callsites.json", .file [])]),
   ("made", .directory [("e.callsites.json", .file [])]), ("a.callsites.json", .file [])]

def linkedTree : FileTree where
  top := .directory [("link", .link "work"), ("work", linkedDirectory)]
  workingDirectory := []

def linkedFiles : List RawText :=
  ["link/a.callsites.json", "link/b.callsites.json", "link/out/c.callsites.json"]

theorem dumpFiles_linkedTree : linkedTree.dumpFiles ["made"] "link" = .ok linkedFiles := by
  have hfiles : ((linkedDirectory.visit (skippedDirectories ++ ["made"]) "link").map Prod.fst).filter
        (fun path => linkedTree.isFile path && isDumpFile path)
      = ["link/b.callsites.json", "link/out/c.callsites.json", "link/a.callsites.json"] := by
    decide +kernel
  refine dumpFiles_eq_ok_iff.mpr ⟨_, rfl, by decide +kernel, ?_⟩
  exact (Path.sort_eq_of_perm (hfiles ▸ by decide) (by decide)).symm

theorem dumpFiles_exact_linked :
    linkedTree.top.WellNamed ∧ linkedTree.dumpFiles ["made"] "link" = .ok linkedFiles ∧
    linkedTree.IsDumpBelow (skippedDirectories ++ ["made"]) "link" "link/b.callsites.json" ∧
    ¬ linkedTree.IsDumpBelow (skippedDirectories ++ ["made"]) "link" "link/more/c.callsites.json" ∧
    Path.sort linkedFiles.reverse = linkedFiles := by
  have hnamed : linkedTree.top.WellNamed := by decide
  obtain ⟨hsound, hcomplete, -, -, harrival⟩ := dumpFiles_exact hnamed dumpFiles_linkedTree
  have hmore := mt (hcomplete "link/more/c.callsites.json" "c.callsites.json" (by decide))
  exact ⟨hnamed, dumpFiles_linkedTree, hsound _ (by decide), hmore (by decide),
    harrival _ linkedFiles.reverse_perm⟩

/-! A dump with a name that is no text, and a root whose path ends in no name and is excluded as it
stands. -/

def unspelledName : RawText := ⟨Text.bytes "caf" ++ [0xe9]⟩ ++ ".callsites.json"

def unspelledTree : FileTree where
  top := .directory [(unspelledName, .file [])]
  workingDirectory := []

def climbingTree : FileTree where
  top := .directory [("d", .directory []), ("a.callsites.json", .file [])]
  workingDirectory := []

theorem isDumpBelow_unspelled :
    unspelledTree.IsDumpBelow skippedDirectories "." (Path.below "." [unspelledName]) where
  keepsRoot _ _ := by decide
  reached := by
    have hroot : unspelledTree.resolve .target "." = .ok (.taken []) := by rfl
    refine ⟨[], [unspelledName], hroot, ⟨by decide, fun above habove hne => ?_, nofun⟩, rfl⟩
    rcases List.prefix_cons_iff.mp habove with rfl | ⟨rest, rfl, hrest⟩
    · rfl
    · rw [List.prefix_nil.mp hrest] at hne
      exact absurd rfl hne
  isFile := by decide +kernel
  isNamed := ⟨⟨Text.bytes "caf" ++ [0xe9]⟩, by decide⟩

theorem dumpFiles_unspelled_climbing :
    (unspelledTree.IsDumpBelow skippedDirectories "." (Path.below "." [unspelledName]) ∧
      (unspelledTree.dumpFiles [] ".").toOption = some []) ∧
    climbingTree.isFile "d/../a.callsites.json" = true ∧ Path.fileName? "d/.." = none ∧
    (climbingTree.dumpFiles [] "d/..").toOption = some [("d/../a.callsites.json" : RawText)] ∧
    (climbingTree.dumpFiles ["d/.."] "d/..").toOption = some [] :=
  ⟨⟨isDumpBelow_unspelled, by decide +kernel⟩, by decide +kernel⟩

end FileTree

end LogTemplate
