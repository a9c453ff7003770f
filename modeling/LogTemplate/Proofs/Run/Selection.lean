import LogTemplate.Proofs.Run.Outcome
import LogTemplate.Proofs.Run.Patterns
import LogTemplate.Proofs.Run.Sorting
import LogTemplate.Proofs.Surface.Fingerprint

/-! Which dumps a run looks at, and calls of which types it inspects. To exclude more directories or
to ignore more paths only takes dumps away; in what order names are given, and how often, makes no
difference. -/

namespace LogTemplate

/-! ### Excluded directories -/

section

variable {excluded excluded' : List String}

theorem skippedDirectories_append_mono (h : excluded ⊆ excluded') :
    skippedDirectories ++ excluded ⊆ skippedDirectories ++ excluded' := by
  intro name hname
  exact List.mem_append.mpr ((List.mem_append.mp hname).imp_right fun hmem => h hmem)

theorem isExcluded_mono (h : excluded ⊆ excluded') {name : RawText}
    (hname : isExcluded excluded name = true) : isExcluded excluded' name = true := by
  obtain ⟨text, htext, hmem⟩ := (Option.any_eq_true _ _).mp hname
  exact (Option.any_eq_true _ _).mpr
    ⟨text, htext, List.contains_iff_mem.mpr (h (List.contains_iff_mem.mp hmem))⟩

theorem isSkipped_mono (h : excluded ⊆ excluded') (n : Node) (name : RawText)
    (hskip : (n.isDirectory && isExcluded excluded name) = true) :
    (n.isDirectory && isExcluded excluded' name) = true := by
  obtain ⟨hdirectory, hname⟩ := Bool.and_eq_true_iff.mp hskip
  exact Bool.and_eq_true_iff.mpr ⟨hdirectory, isExcluded_mono h hname⟩

mutual

theorem Node.visit_sublist (h : excluded ⊆ excluded') (path : RawText) (n : Node) :
    (n.visit excluded' path).Sublist (n.visit excluded path) := by
  cases n with
  | directory es => exact (Node.visitAll_sublist h path es).cons_cons (path, .directory es)
  | file content => exact List.Sublist.refl _
  | link target => exact List.Sublist.refl _

theorem Node.visitAll_sublist (h : excluded ⊆ excluded') (path : RawText)
    (es : List (RawText × Node)) :
    (Node.visitAll excluded' path es).Sublist (Node.visitAll excluded path es) := by
  cases es with
  | nil => exact List.Sublist.refl _
  | cons e rest =>
    obtain ⟨name, n⟩ := e
    have hrest := Node.visitAll_sublist h path rest
    rw [Node.visitAll, Node.visitAll]
    by_cases hskip' : (n.isDirectory && isExcluded excluded' name) = true
    · rw [if_pos hskip']
      exact (List.nil_sublist _).append hrest
    · have hskip := mt (isSkipped_mono h n name) hskip'
      rw [if_neg hskip', if_neg hskip]
      exact (Node.visit_sublist h (Path.join path name) n).append hrest

end

namespace FileTree

variable {t : FileTree} {root : RawText}

theorem visit_sublist (h : excluded ⊆ excluded') {nodes : List (RawText × Node)}
    (hvisit : t.visit excluded root = .ok nodes) :
    ∃ nodes', t.visit excluded' root = .ok nodes' ∧ nodes'.Sublist nodes := by
  unfold visit at hvisit ⊢
  cases hentry : t.node? .entry root with
  | error e =>
    rw [hentry] at hvisit
    cases hvisit
  | ok n =>
    rw [hentry] at hvisit
    cases n with
    | link target =>
      dsimp only at hvisit ⊢
      cases htarget : t.node? .target root with
      | error e =>
        rw [htarget] at hvisit
        cases hvisit
      | ok m =>
        rw [htarget] at hvisit
        cases hvisit
        exact ⟨_, rfl, (Node.visitAll_sublist h root m.entries).cons_cons (root, m)⟩
    | file content =>
      cases hvisit
      exact ⟨_, rfl, List.Sublist.refl _⟩
    | directory es =>
      dsimp only at hvisit ⊢
      by_cases hskip' : ((Node.directory es).isDirectory
          && isExcluded excluded' ((Path.fileName? root).getD root)) = true
      · rw [if_pos hskip']
        exact ⟨[], rfl, List.nil_sublist nodes⟩
      · have hskip := mt (isSkipped_mono h (.directory es) ((Path.fileName? root).getD root)) hskip'
        rw [if_neg hskip] at hvisit
        cases hvisit
        rw [if_neg hskip']
        exact ⟨_, rfl, Node.visit_sublist h root (.directory es)⟩

theorem visit_congr (h : excluded ⊆ excluded') (h' : excluded' ⊆ excluded) :
    t.visit excluded root = t.visit excluded' root := by
  have hnode (path : RawText) (n : Node) : n.visit excluded path = n.visit excluded' path :=
    (Node.visit_sublist h' path n).antisymm (Node.visit_sublist h path n)
  have hentries (path : RawText) (es : List (RawText × Node)) :
      Node.visitAll excluded path es = Node.visitAll excluded' path es :=
    (Node.visitAll_sublist h' path es).antisymm (Node.visitAll_sublist h path es)
  have hname (name : RawText) : isExcluded excluded name = isExcluded excluded' name :=
    Bool.eq_iff_iff.mpr ⟨isExcluded_mono h, isExcluded_mono h'⟩
  unfold visit
  simp only [hnode, hentries, hname]

theorem dumpFiles_sublist (h : excluded ⊆ excluded') {files : List RawText}
    (hfiles : t.dumpFiles excluded root = .ok files) :
    ∃ files', t.dumpFiles excluded' root = .ok files' ∧ files'.Sublist files := by
  obtain ⟨nodes, hvisit, hshort, rfl⟩ := dumpFiles_eq_ok_iff.mp hfiles
  obtain ⟨nodes', hvisit', hnodes⟩ := visit_sublist (skippedDirectories_append_mono h) hvisit
  have hshort' : ∀ node ∈ nodes', ¬ (node.2.isDirectory && isTooLong node.1) = true :=
    fun node hnode => hshort node (hnodes.subset hnode)
  refine ⟨_, dumpFiles_eq_ok_iff.mpr ⟨nodes', hvisit', hshort', rfl⟩, ?_⟩
  apply Path.sort_sublist_sort
  exact (hnodes.map Prod.fst).filter _

end FileTree

end

/-! ### The dumps of a run -/

namespace Options

/-- The first options may exclude and ignore more than the second ones, and are the same otherwise. -/
structure Narrows (o' o : Options) : Prop where
  root : o'.root = o.root
  useCache : o'.useCache = o.useCache
  extraTypes : o'.extraTypes = o.extraTypes
  excludedDirectories : o.excludedDirectories ⊆ o'.excludedDirectories
  ignoredPatterns : o.ignoredPatterns ⊆ o'.ignoredPatterns

variable {o o' : Options} {t : FileTree}

theorem mem_surface_iff {n : String} :
    n ∈ o.surface.types ↔ n ∈ Surface.standard.types ∨ n ∈ o.extraTypes := Surface.mem_extend_iff

theorem surface_congr (h : ∀ n, n ∈ o'.extraTypes ↔ n ∈ o.extraTypes) :
    o'.surface = o.surface := by
  have hstandard : Ascending Surface.standard.types :=
    Surface.ascending_extend List.Pairwise.nil _
  have hsorted (o : Options) : Ascending o.surface.types :=
    Surface.ascending_extend hstandard o.extraTypes
  have hmem (n : String) : n ∈ o'.surface.types ↔ n ∈ o.surface.types := by
    rw [mem_surface_iff, mem_surface_iff, h]
  exact congrArg Surface.mk ((hsorted o').eq_of_mem_iff (hsorted o) hmem)

theorem Narrows.files_sublist (h : o'.Narrows o) {files : List RawText}
    (hfiles : o.files t = .ok files) :
    ∃ files', o'.files t = .ok files' ∧ files'.Sublist files := by
  obtain ⟨dumps, hdumps, rfl⟩ := files_eq_ok_iff.mp hfiles
  obtain ⟨dumps', hdumps', hsub⟩ := FileTree.dumpFiles_sublist h.excludedDirectories hdumps
  rw [← h.root] at hdumps'
  refine ⟨_, files_eq_ok_iff.mpr ⟨dumps', hdumps', rfl⟩, ?_⟩
  rw [h.root]
  apply (hsub.filter _).trans
  apply List.monotone_filter_right
  intro path hkept
  rw [Bool.not_eq_true'] at hkept ⊢
  exact Bool.eq_false_iff.mpr (mt (isIgnored_mono h.ignoredPatterns) (Bool.eq_false_iff.mp hkept))

theorem files_congr (hroot : o'.root = o.root)
    (hexcluded : ∀ n, n ∈ o'.excludedDirectories ↔ n ∈ o.excludedDirectories)
    (hignored : ∀ p, p ∈ o'.ignoredPatterns ↔ p ∈ o.ignoredPatterns) :
    o'.files t = o.files t := by
  have hdumps : t.dumpFiles o'.excludedDirectories o.root
      = t.dumpFiles o.excludedDirectories o.root := by
    unfold FileTree.dumpFiles
    rw [FileTree.visit_congr (skippedDirectories_append_mono fun n => (hexcluded n).mp)
      (skippedDirectories_append_mono fun n => (hexcluded n).mpr)]
  have hpath (path : String) :
      isIgnored o'.ignoredPatterns path = isIgnored o.ignoredPatterns path := by
    rw [Bool.eq_iff_iff]
    exact ⟨isIgnored_mono fun p => (hignored p).mp, isIgnored_mono fun p => (hignored p).mpr⟩
  unfold Options.files
  rw [hroot, hdumps]
  simp only [hpath]

end Options

end LogTemplate
