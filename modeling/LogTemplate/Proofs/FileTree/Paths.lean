import LogTemplate.Proofs.FileTree.Walk
import Mathlib.Data.List.Basic

/-! Paths put together from a directory and the name of a file in it. The walk to such a path
is that to the directory with one more step. -/

namespace LogTemplate

namespace FileTree

structure IsFileName (name : RawText) : Prop where
  isName : IsName name
  no_slash : Path.slash ∉ name.bytes
  no_nul : 0 ∉ name.bytes

theorem IsFileName.bytes_ne_nil {name : RawText} (h : IsFileName name) : name.bytes ≠ [] := by
  intro heq
  exact h.isName.1 (RawText.bytes_inj.mp heq)

theorem names_append_slash {path a b : RawText} (h : path.bytes = a.bytes ++ Path.slash :: b.bytes) :
    names path = names a ++ names b := by
  unfold names Path.pieces
  rw [h, Text.splitOn_append_separator, List.map_append, List.filter_append]

theorem names_slashes (n : Nat) : names ⟨List.replicate n Path.slash⟩ = [] := by
  induction n with
  | zero => rfl
  | succ n ih => exact (names_append_slash (a := "") (b := ⟨List.replicate n Path.slash⟩) rfl).trans ih

theorem names_append_slashes (path : RawText) (n : Nat) :
    names ⟨path.bytes ++ List.replicate n Path.slash⟩ = names path := by
  cases n with
  | zero => rw [List.replicate_zero, List.append_nil]
  | succ n =>
    have hbytes : path.bytes ++ List.replicate (n + 1) Path.slash
        = path.bytes ++ Path.slash :: List.replicate n Path.slash := rfl
    rw [names_append_slash (b := ⟨List.replicate n Path.slash⟩) hbytes, names_slashes, List.append_nil]

theorem names_of_isFileName {name : RawText} (h : IsFileName name) : names name = [name] := by
  unfold names Path.pieces
  rw [Text.splitOn_of_not_mem h.no_slash, List.map_singleton]
  exact List.filter_cons_of_pos (by simpa using h.isName.1)

theorem isAbsolute_of_isFileName {name : RawText} (h : IsFileName name) :
    Path.isAbsolute name = false := by
  unfold Path.isAbsolute
  rw [decide_eq_false_iff_not]
  intro hhead
  exact h.no_slash (List.mem_of_mem_head? hhead)

section

variable {path name : RawText}

theorem exists_bytes_join (hpath : path ≠ "") (hname : IsFileName name) :
    ∃ above : RawText, (Path.join path name).bytes = above.bytes ++ Path.slash :: name.bytes ∧
      names above = names path ∧
      (path.bytes = above.bytes ∨ path.bytes = above.bytes ++ [Path.slash]) := by
  have hempty : path.isEmpty = false := by
    rw [Bool.eq_false_iff]
    intro h
    exact hpath (RawText.isEmpty_iff.mp h)
  have habsolute : ¬ Path.isAbsolute name = true := by
    rw [isAbsolute_of_isFileName hname]
    exact Bool.false_ne_true
  unfold Path.join
  rw [if_neg habsolute, hempty, Bool.false_or]
  by_cases hslash : Path.endsInSlash path = true
  · rw [if_pos hslash]
    unfold Path.endsInSlash at hslash
    rw [decide_eq_true_eq, List.getLast?_eq_some_iff] at hslash
    obtain ⟨above, habove⟩ := hslash
    refine ⟨RawText.mk above, ?_, ?_, ?_⟩
    · rw [RawText.bytes_append, habove, List.append_assoc]
      rfl
    · have hnames : names path = names (RawText.mk above) ++ names "" :=
        names_append_slash (by rw [habove]; rfl)
      have hnil : names "" = [] := rfl
      rw [hnames, hnil, List.append_nil]
    · exact .inr habove
  · rw [if_neg hslash]
    refine ⟨path, ?_, rfl, .inl rfl⟩
    rw [RawText.bytes_append, RawText.bytes_append, List.append_assoc]
    rfl

theorem names_join (hpath : path ≠ "") (hname : IsFileName name) :
    names (Path.join path name) = names path ++ [name] := by
  obtain ⟨above, hjoin, hnames, -⟩ := exists_bytes_join hpath hname
  rw [names_append_slash hjoin, hnames, names_of_isFileName hname]

theorem endsInSlash_join (hpath : path ≠ "") (hname : IsFileName name) :
    Path.endsInSlash (Path.join path name) = false := by
  obtain ⟨above, hjoin, -, -⟩ := exists_bytes_join hpath hname
  unfold Path.endsInSlash
  rw [hjoin, decide_eq_false_iff_not]
  rw [List.getLast?_append_of_ne_nil _ (List.cons_ne_nil _ _),
    List.getLast?_cons_of_ne_nil hname.bytes_ne_nil]
  intro hlast
  exact hname.no_slash (List.mem_of_getLast? hlast)

theorem steps_join (hpath : path ≠ "") (hname : IsFileName name) :
    steps (Path.join path name) = names path ++ [name] := by
  unfold steps
  rw [endsInSlash_join hpath hname, names_join hpath hname]
  exact List.append_nil _

theorem join_ne_empty (hpath : path ≠ "") (hname : IsFileName name) : Path.join path name ≠ "" := by
  obtain ⟨above, hjoin, -, -⟩ := exists_bytes_join hpath hname
  intro heq
  rw [heq] at hjoin
  exact absurd hjoin.symm (List.append_ne_nil_of_right_ne_nil _ (List.cons_ne_nil _ _))

theorem isAbsolute_join (hpath : path ≠ "") (hname : IsFileName name) :
    Path.isAbsolute (Path.join path name) = Path.isAbsolute path := by
  obtain ⟨above, hjoin, -, habove⟩ := exists_bytes_join hpath hname
  have hne : path.bytes ≠ [] := fun h => hpath (RawText.bytes_inj.mp h)
  unfold Path.isAbsolute
  rw [hjoin]
  rcases habove with habove | habove
  · rw [← habove, List.head?_append_of_ne_nil _ hne]
  · rw [habove]
    cases above.bytes <;> rfl

theorem nul_mem_join_iff (hpath : path ≠ "") (hname : IsFileName name) :
    0 ∈ (Path.join path name).bytes ↔ 0 ∈ path.bytes := by
  obtain ⟨above, hjoin, -, habove⟩ := exists_bytes_join hpath hname
  rw [hjoin]
  rcases habove with habove | habove
  · rw [habove]
    simp [hname.no_nul, Path.slash]
  · rw [habove]
    simp [hname.no_nul, Path.slash]

end

/-! ### Paths that are resolved -/

def Allowed (path : RawText) : Prop :=
  path ≠ "" ∧ 0 ∉ path.bytes ∧ isTooLong path = false

def base (t : FileTree) (path : RawText) : List RawText :=
  if Path.isAbsolute path then [] else t.workingDirectory

theorem resolveSteps_of_allowed {path : RawText} (h : Allowed path) (t : FileTree) (access : Access)
    (ss : List RawText) : t.resolveSteps access path ss = walk t.top access maxLinks (t.base path) ss := by
  have hempty : ¬ path.isEmpty = true := fun he => h.1 (RawText.isEmpty_iff.mp he)
  have hnul : ¬ path.bytes.contains 0 = true := fun hc => h.2.1 (List.contains_iff_mem.mp hc)
  have hlong : ¬ isTooLong path = true := by
    rw [h.2.2]
    exact Bool.false_ne_true
  unfold resolveSteps
  rw [if_neg hempty, if_neg hnul, if_neg hlong]
  rfl

theorem allowed_of_resolveSteps {path : RawText} {t : FileTree} {access : Access} {ss : List RawText}
    {spot : Spot} (h : t.resolveSteps access path ss = .ok spot) : Allowed path := by
  unfold resolveSteps at h
  by_cases hempty : path.isEmpty = true
  · rw [if_pos hempty] at h
    cases h
  rw [if_neg hempty] at h
  by_cases hnul : path.bytes.contains 0 = true
  · rw [if_pos hnul] at h
    cases h
  rw [if_neg hnul] at h
  by_cases hlong : isTooLong path = true
  · rw [if_pos hlong] at h
    cases h
  refine ⟨?_, ?_, Bool.eq_false_iff.mpr hlong⟩
  · rintro rfl
    exact hempty rfl
  · intro hmem
    exact hnul (List.contains_iff_mem.mpr hmem)

theorem walk_of_resolve {path : RawText} {t : FileTree} {access : Access} {spot : Spot}
    (h : t.resolve access path = .ok spot) :
    walk t.top access maxLinks (t.base path) (steps path) = .ok spot := by
  rw [← resolveSteps_of_allowed (allowed_of_resolveSteps h)]
  exact h

theorem resolve_of_allowed {path : RawText} (h : Allowed path) (t : FileTree) (access : Access) :
    t.resolve access path = walk t.top access maxLinks (t.base path) (steps path) :=
  resolveSteps_of_allowed h t access (steps path)

theorem size_join (path : RawText) {name : RawText} (hname : IsFileName name) :
    path.size + name.size ≤ (Path.join path name).size ∧
      (Path.join path name).size ≤ path.size + 1 + name.size := by
  have hslash : RawText.size "/" = 1 := rfl
  unfold Path.join
  rw [isAbsolute_of_isFileName hname, if_neg Bool.false_ne_true]
  split
  · rw [RawText.size_append]
    omega
  · rw [RawText.size_append, RawText.size_append, hslash]
    omega

theorem allowed_of_join {path name : RawText} (hpath : path ≠ "") (hname : IsFileName name)
    (h : Allowed (Path.join path name)) : Allowed path := by
  refine ⟨hpath, fun hmem => h.2.1 ((nul_mem_join_iff hpath hname).mpr hmem), ?_⟩
  have hlong := h.2.2
  unfold isTooLong at hlong ⊢
  rw [decide_eq_false_iff_not, Nat.not_lt] at hlong ⊢
  exact Nat.le_trans (Nat.le_of_add_right_le (size_join path hname).1) hlong

theorem allowed_join {path name : RawText} (h : Allowed path) (hname : IsFileName name)
    (hsize : path.size + 1 + name.size ≤ maxPathSize) : Allowed (Path.join path name) := by
  refine ⟨join_ne_empty h.1 hname, fun hnul => h.2.1 ((nul_mem_join_iff h.1 hname).mp hnul), ?_⟩
  unfold isTooLong
  rw [decide_eq_false_iff_not, Nat.not_lt]
  exact Nat.le_trans (size_join path hname).2 hsize

section

variable {t : FileTree} {path name : RawText}

theorem base_join (hpath : path ≠ "") (hname : IsFileName name) (t : FileTree) :
    t.base (Path.join path name) = t.base path := by
  unfold base
  rw [isAbsolute_join hpath hname]

theorem exists_runs_of_resolve_target (hpath : path ≠ "") (hname : IsFileName name)
    {q : List RawText} (h : t.resolve .target (Path.join path name) = .ok (.taken q)) :
    ∃ d k k', k + k' ≤ maxLinks ∧ Run t.top.view (t.base path, names path) k (d, []) ∧
      Run t.top.view (d, [name]) k' (q, []) := by
  have hwalk := walk_of_resolve h
  rw [base_join hpath hname, steps_join hpath hname] at hwalk
  obtain ⟨k, s, hk, hrun, hend⟩ := exists_run_of_walk (by decide) hwalk
  cases hend
  obtain ⟨d, k', k'', hto, hfrom, rfl⟩ := hrun.split
  exact ⟨d, k', k'', hk, hto, hfrom⟩

theorem exists_run_of_resolve_entry (hpath : path ≠ "") (hname : IsFileName name) {spot : Spot}
    (h : t.resolve .entry (Path.join path name) = .ok spot) :
    ∃ k d, k ≤ maxLinks ∧ Run t.top.view (t.base path, names path) k (d, []) ∧
      Entry t.top.view d name spot := by
  have hwalk := walk_of_resolve h
  rw [base_join hpath hname, steps_join hpath hname] at hwalk
  exact exists_run_of_walk_entry hname.isName hwalk

theorem exists_run_of_resolve_output {path : RawText} {spot : Spot}
    (h : t.resolve .output path = .ok spot) :
    ∃ k s, k ≤ maxLinks ∧ Run t.top.view (t.base path, steps path) k s ∧ Ends t.top.view s spot :=
  exists_run_of_walk (by decide) (walk_of_resolve h)

theorem exists_run_of_resolve_taken {path : RawText} {q : List RawText}
    (h : t.resolve .target path = .ok (.taken q)) :
    ∃ k, k ≤ maxLinks ∧ Run t.top.view (t.base path, steps path) k (q, []) := by
  obtain ⟨k, s, hk, hrun, hend⟩ := exists_run_of_walk (by decide) (walk_of_resolve h)
  cases hend
  exact ⟨k, hk, hrun⟩

theorem resolve_of_run {path : RawText} (h : Allowed path) {q : List RawText} {k : Nat}
    (hrun : Run t.top.view (t.base path, steps path) k (q, [])) (hk : k ≤ maxLinks) :
    t.resolve .target path = .ok (.taken q) := by
  rw [resolve_of_allowed h]
  exact walk_target_of_run hrun hk

end

end FileTree

end LogTemplate
