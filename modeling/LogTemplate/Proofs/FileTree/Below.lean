import LogTemplate.Proofs.FileTree.Effects

/-! Paths below a root. Where a tree holds only names that can stand in a path, each directory every
name once, a path is one place below the root, and it leads there as long as it goes through
directories. -/

namespace LogTemplate

theorem Entries.lookup_of_mem {κ α : Type} [DecidableEq κ] {entries : List (κ × α)} {name : κ}
    {value : α} (hnames : (entries.map Prod.fst).Nodup) (h : (name, value) ∈ entries) :
    entries.lookup name = some value := by
  induction entries with
  | nil => cases h
  | cons e rest ih =>
    obtain ⟨k, v⟩ := e
    rw [List.map_cons, List.nodup_cons] at hnames
    rcases List.mem_cons.mp h with heq | hrest
    · cases heq
      exact List.lookup_cons_self
    · have hne : name ≠ k := by
        rintro rfl
        exact hnames.1 (List.mem_map.mpr ⟨_, hrest, rfl⟩)
      rw [List.lookup_cons, beq_false_of_ne hne]
      exact ih hnames.2 hrest

/-! ### Names in a tree -/

namespace Node

mutual
/-- Every directory holds a name once, and only names that an entry can have. -/
def WellNamed : Node → Prop
  | directory es => (es.map Prod.fst).Nodup ∧ AllWellNamed es
  | _ => True

def AllWellNamed : List (RawText × Node) → Prop
  | [] => True
  | (name, n) :: rest => FileTree.IsFileName name ∧ n.WellNamed ∧ AllWellNamed rest
end

instance (name : RawText) : Decidable (FileTree.IsFileName name) :=
  decidable_of_iff (FileTree.IsName name ∧ Path.slash ∉ name.bytes ∧ 0 ∉ name.bytes)
    ⟨fun h => ⟨h.1, h.2.1, h.2.2⟩, fun h => ⟨h.isName, h.no_slash, h.no_nul⟩⟩

mutual
def decidableWellNamed : (n : Node) → Decidable n.WellNamed
  | directory es =>
    have := decidableAllWellNamed es
    inferInstanceAs (Decidable ((es.map Prod.fst).Nodup ∧ AllWellNamed es))
  | file _ => isTrue trivial
  | link _ => isTrue trivial

def decidableAllWellNamed : (es : List (RawText × Node)) → Decidable (AllWellNamed es)
  | [] => isTrue trivial
  | (name, n) :: rest =>
    have := decidableWellNamed n
    have := decidableAllWellNamed rest
    inferInstanceAs (Decidable (FileTree.IsFileName name ∧ n.WellNamed ∧ AllWellNamed rest))
end

instance (n : Node) : Decidable n.WellNamed := decidableWellNamed n

variable {n m : Node} {name : RawText} {names : List RawText}

theorem AllWellNamed.of_mem {es : List (RawText × Node)} (h : AllWellNamed es) (hmem : (name, n) ∈ es) :
    FileTree.IsFileName name ∧ n.WellNamed := by
  induction es with
  | nil => cases hmem
  | cons e rest ih =>
    obtain ⟨hname, hnode, hrest⟩ := h
    rcases List.mem_cons.mp hmem with rfl | hmem
    · exact ⟨hname, hnode⟩
    · exact ih hrest hmem

theorem WellNamed.of_at? (h : n.WellNamed) (hat : n.at? names = some m) :
    m.WellNamed ∧ ∀ name ∈ names, FileTree.IsFileName name := by
  induction names generalizing n with
  | nil =>
    cases hat
    exact ⟨h, List.forall_mem_nil _⟩
  | cons name rest ih =>
    cases n with
    | file content => cases hat
    | link target => cases hat
    | directory es =>
      rw [at?_directory_cons] at hat
      obtain ⟨child, hchild, hat⟩ := Option.bind_eq_some_iff.mp hat
      obtain ⟨hname, hnamed⟩ := h.2.of_mem (Entries.mem_of_lookup hchild)
      obtain ⟨hm, hrest⟩ := ih hnamed hat
      exact ⟨hm, List.forall_mem_cons.mpr ⟨hname, hrest⟩⟩

theorem view_of_prefix {top : Node} {place above rest : List RawText} (hrest : rest ≠ [])
    (h : top.view (place ++ (above ++ rest)) ≠ none) : top.view (place ++ above) = some .directory := by
  obtain ⟨name, rest, rfl⟩ := List.exists_cons_of_ne_nil hrest
  by_contra hnot
  rw [← List.append_assoc] at h
  exact h (view_append_cons_of_ne_directory hnot name rest)

end Node

/-! ### Path texts -/

namespace Path

open FileTree

variable {path name : RawText} {names : List RawText}

theorem pieces_join (hpath : path ≠ "") (hname : IsFileName name) : ∃ above : RawText,
    pieces (join path name) = pieces above ++ [name] ∧
      (pieces path = pieces above ∨ pieces path = pieces above ++ [("" : RawText)]) := by
  obtain ⟨above, hjoin, -, habove⟩ := exists_bytes_join hpath hname
  refine ⟨above, ?_, ?_⟩
  · unfold pieces
    rw [hjoin, Text.splitOn_append_separator, Text.splitOn_of_not_mem hname.no_slash, List.map_append,
      List.map_singleton]
  · unfold pieces
    rcases habove with habove | habove
    · exact .inl (by rw [habove])
    · exact .inr (by rw [habove, Text.splitOn_append_separator, List.map_append]; rfl)

theorem ofPiece_of_isName (h : IsName name) : Component.ofPiece name = some (.name name) := by
  unfold Component.ofPiece
  rw [if_neg (not_or.mpr ⟨h.1, h.2.1⟩), if_neg h.2.2]

theorem components_join (hpath : path ≠ "") (hname : IsFileName name) :
    components (join path name) = components path ++ [.name name] := by
  obtain ⟨above, hjoin, habove⟩ := pieces_join hpath hname
  have hne : pieces above ≠ [] := by
    unfold pieces
    rw [ne_eq, List.map_eq_nil_iff]
    exact Text.splitOn_ne_nil Path.slash above.bytes
  have hhead : (pieces (join path name)).head? = (pieces path).head? := by
    rw [hjoin, List.head?_append_of_ne_nil _ hne]
    rcases habove with habove | habove
    · rw [habove]
    · rw [habove, List.head?_append_of_ne_nil _ hne]
  have hrest : (pieces path).filterMap Component.ofPiece = (pieces above).filterMap Component.ofPiece := by
    rcases habove with habove | habove
    · rw [habove]
    · rw [habove, List.filterMap_append]
      exact List.append_nil _
  unfold components
  dsimp only
  rw [isAbsolute_join hpath hname, hhead, hjoin, List.filterMap_append, hrest, List.filterMap_cons,
    ofPiece_of_isName hname.isName, List.filterMap_nil]
  split_ifs <;> rfl

def below (path : RawText) (names : List RawText) : RawText := names.foldl join path

theorem below_ne_empty (hpath : path ≠ "") (hnames : ∀ name ∈ names, IsFileName name) :
    below path names ≠ "" := by
  induction names generalizing path with
  | nil => exact hpath
  | cons name rest ih =>
    obtain ⟨hname, hrest⟩ := List.forall_mem_cons.mp hnames
    exact ih (join_ne_empty hpath hname) hrest

theorem components_below (hpath : path ≠ "") (hnames : ∀ name ∈ names, IsFileName name) :
    components (below path names) = components path ++ names.map .name := by
  induction names generalizing path with
  | nil => exact (List.append_nil _).symm
  | cons name rest ih =>
    obtain ⟨hname, hrest⟩ := List.forall_mem_cons.mp hnames
    have hcomponents := ih (join_ne_empty hpath hname) hrest
    rw [components_join hpath hname, List.append_assoc] at hcomponents
    exact hcomponents

theorem names_below (hpath : path ≠ "") (hnames : ∀ name ∈ names, IsFileName name) :
    FileTree.names (below path names) = FileTree.names path ++ names := by
  induction names generalizing path with
  | nil => exact (List.append_nil _).symm
  | cons name rest ih =>
    obtain ⟨hname, hrest⟩ := List.forall_mem_cons.mp hnames
    have hbelow := ih (join_ne_empty hpath hname) hrest
    rw [names_join hpath hname, List.append_assoc] at hbelow
    exact hbelow

theorem below_append_singleton (path : RawText) (names : List RawText) (name : RawText) :
    below path (names ++ [name]) = join (below path names) name := List.foldl_append

theorem base_below (hpath : path ≠ "") (hnames : ∀ name ∈ names, IsFileName name) (t : FileTree) :
    t.base (below path names) = t.base path := by
  induction names generalizing path with
  | nil => rfl
  | cons name rest ih =>
    obtain ⟨hname, hrest⟩ := List.forall_mem_cons.mp hnames
    exact (ih (join_ne_empty hpath hname) hrest).trans (base_join hpath hname t)

theorem steps_below (hpath : path ≠ "") (hnames : ∀ name ∈ names, IsFileName name)
    (hne : names ≠ []) : steps (below path names) = FileTree.names path ++ names := by
  rcases List.eq_nil_or_concat names with hnil | ⟨above, name, rfl⟩
  · exact absurd hnil hne
  rw [List.concat_eq_append, List.forall_mem_append, List.forall_mem_singleton] at hnames
  rw [List.concat_eq_append, below_append_singleton,
    steps_join (below_ne_empty hpath hnames.1) hnames.2, names_below hpath hnames.1, List.append_assoc]

end Path

/-! ### Where paths lead -/

namespace FileTree

variable {t : FileTree} {root : RawText} {place names q : List RawText}

theorem exists_run_names_of_resolve (hroot : t.resolve .target root = .ok (.taken place))
    (hview : t.top.view place = some .directory) :
    ∃ k, Run t.top.view (t.base root, FileTree.names root) k (place, []) := by
  obtain ⟨k, r, -, hrun, hr⟩ := exists_run_of_isDirectory (isDirectory_iff.mpr ⟨place, hroot, hview⟩)
  obtain ⟨k', -, hsteps⟩ := exists_run_of_resolve_taken hroot
  have hall := hrun.steps_of_names hr
  obtain ⟨rfl, -⟩ := hsteps.unique hall
  exact ⟨k, hrun⟩

theorem Run.eq_append_of_directory {top : Node} {k : Nat}
    (hnames : ∀ name ∈ names, IsFileName name) (hview : top.view (place ++ names) = some .directory)
    (h : Run top.view (place, names) k (q, [])) : q = place ++ names := by
  induction names generalizing place k with
  | nil =>
    obtain ⟨rfl, -⟩ := h.unique (.done _)
    exact (List.append_nil q).symm
  | cons name rest ih =>
    obtain ⟨hname, hrest⟩ := List.forall_mem_cons.mp hnames
    have hdir : top.view (place ++ [name]) = some .directory := by
      by_cases hend : rest = []
      · rwa [hend] at hview
      · have hsome : top.view (place ++ ([name] ++ rest)) ≠ none := by
          rw [List.singleton_append, hview]
          exact Option.some_ne_none _
        exact Node.view_of_prefix hend hsome
    have hsplit : place ++ name :: rest = place ++ [name] ++ rest :=
      List.append_cons place name rest
    rw [hsplit] at hview ⊢
    cases h with
    | step hstep hrun =>
      obtain ⟨hplace, hsize, -⟩ := of_next?_name hname.isName hstep
      rw [next?_of_directory hplace hname.isName hsize hdir] at hstep
      cases hstep
      exact ih hrest hview hrun

theorem eq_of_resolve_below (ht : t.top.WellNamed) (hroot : t.resolve .target root = .ok (.taken place))
    (hview : t.top.view (place ++ names) = some .directory)
    (h : t.resolve .target (Path.below root names) = .ok (.taken q)) : q = place ++ names := by
  by_cases hne : names = []
  · subst hne
    rw [List.append_nil]
    exact Spot.taken.inj (Except.ok.inj (h.symm.trans hroot))
  have hplace : t.top.view place = some .directory := by
    have hsome : t.top.view (place ++ ([] ++ names)) ≠ none := by
      rw [List.nil_append, hview]
      exact Option.some_ne_none _
    have hprefix := Node.view_of_prefix hne hsome
    rwa [List.append_nil] at hprefix
  have hnames : ∀ name ∈ names, IsFileName name := by
    obtain ⟨es, hes⟩ := exists_at?_of_view_directory hview
    exact fun name hname => (ht.of_at? hes).2 name (List.mem_append_right place hname)
  have hempty : root ≠ "" := (allowed_of_resolveSteps hroot).1
  obtain ⟨k, -, hrun⟩ := exists_run_of_resolve_taken h
  rw [Path.base_below hempty hnames, Path.steps_below hempty hnames hne] at hrun
  -- the walk goes over the place of the root, and from there name by name
  obtain ⟨d, k', k'', hto, hfrom, -⟩ := hrun.split
  obtain ⟨k₀, hplaceRun⟩ := exists_run_names_of_resolve hroot hplace
  obtain ⟨rfl, -⟩ := hto.unique hplaceRun
  exact hfrom.eq_append_of_directory hnames hview

theorem not_isFile_of_directory (ht : t.top.WellNamed)
    (hroot : t.resolve .target root = .ok (.taken place))
    (hview : t.top.view (place ++ names) = some .directory) :
    ¬ t.isFile (Path.below root names) = true := by
  intro hfile
  obtain ⟨content, hread⟩ := isFile_iff.mp hfile
  obtain ⟨q, hq, hcontent⟩ := read_eq_ok_iff.mp hread
  rw [eq_of_resolve_below ht hroot hview hq, hview] at hcontent
  cases hcontent

/-! ### Entries that are no links -/

section

variable {top : Node}

theorem walkTo_target_of_entry {jump jump' : RawText → List RawText → List RawText → Except IoError Spot}
    (hq : ∀ target, top.at? q ≠ some (.link target))
    (hjump : ∀ target place rest, jump target place rest = .ok (.taken q) →
      jump' target place rest = .ok (.taken q)) {place ss : List RawText}
    (h : walkTo top .entry jump place ss = .ok (.taken q)) :
    walkTo top .target jump' place ss = .ok (.taken q) := by
  induction ss generalizing place with
  | nil => exact h
  | cons step rest ih =>
    rw [walkTo] at h ⊢
    cases hat : top.at? place with
    | none =>
      rw [hat] at h
      cases h
    | some n =>
      rw [hat] at h
      cases n with
      | file content => cases h
      | link target => cases h
      | directory es =>
        dsimp only at h ⊢
        rw [if_neg (by simp)] at h ⊢
        by_cases hstay : (step = "" || step = ".") = true
        · rw [if_pos hstay] at h ⊢
          exact ih h
        rw [if_neg hstay] at h ⊢
        by_cases hup : step = ".."
        · rw [if_pos hup] at h ⊢
          exact ih h
        rw [if_neg hup] at h ⊢
        by_cases hsize : maxNameSize < step.size
        · rw [if_pos hsize] at h
          cases h
        rw [if_neg hsize] at h ⊢
        cases hlookup : es.lookup step with
        | none =>
          rw [hlookup] at h
          exact h
        | some child =>
          rw [hlookup] at h
          cases child with
          | file content => exact ih h
          | directory fs => exact ih h
          | link target =>
            dsimp only at h ⊢
            rw [if_neg (by simp)]
            by_cases hend : (rest.isEmpty && Access.entry = .entry) = true
            · rw [if_pos hend] at h
              cases h
              rw [Node.at?_append, hat, Option.bind_some, Node.at?_directory_cons, hlookup] at hq
              exact absurd rfl (hq target)
            · rw [if_neg hend] at h
              exact hjump target place rest h

theorem walk_target_of_entry (hq : ∀ target, top.at? q ≠ some (.link target)) {links : Nat}
    {place ss : List RawText} (h : walk top .entry links place ss = .ok (.taken q)) :
    walk top .target links place ss = .ok (.taken q) := by
  induction links generalizing place ss with
  | zero =>
    refine walkTo_target_of_entry hq ?_ h
    intro target place rest hjump
    cases hjump
  | succ links ih =>
    refine walkTo_target_of_entry hq ?_ h
    intro target place rest hjump
    exact ih hjump

end

theorem resolve_target_of_entry (hq : ∀ target, t.top.at? q ≠ some (.link target))
    (h : t.resolve .entry root = .ok (.taken q)) : t.resolve .target root = .ok (.taken q) := by
  rw [resolve_of_allowed (allowed_of_resolveSteps h)]
  exact walk_target_of_entry hq (walk_of_resolve h)

end FileTree

end LogTemplate
