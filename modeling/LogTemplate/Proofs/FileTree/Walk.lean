import LogTemplate.Proofs.FileTree.Run

/-! The walk of a path and the runs of its stages: what one finds the other does, within the bound
on links. -/

namespace LogTemplate.FileTree

theorem exists_at?_of_view_directory {top : Node} {place : List RawText}
    (h : top.view place = some .directory) : ∃ es, top.at? place = some (.directory es) := by
  unfold Node.view at h
  obtain ⟨n, hn, hlabel⟩ := Option.map_eq_some_iff.mp h
  cases n with
  | file content => cases hlabel
  | link target => cases hlabel
  | directory es => exact ⟨es, hn⟩

section

variable {top : Node} {access : Access}
  {jump : RawText → List RawText → List RawText → Except IoError Spot}

theorem walkTo_of_next? (jump : RawText → List RawText → List RawText → Except IoError Spot)
    {place place' ss rest : List RawText} {step : RawText} {k : Nat}
    (haccess : access = .target ∨ access = .entry ∧ rest ≠ [])
    (h : next? top.view (place, step :: rest) = some (k, place', ss)) :
    k = 0 ∧ walkTo top access jump place (step :: rest) = walkTo top access jump place' ss ∨
      ∃ target, k = 1 ∧ place' = linkBase target place ∧ ss = steps target ++ rest ∧
        walkTo top access jump place (step :: rest) = jump target place rest := by
  have houtput : ¬ (access = .output && rest = [("" : RawText)]) = true := by
    rcases haccess with rfl | ⟨rfl, -⟩ <;> simp
  have hentry : ¬ (rest.isEmpty && access = .entry) = true := by
    rcases haccess with rfl | ⟨rfl, hrest⟩
    · simp
    · simp [hrest]
  have hlook (l : Label) (es : List (RawText × Node)) (hes : top.at? place = some (.directory es))
      (hl : top.view (place ++ [step]) = some l) : ∃ n, es.lookup step = some n ∧ n.label = l := by
    rw [Node.view_append_singleton hes] at hl
    exact Option.map_eq_some_iff.mp hl
  rw [next?] at h
  split_ifs at h with hplace hstay hup hsize
  all_goals rw [not_not] at hplace
  all_goals obtain ⟨es, hes⟩ := exists_at?_of_view_directory hplace
  all_goals rw [walkTo, hes]
  all_goals dsimp only
  all_goals rw [if_neg houtput]
  · cases h
    have hcond : (step = "" || step = ".") = true := by simpa using hstay
    rw [if_pos hcond]
    exact .inl ⟨rfl, rfl⟩
  · cases h
    have hcond : ¬ (step = "" || step = ".") = true := by simpa using hstay
    rw [if_neg hcond, if_pos hup]
    exact .inl ⟨rfl, rfl⟩
  · have hcond : ¬ (step = "" || step = ".") = true := by simpa using hstay
    rw [if_neg hcond, if_neg hup, if_neg hsize]
    cases hl : top.view (place ++ [step]) with
    | none =>
      rw [hl] at h
      cases h
    | some l =>
      rw [hl] at h
      obtain ⟨n, hn, rfl⟩ := hlook l es hes hl
      rw [hn]
      cases n with
      | file content =>
        cases h
        exact .inl ⟨rfl, rfl⟩
      | directory fs =>
        cases h
        exact .inl ⟨rfl, rfl⟩
      | link target =>
        cases h
        dsimp only
        rw [if_neg hentry]
        exact .inr ⟨target, rfl, rfl, rfl, rfl⟩

theorem next?_of_walkTo {place rest : List RawText} {step : RawText} {spot : Spot}
    (h : walkTo top access jump place (step :: rest) = .ok spot) :
    (∃ place', next? top.view (place, step :: rest) = some (0, place', rest) ∧
      walkTo top access jump place' rest = .ok spot) ∨
    (∃ target, next? top.view (place, step :: rest)
        = some (1, linkBase target place, steps target ++ rest) ∧
      (access = .entry → rest ≠ []) ∧ jump target place rest = .ok spot) ∨
    (rest = [] ∧ top.view place = some .directory ∧ top.view (place ++ [step]) = none ∧
      step.size ≤ maxNameSize ∧ IsName step ∧ spot = .free place step) ∨
    rest = [] ∧ access = .entry ∧ top.view place = some .directory ∧
      top.view (place ++ [step]) ≠ none ∧ spot = .taken (place ++ [step]) := by
  rw [walkTo] at h
  cases hat : top.at? place with
  | none =>
    rw [hat] at h
    cases h
  | some n =>
    rw [hat] at h
    cases n with
    | file content => cases h
    | link target => cases h
    | directory es =>
      have hplace : top.view place = some .directory := by
        unfold Node.view
        rw [hat]
        rfl
      have hview := Node.view_append_singleton hat step
      dsimp only at h
      rw [next?, if_neg (not_not_intro hplace)]
      by_cases houtput : (access = .output && rest = [("" : RawText)]) = true
      · rw [if_pos houtput] at h
        cases h
      rw [if_neg houtput] at h
      by_cases hstay : step = "" ∨ step = "."
      · rw [if_pos (by simpa using hstay)] at h
        rw [if_pos hstay]
        exact .inl ⟨place, rfl, h⟩
      rw [if_neg (by simpa using hstay)] at h
      rw [if_neg hstay]
      by_cases hup : step = ".."
      · rw [if_pos hup] at h
        rw [if_pos hup]
        exact .inl ⟨place.dropLast, rfl, h⟩
      rw [if_neg hup] at h
      rw [if_neg hup]
      by_cases hsize : maxNameSize < step.size
      · rw [if_pos hsize] at h
        cases h
      rw [if_neg hsize] at h
      rw [if_neg hsize, hview]
      cases hlookup : es.lookup step with
      | none =>
        rw [hlookup] at h hview
        dsimp only at h
        by_cases hrest : rest.isEmpty = true
        · rw [if_pos hrest] at h
          cases h
          rw [not_or] at hstay
          right; right; left
          exact ⟨List.isEmpty_iff.mp hrest, hplace, rfl, Nat.le_of_not_lt hsize,
            ⟨hstay.1, hstay.2, hup⟩, rfl⟩
        · rw [if_neg hrest] at h
          cases h
      | some child =>
        rw [hlookup] at h hview
        cases child with
        | file content => exact .inl ⟨place ++ [step], rfl, h⟩
        | directory fs => exact .inl ⟨place ++ [step], rfl, h⟩
        | link target =>
          dsimp only at h
          by_cases hend : (rest.isEmpty && access = .entry) = true
          · rw [if_pos hend] at h
            cases h
            rw [Bool.and_eq_true, decide_eq_true_eq] at hend
            right; right; right
            exact ⟨List.isEmpty_iff.mp hend.1, hend.2, hplace, Option.some_ne_none _, rfl⟩
          · rw [if_neg hend] at h
            right; left
            refine ⟨target, rfl, ?_, h⟩
            rintro rfl rfl
            exact hend rfl

/-- How a stage ends a walk. -/
inductive Ends (v : View) : Stage → Spot → Prop where
  | taken (place : List RawText) : Ends v (place, []) (.taken place)
  | free {place : List RawText} {name : RawText} (hplace : v place = some .directory)
      (hname : IsName name) (hsize : name.size ≤ maxNameSize)
      (hfree : v (place ++ [name]) = none) : Ends v (place, [name]) (.free place name)

theorem exists_run_of_walkTo (haccess : access ≠ .entry) {links : Nat}
    (hjump : ∀ target place rest spot, jump target place rest = .ok spot →
      ∃ k s, k + 1 ≤ links ∧ Run top.view (linkBase target place, steps target ++ rest) k s ∧
        Ends top.view s spot)
    {place ss : List RawText} {spot : Spot} (h : walkTo top access jump place ss = .ok spot) :
    ∃ k s, k ≤ links ∧ Run top.view (place, ss) k s ∧ Ends top.view s spot := by
  induction ss generalizing place with
  | nil =>
    cases h
    exact ⟨0, _, Nat.zero_le _, .done _, .taken place⟩
  | cons step rest ih =>
    rcases next?_of_walkTo h with ⟨place', hnext, hrest⟩ | ⟨target, hnext, -, hrest⟩ |
      ⟨rfl, hplace, hfree, hsize, hname, rfl⟩ | ⟨-, hentry, -⟩
    · obtain ⟨k, s, hk, hrun, hend⟩ := ih hrest
      exact ⟨0 + k, s, by rwa [Nat.zero_add], .step hnext hrun, hend⟩
    · obtain ⟨k, s, hk, hrun, hend⟩ := hjump target place rest spot hrest
      exact ⟨1 + k, s, by rwa [Nat.add_comm], .step hnext hrun, hend⟩
    · exact ⟨0, _, Nat.zero_le _, .done _, .free hplace hname hsize hfree⟩
    · exact absurd hentry haccess

theorem exists_run_of_walk (haccess : access ≠ .entry) {links : Nat} {place ss : List RawText}
    {spot : Spot} (h : walk top access links place ss = .ok spot) :
    ∃ k s, k ≤ links ∧ Run top.view (place, ss) k s ∧ Ends top.view s spot := by
  -- each link leaves one less for what comes behind it
  induction links generalizing place ss spot with
  | zero =>
    refine exists_run_of_walkTo haccess ?_ h
    intro target place rest spot hjump
    cases hjump
  | succ links ih =>
    refine exists_run_of_walkTo haccess ?_ h
    intro target place rest spot hjump
    obtain ⟨k, s, hk, hrun, hend⟩ := ih hjump
    exact ⟨k, s, Nat.succ_le_succ hk, hrun, hend⟩

def Entry (v : View) (place : List RawText) (name : RawText) (spot : Spot) : Prop :=
  v place = some .directory ∧
    (v (place ++ [name]) = none ∧ spot = .free place name ∨
      v (place ++ [name]) ≠ none ∧ spot = .taken (place ++ [name]))

theorem exists_run_of_walkTo_entry {name : RawText} (hname : IsName name) {links : Nat}
    (hjump : ∀ target place ss spot, jump target place (ss ++ [name]) = .ok spot →
      ∃ k q, k + 1 ≤ links ∧ Run top.view (linkBase target place, steps target ++ ss) k (q, []) ∧
        Entry top.view q name spot)
    {place ss : List RawText} {spot : Spot}
    (h : walkTo top .entry jump place (ss ++ [name]) = .ok spot) :
    ∃ k q, k ≤ links ∧ Run top.view (place, ss) k (q, []) ∧ Entry top.view q name spot := by
  -- the name stays behind all steps, also behind those of a link on the way
  induction ss generalizing place with
  | nil =>
    refine ⟨0, place, Nat.zero_le _, .done _, ?_⟩
    rcases next?_of_walkTo h with ⟨place', hnext, hrest⟩ | ⟨target, -, hrest, -⟩ |
      ⟨-, hplace, hfree, -, -, rfl⟩ | ⟨-, -, hplace, htaken, rfl⟩
    · rw [next?] at hnext
      split_ifs at hnext with hplace hstay hup hsize
      · exact absurd hstay (not_or.mpr ⟨hname.1, hname.2.1⟩)
      · exact absurd hup hname.2.2
      · rw [not_not] at hplace
        cases hl : top.view (place ++ [name]) with
        | none =>
          rw [hl] at hnext
          cases hnext
        | some l =>
          rw [hl] at hnext
          have hplace' : place' = place ++ [name] := by
            cases l with
            | link target => cases hnext
            | file content =>
              cases hnext
              rfl
            | directory =>
              cases hnext
              rfl
          subst hplace'
          cases hrest
          exact ⟨hplace, .inr ⟨by rw [hl]; exact Option.some_ne_none l, rfl⟩⟩
    · exact absurd rfl (hrest rfl)
    · exact ⟨hplace, .inl ⟨hfree, rfl⟩⟩
    · exact ⟨hplace, .inr ⟨htaken, rfl⟩⟩
  | cons step rest ih =>
    have hlast : rest ++ [name] ≠ [] := List.append_ne_nil_of_right_ne_nil rest (List.cons_ne_nil name [])
    have hfirst {k : Nat} {place' ss' : List RawText}
        (hnext : next? top.view (place, step :: rest ++ [name]) = some (k, place', ss' ++ [name])) :
        next? top.view (place, step :: rest) = some (k, place', ss') := by
      rw [next?_append] at hnext
      obtain ⟨⟨k₁, place₁, ss₁⟩, hstep, heq⟩ := Option.map_eq_some_iff.mp hnext
      simp only [Prod.mk.injEq, List.append_cancel_right_eq] at heq
      obtain ⟨rfl, rfl, rfl⟩ := heq
      exact hstep
    rw [List.cons_append] at h
    rcases next?_of_walkTo h with ⟨place', hnext, hrest⟩ | ⟨target, hnext, -, hrest⟩ |
      ⟨hnil, -⟩ | ⟨hnil, -⟩
    · obtain ⟨k, q, hk, hrun, hend⟩ := ih hrest
      exact ⟨0 + k, q, by rwa [Nat.zero_add], .step (hfirst hnext) hrun, hend⟩
    · obtain ⟨k, q, hk, hrun, hend⟩ := hjump target place rest spot hrest
      rw [← List.append_assoc] at hnext
      exact ⟨1 + k, q, by rwa [Nat.add_comm], .step (hfirst hnext) hrun, hend⟩
    · exact absurd hnil hlast
    · exact absurd hnil hlast

theorem exists_run_of_walk_entry {name : RawText} (hname : IsName name) {links : Nat}
    {place ss : List RawText} {spot : Spot}
    (h : walk top .entry links place (ss ++ [name]) = .ok spot) :
    ∃ k q, k ≤ links ∧ Run top.view (place, ss) k (q, []) ∧ Entry top.view q name spot := by
  induction links generalizing place ss spot with
  | zero =>
    refine exists_run_of_walkTo_entry hname ?_ h
    intro target place ss spot hjump
    cases hjump
  | succ links ih =>
    refine exists_run_of_walkTo_entry hname ?_ h
    intro target place ss spot hjump
    rw [← List.append_assoc] at hjump
    obtain ⟨k, q, hk, hrun, hend⟩ := ih hjump
    exact ⟨k, q, Nat.succ_le_succ hk, hrun, hend⟩

theorem walk_of_next? {place place' ss rest : List RawText} {step : RawText} {k : Nat}
    (haccess : access = .target ∨ access = .entry ∧ rest ≠ [])
    (h : next? top.view (place, step :: rest) = some (k, place', ss)) (links : Nat) :
    walk top access (links + k) place (step :: rest) = walk top access links place' ss := by
  obtain ⟨jump, hjump⟩ : ∃ jump, walk top access links = walkTo top access jump := by
    cases links <;> exact ⟨_, rfl⟩
  rcases walkTo_of_next? jump haccess h with ⟨rfl, heq⟩ | ⟨target, rfl, rfl, rfl, -⟩
  · rw [Nat.add_zero, hjump]
    exact heq
  · rcases walkTo_of_next? (fun target place rest =>
      walk top access links (linkBase target place) (steps target ++ rest)) haccess h with
      ⟨hk, -⟩ | ⟨target', -, hplace, hss, heq⟩
    · cases hk
    · rw [hplace, hss]
      exact heq

theorem walk_of_run {place place' ss ss' later : List RawText} {k : Nat}
    (haccess : access = .target ∨ access = .entry ∧ later ≠ [])
    (h : Run top.view (place, ss) k (place', ss')) (links : Nat) :
    walk top access (links + k) place (ss ++ later) = walk top access links place' (ss' ++ later) := by
  generalize hs : (place, ss) = s at h
  generalize hs' : (place', ss') = s' at h
  induction h generalizing place ss with
  | done s =>
    rw [← hs] at hs'
    cases hs'
    rfl
  | @step s s₁ s' k n hstep _ ih =>
    subst hs hs'
    cases ss with
    | nil => cases hstep
    | cons first rest =>
      obtain ⟨place₁, ss₁⟩ := s₁
      have hnext := next?_append top.view place first rest later
      rw [hstep] at hnext
      have hlater : access = .target ∨ access = .entry ∧ rest ++ later ≠ [] :=
        haccess.imp_right fun h => ⟨h.1, List.append_ne_nil_of_right_ne_nil rest h.2⟩
      have hwalk := walk_of_next? hlater hnext (links + n)
      rw [Nat.add_comm k n, ← Nat.add_assoc]
      exact hwalk.trans (ih rfl rfl)

theorem walk_target_of_run {place ss q : List RawText} {k links : Nat}
    (h : Run top.view (place, ss) k (q, [])) (hk : k ≤ links) :
    walk top .target links place ss = .ok (.taken q) := by
  have hwalk : walk top .target (links - k + k) place (ss ++ [])
      = walk top .target (links - k) q ([] ++ []) := walk_of_run (.inl rfl) h (links - k)
  rw [Nat.sub_add_cancel hk, List.append_nil] at hwalk
  rw [hwalk]
  cases links - k <;> rfl

theorem walk_entry_of_run {place ss q : List RawText} {k links : Nat} {name : RawText}
    (h : Run top.view (place, ss) k (q, [])) (hk : k ≤ links)
    (hq : top.view q = some .directory) (hname : IsName name)
    (hsize : name.size ≤ maxNameSize) :
    ∃ spot, walk top .entry links place (ss ++ [name]) = .ok spot ∧ Entry top.view q name spot := by
  have hwalk : walk top .entry (links - k + k) place (ss ++ [name])
      = walk top .entry (links - k) q ([] ++ [name]) :=
    walk_of_run (.inr ⟨rfl, List.cons_ne_nil name []⟩) h (links - k)
  rw [Nat.sub_add_cancel hk, List.nil_append] at hwalk
  rw [hwalk]
  obtain ⟨jump, hjump⟩ : ∃ jump, walk top .entry (links - k) = walkTo top .entry jump := by
    cases links - k <;> exact ⟨_, rfl⟩
  obtain ⟨es, hes⟩ := exists_at?_of_view_directory hq
  have hview := Node.view_append_singleton hes name
  have hstay : ¬ (name = "" || name = ".") = true := by
    simpa using not_or.mpr ⟨hname.1, hname.2.1⟩
  rw [hjump, walkTo, hes]
  dsimp only
  rw [if_neg (by simp), if_neg hstay, if_neg hname.2.2, if_neg (Nat.not_lt_of_le hsize)]
  cases hlookup : es.lookup name with
  | none =>
    rw [hlookup] at hview
    exact ⟨_, rfl, hq, .inl ⟨hview, rfl⟩⟩
  | some child =>
    rw [hlookup] at hview
    have htaken : top.view (q ++ [name]) ≠ none := by
      rw [hview]
      exact Option.some_ne_none _
    cases child <;> exact ⟨_, rfl, hq, .inr ⟨htaken, rfl⟩⟩

end

end LogTemplate.FileTree
