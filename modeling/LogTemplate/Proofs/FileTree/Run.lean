import LogTemplate.Proofs.FileTree.View
import Mathlib.Tactic.SplitIfs

/-! How a path is walked, step by step. A stage of a walk is the place it has come to and the steps
still to go; each stage has at most one next one, and links are counted. What is known of the stages
does not depend on the steps behind those that are looked at. -/

namespace LogTemplate.FileTree

abbrev View := List RawText → Option Label

abbrev Stage := List RawText × List RawText

def linkBase (target : RawText) (place : List RawText) : List RawText :=
  if Path.isAbsolute target then [] else place

def IsName (step : RawText) : Prop := step ≠ "" ∧ step ≠ "." ∧ step ≠ ".."

instance (step : RawText) : Decidable (IsName step) := inferInstanceAs (Decidable (_ ∧ _ ∧ _))

/-- The next stage of a walk, with the number of links that lead there. -/
def next? (v : View) : Stage → Option (Nat × Stage)
  | (_, []) => none
  | (place, step :: rest) =>
    if v place ≠ some .directory then none
    else if step = "" ∨ step = "." then some (0, place, rest)
    else if step = ".." then some (0, place.dropLast, rest)
    else if maxNameSize < step.size then none
    else match v (place ++ [step]) with
      | none => none
      | some (.link target) => some (1, linkBase target place, steps target ++ rest)
      | some _ => some (0, place ++ [step], rest)

/-- A walk from one stage to another through as many links as the number says. -/
inductive Run (v : View) : Stage → Nat → Stage → Prop where
  | done (s : Stage) : Run v s 0 s
  | step {s s' s'' : Stage} {k n : Nat} (hstep : next? v s = some (k, s')) (hrun : Run v s' n s'') :
      Run v s (k + n) s''

variable {v : View}

theorem next?_eq_none_of_ne_directory {place : List RawText} (h : v place ≠ some .directory)
    (ss : List RawText) : next? v (place, ss) = none := by
  cases ss with
  | nil => rfl
  | cons step rest => exact if_pos h

theorem next?_append (v : View) (place : List RawText) (step : RawText) (rest later : List RawText) :
    next? v (place, step :: rest ++ later)
      = (next? v (place, step :: rest)).map fun r => (r.1, r.2.1, r.2.2 ++ later) := by
  rw [List.cons_append, next?, next?]
  split_ifs with hplace hstay hup hsize
  · rfl
  · rfl
  · rfl
  · rfl
  · cases v (place ++ [step]) with
    | none => rfl
    | some l =>
      cases l with
      | link target => simp only [Option.map_some, List.append_assoc]
      | file content => rfl
      | directory => rfl

/-! ### Runs -/

theorem Run.trans {s s' s'' : Stage} {k n : Nat} (h : Run v s k s') (h' : Run v s' n s'') :
    Run v s (k + n) s'' := by
  induction h with
  | done s => rwa [Nat.zero_add]
  | step hstep _ ih =>
    rw [Nat.add_assoc]
    exact .step hstep (ih h')

theorem Run.append {place place' ss ss' : List RawText} {k : Nat}
    (h : Run v (place, ss) k (place', ss')) (later : List RawText) :
    Run v (place, ss ++ later) k (place', ss' ++ later) := by
  generalize hs : (place, ss) = s at h
  generalize hs' : (place', ss') = s' at h
  induction h generalizing place ss with
  | done s =>
    rw [← hs] at hs'
    cases hs'
    exact .done _
  | @step s s₁ s' k n hstep _ ih =>
    subst hs hs'
    cases ss with
    | nil => cases hstep
    | cons first rest =>
      have hnext := next?_append v place first rest later
      rw [hstep] at hnext
      exact .step hnext (ih rfl rfl)

theorem Run.split {place q : List RawText} {ss later : List RawText} {k : Nat}
    (h : Run v (place, ss ++ later) k (q, [])) :
    ∃ q' k' k'', Run v (place, ss) k' (q', []) ∧ Run v (q', later) k'' (q, []) ∧ k = k' + k'' := by
  generalize hs : (place, ss ++ later) = s at h
  generalize hs' : (q, ([] : List RawText)) = s' at h
  induction h generalizing place ss with
  | done s =>
    subst hs'
    obtain ⟨rfl, hnil⟩ := Prod.mk.inj hs
    obtain ⟨rfl, rfl⟩ := List.append_eq_nil_iff.mp hnil
    exact ⟨place, 0, 0, .done _, .done _, rfl⟩
  | @step s s₁ s' k n hstep hrun ih =>
    subst hs hs'
    cases ss with
    | nil => exact ⟨place, 0, k + n, .done _, .step hstep hrun, (Nat.zero_add _).symm⟩
    | cons first rest =>
      rw [next?_append] at hstep
      obtain ⟨⟨k₁, place₁, ss₁⟩, hfirst, heq⟩ := Option.map_eq_some_iff.mp hstep
      cases heq
      obtain ⟨q', k', k'', hhead, htail, hk⟩ := ih rfl rfl
      exact ⟨q', k₁ + k', k'', .step hfirst hhead, htail, by rw [hk, Nat.add_assoc]⟩

theorem Run.rest {s s' : Stage} {q : List RawText} {k k' : Nat} (h : Run v s k (q, []))
    (h' : Run v s k' s') : ∃ k'', Run v s' k'' (q, []) ∧ k = k' + k'' := by
  induction h' generalizing k with
  | done s => exact ⟨k, h, (Nat.zero_add k).symm⟩
  | step hstep _ ih =>
    cases h with
    | done => cases hstep
    | step hstep' hrun =>
      -- there is only one next stage, so both runs go there
      rw [hstep] at hstep'
      cases hstep'
      obtain ⟨k'', hrest, hk⟩ := ih hrun
      exact ⟨k'', hrest, by rw [hk, Nat.add_assoc]⟩

theorem Run.eq_of_ne_directory {place q : List RawText} {rest : List RawText} {k : Nat}
    (h : Run v (place, rest) k (q, [])) (hplace : v place ≠ some .directory) :
    rest = [] ∧ q = place ∧ k = 0 := by
  cases h with
  | done => exact ⟨rfl, rfl, rfl⟩
  | step hstep _ =>
    rw [next?_eq_none_of_ne_directory hplace] at hstep
    cases hstep

theorem Run.unique {s : Stage} {q q' : List RawText} {k k' : Nat} (h : Run v s k (q, []))
    (h' : Run v s k' (q', [])) : q = q' ∧ k = k' := by
  obtain ⟨k'', hrest, hk⟩ := h.rest h'
  cases hrest with
  | done => exact ⟨rfl, by omega⟩
  | step hstep _ => cases hstep

theorem Run.transfer {v' : View} {P : Stage → Prop}
    (hP : ∀ s r, next? v s = some r → P s ∨ next? v' s = some r) {s s' : Stage} {k : Nat}
    (h : Run v s k s') :
    Run v' s k s' ∨ ∃ b k' k'', P b ∧ Run v s k' b ∧ Run v b k'' s' ∧ k = k' + k'' := by
  induction h with
  | done s => exact .inl (.done s)
  | @step s s₁ s' k n hstep hrun ih =>
    rcases hP s _ hstep with hs | hsame
    · exact .inr ⟨s, 0, k + n, hs, .done s, .step hstep hrun, (Nat.zero_add _).symm⟩
    · rcases ih with ih | ⟨b, k', k'', hb, hto, hfrom, hk⟩
      · exact .inl (.step hsame ih)
      · exact .inr ⟨b, k + k', k'', hb, .step hstep hto, hfrom, by rw [hk, Nat.add_assoc]⟩

/-! ### Changes of a view -/

structure LooksUp (v : View) (above : List RawText) (name : RawText) (s : Stage) : Prop where
  directory : v above = some .directory
  isName : IsName name
  size_le : name.size ≤ maxNameSize
  stage : ∃ rest, s = (above, name :: rest)

theorem next?_update {above : List RawText} {name : RawText}
    (hold : v (above ++ [name]) ≠ some .directory) (l : Option Label) (s : Stage)
    (r : Nat × Stage) (h : next? v s = some r) :
    LooksUp v above name s ∨ next? (Function.update v (above ++ [name]) l) s = some r := by
  obtain ⟨place, ss⟩ := s
  cases ss with
  | nil => cases h
  | cons step rest =>
    by_cases hplace : v place = some .directory
    · have hne : place ≠ above ++ [name] := by
        rintro rfl
        exact hold hplace
      -- the stage looks at two places: where it is, and the entry of its next step
      by_cases hstep : place ++ [step] = above ++ [name]
      · obtain ⟨rfl, hname⟩ := List.append_inj' hstep rfl
        cases hname
        rw [next?] at h ⊢
        rw [Function.update_of_ne hne]
        split_ifs at h ⊢ with hdir hstay hup hsize
        · exact .inr h
        · exact .inr h
        · rw [not_or] at hstay
          exact .inl ⟨hplace, ⟨hstay.1, hstay.2, hup⟩, Nat.le_of_not_lt hsize, rest, rfl⟩
      · right
        rw [next?] at h ⊢
        rw [Function.update_of_ne hne, Function.update_of_ne hstep]
        exact h
    · rw [next?_eq_none_of_ne_directory hplace] at h
      cases h

theorem next?_of_link {place rest : List RawText} {name target : RawText}
    (hplace : v place = some .directory) (hname : IsName name)
    (hsize : name.size ≤ maxNameSize) (hlink : v (place ++ [name]) = some (.link target)) :
    next? v (place, name :: rest) = some (1, linkBase target place, steps target ++ rest) := by
  rw [next?, if_neg (not_not_intro hplace), if_neg (not_or.mpr ⟨hname.1, hname.2.1⟩),
    if_neg hname.2.2, if_neg (Nat.not_lt_of_le hsize), hlink]

theorem next?_of_file {place rest : List RawText} {name : RawText} {content : List UInt8}
    (hplace : v place = some .directory) (hname : IsName name)
    (hsize : name.size ≤ maxNameSize) (hfile : v (place ++ [name]) = some (.file content)) :
    next? v (place, name :: rest) = some (0, place ++ [name], rest) := by
  rw [next?, if_neg (not_not_intro hplace), if_neg (not_or.mpr ⟨hname.1, hname.2.1⟩),
    if_neg hname.2.2, if_neg (Nat.not_lt_of_le hsize), hfile]

theorem next?_of_directory {place rest : List RawText} {name : RawText}
    (hplace : v place = some .directory) (hname : IsName name)
    (hsize : name.size ≤ maxNameSize) (hdir : v (place ++ [name]) = some .directory) :
    next? v (place, name :: rest) = some (0, place ++ [name], rest) := by
  rw [next?, if_neg (not_not_intro hplace), if_neg (not_or.mpr ⟨hname.1, hname.2.1⟩),
    if_neg hname.2.2, if_neg (Nat.not_lt_of_le hsize), hdir]

theorem next?_of_none {place rest : List RawText} {name : RawText} (hname : IsName name)
    (hfree : v (place ++ [name]) = none) : next? v (place, name :: rest) = none := by
  rw [next?]
  split_ifs with hplace hstay hup hsize
  · rfl
  · exact absurd hstay (not_or.mpr ⟨hname.1, hname.2.1⟩)
  · exact absurd hup hname.2.2
  · rfl
  · rw [hfree]

theorem of_next?_name {place rest : List RawText} {name : RawText} {r : Nat × Stage}
    (hname : IsName name) (h : next? v (place, name :: rest) = some r) :
    v place = some .directory ∧ name.size ≤ maxNameSize ∧ v (place ++ [name]) ≠ none := by
  by_cases hfree : v (place ++ [name]) = none
  · rw [next?_of_none hname hfree] at h
    cases h
  rw [next?] at h
  split_ifs at h with hplace hstay hup hsize
  · exact absurd hstay (not_or.mpr ⟨hname.1, hname.2.1⟩)
  · exact absurd hup hname.2.2
  · exact ⟨not_not.mp hplace, Nat.le_of_not_lt hsize, hfree⟩

theorem Run.directory_of_cons {place q : List RawText} {step : RawText} {rest : List RawText} {k : Nat}
    (h : Run v (place, step :: rest) k (q, [])) : v place = some .directory := by
  by_contra hplace
  cases h.eq_of_ne_directory hplace |>.1

theorem Run.updated {above : List RawText} {name : RawText}
    (hold : v (above ++ [name]) ≠ some .directory) (l : Option Label) {s s' : Stage} {k : Nat}
    (h : Run v s k s') :
    Run (Function.update v (above ++ [name]) l) s k s' ∨
      ∃ b k' k'', LooksUp v above name b ∧ Run v s k' b ∧ Run v b k'' s' ∧ k = k' + k'' :=
  h.transfer (next?_update hold l)

/-- What one view shows another shows as well, but for the contents of files. -/
def Shows (v v' : View) : Prop :=
  ∀ place l, v place = some l →
    v' place = some l ∨ ∃ c c', l = .file c ∧ v' place = some (.file c')

theorem next?_of_shows {v' : View} (hv : Shows v v') {s : Stage} {r : Nat × Stage}
    (h : next? v s = some r) : next? v' s = some r := by
  obtain ⟨place, ss⟩ := s
  cases ss with
  | nil => cases h
  | cons step rest =>
    by_cases hplace : v place = some .directory
    · have hplace' : v' place = some .directory := by
        rcases hv place _ hplace with h' | ⟨c, c', hc, -⟩
        · exact h'
        · cases hc
      rw [next?, if_neg (not_not_intro hplace)] at h
      rw [next?, if_neg (not_not_intro hplace')]
      split_ifs at h ⊢ with hstay hup hsize
      · exact h
      · exact h
      · cases hl : v (place ++ [step]) with
        | none =>
          rw [hl] at h
          cases h
        | some l =>
          rw [hl] at h
          rcases hv _ l hl with h' | ⟨c, c', rfl, h'⟩
          · rw [h']
            exact h
          · rw [h']
            exact h
    · rw [next?_eq_none_of_ne_directory hplace] at h
      cases h

theorem Run.mono {v' : View} (hv : Shows v v') {s s' : Stage} {k : Nat} (h : Run v s k s') :
    Run v' s k s' := by
  induction h with
  | done s => exact .done s
  | step hstep _ ih => exact .step (next?_of_shows hv hstep) ih

end LogTemplate.FileTree
