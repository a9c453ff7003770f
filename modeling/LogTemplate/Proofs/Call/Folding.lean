import LogTemplate.Call.Text

/-! The text of an expression by recursion over the expression, and its agreement with the work
stack. -/

namespace LogTemplate

variable {ε : Type} [Host ε]

theorem Host.size_lt_of_mem {e x : ε} {es : List ε} (h : Host.operands? e = some es)
    (hx : x ∈ es) : Host.size x < Host.size e :=
  Nat.le_trans (le_total_of_mem (Host.size · + 1) hx) (Host.operands_size e es h)

/-- A constant text as it is; else the texts of the operands in order, if all of them have one. -/
def foldText (e : ε) : Option String :=
  match Host.text? e with
  | some text => some text
  | none =>
    match _h : Host.operands? e with
    | none => none
    | some es => (es.attach.mapM fun x => foldText x.1).map String.join
termination_by Host.size e
decreasing_by exact Host.size_lt_of_mem _h x.2

theorem foldText_of_text {e : ε} {text : String} (h : Host.text? e = some text) :
    foldText e = some text := by
  rw [foldText, h]

theorem foldText_of_none {e : ε} (ht : Host.text? e = none) (ho : Host.operands? e = none) :
    foldText e = none := by
  rw [foldText, ht]
  dsimp only
  split
  · rfl
  · next es hes => rw [ho] at hes; exact absurd hes (by simp)

theorem foldText_of_operands {e : ε} {es : List ε} (ht : Host.text? e = none)
    (ho : Host.operands? e = some es) : foldText e = (es.mapM foldText).map String.join := by
  rw [foldText, ht]
  dsimp only
  split
  · next hnone => rw [ho] at hnone; exact absurd hnone (by simp)
  · next fs hfs =>
    obtain rfl : es = fs := Option.some.inj (ho.symm.trans hfs)
    rw [List.mapM_subtype fun _ _ => rfl, List.unattach_attach]

/-! ### The stack -/

theorem runSteps_operands (es : List ε)
    (ih : ∀ x ∈ es, ∀ (steps : List (Step ε)) values,
      runSteps (.resolve x :: steps) values =
        (foldText x).bind fun text => runSteps steps (text :: values))
    (steps : List (Step ε)) (values : List String) :
    runSteps (es.map .resolve ++ steps) values =
      (es.mapM foldText).bind fun texts => runSteps steps (texts.reverse ++ values) := by
  induction es generalizing values with
  | nil => rfl
  | cons e es ihes =>
    have ihes := ihes fun x hx => ih x (List.mem_cons_of_mem _ hx)
    rw [List.map_cons, List.cons_append, ih e (List.mem_cons_self ..), List.mapM_cons]
    cases he : foldText e with
    | none => rfl
    | some text =>
      change runSteps (es.map .resolve ++ steps) (text :: values) = _
      rw [ihes]
      cases htexts : es.mapM foldText with
      | none => rfl
      | some texts =>
        change runSteps steps (texts.reverse ++ text :: values) =
          runSteps steps ((text :: texts).reverse ++ values)
        rw [List.reverse_cons, List.append_assoc, List.singleton_append]

theorem length_of_mapM {α β : Type} {f : α → Option β} {as : List α} {bs : List β}
    (h : as.mapM f = some bs) : bs.length = as.length := by
  induction as generalizing bs with
  | nil =>
    obtain rfl : [] = bs := Option.some.inj h
    rfl
  | cons a as ih =>
    rw [List.mapM_cons] at h
    obtain ⟨b, -, h⟩ := Option.bind_eq_some_iff.1 h
    obtain ⟨rest, hrest, h⟩ := Option.bind_eq_some_iff.1 h
    obtain rfl : b :: rest = bs := Option.some.inj h
    rw [List.length_cons, List.length_cons, ih hrest]

theorem runSteps_join (texts values : List String) (steps : List (Step ε)) :
    runSteps (.join texts.length :: steps) (texts.reverse ++ values) =
      runSteps steps (String.join texts :: values) := by
  have hlength : texts.reverse.length = texts.length := List.length_reverse
  have htake : (texts.reverse ++ values).take texts.length = texts.reverse := by
    rw [← hlength, List.take_left]
  have hdrop : (texts.reverse ++ values).drop texts.length = values := by
    rw [← hlength, List.drop_left]
  have hlt : ¬ (texts.reverse ++ values).length < texts.length := by
    rw [List.length_append, hlength]
    omega
  rw [runSteps, if_neg hlt, htake, hdrop, List.reverse_reverse]

theorem runSteps_resolve (e : ε) (steps : List (Step ε)) (values : List String) :
    runSteps (.resolve e :: steps) values =
      (foldText e).bind fun text => runSteps steps (text :: values) := by
  -- for all steps and values behind, since operands are expanded onto them
  induction hn : Host.size e using Nat.strongRecOn generalizing e steps values with
  | _ n ih =>
    rw [runSteps]
    split
    · next text ht => rw [foldText_of_text ht]; rfl
    · next ht =>
      split
      · next es ho =>
        have ihes : ∀ x ∈ es, ∀ (steps : List (Step ε)) values,
            runSteps (.resolve x :: steps) values =
              (foldText x).bind fun text => runSteps steps (text :: values) :=
          fun x hx steps values => ih _ (hn ▸ Host.size_lt_of_mem ho hx) x steps values rfl
        rw [foldText_of_operands ht ho, Step.expand, List.append_assoc, runSteps_operands es ihes]
        cases htexts : es.mapM foldText with
        | none => rfl
        | some texts =>
          change runSteps (.join es.length :: steps) (texts.reverse ++ values) =
            runSteps steps (String.join texts :: values)
          rw [← length_of_mapM htexts, runSteps_join]
      · next ho => rw [foldText_of_none ht ho]; rfl

theorem textOf_eq_foldText (e : ε) : textOf e = foldText e := by
  rw [textOf, runSteps_resolve]
  cases foldText e with
  | none => rfl
  | some text => rw [Option.bind_some, runSteps, List.head?_cons]

end LogTemplate
