import LogTemplate.Proofs.Call.Folding

/-! The work stack turn by turn. The steps to come and the number of texts found are in balance: no
step joins more texts than there are by then, and all steps together leave one. With each turn there
is less work, so the stack comes to an end for every expression. -/

namespace LogTemplate

structure WorkStack (ε : Type) where
  steps : List (Step ε)
  values : List String

namespace WorkStack

section

variable {ε : Type}

def start (e : ε) : WorkStack ε := ⟨[.resolve e], []⟩

/-- Steps that can be made from a number of texts and leave one. -/
def IsBalanced : List (Step ε) → Nat → Prop
  | [], count => count = 1
  | .resolve _ :: steps, count => IsBalanced steps (count + 1)
  | .join n :: steps, count => n ≤ count ∧ IsBalanced steps (count - n + 1)

def InBalance (s : WorkStack ε) : Prop := IsBalanced s.steps s.values.length

theorem inBalance_start (e : ε) : (start e).InBalance := rfl

theorem isBalanced_map_resolve_append (es : List ε) (steps : List (Step ε)) (count : Nat) :
    IsBalanced (es.map .resolve ++ steps) count ↔ IsBalanced steps (count + es.length) := by
  induction es generalizing count with
  | nil => exact Iff.rfl
  | cons e es ih =>
    have hlength : count + (e :: es).length = count + 1 + es.length := by
      rw [List.length_cons, Nat.add_assoc, Nat.add_comm 1]
    rw [hlength]
    exact ih (count + 1)

theorem isBalanced_expand_append (es : List ε) (steps : List (Step ε)) (count : Nat) :
    IsBalanced (Step.expand es ++ steps) count ↔ IsBalanced steps (count + 1) := by
  rw [Step.expand, List.append_assoc, isBalanced_map_resolve_append, List.singleton_append,
    IsBalanced, Nat.add_sub_cancel]
  exact and_iff_right (Nat.le_add_left es.length count)

end

variable {ε : Type} [Host ε]

def IsUnknown (e : ε) : Prop := Host.text? e = none ∧ Host.operands? e = none

/-- The first step is made. This is not possible if there is none, if it joins more texts than there
are, or if its expression is unknown. -/
def turn : WorkStack ε → Option (WorkStack ε)
  | ⟨[], _⟩ => none
  | ⟨.join count :: steps, values⟩ =>
    if values.length < count then none
    else some ⟨steps, String.join (values.take count).reverse :: values.drop count⟩
  | ⟨.resolve e :: steps, values⟩ =>
    match Host.text? e, Host.operands? e with
    | some text, _ => some ⟨steps, text :: values⟩
    | none, some es => some ⟨Step.expand es ++ steps, values⟩
    | none, none => none

inductive Turns : WorkStack ε → Nat → WorkStack ε → Prop
  | done (s : WorkStack ε) : Turns s 0 s
  | turn {s s' s'' : WorkStack ε} {n : Nat} (hturn : s.turn = some s') (hrest : Turns s' n s'') :
      Turns s (n + 1) s''

theorem turn_join_of_le {count : Nat} {values : List String} (h : count ≤ values.length)
    (steps : List (Step ε)) : turn ⟨.join count :: steps, values⟩
      = some ⟨steps, String.join (values.take count).reverse :: values.drop count⟩ := by
  rw [turn, if_neg (Nat.not_lt_of_le h)]

theorem turn_resolve_eq_none_iff {e : ε} {steps : List (Step ε)} {values : List String} :
    turn ⟨.resolve e :: steps, values⟩ = none ↔ IsUnknown e := by
  rw [turn, IsUnknown]
  cases Host.text? e with
  | some text => simp
  | none => cases Host.operands? e <;> simp

theorem turn_cases {s s' : WorkStack ε} (h : s.turn = some s') :
    (∃ e steps values text, s = ⟨.resolve e :: steps, values⟩ ∧ Host.text? e = some text ∧
      s' = ⟨steps, text :: values⟩) ∨
    (∃ e steps values es, s = ⟨.resolve e :: steps, values⟩ ∧ Host.text? e = none ∧
      Host.operands? e = some es ∧ s' = ⟨Step.expand es ++ steps, values⟩) ∨
    ∃ count steps values, s = ⟨.join count :: steps, values⟩ ∧ count ≤ values.length ∧
      s' = ⟨steps, String.join (values.take count).reverse :: values.drop count⟩ := by
  obtain ⟨steps, values⟩ := s
  cases steps with
  | nil => cases h
  | cons step steps =>
    cases step with
    | join count =>
      by_cases hle : count ≤ values.length
      · rw [turn_join_of_le hle] at h
        exact .inr (.inr ⟨count, steps, values, rfl, hle, (Option.some.inj h).symm⟩)
      · rw [turn, if_pos (Nat.lt_of_not_le hle)] at h
        cases h
    | resolve e =>
      rw [turn] at h
      cases ht : Host.text? e with
      | some text =>
        rw [ht] at h
        exact .inl ⟨e, steps, values, text, rfl, ht, (Option.some.inj h).symm⟩
      | none =>
        cases ho : Host.operands? e with
        | some es =>
          rw [ht, ho] at h
          exact .inr (.inl ⟨e, steps, values, es, rfl, ht, ho, (Option.some.inj h).symm⟩)
        | none =>
          rw [ht, ho] at h
          cases h

/-! ### The work becomes less -/

def weight (s : WorkStack ε) : Nat := total Step.weight s.steps

theorem weight_start (e : ε) : (start e).weight = 2 * Host.size e + 2 := rfl

theorem weight_lt_of_turn {s s' : WorkStack ε} (h : s.turn = some s') : s'.weight < s.weight := by
  unfold weight
  rcases turn_cases h with ⟨e, steps, values, text, rfl, -, rfl⟩ |
    ⟨e, steps, values, es, rfl, -, ho, rfl⟩ | ⟨count, steps, values, rfl, -, rfl⟩
  · exact Nat.lt_add_of_pos_left (Nat.succ_pos _)
  · have hoperands := Host.operands_size e es ho
    have hexpand := Step.total_weight_expand es
    have hweight : Step.weight (.resolve e) = 2 * Host.size e + 2 := rfl
    rw [total_append, total_cons]
    omega
  · exact Nat.lt_add_of_pos_left Nat.one_pos

theorem Turns.add_weight_le {s s' : WorkStack ε} {n : Nat} (h : Turns s n s') :
    n + s'.weight ≤ s.weight := by
  induction h with
  | done s => exact Nat.le_of_eq (Nat.zero_add _)
  | turn hturn _ ih =>
    have hlt := weight_lt_of_turn hturn
    omega

theorem exists_turns_halted (s : WorkStack ε) : ∃ n s', Turns s n s' ∧ s'.turn = none := by
  -- by the work that is left, since operands make a stack longer
  induction hw : s.weight using Nat.strongRecOn generalizing s with
  | _ w ih =>
    cases hturn : s.turn with
    | none => exact ⟨0, s, .done s, hturn⟩
    | some s' =>
      have hlt : s'.weight < w := hw ▸ weight_lt_of_turn hturn
      obtain ⟨n, s'', hrest, hhalted⟩ := ih s'.weight hlt s' rfl
      exact ⟨n + 1, s'', .turn hturn hrest, hhalted⟩

/-! ### The texts suffice -/

theorem InBalance.turn {s s' : WorkStack ε} (h : s.InBalance) (hturn : s.turn = some s') :
    s'.InBalance := by
  rcases turn_cases hturn with ⟨e, steps, values, text, rfl, -, rfl⟩ |
    ⟨e, steps, values, es, rfl, -, -, rfl⟩ | ⟨count, steps, values, rfl, hle, rfl⟩
  · exact h
  · exact (isBalanced_expand_append es steps values.length).mpr h
  · have hleft : (values.drop count).length = values.length - count := List.length_drop
    show IsBalanced steps ((values.drop count).length + 1)
    rw [hleft]
    exact h.2

theorem InBalance.turns {s s' : WorkStack ε} {n : Nat} (h : s.InBalance) (hturns : Turns s n s') :
    s'.InBalance := by
  induction hturns with
  | done s => exact h
  | turn hturn _ ih => exact ih (h.turn hturn)

theorem InBalance.halted {s : WorkStack ε} (h : s.InBalance) (hturn : s.turn = none) :
    (∃ text, s = ⟨[], [text]⟩) ∨
      ∃ e steps values, s = ⟨.resolve e :: steps, values⟩ ∧ IsUnknown e := by
  obtain ⟨steps, values⟩ := s
  cases steps with
  | nil =>
    obtain ⟨text, rfl⟩ := List.length_eq_one_iff.mp h
    exact .inl ⟨text, rfl⟩
  | cons step steps =>
    cases step with
    | join count =>
      rw [turn_join_of_le h.1] at hturn
      cases hturn
    | resolve e => exact .inr ⟨e, steps, values, rfl, turn_resolve_eq_none_iff.mp hturn⟩

/-! ### What comes out -/

def run (s : WorkStack ε) : Option String := runSteps s.steps s.values

theorem run_of_turn {s s' : WorkStack ε} (h : s.turn = some s') : s.run = s'.run := by
  unfold run
  rcases turn_cases h with ⟨e, steps, values, text, rfl, ht, rfl⟩ |
    ⟨e, steps, values, es, rfl, ht, ho, rfl⟩ | ⟨count, steps, values, rfl, hle, rfl⟩
  · rw [runSteps, ht]
  · rw [runSteps, ht]
    dsimp only
    split
    · next fs hfs =>
      obtain rfl : es = fs := Option.some.inj (ho.symm.trans hfs)
      rfl
    · next hnone =>
      rw [ho] at hnone
      cases hnone
  · rw [runSteps, if_neg (Nat.not_lt_of_le hle)]

theorem Turns.run_eq {s s' : WorkStack ε} {n : Nat} (h : Turns s n s') : s'.run = s.run := by
  induction h with
  | done s => rfl
  | turn hturn _ ih => exact ih.trans (run_of_turn hturn).symm

theorem run_of_isUnknown {e : ε} (h : IsUnknown e) (steps : List (Step ε)) (values : List String) :
    run ⟨.resolve e :: steps, values⟩ = none := by
  show runSteps (.resolve e :: steps) values = none
  rw [runSteps_resolve, foldText_of_none h.1 h.2, Option.bind_none]

theorem foldText_eq (e : ε) : foldText e =
    match Host.text? e, Host.operands? e with
    | some text, _ => some text
    | none, some es => (es.mapM foldText).map String.join
    | none, none => none := by
  cases ht : Host.text? e with
  | some text => exact foldText_of_text ht
  | none =>
    cases ho : Host.operands? e with
    | some es => exact foldText_of_operands ht ho
    | none => exact foldText_of_none ht ho

/-- The stack comes to an end for every expression, and what it computes is the text by recursion over
the expression. On the way there are texts enough for every join; at the end there is this one text,
or the text is missing because of the expression the stack stops at. -/
theorem textOf_computes_foldText (e : ε) :
    textOf e = foldText e ∧
    (∀ x : ε, foldText x =
      match Host.text? x, Host.operands? x with
      | some text, _ => some text
      | none, some es => (es.mapM foldText).map String.join
      | none, none => none) ∧
    (∃ n s, Turns (start e) n s ∧ s.turn = none) ∧
    ∀ n s, Turns (start e) n s →
      n ≤ 2 * Host.size e + 2 ∧ runSteps s.steps s.values = textOf e ∧
      (∀ count steps, s.steps = .join count :: steps → count ≤ s.values.length) ∧
      (s.turn = none →
        (∃ text, s = ⟨[], [text]⟩ ∧ foldText e = some text) ∨
        ∃ x steps values, s = ⟨.resolve x :: steps, values⟩ ∧ IsUnknown x ∧ foldText e = none) := by
  refine ⟨textOf_eq_foldText e, foldText_eq, exists_turns_halted (start e), fun n s h => ?_⟩
  have hbound : n + s.weight ≤ 2 * Host.size e + 2 := weight_start e ▸ h.add_weight_le
  have hbalance : s.InBalance := (inBalance_start e).turns h
  have hrun : s.run = foldText e := h.run_eq.trans (textOf_eq_foldText e)
  refine ⟨Nat.le_of_add_right_le hbound, h.run_eq, ?_, ?_⟩
  · intro count steps hsteps
    unfold InBalance at hbalance
    rw [hsteps] at hbalance
    exact hbalance.1
  · intro hturn
    rcases hbalance.halted hturn with ⟨text, rfl⟩ | ⟨x, steps, values, rfl, hx⟩
    · have htext : run (ε := ε) ⟨[], [text]⟩ = some text := by
        rw [run, runSteps, List.head?_cons]
      exact .inl ⟨text, rfl, hrun.symm.trans htext⟩
    · exact .inr ⟨x, steps, values, rfl, hx, hrun.symm.trans (run_of_isUnknown hx steps values)⟩

end WorkStack

end LogTemplate
