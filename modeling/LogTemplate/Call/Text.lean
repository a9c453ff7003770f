import LogTemplate.Call.Host

/-! The text of an expression: its constant text if it has one, else its operands' texts in order,
joined. It is computed with an explicit stack, so that depth costs no call stack. -/

namespace LogTemplate

variable {ε : Type} [Host ε]

inductive Step (ε : Type) where
  | resolve (e : ε)
  | join (count : Nat)

namespace Step

def weight : Step ε → Nat
  | resolve e => 2 * Host.size e + 2
  | join _ => 1

def expand (es : List ε) : List (Step ε) := es.map resolve ++ [join es.length]

theorem total_weight_expand (es : List ε) :
    total weight (expand es) = 2 * total (Host.size · + 1) es + 1 := by
  induction es with
  | nil => rfl
  | cons e es ih =>
    simp only [expand, total_append, total_map, total_cons, total_nil, weight] at *
    omega

end Step

/-- Works off the steps. `values` holds the texts found, the latest first. -/
def runSteps : List (Step ε) → List String → Option String
  | [], values => values.head?
  | .join count :: steps, values =>
    if values.length < count then none
    else runSteps steps (String.join (values.take count).reverse :: values.drop count)
  | .resolve e :: steps, values =>
    match Host.text? e with
    | some text => runSteps steps (text :: values)
    | none =>
      match _h : Host.operands? e with
      | some es => runSteps (Step.expand es ++ steps) values
      | none => none
termination_by steps => total Step.weight steps
decreasing_by
  · simp [Step.weight]
  · simp [Step.weight]
  · have := Host.operands_size e es _h
    simp only [total_cons, total_append, Step.total_weight_expand, Step.weight]
    omega

def textOf (e : ε) : Option String := runSteps [.resolve e] []

end LogTemplate
