import LogTemplate.Call.Expr

/-! What the analysis asks of a host's expressions. An expression may offer a constant text,
operands to be joined, both or neither, and it has a place. It is finite: the nodes of its operands,
the operands included, are among the nodes below it. -/

namespace LogTemplate

class Host (ε : Type) where
  text? : ε → Option String
  operands? : ε → Option (List ε)
  location : ε → Location
  size : ε → Nat
  operands_size : ∀ e es, operands? e = some es → total (size · + 1) es ≤ size e

instance : Host Expr where
  text? := Expr.text?
  operands? := Expr.operands?
  location := Expr.location
  size := Expr.size
  operands_size e es h := by
    cases e <;> simp_all [Expr.operands?, Expr.size, Expr.sizes_eq_total]

inductive Tree where
  | node (text : Option String) (operands : Option (List Tree)) (location : Location)

namespace Tree

def text? : Tree → Option String
  | node t _ _ => t

def operands? : Tree → Option (List Tree)
  | node _ es _ => es

def location : Tree → Location
  | node _ _ l => l

mutual
def size : Tree → Nat
  | node _ none _ => 0
  | node _ (some es) _ => sizes es

def sizes : List Tree → Nat
  | [] => 0
  | e :: es => (e.size + 1) + sizes es
end

theorem sizes_eq_total (es : List Tree) : sizes es = total (·.size + 1) es := by
  induction es with
  | nil => rfl
  | cons e es ih => simp [sizes, ih]

instance : Host Tree where
  text? := text?
  operands? := operands?
  location := location
  size := size
  operands_size e es h := by
    cases e with | node t os l => cases os <;> simp_all [operands?, size, sizes_eq_total]

end Tree

end LogTemplate
