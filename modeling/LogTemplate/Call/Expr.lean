import LogTemplate.Call.Location
import LogTemplate.Total

/-! Argument expressions as far as a template can be read off them: constants, concatenations, and
everything else, of which only the kind of construct is known. -/

namespace LogTemplate

inductive Constant where
  | string (text : String)
  | other (text : String)
  | null
  deriving DecidableEq, Repr

inductive Expr where
  | constant (value : Constant) (location : Location)
  | concat (operands : List Expr) (location : Location)
  | other (construct : String) (location : Location)

namespace Expr

instance : Inhabited Expr := ⟨.concat [] default⟩

def location : Expr → Location
  | constant _ l | concat _ l | other _ l => l

def string (text : String) (l : Location) : Expr := .constant (.string text) l

def text? : Expr → Option String
  | constant (.string s) _ => some s
  | _ => none

def operands? : Expr → Option (List Expr)
  | concat es _ => some es
  | _ => none

def summands : Expr → List Expr
  | concat es _ => es
  | e => [e]

/-- A sum of two. One that begins with a sum goes on with its operands, so a chain of additions
stays flat; a sum on the right keeps its own node. -/
def add (left right : Expr) (l : Location) : Expr := .concat (left.summands ++ [right]) l

mutual
def size : Expr → Nat
  | constant _ _ => 0
  | concat es _ => sizes es
  | other _ _ => 0

def sizes : List Expr → Nat
  | [] => 0
  | e :: es => (e.size + 1) + sizes es
end

mutual
def same : Expr → Expr → Bool
  | constant v l, constant w m => v = w && l = m
  | concat es l, concat fs m => sameAll es fs && l = m
  | other s l, other t m => s = t && l = m
  | _, _ => false

def sameAll : List Expr → List Expr → Bool
  | [], [] => true
  | e :: es, f :: fs => e.same f && sameAll es fs
  | _, _ => false
end

mutual
theorem same_iff (e f : Expr) : e.same f = true ↔ e = f := by
  cases e <;> cases f <;> simp [same, sameAll_iff]
theorem sameAll_iff (es fs : List Expr) : sameAll es fs = true ↔ es = fs := by
  cases es <;> cases fs <;> simp [sameAll, same_iff, sameAll_iff]
end

instance : DecidableEq Expr := fun e f => decidable_of_iff _ (same_iff e f)

theorem sizes_eq_total (es : List Expr) : sizes es = total (·.size + 1) es := by
  induction es with
  | nil => rfl
  | cons e es ih => simp [sizes, ih]

@[simp] theorem location_add (a b : Expr) (l : Location) : (add a b l).location = l := rfl

end Expr

end LogTemplate
