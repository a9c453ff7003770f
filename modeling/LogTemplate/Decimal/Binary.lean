/-! Binary floating-point numbers of 53 bits, without their sign, and the one nearest to a
decimal. -/

namespace LogTemplate

structure Binary where
  mantissa : Nat
  exponent : Int
  deriving DecidableEq, Repr, Inhabited

namespace Binary

def leastExponent : Int := -1074

def greatestExponent : Int := 971

def zero : Binary := ⟨0, leastExponent⟩

def roundDiv (num den : Nat) : Nat :=
  let q := num / den
  let r := num % den
  if 2 * r < den then q else if den < 2 * r then q + 1 else q + q % 2

def roundAt (num den : Nat) : Int → Nat
  | .ofNat k => roundDiv num (den * Nat.pow 2 k)
  | .negSucc k => roundDiv (num * Nat.pow 2 (k + 1)) den

def ofRatio? (num den : Nat) : Option Binary :=
  if num = 0 then some zero
  else
    let n := num.log2
    let d := den.log2
    let top : Int := if den <<< n ≤ num <<< d then n - d else n - d - 1
    let exponent := max (top - 52) leastExponent
    let mantissa := roundAt num den exponent
    let b : Binary :=
      if mantissa = Nat.pow 2 53 then ⟨Nat.pow 2 52, exponent + 1⟩ else ⟨mantissa, exponent⟩
    if greatestExponent < b.exponent then none else some b

/-- The nearest number to `digits * 10 ^ exponent`. Exponents far outside the range are settled
without computing the power. -/
def ofDecimal? (digits : Nat) (exponent : Int) : Option Binary :=
  if digits = 0 then some zero
  else if 400 < exponent then none
  else if exponent < -(digits.log2 + 1200) then some zero
  else match exponent with
    | .ofNat k => ofRatio? (digits * Nat.pow 10 k) 1
    | .negSucc k => ofRatio? digits (Nat.pow 10 (k + 1))

end Binary

end LogTemplate
