import LogTemplate.Decimal.Binary

/-! A binary number times a power of ten, by products and quotients that are rounded one by one. The
result may differ in its last bits from the nearest number to the exact one. -/

namespace LogTemplate.Binary

def ofScaled? (num den : Nat) : Int → Option Binary
  | .ofNat k => ofRatio? (num * Nat.pow 2 k) den
  | .negSucc k => ofRatio? num (den * Nat.pow 2 (k + 1))

def mul? (a b : Binary) : Option Binary :=
  ofScaled? (a.mantissa * b.mantissa) 1 (a.exponent + b.exponent)

def div? (a b : Binary) : Option Binary :=
  ofScaled? a.mantissa b.mantissa (a.exponent - b.exponent)

def greatestTen : Nat := 308

def ten? (exponent : Nat) : Option Binary := ofDecimal? 1 exponent

def timesTen? (b : Binary) (places : Nat) : Option Binary := (ten? places).bind b.mul?

def overTen? (b : Binary) (places : Nat) : Option Binary :=
  if b.mantissa = 0 then some b
  else if places ≤ greatestTen then (ten? places).bind b.div?
  else ((ten? greatestTen).bind b.div?).bind fun b => overTen? b (places - greatestTen)
termination_by places
decreasing_by
  have : 0 < greatestTen := by decide
  omega

def scaled? (digits : Nat) (exponent : Int) : Option Binary :=
  if digits = 0 then some zero
  else (ofRatio? digits 1).bind fun b =>
    match exponent with
    | .ofNat k => b.timesTen? k
    | .negSucc k => b.overTen? (k + 1)

end LogTemplate.Binary
