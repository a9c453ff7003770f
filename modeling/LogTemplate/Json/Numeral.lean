import LogTemplate.Decimal.Digits
import LogTemplate.Decimal.Scaled
import LogTemplate.Json.Value

/-! The value of a number, given the digits it is written with. Digits are gathered as far as a word
holds them. -/

namespace LogTemplate.Json

structure Numeral where
  negative : Bool
  whole : List Char
  fraction : Option (List Char)
  exponent : Option (Bool × List Char)
  deriving DecidableEq, Repr

/-- Appends digits to a number as long as it stays below the bound. Answers also how many digits are
left. -/
def gather (bound : Nat) (n : Nat) : List Char → Nat × Nat
  | [] => (n, 0)
  | d :: rest =>
    let next := n * 10 + Decimal.value [d]
    if next < bound then gather bound next rest else (n, rest.length + 1)

namespace Numeral

variable (n : Numeral)

def isWhole : Bool := n.fraction.isNone && n.exponent.isNone

def significand : Nat × Int :=
  let fraction := n.fraction.getD []
  let (whole, wholeLeft) := gather UInt64.size 0 n.whole
  let (all, fractionLeft) := gather UInt64.size whole fraction
  (all, (wholeLeft : Int) - (fraction.length - fractionLeft : Nat))

def exponentBound : Nat := 2147483648

def shift? : Option Int :=
  match n.exponent with
  | none => some 0
  | some (negative, ds) =>
    match gather exponentBound 0 ds with
    | (e, 0) => some (if negative then -e else e)
    | (_, _ + 1) => none

def unreadDigits : Nat :=
  n.exponent.elim 0 fun (_, ds) => (gather exponentBound 0 ds).2 - 1

def magnitude? : Option Binary :=
  let (digits, unit) := n.significand
  match n.shift? with
  | some shift => Binary.scaled? digits (unit + shift)
  | none =>
    if digits = 0 || n.exponent.any (fun (negative, _) => negative) then some .zero else none

/-- Whole numbers of 64 bits keep their value; all other numbers become binary fractions, and so
does a negative zero. -/
def value? : Option Json :=
  let d := Decimal.value n.whole
  if n.isWhole && !n.negative && d < UInt64.size then some (.integer d)
  else if n.isWhole && n.negative && 0 < d && 2 * d ≤ UInt64.size then some (.integer (-d))
  else n.magnitude?.map (.decimal n.negative)

end Numeral

end LogTemplate.Json
