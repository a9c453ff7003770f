import LogTemplate.Decimal.Binary

/-! The shortest decimal of a binary number: the fewest digits that read back as the number, and of
those the nearest to it. -/

namespace LogTemplate.Binary

inductive Tie where
  | toEven
  | up
  deriving DecidableEq, Repr

/-- `low / den` and `high / den` bound the reals that round to the number `value / den`; the bounds
themselves do so if `closed`. -/
structure Interval where
  low : Nat
  value : Nat
  high : Nat
  den : Nat
  closed : Bool

/-- Half way to either neighbour. Below a power of two the lower neighbour is nearer. -/
def interval (b : Binary) : Interval :=
  let near := b.mantissa = Nat.pow 2 52 ∧ leastExponent < b.exponent
  let low := 4 * b.mantissa - (if near then 1 else 2)
  let num (k : Nat) : Nat × Nat :=
    match b.exponent - 2 with
    | .ofNat e => (k * Nat.pow 2 e, 1)
    | .negSucc e => (k, Nat.pow 2 (e + 1))
  ⟨(num low).1, (num (4 * b.mantissa)).1, (num (4 * b.mantissa + 2)).1, (num 0).2,
    b.mantissa % 2 = 0⟩

def inUnits (num den : Nat) : Int → Nat × Nat
  | .ofNat k => (num, den * Nat.pow 10 k)
  | .negSucc k => (num * Nat.pow 10 (k + 1), den)

def leadingExponent (num den : Nat) : Int :=
  let reaches (p : Int) : Bool := let (n, d) := inUnits num den p; d ≤ n
  let estimate := ((num.log2 : Int) - den.log2) * 30103 / 100000
  if reaches (estimate + 1) then estimate + 1
  else if reaches estimate then estimate
  else estimate - 1

/-- Of the two multiples of `10 ^ unit` about the value the nearer one that reads back. -/
def Interval.onGrid (i : Interval) (tie : Tie) (unit : Int) : Option Nat :=
  let (low, den) := inUnits i.low i.den unit
  let (value, _) := inUnits i.value i.den unit
  let (high, _) := inUnits i.high i.den unit
  let reads (d : Nat) : Bool :=
    if i.closed then low ≤ d * den && d * den ≤ high else low < d * den && d * den < high
  let below := value / den
  let above := below + 1
  let twice := 2 * (value % den)
  let belowIsNearer := twice < den || (twice = den && tie = .toEven && below % 2 = 0)
  if reads below && (belowIsNearer || !reads above) then some below
  else if reads above then some above
  else none

def Interval.digits (i : Interval) (tie : Tie) (leading : Int) : Nat → Nat × Int
  | 0 => (i.value / i.den, 0)
  | more + 1 =>
    let unit := leading - (16 - more : Nat)
    match i.onGrid tie unit with
    | some d => (d, unit)
    | none => i.digits tie leading more

def shortest (b : Binary) (tie : Tie) : Nat × Int :=
  if b.mantissa = 0 then (0, 0)
  else
    let i := b.interval
    i.digits tie (leadingExponent i.value i.den) 17

end LogTemplate.Binary
