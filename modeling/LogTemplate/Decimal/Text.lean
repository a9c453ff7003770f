import LogTemplate.Decimal.Digits
import LogTemplate.Decimal.Shortest

/-! How a binary number is written: its shortest decimal, with at least one digit on either side of
the point, or with an exponent and its sign. -/

namespace LogTemplate.Binary

def trimZeros : List Char → List Char := fun ds => (ds.reverse.dropWhile (· = '0')).reverse

def positional (ds : List Char) (leading : Int) : List Char :=
  match leading with
  | .negSucc k => '0' :: '.' :: List.replicate k '0' ++ ds
  | .ofNat k =>
    let whole := ds.take (k + 1)
    let fraction := ds.drop (k + 1)
    whole ++ List.replicate (k + 1 - whole.length) '0' ++
      '.' :: (if fraction.isEmpty then ['0'] else fraction)

def withExponent (ds : List Char) (leading : Int) : List Char :=
  let mark := if leading < 0 then '-' else '+'
  let size := Decimal.digits leading.natAbs
  match ds with
  | d :: e :: rest => d :: '.' :: e :: rest ++ 'e' :: mark :: size
  | ds => ds ++ 'e' :: mark :: size

structure Style where
  tie : Tie
  isPositional : Int → Bool

def text (style : Style) (b : Binary) : String :=
  let (d, unit) := b.shortest style.tie
  if d = 0 then "0.0"
  else
    let all := Decimal.digits d
    let leading := unit + (all.length - 1 : Nat)
    let ds := trimZeros all
    String.ofList
      (if style.isPositional leading then positional ds leading else withExponent ds leading)

end LogTemplate.Binary
