import DmlCompiler.Binary64

/-! # Shortest decimals

The text of a number is the decimal with the fewest digits that rounds to the number, and of two
such the nearer one. `ShortestDecimal.of` finds it by trying the two neighbours of the value on
each decimal grid, coarsest grid first. `NumberLayout` says how the digits are set.
-/
namespace DmlCompiler

/-- The positive number `digits * 10 ^ exponent`. -/
structure ShortestDecimal where
  digits : Nat
  exponent : Int
deriving DecidableEq, Repr

namespace ShortestDecimal

def strip (limit : Nat) (d : ShortestDecimal) : ShortestDecimal :=
  match limit with
  | 0 => d
  | limit + 1 => if d.digits % 10 = 0 then strip limit ⟨d.digits / 10, d.exponent + 1⟩ else d

def scale (num den : Nat) (exponent : Int) : Nat × Nat :=
  if 0 ≤ exponent then (num, den * 10 ^ exponent.toNat) else (num * 10 ^ (-exponent).toNat, den)

/-- The `n` for which the quotient lies between `10 ^ n` and `10 ^ (n + 1)`. -/
def decade (num den : Nat) : Int :=
  let guess := (((num.log2 : Int) - den.log2) * 30103) / 100000
  let at_ (n : Int) : Bool := let (a, b) := scale num den n; b ≤ a
  if at_ (guess + 1) then guess + 1 else if at_ guess then guess else guess - 1

def roundsTo (d : ShortestDecimal) (magnitude : Nat) : Bool :=
  Binary64.ofDecimal? false d.digits d.exponent == some (Binary64.ofMagnitude false magnitude)

/-- The better neighbour of the value on the grid of multiples of `10 ^ exponent`, if one of the
two rounds to the value. -/
def onGrid (magnitude : Nat) (exponent : Int) : Option ShortestDecimal :=
  let (num, den) := scale (Binary64.multiple magnitude) (2 ^ 1074) exponent
  let below : ShortestDecimal := ⟨num / den, exponent⟩
  let above : ShortestDecimal := ⟨num / den + 1, exponent⟩
  match below.roundsTo magnitude, above.roundsTo magnitude with
  | true, true => some (if Binary64.roundDiv num den = num / den then below else above)
  | true, false => some below
  | false, true => some above
  | false, false => none

/-- The shortest decimal of a magnitude that is finite and not zero. Seventeen digits always
suffice; the exact value stands behind them so that the search is total. -/
def of (magnitude : Nat) : ShortestDecimal :=
  let top := decade (Binary64.multiple magnitude) (2 ^ 1074)
  let found := (List.range 17).findSome? fun (n : Nat) => onGrid magnitude (top - n)
  (found.getD ⟨Binary64.multiple magnitude * 5 ^ 1074, -1074⟩).strip 2000

end ShortestDecimal

/-- Where positional notation begins and ends, by the exponent of the leading digit. -/
structure NumberLayout where
  lowest : Int
  highest : Int

namespace NumberLayout

def zeros (n : Int) : List Char := List.replicate n.toNat '0'

/-- Positional text always has a point and a digit behind it; the exponent of scientific text
always has its sign. -/
def write (layout : NumberLayout) (d : ShortestDecimal) : List Char :=
  let digits := Nat.toDigits 10 d.digits
  let leading := d.exponent + digits.length - 1
  if layout.lowest ≤ leading ∧ leading ≤ layout.highest then
    if 0 ≤ d.exponent then digits ++ zeros d.exponent ++ ['.', '0']
    else if 0 ≤ leading then
      digits.take (leading + 1).toNat ++ '.' :: digits.drop (leading + 1).toNat
    else ['0', '.'] ++ zeros (-leading - 1) ++ digits
  else
    let sign := if leading < 0 then '-' else '+'
    let fraction := match digits.drop 1 with
      | [] => []
      | rest => '.' :: rest
    digits.take 1 ++ fraction ++ 'e' :: sign :: Nat.toDigits 10 leading.natAbs

/-- The text of a finite number; zero keeps its sign. -/
def writeNumber (layout : NumberLayout) (x : Binary64) : List Char :=
  let body := if x.magnitude = 0 then ['0', '.', '0'] else layout.write (.of x.magnitude)
  if x.isNegative then '-' :: body else body

end NumberLayout
end DmlCompiler
