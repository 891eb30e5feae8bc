import DmlCompiler.Text.Digits

/-! # Binary64 numbers

A number is its 64-bit pattern. For finite numbers of one sign the order of the patterns is the
order of the values, so that rounding a quotient is finding a pattern: every finite magnitude is
a natural multiple of `2 ^ (-1074)`.
-/
namespace DmlCompiler

structure Binary64 where
  bits : UInt64
deriving DecidableEq, Repr, Inhabited

namespace Binary64

def magnitude (x : Binary64) : Nat := x.bits.toNat % 2 ^ 63

def isNegative (x : Binary64) : Bool := 2 ^ 63 ≤ x.bits.toNat

def infinite : Nat := 2047 * 2 ^ 52

def isFinite (x : Binary64) : Bool := x.magnitude < infinite

def ofMagnitude (negative : Bool) (magnitude : Nat) : Binary64 :=
  ⟨.ofNat (if negative then 2 ^ 63 + magnitude else magnitude)⟩

/-- The value of a finite magnitude, as a multiple of `2 ^ (-1074)`. -/
def multiple (magnitude : Nat) : Nat :=
  let exponent := magnitude / 2 ^ 52
  let fraction := magnitude % 2 ^ 52
  if exponent = 0 then fraction else (2 ^ 52 + fraction) * 2 ^ (exponent - 1)

/-- The nearest integer to a quotient; a half goes to the even neighbour. -/
def roundDiv (num den : Nat) : Nat :=
  let quotient := num / den
  let twice := 2 * (num % den)
  if twice < den then quotient
  else if den < twice then quotient + 1
  else quotient + quotient % 2

/-- The magnitude nearest to `num / den`. A quotient that rounds up to the next power of two
carries from the fraction into the exponent, as the patterns are consecutive. -/
def nearest (num den : Nat) : Nat :=
  let scaled := num * 2 ^ 1074
  let shift := (scaled / den).log2 - 52
  shift * 2 ^ 52 + roundDiv scaled (den * 2 ^ shift)

def product (a b : Nat) : Nat := nearest (multiple a * multiple b) (2 ^ 2148)

def quotient (a b : Nat) : Nat := nearest (multiple a) (multiple b)

def powerOfTen (n : Nat) : Nat := nearest (10 ^ n) 1

def decimalLength (n : Nat) : Nat := (Nat.toDigits 10 n).length

/-- The number nearest to `digits * 10 ^ exponent`, or nothing when that is too large. The bounds
on the size keep the powers of ten small: beyond them the answer is known. -/
def ofDecimal? (negative : Bool) (digits : Nat) (exponent : Int) : Option Binary64 :=
  let size := exponent + decimalLength digits
  if digits = 0 ∨ size < -330 then some (ofMagnitude negative 0)
  else if 310 < size then none
  else
    let magnitude :=
      if 0 ≤ exponent then nearest (digits * 10 ^ exponent.toNat) 1
      else nearest digits (10 ^ (-exponent).toNat)
    if magnitude < infinite then some (ofMagnitude negative magnitude) else none

def ofInt (n : Int) : Binary64 := ofMagnitude (n < 0) (nearest n.natAbs 1)

/-- A multiple of `2 ^ (-1074)` rounded to a mantissa of twenty-four bits within the range of single
precision. -/
def singleOfMultiple (negative : Bool) (value : Nat) : Binary64 :=
  let step := 925 + ((value / 2 ^ 925).log2 - 23)
  let rounded := roundDiv value (2 ^ step) * 2 ^ step
  if rounded < 2 ^ (128 + 1074) then ofMagnitude negative (nearest rounded (2 ^ 1074))
  else ofMagnitude negative infinite

def roundToSingle (x : Binary64) : Binary64 :=
  if x.isFinite then singleOfMultiple x.isNegative (multiple x.magnitude) else x

def singleOfInt (n : Int) : Binary64 := singleOfMultiple (n < 0) (n.natAbs * 2 ^ 1074)

end Binary64
end DmlCompiler
