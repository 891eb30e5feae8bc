import DmlCompiler.Binary64
import DmlCompiler.Text.Digits

/-! # Scaled decimals

A literal is read in two steps, each of which rounds. Its digits are gathered in a word of 64 bits,
the significand, and the significand is scaled by a power of ten in binary64 arithmetic. Fifteen
digits and a power of ten up to 22 give the nearest number; a longer literal may end beside it.
-/
namespace DmlCompiler

/-- The number `significand * 10 ^ exponent`. -/
structure ScaledDecimal where
  significand : Nat
  exponent : Int
deriving DecidableEq, Repr

namespace ScaledDecimal

/-- Appends digits to a significand as long as 64 bits hold it; gives also the digits left over. -/
def gather (significand : Nat) : List Char → Nat × List Char
  | [] => (significand, [])
  | digit :: rest =>
    let longer := significand * 10 + Text.digitValue digit
    if longer < 2 ^ 64 then gather longer rest else (significand, digit :: rest)

/-- A digit before the point that is left over still counts as a factor of ten; one behind the
point counts for nothing. -/
def ofDigits (whole fraction : List Char) (exponent : Int) : ScaledDecimal :=
  let (significand, more) := gather 0 whole
  let (significand, dropped) := gather significand fraction
  ⟨significand, exponent + more.length - (fraction.length - dropped.length : Nat)⟩

/-- The magnitude to which the significand is scaled, or nothing when that is too large. Powers of
ten up to 308 are binary64 numbers; a division by a greater one is made in two, and a significand
is zero after two divisions by the greatest. -/
def magnitude? (d : ScaledDecimal) : Option Nat :=
  let start := Binary64.nearest d.significand 1
  if d.significand = 0 ∨ d.exponent < -616 then some 0
  else if d.exponent < -308 then
    let reduced := Binary64.quotient start (Binary64.powerOfTen 308)
    some (Binary64.quotient reduced (Binary64.powerOfTen (-d.exponent - 308).toNat))
  else if d.exponent < 0 then
    some (Binary64.quotient start (Binary64.powerOfTen (-d.exponent).toNat))
  else if d.exponent ≤ 308 then
    let magnitude := Binary64.product start (Binary64.powerOfTen d.exponent.toNat)
    if magnitude < Binary64.infinite then some magnitude else none
  else none

def toBinary64? (negative : Bool) (d : ScaledDecimal) : Option Binary64 :=
  d.magnitude?.map (Binary64.ofMagnitude negative)

end ScaledDecimal
end DmlCompiler
