import DocComment.Digits
import DocComment.Json

/-!
# Numerals of JSON

A numeral is read as a significand of at most 64 bits times a power of ten; both factors are rounded
to doubles, and the numeral is out of range if their product is beyond the greatest double.
-/

namespace DocComment.Json

/-- The digits of a numeral, most significant first, and its signs. -/
structure Numeral where
  negative : Bool := false
  whole : List Nat
  fraction : List Nat := []
  exponentNegative : Bool := false
  exponent : List Nat := []
  deriving DecidableEq, Repr

/-- The nearest number of at most 53 significant bits; of two, the even one. -/
def roundToDouble (n : Nat) : Nat :=
  let unit := Nat.pow 2 (n.log2 + 1 - 53)
  let kept := n / unit
  let lost := 2 * (n % unit)
  if lost > unit ∨ (lost = unit ∧ kept % 2 = 1) then (kept + 1) * unit else kept * unit

namespace Numeral

/-- Takes digits into the significand as long as it fits 64 bits; says how many were taken and
left. -/
def takeDigits (significand taken : Nat) : List Nat → Nat × Nat × Nat
  | [] => (significand, taken, 0)
  | digit :: rest =>
    if 10 * significand + digit < Nat.pow 2 64 then
      takeDigits (10 * significand + digit) (taken + 1) rest
    else (significand, taken, rest.length + 1)

def significand (numeral : Numeral) : Nat :=
  (takeDigits (takeDigits 0 0 numeral.whole).1 0 numeral.fraction).1

/-- The power of ten of the significand: whole digits left out count up, fraction digits taken count
down, and the exponent is added. -/
def scale (numeral : Numeral) : Int :=
  let (significand, _, left) := takeDigits 0 0 numeral.whole
  let (_, taken, _) := takeDigits significand 0 numeral.fraction
  let exponent : Int := ofDigits 10 numeral.exponent
  left - taken + if numeral.exponentNegative then -exponent else exponent

/-- The greatest exponent that is read digit by digit. -/
def greatestExponent : Nat := Nat.pow 2 31 - 1

def inRange (numeral : Numeral) : Bool :=
  let exponent := ofDigits 10 numeral.exponent
  numeral.significand = 0 ||
    if exponent > greatestExponent then numeral.exponentNegative
    else if numeral.scale > 308 then false
    else
      roundToDouble numeral.significand * roundToDouble (Nat.pow 10 numeral.scale.toNat) <
        Decimal.overflowBound

/-- The exact number. -/
def toDecimal (numeral : Numeral) : Decimal where
  negative := numeral.negative
  digits := ofDigits 10 (numeral.whole ++ numeral.fraction)
  exponent :=
    (if numeral.exponentNegative then -(ofDigits 10 numeral.exponent : Int)
      else ofDigits 10 numeral.exponent) - numeral.fraction.length

end Numeral

end DocComment.Json
