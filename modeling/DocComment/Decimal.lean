/-!
# Decimal numbers

Decimals as they are written, and where the nearest double of one is zero or beyond all doubles.
-/

namespace DocComment

/-- A number as it is written: digits and a power of ten. -/
structure Decimal where
  negative : Bool := false
  digits : Nat
  exponent : Int := 0
  deriving DecidableEq, Repr

namespace Decimal

/-- The power of ten just above the number. -/
def magnitude (value : Decimal) : Int := (Nat.toDigits 10 value.digits).length + value.exponent

/-- Half-way between the greatest double and the next power of two; the least number whose nearest
double would be that power. -/
def overflowBound : Nat := Nat.pow 2 1024 - Nat.pow 2 970

/-- Nearer to zero than to the least double, or half-way. -/
def roundsToZero (value : Decimal) : Bool :=
  value.digits = 0 ||
    if value.magnitude < -400 then true
    else if value.exponent ≥ 0 then false
    else value.digits * Nat.pow 2 1075 ≤ Nat.pow 10 value.exponent.natAbs

/-- Nearer to the next power of two than to the greatest double, or half-way. -/
def overflows (value : Decimal) : Bool :=
  value.digits ≠ 0 &&
    if value.magnitude > 400 then true
    else if value.magnitude < 0 then false
    else if value.exponent ≥ 0 then value.digits * Nat.pow 10 value.exponent.toNat ≥ overflowBound
    else value.digits ≥ overflowBound * Nat.pow 10 value.exponent.natAbs

end Decimal

/-- A number with a fraction or an exponent, or one of the special values. -/
inductive FloatValue where
  | finite (value : Decimal)
  | infinite (negative : Bool)
  | nan
  deriving DecidableEq, Repr

def FloatValue.isZero : FloatValue → Bool
  | finite value => value.roundsToZero
  | infinite _ | nan => false

end DocComment
