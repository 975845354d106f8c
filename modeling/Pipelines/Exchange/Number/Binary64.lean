namespace Pipelines.Exchange

/-!
# Binary numbers of 64 bits

Numbers with a fraction or an exponent are kept as binary64: 53 bits of
mantissa, the least exponent being -1074. Every operation rounds its exact
result, a quotient of naturals, to the nearest such number, and a half to the
even neighbour.
-/

/-- The nonnegative number `mantissa * 2 ^ exponent`. -/
structure Binary64 where
  mantissa : Nat
  exponent : Int
deriving DecidableEq

namespace Binary64

def numerator (x : Binary64) : Nat :=
  x.mantissa * Nat.pow 2 x.exponent.toNat

def denominator (x : Binary64) : Nat :=
  Nat.pow 2 (-x.exponent).toNat

/-- The nearest natural to a quotient, the even one of two that are equally near. -/
def nearest (numerator denominator : Nat) : Nat :=
  let whole := numerator / denominator
  let left := 2 * (numerator % denominator)
  if denominator < left ∨ (denominator = left ∧ whole % 2 = 1) then whole + 1 else whole

/-- The exponent of the leading bit of a positive quotient. -/
def leadingBit (numerator denominator : Nat) : Int :=
  let guess : Int := (numerator.log2 : Int) - denominator.log2
  if numerator * Nat.pow 2 (-guess).toNat < denominator * Nat.pow 2 guess.toNat then guess - 1 else guess

def round (numerator denominator : Nat) : Binary64 :=
  if numerator = 0 then ⟨0, -1074⟩
  else
    let exponent := max (leadingBit numerator denominator - 52) (-1074)
    let mantissa :=
      nearest (numerator * Nat.pow 2 (-exponent).toNat) (denominator * Nat.pow 2 exponent.toNat)
    if mantissa = Nat.pow 2 53 then ⟨Nat.pow 2 52, exponent + 1⟩ else ⟨mantissa, exponent⟩

def isFinite (x : Binary64) : Bool :=
  x.exponent ≤ 971

def mul (x y : Binary64) : Binary64 :=
  round (x.numerator * y.numerator) (x.denominator * y.denominator)

def div (x y : Binary64) : Binary64 :=
  round (x.numerator * y.denominator) (x.denominator * y.numerator)

def powerOfTen (power : Nat) : Binary64 :=
  round (Nat.pow 10 power) 1

/-- Divides a number by a power of ten, which may be beyond all finite numbers. -/
def divPowerOfTen (x : Binary64) (power : Nat) : Binary64 :=
  if power ≤ 308 then x.div (powerOfTen power)
  else if x.mantissa = 0 then x
  else (x.div (powerOfTen 308)).divPowerOfTen (power - 308)
termination_by power

/-- A significand times a power of ten, rounded at the significand, at the power and at their
product or quotient. Without a value when that is beyond all finite numbers. -/
def ofDecimal? (significand : Nat) (power : Int) : Option Binary64 :=
  let start := round significand 1
  if power < 0 then some (start.divPowerOfTen power.natAbs)
  else if power ≤ 308 then
    let product := start.mul (powerOfTen power.toNat)
    if product.isFinite then some product else none
  else if start.mantissa = 0 then some start
  else none

end Binary64

end Pipelines.Exchange
