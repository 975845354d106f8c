import Pipelines.Exchange.Number.Binary64

namespace Pipelines.Exchange

/-!
# The shortest decimal form

A binary number is shown by the fewest digits that are nearer to it than to any
other binary number, and among those by the nearest. The digits are found by
trying the two neighbours of the number on ever finer decimal grids, in exact
arithmetic on naturals.
-/

/-- The number `digits * 10 ^ exponent`. -/
structure Decimal where
  digits : Nat
  exponent : Int
deriving DecidableEq

namespace Binary64

/-- Compares `digits * 10 ^ power` with `mantissa * 2 ^ exponent`. -/
def compareDecimal (digits : Nat) (power : Int) (mantissa : Nat) (exponent : Int) : Ordering :=
  compare (digits * Nat.pow 10 power.toNat * Nat.pow 2 (-exponent).toNat)
    (mantissa * Nat.pow 2 exponent.toNat * Nat.pow 10 (-power).toNat)

/-- Whether a decimal is nearer to a number than to any other: it lies between the midpoints to
the two neighbours. A midpoint itself belongs to the even mantissa. Below a power of two the
neighbour is half as far away. -/
def readsBack (x : Binary64) (digits : Nat) (power : Int) : Bool :=
  let narrow := x.mantissa = Nat.pow 2 52 ∧ -1074 < x.exponent
  let below := compareDecimal digits power
    (if narrow then 4 * x.mantissa - 1 else 4 * x.mantissa - 2) (x.exponent - 2)
  let above := compareDecimal digits power (4 * x.mantissa + 2) (x.exponent - 2)
  let even := x.mantissa % 2 = 0
  (below == .gt || (even && below == .eq)) && (above == .lt || (even && above == .eq))

def digitCount (n : Nat) : Nat :=
  (Nat.toDigits 10 n).length

/-- The power of ten of the first grid on which a positive number has a digit. -/
def leadingPower (x : Binary64) : Int :=
  if x.denominator ≤ x.numerator then (digitCount (x.numerator / x.denominator) : Int) - 1
  else
    let count := digitCount (x.denominator / x.numerator)
    if x.denominator ≤ x.numerator * Nat.pow 10 (count - 1) then 1 - (count : Int)
    else -(count : Int)

/-- The nearer of the two neighbours of a number on a decimal grid, of those that read back. -/
def onGrid? (x : Binary64) (power : Int) : Option Decimal :=
  let scaled := x.numerator * Nat.pow 10 (-power).toNat
  let unit := x.denominator * Nat.pow 10 power.toNat
  let low := scaled / unit
  let left := 2 * (scaled % unit)
  let lowReads := x.readsBack low power
  let highReads := x.readsBack (low + 1) power
  let highNearer := unit < left || (unit == left && low % 2 == 1)
  if lowReads && !(highReads && highNearer) then some ⟨low, power⟩
  else if highReads then some ⟨low + 1, power⟩
  else none

/-- The shortest decimal of a positive number. Seventeen digits always suffice; were they not to,
the exact value would still be a decimal. -/
def shortest (x : Binary64) : Decimal :=
  let grids := (List.range 17).map fun (finer : Nat) => x.leadingPower - (finer : Int)
  (grids.findSome? x.onGrid?).getD
    ⟨x.numerator * Nat.pow 5 (-x.exponent).toNat, min x.exponent 0⟩

end Binary64

/-- Digits without the zeros at their end, which move to the exponent. -/
def Decimal.strip (digits : Nat) (exponent : Int) : Decimal :=
  if h : digits ≠ 0 ∧ digits % 10 = 0 then strip (digits / 10) (exponent + 1)
  else ⟨digits, exponent⟩
termination_by digits
decreasing_by omega

/-- The written form of a decimal: positional where the leading digit stands between the fifth
place after the point and the sixteenth before it, with at least one digit on each side of the
point, and otherwise one digit, a fraction if there are more, and an exponent with its sign. -/
def Decimal.text (decimal : Decimal) : String :=
  let ⟨digits, exponent⟩ := Decimal.strip decimal.digits decimal.exponent
  let digits := Nat.toDigits 10 digits
  let point : Int := digits.length + exponent
  if 0 ≤ exponent ∧ point ≤ 16 then
    .ofList (digits ++ List.replicate exponent.toNat '0' ++ ['.', '0'])
  else if 0 < point ∧ point ≤ 16 then
    .ofList (digits.take point.toNat ++ '.' :: digits.drop point.toNat)
  else if -5 < point ∧ point ≤ 0 then
    .ofList ('0' :: '.' :: List.replicate (-point).toNat '0' ++ digits)
  else
    let fraction := if digits.length = 1 then [] else '.' :: digits.drop 1
    let sign := if 0 < point then "+" else "-"
    .ofList (digits.take 1 ++ fraction) ++ "e" ++ sign ++ toString (point - 1).natAbs

def Binary64.text (negative : Bool) (x : Binary64) : String :=
  (if negative then "-" else "") ++ (if x.mantissa = 0 then "0.0" else x.shortest.text)

end Pipelines.Exchange
