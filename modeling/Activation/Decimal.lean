namespace Activation.Decimal

inductive Binary where
  -- The value is significand · 2^exponent. Either the exponent is the least one, -1074, or the
  -- significand has all its 53 bits.
  | finite (negative : Bool) (significand : Nat) (exponent : Int)
  | infinite (negative : Bool)
  | undefined
deriving DecidableEq

def Binary.leastExponent : Int := -1074

def Binary.greatestExponent : Int := 971

def Binary.leastFull : Nat := Nat.pow 2 52

-- The quotient rounded to the nearest natural number, a tie to the even one.
def roundToEven (numerator denominator : Nat) : Nat :=
  let quotient := numerator / denominator
  let twice := 2 * (numerator % denominator)
  if twice < denominator then quotient
  else if denominator < twice then quotient + 1
  else quotient + quotient % 2

def roundScaled (numerator denominator : Nat) (power : Int) : Nat :=
  if 0 ≤ power then roundToEven (numerator * Nat.pow 2 power.toNat) denominator
  else roundToEven numerator (denominator * Nat.pow 2 (-power).toNat)

-- The exponent at which a positive quotient has a significand of 53 bits, but no less than the
-- least exponent. The difference of the binary lengths is right or one too great.
def exponentOf (numerator denominator : Nat) : Int :=
  let estimate : Int := (numerator.log2 : Int) - (denominator.log2 : Int)
  let reached : Bool :=
    if 0 ≤ estimate then decide (denominator * Nat.pow 2 estimate.toNat ≤ numerator)
    else decide (denominator ≤ numerator * Nat.pow 2 (-estimate).toNat)
  max Binary.leastExponent ((if reached then estimate else estimate - 1) - 52)

def nearest (negative : Bool) (numerator denominator : Nat) : Binary :=
  if numerator = 0 then .finite negative 0 Binary.leastExponent
  else
    let exponent := exponentOf numerator denominator
    let significand := roundScaled numerator denominator (-exponent)
    let (significand, exponent) :=
      if significand = 2 * Binary.leastFull then (Binary.leastFull, exponent + 1)
      else (significand, exponent)
    if Binary.greatestExponent < exponent then .infinite negative
    else .finite negative significand exponent

-- The nearest binary number to digits · 10^exponent. Far outside the range nothing has to be
-- computed: a number of n digits lies below 10^n.
def ofDecimal (negative : Bool) (digits : Nat) (exponent : Int) : Binary :=
  let length : Int := (Nat.toDigits 10 digits).length
  if digits = 0 then .finite negative 0 Binary.leastExponent
  else if 400 < length + exponent then .infinite negative
  else if length + exponent < -400 then .finite negative 0 Binary.leastExponent
  else if 0 ≤ exponent then nearest negative (digits * Nat.pow 10 exponent.toNat) 1
  else nearest negative digits (Nat.pow 10 (-exponent).toNat)

-- A positive number between the two ends of the numbers that round to it, as three numerators
-- over one denominator. The ends belong to the interval when they round to the number too.
structure Interval where
  low : Nat
  value : Nat
  high : Nat
  denominator : Nat
  closed : Bool

-- The interval of a positive significand and its exponent. The gap below a power of two is half
-- the gap above it.
def Interval.around (significand : Nat) (exponent : Int) : Interval :=
  let below : Nat :=
    if significand = Binary.leastFull ∧ Binary.leastExponent < exponent then 1 else 2
  let scale := Nat.pow 2 exponent.toNat
  { low := (4 * significand - below) * scale
    value := 4 * significand * scale
    high := (4 * significand + 2) * scale
    denominator := 4 * Nat.pow 2 (-exponent).toNat
    closed := significand % 2 = 0 }

def Interval.holds (interval : Interval) (digits up down : Nat) : Bool :=
  let point := digits * up * interval.denominator
  let low := interval.low * down
  let high := interval.high * down
  if interval.closed then decide (low ≤ point ∧ point ≤ high)
  else decide (low < point ∧ point < high)

-- The digits at one power of ten, if a multiple of that power lies in the interval: the nearer of
-- the two neighbours of the value that do, the upper one at a tie.
def Interval.digitsAt (interval : Interval) (power : Int) : Option Nat :=
  let up := Nat.pow 10 power.toNat
  let down := Nat.pow 10 (-power).toNat
  let numerator := interval.value * down
  let step := interval.denominator * up
  let lower := numerator / step
  let lowerHolds := lower ≠ 0 ∧ interval.holds lower up down = true
  let upperHolds := interval.holds (lower + 1) up down = true
  if lowerHolds ∧ (¬ upperHolds ∨ 2 * (numerator % step) < step) then some lower
  else if upperHolds then some (lower + 1)
  else none

def Interval.topPower (interval : Interval) : Int :=
  if interval.denominator ≤ interval.value then
    (Nat.toDigits 10 (interval.value / interval.denominator)).length
  else
    1 - ((Nat.toDigits 10 (interval.denominator / interval.value)).length : Int)

-- The digits and the power of ten of the shortest decimal in the interval. Seventeen digits always
-- suffice.
def Interval.shortest (interval : Interval) : Nat × Int :=
  let found := (List.range 20).findSome? fun (step : Nat) =>
    let power := interval.topPower - step
    (interval.digitsAt power).map fun digits => (digits, power)
  found.getD (0, 0)

def positional (digits : Nat) (power : Int) : String :=
  let text := Nat.toDigits 10 digits
  if 0 ≤ power then String.ofList (text ++ List.replicate power.toNat '0')
  else
    let places := (-power).toNat
    if places < text.length then
      String.ofList (text.take (text.length - places) ++ '.' :: text.drop (text.length - places))
    else
      String.ofList ('0' :: '.' :: List.replicate (places - text.length) '0' ++ text)

def Binary.text : Binary → String
  | .finite negative significand exponent =>
    let sign := if negative then "-" else ""
    if significand = 0 then sign ++ "0"
    else
      let (digits, power) := (Interval.around significand exponent).shortest
      sign ++ positional digits power
  | .infinite negative => if negative then "-inf" else "inf"
  | .undefined => "NaN"

end Activation.Decimal
