import Activation.Decimal
import Activation.Toml.Text

namespace Activation.Toml

inductive Number where
  | integer (value : Int)
  | float (value : Decimal.Binary)
deriving DecidableEq

def moreDigits (isOne : Char → Bool) : Step (List Char)
  | '_' :: c :: rest =>
    if isOne c then
      (moreDigits isOne rest).map fun (digits, rest) => (c :: digits, rest)
    else wanted "digit" (c :: rest)
  | '_' :: [] => wanted "digit" []
  | c :: rest =>
    if isOne c then
      (moreDigits isOne rest).map fun (digits, rest) => (c :: digits, rest)
    else .ok ([], c :: rest)
  | [] => .ok ([], [])

def digits (isOne : Char → Bool) : Step (List Char)
  | c :: rest =>
    if isOne c then
      (moreDigits isOne rest).map fun (more, rest) => (c :: more, rest)
    else wanted "digit" (c :: rest)
  | [] => wanted "digit" []

-- The digits of a decimal number: a zero alone, or digits that do not start with zero.
def wholeDigits : Step (List Char)
  | '0' :: rest => .ok (['0'], rest)
  | chars => digits isDigit chars

-- Integers have 64 bits with a sign.
def integer (value : Int) (rest : List Char) : Except Fault (Number × List Char) :=
  if Int64.minValue.toInt ≤ value && value ≤ Int64.maxValue.toInt then .ok (.integer value, rest)
  else .error (.outOfRange "integer")

def exponent : Step Int := fun chars =>
  let (sign, rest) : Int × List Char := match chars with
    | '+' :: rest => (1, rest)
    | '-' :: rest => (-1, rest)
    | rest => (1, rest)
  (digits isDigit rest).map fun (digits, rest) => (sign * (numeral 10 digits : Nat), rest)

def exponent? : Step Int
  | 'e' :: rest => exponent rest
  | 'E' :: rest => exponent rest
  | rest => .ok (0, rest)

-- A decimal number with a fraction or an exponent. One too great for its kind is refused when it
-- is positive and infinite when it is negative.
def float (negative : Bool) (whole fraction : List Char) (exponent : Int) (rest : List Char) :
    Except Fault (Number × List Char) :=
  let value :=
    Decimal.ofDecimal negative (numeral 10 (whole ++ fraction)) (exponent - fraction.length)
  if value = .infinite false then .error (.outOfRange "float") else .ok (.float value, rest)

def decimal (negative : Bool) : Step Number := fun chars => do
  let (whole, rest) ← wholeDigits chars
  match rest with
  | '.' :: rest =>
    let (fraction, rest) ← digits isDigit rest
    let (exponent, rest) ← exponent? rest
    float negative whole fraction exponent rest
  | 'e' :: rest =>
    let (exponent, rest) ← exponent rest
    float negative whole [] exponent rest
  | 'E' :: rest =>
    let (exponent, rest) ← exponent rest
    float negative whole [] exponent rest
  | rest =>
    let magnitude : Int := (numeral 10 whole : Nat)
    integer (if negative then -magnitude else magnitude) rest

def signed (negative : Bool) : Step Number
  | 'i' :: 'n' :: 'f' :: rest => .ok (.float (.infinite negative), rest)
  | 'n' :: 'a' :: 'n' :: rest => .ok (.float .undefined, rest)
  | chars => decimal negative chars

def basedInteger (isOne : Char → Bool) (base : Nat) : Step Number := fun chars => do
  let (digits, rest) ← digits isOne chars
  integer (numeral base digits : Nat) rest

def number : Step Number
  | '0' :: 'x' :: rest => basedInteger isHex 16 rest
  | '0' :: 'o' :: rest => basedInteger isOctal 8 rest
  | '0' :: 'b' :: rest => basedInteger isBinary 2 rest
  | '+' :: rest => signed false rest
  | '-' :: rest => signed true rest
  | chars => signed false chars

end Activation.Toml
