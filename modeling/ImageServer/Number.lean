import ImageServer.LuaString
import Mathlib.Data.Rat.Floor
import Mathlib.Data.Int.Log
import Mathlib.Data.Nat.Digits.Defs
import Mathlib.Algebra.Order.Field.Rat

/-! Double-precision numbers as Lua and JavaScript have them. Finite numbers are kept as
rationals. Reading a numeral and every operation round to the nearest double. There is only
one zero. -/

namespace ImageServer

inductive Number where
  | fin (value : ℚ)
  | inf (negative : Bool)
  | nan
  deriving DecidableEq

namespace Number

def roundHalfEven (value : ℚ) : ℤ :=
  let part := value - ⌊value⌋
  if part < 1 / 2 then ⌊value⌋
  else if 1 / 2 < part then ⌊value⌋ + 1
  else if ⌊value⌋ % 2 = 0 then ⌊value⌋ else ⌊value⌋ + 1

/-- The distance between neighbouring doubles at a magnitude. -/
def spacing (value : ℚ) : ℚ := 2 ^ (max (Int.log 2 |value|) (-1022) - 52)

/-- The nearest double, ties to even. -/
def nearest (value : ℚ) : Number :=
  let rounded := roundHalfEven (value / spacing value) * spacing value
  if |rounded| < 2 ^ 1024 then .fin rounded else .inf (decide (rounded < 0))

instance (n : Nat) : OfNat Number n := ⟨.fin n⟩

def neg : Number → Number
  | .fin value => .fin (-value)
  | .inf negative => .inf !negative
  | .nan => .nan

def add : Number → Number → Number
  | .fin a, .fin b => nearest (a + b)
  | .inf s, .inf t => if s = t then .inf s else .nan
  | .inf s, .fin _ | .fin _, .inf s => .inf s
  | .nan, _ | _, .nan => .nan

def mul : Number → Number → Number
  | .fin a, .fin b => nearest (a * b)
  | .inf s, .inf t => .inf (s != t)
  | .inf s, .fin a | .fin a, .inf s => if a = 0 then .nan else .inf (s != decide (a < 0))
  | .nan, _ | _, .nan => .nan

def div : Number → Number → Number
  | .fin a, .fin b => if b = 0 then (if a = 0 then .nan else .inf (decide (a < 0))) else nearest (a / b)
  | .inf _, .inf _ => .nan
  | .inf s, .fin a => .inf (s != decide (a < 0))
  | .fin _, .inf _ => .fin 0
  | .nan, _ | _, .nan => .nan

/-- Comparison is false on both sides of a NaN. -/
def lt : Number → Number → Bool
  | .fin a, .fin b => a < b
  | .fin _, .inf t => !t
  | .inf s, .fin _ => s
  | .inf s, .inf t => s && !t
  | .nan, _ | _, .nan => false

def eq (a b : Number) : Bool := a == b && a != .nan

def le (a b : Number) : Bool := lt a b || eq a b

instance : Add Number := ⟨add⟩
instance : Sub Number := ⟨fun a b => add a (neg b)⟩
instance : Mul Number := ⟨mul⟩
instance : Div Number := ⟨div⟩

def ofInt (value : ℤ) : Number := .fin value

@[simp] theorem nan_lt (a : Number) : lt .nan a = false := by cases a <;> rfl

/-- Conversion to a C `int`: truncation toward zero. What does not fit has no documented
result; the x86 conversion yields this one. -/
def toInt : Number → ℤ
  | .fin value => if 0 ≤ value then ⌊value⌋ else ⌈value⌉
  | _ => -2147483648

end Number

def isDigit (b : UInt8) : Bool := 48 ≤ b && b ≤ 57

/-- The value of a string of decimal digits. -/
def decimal (digits : Bytes) : Nat := digits.foldl (fun value digit => 10 * value + (digit.toNat - 48)) 0

def decimalDigits (n : Nat) : Bytes :=
  if n = 0 then [48] else (Nat.digits 10 n).reverse.map fun digit => UInt8.ofNat (48 + digit)

namespace Lua

/-- `tonumber` on a text of digits and stars, the only texts it is called on. -/
def tonumber (text : Bytes) : Option Number :=
  if text ≠ [] ∧ text.all isDigit then some (.nearest (decimal text)) else none

def stripZeros (digits : Bytes) : Bytes := (digits.reverse.dropWhile (· = 48)).reverse

def fraction (digits : Bytes) : Bytes :=
  if stripZeros digits = [] then [] else 46 :: stripZeros digits

/-- `%.14g` of a positive number. -/
def general (value : ℚ) : Bytes :=
  let exponent := Int.log 10 value
  let scaled := Number.roundHalfEven (value / 10 ^ (exponent - 13))
  -- rounding up may carry into a fifteenth digit
  let exponent := if scaled = 10 ^ 14 then exponent + 1 else exponent
  let digits := decimalDigits (if scaled = 10 ^ 14 then 10 ^ 13 else scaled.toNat)
  if 0 ≤ exponent ∧ exponent < 14 then
    digits.take (exponent.toNat + 1) ++ fraction (digits.drop (exponent.toNat + 1))
  else if -4 ≤ exponent ∧ exponent < 0 then
    [48, 46] ++ List.replicate ((-exponent).toNat - 1) 48 ++ stripZeros digits
  else
    digits.take 1 ++ fraction (digits.drop 1) ++ [101, if exponent < 0 then 45 else 43] ++
      (if exponent.natAbs < 10 then [48] else []) ++ decimalDigits exponent.natAbs

/-- How a number is written into a string by `..`. -/
def tostring : Number → Bytes
  | .nan => bytes "nan"
  | .inf negative => if negative then bytes "-inf" else bytes "inf"
  | .fin value =>
    if value = 0 then bytes "0" else if value < 0 then 45 :: general (-value) else general value

end Lua
end ImageServer
