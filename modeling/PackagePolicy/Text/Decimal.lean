import PackagePolicy.Text.Digit

/-!
# Decimal numbers and the range of doubles

A decimal numeral denotes `m * 10 ^ e`. The largest magnitude that rounds to a finite number of 64 bits
is just below `2 ^ 1024 - 2 ^ 970`, the middle between the largest such number and the next power of two.
Whether a numeral is within the range is asked in two ways: of the number that it denotes, and of the
product of two doubles, its leading digits and a power of ten, each of which is rounded first.
-/

namespace PackagePolicy.Text

/-- The least magnitude that rounds to no finite number of 64 bits. -/
def doubleBound : Nat := Nat.pow 2 1024 - Nat.pow 2 970

def exceedsDouble (m : Nat) (e : Int) : Bool :=
  if m = 0 then false
  else
    match e with
    | .ofNat n => n > 400 || m * Nat.pow 10 n ≥ doubleBound
    | .negSucc n => n ≤ m.log2 && m ≥ doubleBound * Nat.pow 10 (n + 1)

/-- A number rounded to 53 binary digits; of two equally near ones the even one is taken. -/
def roundBits (m : Nat) : Nat :=
  let unit := Nat.pow 2 (m.log2 - 52)
  let q := m / unit
  let r := m % unit
  if unit < 2 * r || (unit == 2 * r && q % 2 == 1) then (q + 1) * unit else q * unit

/-- The product of the doubles next to `m` and to `10 ^ e` is no finite double. The powers of ten
from `10 ^ 309` are no doubles; division by a power never leads out of the range. -/
def productExceedsDouble (m : Nat) (e : Int) : Bool :=
  if m = 0 then false
  else
    match e with
    | .ofNat n => n > 308 || roundBits m * roundBits (Nat.pow 10 n) ≥ doubleBound
    | .negSucc _ => false

/-- Appends digits to a number as long as it stays below `2 ^ 64`: the number, and how many digits
were taken. -/
def appendDigits (m : Nat) : Text → Nat × Nat
  | [] => (m, 0)
  | c :: s =>
    let n := 10 * m + (c.toNat - '0'.toNat)
    if n < Nat.pow 2 64 then
      let (k, taken) := appendDigits n s
      (k, taken + 1)
    else (m, 0)

structure Numeral where
  whole : Text
  fraction : Text
  negativeExponent : Bool
  exponent : Text
deriving Repr

namespace Numeral

def power (n : Numeral) : Int :=
  if n.negativeExponent then -(decimalValue n.exponent : Int) else decimalValue n.exponent

def isTooLarge (n : Numeral) : Bool :=
  exceedsDouble (decimalValue (n.whole ++ n.fraction)) (n.power - n.fraction.length)

/-- The product of the digits that fit into 64 bits and the power of ten in their place is no finite
double. Digits before the point that do not fit only raise the power. -/
def productIsTooLarge (n : Numeral) : Bool :=
  let (whole, takenOfWhole) := appendDigits 0 n.whole
  let (m, takenOfFraction) := appendDigits whole n.fraction
  productExceedsDouble m (n.power + n.whole.length - takenOfWhole - takenOfFraction)

end Numeral
end PackagePolicy.Text
