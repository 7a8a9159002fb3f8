/-! Binary floating-point numbers of 53 significant bits. A finite number is kept as its exact
dyadic value, so arithmetic on it is arithmetic on naturals and rationals. Rounding is to the
nearest number, a tie going to the even mantissa; what lies beyond the largest number is infinite. -/
namespace SetPipeline

inductive Double where
  | finite (negative : Bool) (mantissa : Nat) (exponent : Int)
  | infinite (negative : Bool)
  | nan
  deriving DecidableEq, Repr, Inhabited

namespace Double

def toRat? : Double → Option Rat
  | finite negative m e => some ((if negative then -1 else 1) * (m : Rat) * (2 : Rat) ^ e)
  | infinite _ | nan => none

def twoTo (n : Nat) : Nat := Nat.pow 2 n
def tenTo (n : Nat) : Nat := Nat.pow 10 n

/-- The exponent of the smallest numbers, and the largest exponent there is. -/
def minExponent : Int := -1074
def maxExponent : Int := 971

/-- Scale a ratio by two to the power of minus `e` and take the nearest natural. -/
def scaled (num den : Nat) (e : Int) : Nat :=
  let n := num * twoTo (-e).toNat
  let d := den * twoTo e.toNat
  let q := n / d
  let r := n % d
  if 2 * r < d then q else if d < 2 * r then q + 1 else q + q % 2

def zero (negative : Bool) : Double := finite negative 0 minExponent

/-- The number nearest to a non-negative ratio. -/
def ofRatio (negative : Bool) (num den : Nat) : Double :=
  if num = 0 then zero negative else
    let e : Int := (num.log2 : Int) - den.log2 - 53
    let e := if e < minExponent then minExponent else e
    let e := if twoTo 53 ≤ num * twoTo (-e).toNat / (den * twoTo e.toNat) then e + 1 else e
    let m := scaled num den e
    let (m, e) := if m = twoTo 53 then (twoTo 52, e + 1) else (m, e)
    if maxExponent < e then infinite negative else finite negative m e

/-- The number nearest to the decimal `digits · 10 ^ exponent`. Decimals far outside the range are
settled by their size alone, so that no power of ten is larger than the range needs. -/
def ofDecimal (negative : Bool) (digits : List Nat) (exponent : Int) : Double :=
  let digits := digits.dropWhile (· == 0)
  let size : Int := digits.length + exponent
  if digits.isEmpty || size < -330 then zero negative
  else if 310 < size then infinite negative
  else
    let n := digits.foldl (fun a d => 10 * a + d) 0
    ofRatio negative (n * tenTo exponent.toNat) (tenTo (-exponent).toNat)

theorem ofDecimal_nil (negative : Bool) (exponent : Int) :
    ofDecimal negative [] exponent = zero negative := by simp [ofDecimal]

theorem toRat?_zero (negative : Bool) : toRat? (zero negative) = some 0 := by
  have h : ((0 : Nat) : Rat) = 0 := rfl
  rw [zero, toRat?, h, Rat.mul_zero, Rat.zero_mul]

def toInt? : Double → Option Int
  | finite negative m e =>
    let s : Int := if negative then -1 else 1
    let unit := twoTo (-e).toNat
    if 0 ≤ e then some (s * (m * twoTo e.toNat : Nat))
    else if m % unit = 0 then some (s * (m / unit : Nat)) else none
  | infinite _ | nan => none

def times (n : Int) : Double → Double
  | finite negative m e =>
    ofRatio (negative != decide (n < 0)) (m * n.natAbs * twoTo e.toNat) (twoTo (-e).toNat)
  | infinite negative => if n = 0 then nan else infinite (negative != decide (n < 0))
  | nan => nan

def ofRat (r : Rat) : Double := ofRatio (decide (r < 0)) r.num.natAbs r.den

/-- A rational rounded to the value of the nearest number; one beyond the range stays as it is. -/
def nearest (r : Rat) : Rat := (ofRat r).toRat?.getD r

def isFinite : Double → Bool
  | finite .. => true
  | infinite _ | nan => false

end Double
end SetPipeline
