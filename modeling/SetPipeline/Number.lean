import SetPipeline.Double.Shortest

/-! Numbers of the three numeric types, compared by their exact values. A truth value counts as zero or
one, and not-a-number compares with nothing. -/
namespace SetPipeline

/-- A point of the rational line or one of its two ends. -/
inductive Point where
  | low
  | finite (r : Rat)
  | high
  deriving DecidableEq

namespace Point

def lt : Point → Point → Bool
  | low, low => false
  | low, _ => true
  | .finite a, .finite b => decide (a < b)
  | .finite _, high => true
  | _, _ => false

@[simp] theorem lt_irrefl (p : Point) : p.lt p = false := by
  cases p with
  | low | high => rfl
  | finite r => exact decide_eq_false Rat.lt_irrefl

end Point

inductive Number where
  | bool (b : Bool)
  | int (n : Int)
  | double (x : Double)
  deriving DecidableEq, Repr

namespace Number

def point? : Number → Option Point
  | bool b => some (.finite (if b then 1 else 0))
  | int n => some (.finite n)
  | double (.infinite negative) => some (if negative then .low else .high)
  | double .nan => none
  | double x => x.toRat?.map .finite

/-- Strictly less; false if either is not-a-number. -/
def lt (a b : Number) : Bool :=
  match a.point?, b.point? with
  | some p, some q => p.lt q
  | _, _ => false

/-- Equal in value; false if either is not-a-number. -/
def same (a b : Number) : Bool :=
  match a.point?, b.point? with
  | some p, some q => p == q
  | _, _ => false

def le (a b : Number) : Bool := a.lt b || a.same b

def isNan : Number → Bool
  | double .nan => true
  | _ => false

theorem point?_int (n : Int) : (int n).point? = some (.finite n) := rfl

theorem int_lt_int {m n : Int} : (int m).lt (int n) = true ↔ m < n :=
  decide_eq_true_iff.trans Rat.intCast_lt_intCast

/-- A number taken `n` times. A truth value then counts as an integer. -/
def times (n : Int) : Number → Number
  | bool b => int (if b then n else 0)
  | int k => int (k * n)
  | double x => double (x.times n)

/-- Whether the number is an integer greater than all doubles, which a clock that counts in doubles cannot add to its
time. -/
def isBeyondClock : Number → Bool
  | int n => 0 < n && !(Double.ofRat n).isFinite
  | bool _ | double _ => false

def seconds? : Number → Option Point
  | int n => some (.finite (Double.nearest n))
  | x => x.point?

def toText : Number → String
  | bool b => if b then "True" else "False"
  | int n => toString n
  | double x => x.toText

end Number
end SetPipeline
