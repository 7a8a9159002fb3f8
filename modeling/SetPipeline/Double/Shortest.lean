import SetPipeline.Double

/-! The fewest decimal digits that read back as the same number. On the grid of `n` digits only the
two neighbours of the exact value can be nearest, so the first grid that has one of them in the
rounding interval is the shortest, and the nearer of two hits is taken. -/
namespace SetPipeline.Double

/-- A positive decimal `digits · 10 ^ exponent`. -/
structure Decimal where
  digits : Nat
  exponent : Int
  deriving DecidableEq, Repr

/-- Decimals and quarter units of the last binary place, brought to one scale:
`c · 10 ^ j` lies at `c * decimalUnit`, and `x · 2 ^ (e - 2)` at `x * binaryUnit`. -/
structure Scale where
  decimalUnit : Nat
  binaryUnit : Nat

def Scale.of (j e : Int) : Scale :=
  ⟨tenTo j.toNat * twoTo (2 - e).toNat, tenTo (-j).toNat * twoTo (e - 2).toNat⟩

/-- The rounding interval of `m · 2 ^ e` in quarter units. Below a power of two the neighbour is half
as far away, except at the smallest exponent. -/
def interval (m : Nat) (e : Int) : Nat × Nat :=
  (if m = twoTo 52 ∧ e ≠ minExponent then 4 * m - 1 else 4 * m - 2, 4 * m + 2)

def inInterval (m : Nat) (e : Int) (s : Scale) (c : Nat) : Bool :=
  let (lo, hi) := interval m e
  let x := c * s.decimalUnit
  if m % 2 = 0 then lo * s.binaryUnit ≤ x ∧ x ≤ hi * s.binaryUnit
  else lo * s.binaryUnit < x ∧ x < hi * s.binaryUnit

/-- The nearer neighbour of `m · 2 ^ e` on the grid of tens to the `j` that reads back, if one does. -/
def onGrid? (m : Nat) (e j : Int) : Option Nat :=
  let s := Scale.of j e
  let v := 4 * m * s.binaryUnit
  let lo := v / s.decimalUnit
  match inInterval m e s lo, inInterval m e s (lo + 1) with
  | true, false => some lo
  | false, true => some (lo + 1)
  | false, false => none
  | true, true =>
    let below := v - lo * s.decimalUnit
    let above := (lo + 1) * s.decimalUnit - v
    if below < above then some lo else if above < below then some (lo + 1) else some (lo + lo % 2)

/-- The exponent of ten just above `m · 2 ^ e`, from the number of digits of the ratio or of its
inverse. -/
def decimalSize (m : Nat) (e : Int) : Int :=
  let num := m * twoTo e.toNat
  let den := twoTo (-e).toNat
  if den ≤ num then (Nat.toDigits 10 (num / den)).length
  else
    let k : Int := 1 - (Nat.toDigits 10 (den / num)).length
    if tenTo (-k).toNat * num < den then k else k + 1

def dropZeros : Nat → Nat → Int → Decimal
  | 0, c, j => ⟨c, j⟩
  | n + 1, c, j => if c % 10 = 0 then dropZeros n (c / 10) (j + 1) else ⟨c, j⟩

/-- The shortest decimal of a positive finite number. Seventeen digits always suffice. -/
def shortest (m : Nat) (e : Int) : Decimal :=
  let k := decimalSize m e
  match (List.range 17).findSome? (fun n : Nat =>
      (onGrid? m e (k - 1 - n)).map (fun c => (c, k - 1 - (n : Int)))) with
  | some (c, j) => dropZeros 18 c j
  | none => ⟨m, e⟩

/-- Positional from 0.0001 up to sixteen digits before the point, else with an exponent of at least
two digits; a positional text always has a point. -/
def Decimal.toText (d : Decimal) : String :=
  let ds := Nat.toDigits 10 d.digits
  let size : Int := ds.length + d.exponent
  let chars :=
    if size ≤ -4 ∨ 16 < size then
      let p := size - 1
      let ps := Nat.toDigits 10 p.natAbs
      let ps := if ps.length < 2 then '0' :: ps else ps
      let frac := ds.drop 1
      ds.take 1 ++ (if frac.isEmpty then [] else '.' :: frac) ++
        ['e', if p < 0 then '-' else '+'] ++ ps
    else if size ≤ 0 then ['0', '.'] ++ List.replicate (-size).toNat '0' ++ ds
    else if 0 ≤ d.exponent then ds ++ List.replicate d.exponent.toNat '0' ++ ['.', '0']
    else ds.take size.toNat ++ '.' :: ds.drop size.toNat
  String.ofList chars

def toText : Double → String
  | nan => "nan"
  | infinite negative => if negative then "-inf" else "inf"
  | finite negative m e =>
    (if negative then "-" else "") ++ (if m = 0 then "0.0" else (shortest m e).toText)

end SetPipeline.Double
