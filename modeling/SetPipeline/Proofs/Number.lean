import Mathlib.Algebra.Order.Ring.Rat
import SetPipeline.Number

/-! Comparing numbers. Numbers of all types are compared as points of one line, on which every number but not-a-number
has a place. -/
namespace SetPipeline

theorem Point.lt_iff {p q : Point} : p.lt q = true ↔ q.lt p = false ∧ q ≠ p := by
  cases p <;> cases q <;> simp [lt]
  case finite.finite r s => rw [lt_iff_le_and_ne, ne_comm]

namespace Number

variable {a b c : Number}

theorem point?_eq_none : a.point? = none ↔ a.isNan = true := by
  cases a with
  | bool b => simp [point?, isNan]
  | int n => simp [point?, isNan]
  | double x => cases x <;> simp [point?, isNan, Double.toRat?]

theorem same_iff : a.same b = true ↔ ∃ p, a.point? = some p ∧ b.point? = some p := by
  unfold same
  cases a.point? with
  | none => simp
  | some p =>
    cases b.point? with
    | none => simp
    | some q => simpa using eq_comm

theorem lt_of_same (h : a.same b = true) : c.lt a = c.lt b := by
  obtain ⟨p, ha, hb⟩ := same_iff.1 h
  rw [lt, lt, ha, hb]

theorem lt_iff : a.lt b = true ↔ b.le a = false ∧ a.isNan = false ∧ b.isNan = false := by
  have hnan (n : Number) : n.isNan = false ↔ n.point? ≠ none := by simp [point?_eq_none]
  rw [hnan, hnan]
  unfold le lt same
  cases a.point? with
  | none => simp
  | some p =>
    cases b.point? with
    | none => simp
    | some q => simpa using Point.lt_iff

theorem same_zero_iff {x : Double} : (double x).same (int 0) = true ↔ x.toRat? = some 0 := by
  rw [same_iff]
  cases x with
  | finite negative m e => simp [point?, Double.toRat?, eq_comm]
  | infinite negative => cases negative <;> simp [point?, Double.toRat?]
  | nan => simp [point?, Double.toRat?]

end Number
end SetPipeline
