import Mathlib.Algebra.Order.Field.Power
import Mathlib.Tactic.Linarith
import Mathlib.Tactic.Positivity
import Mathlib.Tactic.Ring
import SetPipeline.Double

/-! Rounding to doubles. What is rounded has fewer than 54 significant bits and an exponent in range, and a ratio of
that form is left as it is; so to round again changes nothing. -/
namespace SetPipeline.Double

/-- The exponent that rounding tries first: it leaves 53 or 54 bits, or is the smallest there is. -/
def firstExponent (num den : Nat) : Int :=
  let e : Int := (num.log2 : Int) - den.log2 - 53
  if e < minExponent then minExponent else e

/-- The exponent of the last bit that rounding keeps. -/
def lastExponent (num den : Nat) : Int :=
  let e := firstExponent num den
  if twoTo 53 ≤ num * twoTo (-e).toNat / (den * twoTo e.toNat) then e + 1 else e

theorem ofRatio_eq (negative : Bool) {num : Nat} (den : Nat) (h : num ≠ 0) :
    ofRatio negative num den =
      if scaled num den (lastExponent num den) = twoTo 53 then
        if maxExponent < lastExponent num den + 1 then infinite negative
        else finite negative (twoTo 52) (lastExponent num den + 1)
      else if maxExponent < lastExponent num den then infinite negative
      else finite negative (scaled num den (lastExponent num den)) (lastExponent num den) := by
  rw [ofRatio, if_neg h]
  show (let p := if scaled num den (lastExponent num den) = twoTo 53 then (twoTo 52, lastExponent num den + 1)
      else (scaled num den (lastExponent num den), lastExponent num den)
    if maxExponent < p.2 then infinite negative else finite negative p.1 p.2) = _
  by_cases hm : scaled num den (lastExponent num den) = twoTo 53
  · simp only [if_pos hm]
  · simp only [if_neg hm]

theorem ofRatio_ne_nan (negative : Bool) (num den : Nat) : ofRatio negative num den ≠ nan := by
  by_cases hnum : num = 0
  · rw [hnum]
    nofun
  · rw [ofRatio_eq negative den hnum]
    split <;> split <;> nofun

/-- The significant bits and the exponent of a finite number. -/
structure Canonical (m : Nat) (e : Int) : Prop where
  bits : m < twoTo 53
  least : minExponent ≤ e
  greatest : e ≤ maxExponent

theorem twoTo_pos (n : Nat) : 0 < twoTo n := Nat.pow_pos (by decide)

theorem cast_twoTo (n : Nat) : (twoTo n : Rat) = 2 ^ (n : Int) := by simp [twoTo]

theorem cast_twoTo_toNat (e : Int) : (twoTo e.toNat : Rat) = 2 ^ e * twoTo (-e).toNat := by
  rw [cast_twoTo, cast_twoTo, ← zpow_add₀ (by decide)]
  congr 1
  omega

section
variable {num den k m : Nat} {e : Int}

theorem le_quotient_iff (hden : 0 < den) :
    k ≤ num * twoTo (-e).toNat / (den * twoTo e.toNat) ↔ (k : Rat) * 2 ^ e ≤ num / den := by
  have hd : (0 : Rat) < den := Nat.cast_pos.2 hden
  have ht : (0 : Rat) < twoTo (-e).toNat := Nat.cast_pos.2 (twoTo_pos _)
  have hscaled : ((k * (den * twoTo e.toNat) : Nat) : Rat) = k * 2 ^ e * den * twoTo (-e).toNat := by
    push_cast
    rw [cast_twoTo_toNat e]
    ring
  have hcast : k * (den * twoTo e.toNat) ≤ num * twoTo (-e).toNat ↔
      ((k * (den * twoTo e.toNat) : Nat) : Rat) ≤ (num * twoTo (-e).toNat : Nat) := Nat.cast_le.symm
  rw [Nat.le_div_iff_mul_le (Nat.mul_pos hden (twoTo_pos _)), hcast, hscaled, Nat.cast_mul, mul_le_mul_iff_left₀ ht,
    le_div_iff₀ hd]

theorem quotient_lt_iff (hden : 0 < den) :
    num * twoTo (-e).toNat / (den * twoTo e.toNat) < k ↔ (num : Rat) / den < k * 2 ^ e := by
  rw [← not_le, le_quotient_iff hden, not_le]

theorem scaled_of_eq (hden : 0 < den) (h : (num : Rat) / den = k * 2 ^ e) : scaled num den e = k := by
  have hd : (den : Rat) ≠ 0 := Nat.cast_ne_zero.2 hden.ne'
  have hwhole : num * twoTo (-e).toNat = k * (den * twoTo e.toNat) := by
    rw [← Nat.cast_inj (R := Rat)]
    push_cast
    rw [cast_twoTo_toNat e, (div_eq_iff hd).1 h]
    ring
  have hpos : 0 < den * twoTo e.toNat := Nat.mul_pos hden (twoTo_pos _)
  simp only [scaled, hwhole, Nat.mul_mod_left, Nat.mul_div_cancel _ hpos, Nat.mul_zero, if_pos hpos]

theorem scaled_le (hden : 0 < den) (h : (num : Rat) / den < k * 2 ^ e) : scaled num den e ≤ k := by
  have hq := (quotient_lt_iff hden).2 h
  unfold scaled
  dsimp only
  split
  · exact hq.le
  · split
    · exact hq
    · omega

/-- Of the two neighbours of a quotient, the one that is nearer is taken. -/
theorem scaled_error (num : Nat) (hden : 0 < den) (e : Int) :
    2 * (num * twoTo (-e).toNat) ≤ 2 * (scaled num den e * (den * twoTo e.toNat)) + den * twoTo e.toNat ∧
      2 * (scaled num den e * (den * twoTo e.toNat)) ≤ 2 * (num * twoTo (-e).toNat) + den * twoTo e.toNat := by
  have hpos : 0 < den * twoTo e.toNat := Nat.mul_pos hden (twoTo_pos _)
  unfold scaled
  dsimp only
  generalize num * twoTo (-e).toNat = n
  generalize den * twoTo e.toNat = d at hpos ⊢
  have hn : n / d * d + n % d = n := by rw [Nat.mul_comm, Nat.div_add_mod]
  have hnext : (n / d + 1) * d = n / d * d + d := Nat.succ_mul _ _
  split
  · omega
  · next hlow =>
    split
    · next hhigh =>
      have hlt : n % d < d := Nat.mod_lt n hpos
      omega
    · rcases Nat.mod_two_eq_zero_or_one (n / d) with heven | hodd
      · rw [heven, Nat.add_zero]
        omega
      · rw [hodd]
        omega

theorem abs_scaled_sub_le (hden : 0 < den) : |(scaled num den e : Rat) * 2 ^ e - num / den| ≤ 2 ^ e / 2 := by
  have hd : (0 : Rat) < den := Nat.cast_pos.2 hden
  have ht : (0 : Rat) < twoTo (-e).toNat := Nat.cast_pos.2 (twoTo_pos _)
  have hunit : (0 : Rat) < den * twoTo (-e).toNat := mul_pos hd ht
  have hnum : (num : Rat) * twoTo (-e).toNat = num / den * (den * twoTo (-e).toNat) := by
    rw [← mul_assoc, div_mul_cancel₀ _ hd.ne']
  have hlast : (den : Rat) * twoTo e.toNat = 2 ^ e * (den * twoTo (-e).toNat) := by
    rw [cast_twoTo_toNat e]
    ring
  obtain ⟨hle, hge⟩ := scaled_error num hden e
  have hbelow : 2 * (num / den : Rat) ≤ 2 * (scaled num den e * 2 ^ e) + 2 ^ e := by
    have hcast : 2 * ((num : Rat) * twoTo (-e).toNat) ≤
        2 * (scaled num den e * (den * twoTo e.toNat)) + den * twoTo e.toNat := by exact_mod_cast hle
    rw [hnum, hlast] at hcast
    exact le_of_mul_le_mul_right (by linarith) hunit
  have habove : 2 * ((scaled num den e : Rat) * 2 ^ e) ≤ 2 * (num / den) + 2 ^ e := by
    have hcast : 2 * ((scaled num den e : Rat) * (den * twoTo e.toNat)) ≤
        2 * (num * twoTo (-e).toNat) + den * twoTo e.toNat := by exact_mod_cast hge
    rw [hnum, hlast] at hcast
    exact le_of_mul_le_mul_right (by linarith) hunit
  exact abs_le.2 ⟨by linarith, by linarith⟩

theorem scaled_eq_zero_iff (hden : 0 < den) : scaled num den e = 0 ↔ (num : Rat) / den ≤ 2 ^ e / 2 := by
  constructor
  · intro h
    have hoff : |(scaled num den e : Rat) * 2 ^ e - num / den| ≤ 2 ^ e / 2 := abs_scaled_sub_le hden
    rw [h, Nat.cast_zero, zero_mul, zero_sub, abs_neg] at hoff
    exact (le_abs_self _).trans hoff
  · intro h
    have hd : (0 : Rat) < den := Nat.cast_pos.2 hden
    have ht : (0 : Rat) < twoTo (-e).toNat := Nat.cast_pos.2 (twoTo_pos _)
    have hhalf : 2 * (num * twoTo (-e).toNat) ≤ den * twoTo e.toNat := by
      rw [← Nat.cast_le (α := Rat)]
      push_cast
      rw [cast_twoTo_toNat e]
      rw [div_le_iff₀ hd] at h
      nlinarith
    have hpos : 0 < den * twoTo e.toNat := Nat.mul_pos hden (twoTo_pos _)
    have hlt : num * twoTo (-e).toNat < den * twoTo e.toNat := by omega
    unfold scaled
    dsimp only
    rw [Nat.div_eq_of_lt hlt, Nat.mod_eq_of_lt hlt]
    split
    · rfl
    · rw [if_neg (Nat.not_lt.2 hhalf)]

theorem ratio_lt (hden : 0 < den) : (num : Rat) / den < 2 ^ ((num.log2 : Int) - den.log2 + 1) := by
  have hd : (0 : Rat) < den := Nat.cast_pos.2 hden
  have hnum : (num : Rat) < 2 ^ ((num.log2 : Int) + 1) := by exact_mod_cast Nat.lt_log2_self
  have hle : (2 : Rat) ^ (den.log2 : Int) ≤ den := by exact_mod_cast Nat.log2_self_le hden.ne'
  rw [div_lt_iff₀ hd]
  calc (num : Rat) < 2 ^ ((num.log2 : Int) + 1) := hnum
    _ = 2 ^ ((num.log2 : Int) - den.log2 + 1) * 2 ^ (den.log2 : Int) := by
      rw [← zpow_add₀ (by decide)]
      congr 1
      omega
    _ ≤ 2 ^ ((num.log2 : Int) - den.log2 + 1) * den := by gcongr

theorem lt_ratio (hnum : num ≠ 0) (hden : 0 < den) : (2 : Rat) ^ ((num.log2 : Int) - den.log2 - 1) < num / den := by
  have hd : (0 : Rat) < den := Nat.cast_pos.2 hden
  have hle : (2 : Rat) ^ (num.log2 : Int) ≤ num := by exact_mod_cast Nat.log2_self_le hnum
  have hlt : (den : Rat) < 2 ^ ((den.log2 : Int) + 1) := by exact_mod_cast Nat.lt_log2_self
  rw [lt_div_iff₀ hd]
  calc (2 : Rat) ^ ((num.log2 : Int) - den.log2 - 1) * den
      < 2 ^ ((num.log2 : Int) - den.log2 - 1) * 2 ^ ((den.log2 : Int) + 1) := by gcongr
    _ = 2 ^ (num.log2 : Int) := by
      rw [← zpow_add₀ (by decide)]
      congr 1
      omega
    _ ≤ num := hle

theorem minExponent_le_firstExponent : minExponent ≤ firstExponent num den := by
  unfold firstExponent
  dsimp only
  split <;> omega

theorem minExponent_le_lastExponent : minExponent ≤ lastExponent num den := by
  have hfirst : minExponent ≤ firstExponent num den := minExponent_le_firstExponent
  unfold lastExponent
  dsimp only
  split <;> omega

theorem ratio_lt_lastExponent (hden : 0 < den) : (num : Rat) / den < twoTo 53 * 2 ^ lastExponent num den := by
  unfold lastExponent
  dsimp only
  split
  · have hfirst : (num.log2 : Int) - den.log2 - 53 ≤ firstExponent num den := by
      unfold firstExponent
      dsimp only
      split <;> omega
    calc (num : Rat) / den < 2 ^ ((num.log2 : Int) - den.log2 + 1) := ratio_lt hden
      _ ≤ 2 ^ (53 + (firstExponent num den + 1)) := zpow_le_zpow_right₀ (by decide) (by omega)
      _ = twoTo 53 * 2 ^ (firstExponent num den + 1) := by
        rw [cast_twoTo, zpow_add₀ (by decide)]
        rfl
  · next h => exact (quotient_lt_iff hden).1 (not_le.1 h)

theorem lastExponent_le (hnum : num ≠ 0) (hden : 0 < den) (hc : Canonical m e) (h : (num : Rat) / den = m * 2 ^ e) :
    lastExponent num den ≤ e := by
  have hlt : (num : Rat) / den < 2 ^ (53 + e) := by
    have hbits : (m : Rat) < twoTo 53 := Nat.cast_lt.2 hc.bits
    rw [h, zpow_add₀ (by decide)]
    rw [cast_twoTo] at hbits
    exact mul_lt_mul_of_pos_right hbits (zpow_pos (by decide) e)
  have hfirst : firstExponent num den ≤ e := by
    have hexponent : (num.log2 : Int) - den.log2 - 1 < 53 + e :=
      (zpow_lt_zpow_iff_right₀ (by decide : (1 : Rat) < 2)).1 ((lt_ratio hnum hden).trans hlt)
    have hleast := hc.least
    unfold firstExponent
    dsimp only
    split <;> omega
  unfold lastExponent
  dsimp only
  split
  · next hmany =>
    have hle := (le_quotient_iff hden).1 hmany
    rw [cast_twoTo, ← zpow_add₀ (by decide)] at hle
    have hexponent : (53 : Int) + firstExponent num den < 53 + e :=
      (zpow_lt_zpow_iff_right₀ (by decide : (1 : Rat) < 2)).1 (hle.trans_lt hlt)
    omega
  · exact hfirst

/-- The last bit that is kept is the smallest there is, or 53 bits are kept. -/
theorem lastExponent_eq_or (hnum : num ≠ 0) (hden : 0 < den) :
    lastExponent num den = minExponent ∨ (2 : Rat) ^ (52 + lastExponent num den) ≤ num / den := by
  unfold lastExponent
  dsimp only
  split
  · next hmany =>
    right
    have hle := (le_quotient_iff hden).1 hmany
    rw [cast_twoTo, ← zpow_add₀ (by decide)] at hle
    have hexponent : (52 : Int) + (firstExponent num den + 1) = 53 + firstExponent num den := by omega
    rw [hexponent]
    exact hle
  · unfold firstExponent
    dsimp only
    split
    · exact .inl rfl
    · right
      have hexponent : (52 : Int) + ((num.log2 : Int) - den.log2 - 53) = (num.log2 : Int) - den.log2 - 1 := by omega
      rw [hexponent]
      exact (lt_ratio hnum hden).le

theorem zpow_lastExponent_le (hnum : num ≠ 0) (hden : 0 < den) :
    (2 : Rat) ^ lastExponent num den / 2 ≤ num / den / 2 ^ 53 + 2 ^ minExponent / 2 := by
  have hsmallest : (0 : Rat) < 2 ^ minExponent := zpow_pos (by decide) _
  rcases lastExponent_eq_or hnum hden with hmin | hkept
  · have hratio : (0 : Rat) ≤ num / den / 2 ^ 53 := by positivity
    rw [hmin]
    linarith
  · rw [zpow_add₀ (by decide)] at hkept
    have hscaled : (2 : Rat) ^ lastExponent num den / 2 = 2 ^ (52 : Int) * 2 ^ lastExponent num den / 2 ^ 53 := by ring
    have hdiv : (2 : Rat) ^ (52 : Int) * 2 ^ lastExponent num den / 2 ^ 53 ≤ num / den / 2 ^ 53 := by gcongr
    linarith

theorem abs_kept_sub_le (hnum : num ≠ 0) (hden : 0 < den) :
    |(scaled num den (lastExponent num den) : Rat) * 2 ^ lastExponent num den - num / den| ≤
      num / den / 2 ^ 53 + 2 ^ minExponent / 2 :=
  (abs_scaled_sub_le hden).trans (zpow_lastExponent_le hnum hden)

/-- A ratio that is in range is rounded to what is kept of it, in canonical form. -/
theorem ofRatio_eq_finite {negative negative' : Bool} (hnum : num ≠ 0) (hden : 0 < den)
    (h : ofRatio negative num den = finite negative' m e) : negative' = negative ∧ Canonical m e ∧
      (m : Rat) * 2 ^ e = scaled num den (lastExponent num den) * 2 ^ lastExponent num den := by
  have hle : scaled num den (lastExponent num den) ≤ twoTo 53 := scaled_le hden (ratio_lt_lastExponent hden)
  have hleast : minExponent ≤ lastExponent num den := minExponent_le_lastExponent
  rw [ofRatio_eq negative den hnum] at h
  split at h
  · next hcarry =>
    split at h
    · cases h
    · next hmax =>
      cases h
      refine ⟨rfl, ⟨by decide, by omega, by omega⟩, ?_⟩
      rw [hcarry, cast_twoTo, cast_twoTo, ← zpow_add₀ (by decide), ← zpow_add₀ (by decide)]
      congr 1
      omega
  · next hne =>
    split at h
    · cases h
    · next hmax =>
      cases h
      exact ⟨rfl, ⟨Nat.lt_of_le_of_ne hle hne, hleast, by omega⟩, rfl⟩

theorem toRat?_finite_eq_zero {negative : Bool} : (finite negative m e).toRat? = some 0 ↔ m = 0 := by
  have hsign : (if negative then -1 else 1 : Rat) ≠ 0 := by cases negative <;> decide
  have htwo : (2 : Rat) ^ e ≠ 0 := (zpow_pos (by decide) e).ne'
  rw [toRat?, Option.some.injEq, mul_eq_zero, mul_eq_zero, Nat.cast_eq_zero]
  simp only [hsign, htwo, false_or, or_false]

/-- A ratio is rounded to zero just if it is half of the smallest number or less. -/
theorem ofRatio_eq_zero_iff (negative : Bool) (hden : 0 < den) :
    (ofRatio negative num den).toRat? = some 0 ↔ (num : Rat) / den ≤ 2 ^ minExponent / 2 := by
  by_cases hnum : num = 0
  · have hzero : ofRatio negative num den = zero negative := by rw [ofRatio, if_pos hnum]
    have hpos : (0 : Rat) ≤ 2 ^ minExponent / 2 := by positivity
    rw [hzero, toRat?_zero, hnum, Nat.cast_zero, zero_div]
    exact iff_of_true rfl hpos
  have hkept (h : (2 : Rat) ^ (52 + lastExponent num den) ≤ num / den) :
      (2 : Rat) ^ lastExponent num den / 2 < num / den := by
    have hlast : (0 : Rat) < 2 ^ lastExponent num den := zpow_pos (by decide) _
    rw [zpow_add₀ (by decide)] at h
    linarith
  have hscaled : scaled num den (lastExponent num den) = 0 ↔ (num : Rat) / den ≤ 2 ^ minExponent / 2 := by
    rw [scaled_eq_zero_iff hden]
    rcases lastExponent_eq_or hnum hden with hmin | h
    · rw [hmin]
    · have hmin : (2 : Rat) ^ minExponent ≤ 2 ^ lastExponent num den :=
        zpow_le_zpow_right₀ (by decide) minExponent_le_lastExponent
      have hlast := hkept h
      exact iff_of_false (by linarith) (by linarith)
  rw [← hscaled, ofRatio_eq negative den hnum]
  split
  · next hcarry =>
    have hne : twoTo 53 ≠ 0 := (twoTo_pos 53).ne'
    have hne' : twoTo 52 ≠ 0 := (twoTo_pos 52).ne'
    rw [hcarry]
    split
    · simp [toRat?, hne]
    · simp [toRat?_finite_eq_zero, hne, hne']
  · split
    · next hmax =>
      have hlast : lastExponent num den ≠ minExponent := by
        intro h
        rw [h] at hmax
        exact absurd hmax (by decide)
      have hbig := hkept ((lastExponent_eq_or hnum hden).resolve_left hlast)
      rw [scaled_eq_zero_iff hden]
      exact iff_of_false (by simp [toRat?]) (by linarith)
    · exact toRat?_finite_eq_zero

theorem ofRatio_of_canonical (negative : Bool) (hnum : num ≠ 0) (hden : 0 < den) (hc : Canonical m e)
    (h : (num : Rat) / den = m * 2 ^ e) :
    (ofRatio negative num den).toRat? = some ((if negative then -1 else 1) * (num / den : Rat)) := by
  have hlast := lastExponent_le hnum hden hc h
  obtain ⟨d, hd⟩ : ∃ d : Nat, e = lastExponent num den + d := ⟨(e - lastExponent num den).toNat, by omega⟩
  have hwhole : (num : Rat) / den = (m * twoTo d : Nat) * 2 ^ lastExponent num den := by
    rw [h, hd, zpow_add₀ (by decide), Nat.cast_mul, cast_twoTo]
    ring
  have hscaled := scaled_of_eq hden hwhole
  have hlt : scaled num den (lastExponent num den) < twoTo 53 := by
    have hratio : (num : Rat) / den < twoTo 53 * 2 ^ lastExponent num den := ratio_lt_lastExponent hden
    rw [hwhole] at hratio
    rw [hscaled]
    exact Nat.cast_lt.1 (lt_of_mul_lt_mul_right hratio (zpow_pos (by decide) _).le)
  have hmax : ¬maxExponent < lastExponent num den := by
    have hgreatest := hc.greatest
    omega
  rw [ofRatio_eq negative den hnum, if_neg hlt.ne, if_neg hmax, hscaled, toRat?, hwhole, mul_assoc]

end

theorem nearest_zero : nearest 0 = 0 := by
  have h : (ofRat 0).toRat? = some 0 := toRat?_zero _
  rw [nearest, h, Option.getD_some]

theorem natAbs_num_div_den (r : Rat) : ((r.num.natAbs : Nat) : Rat) / r.den = |r| := by
  rw [Rat.abs_def, Rat.divInt_eq_div, Int.cast_natCast, Int.cast_natCast]

theorem nearest_of_canonical {m : Nat} {e : Int} (negative : Bool) (hc : Canonical m e) :
    nearest ((if negative then -1 else 1) * m * 2 ^ e) = (if negative then -1 else 1) * m * 2 ^ e := by
  by_cases hm : m = 0
  · rw [hm, Nat.cast_zero, mul_zero, zero_mul, nearest_zero]
  have hpos : (0 : Rat) < m * 2 ^ e := mul_pos (Nat.cast_pos.2 (Nat.pos_of_ne_zero hm)) (zpow_pos (by decide) e)
  rw [mul_assoc]
  generalize hq : (if negative then -1 else 1) * ((m : Rat) * 2 ^ e) = q
  have habs : |q| = m * 2 ^ e := by
    rw [← hq, abs_mul, abs_of_pos hpos]
    cases negative <;> simp
  have hnegative : decide (q < 0) = negative := by
    cases negative with
    | false => exact decide_eq_false (by simp at hq; linarith)
    | true => exact decide_eq_true (by simp at hq; linarith)
  have hne : q.num.natAbs ≠ 0 := by
    intro hzero
    have hq0 : q = 0 := Rat.num_eq_zero.1 (Int.natAbs_eq_zero.1 hzero)
    rw [hq0, abs_zero] at habs
    exact hpos.ne habs
  have hratio := natAbs_num_div_den q
  have hround := ofRatio_of_canonical (decide (q < 0)) hne q.den_pos hc (hratio.trans habs)
  rw [nearest, ofRat, hround, Option.getD_some, hratio, habs, hnegative, hq]

theorem nearest_of_toRat?_eq_none {r : Rat} (h : (ofRat r).toRat? = none) : nearest r = r := by
  rw [nearest, h, Option.getD_none]

theorem nearest_nearest (r : Rat) : nearest (nearest r) = nearest r := by
  by_cases hr : r = 0
  · rw [hr, nearest_zero, nearest_zero]
  cases h : ofRat r with
  | finite negative m e =>
    have hnum : r.num.natAbs ≠ 0 := fun hzero => hr (Rat.num_eq_zero.1 (Int.natAbs_eq_zero.1 hzero))
    obtain ⟨-, hc, -⟩ := ofRatio_eq_finite hnum r.den_pos h
    have hvalue : nearest r = (if negative then -1 else 1) * m * 2 ^ e := by rw [nearest, h, toRat?, Option.getD_some]
    rw [hvalue, nearest_of_canonical negative hc]
  | infinite | nan =>
    have hsame : nearest r = r := nearest_of_toRat?_eq_none (by rw [h, toRat?])
    rw [hsame, hsame]

theorem nearest_of_pos {r : Rat} (hr : 0 < r) : nearest r = r ∨
    nearest r = scaled r.num.natAbs r.den (lastExponent r.num.natAbs r.den) *
      2 ^ lastExponent r.num.natAbs r.den := by
  cases h : ofRat r with
  | finite negative m e =>
    have hnum : r.num.natAbs ≠ 0 := fun hn => hr.ne' (Rat.num_eq_zero.1 (Int.natAbs_eq_zero.1 hn))
    obtain ⟨hnegative, -, hkept⟩ := ofRatio_eq_finite hnum r.den_pos h
    have hpositive : negative = false := hnegative.trans (decide_eq_false hr.not_gt)
    right
    rw [nearest, h, toRat?, Option.getD_some, hpositive, if_neg (by decide), one_mul, hkept]
  | infinite | nan => exact .inl (nearest_of_toRat?_eq_none (by rw [h, toRat?]))

theorem nearest_nonneg {r : Rat} (hr : 0 ≤ r) : 0 ≤ nearest r := by
  rcases hr.eq_or_lt with rfl | hpos
  · rw [nearest_zero]
  · rcases nearest_of_pos hpos with h | h
    · rwa [h]
    · rw [h]
      positivity

/-- Rounding a number that is not negative is off by half of its 53rd bit at most, or by half of the smallest
number. -/
theorem abs_nearest_sub_le {r : Rat} (hr : 0 ≤ r) : |nearest r - r| ≤ r / 2 ^ 53 + 2 ^ minExponent / 2 := by
  have hbound : (0 : Rat) ≤ r / 2 ^ 53 + 2 ^ minExponent / 2 := by positivity
  rcases hr.eq_or_lt with rfl | hpos
  · rwa [nearest_zero, sub_self, abs_zero]
  · rcases nearest_of_pos hpos with h | h
    · rwa [h, sub_self, abs_zero]
    · have hnum : r.num.natAbs ≠ 0 := fun hn => hpos.ne' (Rat.num_eq_zero.1 (Int.natAbs_eq_zero.1 hn))
      have hratio : ((r.num.natAbs : Nat) : Rat) / r.den = r := (natAbs_num_div_den r).trans (abs_of_nonneg hr)
      have hoff := abs_kept_sub_le hnum r.den_pos
      rwa [← h, hratio] at hoff

end SetPipeline.Double
