import SetPipeline.Numeral
import SetPipeline.Proofs.Double

/-! Decimals in texts. A text that names neither an infinity nor not-a-number spells digits and a power of ten. It is
read as the double nearest to that number, which is zero just if the number is half of the smallest double or less. -/
namespace SetPipeline

namespace Numeral

section
variable {d : Nat} {ds : List Nat}

theorem ofDigits_cons (d : Nat) (ds : List Nat) : ofDigits (d :: ds) = d * 10 ^ ds.length + ofDigits ds := by
  have hfold (a : Nat) : ds.foldl (fun a d => 10 * a + d) a = a * 10 ^ ds.length + ofDigits ds := by
    unfold ofDigits
    induction ds generalizing a with
    | nil => simp
    | cons x xs ih =>
      rw [List.foldl_cons, List.foldl_cons, ih, ih (10 * 0 + x), List.length_cons]
      ring
  have hfirst : ofDigits (d :: ds) = ds.foldl (fun a d => 10 * a + d) (10 * 0 + d) := rfl
  rw [hfirst, hfold]
  simp

theorem ofDigits_lt (h : ∀ d ∈ ds, d < 10) : ofDigits ds < 10 ^ ds.length := by
  induction ds with
  | nil => decide
  | cons d ds ih =>
    obtain ⟨hd, hds⟩ := List.forall_mem_cons.1 h
    have hrest := ih hds
    rw [ofDigits_cons, List.length_cons, pow_succ]
    nlinarith

theorem le_ofDigits (h : d ≠ 0) : 10 ^ ds.length ≤ ofDigits (d :: ds) := by
  rw [ofDigits_cons]
  have hd : 1 ≤ d := Nat.one_le_iff_ne_zero.2 h
  nlinarith [Nat.zero_le (ofDigits ds), Nat.one_le_pow ds.length 10 (by decide)]

theorem ofDigits_dropWhile (ds : List Nat) : ofDigits (ds.dropWhile (· == 0)) = ofDigits ds := by
  induction ds with
  | nil => rfl
  | cons d ds ih =>
    by_cases hd : d = 0
    · subst hd
      rw [List.dropWhile_cons_of_pos (by simp), ih, ofDigits_cons]
      simp
    · rw [List.dropWhile_cons_of_neg (by simpa using hd)]

end

end Numeral

namespace Double

open Numeral

theorem cast_tenTo (n : Nat) : (tenTo n : Rat) = 10 ^ (n : Int) := by simp [tenTo]

theorem tenTo_pos (n : Nat) : 0 < tenTo n := Nat.pow_pos (by decide)

theorem tenTo_div_tenTo (e : Int) : (tenTo e.toNat : Rat) / tenTo (-e).toNat = 10 ^ e := by
  rw [cast_tenTo, cast_tenTo, ← zpow_sub₀ (by decide)]
  congr 1
  omega

/-- Decimals that are settled as zero by their size are so small indeed. -/
theorem zpow_ten_le : (10 : Rat) ^ (-331 : Int) ≤ 2 ^ minExponent / 2 := by
  have h : (twoTo 1075 : Rat) ≤ tenTo 331 := Nat.cast_le.2 (by decide +kernel)
  rw [cast_twoTo, cast_tenTo] at h
  have hhalf : (2 : Rat) ^ minExponent / 2 = (2 ^ (1075 : Int))⁻¹ := by
    rw [← zpow_neg, div_eq_mul_inv, ← zpow_neg_one (2 : Rat), ← zpow_add₀ (by decide)]
    rfl
  rw [hhalf, zpow_neg]
  exact inv_anti₀ (by positivity) h

theorem ofDigits_mul_zpow_lt {ds : List Nat} (h : ∀ d ∈ ds, d < 10) (e : Int) :
    (ofDigits ds : Rat) * 10 ^ e < 10 ^ (ds.length + e) := by
  have hlt : (ofDigits ds : Rat) < 10 ^ (ds.length : Int) := by exact_mod_cast ofDigits_lt h
  rw [zpow_add₀ (by decide)]
  exact mul_lt_mul_of_pos_right hlt (zpow_pos (by decide) e)

theorem zpow_le_ofDigits_mul {d : Nat} {ds : List Nat} (h : d ≠ 0) (e : Int) :
    (10 : Rat) ^ (ds.length + e) ≤ ofDigits (d :: ds) * 10 ^ e := by
  have hle : (10 : Rat) ^ (ds.length : Int) ≤ ofDigits (d :: ds) := by exact_mod_cast le_ofDigits h
  rw [zpow_add₀ (by decide)]
  exact mul_le_mul_of_nonneg_right hle (zpow_pos (by decide) e).le

/-- A decimal is rounded to zero just if it is half of the smallest number or less. -/
theorem ofDecimal_eq_zero_iff (negative : Bool) {ds : List Nat} (h : ∀ d ∈ ds, d < 10) (e : Int) :
    (ofDecimal negative ds e).toRat? = some 0 ↔ (ofDigits ds : Rat) * 10 ^ e ≤ 2 ^ minExponent / 2 := by
  have hpos : (0 : Rat) < 2 ^ minExponent / 2 := by positivity
  have hhead := List.head?_dropWhile_not (· == 0) ds
  have hlt : ∀ d ∈ ds.dropWhile (· == 0), d < 10 := fun d hd => h d ((List.dropWhile_sublist _).subset hd)
  rw [← ofDigits_dropWhile ds]
  unfold ofDecimal
  generalize ds.dropWhile (· == 0) = digits at hhead hlt ⊢
  cases digits with
  | nil => simpa [toRat?_zero, ofDigits] using hpos.le
  | cons d rest =>
    have hd : d ≠ 0 := by simpa using hhead
    dsimp only
    split
    · next hsmall =>
      have hsize : ((d :: rest).length : Int) + e ≤ -331 := by
        simp only [List.isEmpty_cons, Bool.false_or, decide_eq_true_eq] at hsmall
        omega
      have hle : (10 : Rat) ^ (((d :: rest).length : Int) + e) ≤ 10 ^ (-331 : Int) :=
        zpow_le_zpow_right₀ (by decide) hsize
      exact iff_of_true (toRat?_zero negative) (((ofDigits_mul_zpow_lt hlt e).trans_le hle).le.trans zpow_ten_le)
    · split
      · next hlarge =>
        have hsize : (0 : Int) ≤ rest.length + e := by
          rw [List.length_cons] at hlarge
          omega
        have hone : (1 : Rat) ≤ 10 ^ ((rest.length : Int) + e) := one_le_zpow₀ (by decide) hsize
        have hge : (10 : Rat) ^ ((rest.length : Int) + e) ≤ ofDigits (d :: rest) * 10 ^ e := zpow_le_ofDigits_mul hd e
        have hhalf : (2 : Rat) ^ minExponent / 2 < 1 := by
          have hmin : (2 : Rat) ^ minExponent ≤ 1 := zpow_le_one_of_nonpos₀ (by decide) (by decide)
          linarith
        exact iff_of_false (by simp [toRat?]) (by linarith)
      · rw [ofRatio_eq_zero_iff negative (tenTo_pos _), ← tenTo_div_tenTo e, ← mul_div_assoc, ← Nat.cast_mul]
        rfl

theorem ofDecimal_ne_nan (negative : Bool) (ds : List Nat) (e : Int) : ofDecimal negative ds e ≠ nan := by
  unfold ofDecimal
  dsimp only
  split
  · nofun
  · split
    · nofun
    · exact ofRatio_ne_nan negative _ _

end Double

namespace Numeral

/-- A decimal in a text: its sign, its digits without the point, and the power of ten behind them. -/
structure Decimal where
  negative : Bool
  digits : List Nat
  power : Int

def Decimal.magnitude (d : Decimal) : Rat := ofDigits d.digits * 10 ^ d.power

def isName (s : List Char) : Bool := s = "inf".toList ∨ s = "infinity".toList ∨ s = "nan".toList

def decimal? (s : List Char) : Option Decimal := do
  let (negative, s) := sign s
  if isName (s.map lower) then none
  else
    let isMark := fun c => lower c == 'e'
    let mantissa := s.takeWhile (!isMark ·)
    let power ← exponent? (s.dropWhile (!isMark ·))
    let whole ← digits? Text.digit? (mantissa.takeWhile (· != '.'))
    let frac ← digits? Text.digit? ((mantissa.dropWhile (· != '.')).drop 1)
    if whole.isEmpty && frac.isEmpty then none else some ⟨negative, whole ++ frac, power - frac.length⟩

/-- What a text is read as: the double nearest to the decimal that it spells, or what it names. -/
theorem double?_eq (s : List Char) : double? s =
    if isName ((sign s).2.map lower) then
      some (if (sign s).2.map lower = "nan".toList then .nan else .infinite (sign s).1)
    else (decimal? s).map fun d => .ofDecimal d.negative d.digits d.power := by
  unfold double? decimal?
  generalize sign s = p
  obtain ⟨negative, rest⟩ := p
  dsimp only
  by_cases hinf : rest.map lower = "inf".toList ∨ rest.map lower = "infinity".toList
  · have hnan : rest.map lower ≠ "nan".toList := by
      rcases hinf with h | h <;> rw [h] <;> decide
    have hname : isName (rest.map lower) = true := decide_eq_true (hinf.imp_right .inl)
    rw [if_pos hinf, if_pos hname, if_neg hnan]
  · rw [if_neg hinf]
    by_cases hnan : rest.map lower = "nan".toList
    · have hname : isName (rest.map lower) = true := decide_eq_true (.inr (.inr hnan))
      rw [if_pos hnan, if_pos hname, if_pos hnan]
    · have hname : isName (rest.map lower) = false := by
        refine decide_eq_false ?_
        rintro (h | h | h)
        · exact hinf (.inl h)
        · exact hinf (.inr h)
        · exact hnan h
      rw [if_neg hnan, hname]
      simp only [Bool.false_eq_true, if_false, Option.bind_eq_bind, Option.map_bind, Function.comp_def,
        apply_ite (Option.map _), Option.map_none, Option.map_some]

theorem cons?_eq_some {o : Option Nat} {r : Option (List Nat)} {ds : List Nat} (h : cons? o r = some ds) :
    ∃ d rest, o = some d ∧ r = some rest ∧ ds = d :: rest := by
  cases o <;> cases r <;> cases h
  exact ⟨_, _, rfl, rfl, rfl⟩

theorem group?_lt {s : List Char} {ds : List Nat} (h : group? Text.digit? s = some ds) : ∀ d ∈ ds, d < 10 := by
  fun_induction group? Text.digit? s generalizing ds with
  | case1 => cases h
  | case2 c =>
    obtain ⟨d, rest, hd, hrest, rfl⟩ := cons?_eq_some h
    cases hrest
    exact List.forall_mem_singleton.2 (Text.digit?_lt hd)
  | case3 c s ih =>
    obtain ⟨d, rest, hd, hrest, rfl⟩ := cons?_eq_some h
    exact List.forall_mem_cons.2 ⟨Text.digit?_lt hd, ih hrest⟩
  | case4 c s _ _ ih =>
    obtain ⟨d, rest, hd, hrest, rfl⟩ := cons?_eq_some h
    exact List.forall_mem_cons.2 ⟨Text.digit?_lt hd, ih hrest⟩

theorem ofDigits_lt_of_length_le {ds : List Nat} {k : Nat} (h : ∀ d ∈ ds, d < 10) (hk : ds.length ≤ k) :
    ofDigits ds < Nat.pow 10 k :=
  lt_of_lt_of_le (ofDigits_lt h) (Nat.pow_le_pow_right (by decide) hk)

theorem int?_natAbs_lt {s : List Char} {n : Int} (h : int? s = some n) : n.natAbs < Nat.pow 10 maxDigits := by
  unfold int? at h
  obtain ⟨ds, hds, h⟩ := Option.bind_eq_some_iff.1 h
  split at h
  · cases h
  · next hlength =>
    cases h
    calc (signed _ (ofDigits ds)).natAbs
      _ = ofDigits ds := by
        unfold signed
        split <;> simp
      _ < Nat.pow 10 maxDigits := ofDigits_lt_of_length_le (group?_lt hds) (not_lt.1 hlength)

theorem digits?_lt {s : List Char} {ds : List Nat} (h : digits? Text.digit? s = some ds) : ∀ d ∈ ds, d < 10 := by
  unfold digits? at h
  split at h
  · cases h
    simp
  · exact group?_lt h

theorem decimal?_digits {s : List Char} {d : Decimal} (h : decimal? s = some d) : ∀ x ∈ d.digits, x < 10 := by
  unfold decimal? at h
  generalize sign s = p at h
  obtain ⟨negative, rest⟩ := p
  dsimp only at h
  split at h
  · cases h
  · obtain ⟨power, -, h⟩ := Option.bind_eq_some_iff.1 h
    obtain ⟨whole, hwhole, h⟩ := Option.bind_eq_some_iff.1 h
    obtain ⟨frac, hfrac, h⟩ := Option.bind_eq_some_iff.1 h
    split at h
    · cases h
    · cases h
      exact List.forall_mem_append.2 ⟨digits?_lt hwhole, digits?_lt hfrac⟩

theorem decimal?_of_isName {s : List Char} (h : isName ((sign s).2.map lower) = true) : decimal? s = none := by
  unfold decimal?
  exact if_pos h

theorem double?_eq_nan_iff {s : List Char} : double? s = some .nan ↔ (sign s).2.map lower = "nan".toList := by
  rw [double?_eq]
  split
  · simp
  · next h =>
    have hname : (sign s).2.map lower ≠ "nan".toList := fun hnan => h (decide_eq_true (.inr (.inr hnan)))
    exact iff_of_false (by simp [Double.ofDecimal_ne_nan]) hname

/-- A text is read as zero just if it spells a decimal that is half of the smallest double or less. -/
theorem double?_zero_iff {s : List Char} : (∃ x, double? s = some x ∧ x.toRat? = some 0) ↔
    ∃ d, decimal? s = some d ∧ d.magnitude ≤ 2 ^ Double.minExponent / 2 := by
  rw [double?_eq]
  split
  · next h =>
    rw [decimal?_of_isName h]
    split <;> simp [Double.toRat?]
  · simp only [Option.map_eq_some_iff]
    constructor
    · rintro ⟨x, ⟨d, hd, rfl⟩, hx⟩
      exact ⟨d, hd, (Double.ofDecimal_eq_zero_iff _ (decimal?_digits hd) _).1 hx⟩
    · rintro ⟨d, hd, hx⟩
      exact ⟨_, ⟨d, hd, rfl⟩, (Double.ofDecimal_eq_zero_iff _ (decimal?_digits hd) _).2 hx⟩

end Numeral
end SetPipeline
