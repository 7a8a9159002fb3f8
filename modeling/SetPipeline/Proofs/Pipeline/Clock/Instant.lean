import SetPipeline.Pipeline.Clock
import SetPipeline.Proofs.Double

/-! The instants that the clock shows. They are doubles, and the clock takes for one what lies within its resolution;
but within its first twelve days it tells apart what is three nanoseconds apart. -/
namespace SetPipeline.Pipeline

/-- What the clock can show: a double. -/
def IsInstant (t : Rat) : Prop := Double.nearest t = t

theorem isInstant_zero : IsInstant 0 := Double.nearest_zero

theorem isInstant_later (now duration : Rat) : IsInstant (later now duration) := Double.nearest_nearest _

theorem IsInstant.later_zero {t : Rat} (h : IsInstant t) : later t 0 = t := by
  rw [later, Rat.add_zero]
  exact h

theorem reached_self (t : Rat) : reached t (some t) = true := by simp [reached]

theorem reached_eq_false {now t : Rat} : reached now (some t) = false ↔ now < t ∧ later now resolution ≤ t := by
  simp [reached]

theorem lt_of_reached {now s t : Rat} (hs : reached now (some s) = true) (ht : reached now (some t) = false) :
    s < t := by
  obtain ⟨hnow, hlater⟩ := reached_eq_false.1 ht
  simp only [reached, Option.any_some, Bool.or_eq_true, decide_eq_true_eq] at hs
  rcases hs with hs | hs
  · exact lt_of_le_of_lt hs hnow
  · exact lt_of_lt_of_le hs hlater

/-- A quarter of a nanosecond: within its first 24 days the clock is off by less. -/
def slack : Rat := 1 / (4 * 10 ^ 9)

theorem nearest_lt_add_slack {r : Rat} (hr : 0 ≤ r) (hmax : r ≤ 2 ^ 21 - 1) : Double.nearest r < r + slack := by
  have hsmallest : (2 : Rat) ^ Double.minExponent ≤ 2 ^ (-60 : Int) := zpow_le_zpow_right₀ (by decide) (by decide)
  have hoff := (abs_le.1 (Double.abs_nearest_sub_le hr)).2
  norm_num [slack] at hsmallest hmax hoff ⊢
  linarith

theorem sub_slack_lt_nearest {r s : Rat} (hs : 0 ≤ s) (hmax : s ≤ 2 ^ 21 - 1) (h : s ≤ r) :
    s - slack < Double.nearest r := by
  have hsmallest : (2 : Rat) ^ Double.minExponent ≤ 2 ^ (-60 : Int) := zpow_le_zpow_right₀ (by decide) (by decide)
  have hoff := (abs_le.1 (Double.abs_nearest_sub_le (hs.trans h))).1
  norm_num [slack] at hsmallest hmax hoff ⊢
  linarith

theorem not_reached_of_le {now t : Rat} (hnow : 0 ≤ now) (hmax : now ≤ 2 ^ 20 + 1) (h : now + 8 * slack ≤ t) :
    reached now (some t) = false := by
  have hresolution : resolution < 1 / 1000000000 + slack := nearest_lt_add_slack (by norm_num) (by norm_num)
  have hnonneg : 0 ≤ resolution := Double.nearest_nonneg (by norm_num)
  have hlater : later now resolution < now + resolution + slack := by
    refine nearest_lt_add_slack (add_nonneg hnow hnonneg) ?_
    norm_num [slack] at hresolution hmax ⊢
    linarith
  norm_num [slack] at hresolution hlater h
  exact reached_eq_false.2 ⟨by linarith, by linarith⟩

end SetPipeline.Pipeline
