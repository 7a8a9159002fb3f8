import SetPipeline.Proofs.Number
import SetPipeline.Proofs.Pipeline.Correlation

/-! How a stream ends by itself under a limit of any numeric type that passed the check. Whatever the limit, every item
that was taken has its response by then. The input is through as well, unless the limit is not a number: such a limit
is not below one, and yet nothing is below it, so that no item is ever asked for. -/
namespace SetPipeline

namespace Config

theorem check_eq_ok {limit : Number} {timeout : Option Number} {config : Config}
    (h : check limit timeout = .ok config) : config = ⟨limit, timeout⟩ ∧ limit.lt (.int 1) = false := by
  obtain ⟨hconfig, hlimit, -⟩ := check_eq_ok_iff.1 h
  exact ⟨hconfig, hlimit⟩

theorem allows_zero_iff {config : Config} (h : config.maxInFlight.lt (.int 1) = false) :
    config.allows 0 = true ↔ config.maxInFlight.isNan = false := by
  cases hp : config.maxInFlight.point? with
  | none =>
    have hnan : config.maxInFlight.isNan = true := Number.point?_eq_none.1 hp
    simp [allows, Number.lt, hp, hnan]
  | some p =>
    have hnumber : config.maxInFlight.isNan = false := by
      cases hnan : config.maxInFlight.isNan with
      | false => rfl
      | true =>
        rw [Number.point?_eq_none.2 hnan] at hp
        cases hp
    simp only [Number.lt, hp, Number.point?_int] at h
    simp only [allows, Number.lt, hp, Number.point?_int, hnumber, iff_true]
    cases p with
    | low => cases h
    | high => rfl
    | finite r =>
      have hone : (1 : Rat) ≤ r := Rat.not_lt.1 (of_decide_eq_false h)
      exact decide_eq_true (Std.lt_of_lt_of_le (by decide) hone)

end Config

namespace Pipeline

theorem turn_of_not_allows {b : Batch} (h : b.config.allows 0 = false) :
    b.turn .initial = State.initial.halt .exhausted := by
  simp [Batch.turn, State.initial, Pull.isIdle, h]

theorem reachable_of_not_allows {b : Batch} (h : b.config.allows 0 = false) :
    Reachable b (State.initial.halt .exhausted) :=
  .next (m := .ask) .initial (congrArg some (turn_of_not_allows h))

end Pipeline

namespace Config

open Pipeline

/-- Streams that end by themselves have a response for each item that they took, and it is a response to that item. -/
def AnswersTaken (config : Config) : Prop :=
  ∀ (b : Batch) (s : State), b.config = config → Reachable b s → s.ending? = some .exhausted →
    s.answered.Perm (List.range s.pulled) ∧ ∀ p ∈ s.yielded, b.source p.1 = .item (.command p.2.input)

/-- Streams that end by themselves have come to the end of their input. -/
def ReadsAll (config : Config) : Prop :=
  ∀ (b : Batch) (s : State), b.config = config → Reachable b s → s.ending? = some .exhausted →
    b.source s.pulled = .done

theorem answersTaken (config : Config) : config.AnswersTaken := by
  intro b s _ h he
  refine ⟨h.sound.answered_of_exhausted he, fun p hp => ?_⟩
  obtain ⟨ms, hrun⟩ := h.exists_run
  obtain ⟨c, hc, hcon⟩ := hrun.accounted.yielded p hp
  rw [conclusion_input hcon]
  exact hc

theorem readsAll_of_allows {config : Config} (h : config.allows 0 = true) : config.ReadsAll := by
  rintro b s rfl hs he
  exact (hs.sound.over h he).2.2

theorem not_readsAll_of_not_allows {config : Config} (h : config.allows 0 = false) : ¬config.ReadsAll := by
  intro hall
  have hdone := hall (.quiet .card (fun _ => .item .none) config 0) _ rfl (reachable_of_not_allows h) rfl
  cases hdone

/-- Under a configuration that passed the check a stream that ends by itself has answered what it took, and it has read
its whole input just where the limit is a number. -/
theorem answersTaken_and_readsAll_iff {limit : Number} {timeout : Option Number} {config : Config}
    (h : check limit timeout = .ok config) : config.AnswersTaken ∧ (config.ReadsAll ↔ limit.isNan = false) := by
  obtain ⟨rfl, hlimit⟩ := check_eq_ok h
  refine ⟨answersTaken _, ?_⟩
  have hallows : (Config.mk limit timeout).allows 0 = true ↔ limit.isNan = false := allows_zero_iff hlimit
  rw [← hallows]
  constructor
  · intro hall
    cases ha : (Config.mk limit timeout).allows 0 with
    | true => rfl
    | false => exact absurd hall (not_readsAll_of_not_allows ha)
  · exact readsAll_of_allows

theorem readsAll_iff_fractional :
    check (.double (.finite false 3 (-1))) none = .ok ⟨.double (.finite false 3 (-1)), none⟩ ∧
    Config.AnswersTaken ⟨.double (.finite false 3 (-1)), none⟩ ∧
      (Config.ReadsAll ⟨.double (.finite false 3 (-1)), none⟩ ↔ (Number.double (.finite false 3 (-1))).isNan = false) := by
  have haccepted : check (.double (.finite false 3 (-1))) none = .ok ⟨.double (.finite false 3 (-1)), none⟩ := by
    have hlimit : (Number.double (.finite false 3 (-1))).lt (.int 1) = false := by decide +kernel
    simp [check, hlimit]
  exact ⟨haccepted, answersTaken_and_readsAll_iff haccepted⟩

/-- A limit that is not a number passes the check, and a stream under it ends without having read anything. -/
theorem not_readsAll_nan : check (.double .nan) none = .ok ⟨.double .nan, none⟩ ∧
    ¬Config.ReadsAll ⟨.double .nan, none⟩ :=
  ⟨rfl, not_readsAll_of_not_allows rfl⟩

end Config
end SetPipeline
