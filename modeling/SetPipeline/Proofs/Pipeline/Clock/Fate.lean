import SetPipeline.Proofs.Pipeline.Clock.Ends
import SetPipeline.Proofs.Pipeline.Clock.Instant

/-! The fate of a call under the clock, told from the instants at which it ends and at which its time is up: whichever
comes first, and the timeout if they are one and the same. -/
namespace SetPipeline.Pipeline

open Clocked (earlier)

/-- How a call comes to an end, or that it does not. -/
inductive Fate where
  | itself
  | timeout
  | never
  deriving DecidableEq

/-- What a command comes to by the fate of its call, and the world after that. -/
def Fate.conclusion {σ : Type} (room : Nat) (op : Operation) (cmd : Command) (finish : σ → Except Failure Datum × σ)
    (world : σ) : Fate → Option (Except Failure Response × σ)
  | itself => some (respond room op cmd (finish world).1, (finish world).2)
  | timeout => some (respond room op cmd (.error (.timedOut Failure.timedOutMessage)), world)
  | never => none

namespace Running
variable {σ : Type} {r : Running σ} {now t : Rat}

/-- Whether a running call comes to an end now, and how. -/
def verdict? (r : Running σ) (now : Rat) : Option Fate :=
  if r.isLate now then some .timeout else if reached now r.ends then some .itself else none

def soonest (r : Running σ) : Option Rat := earlier r.ends r.expires

def ending (r : Running σ) : Fate := (r.soonest.bind r.verdict?).getD .never

theorem verdict?_ne_never : r.verdict? now ≠ some .never := by
  unfold verdict?
  split
  · simp
  · split <;> simp

theorem isLate_of_not_ended (h : reached now r.ends = false) : r.isLate now = reached now r.expires := by
  simp [isLate, h]

theorem isLate_of_not_expired (h : reached now r.expires = false) : r.isLate now = false := by
  simp [isLate, h]

theorem isLate_of_timed {ends : Rat} (he : r.ends = some ends) (hx : r.expires = some t) :
    r.isLate now = (reached now (some t) && !(reached now (some ends) && decide (ends < t))) := by
  simp [isLate, he, hx]

theorem verdict?_of_late (h : r.isLate now = true) : r.verdict? now = some .timeout := if_pos h

theorem verdict?_of_ended (hl : r.isLate now = false) (he : reached now r.ends = true) :
    r.verdict? now = some .itself := by
  rw [verdict?, hl, if_neg (by simp), if_pos he]

theorem verdict?_of_going (hl : r.isLate now = false) (he : reached now r.ends = false) : r.verdict? now = none := by
  rw [verdict?, hl, he, if_neg (by simp), if_neg (by simp)]

theorem verdict?_soonest (h : r.soonest = some t) : (r.verdict? t).isSome := by
  cases hended : reached t r.ends with
  | true =>
    cases hl : r.isLate t with
    | true => rw [verdict?_of_late hl, Option.isSome_some]
    | false => rw [verdict?_of_ended hl hended, Option.isSome_some]
  | false =>
    have hexpires : r.expires = some t := by
      rcases Clocked.earlier_eq_some h with hends | hexpires
      · rw [hends, reached_self] at hended
        cases hended
      · exact hexpires
    have hl : r.isLate t = true := by rw [isLate_of_not_ended hended, hexpires, reached_self]
    rw [verdict?_of_late hl, Option.isSome_some]

theorem ending_eq (h : r.soonest = some t) {f : Fate} (hf : r.verdict? t = some f) : r.ending = f := by
  rw [ending, h, Option.bind_some, hf, Option.getD_some]

theorem ending_of_soonest_none (h : r.soonest = none) : r.ending = .never := by
  rw [ending, h]
  rfl

theorem fate_of_untimed {ends : Rat} (he : r.ends = some ends) (hx : r.expires = none) :
    (r.verdict? now).getD r.ending = .itself := by
  have hnever (u : Rat) : r.isLate u = false := isLate_of_not_expired (by rw [hx]; rfl)
  cases hended : reached now r.ends with
  | true => rw [verdict?_of_ended (hnever now) hended, Option.getD_some]
  | false =>
    have hsoonest : r.soonest = some ends := by rw [soonest, he, hx]; rfl
    have hself : reached ends r.ends = true := by rw [he, reached_self]
    rw [verdict?_of_going (hnever now) hended, Option.getD_none,
      ending_eq hsoonest (verdict?_of_ended (hnever ends) hself)]

theorem fate_of_endless (he : r.ends = none) (hx : r.expires = some t) :
    (r.verdict? now).getD r.ending = .timeout := by
  have hnever (u : Rat) : reached u r.ends = false := by rw [he]; rfl
  have hlate (u : Rat) : r.isLate u = reached u (some t) := by rw [isLate_of_not_ended (hnever u), hx]
  have hsoonest : r.soonest = some t := by rw [soonest, he, hx]; rfl
  have hending : r.ending = .timeout := ending_eq hsoonest (verdict?_of_late (by rw [hlate, reached_self]))
  cases hexpired : reached now (some t) with
  | true => rw [verdict?_of_late (by rw [hlate, hexpired]), Option.getD_some]
  | false => rw [verdict?_of_going (by rw [hlate, hexpired]) (hnever now), Option.getD_none, hending]

/-- A call whose time is not up at once ends by itself just where its end comes before its time is up. -/
theorem fate_of_timed {ends : Rat} (he : r.ends = some ends) (hx : r.expires = some t)
    (hgoing : reached now (some t) = false) :
    (r.verdict? now).getD r.ending = if ends < t then .itself else .timeout := by
  have hl : r.isLate now = false := isLate_of_not_expired (by rw [hx, hgoing])
  cases hended : reached now (some ends) with
  | true =>
    rw [verdict?_of_ended hl (by rw [he, hended]), Option.getD_some, if_pos (lt_of_reached hended hgoing)]
  | false =>
    rw [verdict?_of_going hl (by rw [he, hended]), Option.getD_none]
    by_cases hlt : ends < t
    · have hsoonest : r.soonest = some ends := by rw [soonest, he, hx, earlier, if_pos (Rat.le_of_lt hlt)]
      have hintime : r.isLate ends = false := by rw [isLate_of_timed he hx, reached_self, decide_eq_true hlt]; simp
      rw [if_pos hlt]
      exact ending_eq hsoonest (verdict?_of_ended hintime (by rw [he, reached_self]))
    · have hsoonest : r.soonest = some t := by
        rw [soonest, he, hx, earlier]
        split
        · next hle => rw [Rat.le_antisymm hle (Rat.not_lt.1 hlt)]
        · rfl
      have hlate : r.isLate t = true := by rw [isLate_of_timed he hx, reached_self, decide_eq_false hlt]; simp
      rw [if_neg hlt]
      exact ending_eq hsoonest (verdict?_of_late hlate)

end Running

abbrev callOf {σ : Type} (config : Config) (now : Rat) (call : Call σ) : Running σ := .of config.timeout now 0 call

def Fate.of {σ : Type} (config : Config) (now : Rat) (call : Call σ) : Fate :=
  if call.duration = some 0 then .itself
  else ((callOf config now call).verdict? now).getD (callOf config now call).ending

/-- A call that lasts so long ends before its time is up: it takes no time, or its time is not up when it begins, and
the instant of its end comes before that of the timeout. -/
def EndsBefore (timeout : Option Number) (now duration : Rat) : Prop :=
  duration = 0 ∨ ∀ t ∈ allowance timeout,
    reached now (some (later now t)) = false ∧ later now duration < later now t

instance (timeout : Option Number) (now duration : Rat) : Decidable (EndsBefore timeout now duration) :=
  inferInstanceAs (Decidable (_ ∨ ∀ t ∈ allowance timeout, _))

/-- A call of some length ends by itself if that comes before its time is up, and by its timeout otherwise. -/
theorem Fate.of_duration {σ : Type} (config : Config) (now duration : Rat)
    (finish : σ → Except Failure Datum × σ) :
    Fate.of config now ⟨some duration, finish⟩ =
      if EndsBefore config.timeout now duration then .itself else .timeout := by
  by_cases hzero : duration = 0
  · rw [Fate.of, if_pos (congrArg some hzero), if_pos (.inl hzero)]
  · rw [Fate.of, if_neg fun h => hzero (Option.some.inj h)]
    have hexpires : (callOf config now ⟨some duration, finish⟩).expires = (allowance config.timeout).map (later now) :=
      rfl
    have hends : (callOf config now ⟨some duration, finish⟩).ends =
        if reached now ((allowance config.timeout).map (later now)) then none else some (later now duration) := rfl
    cases ha : allowance config.timeout with
    | none =>
      rw [ha] at hends hexpires
      rw [Running.fate_of_untimed hends hexpires, if_pos (.inr fun t ht => by rw [ha] at ht; cases ht)]
    | some t =>
      rw [ha, Option.map_some] at hends hexpires
      have hiff : EndsBefore config.timeout now duration ↔
          reached now (some (later now t)) = false ∧ later now duration < later now t := by
        simp [EndsBefore, hzero, ha]
      simp only [hiff]
      cases hup : reached now (some (later now t)) with
      | true =>
        rw [hup, if_pos rfl] at hends
        rw [Running.fate_of_endless hends hexpires, if_neg (by simp)]
      | false =>
        rw [hup, if_neg (by simp)] at hends
        rw [Running.fate_of_timed hends hexpires hup]
        simp

theorem Fate.of_endless {σ : Type} (config : Config) (now : Rat) (finish : σ → Except Failure Datum × σ) :
    Fate.of config now ⟨none, finish⟩ = if (allowance config.timeout).isSome then .timeout else .never := by
  rw [Fate.of, if_neg (by simp)]
  have hexpires : (callOf config now ⟨none, finish⟩).expires = (allowance config.timeout).map (later now) := rfl
  have hends : (callOf config now ⟨none, finish⟩).ends = none := by
    show (if _ then none else none) = none
    split <;> rfl
  cases ha : allowance config.timeout with
  | none =>
    rw [ha] at hexpires
    have hsoonest : (callOf config now ⟨none, finish⟩).soonest = none := by
      rw [Running.soonest, hends, hexpires]
      rfl
    have hgoing : (callOf config now ⟨none, finish⟩).verdict? now = none := by
      refine Running.verdict?_of_going (Running.isLate_of_not_expired ?_) ?_
      · rw [hexpires]
        rfl
      · rw [hends]
        rfl
    rw [hgoing, Option.getD_none, Running.ending_of_soonest_none hsoonest]
    rfl
  | some t =>
    rw [ha] at hexpires
    exact Running.fate_of_endless hends hexpires

/-- What is three nanoseconds below the timeout comes before it, if it is over within the first twelve days. -/
theorem endsBefore_of_le {timeout : Option Number} {now duration : Rat} (hnow : 0 ≤ now) (hduration : 0 ≤ duration)
    (hmax : now + duration ≤ 2 ^ 20) (h : ∀ t ∈ allowance timeout, duration + 12 * slack ≤ t) :
    EndsBefore timeout now duration := by
  right
  intro t ht
  have hend : 0 ≤ now + duration := add_nonneg hnow hduration
  have htimeout : now + duration + 12 * slack - slack < later now t :=
    sub_slack_lt_nearest (by norm_num [slack]; linarith) (by norm_num [slack] at hmax ⊢; linarith)
      (by linarith [h t ht])
  have hover : later now duration < now + duration + slack :=
    nearest_lt_add_slack hend (by norm_num at hmax ⊢; linarith)
  refine ⟨not_reached_of_le hnow ?_ ?_, ?_⟩
  · norm_num at hmax ⊢
    linarith
  · norm_num [slack] at htimeout ⊢
    linarith
  · norm_num [slack] at htimeout hover ⊢
    linarith

/-- A latency is in time: the clock can measure it, and a call that takes so long ends before its time is up. -/
def InTime (timeout : Option Number) (now : Rat) (latency : Number) : Prop :=
  latency.isBeyondClock = false ∧ ∃ d ∈ Executor.pause latency, EndsBefore timeout now d

instance (timeout : Option Number) (now : Rat) (latency : Number) : Decidable (InTime timeout now latency) :=
  inferInstanceAs (Decidable (_ ∧ ∃ d ∈ Executor.pause latency, _))

end SetPipeline.Pipeline
