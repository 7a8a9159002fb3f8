import SetPipeline.Proofs.Client.Arguments
import SetPipeline.Proofs.Client.Calls
import SetPipeline.Proofs.Pipeline.Correlation
import SetPipeline.Proofs.Store.Gate

/-! A scalar call is a batch of one command, unwrapped. Over the store it comes to what a direct call of its command
comes to, unless the clock cannot measure its timeout or its latency, or its time is up before its end comes. -/
namespace SetPipeline

open Pipeline

/-- What a call gives for a reply of the store: one random member is the first of those that came, if any came. -/
def Scalar.value : Scalar → Reply → Datum
  | .randomMember _, .members bs => .ofKey bs.head?
  | _, reply => reply.toDatum

theorem Scalar.Asks.result_eq {m : Scalar} {op : Operation} {c : Command} (h : m.Asks op c) {reply : Reply}
    (hreply : Answers op.responseKind (.ok reply)) : m.result reply.toDatum = m.value reply := by
  cases h with
  | randomMember k =>
    cases hreply with
    | members bs => cases bs <;> rfl
  | _ => rfl

theorem Response.Carries.result_eq {kind : ResponseKind} {c : Command} {x : Except Failure Reply} {r : Response}
    (h : Response.Carries kind c x r)
    (hcode : r.code = none ∨ r.code = some Failure.err ∨ r.code = some Failure.wrongType) :
    Response.result r = x.map Reply.toDatum := by
  cases h with
  | reply x => rfl
  | refusal message code =>
    have hne : code ≠ "" := by
      rintro rfl
      rcases hcode with h | h | h
      · cases h
      · exact absurd (Option.some.inj h) (by decide)
      · exact absurd (Option.some.inj h) (by decide)
    exact Response.result_failed hne

/-- The refusals of actions: for the number of their arguments, or for the type of a key. -/
def Failure.IsOfAction (f : Failure) : Prop :=
  ∃ message code, f = .refused message (.text code) ∧ (code = err ∨ code = wrongType)

theorem Failure.not_isOfAction_overflow : ¬(broken .overflow beyondDoubles).IsOfAction := by
  rintro ⟨message, code, hf, -⟩
  cases hf

theorem Failure.not_isOfAction_timedOut : ¬(refused timedOutMessage (.text timeoutCode)).IsOfAction := by
  rintro ⟨message, code, hf, hcode⟩
  obtain rfl : timeoutCode = code := Datum.text.inj (refused.inj hf).2
  exact absurd hcode (by decide)

theorem Store.Proper.execute_isOfAction {s : Store} (hs : s.Proper) {op : Operation} {c : Command}
    (h : op.unfit? c = none) {f : Failure} (hf : (s.execute (.known op) c).1 = .error f) : f.IsOfAction := by
  have hnoted : (s.record (.known op) c).Proper := hs
  obtain ⟨x, hx, hanswer⟩ := hnoted.answers h
  have hf : x.mapError Refusal.toFailure = .error f := hanswer.symm.trans hf
  cases x with
  | ok y => cases hf
  | error r =>
    cases hf
    exact ⟨r.message, r.code, rfl, hx.refusal_code⟩

namespace Client

/-- A scalar call gives what a direct call of its command gives, and leaves the store as that does. -/
def ActsDirectly (config : Config) (room : Nat) (latency : Number) (now : Rat) (s : Store) (m : Scalar)
    (op : Operation) (c : Command) : Prop :=
  (call (.standard config room (.store latency)) m now s).1 = some ((s.execute (.known op) c).1.map m.value) ∧
    (call (.standard config room (.store latency)) m now s).2.2 = (s.execute (.known op) c).2

section
variable {config : Config} {room : Nat} {latency : Number} {now : Rat} {m : Scalar} {op : Operation} {c : Command}
  {s : Store}

theorem begin_store (hlatency : latency.isBeyondClock = false) : (Executor.store latency).begin op c s =
    (⟨Executor.pause latency, fun s => ((s.answer (.known op) c).1.map Reply.toDatum, (s.answer (.known op) c).2)⟩,
      s.record (.known op) c) := by
  simp only [Executor.store, hlatency, Bool.false_eq_true, if_false]

theorem begin_store_of_beyond (hlatency : latency.isBeyondClock = true) : (Executor.store latency).begin op c s =
    (⟨some 0, fun s => (.error (.broken .overflow Failure.beyondDoubles), s)⟩, s.record (.known op) c) := by
  simp only [Executor.store, hlatency, if_true]

section
variable (hallows : config.allows 0 = true) (hnow : IsInstant now) (h : m.Asks op c)
  (hfree : config.barred? c = none)
include hallows hnow h hfree

/-- A call that ends in time gives what the store answers. -/
theorem actsDirectly_of_inTime (hs : s.Proper) (htime : InTime config.timeout now latency) :
    ActsDirectly config room latency now s m op c := by
  obtain ⟨hlatency, d, hd, hbefore⟩ := htime
  have hpause : Executor.pause latency = some d := hd
  have hnoted : (s.record (.known op) c).Proper := hs
  have hexecute : s.execute (.known op) c = (s.record (.known op) c).answer (.known op) c := rfl
  obtain ⟨r, hr, hcarries, hcode⟩ := hnoted.respond h.fits room
  obtain ⟨x, hx, hanswer⟩ := hnoted.answers h.fits
  have hleft : (run op config room (.store latency) (single c) (some 1) now s).Left (.ok r)
      (s.execute (.known op) c).2 := by
    refine run_conclusion hallows hnow h.fits hfree (begin_store hlatency) ?_
    rw [hpause, Fate.of_duration, if_pos hbefore]
    exact congrArg (fun y => some (y, _)) hr
  obtain ⟨hcall, hworld⟩ := call_left h.makes hleft
  refine ⟨hcall.trans (congrArg some ?_), hworld⟩
  show r.result.map m.result = _
  rw [hcarries.result_eq hcode, hexecute, hanswer]
  cases x with
  | ok reply => exact congrArg Except.ok (h.result_eq hx)
  | error refusal => rfl

theorem call_sleepless (hlatency : latency.isBeyondClock = true) :
    (call (.standard config room (.store latency)) m now s).1 =
      some (.error (.broken .overflow Failure.beyondDoubles)) := by
  have hleft : (run op config room (.store latency) (single c) (some 1) now s).Left
      (.error (.broken .overflow Failure.beyondDoubles)) (s.record (.known op) c) :=
    run_conclusion hallows hnow h.fits hfree (begin_store_of_beyond hlatency) rfl
  exact (call_left h.makes hleft).1

theorem call_of_fate_timeout {ending : Call Store} {begun : Store}
    (hbegin : (Executor.store latency).begin op c s = (ending, begun)) (hfate : Fate.of config now ending = .timeout) :
    (call (.standard config room (.store latency)) m now s).1 =
      some (.error (.refused Failure.timedOutMessage (.text Failure.timeoutCode))) := by
  have hleft : (run op config room (.store latency) (single c) (some 1) now s).Left
      (respond room op c (.error (.timedOut Failure.timedOutMessage))) begun :=
    run_conclusion hallows hnow h.fits hfree hbegin (by rw [hfate]; rfl)
  exact (call_left h.makes hleft).1

theorem call_late (hlatency : latency.isBeyondClock = false) (hlate : ¬InTime config.timeout now latency) :
    (call (.standard config room (.store latency)) m now s).1 =
        some (.error (.refused Failure.timedOutMessage (.text Failure.timeoutCode))) ∨
      (call (.standard config room (.store latency)) m now s).1 = none := by
  have hbegin : (Executor.store latency).begin op c s = _ := begin_store hlatency
  cases hpause : Executor.pause latency with
  | some d =>
    rw [hpause] at hbegin
    refine .inl (call_of_fate_timeout hallows hnow h hfree hbegin ?_)
    rw [Fate.of_duration, if_neg fun hbefore => hlate ⟨hlatency, d, hpause, hbefore⟩]
  | none =>
    rw [hpause] at hbegin
    have hfate := Fate.of_endless config now fun s : Store =>
      ((s.answer (.known op) c).1.map Reply.toDatum, (s.answer (.known op) c).2)
    split at hfate
    · exact .inl (call_of_fate_timeout hallows hnow h hfree hbegin hfate)
    · exact .inr (call_never h.makes hallows hnow hfree hbegin hfate).1

end

/-- What breaks a call and what times it out are no answers of the store. -/
theorem ActsDirectly.inTime (hacts : ActsDirectly config room latency now s m op c) (hallows : config.allows 0 = true)
    (hnow : IsInstant now) (h : m.Asks op c) (hwritable : c.isWritable = true) (hs : s.Proper) :
    config.isBeyondClock = false ∧ InTime config.timeout now latency := by
  have hof (f : Failure) (hf : (call (.standard config room (.store latency)) m now s).1 = some (.error f)) :
      f.IsOfAction := by
    have hgives := hf.symm.trans hacts.1
    cases hx : (s.execute (.known op) c).1 with
    | ok reply =>
      rw [hx] at hgives
      cases hgives
    | error f' =>
      rw [hx] at hgives
      cases hgives
      exact hs.execute_isOfAction h.fits hx
  cases hclock : config.isBeyondClock with
  | true =>
    have hbarred : config.barred? c = some (.broken .overflow Failure.beyondDoubles) := by
      rw [Config.barred?_of_isWritable hwritable, if_pos hclock]
    exact absurd (hof _ (call_barred h.makes hallows hnow hbarred).1) Failure.not_isOfAction_overflow
  | false =>
    have hfree : config.barred? c = none := Config.barred?_eq_none.2 ⟨hwritable, hclock⟩
    refine ⟨rfl, by_contra fun hlate => ?_⟩
    cases hlatency : latency.isBeyondClock with
    | true => exact absurd (hof _ (call_sleepless hallows hnow h hfree hlatency)) Failure.not_isOfAction_overflow
    | false =>
      have hended : (call (.standard config room (.store latency)) m now s).1 = _ ∨
          (call (.standard config room (.store latency)) m now s).1 = none :=
        call_late hallows hnow h hfree hlatency hlate
      rcases hended with htold | hnone
      · exact absurd (hof _ htold) Failure.not_isOfAction_timedOut
      · cases hnone.symm.trans hacts.1

end

/-- Three nanoseconds between latency and timeout are enough within the first twelve days. -/
theorem actsDirectly_of_le {s : Store} (hs : s.Reachable) {m : Scalar} {op : Operation} {c : Command} (h : m.Asks op c)
    (hwritable : c.isWritable = true) {limit : Int} (hlimit : 1 ≤ limit) {timeout : Option Number} {latency : Number}
    {duration now : Rat} (hnow : IsInstant now) (room : Nat)
    (hclock : (Config.mk (.int limit) timeout).isBeyondClock = false) (hlatency : latency.isBeyondClock = false)
    (hpause : Executor.pause latency = some duration) (hstart : 0 ≤ now) (hduration : 0 ≤ duration)
    (hmax : now + duration ≤ 2 ^ 20) (hbelow : ∀ t ∈ allowance timeout, duration + 12 * slack ≤ t) :
    ActsDirectly ⟨.int limit, timeout⟩ room latency now s m op c :=
  actsDirectly_of_inTime (allows_zero hlimit timeout) hnow h (Config.barred?_eq_none.2 ⟨hwritable, hclock⟩) hs.proper
    ⟨hlatency, duration, hpause, endsBefore_of_le hstart hduration hmax hbelow⟩

/-- A scalar call with valid arguments over a reachable store, under any limit, acts as the direct call of its command
if that can be written, just where the clock can measure its timeout and its end comes in time. -/
theorem actsDirectly_iff {s : Store} (hs : s.Reachable) {m : Scalar} {op : Operation} {c : Command} (h : m.Asks op c)
    (hwritable : c.isWritable = true) {limit : Int} (hlimit : 1 ≤ limit) (timeout : Option Number) (latency : Number)
    {now : Rat} (hnow : IsInstant now) (room : Nat) :
    ActsDirectly ⟨.int limit, timeout⟩ room latency now s m op c ↔
      (Config.mk (.int limit) timeout).isBeyondClock = false ∧ InTime timeout now latency := by
  have hallows := allows_zero hlimit timeout
  constructor
  · intro hacts
    exact hacts.inTime hallows hnow h hwritable hs.proper
  · rintro ⟨hclock, htime⟩
    exact actsDirectly_of_inTime hallows hnow h (Config.barred?_eq_none.2 ⟨hwritable, hclock⟩) hs.proper htime

theorem actsDirectly_second : (Store.empty ⟨[], 0⟩).Reachable ∧
    (Scalar.add (.bytes [107]) (.bytes [97])).Asks .add (.add (some [107]) [[97]]) ∧
    (Command.add (some [107]) [[97]]).isWritable = true ∧ (1 : Int) ≤ 1 ∧ IsInstant 0 ∧
      ActsDirectly ⟨.int 1, some (.double (.finite false (2 ^ 52 + 1) (-52)))⟩ 900 (.int 1) 0 (.empty ⟨[], 0⟩)
        (.add (.bytes [107]) (.bytes [97])) .add (.add (some [107]) [[97]]) := by
  have hempty : (Store.empty ⟨[], 0⟩).Reachable := .empty _
  have hadd : (Scalar.add (.bytes [107]) (.bytes [97])).Asks .add (.add (some [107]) [[97]]) := .add (.one [97])
  have htime : InTime (some (.double (.finite false (2 ^ 52 + 1) (-52)))) 0 (.int 1) := by decide +kernel
  exact ⟨hempty, hadd, rfl, by decide, isInstant_zero,
    (actsDirectly_iff hempty hadd rfl (by decide) _ (.int 1) isInstant_zero 900).2 ⟨by decide, htime⟩⟩

/-- A latency below a timeout that is no double, one that is no double itself without a timeout, and one below a
timeout that is up as soon as it is set. -/
theorem not_actsDirectly_below :
    ((Number.int 0).lt (.int (2 ^ 1024)) = true ∧
      ¬ActsDirectly ⟨.int 1, some (.int (2 ^ 1024))⟩ 900 (.int 0) 0 (.empty ⟨[], 0⟩) (.card (.bytes [107])) .card
        (.key (some [107]))) ∧
    ¬ActsDirectly ⟨.int 1, none⟩ 900 (.int (2 ^ 1024)) 0 (.empty ⟨[], 0⟩) (.card (.bytes [107])) .card
      (.key (some [107])) ∧
    (Number.double (.finite false 1 (-40))).lt (.double (.finite false 1 (-39))) = true ∧
      ¬ActsDirectly ⟨.int 1, some (.double (.finite false 1 (-39)))⟩ 900 (.double (.finite false 1 (-40))) 0
        (.empty ⟨[], 0⟩) (.card (.bytes [107])) .card (.key (some [107])) := by
  have hempty : (Store.empty ⟨[], 0⟩).Proper := Store.Reachable.proper (.empty _)
  have hcard : (Scalar.card (.bytes [107])).Asks .card (.key (some [107])) := .card [107]
  have hbeyond : (Config.mk (.int 1) (some (.int (2 ^ 1024)))).isBeyondClock = true := by decide +kernel
  have htime {timeout : Option Number} {latency : Number}
      (hacts : ActsDirectly ⟨.int 1, timeout⟩ 900 latency 0 (.empty ⟨[], 0⟩) (.card (.bytes [107])) .card
        (.key (some [107]))) : (Config.mk (.int 1) timeout).isBeyondClock = false ∧ InTime timeout 0 latency :=
    hacts.inTime (allows_zero (by decide) _) isInstant_zero hcard rfl hempty
  refine ⟨⟨by decide +kernel, fun hacts => ?_⟩, fun hacts => ?_, by decide +kernel, fun hacts => ?_⟩
  · cases hbeyond.symm.trans (htime hacts).1
  · have hlate : ¬InTime none 0 (.int (2 ^ 1024)) := by decide +kernel
    exact hlate (htime hacts).2
  · have hlate : ¬InTime (some (.double (.finite false 1 (-39)))) 0 (.double (.finite false 1 (-40))) := by
      decide +kernel
    exact hlate (htime hacts).2

end Client
end SetPipeline
