import SetPipeline.Datum.Text
import SetPipeline.Response
import SetPipeline.Store.Call

/-! Executors. A call first reaches the executor, which then needs some time to end it by itself, or never
does; what the call does happens at its end, in one piece. A call that is given up before that does
nothing more. -/
namespace SetPipeline

/-- A call under way: how long it takes, and how it ends. -/
structure Call (σ : Type) where
  duration : Option Rat
  finish : σ → Except Failure Datum × σ

structure Executor (σ : Type) where
  begin : Operation → Command → σ → Call σ × σ
  /-- Executors that can be closed. -/
  close : Option (σ → σ)

namespace Executor

def moment : Rat := (2 : Rat) ^ (-1074 : Int)

/-- How long a sleep of so many seconds lasts, if it ends. One of not-a-number is over when the clock is next looked
at. -/
def pause (seconds : Number) : Option Rat :=
  match seconds.seconds? with
  | some (.finite r) => some (if r ≤ 0 then 0 else r)
  | some .low => some 0
  | some .high => none
  | none => some moment

/-- The store notes a call when it arrives and answers it after its latency. A latency beyond the clock makes the call
fail at once. -/
def store (latency : Number) : Executor Store where
  begin op c s :=
    (if latency.isBeyondClock then ⟨some 0, fun s => (.error (.broken .overflow Failure.beyondDoubles), s)⟩
      else ⟨pause latency, fun s =>
        let (x, s) := s.answer (.known op) c
        (x.map Reply.toDatum, s)⟩, s.record (.known op) c)
  close := none

structure Plan where
  delay : Option Rat
  outcome : Except Failure Datum

/-- Calls that go as planned, one plan after the other; the last ones return none at once. -/
structure Script where
  plans : List Plan
  calls : List (Operation × Command)

def scripted : Executor Script where
  begin op c s :=
    let plan := s.plans.headD ⟨some 0, .ok .none⟩
    (⟨plan.delay, fun s => (plan.outcome, s)⟩, ⟨s.plans.tail, s.calls ++ [(op, c)]⟩)
  close := none

def closable (e : Executor σ) : Executor (σ × Nat) where
  begin op c s :=
    let (call, t) := e.begin op c s.1
    (⟨call.duration, fun s =>
      let (x, t) := call.finish s.1
      (x, t, s.2)⟩, t, s.2)
  close := some fun s => (s.1, s.2 + 1)

/-- The plans for the calls of one batch: items that never reach the executor have none. -/
def plansFor (op : Operation) (items : List (Datum × Plan)) : List Plan :=
  items.filterMap fun i =>
    match i.1 with
    | .command c => if (op.unfit? c).isNone && c.isWritable then some i.2 else none
    | _ => none

end Executor
end SetPipeline
