import SetPipeline.Executor
import SetPipeline.Pipeline

/-! A pipeline under a clock. Time stands still while anything can be done and then goes to the next
instant at which a call ends, a timeout expires or the input gives its item. A wait ends with everything
that is finished, and the consumer asks again at once until it has taken what it wants.

The clock counts seconds in doubles, so every instant is rounded, and instants closer together than its
resolution count as one. Timeouts are those of version 3.11 of the interpreter: a call that ended while its time ran out
has ended in time. -/
namespace SetPipeline.Pipeline

def later (now duration : Rat) : Rat := Double.nearest (now + duration)

def resolution : Rat := Double.nearest (1 / 1000000000)

/-- Whole milliseconds, the rest being cut off. -/
def milliseconds (t : Rat) : Int := (Double.nearest (t * 1000)).floor

structure Supplied where
  gap : Rat
  offer : Offer

def sourceOf (items : List Supplied) : Source := fun i =>
  match items[i]? with
  | some s => s.offer
  | none => .done

/-- The time that a timeout allows. One that is not a number allows none, an infinite one any. -/
def allowance : Option Number → Option Rat
  | none => none
  | some n =>
    match n.seconds? with
    | some (.finite r) => some r
    | some .high => none
    | some .low | none => some 0

/-- Whether a timer that is set has come by now. -/
def reached (now : Rat) (t : Option Rat) : Bool := t.any fun t => t ≤ now || t < later now resolution

/-- A running call: when it ends by itself, when its time is up, and how it ends. -/
structure Running (σ : Type) where
  position : Nat
  ends : Option Rat
  expires : Option Rat
  finish : σ → Except Failure Datum × σ

/-- A call that begins now. Where its time is up at once it does not come to its end. -/
def Running.of (timeout : Option Number) (now : Rat) (position : Nat) (call : Call σ) : Running σ :=
  let expires := (allowance timeout).map (later now)
  ⟨position, if reached now expires then none else call.duration.map (later now), expires, call.finish⟩

/-- Whether the time of a call is up, and the call has not ended before. Of two timers for one instant the earlier one
comes first, and of a call that ends at the very instant at which its time is up the timeout does. -/
def Running.isLate (r : Running σ) (now : Rat) : Bool :=
  reached now r.expires &&
    !(reached now r.ends && match r.ends, r.expires with
      | some s, some t => decide (s < t)
      | _, _ => false)

/-- A pipeline, the world its executor acts on, and the time; `due` is when the asked item comes. -/
structure Clocked (σ : Type) where
  state : State
  world : σ
  now : Rat
  running : List (Running σ)
  due : Option Rat
  trace : List (Rat × Event)

structure Outcome (σ : Type) where
  ending : Option End
  pulled : Nat
  trace : List (Rat × Event)
  now : Rat
  world : σ

section
variable {σ : Type} (b : Batch) (e : Executor σ) (items : List Supplied)

namespace Clocked

/-- Go to a later state; its new events happen now, and a newly asked item is due after its gap. -/
def goTo (c : Clocked σ) (s : State) : Clocked σ :=
  let fresh := s.log.drop c.state.log.length
  let due :=
    if !s.pull.isAsked then none
    else if c.state.pull.isAsked then c.due
    else some (later c.now (((items[s.pulled]?).map (·.gap)).getD 0))
  { c with state := s, due := due, trace := c.trace ++ fresh.map fun ev => (c.now, ev) }

def move (c : Clocked σ) (m : Move) : Clocked σ :=
  match b.step c.state m with
  | some s => c.goTo items s
  | none => c

def finish (c : Clocked σ) (r : Running σ) : Clocked σ :=
  let (outcome, world) := r.finish c.world
  { c with world := world, running := c.running.filter (·.position != r.position) }.move b items
    (.settle r.position outcome)

def expire (c : Clocked σ) (r : Running σ) : Clocked σ :=
  { c with running := c.running.filter (·.position != r.position) }.move b items (.expire r.position)

/-- Start the earliest queued flight. Its call goes to the executor, and one that takes no time ends at
once. -/
def start (c : Clocked σ) : Clocked σ :=
  match c.state.flights.find? (·.phase.isQueued) with
  | none => c
  | some f =>
    let c := c.move b items .start
    match c.state.flight? f.position with
    | some ⟨_, _, .running⟩ =>
      let (call, world) := e.begin b.operation f.command c.world
      let r := Running.of b.config.timeout c.now f.position call
      let c := { c with world := world, running := c.running ++ [r] }
      if call.duration = some 0 then c.finish b items r else c
    | _ => c

def startAll : Nat → Clocked σ → Clocked σ
  | 0, c => c
  | n + 1, c => startAll n (c.start b e items)

/-- End what ends now. A call that is late is given up. -/
def settle (c : Clocked σ) : Clocked σ :=
  let c := c.running.foldl
    (fun c r =>
      if r.isLate c.now then c.expire b items r
      else if reached c.now r.ends then c.finish b items r else c) c
  if reached c.now c.due then c.move b items .offer else c

def earlier : Option Rat → Option Rat → Option Rat
  | some s, some t => some (if s ≤ t then s else t)
  | some s, none => some s
  | none, t => t

def nextInstant (c : Clocked σ) : Option Rat :=
  c.running.foldl (fun t r => earlier t (earlier r.ends r.expires)) c.due

def finishedRound (s : State) : List Nat :=
  (s.flights.filter (·.phase.isFinished)).map (·.position)

def hasFinished (s : State) : Bool := s.pull.isGiven || !(finishedRound s).isEmpty

/-- The consumer asks again until the pipeline waits or ends, or closes once it has enough. -/
def consume (take : Option Nat) : Nat → Clocked σ → Clocked σ
  | 0, c => c
  | n + 1, c =>
    match c.state.stage with
    | .fresh | .handing _ =>
      let enough := match take with
        | some k => decide (k ≤ c.state.yielded.length)
        | none => false
      if enough then c.move b items .close else consume take n (c.move b items .ask)
    | .waiting | .ended _ => c

/-- One round: start what is queued, let time pass if nothing is finished, wake and consume. -/
def round (take : Option Nat) (c : Clocked σ) : Clocked σ :=
  let c := (c.startAll b e items c.state.flights.length).settle b items
  let c :=
    if hasFinished c.state then c
    else match c.nextInstant with
      | some t => { c with now := t }.settle b items
      | none => c
  let done := finishedRound c.state
  (c.move b items (.wake c.state.pull.isGiven done)).consume b items take (done.length + 1)

def rounds (take : Option Nat) : Nat → Clocked σ → Clocked σ
  | 0, c => c
  | n + 1, c =>
    match c.state.stage with
    | .waiting => rounds take n (c.round b e items take)
    | .fresh | .handing _ | .ended _ => c

end Clocked

/-- Run a stream from an instant on, over an input that closes quietly. Each item takes at most one round to come and
one to leave. -/
def run (op : Operation) (config : Config) (room : Nat) (e : Executor σ) (items : List Supplied)
    (take : Option Nat) (now : Rat) (world : σ) : Outcome σ :=
  let b : Batch := .quiet op (sourceOf items) config room
  let c : Clocked σ := ⟨.initial, world, now, [], none, []⟩
  let c := c.consume b items take 1
  let c := c.rounds b e items take (2 * items.length + 2)
  ⟨b.exit? c.state, c.state.pulled, c.trace, c.now, c.world⟩

end

namespace Outcome

def responses (o : Outcome σ) : List (Rat × Nat × Response) :=
  o.trace.filterMap fun
    | (t, .yielded i r) => some (t, i, r)
    | _ => none

def sourceClosed (o : Outcome σ) : Bool :=
  o.trace.any (fun | (_, .asked) => true | _ => false) &&
    o.trace.any (fun | (_, .closedSource) => true | _ => false)

/-- The events of calls. A call that was cancelled at the instant at which it began is left out. -/
def calls (o : Outcome σ) : List (Rat × Event) :=
  let stillborn (i : Nat) : Bool := o.trace.any fun
    | (t, .began j _) => i == j && o.trace.any fun
      | (u, .cancelled k) => i == k && t == u
      | _ => false
    | _ => false
  o.trace.filter fun
    | (_, .began i _) | (_, .cancelled i) => !stillborn i
    | (_, .returned _) | (_, .raised _) => true
    | _ => false

end Outcome
end SetPipeline.Pipeline
