import SetPipeline.Config
import SetPipeline.Response

/-! The pipeline of one batch. Items are pulled from an input one at a time, every command becomes a
flight, and finished flights are handed to a consumer in rounds. The pipeline is a state and the moves
that change it; which move comes next is up to the input, the executor and the consumer, so the moves
leave every order of completion and every grouping into rounds open. -/
namespace SetPipeline.Pipeline

inductive Offer where
  | item (d : Datum)
  | done
  | failure (f : Failure)

abbrev Source := Nat → Offer

def reject (op : Operation) (c : Command) (u : Unfit) : Response :=
  Response.failed op.responseKind c (u.misuse op c).message Failure.invalidArgument

/-- Go on after a line of the log, unless writing it raises something. -/
def logging (raised : Option Failure) (x : Except Failure α) : Except Failure α :=
  match raised with
  | some f => .error (f.leaving .coroutine)
  | none => x

/-- The response to a command whose call ended: its output, or the failure that the executor reported for
it. Any other failure is not the command's own and has no response. An output that is refused and the code of a
failure are written to the log before that. -/
def respond (room : Nat) (op : Operation) (c : Command) : Except Failure Datum → Except Failure Response
  | .ok output =>
    match Response.success op.responseKind (.command c) output with
    | .ok r => .ok r
    | .error report => logging (output.unwritable? room)
      (.ok (Response.failed op.responseKind c ("Unexpected " ++ op.name ++ " result: " ++ report.text)
        Failure.invalidOutput))
  | .error (.refused m code) => logging (code.unshown? room)
    ((Response.failure op.responseKind (.command c) (.text m) code).mapError .invalid)
  | .error (.timedOut _) =>
    .ok (Response.failed op.responseKind c Failure.timedOutMessage Failure.timeoutCode)
  | .error f => .error (f.leaving .coroutine)

section
variable {room : Nat} {op : Operation} {c : Command} {d : Datum}

theorem respond_of_success {r : Response} (h : Response.success op.responseKind (.command c) d = .ok r) :
    respond room op c (.ok d) = .ok r := by
  unfold respond
  dsimp only
  rw [h]

theorem respond_of_checked {v : Datum} (h : Response.checkOutput op.responseKind d = .ok v) :
    respond room op c (.ok d) = .ok ⟨op.responseKind, c, v, none, none⟩ :=
  respond_of_success (by rw [Response.success_eq, h])

theorem respond_of_unchecked {is : List Issue} (h : Response.checkOutput op.responseKind d = .error is) :
    respond room op c (.ok d) = logging (d.unwritable? room) (.ok (Response.failed op.responseKind c
      ("Unexpected " ++ op.name ++ " result: " ++ Report.text ⟨op.responseKind.name, is⟩) Failure.invalidOutput)) := by
  simp only [respond, Response.success_eq, h]

theorem respond_refused (room : Nat) (op : Operation) (c : Command) (m code : String) :
    respond room op c (.error (.refused m (.text code))) = .ok (Response.failed op.responseKind c m code) := by
  unfold respond
  dsimp only
  rw [Response.failure_text]
  rfl

end

/-- A command is queued until its turn to begin, then its call is running, then it is finished. -/
inductive Phase where
  | queued
  | running
  | finished (result : Except Failure Response)

structure Flight where
  position : Nat
  command : Command
  phase : Phase

/-- The pull from the input: not asked, asked, or answered for a position. -/
inductive Pull where
  | idle
  | asked
  | given (position : Nat) (offer : Offer)

inductive End where
  | exhausted
  | closed
  | failed (f : Failure)

/-- Where the loop stands: not begun, waiting for something to finish, suspended with a response handed
over and the rest of the round to come, or ended. -/
inductive Stage where
  | fresh
  | waiting
  | handing (rest : List Nat)
  | ended (e : End)

inductive Event where
  | asked
  | took (position : Nat)
  | began (position : Nat) (command : Command)
  | returned (position : Nat)
  | raised (position : Nat)
  | cancelled (position : Nat)
  | yielded (position : Nat) (response : Response)
  | abandoned
  | closedSource

structure State where
  stage : Stage
  pull : Pull
  exhausted : Bool
  pulled : Nat
  flights : List Flight
  log : List Event

/-- One batch: its operation, its input and its configuration, how deep the interpreter can write nested values, and
what closing the input raises, if it does, when the batch has come to a state. -/
structure Batch where
  operation : Operation
  source : Source
  config : Config
  room : Nat
  closing : State → Option Failure

def Batch.quiet (op : Operation) (source : Source) (config : Config) (room : Nat) : Batch :=
  ⟨op, source, config, room, fun _ => none⟩

namespace Batch
variable (op : Operation) (source : Source) (config : Config) (room : Nat)

@[simp] theorem operation_quiet : (quiet op source config room).operation = op := rfl
@[simp] theorem source_quiet : (quiet op source config room).source = source := rfl
@[simp] theorem config_quiet : (quiet op source config room).config = config := rfl
@[simp] theorem room_quiet : (quiet op source config room).room = room := rfl

end Batch

namespace Phase

def isQueued : Phase → Bool
  | queued => true
  | _ => false

def isRunning : Phase → Bool
  | running => true
  | _ => false

def isFinished : Phase → Bool
  | finished _ => true
  | _ => false

end Phase

namespace Pull

def isIdle : Pull → Bool
  | idle => true
  | _ => false

def isAsked : Pull → Bool
  | asked => true
  | _ => false

def isGiven : Pull → Bool
  | given .. => true
  | _ => false

end Pull

namespace State

def initial : State := ⟨.fresh, .idle, false, 0, [], []⟩

def emit (s : State) (es : List Event) : State := { s with log := s.log ++ es }

def flight? (s : State) (i : Nat) : Option Flight := s.flights.find? (·.position == i)

def remove (s : State) (i : Nat) : State :=
  { s with flights := s.flights.filter (·.position != i) }

def setPhase (s : State) (i : Nat) (p : Phase) : State :=
  { s with flights := s.flights.map fun f => if f.position = i then { f with phase := p } else f }

def yielded (s : State) : List (Nat × Response) :=
  s.log.filterMap fun
    | .yielded i r => some (i, r)
    | _ => none

/-- Stop everything: running calls are cancelled, then the outstanding pull, then the input is closed. What closing
it raises is seen by the consumer only. -/
def halt (s : State) (e : End) : State :=
  let calls := (s.flights.filter (·.phase.isRunning)).map fun f => Event.cancelled f.position
  let pull := if s.pull.isAsked then [Event.abandoned] else []
  { s with stage := .ended e, pull := .idle, flights := [] }.emit (calls ++ pull ++ [Event.closedSource])

def ending? (s : State) : Option End :=
  match s.stage with
  | .ended e => some e
  | _ => none

def hasClosedSource (s : State) : Bool :=
  s.log.any fun
    | .closedSource => true
    | _ => false

end State

namespace Batch

/-- The top of the loop: ask for the next item if there is room for it, and wait; with nothing to wait
for the stream is over. -/
def turn (b : Batch) (s : State) : State :=
  let s :=
    if s.pull.isIdle && !s.exhausted && b.config.allows s.flights.length then
      { s with pull := .asked }.emit [.asked]
    else s
  if s.flights.isEmpty && s.pull.isIdle then s.halt .exhausted else { s with stage := .waiting }

/-- Go through the rest of a round up to the next response. A failure ends the stream there. -/
def hand (b : Batch) : List Nat → State → State
  | [], s => b.turn s
  | i :: rest, s =>
    match s.flight? i with
    | some ⟨_, _, .finished (.ok r)⟩ =>
      { s.remove i with stage := .handing rest }.emit [.yielded i r]
    | some ⟨_, _, .finished (.error f)⟩ => (s.remove i).halt (.failed f)
    | _ => hand b rest s

/-- Take in what the input gave: a command becomes a queued flight, and anything else ends the stream. -/
def receive (b : Batch) (i : Nat) (round : List Nat) (s : State) : Offer → State
  | .item (.command c) => b.hand round { s with flights := s.flights ++ [⟨i, c, .queued⟩] }
  | .item d => s.halt (.failed (.misuse (.notCommand d.typeName)))
  | .done => b.hand round { s with exhausted := true }
  | .failure f => s.halt (.failed f)

end Batch

/-- The moves. The consumer asks or closes; the input answers a pull; the loop starts the earliest queued
flight; a running call ends by itself or by its timeout; the wait ends with some of what is finished. -/
inductive Move where
  | ask
  | close
  | offer
  | start
  | settle (position : Nat) (outcome : Except Failure Datum)
  | expire (position : Nat)
  | wake (takePull : Bool) (round : List Nat)

namespace Batch

def ask (b : Batch) (s : State) : Option State :=
  match s.stage with
  | .fresh => some (b.turn s)
  | .handing rest => some (b.hand rest s)
  | .waiting | .ended _ => none

/-- Closing a stream that has not begun touches nothing. -/
def close (s : State) : Option State :=
  match s.stage with
  | .fresh => some { s with stage := .ended .closed }
  | .waiting | .handing _ => some (s.halt .closed)
  | .ended _ => none

def offer (b : Batch) (s : State) : Option State :=
  match s.pull with
  | .asked =>
    let o := b.source s.pulled
    let t := { s with pull := .given s.pulled o }
    match o with
    | .item _ => some ({ t with pulled := s.pulled + 1 }.emit [.took s.pulled])
    | .done | .failure _ => some t
  | .idle | .given .. => none

/-- A command that does not fit is answered at once; any other reaches the executor, unless something bars it. -/
def start (b : Batch) (s : State) : Option State :=
  (s.flights.find? (·.phase.isQueued)).map fun f =>
    match b.operation.unfit? f.command with
    | some u => s.setPhase f.position (.finished (.ok (reject b.operation f.command u)))
    | none =>
      match b.config.barred? f.command with
      | some g => s.setPhase f.position (.finished (.error g))
      | none => (s.setPhase f.position .running).emit [.began f.position f.command]

def settle (b : Batch) (i : Nat) (outcome : Except Failure Datum) (s : State) : Option State :=
  match s.flight? i with
  | some ⟨_, c, .running⟩ =>
    let e := match outcome with
      | .ok _ => Event.returned i
      | .error _ => Event.raised i
    some ((s.setPhase i (.finished (respond b.room b.operation c outcome))).emit [e])
  | _ => none

def expire (b : Batch) (i : Nat) (s : State) : Option State :=
  match b.config.timeout, s.flight? i with
  | some _, some ⟨_, c, .running⟩ =>
    some ((s.setPhase i
      (.finished (respond b.room b.operation c (.error (.timedOut Failure.timedOutMessage))))).emit [.cancelled i])
  | _, _ => none

/-- The wait ends once something is finished, and gives finished things only, each once. -/
def canWake (s : State) (takePull : Bool) (round : List Nat) : Bool :=
  (match s.stage with
  | .waiting => true
  | _ => false) &&
  (!takePull || s.pull.isGiven) && (takePull || !round.isEmpty) && decide round.Nodup &&
    round.all fun i => (s.flight? i).any (·.phase.isFinished)

def wake (b : Batch) (takePull : Bool) (round : List Nat) (s : State) : Option State :=
  if canWake s takePull round then
    match takePull, s.pull with
    | true, .given i o => some (b.receive i round { s with pull := .idle } o)
    | _, _ => some (b.hand round s)
  else none

def step (b : Batch) (s : State) : Move → Option State
  | .ask => b.ask s
  | .close => close s
  | .offer => b.offer s
  | .start => b.start s
  | .settle i o => b.settle i o s
  | .expire i => b.expire i s
  | .wake p round => b.wake p round s

end Batch

/-- What closing the input raised, if the stream has closed it. -/
def Batch.masking? (b : Batch) (s : State) : Option Failure :=
  if s.hasClosedSource then (b.closing s).map fun f => (f.leaving .coroutine).leaving .generator else none

/-- How a stream ended, as its consumer sees it. What closing the input raised takes the place of any other end. -/
def Batch.exit? (b : Batch) (s : State) : Option End :=
  s.ending?.map fun e =>
    match b.masking? s, e with
    | some f, _ => .failed f
    | none, .failed f => .failed f.surfaced
    | none, e => e

inductive Reachable (b : Batch) : State → Prop where
  | initial : Reachable b .initial
  | next {s t : State} {m : Move} : Reachable b s → b.step s m = some t → Reachable b t

end SetPipeline.Pipeline
