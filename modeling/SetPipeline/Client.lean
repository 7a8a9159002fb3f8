import SetPipeline.Command.Build
import SetPipeline.Datum.Text
import SetPipeline.Pipeline.Clock

/-! The client. A batch method runs a stream of commands; a scalar method checks its arguments, builds one
command, runs a batch of one and unwraps the response. -/
namespace SetPipeline

open Pipeline

/-- The operation that a value names. The message about any other value shows it, if it can be shown. -/
def operationOf (room : Nat) (d : Datum) : Except Failure Operation :=
  match d.text?.bind Operation.ofName? with
  | some op => .ok op
  | none => .error ((d.unshown? room).getD (.misuse (.unknownOperation d.shown)))

/-- What a value gives as an input of commands, through a generator that iterates it. One that cannot be iterated
fails when it is first asked. -/
def supply (commands : Datum) : List Supplied :=
  match commands.items? with
  | some ds =>
    ds.map (fun d => ⟨0, .item d⟩) ++ (commands.stop?.map fun f => ⟨0, .failure (f.leaving .generator)⟩).toList
  | none => [⟨0, .failure .unsuitable⟩]

/-- What runs streams: a pipeline over an executor, or nothing, whose streams give no response whatever they
are asked for. -/
inductive Handler (σ : Type) where
  | standard (config : Config) (room : Nat) (executor : Executor σ)
  | silent

namespace Handler

/-- Run a stream of some items until it ends or has given as many responses as are wanted. -/
def stream : Handler σ → Operation → List Supplied → Option Nat → Rat → σ → Pipeline.Outcome σ
  | standard config room e, op, items, take, now, world => run op config room e items take now world
  | silent, _, _, _, now, world => ⟨some .exhausted, 0, [], now, world⟩

end Handler

/-- The check before a stream is made: there are commands, and the operation is known. -/
def accepted (room : Nat) (operation commands : Datum) : Except Failure Operation := do
  refuseNone commands .commands
  operationOf room operation

inductive Scalar where
  | add (key values : Datum)
  | remove (key values : Datum)
  | pop (key : Datum)
  | move (source destination value : Datum)
  | card (key : Datum)
  | isMember (key value : Datum)
  | members (key : Datum)
  | randomMember (key : Datum)
  | randomMembers (key count : Datum)
  | combine (how : Combination) (keys : Datum)
  | combineStore (how : Combination) (destination keys : Datum)

namespace Scalar

def oneOrMany (values : Datum) : Except Failure Datum := do
  refuseNone values .values
  if values.isSingle then pure (.list [values]) else values.collect.map .list

def command : Scalar → Except Failure (Operation × Command)
  | add key values => do
    refuseNone key .key
    let c ← Command.ofValues .add (← oneOrMany values)
    return (.add, ← c.bind .into key)
  | remove key values => do
    refuseNone key .key
    let c ← Command.ofValues .remove (← oneOrMany values)
    return (.remove, ← c.bind .outOf key)
  | pop key => do
    refuseNone key .key
    return (.pop, ← Command.ofKey .key key)
  | move source destination value => do
    refuseNone source .source
    refuseNone destination .destination
    refuseNone value .value
    let c ← Command.ofValue .move value
    let c ← c.bind .outOf source
    return (.move, ← c.bind .into destination)
  | card key => do
    refuseNone key .key
    return (.card, ← Command.ofKey .key key)
  | isMember key value => do
    refuseNone key .key
    refuseNone value .value
    let c ← Command.ofValue .isMember value
    return (.isMember, ← c.bind .within key)
  | members key => do
    refuseNone key .key
    return (.members, ← Command.ofKey .key key)
  | randomMember key => do
    refuseNone key .key
    let c ← Command.ofCount (.int 1)
    return (.randomMembers, ← c.bind .outOf key)
  | randomMembers key count => do
    refuseNone key .key
    refuseNone count .count
    let c ← Command.ofCount count
    return (.randomMembers, ← c.bind .outOf key)
  | combine how keys => do
    refuseNone keys .keys
    return (.combine how, ← Command.ofKeys (.combine how) keys)
  | combineStore how destination keys => do
    refuseNone destination .destination
    refuseNone keys .keys
    let c ← Command.ofKeys (.combineStore how) keys
    return (.combineStore how, ← c.bind .storedAt destination)

/-- Whether the order of the members in the result means nothing. -/
def isUnordered : Scalar → Bool
  | members _ | combine .. => true
  | _ => false

/-- One random member is the first of those asked for, if there is one. -/
def result : Scalar → Datum → Datum
  | randomMember _, .list (d :: _) => d
  | randomMember _, _ => .none
  | _, d => d

end Scalar

namespace Client

/-- Unwrap the response of a batch of one. Nothing, if the batch neither gave one nor ended. -/
def unwrap (op : Operation) (o : Pipeline.Outcome σ) : Option (Except Failure Datum) :=
  match o.responses, o.ending with
  | (_, _, r) :: _, _ => some r.result
  | [], some (.failed f) => some (.error f)
  | [], some _ =>
    some (.error (.refused ("No response received for " ++ op.name) (.text Failure.executionError)))
  | [], none => none

def ask (h : Handler σ) (op : Operation) (c : Command) (now : Rat) (world : σ) :
    Option (Except Failure Datum) × Rat × σ :=
  let o := h.stream op [⟨0, .item (.command c)⟩] (some 1) now world
  (unwrap op o, o.now, o.world)

/-- A scalar call, which is a coroutine. -/
def call (h : Handler σ) (s : Scalar) (now : Rat) (world : σ) :
    Option (Except Failure Datum) × Rat × σ :=
  match s.command with
  | .error f => (some (.error (f.leaving .coroutine)), now, world)
  | .ok (op, c) =>
    let (x, now, world) := ask h op c now world
    (x.map fun x => x.map s.result, now, world)

def batch (h : Handler σ) (operation commands : Datum) (now : Rat) (world : σ) :
    Option (Except Failure (List Response)) × Rat × σ :=
  match h with
  | .silent => (some (.ok []), now, world)
  | .standard _ room _ =>
    match accepted room operation commands with
    | .error f => (some (.error f), now, world)
    | .ok op =>
      let o := h.stream op (supply commands) none now world
      let x := o.ending.map fun
        | .failed f => .error f
        | .exhausted | .closed => .ok (o.responses.map fun r => r.2.2)
      (x, o.now, o.world)

def close (e : Executor σ) (world : σ) : σ :=
  match e.close with
  | some f => f world
  | none => world

end Client
end SetPipeline
