import SetPipeline.Command.Build
import SetPipeline.Response

/-! The methods of command and response classes: makers, which are called on a class, and methods of what
was made. Each takes a fixed number of arguments, and a class has some of them. -/
namespace SetPipeline

inductive Maker where
  | key
  | value
  | values
  | count
  | anyMember
  | keys
  | success
  | failure
  deriving DecidableEq, Repr

inductive Method where
  | bind (b : Command.Binding)
  | requireComplete
  | isFailure
  | result
  deriving DecidableEq, Repr

inductive RecordClass where
  | command (c : CommandClass)
  | response (k : ResponseKind)
  deriving DecidableEq, Repr

namespace RecordClass

def ofName? (s : String) : Option RecordClass :=
  ((CommandClass.ofName? s).map command).or ((ResponseKind.ofName? s).map response)

def name : RecordClass → String
  | command c => c.name
  | response k => k.name

def of? : Datum → Option RecordClass
  | .command c => some (command c.cls)
  | .response r => some (response r.kind)
  | _ => none

def isKind : RecordClass → RecordClass → Bool
  | command c, command d => c.isKind d
  | response k, response l => k.isKind l
  | _, _ => false

def make (c : RecordClass) (given : Fields.Given) : Except Failure Datum :=
  match c with
  | command c => ((Command.make c given).map .command).mapError .invalid
  | response k => ((Response.make k given).map .response).mapError .invalid

/-- The fields of the class that hold several values, and so use up an iterator. -/
def severalFields : RecordClass → List String
  | command .add | command .remove => ["values"]
  | command .multiKey | command (.combine _) | command .multiKeyStore | command (.combineStore _) => ["keys"]
  | response .multiValue => ["output"]
  | _ => []

end RecordClass

namespace Maker

def on : Maker → RecordClass → Bool
  | key, .command c => c.isKind .key
  | value, .command c => [.add, .remove, .move, .isMember].contains c
  | values, .command c => [.add, .remove].contains c
  | count, .command c | anyMember, .command c => c == .randomMembers
  | keys, .command c => c.isKind .multiKey
  | success, .response _ | failure, .response _ => true
  | _, _ => false

def call (m : Maker) (cls : RecordClass) (args : List Datum) : Except Failure Datum :=
  if !m.on cls then .error .unknownMethod
  else match cls, m, args with
    | .command c, key, [k] => (Command.ofKey c k).map .command
    | .command c, value, [v] => (Command.ofValue c v).map .command
    | .command c, values, [vs] => (Command.ofValues c vs).map .command
    | .command _, count, [n] => (Command.ofCount n).map .command
    | .command _, anyMember, [] => Command.anyMember.map .command
    | .command c, keys, [ks] => (Command.ofKeys c ks).map .command
    | .response k, success, [c, d] => ((Response.success k c d).map .response).mapError .invalid
    | .response k, failure, [c, e, d] => ((Response.failure k c e d).map .response).mapError .invalid
    | _, _, _ => .error .unsuitable

/-- The arguments that are taken in item by item, so that an iterator among them is used up. -/
def consumed (m : Maker) (cls : RecordClass) (args : List α) : List α :=
  if !m.on cls then []
  else match m, args with
    | values, [vs] | keys, [vs] => [vs]
    | success, [_, d] => if cls == .response .multiValue then [d] else []
    | _, _ => []

def output? (m : Maker) (args : List α) : Option α :=
  match m, args with
  | success, [_, d] => some d
  | _, _ => none

end Maker

namespace Method

def on : Method → RecordClass → Bool
  | bind b, .command c => (b.target? c).isSome
  | requireComplete, .command _ => true
  | isFailure, .response _ | result, .response _ => true
  | _, _ => false

/-- Bind a key to a value as commands of a class do. The key is looked at first; then the value has to be a
command, and one without the field that is bound is made again as it is. -/
def bindAs (self : Datum) (c : CommandClass) (b : Command.Binding) (key : Datum) : Except Failure Command :=
  match b.target? c with
  | some (field, p) => do
    refuseNone key p
    match self with
    | .command d => d.replacing field key
    | _ => throw .unknownMethod
  | none => .error .unknownMethod

def partsOf : CommandClass → List (String × Part)
  | .bare | .multiKey | .combine _ => []
  | .key | .add | .remove | .randomMembers => [("key", .key)]
  | .move => [("key", .source), ("destination", .destination)]
  | .isMember => [("key", .setKey)]
  | .multiKeyStore | .combineStore _ => [("destination", .destination)]

/-- Refuse a value that lacks a part which commands of a class need. A value without the field for it is
unfit to be asked. -/
def requireParts (self : Datum) (c : CommandClass) : Except Failure Unit :=
  (partsOf c).forM fun (field, p) =>
    match self with
    | .command d =>
      match d.fields.lookup field with
      | some k => refuseNone k p
      | none => .error .unknownMethod
    | _ => .error .unknownMethod

def asResponse : Datum → Except Failure Response
  | .response r => .ok r
  | _ => .error .unknownMethod

/-- Call the method that a class has, on any value. The class says what the method does, the value only has
to be of a kind that it can be done to. -/
def callOn (m : Method) (cls : RecordClass) (self : Datum) (args : List Datum) : Except Failure Datum :=
  if !m.on cls then .error .unknownMethod
  else match m, cls, args with
    | bind b, .command c, [k] => (bindAs self c b k).map .command
    | requireComplete, .command c, [] => (requireParts self c).map fun _ => .none
    | isFailure, .response _, [] => (asResponse self).map fun r => .bool (Response.isFailure r)
    | result, .response _, [] => do (← asResponse self).result
    | _, _, _ => .error .unsuitable

end Method

inductive Selector where
  | maker (m : Maker)
  | method (m : Method)
  deriving DecidableEq, Repr

namespace Selector

/-- Call on a class. A method of its values takes the value as its first argument. -/
def callClass (cls : RecordClass) : Selector → List Datum → Except Failure Datum
  | maker m, args => m.call cls args
  | method m, self :: args => m.callOn cls self args
  | method m, [] => .error (if m.on cls then .unsuitable else .unknownMethod)

def consumed (cls : RecordClass) : Selector → List α → List α
  | maker m, args => m.consumed cls args
  | method _, _ => []

end Selector
end SetPipeline
