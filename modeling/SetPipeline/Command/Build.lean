import SetPipeline.Failure
import SetPipeline.Fields

/-! Building commands. A builder first captures the values, the count or the operand keys, then binds
the key to run against. Every step makes a new command and checks all its fields again. -/
namespace SetPipeline.Command

open Fields

def optionalBytes (given : Given) (field : String) : Checked (Option Bytes) :=
  optional given field (single field bytes)

def requiredBytes (given : Given) (field : String) : Checked Bytes :=
  required given field (single field bytes)

def requiredSeveral (given : Given) (field : String) : Checked (List Bytes) :=
  required given field (several field .tupleType)

def optionalCount (given : Given) : Checked (Option Int) :=
  optional given "count" (single "count" int)

/-- The checked fields of a class. Names that the class does not have are ignored. -/
def check (given : Given) : CommandClass → Checked Command
  | .bare => .ok bare
  | .key => (optionalBytes given "key").map key
  | .add => (both (optionalBytes given "key") (requiredSeveral given "values")).map fun p => add p.1 p.2
  | .remove =>
    (both (optionalBytes given "key") (requiredSeveral given "values")).map fun p => remove p.1 p.2
  | .move =>
    (both (optionalBytes given "key")
      (both (optionalBytes given "destination") (requiredBytes given "value"))).map
        fun p => move p.1 p.2.1 p.2.2
  | .isMember => (both (optionalBytes given "key") (requiredBytes given "value")).map fun p => isMember p.1 p.2
  | .randomMembers => (both (optionalBytes given "key") (optionalCount given)).map fun p => randomMembers p.1 p.2
  | .multiKey => (requiredSeveral given "keys").map multiKey
  | .combine how => (requiredSeveral given "keys").map (combine how)
  | .multiKeyStore =>
    (both (requiredSeveral given "keys") (optionalBytes given "destination")).map fun p => multiKeyStore p.1 p.2
  | .combineStore how =>
    (both (requiredSeveral given "keys") (optionalBytes given "destination")).map fun p => combineStore how p.1 p.2

def make (c : CommandClass) (given : Given) : Except Report Command :=
  (check given c).mapError fun is => ⟨c.name, is⟩

def build (c : CommandClass) (given : Given) : Except Failure Command :=
  (make c given).mapError fun r => .misuse (.invalid r)

def requiredFields : CommandClass → List String
  | .add | .remove => ["values"]
  | .move | .isMember => ["value"]
  | .multiKey | .combine _ | .multiKeyStore | .combineStore _ => ["keys"]
  | .bare | .key | .randomMembers => []

/-- Copy a collection, of which one text or byte string is none. -/
def collection (d : Datum) (p : Part) : Except Failure Datum :=
  if d.isSingle then .error (.misuse (.single p)) else d.collect.map .tuple

def ofKey (c : CommandClass) (key : Datum) : Except Failure Command := do
  refuseNone key .key
  let missing := requiredFields c
  if missing.isEmpty then build c [("key", key)] else .error (.misuse (.needsMore c missing))

def ofValues (c : CommandClass) (values : Datum) : Except Failure Command := do
  refuseNone values .values
  build c [("values", ← collection values .values)]

/-- A command for one value: the classes that take several get a list of one. -/
def ofValue (c : CommandClass) (value : Datum) : Except Failure Command := do
  refuseNone value .value
  match c with
  | .add | .remove => ofValues c (.list [value])
  | _ => build c [("value", value)]

def ofCount (count : Datum) : Except Failure Command := do
  refuseNone count .count
  build .randomMembers [("count", count)]

def anyMember : Except Failure Command := build .randomMembers []

def ofKeys (c : CommandClass) (keys : Datum) : Except Failure Command := do
  refuseNone keys .keys
  build c [("keys", ← collection keys .keys)]

def replacing (c : Command) (field : String) (d : Datum) : Except Failure Command :=
  build c.cls (c.fields.map fun f => if f.1 = field then (field, d) else f)

inductive Binding where
  | into
  | outOf
  | within
  | storedAt
  deriving DecidableEq, Repr

/-- The field that a binding sets, and the part it asks for, in the classes that have it. -/
def Binding.target? : Binding → CommandClass → Option (String × Part)
  | into, .add => some ("key", .key)
  | into, .move => some ("destination", .destination)
  | outOf, .remove | outOf, .randomMembers => some ("key", .key)
  | outOf, .move => some ("key", .source)
  | within, .isMember => some ("key", .setKey)
  | storedAt, .multiKeyStore | storedAt, .combineStore _ => some ("destination", .destination)
  | _, _ => none

def bind (c : Command) (b : Binding) (key : Datum) : Except Failure Command :=
  match b.target? c.cls with
  | some (field, p) => do
    refuseNone key p
    c.replacing field key
  | none => .error .unknownMethod

end SetPipeline.Command
