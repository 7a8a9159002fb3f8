import SetPipeline.Breakdown
import SetPipeline.Double
import SetPipeline.Misuse

/-! Dynamically typed values, as callers and executors hand them over, and what can go wrong. A failure can carry a
value, and a value can fail when it is iterated or written, so the two are defined together. -/
namespace SetPipeline

/-- A response of some kind, with an output of type `α`: the command it answers, its output, and the
error text and code of a failure. -/
structure Answer (α : Type) where
  kind : ResponseKind
  input : Command
  output : α
  error : Option String
  code : Option String

/-- An object of some other type. If it can be iterated it gives some items, and behind them it may raise an exception;
and it has a written form, or writing it raises one. -/
structure Foreign (δ φ : Type) where
  typeName : String
  iteration? : Option (List δ × Option φ)
  written : Except φ String

mutual

/-- An iterator stands for the items it has still to give. A set lists its members once each, and a
dictionary its keys. -/
inductive Datum where
  | none
  | bool (b : Bool)
  | int (n : Int)
  | double (x : Double)
  | text (s : String)
  | bytes (b : Bytes)
  | byteArray (b : Bytes)
  | list (items : List Datum)
  | tuple (items : List Datum)
  | set (items : List Datum)
  | iterator (items : List Datum)
  | dict (entries : List (Datum × Datum))
  | command (c : Command)
  | response (r : Answer Datum)
  | object (o : Foreign Datum Failure)

/-- Misuse is refused before anything runs; a refusal is an executor's answer to one command; everything else breaks
the stream it occurs in. Of a mute exception there is no text, since asking for it raises another one. -/
inductive Failure where
  | misuse (cause : Misuse)
  | refused (message : String) (code : Datum)
  | invalid (report : Report)
  | timedOut (message : String)
  | broken (kind : Breakdown) (message : String)
  | mute (kind raised : Breakdown) (message : String)
  | unsuitable
  | unknownMethod
  /-- A value that is part of itself and so has no end. -/
  | endless

end

abbrev Response := Answer Datum

namespace Datum

instance : Inhabited Datum := ⟨none⟩

def ofKey : Option Bytes → Datum
  | Option.none => none
  | some b => bytes b

def ofKeys (bs : List Bytes) : Datum := tuple (bs.map bytes)

def ofCount : Option Int → Datum
  | Option.none => none
  | some n => int n

def ofText : Option String → Datum
  | Option.none => none
  | some s => text s

end Datum

namespace Command

def fields : Command → List (String × Datum)
  | bare => []
  | key k => [("key", Datum.ofKey k)]
  | add k vs | remove k vs => [("key", Datum.ofKey k), ("values", Datum.ofKeys vs)]
  | move s d v => [("key", Datum.ofKey s), ("destination", Datum.ofKey d), ("value", .bytes v)]
  | isMember k v => [("key", Datum.ofKey k), ("value", .bytes v)]
  | randomMembers k n => [("key", Datum.ofKey k), ("count", Datum.ofCount n)]
  | multiKey ks | combine _ ks => [("keys", Datum.ofKeys ks)]
  | multiKeyStore ks d | combineStore _ ks d => [("keys", Datum.ofKeys ks), ("destination", Datum.ofKey d)]

end Command

namespace Answer

def fields (r : Response) : List (String × Datum) :=
  [("input", .command r.input), ("output", r.output), ("error", .ofText r.error),
    ("code", .ofText r.code)]

end Answer

namespace Datum

def isNone : Datum → Bool
  | none => true
  | _ => false

@[simp] theorem isNone_iff {d : Datum} : d.isNone = true ↔ d = none := by
  cases d <;> simp [isNone]

def bytes? : Datum → Option Bytes
  | bytes b => some b
  | _ => Option.none

def text? : Datum → Option String
  | text s => some s
  | _ => Option.none

/-- What iterating a value gives. Bytes give numbers, a text its characters, a dictionary its keys, and
a record its fields with their names. -/
def items? : Datum → Option (List Datum)
  | text s => some (s.toList.map fun c => text (String.singleton c))
  | bytes b | byteArray b => some (b.map fun x => int x.toNat)
  | list xs | tuple xs | set xs | iterator xs => some xs
  | dict es => some (es.map (·.1))
  | command c => some (c.fields.map fun f => tuple [text f.1, f.2])
  | response r => some (r.fields.map fun f => tuple [text f.1, f.2])
  | object o => o.iteration?.map (·.1)
  | none | bool _ | int _ | double _ => Option.none

/-- The exception that iterating a value raises behind its items. -/
def stop? : Datum → Option Failure
  | object o => o.iteration?.bind (·.2)
  | _ => Option.none

/-- Whether the value is one text or one byte string, and no collection. -/
def isSingle : Datum → Bool
  | text _ | bytes _ | byteArray _ => true
  | _ => false

def typeName : Datum → String
  | none => "NoneType"
  | bool _ => "bool"
  | int _ => "int"
  | double _ => "float"
  | text _ => "str"
  | bytes _ => "bytes"
  | byteArray _ => "bytearray"
  | list _ => "list"
  | tuple _ => "tuple"
  | set _ => "set"
  | iterator _ => "list_iterator"
  | dict _ => "dict"
  | command c => c.cls.name
  | response r => r.kind.name
  | object o => o.typeName

end Datum
end SetPipeline
