import SetPipeline.Datum
import SetPipeline.Number

/-! Equality of dynamic values. Numbers are equal by value across their types, bytes and byte arrays by
content, sets and dictionaries whatever their order. Commands are equal when class and fields are, and
so are responses. An iterator equals nothing, and nor does an object of another type. Hashable are the values that
cannot change. -/
namespace SetPipeline.Datum

def number? : Datum → Option Number
  | bool b => some (.bool b)
  | int n => some (.int n)
  | double x => some (.double x)
  | _ => Option.none

def ofNumber : Number → Datum
  | .bool b => bool b
  | .int n => int n
  | .double x => double x

def sameAtom : Datum → Datum → Bool
  | none, none => true
  | text s, text t => s == t
  | bytes a, bytes b | bytes a, byteArray b | byteArray a, bytes b | byteArray a, byteArray b => a == b
  | command c, command d => c == d
  | a, b =>
    match a.number?, b.number? with
    | some m, some n => m.same n
    | _, _ => false

mutual

def same : Datum → Datum → Bool
  | list xs, list ys | tuple xs, tuple ys => sameItems xs ys
  | set xs, set ys => xs.length == ys.length && sameMembers xs ys
  | dict es, dict fs => es.length == fs.length && sameEntries es fs
  | response ⟨k, i, o, e, c⟩, response r =>
    k == r.kind && i == r.input && same o r.output && e == r.error && c == r.code
  | a, b => sameAtom a b

def sameItems : List Datum → List Datum → Bool
  | [], [] => true
  | x :: xs, y :: ys => same x y && sameItems xs ys
  | _, _ => false

def sameMembers : List Datum → List Datum → Bool
  | [], _ => true
  | x :: xs, ys => ys.any (same x ·) && sameMembers xs ys

def sameEntries : List (Datum × Datum) → List (Datum × Datum) → Bool
  | [], _ => true
  | (k, v) :: es, fs => fs.any (fun f => same k f.1 && same v f.2) && sameEntries es fs

end

mutual

def hashable : Datum → Bool
  | byteArray _ | list _ | set _ | dict _ => false
  | tuple xs => allHashable xs
  | response ⟨_, _, o, _, _⟩ => hashable o
  | none | bool _ | int _ | double _ | text _ | bytes _ | iterator _ | command _ | object _ => true

def allHashable : List Datum → Bool
  | [] => true
  | x :: xs => hashable x && allHashable xs

end

end SetPipeline.Datum
