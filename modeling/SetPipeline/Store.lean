import SetPipeline.Datum.Order
import SetPipeline.Draws
import SetPipeline.Failure
import SetPipeline.Keyspace

/-! The in-memory store. It keeps the key space, whatever was put under keys that are not byte strings,
the calls made so far, and its source of random choices. A set that becomes empty is deleted. -/
namespace SetPipeline

/-- An operation asked of the store: one it knows, or another by name. -/
inductive Request where
  | known (op : Operation)
  | unknown (name : String)
  deriving DecidableEq, Repr

namespace Request

def name : Request → String
  | known op => op.name
  | unknown s => s

def ofName (s : String) : Request :=
  match Operation.ofName? s with
  | some op => known op
  | none => unknown s

def commandClass : Request → CommandClass
  | known op => op.commandClass
  | unknown _ => .bare

end Request

/-- What the store gives back. Members of other kinds come as plain values. -/
inductive Reply where
  | count (n : Nat)
  | flag (b : Bool)
  | member (b : Option Bytes)
  | members (bs : List Bytes)
  | value (d : Datum)
  | values (ds : List Datum)

def Reply.toDatum : Reply → Datum
  | count n => .int n
  | flag b => .bool b
  | member b => .ofKey b
  | members bs => .list (bs.map .bytes)
  | value d => d
  | values ds => .list ds

inductive Refusal where
  | wrongClass (request : Request) (got : CommandClass)
  | noArguments (operation : Operation)
  | wrongType
  | unknownCommand (name : String)
  deriving DecidableEq, Repr

namespace Refusal

def message : Refusal → String
  | wrongClass r got => "ERR " ++ r.name ++ " expects " ++ r.commandClass.name ++ ", got " ++ got.name
  | noArguments .add => "ERR wrong number of arguments for 'sadd' command"
  | noArguments .remove => "ERR wrong number of arguments for 'srem' command"
  | noArguments _ => "ERR wrong number of arguments"
  | wrongType => "WRONGTYPE Operation against a key holding the wrong kind of value"
  | unknownCommand name => "ERR unknown command '" ++ name ++ "'"

def code : Refusal → String
  | wrongType => Failure.wrongType
  | _ => Failure.err

def toFailure (r : Refusal) : Failure := .refused r.message (.text r.code)

end Refusal

structure Store where
  data : Keyspace
  aside : List (Datum × Entry)
  recorded : List (Request × Command)
  draws : Draws
  /-- How many members have been labelled so far. -/
  labels : Nat

namespace Store

def empty (draws : Draws) : Store := ⟨∅, [], [], draws, 0⟩

/-- The byte strings of an entry that holds no others. A plain none counts as no entry. -/
def entrySet : Option Entry → Except Refusal MemberSet
  | none | some (.plain .none) => .ok ∅
  | some (.set m) => .ok m
  | some (.mixed _) | some (.plain _) => .error .wrongType

def entryMembers : Option Entry → Except Refusal (List Member)
  | none | some (.plain .none) => .ok []
  | some (.set m) => .ok (m.toList.map .ofBytes)
  | some (.mixed ms) => .ok ms
  | some (.plain _) => .error .wrongType

def setAt (s : Store) (k : Bytes) : Except Refusal MemberSet := entrySet (s.data.get? k)

/-- Put a set under a key, or delete the key if the set is empty. -/
def putSet (s : Store) (k : Bytes) (m : MemberSet) : Store :=
  { s with data := if m.isEmpty then s.data.erase k else s.data.put k (.set m) }

theorem get?_putSet (s : Store) (j k : Bytes) (m : MemberSet) :
    (s.putSet k m).data.get? j =
      if j = k then (if m.isEmpty then none else some (.set m)) else s.data.get? j := by
  unfold putSet
  cases m.isEmpty <;> simp [Keyspace.get?_put, Keyspace.get?_erase]

@[simp] theorem setAt_putSet_self (s : Store) (k : Bytes) (m : MemberSet) :
    (s.putSet k m).setAt k = .ok m := by
  simp only [setAt, get?_putSet]
  cases h : m.isEmpty
  · simp [entrySet]
  · simp [entrySet, MemberSet.isEmpty_iff.1 h]

theorem setAt_putSet_of_ne {s : Store} {j k : Bytes} {m : MemberSet} (h : j ≠ k) :
    (s.putSet k m).setAt j = s.setAt j := by
  simp [setAt, get?_putSet, h]

def entryAt (s : Store) : Datum → Option Entry
  | .bytes k => s.data.get? k
  | d => (s.aside.find? fun e => d.same e.1).map (·.2)

def putAside (aside : List (Datum × Entry)) (k : Datum) (e : Entry) : List (Datum × Entry) :=
  if aside.any (fun x => k.same x.1) then aside.map fun x => if k.same x.1 then (x.1, e) else x
  else aside ++ [(k, e)]

def assign (s : Store) (key value : Datum) : Except Failure Store :=
  if !key.hashable then .error .unsuitable
  else
    let e := Entry.ofDatum s.labels value
    let s := { s with labels := s.labels + e.labelCount }
    match key with
    | .bytes k => .ok { s with data := s.data.put k e }
    | d => .ok { s with aside := putAside s.aside d e }

def members (s : Store) (key : Datum) : Except Failure (List Datum) :=
  if !key.hashable then .error .unsuitable
  else ((entryMembers (s.entryAt key)).map fun ms => ms.map (·.value)).mapError Refusal.toFailure

def clear (s : Store) : Store := { s with data := ∅, aside := [], recorded := [] }

/-- All entries, by the types of their keys and then by key; nothing if two keys of one type have no order. -/
def entries? (s : Store) : Option (List (Datum × Entry)) :=
  Datum.sortedOn? (fun e => e.1.byType) (s.data.toList.map (fun e => (Datum.bytes e.1, e.2)) ++ s.aside)

end Store
end SetPipeline
