import SetPipeline.Store

/-! What the store does for a complete command. An action reads the sets it needs before it writes
anything, and hands back the store together with its reply or its refusal. -/
namespace SetPipeline

inductive Action where
  | add (key : Bytes) (values : List Bytes)
  | remove (key : Bytes) (values : List Bytes)
  | pop (key : Bytes)
  | move (source destination value : Bytes)
  | card (key : Bytes)
  | isMember (key value : Bytes)
  | combine (how : Combination) (keys : List Bytes)
  | combineStore (how : Combination) (keys : List Bytes) (destination : Bytes)
  | members (key : Bytes)
  | randomMembers (key : Bytes) (count : Option Int)
  deriving DecidableEq, Repr

def Command.mainKey? : Command → Option Bytes
  | key k | add k _ | remove k _ | move k _ _ | isMember k _ | randomMembers k _ => k
  | bare | multiKey _ | combine .. | multiKeyStore .. | combineStore .. => none

namespace Action

/-- The action of a command that fits the operation and is complete. -/
def of? : Operation → Command → Option Action
  | .add, .add k vs => k.map (add · vs)
  | .remove, .remove k vs => k.map (remove · vs)
  | .pop, c => c.mainKey?.map pop
  | .move, .move s d v => s.bind fun s => d.map fun d => move s d v
  | .card, c => c.mainKey?.map card
  | .isMember, .isMember k v => k.map (isMember · v)
  | .combine how, .combine how' ks => if how = how' then some (combine how ks) else none
  | .combineStore how, .combineStore how' ks d =>
    if how = how' then d.map (combineStore how ks ·) else none
  | .members, c => c.mainKey?.map members
  | .randomMembers, .randomMembers k n => k.map (randomMembers · n)
  | _, _ => none

def reads : Action → List Bytes
  | add k _ | remove k _ | pop k | card k | isMember k _ | members k | randomMembers k _ => [k]
  | move s d _ => [s, d]
  | combine _ ks | combineStore _ ks _ => ks

def writes : Action → List Bytes
  | add k _ | remove k _ | pop k => [k]
  | move s d _ => [s, d]
  | combineStore _ _ d => [d]
  | card _ | isMember .. | members _ | randomMembers .. | combine .. => []

end Action

namespace Store

abbrev Turn := Except Refusal Reply × Store

def reading (s : Store) (k : Bytes) (next : MemberSet → Turn) : Turn :=
  match s.setAt k with
  | .ok m => next m
  | .error r => (.error r, s)

def addTo (s : Store) (k : Bytes) (vs : List Bytes) : Turn :=
  if vs.isEmpty then (.error (.noArguments .add), s) else
    s.reading k fun m =>
      let m' := m.insertAll vs
      (.ok (.count (m'.card - m.card)), s.putSet k m')

def removeFrom (s : Store) (k : Bytes) (vs : List Bytes) : Turn :=
  if vs.isEmpty then (.error (.noArguments .remove), s) else
    s.reading k fun m =>
      let m' := m.eraseAll vs
      (.ok (.count (m.card - m'.card)), s.putSet k m')

def popFrom (s : Store) (k : Bytes) : Turn :=
  s.reading k fun m =>
    match m.toList with
    | [] => (.ok (.member none), s)
    | x :: xs =>
      let (b, d) := s.draws.choose x xs
      (.ok (.member (some b)), { s with draws := d }.putSet k (m.erase b))

/-- Both sets are read first. A move within one key changes nothing. -/
def moveBetween (s : Store) (source destination v : Bytes) : Turn :=
  s.reading source fun m =>
    s.reading destination fun n =>
      if v ∉ m then (.ok (.flag false), s)
      else if source = destination then (.ok (.flag true), s)
      else (.ok (.flag true), (s.putSet source (m.erase v)).putSet destination (n.insert v))

def randomFrom (s : Store) (k : Bytes) (count : Option Int) : Turn :=
  s.reading k fun m =>
    match m.toList with
    | [] => (.ok (.members []), s)
    | x :: xs =>
      let (bs, d) := s.draws.several count x xs
      (.ok (.members bs), { s with draws := d })

def operands (s : Store) (op : Operation) : List Bytes → Except Refusal (MemberSet × List MemberSet)
  | [] => .error (.noArguments op)
  | k :: ks => do return (← s.setAt k, ← ks.mapM s.setAt)

def combined (s : Store) (op : Operation) (how : Combination) (ks : List Bytes) :
    Except Refusal MemberSet :=
  (s.operands op ks).map fun p => p.1.combine how p.2

def combineTo (s : Store) (how : Combination) (ks : List Bytes) (d : Bytes) : Turn :=
  match s.combined (.combineStore how) how ks with
  | .ok m => (.ok (.count m.card), s.putSet d m)
  | .error r => (.error r, s)

def perform (s : Store) : Action → Turn
  | .add k vs => s.addTo k vs
  | .remove k vs => s.removeFrom k vs
  | .pop k => s.popFrom k
  | .move a b v => s.moveBetween a b v
  | .card k => ((s.setAt k).map fun m => .count m.card, s)
  | .isMember k v => ((s.setAt k).map fun m => .flag (decide (v ∈ m)), s)
  | .combine how ks => ((s.combined (.combine how) how ks).map fun m => .members m.toList, s)
  | .combineStore how ks d => s.combineTo how ks d
  | .members k => ((s.setAt k).map fun m => .members m.toList, s)
  | .randomMembers k n => s.randomFrom k n

end Store
end SetPipeline
