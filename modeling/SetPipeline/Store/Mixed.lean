import SetPipeline.Store.Action

/-! Sets with members of any kind, as they can be put under a key by hand. Such a set is a list of members
of which no two are the same. Operations on it go by equality of values, and random draws from it need its
members to have an order. A member that does not even equal itself is known by its label, which its copies
share. No byte string equals a value of another kind, so what a command adds, moves or asks for is found
among the byte strings alone. -/
namespace SetPipeline

/-- Members of any kind, each once. -/
abbrev Members := List Member

namespace Members

/-- Whether two members are one: their values are equal, or they are copies of one member. -/
def matching (m n : Member) : Bool :=
  m.value.same n.value || (m.label.isSome && m.label == n.label)

def has (ms : Members) (m : Member) : Bool := ms.any (matching m)

def insert (ms : Members) (m : Member) : Members := if ms.has m then ms else ms ++ [m]

def union (ms ns : Members) : Members := ns.foldl insert ms

def erase (ms : Members) (m : Member) : Members := ms.eraseP (matching m)

def diff (ms ns : Members) : Members := ms.filter fun m => !has ns m

/-- Of equal members those of the smaller set are kept, or of the second one if both have one size. -/
def inter (ms ns : Members) : Members :=
  if ms.length < ns.length then ms.filter (has ns ·) else ns.filter (has ms ·)

def combine (how : Combination) (ms : Members) (ns : List Members) : Members :=
  match how with
  | .inter => ns.foldl inter ms
  | .union => ns.foldl union ms
  | .diff => ns.foldl diff ms

def ofBytes (bs : List Bytes) : Members := bs.map .ofBytes

def values (ms : Members) : List Datum := ms.map (·.value)

/-- The members in order; nothing if some of them have no order. -/
def sorted? (ms : Members) : Option Members := Datum.sortedOn? (·.value) ms

end Members

namespace Store

abbrev MixedTurn := Except Failure Reply × Store

def membersAt (s : Store) (k : Bytes) : Except Refusal Members := entryMembers (s.data.get? k)

def putMembers (s : Store) (k : Bytes) (ms : Members) : Store :=
  { s with data := if ms.isEmpty then s.data.erase k else s.data.put k (.ofMembers ms) }

def readingMembers (s : Store) (k : Bytes) (next : Members → MixedTurn) : MixedTurn :=
  match s.membersAt k with
  | .ok ms => next ms
  | .error r => (.error r.toFailure, s)

def addMembers (s : Store) (k : Bytes) (vs : List Bytes) : MixedTurn :=
  if vs.isEmpty then (.error (Refusal.noArguments .add).toFailure, s) else
    s.readingMembers k fun ms =>
      let ns := ms.union (.ofBytes vs)
      (.ok (.count (ns.length - ms.length)), s.putMembers k ns)

def removeMembers (s : Store) (k : Bytes) (vs : List Bytes) : MixedTurn :=
  if vs.isEmpty then (.error (Refusal.noArguments .remove).toFailure, s) else
    s.readingMembers k fun ms =>
      let ns := ms.diff (.ofBytes vs)
      (.ok (.count (ms.length - ns.length)), s.putMembers k ns)

def popMember (s : Store) (k : Bytes) : MixedTurn :=
  s.readingMembers k fun ms =>
    match Members.sorted? ms with
    | none => (.error .unsuitable, s)
    | some [] => (.ok (.value .none), s)
    | some (x :: xs) =>
      let (y, d) := s.draws.choose x xs
      (.ok (.value y.value), { s with draws := d }.putMembers k (ms.erase y))

def moveMember (s : Store) (source destination v : Bytes) : MixedTurn :=
  s.readingMembers source fun ms =>
    s.readingMembers destination fun ns =>
      if !ms.has (.ofBytes v) then (.ok (.flag false), s)
      else if source = destination then (.ok (.flag true), s)
      else
        (.ok (.flag true), (s.putMembers source (ms.erase (.ofBytes v))).putMembers destination
          (ns.insert (.ofBytes v)))

def randomOfMembers (s : Store) (k : Bytes) (count : Option Int) : MixedTurn :=
  s.readingMembers k fun ms =>
    match Members.sorted? ms with
    | none => (.error .unsuitable, s)
    | some [] => (.ok (.values []), s)
    | some (x :: xs) =>
      let (ys, d) := s.draws.several count x xs
      (.ok (.values (Members.values ys)), { s with draws := d })

def combinedMembers (s : Store) (op : Operation) (how : Combination) : List Bytes → Except Refusal Members
  | [] => .error (.noArguments op)
  | k :: ks => do
    let ms ← s.membersAt k
    return ms.combine how (← ks.mapM s.membersAt)

def performMixed (s : Store) : Action → MixedTurn
  | .add k vs => s.addMembers k vs
  | .remove k vs => s.removeMembers k vs
  | .pop k => s.popMember k
  | .move a b v => s.moveMember a b v
  | .card k => s.readingMembers k fun ms => (.ok (.count ms.length), s)
  | .isMember k v => s.readingMembers k fun ms => (.ok (.flag (ms.has (.ofBytes v))), s)
  | .combine how ks =>
    (((s.combinedMembers (.combine how) how ks).map fun ms => .values ms.values).mapError Refusal.toFailure, s)
  | .combineStore how ks d =>
    match s.combinedMembers (.combineStore how) how ks with
    | .ok ms => (.ok (.count ms.length), s.putMembers d ms)
    | .error r => (.error r.toFailure, s)
  | .members k => s.readingMembers k fun ms => (.ok (.values ms.values), s)
  | .randomMembers k n => s.randomOfMembers k n

def readsMixed (s : Store) (a : Action) : Bool := a.reads.any fun k => (s.data.get? k).any Entry.isMixed

/-- What an action comes to, whatever the sets that it reads hold. -/
def act (s : Store) (a : Action) : Except Failure Reply × Store :=
  if s.readsMixed a then s.performMixed a
  else
    let (x, t) := s.perform a
    (x.mapError Refusal.toFailure, t)

end Store
end SetPipeline
