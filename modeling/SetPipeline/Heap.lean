import SetPipeline.Datum.Equality

/-! Objects that can share parts. A heap holds objects at addresses, and the parts of an object are addresses,
so one object may be part of several others and, as a list can grow, of itself. -/
namespace SetPipeline

/-- A value whose parts are at addresses. An atom has no parts. -/
inductive Object where
  | atom (d : Datum)
  | list (parts : List Nat)
  | tuple (parts : List Nat)
  | set (parts : List Nat)
  | iterator (parts : List Nat)
  | dict (entries : List (Nat × Nat))
  | response (r : Answer Nat)

namespace Object

def pair? (part : Nat → Option Datum) (e : Nat × Nat) : Option (Datum × Datum) :=
  match part e.1, part e.2 with
  | some k, some v => some (k, v)
  | _, _ => none

/-- The value of an object, given the values of its parts; nothing if one has none. -/
def toDatum? (part : Nat → Option Datum) : Object → Option Datum
  | atom d => some d
  | list as => (as.mapM part).map .list
  | tuple as => (as.mapM part).map .tuple
  | set as => (as.mapM part).map .set
  | iterator as => (as.mapM part).map .iterator
  | dict es => (es.mapM (pair? part)).map .dict
  | response r => (part r.output).map fun d => .response { r with output := d }

end Object

structure Heap where
  objects : Array Object

namespace Heap

def empty : Heap := ⟨#[]⟩

def size (h : Heap) : Nat := h.objects.size

def object? (h : Heap) (a : Nat) : Option Object := h.objects[a]?

def alloc (h : Heap) (o : Object) : Nat × Heap := (h.size, ⟨h.objects.push o⟩)

def put (h : Heap) (a : Nat) (o : Object) : Heap := ⟨h.objects.setIfInBounds a o⟩

@[simp] theorem object?_alloc_self (h : Heap) (o : Object) :
    (h.alloc o).2.object? (h.alloc o).1 = some o := by
  simp [alloc, object?, size]

theorem object?_alloc_of_lt {h : Heap} {a : Nat} (o : Object) (ha : a < h.size) :
    (h.alloc o).2.object? a = h.object? a := by
  simp only [size] at ha
  simp [alloc, object?, Array.getElem?_push, Nat.ne_of_lt ha]

theorem object?_put_of_ne {h : Heap} {a b : Nat} (o : Object) (hab : a ≠ b) :
    (h.put a o).object? b = h.object? b := by
  simp [put, object?, hab]

mutual

/-- Put a value with all its parts at new addresses. -/
def place (h : Heap) : Datum → Nat × Heap
  | .list ds => let (as, h) := h.placeAll ds; h.alloc (.list as)
  | .tuple ds => let (as, h) := h.placeAll ds; h.alloc (.tuple as)
  | .set ds => let (as, h) := h.placeAll ds; h.alloc (.set as)
  | .iterator ds => let (as, h) := h.placeAll ds; h.alloc (.iterator as)
  | .dict es => let (es, h) := h.placeEntries es; h.alloc (.dict es)
  | .response ⟨k, i, o, e, c⟩ => let (a, h) := h.place o; h.alloc (.response ⟨k, i, a, e, c⟩)
  | d => h.alloc (.atom d)

def placeAll (h : Heap) : List Datum → List Nat × Heap
  | [] => ([], h)
  | d :: ds =>
    let (a, h) := h.place d
    let (as, h) := h.placeAll ds
    (a :: as, h)

def placeEntries (h : Heap) : List (Datum × Datum) → List (Nat × Nat) × Heap
  | [] => ([], h)
  | (k, v) :: es =>
    let (a, h) := h.place k
    let (b, h) := h.place v
    let (es, h) := h.placeEntries es
    ((a, b) :: es, h)

end

/-- The value at an address, if it is no more than so many levels deep. -/
def read? (h : Heap) : Nat → Nat → Option Datum
  | 0, _ => none
  | depth + 1, a => (h.object? a).bind fun o => o.toDatum? (h.read? depth)

/-- The value at an address; nothing if it is part of itself. A way down that meets no object twice meets
no more of them than there are. -/
def value? (h : Heap) (a : Nat) : Option Datum := h.read? (h.size + 1) a

/-- The value at an address as far as so many levels show it, what is deeper being left blank. -/
def glimpse (h : Heap) : Nat → Nat → Datum
  | 0, _ => .none
  | depth + 1, a =>
    ((h.object? a).bind fun o => o.toDatum? fun b => some (h.glimpse depth b)).getD .none

section
variable (same : Nat → Nat → Option Bool)

def sameParts : List Nat → List Nat → Option Bool
  | [], [] => some true
  | a :: as, b :: bs => do if ← same a b then sameParts as bs else some false
  | _, _ => some false

def hasSame (a : Nat) : List Nat → Option Bool
  | [] => some false
  | b :: bs => do if ← same a b then some true else hasSame a bs

def sameMembers : List Nat → List Nat → Option Bool
  | [], _ => some true
  | a :: as, bs => do if ← hasSame same a bs then sameMembers as bs else some false

def valueAt? (k : Nat) : List (Nat × Nat) → Option (Option Nat)
  | [] => some none
  | e :: es => do if ← same k e.1 then some (some e.2) else valueAt? k es

def sameEntries : List (Nat × Nat) → List (Nat × Nat) → Option Bool
  | [], _ => some true
  | e :: es, fs => do
    match ← valueAt? same e.1 fs with
    | some v => if ← same e.2 v then sameEntries es fs else some false
    | none => some false

end

/-- Equality of the objects at two addresses; nothing if it takes more than so many levels to tell. A part
equals itself, even if it is not a number; an iterator equals itself alone. -/
def same? (h : Heap) : Nat → Nat → Nat → Option Bool
  | 0, _, _ => none
  | depth + 1, a, b =>
    let part (c d : Nat) : Option Bool := if c = d then some true else h.same? depth c d
    match h.object? a, h.object? b with
    | some (.atom d), some (.atom e) => some (d.same e)
    | some (.list as), some (.list bs) | some (.tuple as), some (.tuple bs) => sameParts part as bs
    | some (.set as), some (.set bs) =>
      if as.length = bs.length then sameMembers part as bs else some false
    | some (.dict es), some (.dict fs) =>
      if es.length = fs.length then sameEntries part es fs else some false
    | some (.response r), some (.response q) =>
      if r.kind = q.kind ∧ r.input = q.input ∧ r.error = q.error ∧ r.code = q.code then
        part r.output q.output
      else some false
    | some (.iterator _), some (.iterator _) => some (a == b)
    | _, _ => some false

/-- Whether the objects at two addresses are equal; nothing if there is no end to comparing them. A way
down that meets no two objects together twice meets no more pairs than there are. -/
def equal? (h : Heap) (a b : Nat) : Option Bool := h.same? (h.size * h.size + 1) a b

def hashableWithin (h : Heap) : Nat → Nat → Bool
  | 0, _ => false
  | depth + 1, a =>
    match h.object? a with
    | some (.atom d) => d.hashable
    | some (.tuple as) => as.all (h.hashableWithin depth)
    | some (.response r) => h.hashableWithin depth r.output
    | some (.iterator _) => true
    | _ => false

/-- Whether the object at an address can be hashed: nothing in it can change. -/
def hashable (h : Heap) (a : Nat) : Bool := h.hashableWithin (h.size + 1) a

def equalParts? (h : Heap) (a b : Nat) : Option Bool := if a = b then some true else h.equal? a b

def insertPart? (h : Heap) (as : List Nat) (a : Nat) : Option (List Nat) := do
  if ← hasSame h.equalParts? a as then some as else some (as ++ [a])

/-- The parts of a set: of equal ones the first. -/
def distinct? (h : Heap) (as : List Nat) : Option (List Nat) := as.foldlM h.insertPart? []

/-- Give a key its value. A key that is there stays as it is. -/
def putPair? (h : Heap) : List (Nat × Nat) → Nat × Nat → Option (List (Nat × Nat))
  | [], e => some [e]
  | f :: fs, e => do
    if ← h.equalParts? e.1 f.1 then some ((f.1, e.2) :: fs) else (h.putPair? fs e).map (f :: ·)

/-- The entries of a dictionary: of equal keys the first, with the value of the last. -/
def entries? (h : Heap) (es : List (Nat × Nat)) : Option (List (Nat × Nat)) := es.foldlM h.putPair? []

end Heap
end SetPipeline
