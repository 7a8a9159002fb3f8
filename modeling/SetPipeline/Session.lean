import SetPipeline.Heap.Answer
import SetPipeline.Method

/-! Sessions: named objects, and the expressions and steps that make, show, change and compare them. Two
names may stand for one object. A list or a byte array can grow and an iterator is used up, which shows
through every name; a command holds copies and never changes, but a plain response holds the very object
that it was given. -/
namespace SetPipeline

structure Session where
  heap : Heap
  names : List (String × Nat)

/-- What a value is made from. A call names what is called, if there is such a thing. -/
inductive Expression where
  | value (d : Datum)
  | named (name : String)
  | list (parts : List Expression)
  | tuple (parts : List Expression)
  | set (parts : List Expression)
  | iterator (parts : List Expression)
  | dict (entries : List (Expression × Expression))
  | repeated (e : Expression) (times : Int)
  | construct (cls : RecordClass) (fields : List (String × Expression))
  | callClass (cls : RecordClass) (called : Option Selector) (args : List Expression)
  | callValue (self : Expression) (called : Option Selector) (args : List Expression)

/-- Why a step fails: a name without a value, or a failure of what the step does. -/
inductive StepError where
  | noSuchName
  | failed (f : Failure)

instance : Inhabited Expression := ⟨.value .none⟩

instance : Inhabited StepError := ⟨.noSuchName⟩

namespace Session

/-- A part of a step. What it has changed by the time it fails stays changed. -/
abbrev Turn (α : Type) := ExceptT StepError (StateM Session) α

def empty : Session := ⟨.empty, []⟩

def fail (f : Failure) : Turn α := throw (.failed f)

def orEndless (x : Option α) : Turn α :=
  match x with
  | some a => pure a
  | none => fail .endless

def alloc (o : Object) : Turn Nat := do
  let s ← get
  let (a, h) := s.heap.alloc o
  set { s with heap := h }
  return a

def place (d : Datum) : Turn Nat := do
  let s ← get
  let (a, h) := s.heap.place d
  set { s with heap := h }
  return a

def put (a : Nat) (o : Object) : Turn Unit := modify fun s => { s with heap := s.heap.put a o }

def object? (a : Nat) : Turn (Option Object) := return (← get).heap.object? a

def address (name : String) : Turn Nat := do
  match (← get).names.lookup name with
  | some a => return a
  | none => throw .noSuchName

def bindTo (name : String) (a : Nat) : Turn Unit :=
  modify fun s => { s with names := (name, a) :: s.names.filter (·.1 != name) }

def value (a : Nat) : Turn Datum := do orEndless ((← get).heap.value? a)

def answer (a : Nat) : Turn Datum := do
  match (← get).heap.answer a with
  | .ok d => return d
  | .error f => fail f

/-- An argument as calls look at it: no deeper than the items of a collection. -/
def argument (a : Nat) : Turn Datum := return (← get).heap.glimpse 2 a

def drain (a : Nat) : Turn Unit := do
  match ← object? a with
  | some (.iterator _) => put a (.iterator [])
  | _ => return

def class? (a : Nat) : Turn (Option RecordClass) := do
  match ← object? a with
  | some (.atom d) => return RecordClass.of? d
  | some (.response r) => return some (.response r.kind)
  | _ => return none

def setOf (as : List Nat) : Turn Nat := do
  let h := (← get).heap
  if as.all h.hashable then alloc (.set (← orEndless (h.distinct? as))) else fail .unsuitable

def dictOf (es : List (Nat × Nat)) : Turn Nat := do
  let h := (← get).heap
  if es.all fun e => h.hashable e.1 then alloc (.dict (← orEndless (h.entries? es))) else fail .unsuitable

def times (n : Int) (xs : List α) : List α := (List.replicate n.toNat xs).flatten

/-- A text, bytes, a list or a tuple some times over, or a multiple of a number. -/
def repeated (a : Nat) (n : Int) : Turn Nat := do
  match ← object? a with
  | some (.atom (.text s)) => alloc (.atom (.text (String.ofList (times n s.toList))))
  | some (.atom (.bytes b)) => alloc (.atom (.bytes (times n b)))
  | some (.atom (.byteArray b)) => alloc (.atom (.byteArray (times n b)))
  | some (.list as) => alloc (.list (times n as))
  | some (.tuple as) => alloc (.tuple (times n as))
  | some (.atom d) =>
    match d.number? with
    | some x => alloc (.atom (.ofNumber (x.times n)))
    | none => fail .unsuitable
  | _ => fail .unsuitable

/-- Put a record that was made into the heap. A plain response keeps the object given for its output. -/
def keep (d : Datum) (output? : Option Nat) : Turn Nat :=
  match d, output? with
  | .response ⟨.plain, i, _, e, c⟩, some a => alloc (.response ⟨.plain, i, a, e, c⟩)
  | d, _ => place d

/-- What a call gave. A result that is asked for is the very object that the response holds. -/
def outcome (called : Selector) (args : List Nat) (d : Datum) : Turn Nat := do
  match called, args with
  | .method .result, [a] =>
    match ← object? a with
    | some (.response r) => return r.output
    | _ => place d
  | .maker m, _ => keep d (m.output? args)
  | .method _, _ => place d

/-- Call what a class has. Iterators among the arguments that are taken in item by item are used up, even
if the call fails. -/
def call (cls : RecordClass) (called : Option Selector) (args : List Nat) : Turn Nat := do
  match called with
  | none => fail .unknownMethod
  | some called =>
    let x := called.callClass cls (← args.mapM argument)
    (called.consumed cls args).forM drain
    match x with
    | .ok d => outcome called args d
    | .error f => fail f

def callOn (self : Nat) (called : Option Selector) (args : List Nat) : Turn Nat := do
  match ← class? self, called with
  | some cls, some (.method m) => call cls (some (.method m)) (self :: args)
  | some cls, called => call cls called args
  | none, _ => fail .unknownMethod

/-- Make a record from fields. Iterators in fields of several values are used up, even if a field is
refused. -/
def construct (cls : RecordClass) (fields : List (String × Nat)) : Turn Nat := do
  let x := cls.make (← fields.mapM fun f => return (f.1, ← argument f.2))
  (cls.severalFields.filterMap fun f => fields.lookup f).forM drain
  match x with
  | .ok d => keep d (fields.lookup "output")
  | .error f => fail f

mutual

/-- The address of what an expression makes. Parts and arguments are made from left to right. -/
def evaluate : Expression → Turn Nat
  | .value d => place d
  | .named name => address name
  | .list es => do alloc (.list (← evaluateAll es))
  | .tuple es => do alloc (.tuple (← evaluateAll es))
  | .set es => do setOf (← evaluateAll es)
  | .iterator es => do alloc (.iterator (← evaluateAll es))
  | .dict es => do dictOf (← evaluateEntries es)
  | .repeated e n => do repeated (← evaluate e) n
  | .construct cls fs => do construct cls (← evaluateFields fs)
  | .callClass cls called es => do call cls called (← evaluateAll es)
  | .callValue self called es => do
    let a ← evaluate self
    callOn a called (← evaluateAll es)

def evaluateAll : List Expression → Turn (List Nat)
  | [] => return []
  | e :: es => do
    let a ← evaluate e
    return a :: (← evaluateAll es)

def evaluateEntries : List (Expression × Expression) → Turn (List (Nat × Nat))
  | [] => return []
  | (k, v) :: es => do
    let a ← evaluate k
    let b ← evaluate v
    return (a, b) :: (← evaluateEntries es)

def evaluateFields : List (String × Expression) → Turn (List (String × Nat))
  | [] => return []
  | (name, e) :: fs => do
    let a ← evaluate e
    return (name, a) :: (← evaluateFields fs)

end

end Session

/-- The value that an expression stands for where nothing has a name. -/
def Expression.datum (e : Expression) : Except StepError Datum :=
  ((do Session.value (← Session.evaluate e) : Session.Turn Datum).run.run .empty).1

end SetPipeline
