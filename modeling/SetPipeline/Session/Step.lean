import SetPipeline.Session

/-! The steps of a session. Each answers with a value or fails; a step that fails binds no name, and the
session goes on. -/
namespace SetPipeline

/-- A step. What is made can be given a name; showing a value is making what already has a name. -/
inductive Step where
  | define (name : String) (e : Expression)
  | make (e : Expression) (name : Option String)
  | append (name : String) (e : Expression)
  | assign (name field : String) (e : Expression)
  | compare (left right : String)
  | isInstance (name : String) (cls : RecordClass)

namespace Session

def define (name : String) (e : Expression) : Turn Datum := do
  bindTo name (← evaluate e)
  return .none

def make (e : Expression) (name : Option String) : Turn Datum := do
  let a ← evaluate e
  match name with
  | some n => bindTo n a
  | none => pure ()
  answer a

def byteOf (d : Datum) : Except Failure UInt8 :=
  match d with
  | .int n => if 0 ≤ n ∧ n < 256 then .ok (UInt8.ofNat n.toNat) else .error (.broken .value "")
  | .bool b => .ok (if b then 1 else 0)
  | _ => .error .unsuitable

/-- Lists grow by any object, byte arrays by a byte. -/
def append (name : String) (e : Expression) : Turn Datum := do
  let a ← address name
  let b ← evaluate e
  match ← object? a with
  | some (.list as) => put a (.list (as ++ [b]))
  | some (.atom (.byteArray bs)) =>
    match byteOf (← argument b) with
    | .ok x => put a (.atom (.byteArray (bs ++ [x])))
    | .error f => fail f
  | _ => fail .unknownMethod
  return .none

/-- Records refuse to be changed, whatever the field. A private attribute can be set and shows nowhere. -/
def assign (name field : String) (e : Expression) : Turn Datum := do
  let a ← address name
  let _ ← evaluate e
  match ← class? a with
  | none => fail .unknownMethod
  | some cls =>
    if field.startsWith "_" then return .text "assigned"
    else fail (.invalid ⟨cls.name, [⟨field, none, .frozen⟩]⟩)

/-- Whether two objects are equal, and whether they are not unequal; equal ones have to be hashable, and
then their hashes agree. -/
def compare (left right : String) : Turn Datum := do
  let a ← address left
  let b ← address right
  let h := (← get).heap
  if ← orEndless (h.equal? a b) then
    if h.hashable a && h.hashable b then return .list [.bool true, .bool true, .bool true]
    else fail .unsuitable
  else return .list [.bool false, .bool false]

def isInstance (name : String) (cls : RecordClass) : Turn Datum := do
  return .bool ((← class? (← address name)).any (·.isKind cls))

def perform : Step → Turn Datum
  | .define name e => define name e
  | .make e name => make e name
  | .append name e => append name e
  | .assign name field e => assign name field e
  | .compare a b => compare a b
  | .isInstance name cls => isInstance name cls

def step (s : Session) (x : Step) : Except StepError Datum × Session := (perform x).run.run s

end Session
end SetPipeline
