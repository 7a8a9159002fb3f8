import SetPipeline.Bytes
import SetPipeline.Operation

/-! Commands: the parameters of one set operation. A key or destination may still be absent; such a
command is incomplete and names the part it lacks. -/
namespace SetPipeline

inductive Part where
  | key
  | source
  | destination
  | setKey
  | value
  | values
  | keys
  | count
  | commands
  deriving DecidableEq, Repr

def Part.label : Part → String
  | key => "Key"
  | source => "Source key"
  | destination => "Destination key"
  | setKey => "Set key"
  | value => "Value"
  | values => "Values"
  | keys => "Keys"
  | count => "Count"
  | commands => "Commands"

inductive Command where
  | bare
  | key (key : Option Bytes)
  | add (key : Option Bytes) (values : List Bytes)
  | remove (key : Option Bytes) (values : List Bytes)
  | move (source destination : Option Bytes) (value : Bytes)
  | isMember (key : Option Bytes) (value : Bytes)
  | randomMembers (key : Option Bytes) (count : Option Int)
  | multiKey (keys : List Bytes)
  | combine (how : Combination) (keys : List Bytes)
  | multiKeyStore (keys : List Bytes) (destination : Option Bytes)
  | combineStore (how : Combination) (keys : List Bytes) (destination : Option Bytes)
  deriving DecidableEq, Repr

namespace Command

def cls : Command → CommandClass
  | bare => .bare
  | key _ => .key
  | add .. => .add
  | remove .. => .remove
  | move .. => .move
  | isMember .. => .isMember
  | randomMembers .. => .randomMembers
  | multiKey _ => .multiKey
  | combine how _ => .combine how
  | multiKeyStore .. => .multiKeyStore
  | combineStore how .. => .combineStore how

def lacks (p : Part) : Option Bytes → Option Part
  | none => some p
  | some _ => none

/-- The first part that has to be given before the command can run. A move asks for its source before
its destination. -/
def missing? : Command → Option Part
  | bare | multiKey _ | combine .. => none
  | key k | add k _ | remove k _ | randomMembers k _ => lacks .key k
  | move s d _ => (lacks .source s).or (lacks .destination d)
  | isMember k _ => lacks .setKey k
  | multiKeyStore _ d | combineStore _ _ d => lacks .destination d

def isComplete (c : Command) : Bool := c.missing?.isNone

@[simp] theorem lacks_eq_none {p : Part} {k : Option Bytes} : lacks p k = none ↔ k.isSome := by
  cases k <;> simp [lacks]

theorem isComplete_move {s d : Option Bytes} {v : Bytes} :
    (move s d v).isComplete ↔ s.isSome ∧ d.isSome := by
  simp [isComplete, missing?]

end Command

inductive Unfit where
  | wrongClass
  | incomplete (part : Part)
  deriving DecidableEq, Repr

/-- The check before a command is run: its class first, then its completeness. -/
def Operation.unfit? (op : Operation) (c : Command) : Option Unfit :=
  if c.cls.isKind op.commandClass then c.missing?.map .incomplete else some .wrongClass

theorem Operation.unfit?_eq_none {op : Operation} {c : Command} :
    op.unfit? c = none ↔ c.cls.isKind op.commandClass ∧ c.isComplete := by
  unfold unfit? Command.isComplete
  split <;> simp_all

end SetPipeline
