/-! The fourteen set operations, the classes of commands they take and the kinds of responses they
give. -/
namespace SetPipeline

inductive Combination where
  | inter
  | union
  | diff
  deriving DecidableEq, Repr

inductive Operation where
  | add
  | remove
  | pop
  | move
  | card
  | isMember
  | combine (how : Combination)
  | combineStore (how : Combination)
  | members
  | randomMembers
  deriving DecidableEq, Repr

/-- The classes of commands. A command of a class is also one of every class above it. -/
inductive CommandClass where
  | bare
  | key
  | add
  | remove
  | move
  | isMember
  | randomMembers
  | multiKey
  | combine (how : Combination)
  | multiKeyStore
  | combineStore (how : Combination)
  deriving DecidableEq, Repr

inductive ResponseKind where
  | plain
  | boolean
  | numeric
  | value
  | multiValue
  deriving DecidableEq, Repr

namespace Combination

def word : Combination → String
  | inter => "INTER"
  | union => "UNION"
  | diff => "DIFF"

def label : Combination → String
  | inter => "Inter"
  | union => "Union"
  | diff => "Diff"

def all : List Combination := [inter, union, diff]

end Combination

namespace Operation

def name : Operation → String
  | add => "SADD"
  | remove => "SREM"
  | pop => "SPOP"
  | move => "SMOVE"
  | card => "SCARD"
  | isMember => "SISMEMBER"
  | combine how => "S" ++ how.word
  | combineStore how => "S" ++ how.word ++ "STORE"
  | members => "SMEMBERS"
  | randomMembers => "SRANDMEMBER"

def all : List Operation :=
  [add, remove, pop, move, card, isMember] ++ Combination.all.map combine ++
    Combination.all.map combineStore ++ [members, randomMembers]

theorem mem_all (op : Operation) : op ∈ all := by
  cases op with
  | combine how => cases how <;> decide
  | combineStore how => cases how <;> decide
  | _ => decide

/-- Names are exact, in upper case. -/
def ofName? (s : String) : Option Operation := all.find? (·.name == s)

@[simp] theorem ofName?_name (op : Operation) : ofName? op.name = some op := by
  cases op with
  | combine how => cases how <;> decide
  | combineStore how => cases how <;> decide
  | _ => decide

theorem name_of_ofName? {s : String} {op : Operation} (h : ofName? s = some op) : op.name = s := by
  simpa using List.find?_some h

theorem name_injective {a b : Operation} (h : a.name = b.name) : a = b := by
  have := ofName?_name a
  rw [h, ofName?_name] at this
  exact (Option.some.inj this).symm

def commandClass : Operation → CommandClass
  | add => .add
  | remove => .remove
  | pop | card | members => .key
  | move => .move
  | isMember => .isMember
  | combine how => .combine how
  | combineStore how => .combineStore how
  | randomMembers => .randomMembers

def responseKind : Operation → ResponseKind
  | add | remove | card | combineStore _ => .numeric
  | pop => .value
  | move | isMember => .boolean
  | combine _ | members | randomMembers => .multiValue

end Operation

namespace CommandClass

def name : CommandClass → String
  | bare => "Command"
  | key => "KeyCommand"
  | add => "SAddCommand"
  | remove => "SRemCommand"
  | move => "SMoveCommand"
  | isMember => "SIsMemberCommand"
  | randomMembers => "SRandMembersCommand"
  | multiKey => "MultiKeyCommand"
  | combine how => "S" ++ how.label ++ "Command"
  | multiKeyStore => "MultiKeyStoreCommand"
  | combineStore how => "S" ++ how.label ++ "StoreCommand"

def all : List CommandClass :=
  [bare, key, add, remove, move, isMember, randomMembers, multiKey, multiKeyStore] ++
    Combination.all.map combine ++ Combination.all.map combineStore

def ofName? (s : String) : Option CommandClass := all.find? (·.name == s)

@[simp] theorem ofName?_name (c : CommandClass) : ofName? c.name = some c := by
  cases c with
  | combine how => cases how <;> decide
  | combineStore how => cases how <;> decide
  | _ => decide

def parent? : CommandClass → Option CommandClass
  | bare => none
  | key | multiKey => some bare
  | add | remove | move | isMember | randomMembers => some key
  | combine _ | multiKeyStore => some multiKey
  | combineStore _ => some multiKeyStore

def ancestors : CommandClass → List CommandClass
  | bare => []
  | key | multiKey => [bare]
  | add | remove | move | isMember | randomMembers => [key, bare]
  | combine _ | multiKeyStore => [multiKey, bare]
  | combineStore _ => [multiKeyStore, multiKey, bare]

theorem ancestors_eq (c : CommandClass) :
    c.ancestors = match c.parent? with | none => [] | some p => p :: p.ancestors := by
  cases c <;> rfl

/-- Whether a command of class `c` counts as one of class `d`. -/
def isKind (c d : CommandClass) : Bool := c == d || c.ancestors.contains d

@[simp] theorem isKind_refl (c : CommandClass) : c.isKind c = true := by simp [isKind]

@[simp] theorem isKind_bare (c : CommandClass) : c.isKind bare = true := by cases c <;> rfl

theorem isKind_trans {a b c : CommandClass} (hab : a.isKind b) (hbc : b.isKind c) :
    a.isKind c := by
  cases a <;> cases b <;> simp_all [isKind, ancestors] <;> grind

end CommandClass

namespace ResponseKind

def name : ResponseKind → String
  | plain => "CommandResponse"
  | boolean => "BooleanResponse"
  | numeric => "NumericResponse"
  | value => "ValueResponse"
  | multiValue => "MultiValueResponse"

def all : List ResponseKind := [plain, boolean, numeric, value, multiValue]

def ofName? (s : String) : Option ResponseKind := all.find? (·.name == s)

@[simp] theorem ofName?_name (k : ResponseKind) : ofName? k.name = some k := by
  cases k <;> decide

/-- Every kind counts as a plain response. -/
def isKind (k l : ResponseKind) : Bool := k == l || l == plain

end ResponseKind
end SetPipeline
