import SetPipeline.Failure
import SetPipeline.Numeral
import SetPipeline.Text.Blank

/-! What the fields of a record accept. A rule turns a dynamic value into a typed one or names the
problem; a checked record gathers the issues of all its fields. -/
namespace SetPipeline.Fields

abbrev Rule (α : Type) := Datum → Except Problem α

def bytes : Rule Bytes
  | .bytes b | .byteArray b => .ok b
  | .text s => .ok (Bytes.ofText s)
  | _ => .error .bytesType

/-- The characters of a text, or of bytes in UTF-8. Other bytes give a character that no number and no
word has. -/
def characters? : Datum → Option (List Char)
  | .text s => some s.toList
  | .bytes b => some (match Bytes.toText? b with
    | some s => s.toList
    | none => [Char.ofNat 0xFFFD])
  | _ => none

def ofReading : Numeral.Reading → Except Problem Int
  | .value n => .ok n
  | .tooLong => .error .intTooLong
  | .malformed => .error .intParsing

def isSmall (n : Int) : Bool := n.natAbs < 9223372036854775808

def intOfDouble (x : Double) : Except Problem Int :=
  match x.isFinite, x.toInt? with
  | true, some n => if isSmall n then .ok n else .error .intTooLong
  | true, none => .error .fractional
  | false, _ => .error .notFinite

/-- An integer, a truth value, a double of integral value, or a text that is one. -/
def int : Rule Int
  | .int n => .ok n
  | .bool b => .ok (if b then 1 else 0)
  | .double x => intOfDouble x
  | d =>
    match characters? d with
    | some s => ofReading (Numeral.integral s)
    | none => .error .intType

def trueWords : List String := ["1", "true", "t", "yes", "y", "on"]
def falseWords : List String := ["0", "false", "f", "no", "n", "off"]

def boolOfWord (s : List Char) : Except Problem Bool :=
  let w := String.ofList (s.map Numeral.lower)
  if trueWords.contains w then .ok true
  else if falseWords.contains w then .ok false
  else .error .boolParsing

def boolOfInt (n : Int) : Except Problem Bool :=
  if n = 0 then .ok false else if n = 1 then .ok true else .error .boolParsing

def isWord (n : Int) : Bool := -9223372036854775808 ≤ n && n < 9223372036854775808

/-- A truth value, the number zero or one, or a word for it. A number beyond 64 bits is no candidate at
all. -/
def bool : Rule Bool
  | .bool b => .ok b
  | .int n => if isWord n then boolOfInt n else .error .boolType
  | .double x =>
    match x.toInt? with
    | some n => if isSmall n then boolOfInt n else .error .boolType
    | none => .error .boolType
  | d =>
    match characters? d with
    | some s => boolOfWord s
    | none => .error .boolType

def text : Rule String
  | .text s => .ok s
  | .bytes b | .byteArray b =>
    match Bytes.toText? b with
    | some s => .ok s
    | none => .error .textEncoding
  | _ => .error .textType

/-- A command as it is. A dictionary stands for the command without fields. -/
def command : Rule Command
  | .command c => .ok c
  | .dict _ => .ok .bare
  | _ => .error .commandType

/-- The items of a value that counts as a sequence: one that can be iterated, but no text, no bytes and no
dictionary. -/
def sequence? : Datum → Option (List Datum)
  | .text _ | .bytes _ | .byteArray _ | .dict _ => none
  | d => d.items?

abbrev Checked (α : Type) := Except (List Issue) α

/-- Two checks of one record: the issues of both are kept, in order. -/
def both (a : Checked α) (b : Checked β) : Checked (α × β) :=
  match a, b with
  | .ok x, .ok y => .ok (x, y)
  | .ok _, .error js => .error js
  | .error is, .ok _ => .error is
  | .error is, .error js => .error (is ++ js)

@[simp] theorem both_ok {x : α} {y : β} : both (.ok x) (.ok y) = .ok (x, y) := rfl

theorem both_eq_ok {a : Checked α} {b : Checked β} {p : α × β} :
    both a b = .ok p ↔ a = .ok p.1 ∧ b = .ok p.2 := by
  cases a <;> cases b <;> simp [both, Prod.ext_iff]

def located (field : String) (index : Option Nat) (r : Except Problem α) : Checked α :=
  r.mapError fun p => [⟨field, index, p⟩]

def items (field : String) (rule : Rule α) : Nat → List Datum → Checked (List α)
  | _, [] => .ok []
  | n, d :: ds => (both (located field (some n) (rule d)) (items field rule (n + 1) ds)).map fun p => p.1 :: p.2

/-- A field that holds several byte strings. Where iterating breaks, the items before that do not matter. -/
def several (field : String) (whenNot : Problem) (d : Datum) : Checked (List Bytes) :=
  match sequence? d, d.stop? with
  | some ds, some f => .error [⟨field, some ds.length, .iteration f.summary⟩]
  | some ds, none => items field bytes 0 ds
  | none, _ => .error [⟨field, none, whenNot⟩]

theorem items_bytes (field : String) (n : Nat) (bs : List Bytes) :
    items field bytes n (bs.map .bytes) = .ok bs := by
  induction bs generalizing n with
  | nil => rfl
  | cons b bs ih =>
    rw [List.map_cons, items, ih]
    rfl

abbrev Given := List (String × Datum)

def required (given : Given) (field : String) (check : Datum → Checked α) : Checked α :=
  match given.lookup field with
  | some d => check d
  | none => .error [⟨field, none, .missing⟩]

/-- A field that may be left out or be none. -/
def optional (given : Given) (field : String) (check : Datum → Checked α) : Checked (Option α) :=
  match given.lookup field with
  | none | some .none => .ok none
  | some d => (check d).map some

def single (field : String) (rule : Rule α) (d : Datum) : Checked α := located field none (rule d)

end SetPipeline.Fields
