import SetPipeline.Datum.Equality
import SetPipeline.Failure
import SetPipeline.Numeral
import SetPipeline.Text.Quoted

/-! The written form of a dynamic value: brackets by type, text and bytes quoted, and a record as the name
of its class and its fields. Not every value can be written: an integer can have too many digits, values can be nested
too deep, and an object can raise an exception instead. -/
namespace SetPipeline

/-- What writing an integer raises, if it has too many digits. -/
def Failure.ofDigits? (n : Int) : Option Failure :=
  if Nat.pow 10 Numeral.maxDigits ≤ n.natAbs then some (.broken .value tooManyDigits) else none

theorem Failure.ofDigits?_eq_none {n : Int} : ofDigits? n = none ↔ n.natAbs < Nat.pow 10 Numeral.maxDigits := by
  simp [ofDigits?]

/-- What writing a command raises. Only a count can have too many digits. -/
def Command.unwritable? : Command → Option Failure
  | randomMembers _ (some n) => Failure.ofDigits? n
  | _ => none

def Command.isWritable (c : Command) : Bool := c.unwritable?.isNone

namespace Datum

def joined (opening closing : String) (parts : List String) : String :=
  opening ++ ", ".intercalate parts ++ closing

/-- A tuple of one item keeps a comma to tell it from brackets. -/
def tupleText : List String → String
  | [x] => "(" ++ x ++ ",)"
  | xs => joined "(" ")" xs

def setText (xs : List String) : String := if xs.isEmpty then "set()" else joined "\x7b" "\x7d" xs

def plainText : Datum → String
  | none => "None"
  | text s => Text.quoted s
  | bytes b => Text.quotedBytes b
  | byteArray b => Text.quotedByteArray b
  | iterator _ => "iterator"
  | object o => o.written.toOption.getD ""
  | d => (d.number?.map Number.toText).getD ""

def fieldText : Datum → String
  | tuple xs => tupleText (xs.map plainText)
  | d => plainText d

def fieldTexts (c : Command) : List String := c.fields.map fun f => f.1 ++ "=" ++ fieldText f.2

def commandText (c : Command) : String := joined (c.cls.name ++ "(") ")" (fieldTexts c)

def responseTexts (r : Answer String) : List String :=
  ["input=" ++ commandText r.input, "output=" ++ r.output, "error=" ++ plainText (ofText r.error),
    "code=" ++ plainText (ofText r.code)]

mutual

def written : Datum → String
  | list xs => joined "[" "]" (writtenItems xs)
  | tuple xs => tupleText (writtenItems xs)
  | set xs => setText (writtenItems xs)
  | dict es => joined "\x7b" "\x7d" (writtenEntries es)
  | command c => commandText c
  | response ⟨k, i, o, e, c⟩ => joined (k.name ++ "(") ")" (responseTexts ⟨k, i, written o, e, c⟩)
  | d => plainText d

def writtenItems : List Datum → List String
  | [] => []
  | x :: xs => written x :: writtenItems xs

def writtenEntries : List (Datum × Datum) → List String
  | [] => []
  | (k, v) :: es => (written k ++ ": " ++ written v) :: writtenEntries es

end

mutual

/-- What writing a value raises, if there is room for so many levels of values. The members of a set are written as
a list. -/
def unwritable? : Nat → Datum → Option Failure
  | 0, _ => some (.broken .recursion Failure.tooDeep)
  | _ + 1, int n => Failure.ofDigits? n
  | _ + 1, command c => c.unwritable?
  | room + 1, list xs | room + 1, tuple xs => unwritableItem? room xs
  | room + 1, set xs => unwritableItem? (room - 1) xs
  | room + 1, dict es => unwritablePair? room es
  | room + 1, response ⟨_, i, o, _, _⟩ => i.unwritable?.or (unwritable? room o)
  | _ + 1, object o => match o.written with
    | .ok _ => Option.none
    | .error f => some f
  | _ + 1, none | _ + 1, bool _ | _ + 1, double _ | _ + 1, text _ | _ + 1, bytes _ | _ + 1, byteArray _
  | _ + 1, iterator _ => Option.none

def unwritableItem? (room : Nat) : List Datum → Option Failure
  | [] => Option.none
  | x :: xs => (unwritable? room x).or (unwritableItem? room xs)

def unwritablePair? (room : Nat) : List (Datum × Datum) → Option Failure
  | [] => Option.none
  | (k, v) :: es => ((unwritable? room k).or (unwritable? room v)).or (unwritablePair? room es)

end

def isWritable (room : Nat) (d : Datum) : Bool := (unwritable? room d).isNone

/-- A text is shown as it is, a record as its fields, every other value in its written form. -/
def shown : Datum → String
  | text s => s
  | command c => " ".intercalate (fieldTexts c)
  | response r => " ".intercalate (responseTexts ⟨r.kind, r.input, written r.output, r.error, r.code⟩)
  | d => written d

def unshown? (room : Nat) : Datum → Option Failure
  | text _ => Option.none
  | d => unwritable? room d

end Datum
end SetPipeline
