import SetPipeline.Double
import SetPipeline.Text.Blank
import SetPipeline.Text.Digit

/-! Reading numbers from text. A group of digits may have a single underscore between two digits. An
integer is an optional sign and one group; a decimal is an optional sign and groups before and after a
point, of which one may be missing, with an optional exponent; the special values are named. Integral
text is read in two steps: a plain integer is taken as it stands, any other text is tidied first. -/
namespace SetPipeline.Numeral

def cons? : Option Nat → Option (List Nat) → Option (List Nat)
  | some d, some ds => some (d :: ds)
  | _, _ => none

/-- The digits of a group, or nothing if the text is not one. -/
def group? (value : Char → Option Nat) : List Char → Option (List Nat)
  | [] => none
  | [c] => cons? (value c) (some [])
  | c :: '_' :: rest => cons? (value c) (group? value rest)
  | c :: rest => cons? (value c) (group? value rest)

theorem group?_ne_nil {value : Char → Option Nat} {s : List Char} {ds : List Nat}
    (h : group? value s = some ds) : ds ≠ [] := by
  have cons {o : Option Nat} {r : Option (List Nat)} (h : cons? o r = some ds) : ds ≠ [] := by
    rintro rfl
    cases o <;> cases r <;> simp [cons?] at h
  unfold group? at h
  split at h
  · contradiction
  all_goals exact cons h

def digits? (value : Char → Option Nat) (s : List Char) : Option (List Nat) :=
  if s.isEmpty then some [] else group? value s

def ofDigits (ds : List Nat) : Nat := ds.foldl (fun a d => 10 * a + d) 0

def sign : List Char → Bool × List Char
  | '-' :: rest => (true, rest)
  | '+' :: rest => (false, rest)
  | rest => (false, rest)

def signed (negative : Bool) (n : Nat) : Int := if negative then -(n : Int) else n

def maxDigits : Nat := 4300

def int? (s : List Char) : Option Int := do
  let (negative, s) := sign s
  let ds ← group? Text.digit? s
  if maxDigits < ds.length then none else some (signed negative (ofDigits ds))

inductive Reading where
  | value (n : Int)
  | tooLong
  | malformed
  deriving DecidableEq, Repr

/-- A plain integer: an optional minus and ASCII digits, of which only a lone zero comes first. More than
`maxDigits` digits are too long, whatever stands behind them. -/
def plain (s : List Char) : Reading :=
  let negative := s.head? == some '-'
  let body := if negative then s.drop 1 else s
  let ds := (body.takeWhile fun c => (Text.asciiDigit? c).isSome).filterMap Text.asciiDigit?
  match ds with
  | [] => .malformed
  | [0] => if body.length = 1 then .value 0 else .malformed
  | 0 :: _ => .malformed
  | _ =>
    if maxDigits < ds.length then .tooLong
    else if body.length = ds.length then .value (signed negative (ofDigits ds))
    else .malformed

/-- A character that the digits behind leading zeros can begin with. -/
def isLead (c : Char) : Bool := c == '-' || (Text.asciiDigit? c).any (0 < ·)

/-- Skip zeros and underscores behind a zero. A zero before a point stays, and so does the last character
of a text that holds nothing else. -/
def afterZero (last : Char) : List Char → Option (List Char)
  | [] => some [last]
  | c :: rest =>
    if c == '0' || c == '_' then afterZero c rest
    else if isLead c then some (c :: rest)
    else if c == '.' then some (last :: c :: rest)
    else none

def stripZeros : List Char → Option (List Char)
  | [] => none
  | c :: rest => if c == '0' then afterZero c rest else if isLead c then some (c :: rest) else none

def dropFraction (s : List Char) : List Char :=
  let frac := (s.dropWhile (· != '.')).drop 1
  if !frac.isEmpty && frac.all (· == '0') then s.takeWhile (· != '.') else s

def hasDouble : List Char → Bool
  | '_' :: '_' :: _ => true
  | _ :: rest => hasDouble rest
  | [] => false

/-- Drop underscores, if each of them stands alone between other characters. -/
def dropUnderscores (s : List Char) : List Char :=
  if s.head? == some '_' || s.getLast? == some '_' || hasDouble s then s else s.filter (· != '_')

/-- The digits of an integral text without the forms that a plain integer does not have. -/
def tidyDigits (s : List Char) : Option (List Char) := (stripZeros s).map (dropUnderscores <| dropFraction ·)

/-- Tidy an integral text: white space around it, a plus in front, leading zeros, a fraction of zeros and
underscores go. -/
def tidy (s : List Char) : Option (List Char) :=
  match Text.trim Text.isBlank s with
  | '+' :: '-' :: _ => none
  | '+' :: rest => tidyDigits rest
  | '-' :: rest => (tidyDigits rest).map ('-' :: ·)
  | rest => tidyDigits rest

/-- Read an integral text. Only one that is too long as it stands is reported so. -/
def integral (s : List Char) : Reading :=
  match plain s with
  | .malformed =>
    match (tidy s).map plain with
    | some (.value n) => .value n
    | _ => .malformed
  | r => r

def lower (c : Char) : Char := c.toLower

/-- The exponent behind an `e`; a text without one has exponent zero. -/
def exponent? (s : List Char) : Option Int :=
  match s with
  | [] => some 0
  | _ :: s => do
    let (negative, s) := sign s
    return signed negative (ofDigits (← group? Text.digit? s))

/-- A decimal number rounded to the nearest double, an infinity, or not-a-number. -/
def double? (s : List Char) : Option Double := do
  let (negative, s) := sign s
  let name := s.map lower
  if name = "inf".toList ∨ name = "infinity".toList then some (.infinite negative)
  else if name = "nan".toList then some .nan
  else
    let isMark := fun c => lower c == 'e'
    let mantissa := s.takeWhile (!isMark ·)
    let power ← exponent? (s.dropWhile (!isMark ·))
    let whole ← digits? Text.digit? (mantissa.takeWhile (· != '.'))
    let frac ← digits? Text.digit? ((mantissa.dropWhile (· != '.')).drop 1)
    if whole.isEmpty && frac.isEmpty then none
    else some (Double.ofDecimal negative (whole ++ frac) (power - frac.length))

end SetPipeline.Numeral
