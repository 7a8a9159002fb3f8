import SetPipeline.Text.Printable

/-! Quoted text and bytes. Text stands between single quotes, or between double quotes when it holds a
single quote and no double one. The quote in use and the backslash are escaped, tab, line feed and
carriage return have letters, and every other character that is not printable is written by its code:
two hexadecimal digits, four, or eight, as few as hold it. -/
namespace SetPipeline.Text

/-- The last `width` hexadecimal digits of `n`. -/
def hex : Nat → Nat → List Char
  | 0, _ => []
  | width + 1, n => hex width (n / 16) ++ [Nat.digitChar (n % 16)]

@[simp] theorem hex_length (width n : Nat) : (hex width n).length = width := by
  induction width generalizing n <;> simp_all [hex]

/-- Double quotes only where they save an escape. -/
def quoteFor (s : List Char) : Char := if s.contains '\'' && !s.contains '"' then '"' else '\''

def escape (quote : Char) (printable : Char → Bool) (c : Char) : List Char :=
  if c = quote ∨ c = '\\' then ['\\', c]
  else if c = '\t' then ['\\', 't']
  else if c = '\n' then ['\\', 'n']
  else if c = '\r' then ['\\', 'r']
  else if printable c then [c]
  else if c.toNat < 0x100 then '\\' :: 'x' :: hex 2 c.toNat
  else if c.toNat < 0x10000 then '\\' :: 'u' :: hex 4 c.toNat
  else '\\' :: 'U' :: hex 8 c.toNat

/-- Put a text between quotes, of which `escaped` is the one that is escaped inside. -/
def quotedWith (quote escaped : Char) (printable : Char → Bool) (s : List Char) : List Char :=
  quote :: s.flatMap (escape escaped printable) ++ [quote]

def quoted (s : String) : String :=
  let q := quoteFor s.toList
  String.ofList (quotedWith q q isPrintable s.toList)

def byteChars (b : List UInt8) : List Char := b.map fun x => Char.ofNat x.toNat

def isPlainAscii (c : Char) : Bool := 0x20 ≤ c.toNat && c.toNat < 0x7F

/-- Bytes are quoted like text of which only ASCII is printable, behind a `b`. -/
def quotedBytes (b : List UInt8) : String :=
  let s := byteChars b
  String.ofList ('b' :: quotedWith (quoteFor s) (quoteFor s) isPlainAscii s)

/-- In a byte array a single quote is escaped whatever the quotes are. -/
def quotedByteArray (b : List UInt8) : String :=
  let s := byteChars b
  "bytearray(" ++ String.ofList ('b' :: quotedWith (quoteFor s) '\'' isPlainAscii s) ++ ")"

end SetPipeline.Text
