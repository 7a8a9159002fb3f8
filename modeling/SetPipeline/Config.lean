import SetPipeline.Datum.Text
import SetPipeline.Text.Blank

/-! The configuration of a batch: how many commands may be in flight at once and how many seconds each
may take. Both are numbers of any type; the checks are comparisons, so not-a-number passes them. -/
namespace SetPipeline

structure Config where
  maxInFlight : Number
  timeout : Option Number
  deriving DecidableEq, Repr

namespace Config

/-- Sixteen commands in flight, thirty seconds each. -/
def standard : Config := ⟨.int 16, some (.double (Double.ofRatio false 30 1))⟩

def refusal (n : Number) (cause : String → Misuse) : Failure :=
  match Datum.unshown? 1 (.ofNumber n) with
  | some f => f
  | none => .misuse (cause n.toText)

/-- The checks on the two numbers, the limit first. -/
def check (maxInFlight : Number) (timeout : Option Number) : Except Failure Config :=
  if maxInFlight.lt (.int 1) then .error (refusal maxInFlight .limit)
  else match timeout with
    | none => .ok ⟨maxInFlight, none⟩
    | some t =>
      if t.le (.int 0) then .error (refusal t .timeout) else .ok ⟨maxInFlight, some t⟩

/-- A configuration from any values, of which absent ones keep their default. A limit has to be a number,
a timeout a number or none; a timeout of another type shows only after the limit has been checked. -/
def make (maxInFlight timeout : Option Datum) : Except Failure Config := do
  let limit ← match maxInFlight with
    | none => pure standard.maxInFlight
    | some d => match d.number? with
      | some n => pure n
      | none => throw .unsuitable
  let t ← match timeout with
    | none => pure standard.timeout
    | some .none => pure none
    | some d => match d.number? with
      | some n => pure (some n)
      | none => do
        let _ ← check limit none
        throw .unsuitable
  check limit t

def same (a b : Config) : Bool :=
  a.maxInFlight.same b.maxInFlight &&
    match a.timeout, b.timeout with
    | none, none => true
    | some s, some t => s.same t
    | _, _ => false

def isStandard (c : Config) : Bool := c.same standard

def allows (c : Config) (n : Nat) : Bool := (Number.int n).lt c.maxInFlight

/-- Whether the timeout is too long for a clock that counts in doubles. -/
def isBeyondClock (c : Config) : Bool := c.timeout.any (·.isBeyondClock)

/-- What keeps a command that fits from the executor: it is written to the log first, and then its timeout is set. -/
def barred? (config : Config) (c : Command) : Option Failure :=
  match c.unwritable? with
  | some f => some f
  | none => if config.isBeyondClock then some (.broken .overflow Failure.beyondDoubles) else none

theorem barred?_of_isWritable {config : Config} {c : Command} (h : c.isWritable = true) : config.barred? c =
    if config.isBeyondClock then some (.broken .overflow Failure.beyondDoubles) else none := by
  have hunwritable : c.unwritable? = none := Option.isNone_iff_eq_none.1 h
  simp only [barred?, hunwritable]

theorem barred?_eq_none {config : Config} {c : Command} :
    config.barred? c = none ↔ c.isWritable = true ∧ config.isBeyondClock = false := by
  unfold barred? Command.isWritable
  cases c.unwritable? <;> cases config.isBeyondClock <;> simp

def limitVariable : String := "SETFLOW_MAX_IN_FLIGHT"
def timeoutVariable : String := "SETFLOW_COMMAND_TIMEOUT"

/-- A number from a variable: nothing if the variable is unset or blank. -/
def readVariable (name : String) (read : List Char → Option α) (text : Option String) :
    Except Failure (Option α) :=
  let s := Text.trim Text.isSeparator (text.getD "").toList
  if s.isEmpty then .ok none
  else match read s with
    | some x => .ok (some x)
    | none => .error (.misuse (.notNumber name (Text.quoted (String.ofList s))))

/-- A zero of either sign stands for no timeout. -/
def timeoutOf (x : Double) : Option Number :=
  if (Number.double x).same (.int 0) then none else some (.double x)

/-- The configuration that the environment gives; both texts are read before either number is
checked. -/
def ofEnvironment (limitText timeoutText : Option String) : Except Failure Config := do
  let limit ← readVariable limitVariable Numeral.int? limitText
  let timeout ← readVariable timeoutVariable Numeral.double? timeoutText
  check ((limit.map .int).getD standard.maxInFlight)
    (match timeout with
    | none => standard.timeout
    | some x => timeoutOf x)

theorem check_eq_ok_iff {limit : Number} {timeout : Option Number} {c : Config} : check limit timeout = .ok c ↔
    c = ⟨limit, timeout⟩ ∧ limit.lt (.int 1) = false ∧ ∀ t, timeout = some t → t.le (.int 0) = false := by
  unfold check
  cases hlimit : limit.lt (.int 1) with
  | true => simp
  | false =>
    rw [if_neg (by simp), eq_comm (a := c)]
    cases timeout with
    | none => simp
    | some t => cases htimeout : t.le (.int 0) <;> simp [htimeout]

theorem check_standard : check standard.maxInFlight standard.timeout = .ok standard := by
  have limit : (Number.int 16).lt (.int 1) = false := by decide +kernel
  have timeout : (Number.double (Double.ofRatio false 30 1)).le (.int 0) = false := by
    decide +kernel
  simp [check, standard, limit, timeout]

end Config
end SetPipeline
