import SetPipeline.Datum

/-! Failures: what they carry, and what becomes of them on their way out of a stream. -/
namespace SetPipeline

namespace Failure

def invalidArgument : String := "INVALID_ARGUMENT"
def invalidOutput : String := "INVALID_OUTPUT"
def timeoutCode : String := "TIMEOUT"
def executionError : String := "EXECUTION_ERROR"
def err : String := "ERR"
def wrongType : String := "WRONGTYPE"

def timedOutMessage : String := "Command timed out"
def beyondDoubles : String := "int too large to convert to float"
def tooManyDigits : String :=
  "Exceeds the limit (4300 digits) for integer string conversion; use sys.set_int_max_str_digits() to increase the limit"
def tooDeep : String := "maximum recursion depth exceeded while getting the repr of an object"

def typeName : Failure → String
  | misuse _ => "InvalidArgumentError"
  | refused .. => "CommandExecutionError"
  | invalid _ => "ValidationError"
  | timedOut _ => "TimeoutError"
  | broken k _ | mute k _ _ => k.typeName
  | unsuitable => "TypeError"
  | unknownMethod => "AttributeError"
  | endless => "RecursionError"

def text : Failure → String
  | misuse m => m.message
  | refused m _ | timedOut m | broken _ m => m
  | invalid r => r.text
  | mute .. => "<exception str() failed>"
  | unsuitable | unknownMethod | endless => ""

def summary (f : Failure) : String := if f.text.isEmpty then f.typeName else f.typeName ++ ": " ++ f.text

def breakdown? : Failure → Option Breakdown
  | broken k _ | mute k _ _ => some k
  | _ => none

/-- What an exception is outside of a frame that it leaves. -/
def leaving (frame : Frame) (f : Failure) : Failure :=
  match f.breakdown? with
  | some k => if frame.reserves k then broken .runtime (frame.name ++ " raised " ++ k.typeName) else f
  | none => f

/-- What is raised once an exception was to be logged. -/
def logged : Failure → Failure
  | mute _ k m => broken k m
  | f => f

/-- What a failure in its loop makes a stream raise. -/
def surfaced (f : Failure) : Failure := f.logged.leaving .generator

end Failure

def Datum.collect (d : Datum) : Except Failure (List Datum) :=
  match d.items?, d.stop? with
  | some _, some f => .error f
  | some ds, .none => .ok ds
  | .none, _ => .error .unsuitable

theorem Datum.collect_eq_error {d : Datum} {f : Failure} : d.collect = .error f ↔
    d.items? = .none ∧ f = .unsuitable ∨ d.items?.isSome = true ∧ d.stop? = some f := by
  unfold collect
  cases d.items? <;> cases d.stop? <;> simp [eq_comm]

def absent (p : Part) : Failure := .misuse (.absent p)

def refuseNone (d : Datum) (p : Part) : Except Failure Unit :=
  if d.isNone then .error (absent p) else .ok ()

theorem refuseNone_eq_ok {d : Datum} {p : Part} : refuseNone d p = .ok () ↔ d ≠ .none := by
  cases h : d.isNone <;> simp_all [refuseNone, ← Datum.isNone_iff]

def Command.requireComplete (c : Command) : Except Failure Unit :=
  match c.missing? with
  | some p => .error (absent p)
  | none => .ok ()

theorem Command.requireComplete_eq_ok {c : Command} : c.requireComplete = .ok () ↔ c.isComplete := by
  unfold requireComplete isComplete
  cases c.missing? <;> simp

end SetPipeline
