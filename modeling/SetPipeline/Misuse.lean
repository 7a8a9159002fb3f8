import SetPipeline.Command
import SetPipeline.Report

/-! The ways to misuse the interface. They are refused before anything runs. -/
namespace SetPipeline

inductive Misuse where
  | absent (part : Part)
  | single (part : Part)
  | needsMore (cls : CommandClass) (fields : List String)
  | invalid (report : Report)
  | wrongClass (operation : Operation) (got : CommandClass)
  | notCommand (typeName : String)
  | unknownOperation (shown : String)
  | limit (shown : String)
  | timeout (shown : String)
  | notNumber (variableName quoted : String)
  | reported (message : String)
  deriving DecidableEq, Repr

def Misuse.message : Misuse → String
  | absent p => p.label ++ " must not be None"
  | single p => p.label ++ " must be a collection, not a single value"
  | needsMore c fields =>
    c.name ++ " cannot be built from a key alone, it also needs " ++ ", ".intercalate fields
  | invalid r => "Invalid " ++ r.subject ++ ": " ++ r.text
  | wrongClass op got => op.name ++ " expects " ++ op.commandClass.name ++ ", got " ++ got.name
  | notCommand t => "Expected a command, got " ++ t
  | unknownOperation s => "Unknown operation: " ++ s
  | limit s => "max_in_flight must be at least 1, got " ++ s
  | timeout s => "timeout must be positive or None, got " ++ s
  | notNumber name q => name ++ " must be a number, got " ++ q
  | reported m => m

def Unfit.misuse (op : Operation) (c : Command) : Unfit → Misuse
  | .wrongClass => .wrongClass op c.cls
  | .incomplete p => .absent p

end SetPipeline
