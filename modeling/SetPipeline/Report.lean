/-! Reports on records whose fields were refused: which fields, and what is wrong with each. -/
namespace SetPipeline

inductive Problem where
  | missing
  | frozen
  | bytesType
  | intType
  | intParsing
  | intTooLong
  | fractional
  | notFinite
  | boolType
  | boolParsing
  | textType
  | textEncoding
  | tupleType
  | listType
  | commandType
  | iteration (summary : String)
  deriving DecidableEq, Repr

namespace Problem

def message : Problem → String
  | missing => "Field required"
  | frozen => "Instance is frozen"
  | bytesType => "Input should be a valid bytes"
  | intType => "Input should be a valid integer"
  | intParsing => "Input should be a valid integer, unable to parse string as an integer"
  | intTooLong => "Unable to parse input string as an integer, exceeded maximum size"
  | fractional => "Input should be a valid integer, got a number with a fractional part"
  | notFinite => "Input should be a finite number"
  | boolType => "Input should be a valid boolean"
  | boolParsing => "Input should be a valid boolean, unable to interpret input"
  | textType => "Input should be a valid string"
  | textEncoding => "Input should be a valid string, unable to parse raw data as a unicode string"
  | tupleType => "Input should be a valid tuple"
  | listType => "Input should be a valid list"
  | commandType => "Input should be a valid dictionary or instance of Command"
  | iteration s => "Error iterating over object, error: " ++ s

def tag : Problem → String
  | missing => "missing"
  | frozen => "frozen_instance"
  | bytesType => "bytes_type"
  | intType => "int_type"
  | intParsing => "int_parsing"
  | intTooLong => "int_parsing_size"
  | fractional => "int_from_float"
  | notFinite => "finite_number"
  | boolType => "bool_type"
  | boolParsing => "bool_parsing"
  | textType => "string_type"
  | textEncoding => "string_unicode"
  | tupleType => "tuple_type"
  | listType => "list_type"
  | commandType => "model_type"
  | iteration _ => "iteration_error"

end Problem

/-- A problem at a field or, with an index, at one of its items. -/
structure Issue where
  field : String
  index : Option Nat
  problem : Problem
  deriving DecidableEq, Repr

/-- A name with a point in it stands between backquotes, to tell it from a place inside a field. -/
def placeName (field : String) : String :=
  if field.toList.contains '.' then "`" ++ field ++ "`" else field

def Issue.lines (i : Issue) : List String :=
  let place := match i.index with
    | none => placeName i.field
    | some n => placeName i.field ++ "." ++ toString n
  [place, "  " ++ i.problem.message ++ " [type=" ++ i.problem.tag ++ "]"]

structure Report where
  subject : String
  issues : List Issue
  deriving DecidableEq, Repr

/-- A heading with the number of issues, then two lines for each. -/
def Report.text (r : Report) : String :=
  let n := r.issues.length
  let heading := toString n ++ " validation error" ++ (if n = 1 then "" else "s") ++ " for " ++ r.subject
  "\n".intercalate (heading :: r.issues.flatMap Issue.lines)

end SetPipeline
