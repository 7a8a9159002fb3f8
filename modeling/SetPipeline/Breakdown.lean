/-! Exceptions that are none of this library's own, by their types. With two of the types a coroutine or a
generator says that it is done, so an exception of such a type does not leave it as it is. -/
namespace SetPipeline

inductive Breakdown where
  | stopIteration
  | stopAsyncIteration
  | named (typeName : String)
  deriving DecidableEq, Repr

namespace Breakdown

@[match_pattern] def overflow : Breakdown := named "OverflowError"
@[match_pattern] def recursion : Breakdown := named "RecursionError"
@[match_pattern] def runtime : Breakdown := named "RuntimeError"
@[match_pattern] def value : Breakdown := named "ValueError"

def typeName : Breakdown → String
  | stopIteration => "StopIteration"
  | stopAsyncIteration => "StopAsyncIteration"
  | named s => s

end Breakdown

/-- What an exception leaves on its way out. The generators are asynchronous. -/
inductive Frame where
  | coroutine
  | generator
  deriving DecidableEq, Repr

namespace Frame

def name : Frame → String
  | coroutine => "coroutine"
  | generator => "async generator"

/-- Whether the frame says with such an exception that it is done. -/
def reserves : Frame → Breakdown → Bool
  | _, .stopIteration => true
  | generator, .stopAsyncIteration => true
  | _, _ => false

end Frame
end SetPipeline
