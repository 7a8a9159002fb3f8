import SetPipeline.Datum.Order
import SetPipeline.Failure
import SetPipeline.Heap

/-! The form in which answers show a value: the members of every set in order, by type and then by value. An
iterator and a dictionary have no such form, nor has a set of which two members of one type have no order.
The parts of a value are gone through from left to right, and the first that cannot be shown counts. -/
namespace SetPipeline

def Object.inOrder (value : Nat → Datum) (as : List Nat) : Except Failure (List Nat) :=
  match Datum.sortedOn? (fun a => (value a).byType) as with
  | some bs => .ok bs
  | none => .error .unsuitable

/-- The form of an object, given the forms of its parts and what they are. -/
def Object.answer (part : Nat → Except Failure Datum) (value : Nat → Datum) : Object → Except Failure Datum
  | atom d => .ok d
  | list as => (as.mapM part).map .list
  | tuple as => (as.mapM part).map .tuple
  | set as => do return .set (← (← inOrder value as).mapM part)
  | iterator _ | dict _ => .error (.broken .value "")
  | response r => (part r.output).map fun d => .response { r with output := d }

namespace Heap

def answerWithin (h : Heap) : Nat → Nat → Except Failure Datum
  | 0, _ => .error .endless
  | depth + 1, a =>
    match h.object? a with
    | some o => o.answer (h.answerWithin depth) (h.glimpse (h.size + 1))
    | none => .ok .none

def answer (h : Heap) (a : Nat) : Except Failure Datum := h.answerWithin (h.size + 1) a

end Heap

def Datum.answer (d : Datum) : Except Failure Datum :=
  let (a, h) := Heap.empty.place d
  h.answer a

end SetPipeline
