import SetPipeline.Proofs.Except
import SetPipeline.Proofs.Pipeline.Failures

/-! The types of outputs. The response to a value that a call returns is a refusal of that value, or a success whose
output is of the type that the operation has for its results, with two exceptions: an output may be left out, so none
is taken for a result of every operation, and a refusal is written to the log first, so there is no response to a value
that is refused and cannot be written. -/
namespace SetPipeline

open Pipeline

namespace Operation

/-- The results that an operation has. Only a popped member may be none. -/
def Returns : Operation → Datum → Prop
  | add, d | remove, d | card, d | combineStore _, d => ∃ n, d = .int n
  | move, d | isMember, d => ∃ b, d = .bool b
  | pop, d => d = .none ∨ ∃ b, d = .bytes b
  | combine _, d | members, d | randomMembers, d => ∃ bs : List Bytes, d = .list (bs.map .bytes)

variable {op : Operation} {d v : Datum}

theorem returns_none : op.Returns .none ↔ op = .pop := by
  cases op <;> simp [Returns]

theorem returns_of_checkOutput (h : Response.checkOutput op.responseKind d = .ok v) (hd : d ≠ .none) : op.Returns v := by
  obtain ⟨hboolean, hnumeric, hvalue, hmany⟩ := Response.checkOutput_of_ne hd
  cases op with
  | add | remove | card | combineStore =>
    obtain ⟨n, -, rfl⟩ := Except.map_eq_ok.1 (hnumeric.symm.trans h)
    exact ⟨n, rfl⟩
  | move | isMember =>
    obtain ⟨b, -, rfl⟩ := Except.map_eq_ok.1 (hboolean.symm.trans h)
    exact ⟨b, rfl⟩
  | pop =>
    obtain ⟨b, -, rfl⟩ := Except.map_eq_ok.1 (hvalue.symm.trans h)
    exact .inr ⟨b, rfl⟩
  | combine | members | randomMembers =>
    obtain ⟨bs, -, rfl⟩ := Except.map_eq_ok.1 (hmany.symm.trans h)
    exact ⟨bs, rfl⟩

end Operation

/-- A result that was refused, without an output, or a success with an output that the operation has. -/
inductive Response.IsTyped (op : Operation) : Response → Prop where
  | refused {kind : ResponseKind} {c : Command} {e : String} :
    IsTyped op ⟨kind, c, .none, some e, some Failure.invalidOutput⟩
  | typed {kind : ResponseKind} {c : Command} {d : Datum} : op.Returns d → IsTyped op ⟨kind, c, d, none, none⟩

namespace Pipeline

/-- Whenever a call for a command returns a value, its position is given what comes of that value, or nothing. -/
def AnsweredWith (room : Nat) (op : Operation) (c : Command) (d : Datum) (x : Except Failure Response) : Prop :=
  ∀ (b : Batch) ms s i, b.room = room → b.operation = op → Run b ms s → b.source i = .item (.command c) →
    outcomeOf ms i = some (.ok d) → ∀ r, (i, r) ∈ s.yielded → x = .ok r

section
variable {room : Nat} {op : Operation} {c : Command} {d : Datum}

theorem answeredWith (room : Nat) (op : Operation) (c : Command) (d : Datum) :
    AnsweredWith room op c d (respond room op c (.ok d)) := by
  rintro b ms s i rfl rfl hrun hc ho r hr
  obtain ⟨c', hc', hcon⟩ := hrun.accounted.yielded _ hr
  cases hc.symm.trans hc'
  cases concluded_of_conclusion hcon with
  | rejected hu =>
    -- a call that returned had passed the check
    have hsettle : .settle i (.ok d) ∈ ms := by
      rcases mem_of_outcomeOf ho with hsettle | ⟨-, htime⟩
      · exact hsettle
      · cases htime
    obtain ⟨-, c', hcall⟩ := hrun.ended hsettle (i := i) (if_pos rfl)
    obtain ⟨-, hsource, hfits, -⟩ := Batch.call?_eq_some hcall
    cases hc.symm.trans hsource
    cases hu.symm.trans hfits
  | responded _ _ ho' hrespond =>
    cases ho.symm.trans ho'
    exact hrespond

theorem isTyped_iff_of_respond {r : Response} (h : respond room op c (.ok d) = .ok r) :
    r.kind = op.responseKind ∧ (r.IsTyped op ↔ (d = .none → op = .pop)) := by
  cases hv : Response.checkOutput op.responseKind d with
  | ok v =>
    cases (respond_of_checked hv).symm.trans h
    have htyped : Response.IsTyped op ⟨op.responseKind, c, v, none, none⟩ ↔ op.Returns v := by
      constructor
      · rintro ⟨⟩
        assumption
      · exact .typed
    refine ⟨rfl, htyped.trans ?_⟩
    by_cases hd : d = .none
    · subst hd
      have hnone : v = .none := by cases op <;> cases hv <;> rfl
      rw [hnone, Operation.returns_none]
      simp
    · simp [hd, Operation.returns_of_checkOutput hv hd]
  | error is =>
    rw [respond_of_unchecked hv] at h
    obtain ⟨-, hr⟩ := logging_eq_ok.1 h
    cases hr
    have hd : d ≠ .none := by
      rintro rfl
      cases op <;> cases hv
    exact ⟨rfl, iff_of_true .refused fun h => absurd h hd⟩

/-- A value that a call returns is answered just where it is accepted or can be written, with a response of the
operation's kind to that very command. The response is well typed unless the value is none and the operation no pop. -/
theorem respond_isTyped_iff (room : Nat) (op : Operation) (c : Command) (d : Datum) :
    AnsweredWith room op c d (respond room op c (.ok d)) ∧
      (IsLoggable room op (.ok d) ↔ ∃ r, respond room op c (.ok d) = .ok r ∧ r.kind = op.responseKind ∧ r.input = c ∧
        (r.IsTyped op ↔ (d = .none → op = .pop))) := by
  refine ⟨answeredWith room op c d, fun hloggable => ?_, fun ⟨r, hr, _⟩ => exists_respond_iff.1 ⟨r, hr⟩⟩
  obtain ⟨r, hr⟩ := (exists_respond_iff (c := c)).2 hloggable
  obtain ⟨hkind, htyped⟩ := isTyped_iff_of_respond hr
  exact ⟨r, hr, hkind, respond_input hr, htyped⟩

end

def nothing : Batch := .quiet .card (fun _ => .item (.command (.key (some [107])))) ⟨.int 1, none⟩ 900

theorem not_isTyped_nothing : ∃ ms s r, Run nothing ms s ∧ outcomeOf ms 0 = some (.ok .none) ∧ (0, r) ∈ s.yielded ∧
    r.error = none ∧ r.output = .none ∧ ¬r.IsTyped .card := by
  have taken := (((Run.initial (b := nothing)).next (m := .ask) rfl).next (m := .offer) rfl).next (m := .wake true []) rfl
  have answered := ((taken.next (m := .start) rfl).next (m := .settle 0 (.ok .none)) rfl).next (m := .wake false [0]) rfl
  refine ⟨_, _, ⟨.numeric, .key (some [107]), .none, none, none⟩, answered, rfl, List.mem_singleton.2 rfl, rfl, rfl, ?_⟩
  rintro ⟨⟩
  next h => cases Operation.returns_none.1 h

end Pipeline
end SetPipeline
