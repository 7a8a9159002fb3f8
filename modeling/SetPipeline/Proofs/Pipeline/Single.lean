import SetPipeline.Pipeline.Clock
import SetPipeline.Proofs.Pipeline.Calls

/-! A batch of one command whose loop waits with it in flight. The command begins unless it breaks the stream, its
call ends by itself or by its timeout, the end of the input is taken in, and what came of it is handed over. -/
namespace SetPipeline.Pipeline

def single (cmd : Command) : List Supplied := [⟨0, .item (.command cmd)⟩]

abbrev Batch.single (op : Operation) (config : Config) (room : Nat) (cmd : Command) : Batch :=
  .quiet op (sourceOf (Pipeline.single cmd)) config room

/-- The loop waits with its one command in flight, and has handed nothing over. -/
structure Alone (cmd : Command) (phase : Phase) (s : State) : Prop where
  stage : s.stage = .waiting
  flights : s.flights = [⟨0, cmd, phase⟩]
  pulled : s.pulled = 1
  yielded : s.yielded = []
  pull : s.pull = .idle ∨ s.pull = .asked ∨ s.pull = .given 1 .done

section
variable (op : Operation) (config : Config) (room : Nat) {cmd : Command} {s : State} {phase : Phase}

namespace Alone

theorem flight? (h : Alone cmd phase s) : s.flight? 0 = some ⟨0, cmd, phase⟩ := by
  simp [State.flight?, h.flights]

theorem setPhase (h : Alone cmd phase s) (p : Phase) : Alone cmd p (s.setPhase 0 p) :=
  ⟨h.stage, by simp [State.setPhase, h.flights], h.pulled, h.yielded, h.pull⟩

theorem emit (h : Alone cmd phase s) {es : List Event} (hes : (s.emit es).yielded = s.yielded) :
    Alone cmd phase (s.emit es) :=
  ⟨h.stage, h.flights, h.pulled, hes.trans h.yielded, h.pull⟩

theorem start_barred {op : Operation} {config : Config} {f : Failure} (h : Alone cmd .queued s)
    (hfits : op.unfit? cmd = none) (hf : config.barred? cmd = some f) :
    ∃ t, (Batch.single op config room cmd).step s .start = some t ∧ t.pull = s.pull ∧
      Alone cmd (.finished (.error f)) t := by
  refine ⟨s.setPhase 0 (.finished (.error f)), ?_, rfl, h.setPhase _⟩
  simp [Batch.step, Batch.start, h.flights, Phase.isQueued, hfits, hf]

theorem start_begins {op : Operation} {config : Config} (h : Alone cmd .queued s) (hfits : op.unfit? cmd = none)
    (hfree : config.barred? cmd = none) : ∃ t, (Batch.single op config room cmd).step s .start = some t ∧
      t.pull = s.pull ∧ Alone cmd .running t := by
  refine ⟨(s.setPhase 0 .running).emit [.began 0 cmd], ?_, rfl, (h.setPhase _).emit ?_⟩
  · simp [Batch.step, Batch.start, h.flights, Phase.isQueued, hfits, hfree]
  · simp [State.yielded, State.emit]

theorem settle (h : Alone cmd .running s) (o : Except Failure Datum) :
    ∃ t, (Batch.single op config room cmd).step s (.settle 0 o) = some t ∧ t.pull = s.pull ∧
      Alone cmd (.finished (respond room op cmd o)) t := by
  simp only [Batch.step, Batch.settle, h.flight?]
  refine ⟨_, rfl, rfl, (h.setPhase _).emit ?_⟩
  cases o <;> simp [State.yielded, State.emit]

theorem expire {config : Config} (h : Alone cmd .running s) (ht : config.timeout.isSome) :
    ∃ t, (Batch.single op config room cmd).step s (.expire 0) = some t ∧ t.pull = s.pull ∧
      Alone cmd (.finished (respond room op cmd (.error (.timedOut Failure.timedOutMessage)))) t := by
  obtain ⟨n, hn⟩ := Option.isSome_iff_exists.1 ht
  simp only [Batch.step, Batch.expire, h.flight?, Batch.config_quiet, hn]
  exact ⟨_, rfl, rfl, (h.setPhase _).emit (by simp [State.yielded, State.emit])⟩

theorem offer (h : Alone cmd phase s) (hp : s.pull = .asked) :
    ∃ t, (Batch.single op config room cmd).step s .offer = some t ∧ t.pull = .given 1 .done ∧
      Alone cmd phase t := by
  simp only [Batch.step, Batch.offer, hp, h.pulled]
  exact ⟨_, rfl, rfl, h.stage, h.flights, rfl, h.yielded, .inr (.inr rfl)⟩

theorem takeEnd (h : Alone cmd .running s) (hp : s.pull = .given 1 .done) :
    ∃ t, (Batch.single op config room cmd).step s (.wake true []) = some t ∧ t.pull = .idle ∧
      Alone cmd .running t := by
  have hcan : Batch.canWake s true [] = true := by simp [Batch.canWake, h.stage, hp, Pull.isGiven]
  simp only [Batch.step, Batch.wake, hcan, if_true, hp, Batch.receive, Batch.hand, Batch.turn]
  simp only [Bool.not_true, Bool.and_false, Bool.false_and, h.flights]
  exact ⟨_, rfl, rfl, rfl, rfl, h.pulled, h.yielded, .inl rfl⟩

end Alone

/-- What came of the one command: its response was handed over and the consumer has what it wants, or the stream
failed. -/
def Delivered (x : Except Failure Response) (s : State) : Prop :=
  match x with
  | .ok r => s.yielded = [(0, r)]
  | .error f => s.yielded = [] ∧ s.ending? = some (.failed f)

theorem hand_finished (b : Batch) {x : Except Failure Response} (hs : s.flight? 0 = some ⟨0, cmd, .finished x⟩)
    (hy : s.yielded = []) :
    Delivered x (b.hand [0] s) ∧ ((b.hand [0] s).stage = .handing [] ∨ (b.hand [0] s).ending?.isSome) := by
  cases x with
  | ok r =>
    simp only [Batch.hand, hs]
    have hyield : (({ s.remove 0 with stage := .handing [] }).emit [.yielded 0 r]).yielded =
        s.yielded ++ [(0, r)] := by
      simp [State.yielded, State.emit, State.remove]
    refine ⟨?_, .inl rfl⟩
    rw [hy] at hyield
    exact hyield
  | error f =>
    simp only [Batch.hand, hs]
    exact ⟨⟨(State.yielded_halt _ _).trans hy, rfl⟩, .inr rfl⟩

end

end SetPipeline.Pipeline
