import SetPipeline.Executor
import SetPipeline.Proofs.Pipeline.Calls

/-! Any number of streams over one store. A call comes to the store when it begins and sleeps there; what it
does to the data it does when its sleep is over, in one piece, and a call that is given up before does nothing. One
that cannot sleep fails instead. How long a call sleeps is left open, so a move can be made by any stream at any time.
A scalar call is a stream of one command. -/
namespace SetPipeline

open Pipeline

structure Stream where
  batch : Batch
  state : State

structure Visit where
  stream : Nat
  position : Nat
  operation : Operation
  command : Command
  deriving DecidableEq

/-- Some streams over a store. The calls that came to the store and those whose sleep went by are kept in the
order in which they did. -/
structure Serving where
  store : Store
  streams : List Stream
  arrived : List Visit
  passed : List Visit

namespace Serving

def initial (s : Store) : Serving := ⟨s, [], [], []⟩

/-- A new stream is asked for, a stream makes a move, or a call ends by itself in the store. -/
inductive Move where
  | launch (b : Batch)
  | advance (stream : Nat) (move : Pipeline.Move)
  | pass (stream position : Nat)

section
variable (latency : Number)

def arrive (w : Serving) (v : Visit) : Serving :=
  { w with
    store := ((Executor.store latency).begin v.operation v.command w.store).2
    arrived := w.arrived ++ [v] }

/-- The calls of a stream that began between two of its states. -/
def newcomers (j : Nat) (b : Batch) (s t : State) : List Visit :=
  (t.begun.drop s.begun.length).map fun p => ⟨j, p.1, b.operation, p.2⟩

def advance (w : Serving) (j : Nat) (m : Pipeline.Move) : Option Serving :=
  w.streams[j]?.bind fun ⟨b, s⟩ =>
    match m with
    | .settle .. => none
    | m => (b.step s m).map fun t =>
      (newcomers j b s t).foldl (arrive latency) { w with streams := w.streams.set j ⟨b, t⟩ }

/-- The call for a position ends by itself, as it does in the executor of the store: it passes once its sleep is over, if
it can sleep so long. -/
def pass (w : Serving) (j i : Nat) : Option Serving :=
  w.streams[j]?.bind fun ⟨b, s⟩ =>
    match s.flight? i with
    | some ⟨_, c, .running⟩ =>
      let (x, store) := ((Executor.store latency).begin b.operation c w.store).1.finish w.store
      (b.step s (.settle i x)).map fun t =>
        ⟨store, w.streams.set j ⟨b, t⟩, w.arrived,
          if latency.isBeyondClock then w.passed else w.passed ++ [⟨j, i, b.operation, c⟩]⟩
    | _ => none

def step (w : Serving) : Move → Option Serving
  | .launch b => some { w with streams := w.streams ++ [⟨b, .initial⟩] }
  | .advance j m => w.advance latency j m
  | .pass j i => w.pass latency j i

def steps (w : Serving) (ms : List Move) : Option Serving := ms.foldlM (step latency) w

/-- What streams over a store can come to. -/
inductive Reachable (s : Store) : Serving → Prop where
  | initial : Reachable s (initial s)
  | next {w u : Serving} {m : Move} : Reachable s w → w.step latency m = some u → Reachable s u

theorem Reachable.steps {latency : Number} {s : Store} {w u : Serving} {ms : List Move} (h : Reachable latency s w)
    (hu : w.steps latency ms = some u) : Reachable latency s u := by
  induction ms generalizing w with
  | nil =>
    cases hu
    exact h
  | cons m ms ih =>
    rw [Serving.steps, List.foldlM_cons] at hu
    obtain ⟨v, hv, hu⟩ := Option.bind_eq_some_iff.1 hu
    exact ih (h.next hv) hu

end

def launched (s : Store) (b : Batch) : Serving := ⟨s, [⟨b, .initial⟩], [], []⟩

theorem reachable_launched (latency : Number) (s : Store) (b : Batch) : Reachable latency s (launched s b) := by
  have hlaunch : (initial s).step latency (.launch b) = some (launched s b) := rfl
  exact Reachable.initial.next hlaunch

inductive Stepped (latency : Number) (w : Serving) : Move → Serving → Prop where
  | launches (b : Batch) : Stepped latency w (.launch b) { w with streams := w.streams ++ [⟨b, .initial⟩] }
  | advances {j : Nat} {b : Batch} {s t : State} {m : Pipeline.Move} {vs : List Visit} :
    w.streams[j]? = some ⟨b, s⟩ → (∀ i o, m ≠ .settle i o) → b.step s m = some t → vs = newcomers j b s t →
    Stepped latency w (.advance j m)
      ⟨vs.foldl (fun st v => st.record (.known v.operation) v.command) w.store, w.streams.set j ⟨b, t⟩,
        w.arrived ++ vs, w.passed⟩
  | passes {j i : Nat} {b : Batch} {s t : State} {c : Command} {x : Except Failure Reply} {store : Store} :
    latency.isBeyondClock = false → w.streams[j]? = some ⟨b, s⟩ → s.flight? i = some ⟨i, c, .running⟩ →
    w.store.answer (.known b.operation) c = (x, store) →
    b.step s (.settle i (x.map Reply.toDatum)) = some t →
    Stepped latency w (.pass j i) ⟨store, w.streams.set j ⟨b, t⟩, w.arrived, w.passed ++ [⟨j, i, b.operation, c⟩]⟩
  | fails {j i : Nat} {b : Batch} {s t : State} {c : Command} :
    latency.isBeyondClock = true → w.streams[j]? = some ⟨b, s⟩ → s.flight? i = some ⟨i, c, .running⟩ →
    b.step s (.settle i (.error (.broken .overflow Failure.beyondDoubles))) = some t →
    Stepped latency w (.pass j i) ⟨w.store, w.streams.set j ⟨b, t⟩, w.arrived, w.passed⟩

theorem foldl_arrive (latency : Number) (vs : List Visit) (w : Serving) :
    vs.foldl (arrive latency) w =
      { w with
        store := vs.foldl (fun st v => st.record (.known v.operation) v.command) w.store
        arrived := w.arrived ++ vs } := by
  induction vs generalizing w with
  | nil => simp
  | cons v vs ih =>
    rw [List.foldl_cons, ih]
    simp [arrive, Executor.store]

theorem step_stepped {latency : Number} {w u : Serving} {m : Move} (h : w.step latency m = some u) :
    Stepped latency w m u := by
  cases m with
  | launch b =>
    cases h
    exact .launches b
  | advance j m =>
    obtain ⟨⟨b, s⟩, hj, h⟩ := Option.bind_eq_some_iff.1 h
    have hmove (hm : ∀ i o, m ≠ .settle i o) : (b.step s m).map (fun t =>
        (newcomers j b s t).foldl (arrive latency) { w with streams := w.streams.set j ⟨b, t⟩ }) = some u := by
      cases m with
      | settle i o => exact absurd rfl (hm i o)
      | _ => exact h
    by_cases hm : ∀ i o, m ≠ .settle i o
    · obtain ⟨t, ht, rfl⟩ := Option.map_eq_some_iff.1 (hmove hm)
      rw [foldl_arrive]
      exact .advances hj hm ht rfl
    · simp only [not_forall, not_not] at hm
      obtain ⟨i, o, rfl⟩ := hm
      cases h
  | pass j i =>
    obtain ⟨⟨b, s⟩, hj, h⟩ := Option.bind_eq_some_iff.1 h
    dsimp only at h
    split at h
    · next p c hf =>
      obtain rfl : p = i := (State.mem_of_flight? hf).2
      cases hclock : latency.isBeyondClock with
      | false =>
        simp only [Executor.store, hclock, Bool.false_eq_true, if_false] at h
        obtain ⟨t, ht, rfl⟩ := Option.map_eq_some_iff.1 h
        exact .passes hclock hj hf rfl ht
      | true =>
        simp only [Executor.store, hclock, if_true] at h
        obtain ⟨t, ht, rfl⟩ := Option.map_eq_some_iff.1 h
        exact .fails hclock hj hf ht
    · cases h

theorem exists_advance {latency : Number} {w : Serving} {j : Nat} {b : Batch} {s t : State} {m : Pipeline.Move}
    (hj : w.streams[j]? = some ⟨b, s⟩) (hm : ∀ i o, m ≠ .settle i o) (ht : b.step s m = some t) :
    ∃ u, w.step latency (.advance j m) = some u := by
  cases m with
  | settle i o => exact absurd rfl (hm i o)
  | _ => simp [step, advance, hj, ht]

theorem exists_pass {latency : Number} {w : Serving} {j i : Nat} {b : Batch} {s : State} {c : Command}
    (hj : w.streams[j]? = some ⟨b, s⟩) (hf : s.flight? i = some ⟨i, c, .running⟩) :
    ∃ u, w.step latency (.pass j i) = some u := by
  simp [step, pass, hj, hf, Batch.step, Batch.settle]

theorem Stepped.batches {latency : Number} {w u : Serving} {m : Move} (h : Stepped latency w m u) :
    w.streams.map (·.batch) <+: u.streams.map (·.batch) := by
  have hset {j : Nat} {b : Batch} {s t : State} (hj : w.streams[j]? = some ⟨b, s⟩) :
      (w.streams.set j ⟨b, t⟩).map (·.batch) = w.streams.map (·.batch) := by
    obtain ⟨hlt, he⟩ := List.getElem?_eq_some_iff.1 hj
    have hlt' : j < (w.streams.map (·.batch)).length := by simpa using hlt
    have hb : b = (w.streams.map (·.batch))[j] := by simp [he]
    rw [List.map_set]
    exact hb ▸ List.set_getElem_self _
  cases h with
  | launches b =>
    rw [List.map_append]
    exact List.prefix_append _ _
  | advances hj => exact (hset hj).symm ▸ List.prefix_rfl
  | passes _ hj => exact (hset hj).symm ▸ List.prefix_rfl
  | fails _ hj => exact (hset hj).symm ▸ List.prefix_rfl

theorem steps_batches {latency : Number} {w u : Serving} {ms : List Move} (h : w.steps latency ms = some u) :
    w.streams.map (·.batch) <+: u.streams.map (·.batch) := by
  induction ms generalizing w with
  | nil =>
    cases h
    exact List.prefix_rfl
  | cons m ms ih =>
    rw [steps, List.foldlM_cons] at h
    obtain ⟨v, hv, hu⟩ := Option.bind_eq_some_iff.1 h
    exact (step_stepped hv).batches.trans (ih hu)

end Serving
end SetPipeline
