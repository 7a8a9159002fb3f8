import SetPipeline.Proofs.Except
import SetPipeline.Proofs.Pipeline.Conservation

/-! The outcome of a call and the response made of it. In every run a finished flight and a response handed
over are what the check before the call and the outcome of that very call make of the command at that
position. -/
namespace SetPipeline.Pipeline

def Move.outcome? (i : Nat) : Move → Option (Except Failure Datum)
  | .settle j o => if j = i then some o else none
  | .expire j => if j = i then some (.error (.timedOut Failure.timedOutMessage)) else none
  | _ => none

theorem Move.outcome?_eq_some {m : Move} {i : Nat} {o : Except Failure Datum} (h : m.outcome? i = some o) :
    m = .settle i o ∨ m = .expire i ∧ o = .error (.timedOut Failure.timedOutMessage) := by
  cases m with
  | settle j o' =>
    simp only [outcome?] at h
    split at h
    · next hj =>
      cases h
      exact .inl (congrArg (Move.settle · o) hj)
    · cases h
  | expire j =>
    simp only [outcome?] at h
    split at h
    · next hj =>
      cases h
      exact .inr ⟨congrArg Move.expire hj, rfl⟩
    · cases h
  | ask | close | offer | start | wake => cases h

/-- How the call for a position ended in a run. -/
def outcomeOf (ms : List Move) (i : Nat) : Option (Except Failure Datum) := ms.findSome? (Move.outcome? i)

/-- What a command comes to under the outcome of its call: its rejection or what bars it, which need no call, or what
is made of the outcome. -/
def Batch.conclusion (b : Batch) (c : Command) (outcome : Option (Except Failure Datum)) :
    Option (Except Failure Response) :=
  match b.operation.unfit? c with
  | some u => some (.ok (reject b.operation c u))
  | none =>
    match b.config.barred? c with
    | some g => some (.error g)
    | none => outcome.map (respond b.room b.operation c)

inductive Concluded (b : Batch) (c : Command) (outcome : Option (Except Failure Datum)) :
    Except Failure Response → Prop where
  | rejected {u : Unfit} : b.operation.unfit? c = some u → Concluded b c outcome (.ok (reject b.operation c u))
  | barred {g : Failure} : b.operation.unfit? c = none → b.config.barred? c = some g → Concluded b c outcome (.error g)
  | responded {o : Except Failure Datum} {x : Except Failure Response} : b.operation.unfit? c = none →
    b.config.barred? c = none → outcome = some o → respond b.room b.operation c o = x → Concluded b c outcome x

theorem concluded_of_conclusion {b : Batch} {c : Command} {outcome : Option (Except Failure Datum)}
    {x : Except Failure Response} (h : b.conclusion c outcome = some x) : Concluded b c outcome x := by
  unfold Batch.conclusion at h
  split at h
  · next u hu =>
    cases h
    exact .rejected hu
  · next hu =>
    split at h
    · next g hg =>
      cases h
      exact .barred hu hg
    · next hg =>
      obtain ⟨o, ho, hx⟩ := Option.map_eq_some_iff.1 h
      exact .responded hu hg ho hx

theorem outcomeOf_append (ms : List Move) (m : Move) (i : Nat) :
    outcomeOf (ms ++ [m]) i = (outcomeOf ms i).or (m.outcome? i) := by
  simp [outcomeOf, List.findSome?_append]

theorem outcomeOf_append_of_none {ms : List Move} {m : Move} {i : Nat} (h : m.outcome? i = none) :
    outcomeOf (ms ++ [m]) i = outcomeOf ms i := by
  simp [outcomeOf_append, h]

theorem mem_of_outcomeOf {ms : List Move} {i : Nat} {o : Except Failure Datum} (h : outcomeOf ms i = some o) :
    .settle i o ∈ ms ∨ .expire i ∈ ms ∧ o = .error (.timedOut Failure.timedOutMessage) := by
  obtain ⟨m, hm, ho⟩ := List.exists_of_findSome?_eq_some h
  rcases Move.outcome?_eq_some ho with rfl | ⟨rfl, htime⟩
  · exact .inl hm
  · exact .inr ⟨hm, htime⟩

theorem logging_eq_ok {α : Type} {raised : Option Failure} {x : Except Failure α} {a : α} :
    logging raised x = .ok a ↔ raised = none ∧ x = .ok a := by
  cases raised <;> simp [logging]

theorem make_input {kind : ResponseKind} {c : Command} {given : Fields.Given} {r : Response}
    (h : Response.make kind (("input", .command c) :: given) = .ok r) : r.input = c := by
  have hinput : Fields.required (("input", .command c) :: given) "input"
      (Fields.single "input" Fields.command) = .ok c := rfl
  unfold Response.make Response.check at h
  rw [hinput] at h
  cases hp : Fields.both (.ok c) _ with
  | error is =>
    rw [hp] at h
    cases h
  | ok p =>
    rw [hp] at h
    cases h
    exact (Except.ok.inj (Fields.both_eq_ok.1 hp).1).symm

theorem respond_input {room : Nat} {op : Operation} {c : Command} {o : Except Failure Datum} {r : Response}
    (h : respond room op c o = .ok r) : r.input = c := by
  unfold respond at h
  split at h
  · split at h
    · next hs =>
      cases h
      exact make_input hs
    · cases (logging_eq_ok.1 h).2
      rfl
  · next m code =>
    obtain ⟨-, h⟩ := logging_eq_ok.1 h
    exact make_input (Except.mapError_eq_ok.1 h)
  · cases h
    rfl
  · cases h

theorem conclusion_input {b : Batch} {c : Command} {o : Option (Except Failure Datum)} {r : Response}
    (h : b.conclusion c o = some (.ok r)) : r.input = c := by
  cases concluded_of_conclusion h with
  | rejected => rfl
  | responded _ _ _ hr => exact respond_input hr

abbrev Outcomes := Nat → Option (Except Failure Datum)

/-- How far a flight is, seen from the outcomes so far. -/
def Flight.Accords (b : Batch) (o : Outcomes) (f : Flight) : Prop :=
  match f.phase with
  | .queued => o f.position = none
  | .running => b.operation.unfit? f.command = none ∧ b.config.barred? f.command = none ∧ o f.position = none
  | .finished x => b.conclusion f.command (o f.position) = some x

theorem Flight.Accords.congr {b : Batch} {o o' : Outcomes} {f : Flight} (h : f.Accords b o)
    (ho : o' f.position = o f.position) : f.Accords b o' := by
  unfold Accords
  rw [ho]
  exact h

/-- Everything finished is the conclusion of its command under its own outcome, and no call ended before its
command was taken in. -/
structure Accounted (b : Batch) (o : Outcomes) (s : State) : Prop where
  flights : ∀ f ∈ s.flights, f.Accords b o
  yielded : ∀ p ∈ s.yielded, ∃ c, b.source p.1 = .item (.command c) ∧ b.conclusion c (o p.1) = some (.ok p.2)
  untaken : ∀ i, s.pulled ≤ i ∨ i ∈ s.held → o i = none

namespace Accounted

variable {b : Batch} {o o' : Outcomes} {s t : State}

theorem turned (h : Accounted b o s) (ht : Turned b s t) : Accounted b o t := by
  have hsame := ht.same
  refine ⟨?_, ?_, ?_⟩
  · rw [hsame.flights]
    exact h.flights
  · rw [hsame.yielded]
    exact h.yielded
  · rw [hsame.pulled, hsame.held]
    exact h.untaken

theorem broken (h : Accounted b o s) (hf : t.flights = []) (hy : t.yielded = s.yielded)
    (hp : t.pulled = s.pulled) (hheld : t.held = []) : Accounted b o t := by
  refine ⟨?_, ?_, ?_⟩
  · simp [hf]
  · rw [hy]
    exact h.yielded
  · intro i hi
    rw [hp, hheld] at hi
    exact h.untaken i (.inl (hi.resolve_right List.not_mem_nil))

theorem yields (h : Accounted b o s) (hp : Placed b s) {i : Nat} {c : Command} {r : Response}
    (hf : s.flight? i = some ⟨i, c, .finished (.ok r)⟩) (st : Stage) :
    Accounted b o ({ s.remove i with stage := st }.emit [.yielded i r]) := by
  obtain ⟨hmem, -⟩ := State.mem_of_flight? hf
  refine ⟨fun g hg => h.flights g (List.mem_of_mem_filter hg), ?_, h.untaken⟩
  intro p hy
  rw [State.yielded_yields] at hy
  rcases List.mem_append.1 hy with hy | hy
  · exact h.yielded p hy
  · rw [List.mem_singleton.1 hy]
    exact ⟨c, hp.commands _ hmem, h.flights _ hmem⟩

theorem handed (h : Accounted b o s) (hp : Placed b s) {round : List Nat} (ht : Handed b s round t) :
    Accounted b o t := by
  cases ht with
  | yields _ _ hf => exact h.yields hp hf _
  | fails => exact h.broken rfl (State.yielded_halt _ _) rfl rfl
  | turns _ ht => exact h.turned ht

theorem emit (h : Accounted b o s) {es : List Event} (hes : (s.emit es).yielded = s.yielded) :
    Accounted b o (s.emit es) :=
  ⟨h.flights, hes ▸ h.yielded, h.untaken⟩

/-- Only the flight whose phase changes has to accord with a new outcome at its position. -/
theorem setPhase (h : Accounted b o s) (hp : Placed b s) {f : Flight} (hf : f ∈ s.flights) {p : Phase}
    (hacc : Flight.Accords b o' { f with phase := p }) (ho : ∀ j, j ≠ f.position → o' j = o j) :
    Accounted b o' (s.setPhase f.position p) := by
  have hpos : f.position ∈ s.positions := List.mem_map_of_mem hf
  obtain ⟨-, -, hheld⟩ := List.nodup_append.1 hp.nodup
  refine ⟨?_, ?_, ?_⟩
  · intro g hg
    obtain ⟨g', hg', rfl⟩ := List.mem_map.1 hg
    split
    · next he =>
      rw [List.inj_on_of_nodup_map hp.positions_nodup hg' hf he]
      exact hacc
    · next hne => exact (h.flights g' hg').congr (ho _ hne)
  · intro q hq
    obtain ⟨c, hc, hcon⟩ := h.yielded q hq
    have hne : q.1 ≠ f.position := fun he => hp.not_answered hpos (he ▸ List.mem_map_of_mem hq)
    exact ⟨c, hc, ho _ hne ▸ hcon⟩
  · intro i hi
    have hne : i ≠ f.position := by
      rintro rfl
      rcases hi with hi | hi
      · exact Nat.not_lt.2 hi (hp.position_lt hpos)
      · exact hheld f.position (List.mem_append_right _ hpos) f.position hi rfl
    rw [ho i hne]
    exact h.untaken i hi

theorem takes (h : Accounted b o s) {i : Nat} {c : Command} (hp : s.pull = .given i (.item (.command c))) :
    Accounted b o { s with pull := .idle, flights := s.flights ++ [⟨i, c, .queued⟩] } := by
  refine ⟨?_, h.yielded, ?_⟩
  · intro f hf
    rcases List.mem_append.1 hf with hf | hf
    · exact h.flights f hf
    · rw [List.mem_singleton.1 hf]
      exact h.untaken i (.inr (by simp [State.held, hp]))
  · intro j hj
    rw [State.held_eq_nil (by simp)] at hj
    exact h.untaken j (.inl (hj.resolve_right List.not_mem_nil))

theorem takesEnd (h : Accounted b o s) : Accounted b o { s with pull := .idle, exhausted := true } := by
  refine ⟨h.flights, h.yielded, fun j hj => h.untaken j (.inl ?_)⟩
  rw [State.held_eq_nil (by simp)] at hj
  exact hj.resolve_right List.not_mem_nil

theorem initial : Accounted b (outcomeOf []) .initial := by
  refine ⟨?_, ?_, fun _ _ => rfl⟩ <;> simp [State.initial, State.yielded]

end Accounted

/-- The end of a running call, by itself or by its timeout, is the outcome at its position. -/
theorem Accounted.ends {b : Batch} {ms : List Move} {s : State} {m : Move} {i : Nat} {c : Command}
    {o : Except Failure Datum} (h : Accounted b (outcomeOf ms) s) (hp : Placed b s)
    (hf : s.flight? i = some ⟨i, c, .running⟩) (hm : m.outcome? i = some o)
    (hother : ∀ j, j ≠ i → m.outcome? j = none) :
    Accounted b (outcomeOf (ms ++ [m])) (s.setPhase i (.finished (respond b.room b.operation c o))) := by
  obtain ⟨hmem, -⟩ := State.mem_of_flight? hf
  obtain ⟨hu, hc, hnone⟩ := h.flights _ hmem
  refine h.setPhase hp hmem ?_ fun j hj => outcomeOf_append_of_none (hother j hj)
  have ho : outcomeOf (ms ++ [m]) i = some o := by
    rw [outcomeOf_append, hnone, hm]
    rfl
  simp only [Flight.Accords, Batch.conclusion, hu, hc, ho]
  rfl

theorem Stepped.accounted {b : Batch} {ms : List Move} {s t : State} {m : Move} (h : Stepped b s m t)
    (hs : Sound b s) (ha : Accounted b (outcomeOf ms) s) : Accounted b (outcomeOf (ms ++ [m])) t := by
  have hp := h.placed hs
  have hquiet (hm : ∀ i, m.outcome? i = none) : outcomeOf (ms ++ [m]) = outcomeOf ms :=
    funext fun i => outcomeOf_append_of_none (hm i)
  cases h with
  | asksFirst _ ht =>
    rw [hquiet fun _ => rfl]
    exact ha.turned ht
  | asks _ ht =>
    rw [hquiet fun _ => rfl]
    exact ha.handed hp ht
  | closesFresh =>
    rw [hquiet fun _ => rfl]
    exact ⟨ha.flights, ha.yielded, ha.untaken⟩
  | closes =>
    rw [hquiet fun _ => rfl]
    exact ha.broken rfl (State.yielded_halt _ _) rfl rfl
  | @gives d =>
    rw [hquiet fun _ => rfl]
    have hgiven : Accounted b (outcomeOf ms) { s with pull := .given s.pulled (.item d), pulled := s.pulled + 1 } := by
      refine ⟨ha.flights, ha.yielded, fun i hi => ha.untaken i (.inl ?_)⟩
      rcases hi with hi | hi
      · exact Nat.le_of_succ_le hi
      · exact Nat.le_of_eq (List.mem_singleton.1 hi).symm
    exact hgiven.emit (by simp [State.yielded, State.emit])
  | gives_none _ _ hn =>
    rw [hquiet fun _ => rfl]
    refine ⟨ha.flights, ha.yielded, fun i hi => ha.untaken i (.inl ?_)⟩
    rw [State.held_eq_nil fun j d hd => hn d (Pull.given.inj hd).2] at hi
    exact hi.resolve_right List.not_mem_nil
  | rejects hf hu =>
    have hmem := List.mem_of_find?_eq_some hf
    rw [hquiet fun _ => rfl]
    refine ha.setPhase hp hmem ?_ fun _ _ => rfl
    simp [Flight.Accords, Batch.conclusion, hu]
  | bars hf hu hc =>
    have hmem := List.mem_of_find?_eq_some hf
    rw [hquiet fun _ => rfl]
    refine ha.setPhase hp hmem ?_ fun _ _ => rfl
    simp [Flight.Accords, Batch.conclusion, hu, hc]
  | @begins f hf hu hc =>
    have hmem := List.mem_of_find?_eq_some hf
    have hq : f.phase = .queued := State.phase_of_find?_queued hf
    have hnone := ha.flights _ hmem
    rw [Flight.Accords, hq] at hnone
    rw [hquiet fun _ => rfl]
    have hruns : Flight.Accords b (outcomeOf ms) { f with phase := .running } := ⟨hu, hc, hnone⟩
    exact (ha.setPhase hp hmem hruns fun _ _ => rfl).emit (by simp [State.yielded, State.emit])
  | settles hf he =>
    refine .emit (ha.ends hp hf (by simp [Move.outcome?]) fun j hj => by simp [Move.outcome?, hj.symm]) ?_
    rcases he with rfl | rfl <;> simp [State.yielded, State.emit]
  | expires _ hf =>
    exact .emit (ha.ends hp hf (by simp [Move.outcome?]) fun j hj => by simp [Move.outcome?, hj.symm])
      (by simp [State.yielded, State.emit])
  | wakes _ ht =>
    rw [hquiet fun _ => rfl]
    exact ha.handed hp ht
  | takes _ hg ht =>
    rw [hquiet fun _ => rfl]
    exact (ha.takes hg).handed (hp.takes hg) ht
  | takesEnd _ hg ht =>
    rw [hquiet fun _ => rfl]
    exact ha.takesEnd.handed (hp.takesEnd hg) ht
  | takesOther =>
    rw [hquiet fun _ => rfl]
    exact ha.broken rfl (State.yielded_halt _ _) rfl rfl
  | takesFailure =>
    rw [hquiet fun _ => rfl]
    exact ha.broken rfl (State.yielded_halt _ _) rfl rfl

theorem Run.accounted {b : Batch} {ms : List Move} {s : State} (h : Run b ms s) :
    Accounted b (outcomeOf ms) s := by
  induction h with
  | initial => exact .initial
  | next h hs ih => exact (step_stepped hs).accounted h.reachable.sound ih

end SetPipeline.Pipeline
