import SetPipeline.Proofs.Pipeline.Window

/-! What is left of a stream that has ended: nothing. Whether its input is through, it fails or its consumer closes
it, every call that began is over by itself or given up, every pull is answered or given up, and after all of them
the input is closed, once. No move is possible any more. -/
namespace SetPipeline.Pipeline

def Event.isAsked : Event → Bool
  | asked => true
  | _ => false

def Event.isAbandoned : Event → Bool
  | abandoned => true
  | _ => false

def Move.isOffer : Move → Bool
  | offer => true
  | _ => false

namespace State

def askedCount (s : State) : Nat := s.log.countP Event.isAsked

def abandonedCount (s : State) : Nat := s.log.countP Event.isAbandoned

/-- The pulls asked for are the ones answered, the ones given up and the one that is outstanding. -/
def Pulls (answered : Nat) (s : State) : Prop := s.askedCount = answered + s.abandonedCount + s.outstanding

/-- The input was closed, once, and nothing was seen after that. -/
def Shut (s : State) : Prop := ∃ before, s.log = before ++ [.closedSource] ∧ .closedSource ∉ before

section
variable (s : State) (e : End)

theorem halt_countP {which : Event → Bool} (hc : ∀ i, which (.cancelled i) = false) :
    (s.halt e).log.countP which =
      s.log.countP which + (if s.pull.isAsked then [Event.abandoned] else []).countP which +
        [Event.closedSource].countP which := by
  have hcalls : ((s.flights.filter (·.phase.isRunning)).map fun f => Event.cancelled f.position).countP which = 0 := by
    refine List.countP_eq_zero.2 fun ev hev => ?_
    obtain ⟨f, -, rfl⟩ := List.mem_map.1 hev
    simp [hc]
  simp [halt, emit, List.countP_append, hcalls, Nat.add_assoc]

theorem askedCount_halt : (s.halt e).askedCount = s.askedCount := by
  rw [askedCount, halt_countP s e fun _ => rfl]
  cases s.pull.isAsked <;> simp [askedCount, Event.isAsked]

theorem abandonedCount_halt : (s.halt e).abandonedCount = s.abandonedCount + s.outstanding := by
  rw [abandonedCount, halt_countP s e fun _ => rfl]
  cases h : s.pull.isAsked <;> simp [abandonedCount, outstanding, h, Event.isAbandoned]

theorem shut_halt (h : .closedSource ∉ s.log) : (s.halt e).Shut := by
  refine ⟨_, (List.append_assoc _ _ _).symm, ?_⟩
  cases s.pull.isAsked <;> simp [h]

end

theorem Pulls.halt {s : State} {n : Nat} (h : s.Pulls n) (e : End) : (s.halt e).Pulls n := by
  rw [Pulls, askedCount_halt, abandonedCount_halt, outstanding_halt, h, Nat.add_assoc]
  rfl

theorem Pulls.emit {s : State} {n : Nat} (h : s.Pulls n) {ev : Event} (ha : ev.isAsked = false)
    (hb : ev.isAbandoned = false) : (s.emit [ev]).Pulls n := by
  have hasks : (s.emit [ev]).askedCount = s.askedCount := by simp [askedCount, State.emit, List.countP_append, ha]
  have habandons : (s.emit [ev]).abandonedCount = s.abandonedCount := by
    simp [abandonedCount, State.emit, List.countP_append, hb]
  rw [Pulls, hasks, habandons]
  exact h

theorem outstanding_of_asked {s : State} (h : s.pull = .asked) : s.outstanding = 1 := by
  simp [outstanding, h, Pull.isAsked]

theorem outstanding_of_ne {s : State} (h : s.pull ≠ .asked) : s.outstanding = 0 := by
  cases hp : s.pull with
  | asked => exact absurd hp h
  | idle | given => simp [outstanding, hp, Pull.isAsked]

end State

section
variable {b : Batch} {s t : State} {m : Move} {n : Nat}

theorem Turned.pulls (h : Turned b s t) (hs : s.Pulls n) : t.Pulls n := by
  cases h with
  | asks hp =>
    rw [State.Pulls, State.outstanding_of_ne (by simp [hp])] at hs
    simp only [State.Pulls, State.askedCount, State.abandonedCount, State.emit, List.countP_append] at hs ⊢
    rw [hs]
    rfl
  | waits => exact hs
  | ends => exact hs.halt _

theorem Handed.pulls {round : List Nat} (h : Handed b s round t) (hs : s.Pulls n) : t.Pulls n := by
  cases h with
  | yields => exact State.Pulls.emit (s := { s.remove _ with stage := _ }) hs rfl rfl
  | fails => exact State.Pulls.halt (s := s.remove _) hs _
  | turns _ ht => exact ht.pulls hs

theorem State.Pulls.taken {o : Offer} {i : Nat} (hs : s.Pulls n) (hg : s.pull = .given i o) {x : Bool}
    {fs : List Flight} : State.Pulls n { s with pull := .idle, exhausted := x, flights := fs } := by
  rw [State.Pulls, State.outstanding_of_ne (by simp [hg])] at hs
  exact hs

theorem Stepped.pulls (h : Stepped b s m t) (hs : s.Pulls n) : t.Pulls (n + if m.isOffer then 1 else 0) := by
  cases h with
  | asksFirst _ ht => exact ht.pulls hs
  | asks _ ht => exact ht.pulls hs
  | closesFresh | rejects | bars => exact hs
  | closes => exact hs.halt _
  | gives ha =>
    rw [State.Pulls, State.outstanding_of_asked ha] at hs
    refine State.Pulls.emit (s := { s with pull := _, pulled := _ }) ?_ rfl rfl
    rw [State.Pulls, State.outstanding_of_ne (by simp)]
    simp only [State.askedCount, State.abandonedCount, Move.isOffer, if_true] at hs ⊢
    omega
  | gives_none ha =>
    rw [State.Pulls, State.outstanding_of_asked ha] at hs
    rw [State.Pulls, State.outstanding_of_ne (by simp)]
    simp only [State.askedCount, State.abandonedCount, Move.isOffer, if_true] at hs ⊢
    omega
  | begins => exact State.Pulls.emit (s := s.setPhase _ _) hs rfl rfl
  | settles _ he => rcases he with rfl | rfl <;> exact State.Pulls.emit (s := s.setPhase _ _) hs rfl rfl
  | expires => exact State.Pulls.emit (s := s.setPhase _ _) hs rfl rfl
  | wakes _ ht => exact ht.pulls hs
  | takes _ hg ht => exact ht.pulls (hs.taken hg)
  | takesEnd _ hg ht => exact ht.pulls (hs.taken hg)
  | takesOther _ hg => exact (hs.taken hg).halt _
  | takesFailure _ hg => exact (hs.taken hg).halt _

theorem Run.pulls {ms : List Move} (h : Run b ms s) : s.Pulls (ms.countP (·.isOffer)) := by
  induction h with
  | initial => rfl
  | next _ hs ih =>
    rw [List.countP_append, List.countP_singleton]
    exact (step_stepped hs).pulls ih

/-- A stream that has not ended has not closed its input, and one that has ended has. -/
def State.ShutAtEnd (s : State) : Prop :=
  (s.ending? = none → .closedSource ∉ s.log) ∧ (s.ending?.isSome → s.Shut)

theorem State.ShutAtEnd.halt {e : End} (h : .closedSource ∉ s.log) : (s.halt e).ShutAtEnd :=
  ⟨by simp, fun _ => s.shut_halt e h⟩

theorem State.ShutAtEnd.going (he : s.ending? = none) (h : .closedSource ∉ s.log) : s.ShutAtEnd :=
  ⟨fun _ => h, fun hsome => by simp [he] at hsome⟩

theorem Turned.shutAtEnd (h : Turned b s t) (hs : .closedSource ∉ s.log) : t.ShutAtEnd := by
  cases h with
  | asks => exact .going rfl (by simp [State.emit, hs])
  | waits => exact .going rfl hs
  | ends => exact .halt hs

theorem Handed.shutAtEnd {round : List Nat} (h : Handed b s round t) (hs : .closedSource ∉ s.log) :
    t.ShutAtEnd := by
  cases h with
  | yields => exact .going rfl (by simp [State.emit, State.remove, hs])
  | fails => exact .halt (s := s.remove _) hs
  | turns _ ht => exact ht.shutAtEnd hs

/-- Closing a stream that has not begun is the one way to end it and leave the input open. -/
theorem Stepped.shutAtEnd (h : Stepped b s m t) (hb : Staged b s) (hs : .closedSource ∉ s.log)
    (hm : m = .close → s.stage ≠ .fresh) : t.ShutAtEnd := by
  have hgoing := h.ending?_eq_none hb
  have hkeeps {u : State} (hu : u.stage = s.stage) (hl : .closedSource ∉ u.log) : u.ShutAtEnd :=
    .going (by rw [State.ending?, hu, ← State.ending?, hgoing]) hl
  cases h with
  | asksFirst _ ht => exact ht.shutAtEnd hs
  | asks _ ht => exact ht.shutAtEnd hs
  | closesFresh hf => exact absurd hf (hm rfl)
  | closes => exact .halt hs
  | gives => exact hkeeps rfl (by simp [State.emit, hs])
  | gives_none | rejects | bars => exact hkeeps rfl hs
  | begins | expires => exact hkeeps rfl (by simp [State.emit, State.setPhase, hs])
  | settles _ he => exact hkeeps rfl (by rcases he with rfl | rfl <;> simp [State.emit, State.setPhase, hs])
  | wakes _ ht => exact ht.shutAtEnd hs
  | takes _ _ ht => exact ht.shutAtEnd hs
  | takesEnd _ _ ht => exact ht.shutAtEnd hs
  | takesOther => exact .halt (s := { s with pull := .idle }) hs
  | takesFailure => exact .halt (s := { s with pull := .idle }) hs

theorem Stepped.ne_close (h : Stepped b s m t) (ht : t.ending? = none) : m ≠ .close := by
  rintro rfl
  cases h <;> cases ht

theorem Run.open {ms : List Move} (h : Run b ms s) (hs : s.ending? = none) : .closedSource ∉ s.log := by
  induction h with
  | initial => exact List.not_mem_nil
  | next h hstep ih =>
    have hstep := step_stepped hstep
    have hstaged := h.reachable.sound.staged
    have hclose := hstep.ne_close hs
    exact (hstep.shutAtEnd hstaged (ih (hstep.ending?_eq_none hstaged)) fun hm => absurd hm hclose).1 hs

theorem Turned.stage_ne_fresh (h : Turned b s t) : t.stage ≠ .fresh := by
  cases h <;> simp [State.emit, State.halt]

theorem Handed.stage_ne_fresh {round : List Nat} (h : Handed b s round t) : t.stage ≠ .fresh := by
  cases h with
  | yields | fails => simp [State.emit, State.halt]
  | turns _ ht => exact ht.stage_ne_fresh

theorem Stepped.stage_ne_fresh (h : Stepped b s m t) (hs : Staged b s) : t.stage ≠ .fresh := by
  have hbegun (hne : s.flights ≠ [] ∨ s.pull ≠ .idle) : s.stage ≠ .fresh := by
    intro hf
    rw [Staged, hf] at hs
    subst hs
    simp [State.initial] at hne
  cases h with
  | asksFirst _ ht => exact ht.stage_ne_fresh
  | asks _ ht => exact ht.stage_ne_fresh
  | closesFresh | closes | takesOther | takesFailure => simp [State.emit, State.halt]
  | gives hp | gives_none hp => exact hbegun (.inr (by simp [hp]))
  | rejects hf | bars hf | begins hf => exact hbegun (.inl (List.ne_nil_of_mem (List.mem_of_find?_eq_some hf)))
  | settles hf | expires _ hf => exact hbegun (.inl (List.ne_nil_of_mem (State.mem_of_flight? hf).1))
  | wakes _ ht => exact ht.stage_ne_fresh
  | takes _ _ ht => exact ht.stage_ne_fresh
  | takesEnd _ _ ht => exact ht.stage_ne_fresh

theorem Run.stage_ne_fresh {ms : List Move} (h : Run b ms s) (hms : ms ≠ []) : s.stage ≠ .fresh := by
  cases h with
  | initial => exact absurd rfl hms
  | next h hs => exact (step_stepped hs).stage_ne_fresh h.reachable.sound.staged

/-- A stream that was asked for anything closes its input when it ends, and not before. -/
theorem Run.shutAtEnd {ms : List Move} (h : Run b ms s) (hask : .ask ∈ ms) : s.ShutAtEnd := by
  cases h with
  | initial => cases hask
  | @next ms s t m h hs =>
    have hstep := step_stepped hs
    have hstaged := h.reachable.sound.staged
    refine hstep.shutAtEnd hstaged (h.open (hstep.ending?_eq_none hstaged)) ?_
    rintro rfl
    have hbefore : .ask ∈ ms := by simpa using hask
    exact h.stage_ne_fresh (List.ne_nil_of_mem hbefore)

end

/-- A stream of which nothing goes on. -/
structure Stopped (b : Batch) (ms : List Move) (s : State) : Prop where
  tasks : s.flights = []
  /-- Each call that began ended by itself or was given up, not both. -/
  calls : (s.returned ++ s.cancelled).Perm (s.begun.map (·.1))
  /-- Each pull was answered or given up. -/
  pulls : s.askedCount = ms.countP (·.isOffer) + s.abandonedCount
  /-- The input was closed once, and after everything else. -/
  closed : s.Shut
  /-- Nothing is asked of the input or the executor any more, and nothing is handed over. -/
  still : ∀ m, b.step s m = none

section
variable {b : Batch} {s : State} {ms : List Move}

theorem Staged.flights_eq_nil (h : Staged b s) (he : s.ending?.isSome) : s.flights = [] ∧ s.pull = .idle := by
  by_cases hs : s.flights ≠ [] ∨ s.pull ≠ .idle
  · rw [h.going hs] at he
    cases he
  · exact ⟨by_contra fun hf => hs (.inl hf), by_contra fun hp => hs (.inr hp)⟩

theorem Run.stopped (h : Run b ms s) (hask : .ask ∈ ms) (he : s.ending?.isSome) : Stopped b ms s := by
  obtain ⟨hfl, hpull⟩ := h.reachable.sound.staged.flights_eq_nil he
  obtain ⟨q, hq⟩ := h.reachable.called
  constructor
  case tasks => exact hfl
  case calls => simpa [State.running, State.positionsIn, hfl] using hq.split
  case pulls =>
    have hpulls := h.pulls
    rwa [State.Pulls, State.outstanding_of_ne (by simp [hpull]), Nat.add_zero] at hpulls
  case closed => exact (h.shutAtEnd hask).2 he
  case still =>
    intro m
    cases hs : b.step s m with
    | none => rfl
    | some t =>
      rw [(step_stepped hs).ending?_eq_none h.reachable.sound.staged] at he
      cases he

/-- However a stream that has begun ends, nothing of it goes on; and as long as it has not ended, its consumer can
end it so at any time, be it while the loop waits or in the middle of a round. -/
theorem Run.stops (h : Run b ms s) (hask : .ask ∈ ms) :
    (s.ending?.isSome → Stopped b ms s) ∧
      (s.ending? = none → ∃ t, b.step s .close = some t ∧ t.ending? = some .closed ∧
        Stopped b (ms ++ [.close]) t) := by
  refine ⟨h.stopped hask, fun he => ?_⟩
  have hstage := h.stage_ne_fresh (List.ne_nil_of_mem hask)
  have hclose : b.step s .close = some (s.halt .closed) := by
    cases hst : s.stage with
    | fresh => exact absurd hst hstage
    | waiting | handing => simp [Batch.step, Batch.close, hst]
    | ended e => simp [State.ending?, hst] at he
  exact ⟨_, hclose, rfl, (h.next hclose).stopped (List.mem_append_left _ hask) rfl⟩

end

def busy : Batch := .quiet .card unending.source ⟨.int 3, none⟩ 900

/-- One call is running, one is to begin, and a pull is outstanding. -/
def busyMoves : List Move := [.ask, .offer, .wake true [], .start, .offer, .wake true []]

theorem stops_busy : ∃ s, Run busy busyMoves s ∧ .ask ∈ busyMoves ∧ s.running = [0] ∧ s.queued = [1] ∧
    s.pull = .asked ∧ ∃ t, busy.step s .close = some t ∧ t.ending? = some .closed ∧
      Stopped busy (busyMoves ++ [.close]) t := by
  have exists_busy : ∃ s, Run busy busyMoves s ∧ s.running = [0] ∧ s.queued = [1] ∧ s.pull = .asked ∧
      s.ending? = none := by
    have first := (((Run.initial (b := busy)).next (m := .ask) rfl).next (m := .offer) rfl).next (m := .wake true []) rfl
    have second := (first.next (m := .start) rfl).next (m := .offer) rfl
    exact ⟨_, second.next (m := .wake true []) rfl, rfl, rfl, rfl, rfl⟩
  obtain ⟨s, hrun, hrunning, hqueued, hpull, he⟩ := exists_busy
  have hask : .ask ∈ busyMoves := by simp [busyMoves]
  exact ⟨s, hrun, hask, hrunning, hqueued, hpull, (hrun.stops hask).2 he⟩

end SetPipeline.Pipeline
