import SetPipeline.Pipeline

/-! What one move of a pipeline can do, said once: every later fact about moves is a case analysis of
`Stepped`. A run is a list of moves, one after the other, with the state that they lead to. -/
namespace SetPipeline.Pipeline

namespace State

def positions (s : State) : List Nat := s.flights.map (·.position)

/-- The position of an item that was given and not yet taken in. -/
def held (s : State) : List Nat :=
  match s.pull with
  | .given i (.item _) => [i]
  | _ => []

def begun (s : State) : List (Nat × Command) :=
  s.log.filterMap fun
    | .began i c => some (i, c)
    | _ => none

def HasFinished (s : State) (i : Nat) : Prop := (s.flight? i).any (·.phase.isFinished)

theorem mem_of_flight? {s : State} {i : Nat} {f : Flight} (h : s.flight? i = some f) :
    f ∈ s.flights ∧ f.position = i :=
  ⟨List.mem_of_find?_eq_some h, by simpa using List.find?_some h⟩

theorem phase_of_find?_queued {s : State} {f : Flight} (h : s.flights.find? (·.phase.isQueued) = some f) :
    f.phase = .queued := by
  have hq : f.phase.isQueued = true := by simpa using List.find?_some h
  cases hp : f.phase with
  | queued => rfl
  | running | finished => simp [hp, Phase.isQueued] at hq

end State

/-- The top of the loop: another item is asked for, or there is only something to wait for, or nothing is
left. -/
inductive Turned (b : Batch) (s : State) : State → Prop where
  | asks : s.pull = .idle → s.exhausted = false → b.config.allows s.flights.length →
    Turned b s ({ s with pull := .asked, stage := .waiting }.emit [.asked])
  | waits : s.flights ≠ [] ∨ s.pull ≠ .idle →
    (s.pull = .idle → s.exhausted = true ∨ b.config.allows s.flights.length = false) →
    Turned b s { s with stage := .waiting }
  | ends : s.flights = [] → s.pull = .idle → s.exhausted = true ∨ b.config.allows 0 = false →
    Turned b s (s.halt .exhausted)

theorem Pull.isIdle_iff {p : Pull} : p.isIdle = true ↔ p = .idle := by
  cases p <;> simp [isIdle]

theorem turn_turned (b : Batch) (s : State) : Turned b s (b.turn s) := by
  have hrest (ha : ¬(s.pull.isIdle && !s.exhausted && b.config.allows s.flights.length)) (hp : s.pull = .idle) :
      s.exhausted = true ∨ b.config.allows s.flights.length = false := by
    cases he : s.exhausted <;> simp_all [Pull.isIdle]
  simp only [Batch.turn]
  by_cases ha : s.pull.isIdle && !s.exhausted && b.config.allows s.flights.length
  · rw [if_pos ha, if_neg (by simp [State.emit, Pull.isIdle])]
    simp only [Bool.and_eq_true, Bool.not_eq_true', Pull.isIdle_iff] at ha
    exact .asks ha.1.1 ha.1.2 ha.2
  · rw [if_neg ha]
    by_cases hd : s.flights.isEmpty && s.pull.isIdle
    · rw [if_pos hd]
      simp only [Bool.and_eq_true, List.isEmpty_iff, Pull.isIdle_iff] at hd
      exact .ends hd.1 hd.2 (by simpa [hd.1] using hrest ha hd.2)
    · rw [if_neg hd]
      refine .waits ?_ (hrest ha)
      simp only [Bool.and_eq_true, List.isEmpty_iff, Pull.isIdle_iff] at hd
      exact Classical.not_and_iff_not_or_not.1 hd

/-- Going through a round: what is not finished is passed over, then a response is handed over, or a failure
ends the stream, or the round is through. -/
inductive Handed (b : Batch) (s : State) (round : List Nat) : State → Prop where
  | yields {before rest : List Nat} {i : Nat} {c : Command} {r : Response} :
    round = before ++ i :: rest → (∀ j ∈ before, ¬s.HasFinished j) →
    s.flight? i = some ⟨i, c, .finished (.ok r)⟩ →
    Handed b s round ({ s.remove i with stage := .handing rest }.emit [.yielded i r])
  | fails {before rest : List Nat} {i : Nat} {c : Command} {f : Failure} :
    round = before ++ i :: rest → (∀ j ∈ before, ¬s.HasFinished j) →
    s.flight? i = some ⟨i, c, .finished (.error f)⟩ →
    Handed b s round ((s.remove i).halt (.failed f))
  | turns {t : State} : (∀ j ∈ round, ¬s.HasFinished j) → Turned b s t → Handed b s round t

theorem Handed.pass {b : Batch} {s t : State} {i : Nat} {round : List Nat} (hi : ¬s.HasFinished i)
    (h : Handed b s round t) : Handed b s (i :: round) t := by
  have hall {js : List Nat} (hjs : ∀ j ∈ js, ¬s.HasFinished j) : ∀ j ∈ i :: js, ¬s.HasFinished j := by
    rintro j (_ | ⟨_, hj⟩)
    · exact hi
    · exact hjs j hj
  cases h with
  | @yields before rest j c r hr hb hf =>
    have hr' : i :: round = (i :: before) ++ j :: rest := congrArg (i :: ·) hr
    exact .yields hr' (hall hb) hf
  | @fails before rest j c f hr hb hf =>
    have hr' : i :: round = (i :: before) ++ j :: rest := congrArg (i :: ·) hr
    exact .fails hr' (hall hb) hf
  | turns hb ht => exact .turns (hall hb) ht

theorem hand_handed (b : Batch) (round : List Nat) (s : State) : Handed b s round (b.hand round s) := by
  induction round with
  | nil => exact .turns (by simp) (turn_turned b s)
  | cons i rest ih =>
    unfold Batch.hand
    split
    · next p c r h =>
      obtain rfl : p = i := (State.mem_of_flight? h).2
      exact .yields (List.nil_append _).symm (by simp) h
    · next p c f h =>
      obtain rfl : p = i := (State.mem_of_flight? h).2
      exact .fails (List.nil_append _).symm (by simp) h
    · next hok herr =>
      refine .pass (fun hi => ?_) ih
      unfold State.HasFinished at hi
      cases hf : s.flight? i with
      | none => simp [hf] at hi
      | some f =>
        obtain ⟨p, c, ph⟩ := f
        cases ph with
        | queued | running => simp [hf, Phase.isFinished] at hi
        | finished x =>
          cases x with
          | ok r => exact hok _ _ _ hf
          | error e => exact herr _ _ _ hf

/-- When a wait can end with some of what is finished. -/
structure Wakes (s : State) (takePull : Bool) (round : List Nat) : Prop where
  waiting : s.stage = .waiting
  some : takePull = true ∨ round ≠ []
  once : round.Nodup
  finished : ∀ i ∈ round, s.HasFinished i

theorem wakes_of_canWake {s : State} {takePull : Bool} {round : List Nat}
    (h : Batch.canWake s takePull round) : Wakes s takePull round := by
  simp only [Batch.canWake, Bool.and_eq_true, Bool.or_eq_true, Bool.not_eq_true', decide_eq_true_eq,
    List.all_eq_true] at h
  obtain ⟨⟨⟨⟨hw, -⟩, hs⟩, hn⟩, hf⟩ := h
  refine ⟨?_, hs.imp_right fun hr => ?_, hn, hf⟩
  · split at hw
    · assumption
    · cases hw
  · rintro rfl
    cases hr

theorem canWake_of_wakes {s : State} {takePull : Bool} {round : List Nat} (h : Wakes s takePull round)
    (hp : takePull = true → s.pull.isGiven = true) : Batch.canWake s takePull round = true := by
  simp only [Batch.canWake, h.waiting, Bool.and_eq_true, Bool.or_eq_true, Bool.not_eq_true', decide_eq_true_eq,
    List.all_eq_true, List.isEmpty_eq_false_iff]
  refine ⟨⟨⟨⟨trivial, ?_⟩, h.some⟩, h.once⟩, h.finished⟩
  cases takePull with
  | false => exact .inl rfl
  | true => exact .inr (hp rfl)

theorem wake_isSome_iff {b : Batch} {s : State} {takePull : Bool} {round : List Nat} :
    (b.step s (.wake takePull round)).isSome ↔
      Wakes s takePull round ∧ (takePull = true → s.pull.isGiven = true) := by
  have hstep : (b.step s (.wake takePull round)).isSome = Batch.canWake s takePull round := by
    cases h : Batch.canWake s takePull round with
    | false => simp [Batch.step, Batch.wake, h]
    | true =>
      simp only [Batch.step, Batch.wake, h, if_true]
      split <;> rfl
  rw [hstep]
  constructor
  · intro h
    refine ⟨wakes_of_canWake h, ?_⟩
    rintro rfl
    simp only [Batch.canWake, Bool.and_eq_true] at h
    simpa using h.1.1.1.2
  · exact fun h => canWake_of_wakes h.1 h.2

inductive Stepped (b : Batch) (s : State) : Move → State → Prop where
  | asksFirst {t : State} : s.stage = .fresh → Turned b s t → Stepped b s .ask t
  | asks {rest : List Nat} {t : State} : s.stage = .handing rest → Handed b s rest t → Stepped b s .ask t
  | closesFresh : s.stage = .fresh → Stepped b s .close { s with stage := .ended .closed }
  | closes : s.ending? = none → s.stage ≠ .fresh → Stepped b s .close (s.halt .closed)
  | gives {d : Datum} : s.pull = .asked → b.source s.pulled = .item d →
    Stepped b s .offer ({ s with pull := .given s.pulled (.item d), pulled := s.pulled + 1 }.emit [.took s.pulled])
  | gives_none {o : Offer} : s.pull = .asked → b.source s.pulled = o → (∀ d, o ≠ .item d) →
    Stepped b s .offer { s with pull := .given s.pulled o }
  | rejects {f : Flight} {u : Unfit} : s.flights.find? (·.phase.isQueued) = some f →
    b.operation.unfit? f.command = some u →
    Stepped b s .start (s.setPhase f.position (.finished (.ok (reject b.operation f.command u))))
  | bars {f : Flight} {g : Failure} : s.flights.find? (·.phase.isQueued) = some f →
    b.operation.unfit? f.command = none → b.config.barred? f.command = some g →
    Stepped b s .start (s.setPhase f.position (.finished (.error g)))
  | begins {f : Flight} : s.flights.find? (·.phase.isQueued) = some f →
    b.operation.unfit? f.command = none → b.config.barred? f.command = none →
    Stepped b s .start ((s.setPhase f.position .running).emit [.began f.position f.command])
  | settles {i : Nat} {c : Command} {o : Except Failure Datum} {e : Event} :
    s.flight? i = some ⟨i, c, .running⟩ → e = .returned i ∨ e = .raised i →
    Stepped b s (.settle i o) ((s.setPhase i (.finished (respond b.room b.operation c o))).emit [e])
  | expires {i : Nat} {c : Command} : b.config.timeout.isSome → s.flight? i = some ⟨i, c, .running⟩ →
    Stepped b s (.expire i)
      ((s.setPhase i (.finished (respond b.room b.operation c (.error (.timedOut Failure.timedOutMessage))))).emit
        [.cancelled i])
  | wakes {round : List Nat} {t : State} : Wakes s false round → Handed b s round t →
    Stepped b s (.wake false round) t
  | takes {round : List Nat} {i : Nat} {c : Command} {t : State} : Wakes s true round →
    s.pull = .given i (.item (.command c)) →
    Handed b { s with pull := .idle, flights := s.flights ++ [⟨i, c, .queued⟩] } round t →
    Stepped b s (.wake true round) t
  | takesEnd {round : List Nat} {i : Nat} {t : State} : Wakes s true round → s.pull = .given i .done →
    Handed b { s with pull := .idle, exhausted := true } round t → Stepped b s (.wake true round) t
  | takesOther {round : List Nat} {i : Nat} {d : Datum} : Wakes s true round → s.pull = .given i (.item d) →
    (∀ c, d ≠ .command c) →
    Stepped b s (.wake true round)
      ({ s with pull := .idle }.halt (.failed (.misuse (.notCommand d.typeName))))
  | takesFailure {round : List Nat} {i : Nat} {f : Failure} : Wakes s true round →
    s.pull = .given i (.failure f) →
    Stepped b s (.wake true round) ({ s with pull := .idle }.halt (.failed f))

theorem step_stepped {b : Batch} {s t : State} {m : Move} (h : b.step s m = some t) : Stepped b s m t := by
  cases m with
  | ask =>
    simp only [Batch.step, Batch.ask] at h
    split at h <;> cases h
    · next hs => exact .asksFirst hs (turn_turned b s)
    · next rest hs => exact .asks hs (hand_handed b rest s)
  | close =>
    simp only [Batch.step, Batch.close] at h
    split at h <;> cases h
    · next hs => exact .closesFresh hs
    · next hs => exact .closes (by simp [State.ending?, hs]) (by simp [hs])
    · next hs => exact .closes (by simp [State.ending?, hs]) (by simp [hs])
  | offer =>
    simp only [Batch.step, Batch.offer] at h
    split at h
    · next hp =>
      split at h <;> cases h
      · next d ho => rw [ho]; exact .gives hp ho
      · next ho => rw [ho]; exact .gives_none hp ho (by simp)
      · next f ho => rw [ho]; exact .gives_none hp ho (by simp)
    · cases h
    · cases h
  | start =>
    obtain ⟨f, hf, h⟩ := Option.map_eq_some_iff.1 h
    subst h
    split
    · next u hu => exact .rejects hf hu
    · next hu =>
      split
      · next g hg => exact .bars hf hu hg
      · next hg => exact .begins hf hu hg
  | settle i o =>
    simp only [Batch.step, Batch.settle] at h
    split at h
    · next p c hf =>
      obtain rfl : p = i := (State.mem_of_flight? hf).2
      cases h
      exact .settles hf (by cases o <;> simp)
    · cases h
  | expire i =>
    simp only [Batch.step, Batch.expire] at h
    split at h
    · next hn hf =>
      obtain rfl := (State.mem_of_flight? hf).2
      cases h
      exact .expires (by simp [hn]) hf
    · cases h
  | wake takePull round =>
    simp only [Batch.step, Batch.wake] at h
    split at h
    · next hw =>
      have hw' := wakes_of_canWake hw
      cases takePull with
      | false =>
        cases h
        exact .wakes hw' (hand_handed _ _ _)
      | true =>
        cases hp : s.pull with
        | idle | asked => simp [Batch.canWake, Pull.isGiven, hp] at hw
        | given i o =>
          simp only [hp] at h
          cases h
          unfold Batch.receive
          split
          · exact .takes hw' hp (hand_handed _ _ _)
          · next hd => exact .takesOther hw' hp fun c hc => hd c hc
          · exact .takesEnd hw' hp (hand_handed _ _ _)
          · exact .takesFailure hw' hp
    · cases h

theorem Turned.log {b : Batch} {s t : State} (h : Turned b s t) : s.log <+: t.log := by
  cases h with
  | asks => exact List.prefix_append _ _
  | waits => exact List.prefix_rfl
  | ends => exact List.prefix_append _ _

theorem Handed.log {b : Batch} {s t : State} {round : List Nat} (h : Handed b s round t) : s.log <+: t.log := by
  cases h with
  | yields => exact List.prefix_append _ _
  | fails => exact List.prefix_append _ _
  | turns _ ht => exact ht.log

theorem Stepped.log {b : Batch} {s t : State} {m : Move} (h : Stepped b s m t) : s.log <+: t.log := by
  cases h with
  | asksFirst _ ht => exact ht.log
  | asks _ ht => exact ht.log
  | closesFresh | gives_none | rejects | bars => exact List.prefix_rfl
  | closes | gives | begins | settles | expires => exact List.prefix_append _ _
  | wakes _ ht => exact ht.log
  | takes _ _ ht => exact ht.log
  | takesEnd _ _ ht => exact ht.log
  | takesOther | takesFailure => exact List.prefix_append _ _

/-- The moves of a batch so far, and the state that they lead to. -/
inductive Run (b : Batch) : List Move → State → Prop where
  | initial : Run b [] .initial
  | next {ms : List Move} {s t : State} {m : Move} :
    Run b ms s → b.step s m = some t → Run b (ms ++ [m]) t

theorem Run.follow {b : Batch} {ms ms' : List Move} {s t : State} (h : Run b ms s) (ht : ms'.foldlM b.step s = some t) :
    Run b (ms ++ ms') t := by
  induction ms' generalizing ms s with
  | nil =>
    cases ht
    rwa [List.append_nil]
  | cons m ms' ih =>
    rw [List.foldlM_cons] at ht
    obtain ⟨u, hu, ht⟩ := Option.bind_eq_some_iff.1 ht
    have hrest := ih (h.next hu) ht
    rwa [List.append_assoc, List.singleton_append] at hrest

theorem Run.reachable {b : Batch} {ms : List Move} {s : State} (h : Run b ms s) : Reachable b s := by
  induction h with
  | initial => exact .initial
  | next _ hs ih => exact .next ih hs

theorem Reachable.exists_run {b : Batch} {s : State} (h : Reachable b s) : ∃ ms, Run b ms s := by
  induction h with
  | initial => exact ⟨[], .initial⟩
  | next _ hs ih =>
    obtain ⟨ms, hms⟩ := ih
    exact ⟨_, .next hms hs⟩

end SetPipeline.Pipeline
