import SetPipeline.Proofs.Pipeline.Ending

/-! What a stream hands over, round by round. A wait gives a round of finished flights, and their responses are
handed over one round after the other, each in the order in which the wait gave it. A stream that fails has handed
over every round before its last one, and of that one what comes before the failure; where the input fails, that
is nothing. -/
namespace SetPipeline.Pipeline

def Move.round? : Move → Option (List Nat)
  | .wake _ round => some round
  | _ => none

/-- The moves beside the loop: the input answers, and calls begin and end. -/
def Move.isAside : Move → Bool
  | .offer | .start | .settle .. | .expire _ => true
  | .ask | .close | .wake .. => false

theorem Move.round?_of_isAside {m : Move} (h : m.isAside = true) : m.round? = none := by
  cases m with
  | wake => cases h
  | _ => rfl

def roundsOf (ms : List Move) : List (List Nat) := ms.filterMap Move.round?

theorem roundsOf_append_of_none {ms : List Move} {m : Move} (h : m.round? = none) :
    roundsOf (ms ++ [m]) = roundsOf ms := by
  simp [roundsOf, List.filterMap_append, h]

theorem roundsOf_append_wake (ms : List Move) (takePull : Bool) (round : List Nat) :
    roundsOf (ms ++ [.wake takePull round]) = roundsOf ms ++ [round] := by
  simp [roundsOf, List.filterMap_append, Move.round?]

namespace State.HasFinished
variable {s : State} {i j : Nat}

theorem mem_positions (h : s.HasFinished i) : i ∈ s.positions := by
  obtain ⟨f, hf, -⟩ := (Option.any_eq_true _ _).1 h
  obtain ⟨hmem, rfl⟩ := mem_of_flight? hf
  exact List.mem_map_of_mem hmem

theorem congr {t : State} (h : s.HasFinished i) (ht : t.flight? i = s.flight? i) : t.HasFinished i := by
  unfold HasFinished
  rw [ht]
  exact h

theorem setPhase (h : s.HasFinished i) {p : Phase} (hp : i = j → p.isFinished = true) :
    (s.setPhase j p).HasFinished i := by
  by_cases hij : i = j
  · obtain ⟨f, hf, -⟩ := (Option.any_eq_true _ _).1 h
    have hpos : f.position = j := (mem_of_flight? hf).2.trans hij
    unfold HasFinished
    rw [flight?_setPhase, hf]
    simp [hpos, hp hij]
  · exact h.congr (flight?_setPhase_of_ne hij)

theorem takes (h : s.HasFinished i) (f : Flight) (p : Pull) :
    State.HasFinished { s with pull := p, flights := s.flights ++ [f] } i := by
  obtain ⟨g, hg, hfin⟩ := (Option.any_eq_true _ _).1 h
  have hfind : s.flights.find? (·.position == i) = some g := hg
  simp [HasFinished, flight?, List.find?_append, hfind, hfin]

end State.HasFinished

section
variable {b : Batch} {s t : State} {m : Move} {i : Nat} {round : List Nat}

theorem Handed.hasFinished (h : Handed b s round t) (hi : s.HasFinished i) (ht : t.ending? = none) :
    t.HasFinished i ∨ i ∈ t.answered := by
  cases h with
  | @yields _ _ j =>
    by_cases hij : i = j
    · rw [State.answered_yields, hij]
      exact .inr (List.mem_append_right _ (List.mem_singleton_self j))
    · exact .inl (hi.congr (State.flight?_remove_of_ne hij))
  | fails => cases ht
  | turns _ ht => exact .inl (hi.congr ht.flight?)

/-- What is finished stays so until its response is handed over, as long as nothing is broken off. -/
theorem Stepped.hasFinished (h : Stepped b s m t) (hs : Sound b s) (hi : s.HasFinished i)
    (ht : t.ending? = none) : t.HasFinished i ∨ i ∈ t.answered := by
  have hp := h.placed hs
  cases h with
  | asksFirst _ h => exact .inl (hi.congr h.flight?)
  | asks _ h => exact h.hasFinished hi ht
  | closesFresh | closes | takesOther | takesFailure => cases ht
  | gives | gives_none => exact .inl hi
  | rejects | bars => exact .inl (hi.setPhase fun _ => rfl)
  | @begins f hf =>
    refine .inl (hi.setPhase fun hij => ?_)
    -- the flight that begins was queued, so it is not the finished one
    have hq : f.phase = .queued := State.phase_of_find?_queued hf
    rw [State.HasFinished, hij, hp.flight?_eq (List.mem_of_find?_eq_some hf), Option.any_some, hq] at hi
    cases hi
  | settles | expires => exact .inl (hi.setPhase fun _ => rfl)
  | wakes _ h => exact h.hasFinished hi ht
  | takes _ _ h => exact h.hasFinished (hi.takes _ _) ht
  | takesEnd _ _ h => exact h.hasFinished hi ht

end

/-- A move beside the loop leaves the loop where it stands, and hands nothing over. -/
theorem Stepped.aside {b : Batch} {s t : State} {m : Move} (h : Stepped b s m t) (hm : m.isAside = true) :
    t.stage = s.stage ∧ t.answered = s.answered := by
  cases h with
  | asksFirst | asks | closesFresh | closes | wakes | takes | takesEnd | takesOther | takesFailure => cases hm
  | gives_none | rejects | bars => exact ⟨rfl, rfl⟩
  | gives | begins | expires => exact ⟨rfl, by simp [State.answered, State.yielded, State.emit, State.setPhase]⟩
  | settles _ he =>
    rcases he with rfl | rfl <;>
      exact ⟨rfl, by simp [State.answered, State.yielded, State.emit, State.setPhase]⟩

/-- The rounds of a run are what was handed over, and after it what is still to come of the last one. -/
structure HandedOver (ms : List Move) (s : State) (rest : List Nat) : Prop where
  split : (roundsOf ms).flatten = s.answered ++ rest
  once : (s.answered ++ rest).Nodup
  last : rest <:+ (roundsOf ms).getLastD []

def Offer.failure? : Offer → Option Failure
  | item (.command _) | done => none
  | item d => some (.misuse (.notCommand d.typeName))
  | failure f => some f

/-- Where a failure cuts the last round in two: at the call that failed, or before everything if it was the input
that failed. -/
inductive Cut (b : Batch) (ms : List Move) (f : Failure) : List Nat → List Nat → Prop where
  | call {i : Nat} {c : Command} {handed rest : List Nat} : b.source i = .item (.command c) →
    b.conclusion c (outcomeOf ms i) = some (.error f) → Cut b ms f handed (i :: rest)
  | input {i : Nat} {round : List Nat} : (b.source i).failure? = some f → Cut b ms f [] round

/-- What a stream that failed has handed over: its rounds up to the failure. The rest of the last one is lost. -/
structure Broken (b : Batch) (ms : List Move) (s : State) (f : Failure) (earlier : List (List Nat))
    (handed lost : List Nat) : Prop where
  rounds : roundsOf ms = earlier ++ [handed ++ lost]
  answered : s.answered = earlier.flatten ++ handed
  once : (s.answered ++ lost).Nodup
  cut : Cut b ms f handed lost

/-- How far the rounds of a run are handed over at each stage of the loop. -/
def RoundByRound (b : Batch) (ms : List Move) (s : State) : Prop :=
  match s.stage with
  | .fresh | .waiting | .ended .exhausted => HandedOver ms s []
  | .handing rest => HandedOver ms s rest ∧ ∀ i ∈ rest, s.HasFinished i
  | .ended .closed => ∃ rest, HandedOver ms s rest
  | .ended (.failed f) => ∃ earlier handed lost, Broken b ms s f earlier handed lost

namespace RoundByRound

variable {b : Batch} {ms : List Move} {s : State}

theorem fresh (h : RoundByRound b ms s) (hs : s.stage = .fresh) : HandedOver ms s [] := by
  unfold RoundByRound at h
  rwa [hs] at h

theorem waiting (h : RoundByRound b ms s) (hs : s.stage = .waiting) : HandedOver ms s [] := by
  unfold RoundByRound at h
  rwa [hs] at h

theorem handing {rest : List Nat} (h : RoundByRound b ms s) (hs : s.stage = .handing rest) :
    HandedOver ms s rest ∧ ∀ i ∈ rest, s.HasFinished i := by
  unfold RoundByRound at h
  rwa [hs] at h

theorem failed {f : Failure} (h : RoundByRound b ms s) (hs : s.stage = .ended (.failed f)) :
    ∃ earlier handed lost, Broken b ms s f earlier handed lost := by
  unfold RoundByRound at h
  rwa [hs] at h

end RoundByRound

namespace HandedOver

variable {b : Batch} {ms : List Move} {s t : State} {m : Move} {rest : List Nat}

theorem congr (h : HandedOver ms s rest) (hm : m.round? = none) (ht : t.answered = s.answered) :
    HandedOver (ms ++ [m]) t rest := by
  refine ⟨?_, ?_, ?_⟩
  · rw [roundsOf_append_of_none hm, ht]
    exact h.split
  · rw [ht]
    exact h.once
  · rw [roundsOf_append_of_none hm]
    exact h.last

theorem of_answered (h : HandedOver ms s rest) (ht : t.answered = s.answered) : HandedOver ms t rest :=
  ⟨ht ▸ h.split, ht ▸ h.once, h.last⟩

theorem initial : HandedOver [] .initial [] := ⟨rfl, .nil, List.suffix_rfl⟩

theorem wake (h : HandedOver ms s []) (hp : Placed b s) {takePull : Bool} {round : List Nat}
    (hw : Wakes s takePull round) : HandedOver (ms ++ [.wake takePull round]) s round := by
  have hsplit := h.split
  rw [List.append_nil] at hsplit
  refine ⟨?_, ?_, ?_⟩
  · simp [roundsOf_append_wake, hsplit]
  · have hanswered := (List.nodup_append.1 (List.nodup_append.1 hp.nodup).1).1
    refine List.nodup_append.2 ⟨hanswered, hw.once, ?_⟩
    rintro i hi j hj rfl
    exact hp.not_answered (hw.finished i hj).mem_positions hi
  · have hlast : (roundsOf (ms ++ [.wake takePull round])).getLastD [] = round := by
      rw [roundsOf_append_wake, List.getLastD_concat]
    exact ⟨[], hlast.symm⟩

theorem yields {i : Nat} (h : HandedOver ms s (i :: rest)) (ht : t.answered = s.answered ++ [i]) :
    HandedOver ms t rest := by
  have happend : s.answered ++ i :: rest = t.answered ++ rest := by simp [ht]
  exact ⟨happend ▸ h.split, happend ▸ h.once, (List.suffix_cons i rest).trans h.last⟩

theorem fails {i : Nat} {c : Command} {f : Failure} (h : HandedOver ms s (i :: rest)) (ht : t.answered = s.answered)
    (hi : b.source i = .item (.command c)) (hc : b.conclusion c (outcomeOf ms i) = some (.error f)) :
    ∃ earlier handed lost, Broken b ms t f earlier handed lost := by
  obtain ⟨handed, hround⟩ := h.last
  have hne : roundsOf ms ≠ [] := fun hnil => by simp [hnil] at hround
  have hlast : (roundsOf ms).getLastD [] = (roundsOf ms).getLast hne := by
    rw [List.getLastD_eq_getLast?, List.getLast?_eq_some_getLast hne, Option.getD_some]
  have hrounds : roundsOf ms = (roundsOf ms).dropLast ++ [handed ++ i :: rest] := by
    rw [hround, hlast, List.dropLast_append_getLast]
  have hsplit : ((roundsOf ms).dropLast.flatten ++ handed) ++ i :: rest = s.answered ++ i :: rest := by
    rw [← h.split]
    conv_rhs => rw [hrounds]
    simp
  exact ⟨_, handed, i :: rest, hrounds, ht.trans (List.append_cancel_right hsplit).symm, ht ▸ h.once, .call hi hc⟩

end HandedOver

theorem Broken.handedOver {b : Batch} {ms : List Move} {s : State} {f : Failure} {earlier : List (List Nat)}
    {handed lost : List Nat} (h : Broken b ms s f earlier handed lost) : HandedOver ms s lost := by
  refine ⟨?_, h.once, ?_⟩
  · simp [h.rounds, h.answered]
  · rw [h.rounds, List.getLastD_concat]
    exact List.suffix_append handed lost

section
variable {b : Batch} {ms : List Move} {s t : State} {m : Move} {round : List Nat}

/-- Every flight of a round is finished, so nothing of it is passed over. -/
theorem Handed.roundByRound (h : Handed b s round t) (hp : Placed b s) (ha : Accounted b (outcomeOf ms) s)
    (hr : HandedOver ms s round) (hf : ∀ i ∈ round, s.HasFinished i) : RoundByRound b ms t := by
  have hnil {before rest : List Nat} (he : round = before ++ rest) (hb : ∀ j ∈ before, ¬s.HasFinished j) :
      before = [] :=
    List.eq_nil_iff_forall_not_mem.2 fun j hj => hb j hj (hf j (he ▸ List.mem_append_left _ hj))
  cases h with
  | @yields before rest i c r he hb hi =>
    obtain rfl := hnil he hb
    subst he
    refine ⟨hr.yields (State.answered_yields s i r _), fun j hj => ?_⟩
    have hne : j ≠ i := fun hji => (List.nodup_cons.1 (List.nodup_append.1 hr.once).2.1).1 (hji ▸ hj)
    exact (hf j (List.mem_cons_of_mem i hj)).congr (State.flight?_remove_of_ne hne)
  | @fails before rest i c f he hb hi =>
    obtain rfl := hnil he hb
    subst he
    obtain ⟨hmem, -⟩ := State.mem_of_flight? hi
    exact hr.fails (State.answered_halt _ _) (hp.commands _ hmem) (ha.flights _ hmem)
  | turns hb ht =>
    obtain rfl : round = [] := hnil (List.append_nil round).symm hb
    have hleft := hr.of_answered ht.answered
    cases ht with
    | asks | waits | ends => exact hleft

theorem RoundByRound.input {i : Nat} {f : Failure} (h : HandedOver ms s [])
    (hw : HandedOver (ms ++ [.wake true round]) s round) (hi : (b.source i).failure? = some f)
    (ht : t.answered = s.answered) (he : t.stage = .ended (.failed f)) :
    RoundByRound b (ms ++ [.wake true round]) t := by
  have hsplit := h.split
  rw [List.append_nil] at hsplit
  unfold RoundByRound
  rw [he]
  refine ⟨roundsOf ms, [], round, roundsOf_append_wake ms true round, ?_, ht ▸ hw.once, .input hi⟩
  rw [ht, hsplit, List.append_nil]

theorem RoundByRound.aside (hr : RoundByRound b ms s) (h : Stepped b s m t) (hs : Sound b s)
    (haside : m.isAside = true) : RoundByRound b (ms ++ [m]) t := by
  obtain ⟨hst, ha⟩ := h.aside haside
  have hm := Move.round?_of_isAside haside
  have hgo := h.ending?_eq_none hs.staged
  have hgo' : t.ending? = none := by rw [State.ending?, hst]; exact hgo
  unfold RoundByRound
  rw [hst]
  cases hstage : s.stage with
  | fresh => exact (hr.fresh hstage).congr hm ha
  | waiting => exact (hr.waiting hstage).congr hm ha
  | handing rest =>
    obtain ⟨hover, hfinished⟩ := hr.handing hstage
    refine ⟨hover.congr hm ha, fun i hi => ?_⟩
    refine (h.hasFinished hs (hfinished i hi) hgo').resolve_right fun hans => ?_
    exact (List.nodup_append.1 hover.once).2.2 i (ha ▸ hans) i hi rfl
  | ended e => simp [State.ending?, hstage] at hgo

theorem Stepped.roundByRound (h : Stepped b s m t) (hs : Sound b s) (ha : Accounted b (outcomeOf ms) s)
    (hr : RoundByRound b ms s) : RoundByRound b (ms ++ [m]) t := by
  have hp := h.placed hs
  have hquiet (hm : ∀ i, m.outcome? i = none) : Accounted b (outcomeOf (ms ++ [m])) s := by
    rw [show outcomeOf (ms ++ [m]) = outcomeOf ms from funext fun i => outcomeOf_append_of_none (hm i)]
    exact ha
  have hstep := h
  cases h with
  | asksFirst hst ht =>
    have hleft : HandedOver (ms ++ [.ask]) t [] := (hr.fresh hst).congr rfl ht.answered
    cases ht with
    | asks | waits | ends => exact hleft
  | asks hst ht =>
    obtain ⟨hover, hfinished⟩ := hr.handing hst
    exact ht.roundByRound hp (hquiet fun _ => rfl) (hover.congr rfl rfl) hfinished
  | closesFresh hst => exact ⟨[], (hr.fresh hst).congr rfl rfl⟩
  | closes hgo hst =>
    have hany : ∃ rest, HandedOver ms s rest := by
      cases hstage : s.stage with
      | fresh => exact absurd hstage hst
      | waiting => exact ⟨[], hr.waiting hstage⟩
      | handing rest => exact ⟨rest, (hr.handing hstage).1⟩
      | ended e => simp [State.ending?, hstage] at hgo
    obtain ⟨rest, hrest⟩ := hany
    exact ⟨rest, hrest.congr rfl (State.answered_halt _ _)⟩
  | gives | gives_none | rejects | bars | begins | settles | expires => exact hr.aside hstep hs rfl
  | wakes hw ht =>
    exact ht.roundByRound hp (hquiet fun _ => rfl) ((hr.waiting hw.waiting).wake hp hw) hw.finished
  | takes hw hg ht =>
    have hover := (hr.waiting hw.waiting).wake hp hw
    exact ht.roundByRound (hp.takes hg) ((hquiet fun _ => rfl).takes hg) (hover.of_answered rfl) fun i hi =>
      (hw.finished i hi).takes _ _
  | takesEnd hw hg ht =>
    have hover := (hr.waiting hw.waiting).wake hp hw
    exact ht.roundByRound (hp.takesEnd hg) (hquiet fun _ => rfl).takesEnd (hover.of_answered rfl) hw.finished
  | @takesOther _ i d hw hg hd =>
    have hover := hr.waiting hw.waiting
    refine RoundByRound.input (i := i) hover (hover.wake hp hw) ?_ (State.answered_halt _ _) rfl
    rw [(hp.given _ _ hg).1]
    cases d with
    | command c => exact absurd rfl (hd c)
    | _ => rfl
  | @takesFailure _ i f hw hg =>
    have hover := hr.waiting hw.waiting
    refine RoundByRound.input (i := i) hover (hover.wake hp hw) ?_ (State.answered_halt _ _) rfl
    rw [(hp.given _ _ hg).1]
    rfl

theorem Run.roundByRound (h : Run b ms s) : RoundByRound b ms s := by
  induction h with
  | initial => exact HandedOver.initial
  | next h hs ih => exact (step_stepped hs).roundByRound h.reachable.sound h.accounted ih

/-- The rounds of a run never hold a flight twice, and what was handed over is the front of them. -/
theorem Run.exists_handedOver (h : Run b ms s) : ∃ rest, HandedOver ms s rest := by
  have hr := h.roundByRound
  unfold RoundByRound at hr
  split at hr
  · exact ⟨[], hr⟩
  · exact ⟨[], hr⟩
  · exact ⟨[], hr⟩
  · exact ⟨_, hr.1⟩
  · exact hr
  · obtain ⟨earlier, handed, lost, hbroken⟩ := hr
    exact ⟨lost, hbroken.handedOver⟩

theorem Run.broken {f : Failure} (h : Run b ms s) (hf : s.ending? = some (.failed f)) :
    ∃ earlier handed lost, Broken b ms s f earlier handed lost := by
  apply h.roundByRound.failed
  unfold State.ending? at hf
  split at hf
  · next hst => rw [hst, Option.some.inj hf]
  · cases hf

end

/-- The call for a position ended in a value or in a refusal. -/
def IsCompleted (ms : List Move) (i : Nat) : Prop :=
  (∃ d, outcomeOf ms i = some (.ok d)) ∨ ∃ message code, outcomeOf ms i = some (.error (.refused message code))

/-- Whatever was completed in some round has its response handed over. -/
def DeliversCompleted (ms : List Move) (s : State) : Prop :=
  ∀ i ∈ (roundsOf ms).flatten, IsCompleted ms i → i ∈ s.answered

/-- A stream that failed has handed over what was completed just where the failure cut nothing completed off its
last round. -/
theorem Run.deliversCompleted_iff {b : Batch} {ms : List Move} {s : State} {f : Failure} (h : Run b ms s)
    (hf : s.ending? = some (.failed f)) :
    ∃ earlier handed lost, Broken b ms s f earlier handed lost ∧
      (DeliversCompleted ms s ↔ ∀ i ∈ lost, ¬IsCompleted ms i) := by
  obtain ⟨earlier, handed, lost, hbroken⟩ := h.broken hf
  have hsplit := hbroken.handedOver.split
  refine ⟨earlier, handed, lost, hbroken, fun hall i hi hc => ?_, fun hnone i hi hc => ?_⟩
  · have hans : i ∈ s.answered := hall i (hsplit ▸ List.mem_append_right _ hi) hc
    exact (List.nodup_append.1 hbroken.once).2.2 i hans i hi rfl
  · rw [hsplit] at hi
    exact (List.mem_append.1 hi).resolve_right fun hl => hnone i hl hc

/-- An input of any elements, which fails after them or is done. -/
def ofElements (ds : List Datum) (raised : Option Failure) : Source := fun i =>
  match ds[i]? with
  | some d => .item d
  | none =>
    match raised with
    | some f => .failure f
    | none => .done

def stray : Batch := .quiet .card (ofElements [.command (.key (some [107])), .none] none) ⟨.int 2, none⟩ 900

/-- The call of the command and the pull of what is no command are over in one round. -/
def strayMoves : List Move :=
  [.ask, .offer, .wake true [], .start, .settle 0 (.ok (.int 1)), .offer, .wake true [0]]

theorem exists_run_stray : ∃ s, Run stray strayMoves s ∧ s.ending? = some (.failed (.misuse (.notCommand "NoneType"))) ∧
    s.answered = [] := by
  have pulled := (((Run.initial (b := stray)).next (m := .ask) rfl).next (m := .offer) rfl).next (m := .wake true []) rfl
  have completed := (pulled.next (m := .start) rfl).next (m := .settle 0 (.ok (.int 1))) rfl
  exact ⟨_, (completed.next (m := .offer) rfl).next (m := .wake true [0]) rfl, rfl, rfl⟩

theorem not_deliversCompleted_stray : ∃ ms s, Run stray ms s ∧
    s.ending? = some (.failed (.misuse (.notCommand "NoneType"))) ∧ ¬DeliversCompleted ms s := by
  obtain ⟨s, hrun, he, ha⟩ := exists_run_stray
  refine ⟨strayMoves, s, hrun, he, fun hall => ?_⟩
  have hans : 0 ∈ s.answered := hall 0 (by decide) (.inl ⟨.int 1, rfl⟩)
  rw [ha] at hans
  cases hans

theorem deliversCompleted_iff_stray : ∃ s earlier handed lost,
    s.ending? = some (.failed (.misuse (.notCommand "NoneType"))) ∧
    Broken stray strayMoves s (.misuse (.notCommand "NoneType")) earlier handed lost ∧
      (DeliversCompleted strayMoves s ↔ ∀ i ∈ lost, ¬IsCompleted strayMoves i) := by
  obtain ⟨s, hrun, he, -⟩ := exists_run_stray
  obtain ⟨earlier, handed, lost, h⟩ := hrun.deliversCompleted_iff he
  exact ⟨s, earlier, handed, lost, he, h⟩

end SetPipeline.Pipeline
