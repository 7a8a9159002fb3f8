import SetPipeline.Proofs.Pipeline.Correlation
import SetPipeline.Proofs.Pipeline.Rounds
import SetPipeline.Proofs.Pipeline.Window

/-! How a loop goes on. A wait is for every flight and for the pull, whichever is finished first, and while it lasts
there is a pull, or the input is exhausted, or there is no room for another command. So neither a slow input nor a
slow command holds up the others, there is always something to wait for until everything is answered, and the waits
come to an end. -/
namespace SetPipeline.Pipeline

section
variable {b : Batch} {s t : State} {m : Move} {round : List Nat}

/-- A loop that waits without a pull has no more to ask for, or no room for it. -/
def Filled (b : Batch) (s : State) : Prop :=
  s.stage = .waiting → s.pull = .idle → s.exhausted = true ∨ b.config.allows s.flights.length = false

theorem Filled.of_stage (h : s.stage ≠ .waiting) : Filled b s := fun hs => absurd hs h

theorem Filled.of_pull (h : s.pull ≠ .idle) : Filled b s := fun _ hp => absurd hp h

theorem Turned.filled (h : Turned b s t) : Filled b t := by
  cases h with
  | asks => exact .of_pull (by simp)
  | waits _ hfull => exact fun _ => hfull
  | ends => exact .of_stage (by simp [State.halt, State.emit])

theorem Handed.filled (h : Handed b s round t) : Filled b t := by
  cases h with
  | yields | fails => exact .of_stage (by simp [State.halt, State.emit])
  | turns _ ht => exact ht.filled

/-- The calls and the pull go on beside the wait, and they neither give nor take room. -/
theorem Stepped.filled (h : Stepped b s m t) (hs : Filled b s) : Filled b t := by
  have hphase (i : Nat) (p : Phase) : Filled b (s.setPhase i p) := fun hst hp => by
    simpa [State.setPhase] using hs hst hp
  cases h with
  | asksFirst _ ht => exact ht.filled
  | asks _ ht => exact ht.filled
  | closesFresh | closes | takesOther | takesFailure => exact .of_stage (by simp [State.halt, State.emit])
  | gives | gives_none => exact .of_pull (by simp)
  | rejects | bars | begins | settles | expires => exact hphase _ _
  | wakes _ ht => exact ht.filled
  | takes _ _ ht => exact ht.filled
  | takesEnd _ _ ht => exact ht.filled

theorem Reachable.filled (h : Reachable b s) : Filled b s := by
  induction h with
  | initial => exact .of_stage (by simp [State.initial])
  | next _ hs ih => exact (step_stepped hs).filled ih

theorem Staged.of_waiting (h : Staged b s) (hs : s.stage = .waiting) : s.flights ≠ [] ∨ s.pull ≠ .idle := by
  rwa [Staged, hs] at h

theorem State.waits_pos {n : Nat} (hs : s.stage = .waiting) (h : s.flights ≠ [] ∨ s.pull ≠ .idle) :
    0 < s.waits n := by
  have hrest : s.waits n = s.rest n := by simp [State.waits, hs]
  rw [hrest, State.rest]
  rcases h with h | h
  · have hlen := List.length_pos_iff.2 h
    omega
  · have hpull : 0 < s.pull.waits s.exhausted := by
      cases hp : s.pull with
      | idle => exact absurd hp h
      | asked => exact Nat.one_pos
      | given i o => cases o <;> simp [Pull.waits]
    omega

end

/-- How a loop over some commands under a limit goes on. -/
structure Paced (b : Batch) (cs : List Command) (limit : Int) (ms : List Move) (s : State) : Prop where
  /-- It waits for all flights and for the pull: any of them that are finished end the wait, alone or together. -/
  awaits : ∀ takePull round, (b.step s (.wake takePull round)).isSome ↔
    Wakes s takePull round ∧ (takePull = true → s.pull.isGiven = true)
  /-- It waits for something. -/
  busy : s.stage = .waiting → s.flights ≠ [] ∨ s.pull ≠ .idle
  /-- There is a pull, or nothing more to ask for, or no room. -/
  full : s.stage = .waiting → s.pull ≠ .idle ∨ s.exhausted = true ∨ (s.flights.length : Int) = limit
  /-- With nothing to wait for it is over, and then the input is exhausted and everything is answered. -/
  through : s.ending? = some .exhausted →
    s.exhausted = true ∧ s.pulled = cs.length ∧ s.answered.Perm (List.range cs.length)
  /-- The waits that are over. -/
  waits : ms.countP (·.isWake) ≤ 2 * cs.length + 1
  /-- There is one more that goes on. -/
  waiting : s.stage = .waiting → ms.countP (·.isWake) < 2 * cs.length + 1
  bounded : (∀ m ∈ ms, m ≠ .close) → ms.length ≤ 6 * cs.length + 3
  /-- Where no move is left and nothing failed it has gone through, with a response for each command, and its consumer
  sees that unless closing the input fails. -/
  exits : (∀ m ∈ ms, m ≠ .close) → (∀ m, m ≠ .close → b.step s m = none) → (∀ f, ¬Cause b (outcomeOf ms) f) →
    s.ending? = some .exhausted ∧ s.yielded.length = cs.length ∧
      (b.masking? s = none → b.exit? s = some .exhausted)

section
variable {b : Batch} {cs : List Command} {ms : List Move} {s : State}

theorem Run.exhausted_of_stuck (h : Run b ms s) (hms : ∀ m ∈ ms, m ≠ .close)
    (hstuck : ∀ m, m ≠ .close → b.step s m = none) (hnone : ∀ f, ¬Cause b (outcomeOf ms) f) :
    s.ending? = some .exhausted := by
  rcases h.over_of_stuck hms fun m hm => hstuck m hm.ne_close with he | ⟨f, -, hf⟩
  · exact he
  · exact absurd hf (hnone f)

/-- Under any limit a loop over any commands goes on like this, in whatever order its calls end. -/
theorem Run.paced {op : Operation} {limit : Int} {timeout : Option Number} {room : Nat}
    {closing : State → Option Failure} (hlimit : 1 ≤ limit)
    (h : Run ⟨op, ofCommands cs, ⟨.int limit, timeout⟩, room, closing⟩ ms s) :
    Paced ⟨op, ofCommands cs, ⟨.int limit, timeout⟩, room, closing⟩ cs limit ms s := by
  have hs := h.reachable.sound
  have hallows := allows_zero hlimit timeout
  have hwaits := h.waits_le (ofCommands_within cs)
  have hthrough (he : s.ending? = some .exhausted) := hs.through h.accounted rfl hallows he
  have hanswered (he : s.ending? = some .exhausted) : s.answered.Perm (List.range cs.length) :=
    (hthrough he).answered (hs.placed (.of_exhausted he))
  constructor
  case awaits => exact fun _ _ => wake_isSome_iff
  case busy => exact hs.staged.of_waiting
  case full =>
    intro hst
    by_cases hp : s.pull = .idle
    · right
      refine (h.reachable.filled hst hp).imp_right fun hfull => ?_
      obtain ⟨l, rfl⟩ := Int.eq_ofNat_of_zero_le (Int.le_trans Int.one_nonneg hlimit)
      have hroom : s.occupied ≤ l := (h.reachable.windowed fun n hn => Int.ofNat_lt.1 (Number.int_lt_int.1 hn)).occupied
      have hno : ¬(s.flights.length : Int) < l := fun hlt => by
        rw [Config.allows, Number.int_lt_int.2 hlt] at hfull
        cases hfull
      simp only [State.occupied, hp, Pull.isIdle, if_true] at hroom
      omega
    · exact .inl hp
  case through => exact fun he => ⟨(hs.exhausted hallows he).2.2, (hthrough he).pulled, hanswered he⟩
  case waits => omega
  case waiting =>
    intro hst
    have hpos := State.waits_pos (n := cs.length) hst (hs.staged.of_waiting hst)
    omega
  case bounded =>
    intro hms
    have hlen := h.length_add_work_le (ofCommands_within cs) hms
    omega
  case exits =>
    intro hms hstuck hnone
    have he := h.exhausted_of_stuck hms hstuck hnone
    refine ⟨he, ?_, fun hmasking => (exit?_eq_exhausted hmasking).2 he⟩
    simpa [State.answered] using (hanswered he).length_eq

end

def pair : List Command := [.key (some [107]), .key none]

/-- Two waits for each of them, and one for the end of the input. -/
def pairMoves : List Move :=
  [.ask, .offer, .wake true [], .start, .settle 0 (.ok (.int 1)), .wake false [0], .ask, .offer, .wake true [], .start,
    .wake false [1], .ask, .offer, .wake true []]

theorem paced_pair : (1 : Int) ≤ 1 ∧ ∃ s, Run (.quiet .card (ofCommands pair) ⟨.int 1, none⟩ 900) pairMoves s ∧
    pairMoves.countP (·.isWake) = 5 ∧ s.answered = [0, 1] ∧ s.ending? = some .exhausted ∧
      Paced (.quiet .card (ofCommands pair) ⟨.int 1, none⟩ 900) pair 1 pairMoves s := by
  have exists_run : ∃ s, Run (.quiet .card (ofCommands pair) ⟨.int 1, none⟩ 900) pairMoves s ∧ s.answered = [0, 1] ∧
      s.ending? = some .exhausted := by
    have begun := (((Run.initial (b := .quiet .card (ofCommands pair) ⟨.int 1, none⟩ 900)).next (m := .ask) rfl).next
      (m := .offer) rfl).next (m := .wake true []) rfl
    have first := ((begun.next (m := .start) rfl).next (m := .settle 0 (.ok (.int 1))) rfl).next
      (m := .wake false [0]) rfl
    have taken := ((first.next (m := .ask) rfl).next (m := .offer) rfl).next (m := .wake true []) rfl
    have second := (taken.next (m := .start) rfl).next (m := .wake false [1]) rfl
    have last := ((second.next (m := .ask) rfl).next (m := .offer) rfl).next (m := .wake true []) rfl
    exact ⟨_, last, rfl, rfl⟩
  obtain ⟨s, hrun, hanswered, he⟩ := exists_run
  exact ⟨by decide, s, hrun, rfl, hanswered, he, hrun.paced (by decide)⟩

end SetPipeline.Pipeline
