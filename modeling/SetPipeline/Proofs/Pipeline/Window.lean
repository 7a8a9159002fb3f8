import SetPipeline.Proofs.Pipeline.Calls

/-! How much a stream takes on. A flight takes up room under the limit until its response is handed over, and so
does a pull until its item is a flight. There is room for one more whenever an item is asked for, so the room is
never exceeded, and the input is never further ahead of the responses than the limit. -/
namespace SetPipeline.Pipeline

namespace State

/-- The room that the flights and a pull take up. -/
def occupied (s : State) : Nat := s.flights.length + if s.pull.isIdle then 0 else 1

abbrev unfinished (s : State) : List Nat := s.positionsIn fun p => !p.isFinished

/-- How many pulls the input has still to answer. -/
def outstanding (s : State) : Nat := if s.pull.isAsked then 1 else 0

def took (s : State) : List Nat :=
  s.log.filterMap fun
    | .took i => some i
    | _ => none

@[simp] theorem took_halt (s : State) (e : End) : (s.halt e).took = s.took :=
  halt_filterMap s e (fun _ => rfl) rfl rfl

@[simp] theorem outstanding_halt (s : State) (e : End) : (s.halt e).outstanding = 0 := rfl

theorem occupied_setPhase (s : State) (i : Nat) (p : Phase) : (s.setPhase i p).occupied = s.occupied :=
  congrArg (· + if s.pull.isIdle then 0 else 1) (List.length_map _)

theorem occupied_remove_le (s : State) (i : Nat) : (s.remove i).occupied ≤ s.occupied :=
  Nat.add_le_add_right (List.length_filter_le _ _) _

theorem unfinished_add_outstanding_le (s : State) : s.unfinished.length + s.outstanding ≤ s.occupied := by
  have hflights : s.unfinished.length ≤ s.flights.length := by
    rw [unfinished, positionsIn, List.length_map]
    exact List.length_filter_le _ _
  have hpull : s.outstanding ≤ if s.pull.isIdle then 0 else 1 := by
    cases hp : s.pull <;> simp [outstanding, Pull.isAsked, Pull.isIdle, hp]
  exact Nat.add_le_add hflights hpull

theorem running_length_le (s : State) : s.running.length ≤ s.unfinished.length := by
  have hsub : (s.flights.filter fun f => f.phase.isRunning).Sublist
      (s.flights.filter fun f => !f.phase.isFinished) := by
    refine List.monotone_filter_right _ fun f hf => ?_
    cases hp : f.phase <;> simp_all [Phase.isRunning, Phase.isFinished]
  simpa [running, positionsIn] using hsub.length_le

end State

/-- The room taken up and the items taken stay within a limit. -/
structure Windowed (l : Nat) (s : State) : Prop where
  occupied : s.occupied ≤ l
  pulled : s.pulled + s.outstanding ≤ s.answered.length + l

section
variable {b : Batch} {s t : State} {l : Nat}

/-- Whatever was taken and not answered takes up room. -/
theorem Placed.pulled_add_outstanding_le (h : Placed b s) :
    s.pulled + s.outstanding ≤ s.answered.length + s.occupied := by
  have hlen := h.split.length_eq
  have hheld : s.held.length + s.outstanding ≤ if s.pull.isIdle then 0 else 1 := by
    cases hp : s.pull with
    | idle | asked => simp [State.held, State.outstanding, Pull.isAsked, Pull.isIdle, hp]
    | given i o => cases o <;> simp [State.held, State.outstanding, Pull.isAsked, Pull.isIdle, hp]
  simp only [List.length_append, List.length_range, State.positions, List.length_map] at hlen
  unfold State.occupied
  omega

namespace Windowed

theorem of_placed (h : Placed b s) (hs : s.occupied ≤ l) : Windowed l s :=
  ⟨hs, Nat.le_trans h.pulled_add_outstanding_le (Nat.add_le_add_left hs _)⟩

theorem halt (h : Windowed l s) (hp : t.pulled = s.pulled) (hy : t.yielded = s.yielded) (e : End) :
    Windowed l (t.halt e) := by
  refine ⟨Nat.zero_le _, ?_⟩
  have hpulled := h.pulled
  rw [State.outstanding_halt, State.answered, State.yielded_halt, hy]
  show t.pulled + 0 ≤ s.answered.length + l
  omega

theorem initial (l : Nat) : Windowed l .initial := ⟨Nat.zero_le _, Nat.zero_le _⟩

end Windowed

theorem Turned.occupied_le (h : Turned b s t) (hl : ∀ n, b.config.allows n = true → n < l) (hs : s.occupied ≤ l) :
    t.occupied ≤ l := by
  cases h with
  | asks _ _ hallows => exact hl _ hallows
  | waits => exact hs
  | ends => exact Nat.zero_le _

theorem Handed.windowed {round : List Nat} (h : Handed b s round t) (hp : Placed b s)
    (hl : ∀ n, b.config.allows n = true → n < l) (hs : Windowed l s) : Windowed l t := by
  cases h with
  | @yields _ _ i _ _ _ _ hf => exact .of_placed (hp.yields hf _ _) (Nat.le_trans (s.occupied_remove_le i) hs.occupied)
  | fails => exact hs.halt (t := s.remove _) rfl rfl _
  | turns _ ht => exact .of_placed (hp.turned ht) (ht.occupied_le hl hs.occupied)

/-- The item of a pull takes up the room of the pull. -/
theorem Windowed.takes {i : Nat} {c : Command} (h : Windowed l s) (hp : Placed b s)
    (hg : s.pull = .given i (.item (.command c))) :
    Windowed l { s with pull := .idle, flights := s.flights ++ [⟨i, c, .queued⟩] } := by
  refine .of_placed (hp.takes hg) (Nat.le_trans (Nat.le_of_eq ?_) h.occupied)
  simp [State.occupied, hg, Pull.isIdle]

theorem Windowed.takesEnd {i : Nat} (h : Windowed l s) (hp : Placed b s) (hg : s.pull = .given i .done) :
    Windowed l { s with pull := .idle, exhausted := true } := by
  refine .of_placed (hp.takesEnd hg) (Nat.le_trans ?_ h.occupied)
  simp [State.occupied, hg, Pull.isIdle]

theorem Stepped.windowed {m : Move} (h : Stepped b s m t) (hs : Sound b s)
    (hl : ∀ n, b.config.allows n = true → n < l) (hw : Windowed l s) : Windowed l t := by
  have hp := h.placed hs
  have hphase (i : Nat) (p : Phase) : Windowed l (s.setPhase i p) :=
    .of_placed (hp.setPhase i p) (Nat.le_trans (Nat.le_of_eq (s.occupied_setPhase i p)) hw.occupied)
  have hemit {u : State} {es : List Event} (hu : Windowed l u) (hes : (u.emit es).yielded = u.yielded) :
      Windowed l (u.emit es) := ⟨hu.occupied, by rw [State.answered, hes]; exact hu.pulled⟩
  cases h with
  | asksFirst _ ht => exact .of_placed (hp.turned ht) (ht.occupied_le hl hw.occupied)
  | asks _ ht => exact ht.windowed hp hl hw
  | closesFresh => exact ⟨hw.occupied, hw.pulled⟩
  | closes => exact hw.halt rfl rfl _
  | gives ha ho =>
    refine .of_placed (hp.gives ha ho) (Nat.le_trans (Nat.le_of_eq ?_) hw.occupied)
    simp [State.occupied, State.emit, ha, Pull.isIdle]
  | gives_none ha ho hn =>
    refine .of_placed (hp.gives_none ha ho hn) (Nat.le_trans (Nat.le_of_eq ?_) hw.occupied)
    simp [State.occupied, ha, Pull.isIdle]
  | rejects | bars => exact hphase _ _
  | begins => exact hemit (hphase _ _) (by simp [State.yielded, State.emit])
  | settles _ he => exact hemit (hphase _ _) (by rcases he with rfl | rfl <;> simp [State.yielded, State.emit])
  | expires => exact hemit (hphase _ _) (by simp [State.yielded, State.emit])
  | wakes _ ht => exact ht.windowed hp hl hw
  | takes _ hg ht => exact ht.windowed (hp.takes hg) hl (hw.takes hp hg)
  | takesEnd _ hg ht => exact ht.windowed (hp.takesEnd hg) hl (hw.takesEnd hp hg)
  | takesOther => exact hw.halt (t := { s with pull := .idle }) rfl rfl _
  | takesFailure => exact hw.halt (t := { s with pull := .idle }) rfl rfl _

theorem Reachable.windowed (h : Reachable b s) (hl : ∀ n, b.config.allows n = true → n < l) : Windowed l s := by
  induction h with
  | initial => exact .initial l
  | next h hs ih => exact (step_stepped hs).windowed h.sound hl ih

theorem Turned.took (h : Turned b s t) : t.took = s.took := by
  cases h with
  | asks => simp [State.took, State.emit]
  | waits => rfl
  | ends => exact s.took_halt _

theorem Handed.took {round : List Nat} (h : Handed b s round t) : t.took = s.took ∧ t.pulled = s.pulled := by
  cases h with
  | yields => exact ⟨by simp [State.took, State.emit, State.remove], rfl⟩
  | fails => exact ⟨State.took_halt _ _, rfl⟩
  | turns _ ht => exact ⟨ht.took, ht.same.pulled⟩

theorem Stepped.took {m : Move} (h : Stepped b s m t) :
    t.took = s.took ∧ t.pulled = s.pulled ∨ t.took = s.took ++ [s.pulled] ∧ t.pulled = s.pulled + 1 := by
  cases h with
  | asksFirst _ ht => exact .inl ⟨ht.took, ht.same.pulled⟩
  | asks _ ht => exact .inl ht.took
  | closesFresh | gives_none | rejects | bars => exact .inl ⟨rfl, rfl⟩
  | closes | takesOther | takesFailure => exact .inl ⟨State.took_halt _ _, rfl⟩
  | gives => exact .inr ⟨by simp [State.took, State.emit], rfl⟩
  | begins | expires => exact .inl ⟨by simp [State.took, State.emit, State.setPhase], rfl⟩
  | settles _ he => exact .inl ⟨by rcases he with rfl | rfl <;> simp [State.took, State.emit, State.setPhase], rfl⟩
  | wakes _ ht => exact .inl ht.took
  | takes _ _ ht => exact .inl ht.took
  | takesEnd _ _ ht => exact .inl ht.took

theorem Reachable.took (h : Reachable b s) : s.took = List.range s.pulled := by
  induction h with
  | initial => rfl
  | next _ hs ih =>
    rcases (step_stepped hs).took with ⟨ht, hp⟩ | ⟨ht, hp⟩
    · rw [ht, hp, ih]
    · rw [ht, hp, ih, List.range_succ]

end

/-- What can be seen of a stream stays within its limit: the tasks that are not finished together with a pull that
is not answered, the calls that began and are not over, and the items taken ahead of the responses. -/
structure WithinLimit (limit : Int) (s : State) : Prop where
  tasks : ((s.unfinished.length + s.outstanding : Nat) : Int) ≤ limit
  calls : (s.begun.length : Int) ≤ s.returned.length + s.cancelled.length + limit
  taken : ((s.took.length + s.outstanding : Nat) : Int) ≤ s.yielded.length + limit

/-- However a stream has gone, up to and including its end, and whatever its input gives, it is within its limit. -/
theorem Reachable.withinLimit {op : Operation} {source : Source} {limit : Int} {timeout : Option Number} {room : Nat}
    {closing : State → Option Failure} {s : State} (hlimit : 1 ≤ limit)
    (h : Reachable ⟨op, source, ⟨.int limit, timeout⟩, room, closing⟩ s) : WithinLimit limit s := by
  obtain ⟨l, rfl⟩ := Int.eq_ofNat_of_zero_le (Int.le_trans Int.one_nonneg hlimit)
  have hw : Windowed l s := h.windowed fun n hn => Int.ofNat_lt.1 (Number.int_lt_int.1 hn)
  have htasks := Nat.le_trans s.unfinished_add_outstanding_le hw.occupied
  obtain ⟨q, hq⟩ := h.called
  have hcalls := hq.split.length_eq
  have hrunning := s.running_length_le
  have htaken := hw.pulled
  simp only [List.length_append, List.length_map, State.answered] at hcalls htaken
  refine ⟨by omega, by omega, ?_⟩
  rw [h.took, List.length_range]
  omega

def unending : Batch := .quiet .card (fun _ => .item (.command (.key (some [107])))) ⟨.int 2, none⟩ 900

theorem withinLimit_unending : (1 : Int) ≤ 2 ∧ ∃ s, Reachable unending s ∧ s.took = [0, 1, 2] ∧ s.running = [1] ∧
    s.answered = [0] ∧ WithinLimit 2 s := by
  have first := ((Reachable.initial (b := unending)).next (m := .ask) rfl).next (m := .offer) rfl
  have second := ((first.next (m := .wake true []) rfl).next (m := .offer) rfl).next (m := .wake true []) rfl
  have both := (second.next (m := .start) rfl).next (m := .start) rfl
  have answered := (both.next (m := .settle 0 (.ok (.int 1))) rfl).next (m := .wake false [0]) rfl
  have third := (answered.next (m := .ask) rfl).next (m := .offer) rfl
  exact ⟨by decide, _, third, rfl, rfl, rfl, third.withinLimit (by decide)⟩

end SetPipeline.Pipeline
