import Mathlib.Algebra.Order.BigOperators.Group.List
import Mathlib.Algebra.Order.Group.Nat
import Mathlib.Algebra.GroupWithZero.Nat
import SetPipeline.Proofs.Pipeline.Outcome

/-! Every move but closing uses up work, so a stream over a finite input comes to an end; and as long as it has
not ended there is a move to make. -/
namespace SetPipeline.Pipeline

def Phase.work : Phase → Nat
  | queued => 4
  | running => 3
  | finished _ => 2

def Pull.work (exhausted : Bool) : Pull → Nat
  | idle => if exhausted then 0 else 2
  | asked => 2
  | given _ (.item _) => 7
  | given _ .done | given _ (.failure _) => 1

namespace State

/-- The work left in an input of `n` items and in everything taken from it: six moves for an item, and two for
the end of the input. -/
def load (n : Nat) (s : State) : Nat :=
  6 * (n - s.pulled) + s.pull.work s.exhausted + (s.flights.map (·.phase.work)).sum

def work (n : Nat) (s : State) : Nat :=
  match s.stage with
  | .fresh | .handing _ => s.load n + 1
  | .waiting => s.load n
  | .ended _ => 0

theorem work_emit (n : Nat) (s : State) (es : List Event) : (s.emit es).work n = s.work n := rfl

theorem work_initial (n : Nat) : State.initial.work n = 6 * n + 3 := rfl

theorem load_le_work {n : Nat} {s : State} (h : s.ending? = none) : s.load n ≤ s.work n := by
  unfold ending? at h
  unfold work
  split <;> simp_all

theorem sum_filter_add_le {fs : List Flight} {f : Flight} {keep : Flight → Bool} (hf : f ∈ fs)
    (hk : keep f = false) :
    ((fs.filter keep).map (·.phase.work)).sum + f.phase.work ≤ (fs.map (·.phase.work)).sum := by
  induction fs with
  | nil => cases hf
  | cons g fs ih =>
    rcases List.mem_cons.1 hf with rfl | hf
    · have hsub : ((fs.filter keep).map (·.phase.work)).sum ≤ (fs.map (·.phase.work)).sum :=
        ((List.filter_sublist).map _).sum_le_sum fun _ _ => Nat.zero_le _
      rw [List.filter_cons_of_neg (by simp [hk]), List.map_cons, List.sum_cons]
      omega
    · have hrest := ih hf
      cases hg : keep g with
      | true =>
        rw [List.filter_cons_of_pos hg]
        simp only [List.map_cons, List.sum_cons]
        omega
      | false =>
        rw [List.filter_cons_of_neg (by simp [hg]), List.map_cons, List.sum_cons]
        omega

theorem load_remove {n i : Nat} {s : State} {f : Flight} (hf : s.flight? i = some f) :
    (s.remove i).load n + f.phase.work ≤ s.load n := by
  obtain ⟨hmem, hi⟩ := mem_of_flight? hf
  have hsum : (((s.remove i).flights).map (·.phase.work)).sum + f.phase.work ≤ (s.flights.map (·.phase.work)).sum :=
    sum_filter_add_le hmem (by simp [hi])
  simp only [load, remove] at hsum ⊢
  omega

theorem load_setPhase {n : Nat} {s : State} {f : Flight} {p : Phase} (hn : s.positions.Nodup)
    (hf : f ∈ s.flights) (hp : p.work < f.phase.work) : (s.setPhase f.position p).load n < s.load n := by
  have hsum : ((s.setPhase f.position p).flights.map (·.phase.work)).sum < (s.flights.map (·.phase.work)).sum := by
    simp only [setPhase, List.map_map]
    refine List.sum_lt_sum _ _ (fun g hg => ?_) ⟨f, hf, ?_⟩
    · simp only [Function.comp]
      split
      · next he =>
        rw [List.inj_on_of_nodup_map hn hg hf he]
        exact Nat.le_of_lt hp
      · exact Nat.le_refl _
    · simpa using hp
  have hrest : (s.setPhase f.position p).pulled = s.pulled ∧ (s.setPhase f.position p).pull = s.pull ∧
      (s.setPhase f.position p).exhausted = s.exhausted := ⟨rfl, rfl, rfl⟩
  simp only [load, hrest]
  omega

end State

theorem Turned.work_le {b : Batch} {s t : State} {n : Nat} (h : Turned b s t) : t.work n ≤ s.load n := by
  cases h with
  | asks hp he => simp [State.work, State.load, State.emit, Pull.work, hp, he]
  | waits => exact Nat.le_refl _
  | ends => exact Nat.zero_le _

theorem Handed.work_le {b : Batch} {s t : State} {round : List Nat} {n : Nat} (h : Handed b s round t) :
    t.work n ≤ s.load n := by
  cases h with
  | @yields before rest i c r _ _ hf =>
    have := State.load_remove (n := n) hf
    simp only [Phase.work] at this
    show (s.remove i).load n + 1 ≤ s.load n
    omega
  | fails => exact Nat.zero_le _
  | turns _ ht => exact ht.work_le

/-- A round with something finished in it makes headway. -/
theorem Handed.work_lt {b : Batch} {s t : State} {round : List Nat} {n : Nat} (h : Handed b s round t)
    (hr : round ≠ []) (hf : ∀ i ∈ round, s.HasFinished i) : t.work n < s.load n := by
  cases h with
  | @yields before rest i c r _ _ hf =>
    have := State.load_remove (n := n) hf
    simp only [Phase.work] at this
    show (s.remove i).load n + 1 < s.load n
    omega
  | fails _ _ hf =>
    have := State.load_remove (n := n) hf
    simp only [Phase.work] at this
    show 0 < s.load n
    omega
  | turns hno =>
    obtain ⟨i, hi⟩ := List.exists_mem_of_ne_nil round hr
    exact absurd (hf i hi) (hno i hi)

theorem State.work_lt_of_load_lt {n : Nat} {s t : State} (hs : t.stage = s.stage) (he : s.ending? = none)
    (h : t.load n < s.load n) : t.work n < s.work n := by
  unfold ending? at he
  unfold work
  rw [hs]
  split <;> simp_all

/-- An input that gives at most `n` items. -/
def Source.Within (src : Source) (n : Nat) : Prop := ∀ i d, src i = .item d → i < n

/-- The phase of a flight only ever goes on to a later one. -/
theorem Placed.work_setPhase_lt {b : Batch} {s : State} {n : Nat} {f : Flight} {p : Phase} (h : Placed b s)
    (he : s.ending? = none) (hf : f ∈ s.flights) (hp : p.work < f.phase.work) :
    (s.setPhase f.position p).work n < s.work n :=
  State.work_lt_of_load_lt rfl he (State.load_setPhase h.positions_nodup hf hp)

theorem Stepped.work_lt {b : Batch} {s t : State} {m : Move} {n : Nat} (h : Stepped b s m t) (hs : Sound b s)
    (hn : b.source.Within n) (hm : m ≠ .close) : t.work n < s.work n := by
  have he := h.ending?_eq_none hs.staged
  have hp := h.placed hs
  have hload := State.load_le_work (n := n) he
  have hqueued {f : Flight} (hf : s.flights.find? (·.phase.isQueued) = some f) : f.phase = .queued :=
    State.phase_of_find?_queued hf
  cases h with
  | asksFirst hf ht =>
    have hle := ht.work_le (n := n)
    have hwork : s.work n = s.load n + 1 := by simp [State.work, hf]
    omega
  | asks hr ht =>
    have hle := ht.work_le (n := n)
    have hwork : s.work n = s.load n + 1 := by simp [State.work, hr]
    omega
  | closesFresh | closes => exact absurd rfl hm
  | gives ha ho =>
    have hlt := hn _ _ ho
    refine State.work_lt_of_load_lt rfl he ?_
    simp only [State.load, State.emit, Pull.work, ha]
    omega
  | @gives_none o ha ho hno =>
    refine State.work_lt_of_load_lt rfl he ?_
    cases o with
    | item d => exact absurd rfl (hno d)
    | done | failure =>
      simp only [State.load, Pull.work, ha]
      omega
  | rejects hf =>
    exact hp.work_setPhase_lt he (List.mem_of_find?_eq_some hf) (by simp [Phase.work, hqueued hf])
  | bars hf =>
    exact hp.work_setPhase_lt he (List.mem_of_find?_eq_some hf) (by simp [Phase.work, hqueued hf])
  | begins hf =>
    rw [State.work_emit]
    exact hp.work_setPhase_lt he (List.mem_of_find?_eq_some hf) (by simp [Phase.work, hqueued hf])
  | @settles i c _ _ hf =>
    rw [State.work_emit]
    exact hp.work_setPhase_lt (f := ⟨i, c, .running⟩) he (State.mem_of_flight? hf).1 (by simp [Phase.work])
  | @expires i c _ hf =>
    rw [State.work_emit]
    exact hp.work_setPhase_lt (f := ⟨i, c, .running⟩) he (State.mem_of_flight? hf).1 (by simp [Phase.work])
  | wakes hw ht =>
    have hround := hw.some.resolve_left (by simp)
    exact Nat.lt_of_lt_of_le (ht.work_lt hround hw.finished) hload
  | takes _ hg ht =>
    refine Nat.lt_of_le_of_lt ht.work_le (Nat.lt_of_lt_of_le ?_ hload)
    simp only [State.load, Pull.work, hg, List.map_append, List.sum_append, List.map_cons, List.map_nil,
      List.sum_cons, List.sum_nil, Phase.work]
    split <;> omega
  | takesEnd _ hg ht =>
    refine Nat.lt_of_le_of_lt ht.work_le (Nat.lt_of_lt_of_le ?_ hload)
    simp only [State.load, Pull.work, hg, if_true]
    omega
  | takesOther _ hg =>
    refine Nat.lt_of_lt_of_le ?_ hload
    show 0 < s.load n
    simp only [State.load, Pull.work, hg]
    omega
  | takesFailure _ hg =>
    refine Nat.lt_of_lt_of_le ?_ hload
    show 0 < s.load n
    simp only [State.load, Pull.work, hg]
    omega

/-- No more than six moves for an item and three for the stream itself. -/
theorem Run.length_add_work_le {b : Batch} {ms : List Move} {s : State} {n : Nat} (h : Run b ms s)
    (hn : b.source.Within n) (hms : ∀ m ∈ ms, m ≠ .close) : ms.length + s.work n ≤ 6 * n + 3 := by
  induction h with
  | initial => simp [State.work_initial]
  | @next ms s t m h hs ih =>
    have hle := ih fun m' hm' => hms m' (List.mem_append_left _ hm')
    have hlt := (step_stepped hs).work_lt h.reachable.sound hn (hms m (by simp))
    rw [List.length_append, List.length_singleton]
    omega

/-- The moves that can always be made in time: each call that is running may end in any way. -/
inductive Goes (o : Nat → Except Failure Datum) (s : State) : Move → Prop where
  | ask : Goes o s .ask
  | offer : Goes o s .offer
  | start : Goes o s .start
  | settle (f : Flight) : f ∈ s.flights → f.phase = .running → Goes o s (.settle f.position (o f.position))
  | wake (takePull : Bool) (round : List Nat) : Goes o s (.wake takePull round)

/-- As long as a stream has not ended it has a move to make. -/
theorem Sound.progress {b : Batch} {s : State} (hs : Sound b s) (he : s.ending? = none)
    (o : Nat → Except Failure Datum) : ∃ m, Goes o s m ∧ (b.step s m).isSome := by
  have hp := hs.placed (.of_going he)
  have hstaged := hs.staged
  unfold Staged at hstaged
  cases hst : s.stage with
  | fresh => exact ⟨_, .ask, by simp [Batch.step, Batch.ask, hst]⟩
  | handing rest => exact ⟨_, .ask, by simp [Batch.step, Batch.ask, hst]⟩
  | ended e => simp [State.ending?, hst] at he
  | waiting =>
    cases hpull : s.pull with
    | asked =>
      refine ⟨_, .offer, ?_⟩
      simp only [Batch.step, Batch.offer, hpull]
      split <;> rfl
    | given i o =>
      have hwakes : Wakes s true [] := ⟨hst, .inl rfl, .nil, by simp⟩
      exact ⟨_, .wake true [], wake_isSome_iff.2 ⟨hwakes, fun _ => by simp [hpull, Pull.isGiven]⟩⟩
    | idle =>
      rw [hst] at hstaged
      obtain ⟨f, hf⟩ := List.exists_mem_of_ne_nil _ (hstaged.resolve_right (by simp [hpull]))
      have hfl := hp.flight?_eq hf
      obtain ⟨i, c, p⟩ := f
      cases p with
      | queued =>
        refine ⟨_, .start, ?_⟩
        simp only [Batch.step, Batch.start, Option.isSome_map, List.find?_isSome]
        exact ⟨_, hf, rfl⟩
      | running => exact ⟨_, .settle _ hf rfl, by simp [Batch.step, Batch.settle, hfl]⟩
      | finished x =>
        have hfinished : ∀ j ∈ [i], s.HasFinished j := by simp [State.HasFinished, hfl, Phase.isFinished]
        have hwakes : Wakes s false [i] := ⟨hst, .inr (by simp), by simp, hfinished⟩
        exact ⟨_, .wake false [i], wake_isSome_iff.2 ⟨hwakes, by simp⟩⟩

theorem Goes.ne_close {o : Nat → Except Failure Datum} {s : State} {m : Move} (h : Goes o s m) : m ≠ .close := by
  cases h <;> simp

/-- A stream that has none of these moves left has ended. -/
theorem Sound.ended_of_stuck {b : Batch} {s : State} (hs : Sound b s) (o : Nat → Except Failure Datum)
    (hstuck : ∀ m, Goes o s m → b.step s m = none) : s.ending?.isSome := by
  cases he : s.ending? with
  | some e => rfl
  | none =>
    obtain ⟨m, hm, hsome⟩ := hs.progress he o
    rw [hstuck m hm] at hsome
    cases hsome

theorem Run.exists_stuck {b : Batch} {ms : List Move} {s : State} {n : Nat} {P : Move → Prop} (h : Run b ms s)
    (hn : b.source.Within n) (hP : ∀ m, P m → m ≠ .close) (hms : ∀ m ∈ ms, P m) :
    ∃ ms' t, Run b ms' t ∧ (∀ m ∈ ms', P m) ∧ ∀ m, P m → b.step t m = none := by
  induction hw : s.work n using Nat.strongRecOn generalizing ms s with
  | ind w ih =>
    by_cases hmove : ∃ m t, P m ∧ b.step s m = some t
    · obtain ⟨m, t, hm, hs⟩ := hmove
      have hlt := (step_stepped hs).work_lt h.reachable.sound hn (hP m hm)
      exact ih (t.work n) (hw ▸ hlt) (h.next hs)
        (List.forall_mem_append.2 ⟨hms, List.forall_mem_singleton.2 hm⟩) rfl
    · refine ⟨ms, s, h, hms, fun m hm => ?_⟩
      cases hs : b.step s m with
      | none => rfl
      | some t => exact absurd ⟨m, t, hm, hs⟩ hmove

end SetPipeline.Pipeline
