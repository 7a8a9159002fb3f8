import SetPipeline.Proofs.Pipeline.Correlation
import SetPipeline.Proofs.Pipeline.Delivery

/-! In which order responses come. A wait gives everything that is finished, so a call that is over is in no later
round than one that is over after it. Within a round the order is that in which the wait gives it, and nothing ties
that to the order in which the calls were over. -/
namespace SetPipeline.Pipeline

/-- The one stands in a list somewhere before the other. -/
def Precedes (l : List Nat) (i j : Nat) : Prop := [i, j].Sublist l

instance (l : List Nat) (i j : Nat) : Decidable (Precedes l i j) := inferInstanceAs (Decidable ([i, j].Sublist l))

namespace Precedes

variable {i j : Nat} {l front back : List Nat}

theorem mem (h : Precedes l i j) : i ∈ l ∧ j ∈ l := ⟨h.subset (by simp), h.subset (by simp)⟩

theorem append_iff :
    Precedes (front ++ back) i j ↔ Precedes front i j ∨ (i ∈ front ∧ j ∈ back) ∨ Precedes back i j := by
  unfold Precedes
  rw [List.sublist_append_iff]
  constructor
  · rintro ⟨l₁, l₂, he, h₁, h₂⟩
    rcases l₁ with _ | ⟨k, _ | ⟨k', l₁⟩⟩
    · obtain rfl : [i, j] = l₂ := he
      exact .inr (.inr h₂)
    · obtain ⟨rfl, rfl⟩ := List.cons.inj he
      exact .inr (.inl ⟨List.singleton_sublist.1 h₁, List.singleton_sublist.1 h₂⟩)
    · simp only [List.cons_append, List.cons.injEq, List.nil_eq, List.append_eq_nil_iff] at he
      obtain ⟨rfl, rfl, rfl, rfl⟩ := he
      exact .inl h₁
  · rintro (h | ⟨hi, hj⟩ | h)
    · exact ⟨[i, j], [], rfl, h, List.nil_sublist _⟩
    · exact ⟨[i], [j], rfl, List.singleton_sublist.2 hi, List.singleton_sublist.2 hj⟩
    · exact ⟨[], [i, j], rfl, List.nil_sublist _, h⟩

theorem of_mem (hi : i ∈ front) (hj : j ∈ back) : Precedes (front ++ back) i j := append_iff.2 (.inr (.inl ⟨hi, hj⟩))

theorem append_left (h : Precedes front i j) : Precedes (front ++ back) i j := append_iff.2 (.inl h)

theorem append_right (h : Precedes back i j) : Precedes (front ++ back) i j := append_iff.2 (.inr (.inr h))

theorem in_front (h : Precedes (front ++ back) i j) (hn : (front ++ back).Nodup) (hj : j ∈ front) : Precedes front i j := by
  have hapart : j ∉ back := fun hb => (List.nodup_append.1 hn).2.2 j hj j hb rfl
  rcases append_iff.1 h with h | ⟨-, hb⟩ | h
  · exact h
  · exact absurd hb hapart
  · exact absurd h.mem.2 hapart

theorem in_back (h : Precedes (front ++ back) i j) (hn : (front ++ back).Nodup) (hi : i ∈ back) : Precedes back i j := by
  have hapart : i ∉ front := fun hf => (List.nodup_append.1 hn).2.2 i hf i hi rfl
  rcases append_iff.1 h with h | ⟨hf, -⟩ | h
  · exact absurd h.mem.1 hapart
  · exact absurd hf hapart
  · exact h

end Precedes

def Move.over? : Move → Option Nat
  | .settle i _ | .expire i => some i
  | _ => none

/-- The calls that are over in a run, in the order in which they ended. -/
def overIn (ms : List Move) : List Nat := ms.filterMap Move.over?

theorem overIn_append_of_none {ms : List Move} {m : Move} (h : m.over? = none) : overIn (ms ++ [m]) = overIn ms := by
  simp [overIn, List.filterMap_append, h]

theorem overIn_append_of_some {ms : List Move} {m : Move} {i : Nat} (h : m.over? = some i) :
    overIn (ms ++ [m]) = overIn ms ++ [i] := by
  simp [overIn, List.filterMap_append, h]

def Move.IsFull (s : State) : Move → Prop
  | .wake _ round => ∀ f ∈ s.flights, f.phase.isFinished → f.position ∈ round
  | _ => True

instance (s : State) : (m : Move) → Decidable (m.IsFull s)
  | .wake _ round => inferInstanceAs (Decidable (∀ f ∈ s.flights, f.phase.isFinished → f.position ∈ round))
  | .ask | .close | .offer | .start | .settle .. | .expire _ => .isTrue trivial

/-- The runs whose waits give everything that is finished. -/
inductive FullRun (b : Batch) : List Move → State → Prop where
  | initial : FullRun b [] .initial
  | next {ms : List Move} {s t : State} {m : Move} :
    FullRun b ms s → m.IsFull s → b.step s m = some t → FullRun b (ms ++ [m]) t

theorem FullRun.run {b : Batch} {ms : List Move} {s : State} (h : FullRun b ms s) : Run b ms s := by
  induction h with
  | initial => exact .initial
  | next _ _ hs ih => exact .next ih hs

section
variable {b : Batch} {ms : List Move} {s t : State} {m : Move} {i j : Nat}

theorem Run.finished_of_mem_rounds (h : Run b ms s) (hgo : s.ending? = none) (hi : i ∈ (roundsOf ms).flatten) :
    i ∈ s.answered ∨ s.HasFinished i := by
  have hr := h.roundByRound
  cases hst : s.stage with
  | fresh =>
    rw [(hr.fresh hst).split, List.append_nil] at hi
    exact .inl hi
  | waiting =>
    rw [(hr.waiting hst).split, List.append_nil] at hi
    exact .inl hi
  | handing rest =>
    obtain ⟨hover, hfinished⟩ := hr.handing hst
    rw [hover.split] at hi
    exact (List.mem_append.1 hi).imp_right (hfinished i)
  | ended e => simp [State.ending?, hst] at hgo

theorem Run.not_mem_rounds (h : Run b ms s) {c : Command} (hf : s.flight? i = some ⟨i, c, .running⟩) :
    i ∉ (roundsOf ms).flatten := by
  obtain ⟨hmem, -⟩ := State.mem_of_flight? hf
  have hp := h.reachable.sound.placed_of_flight hmem
  have hgo := h.reachable.sound.staged.going (.inl (State.flights_ne_nil hmem))
  intro hi
  rcases h.finished_of_mem_rounds hgo hi with hans | hfin
  · exact hp.not_answered (List.mem_map_of_mem hmem) hans
  · simp [State.HasFinished, hf, Phase.isFinished] at hfin

theorem Run.answered_subset (h : Run b ms s) : s.answered ⊆ (roundsOf ms).flatten := by
  obtain ⟨rest, hover⟩ := h.exists_handedOver
  rw [hover.split]
  exact List.subset_append_left _ _

theorem Stepped.over (h : Stepped b s m t) (hi : m.over? = some i) :
    (∃ c, s.flight? i = some ⟨i, c, .running⟩) ∧ t.HasFinished i := by
  have hfinished {x : Except Failure Response} {c : Command} (hf : s.flight? i = some ⟨i, c, .running⟩) :
      (s.setPhase i (.finished x)).HasFinished i := by
    simp [State.HasFinished, State.flight?_setPhase, hf, Phase.isFinished]
  cases h with
  | settles hf | expires _ hf =>
    cases hi
    exact ⟨⟨_, hf⟩, hfinished hf⟩
  | _ => cases hi

/-- How the rounds of a run stand to the order in which its calls were over: what is over came out of a wait or is
still finished, and a front of the rounds has with any call all those that were over before it. -/
structure InTurn (ms : List Move) (s : State) : Prop where
  known : s.ending? = none → ∀ i ∈ overIn ms, i ∈ (roundsOf ms).flatten ∨ s.HasFinished i
  closed : ∀ front, front <+: roundsOf ms → ∀ i j, Precedes (overIn ms) i j → j ∈ front.flatten → i ∈ front.flatten

theorem InTurn.stays (h : InTurn ms s) (hrun : Run b ms s) (hs : b.step s m = some t) (hgo : t.ending? = none)
    (hi : i ∈ overIn ms) : i ∈ (roundsOf (ms ++ [m])).flatten ∨ t.HasFinished i := by
  have hstep := step_stepped hs
  rcases h.known (hstep.ending?_eq_none hrun.reachable.sound.staged) i hi with hround | hfin
  · left
    rw [roundsOf, List.filterMap_append, List.flatten_append]
    exact List.mem_append_left _ hround
  · apply (hstep.hasFinished hrun.reachable.sound hfin hgo).symm.imp_left
    intro hans
    exact (hrun.next hs).answered_subset hans

/-- A call that ends has come out of no wait, so nothing is to be shown of the ones before it. -/
theorem InTurn.over (h : InTurn ms s) (hrun : Run b ms s) (hs : b.step s m = some t) (hm : m.over? = some i)
    (hr : m.round? = none) : InTurn (ms ++ [m]) t := by
  obtain ⟨⟨c, hf⟩, hfin⟩ := (step_stepped hs).over hm
  constructor
  · intro hgo j hj
    rw [overIn_append_of_some hm] at hj
    rcases List.mem_append.1 hj with hj | hj
    · exact h.stays hrun hs hgo hj
    · rw [List.mem_singleton.1 hj]
      exact .inr hfin
  · intro front hfront j k hjk hk
    rw [roundsOf_append_of_none hr] at hfront
    rw [overIn_append_of_some hm] at hjk
    have hne : k ≠ i := by
      rintro rfl
      obtain ⟨round, hround, hin⟩ := List.mem_flatten.1 hk
      exact hrun.not_mem_rounds hf (List.mem_flatten.2 ⟨round, hfront.subset hround, hin⟩)
    rcases Precedes.append_iff.1 hjk with hjk | ⟨-, hk'⟩ | hjk
    · exact h.closed front hfront j k hjk hk
    · exact absurd (List.mem_singleton.1 hk') hne
    · exact absurd (List.mem_singleton.1 hjk.mem.2) hne

/-- A wait that gives everything finished leaves out nothing that is over. -/
theorem InTurn.wake (h : InTurn ms s) (hrun : Run b ms s) {takePull : Bool} {round : List Nat}
    (hfull : (Move.wake takePull round).IsFull s) (hs : b.step s (.wake takePull round) = some t) :
    InTurn (ms ++ [.wake takePull round]) t := by
  have hover : overIn (ms ++ [.wake takePull round]) = overIn ms := overIn_append_of_none rfl
  have hround (i : Nat) (hi : s.HasFinished i) : i ∈ round := by
    obtain ⟨f, hf, hfin⟩ := (Option.any_eq_true _ _).1 hi
    obtain ⟨hmem, rfl⟩ := State.mem_of_flight? hf
    exact hfull f hmem hfin
  constructor
  · intro hgo i hi
    rw [hover] at hi
    exact h.stays hrun hs hgo hi
  · intro front hfront i j hij hj
    rw [hover] at hij
    rw [roundsOf_append_wake] at hfront
    rcases List.prefix_concat_iff.1 hfront with rfl | hfront
    · have hgo := (step_stepped hs).ending?_eq_none hrun.reachable.sound.staged
      simp only [List.flatten_append, List.flatten_singleton]
      exact List.mem_append.2 ((h.known hgo i hij.mem.1).imp_right (hround i))
    · exact h.closed front hfront i j hij hj

theorem FullRun.inTurn (h : FullRun b ms s) : InTurn ms s := by
  induction h with
  | initial =>
    constructor
    · intro _ i hi
      cases hi
    · intro _ _ i j hij
      cases hij
  | @next ms s t m h hfull hs ih =>
    have hquiet (hm : m.over? = none) (hr : m.round? = none) : InTurn (ms ++ [m]) t := by
      constructor
      · intro hgo i hi
        rw [overIn_append_of_none hm] at hi
        exact ih.stays h.run hs hgo hi
      · rw [overIn_append_of_none hm, roundsOf_append_of_none hr]
        exact ih.closed
    cases m with
    | ask | close | offer | start => exact hquiet rfl rfl
    | settle i o => exact ih.over h.run hs rfl rfl
    | expire i => exact ih.over h.run hs rfl rfl
    | wake takePull round => exact ih.wake h.run hfull hs

end

/-- Whatever is answered comes after all the calls that were over before its own. -/
def KeepsOrder (ms : List Move) (s : State) : Prop :=
  ∀ i j, Precedes (overIn ms) i j → j ∈ s.answered → Precedes s.answered i j

/-- Responses come in the order in which the calls were over just where each round has the answered ones in that
order: from one round to the next the order is always kept. -/
theorem FullRun.keepsOrder_iff {b : Batch} {ms : List Move} {s : State} (h : FullRun b ms s) :
    KeepsOrder ms s ↔ ∀ round ∈ roundsOf ms, ∀ i j, Precedes (overIn ms) i j → i ∈ round → j ∈ round →
      j ∈ s.answered → Precedes round i j := by
  obtain ⟨rest, hover⟩ := h.run.exists_handedOver
  have hnodup : (roundsOf ms).flatten.Nodup := hover.split ▸ hover.once
  constructor
  · intro hkeeps round hround i j hij hi hj hans
    obtain ⟨earlier, later, hsplit⟩ := List.append_of_mem hround
    have hall : Precedes (roundsOf ms).flatten i j := by
      rw [hover.split]
      exact (hkeeps i j hij hans).append_left
    rw [hsplit, List.flatten_append, List.flatten_cons] at hall hnodup
    have hlate := Precedes.in_back hall hnodup (List.mem_append_left _ hi)
    exact hlate.in_front (List.nodup_append.1 hnodup).2.1 hj
  · intro hrounds i j hij hans
    obtain ⟨round, hround, hj⟩ := List.mem_flatten.1 (h.run.answered_subset hans)
    obtain ⟨earlier, later, hsplit⟩ := List.append_of_mem hround
    have hfront : earlier ++ [round] <+: roundsOf ms := ⟨later, by simp [hsplit]⟩
    have hi := h.inTurn.closed _ hfront i j hij (by simp [hj])
    have hall : Precedes (earlier.flatten ++ round) i j := by
      simp only [List.flatten_append, List.flatten_singleton, List.mem_append] at hi
      rcases hi with hi | hi
      · exact .of_mem hi hj
      · exact (hrounds round hround i j hij hi hj hans).append_right
    refine Precedes.in_front ?_ hover.once hans
    rw [← hover.split, hsplit, List.flatten_append, List.flatten_cons, ← List.append_assoc]
    exact hall.append_left

def trio : Batch := .quiet .card (ofCommands (List.replicate 3 (.key (some [107])))) ⟨.int 3, none⟩ 900

/-- While the consumer has the first response the second call ends, then the third, and the next wait gives the
third one first. -/
def trioMoves : List Move :=
  [.ask, .offer, .wake true [], .offer, .wake true [], .offer, .wake true [], .start, .start, .start,
    .settle 0 (.ok (.int 1)), .wake false [0], .settle 1 (.ok (.int 1)), .settle 2 (.ok (.int 1)), .ask,
    .wake false [2, 1], .ask]

theorem exists_fullRun_trio : ∃ s, FullRun trio trioMoves s ∧ s.answered = [0, 2, 1] := by
  have hnext {ms : List Move} {s t : State} (h : FullRun trio ms s) (m : Move) (hs : trio.step s m = some t)
      (hfull : m.IsFull s) : FullRun trio (ms ++ [m]) t := h.next hfull hs
  have first := hnext (hnext (hnext .initial .ask rfl trivial) .offer rfl trivial) (.wake true []) rfl (by decide)
  have second := hnext (hnext first .offer rfl trivial) (.wake true []) rfl (by decide)
  have third := hnext (hnext second .offer rfl trivial) (.wake true []) rfl (by decide)
  have running := hnext (hnext (hnext third .start rfl trivial) .start rfl trivial) .start rfl trivial
  have held := hnext (hnext running (.settle 0 (.ok (.int 1))) rfl trivial) (.wake false [0]) rfl (by decide)
  have ended := hnext (hnext held (.settle 1 (.ok (.int 1))) rfl trivial) (.settle 2 (.ok (.int 1))) rfl trivial
  have woken := hnext (hnext ended .ask rfl trivial) (.wake false [2, 1]) rfl (by decide)
  exact ⟨_, hnext woken .ask rfl trivial, rfl⟩

theorem not_keepsOrder_trio : ∃ ms s, FullRun trio ms s ∧ ¬KeepsOrder ms s := by
  obtain ⟨s, hrun, hans⟩ := exists_fullRun_trio
  refine ⟨trioMoves, s, hrun, fun hkeeps => ?_⟩
  have hlast := hkeeps 1 2 (by decide) (by simp [hans])
  rw [hans] at hlast
  revert hlast
  decide

theorem keepsOrder_iff_trio : ∃ s, FullRun trio trioMoves s ∧ (KeepsOrder trioMoves s ↔
    ∀ round ∈ roundsOf trioMoves, ∀ i j, Precedes (overIn trioMoves) i j → i ∈ round → j ∈ round →
      j ∈ s.answered → Precedes round i j) := by
  obtain ⟨s, hrun, -⟩ := exists_fullRun_trio
  exact ⟨s, hrun, hrun.keepsOrder_iff⟩

end SetPipeline.Pipeline
