import SetPipeline.Proofs.Pipeline.Termination

/-! How often a loop waits. Every item takes at most one wait to come and one to leave, and one more shows that
there are no others. -/
namespace SetPipeline.Pipeline

/-- The waits that a pull stands for. An item that was given has its own two before it, and there may be
another. -/
def Pull.waits (exhausted : Bool) : Pull → Nat
  | idle => if exhausted then 0 else 1
  | asked => 1
  | given _ (.item _) => 3
  | given _ .done | given _ (.failure _) => 1

def Move.isWake : Move → Bool
  | .wake .. => true
  | _ => false

namespace State

/-- The waits that the input and the flights stand for, if the input has so many items. -/
def rest (n : Nat) (s : State) : Nat := 2 * (n - s.pulled) + s.pull.waits s.exhausted + s.flights.length

def waits (n : Nat) (s : State) : Nat :=
  match s.stage with
  | .fresh | .waiting | .handing _ => s.rest n
  | .ended _ => 0

theorem waits_le_rest {n : Nat} {s : State} : s.waits n ≤ s.rest n := by
  unfold waits
  split
  · exact Nat.le_refl _
  · exact Nat.le_refl _
  · exact Nat.le_refl _
  · exact Nat.zero_le _

theorem waits_of_going {n : Nat} {s : State} (h : s.ending? = none) : s.waits n = s.rest n := by
  unfold ending? at h
  unfold waits
  split <;> simp_all

theorem rest_remove_lt {n i : Nat} {s : State} {f : Flight} (hf : s.flight? i = some f) :
    (s.remove i).rest n < s.rest n := by
  obtain ⟨hmem, hi⟩ := mem_of_flight? hf
  have hlt : (s.remove i).flights.length < s.flights.length :=
    List.length_filter_lt_length_iff_exists.2 ⟨f, hmem, by simp [hi]⟩
  simp only [rest, remove] at hlt ⊢
  omega

end State

section
variable {b : Batch} {s t : State} {n : Nat}

theorem Turned.waits_le (h : Turned b s t) : t.waits n ≤ s.rest n := by
  cases h with
  | asks hp he => simp [State.waits, State.rest, State.emit, Pull.waits, hp, he]
  | waits => exact Nat.le_refl _
  | ends => exact Nat.zero_le _

theorem Handed.waits_le {round : List Nat} (h : Handed b s round t) : t.waits n ≤ s.rest n := by
  cases h with
  | yields _ _ hf => exact Nat.le_of_lt (State.rest_remove_lt hf)
  | fails => exact Nat.zero_le _
  | turns _ ht => exact ht.waits_le

/-- A round in which something is finished hands over a response or breaks the stream. -/
theorem Handed.waits_lt {round : List Nat} (h : Handed b s round t) (hr : round ≠ [])
    (hf : ∀ i ∈ round, s.HasFinished i) : t.waits n < s.rest n := by
  cases h with
  | yields _ _ hi => exact State.rest_remove_lt hi
  | fails _ _ hi => exact Nat.lt_of_le_of_lt (Nat.zero_le _) (State.rest_remove_lt hi)
  | turns hnone =>
    obtain ⟨i, hi⟩ := List.exists_mem_of_ne_nil _ hr
    exact absurd (hf i hi) (hnone i hi)

/-- The waits left never grow, and a wait takes one off. -/
theorem Stepped.waits_le {m : Move} (h : Stepped b s m t) (hs : Sound b s) (hn : b.source.Within n) :
    t.waits n + (if m.isWake then 1 else 0) ≤ s.waits n := by
  rw [State.waits_of_going (h.ending?_eq_none hs.staged)]
  cases h with
  | asksFirst _ ht => exact ht.waits_le
  | asks _ ht => exact ht.waits_le
  | closesFresh => exact Nat.zero_le _
  | closes => exact Nat.zero_le _
  | gives ha ho =>
    have hlt := hn _ _ ho
    apply Nat.le_trans State.waits_le_rest
    simp only [State.rest, State.emit, Pull.waits, ha]
    omega
  | @gives_none o ha ho hno =>
    apply Nat.le_trans State.waits_le_rest
    cases o with
    | item d => exact absurd rfl (hno d)
    | done | failure =>
      simp only [State.rest, Pull.waits, ha]
      omega
  | rejects | bars | begins | settles | expires =>
    apply Nat.le_trans State.waits_le_rest
    simp [State.rest, State.setPhase, State.emit]
  | wakes hw ht => exact ht.waits_lt (hw.some.resolve_left (by simp)) hw.finished
  | @takes _ i c _ _ hg ht =>
    have hle : t.waits n ≤
        2 * (n - s.pulled) + Pull.waits s.exhausted .idle + (s.flights ++ [Flight.mk i c .queued]).length := ht.waits_le
    have hidle : Pull.waits s.exhausted .idle ≤ 1 := by
      by_cases he : s.exhausted = true <;> simp [Pull.waits, he]
    rw [List.length_append, List.length_singleton] at hle
    simp only [State.rest, Pull.waits, hg, Move.isWake, if_true]
    omega
  | takesEnd _ hg ht =>
    have hle := ht.waits_le (n := n)
    simp only [State.rest, Pull.waits, if_true] at hle
    simp only [State.rest, Pull.waits, hg, Move.isWake, if_true]
    omega
  | takesOther _ hg =>
    show 0 + 1 ≤ s.rest n
    simp only [State.rest, Pull.waits, hg]
    omega
  | takesFailure _ hg =>
    show 0 + 1 ≤ s.rest n
    simp only [State.rest, Pull.waits, hg]
    omega

end

/-- A loop over so many items waits at most twice for each of them and once more. -/
theorem Run.waits_le {b : Batch} {ms : List Move} {s : State} {n : Nat} (h : Run b ms s)
    (hn : b.source.Within n) : ms.countP (·.isWake) + s.waits n ≤ 2 * n + 1 := by
  induction h with
  | initial => simp [State.waits, State.rest, State.initial, Pull.waits]
  | next h hs ih =>
    have hle := (step_stepped hs).waits_le h.reachable.sound hn
    rw [List.countP_append, List.countP_singleton]
    omega

end SetPipeline.Pipeline
