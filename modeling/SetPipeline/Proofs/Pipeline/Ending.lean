import SetPipeline.Proofs.Pipeline.Outcome

/-! How a stream ends. It is closed only by its consumer, and it fails only with a failure of its own input or
of one of its calls. -/
namespace SetPipeline.Pipeline

/-- What a stream can fail with: what one of its commands comes to, an item that is no command, or a failure of
the input. -/
inductive Cause (b : Batch) (o : Outcomes) : Failure → Prop where
  | call {i : Nat} {c : Command} {f : Failure} : b.source i = .item (.command c) →
    b.conclusion c (o i) = some (.error f) → Cause b o f
  | item {i : Nat} {d : Datum} : b.source i = .item d → (∀ c, d ≠ .command c) →
    Cause b o (.misuse (.notCommand d.typeName))
  | input {i : Nat} {f : Failure} : b.source i = .failure f → Cause b o f

theorem conclusion_mono {b : Batch} {c : Command} {x y : Option (Except Failure Datum)} {z : Except Failure Response}
    (hxy : ∀ a, x = some a → y = some a) (h : b.conclusion c x = some z) : b.conclusion c y = some z := by
  cases x with
  | some a =>
    rw [hxy a rfl]
    exact h
  | none =>
    unfold Batch.conclusion at h ⊢
    cases hu : b.operation.unfit? c with
    | some u => simpa [hu] using h
    | none =>
      cases hg : b.config.barred? c with
      | some g => simpa [hu, hg] using h
      | none => simp [hu, hg] at h

theorem Cause.mono {b : Batch} {o o' : Outcomes} {f : Failure} (ho : ∀ i a, o i = some a → o' i = some a)
    (h : Cause b o f) : Cause b o' f := by
  cases h with
  | call hi hc => exact .call hi (conclusion_mono (ho _) hc)
  | item hi hd => exact .item hi hd
  | input hi => exact .input hi

theorem outcomeOf_append_of_some {ms : List Move} {m : Move} {i : Nat} {a : Except Failure Datum}
    (h : outcomeOf ms i = some a) : outcomeOf (ms ++ [m]) i = some a := by
  simp [outcomeOf_append, h]

theorem Turned.ending {b : Batch} {s t : State} {e : End} (h : Turned b s t) (he : t.ending? = some e) :
    e = .exhausted := by
  cases h with
  | asks | waits => cases he
  | ends =>
    cases he
    rfl

def End.Due (b : Batch) (o : Outcomes) (m : Move) : End → Prop
  | exhausted => True
  | closed => m = .close
  | failed f => Cause b o f

theorem Handed.ending {b : Batch} {o : Outcomes} {m : Move} {s t : State} {round : List Nat} {e : End}
    (h : Handed b s round t) (hp : Placed b s) (ha : Accounted b o s) (he : t.ending? = some e) : e.Due b o m := by
  cases h with
  | yields => cases he
  | fails _ _ hf =>
    obtain ⟨hmem, -⟩ := State.mem_of_flight? hf
    cases he
    exact .call (hp.commands _ hmem) (ha.flights _ hmem)
  | turns _ ht =>
    rw [ht.ending he]
    trivial

theorem Stepped.ending {b : Batch} {o : Outcomes} {s t : State} {m : Move} {e : End} (h : Stepped b s m t)
    (hs : Sound b s) (ha : Accounted b o s) (he : t.ending? = some e) : e.Due b o m := by
  have hnone := h.ending?_eq_none hs.staged
  have hp := h.placed hs
  have hkeeps (ht : t.stage = s.stage) : e.Due b o m := by
    have : t.ending? = s.ending? := by simp [State.ending?, ht]
    rw [this, hnone] at he
    cases he
  cases h with
  | asksFirst _ ht =>
    rw [ht.ending he]
    trivial
  | asks _ ht => exact ht.ending hp ha he
  | closesFresh | closes =>
    cases he
    exact rfl
  | gives | gives_none | rejects | bars | begins | settles | expires => exact hkeeps rfl
  | wakes _ ht => exact ht.ending hp ha he
  | takes _ hg ht => exact ht.ending (hp.takes hg) (ha.takes hg) he
  | takesEnd _ hg ht => exact ht.ending (hp.takesEnd hg) ha.takesEnd he
  | takesOther _ hg hd =>
    cases he
    exact .item (hp.given _ _ hg).1 hd
  | takesFailure _ hg =>
    cases he
    exact .input (hp.given _ _ hg).1

theorem Run.ending {b : Batch} {ms : List Move} {s : State} {e : End} (h : Run b ms s) (he : s.ending? = some e) :
    e = .exhausted ∨ (e = .closed ∧ .close ∈ ms) ∨ ∃ f, e = .failed f ∧ Cause b (outcomeOf ms) f := by
  cases h with
  | initial => cases he
  | @next ms s t m h hs =>
    have hdue := (step_stepped hs).ending h.reachable.sound h.accounted he
    cases e with
    | exhausted => exact .inl rfl
    | closed =>
      obtain rfl : m = .close := hdue
      exact .inr (.inl ⟨rfl, by simp⟩)
    | failed f => exact .inr (.inr ⟨f, rfl, Cause.mono (fun _ _ => outcomeOf_append_of_some) hdue⟩)

/-! How a consumer sees the end of a stream. -/

section
variable {b : Batch} {s : State}

theorem isSome_exit? : (b.exit? s).isSome = s.ending?.isSome := Option.isSome_map

theorem isSome_of_exit? {e : End} (h : b.exit? s = some e) : s.ending?.isSome := by
  rw [← isSome_exit? (b := b), h]
  rfl

theorem exit?_of_masking {f : Failure} (h : b.masking? s = some f) (he : s.ending?.isSome) :
    b.exit? s = some (.failed f) := by
  obtain ⟨e, he⟩ := Option.isSome_iff_exists.1 he
  simp [Batch.exit?, he, h]

theorem exit?_eq_exhausted (h : b.masking? s = none) :
    b.exit? s = some .exhausted ↔ s.ending? = some .exhausted := by
  unfold Batch.exit?
  rw [h]
  cases s.ending? with
  | none => simp
  | some e => cases e <;> simp

theorem exit?_eq_failed {f : Failure} (h : b.masking? s = none) :
    b.exit? s = some (.failed f) ↔ ∃ g, s.ending? = some (.failed g) ∧ g.surfaced = f := by
  unfold Batch.exit?
  rw [h]
  cases s.ending? with
  | none => simp
  | some e => cases e <;> simp

end

section
variable {op : Operation} {source : Source} {config : Config} {room : Nat} {s : State}

@[simp] theorem masking?_quiet (op : Operation) (source : Source) (config : Config) (room : Nat) (s : State) :
    (Batch.quiet op source config room).masking? s = none := by
  simp [Batch.masking?, Batch.quiet]

theorem exit?_quiet (op : Operation) (source : Source) (config : Config) (room : Nat) (s : State) :
    (Batch.quiet op source config room).exit? s = s.ending?.map fun
      | .failed f => .failed f.surfaced
      | e => e := by
  unfold Batch.exit?
  rw [masking?_quiet]
  congr 1
  funext e
  cases e <;> rfl

theorem exit?_quiet_eq_exhausted :
    (Batch.quiet op source config room).exit? s = some .exhausted ↔ s.ending? = some .exhausted :=
  exit?_eq_exhausted (masking?_quiet ..)

theorem exit?_quiet_eq_failed {f : Failure} : (Batch.quiet op source config room).exit? s = some (.failed f) ↔
    ∃ g, s.ending? = some (.failed g) ∧ g.surfaced = f :=
  exit?_eq_failed (masking?_quiet ..)

end

end SetPipeline.Pipeline
