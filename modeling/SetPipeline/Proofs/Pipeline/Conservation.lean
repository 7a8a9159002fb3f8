import Mathlib.Data.List.Perm.Subperm
import Mathlib.Data.List.Nodup
import SetPipeline.Proofs.Pipeline.Step

/-! Nothing that was taken from the input is lost or doubled. As long as a stream is not broken off, every
position below the number of items pulled is in just one of three places: its response was handed over, it
is in flight, or it was given and waits to be taken in. -/
namespace SetPipeline.Pipeline

namespace State

/-- The positions of the responses handed over, in the order in which they were. -/
def answered (s : State) : List Nat := s.yielded.map (·.1)

/-- The stream was neither closed nor failed. -/
def IsWhole (s : State) : Prop := ∀ e, s.ending? = some e → e = .exhausted

theorem IsWhole.of_going {s : State} (h : s.ending? = none) : s.IsWhole := by
  intro e he
  rw [h] at he
  cases he

theorem IsWhole.of_exhausted {s : State} (h : s.ending? = some .exhausted) : s.IsWhole := by
  intro e he
  rw [h] at he
  exact (Option.some.inj he).symm

theorem held_eq_nil {s : State} (h : ∀ i d, s.pull ≠ .given i (.item d)) : s.held = [] := by
  unfold held
  split
  · next hp => exact absurd hp (h _ _)
  · rfl

section
variable (s : State) (es : List Event) (i : Nat) (p : Phase) (e : End)

theorem emit_nil : s.emit [] = s := by simp [emit]

@[simp] theorem pull_emit : (s.emit es).pull = s.pull := rfl
@[simp] theorem positions_emit : (s.emit es).positions = s.positions := rfl
@[simp] theorem held_emit : (s.emit es).held = s.held := rfl
@[simp] theorem ending?_emit : (s.emit es).ending? = s.ending? := rfl

@[simp] theorem positions_setPhase : (s.setPhase i p).positions = s.positions := by
  simp only [positions, setPhase, List.map_map]
  refine List.map_congr_left fun f _ => ?_
  simp only [Function.comp]
  split <;> rfl

theorem positions_remove : (s.remove i).positions = s.positions.filter (· != i) := by
  simp only [positions, remove, List.filter_map]
  rfl

@[simp] theorem halt_positions : (s.halt e).positions = [] := rfl
@[simp] theorem halt_held : (s.halt e).held = [] := rfl
@[simp] theorem halt_ending? : (s.halt e).ending? = some e := rfl

theorem halt_filterMap {α : Type} {g : Event → Option α} (hc : ∀ j, g (.cancelled j) = none)
    (ha : g .abandoned = none) (hs : g .closedSource = none) :
    (s.halt e).log.filterMap g = s.log.filterMap g := by
  have hcalls : ((s.flights.filter (·.phase.isRunning)).map fun f => Event.cancelled f.position).filterMap g =
      [] := by
    rw [List.filterMap_map]
    exact List.filterMap_eq_nil_iff.2 fun f _ => hc f.position
  simp only [halt, emit, List.filterMap_append, hcalls]
  cases s.pull.isAsked <;> simp [ha, hs]

@[simp] theorem yielded_halt : (s.halt e).yielded = s.yielded := halt_filterMap s e (fun _ => rfl) rfl rfl
@[simp] theorem begun_halt : (s.halt e).begun = s.begun := halt_filterMap s e (fun _ => rfl) rfl rfl

theorem answered_halt : (s.halt e).answered = s.answered := by rw [answered, yielded_halt, answered]

theorem yielded_yields (r : Response) (st : Stage) :
    ({ s.remove i with stage := st }.emit [.yielded i r]).yielded = s.yielded ++ [(i, r)] := by
  simp [yielded, remove, emit]

theorem answered_yields (r : Response) (st : Stage) :
    ({ s.remove i with stage := st }.emit [.yielded i r]).answered = s.answered ++ [i] := by
  rw [answered, yielded_yields, List.map_append, answered]
  rfl

end

section
variable {s : State} {i j : Nat}

theorem flight?_setPhase {p : Phase} :
    (s.setPhase j p).flight? i = (s.flight? i).map fun f => if f.position = j then { f with phase := p } else f := by
  simp only [flight?, setPhase, List.find?_map]
  congr 2
  funext f
  by_cases hf : f.position = j <;> simp [hf]

theorem flight?_setPhase_of_ne {p : Phase} (h : i ≠ j) : (s.setPhase j p).flight? i = s.flight? i := by
  rw [flight?_setPhase]
  cases hf : s.flight? i with
  | none => rfl
  | some f =>
    have hi : f.position ≠ j := (mem_of_flight? hf).2 ▸ h
    simp [hi]

theorem flight?_remove_of_ne (h : i ≠ j) : (s.remove j).flight? i = s.flight? i := by
  simp only [flight?, remove, List.find?_filter]
  congr 1
  funext f
  by_cases hf : f.position = i
  · simp [hf, h]
  · simp [hf]

end
end State

structure Turned.Same (s t : State) : Prop where
  flights : t.flights = s.flights
  pulled : t.pulled = s.pulled
  exhausted : t.exhausted = s.exhausted
  held : t.held = s.held
  yielded : t.yielded = s.yielded
  begun : t.begun = s.begun

theorem Turned.same {b : Batch} {s t : State} (h : Turned b s t) : Turned.Same s t := by
  cases h with
  | asks hp =>
    refine ⟨rfl, rfl, rfl, ?_, ?_, ?_⟩
    · rw [State.held_eq_nil (s := s) (by simp [hp])]
      rfl
    · simp [State.yielded, State.emit]
    · simp [State.begun, State.emit]
  | waits => exact ⟨rfl, rfl, rfl, rfl, rfl, rfl⟩
  | ends hf hp => exact ⟨hf.symm, rfl, rfl, (State.held_eq_nil (by simp [hp])).symm, s.yielded_halt _, s.begun_halt _⟩

theorem Turned.answered {b : Batch} {s t : State} (h : Turned b s t) : t.answered = s.answered := by
  rw [State.answered, h.same.yielded, State.answered]

theorem Turned.flight? {b : Batch} {s t : State} {i : Nat} (h : Turned b s t) : t.flight? i = s.flight? i := by
  rw [State.flight?, h.same.flights, State.flight?]

/-- What holds at each stage of the loop. -/
def Staged (b : Batch) (s : State) : Prop :=
  match s.stage with
  | .fresh => s = .initial
  | .waiting => s.flights ≠ [] ∨ s.pull ≠ .idle
  | .handing _ => True
  | .ended e =>
    s.flights = [] ∧ s.pull = .idle ∧ (e = .exhausted → s.exhausted = true ∨ b.config.allows 0 = false)

theorem Turned.staged {b : Batch} {s t : State} (h : Turned b s t) : Staged b t := by
  cases h with
  | asks => exact .inr (by simp)
  | waits hw => exact hw
  | ends hf hp he => exact ⟨rfl, rfl, fun _ => he⟩

theorem Handed.staged {b : Batch} {s t : State} {round : List Nat} (h : Handed b s round t) :
    Staged b t := by
  cases h with
  | yields => trivial
  | fails => exact ⟨rfl, rfl, by simp⟩
  | turns _ ht => exact ht.staged

theorem State.flights_ne_nil {s : State} {f : Flight} (h : f ∈ s.flights) : s.flights ≠ [] :=
  List.ne_nil_of_mem h

theorem Staged.going {b : Batch} {s : State} (h : Staged b s) (hs : s.flights ≠ [] ∨ s.pull ≠ .idle) :
    s.ending? = none := by
  unfold Staged at h
  unfold State.ending?
  split at h <;> simp_all

theorem Staged.keep {b : Batch} {s t : State} (h : Staged b s) (hs : t.stage = s.stage)
    (hnot : s.flights ≠ [] ∨ s.pull ≠ .idle) (ht : t.flights ≠ [] ∨ t.pull ≠ .idle) : Staged b t := by
  unfold Staged at h ⊢
  rw [hs]
  split at h
  · subst h
    simp [State.initial] at hnot
  · exact ht
  · trivial
  · exact absurd hnot (by simp [h.1, h.2.1])

theorem State.setPhase_flights_ne_nil {s : State} {i : Nat} {p : Phase} (h : s.flights ≠ []) :
    (s.setPhase i p).flights ≠ [] := by
  simpa [setPhase] using h

theorem Stepped.staged {b : Batch} {s t : State} {m : Move} (h : Stepped b s m t) (hs : Staged b s) :
    Staged b t := by
  cases h with
  | asksFirst _ ht => exact ht.staged
  | asks _ ht => exact ht.staged
  | closesFresh hf =>
    unfold Staged at hs
    rw [hf] at hs
    subst hs
    exact ⟨rfl, rfl, by simp⟩
  | closes => exact ⟨rfl, rfl, by simp⟩
  | gives hp => exact hs.keep rfl (.inr (by simp [hp])) (.inr (by simp))
  | gives_none hp => exact hs.keep rfl (.inr (by simp [hp])) (.inr (by simp))
  | rejects hf =>
    have hne := State.flights_ne_nil (List.mem_of_find?_eq_some hf)
    exact hs.keep rfl (.inl hne) (.inl (State.setPhase_flights_ne_nil hne))
  | bars hf =>
    have hne := State.flights_ne_nil (List.mem_of_find?_eq_some hf)
    exact hs.keep rfl (.inl hne) (.inl (State.setPhase_flights_ne_nil hne))
  | begins hf =>
    have hne := State.flights_ne_nil (List.mem_of_find?_eq_some hf)
    exact hs.keep rfl (.inl hne) (.inl (State.setPhase_flights_ne_nil hne))
  | settles hf =>
    have hne := State.flights_ne_nil (State.mem_of_flight? hf).1
    exact hs.keep rfl (.inl hne) (.inl (State.setPhase_flights_ne_nil hne))
  | expires _ hf =>
    have hne := State.flights_ne_nil (State.mem_of_flight? hf).1
    exact hs.keep rfl (.inl hne) (.inl (State.setPhase_flights_ne_nil hne))
  | wakes _ ht => exact ht.staged
  | takes _ _ ht => exact ht.staged
  | takesEnd _ _ ht => exact ht.staged
  | takesOther => exact ⟨rfl, rfl, by simp⟩
  | takesFailure => exact ⟨rfl, rfl, by simp⟩

theorem Stepped.ending?_eq_none {b : Batch} {s t : State} {m : Move} (h : Stepped b s m t) (hs : Staged b s) :
    s.ending? = none := by
  have hstage {st : Stage} (hst : s.stage = st) (hn : ∀ e, st ≠ .ended e) : s.ending? = none := by
    subst hst
    unfold State.ending?
    split
    · next e he => exact absurd he (hn e)
    · rfl
  cases h with
  | asksFirst hf => exact hstage hf (by simp)
  | asks hf => exact hstage hf (by simp)
  | closesFresh hf => exact hstage hf (by simp)
  | closes he => exact he
  | gives hp => exact hs.going (.inr (by simp [hp]))
  | gives_none hp => exact hs.going (.inr (by simp [hp]))
  | rejects hf => exact hs.going (.inl (State.flights_ne_nil (List.mem_of_find?_eq_some hf)))
  | bars hf => exact hs.going (.inl (State.flights_ne_nil (List.mem_of_find?_eq_some hf)))
  | begins hf => exact hs.going (.inl (State.flights_ne_nil (List.mem_of_find?_eq_some hf)))
  | settles hf => exact hs.going (.inl (State.flights_ne_nil (State.mem_of_flight? hf).1))
  | expires _ hf => exact hs.going (.inl (State.flights_ne_nil (State.mem_of_flight? hf).1))
  | wakes hw => exact hstage hw.waiting (by simp)
  | takes hw => exact hstage hw.waiting (by simp)
  | takesEnd hw => exact hstage hw.waiting (by simp)
  | takesOther hw => exact hstage hw.waiting (by simp)
  | takesFailure hw => exact hstage hw.waiting (by simp)

def Offer.taken : Offer → Nat
  | item _ => 1
  | done | failure _ => 0

/-- Where everything is that was taken from the input, and what the input gave. -/
structure Placed (b : Batch) (s : State) : Prop where
  split : (s.answered ++ s.positions ++ s.held).Perm (List.range s.pulled)
  commands : ∀ f ∈ s.flights, b.source f.position = .item (.command f.command)
  given : ∀ i o, s.pull = .given i o → b.source i = o ∧ s.pulled = i + o.taken
  exhausted : s.exhausted = true → s.pull = .idle ∧ b.source s.pulled = .done

namespace Placed

variable {b : Batch} {s t : State}

theorem nodup (h : Placed b s) : (s.answered ++ s.positions ++ s.held).Nodup :=
  h.split.nodup_iff.2 List.nodup_range

theorem positions_nodup (h : Placed b s) : s.positions.Nodup :=
  (List.nodup_append.1 (List.nodup_append.1 h.nodup).1).2.1

theorem not_answered (h : Placed b s) {i : Nat} (hi : i ∈ s.positions) : i ∉ s.answered := fun hans =>
  (List.nodup_append.1 (List.nodup_append.1 h.nodup).1).2.2 i hans i hi rfl

theorem position_lt (h : Placed b s) {i : Nat} (hi : i ∈ s.positions) : i < s.pulled :=
  List.mem_range.1 (h.split.subset (List.mem_append_left _ (List.mem_append_right _ hi)))

theorem turned (h : Placed b s) (ht : Turned b s t) : Placed b t := by
  have hsame := ht.same
  refine ⟨?_, ?_, ?_, ?_⟩
  · simpa only [State.answered, State.positions, hsame.flights, hsame.held, hsame.yielded, hsame.pulled]
      using h.split
  · rw [hsame.flights]
    exact h.commands
  · intro i o hp
    rw [hsame.pulled]
    cases ht with
    | asks => cases hp
    | waits => exact h.given i o hp
    | ends => cases hp
  · intro he
    rw [hsame.exhausted] at he
    rw [hsame.pulled]
    cases ht with
    | asks _ hx => simp [he] at hx
    | waits => exact h.exhausted he
    | ends => exact ⟨rfl, (h.exhausted he).2⟩

theorem yields (h : Placed b s) {i : Nat} {f : Flight} (hf : s.flight? i = some f) (st : Stage) (r : Response) :
    Placed b ({ s.remove i with stage := st }.emit [.yielded i r]) := by
  obtain ⟨hmem, rfl⟩ := State.mem_of_flight? hf
  have hi : f.position ∈ s.positions := List.mem_map_of_mem hmem
  have hremove : s.positions.Perm (f.position :: s.positions.filter (· != f.position)) := by
    rw [← h.positions_nodup.erase_eq_filter]
    exact List.perm_cons_erase hi
  refine ⟨?_, fun g hg => h.commands g (List.mem_of_mem_filter hg), h.given, h.exhausted⟩
  rw [State.answered_yields, State.positions_emit, State.held_emit]
  show ((s.answered ++ [f.position]) ++ (s.remove f.position).positions ++ s.held).Perm (List.range s.pulled)
  rw [State.positions_remove]
  refine List.Perm.trans (.append_right _ ?_) h.split
  rw [List.append_assoc]
  exact .append_left _ hremove.symm

theorem setPhase (h : Placed b s) (i : Nat) (p : Phase) : Placed b (s.setPhase i p) := by
  refine ⟨?_, ?_, h.given, h.exhausted⟩
  · rw [State.positions_setPhase]
    exact h.split
  · intro g hg
    obtain ⟨f, hf, rfl⟩ := List.mem_map.1 hg
    have := h.commands f hf
    split <;> exact this

theorem emit (h : Placed b s) {es : List Event} (hes : (s.emit es).yielded = s.yielded) :
    Placed b (s.emit es) := by
  refine ⟨?_, h.commands, h.given, h.exhausted⟩
  rw [State.answered, hes]
  exact h.split

theorem gives (h : Placed b s) (hp : s.pull = .asked) {d : Datum} (ho : b.source s.pulled = .item d) :
    Placed b ({ s with pull := .given s.pulled (.item d), pulled := s.pulled + 1 }.emit [.took s.pulled]) := by
  refine ⟨?_, h.commands, ?_, ?_⟩
  · have hheld : s.held = [] := State.held_eq_nil (by simp [hp])
    have hsplit := h.split
    rw [hheld, List.append_nil] at hsplit
    have hans : ({ s with pull := .given s.pulled (.item d), pulled := s.pulled + 1 }.emit
        [.took s.pulled] : State).answered = s.answered := by
      simp [State.answered, State.yielded, State.emit]
    rw [hans]
    show (s.answered ++ s.positions ++ [s.pulled]).Perm (List.range (s.pulled + 1))
    rw [List.range_succ]
    exact hsplit.append_right _
  · rintro i o hg
    cases hg
    exact ⟨ho, rfl⟩
  · intro he
    have := (h.exhausted he).1
    simp [hp] at this

theorem gives_none (h : Placed b s) (hp : s.pull = .asked) {o : Offer} (ho : b.source s.pulled = o)
    (hn : ∀ d, o ≠ .item d) : Placed b { s with pull := .given s.pulled o } := by
  refine ⟨?_, h.commands, ?_, ?_⟩
  · have hsplit := h.split
    rw [State.held_eq_nil (by simp [hp])] at hsplit
    rw [State.held_eq_nil fun i d hd => hn d (Pull.given.inj hd).2]
    exact hsplit
  · rintro i o hg
    cases hg
    refine ⟨ho, ?_⟩
    cases o with
    | item d => exact absurd rfl (hn d)
    | done | failure => rfl
  · intro he
    have := (h.exhausted he).1
    simp [hp] at this

theorem takes (h : Placed b s) {i : Nat} {c : Command} (hp : s.pull = .given i (.item (.command c))) :
    Placed b { s with pull := .idle, flights := s.flights ++ [⟨i, c, .queued⟩] } := by
  obtain ⟨hsource, -⟩ := h.given _ _ hp
  refine ⟨?_, ?_, by simp, ?_⟩
  · have hheld : s.held = [i] := by simp [State.held, hp]
    have hsplit := h.split
    rw [hheld, List.append_assoc] at hsplit
    rw [State.held_eq_nil (by simp), List.append_nil]
    simpa [State.answered, State.yielded, State.positions] using hsplit
  · intro f hf
    rcases List.mem_append.1 hf with hf | hf
    · exact h.commands f hf
    · rw [List.mem_singleton.1 hf]
      exact hsource
  · intro he
    have := (h.exhausted he).1
    simp [hp] at this

theorem takesEnd (h : Placed b s) {i : Nat} (hp : s.pull = .given i .done) :
    Placed b { s with pull := .idle, exhausted := true } := by
  obtain ⟨hsource, hi⟩ := h.given _ _ hp
  refine ⟨?_, h.commands, by simp, fun _ => ⟨rfl, hi ▸ hsource⟩⟩
  have hsplit := h.split
  rw [State.held_eq_nil (by simp [hp])] at hsplit
  rw [State.held_eq_nil (by simp)]
  exact hsplit

theorem answered_subperm (h : Placed b s) : s.answered.Subperm (List.range s.pulled) := by
  have hsub : s.answered.Sublist (s.answered ++ s.positions ++ s.held) := by
    rw [List.append_assoc]
    exact List.sublist_append_left _ _
  exact hsub.subperm.trans h.split.subperm

theorem initial : Placed b .initial := by
  refine ⟨.nil, ?_, ?_, ?_⟩ <;> simp [State.initial]

end Placed

/-- What holds of every state that a batch can come to. -/
structure Sound (b : Batch) (s : State) : Prop where
  staged : Staged b s
  placed : s.IsWhole → Placed b s
  answered : s.answered.Subperm (List.range s.pulled)

namespace Sound

variable {b : Batch} {s t : State}

theorem of_placed (hs : Staged b s) (h : Placed b s) : Sound b s := ⟨hs, fun _ => h, h.answered_subperm⟩

theorem of_broken (h : Placed b s) {e : End} (hs : Staged b t) (ht : t.ending? = some e)
    (he : e ≠ .exhausted) (hy : t.yielded = s.yielded) (hp : t.pulled = s.pulled) : Sound b t := by
  refine ⟨hs, fun hw => absurd (hw e ht) he, ?_⟩
  rw [State.answered, hy, hp]
  exact h.answered_subperm

theorem of_handed (h : Placed b s) {round : List Nat} (ht : Handed b s round t) : Sound b t := by
  have hs := ht.staged
  cases ht with
  | yields _ _ hf => exact of_placed hs (h.yields hf _ _)
  | fails _ _ hf => exact of_broken h hs rfl (by simp) (State.yielded_halt _ _) rfl
  | turns _ ht => exact of_placed hs (h.turned ht)

end Sound

theorem Sound.placed_of_flight {b : Batch} {s : State} {f : Flight} (hs : Sound b s) (hf : f ∈ s.flights) :
    Placed b s :=
  hs.placed (.of_going (hs.staged.going (.inl (State.flights_ne_nil hf))))

theorem Placed.flight?_eq {b : Batch} {s : State} {f : Flight} (h : Placed b s) (hf : f ∈ s.flights) :
    s.flight? f.position = some f := by
  cases hg : s.flight? f.position with
  | none =>
    have hne := List.find?_eq_none.1 hg f hf
    simp at hne
  | some g =>
    obtain ⟨hmem, hpos⟩ := State.mem_of_flight? hg
    rw [List.inj_on_of_nodup_map h.positions_nodup hmem hf hpos]

/-- A stream that can still move is not broken off. -/
theorem Stepped.placed {b : Batch} {s t : State} {m : Move} (h : Stepped b s m t) (hs : Sound b s) : Placed b s :=
  hs.placed (.of_going (h.ending?_eq_none hs.staged))

theorem Stepped.sound {b : Batch} {s t : State} {m : Move} (h : Stepped b s m t) (hs : Sound b s) :
    Sound b t := by
  have ht := h.staged hs.staged
  have hp := h.placed hs
  cases h with
  | asksFirst _ h => exact .of_placed ht (hp.turned h)
  | asks _ h => exact .of_handed hp h
  | closesFresh => exact .of_broken hp ht rfl (by simp) rfl rfl
  | closes => exact .of_broken hp ht rfl (by simp) (State.yielded_halt _ _) rfl
  | gives ha ho => exact .of_placed ht (hp.gives ha ho)
  | gives_none ha ho hn => exact .of_placed ht (hp.gives_none ha ho hn)
  | rejects => exact .of_placed ht (hp.setPhase _ _)
  | bars => exact .of_placed ht (hp.setPhase _ _)
  | begins => exact .of_placed ht ((hp.setPhase _ _).emit (by simp [State.yielded, State.emit]))
  | settles _ he =>
    refine .of_placed ht ((hp.setPhase _ _).emit ?_)
    rcases he with rfl | rfl <;> simp [State.yielded, State.emit]
  | expires => exact .of_placed ht ((hp.setPhase _ _).emit (by simp [State.yielded, State.emit]))
  | wakes _ h => exact .of_handed hp h
  | takes _ hg h => exact .of_handed (hp.takes hg) h
  | takesEnd _ hg h => exact .of_handed (hp.takesEnd hg) h
  | takesOther => exact .of_broken hp ht rfl (by simp) (State.yielded_halt _ _) rfl
  | takesFailure => exact .of_broken hp ht rfl (by simp) (State.yielded_halt _ _) rfl

theorem Reachable.sound {b : Batch} {s : State} (h : Reachable b s) : Sound b s := by
  induction h with
  | initial => exact .of_placed rfl .initial
  | next _ hs ih => exact (step_stepped hs).sound ih

end SetPipeline.Pipeline
