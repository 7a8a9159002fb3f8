import SetPipeline.Proofs.Pipeline.Calls
import SetPipeline.Proofs.Pipeline.Correlation
import SetPipeline.Proofs.Pipeline.Delivery

/-! What a stream fails with. It fails just where its input fails, gives something that is no command or cannot be
closed, where a call ends in a failure that is not the command's own, or where a command needs a timeout that cannot be
measured; and it fails with one of these very failures. None of them is lost, and none comes from anywhere else. -/
namespace SetPipeline.Pipeline

section
variable {ds : List Datum} {raised : Option Failure} {i : Nat}

theorem ofElements_eq_item {d : Datum} : ofElements ds raised i = .item d ↔ ds[i]? = some d := by
  cases hd : ds[i]? <;> cases raised <;> simp [ofElements, hd]

theorem ofElements_eq_done : ofElements ds raised i = .done ↔ ds.length ≤ i ∧ raised = none := by
  rw [← List.getElem?_eq_none_iff]
  cases hd : ds[i]? <;> cases raised <;> simp [ofElements, hd]

theorem ofElements_eq_failure {f : Failure} :
    ofElements ds raised i = .failure f ↔ ds.length ≤ i ∧ raised = some f := by
  rw [← List.getElem?_eq_none_iff]
  cases hd : ds[i]? <;> cases raised <;> simp [ofElements, hd]

theorem ofCommands_eq_ofElements (cs : List Command) : ofCommands cs = ofElements (cs.map .command) none := by
  funext i
  cases hc : cs[i]? <;> simp [ofCommands, ofElements, hc]

theorem ofElements_within (ds : List Datum) (raised : Option Failure) :
    Source.Within (ofElements ds raised) ds.length := fun _ _ h =>
  (List.getElem?_eq_some_iff.1 (ofElements_eq_item.1 h)).1

end

/-- The failures that are not a command's own. -/
def IsFatal : Failure → Prop
  | .refused .. | .timedOut _ => False
  | _ => True

/-- The outcomes of a call that can be written to the log, and in which a refusal has a code that is a text. -/
def IsCoded (b : Batch) : Except Failure Datum → Prop
  | .ok d => IsLoggable b.room b.operation (.ok d)
  | .error (.refused _ (.text _)) => True
  | .error (.refused _ _) => False
  | .error _ => True

/-- The moves of a stream that is consumed to its end and whose calls end in any way. -/
def Move.IsCoded (b : Batch) : Move → Prop
  | .close => False
  | .settle _ o => Pipeline.IsCoded b o
  | .ask | .offer | .start | .expire _ | .wake _ _ => True

theorem Move.IsCoded.ne_close {b : Batch} {m : Move} (h : m.IsCoded b) : m ≠ .close := by
  rintro rfl
  exact h

theorem outcomeOf_isCoded {b : Batch} {ms : List Move} {i : Nat} {o : Except Failure Datum}
    (hms : ∀ m ∈ ms, m.IsCoded b) (h : outcomeOf ms i = some o) : IsCoded b o := by
  rcases mem_of_outcomeOf h with hsettle | ⟨-, rfl⟩
  · exact hms _ hsettle
  · trivial

theorem IsCoded.answerable_or {b : Batch} {o : Except Failure Datum} (h : IsCoded b o) :
    Answerable b o ∨ ∃ f, o = .error f ∧ IsFatal f := by
  cases o with
  | ok d => exact .inl (.value h)
  | error f =>
    cases f with
    | refused m code =>
      cases code with
      | text t => exact .inl (.refused m t)
      | _ => exact h.elim
    | timedOut m => exact .inl (.timedOut m)
    | _ => exact .inr ⟨_, rfl, trivial⟩

theorem respond_of_isFatal {room : Nat} {op : Operation} {c : Command} {f : Failure} (h : IsFatal f) :
    respond room op c (.error f) = .error (f.leaving .coroutine) := by
  cases f with
  | refused | timedOut => exact h.elim
  | _ => rfl

theorem IsCoded.of_respond {b : Batch} {c : Command} {o : Except Failure Datum} {f : Failure} (h : IsCoded b o)
    (hr : respond b.room b.operation c o = .error f) :
    ∃ g, o = .error g ∧ IsFatal g ∧ f = g.leaving .coroutine := by
  rcases h.answerable_or with ha | ⟨g, rfl, hg⟩
  · obtain ⟨r, hok⟩ : ∃ r, respond b.room b.operation c o = .ok r := ha.respond c
    rw [hok] at hr
    cases hr
  · rw [respond_of_isFatal hg] at hr
    cases hr
    exact ⟨g, rfl, hg, rfl⟩

section
variable {b : Batch} {ms : List Move} {s : State} {i : Nat} {f : Failure}

/-- A call that ended in a run was made for the command at its position, and it ended once. -/
theorem Run.ended (h : Run b ms s) {m : Move} {o : Except Failure Datum} (hm : m ∈ ms) (ho : m.outcome? i = some o) :
    outcomeOf ms i = some o ∧ ∃ c, b.call? i = some (i, c) := by
  induction h with
  | initial => cases hm
  | @next ms s t m' h hs ih =>
    rcases List.mem_append.1 hm with hm | hm
    · exact (ih hm).imp_left outcomeOf_append_of_some
    · obtain rfl := List.mem_singleton.1 hm
      have hstep := step_stepped hs
      have hrunning : ∃ c, s.flight? i = some ⟨i, c, .running⟩ := by
        cases hstep with
        | settles hf | expires _ hf =>
          simp only [Move.outcome?] at ho
          split at ho
          · next hi => exact ⟨_, hi ▸ hf⟩
          · cases ho
        | _ => cases ho
      obtain ⟨c, hf⟩ := hrunning
      obtain ⟨hmem, -⟩ := State.mem_of_flight? hf
      obtain ⟨hu, hfree, hnone⟩ : _ ∧ _ ∧ _ := h.accounted.flights _ hmem
      have hsource := (hstep.placed h.reachable.sound).commands _ hmem
      dsimp only at hu hnone hsource
      exact ⟨by rw [outcomeOf_append, hnone, ho]; rfl, c, by simp [Batch.call?, hsource, hu, hfree]⟩

/-- What can make a stream fail: its input fails, or gives something that is no command, or a call ends in a failure
that is not the command's own. -/
inductive Provoked (b : Batch) (ms : List Move) : Failure → Prop where
  | input {i : Nat} {f : Failure} : b.source i = .failure f → Provoked b ms f
  | item {i : Nat} {d : Datum} : b.source i = .item d → (∀ c, d ≠ .command c) →
    Provoked b ms (.misuse (.notCommand d.typeName))
  | call {i : Nat} {f : Failure} : .settle i (.error f) ∈ ms → IsFatal f → Provoked b ms (f.leaving .coroutine)

/-- Whatever fits can be written to the log. -/
def Batch.IsWritable (b : Batch) : Prop :=
  ∀ i c, b.source i = .item (.command c) → b.operation.unfit? c = none → c.isWritable = true

/-- Something keeps a command that fits from the executor. -/
def Barred (b : Batch) (f : Failure) : Prop :=
  ∃ i c, b.source i = .item (.command c) ∧ b.operation.unfit? c = none ∧ b.config.barred? c = some f

/-- A command fits, and the timeout that it needs cannot be measured. -/
def IsOverrun (b : Batch) : Prop :=
  b.config.isBeyondClock = true ∧ ∃ i c, b.source i = .item (.command c) ∧ b.operation.unfit? c = none

/-- Every failure of a stream comes from something that happened. -/
theorem Run.provoked_or (h : Run b ms s) (hms : ∀ m ∈ ms, m.IsCoded b) (hf : s.ending? = some (.failed f)) :
    Provoked b ms f ∨ Barred b f := by
  rcases h.ending hf with he | ⟨he, -⟩ | ⟨g, hg, hcause⟩
  · cases he
  · cases he
  cases hg
  cases hcause with
  | item hi hd => exact .inl (.item hi hd)
  | input hi => exact .inl (.input hi)
  | @call i c _ hi hcon =>
    cases concluded_of_conclusion hcon with
    | barred hu hg => exact .inr ⟨i, c, hi, hu, hg⟩
    | responded _ _ ho hr =>
      obtain ⟨g, rfl, hfatal, rfl⟩ := (outcomeOf_isCoded hms ho).of_respond hr
      rcases mem_of_outcomeOf ho with hsettle | ⟨-, htime⟩
      · exact .inl (.call hsettle hfatal)
      · cases htime
        exact hfatal.elim

theorem Run.concluded (h : Run b ms s) (he : s.ending? = some .exhausted) (hi : i < s.pulled) :
    ∃ c r, b.source i = .item (.command c) ∧ b.conclusion c (outcomeOf ms i) = some (.ok r) := by
  have hanswered := h.reachable.sound.answered_of_exhausted he
  obtain ⟨p, hp, rfl⟩ := List.mem_map.1 (hanswered.symm.subset (List.mem_range.2 hi))
  obtain ⟨c, hc, hcon⟩ := h.accounted.yielded p hp
  exact ⟨c, p.2, hc, hcon⟩

/-- A stream that ends by itself met nothing to fail with. -/
theorem Run.unprovoked (h : Run b ms s) {ds : List Datum} {raised : Option Failure}
    (hb : b.source = ofElements ds raised) (hallows : b.config.allows 0 = true)
    (he : s.ending? = some .exhausted) : ¬∃ f, Provoked b ms f ∨ Barred b f := by
  obtain ⟨-, -, hdone⟩ := h.reachable.sound.over hallows he
  obtain ⟨hlen, rfl⟩ := ofElements_eq_done.1 (hb ▸ hdone)
  have htaken {i : Nat} {d : Datum} (hi : b.source i = .item d) : i < s.pulled :=
    Nat.lt_of_lt_of_le (ofElements_within ds none i d (hb ▸ hi)) hlen
  rintro ⟨f, hf | hf⟩
  · cases hf with
    | input hi =>
      obtain ⟨-, hraised⟩ := ofElements_eq_failure.1 (hb ▸ hi)
      cases hraised
    | item hi hd =>
      obtain ⟨c, r, hc, -⟩ := h.concluded he (htaken hi)
      cases hi.symm.trans hc
      exact hd c rfl
    | @call i _ hsettle hfatal =>
      obtain ⟨ho, c, hcall⟩ := h.ended hsettle (i := i) (if_pos rfl)
      obtain ⟨-, hsource, hu, -⟩ := Batch.call?_eq_some hcall
      obtain ⟨c', r, hc, hcon⟩ := h.concluded he (htaken hsource)
      cases hsource.symm.trans hc
      cases concluded_of_conclusion hcon with
      | rejected hu' => cases hu.symm.trans hu'
      | responded _ _ ho' hr =>
        cases ho.symm.trans ho'
        cases (respond_of_isFatal hfatal).symm.trans hr
  · obtain ⟨i, c, hi, hu, hg⟩ := hf
    obtain ⟨c', r, hc, hcon⟩ := h.concluded he (htaken hi)
    cases hi.symm.trans hc
    simp [Batch.conclusion, hu, hg] at hcon

theorem Goes.isCoded {m : Move} (h : Goes (fun _ => .ok .none) s m) : m.IsCoded b := by
  cases h with
  | settle => exact isLoggable_none b.room b.operation
  | ask | offer | start | wake => trivial

theorem Sound.answered_nodup (h : Sound b s) : s.answered.Nodup := by
  obtain ⟨l, hperm, hsub⟩ := h.answered
  exact hperm.nodup_iff.1 (List.nodup_range.sublist hsub)

end

/-- What the consumer of a stream can see as an exception: something that happened, that no timeout can be set, or
what closing the input raised, which hides the others. -/
inductive Surfacing (b : Batch) (ms : List Move) (s : State) : Failure → Prop where
  | event {f : Failure} : b.masking? s = none → Provoked b ms f → Surfacing b ms s f.surfaced
  | overrun : b.masking? s = none → IsOverrun b → Surfacing b ms s (.broken .overflow Failure.beyondDoubles)
  | closing {f : Failure} : b.masking? s = some f → Surfacing b ms s f

/-- How a stream of any elements stands to failures, as far as it is consumed: it is bounded, its responses are those
of different commands and each is made of the outcome of its own call, and it raises what happened. Once no move is
left it has raised something just where something did happen, and else its input is through. -/
structure Surfaced (b : Batch) (ds : List Datum) (ms : List Move) (s : State) : Prop where
  bounded : ms.length ≤ 6 * ds.length + 3
  distinct : s.answered.Nodup
  own : ∀ p ∈ s.yielded, ∃ c, ds[p.1]? = some (.command c) ∧ b.conclusion c (outcomeOf ms p.1) = some (.ok p.2)
  surfacing : ∀ f, b.exit? s = some (.failed f) → Surfacing b ms s f
  fails_iff : (∀ m, m.IsCoded b → b.step s m = none) →
    ((∃ f, b.exit? s = some (.failed f)) ↔ ∃ f, Surfacing b ms s f)
  exhausted : (∀ m, m.IsCoded b → b.step s m = none) → (¬∃ f, Surfacing b ms s f) → b.exit? s = some .exhausted

section
variable {b : Batch} {ms : List Move} {s : State} {f : Failure}

/-- A command that can be written is barred only by a timeout that cannot be measured. -/
theorem Barred.overrun (hwritable : b.IsWritable) (h : Barred b f) :
    IsOverrun b ∧ f = .broken .overflow Failure.beyondDoubles := by
  obtain ⟨i, c, hi, hu, hg⟩ := h
  rw [Config.barred?_of_isWritable (hwritable i c hi hu)] at hg
  split at hg
  · next hclock =>
    cases hg
    exact ⟨⟨hclock, i, c, hi, hu⟩, rfl⟩
  · cases hg

theorem IsOverrun.barred (hwritable : b.IsWritable) (h : IsOverrun b) :
    Barred b (.broken .overflow Failure.beyondDoubles) := by
  obtain ⟨hclock, i, c, hi, hu⟩ := h
  exact ⟨i, c, hi, hu, by rw [Config.barred?_of_isWritable (hwritable i c hi hu), if_pos hclock]⟩

theorem Run.surfacing (h : Run b ms s) (hms : ∀ m ∈ ms, m.IsCoded b) (hwritable : b.IsWritable)
    (he : b.exit? s = some (.failed f)) : Surfacing b ms s f := by
  cases hm : b.masking? s with
  | some g =>
    rw [exit?_of_masking hm (isSome_of_exit? he)] at he
    cases he
    exact .closing hm
  | none =>
    obtain ⟨g, hg, rfl⟩ := (exit?_eq_failed hm).1 he
    rcases h.provoked_or hms hg with hprovoked | hbarred
    · exact .event hm hprovoked
    · obtain ⟨hover, rfl⟩ := hbarred.overrun hwritable
      exact .overrun hm hover

theorem Run.not_exhausted (h : Run b ms s) (hwritable : b.IsWritable) {ds : List Datum}
    {raised : Option Failure} (hb : b.source = ofElements ds raised) (hallows : b.config.allows 0 = true)
    (hf : Surfacing b ms s f) : b.exit? s ≠ some .exhausted := by
  intro he
  cases hf with
  | closing hm =>
    rw [exit?_of_masking hm (isSome_of_exit? he)] at he
    cases he
  | event hm hprovoked =>
    exact h.unprovoked hb hallows ((exit?_eq_exhausted hm).1 he) ⟨_, .inl hprovoked⟩
  | overrun hm hover =>
    exact h.unprovoked hb hallows ((exit?_eq_exhausted hm).1 he) ⟨_, .inr (hover.barred hwritable)⟩

theorem Run.exits_of_stuck (h : Run b ms s) (hms : ∀ m ∈ ms, m.IsCoded b)
    (hstuck : ∀ m, m.IsCoded b → b.step s m = none) :
    b.exit? s = some .exhausted ∨ ∃ f, b.exit? s = some (.failed f) := by
  have hgoes (m : Move) (hm : Goes (fun _ => .ok .none) s m) : b.step s m = none := hstuck m hm.isCoded
  cases hm : b.masking? s with
  | some f => exact .inr ⟨f, exit?_of_masking hm (h.reachable.sound.ended_of_stuck _ hgoes)⟩
  | none =>
    refine (h.over_of_stuck (fun m hm => (hms m hm).ne_close) hgoes).imp (exit?_eq_exhausted hm).2 ?_
    rintro ⟨g, hg, -⟩
    exact ⟨_, (exit?_eq_failed hm).2 ⟨g, hg, rfl⟩⟩

end

/-- Under any limit every stream of any elements whose commands can be written surfaces what happened, in whatever
order its calls end. -/
theorem Run.surfaced {op : Operation} {ds : List Datum} {raised : Option Failure} {limit : Int}
    {timeout : Option Number} {room : Nat} {closing : State → Option Failure} {ms : List Move} {s : State}
    (hlimit : 1 ≤ limit) (hwritable : ∀ c, .command c ∈ ds → op.unfit? c = none → c.isWritable = true)
    (h : Run ⟨op, ofElements ds raised, ⟨.int limit, timeout⟩, room, closing⟩ ms s)
    (hms : ∀ m ∈ ms, m.IsCoded ⟨op, ofElements ds raised, ⟨.int limit, timeout⟩, room, closing⟩) :
    Surfaced ⟨op, ofElements ds raised, ⟨.int limit, timeout⟩, room, closing⟩ ds ms s := by
  have hlen := h.length_add_work_le (ofElements_within ds raised) fun m hm => (hms m hm).ne_close
  have hgiven : Batch.IsWritable ⟨op, ofElements ds raised, ⟨.int limit, timeout⟩, room, closing⟩ :=
    fun i c hi => hwritable c (List.mem_of_getElem? (ofElements_eq_item.1 hi))
  have hexits := h.exits_of_stuck hms
  constructor
  case bounded => omega
  case distinct => exact h.reachable.sound.answered_nodup
  case own =>
    intro p hp
    obtain ⟨c, hc, hcon⟩ := h.accounted.yielded p hp
    exact ⟨c, ofElements_eq_item.1 hc, hcon⟩
  case surfacing => exact fun _ => h.surfacing hms hgiven
  case fails_iff =>
    intro hstuck
    constructor
    · rintro ⟨f, hf⟩
      exact ⟨f, h.surfacing hms hgiven hf⟩
    · rintro ⟨f, hf⟩
      exact (hexits hstuck).resolve_left (h.not_exhausted hgiven rfl (allows_zero hlimit timeout) hf)
  case exhausted =>
    intro hstuck hnone
    exact (hexits hstuck).resolve_right fun ⟨f, hf⟩ => hnone ⟨f, h.surfacing hms hgiven hf⟩

theorem surfaced_stray : (1 : Int) ≤ 2 ∧
    (∀ c, .command c ∈ [Datum.command (.key (some [107])), .none] → Operation.unfit? .card c = none →
      c.isWritable = true) ∧
    ∃ s, Run stray strayMoves s ∧ (∀ m ∈ strayMoves, m.IsCoded stray) ∧
      stray.exit? s = some (.failed (.misuse (.notCommand "NoneType"))) ∧
      Surfaced stray [.command (.key (some [107])), .none] strayMoves s := by
  obtain ⟨s, hrun, he, -⟩ := exists_run_stray
  have hwritable : ∀ c, .command c ∈ [Datum.command (.key (some [107])), .none] →
      Operation.unfit? .card c = none → c.isWritable = true := by
    rintro c hc -
    have hkey : c = .key (some [107]) := by simpa using hc
    rw [hkey]
    rfl
  have hcount : IsLoggable stray.room stray.operation (.ok (.int 1)) := .inl ⟨.int 1, rfl⟩
  have hms : ∀ m ∈ strayMoves, m.IsCoded stray := by simp [strayMoves, Move.IsCoded, IsCoded, hcount]
  have hexit : stray.exit? s = some (.failed (.misuse (.notCommand "NoneType"))) :=
    exit?_quiet_eq_failed.2 ⟨_, he, rfl⟩
  exact ⟨by decide, hwritable, s, hrun, hms, hexit, hrun.surfaced (by decide) hwritable hms⟩

theorem overlong_unprovoked : ∃ ms s, Run overlong ms s ∧ (∀ m ∈ ms, m.IsCoded overlong) ∧
    (∃ f, overlong.exit? s = some (.failed f)) ∧ ¬∃ f, Provoked overlong ms f := by
  have hsource : overlong.source = ofElements [.command (.key (some [107]))] none := ofCommands_eq_ofElements _
  have hallows : overlong.config.allows 0 = true := allows_zero (by decide) _
  obtain ⟨ms, s, hrun, hms, hstuck⟩ :=
    Run.exists_stuck Run.initial (hsource ▸ ofElements_within _ _)
      (fun m hm => Move.IsCoded.ne_close (b := overlong) hm) (by simp)
  have hover : Barred overlong (.broken .overflow Failure.beyondDoubles) :=
    ⟨0, .key (some [107]), rfl, rfl, by simp [Config.barred?, Command.unwritable?, overlong_isBeyondClock]⟩
  refine ⟨ms, s, hrun, hms, ?_, ?_⟩
  · obtain ⟨f, hf, -⟩ := (hrun.over_of_stuck (fun m hm => (hms m hm).ne_close) fun m hm =>
      hstuck m hm.isCoded).resolve_left fun he => hrun.unprovoked hsource hallows he ⟨_, .inr hover⟩
    exact ⟨_, exit?_quiet_eq_failed.2 ⟨f, hf, rfl⟩⟩
  · rintro ⟨f, hf⟩
    cases hf with
    | @input i _ hi => rcases ofCommands_isCommands _ i with hd | ⟨c, hd⟩ <;> cases hi.symm.trans hd
    | @item i d hi hd =>
      obtain ⟨c, -, rfl⟩ := ofCommands_eq_item hi
      exact hd c rfl
    | @call i f hsettle _ =>
      -- no call begins under such a timeout, so none has ended
      obtain ⟨-, c, hcall⟩ := hrun.ended hsettle (i := i) (if_pos rfl)
      obtain ⟨-, -, -, hfree⟩ := Batch.call?_eq_some hcall
      cases overlong_isBeyondClock.symm.trans (Config.barred?_eq_none.1 hfree).2

/-- An input that has nothing to give and cannot be closed. -/
def unclosable : Batch := ⟨.card, ofElements [] none, ⟨.int 1, none⟩, 900, fun _ => some (.broken .runtime "boom")⟩

theorem unclosable_unprovoked : ∃ ms s, Run unclosable ms s ∧ (∀ m ∈ ms, m.IsCoded unclosable) ∧
    (∃ f, unclosable.exit? s = some (.failed f)) ∧ ¬∃ f, Provoked unclosable ms f := by
  have done := ((Run.initial (b := unclosable)).next (m := .ask) rfl).next (m := .offer) rfl
  refine ⟨_, _, done.next (m := .wake true []) rfl, by simp [Move.IsCoded], ⟨.broken .runtime "boom", rfl⟩, ?_⟩
  rintro ⟨f, hf⟩
  cases hf with
  | input hi => cases hi
  | item hi => cases hi
  | call hsettle => simp at hsettle

def untimed : Batch := .quiet .card (ofCommands [.key (some [107])]) ⟨.int 1, none⟩ 900

theorem untimed_altered : ∃ ms s f, Run untimed ms s ∧ (∀ m ∈ ms, m.IsCoded untimed) ∧
    untimed.exit? s = some (.failed f) ∧ ¬Provoked untimed ms f := by
  have begun := (((Run.initial (b := untimed)).next (m := .ask) rfl).next (m := .offer) rfl).next
    (m := .wake true []) rfl
  have raised := (begun.next (m := .start) rfl).next (m := .settle 0 (.error (.broken .stopAsyncIteration "boom"))) rfl
  refine ⟨_, _, .broken .runtime "async generator raised StopAsyncIteration",
    raised.next (m := .wake false [0]) rfl, by simp [Move.IsCoded, IsCoded], rfl, ?_⟩
  generalize hf : Failure.broken .runtime "async generator raised StopAsyncIteration" = f
  intro hprovoked
  cases hprovoked with
  | @input i _ hi => rcases ofCommands_isCommands _ i with hd | ⟨c, hd⟩ <;> cases hi.symm.trans hd
  | item => cases hf
  | call hsettle =>
    obtain ⟨-, rfl⟩ : _ ∧ _ = Failure.broken .stopAsyncIteration "boom" := by simpa using hsettle
    cases hf

/-- A stream can fail with nothing that its input or a call came to: with a timeout that cannot be measured, with an
input that cannot be closed, and with an exception that does not leave it as it is. -/
theorem not_provoked_of_failed :
    (∃ ms s, Run overlong ms s ∧ (∀ m ∈ ms, m.IsCoded overlong) ∧ (∃ f, overlong.exit? s = some (.failed f)) ∧
      ¬∃ f, Provoked overlong ms f) ∧
    (∃ ms s, Run unclosable ms s ∧ (∀ m ∈ ms, m.IsCoded unclosable) ∧
      (∃ f, unclosable.exit? s = some (.failed f)) ∧ ¬∃ f, Provoked unclosable ms f) ∧
    ∃ ms s f, Run untimed ms s ∧ (∀ m ∈ ms, m.IsCoded untimed) ∧ untimed.exit? s = some (.failed f) ∧
      ¬Provoked untimed ms f :=
  ⟨overlong_unprovoked, unclosable_unprovoked, untimed_altered⟩

end SetPipeline.Pipeline
