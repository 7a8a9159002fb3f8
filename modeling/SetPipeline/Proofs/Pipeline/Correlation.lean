import SetPipeline.Proofs.Pipeline.Ending
import SetPipeline.Proofs.Pipeline.Termination

/-! Every command of a finite list gets one response, and it is made of the outcome of that very command's
call. This holds whatever the order in which the pull and the calls end, however they are grouped into rounds
and at whatever pace the consumer asks. -/
namespace SetPipeline.Pipeline

def ofCommands (cs : List Command) : Source := fun i =>
  match cs[i]? with
  | some c => .item (.command c)
  | none => .done

theorem ofCommands_eq_item {cs : List Command} {i : Nat} {d : Datum} (h : ofCommands cs i = .item d) :
    ∃ c, cs[i]? = some c ∧ d = .command c := by
  unfold ofCommands at h
  split at h
  · next c hc =>
    cases h
    exact ⟨c, hc, rfl⟩
  · cases h

theorem ofCommands_eq_command {cs : List Command} {i : Nat} {c : Command}
    (h : ofCommands cs i = .item (.command c)) : cs[i]? = some c := by
  obtain ⟨c', hc', he⟩ := ofCommands_eq_item h
  cases he
  exact hc'

theorem ofCommands_eq_done {cs : List Command} {i : Nat} (h : ofCommands cs i = .done) : cs.length ≤ i := by
  unfold ofCommands at h
  split at h
  · cases h
  · next hc => exact List.getElem?_eq_none_iff.1 hc

theorem ofCommands_of_getElem? {cs : List Command} {i : Nat} {c : Command} (h : cs[i]? = some c) :
    ofCommands cs i = .item (.command c) := by
  simp [ofCommands, h]

/-- An input that gives nothing but commands, and need not ever be done. -/
def Source.IsCommands (src : Source) : Prop := ∀ i, src i = .done ∨ ∃ c, src i = .item (.command c)

theorem ofCommands_isCommands (cs : List Command) : Source.IsCommands (ofCommands cs) := by
  intro i
  unfold ofCommands
  split
  · exact .inr ⟨_, rfl⟩
  · exact .inl rfl

theorem ofCommands_within (cs : List Command) : Source.Within (ofCommands cs) cs.length := by
  intro i d h
  obtain ⟨c, hc, -⟩ := ofCommands_eq_item h
  exact (List.getElem?_eq_some_iff.1 hc).1

/-- What is written to the log about an outcome can be written: an output that is refused, and a code. -/
def IsLoggable (room : Nat) (op : Operation) : Except Failure Datum → Prop
  | .ok d => (∃ v, Response.checkOutput op.responseKind d = .ok v) ∨ d.isWritable room = true
  | .error (.refused _ code) => code.unshown? room = none
  | .error _ => True

theorem isLoggable_none (room : Nat) (op : Operation) : IsLoggable room op (.ok .none) :=
  .inl ⟨.none, by cases op <;> rfl⟩

/-- A value is answered just where it is accepted or can be written. -/
theorem exists_respond_iff {room : Nat} {op : Operation} {c : Command} {d : Datum} :
    (∃ r, respond room op c (.ok d) = .ok r) ↔ IsLoggable room op (.ok d) := by
  cases hv : Response.checkOutput op.responseKind d with
  | ok v => simp [respond_of_checked hv, IsLoggable, hv]
  | error is => simp [respond_of_unchecked hv, logging_eq_ok, IsLoggable, hv, Datum.isWritable]

/-- The outcomes of a call that are answered: a value, a refusal with a code that is a text, or a timeout. -/
inductive Answerable (b : Batch) : Except Failure Datum → Prop where
  | value {d : Datum} : IsLoggable b.room b.operation (.ok d) → Answerable b (.ok d)
  | refused (message code : String) : Answerable b (.error (.refused message (.text code)))
  | timedOut (message : String) : Answerable b (.error (.timedOut message))

theorem Answerable.none (b : Batch) : Answerable b (.ok .none) := .value (isLoggable_none _ _)

theorem Answerable.respond {b : Batch} {o : Except Failure Datum} (h : Answerable b o) (c : Command) :
    ∃ r, respond b.room b.operation c o = .ok r := by
  cases h with
  | value hd => exact exists_respond_iff.2 hd
  | refused m code => exact ⟨_, respond_refused b.room b.operation c m code⟩
  | timedOut m => exact ⟨_, rfl⟩

/-- The moves of a stream that is consumed to its end and whose calls are all answered. -/
def Move.IsRegular (b : Batch) : Move → Prop
  | .close => False
  | .settle _ o => Answerable b o
  | .ask | .offer | .start | .expire _ | .wake _ _ => True

theorem Move.IsRegular.ne_close {b : Batch} {m : Move} (h : m.IsRegular b) : m ≠ .close := by
  rintro rfl
  exact h

theorem outcomeOf_answerable {b : Batch} {ms : List Move} {i : Nat} {o : Except Failure Datum}
    (hms : ∀ m ∈ ms, m.IsRegular b) (h : outcomeOf ms i = some o) : Answerable b o := by
  rcases mem_of_outcomeOf h with hsettle | ⟨-, rfl⟩
  · exact hms _ hsettle
  · exact .timedOut _

/-- Where the commands of an input are: answered, in flight, held by a pull that is over, or not yet asked
for. -/
structure Splits (cs : List Command) (s : State) : Prop where
  parts : (s.answered ++ s.positions ++ s.held ++ List.range' s.pulled (cs.length - s.pulled)).Perm
    (List.range cs.length)
  answered : ∀ p ∈ s.yielded, cs[p.1]? = some p.2.input
  flights : ∀ f ∈ s.flights, cs[f.position]? = some f.command
  held : s.held.length ≤ 1
  given : ∀ i d, s.pull = .given i (.item d) → ∃ c, cs[i]? = some c ∧ d = .command c

/-- Every run of calls that are all answered keeps track of every command, is over after so many moves, and
leaves each position with the conclusion of its command under the outcome of its own call. -/
def AnswersExactlyOnce (b : Batch) (cs : List Command) : Prop :=
  ∀ ms s, Run b ms s → (∀ m ∈ ms, m.IsRegular b) →
    Splits cs s ∧ ms.length ≤ 6 * cs.length + 3 ∧
      ((∀ m, m.IsRegular b → b.step s m = none) →
        b.exit? s = some .exhausted ∧
          (s.yielded.map fun p => (p.1, some (Except.ok p.2))).Perm
            (cs.mapIdx fun i c => (i, b.conclusion c (outcomeOf ms i))))

section
variable {b : Batch} {cs : List Command} {ms : List Move} {o : Outcomes} {s : State}

theorem Accounted.source_eq_item (ha : Accounted b o s) (hp : Placed b s) {i : Nat} (hi : i < s.pulled) :
    ∃ d, b.source i = .item d := by
  have hmem := hp.split.symm.subset (List.mem_range.2 hi)
  rcases List.mem_append.1 hmem with hmem | hheld
  · rcases List.mem_append.1 hmem with hans | hfly
    · obtain ⟨p, hy, rfl⟩ := List.mem_map.1 hans
      obtain ⟨c, hc, -⟩ := ha.yielded p hy
      exact ⟨_, hc⟩
    · obtain ⟨f, hf, rfl⟩ := List.mem_map.1 hfly
      exact ⟨_, hp.commands f hf⟩
  · unfold State.held at hheld
    split at hheld
    · next j d hg =>
      rw [List.mem_singleton.1 hheld]
      exact ⟨d, (hp.given _ _ hg).1⟩
    · cases hheld

theorem Accounted.pulled_le (ha : Accounted b o s) (hp : Placed b s) {n : Nat} (hn : b.source.Within n) :
    s.pulled ≤ n := by
  rcases Nat.eq_zero_or_pos s.pulled with hz | hpos
  · omega
  · obtain ⟨d, hd⟩ := ha.source_eq_item hp (Nat.sub_lt hpos Nat.one_pos)
    have hlt := hn _ _ hd
    omega

theorem Accounted.splits (ha : Accounted b o s) (hp : Placed b s) (hb : b.source = ofCommands cs) :
    Splits cs s := by
  have hle : s.pulled ≤ cs.length := ha.pulled_le hp (hb ▸ ofCommands_within cs)
  refine ⟨?_, ?_, ?_, ?_, ?_⟩
  · have hrange : List.range s.pulled ++ List.range' s.pulled (cs.length - s.pulled) = List.range cs.length := by
      have happend := List.range'_append_1 (s := 0) (m := s.pulled) (n := cs.length - s.pulled)
      simpa [List.range_eq_range', Nat.add_sub_cancel' hle] using happend
    rw [← hrange]
    exact hp.split.append_right _
  · intro p hy
    obtain ⟨c, hc, hcon⟩ := ha.yielded p hy
    rw [conclusion_input hcon]
    exact ofCommands_eq_command (hb ▸ hc)
  · exact fun f hf => ofCommands_eq_command (hb ▸ hp.commands f hf)
  · unfold State.held
    split <;> simp
  · exact fun i d hg => ofCommands_eq_item (hb ▸ (hp.given _ _ hg).1)

/-- No command that fits is barred from the executor. -/
def Batch.IsUnbarred (b : Batch) : Prop :=
  ∀ i c, b.source i = .item (.command c) → b.operation.unfit? c = none → b.config.barred? c = none

theorem Batch.IsUnbarred.conclusion_ne_error (hc : b.IsUnbarred) {i : Nat} {c : Command}
    (hi : b.source i = .item (.command c)) {x : Option (Except Failure Datum)}
    (hx : ∀ y, x = some y → Answerable b y) (f : Failure) : b.conclusion c x ≠ some (.error f) := by
  intro hcon
  cases concluded_of_conclusion hcon with
  | barred hu hg => cases (hc i c hi hu).symm.trans hg
  | @responded y _ _ _ hy hr =>
    obtain ⟨r, hok⟩ : ∃ r, respond b.room b.operation c y = .ok r := (hx y hy).respond c
    cases hok.symm.trans hr

/-- Commands whose calls are all answered do not break a stream. -/
theorem Run.ending?_ne_failed (h : Run b ms s) (hms : ∀ i y, outcomeOf ms i = some y → Answerable b y)
    (hb : b.source.IsCommands) (hc : b.IsUnbarred) (f : Failure) : s.ending? ≠ some (.failed f) := by
  intro he
  rcases h.ending he with he | ⟨he, -⟩ | ⟨g, -, hcause⟩
  · cases he
  · cases he
  · cases hcause with
    | call hi hcon => exact hc.conclusion_ne_error hi (hms _) _ hcon
    | @item i d hi hd =>
      rcases hb i with hi' | ⟨c, hi'⟩
      · cases hi.symm.trans hi'
      · cases hi.symm.trans hi'
        exact hd c rfl
    | @input i _ hi =>
      rcases hb i with hi' | ⟨c, hi'⟩ <;> cases hi.symm.trans hi'

theorem Run.isWhole (h : Run b ms s) (hms : ∀ m ∈ ms, m.IsRegular b) (hb : b.source.IsCommands)
    (hc : b.IsUnbarred) : s.IsWhole := by
  intro e he
  rcases h.ending he with rfl | ⟨-, hclose⟩ | ⟨f, rfl, -⟩
  · rfl
  · exact absurd rfl (hms _ hclose).ne_close
  · exact absurd he (h.ending?_ne_failed (fun _ _ => outcomeOf_answerable hms) hb hc f)

theorem Goes.isRegular {m : Move} {o : Nat → Except Failure Datum} (ho : ∀ i, Answerable b (o i))
    (h : Goes o s m) : m.IsRegular b := by
  cases h with
  | ask | offer | start | wake => trivial
  | settle f => exact ho f.position

/-- Once no move is left, a stream that was not closed has come to its end by itself, or it has failed. -/
theorem Run.over_of_stuck {ms : List Move} (h : Run b ms s) (hms : ∀ m ∈ ms, m ≠ .close)
    (hstuck : ∀ m, Goes (fun _ => .ok .none) s m → b.step s m = none) :
    s.ending? = some .exhausted ∨ ∃ f, s.ending? = some (.failed f) ∧ Cause b (outcomeOf ms) f := by
  obtain ⟨e, he⟩ := Option.isSome_iff_exists.1 (h.reachable.sound.ended_of_stuck _ hstuck)
  rcases h.ending he with rfl | ⟨-, hclose⟩ | ⟨f, rfl, hf⟩
  · exact .inl he
  · exact absurd rfl (hms _ hclose)
  · exact .inr ⟨f, he, hf⟩

theorem Sound.idle_of_exhausted (hs : Sound b s) (he : s.ending? = some .exhausted) :
    s.flights = [] ∧ s.pull = .idle ∧ (s.exhausted = true ∨ b.config.allows 0 = false) := by
  have hst := hs.staged
  unfold State.ending? at he
  unfold Staged at hst
  split at hst <;> simp_all

theorem Sound.exhausted (hs : Sound b s) (hallows : b.config.allows 0 = true) (he : s.ending? = some .exhausted) :
    s.flights = [] ∧ s.pull = .idle ∧ s.exhausted = true := by
  obtain ⟨hfl, hpull, hex⟩ := hs.idle_of_exhausted he
  exact ⟨hfl, hpull, hex.resolve_right (by simp [hallows])⟩

/-- A stream that ends by itself has handed over a response for every item that it took. -/
theorem Sound.answered_of_exhausted (hs : Sound b s) (he : s.ending? = some .exhausted) :
    s.answered.Perm (List.range s.pulled) := by
  obtain ⟨hfl, hpull, -⟩ := hs.idle_of_exhausted he
  have hsplit := (hs.placed (.of_exhausted he)).split
  have hpositions : s.positions = [] := by rw [State.positions, hfl, List.map_nil]
  rw [hpositions, State.held_eq_nil (by simp [hpull]), List.append_nil, List.append_nil] at hsplit
  exact hsplit

theorem Sound.over (hs : Sound b s) (hallows : b.config.allows 0 = true) (he : s.ending? = some .exhausted) :
    s.flights = [] ∧ s.pull = .idle ∧ b.source s.pulled = .done := by
  obtain ⟨hfl, hpull, hex⟩ := hs.exhausted hallows he
  exact ⟨hfl, hpull, ((hs.placed (.of_exhausted he)).exhausted hex).2⟩

/-- A stream that is over without having been broken off has taken everything and has nothing left. -/
structure Through (cs : List Command) (s : State) : Prop where
  flights : s.flights = []
  held : s.held = []
  pulled : s.pulled = cs.length

theorem Sound.through (hs : Sound b s) (ha : Accounted b o s) (hb : b.source = ofCommands cs)
    (hallows : b.config.allows 0 = true) (he : s.ending? = some .exhausted) : Through cs s := by
  have hp := hs.placed (.of_exhausted he)
  obtain ⟨hfl, hpull, hdone⟩ := hs.over hallows he
  refine ⟨hfl, State.held_eq_nil (by simp [hpull]), Nat.le_antisymm ?_ ?_⟩
  · exact ha.pulled_le hp (hb ▸ ofCommands_within cs)
  · exact ofCommands_eq_done (hb ▸ hdone)

theorem Through.answered (h : Through cs s) (hp : Placed b s) : s.answered.Perm (List.range cs.length) := by
  have hsplit := hp.split
  rw [h.held, h.pulled] at hsplit
  simpa [State.positions, h.flights] using hsplit

theorem Accounted.answers (ha : Accounted b (outcomeOf ms) s) (hs : Sound b s) (hb : b.source = ofCommands cs)
    (hallows : b.config.allows 0 = true) (he : s.ending? = some .exhausted) :
    (s.yielded.map fun p => (p.1, some (Except.ok p.2))).Perm
      (cs.mapIdx fun i c => (i, b.conclusion c (outcomeOf ms i))) := by
  have hanswered := (hs.through ha hb hallows he).answered (hs.placed (.of_exhausted he))
  -- both sides are the positions with one and the same conclusion for each
  have hleft : (s.yielded.map fun p => (p.1, some (Except.ok p.2))) =
      s.answered.map fun i => (i, (cs[i]?).bind fun c => b.conclusion c (outcomeOf ms i)) := by
    rw [State.answered, List.map_map]
    refine List.map_congr_left fun p hy => ?_
    obtain ⟨c, hc, hcon⟩ := ha.yielded p hy
    simp [ofCommands_eq_command (hb ▸ hc), hcon]
  have hright : (cs.mapIdx fun i c => (i, b.conclusion c (outcomeOf ms i))) =
      (List.range cs.length).map fun i => (i, (cs[i]?).bind fun c => b.conclusion c (outcomeOf ms i)) := by
    refine List.ext_getElem (by simp) fun i hi _ => ?_
    have hi' : i < cs.length := by simpa using hi
    simp [hi']
  rw [hleft, hright]
  exact hanswered.map _

theorem answersExactlyOnce_of_isUnbarred {op : Operation} {config : Config} {room : Nat}
    (hallows : config.allows 0 = true) (hc : (Batch.quiet op (ofCommands cs) config room).IsUnbarred) :
    AnswersExactlyOnce (.quiet op (ofCommands cs) config room) cs := by
  intro ms s h hms
  have hs := h.reachable.sound
  have ha := h.accounted
  have hwhole := h.isWhole hms (ofCommands_isCommands cs) hc
  have hlen := h.length_add_work_le (ofCommands_within cs) fun m hm => (hms m hm).ne_close
  refine ⟨ha.splits (hs.placed hwhole) rfl, by omega, fun hstuck => ?_⟩
  have he : s.ending? = some .exhausted := by
    obtain ⟨e, he⟩ := Option.isSome_iff_exists.1
      (hs.ended_of_stuck (fun _ => .ok .none) fun m hm => hstuck m (hm.isRegular fun _ => .none _))
    rw [he, hwhole e he]
  exact ⟨exit?_quiet_eq_exhausted.2 he, ha.answers hs rfl hallows he⟩

/-- A command that fits and is barred is never answered. -/
theorem AnswersExactlyOnce.isUnbarred (h : AnswersExactlyOnce b cs) (hb : b.source = ofCommands cs) :
    b.IsUnbarred := by
  intro i c hi hu
  obtain ⟨ms, s, hrun, hms, hstuck⟩ :=
    Run.exists_stuck Run.initial (hb ▸ ofCommands_within cs) (fun m hm => Move.IsRegular.ne_close (b := b) hm) (by simp)
  obtain ⟨hlt, rfl⟩ := List.getElem?_eq_some_iff.1 (ofCommands_eq_command (hb ▸ hi))
  have hin : (i, b.conclusion cs[i] (outcomeOf ms i)) ∈ cs.mapIdx fun i c => (i, b.conclusion c (outcomeOf ms i)) :=
    List.mem_mapIdx.2 ⟨i, hlt, rfl⟩
  obtain ⟨p, -, hp⟩ := List.mem_map.1 ((((h ms s hrun hms).2.2 hstuck).2).symm.subset hin)
  have hcon := (Prod.mk.inj hp).2
  cases hg : b.config.barred? cs[i] with
  | none => rfl
  | some g => simp [Batch.conclusion, hu, hg] at hcon

end

theorem allows_zero {limit : Int} (h : 1 ≤ limit) (timeout : Option Number) :
    (Config.mk (.int limit) timeout).allows 0 = true :=
  Number.int_lt_int.2 (Int.lt_of_lt_of_le Int.zero_lt_one h)

/-- Commands that can be written are barred only by a timeout that cannot be measured. -/
theorem isUnbarred_iff {op : Operation} {cs : List Command} {config : Config} {room : Nat}
    (h : ∀ c ∈ cs, op.unfit? c = none → c.isWritable = true) :
    (Batch.quiet op (ofCommands cs) config room).IsUnbarred ↔
      (config.isBeyondClock = true → ∀ c ∈ cs, (op.unfit? c).isSome) := by
  constructor
  · intro hc hclock c hmem
    obtain ⟨i, hi⟩ := List.getElem?_of_mem hmem
    cases hu : op.unfit? c with
    | some u => rfl
    | none =>
      have hmeasured := (Config.barred?_eq_none.1 (hc i c (ofCommands_of_getElem? hi) hu)).2
      cases hclock.symm.trans hmeasured
  · intro hclock i c hi hu
    have hmem : c ∈ cs := List.mem_of_getElem? (ofCommands_eq_command hi)
    refine Config.barred?_eq_none.2 ⟨h c hmem hu, Bool.eq_false_iff.2 fun hbeyond => ?_⟩
    have hunfit := hclock hbeyond c hmem
    rw [show op.unfit? c = none from hu] at hunfit
    cases hunfit

/-- Under any limit a list of commands that can be written is answered exactly once just where the timeout can be
measured, or no command gets as far as to need it. -/
theorem answersExactlyOnce_iff (op : Operation) (cs : List Command) (limit : Int) (timeout : Option Number)
    (room : Nat) (h : 1 ≤ limit) (hwritable : ∀ c ∈ cs, op.unfit? c = none → c.isWritable = true) :
    AnswersExactlyOnce (.quiet op (ofCommands cs) ⟨.int limit, timeout⟩ room) cs ↔
      ((Config.mk (.int limit) timeout).isBeyondClock = true → ∀ c ∈ cs, (op.unfit? c).isSome) := by
  rw [← isUnbarred_iff hwritable]
  exact ⟨fun hall => hall.isUnbarred rfl, answersExactlyOnce_of_isUnbarred (allows_zero h timeout)⟩

theorem answersExactlyOnce_two : (1 : Int) ≤ 1 ∧
    (∀ c ∈ [Command.key (some [107]), .key none], Operation.card.unfit? c = none → c.isWritable = true) ∧
    AnswersExactlyOnce (.quiet .card (ofCommands [.key (some [107]), .key none]) ⟨.int 1, none⟩ 900)
      [.key (some [107]), .key none] := by
  have hwritable : ∀ c ∈ [Command.key (some [107]), .key none], Operation.card.unfit? c = none →
      c.isWritable = true := by
    simp [Command.isWritable, Command.unwritable?]
  exact ⟨by decide, hwritable,
    (answersExactlyOnce_iff .card _ 1 none 900 (by decide) hwritable).2 fun hclock => absurd hclock (by decide)⟩

/-- One command under a timeout that is an integer and greater than every double. -/
def overlong : Batch := .quiet .card (ofCommands [.key (some [107])]) ⟨.int 1, some (.int (2 ^ 1024))⟩ 900

theorem overlong_isBeyondClock : overlong.config.isBeyondClock = true := by decide +kernel

theorem not_isUnbarred_overlong : ¬overlong.IsUnbarred := by
  intro h
  have hmeasured := (Config.barred?_eq_none.1 (h 0 (.key (some [107])) rfl rfl)).2
  cases overlong_isBeyondClock.symm.trans hmeasured

theorem not_answersExactlyOnce_overlong : ¬AnswersExactlyOnce overlong [.key (some [107])] := by
  intro h
  exact not_isUnbarred_overlong (h.isUnbarred rfl)

end SetPipeline.Pipeline
