import Mathlib.Logic.Relation
import SetPipeline.Pipeline.Clock
import SetPipeline.Proofs.Pipeline.Calls

/-! A run under the clock is a run of the pipeline: the clock picks among the moves that the pipeline leaves
open, and shows what they show. What it does it does in ticks, so what every tick keeps holds of all that a run
comes to. -/
namespace SetPipeline.Pipeline

/-- The moves of the consumer, the input and the loop, as opposed to those of a call. A consumer that takes all
there is does not close. -/
def Move.IsOwn (take : Option Nat) : Move → Prop
  | .ask | .offer | .wake .. => True
  | .close => take.isSome
  | .start | .settle .. | .expire _ => False

/-- The moves that go on while the loop stands still. -/
def Move.IsAside : Move → Prop
  | .offer | .start | .settle .. | .expire _ => True
  | .ask | .close | .wake .. => False

section
variable {b : Batch} {s t : State} {m : Move} {i : Nat} {c : Command}

theorem Handed.flight?_of_running {round : List Nat} (h : Handed b s round t)
    (hi : s.flight? i = some ⟨i, c, .running⟩) (ht : t.ending? = none) :
    t.flight? i = some ⟨i, c, .running⟩ := by
  cases h with
  | @yields _ _ j _ _ _ _ hj =>
    have hne : i ≠ j := by
      rintro rfl
      cases hi.symm.trans hj
    exact (State.flight?_remove_of_ne hne).trans hi
  | fails => cases ht
  | turns _ ht' => exact ht'.flight?.trans hi

theorem Stepped.flight?_of_running (h : Stepped b s m t) (hs : Sound b s)
    (hi : s.flight? i = some ⟨i, c, .running⟩) (hsettle : ∀ o, m ≠ .settle i o) (hexpire : m ≠ .expire i)
    (ht : t.ending? = none) : t.flight? i = some ⟨i, c, .running⟩ := by
  have hp := h.placed hs
  have hset {j : Nat} {p : Phase} (hne : i ≠ j) : (s.setPhase j p).flight? i = some ⟨i, c, .running⟩ :=
    (State.flight?_setPhase_of_ne hne).trans hi
  have hqueued {f : Flight} (hf : s.flights.find? (·.phase.isQueued) = some f) : i ≠ f.position := by
    rintro rfl
    have hf' := (hp.flight?_eq (List.mem_of_find?_eq_some hf)).symm.trans hi
    have hphase : f.phase = .running := congrArg Flight.phase (Option.some.inj hf')
    cases hphase.symm.trans (State.phase_of_find?_queued hf)
  cases h with
  | asksFirst _ ht' => exact ht'.flight?.trans hi
  | asks _ ht' => exact ht'.flight?_of_running hi ht
  | closesFresh => cases ht
  | closes => cases ht
  | gives | gives_none => exact hi
  | rejects hf => exact hset (hqueued hf)
  | bars hf => exact hset (hqueued hf)
  | begins hf => exact hset (hqueued hf)
  | @settles j _ o => exact hset fun he => hsettle o (congrArg (Move.settle · o) he.symm)
  | expires => exact hset fun he => hexpire (congrArg Move.expire he.symm)
  | wakes _ ht' => exact ht'.flight?_of_running hi ht
  | takes _ _ ht' =>
    refine ht'.flight?_of_running ?_ ht
    rw [State.flight?] at hi ⊢
    rw [List.find?_append, hi]
    rfl
  | takesEnd _ _ ht' => exact ht'.flight?_of_running hi ht
  | takesOther => cases ht
  | takesFailure => cases ht

theorem Stepped.stage (h : Stepped b s m t) (hm : m.IsAside) : t.stage = s.stage := by
  cases h with
  | gives | gives_none | rejects | bars | begins | settles | expires => rfl
  | asksFirst | asks | closesFresh | closes | wakes | takes | takesEnd | takesOther | takesFailure => cases hm

end

namespace Clocked

section
variable {σ : Type} {b : Batch} {items : List Supplied} {c : Clocked σ} {m : Move} {s : State}

theorem move_of_step (h : b.step c.state m = some s) : c.move b items m = c.goTo items s := by
  simp only [move, h]

theorem move_of_not_step (h : b.step c.state m = none) : c.move b items m = c := by
  simp only [move, h]

theorem move_state (h : b.step c.state m = some s) : (c.move b items m).state = s := by
  rw [move_of_step h]
  rfl

theorem move_world : (c.move b items m).world = c.world := by
  unfold move
  split <;> rfl

theorem goTo_state : (c.goTo items s).state = s := rfl

theorem goTo_trace (hc : c.trace.map (·.2) = c.state.log) (hs : c.state.log <+: s.log) :
    (c.goTo items s).trace.map (·.2) = s.log := by
  obtain ⟨es, hes⟩ := hs
  have hdrop : s.log.drop c.state.log.length = es := by rw [← hes, List.drop_left]
  simp only [goTo, List.map_append, List.map_map, hc, hdrop]
  rw [← hes]
  congr 1
  exact List.map_id es

theorem move_stage (hm : m.IsAside) : (c.move b items m).state.stage = c.state.stage := by
  cases hs : b.step c.state m with
  | none => rw [move_of_not_step hs]
  | some s =>
    rw [move_of_step hs]
    exact (step_stepped hs).stage hm

end

section
variable {σ : Type} (b : Batch) (e : Executor σ) (items : List Supplied) (take : Option Nat)

def join (c : Clocked σ) (f : Flight) (s : State) (r : Running σ) : Clocked σ :=
  { c.goTo items s with
    world := (e.begin b.operation f.command c.world).2
    running := c.running ++ [r] }

structure Begins (c : Clocked σ) (f : Flight) (s : State) (r : Running σ) : Prop where
  next : c.state.flights.find? (·.phase.isQueued) = some f
  step : b.step c.state .start = some s
  runs : s.flight? f.position = some ⟨f.position, f.command, .running⟩
  begun : s.begun = c.state.begun ++ [(f.position, f.command)]
  call : r = .of b.config.timeout c.now f.position (e.begin b.operation f.command c.world).1

theorem Begins.position {b : Batch} {e : Executor σ} {c : Clocked σ} {f : Flight} {s : State} {r : Running σ}
    (h : Begins b e c f s r) : r.position = f.position := by
  rw [h.call]
  rfl

theorem Begins.finish {b : Batch} {e : Executor σ} {c : Clocked σ} {f : Flight} {s : State} {r : Running σ}
    (h : Begins b e c f s r) : r.finish = (e.begin b.operation f.command c.world).1.finish := by
  rw [h.call]
  rfl

/-- What a start comes to: nothing is queued, or a flight is answered without a call, or its call begins, which
ends at once if it takes no time. -/
inductive Started (c : Clocked σ) : Clocked σ → Prop where
  | rests : c.state.flights.find? (·.phase.isQueued) = none → Started c c
  | answers {s : State} : b.step c.state .start = some s → s.begun = c.state.begun → Started c (c.goTo items s)
  | begins {f : Flight} {s : State} {r : Running σ} : Begins b e c f s r →
    (e.begin b.operation f.command c.world).1.duration ≠ some 0 → Started c (c.join b e items f s r)
  | ends {f : Flight} {s : State} {r : Running σ} : Begins b e c f s r →
    (e.begin b.operation f.command c.world).1.duration = some 0 →
    Started c ((c.join b e items f s r).finish b items r)

/-- What is done under the clock in one piece: time passes, a move is made that no call has a part in, a flight
starts, or a call ends by itself or is given up. -/
inductive Ticks (c : Clocked σ) : Clocked σ → Prop where
  | passes (now : Rat) : Ticks c { c with now := now }
  | moves {m : Move} {s : State} : m.IsOwn take → b.step c.state m = some s → Ticks c (c.goTo items s)
  | starts : Ticks c (c.start b e items)
  | finishes {r : Running σ} {cmd : Command} : r ∈ c.running →
    c.state.flight? r.position = some ⟨r.position, cmd, .running⟩ → Ticks c (c.finish b items r)
  | expires {r : Running σ} {cmd : Command} : r ∈ c.running → r.expires.isSome →
    c.state.flight? r.position = some ⟨r.position, cmd, .running⟩ → Ticks c (c.expire b items r)

/-- What the clock keeps: its state is one that the pipeline can come to, it shows what was seen there, and the
calls it keeps are those of running flights, each once. -/
structure Reached (c : Clocked σ) : Prop where
  reachable : Reachable b c.state
  trace : c.trace.map (·.2) = c.state.log
  once : (c.running.map (·.position)).Nodup
  calls : c.state.ending? = none → ∀ r ∈ c.running, ∃ cmd w,
    c.state.flight? r.position = some ⟨r.position, cmd, .running⟩ ∧ r.finish = (e.begin b.operation cmd w).1.finish

end

section
variable {σ : Type} {b : Batch} {e : Executor σ} {items : List Supplied} {take : Option Nat} {c d : Clocked σ}

theorem start_started (h : Sound b c.state) : Started b e items c (c.start b e items) := by
  unfold start
  cases hf : c.state.flights.find? (·.phase.isQueued) with
  | none => exact .rests hf
  | some f =>
    have hmem := List.mem_of_find?_eq_some hf
    have hself {p : Phase} :
        (c.state.setPhase f.position p).flight? f.position = some ⟨f.position, f.command, p⟩ := by
      rw [State.flight?_setPhase, (h.placed_of_flight hmem).flight?_eq hmem]
      simp
    obtain ⟨s, hs⟩ : ∃ s, b.step c.state .start = some s := by
      simp [Batch.step, Batch.start, hf]
    simp only [move_of_step hs]
    cases step_stepped hs with
    | @rejects g u hg =>
      cases hf.symm.trans hg
      have hflight := hself (p := .finished (.ok (reject b.operation f.command u)))
      simp only [goTo_state, hflight]
      exact .answers hs rfl
    | @bars g x hg =>
      cases hf.symm.trans hg
      have hflight := hself (p := .finished (.error x))
      simp only [goTo_state, hflight]
      exact .answers hs rfl
    | @begins g hg =>
      cases hf.symm.trans hg
      have hflight : ((c.state.setPhase f.position .running).emit [.began f.position f.command]).flight? f.position =
          some ⟨f.position, f.command, .running⟩ := hself
      have hbegun : ((c.state.setPhase f.position .running).emit [.began f.position f.command]).begun =
          c.state.begun ++ [(f.position, f.command)] := by
        simp [State.begun, State.emit, State.setPhase]
      simp only [goTo_state, hflight]
      show Started b e items c (if (e.begin b.operation f.command c.world).1.duration = some 0 then _ else _)
      split
      · next hzero => exact .ends ⟨hf, hs, hflight, hbegun, rfl⟩ hzero
      · next hlong => exact .begins ⟨hf, hs, hflight, hbegun, rfl⟩ hlong

namespace Reached

theorem goTo (h : Reached b e c) {m : Move} {s : State} (hs : b.step c.state m = some s)
    (hsettle : ∀ r ∈ c.running, ∀ o, m ≠ .settle r.position o)
    (hexpire : ∀ r ∈ c.running, m ≠ .expire r.position) : Reached b e (c.goTo items s) := by
  have hstep := step_stepped hs
  refine ⟨h.reachable.next hs, goTo_trace h.trace hstep.log, h.once, fun hgo r hr => ?_⟩
  have hsound := h.reachable.sound
  obtain ⟨cmd, w, hf, hfin⟩ := h.calls (hstep.ending?_eq_none hsound.staged) r hr
  exact ⟨cmd, w, hstep.flight?_of_running hsound hf (hsettle r hr) (hexpire r hr) hgo, hfin⟩

theorem move (h : Reached b e c) {m : Move} (hsettle : ∀ r ∈ c.running, ∀ o, m ≠ .settle r.position o)
    (hexpire : ∀ r ∈ c.running, m ≠ .expire r.position) : Reached b e (c.move b items m) := by
  cases hs : b.step c.state m with
  | none => rwa [move_of_not_step hs]
  | some s =>
    rw [move_of_step hs]
    exact h.goTo hs hsettle hexpire

theorem forget (h : Reached b e c) (i : Nat) (w : σ) :
    Reached b e { c with world := w, running := c.running.filter (·.position != i) } := by
  refine ⟨h.reachable, h.trace, h.once.sublist (List.filter_sublist.map _), fun hgo r hr => ?_⟩
  exact h.calls hgo r (List.mem_of_mem_filter hr)

theorem finish (h : Reached b e c) (r : Running σ) : Reached b e (c.finish b items r) := by
  refine (h.forget _ _).move (fun r' hr' o he => ?_) fun _ _ => by simp
  exact bne_iff_ne.1 (List.mem_filter.1 hr').2 (Move.settle.inj he).1.symm

theorem expire (h : Reached b e c) (r : Running σ) : Reached b e (c.expire b items r) := by
  refine (h.forget _ _).move (fun _ _ _ => by simp) fun r' hr' he => ?_
  exact bne_iff_ne.1 (List.mem_filter.1 hr').2 (Move.expire.inj he).symm

theorem not_mem_running (h : Reached b e c) {f : Flight} (hf : c.state.flights.find? (·.phase.isQueued) = some f) :
    f.position ∉ c.running.map (·.position) := by
  intro hin
  have hsound := h.reachable.sound
  have hmem := List.mem_of_find?_eq_some hf
  obtain ⟨r, hr, he⟩ := List.mem_map.1 hin
  obtain ⟨cmd, w, hf', -⟩ := h.calls (hsound.staged.going (.inl (State.flights_ne_nil hmem))) r hr
  rw [he] at hf'
  have hff := (hsound.placed_of_flight hmem).flight?_eq hmem
  have hphase : f.phase = .running := congrArg Flight.phase (Option.some.inj (hff.symm.trans hf'))
  cases hphase.symm.trans (State.phase_of_find?_queued hf)

theorem join (h : Reached b e c) {f : Flight} {s : State} {r : Running σ} (hb : Begins b e c f s r) :
    Reached b e (c.join b e items f s r) := by
  have hgo : Reached b e (c.goTo items s) := h.goTo hb.step (fun _ _ _ => by simp) fun _ _ => by simp
  have hfree := h.not_mem_running hb.next
  refine ⟨hgo.reachable, hgo.trace, ?_, fun hgoing r' hr' => ?_⟩
  · rw [Clocked.join, List.map_append, List.nodup_append]
    refine ⟨h.once, List.nodup_singleton _, ?_⟩
    rintro i hi j hj rfl
    obtain rfl := List.mem_singleton.1 hj
    exact hfree (hb.position ▸ hi)
  · rcases List.mem_append.1 hr' with hr' | hr'
    · exact hgo.calls hgoing r' hr'
    · obtain rfl := List.mem_singleton.1 hr'
      rw [hb.call]
      exact ⟨f.command, c.world, hb.runs, rfl⟩

end Reached

theorem Started.reached (h : Started b e items c d) (hc : Reached b e c) : Reached b e d := by
  cases h with
  | rests => exact hc
  | answers hs => exact hc.goTo hs (fun _ _ _ => by simp) fun _ _ => by simp
  | begins hb => exact hc.join hb
  | ends hb => exact (hc.join hb).finish _

theorem Ticks.reached (h : Ticks b e items take c d) (hc : Reached b e c) : Reached b e d := by
  cases h with
  | passes => exact ⟨hc.reachable, hc.trace, hc.once, hc.calls⟩
  | moves hm hs =>
    refine hc.goTo hs ?_ ?_ <;> rintro r hr
    · rintro o rfl
      exact hm
    · rintro rfl
      exact hm
  | starts => exact (start_started hc.reachable.sound).reached hc
  | finishes => exact hc.finish _
  | expires => exact hc.expire _

end

section
variable {σ : Type} (b : Batch) (e : Executor σ) (items : List Supplied) (take : Option Nat)

abbrev Leads : Clocked σ → Clocked σ → Prop := Relation.ReflTransGen (Ticks b e items take)

/-- The clock comes from one point to another while the loop stands where it stands. -/
structure Waits (c d : Clocked σ) : Prop where
  leads : Leads b e items take c d
  stage : d.state.stage = c.state.stage

end

section
variable {σ : Type} {b : Batch} {e : Executor σ} {items : List Supplied} {take : Option Nat} {c d : Clocked σ}

theorem Leads.reached (h : Leads b e items take c d) (hc : Reached b e c) : Reached b e d := by
  induction h with
  | refl => exact hc
  | tail _ ht ih => exact ht.reached ih

namespace Waits

theorem refl : Waits b e items take c c := ⟨.refl, rfl⟩

theorem trans {d' : Clocked σ} (h : Waits b e items take c d) (h' : Waits b e items take d d') :
    Waits b e items take c d' :=
  ⟨h.leads.trans h'.leads, h'.stage.trans h.stage⟩

theorem going (h : Waits b e items take c d) (hgo : c.state.ending? = none) : d.state.ending? = none := by
  unfold State.ending? at hgo ⊢
  rwa [h.stage]

end Waits

theorem move_running {m : Move} : (c.move b items m).running = c.running := by
  unfold move
  split <;> rfl

theorem move_leads {m : Move} (hm : m.IsOwn take) : Leads b e items take c (c.move b items m) := by
  cases hs : b.step c.state m with
  | none => rw [move_of_not_step hs]
  | some s =>
    rw [move_of_step hs]
    exact .single (.moves hm hs)

theorem finish_waits {r : Running σ} {cmd : Command} (hr : r ∈ c.running)
    (hf : c.state.flight? r.position = some ⟨r.position, cmd, .running⟩) :
    Waits b e items take c (c.finish b items r) :=
  ⟨.single (.finishes hr hf), move_stage trivial⟩

theorem expire_waits {r : Running σ} {cmd : Command} (hr : r ∈ c.running) (he : r.expires.isSome)
    (hf : c.state.flight? r.position = some ⟨r.position, cmd, .running⟩) :
    Waits b e items take c (c.expire b items r) :=
  ⟨.single (.expires hr he hf), move_stage trivial⟩

theorem Started.stage (h : Started b e items c d) : d.state.stage = c.state.stage := by
  cases h with
  | rests => rfl
  | answers hs => exact (step_stepped hs).stage trivial
  | begins hb => exact (step_stepped hb.step).stage trivial
  | @ends f s r hb =>
    have hjoin : (c.join b e items f s r).state.stage = c.state.stage := (step_stepped hb.step).stage trivial
    exact Eq.trans (move_stage trivial) hjoin

theorem start_waits (h : Reached b e c) : Waits b e items take c (c.start b e items) :=
  ⟨.single .starts, (start_started h.reachable.sound).stage⟩

theorem startAll_waits (n : Nat) (h : Reached b e c) : Waits b e items take c (startAll b e items n c) := by
  induction n generalizing c with
  | zero => exact .refl
  | succ n ih =>
    have hstart : Waits b e items take c (c.start b e items) := start_waits h
    exact hstart.trans (ih (hstart.leads.reached h))

/-- A call ends now, by its timeout or by itself, or goes on. -/
def settleOne (b : Batch) (items : List Supplied) (c : Clocked σ) (r : Running σ) : Clocked σ :=
  if r.isLate c.now then c.expire b items r
  else if reached c.now r.ends then c.finish b items r else c

theorem isSome_of_reached {now : Rat} {t : Option Rat} (h : reached now t = true) : t.isSome := by
  cases t with
  | none => simp [reached] at h
  | some t => rfl

theorem isSome_of_isLate {r : Running σ} {now : Rat} (h : r.isLate now = true) : r.expires.isSome :=
  isSome_of_reached (Bool.and_eq_true_iff.1 h).1

theorem settleOne_waits (h : Reached b e c) (hgo : c.state.ending? = none) {r : Running σ} (hr : r ∈ c.running) :
    Waits b e items take c (settleOne b items c r) := by
  obtain ⟨cmd, -, hf, -⟩ := h.calls hgo r hr
  unfold settleOne
  split
  · next hlate => exact expire_waits hr (isSome_of_isLate hlate) hf
  · split
    · exact finish_waits hr hf
    · exact .refl

theorem mem_settleOne_running {r r' : Running σ} (hr : r' ∈ c.running) (hne : r'.position ≠ r.position) :
    r' ∈ (settleOne b items c r).running := by
  have hkept : r' ∈ c.running.filter (·.position != r.position) := List.mem_filter.2 ⟨hr, bne_iff_ne.2 hne⟩
  unfold settleOne
  split
  · rw [expire, move_running]
    exact hkept
  · split
    · rw [finish, move_running]
      exact hkept
    · exact hr

theorem foldl_waits {rs : List (Running σ)} (h : Reached b e c) (hgo : c.state.ending? = none)
    (hrs : ∀ r ∈ rs, r ∈ c.running) (hn : (rs.map (·.position)).Nodup) :
    Waits b e items take c (rs.foldl (settleOne b items) c) := by
  induction rs generalizing c with
  | nil => exact .refl
  | cons r rs ih =>
    obtain ⟨hr, hrs⟩ := List.forall_mem_cons.1 hrs
    obtain ⟨hfree, hn⟩ := List.nodup_cons.1 hn
    have hone : Waits b e items take c (settleOne b items c r) := settleOne_waits h hgo hr
    refine hone.trans (ih (hone.leads.reached h) (hone.going hgo) (fun r' hr' => ?_) hn)
    exact mem_settleOne_running (hrs r' hr') fun he => hfree (List.mem_map.2 ⟨r', hr', he⟩)

theorem settle_waits (h : Reached b e c) (hgo : c.state.ending? = none) :
    Waits b e items take c (c.settle b items) := by
  have hoffer (d : Clocked σ) :
      Waits b e items take d (if reached d.now d.due then d.move b items .offer else d) := by
    split
    · exact ⟨move_leads trivial, move_stage trivial⟩
    · exact .refl
  have hfold : Waits b e items take c (c.running.foldl (settleOne b items) c) :=
    foldl_waits h hgo (fun _ hr => hr) h.once
  exact hfold.trans (hoffer _)

theorem consume_leads (n : Nat) : Leads b e items take c (c.consume b items take n) := by
  induction n generalizing c with
  | zero => exact .refl
  | succ n ih =>
    have hnext {enough : Bool} (henough : enough = true → take.isSome) : Leads b e items take c
        (if enough then c.move b items .close else consume b items take n (c.move b items .ask)) := by
      cases enough with
      | true => exact move_leads (henough rfl)
      | false => exact (move_leads (m := .ask) trivial).trans ih
    unfold consume
    split
    · exact hnext (by cases take <;> simp)
    · exact hnext (by cases take <;> simp)
    · exact .refl
    · exact .refl

theorem round_leads (h : Reached b e c) (hgo : c.state.ending? = none) :
    Leads b e items take c (c.round b e items take) := by
  have hwake {d : Clocked σ} (hd : Waits b e items take c d) :
      Leads b e items take c
        ((d.move b items (.wake d.state.pull.isGiven (finishedRound d.state))).consume b items take
          ((finishedRound d.state).length + 1)) :=
    hd.leads.trans ((move_leads (m := .wake _ _) trivial).trans (consume_leads _))
  have hstart : Waits b e items take c (c.startAll b e items c.state.flights.length) := startAll_waits _ h
  have hsettle := hstart.trans (settle_waits (hstart.leads.reached h) (hstart.going hgo))
  unfold round
  dsimp only
  split
  · exact hwake hsettle
  · split
    · next now _ =>
      have hpass := hsettle.trans ⟨.single (.passes now), rfl⟩
      exact hwake (hpass.trans (settle_waits (hpass.leads.reached h) (hpass.going hgo)))
    · exact hwake hsettle

theorem rounds_leads (n : Nat) (h : Reached b e c) : Leads b e items take c (c.rounds b e items take n) := by
  induction n generalizing c with
  | zero => exact .refl
  | succ n ih =>
    unfold rounds
    split
    · next hw =>
      have hround : Leads b e items take c (c.round b e items take) :=
        round_leads h (by simp [State.ending?, hw])
      exact hround.trans (ih (hround.reached h))
    · exact .refl
    · exact .refl
    · exact .refl

end

end Clocked

def unbegun (world : σ) (now : Rat) : Clocked σ := ⟨.initial, world, now, [], none, []⟩

theorem reached_unbegun (b : Batch) (e : Executor σ) (world : σ) (now : Rat) :
    (unbegun world now).Reached b e :=
  ⟨.initial, rfl, .nil, fun _ _ hr => absurd hr List.not_mem_nil⟩

/-- What is left of a run is what the clock came to by ticks. -/
theorem run_leads (op : Operation) (config : Config) (room : Nat) (e : Executor σ) (items : List Supplied)
    (take : Option Nat) (now : Rat) (world : σ) :
    ∃ c, Clocked.Leads (.quiet op (sourceOf items) config room) e items take (unbegun world now) c ∧
      run op config room e items take now world =
        ⟨(Batch.quiet op (sourceOf items) config room).exit? c.state, c.state.pulled, c.trace, c.now, c.world⟩ := by
  have hconsume : Clocked.Leads (.quiet op (sourceOf items) config room) e items take (unbegun world now)
      ((unbegun world now).consume (.quiet op (sourceOf items) config room) items take 1) := Clocked.consume_leads 1
  have hreached := hconsume.reached (reached_unbegun _ _ _ _)
  exact ⟨_, hconsume.trans (Clocked.rounds_leads (2 * items.length + 2) hreached), rfl⟩

/-- What is left of a run is what can be seen of a state. -/
structure Outcome.Shows (o : Outcome σ) (b : Batch) (s : State) : Prop where
  ending : o.ending = b.exit? s
  pulled : o.pulled = s.pulled
  events : o.trace.map (·.2) = s.log

/-- A run under the clock shows a state that the moves of its pipeline lead to, whatever the executor. -/
theorem run_shows (op : Operation) (config : Config) (room : Nat) (e : Executor σ) (items : List Supplied)
    (take : Option Nat) (now : Rat) (world : σ) :
    ∃ ms s, Run (.quiet op (sourceOf items) config room) ms s ∧
      (run op config room e items take now world).Shows (.quiet op (sourceOf items) config room) s := by
  obtain ⟨c, hleads, hrun⟩ := run_leads op config room e items take now world
  have hreached := hleads.reached (reached_unbegun _ _ _ _)
  obtain ⟨ms, hms⟩ := hreached.reachable.exists_run
  exact ⟨ms, c.state, hms, hrun ▸ ⟨rfl, rfl, hreached.trace⟩⟩

end SetPipeline.Pipeline
