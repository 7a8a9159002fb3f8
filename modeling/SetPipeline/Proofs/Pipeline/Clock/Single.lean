import SetPipeline.Proofs.Pipeline.Clock.Fate
import SetPipeline.Proofs.Pipeline.Single

/-! A batch of one command under the clock, whose consumer wants one response. Its rounds are all known: one takes the
command in, one may take in the end of the input, and one lets time pass up to the end of the call, whichever way it
ends. So a run is told from the fate of the one call. -/
namespace SetPipeline.Pipeline

namespace Clocked

/-- The clock while the one command is in flight: a pull that was asked is answered at once. -/
structure Sits {σ : Type} (cmd : Command) (phase : Phase) (running : List (Running σ)) (now : Rat) (world : σ)
    (c : Clocked σ) : Prop where
  alone : Alone cmd phase c.state
  running : c.running = running
  instant : c.now = now
  world : c.world = world
  due : c.due = if c.state.pull.isAsked then some now else none

/-- The clock after the one command: what came of it was handed over, and the stream is over. -/
structure Left {σ : Type} (x : Except Failure Response) (world : σ) (c : Clocked σ) : Prop where
  delivered : Delivered x c.state
  ended : c.state.ending?.isSome
  world : c.world = world

section
variable {σ : Type} {op : Operation} {config : Config} {room : Nat} {e : Executor σ} {cmd : Command} {phase : Phase}
  {running : List (Running σ)} {r : Running σ} {now : Rat} {world : σ} {c : Clocked σ}

namespace Sits

theorem move (h : Sits cmd phase running now world c) {b : Batch} (items : List Supplied) {m : Move} {t : State}
    {next : Phase} (ht : b.step c.state m = some t) (hnext : Alone cmd next t)
    (hpull : t.pull.isAsked = true → t.pull = c.state.pull) : Sits cmd next running now world (c.move b items m) := by
  rw [move_of_step ht]
  refine ⟨hnext, h.running, h.instant, h.world, ?_⟩
  show (if !t.pull.isAsked then none else if c.state.pull.isAsked then c.due else _) = _
  cases ha : t.pull.isAsked with
  | false => simp [goTo_state, ha]
  | true =>
    have hasked : c.state.pull.isAsked = true := hpull ha ▸ ha
    simp [goTo_state, ha, hasked, h.due]

theorem finish (h : Sits cmd .running [r] now world c) (hr : r.position = 0) :
    Sits cmd (.finished (respond room op cmd (r.finish world).1)) [] now (r.finish world).2
      (c.finish (.single op config room cmd) (single cmd) r) := by
  obtain ⟨t, ht, hpull, hnext⟩ := h.alone.settle op config room (r.finish world).1
  have hbefore : Sits cmd .running [] now (r.finish world).2
      { c with world := (r.finish world).2, running := c.running.filter (·.position != r.position) } :=
    ⟨h.alone, by simp [h.running], h.instant, rfl, h.due⟩
  have hfinish := hbefore.move (single cmd) ht hnext fun _ => hpull
  rw [← h.world, ← hr] at hfinish
  rw [← h.world]
  exact hfinish

theorem expire (h : Sits cmd .running [r] now world c) (hr : r.position = 0) (ht : config.timeout.isSome) :
    Sits cmd (.finished (respond room op cmd (.error (.timedOut Failure.timedOutMessage)))) [] now world
      (c.expire (.single op config room cmd) (single cmd) r) := by
  obtain ⟨t, ht, hpull, hnext⟩ := h.alone.expire op room ht
  have hbefore : Sits cmd .running [] now world
      { c with running := c.running.filter (·.position != r.position) } :=
    ⟨h.alone, by simp [h.running], h.instant, h.world, h.due⟩
  have hexpire := hbefore.move (single cmd) ht hnext fun _ => hpull
  rw [← hr] at hexpire
  exact hexpire

theorem start_barred (h : Sits cmd .queued [] now world c) (hfits : op.unfit? cmd = none) {f : Failure}
    (hf : config.barred? cmd = some f) :
    Sits cmd (.finished (.error f)) [] now world (c.start (.single op config room cmd) e (single cmd)) := by
  obtain ⟨t, ht, hpull, hnext⟩ := h.alone.start_barred room hfits hf
  have hmoved := h.move (single cmd) ht hnext fun _ => hpull
  have hqueued : c.state.flights.find? (·.phase.isQueued) = some ⟨0, cmd, .queued⟩ := by
    simp [h.alone.flights, Phase.isQueued]
  simp only [Clocked.start, hqueued, hmoved.alone.flight?]
  exact hmoved

theorem start_call (h : Sits cmd .queued [] now world c) (hfits : op.unfit? cmd = none)
    (hfree : config.barred? cmd = none) {call : Call σ} {after : σ} (hcall : e.begin op cmd world = (call, after)) :
    ∃ d : Clocked σ, Sits cmd .running [callOf config now call] now after d ∧
      c.start (.single op config room cmd) e (single cmd) =
        if call.duration = some 0 then
          d.finish (.single op config room cmd) (single cmd) (callOf config now call)
        else d := by
  obtain ⟨t, ht, hpull, hnext⟩ := h.alone.start_begins room hfits hfree
  have hmoved := h.move (single cmd) ht hnext fun _ => hpull
  have hqueued : c.state.flights.find? (·.phase.isQueued) = some ⟨0, cmd, .queued⟩ := by
    simp [h.alone.flights, Phase.isQueued]
  refine ⟨{ c.move (.single op config room cmd) (single cmd) .start with
    world := after, running := [callOf config now call] }, ?_, ?_⟩
  · exact ⟨hmoved.alone, rfl, hmoved.instant, rfl, hmoved.due⟩
  · simp only [Clocked.start, hqueued, hmoved.alone.flight?, hmoved.world, hmoved.instant, hmoved.running,
      Batch.operation_quiet, Batch.config_quiet, hcall, List.nil_append]

end Sits

/-- The clock while the one command is in flight and no item is awaited. -/
structure Rests {σ : Type} (cmd : Command) (phase : Phase) (running : List (Running σ)) (now : Rat) (world : σ)
    (c : Clocked σ) : Prop extends Sits cmd phase running now world c where
  answered : c.state.pull = .idle ∨ c.state.pull = .given 1 .done

theorem Sits.offer_due (h : Sits cmd phase running now world c) {d : Clocked σ}
    (hd : d = if reached c.now c.due then c.move (.single op config room cmd) (single cmd) .offer else c) :
    Rests cmd phase running now world d ∧ (c.state.pull = .idle → d.state.pull = .idle) := by
  rw [h.due, h.instant] at hd
  have hkept (ha : c.state.pull.isAsked = false) : d = c := by
    rw [ha, if_neg (by simp [reached])] at hd
    exact hd
  rcases h.alone.pull with hp | hp | hp
  · obtain rfl := hkept (by rw [hp]; rfl)
    exact ⟨⟨h, .inl hp⟩, id⟩
  · obtain ⟨t, ht, hgiven, hnext⟩ := h.alone.offer op config room hp
    rw [hp, if_pos (show Pull.asked.isAsked = true from rfl), if_pos (reached_self now)] at hd
    subst hd
    refine ⟨⟨h.move (single cmd) ht hnext fun ha => ?_, .inr ?_⟩, fun hidle => ?_⟩
    · rw [hgiven] at ha
      cases ha
    · rw [move_state ht, hgiven]
    · rw [hidle] at hp
      cases hp
  · obtain rfl := hkept (by rw [hp]; rfl)
    exact ⟨⟨h, .inr hp⟩, id⟩

theorem allowance_isSome {timeout : Option Number} (h : (allowance timeout).isSome) : timeout.isSome := by
  cases timeout with
  | none => cases h
  | some n => rfl

theorem settle_eq (b : Batch) (items : List Supplied) (c : Clocked σ) :
    c.settle b items =
      if reached (c.running.foldl (settleOne b items) c).now (c.running.foldl (settleOne b items) c).due then
        (c.running.foldl (settleOne b items) c).move b items .offer
      else c.running.foldl (settleOne b items) c :=
  rfl

theorem Sits.settle_none (h : Sits cmd phase [] now world c) (op : Operation) (config : Config) (room : Nat) :
    Rests cmd phase [] now world (c.settle (.single op config room cmd) (single cmd)) := by
  rw [settle_eq, h.running, List.foldl_nil]
  exact (h.offer_due rfl).1

section
variable {start : Rat} {call : Call σ} {fate : Fate} {x : Except Failure Response} {after : σ}

theorem Sits.settle_going (h : Sits cmd .running [callOf config start call] now world c) (op : Operation) (room : Nat)
    (hv : (callOf config start call).verdict? now = none) :
    Rests cmd .running [callOf config start call] now world
        (c.settle (.single op config room cmd) (single cmd)) ∧
      (c.state.pull = .idle → (c.settle (.single op config room cmd) (single cmd)).state.pull = .idle) := by
  have hone : settleOne (.single op config room cmd) (single cmd) c (callOf config start call) = c := by
    unfold settleOne
    unfold Running.verdict? at hv
    rw [h.instant]
    split at hv
    · cases hv
    · next hx =>
      split at hv
      · cases hv
      · next he => rw [if_neg hx, if_neg he]
  rw [settle_eq, h.running, List.foldl_cons, List.foldl_nil, hone]
  exact h.offer_due rfl

theorem Sits.settle_over (h : Sits cmd .running [callOf config start call] now world c)
    (hv : (callOf config start call).verdict? now = some fate)
    (hx : fate.conclusion room op cmd call.finish world = some (x, after)) :
    Rests cmd (.finished x) [] now after (c.settle (.single op config room cmd) (single cmd)) := by
  have hone : Sits cmd (.finished x) [] now after
      (settleOne (.single op config room cmd) (single cmd) c (callOf config start call)) := by
    unfold settleOne
    unfold Running.verdict? at hv
    rw [h.instant]
    split at hv
    · next hlate =>
      cases hv
      cases hx
      rw [if_pos hlate]
      have htimeout : (allowance config.timeout).isSome := by
        have hexpires : (callOf config start call).expires.isSome := isSome_of_isLate hlate
        rwa [show (callOf config start call).expires = (allowance config.timeout).map (later start) from rfl,
          Option.isSome_map] at hexpires
      exact h.expire rfl (allowance_isSome htimeout)
    · next hlate =>
      split at hv
      · next hends =>
        cases hv
        cases hx
        rw [if_neg hlate, if_pos hends]
        exact h.finish rfl
      · cases hv
  rw [settle_eq, h.running, List.foldl_cons, List.foldl_nil]
  exact (hone.offer_due rfl).1

end

section
variable {b : Batch} {items : List Supplied} {x : Except Failure Response}

/-- The consumer wants one response and closes once it has it. -/
theorem consume_delivered (hx : Delivered x c.state)
    (hs : c.state.stage = .handing [] ∨ c.state.ending?.isSome) (n : Nat) :
    Left x c.world (c.consume b items (some 1) (n + 1)) := by
  unfold consume
  cases hstage : c.state.stage with
  | handing rest =>
    cases x with
    | error f =>
      have hended := hx.2
      simp [State.ending?, hstage] at hended
    | ok r =>
      have henough : decide (1 ≤ c.state.yielded.length) = true := by
        rw [show c.state.yielded = [(0, r)] from hx]
        rfl
      have hclose : b.step c.state .close = some (c.state.halt .closed) := by
        simp only [Batch.step, Batch.close, hstage]
      simp only [henough, if_true, move_of_step hclose]
      exact ⟨(State.yielded_halt _ _).trans hx, rfl, rfl⟩
  | fresh | waiting => simp [hstage, State.ending?] at hs
  | ended e => exact ⟨hx, by simp [State.ending?, hstage], rfl⟩

theorem Rests.wake_left (h : Rests cmd (.finished x) [] now world c) :
    Left x world ((c.move (.single op config room cmd) (single cmd)
      (.wake c.state.pull.isGiven (finishedRound c.state))).consume (.single op config room cmd) (single cmd)
        (some 1) ((finishedRound c.state).length + 1)) := by
  have hround : finishedRound c.state = [0] := by
    simp [finishedRound, h.alone.flights, Phase.isFinished]
  have hcan : Batch.canWake c.state c.state.pull.isGiven [0] = true := by
    refine canWake_of_wakes ⟨h.alone.stage, .inr (by simp), by simp, ?_⟩ id
    simp [State.HasFinished, h.alone.flight?, Phase.isFinished]
  obtain ⟨s, hs, hflight, hy⟩ : ∃ s, (Batch.single op config room cmd).step c.state
      (.wake c.state.pull.isGiven [0]) = some ((Batch.single op config room cmd).hand [0] s) ∧
        s.flight? 0 = some ⟨0, cmd, .finished x⟩ ∧ s.yielded = [] := by
    rcases h.answered with hp | hp
    · refine ⟨c.state, ?_, h.alone.flight?, h.alone.yielded⟩
      simp only [hp, Pull.isGiven] at hcan ⊢
      simp only [Batch.step, Batch.wake, hcan, if_true]
    · refine ⟨{ c.state with pull := .idle, exhausted := true }, ?_, h.alone.flight?, h.alone.yielded⟩
      simp only [hp, Pull.isGiven] at hcan ⊢
      simp only [Batch.step, Batch.wake, hcan, if_true, hp, Batch.receive]
  obtain ⟨hx, hstage⟩ := hand_finished (.single op config room cmd) hflight hy
  rw [hround, move_of_step hs, ← h.world]
  exact consume_delivered (c := c.goTo (single cmd) _) hx hstage 1

end

section
variable {x : Except Failure Response} {start t : Rat} {call : Call σ} {fate : Fate} {begun after : σ}

def awaiting (b : Batch) (items : List Supplied) (c : Clocked σ) : Clocked σ :=
  if hasFinished c.state then c
  else match c.nextInstant with
    | some t => { c with now := t }.settle b items
    | none => c

/-- What a round does at once: what is queued starts, and what ends now ends. -/
def opening (b : Batch) (e : Executor σ) (items : List Supplied) (c : Clocked σ) : Clocked σ :=
  (c.startAll b e items c.state.flights.length).settle b items

theorem round_eq {b : Batch} {items : List Supplied} {take : Option Nat} {c d : Clocked σ}
    (hd : (c.opening b e items).awaiting b items = d) :
    c.round b e items take =
      (d.move b items (.wake d.state.pull.isGiven (finishedRound d.state))).consume b items take
        ((finishedRound d.state).length + 1) := by
  subst hd
  rfl

theorem awaiting_given (hp : c.state.pull = .given 1 .done) (b : Batch) (items : List Supplied) :
    c.awaiting b items = c :=
  if_pos (by simp [hasFinished, hp, Pull.isGiven])

namespace Rests

theorem awaiting_finished (h : Rests cmd (.finished x) [] now world c) (b : Batch) (items : List Supplied) :
    c.awaiting b items = c :=
  if_pos (by simp [hasFinished, finishedRound, h.alone.flights, Phase.isFinished])

theorem not_hasFinished (h : Rests cmd .running running now world c) (hp : c.state.pull = .idle) :
    hasFinished c.state = false := by
  simp [hasFinished, finishedRound, h.alone.flights, Phase.isFinished, hp, Pull.isGiven]

theorem nextInstant (h : Rests cmd .running [callOf config start call] now world c) (hp : c.state.pull = .idle) :
    c.nextInstant = (callOf config start call).soonest := by
  have hdue : c.due = none := by simp [h.due, hp, Pull.isAsked]
  simp only [Clocked.nextInstant, h.running, hdue, List.foldl_cons, List.foldl_nil]
  rfl

theorem awaiting_over (h : Rests cmd .running [callOf config start call] now world c) (hp : c.state.pull = .idle)
    (ht : (callOf config start call).soonest = some t)
    (hv : (callOf config start call).verdict? t = some fate)
    (hx : fate.conclusion room op cmd call.finish world = some (x, after)) :
    Rests cmd (.finished x) [] t after (c.awaiting (.single op config room cmd) (single cmd)) := by
  have hpassed : Sits cmd .running [callOf config start call] t world { c with now := t } :=
    ⟨h.alone, h.running, rfl, h.world, by simp [h.due, hp, Pull.isAsked]⟩
  simp only [awaiting, h.not_hasFinished hp, h.nextInstant hp, ht]
  exact hpassed.settle_over hv hx

theorem awaiting_never (h : Rests cmd .running [callOf config start call] now world c) (hp : c.state.pull = .idle)
    (ht : (callOf config start call).soonest = none) (b : Batch)
    (items : List Supplied) : c.awaiting b items = c := by
  simp only [awaiting, h.not_hasFinished hp, h.nextInstant hp, ht]
  rfl

end Rests

theorem consume_waiting {b : Batch} {items : List Supplied} {take : Option Nat} {n : Nat}
    (h : c.state.stage = .waiting) : c.consume b items take n = c := by
  cases n with
  | zero => rfl
  | succ n => simp only [consume, h]

theorem round_left {d : Clocked σ} (hd : c.opening (.single op config room cmd) e (single cmd) = d)
    (h : Rests cmd (.finished x) [] now world (d.awaiting (.single op config room cmd) (single cmd))) :
    Left x world (c.round (.single op config room cmd) e (single cmd) (some 1)) := by
  subst hd
  rw [round_eq rfl]
  exact h.wake_left

theorem round_finished {d : Clocked σ} (hd : c.opening (.single op config room cmd) e (single cmd) = d)
    (h : Rests cmd (.finished x) [] now world d) :
    Left x world (c.round (.single op config room cmd) e (single cmd) (some 1)) := by
  have hawaited : Rests cmd (.finished x) [] now world (d.awaiting (.single op config room cmd) (single cmd)) := by
    rwa [h.awaiting_finished]
  exact round_left hd hawaited

theorem round_given {d : Clocked σ} (hd : c.opening (.single op config room cmd) e (single cmd) = d)
    (h : Rests cmd .running running now world d) (hp : d.state.pull = .given 1 .done) :
    Sits cmd .running running now world (c.round (.single op config room cmd) e (single cmd) (some 1)) ∧
      (c.round (.single op config room cmd) e (single cmd) (some 1)).state.pull = .idle := by
  subst hd
  obtain ⟨t, ht, hidle, hnext⟩ := h.alone.takeEnd op config room hp
  have hmoved := h.move (single cmd) ht hnext fun ha => by rw [hidle] at ha; cases ha
  have hround : finishedRound (c.opening (.single op config room cmd) e (single cmd)).state = [] := by
    simp [finishedRound, h.alone.flights, Phase.isFinished]
  rw [round_eq (awaiting_given hp _ _), hp, hround, show (Pull.given 1 Offer.done).isGiven = true from rfl,
    consume_waiting hmoved.alone.stage]
  exact ⟨hmoved, by rw [move_state ht, hidle]⟩

theorem round_over {d : Clocked σ} (hd : c.opening (.single op config room cmd) e (single cmd) = d)
    (h : Rests cmd .running [callOf config start call] now world d) (hp : d.state.pull = .idle)
    (hx : (callOf config start call).ending.conclusion room op cmd call.finish world = some (x, after)) :
    Left x after (c.round (.single op config room cmd) e (single cmd) (some 1)) := by
  cases ht : (callOf config start call).soonest with
  | none =>
    rw [Running.ending_of_soonest_none ht] at hx
    cases hx
  | some t =>
    obtain ⟨f, hf⟩ := Option.isSome_iff_exists.1 (Running.verdict?_soonest ht)
    rw [Running.ending_eq ht hf] at hx
    exact round_left hd (h.awaiting_over hp ht hf hx)

theorem round_resting {d : Clocked σ} (hd : c.opening (.single op config room cmd) e (single cmd) = d)
    (h : Rests cmd .running [callOf config start call] now world d) (hp : d.state.pull = .idle)
    (hx : (callOf config start call).ending = .never) :
    c.round (.single op config room cmd) e (single cmd) (some 1) = d := by
  have ht : (callOf config start call).soonest = none := by
    cases ht : (callOf config start call).soonest with
    | none => rfl
    | some t =>
      obtain ⟨f, hf⟩ := Option.isSome_iff_exists.1 (Running.verdict?_soonest ht)
      rw [Running.ending_eq ht hf] at hx
      exact absurd (hx ▸ hf) Running.verdict?_ne_never
  have hwake : (Batch.single op config room cmd).step d.state (.wake false []) = none := by
    have hcan : Batch.canWake d.state false [] = false := by simp [Batch.canWake]
    simp only [Batch.step, Batch.wake, hcan]
    rfl
  have hround : finishedRound d.state = [] := by simp [finishedRound, h.alone.flights, Phase.isFinished]
  have hawait := h.awaiting_never hp ht (.single op config room cmd) (single cmd)
  rw [← hd] at hawait
  rw [round_eq hawait, hd, hround, hp, show Pull.idle.isGiven = false from rfl, move_of_not_step hwake,
    consume_waiting h.alone.stage]

theorem rounds_waiting {b : Batch} {items : List Supplied} {take : Option Nat} (h : c.state.stage = .waiting)
    (n : Nat) : c.rounds b e items take (n + 1) = (c.round b e items take).rounds b e items take n := by
  simp only [rounds, h]

theorem Left.rounds (h : Left x world c) {b : Batch} {items : List Supplied} {take : Option Nat} (n : Nat) :
    c.rounds b e items take n = c := by
  obtain ⟨e, he⟩ := Option.isSome_iff_exists.1 h.ended
  cases n with
  | zero => rfl
  | succ n =>
    unfold State.ending? at he
    split at he
    · next hs => simp only [Clocked.rounds, hs]
    · cases he

namespace Sits

theorem rounds_of_left (h : Sits cmd phase running now world c)
    (hround : Left x after (c.round (.single op config room cmd) e (single cmd) (some 1))) (n : Nat) :
    Left x after (c.rounds (.single op config room cmd) e (single cmd) (some 1) (n + 1)) := by
  rw [rounds_waiting h.alone.stage, hround.rounds]
  exact hround

theorem opening_eq (h : Sits cmd phase running now world c) (b : Batch) (items : List Supplied) :
    c.opening b e items = (c.start b e items).settle b items := by
  rw [opening, h.alone.flights]
  rfl

theorem opening_of_running (h : Sits cmd .running running now world c) (b : Batch) (items : List Supplied) :
    c.opening b e items = c.settle b items := by
  have hnone : c.state.flights.find? (·.phase.isQueued) = none := by simp [h.alone.flights, Phase.isQueued]
  rw [h.opening_eq]
  simp only [Clocked.start, hnone]

theorem rounds_over (h : Sits cmd .running [callOf config start call] now world c) (hp : c.state.pull = .idle)
    (hv : (callOf config start call).verdict? now = none)
    (hx : (callOf config start call).ending.conclusion room op cmd call.finish world = some (x, after)) (n : Nat) :
    Left x after (c.rounds (.single op config room cmd) e (single cmd) (some 1) (n + 1)) := by
  obtain ⟨hrests, hidle⟩ := h.settle_going op room hv
  exact h.rounds_of_left (round_over (h.opening_of_running _ _) hrests (hidle hp) hx) n

theorem rounds_resting (h : Sits cmd .running [callOf config start call] now world c) (hp : c.state.pull = .idle)
    (hv : (callOf config start call).verdict? now = none)
    (hx : (callOf config start call).ending = .never) (n : Nat) :
    Sits cmd .running [callOf config start call] now world
      (c.rounds (.single op config room cmd) e (single cmd) (some 1) n) := by
  induction n generalizing c with
  | zero => exact h
  | succ n ih =>
    obtain ⟨hrests, hidle⟩ := h.settle_going op room hv
    rw [rounds_waiting h.alone.stage, round_resting (h.opening_of_running _ _) hrests (hidle hp) hx]
    exact ih hrests.toSits (hidle hp)

theorem rounds_barred (h : Sits cmd .queued [] now world c) (hfits : op.unfit? cmd = none) {f : Failure}
    (hf : config.barred? cmd = some f) (n : Nat) :
    Left (.error f) world (c.rounds (.single op config room cmd) e (single cmd) (some 1) (n + 1)) := by
  have hstarted : Sits cmd (.finished (.error f)) [] now world (c.start (.single op config room cmd) e (single cmd)) :=
    h.start_barred hfits hf
  have hsettled := hstarted.settle_none op config room
  exact h.rounds_of_left (round_finished (h.opening_eq _ _) hsettled) n

theorem rounds_opened_over {d : Clocked σ} (h : Sits cmd phase running now world c)
    (hd : c.opening (.single op config room cmd) e (single cmd) = d)
    (hgoing : Rests cmd .running [callOf config start call] t begun d)
    (hv : (callOf config start call).verdict? t = none)
    (hx : (callOf config start call).ending.conclusion room op cmd call.finish begun = some (x, after)) (n : Nat) :
    Left x after (c.rounds (.single op config room cmd) e (single cmd) (some 1) (n + 2)) := by
  rcases hgoing.answered with hp | hp
  · exact h.rounds_of_left (round_over hd hgoing hp hx) (n + 1)
  · obtain ⟨hsits, hidle⟩ := round_given hd hgoing hp
    rw [rounds_waiting h.alone.stage]
    exact hsits.rounds_over hidle hv hx n

theorem rounds_opened_resting {d : Clocked σ} (h : Sits cmd phase running now world c)
    (hd : c.opening (.single op config room cmd) e (single cmd) = d)
    (hgoing : Rests cmd .running [callOf config start call] t begun d)
    (hv : (callOf config start call).verdict? t = none)
    (hx : (callOf config start call).ending = .never) (n : Nat) :
    Sits cmd .running [callOf config start call] t begun
      (c.rounds (.single op config room cmd) e (single cmd) (some 1) (n + 1)) := by
  rw [rounds_waiting h.alone.stage]
  rcases hgoing.answered with hp | hp
  · rw [round_resting hd hgoing hp hx]
    exact hgoing.toSits.rounds_resting hp hv hx n
  · obtain ⟨hsits, hidle⟩ := round_given hd hgoing hp
    exact hsits.rounds_resting hidle hv hx n

/-- What a command comes to that is let through: what the fate of its call makes of it. -/
theorem rounds_left (h : Sits cmd .queued [] now world c) (hfits : op.unfit? cmd = none)
    (hfree : config.barred? cmd = none) (hcall : e.begin op cmd world = (call, begun))
    (hx : (Fate.of config now call).conclusion room op cmd call.finish begun = some (x, after)) (n : Nat) :
    Left x after (c.rounds (.single op config room cmd) e (single cmd) (some 1) (n + 2)) := by
  obtain ⟨d, hd, hstart⟩ := h.start_call hfits hfree hcall
  have hopening := h.opening_eq (e := e) (.single op config room cmd) (single cmd)
  rw [hstart] at hopening
  unfold Fate.of at hx
  by_cases hzero : call.duration = some 0
  · rw [if_pos hzero] at hopening hx
    cases hx
    exact h.rounds_of_left (round_finished hopening ((hd.finish rfl).settle_none op config room)) (n + 1)
  · rw [if_neg hzero] at hopening hx
    cases hv : (callOf config now call).verdict? now with
    | some f =>
      rw [hv] at hx
      exact h.rounds_of_left (round_finished hopening (hd.settle_over hv hx)) (n + 1)
    | none =>
      rw [hv] at hx
      exact h.rounds_opened_over hopening (hd.settle_going op room hv).1 hv hx n

theorem rounds_never (h : Sits cmd .queued [] now world c) (hfits : op.unfit? cmd = none)
    (hfree : config.barred? cmd = none) (hcall : e.begin op cmd world = (call, begun))
    (hx : Fate.of config now call = .never) (n : Nat) :
    Sits cmd .running [callOf config now call] now begun
      (c.rounds (.single op config room cmd) e (single cmd) (some 1) (n + 1)) := by
  obtain ⟨d, hd, hstart⟩ := h.start_call hfits hfree hcall
  have hopening := h.opening_eq (e := e) (.single op config room cmd) (single cmd)
  rw [hstart] at hopening
  unfold Fate.of at hx
  by_cases hzero : call.duration = some 0
  · rw [if_pos hzero] at hx
    cases hx
  · rw [if_neg hzero] at hopening hx
    cases hv : (callOf config now call).verdict? now with
    | some f =>
      rw [hv, Option.getD_some] at hx
      exact absurd (hx ▸ hv) Running.verdict?_ne_never
    | none =>
      rw [hv] at hx
      exact h.rounds_opened_resting hopening (hd.settle_going op room hv).1 hv hx n

end Sits

def asking (world : σ) (now : Rat) : Clocked σ :=
  ⟨⟨.waiting, .asked, false, 0, [], [.asked]⟩, world, now, [], some now, [(now, .asked)]⟩

def given (cmd : Command) (world : σ) (now : Rat) : Clocked σ :=
  ⟨⟨.waiting, .given 0 (.item (.command cmd)), false, 1, [], [.asked, .took 0]⟩, world, now, [], none,
    [(now, .asked), (now, .took 0)]⟩

theorem consume_first (hallows : config.allows 0 = true) (hnow : IsInstant now) :
    (unbegun world now).consume (.single op config room cmd) (single cmd) (some 1) 1 = asking world now := by
  have hask : (Batch.single op config room cmd).step .initial .ask =
      some ⟨.waiting, .asked, false, 0, [], [.asked]⟩ := by
    simp [Batch.step, Batch.ask, State.initial, Batch.turn, Pull.isIdle, hallows, State.emit]
  show (unbegun world now).move _ _ .ask = _
  rw [move_of_step (c := unbegun world now) hask]
  simp [goTo, unbegun, asking, State.initial, Pull.isAsked, single, hnow.later_zero]

theorem opening_first :
    (asking world now).opening (.single op config room cmd) e (single cmd) = given cmd world now := by
  show (if reached now (some now) then (asking world now).move _ _ .offer else asking world now) = _
  rw [if_pos (reached_self now)]
  rfl

theorem round_first (hnow : IsInstant now) :
    Sits cmd .queued [] now world ((asking world now).round (.single op config room cmd) e (single cmd) (some 1)) := by
  have hopen : ((asking world now).opening (.single op config room cmd) e (single cmd)).awaiting
      (.single op config room cmd) (single cmd) = given cmd world now := by
    rw [opening_first]
    rfl
  obtain ⟨t, hstep, hturned⟩ : ∃ t,
      (Batch.single op config room cmd).step (given cmd world now).state (.wake true []) = some t ∧
        Turned (.single op config room cmd) ⟨.waiting, .idle, false, 1, [⟨0, cmd, .queued⟩], [.asked, .took 0]⟩ t :=
    ⟨_, rfl, turn_turned _ _⟩
  have hround : (asking world now).round (.single op config room cmd) e (single cmd) (some 1) =
      (given cmd world now).goTo (single cmd) t := by
    rw [round_eq hopen]
    show ((given cmd world now).move _ _ (.wake true [])).consume _ _ _ 1 = _
    rw [move_of_step hstep]
    refine consume_waiting ?_
    cases hturned with
    | asks | waits => rfl
    | ends hf => cases hf
  rw [hround]
  cases hturned with
  | asks =>
    have hdue : some (later now 0) = some now := congrArg some hnow.later_zero
    exact ⟨⟨rfl, rfl, rfl, rfl, .inr (.inl rfl)⟩, rfl, rfl, rfl, hdue⟩
  | waits => exact ⟨⟨rfl, rfl, rfl, rfl, .inl rfl⟩, rfl, rfl, rfl, rfl⟩
  | ends hf => cases hf

end

end

end Clocked

namespace Outcome
variable {σ : Type}

/-- What the one command came to and the world that it left. -/
structure Left (o : Outcome σ) (x : Except Failure Response) (world : σ) : Prop where
  delivered : match x with
    | .ok r => o.responses.map (·.2) = [(0, r)]
    | .error f => o.responses = [] ∧ o.ending = some (.failed f.surfaced)
  world : o.world = world

theorem Shows.responses {o : Outcome σ} {b : Batch} {s : State} (h : o.Shows b s) :
    o.responses.map (·.2) = s.yielded := by
  rw [State.yielded, ← h.events, Outcome.responses, List.map_filterMap, List.filterMap_map]
  congr 1
  funext p
  obtain ⟨t, ev⟩ := p
  cases ev <;> rfl

end Outcome

section
variable {σ : Type} {op : Operation} {config : Config} {room : Nat} {e : Executor σ} {cmd : Command} {now : Rat}
  {world begun after : σ} {call : Call σ} {x : Except Failure Response}

def atEnd (op : Operation) (config : Config) (room : Nat) (e : Executor σ) (cmd : Command) (now : Rat) (world : σ) :
    Clocked σ :=
  ((unbegun world now).consume (.single op config room cmd) (single cmd) (some 1) 1).rounds
    (.single op config room cmd) e (single cmd) (some 1) 4

theorem run_shows_atEnd (op : Operation) (config : Config) (room : Nat) (e : Executor σ) (cmd : Command) (now : Rat)
    (world : σ) : (run op config room e (single cmd) (some 1) now world).Shows (.single op config room cmd)
      (atEnd op config room e cmd now world).state := by
  have hconsume : Clocked.Leads (.single op config room cmd) e (single cmd) (some 1) (unbegun world now)
      ((unbegun world now).consume (.single op config room cmd) (single cmd) (some 1) 1) := Clocked.consume_leads 1
  have hreached := hconsume.reached (reached_unbegun _ _ _ _)
  exact ⟨rfl, rfl, ((Clocked.rounds_leads 4 hreached).reached hreached).trace⟩

theorem run_left (h : Clocked.Left x after (atEnd op config room e cmd now world)) :
    (run op config room e (single cmd) (some 1) now world).Left x after := by
  have hresponses := (run_shows_atEnd op config room e cmd now world).responses
  refine ⟨?_, h.world⟩
  have hx := h.delivered
  cases x with
  | ok r => exact hresponses.trans hx
  | error f =>
    exact ⟨List.map_eq_nil_iff.1 (hresponses.trans hx.1), exit?_quiet_eq_failed.2 ⟨f, hx.2, rfl⟩⟩

section
variable (hallows : config.allows 0 = true) (hnow : IsInstant now) (hfits : op.unfit? cmd = none)
include hallows hnow

theorem atEnd_eq : atEnd op config room e cmd now world =
    ((Clocked.asking world now).round (.single op config room cmd) e (single cmd) (some 1)).rounds
      (.single op config room cmd) e (single cmd) (some 1) 3 := by
  rw [atEnd, Clocked.consume_first hallows hnow]
  exact Clocked.rounds_waiting rfl 3

include hfits

theorem run_barred {f : Failure} (hf : config.barred? cmd = some f) :
    (run op config room e (single cmd) (some 1) now world).Left (.error f) world := by
  apply run_left
  rw [atEnd_eq hallows hnow]
  exact (Clocked.round_first hnow).rounds_barred hfits hf 2

/-- A command comes to what the fate of its call makes of it. -/
theorem run_conclusion (hfree : config.barred? cmd = none) (hcall : e.begin op cmd world = (call, begun))
    (hx : (Fate.of config now call).conclusion room op cmd call.finish begun = some (x, after)) :
    (run op config room e (single cmd) (some 1) now world).Left x after := by
  apply run_left
  rw [atEnd_eq hallows hnow]
  exact (Clocked.round_first hnow).rounds_left hfits hfree hcall hx 1

theorem run_never (hfree : config.barred? cmd = none) (hcall : e.begin op cmd world = (call, begun))
    (hx : Fate.of config now call = .never) :
    (run op config room e (single cmd) (some 1) now world).responses = [] ∧
      (run op config room e (single cmd) (some 1) now world).ending = none ∧
        (run op config room e (single cmd) (some 1) now world).world = begun := by
  have hrests :
      Clocked.Sits cmd .running [callOf config now call] now begun (atEnd op config room e cmd now world) := by
    rw [atEnd_eq hallows hnow]
    exact (Clocked.round_first hnow).rounds_never hfits hfree hcall hx 2
  have hresponses := (run_shows_atEnd op config room e cmd now world).responses
  refine ⟨List.map_eq_nil_iff.1 (hresponses.trans hrests.alone.yielded), ?_, hrests.world⟩
  have hgoing : (atEnd op config room e cmd now world).state.ending? = none := by
    simp [State.ending?, hrests.alone.stage]
  exact (exit?_quiet ..).trans (congrArg (Option.map _) hgoing)

end

end

end SetPipeline.Pipeline
