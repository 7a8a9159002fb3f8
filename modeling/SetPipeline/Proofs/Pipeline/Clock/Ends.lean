import SetPipeline.Proofs.Pipeline.Clock
import SetPipeline.Proofs.Pipeline.Ending
import SetPipeline.Proofs.Pipeline.Rounds

/-! A run under the clock comes to the end of its stream, as long as every call ends by itself at some time. A
round gets something finished, by letting time pass if need be, and so takes one off the waits that are left;
the rounds of a run are as many as there can be waits. -/
namespace SetPipeline.Pipeline

namespace State
variable {s : State} {i : Nat} {f : Flight} {p : Phase}

theorem mem_setPhase (h : f ∈ (s.setPhase i p).flights) :
    f ∈ s.flights ∧ f.position ≠ i ∨ f.position = i ∧ f.phase = p := by
  obtain ⟨g, hg, rfl⟩ := List.mem_map.1 h
  by_cases hi : g.position = i
  · rw [if_pos hi]
    exact .inr ⟨hi, rfl⟩
  · rw [if_neg hi]
    exact .inl ⟨hg, hi⟩

/-- How often the consumer can still ask before the loop waits. -/
def asks (s : State) : Nat :=
  match s.stage with
  | .fresh => 1
  | .handing rest => rest.length + 1
  | .waiting | .ended _ => 0

end State

section
variable {b : Batch} {s t : State} {m : Move}

theorem Turned.asks_eq_zero (h : Turned b s t) : t.asks = 0 := by
  cases h <;> rfl

theorem Handed.asks_le {round : List Nat} (h : Handed b s round t) : t.asks ≤ round.length := by
  cases h with
  | @yields before rest i _ _ hr =>
    have hlen := congrArg List.length hr
    rw [List.length_append, List.length_cons] at hlen
    show rest.length + 1 ≤ round.length
    omega
  | fails => exact Nat.zero_le _
  | turns _ ht => exact ht.asks_eq_zero ▸ Nat.zero_le _

theorem Stepped.asks_ask (h : Stepped b s .ask t) : t.asks < s.asks := by
  cases h with
  | asksFirst hs ht =>
    have hone : s.asks = 1 := by simp [State.asks, hs]
    rw [ht.asks_eq_zero, hone]
    exact Nat.one_pos
  | asks hs ht =>
    have hle := ht.asks_le
    simp only [State.asks, hs]
    exact Nat.lt_succ_of_le hle

theorem Stepped.asks_close (h : Stepped b s .close t) : t.asks = 0 := by
  cases h <;> rfl

theorem Stepped.asks_wake {takePull : Bool} {round : List Nat} (h : Stepped b s (.wake takePull round) t) :
    t.asks ≤ round.length := by
  cases h with
  | wakes _ ht => exact ht.asks_le
  | takes _ _ ht => exact ht.asks_le
  | takesEnd _ _ ht => exact ht.asks_le
  | takesOther => exact Nat.zero_le _
  | takesFailure => exact Nat.zero_le _

theorem exists_ask (h : 0 < s.asks) : ∃ t, b.step s .ask = some t := by
  cases hs : s.stage with
  | fresh | handing => exact ⟨_, by simp only [Batch.step, Batch.ask, hs]; rfl⟩
  | waiting | ended => simp [State.asks, hs] at h

theorem exists_close (h : 0 < s.asks) : ∃ t, b.step s .close = some t := by
  cases hs : s.stage with
  | fresh | handing => exact ⟨_, by simp only [Batch.step, Batch.close, hs]; rfl⟩
  | waiting | ended => simp [State.asks, hs] at h

theorem exists_wake (hs : Sound b s) (hw : s.stage = .waiting) (hfin : Clocked.hasFinished s = true) :
    ∃ t, b.step s (.wake s.pull.isGiven (Clocked.finishedRound s)) = some t := by
  have hplaced : Placed b s := hs.placed (.of_going (by simp [State.ending?, hw]))
  have hsome : s.pull.isGiven = true ∨ Clocked.finishedRound s ≠ [] := by
    simpa [Clocked.hasFinished] using hfin
  have honce : (Clocked.finishedRound s).Nodup :=
    hplaced.positions_nodup.sublist (List.filter_sublist.map _)
  have hall : ∀ i ∈ Clocked.finishedRound s, s.HasFinished i := by
    intro i hi
    obtain ⟨f, hf, rfl⟩ := List.mem_map.1 hi
    obtain ⟨hmem, hphase⟩ := List.mem_filter.1 hf
    simp [State.HasFinished, hplaced.flight?_eq hmem, hphase]
  have hcan := canWake_of_wakes ⟨hw, hsome, honce, hall⟩ id
  simp only [Batch.step, Batch.wake, hcan, if_true]
  split <;> exact ⟨_, rfl⟩

theorem Handed.mem_running {round : List Nat} {f : Flight} (h : Handed b s round t) (hf : f ∈ t.flights) :
    f ∈ s.flights := by
  cases h with
  | yields => exact List.mem_of_mem_filter hf
  | fails => cases hf
  | turns _ ht => exact ht.same.flights ▸ hf

theorem Stepped.mem_running (h : Stepped b s m t) (hbegun : t.begun = s.begun) {f : Flight} (hf : f ∈ t.flights)
    (hr : f.phase = .running) : f ∈ s.flights := by
  have hset {i : Nat} {p : Phase} (hp : p ≠ .running) (hf : f ∈ (s.setPhase i p).flights) : f ∈ s.flights := by
    rcases State.mem_setPhase hf with ⟨hf, -⟩ | ⟨-, hphase⟩
    · exact hf
    · exact absurd (hphase.symm.trans hr) hp
  cases h with
  | asksFirst _ ht => exact ht.same.flights ▸ hf
  | asks _ ht => exact ht.mem_running hf
  | closesFresh | gives | gives_none => exact hf
  | closes | takesOther | takesFailure => cases hf
  | rejects | bars | settles | expires => exact hset (by simp) hf
  | begins => simp [State.begun, State.emit, State.setPhase] at hbegun
  | wakes _ ht => exact ht.mem_running hf
  | takes _ _ ht =>
    rcases List.mem_append.1 (ht.mem_running hf) with hf | hf
    · exact hf
    · rw [List.mem_singleton.1 hf] at hr
      cases hr
  | takesEnd _ _ ht => exact ht.mem_running hf

theorem Stepped.queued_start (h : Stepped b s .start t) : t.queued.length < s.queued.length := by
  have hlt {f : Flight} {p : Phase} (hf : s.flights.find? (·.phase.isQueued) = some f) (hp : p.isQueued = false) :
      (s.setPhase f.position p).queued.length < s.queued.length := by
    have hmem : f.position ∈ s.queued :=
      State.mem_positionsIn.2 ⟨f, List.mem_of_find?_eq_some hf, rfl, by simpa using List.find?_some hf⟩
    rw [State.queued, State.positionsIn_setPhase hp]
    exact List.length_filter_lt_length_iff_exists.2 ⟨_, hmem, by simp⟩
  cases h with
  | rejects hf => exact hlt hf rfl
  | bars hf => exact hlt hf rfl
  | begins hf => exact hlt hf rfl

theorem Stepped.queued_le (h : Stepped b s m t) (hm : m.IsAside) : t.queued.length ≤ s.queued.length := by
  have hle {i : Nat} {p : Phase} (hp : p.isQueued = false) :
      (s.setPhase i p).queued.length ≤ s.queued.length := by
    rw [State.queued, State.positionsIn_setPhase hp]
    exact List.length_filter_le _ _
  cases h with
  | gives | gives_none => exact Nat.le_refl _
  | rejects | bars | begins | settles | expires => exact hle rfl
  | asksFirst | asks | closesFresh | closes | wakes | takes | takesEnd | takesOther | takesFailure => cases hm

theorem hasFinished_iff :
    Clocked.hasFinished s = true ↔ s.pull.isGiven = true ∨ ∃ f ∈ s.flights, f.phase.isFinished = true := by
  simp only [Clocked.hasFinished, Clocked.finishedRound, Bool.or_eq_true, Bool.not_eq_true',
    List.isEmpty_eq_false_iff, ne_eq, List.map_eq_nil_iff, List.filter_eq_nil_iff, not_forall, not_not, exists_prop]

theorem hasFinished_setPhase {i : Nat} {x : Except Failure Response} (h : Clocked.hasFinished s = true) :
    Clocked.hasFinished (s.setPhase i (.finished x)) = true := by
  rw [hasFinished_iff] at h ⊢
  refine h.imp_right fun ⟨f, hf, hfin⟩ => ?_
  by_cases hi : f.position = i
  · exact ⟨_, List.mem_map.2 ⟨f, hf, if_pos hi⟩, rfl⟩
  · exact ⟨f, List.mem_map.2 ⟨f, hf, if_neg hi⟩, hfin⟩

theorem hasFinished_of_flight {i : Nat} {f : Flight} {x : Except Failure Response} (h : s.flight? i = some f) :
    Clocked.hasFinished (s.setPhase i (.finished x)) = true := by
  obtain ⟨hmem, hi⟩ := State.mem_of_flight? h
  exact hasFinished_iff.2 (.inr ⟨_, List.mem_map.2 ⟨f, hmem, if_pos hi⟩, rfl⟩)

end

namespace Clocked

section
variable {σ : Type} {b : Batch} {e : Executor σ} {items : List Supplied} {take : Option Nat} {c d : Clocked σ}

theorem goTo_due {s : State} (h : c.due.isSome = c.state.pull.isAsked) :
    (c.goTo items s).due.isSome = s.pull.isAsked := by
  cases hs : s.pull.isAsked with
  | false => simp [goTo, hs]
  | true =>
    cases hc : c.state.pull.isAsked with
    | false => simp [goTo, hs, hc]
    | true => simp [goTo, hs, hc, h]

/-- A call is over: its flight is finished, and the clock keeps it no longer. -/
def Over (items : List Supplied) (c : Clocked σ) (i : Nat) (d : Clocked σ) : Prop :=
  ∃ (x : Except Failure Response) (ev : Event) (w : σ),
    d = { c with world := w, running := c.running.filter (·.position != i) }.goTo items
      ((c.state.setPhase i (.finished x)).emit [ev])

theorem finish_over {r : Running σ} {cmd : Command}
    (hf : c.state.flight? r.position = some ⟨r.position, cmd, .running⟩) :
    Over items c r.position (c.finish b items r) := by
  obtain ⟨s, hs⟩ : ∃ s, b.step c.state (.settle r.position (r.finish c.world).1) = some s := by
    simp [Batch.step, Batch.settle, hf]
  cases step_stepped hs
  exact ⟨_, _, (r.finish c.world).2, move_of_step hs⟩

theorem expire_over {r : Running σ} {cmd : Command}
    (hf : c.state.flight? r.position = some ⟨r.position, cmd, .running⟩) (ht : b.config.timeout.isSome) :
    Over items c r.position (c.expire b items r) := by
  obtain ⟨n, hn⟩ := Option.isSome_iff_exists.1 ht
  obtain ⟨s, hs⟩ : ∃ s, b.step c.state (.expire r.position) = some s := by
    simp [Batch.step, Batch.expire, hf, hn]
  cases step_stepped hs
  exact ⟨_, _, c.world, move_of_step hs⟩

/-- Every call comes to an end, by itself or by its timeout. -/
def Bounded (b : Batch) (e : Executor σ) : Prop :=
  ∀ cmd w, (e.begin b.operation cmd w).1.duration.isSome ∨ (allowance b.config.timeout).isSome

/-- All that goes on is on the clock: a pull that is asked is due, and a running flight has a call that comes to
an end. -/
structure Timed (b : Batch) (c : Clocked σ) : Prop where
  due : c.due.isSome = c.state.pull.isAsked
  flights : ∀ f ∈ c.state.flights, f.phase = .running →
    ∃ r ∈ c.running, r.position = f.position ∧ (r.ends.isSome ∨ r.expires.isSome)
  timeout : ∀ r ∈ c.running, r.expires.isSome → b.config.timeout.isSome

namespace Timed

theorem goTo (h : Timed b c) {m : Move} {s : State} (hs : b.step c.state m = some s)
    (hbegun : s.begun = c.state.begun) : Timed b (c.goTo items s) :=
  ⟨goTo_due h.due, fun f hf hr => h.flights f ((step_stepped hs).mem_running hbegun hf hr) hr, h.timeout⟩

end Timed

theorem Over.timed {i : Nat} (h : Over items c i d) (hc : Timed b c) : Timed b d := by
  obtain ⟨x, ev, w, rfl⟩ := h
  refine ⟨goTo_due hc.due, fun f hf hr => ?_, fun r hr => hc.timeout r (List.mem_of_mem_filter hr)⟩
  rcases State.mem_setPhase hf with ⟨hf, hne⟩ | ⟨-, hphase⟩
  · obtain ⟨r, hrun, hpos, hends⟩ := hc.flights f hf hr
    exact ⟨r, List.mem_filter.2 ⟨hrun, bne_iff_ne.2 (hpos ▸ hne)⟩, hpos, hends⟩
  · cases hphase.symm.trans hr

/-- What the end of some calls leaves as it is. -/
structure Calms (c d : Clocked σ) : Prop where
  now : d.now = c.now
  pull : d.state.pull = c.state.pull
  due : c.state.pull.isAsked = true → d.due = c.due
  queued : d.state.queued.length ≤ c.state.queued.length
  finished : hasFinished c.state = true → hasFinished d.state = true

theorem Calms.refl : Calms c c := ⟨rfl, rfl, fun _ => rfl, Nat.le_refl _, id⟩

theorem Calms.trans {d' : Clocked σ} (h : Calms c d) (h' : Calms d d') : Calms c d' :=
  ⟨h'.now.trans h.now, h'.pull.trans h.pull, fun hp => (h'.due (h.pull ▸ hp)).trans (h.due hp),
    Nat.le_trans h'.queued h.queued, fun hfin => h'.finished (h.finished hfin)⟩

theorem Over.calms {i : Nat} (h : Over items c i d) : Calms c d := by
  obtain ⟨x, ev, w, rfl⟩ := h
  refine ⟨rfl, rfl, fun hp => ?_, ?_, hasFinished_setPhase⟩
  · simp [goTo, State.emit, State.setPhase, hp]
  · show (c.state.setPhase i (.finished x)).queued.length ≤ _
    rw [State.queued, State.positionsIn_setPhase rfl]
    exact List.length_filter_le _ _

theorem Over.hasFinished {i : Nat} {f : Flight} (h : Over items c i d) (hf : c.state.flight? i = some f) :
    hasFinished d.state = true := by
  obtain ⟨x, ev, w, rfl⟩ := h
  exact hasFinished_of_flight hf

theorem settleOne_over (items : List Supplied) (h : Reached b e c) (ht : Timed b c)
    (hgo : c.state.ending? = none) {r : Running σ} (hr : r ∈ c.running) : Over items c r.position (settleOne b items c r) ∨
      settleOne b items c r = c ∧ reached c.now r.expires = false ∧ reached c.now r.ends = false := by
  obtain ⟨cmd, -, hf, -⟩ := h.calls hgo r hr
  unfold settleOne
  split
  · next hlate => exact .inl (expire_over hf (ht.timeout r hr (isSome_of_isLate hlate)))
  · next hlate =>
    split
    · exact .inl (finish_over hf)
    · next hx =>
      have hends : reached c.now r.ends = false := by simpa using hx
      exact .inr ⟨rfl, by simpa [Running.isLate, hends] using hlate, hends⟩

theorem Begins.flights {f : Flight} {s : State} {r : Running σ} (h : Begins b e c f s r) :
    s.flights = (c.state.setPhase f.position .running).flights := by
  have hbegun := h.begun
  cases step_stepped h.step with
  | rejects => simp [State.begun, State.setPhase] at hbegun
  | bars => simp [State.begun, State.setPhase] at hbegun
  | begins hg =>
    cases h.next.symm.trans hg
    rfl

theorem isSome_of {timeout : Option Number} {now : Rat} {i : Nat} {call : Call σ}
    (h : call.duration.isSome ∨ (allowance timeout).isSome) :
    (Running.of timeout now i call).ends.isSome ∨ (Running.of timeout now i call).expires.isSome := by
  unfold Running.of
  dsimp only
  split
  · next hnow => exact .inr (isSome_of_reached hnow)
  · simpa using h

theorem Started.timed (h : Started b e items c d) (he : Bounded b e)
    (hc : Timed b c) : Timed b d := by
  have hjoin {f : Flight} {s : State} {r : Running σ} (hb : Begins b e c f s r) :
      Timed b (c.join b e items f s r) := by
    have hends : r.ends.isSome ∨ r.expires.isSome := hb.call ▸ isSome_of (he _ _)
    have htimeout (hx : r.expires.isSome) : b.config.timeout.isSome := by
      rw [hb.call, Running.of, Option.isSome_map] at hx
      cases ht : b.config.timeout with
      | none => simp [allowance, ht] at hx
      | some n => rfl
    refine ⟨goTo_due hc.due, fun g hg hrun => ?_, fun r' hr' => ?_⟩
    · rw [Clocked.join, goTo_state, hb.flights] at hg
      rcases State.mem_setPhase hg with ⟨hg, -⟩ | ⟨hpos, -⟩
      · obtain ⟨r', hr', hrest⟩ := hc.flights g hg hrun
        exact ⟨r', List.mem_append_left _ hr', hrest⟩
      · exact ⟨r, List.mem_append_right _ (List.mem_singleton.2 rfl), hb.position.trans hpos.symm, hends⟩
    · rcases List.mem_append.1 hr' with hr' | hr'
      · exact hc.timeout r' hr'
      · rw [List.mem_singleton.1 hr']
        exact htimeout
  cases h with
  | rests => exact hc
  | answers hs hbegun => exact hc.goTo hs hbegun
  | begins hb => exact hjoin hb
  | @ends f s r hb =>
    have hflight : s.flight? r.position = some ⟨r.position, f.command, .running⟩ := hb.position ▸ hb.runs
    have hover : Over items (c.join b e items f s r) r.position _ := finish_over (b := b) hflight
    exact hover.timed (hjoin hb)

theorem Ticks.timed (h : Ticks b e items take c d) (he : Bounded b e)
    (hr : Reached b e c) (hc : Timed b c) : Timed b d := by
  cases h with
  | passes => exact ⟨hc.due, hc.flights, hc.timeout⟩
  | @moves m s hm hs =>
    have hne : m ≠ .start := by
      rintro rfl
      exact hm
    exact hc.goTo hs ((step_stepped hs).begun_of_ne_start hne)
  | starts => exact (start_started hr.reachable.sound).timed he hc
  | finishes _ hf => exact (finish_over (b := b) hf).timed hc
  | expires hmem hx hf => exact (expire_over hf (hc.timeout _ hmem hx)).timed hc

theorem Leads.timed (h : Leads b e items take c d) (he : Bounded b e)
    (hr : Reached b e c) (hc : Timed b c) : Timed b d := by
  induction h with
  | refl => exact hc
  | tail hleads ht ih => exact ht.timed he (Leads.reached hleads hr) ih

theorem foldl_settles (items : List Supplied) {rs : List (Running σ)} (h : Reached b e c) (ht : Timed b c)
    (hgo : c.state.ending? = none) (hrs : ∀ r ∈ rs, r ∈ c.running) (hn : (rs.map (·.position)).Nodup) :
    Calms c (rs.foldl (settleOne b items) c) ∧
      ∀ r ∈ rs, reached c.now r.expires = true ∨ reached c.now r.ends = true →
        hasFinished (rs.foldl (settleOne b items) c).state = true := by
  induction rs generalizing c with
  | nil => exact ⟨.refl, by simp⟩
  | cons r rs ih =>
    obtain ⟨hr, hrs⟩ := List.forall_mem_cons.1 hrs
    obtain ⟨hfree, hn⟩ := List.nodup_cons.1 hn
    obtain ⟨cmd, -, hf, -⟩ := h.calls hgo r hr
    have hkept : ∀ r' ∈ rs, r' ∈ (settleOne b items c r).running := fun r' hr' =>
      mem_settleOne_running (hrs r' hr') fun he => hfree (List.mem_map.2 ⟨r', hr', he⟩)
    have hone : Waits b e items none c (settleOne b items c r) := settleOne_waits h hgo hr
    rw [List.foldl_cons]
    rcases settleOne_over items h ht hgo hr with hover | ⟨hsame, hexpires, hends⟩
    · obtain ⟨hcalms, hrest⟩ := ih (hone.leads.reached h) (hover.timed ht) (hone.going hgo) hkept hn
      refine ⟨hover.calms.trans hcalms, fun r' hr' hnow => ?_⟩
      rcases List.mem_cons.1 hr' with rfl | hr'
      · exact hcalms.finished (hover.hasFinished hf)
      · exact hrest r' hr' (hover.calms.now.symm ▸ hnow)
    · rw [hsame] at hkept ⊢
      obtain ⟨hcalms, hrest⟩ := ih h ht hgo hkept hn
      refine ⟨hcalms, fun r' hr' hnow => ?_⟩
      rcases List.mem_cons.1 hr' with rfl | hr'
      · simp [hexpires, hends] at hnow
      · exact hrest r' hr' hnow

theorem offer_hasFinished (hp : c.state.pull.isAsked = true) : hasFinished (c.move b items .offer).state = true := by
  obtain ⟨s, hs⟩ : ∃ s, b.step c.state .offer = some s := by
    cases hpull : c.state.pull with
    | asked =>
      simp only [Batch.step, Batch.offer, hpull]
      split <;> exact ⟨_, rfl⟩
    | idle | given => simp [hpull, Pull.isAsked] at hp
  rw [move_state hs, hasFinished_iff]
  cases step_stepped hs <;> exact .inl rfl

theorem offer_keeps (h : hasFinished c.state = true) : hasFinished (c.move b items .offer).state = true := by
  cases hp : c.state.pull.isAsked with
  | true => exact offer_hasFinished hp
  | false =>
    have hnone : b.step c.state .offer = none := by
      cases hpull : c.state.pull with
      | asked => simp [hpull, Pull.isAsked] at hp
      | idle | given => simp [Batch.step, Batch.offer, hpull]
    rwa [move_of_not_step hnone]

theorem move_queued {m : Move} (hm : m.IsAside) :
    (c.move b items m).state.queued.length ≤ c.state.queued.length := by
  cases hs : b.step c.state m with
  | none => rw [move_of_not_step hs]
  | some s =>
    rw [move_state hs]
    exact (step_stepped hs).queued_le hm

theorem settle_queued (h : Reached b e c) (ht : Timed b c) (hgo : c.state.ending? = none) :
    (c.settle b items).state.queued.length ≤ c.state.queued.length := by
  have hoffer (d : Clocked σ) :
      (if reached d.now d.due then d.move b items .offer else d).state.queued.length ≤ d.state.queued.length := by
    split
    · exact move_queued trivial
    · exact Nat.le_refl _
  exact Nat.le_trans (hoffer _) (foldl_settles items h ht hgo (fun _ hr => hr) h.once).1.queued

/-- When something's time has come, something is finished. -/
theorem settle_hasFinished (h : Reached b e c) (ht : Timed b c) (hgo : c.state.ending? = none)
    (hnow : reached c.now c.due = true ∨
      ∃ r ∈ c.running, reached c.now r.expires = true ∨ reached c.now r.ends = true) :
    hasFinished (c.settle b items).state = true := by
  obtain ⟨hcalms, hover⟩ := foldl_settles items h ht hgo (fun _ hr => hr) h.once
  have hoffer {d : Clocked σ}
      (hd : reached d.now d.due = true ∧ d.state.pull.isAsked = true ∨ hasFinished d.state = true) :
      hasFinished (if reached d.now d.due then d.move b items .offer else d).state = true := by
    split
    · rcases hd with ⟨-, hp⟩ | hfin
      · exact offer_hasFinished hp
      · exact offer_keeps hfin
    · next hnot =>
      rcases hd with ⟨hdue, -⟩ | hfin
      · exact absurd hdue hnot
      · exact hfin
  apply hoffer (d := c.running.foldl (settleOne b items) c)
  rcases hnow with hdue | ⟨r, hr, hr'⟩
  · have hasked : c.state.pull.isAsked = true := ht.due ▸ isSome_of_reached hdue
    rw [hcalms.now, hcalms.due hasked, hcalms.pull]
    exact .inl ⟨hdue, hasked⟩
  · exact .inr (hover r hr hr')

theorem earlier_isSome (s t : Option Rat) : (earlier s t).isSome = (s.isSome || t.isSome) := by
  cases s <;> cases t <;> rfl

theorem earlier_eq_some {s t : Option Rat} {x : Rat} (h : earlier s t = some x) : s = some x ∨ t = some x := by
  cases s with
  | none => exact .inr h
  | some s =>
    cases t with
    | none => exact .inl h
    | some t =>
      simp only [earlier] at h
      split at h
      · exact .inl h
      · exact .inr h

theorem foldl_earlier_isSome {rs : List (Running σ)} {t : Option Rat}
    (h : t.isSome ∨ ∃ r ∈ rs, r.ends.isSome ∨ r.expires.isSome) :
    (rs.foldl (fun t r => earlier t (earlier r.ends r.expires)) t).isSome := by
  induction rs generalizing t with
  | nil => simpa using h
  | cons r rs ih =>
    apply ih
    rw [earlier_isSome, earlier_isSome]
    rcases h with ht | ⟨r', hr', hends⟩
    · exact .inl (by simp [ht])
    · rcases List.mem_cons.1 hr' with rfl | hr'
      · exact .inl (by simpa using .inr hends)
      · exact .inr ⟨r', hr', hends⟩

theorem of_foldl_earlier {rs : List (Running σ)} {t : Option Rat} {x : Rat}
    (h : rs.foldl (fun t r => earlier t (earlier r.ends r.expires)) t = some x) :
    t = some x ∨ ∃ r ∈ rs, r.ends = some x ∨ r.expires = some x := by
  induction rs generalizing t with
  | nil => exact .inl h
  | cons r rs ih =>
    rcases ih h with ht | ⟨r', hr', hx⟩
    · rcases earlier_eq_some ht with ht | hr
      · exact .inl ht
      · exact .inr ⟨r, List.mem_cons_self, earlier_eq_some hr⟩
    · exact .inr ⟨r', List.mem_cons_of_mem _ hr', hx⟩

theorem reached_of_nextInstant {t : Rat} (h : c.nextInstant = some t) :
    reached t c.due = true ∨ ∃ r ∈ c.running, reached t r.expires = true ∨ reached t r.ends = true := by
  have hself : reached t (some t) = true := by simp [reached]
  rcases of_foldl_earlier h with hdue | ⟨r, hr, hends | hexpires⟩
  · exact .inl (hdue ▸ hself)
  · exact .inr ⟨r, hr, .inr (hends ▸ hself)⟩
  · exact .inr ⟨r, hr, .inl (hexpires ▸ hself)⟩

theorem nextInstant_isSome (h : Reached b e c) (ht : Timed b c) (hw : c.state.stage = .waiting)
    (hq : c.state.queued = []) (hnot : hasFinished c.state = false) : c.nextInstant.isSome := by
  have hstaged := h.reachable.sound.staged
  rw [Staged, hw] at hstaged
  have hno : ¬(c.state.pull.isGiven = true ∨ ∃ f ∈ c.state.flights, f.phase.isFinished = true) := by
    rw [← hasFinished_iff, hnot]
    simp
  apply foldl_earlier_isSome
  cases hpull : c.state.pull with
  | asked => exact .inl (by rw [ht.due, hpull]; rfl)
  | given => exact absurd (.inl (by rw [hpull]; rfl)) hno
  | idle =>
    obtain ⟨f, hf⟩ := List.exists_mem_of_ne_nil _ (hstaged.resolve_right (by simp [hpull]))
    cases hphase : f.phase with
    | queued =>
      have hmem : f.position ∈ c.state.queued := State.mem_positionsIn.2 ⟨f, hf, rfl, by rw [hphase]; rfl⟩
      rw [hq] at hmem
      cases hmem
    | running =>
      obtain ⟨r, hr, -, hends⟩ := ht.flights f hf hphase
      exact .inr ⟨r, hr, hends⟩
    | finished x => exact absurd (.inr ⟨f, hf, by rw [hphase]; rfl⟩) hno

theorem Started.queued (h : Started b e items c d) : d.state.queued.length ≤ c.state.queued.length - 1 := by
  have hstep {s : State} (hs : b.step c.state .start = some s) : s.queued.length ≤ c.state.queued.length - 1 :=
    Nat.le_sub_one_of_lt (step_stepped hs).queued_start
  cases h with
  | rests hnone =>
    have hnil : c.state.queued = [] := by
      rw [State.queued, State.positionsIn, List.map_eq_nil_iff, List.filter_eq_nil_iff]
      exact List.find?_eq_none.1 hnone
    simp [hnil]
  | answers hs => exact hstep hs
  | begins hb => exact hstep hb.step
  | @ends f s r hb =>
    have hfinish : ((c.join b e items f s r).finish b items r).state.queued.length ≤ s.queued.length :=
      move_queued trivial
    exact Nat.le_trans hfinish (hstep hb.step)

theorem startAll_queued {n : Nat} (h : Reached b e c) (hn : c.state.queued.length ≤ n) :
    (startAll b e items n c).state.queued = [] := by
  induction n generalizing c with
  | zero => exact List.eq_nil_of_length_eq_zero (Nat.le_zero.1 hn)
  | succ n ih =>
    have hstarted : Started b e items c (c.start b e items) := start_started h.reachable.sound
    have hqueued := hstarted.queued
    exact ih (hstarted.reached h) (by omega)

theorem consume_asks {n : Nat} (h : c.state.asks ≤ n) : (c.consume b items take n).state.asks = 0 := by
  induction n generalizing c with
  | zero => exact Nat.le_zero.1 h
  | succ n ih =>
    have hnext {enough : Bool} (hpos : 0 < c.state.asks) :
        (if enough then c.move b items .close else consume b items take n (c.move b items .ask)).state.asks = 0 := by
      cases enough with
      | true =>
        obtain ⟨s, hs⟩ := exists_close (b := b) hpos
        rw [if_pos rfl, move_state hs]
        exact (step_stepped hs).asks_close
      | false =>
        obtain ⟨s, hs⟩ := exists_ask (b := b) hpos
        have hlt := (step_stepped hs).asks_ask
        apply ih
        rw [move_state hs]
        omega
    unfold consume
    split
    · next hs => exact hnext (by simp [State.asks, hs])
    · next hs => exact hnext (by simp [State.asks, hs])
    · next hs => simp [State.asks, hs]
    · next hs => simp [State.asks, hs]

theorem move_waits {n : Nat} {m : Move} (hs : Sound b c.state) (hn : b.source.Within n) :
    (c.move b items m).state.waits n ≤ c.state.waits n := by
  cases hm : b.step c.state m with
  | none => rw [move_of_not_step hm]
  | some s =>
    rw [move_state hm]
    exact Nat.le_of_add_right_le ((step_stepped hm).waits_le hs hn)

theorem Started.waits {n : Nat} (h : Started b e items c d) (hs : Sound b c.state) (hn : b.source.Within n) :
    d.state.waits n ≤ c.state.waits n := by
  have hstep {s : State} (hstart : b.step c.state .start = some s) : s.waits n ≤ c.state.waits n :=
    Nat.le_of_add_right_le ((step_stepped hstart).waits_le hs hn)
  cases h with
  | rests => exact Nat.le_refl _
  | answers hstart => exact hstep hstart
  | begins hb => exact hstep hb.step
  | @ends f s r hb =>
    have hsound : Sound b (c.join b e items f s r).state := (step_stepped hb.step).sound hs
    have hfinish : ((c.join b e items f s r).finish b items r).state.waits n ≤ s.waits n := move_waits hsound hn
    exact Nat.le_trans hfinish (hstep hb.step)

theorem Leads.waits {n : Nat} (h : Leads b e items take c d) (hc : Reached b e c) (hn : b.source.Within n) :
    d.state.waits n ≤ c.state.waits n := by
  induction h with
  | refl => exact Nat.le_refl _
  | tail hleads ht ih =>
    refine Nat.le_trans ?_ ih
    have hsound := (Leads.reached hleads hc).reachable.sound
    cases ht with
    | passes => exact Nat.le_refl _
    | moves _ hs => exact Nat.le_of_add_right_le ((step_stepped hs).waits_le hsound hn)
    | starts => exact (start_started hsound).waits hsound hn
    | finishes => exact move_waits hsound hn
    | expires => exact move_waits hsound hn

theorem consume_waits {n k : Nat} (h : Reached b e c) (hn : b.source.Within n) :
    (c.consume b items take k).state.waits n ≤ c.state.waits n := by
  have hleads : Leads b e items take c (c.consume b items take k) := consume_leads k
  exact hleads.waits h hn

/-- A loop that wakes with what is finished has one wait less left, and the consumer takes all that is handed
over. -/
theorem wake_lowers (items : List Supplied) (take : Option Nat) {n : Nat} (h : Reached b e c)
    (hn : b.source.Within n) (hw : c.state.stage = .waiting) (hfin : hasFinished c.state = true) :
    let d := (c.move b items (.wake c.state.pull.isGiven (finishedRound c.state))).consume b items take
      ((finishedRound c.state).length + 1)
    d.state.asks = 0 ∧ d.state.waits n < c.state.waits n := by
  obtain ⟨s, hs⟩ := exists_wake h.reachable.sound hw hfin
  have hstep := step_stepped hs
  have hmove : Leads b e items take c (c.move b items (.wake c.state.pull.isGiven (finishedRound c.state))) :=
    move_leads trivial
  refine ⟨consume_asks ?_, ?_⟩
  · rw [move_state hs]
    exact Nat.le_succ_of_le hstep.asks_wake
  · have hlt := hstep.waits_le h.reachable.sound hn
    apply Nat.lt_of_le_of_lt (consume_waits (hmove.reached h) hn)
    rw [move_state hs]
    exact hlt

/-- A round of a loop that waits takes one off the waits that are left, and the consumer has all that was handed
over. -/
theorem round_lowers (items : List Supplied) (take : Option Nat) {n : Nat} (h : Reached b e c) (ht : Timed b c)
    (he : Bounded b e) (hn : b.source.Within n) (hw : c.state.stage = .waiting) :
    (c.round b e items take).state.asks = 0 ∧ (c.round b e items take).state.waits n < c.state.waits n := by
  have hgo : c.state.ending? = none := by simp [State.ending?, hw]
  have hwake {d : Clocked σ} (hd : Waits b e items take c d) (hfin : hasFinished d.state = true) :
      ((d.move b items (.wake d.state.pull.isGiven (finishedRound d.state))).consume b items take
          ((finishedRound d.state).length + 1)).state.asks = 0 ∧
        ((d.move b items (.wake d.state.pull.isGiven (finishedRound d.state))).consume b items take
          ((finishedRound d.state).length + 1)).state.waits n < c.state.waits n := by
    obtain ⟨hasks, hlt⟩ := wake_lowers items take (hd.leads.reached h) hn (hd.stage.trans hw) hfin
    exact ⟨hasks, Nat.lt_of_lt_of_le hlt (hd.leads.waits h hn)⟩
  have hstart : Waits b e items take c (c.startAll b e items c.state.flights.length) := startAll_waits _ h
  have hreached := hstart.leads.reached h
  have htimed := hstart.leads.timed he h ht
  have hgoing := hstart.going hgo
  have hnone : (c.startAll b e items c.state.flights.length).state.queued = [] :=
    startAll_queued h (by simpa [State.queued, State.positionsIn] using List.length_filter_le _ _)
  have hsettle := hstart.trans (settle_waits hreached hgoing)
  have hqueued : ((c.startAll b e items c.state.flights.length).settle b items).state.queued = [] := by
    refine List.eq_nil_of_length_eq_zero (Nat.le_zero.1 ?_)
    exact Nat.le_trans (settle_queued hreached htimed hgoing) (by simp [hnone])
  have htimed' := hsettle.leads.timed he h ht
  unfold round
  dsimp only
  split
  · next hfin => exact hwake hsettle hfin
  · next hnot =>
    have hnext := nextInstant_isSome (hsettle.leads.reached h) htimed' (hsettle.stage.trans hw) hqueued
      (by simpa using hnot)
    split
    · next now hnow =>
      have hpass := hsettle.trans ⟨.single (.passes now), rfl⟩
      have hpassed := hpass.leads.reached h
      have hgoing' := hpass.going hgo
      apply hwake (hpass.trans (settle_waits hpassed hgoing'))
      exact settle_hasFinished hpassed (hpass.leads.timed he h ht) hgoing' (reached_of_nextInstant hnow)
    · next hnow => simp [hnow] at hnext

theorem rounds_ends {n k : Nat} (h : Reached b e c) (ht : Timed b c) (he : Bounded b e) (hn : b.source.Within n)
    (hasks : c.state.asks = 0) (hk : c.state.waits n < k) : (c.rounds b e items take k).state.ending?.isSome := by
  induction k generalizing c with
  | zero => exact absurd hk (Nat.not_lt_zero _)
  | succ k ih =>
    unfold rounds
    split
    · next hw =>
      obtain ⟨hasks', hlt⟩ := round_lowers items take h ht he hn hw
      have hround : Leads b e items take c (c.round b e items take) :=
        round_leads h (by simp [State.ending?, hw])
      exact ih (hround.reached h) (hround.timed he h ht) hasks' (by omega)
    · next hs => simp [State.asks, hs] at hasks
    · next hs => simp [State.asks, hs] at hasks
    · next hs => simp [State.ending?, hs]

end

end Clocked

theorem sourceOf_within (items : List Supplied) : Source.Within (sourceOf items) items.length := by
  intro i d h
  unfold sourceOf at h
  split at h
  · next hi => exact (List.getElem?_eq_some_iff.1 hi).1
  · cases h

/-- A run comes to the end of its stream if every call comes to an end: there are rounds enough for it. -/
theorem run_ends {op : Operation} {config : Config} {room : Nat} {e : Executor σ} {items : List Supplied}
    (take : Option Nat) (now : Rat) (world : σ) (he : Clocked.Bounded (.quiet op (sourceOf items) config room) e) :
    (run op config room e items take now world).ending.isSome := by
  have hreached := reached_unbegun (.quiet op (sourceOf items) config room) e world now
  have htimed : (unbegun world now).Timed (.quiet op (sourceOf items) config room) :=
    ⟨rfl, by simp [unbegun, State.initial], by simp [unbegun]⟩
  have hn := sourceOf_within items
  have hconsume : Clocked.Leads (.quiet op (sourceOf items) config room) e items take (unbegun world now)
      ((unbegun world now).consume (.quiet op (sourceOf items) config room) items take 1) := Clocked.consume_leads 1
  have hwaits := hconsume.waits hreached hn
  have hinitial : (unbegun world now).state.waits items.length = 2 * items.length + 1 := by
    simp [unbegun, State.waits, State.rest, State.initial, Pull.waits]
  rw [hinitial] at hwaits
  refine isSome_exit?.trans ?_
  exact Clocked.rounds_ends (hconsume.reached hreached) (hconsume.timed he hreached htimed) he hn
    (Clocked.consume_asks (Nat.le_refl 1)) (Nat.lt_succ_of_le hwaits)

end SetPipeline.Pipeline
