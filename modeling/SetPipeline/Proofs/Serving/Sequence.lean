import SetPipeline.Proofs.Serving.Unbroken

/-! A batch over a store without latency is a sequence of direct calls. A call that begins ends in the same
move, so the calls that passed are those that came, in the order of the input; what is left to show is that none
is missing when the batch is over. -/
namespace SetPipeline

open Pipeline

namespace Store

/-- The store after the commands that pass the check were called on it directly, one after the other. -/
def direct (s : Store) (op : Operation) (cs : List Command) : Store :=
  (cs.filter fun c => (op.unfit? c).isNone).foldl (fun st c => (st.execute (.known op) c).2) s

/-- The response that direct calls make of the command at a position: its rejection, or what its own call comes
to after the calls of the commands before it. -/
inductive Gives (s : Store) (op : Operation) (cs : List Command) (i : Nat) : Response → Prop where
  | rejection {c : Command} {u : Unfit} : cs[i]? = some c → op.unfit? c = some u → Gives s op cs i (reject op c u)
  | result {c : Command} {r : Response} : cs[i]? = some c → op.unfit? c = none →
    Response.Carries op.responseKind c ((s.direct op (cs.take i)).execute (.known op) c).1 r → Gives s op cs i r

end Store

namespace Pipeline

variable {b : Batch} {cs : List Command}

theorem Batch.IsUnbarred.calls_commands (hc : b.IsUnbarred) (hb : b.source = ofCommands cs) (k : Nat) :
    (b.calls k).map (·.2) = (cs.take k).filter fun c => (b.operation.unfit? c).isNone := by
  induction k with
  | zero => rfl
  | succ k ih =>
    have hnext : (b.call? k).toList.map (·.2) = (cs[k]?).toList.filter fun c => (b.operation.unfit? c).isNone := by
      cases hk : cs[k]? with
      | none => simp [Batch.call?, hb, ofCommands, hk]
      | some c =>
        have hsource : b.source k = .item (.command c) := hb ▸ ofCommands_of_getElem? hk
        cases hu : b.operation.unfit? c with
        | some u => simp [Batch.call?, hsource, hu]
        | none => simp [Batch.call?, hsource, hu, hc k c hsource hu]
    rw [b.calls_succ, List.map_append, ih, hnext, List.take_add_one, List.filter_append]

end Pipeline

namespace Serving

def visits (b : Batch) (k : Nat) : List Visit := (b.calls k).map fun p => ⟨0, p.1, b.operation, p.2⟩

theorem applied_visits {s₀ : Store} {b : Batch} {cs : List Command} (hc : b.IsUnbarred)
    (hb : b.source = ofCommands cs) (k : Nat) : s₀.applied (visits b k) = s₀.direct b.operation (cs.take k) := by
  rw [Store.direct, ← hc.calls_commands hb k, List.foldl_map, Store.applied, visits, List.foldl_map]

def sleeping? (w : Serving) : Option Nat := w.streams.head?.bind fun st => st.state.running.head?

theorem sleeping?_eq {w : Serving} {b : Batch} {s : State} (h : w.streams = [⟨b, s⟩]) :
    w.sleeping? = s.running.head? := by
  simp [sleeping?, h]

/-- A move of the first stream over a store without latency: a call that begins ends at once. -/
def stepAtOnce (w : Serving) (m : Pipeline.Move) : Option Serving :=
  (w.step (.int 0) (.advance 0 m)).bind fun u =>
    match u.sleeping? with
    | some i => u.step (.int 0) (.pass 0 i)
    | none => some u

/-- What a batch comes to in so many moves, in which it is not closed. -/
inductive AtOnce (s₀ : Store) (b : Batch) : Nat → Serving → Prop where
  | initial : AtOnce s₀ b 0 (launched s₀ b)
  | next {n : Nat} {w u : Serving} {m : Pipeline.Move} : AtOnce s₀ b n w → m ≠ .close → w.stepAtOnce m = some u →
    AtOnce s₀ b (n + 1) u

/-- However a batch is run, it makes so many moves at most, and when it has none left it has done to the store
just what direct calls do, and has given the responses that they make. -/
def RefinesSequence (s₀ : Store) (b : Batch) (cs : List Command) : Prop :=
  ∀ n w, AtOnce s₀ b n w → n ≤ 6 * cs.length + 3 ∧
    ((∀ m, m ≠ .close → w.stepAtOnce m = none) →
      ∃ s, w.streams = [⟨b, s⟩] ∧ b.exit? s = some .exhausted ∧ w.store = s₀.direct b.operation cs ∧
        s.answered.Perm (List.range cs.length) ∧ ∀ p ∈ s.yielded, s₀.Gives b.operation cs p.1 p.2)

/-- Between two moves no call sleeps: the calls that came have passed. -/
structure InStep (s₀ : Store) (b : Batch) (n : Nat) (w : Serving) (s : State) : Prop where
  reachable : Reachable (.int 0) s₀ w
  streams : w.streams = [⟨b, s⟩]
  run : ∃ ms, Run b ms s ∧ (∀ m ∈ ms, m ≠ .close) ∧ n ≤ ms.length
  passed : w.arrived = w.passed

section
variable {s₀ : Store} {b : Batch} {n : Nat} {w u : Serving} {s t : State}

theorem Kept.followed_first (h : Kept (.int 0) s₀ w) (hw : w.streams = [⟨b, s⟩]) : Followed (.int 0) s₀ w 0 b s :=
  h.streams 0 b s (by rw [hw]; rfl)

theorem Kept.filter_first (h : Kept (.int 0) s₀ w) (hw : w.streams = [⟨b, s⟩]) {vs : List Visit} (hvs : vs ⊆ w.arrived) :
    vs.filter (·.stream == 0) = vs := by
  refine filter_stream_eq_self fun v hv => ?_
  have hlt := h.inside v (hvs hv)
  rw [hw] at hlt
  exact Nat.lt_one_iff.1 hlt

theorem Kept.arrived_first (h : Kept (.int 0) s₀ w) (hw : w.streams = [⟨b, s⟩]) :
    w.arrived = s.begun.map fun p => ⟨0, p.1, b.operation, p.2⟩ := by
  rw [← (h.followed_first hw).arrived, h.filter_first hw (List.Subset.refl _)]

theorem Kept.passed_first (h : Kept (.int 0) s₀ w) (hw : w.streams = [⟨b, s⟩]) :
    w.passed.map (·.position) = s.returned := by
  have hpassed := (h.followed_first hw).passed
  rw [h.filter_first hw h.passed] at hpassed
  exact hpassed

theorem Kept.length_first (h : Kept (.int 0) s₀ w) (hw : w.streams = [⟨b, s⟩]) :
    w.passed.length + s.cancelled.length + s.running.length = w.arrived.length := by
  obtain ⟨q, hq⟩ := (h.followed_first hw).reachable.called
  have hlen := hq.split.length_eq
  rw [h.arrived_first hw, List.length_map, ← List.length_map (f := fun v : Visit => v.position), h.passed_first hw]
  simpa [Nat.add_assoc] using hlen

namespace InStep

theorem quiet (hs₀ : s₀.Proper) (h : InStep s₀ b n w s) : s.cancelled = [] ∧ s.running = [] := by
  have hlen := (h.reachable.kept hs₀).length_first h.streams
  rw [h.passed] at hlen
  exact ⟨List.eq_nil_of_length_eq_zero (by omega), List.eq_nil_of_length_eq_zero (by omega)⟩

theorem initial (s₀ : Store) (b : Batch) : InStep s₀ b 0 (launched s₀ b) .initial :=
  ⟨reachable_launched (.int 0) s₀ b, rfl, ⟨[], .initial, by simp, Nat.le_refl _⟩, rfl⟩

/-- After a move of its own a batch is in step again, or just the call that began in it sleeps. -/
theorem advances (hs₀ : s₀.Proper) (h : InStep s₀ b n w s) {v : Serving} {m : Pipeline.Move}
    (hv : w.step (.int 0) (.advance 0 m) = some v) : ∃ t, b.step s m = some t ∧ v.streams = [⟨b, t⟩] ∧
      (v.arrived = v.passed ∧ v.sleeping? = none ∨
        ∃ i c, v.sleeping? = some i ∧ t.flight? i = some ⟨i, c, .running⟩ ∧
          v.arrived = v.passed ++ [⟨0, i, b.operation, c⟩]) := by
  have hkept := (h.reachable.next hv).kept hs₀
  cases step_stepped hv with
  | @advances j b' s' t _ vs hj hne ht hvs =>
    rw [h.streams] at hj
    cases hj
    have hstep := Pipeline.step_stepped ht
    have hstreams : w.streams.set 0 ⟨b, t⟩ = [⟨b, t⟩] := by
      rw [h.streams]
      rfl
    have hlen := hkept.length_first hstreams
    refine ⟨t, ht, hstreams, ?_⟩
    rw [sleeping?_eq hstreams]
    dsimp only at hlen ⊢
    rw [h.passed] at hlen ⊢
    rcases hstep.begun_or with hbegun | ⟨f, hf, rfl⟩
    · -- nothing begins, so nothing is running afterwards
      have hnone : vs = [] := by simp [hvs, newcomers, hbegun]
      rw [hnone, List.append_nil] at hlen ⊢
      have hrunning : t.running = [] := List.eq_nil_of_length_eq_zero (by omega)
      exact .inl ⟨rfl, by rw [hrunning]; rfl⟩
    · -- the one call that begins is the one that is running
      have hone : vs = [⟨0, f.position, b.operation, f.command⟩] := by
        simp [hvs, newcomers, State.begun, State.emit, State.setPhase]
      rw [hone] at hlen ⊢
      have hmem : (⟨f.position, f.command, .running⟩ : Flight) ∈ (s.setPhase f.position .running).flights :=
        List.mem_map.2 ⟨f, hf, if_pos rfl⟩
      have hplaced := (hkept.followed_first hstreams).reachable.sound.placed_of_flight hmem
      have hin : f.position ∈ (s.setPhase f.position .running).running :=
        State.mem_positionsIn.2 ⟨_, hmem, rfl, rfl⟩
      refine .inr ⟨f.position, f.command, ?_, hplaced.flight?_eq hmem, rfl⟩
      obtain ⟨i, hi⟩ : ∃ i, (s.setPhase f.position .running).running = [i] := by
        apply List.length_eq_one_iff.1
        have hpos := List.length_pos_of_mem hin
        simp only [List.length_append, List.length_singleton] at hlen
        change _ + (s.setPhase f.position .running).running.length = _ at hlen
        omega
      show (s.setPhase f.position .running).running.head? = _
      rw [hi] at hin ⊢
      rw [List.mem_singleton.1 hin]
      rfl

theorem next (hs₀ : s₀.Proper) (h : InStep s₀ b n w s) {m : Pipeline.Move} (hm : m ≠ .close)
    (hu : w.stepAtOnce m = some u) : ∃ t, InStep s₀ b (n + 1) u t := by
  obtain ⟨v, hv, hu⟩ := Option.bind_eq_some_iff.1 hu
  obtain ⟨ms, hrun, hms, hn⟩ := h.run
  have hreach := h.reachable.next hv
  obtain ⟨t, ht, hstreams, hcase⟩ := h.advances hs₀ hv
  have hms' : ∀ m' ∈ ms ++ [m], m' ≠ .close := List.forall_mem_append.2 ⟨hms, List.forall_mem_singleton.2 hm⟩
  have hn' : n + 1 ≤ (ms ++ [m]).length := by
    rw [List.length_append]
    exact Nat.succ_le_succ hn
  rcases hcase with ⟨hpassed, hnone⟩ | ⟨i, c, hsome, hflight, harrived⟩
  · rw [hnone] at hu
    cases hu
    exact ⟨t, hreach, hstreams, ⟨_, hrun.next ht, hms', hn'⟩, hpassed⟩
  · rw [hsome] at hu
    cases step_stepped hu with
    | fails hclock => cases hclock
    | @passes _ _ b' t' t'' c' x store _ hj hf hx ht' =>
      rw [hstreams] at hj
      cases hj
      cases hflight.symm.trans hf
      refine ⟨t'', hreach.next hu, ?_, ⟨_, (hrun.next ht).next ht', ?_, ?_⟩, harrived⟩
      · show v.streams.set 0 ⟨b, t''⟩ = _
        rw [hstreams]
        rfl
      · exact List.forall_mem_append.2 ⟨hms', List.forall_mem_singleton.2 (by simp)⟩
      · rw [List.length_append]
        omega

theorem progress (hs₀ : s₀.Proper) (h : InStep s₀ b n w s) (he : s.ending? = none) :
    ∃ m, m ≠ .close ∧ (w.stepAtOnce m).isSome := by
  have hsound := ((h.reachable.kept hs₀).followed_first h.streams).reachable.sound
  obtain ⟨m, hgoes, hsome⟩ := hsound.progress he fun _ => .ok .none
  obtain ⟨t, ht⟩ := Option.isSome_iff_exists.1 hsome
  have hne : m ≠ .close ∧ ∀ i o, m ≠ .settle i o := by
    cases hgoes with
    | ask | offer | start | wake => exact ⟨by simp, by simp⟩
    | settle f hf hr =>
      have hin : f.position ∈ s.running := State.mem_positionsIn.2 ⟨f, hf, rfl, by rw [hr]; rfl⟩
      rw [(h.quiet hs₀).2] at hin
      cases hin
  obtain ⟨v, hv⟩ : ∃ v, w.step (.int 0) (.advance 0 m) = some v :=
    exists_advance (by rw [h.streams]; rfl) hne.2 ht
  refine ⟨m, hne.1, ?_⟩
  obtain ⟨t', ht', hstreams, hcase⟩ := h.advances hs₀ hv
  rw [stepAtOnce, hv, Option.bind_some]
  rcases hcase with ⟨-, hnone⟩ | ⟨i, c, hsleep, hflight, -⟩
  · rw [hnone]
    rfl
  · rw [hsleep]
    have hfirst : v.streams[0]? = some ⟨b, t'⟩ := by rw [hstreams]; rfl
    exact Option.isSome_iff_exists.2 (exists_pass hfirst hflight)

theorem length_le (h : InStep s₀ b n w s) {cs : List Command} (hb : b.source = ofCommands cs) :
    n ≤ 6 * cs.length + 3 := by
  obtain ⟨ms, hrun, hms, hn⟩ := h.run
  have hlen := hrun.length_add_work_le (hb ▸ ofCommands_within cs) hms
  omega

theorem ending?_eq_exhausted (hs₀ : s₀.Proper) (h : InStep s₀ b n w s) (hb : b.source.IsCommands) (hc : b.IsUnbarred)
    {e : End} (he : s.ending? = some e) : e = .exhausted := by
  have hkept := h.reachable.kept hs₀
  obtain ⟨ms, hrun, hms, -⟩ := h.run
  rcases hrun.ending he with rfl | ⟨-, hclose⟩ | ⟨f, rfl, -⟩
  · rfl
  · exact absurd rfl (hms _ hclose)
  · exact absurd he (hkept.ending?_ne_failed hs₀ rfl (hkept.followed_first h.streams) hb hc f)

/-- A batch that is over has made the call of every command that passes the check, in the order of the input. -/
theorem passed_eq_visits (hs₀ : s₀.Proper) (h : InStep s₀ b n w s) {cs : List Command} (hthrough : Through cs s)
    (he : s.ending? = some .exhausted) : w.passed = visits b cs.length := by
  have hkept := h.reachable.kept hs₀
  obtain ⟨q, hq⟩ := (hkept.followed_first h.streams).reachable.called
  have hqueued := hq.queued (.of_exhausted he)
  have htaken : s.taken = cs.length := by simp [State.taken, hthrough.held, hthrough.pulled]
  have hnil : s.queued = [] := by simp [State.queued, State.positionsIn, hthrough.flights]
  have hle := hq.taken
  rw [hnil, eq_comm, List.range'_eq_nil_iff] at hqueued
  obtain rfl : q = cs.length := by omega
  rw [← h.passed, hkept.arrived_first h.streams, hq.begun]
  rfl

theorem store_eq_applied (hs₀ : s₀.Proper) (h : InStep s₀ b n w s) : w.store = s₀.applied w.passed := by
  have hkept := h.reachable.kept hs₀
  rw [hkept.store, hkept.recorded, h.passed, ← hs₀.recorded_applied]
  rfl

theorem gives (hs₀ : s₀.Proper) (h : InStep s₀ b n w s) {cs : List Command} (hb : b.source = ofCommands cs)
    (hc : b.IsUnbarred) (hpassed : w.passed = visits b cs.length) {p : Nat × Response} (hp : p ∈ s.yielded) :
    s₀.Gives b.operation cs p.1 p.2 := by
  have hkept := h.reachable.kept hs₀
  have hfollowed := hkept.followed_first h.streams
  have htells := hkept.tells hs₀ hfollowed hp
  obtain ⟨i, r⟩ := p
  cases htells with
  | rejection hi hu => exact .rejection (ofCommands_eq_command (hb ▸ hi)) hu
  | timeout hi hcancelled =>
    rw [(h.quiet hs₀).1] at hcancelled
    cases hcancelled
  | @result c x r hi hcomes hcarries =>
    obtain ⟨before, after, hsplit, rfl⟩ := hcomes
    have hmem : (i, c) ∈ b.calls cs.length := by
      have hvisit : (⟨0, i, b.operation, c⟩ : Visit) ∈ visits b cs.length := by
        rw [← hpassed, hsplit]
        simp
      obtain ⟨p, hcall, he⟩ := List.mem_map.1 hvisit
      cases he
      exact hcall
    obtain ⟨rest, hrest⟩ := Batch.calls_split hmem
    -- the call stands at one place only
    have hplace : w.passed = visits b i ++ ⟨0, i, b.operation, c⟩ :: rest.map fun p => ⟨0, p.1, b.operation, p.2⟩ := by
      rw [hpassed]
      simp only [visits, hrest, List.map_append, List.map_cons]
    have hnodup : w.passed.Nodup := List.Nodup.of_map _ (reachable_once hs₀ h.reachable)
    rw [hsplit] at hplace hnodup
    have hnot := (List.nodup_cons.1 (List.nodup_middle.1 hnodup)).1
    rw [List.append_cons_inj_of_notMem
      (fun hin => hnot (List.mem_append_left _ hin)) (fun hin => hnot (List.mem_append_right _ hin))] at hplace
    refine .result (ofCommands_eq_command (hb ▸ hi)) (Batch.mem_calls.1 hmem).2.2.1 ?_
    rw [← applied_visits hc hb i, ← hplace.1]
    exact hcarries

end InStep

theorem AtOnce.exists_inStep (hs₀ : s₀.Proper) (h : AtOnce s₀ b n w) : ∃ s, InStep s₀ b n w s := by
  induction h with
  | initial => exact ⟨_, .initial s₀ b⟩
  | next _ hm hu ih =>
    obtain ⟨s, hs⟩ := ih
    exact hs.next hs₀ hm hu

theorem refinesSequence_of_isUnbarred (hs₀ : s₀.Proper) {op : Operation} {source : Source} {config : Config}
    {room : Nat} {cs : List Command} (hb : source = ofCommands cs) (hallows : config.allows 0 = true)
    (hc : (Batch.quiet op source config room).IsUnbarred) :
    RefinesSequence s₀ (.quiet op source config room) cs := by
  intro n w h
  obtain ⟨s, hs⟩ := h.exists_inStep hs₀
  refine ⟨hs.length_le hb, fun hstuck => ?_⟩
  have hreach := ((hs.reachable.kept hs₀).followed_first hs.streams).reachable
  have he : s.ending? = some .exhausted := by
    cases he : s.ending? with
    | some e => rw [hs.ending?_eq_exhausted hs₀ (hb ▸ ofCommands_isCommands cs) hc he]
    | none =>
      obtain ⟨m, hm, hsome⟩ := hs.progress hs₀ he
      rw [hstuck m hm] at hsome
      cases hsome
  obtain ⟨ms, hrun, -⟩ := hs.run
  have hthrough := hreach.sound.through hrun.accounted hb hallows he
  have hpassed := hs.passed_eq_visits hs₀ hthrough he
  refine ⟨s, hs.streams, exit?_quiet_eq_exhausted.2 he, ?_, ?_, fun p hp => hs.gives hs₀ hb hc hpassed hp⟩
  · rw [hs.store_eq_applied hs₀, hpassed, applied_visits hc hb, List.take_length]
  · exact hthrough.answered (hreach.sound.placed (.of_exhausted he))

theorem AtOnce.exists_stuck {l : Nat} (hl : ∀ k u, AtOnce s₀ b k u → k ≤ l) (h : AtOnce s₀ b n w) :
    ∃ k u, AtOnce s₀ b k u ∧ ∀ m, m ≠ .close → u.stepAtOnce m = none := by
  induction hd : l - n generalizing n w with
  | zero =>
    refine ⟨n, w, h, fun m hm => ?_⟩
    cases hu : w.stepAtOnce m with
    | none => rfl
    | some u =>
      have hle := hl _ _ (h.next hm hu)
      omega
  | succ d ih =>
    by_cases hmove : ∃ m u, m ≠ .close ∧ w.stepAtOnce m = some u
    · obtain ⟨m, u, hm, hu⟩ := hmove
      exact ih (h.next hm hu) (by omega)
    · refine ⟨n, w, h, fun m hm => ?_⟩
      cases hu : w.stepAtOnce m with
      | none => rfl
      | some u => exact absurd ⟨m, u, hm, hu⟩ hmove

/-- A call that is barred is not made, so nothing can answer its command. -/
theorem RefinesSequence.isUnbarred (hs₀ : s₀.Proper) {cs : List Command} (h : RefinesSequence s₀ b cs)
    (hb : b.source = ofCommands cs) : b.IsUnbarred := by
  intro i c hi hu
  obtain ⟨n, w, hw, hstuck⟩ := AtOnce.exists_stuck (fun k u hu => (h k u hu).1) .initial
  obtain ⟨s, hstreams, -, -, hanswered, -⟩ := (h n w hw).2 hstuck
  obtain ⟨s', hs⟩ := hw.exists_inStep hs₀
  rw [hs.streams] at hstreams
  cases hstreams
  obtain ⟨ms, hrun, -⟩ := hs.run
  have hlt := (List.getElem?_eq_some_iff.1 (ofCommands_eq_command (hb ▸ hi))).1
  obtain ⟨p, hp, rfl⟩ := List.mem_map.1 (hanswered.symm.subset (List.mem_range.2 hlt))
  obtain ⟨c', hc', hcon⟩ := hrun.accounted.yielded p hp
  cases hi.symm.trans hc'
  cases hg : b.config.barred? c with
  | none => rfl
  | some g => simp [Batch.conclusion, hu, hg] at hcon

end

/-- Under any limit a batch of commands that can be written, over a store without latency, is a sequence of direct calls
just where the timeout can be measured, or no command gets as far as to need it. -/
theorem refinesSequence_iff {s₀ : Store} (hs₀ : s₀.Reachable) (op : Operation) (cs : List Command) (limit : Int)
    (timeout : Option Number) (room : Nat) (h : 1 ≤ limit)
    (hwritable : ∀ c ∈ cs, op.unfit? c = none → c.isWritable = true) :
    RefinesSequence s₀ (.quiet op (ofCommands cs) ⟨.int limit, timeout⟩ room) cs ↔
      ((Config.mk (.int limit) timeout).isBeyondClock = true → ∀ c ∈ cs, (op.unfit? c).isSome) := by
  rw [← isUnbarred_iff hwritable]
  exact ⟨fun hall => hall.isUnbarred hs₀.proper rfl,
    refinesSequence_of_isUnbarred hs₀.proper rfl (allows_zero h timeout)⟩

theorem refinesSequence_two : (Store.empty ⟨[], 0⟩).Reachable ∧ (1 : Int) ≤ 1 ∧
    (∀ c ∈ [Command.key (some [107]), .key none], Operation.unfit? .pop c = none → c.isWritable = true) ∧
    RefinesSequence (.empty ⟨[], 0⟩) (.quiet .pop (ofCommands [.key (some [107]), .key none]) ⟨.int 1, none⟩ 900)
      [.key (some [107]), .key none] := by
  have hwritable : ∀ c ∈ [Command.key (some [107]), .key none], Operation.unfit? .pop c = none →
      c.isWritable = true := by decide
  exact ⟨.empty _, by decide, hwritable,
    (refinesSequence_iff (.empty _) .pop _ 1 none 900 (by decide) hwritable).2 fun hclock => absurd hclock (by decide)⟩

theorem not_refinesSequence_overlong : ¬RefinesSequence (.empty ⟨[], 0⟩) overlong [.key (some [107])] := by
  intro h
  exact not_isUnbarred_overlong (h.isUnbarred (Store.Reachable.empty _).proper rfl)

end Serving
end SetPipeline
