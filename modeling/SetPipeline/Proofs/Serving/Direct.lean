import SetPipeline.Proofs.Double
import SetPipeline.Proofs.Pipeline.Clock.Ends
import SetPipeline.Proofs.Serving.Clock
import SetPipeline.Proofs.Serving.Sequence

/-! A run under the clock over a store without latency makes its moves one after the other, and each call that
begins ends in the same tick. So it is one of the ways in which its batch is run there; and since the run comes
to the end of its stream, it has done what direct calls do. -/
namespace SetPipeline.Serving

open Pipeline

theorem duration_store_zero (op : Operation) (c : Command) (s : Store) :
    ((Executor.store (.int 0)).begin op c s).1.duration = some 0 := by
  have hpause : Executor.pause (.int 0) = some 0 := by
    simp [Executor.pause, Number.seconds?, Double.nearest_zero]
  exact hpause

/-- The clock is where its batch comes to over a store without latency, and keeps no call. -/
structure Keeps (s₀ : Store) (b : Batch) (c : Clocked Store) (n : Nat) (w : Serving) : Prop where
  atOnce : AtOnce s₀ b n w
  streams : w.streams = [⟨b, c.state⟩]
  store : w.store = c.world
  running : c.running = []

section
variable {s₀ : Store} {b : Batch} {items : List Supplied} {c d : Clocked Store} {n : Nat} {w : Serving} {t : State}

namespace Keeps

theorem exists_advanced (hs₀ : s₀.Proper) (h : Keeps s₀ b c n w) {m : Pipeline.Move} (hm : ∀ i o, m ≠ .settle i o)
    (ht : b.step c.state m = some t) :
    ∃ v, w.step (.int 0) (.advance 0 m) = some v ∧ v.streams = [⟨b, t⟩] ∧
      v.store = (newcomers 0 b c.state t).foldl (fun st v => st.record (.known v.operation) v.command) c.world ∧
      (newcomers 0 b c.state t = [] ∧ v.sleeping? = none ∨
        ∃ i cmd, newcomers 0 b c.state t = [⟨0, i, b.operation, cmd⟩] ∧ v.sleeping? = some i) := by
  obtain ⟨v, hv⟩ : ∃ v, w.step (.int 0) (.advance 0 m) = some v :=
    exists_advance (by rw [h.streams]; rfl) hm ht
  obtain ⟨s, hs⟩ := h.atOnce.exists_inStep hs₀
  have hsame := hs.streams.symm.trans h.streams
  cases hsame
  obtain ⟨t', ht', hstreams, hcase⟩ := hs.advances hs₀ hv
  cases ht.symm.trans ht'
  have hfull : v.store = (newcomers 0 b c.state t).foldl (fun st v => st.record (.known v.operation) v.command)
      c.world ∧ v.arrived = v.passed ++ newcomers 0 b c.state t := by
    cases step_stepped hv with
    | advances hj _ ht'' hvs =>
      rw [h.streams] at hj
      cases hj
      cases ht.symm.trans ht''
      subst hvs
      exact ⟨by rw [h.store], by rw [hs.passed]⟩
  obtain ⟨hstore, harrived⟩ := hfull
  refine ⟨v, hv, hstreams, hstore, ?_⟩
  rcases hcase with ⟨hpassed, hnone⟩ | ⟨i, cmd, hsome, -, hone⟩
  · exact .inl ⟨List.self_eq_append_right.1 (hpassed.symm.trans harrived), hnone⟩
  · exact .inr ⟨i, cmd, List.append_cancel_left (harrived.symm.trans hone), hsome⟩

theorem advance_quiet (hs₀ : s₀.Proper) (h : Keeps s₀ b c n w) {m : Pipeline.Move} (hclose : m ≠ .close)
    (hm : ∀ i o, m ≠ .settle i o) (ht : b.step c.state m = some t) (hbegun : t.begun = c.state.begun) :
    ∃ k u, Keeps s₀ b (c.goTo items t) k u := by
  obtain ⟨v, hv, hstreams, hstore, hcase⟩ := h.exists_advanced hs₀ hm ht
  have hnil : newcomers 0 b c.state t = [] := by simp [newcomers, hbegun]
  rw [hnil] at hstore hcase
  have hnone : v.sleeping? = none := by
    rcases hcase with ⟨-, hnone⟩ | ⟨i, cmd, hone, -⟩
    · exact hnone
    · cases hone
  have hnext : w.stepAtOnce m = some v := by
    rw [stepAtOnce, hv, Option.bind_some, hnone]
  exact ⟨n + 1, v, h.atOnce.next hclose hnext, hstreams, hstore, h.running⟩

/-- A call that takes no time passes as it begins. -/
theorem passes (hs₀ : s₀.Proper) (h : Keeps s₀ b c n w) {f : Flight} {r : Running Store}
    (hb : Clocked.Begins b (.store (.int 0)) c f t r) :
    ∃ k u, Keeps s₀ b ((c.join b (.store (.int 0)) items f t r).finish b items r) k u := by
  obtain ⟨v, hv, hstreams, hstore, hcase⟩ := h.exists_advanced (m := .start) hs₀ (fun _ _ => by simp) hb.step
  have hone : newcomers 0 b c.state t = [⟨0, f.position, b.operation, f.command⟩] := by
    simp [newcomers, hb.begun]
  rw [hone] at hstore hcase
  have hsleep : v.sleeping? = some f.position := by
    rcases hcase with ⟨hnil, -⟩ | ⟨i, cmd, hone', hsome⟩
    · cases hnil
    · cases hone'
      exact hsome
  have hflight : t.flight? r.position = some ⟨r.position, f.command, .running⟩ := hb.position ▸ hb.runs
  obtain ⟨u, hu⟩ : ∃ u, v.step (.int 0) (.pass 0 r.position) = some u := exists_pass (by rw [hstreams]; rfl) hflight
  have hnext : w.stepAtOnce .start = some u := by
    rw [stepAtOnce, hv, Option.bind_some, hsleep, ← hb.position]
    exact hu
  have hjoin : v.store = (c.join b (.store (.int 0)) items f t r).world := by
    rw [hstore]
    simp [Clocked.join, Executor.store]
  obtain ⟨hstreams', hstore'⟩ := pass_finish (c := c.join b (.store (.int 0)) items f t r) items hstreams hjoin hflight
    hb.finish hu
  refine ⟨n + 1, u, h.atOnce.next (by simp) hnext, hstreams', hstore', ?_⟩
  rw [Clocked.finish, Clocked.move_running]
  simp [Clocked.join, h.running]

theorem starts (hs₀ : s₀.Proper) (h : Keeps s₀ b c n w) (hd : Clocked.Started b (.store (.int 0)) items c d) :
    ∃ k u, Keeps s₀ b d k u := by
  cases hd with
  | rests => exact ⟨n, w, h⟩
  | answers hs hbegun => exact h.advance_quiet (m := .start) hs₀ (by simp) (fun _ _ => by simp) hs hbegun
  | begins hb hlong => exact absurd (duration_store_zero _ _ _) hlong
  | ends hb => exact h.passes hs₀ hb

/-- Every tick of a clock whose consumer takes all there is, is a move of the batch. -/
theorem ticks (hs₀ : s₀.Proper) (h : Keeps s₀ b c n w) (hc : c.Reached b (.store (.int 0)))
    (ht : Clocked.Ticks b (.store (.int 0)) items none c d) : ∃ k u, Keeps s₀ b d k u := by
  cases ht with
  | passes => exact ⟨n, w, h.atOnce, h.streams, h.store, h.running⟩
  | @moves m s hm hs =>
    have hne : m ≠ .close ∧ m ≠ .start ∧ ∀ i o, m ≠ .settle i o := by
      cases m with
      | ask | offer | wake => exact ⟨by simp, by simp, by simp⟩
      | close | start | settle | expire => cases hm
    exact h.advance_quiet hs₀ hne.1 hne.2.2 hs ((Pipeline.step_stepped hs).begun_of_ne_start hne.2.1)
  | starts => exact h.starts hs₀ (Clocked.start_started hc.reachable.sound)
  | finishes hr | expires hr =>
    rw [h.running] at hr
    cases hr

theorem leads (hs₀ : s₀.Proper) (h : Keeps s₀ b c n w) (hc : c.Reached b (.store (.int 0)))
    (hd : Clocked.Leads b (.store (.int 0)) items none c d) : ∃ k u, Keeps s₀ b d k u := by
  induction hd with
  | refl => exact ⟨n, w, h⟩
  | tail hleads ht ih =>
    obtain ⟨k, u, hu⟩ := ih
    exact hu.ticks hs₀ (Clocked.Leads.reached hleads hc) ht

end Keeps

theorem stepAtOnce_of_ended {s : State} (h : w.streams = [⟨b, s⟩]) (hs : Staged b s) (he : s.ending?.isSome)
    {m : Pipeline.Move} : w.stepAtOnce m = none := by
  cases hv : w.step (.int 0) (.advance 0 m) with
  | none => rw [stepAtOnce, hv, Option.bind_none]
  | some v =>
    cases step_stepped hv with
    | advances hj _ ht =>
      rw [h] at hj
      cases hj
      rw [(Pipeline.step_stepped ht).ending?_eq_none hs] at he
      cases he

end

/-- A run over a store without latency that takes all there is ends by itself, leaves the store as direct calls of
its commands do, and gives every position just one response, the one that its direct call makes. -/
theorem run_direct {s₀ : Store} (hs₀ : s₀.Reachable) (op : Operation) {config : Config} {room : Nat}
    {items : List Supplied} {cs : List Command} (hitems : sourceOf items = ofCommands cs)
    (hallows : config.allows 0 = true) (hc : (Batch.quiet op (sourceOf items) config room).IsUnbarred) (now : Rat) :
    ∃ s, (run op config room (.store (.int 0)) items none now s₀).Shows (.quiet op (sourceOf items) config room) s ∧
      (Batch.quiet op (sourceOf items) config room).exit? s = some .exhausted ∧
      (run op config room (.store (.int 0)) items none now s₀).world = s₀.direct op cs ∧
      s.answered.Perm (List.range cs.length) ∧ ∀ p ∈ s.yielded, s₀.Gives op cs p.1 p.2 := by
  obtain ⟨c, hleads, hrun⟩ := run_leads op config room (.store (.int 0)) items none now s₀
  have hends : (run op config room (.store (.int 0)) items none now s₀).ending.isSome :=
    run_ends none now s₀ fun _ _ => .inl (by rw [duration_store_zero]; rfl)
  have hinitial := reached_unbegun (.quiet op (sourceOf items) config room) (.store (.int 0)) s₀ now
  have hkeeps : Keeps s₀ (.quiet op (sourceOf items) config room) (unbegun s₀ now) 0 (launched s₀ _) :=
    ⟨.initial, rfl, rfl, rfl⟩
  obtain ⟨k, w, hw⟩ := hkeeps.leads hs₀.proper hinitial hleads
  have hreached := hleads.reached hinitial
  rw [hrun] at hends ⊢
  obtain ⟨-, hdone⟩ := refinesSequence_of_isUnbarred hs₀.proper hitems hallows hc k w hw.atOnce
  have hended : c.state.ending?.isSome := isSome_exit?.symm.trans hends
  obtain ⟨s, hstreams, he, hstore, hanswered, hgives⟩ :=
    hdone fun m _ => stepAtOnce_of_ended hw.streams hreached.reachable.sound.staged hended
  have hsame := hw.streams.symm.trans hstreams
  cases hsame
  exact ⟨c.state, ⟨rfl, rfl, hreached.trace⟩, he, hw.store.symm.trans hstore, hanswered, hgives⟩

end SetPipeline.Serving
