import SetPipeline.Proofs.Pipeline.Clock
import SetPipeline.Proofs.Serving.Step

/-! A run under the clock over a store is one of the ways in which its one stream can be served there, with the
same store at its end. What holds of every serving holds of every run. -/
namespace SetPipeline.Serving

open Pipeline

/-- The one stream of a serving and its store are as the clock has them. -/
structure Follows (latency : Number) (s₀ : Store) (b : Batch) (c : Clocked Store) (w : Serving) : Prop where
  reachable : Reachable latency s₀ w
  streams : w.streams = [⟨b, c.state⟩]
  store : w.store = c.world

section
variable {latency : Number} {s₀ : Store} {b : Batch} {items : List Supplied} {take : Option Nat} {c d : Clocked Store}
  {w : Serving} {t : State}

/-- What the end of a call by itself does under the clock is what its passing does in the store. -/
theorem pass_finish (items : List Supplied) (hstreams : w.streams = [⟨b, c.state⟩]) (hstore : w.store = c.world)
    {r : Running Store} {cmd : Command} {s : Store} {u : Serving}
    (hf : c.state.flight? r.position = some ⟨r.position, cmd, .running⟩)
    (hfin : r.finish = ((Executor.store latency).begin b.operation cmd s).1.finish)
    (hu : w.step latency (.pass 0 r.position) = some u) :
    u.streams = [⟨b, (c.finish b items r).state⟩] ∧ u.store = (c.finish b items r).world := by
  have hends {o : Except Failure Datum} {world : Store} (hfinish : r.finish c.world = (o, world)) {t : State}
      (ht : b.step c.state (.settle r.position o) = some t) :
      (c.finish b items r).state = t ∧ (c.finish b items r).world = world := by
    have hmove : b.step c.state (.settle r.position (r.finish c.world).1) = some t := by
      rw [hfinish]
      exact ht
    refine ⟨Clocked.move_state hmove, ?_⟩
    rw [Clocked.finish, Clocked.move_world]
    exact congrArg Prod.snd hfinish
  cases step_stepped hu with
  | @passes _ _ b' s t cmd' x store hclock hj hf' hx ht =>
    rw [hstreams] at hj
    cases hj
    cases hf.symm.trans hf'
    have hfinish : r.finish c.world = (x.map Reply.toDatum, store) := by
      rw [hfin, ← hstore]
      simp only [Executor.store, hclock, Bool.false_eq_true, if_false, hx]
    obtain ⟨hstate, hworld⟩ := hends hfinish ht
    exact ⟨by simp [hstreams, hstate], hworld.symm⟩
  | @fails _ _ b' s t cmd' hclock hj hf' ht =>
    rw [hstreams] at hj
    cases hj
    cases hf.symm.trans hf'
    have hfinish : r.finish c.world = (.error (.broken .overflow Failure.beyondDoubles), w.store) := by
      rw [hfin, ← hstore]
      simp only [Executor.store, hclock, if_true]
    obtain ⟨hstate, hworld⟩ := hends hfinish ht
    exact ⟨by simp [hstreams, hstate], hworld.symm⟩

namespace Follows

theorem advance (h : Follows latency s₀ b c w) {m : Pipeline.Move} (hm : ∀ i o, m ≠ .settle i o)
    (ht : b.step c.state m = some t) (hd : d.state = t)
    (hstore : d.world =
      (newcomers 0 b c.state t).foldl (fun st v => st.record (.known v.operation) v.command) c.world) :
    ∃ u, Follows latency s₀ b d u := by
  obtain ⟨u, hu⟩ : ∃ u, w.step latency (.advance 0 m) = some u :=
    exists_advance (by rw [h.streams]; rfl) hm ht
  have hreach := h.reachable.next hu
  cases step_stepped hu with
  | advances hj _ ht' hvs =>
    rw [h.streams] at hj
    cases hj
    cases ht.symm.trans ht'
    subst hvs
    refine ⟨_, hreach, ?_, ?_⟩
    · simp [h.streams, hd]
    · rw [hstore, h.store]

theorem advance_quiet (h : Follows latency s₀ b c w) {m : Pipeline.Move} (hm : ∀ i o, m ≠ .settle i o)
    (ht : b.step c.state m = some t) (hbegun : t.begun = c.state.begun) (hd : d.state = t)
    (hstore : d.world = c.world) : ∃ u, Follows latency s₀ b d u := by
  have hnone : newcomers 0 b c.state t = [] := by simp [newcomers, hbegun]
  exact h.advance hm ht hd (by rw [hnone, hstore]; rfl)

theorem finish (h : Follows latency s₀ b c w) {r : Running Store} {cmd : Command} {s : Store}
    (hf : c.state.flight? r.position = some ⟨r.position, cmd, .running⟩)
    (hfin : r.finish = ((Executor.store latency).begin b.operation cmd s).1.finish) :
    ∃ u, Follows latency s₀ b (c.finish b items r) u := by
  obtain ⟨u, hu⟩ : ∃ u, w.step latency (.pass 0 r.position) = some u :=
    exists_pass (by rw [h.streams]; rfl) hf
  obtain ⟨hstreams, hstore⟩ := pass_finish items h.streams h.store hf hfin hu
  exact ⟨u, h.reachable.next hu, hstreams, hstore⟩

end Follows

theorem Follows.join (items : List Supplied) (h : Follows latency s₀ b c w) {f : Flight} {r : Running Store}
    (hb : Clocked.Begins b (.store latency) c f t r) :
    ∃ u, Follows latency s₀ b (c.join b (.store latency) items f t r) u :=
  h.advance (m := .start) (fun _ _ => by simp) hb.step rfl
    (by simp [newcomers, hb.begun, Clocked.join, Executor.store])

theorem Follows.starts (h : Follows latency s₀ b c w) (hd : Clocked.Started b (.store latency) items c d) :
    ∃ u, Follows latency s₀ b d u := by
  cases hd with
  | rests => exact ⟨w, h⟩
  | answers hs hbegun => exact h.advance_quiet (m := .start) (fun _ _ => by simp) hs hbegun rfl rfl
  | begins hb => exact h.join items hb
  | @ends f s r hb =>
    obtain ⟨u, hu⟩ := h.join items hb
    have hflight : s.flight? r.position = some ⟨r.position, f.command, .running⟩ := hb.position ▸ hb.runs
    exact hu.finish hflight hb.finish

/-- Every tick of the clock is made in some serving. -/
theorem Follows.ticks (h : Follows latency s₀ b c w) (hc : c.Reached b (.store latency))
    (ht : Clocked.Ticks b (.store latency) items take c d) : ∃ u, Follows latency s₀ b d u := by
  cases ht with
  | passes => exact ⟨w, h.reachable, h.streams, h.store⟩
  | @moves m s hm hs =>
    have hstep := Pipeline.step_stepped hs
    have hne : m ≠ .start ∧ ∀ i o, m ≠ .settle i o := by
      cases m with
      | ask | close | offer | wake => exact ⟨by simp, by simp⟩
      | start | settle | expire => cases hm
    exact h.advance_quiet hne.2 hs (hstep.begun_of_ne_start hne.1) rfl rfl
  | starts => exact h.starts (Clocked.start_started hc.reachable.sound)
  | @finishes r cmd hr hf =>
    have hgo := hc.reachable.sound.staged.going (.inl (State.flights_ne_nil (State.mem_of_flight? hf).1))
    obtain ⟨cmd', s, hf', hfin⟩ := hc.calls hgo r hr
    cases hf.symm.trans hf'
    exact h.finish hf hfin
  | @expires r hr =>
    cases hs : b.step c.state (.expire r.position) with
    | none =>
      have hsame : c.expire b items r = { c with running := c.running.filter (·.position != r.position) } :=
        Clocked.move_of_not_step hs
      rw [hsame]
      exact ⟨w, h.reachable, h.streams, h.store⟩
    | some s =>
      have hstep := Pipeline.step_stepped hs
      have hstate : (c.expire b items r).state = s := Clocked.move_state hs
      exact h.advance_quiet (m := .expire r.position) (fun _ _ => by simp) hs
        (hstep.begun_of_ne_start (by simp)) hstate Clocked.move_world

theorem Follows.leads (h : Follows latency s₀ b c w) (hc : c.Reached b (.store latency))
    (hd : Clocked.Leads b (.store latency) items take c d) : ∃ u, Follows latency s₀ b d u := by
  induction hd with
  | refl => exact ⟨w, h⟩
  | tail hleads ht ih =>
    obtain ⟨u, hu⟩ := ih
    exact hu.ticks (Clocked.Leads.reached hleads hc) ht

end

/-- A run under the clock over a store shows what one stream comes to in some serving, and leaves the store as
it is there. -/
theorem exists_serving_run (latency : Number) (s₀ : Store) (op : Operation) (config : Config) (room : Nat)
    (items : List Supplied) (take : Option Nat) (now : Rat) :
    ∃ w s, Reachable latency s₀ w ∧ w.streams = [⟨.quiet op (sourceOf items) config room, s⟩] ∧
      (run op config room (.store latency) items take now s₀).Shows (.quiet op (sourceOf items) config room) s ∧
      (run op config room (.store latency) items take now s₀).world = w.store := by
  obtain ⟨c, hleads, hrun⟩ := run_leads op config room (.store latency) items take now s₀
  have hinitial := reached_unbegun (.quiet op (sourceOf items) config room) (.store latency) s₀ now
  have hlaunched : Follows latency s₀ (.quiet op (sourceOf items) config room) (unbegun s₀ now) (launched s₀ _) :=
    ⟨reachable_launched latency s₀ _, rfl, rfl⟩
  obtain ⟨w, hw⟩ := hlaunched.leads hinitial hleads
  rw [hrun]
  exact ⟨w, c.state, hw.reachable, hw.streams, ⟨rfl, rfl, (hleads.reached hinitial).trace⟩, hw.store.symm⟩

end SetPipeline.Serving
