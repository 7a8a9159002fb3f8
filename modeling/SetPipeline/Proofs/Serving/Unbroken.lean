import SetPipeline.Proofs.Pipeline.Failures
import SetPipeline.Proofs.Serving.Atomicity
import SetPipeline.Proofs.Store.Unchanged

/-! The store never breaks a stream. What comes before a call rejects just the commands that the store itself
would not run, a call that is made ends with a reply of the right shape or with a refusal, and so a stream of
commands neither fails nor has to complain of an output. -/
namespace SetPipeline

open Pipeline

/-- A start that answers its command at once with an argument error: no call begins. -/
def Pipeline.State.AnsweredAtOnce (s : State) (f : Flight) (t : State) : Prop :=
  ∃ r, r.code = some Failure.invalidArgument ∧ t = s.setPhase f.position (.finished (.ok r))

theorem Pipeline.start_answeredAtOnce_iff {b : Batch} {s t : State} {f : Flight}
    (hf : s.flights.find? (·.phase.isQueued) = some f) (ht : b.step s .start = some t) :
    s.AnsweredAtOnce f t ↔ (b.operation.unfit? f.command).isSome := by
  have hphase {p p' : Phase} (h : (s.setPhase f.position p).flights = (s.setPhase f.position p').flights) : p = p' := by
    have hflight := List.map_inj_left.1 h f (List.mem_of_find?_eq_some hf)
    simpa using hflight
  cases step_stepped ht with
  | @rejects g u hg hu =>
    cases hf.symm.trans hg
    exact ⟨fun _ => by simp [hu], fun _ => ⟨_, rfl, rfl⟩⟩
  | @bars g failure hg hu =>
    cases hf.symm.trans hg
    refine ⟨?_, by simp [hu]⟩
    rintro ⟨r, -, he⟩
    cases hphase (congrArg State.flights he)
  | @begins g hg hu =>
    cases hf.symm.trans hg
    refine ⟨?_, by simp [hu]⟩
    rintro ⟨r, -, he⟩
    have hflights := congrArg State.flights he
    change (s.setPhase f.position .running).flights = _ at hflights
    cases hphase hflights

/-- A call fits its operation's responses: the reply is accepted as it is, and a failure is a refusal with one of
the two codes of the store. -/
def Suits (op : Operation) (c : Command) : Except Failure Reply → Prop
  | .ok x => Response.success op.responseKind (.command c) x.toDatum =
      .ok ⟨op.responseKind, c, x.toDatum, none, none⟩
  | .error f => ∃ m code, f = .refused m (.text code) ∧ (code = Failure.err ∨ code = Failure.wrongType)

theorem Store.Proper.suits {s : Store} (hs : s.Proper) {op : Operation} {c : Command} (h : op.unfit? c = none) :
    Suits op c (s.execute (.known op) c).1 := by
  obtain ⟨x, hx, he⟩ := hs.answers h
  rw [hs.execute_eq, he]
  cases x with
  | ok y => exact hx.success c
  | error r => exact ⟨r.message, r.code, rfl, hx.refusal_code⟩

theorem Suits.answerable {b : Batch} {c : Command} {x : Except Failure Reply} (h : Suits b.operation c x) :
    Answerable b (x.map Reply.toDatum) := by
  cases x with
  | ok y => exact .value (exists_respond_iff.1 ⟨_, respond_of_success h⟩)
  | error f =>
    obtain ⟨m, code, rfl, -⟩ := h
    exact .refused m code

def Pipeline.State.hasFailed (s : State) : Bool :=
  match s.ending? with
  | some (.failed _) => true
  | _ => false

theorem Pipeline.State.hasFailed_iff {s : State} : s.hasFailed = true ↔ ∃ f, s.ending? = some (.failed f) := by
  unfold hasFailed
  split
  · next f hf => exact ⟨fun _ => ⟨f, hf⟩, fun _ => rfl⟩
  · next hn => exact ⟨by simp, fun ⟨f, hf⟩ => absurd hf (hn f)⟩

namespace Serving

variable {latency : Number} {s₀ : Store} {w : Serving} {j : Nat} {b : Batch} {s : State}

theorem Kept.answerable (hs₀ : s₀.Proper) (hlatency : latency.isBeyondClock = false) (hw : Kept latency s₀ w)
    (h : Followed latency s₀ w j b s) : ∃ ms, Run b ms s ∧ ∀ i y, outcomeOf ms i = some y → Answerable b y := by
  obtain ⟨ms, hrun, hms⟩ := h.run
  obtain ⟨q, hq⟩ := h.reachable.called
  refine ⟨ms, hrun, fun i y hy => ?_⟩
  rcases mem_of_outcomeOf hy with hsettle | ⟨-, rfl⟩
  · rcases hms i y hsettle with ⟨v, x, hv, hj, -, rfl⟩ | ⟨hbeyond, -⟩
    · obtain ⟨hop, hbegun⟩ := h.mem_begun (hw.passed hv.mem) hj
      have hfits := (hq.of_mem_begun hbegun).2
      obtain ⟨before, after, -, rfl⟩ := hv
      rw [hop]
      exact ((hs₀.applied before).suits hfits).answerable
    · cases hlatency.symm.trans hbeyond
  · exact .timedOut _

theorem Kept.ending?_ne_failed (hs₀ : s₀.Proper) (hlatency : latency.isBeyondClock = false)
    (hw : Kept latency s₀ w) (h : Followed latency s₀ w j b s) (hb : b.source.IsCommands) (hc : b.IsUnbarred)
    (f : Failure) : s.ending? ≠ some (.failed f) := by
  obtain ⟨ms, hrun, hms⟩ := hw.answerable hs₀ hlatency h
  exact hrun.ending?_ne_failed hms hb hc f

theorem Tells.code_ne_invalidOutput {i : Nat} {r : Response} (h : Tells s₀ w j b s i r) :
    r.code ≠ some Failure.invalidOutput := by
  cases h with
  | rejection | timeout =>
    intro he
    exact absurd (Option.some.inj he) (by decide)
  | result _ _ _ hcode =>
    intro he
    rw [he] at hcode
    revert hcode
    decide

/-- Wherever a command is the next to start, it is answered at once just where a direct call on the store would
name its class or miss a part, and a call that begins suits its operation. -/
structure GatesAgree (s₀ : Store) (op : Operation) (c : Command) : Prop where
  rejects : ∀ (b : Batch) (s t : State) (f : Flight), b.operation = op → f.command = c →
    s.flights.find? (·.phase.isQueued) = some f → b.step s .start = some t →
      (s.AnsweredAtOnce f t ↔
        (s₀.execute (.known op) c).1 = .error (Refusal.wrongClass (.known op) c.cls).toFailure ∨
          ∃ m, (s₀.execute (.known op) c).1 = .error (.misuse m))
  suits : ∀ (b : Batch) (s t : State) (f : Flight), b.operation = op → f.command = c →
    s.flights.find? (·.phase.isQueued) = some f → b.step s .start = some t → t.begun ≠ s.begun →
      Suits op c (s₀.execute (.known op) c).1

/-- Streams of commands that nothing bars, over a store that can sleep, neither raise anything but what closing their
input raises nor complain of an output, among whatever other streams. -/
def Unbroken (s₀ : Store) : Prop :=
  ∀ (latency : Number) (w : Serving) (j : Nat) (b : Batch) (s : State), latency.isBeyondClock = false →
    Reachable latency s₀ w → w.streams[j]? = some ⟨b, s⟩ → b.source.IsCommands → b.IsUnbarred →
      (∀ f, b.exit? s = some (.failed f) → b.masking? s = some f) ∧
        ∀ p ∈ s.yielded, p.2.code ≠ some Failure.invalidOutput

theorem gatesAgree_of_proper (hs₀ : s₀.Proper) (op : Operation) (c : Command) : GatesAgree s₀ op c := by
  refine ⟨?_, ?_⟩
  · rintro b s t f rfl rfl hf ht
    rw [start_answeredAtOnce_iff hf ht, hs₀.unfit_iff, hs₀.execute_eq]
  · rintro b s t f rfl rfl hf ht hbegun
    refine hs₀.suits ?_
    cases hu : b.operation.unfit? f.command with
    | none => rfl
    | some u =>
      obtain ⟨r, -, rfl⟩ := (start_answeredAtOnce_iff hf ht).2 (by simp [hu])
      exact absurd rfl hbegun

theorem unbroken_of_proper (hs₀ : s₀.Proper) : Unbroken s₀ := by
  intro latency w j b s hlatency hw hj hb hc
  have hkept := hw.kept hs₀
  have hfollowed := hkept.streams j b s hj
  refine ⟨fun f hf => ?_, fun p hp => (hkept.tells hs₀ hfollowed hp).code_ne_invalidOutput⟩
  cases hm : b.masking? s with
  | some g =>
    rw [exit?_of_masking hm (isSome_of_exit? hf)] at hf
    cases hf
    rfl
  | none =>
    obtain ⟨g, hg, -⟩ := (exit?_eq_failed hm).1 hf
    exact absurd hg (hkept.ending?_ne_failed hs₀ hlatency hfollowed hb hc g)

/-- The store and the check before it agree, and no stream of commands over the store breaks. -/
theorem gatesAgree_and_unbroken (hs₀ : s₀.Reachable) (op : Operation) (c : Command) :
    GatesAgree s₀ op c ∧ Unbroken s₀ :=
  ⟨gatesAgree_of_proper hs₀.proper op c, unbroken_of_proper hs₀.proper⟩

/-- A member is to be moved from a set to where a plain value is, and the call comes to its end. -/
def relocation : List Move :=
  [.launch (.quiet .move (ofCommands [.move (some [107]) (some [112]) [97]]) ⟨.int 1, none⟩ 900), .advance 0 .ask,
    .advance 0 .offer, .advance 0 (.wake true []), .advance 0 .start, .pass 0 0]

theorem gatesAgree_and_unbroken_lodged : Store.lodged.Reachable ∧
    GatesAgree .lodged .move (.move (some [107]) (some [112]) [97]) ∧ Unbroken .lodged ∧
      ∃ w, Reachable (.int 1) .lodged w ∧ w.passed.map Visit.key = [(0, 0)] := by
  have hkeys : ((initial .lodged).steps (.int 1) relocation).map (fun w => w.passed.map Visit.key) = some [(0, 0)] := by
    decide +kernel
  obtain ⟨w, hw, hpassed⟩ := Option.map_eq_some_iff.1 hkeys
  obtain ⟨hagree, hunbroken⟩ :=
    gatesAgree_and_unbroken Store.reachable_lodged .move (.move (some [107]) (some [112]) [97])
  exact ⟨Store.reachable_lodged, hagree, hunbroken, w, Reachable.initial.steps hw, hpassed⟩

theorem exists_failed {latency : Number} {op : Operation} {source : Source} {config : Config} {room : Nat}
    (ms : List Move) (h : ((launched (.empty ⟨[], 0⟩) (.quiet op source config room)).steps latency ms).map
      (fun w => w.streams.map (·.state.hasFailed)) = some [true]) :
    ∃ (w : Serving) (s : State) (f : Failure), Reachable latency (.empty ⟨[], 0⟩) w ∧
      w.streams[0]? = some ⟨.quiet op source config room, s⟩ ∧
        (Batch.quiet op source config room).exit? s = some (.failed f) := by
  obtain ⟨w, hw, hstreams⟩ := Option.map_eq_some_iff.1 h
  have hbatches := steps_batches hw
  obtain ⟨⟨b, s⟩, hst, hfailed⟩ := List.map_eq_singleton_iff.1 hstreams
  rw [hst] at hbatches
  obtain rfl : Batch.quiet op source config room = b := by simpa [launched] using hbatches
  obtain ⟨f, hf⟩ := State.hasFailed_iff.1 hfailed
  exact ⟨w, s, f.surfaced, (reachable_launched latency _ _).steps hw, by rw [hst]; rfl,
    exit?_quiet_eq_failed.2 ⟨f, hf, rfl⟩⟩

def opening : List Move :=
  [.advance 0 .ask, .advance 0 .offer, .advance 0 (.wake true []), .advance 0 .start]

/-- A stream of commands fails under a timeout that is no double, and over a store whose latency is none. -/
theorem overlong_fails : overlong.source.IsCommands ∧ untimed.source.IsCommands ∧
    (Config.check overlong.config.maxInFlight overlong.config.timeout).toOption = some overlong.config ∧
    (∃ (w : Serving) (s : State) (f : Failure), Reachable (.int 1) (.empty ⟨[], 0⟩) w ∧
      w.streams[0]? = some ⟨overlong, s⟩ ∧ overlong.exit? s = some (.failed f)) ∧
    ∃ (w : Serving) (s : State) (f : Failure), Reachable (.int (2 ^ 1024)) (.empty ⟨[], 0⟩) w ∧
      w.streams[0]? = some ⟨untimed, s⟩ ∧ untimed.exit? s = some (.failed f) :=
  ⟨ofCommands_isCommands _, ofCommands_isCommands _, by decide +kernel,
    exists_failed (opening ++ [.advance 0 (.wake false [0])]) (by decide +kernel),
    exists_failed (opening ++ [.pass 0 0, .advance 0 (.wake false [0])]) (by decide +kernel)⟩

end Serving
end SetPipeline
