import SetPipeline.Proofs.Client.Calls

/-! The gate of scalar calls. A call reaches the executor just where there is nothing wrong about its arguments, once and
with the command that they make; every other call is turned away with the executor untouched. Only a configuration
whose limit is not a number, or whose timeout the clock cannot measure, keeps from the executor a good call whose
command can be written. -/
namespace SetPipeline.Client

open Pipeline

/-- A call is let through and asks the executor once, or it is turned away and nothing else happens. -/
inductive Gated {σ : Type} (config : Config) (room : Nat) (e : Executor σ) (now : Rat) (world : σ) (m : Scalar) :
    Prop where
  | dispatched {op : Operation} {c : Command} : m.IsAdmitted → m.Makes op c → c.cls = op.commandClass → c.isComplete →
    (call (.standard config room e.noted) m now (world, [])).2.2.2 = [(op, c)] → Gated config room e now world m
  | refused {f : Failure} : ¬m.IsAdmitted → m.Raises f →
    call (.standard config room e.noted) m now (world, []) = (some (.error f), now, world, []) →
    Gated config room e now world m

section
variable {σ : Type} {config : Config} {room : Nat} {e : Executor σ} {now : Rat} {world : σ} {m : Scalar}

theorem call_of_command_error {handler : Handler σ} {f : Failure} (h : m.command = .error f) :
    call handler m now world = (some (.error (f.leaving .coroutine)), now, world) := by
  simp only [call, h]

theorem gated_of_not_isAdmitted (h : ¬m.IsAdmitted) : Gated config room e now world m := by
  obtain ⟨f, hf, hraises⟩ := Scalar.exists_raises h
  exact .refused h hraises (call_of_command_error hf)

theorem gated_of_allows (hallows : config.allows 0 = true) (hfree : ∀ op c, m.Makes op c → config.barred? c = none)
    (hnow : IsInstant now) : Gated config room e now world m := by
  by_cases h : m.IsAdmitted
  · obtain ⟨op, c, hmakes⟩ := Scalar.isAdmitted_iff_makes.1 h
    exact .dispatched h hmakes hmakes.isOwn.1 hmakes.isOwn.2
      ((notes_eq_iff hmakes hallows hnow).2 (hfree op c hmakes))
  · exact gated_of_not_isAdmitted h

theorem Gated.allows (hgated : Gated config room e now world m) (h : m.IsAdmitted) (hnow : IsInstant now) :
    config.allows 0 = true ∧ config.isBeyondClock = false := by
  cases hgated with
  | refused hnot => exact absurd h hnot
  | dispatched _ hmakes _ _ hnotes =>
    cases hallows : config.allows 0 with
    | false =>
      rw [call_unread hmakes hallows] at hnotes
      cases hnotes
    | true => exact ⟨rfl, (Config.barred?_eq_none.1 ((notes_eq_iff hmakes hallows hnow).1 hnotes)).2⟩

end

/-- Under a configuration that passed the check, over any executor and from any instant, a call whose command can be
written keeps to the gate, unless it is a good one and the limit is not a number or the timeout cannot be measured. -/
theorem gated_iff {σ : Type} {limit : Number} {timeout : Option Number} {config : Config}
    (h : Config.check limit timeout = .ok config) {now : Rat} (hnow : IsInstant now) (room : Nat) (e : Executor σ)
    (world : σ) {m : Scalar} (hwritable : ∀ op c, m.Makes op c → c.isWritable = true) :
    Gated config room e now world m ↔ (m.IsAdmitted → limit.isNan = false ∧ config.isBeyondClock = false) := by
  obtain ⟨rfl, hlimit⟩ := Config.check_eq_ok h
  have hallows : (Config.mk limit timeout).allows 0 = true ↔ limit.isNan = false := Config.allows_zero_iff hlimit
  constructor
  · intro hgated hadmitted
    exact (hgated.allows hadmitted hnow).imp_left hallows.1
  · intro hgood
    by_cases hadmitted : m.IsAdmitted
    · obtain ⟨hnumber, hclock⟩ := hgood hadmitted
      exact gated_of_allows (hallows.2 hnumber)
        (fun op c hmakes => Config.barred?_eq_none.2 ⟨hwritable op c hmakes, hclock⟩) hnow
    · exact gated_of_not_isAdmitted hadmitted

theorem gated_text : Config.check Config.standard.maxInFlight Config.standard.timeout = .ok .standard ∧ IsInstant 0 ∧
    ((∀ op c, (Scalar.add (.bytes [107]) (.text "v")).Makes op c → c.isWritable = true) ∧
      Gated .standard 900 (.store (.int 0)) 0 (.empty ⟨[], 0⟩) (.add (.bytes [107]) (.text "v"))) ∧
    (∀ op c, (Scalar.combine .union (.text "keys")).Makes op c → c.isWritable = true) ∧
      Gated .standard 900 (.store (.int 0)) 0 (.empty ⟨[], 0⟩) (.combine .union (.text "keys")) := by
  have hadd : ∀ op c, (Scalar.add (.bytes [107]) (.text "v")).Makes op c → c.isWritable = true := by
    rintro op c ⟨⟩
    rfl
  have hunion : ∀ op c, (Scalar.combine .union (.text "keys")).Makes op c → c.isWritable = true := by
    rintro op c ⟨⟩
    rfl
  exact ⟨Config.check_standard, isInstant_zero,
    ⟨hadd, (gated_iff Config.check_standard isInstant_zero _ _ _ hadd).2 fun _ => ⟨rfl, rfl⟩⟩,
    hunion, (gated_iff Config.check_standard isInstant_zero _ _ _ hunion).2 fun _ => ⟨rfl, rfl⟩⟩

/-- A limit that is not a number and a timeout that is no double pass the check and keep a good call from the store.
What a collection raises is neither of the two errors that are raised for arguments. -/
theorem not_gated_unnumbered :
    (Config.check (.double .nan) none = .ok ⟨.double .nan, none⟩ ∧
      ¬Gated ⟨.double .nan, none⟩ 900 (.store (.int 0)) 0 (.empty ⟨[], 0⟩) (.card (.bytes [107]))) ∧
    (Config.check (.int 1) (some (.int (2 ^ 1024))) = .ok ⟨.int 1, some (.int (2 ^ 1024))⟩ ∧
      ¬Gated ⟨.int 1, some (.int (2 ^ 1024))⟩ 900 (.store (.int 0)) 0 (.empty ⟨[], 0⟩) (.card (.bytes [107]))) ∧
    (call (.standard .standard 900 (.store (.int 0)))
        (.add (.bytes [107]) (.object ⟨"generator", some ([], some (.broken .value "boom")), .ok "generator"⟩)) 0
        (.empty ⟨[], 0⟩)).1 = some (.error (.broken .value "boom")) := by
  have hadmitted : (Scalar.card (.bytes [107])).IsAdmitted :=
    Scalar.isAdmitted_iff_makes.2 ⟨_, _, .card (k := [107]) rfl⟩
  refine ⟨⟨rfl, fun hgated => ?_⟩, ⟨?_, fun hgated => ?_⟩, rfl⟩
  · cases (hgated.allows hadmitted isInstant_zero).1
  · have hlimit : (Number.int 1).lt (.int 1) = false := by decide +kernel
    have htimeout : (Number.int (2 ^ 1024)).le (.int 0) = false := by decide +kernel
    simp only [Config.check, hlimit, htimeout, Bool.false_eq_true, if_false]
  · have hclock := (hgated.allows hadmitted isInstant_zero).2
    cases overlong_isBeyondClock.symm.trans hclock

end SetPipeline.Client
