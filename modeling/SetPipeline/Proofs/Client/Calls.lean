import SetPipeline.Proofs.Client.Admission
import SetPipeline.Proofs.Pipeline.Clock.Single
import SetPipeline.Proofs.Pipeline.Exhaustion

/-! A scalar call is a batch of one command, unwrapped. What it comes to is told from the fate of the one call of the
executor, which is made once, unless the limit lets no command start or something bars the command. -/
namespace SetPipeline

open Pipeline

section
variable {σ : Type} {τ : Type}

def Call.beside (call : Call σ) (τ : Type) : Call (σ × τ) where
  duration := call.duration
  finish s := ((call.finish s.1).1, (call.finish s.1).2, s.2)

/-- An executor that notes each call it is asked for. -/
def Executor.noted (e : Executor σ) : Executor (σ × List (Operation × Command)) where
  begin op c s := ((e.begin op c s.1).1.beside _, (e.begin op c s.1).2, s.2 ++ [(op, c)])
  close := e.close.map fun f s => (f s.1, s.2)

theorem Pipeline.Fate.conclusion_beside (fate : Fate) (room : Nat) (op : Operation) (c : Command) (call : Call σ)
    (world : σ) (t : τ) : fate.conclusion room op c (call.beside τ).finish (world, t) =
      (fate.conclusion room op c call.finish world).map fun p => (p.1, p.2, t) := by
  cases fate <;> rfl

end

namespace Pipeline

variable {σ : Type} {op : Operation} {config : Config} {cmd : Command}

theorem run_unread (h : config.allows 0 = false) (op : Operation) (room : Nat) (e : Executor σ) (cmd : Command)
    (now : Rat) (world : σ) : run op config room e (single cmd) (some 1) now world =
      ⟨some .exhausted, 0, [(now, .closedSource)], now, world⟩ := by
  have hask : (Batch.single op config room cmd).step .initial .ask = some (State.initial.halt .exhausted) :=
    congrArg some (turn_of_not_allows (b := .single op config room cmd) h)
  have hconsume : (unbegun world now).consume (.single op config room cmd) (single cmd) (some 1) 1 =
      (unbegun world now).goTo (single cmd) (State.initial.halt .exhausted) :=
    Clocked.move_of_step (c := unbegun world now) hask
  have hend : atEnd op config room e cmd now world =
      (unbegun world now).goTo (single cmd) (State.initial.halt .exhausted) := by
    rw [atEnd, hconsume]
    rfl
  exact congrArg (fun c : Clocked σ =>
    (⟨(Batch.single op config room cmd).exit? c.state, c.state.pulled, c.trace, c.now, c.world⟩ : Outcome σ)) hend

end Pipeline

namespace Client

section
variable {σ : Type} {op : Operation} {config : Config} {room : Nat} {e : Executor σ} {cmd : Command} {now : Rat}
  {world begun after : σ} {call : Call σ} {x : Except Failure Response}

theorem unwrap_left (op : Operation) {o : Pipeline.Outcome σ} (h : o.Left x after) :
    unwrap op o = some ((x.mapError Failure.surfaced).bind Response.result) := by
  have hx := h.delivered
  cases x with
  | ok r =>
    obtain ⟨⟨t, i, r'⟩, hr, hp⟩ := List.map_eq_singleton_iff.1 hx
    cases hp
    simp only [unwrap, hr]
    rfl
  | error f =>
    simp only [unwrap, hx.1, hx.2]
    rfl

theorem ask_left (h : (run op config room e (single cmd) (some 1) now world).Left x after) :
    (ask (.standard config room e) op cmd now world).1 =
        some ((x.mapError Failure.surfaced).bind Response.result) ∧
      (ask (.standard config room e) op cmd now world).2.2 = after :=
  ⟨unwrap_left op h, h.world⟩

end

section
variable {σ : Type} {config : Config} {room : Nat} {e : Executor σ} {now : Rat} {m : Scalar} {op : Operation}
  {c : Command}
  {world begun after : σ} {ending : Call σ} {x : Except Failure Response} (h : m.Makes op c)
include h

theorem call_unanswered (handler : Handler σ) {o : Pipeline.Outcome σ}
    (ho : handler.stream op (single c) (some 1) now world = o) (hnone : o.responses = [])
    (hover : o.ending = some .exhausted) :
    call handler m now world =
      (some (.error (.refused ("No response received for " ++ op.name) (.text Failure.executionError))), o.now,
        o.world) := by
  subst ho
  have hunwrap : unwrap op (handler.stream op (single c) (some 1) now world) =
      some (.error (.refused ("No response received for " ++ op.name) (.text Failure.executionError))) := by
    simp only [unwrap, hnone, hover]
  simp only [call, Scalar.command_eq_ok.2 h]
  exact congrArg (fun y => (Option.map (Except.map m.result) y, _, _)) hunwrap

theorem call_left (hleft : (run op config room e (single c) (some 1) now world).Left x after) :
    (call (.standard config room e) m now world).1 =
        some (((x.mapError Failure.surfaced).bind Response.result).map m.result) ∧
      (call (.standard config room e) m now world).2.2 = after := by
  obtain ⟨hx, hafter⟩ := ask_left hleft
  simp only [call, Scalar.command_eq_ok.2 h]
  exact ⟨congrArg (Option.map (Except.map m.result)) hx, hafter⟩

/-- Where no first command may start, a call is told that nothing came of it, and nothing did. -/
theorem call_unread (hallows : config.allows 0 = false) : call (.standard config room e) m now world =
    (some (.error (.refused ("No response received for " ++ op.name) (.text Failure.executionError))), now, world) :=
  call_unanswered h (.standard config room e) (run_unread hallows op room e c now world) rfl rfl

variable (hallows : config.allows 0 = true) (hnow : IsInstant now)
include hallows hnow

/-- What bars the command breaks the call before the executor sees it. -/
theorem call_barred {f : Failure} (hf : config.barred? c = some f) :
    (call (.standard config room e) m now world).1 = some (.error f.surfaced) ∧
      (call (.standard config room e) m now world).2.2 = world :=
  call_left h (run_barred hallows hnow h.fits hf)

variable (hfree : config.barred? c = none) (hbegin : e.begin op c world = (ending, begun))
include hfree hbegin

/-- A call comes to what the fate of the executor's call makes of it. -/
theorem call_conclusion
    (hx : (Fate.of config now ending).conclusion room op c ending.finish begun = some (x, after)) :
    (call (.standard config room e) m now world).1 =
        some (((x.mapError Failure.surfaced).bind Response.result).map m.result) ∧
      (call (.standard config room e) m now world).2.2 = after :=
  call_left h (run_conclusion hallows hnow h.fits hfree hbegin hx)

theorem call_never (hx : Fate.of config now ending = .never) :
    (call (.standard config room e) m now world).1 = none ∧
      (call (.standard config room e) m now world).2.2 = begun := by
  obtain ⟨hnone, hgoing, hworld⟩ : (run op config room e (single c) (some 1) now world).responses = [] ∧ _ ∧ _ :=
    run_never hallows hnow h.fits hfree hbegin hx
  have hunwrap : unwrap op (run op config room e (single c) (some 1) now world) = none := by
    simp only [unwrap, hnone, hgoing]
  simp only [call, Scalar.command_eq_ok.2 h]
  exact ⟨congrArg (Option.map (Except.map m.result)) hunwrap, hworld⟩

omit hbegin in
/-- Noting the calls of an executor changes nothing else, and there is one to note. -/
theorem call_noted (notes : List (Operation × Command)) :
    (call (.standard config room e.noted) m now (world, notes)).1 =
        (call (.standard config room e) m now world).1 ∧
      (call (.standard config room e.noted) m now (world, notes)).2.2 =
        ((call (.standard config room e) m now world).2.2, notes ++ [(op, c)]) := by
  cases hbegin : e.begin op c world with
  | mk ending begun =>
    -- The fate of a call is told from its duration alone, which noting keeps.
    have hnoted : e.noted.begin op c (world, notes) = (ending.beside _, begun, notes ++ [(op, c)]) := by
      simp only [Executor.noted, hbegin]
    have hfate : Fate.of config now (ending.beside (List (Operation × Command))) = Fate.of config now ending := rfl
    cases hx : (Fate.of config now ending).conclusion room op c ending.finish begun with
    | some p =>
      obtain ⟨hcall, hworld⟩ := call_conclusion h hallows hnow hfree hbegin hx
      have hbeside := (Fate.of config now ending).conclusion_beside room op c ending begun (notes ++ [(op, c)])
      rw [hx, Option.map_some] at hbeside
      obtain ⟨hcall', hworld'⟩ := call_conclusion h hallows hnow hfree hnoted (hfate ▸ hbeside)
      exact ⟨hcall'.trans hcall.symm, by rw [hworld', hworld]⟩
    | none =>
      have hnever : Fate.of config now ending = .never := by
        cases hf : Fate.of config now ending with
        | never => rfl
        | itself | timeout =>
          rw [hf] at hx
          cases hx
      obtain ⟨hcall, hworld⟩ : (call (.standard config room e) m now world).1 = none ∧ _ :=
        call_never h hallows hnow hfree hbegin hnever
      obtain ⟨hcall', hworld'⟩ : (call (.standard config room e.noted) m now (world, notes)).1 = none ∧ _ :=
        call_never h hallows hnow hfree hnoted (hfate.trans hnever)
      exact ⟨hcall'.trans hcall.symm, by rw [hworld', hworld]⟩

omit hbegin hfree in
/-- The executor is asked just where nothing bars the command, and then it is asked once. -/
theorem notes_eq_iff : (call (.standard config room e.noted) m now (world, [])).2.2.2 = [(op, c)] ↔
    config.barred? c = none := by
  constructor
  · intro hnotes
    cases hfree : config.barred? c with
    | none => rfl
    | some f =>
      rw [(call_barred h hallows hnow hfree).2] at hnotes
      cases hnotes
  · intro hfree
    exact congrArg Prod.snd (call_noted h hallows hnow hfree []).2

end
end Client
end SetPipeline
