import SetPipeline.Proofs.Fields
import SetPipeline.Proofs.Pipeline.Failures

/-! What becomes of a failure that a call itself raises. A refusal is the answer to its own command, and anything else
is to end the stream. It does, but for one failure: a call that raises that something timed out is answered as though
its own time had run out, even where no time was set. Short of that an answer tells a slow call from a broken one. -/
namespace SetPipeline

/-- The failures with which an executor answers one command. -/
def Failure.IsRefusal : Failure → Prop
  | .refused .. => True
  | _ => False

namespace Response

structure IsTimeout (r : Response) : Prop where
  error : r.error = some Failure.timedOutMessage
  code : r.code = some Failure.timeoutCode

theorem failure_eq_ok {kind : ResponseKind} {c : Command} {m : String} {code : Datum} {r : Response}
    (h : failure kind (.command c) (.text m) code = .ok r) :
    r.error = some m ∧ ∀ t, r.code = some t → Fields.text code = .ok t := by
  rw [failure_eq] at h
  cases hcode : textField [("code", code)] "code" with
  | error is =>
    rw [hcode] at h
    cases h
  | ok t? =>
    rw [hcode] at h
    cases h
    refine ⟨rfl, ?_⟩
    rintro t rfl
    rcases Fields.optional_eq_ok.1 hcode with ⟨-, ht⟩ | ⟨d, t', hd, -, hcheck, ht⟩
    · cases ht
    · cases hd
      cases ht
      exact Fields.single_eq_ok.1 hcheck

end Response

namespace Pipeline

/-- A timeout is answered for a call that timed out or that says so in a refusal. -/
theorem respond_isTimeout {room : Nat} {op : Operation} {c : Command} {o : Except Failure Datum} {r : Response}
    (h : respond room op c o = .ok r) (hr : r.IsTimeout) :
    (∃ message, o = .error (.timedOut message)) ∨
      ∃ code, o = .error (.refused Failure.timedOutMessage code) ∧ Fields.text code = .ok Failure.timeoutCode := by
  unfold respond at h
  split at h
  · split at h
    · next hs =>
      cases h
      rw [Response.success_eq] at hs
      split at hs
      · cases hs
        cases hr.error
      · cases hs
    · cases (logging_eq_ok.1 h).2
      have hcode : some Failure.invalidOutput = some Failure.timeoutCode := hr.code
      exact absurd hcode (by decide)
  · next m code =>
    obtain ⟨-, h⟩ := logging_eq_ok.1 h
    cases hf : Response.failure op.responseKind (.command c) (.text m) code with
    | error report =>
      rw [hf] at h
      cases h
    | ok r' =>
      rw [hf] at h
      cases h
      obtain ⟨herror, hcode⟩ := Response.failure_eq_ok hf
      cases herror.symm.trans hr.error
      exact .inr ⟨code, rfl, hcode _ hr.code⟩
  · next message => exact .inl ⟨message, rfl⟩
  · cases h

theorem timedOut_or_isFatal {f : Failure} (h : ¬f.IsRefusal) : (∃ message, f = .timedOut message) ∨ IsFatal f := by
  cases f with
  | refused => exact absurd trivial h
  | timedOut message => exact .inl ⟨message, rfl⟩
  | _ => exact .inr trivial

def outcomesBut (ms : List Move) (i : Nat) : Outcomes := fun j => if j = i then none else outcomeOf ms j

/-- A stream that breaks with the failure of a call: it never answers that call, nor does it come to an end by itself.
Once the failure is given to it it waits no more. Where no move is left it has raised this very failure, as it is
outside of a stream, unless it met another one, or closing the input raised one. -/
structure BreaksWith (b : Batch) (ms : List Move) (s : State) (i : Nat) (f : Failure) : Prop where
  unanswered : i ∉ s.answered
  unexhausted : s.ending? ≠ some .exhausted
  given : i ∈ (roundsOf ms).flatten → s.stage ≠ .waiting
  failed : (∀ m, m ≠ .close → b.step s m = none) →
    ∃ g, b.exit? s = some (.failed g) ∧ (g = (f.leaving .coroutine).surfaced ∨
      (∃ g', g = g'.surfaced ∧ Cause b (outcomesBut ms i) g') ∨ b.masking? s = some g)

/-- The time of a call was limited, and it ran out before the call ended. -/
structure RanOut (b : Batch) (ms : List Move) (i : Nat) : Prop where
  limited : b.config.timeout.isSome
  expired : .expire i ∈ ms
  unsettled : ∀ o, .settle i o ∉ ms

/-- The answers of a stream tell a slow call from a broken one: whatever a call raises breaks the stream unless it is a
refusal, and a timeout is answered only where the time ran out, or where a refusal says the same in its own words. -/
structure Discerns (b : Batch) (ms : List Move) (s : State) : Prop where
  breaks : ∀ i f, .settle i (.error f) ∈ ms → ¬f.IsRefusal → BreaksWith b ms s i f
  timeout : ∀ p ∈ s.yielded, p.2.IsTimeout → RanOut b ms p.1 ∨ ∃ code,
    .settle p.1 (.error (.refused Failure.timedOutMessage code)) ∈ ms ∧ Fields.text code = .ok Failure.timeoutCode

section
variable {b : Batch} {ms : List Move} {s : State} {i : Nat} {f : Failure}

theorem Run.limited (h : Run b ms s) (hi : .expire i ∈ ms) : b.config.timeout.isSome := by
  induction h with
  | initial => cases hi
  | next _ hs ih =>
    rcases List.mem_append.1 hi with hi | hi
    · exact ih hi
    · obtain rfl := List.mem_singleton.1 hi
      cases step_stepped hs with
      | expires hlimited => exact hlimited

theorem Run.conclusion_settled (h : Run b ms s) {o : Except Failure Datum} (hsettle : .settle i o ∈ ms) :
    ∃ c, b.source i = .item (.command c) ∧ outcomeOf ms i = some o ∧
      b.conclusion c (outcomeOf ms i) = some (respond b.room b.operation c o) := by
  obtain ⟨ho, c, hcall⟩ := h.ended hsettle (i := i) (if_pos rfl)
  obtain ⟨-, hsource, hu, hfree⟩ := Batch.call?_eq_some hcall
  exact ⟨c, hsource, ho, by simp [Batch.conclusion, hu, hfree, ho]⟩

theorem Run.respond_settled (h : Run b ms s) {p : Nat × Response} (hp : p ∈ s.yielded) {o : Except Failure Datum}
    (hsettle : .settle p.1 o ∈ ms) : respond b.room b.operation p.2.input o = .ok p.2 := by
  obtain ⟨c, hsource, -, hcon⟩ := h.conclusion_settled hsettle
  obtain ⟨c', hsource', hcon'⟩ := h.accounted.yielded p hp
  cases hsource.symm.trans hsource'
  rw [hcon] at hcon'
  have hr := Option.some.inj hcon'
  rwa [respond_input hr]

/-- What a stream fails with after a call has raised what is no refusal: that, or the failure of something else. -/
theorem Run.failed_of_settled (h : Run b ms s) (hsettle : .settle i (.error f) ∈ ms) (hf : ¬f.IsRefusal) {g : Failure}
    (he : s.ending? = some (.failed g)) : g = f.leaving .coroutine ∨ Cause b (outcomesBut ms i) g := by
  obtain ⟨c, hsource, -, hcon⟩ := h.conclusion_settled hsettle
  rcases h.ending he with hend | ⟨hend, -⟩ | ⟨g', hg, hcause⟩
  · cases hend
  · cases hend
  cases hg
  cases hcause with
  | input hj => exact .inr (.input hj)
  | item hj hd => exact .inr (.item hj hd)
  | @call j c' _ hj hcon' =>
    by_cases hji : j = i
    · subst hji
      cases hsource.symm.trans hj
      rw [hcon] at hcon'
      have hr : respond b.room b.operation c (.error f) = .error g := Option.some.inj hcon'
      rcases timedOut_or_isFatal hf with ⟨message, rfl⟩ | hfatal
      · cases hr
      · cases (respond_of_isFatal hfatal).symm.trans hr
        exact .inl rfl
    · exact .inr (.call hj (by rwa [outcomesBut, if_neg hji]))

/-- What a call raises that is no refusal breaks the stream, as long as it is not answered. -/
theorem Run.breaksWith (h : Run b ms s) (hms : ∀ m ∈ ms, m ≠ .close) (hsettle : .settle i (.error f) ∈ ms)
    (hf : ¬f.IsRefusal) (hi : i ∉ s.answered) : BreaksWith b ms s i f := by
  obtain ⟨c, hsource, ho, hcon⟩ := h.conclusion_settled hsettle
  have hs := h.reachable.sound
  have hunexhausted : s.ending? ≠ some .exhausted := by
    intro he
    have htaken : i < s.pulled := Nat.lt_of_not_le fun hle => by simp [h.accounted.untaken i (.inl hle)] at ho
    exact hi ((hs.answered_of_exhausted he).symm.subset (List.mem_range.2 htaken))
  constructor
  case unanswered => exact hi
  case unexhausted => exact hunexhausted
  case given =>
    intro hgiven hwaiting
    have hsplit := (h.roundByRound.waiting hwaiting).split
    rw [hsplit, List.append_nil] at hgiven
    exact hi hgiven
  case failed =>
    intro hstuck
    obtain ⟨g, hg, -⟩ := (h.over_of_stuck hms fun m hm => hstuck m hm.ne_close).resolve_left hunexhausted
    cases hm : b.masking? s with
    | some g' =>
      refine ⟨g', exit?_of_masking hm ?_, .inr (.inr rfl)⟩
      rw [hg]
      rfl
    | none =>
      refine ⟨g.surfaced, (exit?_eq_failed hm).2 ⟨g, hg, rfl⟩, ?_⟩
      rcases h.failed_of_settled hsettle hf hg with rfl | hcause
      · exact .inl rfl
      · exact .inr (.inl ⟨g, rfl, hcause⟩)

theorem Run.not_answered (h : Run b ms s) (hsettle : .settle i (.error f) ∈ ms) (hf : IsFatal f) : i ∉ s.answered := by
  intro hi
  obtain ⟨p, hp, rfl⟩ := List.mem_map.1 hi
  cases (respond_of_isFatal hf).symm.trans (h.respond_settled hp hsettle)

theorem Run.ranOut_or (h : Run b ms s)
    (hraised : ∀ i message, .settle i (.error (.timedOut message)) ∈ ms → i ∉ s.answered) {p : Nat × Response}
    (hp : p ∈ s.yielded) (hr : p.2.IsTimeout) : RanOut b ms p.1 ∨ ∃ code,
      .settle p.1 (.error (.refused Failure.timedOutMessage code)) ∈ ms ∧
        Fields.text code = .ok Failure.timeoutCode := by
  have hanswered : p.1 ∈ s.answered := List.mem_map_of_mem hp
  obtain ⟨i, r⟩ := p
  obtain ⟨c, -, hcon⟩ := h.accounted.yielded _ hp
  cases concluded_of_conclusion hcon with
  | rejected =>
    have hcode : some Failure.invalidArgument = some Failure.timeoutCode := hr.code
    exact absurd hcode (by decide)
  | responded _ _ ho hresp =>
    rcases mem_of_outcomeOf ho with hsettle | ⟨hexpire, rfl⟩
    · rcases respond_isTimeout hresp hr with ⟨message, rfl⟩ | ⟨code, rfl, hcode⟩
      · exact absurd hanswered (hraised _ message hsettle)
      · exact .inr ⟨code, hsettle, hcode⟩
    · refine .inl ⟨h.limited hexpire, hexpire, fun o hsettle => ?_⟩
      obtain ⟨-, -, ho', -⟩ := h.conclusion_settled hsettle
      cases ho.symm.trans ho'
      exact hraised _ _ hsettle hanswered

/-- A stream that is not closed tells slow calls from broken ones just where it has answered no call that itself raised
a timeout; and each of those that it did answer got the answer of a call whose time ran out. -/
theorem Run.discerns_iff (h : Run b ms s) (hms : ∀ m ∈ ms, m ≠ .close) :
    (∀ p ∈ s.yielded, ∀ message, .settle p.1 (.error (.timedOut message)) ∈ ms →
      p.2 = .failed b.operation.responseKind p.2.input Failure.timedOutMessage Failure.timeoutCode) ∧
    (Discerns b ms s ↔ ∀ i message, .settle i (.error (.timedOut message)) ∈ ms → i ∉ s.answered) := by
  refine ⟨fun p hp message hsettle => (Except.ok.inj (h.respond_settled hp hsettle)).symm, ?_, ?_⟩
  · intro hall i message hsettle
    exact (hall.breaks i _ hsettle id).unanswered
  · intro hraised
    refine ⟨fun i f hsettle hf => h.breaksWith hms hsettle hf ?_, fun p hp hr => h.ranOut_or hraised hp hr⟩
    rcases timedOut_or_isFatal hf with ⟨message, rfl⟩ | hfatal
    · exact hraised i message hsettle
    · exact h.not_answered hsettle hfatal

end

/-- A call with no limit to its time raises a timeout, and the wait gives it out. -/
def untimedMoves : List Move :=
  [.ask, .offer, .wake true [], .start, .settle 0 (.error (.timedOut "boom")), .wake false [0]]

theorem exists_run_untimed : ∃ s, Run untimed untimedMoves s ∧ s.answered = [0] := by
  have begun := (((Run.initial (b := untimed)).next (m := .ask) rfl).next (m := .offer) rfl).next
    (m := .wake true []) rfl
  have raised := (begun.next (m := .start) rfl).next (m := .settle 0 (.error (.timedOut "boom"))) rfl
  exact ⟨_, raised.next (m := .wake false [0]) rfl, rfl⟩

/-- The call is answered as one whose time ran out, though it had no limit. -/
theorem not_discerns_untimed : untimed.config.timeout = none ∧ ∃ s, Run untimed untimedMoves s ∧
    (∀ m ∈ untimedMoves, m ≠ .close) ∧ ¬Discerns untimed untimedMoves s := by
  obtain ⟨s, hrun, hanswered⟩ := exists_run_untimed
  refine ⟨rfl, s, hrun, by simp [untimedMoves], fun hall => ?_⟩
  have hraised : .settle 0 (.error (.timedOut "boom")) ∈ untimedMoves := by simp [untimedMoves]
  have hnot := (hall.breaks 0 _ hraised id).unanswered
  rw [hanswered] at hnot
  exact hnot List.mem_cons_self

theorem discerns_iff_untimed : ∃ s, Run untimed untimedMoves s ∧ (∀ m ∈ untimedMoves, m ≠ .close) ∧
    (∀ p ∈ s.yielded, ∀ message, .settle p.1 (.error (.timedOut message)) ∈ untimedMoves →
      p.2 = .failed untimed.operation.responseKind p.2.input Failure.timedOutMessage Failure.timeoutCode) ∧
    (Discerns untimed untimedMoves s ↔
      ∀ i message, .settle i (.error (.timedOut message)) ∈ untimedMoves → i ∉ s.answered) := by
  obtain ⟨s, hrun, -⟩ := exists_run_untimed
  have hms : ∀ m ∈ untimedMoves, m ≠ .close := by simp [untimedMoves]
  exact ⟨s, hrun, hms, hrun.discerns_iff hms⟩

end Pipeline
end SetPipeline
