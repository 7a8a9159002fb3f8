import SetPipeline.Proofs.Pipeline.Calls
import SetPipeline.Proofs.Pipeline.Correlation

/-! What reaches the executor: in the order of the input, and each once, the well-formed commands of some front of
it. A command that is not well-formed is answered with an argument error. -/
namespace SetPipeline

/-- The keys that a command has a place for: its key or source, and its destination. -/
def Command.places : Command → List (Option Bytes)
  | bare | multiKey _ | combine .. => []
  | key k | add k _ | remove k _ | randomMembers k _ | isMember k _ => [k]
  | move s d _ => [s, d]
  | multiKeyStore _ d | combineStore _ _ d => [d]

theorem Command.isComplete_iff {c : Command} : c.isComplete ↔ ∀ k ∈ c.places, k.isSome := by
  unfold isComplete
  cases c <;> simp [missing?, places]

/-- A command is well-formed for an operation if it is of the operation's class and lacks nothing. -/
def Command.IsWellFormed (op : Operation) (c : Command) : Prop := c.cls.isKind op.commandClass ∧ c.isComplete

instance (op : Operation) (c : Command) : Decidable (c.IsWellFormed op) :=
  inferInstanceAs (Decidable (_ ∧ _))

namespace Pipeline

/-- The well-formed commands of the first `q` items of an input, with their positions. -/
def wellFormed (op : Operation) (src : Source) (q : Nat) : List (Nat × Command) :=
  (List.range q).filterMap fun i =>
    match src i with
    | .item (.command c) => if c.IsWellFormed op then some (i, c) else none
    | _ => none

variable {b : Batch} {s : State}

theorem mem_wellFormed {op : Operation} {src : Source} {q : Nat} {p : Nat × Command} :
    p ∈ wellFormed op src q ↔ p.1 < q ∧ src p.1 = .item (.command p.2) ∧ p.2.IsWellFormed op := by
  simp only [wellFormed, List.mem_filterMap, List.mem_range]
  constructor
  · rintro ⟨i, hi, h⟩
    split at h
    · next c hc =>
      split at h
      · next hwell =>
        cases h
        exact ⟨hi, hc, hwell⟩
      · cases h
    · cases h
  · rintro ⟨hi, hs, hwell⟩
    exact ⟨p.1, hi, by simp [hs, hwell]⟩

/-- The calls of a front of the input are its well-formed commands, less those that are barred. -/
theorem Batch.calls_eq_filter (b : Batch) (q : Nat) :
    b.calls q = (wellFormed b.operation b.source q).filter fun p => (b.config.barred? p.2).isNone := by
  rw [wellFormed, List.filter_filterMap]
  apply List.filterMap_congr
  intro i _
  unfold Batch.call?
  cases hs : b.source i with
  | item d =>
    cases d with
    | command c =>
      have hfits : (b.operation.unfit? c).isNone = true ↔ c.IsWellFormed b.operation := by
        rw [Option.isNone_iff_eq_none]
        exact Operation.unfit?_eq_none
      by_cases hwell : c.IsWellFormed b.operation
      · simp [hwell, hfits.2 hwell, Option.filter]
      · simp [hwell, mt hfits.1 hwell]
    | _ => rfl
  | done | failure => rfl

theorem Batch.calls_eq_nil_or (b : Batch) (q : Nat) :
    b.calls q = [] ∨ ∃ p ∈ b.calls q, b.calls q = b.calls (p.1 + 1) := by
  induction q with
  | zero => exact .inl rfl
  | succ q ih =>
    cases hcall : b.call? q with
    | none =>
      rw [calls_succ, hcall, Option.toList_none, List.append_nil]
      exact ih
    | some p =>
      refine .inr ⟨p, ?_, by rw [(call?_eq_some hcall).1]⟩
      rw [calls_succ, hcall]
      exact List.mem_append_right _ (List.mem_singleton.2 rfl)

/-- The calls are the well-formed commands of a front. -/
def IsGapless (b : Batch) (s : State) : Prop := ∃ q, q ≤ s.pulled ∧ s.begun = wellFormed b.operation b.source q

/-- What a stream has let through to the executor, and what became of the rest. The only commands that can be missing
are those that cannot be written. -/
structure Dispatched (b : Batch) (s : State) : Prop where
  front : ∃ q, q ≤ s.pulled ∧
    s.begun = (wellFormed b.operation b.source q).filter fun p => (b.config.barred? p.2).isNone
  gapless_iff : IsGapless b s ↔ ∀ p ∈ s.begun, ∀ p' ∈ wellFormed b.operation b.source p.1, p'.2.isWritable = true
  given : ∀ p ∈ s.begun, p.2.cls.isKind b.operation.commandClass ∧ ∀ k ∈ p.2.places, k.isSome
  rejected : ∀ p ∈ s.yielded, b.source p.1 = .item (.command p.2.input) ∧
    (¬p.2.input.IsWellFormed b.operation →
      Response.isFailure p.2 ∧ p.2.code = some Failure.invalidArgument ∧ p.2.output = .none)

/-- No well-formed command is missing from the calls just where all those before the last call can be written. -/
theorem Called.gapless_iff {q : Nat} (h : Called b q s) (hq : q ≤ s.pulled) :
    IsGapless b s ↔ ∀ p ∈ s.begun, ∀ p' ∈ wellFormed b.operation b.source p.1, p'.2.isWritable = true := by
  have hcall {p : Nat × Command} (hp : p ∈ s.begun) :
      p.1 < q ∧ b.source p.1 = .item (.command p.2) ∧ b.operation.unfit? p.2 = none ∧ b.config.barred? p.2 = none :=
    Batch.mem_calls.1 (h.begun ▸ hp)
  constructor
  · rintro ⟨k, -, hk⟩ p hp p' hp'
    obtain ⟨hlt, hsource, hwell⟩ := mem_wellFormed.1 hp'
    have hlast := (mem_wellFormed.1 (hk ▸ hp)).1
    have hbegun : p' ∈ s.begun := hk ▸ mem_wellFormed.2 ⟨by omega, hsource, hwell⟩
    exact (Config.barred?_eq_none.1 (hcall hbegun).2.2.2).1
  · intro hall
    rcases b.calls_eq_nil_or q with hnil | ⟨p, hp, hlast⟩
    · exact ⟨0, Nat.zero_le _, by rw [h.begun, hnil]; rfl⟩
    · have hp' : p ∈ s.begun := h.begun ▸ hp
      obtain ⟨hlt, hsource, -, hfree⟩ := hcall hp'
      refine ⟨p.1 + 1, by omega, ?_⟩
      rw [h.begun, hlast, b.calls_eq_filter]
      refine List.filter_eq_self.2 fun p' hmem => Option.isNone_iff_eq_none.2 ?_
      obtain ⟨hle, hsource', hwell⟩ := mem_wellFormed.1 hmem
      rcases Nat.lt_or_eq_of_le (Nat.le_of_lt_succ hle) with hbefore | heq
      · have hwritable := hall p hp' p' (mem_wellFormed.2 ⟨hbefore, hsource', hwell⟩)
        exact Config.barred?_eq_none.2 ⟨hwritable, (Config.barred?_eq_none.1 hfree).2⟩
      · rw [heq, hsource] at hsource'
        have hsame : p.2 = p'.2 := Datum.command.inj (Offer.item.inj hsource')
        exact hsame ▸ hfree

/-- However a stream has gone, up to and including its end, and whatever its input gives, the calls that were made
are those of the well-formed commands of a front of the input, less those that are barred. -/
theorem Reachable.dispatched (h : Reachable b s) : Dispatched b s := by
  obtain ⟨q, hq⟩ := h.called
  obtain ⟨ms, hrun⟩ := h.exists_run
  have hpulled : q ≤ s.pulled := Nat.le_trans hq.taken (Nat.sub_le _ _)
  constructor
  · exact ⟨q, hpulled, hq.begun.trans (b.calls_eq_filter q)⟩
  · exact hq.gapless_iff hpulled
  · intro p hp
    obtain ⟨-, hunfit⟩ := hq.of_mem_begun hp
    obtain ⟨hkind, hcomplete⟩ := Operation.unfit?_eq_none.1 hunfit
    exact ⟨hkind, Command.isComplete_iff.1 hcomplete⟩
  · intro p hp
    obtain ⟨c, hc, hcon⟩ := hrun.accounted.yielded p hp
    obtain rfl := conclusion_input hcon
    refine ⟨hc, fun hill => ?_⟩
    generalize hx : Except.ok p.2 = x at hcon
    cases concluded_of_conclusion hcon with
    | rejected =>
      rw [Except.ok.inj hx]
      exact ⟨rfl, rfl, rfl⟩
    | barred => cases hx
    | responded hu => exact absurd (Operation.unfit?_eq_none.1 hu) hill

def mixed : Batch :=
  .quiet .card (ofCommands [.key none, .multiKey [[107]], .key (some [107])]) ⟨.int 3, none⟩ 900

theorem dispatched_mixed : ∃ s, Reachable mixed s ∧ s.begun = [(2, .key (some [107]))] ∧ s.answered = [1, 0] ∧
    s.cancelled = [2] ∧ Dispatched mixed s := by
  have first := ((Reachable.initial (b := mixed)).next (m := .ask) rfl).next (m := .offer) rfl
  have second := (first.next (m := .wake true []) rfl).next (m := .offer) rfl
  have third := ((second.next (m := .wake true []) rfl).next (m := .offer) rfl).next (m := .wake true []) rfl
  have started := ((third.next (m := .start) rfl).next (m := .start) rfl).next (m := .start) rfl
  have rejected := (started.next (m := .wake false [1, 0]) rfl).next (m := .ask) rfl
  have closed := rejected.next (m := .close) rfl
  exact ⟨_, closed, rfl, rfl, rfl, closed.dispatched⟩

/-- Three counts, of which the second has too many digits to be written. -/
def lengthy : Batch :=
  .quiet .randomMembers
    (ofCommands ([0, ((10 ^ 4300 : Nat) : Int), 2].map fun n => .randomMembers (some [107]) (some n))) ⟨.int 3, none⟩ 900

/-- The first response is handed over in the round in which the second command has failed, and the consumer takes its
time with it while the third command begins. -/
def lengthyMoves : List Move :=
  [.ask, .offer, .wake true [], .start, .offer, .wake true [], .start, .settle 0 (.ok (.list [])), .offer,
    .wake true [0, 1], .start]

theorem exists_run_lengthy : ∃ s, Run lengthy lengthyMoves s ∧ s.begun.map (·.1) = [0, 2] := by
  have hbegun : (lengthyMoves.foldlM lengthy.step .initial).map (fun s => s.begun.map (·.1)) = some [0, 2] := by
    decide +kernel
  obtain ⟨s, hs, hpositions⟩ := Option.map_eq_some_iff.1 hbegun
  exact ⟨s, Run.initial.follow hs, hpositions⟩

theorem not_isGapless_lengthy : ∃ s, Reachable lengthy s ∧ ¬IsGapless lengthy s := by
  obtain ⟨s, hrun, hpositions⟩ := exists_run_lengthy
  refine ⟨s, hrun.reachable, fun ⟨q, _, hq⟩ => ?_⟩
  have hmem {i : Nat} : i ∈ [0, 2] ↔ ∃ p ∈ wellFormed lengthy.operation lengthy.source q, p.1 = i := by
    rw [← hpositions, hq, List.mem_map]
  obtain ⟨p, hp, hi⟩ := hmem.1 (List.mem_cons_of_mem 0 (List.mem_singleton_self 2))
  have hlt := (mem_wellFormed.1 hp).1
  have hone : 1 < q := by omega
  have hmiddle : (1, Command.randomMembers (some [107]) (some ((10 ^ 4300 : Nat) : Int))) ∈
      wellFormed lengthy.operation lengthy.source q :=
    mem_wellFormed.2 ⟨hone, rfl, rfl, rfl⟩
  exact absurd (hmem.2 ⟨_, hmiddle, rfl⟩) (by decide)

end Pipeline
end SetPipeline
