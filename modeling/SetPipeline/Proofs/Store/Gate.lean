import SetPipeline.Pipeline
import SetPipeline.Proofs.Except
import SetPipeline.Proofs.Store.Reachable

/-! The check before a stream runs a command and the store's own check are the same check. A command that
passes it has an action, and what the action comes to is a reply of the operation's kind or one of two
refusals; either is carried by the response as it is. -/
namespace SetPipeline

def Action.operation : Action → Operation
  | add .. => .add
  | remove .. => .remove
  | pop _ => .pop
  | move .. => .move
  | card _ => .card
  | isMember .. => .isMember
  | combine how _ => .combine how
  | combineStore how .. => .combineStore how
  | members _ => .members
  | randomMembers .. => .randomMembers

theorem Action.isSome_of_fits {op : Operation} {c : Command} (h : op.unfit? c = none) :
    (of? op c).isSome := by
  obtain ⟨hk, hc⟩ := Operation.unfit?_eq_none.1 h
  cases op <;> cases c <;>
    simp_all [Operation.commandClass, Command.cls, CommandClass.isKind, CommandClass.ancestors,
      Command.isComplete, Command.missing?, of?, Command.mainKey?, Option.isSome_bind]

theorem Action.operation_of {op : Operation} {c : Command} {a : Action} (h : of? op c = some a) :
    a.operation = op := by
  unfold of? at h
  split at h <;> simp [Option.bind_eq_some_iff] at h <;> grind [operation]

/-- What an action can come to, by the kind of its responses. -/
inductive Answers : ResponseKind → Except Refusal Reply → Prop where
  | count (n : Nat) : Answers .numeric (.ok (.count n))
  | flag (b : Bool) : Answers .boolean (.ok (.flag b))
  | member (b : Option Bytes) : Answers .value (.ok (.member b))
  | members (bs : List Bytes) : Answers .multiValue (.ok (.members bs))
  | noArguments (kind : ResponseKind) (op : Operation) : Answers kind (.error (.noArguments op))
  | wrongType (kind : ResponseKind) : Answers kind (.error .wrongType)

namespace Store

theorem setAt_eq_error {s : Store} {k : Bytes} {r : Refusal} (h : s.setAt k = .error r) :
    r = .wrongType := by
  unfold setAt entrySet at h
  split at h <;> simp_all

theorem operands_cons_eq_error {s : Store} {op : Operation} {k : Bytes} {ks : List Bytes} {r : Refusal}
    (h : s.operands op (k :: ks) = .error r) : r = .wrongType := by
  rcases Except.bind_eq_error.1 h with hk | ⟨m, -, h⟩
  · exact setAt_eq_error hk
  · rcases Except.bind_eq_error.1 h with h | ⟨ms, -, h⟩
    · obtain ⟨j, -, hj⟩ := Except.mapM_eq_error h
      exact setAt_eq_error hj
    · cases h

theorem operands_eq_error {s : Store} {op : Operation} {ks : List Bytes} {r : Refusal}
    (h : s.operands op ks = .error r) : r = .noArguments op ∨ r = .wrongType := by
  cases ks with
  | nil =>
    cases h
    exact .inl rfl
  | cons k ks => exact .inr (operands_cons_eq_error h)

theorem combined_eq_error {s : Store} {op : Operation} {how : Combination} {ks : List Bytes} {r : Refusal}
    (h : s.combined op how ks = .error r) : r = .noArguments op ∨ r = .wrongType :=
  operands_eq_error (Except.map_eq_error.1 h)

theorem reading_answers {s : Store} {k : Bytes} {kind : ResponseKind} {next : MemberSet → Turn}
    (h : ∀ m, Answers kind (next m).1) : Answers kind (s.reading k next).1 := by
  unfold reading
  split
  · exact h _
  · next hr =>
    cases setAt_eq_error hr
    exact .wrongType kind

theorem map_answers {x : Except Refusal MemberSet} {kind : ResponseKind} {f : MemberSet → Reply}
    (hx : ∀ r, x = .error r → Answers kind (.error r)) (h : ∀ m, Answers kind (.ok (f m))) :
    Answers kind (x.map f) := by
  cases x with
  | ok m => exact h m
  | error r => exact hx r rfl

theorem setAt_answers {s : Store} {k : Bytes} {kind : ResponseKind} {f : MemberSet → Reply}
    (h : ∀ m, Answers kind (.ok (f m))) : Answers kind ((s.setAt k).map f) :=
  map_answers (fun _ hr => setAt_eq_error hr ▸ .wrongType kind) h

theorem perform_answers (s : Store) (a : Action) : Answers a.operation.responseKind (s.perform a).1 := by
  cases a with
  | add k vs =>
    simp only [perform, addTo]
    split
    · exact .noArguments _ _
    · exact reading_answers fun m => .count _
  | remove k vs =>
    simp only [perform, removeFrom]
    split
    · exact .noArguments _ _
    · exact reading_answers fun m => .count _
  | pop k => exact reading_answers fun m => by cases m.toList <;> exact .member _
  | move a b v =>
    refine reading_answers fun m => reading_answers fun n => ?_
    split
    · exact .flag _
    · split <;> exact .flag _
  | card k => exact setAt_answers fun m => .count _
  | isMember k v => exact setAt_answers fun m => .flag _
  | combine how ks =>
    refine map_answers (fun _ hr => ?_) fun m => .members _
    rcases combined_eq_error hr with rfl | rfl
    · exact .noArguments _ _
    · exact .wrongType _
  | combineStore how ks d =>
    simp only [perform, combineTo]
    split
    · exact .count _
    · next hr =>
      rcases combined_eq_error hr with rfl | rfl
      · exact .noArguments _ _
      · exact .wrongType _
  | members k => exact setAt_answers fun m => .members _
  | randomMembers k n => exact reading_answers fun m => by cases m.toList <;> exact .members _

theorem answer_of_unfit {op : Operation} {c : Command} {u : Unfit} (s : Store) (h : op.unfit? c = some u) :
    s.answer (.known op) c =
      (.error (match u with
        | .wrongClass => (Refusal.wrongClass (.known op) c.cls).toFailure
        | .incomplete p => absent p), s) := by
  unfold Operation.unfit? at h
  unfold answer
  split at h
  · next hk =>
    obtain ⟨p, hp, rfl⟩ := Option.map_eq_some_iff.1 h
    simp [Request.commandClass, hk, hp]
  · next hk =>
    cases h
    simp [Request.commandClass, hk]

theorem answer_of_fits {op : Operation} {c : Command} {a : Action} (s : Store) (h : op.unfit? c = none)
    (ha : Action.of? op c = some a) : s.answer (.known op) c = s.act a := by
  obtain ⟨hk, hc⟩ := Operation.unfit?_eq_none.1 h
  simp only [Command.isComplete, Option.isNone_iff_eq_none] at hc
  simp [answer, Request.commandClass, hk, hc, ha]

theorem Proper.execute_of_fits {s : Store} (hs : s.Proper) {op : Operation} {c : Command} {a : Action}
    (h : op.unfit? c = none) (ha : Action.of? op c = some a) :
    s.execute (.known op) c = ((s.perform a).1.mapError Refusal.toFailure,
      (s.perform a).2.withRecorded (s.recorded ++ [(.known op, c)])) := by
  rw [hs.execute_eq, answer_of_fits s h ha, hs.act_eq]

theorem Proper.answers {s : Store} (hs : s.Proper) {op : Operation} {c : Command} (h : op.unfit? c = none) :
    ∃ x, Answers op.responseKind x ∧ (s.answer (.known op) c).1 = x.mapError Refusal.toFailure := by
  obtain ⟨a, ha⟩ := Option.isSome_iff_exists.1 (Action.isSome_of_fits h)
  refine ⟨(s.perform a).1, Action.operation_of ha ▸ perform_answers s a, ?_⟩
  rw [answer_of_fits s h ha, hs.act_eq]

end Store

/-- A response that carries just what a call on the store came to: its reply as it is, or the text and the
code of its refusal. -/
inductive Response.Carries (kind : ResponseKind) (c : Command) : Except Failure Reply → Response → Prop where
  | reply (x : Reply) : Carries kind c (.ok x) ⟨kind, c, x.toDatum, none, none⟩
  | refusal (message code : String) :
    Carries kind c (.error (.refused message (.text code))) (Response.failed kind c message code)

theorem Response.outputField_members (input : Datum) (bs : List Bytes) :
    outputField .multiValue [("input", input), ("output", .list (bs.map .bytes))] =
      .ok (.list (bs.map .bytes)) := by
  have hs : Fields.several "output" .listType (.list (bs.map .bytes)) = .ok bs := Fields.items_bytes _ 0 bs
  show (Fields.several "output" .listType (.list (bs.map .bytes))).map _ = _
  rw [hs]
  rfl

/-- A reply is accepted unchanged by the kind of response that its operation has. -/
theorem Answers.success {kind : ResponseKind} {x : Reply} (h : Answers kind (.ok x)) (c : Command) :
    Response.success kind (.command c) x.toDatum = .ok ⟨kind, c, x.toDatum, none, none⟩ := by
  cases h with
  | count n => rfl
  | flag b => rfl
  | member b => cases b <;> rfl
  | members bs =>
    simp only [Response.success, Response.make, Response.check, Reply.toDatum,
      Response.outputField_members]
    rfl

theorem Answers.refusal_code {kind : ResponseKind} {r : Refusal} (h : Answers kind (.error r)) :
    r.code = Failure.err ∨ r.code = Failure.wrongType := by
  cases h with
  | noArguments => exact .inl rfl
  | wrongType => exact .inr rfl

theorem Operation.name_eq (op : Operation) : ∃ cs, op.name.toList = 'S' :: cs := by
  cases op with
  | combine how => exact ⟨how.word.toList, by simp [name]⟩
  | combineStore how => exact ⟨how.word.toList ++ "STORE".toList, by simp [name]⟩
  | _ => exact ⟨_, rfl⟩

theorem Refusal.message_wrongClass (op : Operation) (got : CommandClass) :
    (wrongClass (.known op) got).message.toList[4]? = some 'S' := by
  obtain ⟨cs, hcs⟩ := op.name_eq
  have h : (wrongClass (.known op) got).message =
      "ERR " ++ (op.name ++ (" expects " ++ (op.commandClass.name ++ (", got " ++ got.name)))) := by
    simp only [← String.append_assoc]
    rfl
  rw [h, String.toList_append, String.toList_append, hcs]
  rfl

theorem Refusal.message_noArguments (op : Operation) : (noArguments op).message.toList[4]? = some 'w' := by
  cases op with
  | combine how => exact (rfl : "ERR wrong number of arguments".toList[4]? = some 'w')
  | combineStore how => exact (rfl : "ERR wrong number of arguments".toList[4]? = some 'w')
  | _ => rfl

theorem Answers.ne_wrongClass {kind : ResponseKind} {r : Refusal} (h : Answers kind (.error r))
    (op : Operation) (got : CommandClass) : r.toFailure ≠ (Refusal.wrongClass (.known op) got).toFailure := by
  intro he
  obtain ⟨hm, hc⟩ := Failure.refused.inj he
  cases h with
  | wrongType =>
    have hc : Failure.wrongType = Failure.err := Datum.text.inj hc
    exact absurd hc (by decide)
  | noArguments _ op' =>
    have h4 := Refusal.message_noArguments op'
    rw [hm, Refusal.message_wrongClass] at h4
    exact absurd h4 (by decide)

namespace Store

/-- The check before a command is run fails just where the store itself would name the class or miss a
part. -/
theorem Proper.unfit_iff {s : Store} (hs : s.Proper) (op : Operation) (c : Command) :
    (op.unfit? c).isSome ↔
      (s.answer (.known op) c).1 = .error (Refusal.wrongClass (.known op) c.cls).toFailure ∨
        ∃ m, (s.answer (.known op) c).1 = .error (.misuse m) := by
  cases h : op.unfit? c with
  | some u =>
    rw [answer_of_unfit s h]
    cases u with
    | wrongClass => simp
    | incomplete p => exact ⟨fun _ => .inr ⟨.absent p, rfl⟩, fun _ => rfl⟩
  | none =>
    obtain ⟨x, hx, he⟩ := hs.answers h
    rw [he]
    cases x with
    | ok y =>
      refine ⟨by simp, ?_⟩
      rintro (hw | ⟨m, hm⟩)
      · cases hw
      · cases hm
    | error r =>
      refine ⟨by simp, ?_⟩
      rintro (hw | ⟨m, hm⟩)
      · exact absurd (Except.error.inj hw) (hx.ne_wrongClass op c.cls)
      · cases hm

theorem Proper.respond {s : Store} (hs : s.Proper) {op : Operation} {c : Command} (h : op.unfit? c = none)
    (room : Nat) : ∃ r, Pipeline.respond room op c ((s.answer (.known op) c).1.map Reply.toDatum) = .ok r ∧
      Response.Carries op.responseKind c (s.answer (.known op) c).1 r ∧
      (r.code = none ∨ r.code = some Failure.err ∨ r.code = some Failure.wrongType) := by
  obtain ⟨x, hx, he⟩ := hs.answers h
  rw [he]
  cases x with
  | ok y => exact ⟨_, Pipeline.respond_of_success (hx.success c), .reply y, .inl rfl⟩
  | error r =>
    refine ⟨_, Pipeline.respond_refused room op c r.message r.code, .refusal r.message r.code, .inr ?_⟩
    exact hx.refusal_code.imp (congrArg some) (congrArg some)

end Store
end SetPipeline
