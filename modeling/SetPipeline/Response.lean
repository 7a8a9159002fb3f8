import SetPipeline.Failure
import SetPipeline.Fields

/-! Responses: one command with its output, or with the error that kept it from having one. The kind of
a response says what its output may be; a plain response takes any output unchanged. -/
namespace SetPipeline.Response

open Fields

/-- What the output of a kind becomes. -/
def checkOutput (kind : ResponseKind) (d : Datum) : Checked Datum :=
  match kind, d with
  | .plain, d => .ok d
  | _, .none => .ok .none
  | .boolean, d => (single "output" bool d).map .bool
  | .numeric, d => (single "output" int d).map .int
  | .value, d => (single "output" bytes d).map .bytes
  | .multiValue, d => (several "output" .listType d).map fun bs => .list (bs.map .bytes)

def outputField (kind : ResponseKind) (given : Given) : Checked Datum :=
  checkOutput kind ((given.lookup "output").getD .none)

def textField (given : Given) (field : String) : Checked (Option String) :=
  optional given field (single field text)

def check (kind : ResponseKind) (given : Given) : Checked Response :=
  (both (required given "input" (single "input" command))
    (both (outputField kind given) (both (textField given "error") (textField given "code")))).map
      fun p => ⟨kind, p.1, p.2.1, p.2.2.1, p.2.2.2⟩

def make (kind : ResponseKind) (given : Given) : Except Report Response :=
  (check kind given).mapError fun is => ⟨kind.name, is⟩

def success (kind : ResponseKind) (input output : Datum) : Except Report Response :=
  make kind [("input", input), ("output", output)]

def failure (kind : ResponseKind) (input error code : Datum) : Except Report Response :=
  make kind [("input", input), ("error", error), ("code", code)]

def isFailure (r : Response) : Bool := r.error.isSome

/-- The output, or the failure that the response stands for. An absent or empty code counts as the
general one. -/
def result (r : Response) : Except Failure Datum :=
  match r.error with
  | some e => .error (.refused e (.text (match r.code with
    | none | some "" => Failure.err
    | some c => c)))
  | none => .ok r.output

def failed (kind : ResponseKind) (c : Command) (error code : String) : Response :=
  ⟨kind, c, .none, some error, some code⟩

theorem checkOutput_of_ne {d : Datum} (h : d ≠ .none) :
    checkOutput .boolean d = (single "output" bool d).map .bool ∧
      checkOutput .numeric d = (single "output" int d).map .int ∧
      checkOutput .value d = (single "output" bytes d).map .bytes ∧
      checkOutput .multiValue d = (several "output" .listType d).map fun bs => .list (bs.map .bytes) := by
  cases d with
  | none => exact absurd rfl h
  | _ => exact ⟨rfl, rfl, rfl, rfl⟩

theorem success_eq (kind : ResponseKind) (c : Command) (d : Datum) :
    success kind (.command c) d = match checkOutput kind d with
      | .ok v => .ok ⟨kind, c, v, none, none⟩
      | .error is => .error ⟨kind.name, is⟩ := by
  have hcheck : check kind [("input", .command c), ("output", d)] =
      (both (.ok c) (both (checkOutput kind d) (both (.ok none) (.ok none)))).map
        fun p => ⟨kind, p.1, p.2.1, p.2.2.1, p.2.2.2⟩ := rfl
  unfold success make
  rw [hcheck]
  cases checkOutput kind d <;> rfl

theorem failure_eq (kind : ResponseKind) (c : Command) (error : String) (code : Datum) :
    failure kind (.command c) (.text error) code = match textField [("code", code)] "code" with
      | .ok t => .ok ⟨kind, c, .none, some error, t⟩
      | .error is => .error ⟨kind.name, is⟩ := by
  have hcheck : check kind [("input", .command c), ("error", .text error), ("code", code)] =
      (both (.ok c) (both (.ok .none) (both (.ok (some error)) (textField [("code", code)] "code")))).map
        fun p => ⟨kind, p.1, p.2.1, p.2.2.1, p.2.2.2⟩ := by
    cases kind <;> rfl
  unfold failure make
  rw [hcheck]
  cases textField [("code", code)] "code" <;> rfl

theorem failure_text (kind : ResponseKind) (c : Command) (error code : String) :
    failure kind (.command c) (.text error) (.text code) = .ok (failed kind c error code) :=
  failure_eq kind c error (.text code)

theorem result_failed {kind : ResponseKind} {c : Command} {error code : String} (h : code ≠ "") :
    result (failed kind c error code) = .error (.refused error (.text code)) := by
  simp only [result, failed]

end SetPipeline.Response
