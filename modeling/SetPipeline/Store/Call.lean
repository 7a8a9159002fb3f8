import SetPipeline.Store.Mixed

/-! Calls on the store: a call is noted, checked like every command is, and answered. -/
namespace SetPipeline.Store

def record (s : Store) (r : Request) (c : Command) : Store := { s with recorded := s.recorded ++ [(r, c)] }

/-- Answer a call: the class of the command first, then its completeness, then the operation. -/
def answer (s : Store) (r : Request) (c : Command) : Except Failure Reply × Store :=
  if !c.cls.isKind r.commandClass then (.error (Refusal.wrongClass r c.cls).toFailure, s)
  else match c.missing? with
    | some p => (.error (absent p), s)
    | none =>
      match r with
      | .unknown name => (.error (Refusal.unknownCommand name).toFailure, s)
      | .known op =>
        match Action.of? op c with
        | none => (.error (Refusal.unknownCommand op.name).toFailure, s)
        | some a => s.act a

/-- One call: it is noted, whatever comes of it, and answered. -/
def execute (s : Store) (r : Request) (c : Command) : Except Failure Reply × Store :=
  (s.record r c).answer r c

end SetPipeline.Store
