import SetPipeline.Proofs.Store.Gate

/-! What a call leaves alone. A call that fails is noted and changes nothing else, wherever it fails: at its
class, at its completeness, at a key it reads. A call that only reads changes nothing either, apart from the
random numbers that it takes. -/
namespace SetPipeline

def Operation.isRead : Operation → Bool
  | card | isMember | combine _ | members | randomMembers => true
  | add | remove | pop | move | combineStore _ => false

theorem Action.writes_of_isRead {a : Action} (h : a.operation.isRead) : a.writes = [] := by
  cases a with
  | card | isMember | combine | members | randomMembers => rfl
  | add | remove | pop | move | combineStore => cases h

namespace Store

/-- How a call on a store of byte strings is answered: it is turned down before its operation begins, or it
has an action, and the action is performed. -/
inductive Answered (s : Store) (r : Request) (c : Command) : Except Failure Reply × Store → Prop where
  | turnedDown (f : Failure) : Answered s r c (.error f, s)
  | performed {op : Operation} {a : Action} : r = .known op → Action.of? op c = some a →
    Answered s r c ((s.perform a).1.mapError Refusal.toFailure, (s.perform a).2)

theorem Proper.answered {s : Store} (hs : s.Proper) (r : Request) (c : Command) :
    Answered s r c (s.answer r c) := by
  unfold Store.answer
  split
  · exact .turnedDown _
  · split
    · exact .turnedDown _
    · split
      · exact .turnedDown _
      · split
        · exact .turnedDown _
        · next ha =>
          rw [hs.act_eq]
          exact .performed rfl ha

theorem Answered.of_error {s : Store} {r : Request} {c : Command} {turn : Except Failure Reply × Store}
    {f : Failure} (h : Answered s r c turn) (hf : turn.1 = .error f) : turn.2 = s := by
  cases h with
  | turnedDown => rfl
  | @performed op a =>
    cases hx : (s.perform a).1 with
    | ok x =>
      rw [hx] at hf
      cases hf
    | error refusal => exact (perform_effect s a).refused refusal hx

theorem Answered.of_isRead {s : Store} {op : Operation} {c : Command} {turn : Except Failure Reply × Store}
    (h : Answered s (.known op) c turn) (hop : op.isRead) : ∃ d, turn.2 = { s with draws := d } := by
  cases h with
  | turnedDown => exact ⟨s.draws, rfl⟩
  | @performed op' a hr ha =>
    obtain rfl := Request.known.inj hr
    have hwrites : a.writes = [] := Action.writes_of_isRead (Action.operation_of ha ▸ hop)
    obtain ⟨d, ps, hps, ht⟩ := (perform_effect s a).written
    have hnone : ps = [] := List.eq_nil_iff_forall_not_mem.2 fun p hp => by
      have := hps p hp
      rw [hwrites] at this
      cases this
    exact ⟨d, by rw [ht, hnone]; rfl⟩

/-- A call that fails is noted and changes nothing else. One that reads changes at most the source of random
choices besides, also when it succeeds. -/
theorem Reachable.execute_unchanged {s : Store} (hs : s.Reachable) (r : Request) (c : Command) :
    (∀ f, (s.execute r c).1 = .error f → (s.execute r c).2 = { s with recorded := s.recorded ++ [(r, c)] }) ∧
      ∀ op, r = .known op → op.isRead →
        ∃ d, (s.execute r c).2 = { s with recorded := s.recorded ++ [(r, c)], draws := d } := by
  have hanswered := hs.proper.answered r c
  rw [hs.proper.execute_eq]
  refine ⟨fun f hf => ?_, ?_⟩
  · rw [hanswered.of_error hf]
    rfl
  · rintro op rfl hop
    obtain ⟨d, hd⟩ := hanswered.of_isRead hop
    exact ⟨d, by rw [hd]; rfl⟩

/-- A set with two members under one key, then a plain value under another. -/
def lodged : Store :=
  let s := ((empty ⟨[], 0⟩).execute (.known .add) (.add (some [107]) [[97], [98]])).2
  { s with data := s.data.put [112] (.plain (.bytes [118])) }

theorem reachable_lodged : lodged.Reachable := by
  have hplaced : ((empty ⟨[], 0⟩).execute (.known .add) (.add (some [107]) [[97], [98]])).2.assign
      (.bytes [112]) (.bytes [118]) = .ok lodged := rfl
  exact .assign (.execute _ _ (.empty _)) hplaced

theorem execute_unchanged_lodged : lodged.Reachable ∧
    ∃ f, (lodged.execute (.known .move) (.move (some [107]) (some [112]) [97])).1 = .error f ∧
      (lodged.execute (.known .move) (.move (some [107]) (some [112]) [97])).2 =
        { lodged with recorded := lodged.recorded ++ [(.known .move, .move (some [107]) (some [112]) [97])] } := by
  have hfails : (lodged.execute (.known .move) (.move (some [107]) (some [112]) [97])).1 =
      .error Refusal.wrongType.toFailure := rfl
  exact ⟨reachable_lodged, _, hfails, (reachable_lodged.execute_unchanged _ _).1 _ hfails⟩

end Store
end SetPipeline
