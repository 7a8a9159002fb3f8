import SetPipeline.Store.Call

/-! What an action can do to the store: it writes some sets under keys of its own and takes random numbers,
or it is refused and does nothing. The stores that calls, byte strings put by hand and clearing lead to hold
sets of byte strings that are not empty, and plain byte strings. -/
namespace SetPipeline
namespace Store

def putAll (s : Store) (ps : List (Bytes × MemberSet)) : Store := ps.foldl (fun t p => t.putSet p.1 p.2) s

def withRecorded (s : Store) (cs : List (Request × Command)) : Store := { s with recorded := cs }

/-- What an action leaves: a refused one the store as it is, any other one the store after some random
choices and with some sets put under the keys that it writes. -/
structure Effect (s : Store) (a : Action) (turn : Turn) : Prop where
  refused : ∀ r, turn.1 = .error r → turn.2 = s
  written : ∃ d ps, (∀ p ∈ ps, p.1 ∈ a.writes) ∧ turn.2 = { s with draws := d }.putAll ps

theorem Effect.unchanged {s : Store} {a : Action} (x : Except Refusal Reply) : Effect s a (x, s) :=
  ⟨fun _ _ => rfl, s.draws, [], by simp, rfl⟩

theorem Effect.drawn {s : Store} {a : Action} (x : Reply) (d : Draws) :
    Effect s a (.ok x, { s with draws := d }) :=
  ⟨by simp, d, [], by simp, rfl⟩

theorem Effect.put {s : Store} {a : Action} (x : Reply) (d : Draws) (ps : List (Bytes × MemberSet))
    (h : ∀ p ∈ ps, p.1 ∈ a.writes) : Effect s a (.ok x, { s with draws := d }.putAll ps) :=
  ⟨by simp, d, ps, h, rfl⟩

theorem Effect.reading {s : Store} {a : Action} {k : Bytes} {next : MemberSet → Turn}
    (h : ∀ m, Effect s a (next m)) : Effect s a (s.reading k next) := by
  unfold Store.reading
  split
  · exact h _
  · exact .unchanged _

theorem perform_effect (s : Store) (a : Action) : Effect s a (s.perform a) := by
  cases a with
  | add k vs =>
    simp only [perform, addTo]
    split
    · exact .unchanged _
    · exact .reading fun m => .put _ s.draws [(k, m.insertAll vs)] (by simp [Action.writes])
  | remove k vs =>
    simp only [perform, removeFrom]
    split
    · exact .unchanged _
    · exact .reading fun m => .put _ s.draws [(k, m.eraseAll vs)] (by simp [Action.writes])
  | pop k =>
    simp only [perform, popFrom]
    refine .reading fun m => ?_
    split
    · exact .unchanged _
    · exact .put _ _ [(k, m.erase _)] (by simp [Action.writes])
  | move a b v =>
    simp only [perform, moveBetween]
    refine .reading fun m => .reading fun n => ?_
    split
    · exact .unchanged _
    · split
      · exact .unchanged _
      · exact .put _ s.draws [(a, m.erase v), (b, n.insert v)] (by simp [Action.writes])
  | card k => exact .unchanged _
  | isMember k v => exact .unchanged _
  | combine how ks => exact .unchanged _
  | combineStore how ks d =>
    simp only [perform, combineTo]
    split
    · next m _ => exact .put _ s.draws [(d, m)] (by simp [Action.writes])
    · exact .unchanged _
  | members k => exact .unchanged _
  | randomMembers k n =>
    simp only [perform, randomFrom]
    refine .reading fun m => ?_
    split
    · exact .unchanged _
    · exact .drawn _ _

theorem perform_withRecorded (s : Store) (cs : List (Request × Command)) (a : Action) :
    (s.withRecorded cs).perform a = ((s.perform a).1, (s.perform a).2.withRecorded cs) := by
  have reading (k : Bytes) (next next' : MemberSet → Turn)
      (h : ∀ m, next' m = ((next m).1, (next m).2.withRecorded cs)) :
      (s.withRecorded cs).reading k next' =
        ((s.reading k next).1, (s.reading k next).2.withRecorded cs) := by
    simp only [Store.reading, show (s.withRecorded cs).setAt k = s.setAt k from rfl]
    split
    · exact h _
    · rfl
  cases a with
  | add k vs =>
    simp only [perform, addTo]
    split
    · rfl
    · exact reading _ _ _ fun m => rfl
  | remove k vs =>
    simp only [perform, removeFrom]
    split
    · rfl
    · exact reading _ _ _ fun m => rfl
  | pop k => exact reading _ _ _ fun m => by cases m.toList <;> rfl
  | move a b v =>
    refine reading _ _ _ fun m => reading _ _ _ fun n => ?_
    split
    · rfl
    · split <;> rfl
  | card k => rfl
  | isMember k v => rfl
  | combine how ks => rfl
  | combineStore how ks d =>
    simp only [perform, combineTo,
      show (s.withRecorded cs).combined (.combineStore how) how ks = s.combined (.combineStore how) how ks from rfl]
    split <;> rfl
  | members k => rfl
  | randomMembers k n => exact reading _ _ _ fun m => by cases m.toList <;> rfl

end Store

/-- A set of byte strings that is not empty, or a plain byte string. -/
inductive Entry.Proper : Entry → Prop where
  | set {m : MemberSet} : m ≠ ∅ → Proper (.set m)
  | plain (v : Bytes) : Proper (.plain (.bytes v))

namespace Store

def Proper (s : Store) : Prop := ∀ k e, s.data.get? k = some e → e.Proper

theorem Proper.putSet {s : Store} (hs : s.Proper) (k : Bytes) (m : MemberSet) : (s.putSet k m).Proper := by
  intro j e he
  rw [get?_putSet] at he
  split at he
  · split at he
    · cases he
    · next hm =>
      cases he
      exact .set fun h => hm (MemberSet.isEmpty_iff.2 h)
  · exact hs j e he

theorem Proper.putAll {s : Store} (hs : s.Proper) (ps : List (Bytes × MemberSet)) : (s.putAll ps).Proper := by
  induction ps generalizing s with
  | nil => exact hs
  | cons p ps ih => exact ih (hs.putSet p.1 p.2)

theorem Proper.perform {s : Store} (hs : s.Proper) (a : Action) : (s.perform a).2.Proper := by
  obtain ⟨d, ps, -, h⟩ := (perform_effect s a).written
  rw [h]
  exact Proper.putAll (s := { s with draws := d }) hs ps

/-- No action on a proper store meets members of other kinds. -/
theorem Proper.act_eq {s : Store} (hs : s.Proper) (a : Action) :
    s.act a = ((s.perform a).1.mapError Refusal.toFailure, (s.perform a).2) := by
  have h : s.readsMixed a = false := by
    refine List.any_eq_false.2 fun k _ => ?_
    cases he : s.data.get? k with
    | none => simp
    | some e => cases hs k e he <;> simp [Entry.isMixed]
  simp [act, h]

theorem Proper.answer {s : Store} (hs : s.Proper) (r : Request) (c : Command) : (s.answer r c).2.Proper := by
  unfold Store.answer
  split
  · exact hs
  · split
    · exact hs
    · split
      · exact hs
      · split
        · exact hs
        · rw [hs.act_eq]
          exact hs.perform _

theorem Proper.answer_withRecorded {s : Store} (hs : s.Proper) (cs : List (Request × Command)) (r : Request)
    (c : Command) :
    (s.withRecorded cs).answer r c = ((s.answer r c).1, (s.answer r c).2.withRecorded cs) := by
  unfold Store.answer
  split
  · rfl
  · split
    · rfl
    · split
      · rfl
      · split
        · rfl
        · next a _ =>
          have hs' : (s.withRecorded cs).Proper := hs
          rw [hs'.act_eq, hs.act_eq, perform_withRecorded]

theorem Proper.execute_eq {s : Store} (hs : s.Proper) (r : Request) (c : Command) :
    s.execute r c = ((s.answer r c).1, (s.answer r c).2.withRecorded (s.recorded ++ [(r, c)])) :=
  hs.answer_withRecorded _ r c

theorem Proper.execute {s : Store} (hs : s.Proper) (r : Request) (c : Command) : (s.execute r c).2.Proper := by
  rw [hs.execute_eq]
  exact hs.answer r c

def executeAll (s : Store) (calls : List (Request × Command)) : Store :=
  calls.foldl (fun t p => (t.execute p.1 p.2).2) s

theorem Proper.executeAll {s : Store} (hs : s.Proper) (calls : List (Request × Command)) :
    (s.executeAll calls).Proper := by
  induction calls generalizing s with
  | nil => exact hs
  | cons p calls ih => exact ih (hs.execute p.1 p.2)

theorem Proper.recorded_execute {s : Store} (hs : s.Proper) (r : Request) (c : Command) :
    (s.execute r c).2.recorded = s.recorded ++ [(r, c)] := by
  rw [hs.execute_eq]
  rfl

theorem Proper.assign {s t : Store} {key : Datum} {v : Bytes} (hs : s.Proper)
    (h : s.assign key (.bytes v) = .ok t) : t.Proper := by
  unfold Store.assign at h
  split at h
  · cases h
  · split at h
    · next k _ =>
      cases h
      intro j e he
      rw [Keyspace.get?_put] at he
      split at he
      · cases he
        exact .plain v
      · exact hs j e he
    · cases h
      exact hs

/-- The stores that calls, byte strings put by hand and clearing lead to. -/
inductive Reachable : Store → Prop where
  | empty (d : Draws) : Reachable (.empty d)
  | execute {s : Store} (r : Request) (c : Command) : Reachable s → Reachable (s.execute r c).2
  | assign {s t : Store} {key : Datum} {v : Bytes} :
    Reachable s → s.assign key (.bytes v) = .ok t → Reachable t
  | clear {s : Store} : Reachable s → Reachable s.clear

theorem Reachable.proper {s : Store} (h : Reachable s) : s.Proper := by
  induction h with
  | empty d =>
    intro k e he
    cases he
  | execute r c _ ih => exact ih.execute r c
  | assign _ h ih => exact ih.assign h
  | clear =>
    intro k e he
    cases he

end Store
end SetPipeline
