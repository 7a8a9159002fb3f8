import SetPipeline.Proofs.Store.Unchanged

/-! What every store holds that calls, byte strings put under byte strings and clearing lead to: no empty
sets, nothing under other keys, and plain values that a call replaces only by storing a result over them. An
action that succeeds has read every key that it reads as a set, so whatever it writes without reading is the
destination of a stored combination. -/
namespace SetPipeline

/-- A key that is written is read as well, except for the destination of a stored combination. -/
theorem Action.mem_writes {a : Action} {k : Bytes} (h : k ∈ a.writes) :
    k ∈ a.reads ∨ ∃ how ks, a = .combineStore how ks k := by
  cases a with
  | combineStore how ks d =>
    obtain rfl : k = d := by simpa [writes] using h
    exact .inr ⟨how, ks, rfl⟩
  | add | remove | pop | move => exact .inl h
  | card | isMember | combine | members | randomMembers => cases h

theorem Action.of?_eq_combineStore {op : Operation} {c : Command} {how : Combination} {ks : List Bytes}
    {d : Bytes} (h : of? op c = some (.combineStore how ks d)) :
    op = .combineStore how ∧ c = .combineStore how ks (some d) := by
  obtain rfl : .combineStore how = op := Action.operation_of h
  cases c with
  | combineStore how' ks' d' =>
    simp only [of?] at h
    split at h
    · next hhow =>
      obtain ⟨d'', rfl, hd⟩ := Option.map_eq_some_iff.1 h
      cases hd
      subst hhow
      exact ⟨rfl, rfl⟩
    · cases h
  | _ => cases h

namespace Store

theorem get?_putAll_of_notMem {s : Store} {k : Bytes} {ps : List (Bytes × MemberSet)}
    (h : ∀ p ∈ ps, p.1 ≠ k) : (s.putAll ps).data.get? k = s.data.get? k := by
  induction ps generalizing s with
  | nil => rfl
  | cons p ps ih =>
    obtain ⟨hp, hps⟩ := List.forall_mem_cons.1 h
    show ((s.putSet p.1 p.2).putAll ps).data.get? k = s.data.get? k
    rw [ih hps, get?_putSet, if_neg hp.symm]

@[simp] theorem putAll_aside (s : Store) (ps : List (Bytes × MemberSet)) : (s.putAll ps).aside = s.aside := by
  induction ps generalizing s with
  | nil => rfl
  | cons p ps ih => exact ih (s.putSet p.1 p.2)

theorem perform_aside (s : Store) (a : Action) : (s.perform a).2.aside = s.aside := by
  obtain ⟨d, ps, -, h⟩ := (perform_effect s a).written
  rw [h, putAll_aside]

/-- A key that an action does not write keeps what it holds. -/
theorem get?_perform_of_notMem {s : Store} {a : Action} {k : Bytes} (hk : k ∉ a.writes) :
    (s.perform a).2.data.get? k = s.data.get? k := by
  obtain ⟨d, ps, hps, h⟩ := (perform_effect s a).written
  rw [h, get?_putAll_of_notMem]
  rintro p hp rfl
  exact hk (hps p hp)

theorem reading_of_ok {s : Store} {k : Bytes} {m : MemberSet} (h : s.setAt k = .ok m) (next : MemberSet → Turn) :
    s.reading k next = next m := by
  simp [reading, h]

theorem reading_eq_ok {s : Store} {k : Bytes} {next : MemberSet → Turn} {x : Reply}
    (h : (s.reading k next).1 = .ok x) : ∃ m, s.setAt k = .ok m ∧ (next m).1 = .ok x := by
  unfold reading at h
  split at h
  · next m hm => exact ⟨m, hm, h⟩
  · cases h

theorem combined_eq_ok {s : Store} {op : Operation} {how : Combination} {ks : List Bytes} {m : MemberSet}
    (h : s.combined op how ks = .ok m) : ∀ k ∈ ks, ∃ n, s.setAt k = .ok n := by
  obtain ⟨p, hp, -⟩ := Except.map_eq_ok.1 h
  cases ks with
  | nil => cases hp
  | cons k ks =>
    obtain ⟨n, hn, hp⟩ := Except.bind_eq_ok.1 hp
    obtain ⟨ns, hns, -⟩ := Except.bind_eq_ok.1 hp
    exact List.forall_mem_cons.2 ⟨⟨n, hn⟩, Except.mapM_eq_ok hns⟩

theorem setAt_of_perform_eq_ok {s : Store} {a : Action} {x : Reply} (h : (s.perform a).1 = .ok x) :
    ∀ k ∈ a.reads, ∃ m, s.setAt k = .ok m := by
  have single {k : Bytes} (hk : ∃ m, s.setAt k = .ok m) : ∀ j ∈ [k], ∃ m, s.setAt j = .ok m := by
    simpa using hk
  cases a with
  | add k vs =>
    simp only [perform, addTo] at h
    split at h
    · cases h
    · exact single ((reading_eq_ok h).imp fun _ => And.left)
  | remove k vs =>
    simp only [perform, removeFrom] at h
    split at h
    · cases h
    · exact single ((reading_eq_ok h).imp fun _ => And.left)
  | pop k => exact single ((reading_eq_ok h).imp fun _ => And.left)
  | move j k v =>
    obtain ⟨m, hm, h⟩ := reading_eq_ok h
    obtain ⟨n, hn, -⟩ := reading_eq_ok h
    exact List.forall_mem_cons.2 ⟨⟨m, hm⟩, single ⟨n, hn⟩⟩
  | card k => exact single ((Except.map_eq_ok.1 h).imp fun _ => And.left)
  | isMember k v => exact single ((Except.map_eq_ok.1 h).imp fun _ => And.left)
  | combine how ks =>
    obtain ⟨m, hm, -⟩ := Except.map_eq_ok.1 h
    exact combined_eq_ok hm
  | combineStore how ks d =>
    simp only [perform, combineTo] at h
    split at h
    · next hm => exact combined_eq_ok hm
    · cases h
  | members k => exact single ((Except.map_eq_ok.1 h).imp fun _ => And.left)
  | randomMembers k n => exact single ((reading_eq_ok h).imp fun _ => And.left)

theorem setAt_of_plain {s : Store} {k v : Bytes} (h : s.data.get? k = some (.plain (.bytes v))) :
    s.setAt k = .error .wrongType := by
  simp [setAt, entrySet, h]

/-- An action leaves a plain value as it is, or succeeds in storing a combination over it. -/
theorem perform_plain {s : Store} {k v : Bytes} (hk : s.data.get? k = some (.plain (.bytes v))) (a : Action) :
    (s.perform a).2.data.get? k = s.data.get? k ∨
      ∃ how ks n, a = .combineStore how ks k ∧ (s.perform a).1 = .ok (.count n) := by
  cases hx : (s.perform a).1 with
  | error r =>
    rw [(perform_effect s a).refused r hx]
    exact .inl rfl
  | ok x =>
    by_cases hw : k ∈ a.writes
    · rcases Action.mem_writes hw with hr | ⟨how, ks, rfl⟩
      · obtain ⟨m, hm⟩ := setAt_of_perform_eq_ok hx k hr
        rw [setAt_of_plain hk] at hm
        cases hm
      · have hkind := perform_answers s (.combineStore how ks k)
        rw [hx] at hkind
        cases hkind with
        | count n => exact .inr ⟨how, ks, n, rfl, rfl⟩
    · exact .inl (get?_perform_of_notMem hw)

theorem Answered.aside {s : Store} {r : Request} {c : Command} {turn : Except Failure Reply × Store}
    (h : Answered s r c turn) : turn.2.aside = s.aside := by
  cases h with
  | turnedDown => rfl
  | performed => exact perform_aside s _

theorem Answered.plain {s : Store} {r : Request} {c : Command} {turn : Except Failure Reply × Store}
    {k v : Bytes} (h : Answered s r c turn) (hk : s.data.get? k = some (.plain (.bytes v))) :
    turn.2.data.get? k = s.data.get? k ∨
      ∃ how ks n, r = .known (.combineStore how) ∧ c = .combineStore how ks (some k) ∧
        turn.1 = .ok (.count n) := by
  cases h with
  | turnedDown => exact .inl rfl
  | @performed op a hr ha =>
    rcases perform_plain hk a with hkept | ⟨how, ks, n, rfl, hn⟩
    · exact .inl hkept
    · obtain ⟨rfl, rfl⟩ := Action.of?_eq_combineStore ha
      exact .inr ⟨how, ks, n, hr, rfl, by rw [hn]; rfl⟩

/-- The number of members under a key is nought just where the key is absent. -/
theorem Proper.perform_card {s : Store} (hs : s.Proper) (k : Bytes) :
    (s.perform (.card k)).1 = .ok (.count 0) ↔ s.data.get? k = none := by
  show (s.setAt k).map (fun m => Reply.count m.card) = .ok (.count 0) ↔ _
  cases he : s.data.get? k with
  | none => simp [setAt, entrySet, he, Except.map, MemberSet.card_eq_zero]
  | some e =>
    cases hs k e he with
    | plain v => simp [setAt_of_plain he, Except.map]
    | @set m hm =>
      have hcard : m.card ≠ 0 := fun h => hm (MemberSet.card_eq_zero.1 h)
      simp [setAt, entrySet, he, Except.map, hcard]

/-- Something done to a store from outside, with byte strings for keys and plain values. -/
inductive Deed where
  | execute (r : Request) (c : Command)
  | assign (key value : Bytes)
  | clear

def follow (s : Store) : Deed → Except Failure Store
  | .execute r c => .ok (s.execute r c).2
  | .assign k v => s.assign (.bytes k) (.bytes v)
  | .clear => .ok s.clear

/-- What deeds keep: sets are not empty and plain values are byte strings, and all of it lies under byte
strings. -/
structure Tidy (s : Store) : Prop where
  proper : s.Proper
  aside : s.aside = []

theorem Tidy.execute {s : Store} (hs : s.Tidy) (r : Request) (c : Command) : (s.execute r c).2.Tidy := by
  refine ⟨hs.proper.execute r c, ?_⟩
  rw [hs.proper.execute_eq]
  exact (hs.proper.answered r c).aside.trans hs.aside

theorem Tidy.follow {s : Store} (hs : s.Tidy) (deed : Deed) : ∃ t, s.follow deed = .ok t ∧ t.Tidy := by
  cases deed with
  | execute r c => exact ⟨_, rfl, hs.execute r c⟩
  | assign k v => exact ⟨_, rfl, hs.proper.assign (rfl : s.assign (.bytes k) _ = _), hs.aside⟩
  | clear => exact ⟨_, rfl, fun k e he => (by cases he), rfl⟩

theorem Tidy.followAll {s : Store} (hs : s.Tidy) (deeds : List Deed) :
    ∃ t, deeds.foldlM Store.follow s = .ok t ∧ t.Tidy := by
  induction deeds generalizing s with
  | nil => exact ⟨s, rfl, hs⟩
  | cons deed deeds ih =>
    obtain ⟨t, ht, htidy⟩ := hs.follow deed
    rw [List.foldlM_cons, ht]
    exact ih htidy

theorem tidy_empty (d : Draws) : (empty d).Tidy := ⟨(Reachable.empty d).proper, rfl⟩

/-- How entries represent sets and plain values. -/
structure Represented (s : Store) : Prop where
  entries : ∀ k e, s.data.get? k = some e → (∃ m, m ≠ ∅ ∧ e = .set m) ∨ ∃ v, e = .plain (.bytes v)
  /-- Only byte strings are keys, so nothing lies under none. -/
  keys : ∀ d e, s.entryAt d = some e → ∃ k, d = .bytes k
  plain : ∀ k v r c, s.data.get? k = some (.plain v) →
    (s.execute r c).2.data.get? k = some (.plain v) ∨
      ∃ how ks n, r = .known (.combineStore how) ∧ c = .combineStore how ks (some k) ∧
        (s.execute r c).1 = .ok (.count n)
  card : ∀ k c, Operation.unfit? .card c = none → c.mainKey? = some k →
    ((s.execute (.known .card) c).1 = .ok (.count 0) ↔ s.data.get? k = none)

theorem Tidy.represented {s : Store} (hs : s.Tidy) : s.Represented where
  entries k e hk := by
    cases hs.proper k e hk with
    | set hm => exact .inl ⟨_, hm, rfl⟩
    | plain v => exact .inr ⟨v, rfl⟩
  keys d e hd := by
    cases d with
    | bytes k => exact ⟨k, rfl⟩
    | _ => simp [entryAt, hs.aside] at hd
  plain k v r c hk := by
    cases hs.proper k _ hk with
    | plain v =>
      rw [← hk, hs.proper.execute_eq]
      exact (hs.proper.answered r c).plain hk
  card k c hfits hc := by
    have ha : Action.of? .card c = some (.card k) := by simp [Action.of?, hc]
    rw [hs.proper.execute_of_fits hfits ha, ← hs.proper.perform_card]
    exact Except.mapError_eq_ok

/-- Whatever is done to an empty store goes through, and what it leaves represents sets and plain values. -/
theorem followAll_represented (d : Draws) (deeds : List Deed) :
    ∃ s, deeds.foldlM follow (empty d) = .ok s ∧ s.Represented := by
  obtain ⟨s, hs, htidy⟩ := (tidy_empty d).followAll deeds
  exact ⟨s, hs, htidy.represented⟩

end Store
end SetPipeline
