import SetPipeline.Proofs.Store.Algebra

/-! Combinations stored under a key. Storing fails just like reading the same combination, and otherwise leaves what
reading gives, whatever was under the destination; the sets are read before anything is written, so the destination
may be one of the keys. A combination can be stored in stages: the result for some of its keys stands for them. -/
namespace SetPipeline

theorem Command.means_combineStore (how : Combination) (ks : List Bytes) (d : Bytes) :
    (combineStore how ks (some d)).Means (.combineStore how) (.combineStore how ks d) :=
  ⟨by simp [cls, Operation.commandClass], by simp [Lacks, required], by simp [Action.of?]⟩

/-- A key holds a set with just these members, or nothing if there are none. -/
inductive Keyspace.HoldsJust (d : Keyspace) (k : Bytes) : List Bytes → Prop where
  | absent : d.get? k = none → HoldsJust d k []
  | set {m : MemberSet} {bs : List Bytes} : bs ≠ [] → d.get? k = some (.set m) → (∀ v, v ∈ m ↔ v ∈ bs) →
    HoldsJust d k bs

namespace Store

theorem holdsJust_putSet (s : Store) (k : Bytes) (m : MemberSet) : (s.putSet k m).data.HoldsJust k m.toList := by
  have hk : (s.putSet k m).data.get? k = if m.isEmpty then none else some (.set m) := by simp [get?_putSet]
  by_cases hm : m = ∅
  · subst hm
    exact .absent hk
  · have hempty : m.isEmpty = false := Bool.eq_false_iff.2 (mt MemberSet.isEmpty_iff.1 hm)
    rw [hempty] at hk
    exact .set (by simpa [MemberSet.isEmpty] using hempty) hk fun v => MemberSet.mem_def

/-- Of two sets put under one key the second stays. -/
theorem putSet_putSet_data (s : Store) (k : Bytes) (m n : MemberSet) :
    ((s.putSet k m).putSet k n).data = (s.putSet k n).data := by
  ext j
  rw [get?_putSet, get?_putSet, get?_putSet]
  by_cases hj : j = k <;> simp [hj]

def storing (s : Store) (how : Combination) (ks : List Bytes) (d : Bytes) : Except Failure Reply × Store :=
  s.execute (.known (.combineStore how)) (.combineStore how ks (some d))

variable {s : Store} {how : Combination} {ks ls : List Bytes} {d : Bytes} {m : MemberSet}

theorem combined_congr {op : Operation} (h : s.combined op how ks = .ok m) (op' : Operation) :
    s.combined op' how ks = .ok m := by
  cases ks with
  | nil => cases h
  | cons k ks => exact h

theorem combined_combineStore_error {r : Refusal} (h : s.combined (.combine how) how ks = .error r) :
    ∃ r', s.combined (.combineStore how) how ks = .error r' ∧ r'.toFailure = r.toFailure := by
  cases ks with
  | nil =>
    cases h
    exact ⟨_, rfl, rfl⟩
  | cons k ks => exact ⟨r, h, rfl⟩

theorem Proper.storing_of_ok (hs : s.Proper) {op : Operation} (h : s.combined op how ks = .ok m) (d : Bytes) :
    s.storing how ks d = (.ok (.count m.card),
      (s.putSet d m).withRecorded (s.recorded ++ [(.known (.combineStore how), .combineStore how ks (some d))])) := by
  have hperform : s.perform (.combineStore how ks d) = (.ok (.count m.card), s.putSet d m) := by
    simp [Store.perform, combineTo, combined_congr h (.combineStore how)]
  rw [storing, hs.execute_of_means (Command.means_combineStore how ks d), hperform]
  rfl

theorem Proper.storing_of_error (hs : s.Proper) {r : Refusal} (h : s.combined (.combine how) how ks = .error r)
    (d : Bytes) :
    s.storing how ks d = (.error r.toFailure,
      s.record (.known (.combineStore how)) (.combineStore how ks (some d))) := by
  obtain ⟨r', hr', htext⟩ := combined_combineStore_error h
  have hperform : s.perform (.combineStore how ks d) = (.error r', s) := by simp [Store.perform, combineTo, hr']
  rw [storing, hs.execute_of_means (Command.means_combineStore how ks d), hperform, ← htext]
  rfl

theorem Proper.storing_eq_ok (hs : s.Proper) {x : Reply} (h : (s.storing how ks d).1 = .ok x) :
    ∃ m, s.combined (.combine how) how ks = .ok m ∧ x = .count m.card := by
  cases hc : s.combined (.combine how) how ks with
  | ok m =>
    rw [hs.storing_of_ok hc] at h
    exact ⟨m, rfl, (Except.ok.inj h).symm⟩
  | error r =>
    rw [hs.storing_of_error hc] at h
    cases h

/-- Storing a combination against reading it. -/
structure StoresAsRead (s : Store) (how : Combination) (ks : List Bytes) (d : Bytes) : Prop where
  refused : ∀ f, (s.combining how ks).1 = .error f →
    s.storing how ks d = (.error f, s.record (.known (.combineStore how)) (.combineStore how ks (some d)))
  stored : ∀ x, (s.combining how ks).1 = .ok x → ∃ bs, x = .members bs ∧ bs.Nodup ∧
    (s.storing how ks d).1 = .ok (.count bs.length) ∧ (s.storing how ks d).2.data.HoldsJust d bs
  others : ∀ k, k ≠ d → (s.storing how ks d).2.data.get? k = s.data.get? k
  aside : (s.storing how ks d).2.aside = s.aside

theorem Proper.storesAsRead_of_ok (hs : s.Proper) (h : s.combined (.combine how) how ks = .ok m) (d : Bytes) :
    s.StoresAsRead how ks d := by
  have hread := hs.combining_of_ok h
  have hstore := hs.storing_of_ok h d
  refine ⟨fun f hf => ?_, fun x hx => ?_, fun k hk => ?_, ?_⟩
  · rw [hread] at hf
    cases hf
  · obtain rfl := Except.ok.inj (hread.symm.trans hx)
    rw [hstore]
    exact ⟨m.toList, rfl, m.nodup, rfl, holdsJust_putSet s d m⟩
  · rw [hstore]
    exact (get?_putSet s k d m).trans (if_neg hk)
  · rw [hstore]
    rfl

theorem Proper.storesAsRead_of_error (hs : s.Proper) {r : Refusal} (h : s.combined (.combine how) how ks = .error r)
    (d : Bytes) : s.StoresAsRead how ks d := by
  have hread := hs.combining_of_error h
  have hstore := hs.storing_of_error h d
  refine ⟨fun f hf => ?_, fun x hx => ?_, fun k _ => ?_, ?_⟩
  · obtain rfl := Except.error.inj (hread.symm.trans hf)
    exact hstore
  · rw [hread] at hx
    cases hx
  · rw [hstore]
    rfl
  · rw [hstore]
    rfl

/-- A combination that cannot be read is not stored, and one that can be read is stored as it is read. -/
theorem Reachable.storesAsRead (hs : s.Reachable) (how : Combination) (ks : List Bytes) (d : Bytes) :
    s.StoresAsRead how ks d := by
  cases hc : s.combined (.combine how) how ks with
  | ok m => exact hs.proper.storesAsRead_of_ok hc d
  | error r => exact hs.proper.storesAsRead_of_error hc d

theorem storesAsRead_lodged : lodged.Reachable ∧ lodged.StoresAsRead .diff [[107], [109]] [107] ∧
    (lodged.combining .diff [[107], [109]]).1 = .ok (.members [[97], [98]]) :=
  ⟨reachable_lodged, reachable_lodged.storesAsRead .diff [[107], [109]] [107], rfl⟩

@[simp] theorem setUnder_putSet_self (s : Store) (k : Bytes) (m : MemberSet) : (s.putSet k m).setUnder k = m :=
  setUnder_of_eq_ok (setAt_putSet_self s k m)

theorem setUnder_putSet_of_ne {j k : Bytes} (h : j ≠ k) : (s.putSet k m).setUnder j = s.setUnder j := by
  simp [setUnder, setAt_putSet_of_ne h]

/-- A combination is there just if all its keys hold sets, and then it is the combination of these. -/
theorem combined_eq_ok_iff {op : Operation} {k : Bytes} : s.combined op how (k :: ks) = .ok m ↔
    (∀ j ∈ k :: ks, s.setAt j = .ok (s.setUnder j)) ∧ (s.setUnder k).combine how (ks.map s.setUnder) = m := by
  refine ⟨fun h => ?_, fun ⟨hall, hm⟩ => hm ▸ combined_of_eq_ok op how hall⟩
  have hall : ∀ j ∈ k :: ks, s.setAt j = .ok (s.setUnder j) := by
    intro j hj
    obtain ⟨n, hn⟩ := combined_eq_ok h j hj
    rw [hn, setUnder_of_eq_ok hn]
  exact ⟨hall, Except.ok.inj ((combined_of_eq_ok op how hall).symm.trans h)⟩

/-- A combination can be taken of some keys first, its result put anywhere but under one of the other keys, and then
combined with these. -/
theorem combined_putSet {op : Operation} (hks : ks ≠ []) (hd : d ∉ ls) (h : s.combined op how (ks ++ ls) = .ok m) :
    ∃ n, s.combined op how ks = .ok n ∧ (s.putSet d n).combined op how (d :: ls) = .ok m := by
  cases ks with
  | nil => exact absurd rfl hks
  | cons k ks =>
    have hcombined : s.combined op how (k :: (ks ++ ls)) = .ok m := h
    obtain ⟨hall, rfl⟩ := combined_eq_ok_iff.1 hcombined
    have hfront : ∀ j ∈ k :: ks, s.setAt j = .ok (s.setUnder j) := fun j hj => hall j (List.mem_append_left ls hj)
    have hrest : ∀ j ∈ ls, s.setAt j = .ok (s.setUnder j) := fun j hj => hall j (List.mem_append_right (k :: ks) hj)
    have hne : ∀ j ∈ ls, j ≠ d := fun j hj he => hd (he ▸ hj)
    refine ⟨_, combined_of_eq_ok op how hfront, combined_eq_ok_iff.2 ⟨List.forall_mem_cons.2 ⟨?_, fun j hj => ?_⟩, ?_⟩⟩
    · rw [setAt_putSet_self, setUnder_putSet_self]
    · rw [setAt_putSet_of_ne (hne j hj), setUnder_putSet_of_ne (hne j hj), hrest j hj]
    · rw [setUnder_putSet_self, List.map_congr_left fun j hj => setUnder_putSet_of_ne (hne j hj), List.map_append,
        MemberSet.combine_append]

/-- Storing in two stages: both succeed, and the second one gives and leaves what storing at once does. -/
theorem Reachable.storing_staged (hs : s.Reachable) (hks : ks ≠ []) (hd : d ∉ ls) {x : Reply}
    (h : (s.storing how (ks ++ ls) d).1 = .ok x) :
    (∃ n, (s.storing how ks d).1 = .ok (.count n)) ∧
      ((s.storing how ks d).2.storing how (d :: ls) d).1 = .ok x ∧
      ((s.storing how ks d).2.storing how (d :: ls) d).2.data = (s.storing how (ks ++ ls) d).2.data ∧
      ((s.storing how ks d).2.storing how (d :: ls) d).2.aside = (s.storing how (ks ++ ls) d).2.aside := by
  obtain ⟨m, hm, rfl⟩ := hs.proper.storing_eq_ok h
  obtain ⟨n, hn, hm'⟩ := combined_putSet hks hd hm
  have hfirst := hs.proper.storing_of_ok hn d
  have hproper : (s.storing how ks d).2.Proper := hs.proper.execute _ _
  have hback : (s.storing how ks d).2.combined (.combine how) how (d :: ls) = .ok m := by
    rw [hfirst]
    exact hm'
  have hsecond := hproper.storing_of_ok hback d
  have honce := hs.proper.storing_of_ok hm d
  refine ⟨⟨n.card, by rw [hfirst]⟩, by rw [hsecond], ?_, ?_⟩
  · rw [hsecond, honce, hfirst]
    exact putSet_putSet_data s d n m
  · rw [hsecond, honce, hfirst]
    rfl

theorem storing_staged_lodged : lodged.Reachable ∧ [[107], [107]] ≠ ([] : List Bytes) ∧ [112] ∉ [[107], [109]] ∧
    (lodged.storing .diff ([[107], [107]] ++ [[107], [109]]) [112]).1 = .ok (.count 0) ∧
    ((lodged.storing .diff [[107], [107]] [112]).2.storing .diff [[112], [107], [109]] [112]).1 = .ok (.count 0) ∧
    ((lodged.storing .diff [[107], [107]] [112]).2.storing .diff [[112], [107], [109]] [112]).2.data =
      (lodged.storing .diff ([[107], [107]] ++ [[107], [109]]) [112]).2.data := by
  have honce : (lodged.storing .diff ([[107], [107]] ++ [[107], [109]]) [112]).1 = .ok (.count 0) := rfl
  obtain ⟨-, hcount, hdata, -⟩ := reachable_lodged.storing_staged (by decide) (by decide) honce
  exact ⟨reachable_lodged, by decide, by decide, honce, hcount, hdata⟩

end Store
end SetPipeline
