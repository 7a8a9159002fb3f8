import SetPipeline.Proofs.Store.Faults

/-! Set algebra told by membership. What a combination of several keys gives, and what the members and the number of
members of one key are, all agree with asking for single values. Hence a combination depends on its keys only as far
as they tell: not on their order and repetition, apart from the first key of a difference. -/
namespace SetPipeline

namespace MemberSet

variable {b : Bytes} {m : MemberSet} {ms : List MemberSet}

theorem mem_foldl_inter : b ∈ ms.foldl inter m ↔ b ∈ m ∧ ∀ n ∈ ms, b ∈ n := by
  induction ms generalizing m with
  | nil => simp
  | cons n ms ih => simp [ih, and_assoc]

theorem mem_foldl_union : b ∈ ms.foldl union m ↔ b ∈ m ∨ ∃ n ∈ ms, b ∈ n := by
  induction ms generalizing m with
  | nil => simp
  | cons n ms ih => simp [ih, or_assoc]

theorem mem_foldl_diff : b ∈ ms.foldl diff m ↔ b ∈ m ∧ ∀ n ∈ ms, b ∉ n := by
  induction ms generalizing m with
  | nil => simp
  | cons n ms ih => simp [ih, and_assoc]

end MemberSet

namespace Combination

/-- Whether a combination of keys selects a value, given the keys that hold it. -/
def Selects (how : Combination) (holds : Bytes → Prop) (k : Bytes) (ks : List Bytes) : Prop :=
  match how with
  | inter => ∀ j ∈ k :: ks, holds j
  | union => ∃ j ∈ k :: ks, holds j
  | diff => holds k ∧ ∀ j ∈ ks, ¬holds j

/-- The same keys, in any order and any number of times. The first key of a difference stays the first. -/
def Alike (how : Combination) (k : Bytes) (ks : List Bytes) (j : Bytes) (js : List Bytes) : Prop :=
  match how with
  | inter | union => ∀ i, i ∈ k :: ks ↔ i ∈ j :: js
  | diff => k = j ∧ ∀ i, i ∈ ks ↔ i ∈ js

variable {how : Combination} {holds holds' : Bytes → Prop} {k j : Bytes} {ks js : List Bytes}

theorem Alike.mem_iff (h : how.Alike k ks j js) (i : Bytes) : i ∈ k :: ks ↔ i ∈ j :: js := by
  cases how with
  | inter | union => exact h i
  | diff => rw [List.mem_cons, List.mem_cons, h.1, h.2 i]

theorem Alike.selects_iff (h : how.Alike k ks j js) : how.Selects holds k ks ↔ how.Selects holds j js := by
  cases how with
  | inter => exact forall_congr' fun i => imp_congr_left (h i)
  | union => exact exists_congr fun i => and_congr_left fun _ => h i
  | diff =>
    obtain ⟨rfl, hmem⟩ := h
    exact and_congr_right fun _ => forall_congr' fun i => imp_congr_left (hmem i)

theorem selects_congr (h : ∀ i ∈ k :: ks, holds i ↔ holds' i) : how.Selects holds k ks ↔ how.Selects holds' k ks := by
  obtain ⟨hk, hks⟩ := List.forall_mem_cons.1 h
  cases how with
  | inter => exact forall_congr' fun i => forall_congr' (h i)
  | union => exact exists_congr fun i => and_congr_right (h i)
  | diff => exact and_congr hk (forall_congr' fun i => forall_congr' fun hi => not_congr (hks i hi))

theorem not_selects_diff (h : k ∈ ks) : ¬diff.Selects holds k ks := fun ⟨hk, hks⟩ => hks k h hk

end Combination

theorem MemberSet.mem_combine_map {how : Combination} {f : Bytes → MemberSet} {b k : Bytes} {ks : List Bytes} :
    b ∈ (f k).combine how (ks.map f) ↔ how.Selects (b ∈ f ·) k ks := by
  cases how with
  | inter => simp [combine, mem_foldl_inter, Combination.Selects]
  | union =>
    simp only [combine, mem_foldl_union, Combination.Selects, List.mem_cons, List.mem_map]
    grind
  | diff => simp [combine, mem_foldl_diff, Combination.Selects]

namespace Command

theorem means_isMember (k v : Bytes) : (isMember (some k) v).Means .isMember (.isMember k v) :=
  ⟨rfl, by simp [Lacks, required], rfl⟩

theorem means_combine (how : Combination) (ks : List Bytes) :
    (combine how ks).Means (.combine how) (.combine how ks) :=
  ⟨by simp [cls, Operation.commandClass], by simp [Lacks, required], by simp [Action.of?]⟩

end Command

namespace Store

def combining (s : Store) (how : Combination) (ks : List Bytes) : Except Failure Reply × Store :=
  s.execute (.known (.combine how)) (.combine how ks)

/-- The store tells that a value is a member of the set under a key. -/
def TellsMember (s : Store) (k v : Bytes) : Prop :=
  (s.execute (.known .isMember) (.isMember (some k) v)).1 = .ok (.flag true)

variable {s : Store} {k : Bytes} {ks : List Bytes} {c : Command}

theorem Proper.execute_isMember (hs : s.Proper) (hk : ¬s.HoldsPlain k) (v : Bytes) :
    (s.execute (.known .isMember) (.isMember (some k) v)).1 = .ok (.flag (decide (v ∈ s.setUnder k))) := by
  rw [hs.execute_eq_ok_iff (Command.means_isMember k v)]
  simp [Store.perform, hs.setAt_eq_ok hk, Except.map]

theorem Proper.tellsMember_iff (hs : s.Proper) (hk : ¬s.HoldsPlain k) (v : Bytes) :
    s.TellsMember k v ↔ v ∈ s.setUnder k := by
  simp [TellsMember, hs.execute_isMember hk]

theorem Proper.combining_of_ok (hs : s.Proper) {how : Combination} {m : MemberSet}
    (h : s.combined (.combine how) how ks = .ok m) : (s.combining how ks).1 = .ok (.members m.toList) := by
  rw [combining, hs.execute_eq_ok_iff (Command.means_combine how ks)]
  simp [Store.perform, h, Except.map]

theorem Proper.combining_of_error (hs : s.Proper) {how : Combination} {r : Refusal}
    (h : s.combined (.combine how) how ks = .error r) : (s.combining how ks).1 = .error r.toFailure := by
  have hperform : (s.perform (.combine how ks)).1 = .error r := by simp [Store.perform, h, Except.map]
  rw [combining, hs.execute_of_means (Command.means_combine how ks), hperform]
  rfl

theorem Proper.combining_eq (hs : s.Proper) (how : Combination) (h : ∀ j ∈ k :: ks, ¬s.HoldsPlain j) :
    (s.combining how (k :: ks)).1 = .ok (.members ((s.setUnder k).combine how (ks.map s.setUnder)).toList) :=
  hs.combining_of_ok (combined_of_eq_ok (.combine how) how fun j hj => hs.setAt_eq_ok (h j hj))

theorem Proper.mem_combine_iff (hs : s.Proper) (how : Combination) (h : ∀ j ∈ k :: ks, ¬s.HoldsPlain j) (v : Bytes) :
    v ∈ ((s.setUnder k).combine how (ks.map s.setUnder)).toList ↔ how.Selects (s.TellsMember · v) k ks := by
  rw [← MemberSet.mem_def, MemberSet.mem_combine_map]
  exact Combination.selects_congr fun i hi => (hs.tellsMember_iff (h i hi) v).symm

/-- What calls tell about the sets under keys agrees with what they tell about single values. -/
structure Pointwise (s : Store) : Prop where
  told : ∀ k v, ¬s.HoldsPlain k → ∃ b, (s.execute (.known .isMember) (.isMember (some k) v)).1 = .ok (.flag b)
  combined : ∀ how k ks, (∀ j ∈ k :: ks, ¬s.HoldsPlain j) →
    ∃ bs, (s.combining how (k :: ks)).1 = .ok (.members bs) ∧ bs.Nodup ∧
      ∀ v, v ∈ bs ↔ how.Selects (s.TellsMember · v) k ks
  members : ∀ k c, ¬s.HoldsPlain k → c.Means .members (.members k) →
    ∃ bs, (s.execute (.known .members) c).1 = .ok (.members bs) ∧ bs.Nodup ∧ (∀ v, v ∈ bs ↔ s.TellsMember k v) ∧
      ∀ c', c'.Means .card (.card k) → (s.execute (.known .card) c').1 = .ok (.count bs.length)
  alike : ∀ how k ks j js, (∀ i ∈ k :: ks, ¬s.HoldsPlain i) → how.Alike k ks j js →
    ∃ bs cs, (s.combining how (k :: ks)).1 = .ok (.members bs) ∧ (s.combining how (j :: js)).1 = .ok (.members cs) ∧
      bs.Perm cs
  again : ∀ k ks, (∀ j ∈ k :: ks, ¬s.HoldsPlain j) → k ∈ ks → (s.combining .diff (k :: ks)).1 = .ok (.members [])

theorem Proper.members_pointwise (hs : s.Proper) (hk : ¬s.HoldsPlain k) (hc : c.Means .members (.members k)) :
    ∃ bs, (s.execute (.known .members) c).1 = .ok (.members bs) ∧ bs.Nodup ∧ (∀ v, v ∈ bs ↔ s.TellsMember k v) ∧
      ∀ c', c'.Means .card (.card k) → (s.execute (.known .card) c').1 = .ok (.count bs.length) := by
  refine ⟨(s.setUnder k).toList, ?_, (s.setUnder k).nodup, fun v => (hs.tellsMember_iff hk v).symm, fun c' hc' => ?_⟩
  · rw [hs.execute_eq_ok_iff hc]
    simp [Store.perform, hs.setAt_eq_ok hk, Except.map]
  · rw [hs.execute_eq_ok_iff hc']
    simp [Store.perform, hs.setAt_eq_ok hk, Except.map, MemberSet.card]

/-- In every store that calls lead to, combinations and members are what single values tell. -/
theorem Reachable.pointwise (hs : s.Reachable) : s.Pointwise where
  told k v hk := ⟨_, hs.proper.execute_isMember hk v⟩
  combined how k ks h := ⟨_, hs.proper.combining_eq how h, MemberSet.nodup _, hs.proper.mem_combine_iff how h⟩
  members k c hk hc := hs.proper.members_pointwise hk hc
  alike how k ks j js h halike := by
    have h' : ∀ i ∈ j :: js, ¬s.HoldsPlain i := fun i hi => h i ((halike.mem_iff i).2 hi)
    refine ⟨_, _, hs.proper.combining_eq how h, hs.proper.combining_eq how h', ?_⟩
    refine (List.perm_ext_iff_of_nodup (MemberSet.nodup _) (MemberSet.nodup _)).2 fun v => ?_
    rw [hs.proper.mem_combine_iff how h, hs.proper.mem_combine_iff how h', halike.selects_iff]
  again k ks h hk := by
    rw [hs.proper.combining_eq .diff h]
    have hempty : ∀ v, v ∉ ((s.setUnder k).combine .diff (ks.map s.setUnder)).toList := fun v hv =>
      Combination.not_selects_diff hk ((hs.proper.mem_combine_iff .diff h v).1 hv)
    rw [List.eq_nil_iff_forall_not_mem.2 hempty]

theorem pointwise_lodged : lodged.Reachable ∧ (∀ j ∈ [[107], [109], [107]], ¬lodged.HoldsPlain j) ∧
    lodged.Pointwise ∧ (lodged.combining .diff [[107], [109], [107]]).1 = .ok (.members []) := by
  have hplain : ∀ j ∈ [[107], [109], [107]], ¬lodged.HoldsPlain j := by decide
  have hpointwise := reachable_lodged.pointwise
  exact ⟨reachable_lodged, hplain, hpointwise, hpointwise.again [107] [[109], [107]] hplain (by decide)⟩

end Store
end SetPipeline
