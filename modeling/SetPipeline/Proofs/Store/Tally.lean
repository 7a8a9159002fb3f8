import Mathlib.Data.List.Perm.Subperm
import SetPipeline.Proofs.Store.Locality
import SetPipeline.Proofs.Store.Representation

/-! What calls report adds up to what the store holds. Starting from the number of members under a key, the counts,
flags and members that calls give back tell the number of members under it at any time after, whatever the calls
are and whatever else happens under other keys. -/
namespace SetPipeline

namespace MemberSet

variable {s t : MemberSet} {b : Bytes} {bs : List Bytes}

theorem card_le_card (h : ∀ b ∈ s, b ∈ t) : s.card ≤ t.card := (List.subperm_of_subset s.nodup h).length_le

theorem card_le_insertAll : s.card ≤ (s.insertAll bs).card := card_le_card fun _ hb => mem_insertAll.2 (.inl hb)

theorem card_eraseAll_le : (s.eraseAll bs).card ≤ s.card := card_le_card fun _ hb => (mem_eraseAll.1 hb).1

theorem insert_of_mem (h : b ∈ s) : s.insert b = s := by
  ext a
  simp only [mem_insert, or_iff_right_iff_imp]
  rintro rfl
  exact h

theorem card_insert_of_notMem (h : b ∉ s) : (s.insert b).card = s.card + 1 := by
  have hnodup : (b :: s.toList).Nodup := List.nodup_cons.2 ⟨h, s.nodup⟩
  have hperm : (s.insert b).toList.Perm (b :: s.toList) :=
    (List.perm_ext_iff_of_nodup (s.insert b).nodup hnodup).2 fun a => by
      rw [List.mem_cons]
      exact mem_insert
  simpa [card] using hperm.length_eq

theorem card_erase_of_mem (h : b ∈ s) : (s.erase b).card + 1 = s.card := by
  have hback : (s.erase b).insert b = s := by
    ext a
    by_cases ha : a = b <;> simp [ha, h]
  have hb : b ∉ s.erase b := by simp
  rw [← card_insert_of_notMem hb, hback]

end MemberSet

namespace Store

def has (s : Store) (k v : Bytes) : Bool :=
  match s.setAt k with
  | .ok m => decide (v ∈ m)
  | .error _ => false

/-- A total for a key, after an action with a reply. -/
def counted (s : Store) (k : Bytes) (a : Action) (x : Reply) (n : Int) : Int :=
  match a, x with
  | .add j _, .count r => if j = k then n + r else n
  | .remove j _, .count r => if j = k then n - r else n
  | .pop j, .member (some _) => if j = k then n - 1 else n
  | .move i j v, .flag true =>
    if i = j then n
    else if i = k then n - 1
    else if j = k ∧ !s.has k v then n + 1
    else n
  | .combineStore _ _ j, .count r => if j = k then r else n
  | _, _ => n

/-- A total for a key, after anything done to the store. What fails does not count. -/
def reckoned (s : Store) (k : Bytes) (n : Int) : Deed → Int
  | .execute r c =>
    match r.action? c, (s.execute r c).1 with
    | some a, .ok x => s.counted k a x n
    | _, _ => n
  | .assign .. | .clear => n

def reckonAll (s : Store) (k : Bytes) (n : Int) : List Deed → Int
  | [] => n
  | deed :: deeds =>
    match s.follow deed with
    | .ok t => t.reckonAll k (s.reckoned k n deed) deeds
    | .error _ => n

/-- No value is put under the key by hand, and nothing is cleared. -/
def Deed.Spares (k : Bytes) : Deed → Prop
  | .execute .. => True
  | .assign j _ => j ≠ k
  | .clear => False

variable {s : Store} {k : Bytes} {m : MemberSet}

theorem counted_of_notMem {a : Action} {x : Reply} (hk : k ∉ a.writes) (n : Int) : s.counted k a x n = n := by
  cases a with
  | add j | remove j | combineStore _ _ j =>
    have hj : j ≠ k := by simpa [Action.writes, eq_comm] using hk
    cases x <;> simp [counted, hj]
  | pop j =>
    have hj : j ≠ k := by simpa [Action.writes, eq_comm] using hk
    cases x with
    | member b => cases b <;> simp [counted, hj]
    | _ => rfl
  | move i j v =>
    have hij : i ≠ k ∧ j ≠ k := by simpa [Action.writes, eq_comm] using hk
    cases x with
    | flag b => cases b <;> simp [counted, hij]
    | _ => rfl
  | card | isMember | combine | members | randomMembers => rfl

theorem setAt_perform_of_notMem {a : Action} (hk : k ∉ a.writes) : (s.perform a).2.setAt k = s.setAt k := by
  simp only [setAt, get?_perform_of_notMem hk]

/-- What is under a key after an action on it that succeeded: a set, and how many members it has. -/
def Leaves (s : Store) (k : Bytes) (a : Action) (n : Int) : Prop :=
  ∀ x, (s.perform a).1 = .ok x → ∃ m, (s.perform a).2.setAt k = .ok m ∧ (m.card : Int) = s.counted k a x n

theorem add_leaves (hm : s.setAt k = .ok m) (vs : List Bytes) : s.Leaves k (.add k vs) m.card := by
  intro x hx
  simp only [perform, addTo, reading_of_ok hm] at hx ⊢
  split at hx
  · cases hx
  · next hvs =>
    cases hx
    refine ⟨m.insertAll vs, by simp [hvs], ?_⟩
    have hle : m.card ≤ (m.insertAll vs).card := MemberSet.card_le_insertAll
    simp only [counted, if_true]
    omega

theorem remove_leaves (hm : s.setAt k = .ok m) (vs : List Bytes) : s.Leaves k (.remove k vs) m.card := by
  intro x hx
  simp only [perform, removeFrom, reading_of_ok hm] at hx ⊢
  split at hx
  · cases hx
  · next hvs =>
    cases hx
    refine ⟨m.eraseAll vs, by simp [hvs], ?_⟩
    have hle : (m.eraseAll vs).card ≤ m.card := MemberSet.card_eraseAll_le
    simp only [counted, if_true]
    omega

theorem pop_leaves (hm : s.setAt k = .ok m) : s.Leaves k (.pop k) m.card := by
  intro x hx
  simp only [perform, popFrom, reading_of_ok hm] at hx ⊢
  cases hb : m.toList with
  | nil =>
    rw [hb] at hx
    cases hx
    exact ⟨m, hm, rfl⟩
  | cons b bs =>
    rw [hb] at hx
    cases hx
    have hmem : (s.draws.choose b bs).1 ∈ m := MemberSet.mem_def.2 (hb ▸ s.draws.choose_mem b bs)
    refine ⟨m.erase (s.draws.choose b bs).1, setAt_putSet_self _ k _, ?_⟩
    have hcard := MemberSet.card_erase_of_mem hmem
    simp only [counted, if_true]
    omega

theorem move_leaves {i j : Bytes} (v : Bytes) (hk : k = i ∨ k = j) (hm : s.setAt k = .ok m) :
    s.Leaves k (.move i j v) m.card := by
  intro x hx
  obtain ⟨p, hp, hrest⟩ := reading_eq_ok hx
  obtain ⟨q, hq, -⟩ := reading_eq_ok hrest
  simp only [perform, moveBetween, reading_of_ok hp, reading_of_ok hq] at hx ⊢
  by_cases hv : v ∈ p
  · by_cases hij : i = j
    · simp only [hv, hij] at hx ⊢
      cases hx
      exact ⟨m, hm, by simp [counted]⟩
    · simp only [hv, hij] at hx ⊢
      cases hx
      rcases hk with rfl | rfl
      · obtain rfl : p = m := Except.ok.inj (hp.symm.trans hm)
        refine ⟨p.erase v, by simp [setAt_putSet_of_ne hij], ?_⟩
        have hcard := MemberSet.card_erase_of_mem hv
        simp only [counted, hij, if_true, if_false]
        omega
      · obtain rfl : q = m := Except.ok.inj (hq.symm.trans hm)
        refine ⟨q.insert v, setAt_putSet_self _ k _, ?_⟩
        by_cases hvq : v ∈ q
        · simp [counted, hij, has, hm, hvq, MemberSet.insert_of_mem]
        · simp [counted, hij, has, hm, hvq, MemberSet.card_insert_of_notMem]
  · simp only [hv] at hx ⊢
    cases hx
    exact ⟨m, hm, rfl⟩

theorem combineStore_leaves (s : Store) (how : Combination) (ks : List Bytes) (k : Bytes) (n : Int) :
    s.Leaves k (.combineStore how ks k) n := by
  intro x hx
  simp only [perform, combineTo] at hx ⊢
  split at hx
  · next m hm =>
    cases hx
    exact ⟨m, by simp, by simp [counted]⟩
  · cases hx

/-- An action that succeeds leaves as many members under a key as its reply says. -/
theorem perform_leaves (hm : s.setAt k = .ok m) (a : Action) : s.Leaves k a m.card := by
  by_cases hk : k ∈ a.writes
  · cases a with
    | add j vs =>
      obtain rfl : k = j := by simpa [Action.writes] using hk
      exact add_leaves hm vs
    | remove j vs =>
      obtain rfl : k = j := by simpa [Action.writes] using hk
      exact remove_leaves hm vs
    | pop j =>
      obtain rfl : k = j := by simpa [Action.writes] using hk
      exact pop_leaves hm
    | move i j v => exact move_leaves v (by simpa [Action.writes] using hk) hm
    | combineStore how ks j =>
      obtain rfl : k = j := by simpa [Action.writes] using hk
      exact combineStore_leaves s how ks k _
    | card | isMember | combine | members | randomMembers => cases hk
  · intro x _
    exact ⟨m, by rw [setAt_perform_of_notMem hk, hm], (counted_of_notMem hk _).symm⟩

theorem Answered.leaves {r : Request} {c : Command} {turn : Except Failure Reply × Store} (h : Answered s r c turn)
    (hm : s.setAt k = .ok m) :
    ∃ m', turn.2.setAt k = .ok m' ∧ (∀ f, turn.1 = .error f → m' = m) ∧
      ∀ x, turn.1 = .ok x → ∃ a, r.action? c = some a ∧ (m'.card : Int) = s.counted k a x m.card := by
  cases h with
  | turnedDown f => exact ⟨m, hm, fun _ _ => rfl, by simp⟩
  | @performed op a hr ha =>
    subst hr
    cases hx : (s.perform a).1 with
    | error e =>
      rw [(perform_effect s a).refused e hx]
      exact ⟨m, hm, fun _ _ => rfl, by simp [Except.mapError]⟩
    | ok x =>
      obtain ⟨m', hm', hcard⟩ := perform_leaves hm a x hx
      refine ⟨m', hm', by simp [Except.mapError], fun y hy => ⟨a, ha, ?_⟩⟩
      rw [← Except.ok.inj hy, hcard]

/-- One thing done to a store moves the total along with the number of members. -/
theorem Proper.reckoned (hs : s.Proper) (hm : s.setAt k = .ok m) {deed : Deed} (hk : deed.Spares k) :
    ∃ t m', s.follow deed = .ok t ∧ t.Proper ∧ t.setAt k = .ok m' ∧
      (m'.card : Int) = s.reckoned k m.card deed := by
  cases deed with
  | execute r c =>
    obtain ⟨m', hm', herror, hok⟩ := (hs.answered r c).leaves hm
    refine ⟨_, m', rfl, hs.execute r c, by rw [hs.execute_eq]; exact hm', ?_⟩
    simp only [Store.reckoned, hs.execute_eq]
    cases hx : (s.answer r c).1 with
    | error f => simp [herror f hx]
    | ok x =>
      obtain ⟨a, ha, hcard⟩ := hok x hx
      simp [ha, hcard]
  | assign j v =>
    have hj : k ≠ j := Ne.symm hk
    refine ⟨_, m, rfl, hs.assign (rfl : s.assign (.bytes j) (.bytes v) = _), ?_, rfl⟩
    rw [← hm]
    simp only [Store.setAt, Keyspace.get?_put_of_ne hj]
  | clear => exact hk.elim

theorem Proper.reckonAll (hs : s.Proper) (hm : s.setAt k = .ok m) {deeds : List Deed}
    (hk : ∀ deed ∈ deeds, deed.Spares k) :
    ∃ t m', deeds.foldlM Store.follow s = .ok t ∧ t.Proper ∧ t.setAt k = .ok m' ∧
      (m'.card : Int) = s.reckonAll k m.card deeds := by
  induction deeds generalizing s m with
  | nil => exact ⟨s, m, rfl, hs, hm, rfl⟩
  | cons deed deeds ih =>
    obtain ⟨hdeed, hdeeds⟩ := List.forall_mem_cons.1 hk
    obtain ⟨t, m', ht, hproper, hm', hcard⟩ := hs.reckoned hm hdeed
    obtain ⟨u, m'', hu, hrest⟩ := ih hproper hm' hdeeds
    refine ⟨u, m'', ?_, ?_⟩
    · rw [List.foldlM_cons, ht]
      exact hu
    · simpa [Store.reckonAll, ht, ← hcard] using hrest

/-- A key that is absent, or holds a set; and how many members that makes. -/
inductive Counts (s : Store) (k : Bytes) : Nat → Prop where
  | absent : s.data.get? k = none → Counts s k 0
  | set {m : MemberSet} : s.data.get? k = some (.set m) → Counts s k m.card

theorem Counts.exists_setAt {n : Nat} (h : s.Counts k n) : ∃ m, s.setAt k = .ok m ∧ m.card = n := by
  cases h with
  | absent h => exact ⟨∅, by simp [setAt, entrySet, h], rfl⟩
  | @set m h => exact ⟨m, by simp [setAt, entrySet, h], rfl⟩

theorem Proper.execute_card (hs : s.Proper) (hm : s.setAt k = .ok m) :
    (s.execute (.known .card) (.key (some k))).1 = .ok (.count m.card) := by
  rw [hs.execute_of_fits (a := .card k) rfl rfl]
  simp [Store.perform, hm, Except.map, Except.mapError]

/-- What the calls reported adds up to the number of members that the store tells in the end. -/
theorem Reachable.card_eq_reckoned {s : Store} (hs : s.Reachable) {k : Bytes} {n : Nat} (hn : s.Counts k n)
    {deeds : List Deed} (hk : ∀ deed ∈ deeds, deed.Spares k) :
    ∃ t total, deeds.foldlM Store.follow s = .ok t ∧
      (t.execute (.known .card) (.key (some k))).1 = .ok (.count total) ∧
      (total : Int) = s.reckonAll k n deeds := by
  obtain ⟨m, hm, rfl⟩ := hn.exists_setAt
  obtain ⟨t, m', ht, hproper, hm', hcard⟩ := hs.proper.reckonAll hm hk
  exact ⟨t, m'.card, ht, hproper.execute_card hm', hcard⟩

/-- Members added twice, moved to where they are, moved in vain to a plain value, taken at random, removed, and the
rest stored over itself. -/
def errands : List Deed :=
  [.execute (.known .add) (.add (some [107]) [[97], [99], [99]]), .assign [120] [118],
    .execute (.known .move) (.move (some [107]) (some [107]) [97]),
    .execute (.known .move) (.move (some [107]) (some [112]) [97]),
    .execute (.known .pop) (.key (some [107])), .execute (.known .remove) (.remove (some [107]) [[98], [98], [100]]),
    .execute (.known (.combineStore .union)) (.combineStore .union [[107], [107]] (some [107]))]

theorem card_eq_reckoned_lodged : lodged.Reachable ∧ lodged.Counts [107] 2 ∧
    (∀ deed ∈ errands, deed.Spares [107]) ∧
      ∃ t total, errands.foldlM Store.follow lodged = .ok t ∧
        (t.execute (.known .card) (.key (some [107]))).1 = .ok (.count total) ∧
        (total : Int) = lodged.reckonAll [107] 2 errands := by
  have hcounts : lodged.Counts [107] 2 :=
    .set (rfl : lodged.data.get? [107] = some (.set (.ofList [[97], [98]])))
  have hspares : ∀ deed ∈ errands, deed.Spares [107] := by simp [errands, Deed.Spares]
  exact ⟨reachable_lodged, hcounts, hspares, reachable_lodged.card_eq_reckoned hcounts hspares⟩

example : lodged.reckonAll [107] 2 errands = 1 := by rfl

end Store
end SetPipeline
