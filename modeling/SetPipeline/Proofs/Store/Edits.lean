import Mathlib.Algebra.Order.Group.Nat
import Mathlib.Algebra.GroupWithZero.Nat
import SetPipeline.Proofs.Store.Stored
import SetPipeline.Proofs.Store.Tally

/-! Values added to sets, or removed from them, in any order. One call reports how many members there are more, or
less, and that depends on the calls before it; but which calls fail and how, what is left under every key and what the
reports for a key add up to depends only on which calls are made. -/
namespace SetPipeline

/-- What is done with values: they are added to a key's set, or removed from it. -/
inductive Edit where
  | add
  | remove
  deriving DecidableEq, Repr

namespace Edit

def operation : Edit → Operation
  | add => .add
  | remove => .remove

def command : Edit → Option Bytes → List Bytes → Command
  | add => .add
  | remove => .remove

def action : Edit → Bytes → List Bytes → Action
  | add => .add
  | remove => .remove

def apply : Edit → MemberSet → List Bytes → MemberSet
  | add => MemberSet.insertAll
  | remove => MemberSet.eraseAll

/-- Whether a value is a member afterwards, of which it is known if it was one and if it was named. -/
def Leaves (e : Edit) (held named : Prop) : Prop :=
  match e with
  | add => held ∨ named
  | remove => held ∧ ¬named

/-- A number of members, how many more or less there are, and their number then. -/
def Balances (e : Edit) (before change after : Nat) : Prop :=
  match e with
  | add => before + change = after
  | remove => after + change = before

variable {e : Edit} {k v : Bytes} {vs : List Bytes} {m : MemberSet} {c : Command} {a : Action}

theorem mem_apply : v ∈ e.apply m vs ↔ e.Leaves (v ∈ m) (v ∈ vs) := by
  cases e with
  | add => exact MemberSet.mem_insertAll
  | remove => exact MemberSet.mem_eraseAll

theorem leaves_congr {p q p' q' : Prop} (hp : p ↔ p') (hq : q ↔ q') : e.Leaves p q ↔ e.Leaves p' q' := by
  cases e with
  | add => exact or_congr hp hq
  | remove => exact and_congr hp (not_congr hq)

theorem leaves_leaves {p q r : Prop} : e.Leaves (e.Leaves p q) r ↔ e.Leaves p (q ∨ r) := by
  cases e with
  | add => exact or_assoc
  | remove => exact and_assoc.trans (and_congr_right fun _ => not_or.symm)

theorem leaves_of_not {p q : Prop} (hq : ¬q) : e.Leaves p q ↔ p := by
  cases e with
  | add => exact or_iff_left hq
  | remove => exact and_iff_left hq

theorem Balances.refl (e : Edit) (n : Nat) : e.Balances n 0 n := by cases e <;> rfl

theorem Balances.trans {n₀ n₁ n₂ i j : Nat} (h : e.Balances n₀ i n₁) (h' : e.Balances n₁ j n₂) :
    e.Balances n₀ (i + j) n₂ := by
  cases e <;> simp only [Balances] at * <;> omega

theorem Balances.unique {n₀ n₁ i j : Nat} (h : e.Balances n₀ i n₁) (h' : e.Balances n₀ j n₁) : i = j := by
  cases e <;> simp only [Balances] at * <;> omega

theorem means_command (e : Edit) (k : Bytes) (vs : List Bytes) :
    (e.command (some k) vs).Means e.operation (e.action k vs) := by
  cases e <;> exact ⟨rfl, by simp [Command.Lacks, Command.required, command], rfl⟩

theorem command_inj {j k : Option Bytes} {us vs : List Bytes} :
    e.command j us = e.command k vs ↔ j = k ∧ us = vs := by
  cases e <;> simp [command]

theorem mainKey?_command (e : Edit) (k : Option Bytes) (vs : List Bytes) : (e.command k vs).mainKey? = k := by
  cases e <;> rfl

theorem reads_action (e : Edit) (k : Bytes) (vs : List Bytes) : (e.action k vs).reads = [k] := by cases e <;> rfl

theorem eq_command (h : Action.of? e.operation c = some a) : ∃ k vs, c = e.command (some k) vs ∧ a = e.action k vs := by
  cases e with
  | add =>
    cases c with
    | add j vs =>
      obtain ⟨k, rfl, rfl⟩ := Option.map_eq_some_iff.1 h
      exact ⟨k, vs, rfl, rfl⟩
    | _ => cases h
  | remove =>
    cases c with
    | remove j vs =>
      obtain ⟨k, rfl, rfl⟩ := Option.map_eq_some_iff.1 h
      exact ⟨k, vs, rfl, rfl⟩
    | _ => cases h

end Edit

namespace Store

/-- The same plain values under the same keys. -/
def SamePlain (s t : Store) : Prop :=
  ∀ k v, t.data.get? k = some (.plain (.bytes v)) ↔ s.data.get? k = some (.plain (.bytes v))

variable {s t u : Store} {e : Edit} {op : Operation} {c : Command} {k : Bytes} {vs : List Bytes} {f : Failure}

theorem SamePlain.symm (h : s.SamePlain t) : t.SamePlain s := fun k v => (h k v).symm

theorem SamePlain.trans (h : s.SamePlain t) (h' : t.SamePlain u) : s.SamePlain u := fun k v =>
  (h' k v).trans (h k v)

theorem SamePlain.holdsPlain_iff (h : s.SamePlain t) (k : Bytes) : t.HoldsPlain k ↔ s.HoldsPlain k :=
  exists_congr fun v => h k v

theorem samePlain_putSet (hk : ¬s.HoldsPlain k) (m : MemberSet) : s.SamePlain (s.putSet k m) := by
  intro j v
  by_cases hj : j = k
  · subst hj
    exact ⟨fun h => absurd ⟨v, h⟩ (s.not_holdsPlain_putSet j m), fun h => absurd ⟨v, h⟩ hk⟩
  · rw [get?_putSet, if_neg hj]

/-- What stands against a call is not changed by what happens to sets. -/
theorem Fault.congr (h : s.Fault op c f) (hst : s.SamePlain t) : t.Fault op c f := by
  cases h with
  | wrongClass hkind => exact .wrongClass hkind
  | incomplete hkind hp => exact .incomplete hkind hp
  | noArguments ha hargs => exact .noArguments ha hargs
  | wrongType ha hargs hk hplain => exact .wrongType ha hargs hk ((hst.holdsPlain_iff _).2 hplain)

theorem Clear.congr (h : s.Clear op c) (hst : s.SamePlain t) : t.Clear op c := by
  obtain ⟨a, hmeans, hargs, hplain⟩ := h
  exact ⟨a, hmeans, hargs, fun k hk => mt (hst.holdsPlain_iff k).1 (hplain k hk)⟩

theorem Proper.data_eq (hs : s.Proper) (ht : t.Proper) (hplain : s.SamePlain t)
    (hsets : ∀ k, t.setUnder k = s.setUnder k) : t.data = s.data := by
  ext1 k
  by_cases hk : s.HoldsPlain k
  · obtain ⟨v, hv⟩ := hk
    rw [hv, (hplain k v).2 hv]
  · rw [ht.get?_eq (mt (hplain.holdsPlain_iff k).1 hk), hs.get?_eq hk, hsets]

theorem perform_edit {m : MemberSet} (hk : s.setAt k = .ok m) (hargs : ¬(e.action k vs).LacksArguments) :
    ∃ n, s.perform (e.action k vs) = (.ok (.count n), s.putSet k (e.apply m vs)) ∧
      e.Balances m.card n (e.apply m vs).card := by
  cases e with
  | add =>
    have hvs : vs.isEmpty = false := by simpa [Edit.action, Action.LacksArguments] using hargs
    have hle : m.card ≤ (m.insertAll vs).card := MemberSet.card_le_insertAll
    refine ⟨(m.insertAll vs).card - m.card, ?_, Nat.add_sub_cancel' hle⟩
    simp [Edit.action, Edit.apply, perform, addTo, hvs, reading_of_ok hk]
  | remove =>
    have hvs : vs.isEmpty = false := by simpa [Edit.action, Action.LacksArguments] using hargs
    have hle : (m.eraseAll vs).card ≤ m.card := MemberSet.card_eraseAll_le
    refine ⟨m.card - (m.eraseAll vs).card, ?_, Nat.add_sub_cancel' hle⟩
    simp [Edit.action, Edit.apply, perform, removeFrom, hvs, reading_of_ok hk]

/-- What a call of an edit comes to: something stands against it, or the members under its key change. -/
inductive Edits (s : Store) (e : Edit) (c : Command) : Except Failure Reply × Store → Prop where
  | refused {f : Failure} : s.Fault e.operation c f → Edits s e c (.error f, s.record (.known e.operation) c)
  | edited {k : Bytes} {vs : List Bytes} {n : Nat} : c = e.command (some k) vs → ¬s.HoldsPlain k →
    e.Balances (s.setUnder k).card n (e.apply (s.setUnder k) vs).card →
    Edits s e c (.ok (.count n), (s.putSet k (e.apply (s.setUnder k) vs)).record (.known e.operation) c)

theorem Proper.execute_edits (hs : s.Proper) (e : Edit) (c : Command) :
    Edits s e c (s.execute (.known e.operation) c) := by
  rcases exists_fault_or_clear s e.operation c with ⟨f, hf⟩ | ⟨a, hmeans, hargs, hplain⟩
  · rw [hs.execute_of_error (hf.execute hs)]
    exact .refused hf
  · obtain ⟨k, vs, rfl, rfl⟩ := Edit.eq_command hmeans.action
    have hk : ¬s.HoldsPlain k := hplain k (by rw [Edit.reads_action]; exact List.mem_singleton_self k)
    obtain ⟨n, hperform, hn⟩ := perform_edit (hs.setAt_eq_ok hk) hargs
    rw [hs.execute_of_means hmeans, hperform]
    exact .edited rfl hk hn

def failure? : Except Failure Reply → Option Failure
  | .ok _ => none
  | .error f => some f

def reported (k : Bytes) : Command × Except Failure Reply → Nat
  | (c, .ok (.count n)) => if c.mainKey? = some k then n else 0
  | _ => 0

variable {turn : Except Failure Reply × Store} {cs ds : List Command} {v : Bytes}

theorem Edits.samePlain (h : Edits s e c turn) : s.SamePlain turn.2 := by
  cases h with
  | refused => exact fun _ _ => Iff.rfl
  | edited _ hk => exact samePlain_putSet hk _

theorem Edits.balances (h : Edits s e c turn) (k : Bytes) :
    e.Balances (s.setUnder k).card (reported k (c, turn.1)) (turn.2.setUnder k).card := by
  cases h with
  | refused => exact .refl e _
  | @edited j vs n hc _ hn =>
    show e.Balances _ (if c.mainKey? = some k then n else 0) ((s.putSet j _).setUnder k).card
    rw [hc, Edit.mainKey?_command]
    by_cases hj : j = k
    · subst hj
      rwa [if_pos rfl, setUnder_putSet_self]
    · rw [if_neg (mt Option.some.inj hj), setUnder_putSet_of_ne (Ne.symm hj)]
      exact .refl e _

theorem Edits.leaves (h : Edits s e c turn) (k v : Bytes) : v ∈ turn.2.setUnder k ↔
    e.Leaves (v ∈ s.setUnder k) (∃ vs, (e.command (some k) vs, none) = (c, failure? turn.1) ∧ v ∈ vs) := by
  cases h with
  | refused => exact (Edit.leaves_of_not (by rintro ⟨us, h, -⟩; cases h)).symm
  | @edited j vs n hc _ hn =>
    subst hc
    show v ∈ (s.putSet j _).setUnder k ↔ _
    by_cases hj : k = j
    · subst hj
      rw [setUnder_putSet_self, Edit.mem_apply]
      refine Edit.leaves_congr Iff.rfl ⟨fun h => ⟨vs, rfl, h⟩, ?_⟩
      rintro ⟨us, hus, h⟩
      rwa [← (Edit.command_inj.1 (congrArg Prod.fst hus)).2]
    · rw [setUnder_putSet_of_ne hj, Edit.leaves_of_not]
      rintro ⟨us, hus, -⟩
      exact hj (Option.some.inj (Edit.command_inj.1 (congrArg Prod.fst hus)).1)

/-- Whether a call fails, and how, is settled by the plain values. -/
theorem Proper.failure?_execute (hs : s.Proper) (ht : t.Proper) (hst : s.SamePlain t) (op : Operation) (c : Command) :
    failure? (t.execute (.known op) c).1 = failure? (s.execute (.known op) c).1 := by
  rcases exists_fault_or_clear s op c with ⟨f, hf⟩ | hclear
  · rw [hf.execute hs, (hf.congr hst).execute ht]
  · obtain ⟨x, hx⟩ := hclear.execute hs
    obtain ⟨y, hy⟩ := (hclear.congr hst).execute ht
    rw [hx, hy]
    rfl

/-- The calls of an operation, one for each command, and what they come to. -/
def trace (s : Store) (op : Operation) : List Command → List (Command × Except Failure Reply)
  | [] => []
  | c :: cs => (c, (s.execute (.known op) c).1) :: (s.execute (.known op) c).2.trace op cs

def executeEach (s : Store) (op : Operation) (cs : List Command) : Store :=
  s.executeAll (cs.map fun c => (.known op, c))

def verdicts (s : Store) (op : Operation) (cs : List Command) : List (Command × Option Failure) :=
  (s.trace op cs).map fun p => (p.1, failure? p.2)

def reports (s : Store) (op : Operation) (cs : List Command) (k : Bytes) : Nat :=
  ((s.trace op cs).map (reported k)).sum

theorem Proper.executeEach (hs : s.Proper) (op : Operation) (cs : List Command) : (s.executeEach op cs).Proper :=
  hs.executeAll _

theorem Proper.samePlain_executeEach (hs : s.Proper) (e : Edit) (cs : List Command) :
    s.SamePlain (s.executeEach e.operation cs) := by
  induction cs generalizing s with
  | nil => exact fun _ _ => Iff.rfl
  | cons c cs ih => exact (hs.execute_edits e c).samePlain.trans (ih (hs.execute _ c))

theorem Proper.aside_executeEach (hs : s.Proper) (op : Operation) (cs : List Command) :
    (s.executeEach op cs).aside = s.aside := by
  induction cs generalizing s with
  | nil => rfl
  | cons c cs ih => exact (ih (hs.execute _ c)).trans (s.execute_confined (.known op) c).aside

theorem Proper.balances_executeEach (hs : s.Proper) (e : Edit) (cs : List Command) (k : Bytes) :
    e.Balances (s.setUnder k).card (s.reports e.operation cs k) ((s.executeEach e.operation cs).setUnder k).card := by
  induction cs generalizing s with
  | nil => exact .refl e _
  | cons c cs ih => exact ((hs.execute_edits e c).balances k).trans (ih (hs.execute _ c))

theorem Proper.leaves_executeEach (hs : s.Proper) (e : Edit) (cs : List Command) (k v : Bytes) :
    v ∈ (s.executeEach e.operation cs).setUnder k ↔ e.Leaves (v ∈ s.setUnder k)
      (∃ vs, (e.command (some k) vs, none) ∈ s.verdicts e.operation cs ∧ v ∈ vs) := by
  induction cs generalizing s with
  | nil => exact (Edit.leaves_of_not (by rintro ⟨us, h, -⟩; cases h)).symm
  | cons c cs ih =>
    refine (ih (hs.execute _ c)).trans ?_
    rw [Edit.leaves_congr ((hs.execute_edits e c).leaves k v) Iff.rfl, Edit.leaves_leaves]
    refine Edit.leaves_congr Iff.rfl ?_
    simp only [verdicts, trace, List.map_cons, List.mem_cons, or_and_right, exists_or]

/-- Every call fails, or does not, as if it were made first. -/
theorem Proper.verdicts_eq (hs : s.Proper) (ht : t.Proper) (hst : s.SamePlain t) (e : Edit) (cs : List Command) :
    t.verdicts e.operation cs = cs.map fun c => (c, failure? (s.execute (.known e.operation) c).1) := by
  -- The store moves on with the calls, and keeps the plain values of the first one.
  induction cs generalizing t with
  | nil => rfl
  | cons c cs ih =>
    have hrest := ih (ht.execute (.known e.operation) c) (hst.trans (ht.execute_edits e c).samePlain)
    exact List.cons_eq_cons.2 ⟨congrArg (Prod.mk c) (hs.failure?_execute ht hst _ c), hrest⟩

theorem Proper.verdicts_perm (hs : s.Proper) (e : Edit) (h : ds.Perm cs) :
    (s.verdicts e.operation ds).Perm (s.verdicts e.operation cs) := by
  have hsame : s.SamePlain s := fun _ _ => Iff.rfl
  rw [hs.verdicts_eq hs hsame, hs.verdicts_eq hs hsame]
  exact h.map _

theorem Proper.setUnder_executeEach_perm (hs : s.Proper) (e : Edit) (h : ds.Perm cs) (k : Bytes) :
    (s.executeEach e.operation ds).setUnder k = (s.executeEach e.operation cs).setUnder k := by
  ext v
  rw [hs.leaves_executeEach, hs.leaves_executeEach]
  simp only [(hs.verdicts_perm e h).mem_iff]

/-- What several calls of an edit come to, and that their order has no part in it. -/
structure OrderFree (s : Store) (e : Edit) (cs : List Command) : Prop where
  alone : s.verdicts e.operation cs = cs.map fun c => (c, failure? (s.execute (.known e.operation) c).1)
  plain : s.SamePlain (s.executeEach e.operation cs)
  leaves : ∀ k v, v ∈ (s.executeEach e.operation cs).setUnder k ↔ e.Leaves (v ∈ s.setUnder k)
    (∃ vs, (e.command (some k) vs, none) ∈ s.verdicts e.operation cs ∧ v ∈ vs)
  balances : ∀ k, e.Balances (s.setUnder k).card (s.reports e.operation cs k)
    ((s.executeEach e.operation cs).setUnder k).card
  verdicts : ∀ ds, ds.Perm cs → (s.verdicts e.operation ds).Perm (s.verdicts e.operation cs)
  data : ∀ ds, ds.Perm cs → (s.executeEach e.operation ds).data = (s.executeEach e.operation cs).data
  aside : ∀ ds, ds.Perm cs → (s.executeEach e.operation ds).aside = (s.executeEach e.operation cs).aside
  reports : ∀ ds, ds.Perm cs → ∀ k, s.reports e.operation ds k = s.reports e.operation cs k

/-- Each call fails or not as it would alone, each key ends with the members that the calls that succeed name, and the
reports for it tell how many those are; the order of the calls has no part in any of it. -/
theorem Reachable.orderFree (hs : s.Reachable) (e : Edit) (cs : List Command) : s.OrderFree e cs := by
  have hp := hs.proper
  have hplain := hp.samePlain_executeEach e
  have hbalances := hp.balances_executeEach e
  refine ⟨hp.verdicts_eq hp (fun _ _ => Iff.rfl) e cs, hplain cs, hp.leaves_executeEach e cs, hbalances cs,
    fun ds h => hp.verdicts_perm e h, fun ds h => ?_, fun ds _ => ?_, fun ds h k => ?_⟩
  · exact (hp.executeEach _ cs).data_eq (hp.executeEach _ ds) ((hplain cs).symm.trans (hplain ds))
      (hp.setUnder_executeEach_perm e h)
  · rw [hp.aside_executeEach, hp.aside_executeEach]
  · have hds := hbalances ds k
    rw [hp.setUnder_executeEach_perm e h] at hds
    exact hds.unique (hbalances cs k)

/-- Members added twice, also to a plain value, and a call without values. -/
def additions : List Command :=
  [.add (some [107]) [[99], [97], [99]], .add (some [112]) [[97]], .add (some [109]) [],
    .add (some [107]) [[100], [99]]]

theorem orderFree_lodged : lodged.Reachable ∧ lodged.OrderFree .add additions ∧
    lodged.reports .add additions [107] = 2 ∧ lodged.reports .add additions.reverse [107] = 2 ∧
    (lodged.executeEach .add additions.reverse).data = (lodged.executeEach .add additions).data := by
  have hfree := reachable_lodged.orderFree .add additions
  have hsum : lodged.reports .add additions [107] = 2 := rfl
  exact ⟨reachable_lodged, hfree, hsum, (hfree.reports _ additions.reverse_perm [107]).trans hsum,
    hfree.data _ additions.reverse_perm⟩

end Store
end SetPipeline
