import SetPipeline.Proofs.Store.Edits

/-! Values moved from one set to another. A move between two keys leaves what taking the value out of the one set and
adding it to the other does, in either order, and any other move leaves all as it was. So no value gets lost or comes
up by moves, and there are fewer members than before only as far as values were moved to where they already were. -/
namespace SetPipeline

def Entry.card : Entry → Nat
  | set m => m.card
  | mixed ms => ms.length
  | plain _ => 0

namespace Keyspace

def total (d : Keyspace) : Nat := (d.toList.map (·.2.card)).sum

def cardAt (d : Keyspace) (k : Bytes) : Nat := ((d.get? k).map Entry.card).getD 0

/-- What is under a key before is replaced in the total by what is put there. -/
theorem total_put (d : Keyspace) (k : Bytes) (e : Entry) : (d.put k e).total + d.cardAt k = d.total + e.card := by
  have hincreasing := d.increasing
  simp only [put, total, cardAt, get?]
  generalize d.toList = xs at hincreasing
  induction xs with
  | nil => simp [putList]
  | cons x xs ih =>
    obtain ⟨hx, hxs⟩ := List.pairwise_cons.1 hincreasing
    have hrest := ih hxs
    unfold putList
    split
    · next hlt =>
      -- The entries increase, so none of them is under a key in front of the first.
      have habsent : (x :: xs).lookup k = none := by
        refine lookup_eq_none.2 fun hk => ?_
        rcases List.mem_cons.1 hk with rfl | hk
        · exact List.lt_irrefl _ hlt
        · exact List.lt_irrefl _ (List.lt_trans hlt (hx k hk))
      rw [habsent]
      simp only [List.map_cons, List.sum_cons, Option.map_none, Option.getD_none]
      omega
    · split
      · next heq =>
        rw [List.lookup_cons, beq_iff_eq.2 heq]
        simp only [List.map_cons, List.sum_cons, Option.map_some, Option.getD_some]
        omega
      · next hne =>
        rw [List.lookup_cons, beq_false_of_ne hne]
        simp only [List.map_cons, List.sum_cons]
        omega

theorem total_erase (d : Keyspace) (k : Bytes) : (d.erase k).total + d.cardAt k = d.total := by
  have hincreasing := d.increasing
  simp only [erase, total, cardAt, get?]
  generalize d.toList = xs at hincreasing
  induction xs with
  | nil => rfl
  | cons x xs ih =>
    obtain ⟨hx, hxs⟩ := List.pairwise_cons.1 hincreasing
    have hrest := ih hxs
    rw [List.lookup_cons, List.filter_cons]
    by_cases hk : k = x.1
    · subst hk
      have habsent : xs.lookup x.1 = none := lookup_eq_none.2 fun hk => List.lt_irrefl _ (hx _ hk)
      rw [habsent] at hrest
      simp only [bne_self_eq_false, BEq.rfl, List.map_cons, List.sum_cons, Option.map_none, Option.map_some,
        Option.getD_none, Option.getD_some] at hrest ⊢
      simp only [Bool.false_eq_true, if_false]
      omega
    · rw [beq_false_of_ne hk, if_pos (bne_iff_ne.2 (Ne.symm hk))]
      simp only [List.map_cons, List.sum_cons]
      omega

end Keyspace

theorem Command.means_move (i j v : Bytes) : (move (some i) (some j) v).Means .move (.move i j v) :=
  ⟨rfl, by simp [Lacks, required], rfl⟩

theorem Action.eq_move {c : Command} {a : Action} (h : of? .move c = some a) :
    ∃ i j v, c = .move (some i) (some j) v ∧ a = .move i j v := by
  cases c with
  | move i j v =>
    cases i with
    | none => cases h
    | some i =>
      cases j with
      | none => cases h
      | some j => exact ⟨i, j, v, rfl, (Option.some.inj h).symm⟩
  | _ => cases h

namespace Store

variable {s t : Store} {c : Command} {cs : List Command} {e f : Edit} {i j k v : Bytes} {m n : MemberSet}
  {turn : Except Failure Reply × Store}

theorem total_putSet (s : Store) (k : Bytes) (m : MemberSet) :
    (s.putSet k m).data.total + s.data.cardAt k = s.data.total + m.card := by
  unfold putSet
  cases hm : m.isEmpty with
  | true =>
    obtain rfl := MemberSet.isEmpty_iff.1 hm
    exact s.data.total_erase k
  | false => exact s.data.total_put k (.set m)

theorem Proper.cardAt_eq (hs : s.Proper) (hk : ¬s.HoldsPlain k) : s.data.cardAt k = (s.setUnder k).card := by
  rw [Keyspace.cardAt, hs.get?_eq hk]
  cases hm : (s.setUnder k).isEmpty with
  | true =>
    rw [MemberSet.isEmpty_iff.1 hm]
    rfl
  | false => rfl

theorem putSet_data_congr (h : t.data = s.data) (k : Bytes) (m : MemberSet) :
    (t.putSet k m).data = (s.putSet k m).data := by
  simp only [putSet, h]

theorem putSet_comm_data (hij : i ≠ j) : ((s.putSet i m).putSet j n).data = ((s.putSet j n).putSet i m).data := by
  ext1 k
  simp only [get?_putSet]
  by_cases hi : k = i
  · subst hi
    rw [if_pos rfl, if_neg hij, if_pos rfl]
  · rw [if_neg hi, if_neg hi]

def edited (s : Store) (e : Edit) (k v : Bytes) : Store :=
  (s.execute (.known e.operation) (e.command (some k) [v])).2

theorem Proper.edited_data (hs : s.Proper) (hk : ¬s.HoldsPlain k) (e : Edit) (v : Bytes) :
    (s.edited e k v).data = (s.putSet k (e.apply (s.setUnder k) [v])).data := by
  have hargs : ¬(e.action k [v]).LacksArguments := by cases e <;> simp [Edit.action, Action.LacksArguments]
  obtain ⟨n, hperform, -⟩ := perform_edit (hs.setAt_eq_ok hk) hargs
  rw [edited, hs.execute_of_means (Edit.means_command e k [v]), hperform]
  rfl

theorem Proper.edited_edited_data (hs : s.Proper) (hi : ¬s.HoldsPlain i) (hj : ¬s.HoldsPlain j) (hij : i ≠ j)
    (e f : Edit) (v : Bytes) : ((s.edited e i v).edited f j v).data =
      ((s.putSet i (e.apply (s.setUnder i) [v])).putSet j (f.apply (s.setUnder j) [v])).data := by
  have hdata := hs.edited_data hi e v
  have hfirst := hs.execute_edits e (e.command (some i) [v])
  have hproper : (s.edited e i v).Proper := hs.execute _ _
  have hplain : ¬(s.edited e i v).HoldsPlain j := mt (hfirst.samePlain.holdsPlain_iff j).1 hj
  have hunder : (s.edited e i v).setUnder j = s.setUnder j :=
    (setUnder_congr (by rw [hdata])).trans (setUnder_putSet_of_ne (Ne.symm hij))
  rw [hproper.edited_data hplain, hunder, putSet_data_congr hdata]

def moving (s : Store) (i j v : Bytes) : Except Failure Reply × Store :=
  s.execute (.known .move) (.move (some i) (some j) v)

/-- The sets after a value has left one for another, if it is there and is not to stay. -/
def shifted (s : Store) (i j v : Bytes) : Store :=
  if v ∈ s.setUnder i ∧ i ≠ j then (s.putSet i ((s.setUnder i).erase v)).putSet j ((s.setUnder j).insert v) else s

theorem Proper.moving_eq (hs : s.Proper) (hi : ¬s.HoldsPlain i) (hj : ¬s.HoldsPlain j) (v : Bytes) :
    s.moving i j v = (.ok (.flag (decide (v ∈ s.setUnder i))),
      (s.shifted i j v).withRecorded (s.recorded ++ [(.known .move, .move (some i) (some j) v)])) := by
  have hperform : s.perform (.move i j v) = (.ok (.flag (decide (v ∈ s.setUnder i))), s.shifted i j v) := by
    simp only [Store.perform, moveBetween, reading_of_ok (hs.setAt_eq_ok hi), reading_of_ok (hs.setAt_eq_ok hj), shifted]
    by_cases hv : v ∈ s.setUnder i
    · by_cases hij : i = j
      · subst hij
        simp [hv]
      · simp [hv, hij]
    · simp [hv]
  rw [moving, hs.execute_of_means (Command.means_move i j v), hperform]
  rfl

/-- What a move comes to: something stands against it, or it is made. -/
inductive Shifts (s : Store) (c : Command) : Except Failure Reply × Store → Prop where
  | refused {f : Failure} : s.Fault .move c f → Shifts s c (.error f, s.record (.known .move) c)
  | moved {i j v : Bytes} : c = .move (some i) (some j) v → ¬s.HoldsPlain i → ¬s.HoldsPlain j →
    Shifts s c (.ok (.flag (decide (v ∈ s.setUnder i))),
      (s.shifted i j v).withRecorded (s.recorded ++ [(.known .move, c)]))

theorem Proper.execute_shifts (hs : s.Proper) (c : Command) : Shifts s c (s.execute (.known .move) c) := by
  rcases exists_fault_or_clear s .move c with ⟨f, hf⟩ | ⟨a, hmeans, -, hplain⟩
  · rw [hs.execute_of_error (hf.execute hs)]
    exact .refused hf
  · obtain ⟨i, j, v, rfl, rfl⟩ := Action.eq_move hmeans.action
    have hi : ¬s.HoldsPlain i := hplain i (by simp [Action.reads])
    have hj : ¬s.HoldsPlain j := hplain j (by simp [Action.reads])
    rw [← moving, hs.moving_eq hi hj v]
    exact .moved rfl hi hj

def Holds (s : Store) (v : Bytes) : Prop := ∃ k, v ∈ s.setUnder k

/-- How many members get lost by a move: one, if it succeeds between two keys that both have the value. -/
def merged (s : Store) : Command × Except Failure Reply → Nat
  | (.move (some i) (some j) v, .ok (.flag true)) => if i ≠ j ∧ v ∈ s.setUnder j then 1 else 0
  | _ => 0

def merges (s : Store) : List Command → Nat
  | [] => 0
  | c :: cs => s.merged (c, (s.execute (.known .move) c).1) + (s.execute (.known .move) c).2.merges cs

theorem mem_setUnder_shifted (hv : v ∈ s.setUnder i) (hij : i ≠ j) {w : Bytes} :
    w ∈ (s.shifted i j v).setUnder k ↔ k = j ∧ w = v ∨ w ∈ s.setUnder k ∧ ¬(k = i ∧ w = v) := by
  rw [shifted, if_pos ⟨hv, hij⟩]
  by_cases hj : k = j
  · subst hj
    simp [Ne.symm hij]
  · rw [setUnder_putSet_of_ne hj]
    by_cases hi : k = i
    · subst hi
      simp [hj]
    · simp [setUnder_putSet_of_ne hi, hi, hj]

theorem holds_shifted (s : Store) (i j v w : Bytes) : (s.shifted i j v).Holds w ↔ s.Holds w := by
  by_cases h : v ∈ s.setUnder i ∧ i ≠ j
  · obtain ⟨hv, hij⟩ := h
    constructor
    · rintro ⟨k, hk⟩
      rcases (mem_setUnder_shifted hv hij).1 hk with ⟨-, rfl⟩ | ⟨hk, -⟩
      · exact ⟨i, hv⟩
      · exact ⟨k, hk⟩
    · rintro ⟨k, hk⟩
      by_cases hw : w = v
      · exact ⟨j, (mem_setUnder_shifted hv hij).2 (.inl ⟨rfl, hw⟩)⟩
      · exact ⟨k, (mem_setUnder_shifted hv hij).2 (.inr ⟨hk, fun h => hw h.2⟩)⟩
  · rw [shifted, if_neg h]

/-- The number of members falls by the one that gets lost. -/
theorem Proper.total_shifted (hs : s.Proper) (hi : ¬s.HoldsPlain i) (hj : ¬s.HoldsPlain j) (v : Bytes) :
    (s.shifted i j v).data.total + s.merged (.move (some i) (some j) v, .ok (.flag (decide (v ∈ s.setUnder i)))) =
      s.data.total := by
  by_cases h : v ∈ s.setUnder i ∧ i ≠ j
  · obtain ⟨hv, hij⟩ := h
    have hsource := s.total_putSet i ((s.setUnder i).erase v)
    have hdestination := (s.putSet i ((s.setUnder i).erase v)).total_putSet j ((s.setUnder j).insert v)
    have hcardAt : (s.putSet i ((s.setUnder i).erase v)).data.cardAt j = s.data.cardAt j := by
      rw [Keyspace.cardAt, get?_putSet, if_neg (Ne.symm hij), Keyspace.cardAt]
    have hcard := MemberSet.card_erase_of_mem hv
    rw [hs.cardAt_eq hi] at hsource
    rw [hcardAt, hs.cardAt_eq hj] at hdestination
    simp only [shifted, merged, hv, hij, decide_true, ne_eq, not_false_eq_true, and_self, if_true, true_and]
    by_cases hmerged : v ∈ s.setUnder j
    · rw [MemberSet.insert_of_mem hmerged] at hdestination ⊢
      rw [if_pos hmerged]
      omega
    · rw [MemberSet.card_insert_of_notMem hmerged] at hdestination
      rw [if_neg hmerged]
      omega
  · rw [shifted, if_neg h]
    by_cases hv : v ∈ s.setUnder i
    · obtain rfl := not_not.1 (not_and.1 h hv)
      simp [merged, hv]
    · simp [merged, hv]

/-- No value gets lost by a call that asks for a move, or comes up. -/
theorem Shifts.holds_iff (h : Shifts s c turn) (v : Bytes) : turn.2.Holds v ↔ s.Holds v := by
  cases h with
  | refused => exact Iff.rfl
  | @moved i j u => exact s.holds_shifted i j u v

theorem Shifts.total (h : Shifts s c turn) (hs : s.Proper) :
    turn.2.data.total + s.merged (c, turn.1) = s.data.total := by
  cases h with
  | refused => simp [merged, record]
  | moved hc hi hj =>
    subst hc
    exact hs.total_shifted hi hj _

/-- A move against adding and removing. -/
structure MovesAsEdits (s : Store) (i j v : Bytes) : Prop where
  told : (s.moving i j v).1 = .ok (.flag (decide (v ∈ s.setUnder i)))
  removedFirst : v ∈ s.setUnder i → i ≠ j →
    (s.moving i j v).2.data = ((s.edited .remove i v).edited .add j v).data
  addedFirst : v ∈ s.setUnder i → i ≠ j →
    (s.moving i j v).2.data = ((s.edited .add j v).edited .remove i v).data
  idle : v ∉ s.setUnder i ∨ i = j → (s.moving i j v).2.data = s.data

/-- Several moves: the values that there are, and how many members. -/
structure Conserves (s : Store) (cs : List Command) : Prop where
  holds : ∀ v, (s.executeEach .move cs).Holds v ↔ s.Holds v
  total : (s.executeEach .move cs).data.total + s.merges cs = s.data.total

theorem Proper.movesAsEdits (hs : s.Proper) (hi : ¬s.HoldsPlain i) (hj : ¬s.HoldsPlain j) (v : Bytes) :
    s.MovesAsEdits i j v := by
  have hmoving := hs.moving_eq hi hj v
  have hremove : Edit.remove.apply (s.setUnder i) [v] = (s.setUnder i).erase v := by
    ext w
    simp [Edit.apply]
  have hadd : Edit.add.apply (s.setUnder j) [v] = (s.setUnder j).insert v := rfl
  have hshifted (hv : v ∈ s.setUnder i) (hij : i ≠ j) : (s.moving i j v).2.data =
      ((s.putSet i (Edit.remove.apply (s.setUnder i) [v])).putSet j (Edit.add.apply (s.setUnder j) [v])).data := by
    rw [hmoving, hremove, hadd, shifted, if_pos ⟨hv, hij⟩]
    rfl
  refine ⟨by rw [hmoving], fun hv hij => ?_, fun hv hij => ?_, fun hidle => ?_⟩
  · rw [hshifted hv hij, hs.edited_edited_data hi hj hij]
  · rw [hshifted hv hij, hs.edited_edited_data hj hi (Ne.symm hij), putSet_comm_data hij]
  · have hstay : ¬(v ∈ s.setUnder i ∧ i ≠ j) := fun h => hidle.elim (absurd h.1) h.2
    rw [hmoving, shifted, if_neg hstay]
    rfl

theorem Proper.conserves (hs : s.Proper) (cs : List Command) : s.Conserves cs := by
  induction cs generalizing s with
  | nil => exact ⟨fun _ => Iff.rfl, rfl⟩
  | cons c cs ih =>
    have hfirst := hs.execute_shifts c
    have hrest := ih (hs.execute (.known .move) c)
    refine ⟨fun v => (hrest.holds v).trans (hfirst.holds_iff v), ?_⟩
    calc (s.executeEach .move (c :: cs)).data.total + s.merges (c :: cs)
      _ = ((s.execute (.known .move) c).2.executeEach .move cs).data.total +
          (s.merged (c, (s.execute (.known .move) c).1) + (s.execute (.known .move) c).2.merges cs) := rfl
      _ = (s.execute (.known .move) c).2.data.total + s.merged (c, (s.execute (.known .move) c).1) := by
        rw [← hrest.total]
        omega
      _ = s.data.total := hfirst.total hs

/-- A move between two keys is the value taken out of the one set and added to the other, and by moves no value gets
lost, and no member but where a value was already in the other set. -/
theorem Reachable.moves_conserve (hs : s.Reachable) :
    (∀ i j v, ¬s.HoldsPlain i → ¬s.HoldsPlain j → s.MovesAsEdits i j v) ∧ ∀ cs, s.Conserves cs :=
  ⟨fun _ _ v hi hj => hs.proper.movesAsEdits hi hj v, hs.proper.conserves⟩

def doubled : Store := (lodged.execute (.known .add) (.add (some [109]) [[97]])).2

/-- That value moved from the one key to the other and back, another one to itself and to a plain value, and a move
without a destination. -/
def removals : List Command :=
  [.move (some [107]) (some [109]) [97], .move (some [109]) (some [107]) [97], .move (some [107]) (some [107]) [98],
    .move (some [107]) (some [112]) [98], .move (some [107]) none [98]]

theorem moves_conserve_doubled : doubled.Reachable ∧ ¬doubled.HoldsPlain [107] ∧ ¬doubled.HoldsPlain [109] ∧
    doubled.MovesAsEdits [107] [109] [97] ∧ doubled.Conserves removals ∧
    (doubled.executeEach .move removals).data.total + 1 = doubled.data.total := by
  have hreachable : doubled.Reachable := .execute _ _ reachable_lodged
  have hsource : ¬doubled.HoldsPlain [107] := by decide
  have hdestination : ¬doubled.HoldsPlain [109] := by decide
  obtain ⟨hmoves, hconserves⟩ := hreachable.moves_conserve
  have hmerges : doubled.merges removals = 1 := rfl
  exact ⟨hreachable, hsource, hdestination, hmoves _ _ [97] hsource hdestination, hconserves removals,
    hmerges ▸ (hconserves removals).total⟩

end Store
end SetPipeline
