import Mathlib.Data.List.GetD
import Mathlib.Data.List.Perm.Subperm
import SetPipeline.Draws

/-! What random choices can give. A choice can give any item of its list and nothing else, a sample any list that
some of the items make in some order, and choices with repetition any list of items. -/
namespace SetPipeline.Draws

variable {α : Type}

/-- With some numbers to come something is drawn, whatever comes behind them, and just these are taken. -/
def Gives (draw : Draws → α × Draws) (ns : List Nat) (a : α) : Prop :=
  ∀ rest used, draw ⟨ns ++ rest, used⟩ = (a, ⟨rest, used + ns.length⟩)

theorem Gives.upcoming {draw : Draws → α × Draws} {ns : List Nat} {a : α} (h : Gives draw ns a) :
    (draw ⟨ns, 0⟩).1 = a := by
  have hdraw := h [] 0
  rw [List.append_nil] at hdraw
  rw [hdraw]

theorem several_of_nonneg {c : Int} (hc : 0 ≤ c) (x : α) (xs : List α) :
    several (some c) x xs = sample (min c (x :: xs).length).toNat (x :: xs) := by
  funext d
  simp only [several, hc, if_true]

theorem several_of_neg {c : Int} (hc : c < 0) (x : α) (xs : List α) :
    several (some c) x xs = chooseMany x xs c.natAbs := by
  funext d
  simp only [several, Int.not_le.2 hc, if_false]

theorem several_none (x : α) (xs : List α) : several none x xs = several (some 1) x xs := by
  have hone : (min 1 ((x :: xs).length : Int)).toNat = 1 := by
    rw [List.length_cons]
    omega
  rw [several_of_nonneg (by decide), hone]
  rfl

theorem chooseMany_subset (x : α) (xs : List α) (n : Nat) (d : Draws) :
    ∀ b ∈ (chooseMany x xs n d).1, b ∈ x :: xs := by
  induction n generalizing d with
  | zero => simp [chooseMany]
  | succ n ih =>
    simp only [chooseMany]
    exact List.forall_mem_cons.2 ⟨d.choose_mem x xs, ih _⟩

/-- A sample has items of the list, each at most as often as the list has it. -/
theorem sample_subperm (n : Nat) (xs : List α) (d : Draws) : (sample n xs d).1.Subperm xs := by
  induction n generalizing xs d with
  | zero => exact List.nil_subperm
  | succ n ih =>
    cases xs with
    | nil => exact List.nil_subperm
    | cons x xs =>
      have hlt := position_lt (d := d) (List.cons_ne_nil x xs)
      simp only [sample, List.getD_eq_getElem _ _ hlt]
      have hrest := ih ((x :: xs).eraseIdx (d.position (x :: xs))) d.next.2
      exact ((List.subperm_cons _).2 hrest).trans (List.getElem_cons_eraseIdx_perm hlt).subperm

theorem sample_nodup {xs : List α} (h : xs.Nodup) (n : Nat) (d : Draws) : (sample n xs d).1.Nodup := by
  obtain ⟨ys, hperm, hsub⟩ := sample_subperm n xs d
  exact hperm.nodup_iff.1 (hsub.nodup h)

variable [DecidableEq α] {x b : α} {xs bs : List α}

theorem exists_choose (hb : b ∈ x :: xs) : ∃ n, Gives (fun d => d.choose x xs) [n] b := by
  have hlt : (x :: xs).idxOf b < (x :: xs).length := List.idxOf_lt_length_iff.2 hb
  refine ⟨(x :: xs).idxOf b, fun rest used => Prod.ext ?_ rfl⟩
  show (x :: xs).getD ((x :: xs).idxOf b % (x :: xs).length) x = b
  rw [Nat.mod_eq_of_lt hlt, List.getD_eq_getElem _ _ hlt, List.getElem_idxOf]

theorem exists_chooseMany (hbs : ∀ b ∈ bs, b ∈ x :: xs) : ∃ ns, Gives (chooseMany x xs bs.length) ns bs := by
  induction bs with
  | nil => exact ⟨[], fun _ _ => rfl⟩
  | cons b bs ih =>
    obtain ⟨hb, hrest⟩ := List.forall_mem_cons.1 hbs
    obtain ⟨n, hn⟩ := exists_choose hb
    obtain ⟨ns, hns⟩ := ih hrest
    refine ⟨n :: ns, fun rest used => ?_⟩
    have hchoose := hn (ns ++ rest) used
    simp only [List.cons_append, List.nil_append, List.length_singleton] at hchoose
    simp only [List.length_cons, List.cons_append, chooseMany, hchoose, hns rest (used + 1), Nat.add_assoc,
      Nat.add_comm 1]

theorem exists_sample (h : bs.Subperm xs) : ∃ ns, Gives (sample bs.length xs) ns bs := by
  induction bs generalizing xs with
  | nil => exact ⟨[], fun _ _ => rfl⟩
  | cons b bs ih =>
    have hb : b ∈ xs := h.subset List.mem_cons_self
    cases xs with
    | nil => cases hb
    | cons x xs =>
      have hlt : (x :: xs).idxOf b < (x :: xs).length := List.idxOf_lt_length_iff.2 hb
      have hrest : bs.Subperm ((x :: xs).erase b) := by simpa using h.erase b
      obtain ⟨ns, hns⟩ := ih hrest
      refine ⟨(x :: xs).idxOf b :: ns, fun rest used => ?_⟩
      have hposition : position ⟨(x :: xs).idxOf b :: (ns ++ rest), used⟩ (x :: xs) = (x :: xs).idxOf b :=
        Nat.mod_eq_of_lt hlt
      have hnext : (next ⟨(x :: xs).idxOf b :: (ns ++ rest), used⟩).2 = ⟨ns ++ rest, used + 1⟩ := rfl
      simp only [List.length_cons, List.cons_append, sample, hposition, hnext, List.eraseIdx_idxOf_eq_erase,
        hns rest (used + 1), List.getD_eq_getElem _ _ hlt, List.getElem_idxOf, Nat.add_assoc, Nat.add_comm 1]

end SetPipeline.Draws
