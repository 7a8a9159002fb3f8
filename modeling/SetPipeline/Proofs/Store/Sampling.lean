import SetPipeline.Proofs.Draws
import SetPipeline.Proofs.Store.Faults

/-! Members taken at random. What a call gives is a list of the shape that its count asks for, every list of that
shape is given for some random choices, and nothing is changed but the source of these. -/
namespace SetPipeline

theorem Command.means_randomMembers (k : Bytes) (count : Option Int) :
    (randomMembers (some k) count).Means .randomMembers (.randomMembers k count) :=
  ⟨rfl, by simp [Lacks, required], rfl⟩

namespace MemberSet

/-- The lists of members that a count asks for: of no members none, without a count one, for a count that is not
negative as many as it says or as there are, no two the same, and for a negative one as many as its size. -/
def Samples (m : MemberSet) (count : Option Int) (bs : List Bytes) : Prop :=
  (∀ b ∈ bs, b ∈ m) ∧
    if m = ∅ then bs = []
    else match count with
      | none => bs.length = 1
      | some c => if 0 ≤ c then bs.Nodup ∧ (bs.length : Int) = min c m.card else (bs.length : Int) = -c

def draw (m : MemberSet) (count : Option Int) (d : Draws) : List Bytes × Draws :=
  match m.toList with
  | [] => ([], d)
  | x :: xs => d.several count x xs

variable {m : MemberSet} {x : Bytes} {xs bs : List Bytes} {count : Option Int}

theorem eq_empty_of_toList (hm : m.toList = []) : m = ∅ := isEmpty_iff.1 (List.isEmpty_iff.2 hm)

theorem ne_empty_of_toList (hm : m.toList = x :: xs) : m ≠ ∅ := by
  rintro rfl
  cases hm

theorem draw_of_toList (hm : m.toList = x :: xs) (count : Option Int) : m.draw count = Draws.several count x xs := by
  funext d
  simp only [draw, hm]

theorem chooseMany_subset (hm : m.toList = x :: xs) (n : Nat) (d : Draws) :
    ∀ b ∈ (Draws.chooseMany x xs n d).1, b ∈ m := by
  intro b hb
  rw [mem_def, hm]
  exact Draws.chooseMany_subset x xs n d b hb

theorem samples_draw (m : MemberSet) (count : Option Int) (d : Draws) : m.Samples count (m.draw count d).1 := by
  unfold Samples
  cases hm : m.toList with
  | nil =>
    obtain rfl := eq_empty_of_toList hm
    exact ⟨fun b hb => (nomatch hb), rfl⟩
  | cons x xs =>
    rw [draw_of_toList hm, if_neg (ne_empty_of_toList hm)]
    cases count with
    | none => exact ⟨chooseMany_subset hm 1 d, Draws.chooseMany_length x xs 1 d⟩
    | some c =>
      rcases Int.lt_or_le c 0 with hc | hc
      · simp only [Draws.several_of_neg hc, if_neg (Int.not_le.2 hc)]
        refine ⟨chooseMany_subset hm _ d, ?_⟩
        rw [Draws.chooseMany_length]
        omega
      · simp only [Draws.several_of_nonneg hc, if_pos hc, ← hm]
        refine ⟨(Draws.sample_subperm _ _ d).subset, Draws.sample_nodup m.nodup _ d, ?_⟩
        rw [Draws.sample_length (by omega), card]
        omega

theorem exists_draw (h : m.Samples count bs) : ∃ ns, Draws.Gives (m.draw count) ns bs := by
  obtain ⟨hmem, hshape⟩ := h
  cases hm : m.toList with
  | nil =>
    obtain rfl := eq_empty_of_toList hm
    obtain rfl : bs = [] := hshape
    exact ⟨[], fun _ _ => rfl⟩
  | cons x xs =>
    rw [if_neg (ne_empty_of_toList hm)] at hshape
    have hitems : ∀ b ∈ bs, b ∈ x :: xs := fun b hb => hm ▸ mem_def.1 (hmem b hb)
    rw [draw_of_toList hm]
    cases count with
    | none =>
      have hlength : bs.length = 1 := hshape
      have hmany := Draws.exists_chooseMany hitems
      rwa [hlength] at hmany
    | some c =>
      rcases Int.lt_or_le c 0 with hc | hc
      · simp only [if_neg (Int.not_le.2 hc)] at hshape
        have hlength : c.natAbs = bs.length := by omega
        rw [Draws.several_of_neg hc, hlength]
        exact Draws.exists_chooseMany hitems
      · simp only [if_pos hc] at hshape
        obtain ⟨hnodup, hcount⟩ := hshape
        have hlength : (min c (x :: xs).length).toNat = bs.length := by
          rw [← hm, ← card, ← hcount, Int.toNat_natCast]
        rw [Draws.several_of_nonneg hc, hlength]
        exact Draws.exists_sample (List.subperm_of_subset hnodup hitems)

theorem draw_none (m : MemberSet) : m.draw none = m.draw (some 1) := by
  funext d
  unfold draw
  split
  · rfl
  · rw [Draws.several_none]

end MemberSet

namespace Store

def withDraws (s : Store) (d : Draws) : Store := { s with draws := d }

def sampling (s : Store) (k : Bytes) (count : Option Int) : Except Failure Reply × Store :=
  s.execute (.known .randomMembers) (.randomMembers (some k) count)

variable {s : Store} {k : Bytes}

theorem perform_randomMembers (h : s.setAt k = .ok (s.setUnder k)) (count : Option Int) :
    s.perform (.randomMembers k count) =
      (.ok (.members ((s.setUnder k).draw count s.draws).1), s.withDraws ((s.setUnder k).draw count s.draws).2) := by
  simp only [perform, randomFrom, reading_of_ok h, MemberSet.draw]
  cases (s.setUnder k).toList <;> rfl

theorem Proper.sampling_eq (hs : s.Proper) (hk : ¬s.HoldsPlain k) (count : Option Int) :
    s.sampling k count = (.ok (.members ((s.setUnder k).draw count s.draws).1),
      (s.withDraws ((s.setUnder k).draw count s.draws).2).record (.known .randomMembers)
        (.randomMembers (some k) count)) := by
  rw [sampling, hs.execute_of_means (Command.means_randomMembers k count), perform_randomMembers (hs.setAt_eq_ok hk)]
  rfl

/-- What calls for random members of a key's set give, whatever the source of random choices is. -/
structure Sampled (s : Store) (k : Bytes) : Prop where
  drawn : ∀ d count, ∃ bs e, (s.withDraws d).sampling k count =
    (.ok (.members bs), (s.withDraws e).record (.known .randomMembers) (.randomMembers (some k) count)) ∧
      (s.setUnder k).Samples count bs
  every : ∀ count bs, (s.setUnder k).Samples count bs →
    ∃ d, ((s.withDraws d).sampling k count).1 = .ok (.members bs)
  single : ∀ d, ((s.withDraws d).sampling k none).1 = ((s.withDraws d).sampling k (some 1)).1

/-- A call gives such members as its count asks for, any such members can be given, and the store stays as it is
apart from its source of random choices and its record of calls. -/
theorem Reachable.sampled (hs : s.Reachable) (hk : ¬s.HoldsPlain k) : s.Sampled k := by
  have heq (d : Draws) (count : Option Int) := Proper.sampling_eq (s := s.withDraws d) hs.proper hk count
  refine ⟨fun d count => ⟨_, _, heq d count, MemberSet.samples_draw _ _ _⟩, fun count bs h => ?_, fun d => ?_⟩
  · obtain ⟨ns, hns⟩ := MemberSet.exists_draw h
    refine ⟨⟨ns, 0⟩, ?_⟩
    rw [heq, ← hns.upcoming]
    rfl
  · rw [heq, heq, MemberSet.draw_none]

theorem sampled_lodged : lodged.Reachable ∧ ¬lodged.HoldsPlain [107] ∧ lodged.Sampled [107] ∧
    (lodged.setUnder [107]).Samples (some (-3)) [[98], [97], [98]] ∧
    ∃ d, ((lodged.withDraws d).sampling [107] (some (-3))).1 = .ok (.members [[98], [97], [98]]) := by
  have hplain : ¬lodged.HoldsPlain [107] := by decide
  have hsampled := reachable_lodged.sampled hplain
  have hshape : (lodged.setUnder [107]).Samples (some (-3)) [[98], [97], [98]] := by
    unfold MemberSet.Samples
    decide
  exact ⟨reachable_lodged, hplain, hsampled, hshape, hsampled.every _ _ hshape⟩

end Store
end SetPipeline
