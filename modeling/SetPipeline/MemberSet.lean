import SetPipeline.Bytes
import SetPipeline.Operation

/-! Finite sets of byte strings, kept as strictly increasing lists. Two sets with the same members are
equal, and the list is the sorted order that random draws refer to. -/
namespace SetPipeline

structure MemberSet where
  toList : List Bytes
  increasing : toList.Pairwise (· < ·)

namespace MemberSet

instance : Membership Bytes MemberSet := ⟨fun s b => b ∈ s.toList⟩

theorem mem_def {b : Bytes} {s : MemberSet} : b ∈ s ↔ b ∈ s.toList := Iff.rfl

instance (b : Bytes) (s : MemberSet) : Decidable (b ∈ s) := inferInstanceAs (Decidable (b ∈ s.toList))

theorem lt_or_eq_or_gt (a b : Bytes) : a < b ∨ a = b ∨ b < a := by
  by_cases h : a < b
  · exact .inl h
  · by_cases h' : b < a
    · exact .inr (.inr h')
    · exact .inr (.inl (List.le_antisymm (List.not_lt.1 h') (List.not_lt.1 h)))

theorem nodup (s : MemberSet) : s.toList.Nodup := by
  refine List.Pairwise.imp ?_ s.increasing
  rintro a _ h rfl
  exact List.lt_irrefl a h

@[ext] theorem ext {s t : MemberSet} (h : ∀ b, b ∈ s ↔ b ∈ t) : s = t := by
  have hp : s.toList.Perm t.toList := (List.perm_ext_iff_of_nodup s.nodup t.nodup).2 h
  have he := hp.eq_of_pairwise (fun a b _ _ hab hba => absurd hba (List.lt_asymm hab))
    s.increasing t.increasing
  cases s; cases t; simp_all

instance : DecidableEq MemberSet := fun s t =>
  decidable_of_iff (s.toList = t.toList) ⟨fun h => by cases s; cases t; simp_all, fun h => h ▸ rfl⟩

def empty : MemberSet := ⟨[], .nil⟩

instance : EmptyCollection MemberSet := ⟨empty⟩
instance : Inhabited MemberSet := ⟨empty⟩

@[simp] theorem not_mem_empty (b : Bytes) : b ∉ (∅ : MemberSet) := List.not_mem_nil

def insertList (b : Bytes) : List Bytes → List Bytes
  | [] => [b]
  | c :: cs => if b < c then b :: c :: cs else if b = c then c :: cs else c :: insertList b cs

theorem mem_insertList {a b : Bytes} {cs : List Bytes} : a ∈ insertList b cs ↔ a = b ∨ a ∈ cs := by
  induction cs with
  | nil => simp [insertList]
  | cons c cs ih =>
    unfold insertList
    split
    · simp
    · split <;> grind

theorem insertList_increasing {b : Bytes} {cs : List Bytes} (h : cs.Pairwise (· < ·)) :
    (insertList b cs).Pairwise (· < ·) := by
  induction cs with
  | nil => simp [insertList]
  | cons c cs ih =>
    obtain ⟨hc, hcs⟩ := List.pairwise_cons.1 h
    unfold insertList
    split
    · next hb =>
      refine .cons (fun d hd => ?_) h
      rcases List.mem_cons.1 hd with rfl | hd
      · exact hb
      · exact List.lt_trans hb (hc d hd)
    · split
      · exact h
      · next hlt hne =>
        refine .cons (fun d hd => ?_) (ih hcs)
        rcases mem_insertList.1 hd with rfl | hd
        · exact (lt_or_eq_or_gt _ _).resolve_left hlt |>.resolve_left hne
        · exact hc d hd

def insert (b : Bytes) (s : MemberSet) : MemberSet :=
  ⟨insertList b s.toList, insertList_increasing s.increasing⟩

@[simp] theorem mem_insert {a b : Bytes} {s : MemberSet} : a ∈ s.insert b ↔ a = b ∨ a ∈ s :=
  mem_insertList

def filter (p : Bytes → Bool) (s : MemberSet) : MemberSet := ⟨s.toList.filter p, s.increasing.filter p⟩

@[simp] theorem mem_filter {p : Bytes → Bool} {a : Bytes} {s : MemberSet} :
    a ∈ s.filter p ↔ a ∈ s ∧ p a := List.mem_filter

def erase (b : Bytes) (s : MemberSet) : MemberSet := s.filter (· != b)

@[simp] theorem mem_erase {a b : Bytes} {s : MemberSet} : a ∈ s.erase b ↔ a ∈ s ∧ a ≠ b := by
  simp [erase]

def insertAll (s : MemberSet) (bs : List Bytes) : MemberSet := bs.foldl (fun t b => t.insert b) s

@[simp] theorem mem_insertAll {a : Bytes} {s : MemberSet} {bs : List Bytes} :
    a ∈ s.insertAll bs ↔ a ∈ s ∨ a ∈ bs := by
  unfold insertAll
  induction bs generalizing s with
  | nil => simp
  | cons b bs ih => simp [ih]; grind

def eraseAll (s : MemberSet) (bs : List Bytes) : MemberSet := s.filter (!bs.contains ·)

@[simp] theorem mem_eraseAll {a : Bytes} {s : MemberSet} {bs : List Bytes} :
    a ∈ s.eraseAll bs ↔ a ∈ s ∧ a ∉ bs := by
  simp [eraseAll]

def ofList (bs : List Bytes) : MemberSet := empty.insertAll bs

@[simp] theorem mem_ofList {a : Bytes} {bs : List Bytes} : a ∈ ofList bs ↔ a ∈ bs := by
  rw [ofList, mem_insertAll]
  simp [show empty = ∅ from rfl]

def card (s : MemberSet) : Nat := s.toList.length

def isEmpty (s : MemberSet) : Bool := s.toList.isEmpty

@[simp] theorem isEmpty_iff {s : MemberSet} : s.isEmpty = true ↔ s = ∅ := by
  refine ⟨fun h => ext fun b => ?_, fun h => h ▸ rfl⟩
  simp [mem_def, List.isEmpty_iff.1 h, show (∅ : MemberSet).toList = [] from rfl]

theorem card_eq_zero {s : MemberSet} : s.card = 0 ↔ s = ∅ := by
  rw [← isEmpty_iff, isEmpty, List.isEmpty_iff, card, List.length_eq_zero_iff]

def inter (s t : MemberSet) : MemberSet := s.filter (fun a => a ∈ t)
def union (s t : MemberSet) : MemberSet := s.insertAll t.toList
def diff (s t : MemberSet) : MemberSet := s.filter (fun a => a ∉ t)

@[simp] theorem mem_inter {a : Bytes} {s t : MemberSet} : a ∈ s.inter t ↔ a ∈ s ∧ a ∈ t := by
  simp [inter]

@[simp] theorem mem_union {a : Bytes} {s t : MemberSet} : a ∈ s.union t ↔ a ∈ s ∨ a ∈ t := by
  rw [union, mem_insertAll, mem_def (s := t)]

@[simp] theorem mem_diff {a : Bytes} {s t : MemberSet} : a ∈ s.diff t ↔ a ∈ s ∧ a ∉ t := by
  simp [diff]

def combine (how : Combination) (s : MemberSet) (ts : List MemberSet) : MemberSet :=
  match how with
  | .inter => ts.foldl inter s
  | .union => ts.foldl union s
  | .diff => ts.foldl diff s

theorem combine_nil (how : Combination) (s : MemberSet) : combine how s [] = s := by
  cases how <;> rfl

theorem combine_append (how : Combination) (s : MemberSet) (ts us : List MemberSet) :
    combine how s (ts ++ us) = combine how (combine how s ts) us := by
  cases how <;> simp [combine]

end MemberSet
end SetPipeline
