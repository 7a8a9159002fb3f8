import SetPipeline.MemberSet
import SetPipeline.Datum

/-! The key space: what each key holds, as a list of entries by increasing key. Two key spaces that hold
the same under every key are equal. -/
namespace SetPipeline

/-- A member of any kind. A label tells members apart that do not equal even themselves. -/
structure Member where
  value : Datum
  label : Option Nat

def Member.ofBytes (b : Bytes) : Member := ⟨.bytes b, none⟩

/-- A key holds a set of byte strings, a set with other members too, or a plain value that set operations
cannot use. -/
inductive Entry where
  | set (members : MemberSet)
  | mixed (members : List Member)
  | plain (value : Datum)

namespace Entry

def isMixed : Entry → Bool
  | mixed _ => true
  | _ => false

def labelCount : Entry → Nat
  | mixed ms => ms.length
  | set _ | plain _ => 0

def toDatum : Entry → Datum
  | set m => .set (m.toList.map .bytes)
  | mixed ms => .set (ms.map (·.value))
  | plain d => d

def ofMembers (ms : List Member) : Entry :=
  match ms.mapM fun m => m.value.bytes? with
  | some bs => set (.ofList bs)
  | none => mixed ms

/-- The entry that a value makes, its members being labelled from a number on. -/
def ofDatum (label : Nat) : Datum → Entry
  | .set ds => ofMembers ((ds.zipIdx label).map fun p => ⟨p.1, some p.2⟩)
  | d => plain d

end Entry

structure Keyspace where
  toList : List (Bytes × Entry)
  increasing : (toList.map (·.1)).Pairwise (· < ·)

namespace Keyspace

theorem nil_increasing : (([] : List (Bytes × Entry)).map (·.1)).Pairwise (· < ·) := List.Pairwise.nil

def empty : Keyspace := ⟨[], nil_increasing⟩

instance : EmptyCollection Keyspace := ⟨empty⟩
instance : Inhabited Keyspace := ⟨empty⟩

def get? (d : Keyspace) (k : Bytes) : Option Entry := d.toList.lookup k

@[simp] theorem get?_empty (k : Bytes) : (∅ : Keyspace).get? k = none := rfl

def putList (k : Bytes) (e : Entry) : List (Bytes × Entry) → List (Bytes × Entry)
  | [] => [(k, e)]
  | x :: xs =>
    if k < x.1 then (k, e) :: x :: xs else if k = x.1 then (k, e) :: xs else x :: putList k e xs

theorem keys_putList {j k : Bytes} {e : Entry} {xs : List (Bytes × Entry)} :
    j ∈ (putList k e xs).map (·.1) ↔ j = k ∨ j ∈ xs.map (·.1) := by
  induction xs with
  | nil => simp [putList]
  | cons x xs ih =>
    unfold putList
    split
    · simp
    · split
      · next h => subst h; simp
      · rw [List.map_cons, List.mem_cons, ih, List.map_cons, List.mem_cons]; grind

theorem putList_increasing {k : Bytes} {e : Entry} {xs : List (Bytes × Entry)}
    (h : (xs.map (·.1)).Pairwise (· < ·)) : ((putList k e xs).map (·.1)).Pairwise (· < ·) := by
  induction xs with
  | nil => simp [putList]
  | cons x xs ih =>
    obtain ⟨hx, hxs⟩ := List.pairwise_cons.1 h
    unfold putList
    split
    · next hk =>
      refine .cons (fun j hj => ?_) h
      rcases List.mem_cons.1 hj with rfl | hj
      · exact hk
      · exact List.lt_trans hk (hx j hj)
    · split
      · next hk => exact .cons (hk ▸ hx) hxs
      · next hlt hne =>
        refine .cons (fun j hj => ?_) (ih hxs)
        rcases keys_putList.1 hj with rfl | hj
        · exact (MemberSet.lt_or_eq_or_gt _ _).resolve_left hlt |>.resolve_left hne
        · exact hx j hj

def put (d : Keyspace) (k : Bytes) (e : Entry) : Keyspace :=
  ⟨putList k e d.toList, putList_increasing d.increasing⟩

def erase (d : Keyspace) (k : Bytes) : Keyspace :=
  ⟨d.toList.filter (·.1 != k), d.increasing.sublist (List.filter_sublist.map _)⟩

theorem lookup_eq_none {k : Bytes} {xs : List (Bytes × Entry)} :
    xs.lookup k = none ↔ k ∉ xs.map (·.1) := by
  induction xs with
  | nil => simp
  | cons x xs ih => rw [List.lookup_cons]; split <;> simp_all

theorem get?_put (d : Keyspace) (j k : Bytes) (e : Entry) :
    (d.put k e).get? j = if j = k then some e else d.get? j := by
  have := d.increasing
  simp only [put, get?]
  generalize d.toList = xs at this
  induction xs with
  | nil => simp [putList, List.lookup_cons]; grind
  | cons x xs ih =>
    obtain ⟨hx, hxs⟩ := List.pairwise_cons.1 this
    unfold putList
    split
    · rw [List.lookup_cons]; grind
    · split
      · rw [List.lookup_cons, List.lookup_cons]; grind
      · rw [List.lookup_cons, List.lookup_cons, ih hxs]; grind

@[simp] theorem get?_put_self (d : Keyspace) (k : Bytes) (e : Entry) : (d.put k e).get? k = some e := by
  simp [get?_put]

theorem get?_put_of_ne {d : Keyspace} {j k : Bytes} {e : Entry} (h : j ≠ k) :
    (d.put k e).get? j = d.get? j := by
  simp [get?_put, h]

theorem get?_erase (d : Keyspace) (j k : Bytes) :
    (d.erase k).get? j = if j = k then none else d.get? j := by
  simp only [erase, get?]
  generalize d.toList = xs
  induction xs with
  | nil => simp
  | cons x xs ih =>
    rw [List.filter_cons]
    split
    · rw [List.lookup_cons, List.lookup_cons, ih]; grind
    · rw [List.lookup_cons, ih]; grind

@[simp] theorem get?_erase_self (d : Keyspace) (k : Bytes) : (d.erase k).get? k = none := by
  simp [get?_erase]

theorem get?_erase_of_ne {d : Keyspace} {j k : Bytes} (h : j ≠ k) :
    (d.erase k).get? j = d.get? j := by
  simp [get?_erase, h]

theorem eq_of_lookup {xs ys : List (Bytes × Entry)} (hx : (xs.map (·.1)).Pairwise (· < ·))
    (hy : (ys.map (·.1)).Pairwise (· < ·)) (h : ∀ k, xs.lookup k = ys.lookup k) : xs = ys := by
  induction xs generalizing ys with
  | nil =>
    cases ys with
    | nil => rfl
    | cons y ys =>
      have := h y.1
      rw [List.lookup_cons] at this
      simp at this
  | cons x xs ih =>
    cases ys with
    | nil =>
      have := h x.1
      rw [List.lookup_cons] at this
      simp at this
    | cons y ys =>
      obtain ⟨hx1, hx2⟩ := List.pairwise_cons.1 hx
      obtain ⟨hy1, hy2⟩ := List.pairwise_cons.1 hy
      have mem (zs : List (Bytes × Entry)) (k : Bytes) (hk : zs.lookup k ≠ none) :
          k ∈ zs.map (·.1) := by
        by_cases hm : k ∈ zs.map (·.1)
        · exact hm
        · exact absurd (lookup_eq_none.2 hm) hk
      have hxy : x.1 = y.1 := by
        have a := mem (y :: ys) x.1 (by rw [← h, List.lookup_cons]; simp)
        have b := mem (x :: xs) y.1 (by rw [h, List.lookup_cons]; simp)
        rcases List.mem_cons.1 a with a | a
        · exact a
        · rcases List.mem_cons.1 b with b | b
          · exact b.symm
          · exact absurd (List.lt_trans (hx1 _ b) (hy1 _ a)) (List.lt_irrefl _)
      have hv : x.2 = y.2 := by
        have := h x.1
        rw [List.lookup_cons, List.lookup_cons] at this
        simpa [hxy] using this
      have hxy' : x = y := Prod.ext hxy hv
      subst hxy'
      congr 1
      refine ih hx2 hy2 fun k => ?_
      by_cases hk : k = x.1
      · subst hk
        rw [lookup_eq_none.2 fun hm => List.lt_irrefl _ (hx1 _ hm),
          lookup_eq_none.2 fun hm => List.lt_irrefl _ (hy1 _ hm)]
      · have := h k
        rwa [List.lookup_cons, List.lookup_cons, beq_false_of_ne hk] at this

@[ext] theorem ext {d e : Keyspace} (h : ∀ k, d.get? k = e.get? k) : d = e := by
  have := eq_of_lookup d.increasing e.increasing h
  cases d; cases e; simp_all

theorem put_comm {d : Keyspace} {j k : Bytes} {a b : Entry} (h : j ≠ k) :
    (d.put j a).put k b = (d.put k b).put j a := by
  ext i
  simp only [get?_put]
  grind

end Keyspace
end SetPipeline
