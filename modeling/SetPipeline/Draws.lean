/-! A source of random choices: the numbers still to come, with zeros after the last, and how many have
been taken. A choice among `n` positions is the next number modulo `n`. -/
namespace SetPipeline

structure Draws where
  upcoming : List Nat
  used : Nat
  deriving DecidableEq, Repr

namespace Draws

def ofList (ns : List Nat) : Draws := ⟨ns, 0⟩

def next (d : Draws) : Nat × Draws := (d.upcoming.headD 0, ⟨d.upcoming.tail, d.used + 1⟩)

@[simp] theorem next_used (d : Draws) : d.next.2.used = d.used + 1 := rfl

def position (d : Draws) (xs : List α) : Nat := d.next.1 % xs.length

theorem position_lt {d : Draws} {xs : List α} (h : xs ≠ []) : d.position xs < xs.length :=
  Nat.mod_lt _ (List.length_pos_iff.2 h)

def choose (d : Draws) (x : α) (xs : List α) : α × Draws :=
  ((x :: xs).getD (d.position (x :: xs)) x, d.next.2)

theorem choose_mem (d : Draws) (x : α) (xs : List α) : (d.choose x xs).1 ∈ x :: xs := by
  have h := position_lt (d := d) (List.cons_ne_nil x xs)
  simp only [choose, List.getD_eq_getElem?_getD, List.getElem?_eq_getElem h, Option.getD_some]
  exact List.getElem_mem h

@[simp] theorem choose_used (d : Draws) (x : α) (xs : List α) :
    (d.choose x xs).2.used = d.used + 1 := rfl

def chooseMany (x : α) (xs : List α) : Nat → Draws → List α × Draws
  | 0, d => ([], d)
  | n + 1, d =>
    let (y, d) := d.choose x xs
    let (ys, d) := chooseMany x xs n d
    (y :: ys, d)

theorem chooseMany_length (x : α) (xs : List α) (n : Nat) (d : Draws) :
    (chooseMany x xs n d).1.length = n := by
  induction n generalizing d <;> simp_all [chooseMany]

/-- Take `n` items out of a list, one after the other. -/
def sample : Nat → List α → Draws → List α × Draws
  | 0, _, d => ([], d)
  | _ + 1, [], d => ([], d)
  | n + 1, x :: xs, d =>
    let i := d.position (x :: xs)
    let (ys, e) := sample n ((x :: xs).eraseIdx i) d.next.2
    ((x :: xs).getD i x :: ys, e)

theorem sample_length {n : Nat} {xs : List α} {d : Draws} (h : n ≤ xs.length) :
    (sample n xs d).1.length = n := by
  induction n generalizing xs d with
  | zero => rfl
  | succ n ih =>
    cases xs with
    | nil => simp at h
    | cons x xs =>
      have hp := position_lt (d := d) (List.cons_ne_nil x xs)
      simp only [sample, List.length_cons]
      rw [ih]
      rw [List.length_eraseIdx_of_lt hp]
      simp at h ⊢
      exact h

/-- Without a count one choice; for a count that is not negative distinct items, as many as there are; for a
negative one that many choices with repetition. -/
def several (count : Option Int) (x : α) (xs : List α) (d : Draws) : List α × Draws :=
  match count with
  | none => chooseMany x xs 1 d
  | some n =>
    if 0 ≤ n then sample (min n (x :: xs).length).toNat (x :: xs) d else chooseMany x xs n.natAbs d

end Draws
end SetPipeline
