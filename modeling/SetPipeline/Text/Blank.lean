/-! White space: the characters of the Unicode property, and the wider class that also counts the four
ASCII separators between fields, groups, records and files. -/
namespace SetPipeline.Text

/-- The Unicode property White_Space. -/
def isBlank (c : Char) : Bool :=
  let n := c.toNat
  (9 ≤ n && n ≤ 13) || n == 0x20 || n == 0x85 || n == 0xA0 || n == 0x1680 ||
    (0x2000 ≤ n && n ≤ 0x200A) || n == 0x2028 || n == 0x2029 || n == 0x202F || n == 0x205F ||
    n == 0x3000

/-- White space or one of the separators from 0x1C to 0x1F. -/
def isSeparator (c : Char) : Bool := isBlank c || (0x1C ≤ c.toNat && c.toNat ≤ 0x1F)

def trim (blank : Char → Bool) (s : List Char) : List Char :=
  ((s.dropWhile blank).reverse.dropWhile blank).reverse

theorem isSeparator_of_isBlank {c : Char} (h : isBlank c) : isSeparator c := by
  simp [isSeparator, h]

@[simp] theorem trim_nil (blank : Char → Bool) : trim blank [] = [] := rfl

theorem trim_eq_nil_of_all {blank : Char → Bool} {s : List Char} (h : ∀ c ∈ s, blank c) :
    trim blank s = [] := by
  have hd : s.dropWhile blank = [] := by
    induction s with
    | nil => rfl
    | cons c s ih =>
      rw [List.dropWhile_cons_of_pos (h c (by simp))]
      exact ih fun d hd => h d (by simp [hd])
  simp [trim, hd]

end SetPipeline.Text
