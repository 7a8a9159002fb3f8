import Mathlib.Data.List.DropRight
import SetPipeline.Config
import SetPipeline.Proofs.Decimal
import SetPipeline.Proofs.Except
import SetPipeline.Proofs.Number

/-! Configurations from the environment. Each variable settles its own field, and what the texts give has passed the
checks; but not-a-number passes them too. -/
namespace SetPipeline

theorem Text.trim_eq_nil_iff {blank : Char → Bool} {s : List Char} : trim blank s = [] ↔ ∀ c ∈ s, blank c := by
  refine ⟨fun h => ?_, trim_eq_nil_of_all⟩
  have hrest : ∀ c ∈ s.dropWhile blank, blank c := List.rdropWhile_eq_nil_iff.1 h
  have hnil : s.dropWhile blank = [] := by
    cases hs : s.dropWhile blank with
    | nil => rfl
    | cons c cs =>
      have hhead := List.head?_dropWhile_not blank s
      rw [hs] at hhead hrest
      simp [hrest c List.mem_cons_self] at hhead
  exact List.dropWhile_eq_nil_iff.1 hnil

namespace Config

def trimmed (text : Option String) : List Char := Text.trim Text.isSeparator (text.getD "").toList

/-- An absent variable counts as a blank one. -/
def IsBlank (text : Option String) : Prop := ∀ c ∈ (text.getD "").toList, Text.isSeparator c

/-- A text for a decimal so small that the nearest double is zero. -/
def SpellsZero (text : Option String) : Prop :=
  ∃ d, Numeral.decimal? (trimmed text) = some d ∧ d.magnitude ≤ 2 ^ Double.minExponent / 2

/-- A text that names not-a-number, with a sign or without one. -/
def SpellsNan (text : Option String) : Prop :=
  (Numeral.sign (trimmed text)).2.map Numeral.lower = "nan".toList

inductive LimitOf (text : Option String) : Number → Prop where
  | standard : IsBlank text → LimitOf text standard.maxInFlight
  | read {n : Int} : Numeral.int? (trimmed text) = some n → 1 ≤ n → LimitOf text (.int n)

inductive TimeoutOf (text : Option String) : Option Number → Prop where
  | standard : IsBlank text → TimeoutOf text standard.timeout
  | disabled : SpellsZero text → TimeoutOf text none
  | positive {x : Double} : Numeral.double? (trimmed text) = some x → (Number.int 0).lt (.double x) →
    TimeoutOf text (some (.double x))
  | nan : SpellsNan text → TimeoutOf text (some (.double .nan))

def IsShort (n : Number) : Prop := ∀ k, n = .int k → Failure.ofDigits? k = none

/-- At least one command may be in flight, and a timeout is positive. -/
structure IsUsable (c : Config) : Prop where
  limit : ∃ n : Int, 1 ≤ n ∧ c.maxInFlight = .int n
  timeout : ∀ t, c.timeout = some t → (Number.int 0).lt t

section
variable {text limitText timeoutText : Option String} {limit : Number} {timeout : Option Number} {c : Config}

theorem trimmed_eq_nil_iff : trimmed text = [] ↔ IsBlank text := Text.trim_eq_nil_iff

theorem readVariable_eq_ok {α : Type} {name : String} {read : List Char → Option α} (hread : read [] = none)
    {o : Option α} : readVariable name read text = .ok o ↔
      (IsBlank text ∧ o = none) ∨ ∃ x, read (trimmed text) = some x ∧ o = some x := by
  rw [← trimmed_eq_nil_iff, readVariable, trimmed]
  cases Text.trim Text.isSeparator (text.getD "").toList with
  | nil => simp [hread, eq_comm]
  | cons c cs => cases hx : read (c :: cs) <;> simp [eq_comm]

theorem readVariable_eq_error {α : Type} {name : String} {read : List Char → Option α} {f : Failure}
    (h : readVariable name read text = .error f) : ∃ m, f = .misuse m := by
  unfold readVariable at h
  dsimp only at h
  split at h
  · cases h
  · split at h
    · cases h
    · cases h
      exact ⟨_, rfl⟩

theorem refusal_of_isShort {n : Number} (h : IsShort n) (cause : String → Misuse) :
    refusal n cause = .misuse (cause n.toText) := by
  have hshown : Datum.unshown? 1 (.ofNumber n) = none := by
    cases n with
    | int k =>
      show Failure.ofDigits? k = none
      exact h k rfl
    | bool _ | double _ => rfl
  simp only [refusal, hshown]

theorem check_eq_error {f : Failure} (hlimit : IsShort limit) (htimeout : ∀ t, timeout = some t → IsShort t)
    (h : check limit timeout = .error f) : ∃ m, f = .misuse m := by
  unfold check at h
  split at h
  · cases h
    exact ⟨_, refusal_of_isShort hlimit _⟩
  · split at h
    · cases h
    · next t =>
      split at h
      · cases h
        exact ⟨_, refusal_of_isShort (htimeout t rfl) _⟩
      · cases h

theorem limitOf_iff : LimitOf text limit ↔ ∃ o, readVariable limitVariable Numeral.int? text = .ok o ∧
    (o.map .int).getD standard.maxInFlight = limit ∧ limit.lt (.int 1) = false := by
  have hone (n : Int) : (Number.int n).lt (.int 1) = false ↔ 1 ≤ n := by
    rw [← not_lt, ← Number.int_lt_int, Bool.not_eq_true]
  obtain ⟨-, hstandard, -⟩ := check_eq_ok_iff.1 check_standard
  constructor
  · rintro (hblank | ⟨hn, hle⟩)
    · exact ⟨none, (readVariable_eq_ok rfl).2 (.inl ⟨hblank, rfl⟩), rfl, hstandard⟩
    · exact ⟨some _, (readVariable_eq_ok rfl).2 (.inr ⟨_, hn, rfl⟩), rfl, (hone _).2 hle⟩
  · rintro ⟨o, ho, rfl, hlimit⟩
    rcases (readVariable_eq_ok rfl).1 ho with ⟨hblank, rfl⟩ | ⟨n, hn, rfl⟩
    · exact .standard hblank
    · exact .read hn ((hone n).1 hlimit)

theorem timeoutOf_iff : TimeoutOf text timeout ↔ ∃ o, readVariable timeoutVariable Numeral.double? text = .ok o ∧
    o.elim standard.timeout timeoutOf = timeout ∧ ∀ t, timeout = some t → t.le (.int 0) = false := by
  obtain ⟨-, -, hstandard⟩ := check_eq_ok_iff.1 check_standard
  constructor
  · rintro (hblank | hzero | ⟨hx, hpos⟩ | hnan)
    · exact ⟨none, (readVariable_eq_ok rfl).2 (.inl ⟨hblank, rfl⟩), rfl, hstandard⟩
    · obtain ⟨x, hx, hzero⟩ := Numeral.double?_zero_iff.2 hzero
      exact ⟨some x, (readVariable_eq_ok rfl).2 (.inr ⟨x, hx, rfl⟩), if_pos (Number.same_zero_iff.2 hzero), nofun⟩
    · obtain ⟨hle, -, -⟩ := Number.lt_iff.1 hpos
      have hsame := (Bool.or_eq_false_iff.1 hle).2
      refine ⟨some _, (readVariable_eq_ok rfl).2 (.inr ⟨_, hx, rfl⟩), if_neg (by simp [hsame]), ?_⟩
      rintro t ⟨⟩
      exact hle
    · refine ⟨some .nan, (readVariable_eq_ok rfl).2 (.inr ⟨_, Numeral.double?_eq_nan_iff.2 hnan, rfl⟩), rfl, ?_⟩
      rintro t ⟨⟩
      rfl
  · rintro ⟨o, ho, rfl, htimeout⟩
    rcases (readVariable_eq_ok rfl).1 ho with ⟨hblank, rfl⟩ | ⟨x, hx, rfl⟩
    · exact .standard hblank
    · dsimp only [Option.elim, timeoutOf] at htimeout ⊢
      split
      · next hsame => exact .disabled (Numeral.double?_zero_iff.1 ⟨x, hx, Number.same_zero_iff.1 hsame⟩)
      · next hsame =>
        rw [if_neg hsame] at htimeout
        cases x with
        | nan => exact .nan (Numeral.double?_eq_nan_iff.1 hx)
        | finite | infinite => exact .positive hx (Number.lt_iff.2 ⟨htimeout _ rfl, rfl, rfl⟩)

theorem ofEnvironment_eq (limitText timeoutText : Option String) : ofEnvironment limitText timeoutText =
    readVariable limitVariable Numeral.int? limitText >>= fun n =>
      readVariable timeoutVariable Numeral.double? timeoutText >>= fun x =>
        check ((n.map .int).getD standard.maxInFlight) (x.elim standard.timeout timeoutOf) := by
  unfold ofEnvironment
  congr with n
  congr with x
  cases x <;> rfl

theorem ofEnvironment_eq_ok : ofEnvironment limitText timeoutText = .ok c ↔
    LimitOf limitText c.maxInFlight ∧ TimeoutOf timeoutText c.timeout := by
  rw [limitOf_iff, timeoutOf_iff, ofEnvironment_eq]
  simp only [Except.bind_eq_ok, check_eq_ok_iff]
  constructor
  · rintro ⟨n, hn, x, hx, rfl, hlimit, htimeout⟩
    exact ⟨⟨n, hn, rfl, hlimit⟩, x, hx, rfl, htimeout⟩
  · rintro ⟨⟨n, hn, hlimit, hone⟩, x, hx, htimeout, hpos⟩
    refine ⟨n, hn, x, hx, ?_⟩
    rw [hlimit, htimeout]
    exact ⟨rfl, hone, hpos⟩

theorem ofEnvironment_eq_error {f : Failure} (h : ofEnvironment limitText timeoutText = .error f) :
    ∃ m, f = .misuse m := by
  rw [ofEnvironment_eq] at h
  rcases Except.bind_eq_error.1 h with h | ⟨n, hn, h⟩
  · exact readVariable_eq_error h
  · rcases Except.bind_eq_error.1 h with h | ⟨x, -, h⟩
    · exact readVariable_eq_error h
    · refine check_eq_error ?_ (fun t ht => ?_) h
      · rcases (readVariable_eq_ok rfl).1 hn with ⟨-, rfl⟩ | ⟨k, hk, rfl⟩
        · rintro _ ⟨⟩
          decide +kernel
        · rintro _ ⟨⟩
          exact Failure.ofDigits?_eq_none.2 (Numeral.int?_natAbs_lt hk)
      · -- A timeout from a text is a double.
        rintro k rfl
        cases x with
        | none => cases ht
        | some x =>
          dsimp only [Option.elim, timeoutOf] at ht
          split at ht <;> cases ht

theorem LimitOf.unique {limit' : Number} (h : LimitOf text limit) (h' : LimitOf text limit') : limit = limit' := by
  obtain ⟨o, ho, rfl, -⟩ := limitOf_iff.1 h
  obtain ⟨o', ho', rfl, -⟩ := limitOf_iff.1 h'
  cases ho.symm.trans ho'
  rfl

theorem TimeoutOf.unique {timeout' : Option Number} (h : TimeoutOf text timeout) (h' : TimeoutOf text timeout') :
    timeout = timeout' := by
  obtain ⟨o, ho, rfl, -⟩ := timeoutOf_iff.1 h
  obtain ⟨o', ho', rfl, -⟩ := timeoutOf_iff.1 h'
  cases ho.symm.trans ho'
  rfl

theorem LimitOf.exists_int (h : LimitOf text limit) : ∃ n : Int, 1 ≤ n ∧ limit = .int n := by
  cases h with
  | standard => exact ⟨16, by decide, rfl⟩
  | read _ hle => exact ⟨_, hle, rfl⟩

theorem TimeoutOf.pos_iff (h : TimeoutOf text timeout) :
    (∀ t, timeout = some t → (Number.int 0).lt t) ↔ ¬SpellsNan text := by
  constructor
  · intro hpos hnan
    have hlt := hpos _ (h.unique (.nan hnan))
    cases hlt
  · rintro hnan t rfl
    cases h with
    | standard =>
      obtain ⟨-, -, hle⟩ := check_eq_ok_iff.1 check_standard
      exact Number.lt_iff.2 ⟨hle _ rfl, rfl, rfl⟩
    | positive _ hlt => exact hlt
    | nan h => exact absurd h hnan

end

/-- What comes of two texts, the one for the limit and the one for the timeout. -/
structure FromTexts (limitText timeoutText : Option String) : Prop where
  refused : ∀ f, ofEnvironment limitText timeoutText = .error f → ∃ m, f = .misuse m
  apart : ∀ c, ofEnvironment limitText timeoutText = .ok c ↔
    LimitOf limitText c.maxInFlight ∧ TimeoutOf timeoutText c.timeout
  limit : ∀ c, ofEnvironment limitText timeoutText = .ok c → ∃ n : Int, 1 ≤ n ∧ c.maxInFlight = .int n
  usable : ∀ c, ofEnvironment limitText timeoutText = .ok c → (c.IsUsable ↔ ¬SpellsNan timeoutText)
  blankLimit : IsBlank limitText → ∀ c, ofEnvironment limitText timeoutText = .ok c →
    c.maxInFlight = standard.maxInFlight
  blankTimeout : IsBlank timeoutText → ∀ c, ofEnvironment limitText timeoutText = .ok c → c.timeout = standard.timeout
  zero : SpellsZero timeoutText → ∀ c, ofEnvironment limitText timeoutText = .ok c → c.timeout = none

/-- Every pair of texts is refused as misuse or gives a configuration, each text its own field: the standard value if it
is blank, no timeout if it is a zero. The configuration is usable unless the second text names not-a-number. -/
theorem fromTexts (limitText timeoutText : Option String) : FromTexts limitText timeoutText where
  refused _ h := ofEnvironment_eq_error h
  apart _ := ofEnvironment_eq_ok
  limit _ h := (ofEnvironment_eq_ok.1 h).1.exists_int
  usable c h := by
    obtain ⟨hlimit, htimeout⟩ := ofEnvironment_eq_ok.1 h
    rw [← htimeout.pos_iff]
    exact ⟨IsUsable.timeout, fun hpos => ⟨hlimit.exists_int, hpos⟩⟩
  blankLimit hblank _ h := (ofEnvironment_eq_ok.1 h).1.unique (.standard hblank)
  blankTimeout hblank _ h := (ofEnvironment_eq_ok.1 h).2.unique (.standard hblank)
  zero hzero _ h := (ofEnvironment_eq_ok.1 h).2.unique (.disabled hzero)

example : (ofEnvironment (some " ") (some "-1e-400")).toOption = some ⟨.int 16, none⟩ := by decide +kernel

/-- Not-a-number is a timeout that is not positive, and it is let through. -/
theorem not_isUsable_nan : ofEnvironment none (some "nan") = .ok ⟨.int 16, some (.double .nan)⟩ ∧
    ¬IsUsable ⟨.int 16, some (.double .nan)⟩ := by
  constructor
  · exact ofEnvironment_eq_ok.2 ⟨.standard nofun, .nan rfl⟩
  · intro h
    have hlt := h.timeout _ rfl
    cases hlt

end Config
end SetPipeline
