import Mathlib.Data.List.Forall2
import SetPipeline.Fields
import SetPipeline.Proofs.Except

/-! What passes the checks of fields. -/
namespace SetPipeline.Fields

theorem single_eq_ok {field : String} {rule : Rule α} {d : Datum} {x : α} :
    single field rule d = .ok x ↔ rule d = .ok x := Except.mapError_eq_ok

theorem optional_eq_ok {α : Type} {given : Given} {field : String} {check : Datum → Checked α} {x : Option α} :
    optional given field check = .ok x ↔
      (given.lookup field = none ∨ given.lookup field = some .none) ∧ x = none ∨
        ∃ d y, given.lookup field = some d ∧ d ≠ .none ∧ check d = .ok y ∧ x = some y := by
  unfold optional
  split
  · next h => simp [h, eq_comm]
  · next h => simp [h, eq_comm]
  · next d hne h =>
    have hd : d ≠ .none := fun he => hne he
    rw [Except.map_eq_ok]
    simp [h, hd, eq_comm]

/-- The items of a field are so many byte strings. -/
abbrev ReadAll (ds : List Datum) (bs : List Bytes) : Prop := List.Forall₂ (fun d b => bytes d = .ok b) ds bs

theorem items_eq_ok {field : String} {n : Nat} {ds : List Datum} {bs : List Bytes} :
    items field bytes n ds = .ok bs ↔ ReadAll ds bs := by
  induction ds generalizing n bs with
  | nil => cases bs <;> simp [items]
  | cons d ds ih =>
    rw [items, Except.map_eq_ok]
    constructor
    · rintro ⟨⟨b, bs⟩, h, rfl⟩
      obtain ⟨hb, hbs⟩ := both_eq_ok.1 h
      exact .cons (Except.mapError_eq_ok.1 hb) (ih.1 hbs)
    · intro h
      cases h with
      | @cons _ b _ bs hb hbs => exact ⟨(b, bs), both_eq_ok.2 ⟨Except.mapError_eq_ok.2 hb, ih.2 hbs⟩, rfl⟩

theorem several_eq_ok {field : String} {whenNot : Problem} {d : Datum} {bs : List Bytes} :
    several field whenNot d = .ok bs ↔ ∃ ds, sequence? d = some ds ∧ d.stop? = none ∧ ReadAll ds bs := by
  unfold several
  cases sequence? d with
  | none => simp
  | some ds => cases d.stop? <;> simp [items_eq_ok]

theorem readAll_bytes {bs bs' : List Bytes} : ReadAll (bs.map .bytes) bs' ↔ bs = bs' := by
  have hitems : items "" bytes 0 (bs.map .bytes) = .ok bs' ↔ ReadAll (bs.map .bytes) bs' := items_eq_ok
  rw [← hitems, items_bytes, Except.ok.injEq]

theorem ReadAll.exists_bytes {ds : List Datum} {bs : List Bytes} (h : ReadAll ds bs) :
    ∀ d ∈ ds, ∃ b, bytes d = .ok b := by
  induction h with
  | nil => simp
  | @cons d b ds bs hb _ ih => exact List.forall_mem_cons.2 ⟨⟨b, hb⟩, ih⟩

theorem exists_readAll {ds : List Datum} (h : ∀ d ∈ ds, ∃ b, bytes d = .ok b) : ∃ bs, ReadAll ds bs := by
  induction ds with
  | nil => exact ⟨[], .nil⟩
  | cons d ds ih =>
    obtain ⟨⟨b, hb⟩, hds⟩ := List.forall_mem_cons.1 h
    obtain ⟨bs, hbs⟩ := ih hds
    exact ⟨b :: bs, .cons hb hbs⟩

theorem ne_none_of_bytes {d : Datum} {b : Bytes} (h : bytes d = .ok b) : d ≠ .none := by
  rintro rfl
  cases h

theorem eq_bytesType {d : Datum} {p : Problem} (h : bytes d = .error p) : p = .bytesType := by
  cases d <;> cases h <;> rfl

theorem ne_none_of_int {d : Datum} {n : Int} (h : int d = .ok n) : d ≠ .none := by
  rintro rfl
  cases h

end SetPipeline.Fields
