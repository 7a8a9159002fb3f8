import SetPipeline.Command.Build
import SetPipeline.Proofs.Fields

/-! What builders make. A command is built from given values just where each of its fields reads as what the command
has there; binding a key to a command changes one field and keeps the others; and a builder whose value is neither none
nor unsuitable fails with nothing but a report. -/
namespace SetPipeline

open Fields

/-- What a value is as a field: none, a byte string, an integer, or a tuple of byte strings. -/
def Datum.ReadsAs (d : Datum) : Datum → Prop
  | none => d = none
  | bytes b => Fields.bytes d = .ok b
  | int n => Fields.int d = .ok n
  | tuple xs => ∃ ds bs, sequence? d = some ds ∧ d.stop? = Option.none ∧ ReadAll ds bs ∧ xs = bs.map bytes
  | _ => False

namespace Datum

variable {d : Datum}

theorem readsAs_ofKey {k : Option Bytes} :
    d.ReadsAs (ofKey k) ↔ d = none ∧ k = Option.none ∨ ∃ b, Fields.bytes d = .ok b ∧ k = some b := by
  cases k <;> simp [ofKey, ReadsAs]

theorem readsAs_ofCount {n : Option Int} :
    d.ReadsAs (ofCount n) ↔ d = none ∧ n = Option.none ∨ ∃ i, Fields.int d = .ok i ∧ n = some i := by
  cases n <;> simp [ofCount, ReadsAs]

theorem readsAs_ofKeys {bs : List Bytes} :
    d.ReadsAs (ofKeys bs) ↔ ∃ ds, sequence? d = some ds ∧ d.stop? = Option.none ∧ ReadAll ds bs := by
  constructor
  · rintro ⟨ds, bs', hds, hstop, hall, he⟩
    have hbs : bs = bs' := List.map_injective_iff.2 (fun _ _ => Datum.bytes.inj) he
    exact ⟨ds, hds, hstop, hbs ▸ hall⟩
  · rintro ⟨ds, hds, hstop, hall⟩
    exact ⟨ds, bs, hds, hstop, hall, rfl⟩

theorem readsAs_ofKey_of_ne {k : Option Bytes} (h : d ≠ none) :
    d.ReadsAs (ofKey k) ↔ ∃ b, Fields.bytes d = .ok b ∧ some b = k := by
  simp [readsAs_ofKey, h, eq_comm]

theorem readsAs_ofCount_of_ne {n : Option Int} (h : d ≠ none) :
    d.ReadsAs (ofCount n) ↔ ∃ i, Fields.int d = .ok i ∧ some i = n := by
  simp [readsAs_ofCount, h, eq_comm]

@[simp] theorem ofKey_eq_none {k : Option Bytes} : ofKey k = none ↔ k = Option.none := by
  cases k <;> simp [ofKey]

@[simp] theorem ofCount_eq_none {n : Option Int} : ofCount n = none ↔ n = Option.none := by
  cases n <;> simp [ofCount]

@[simp] theorem tuple_readsAs_ofKeys {ds : List Datum} {bs : List Bytes} :
    (tuple ds).ReadsAs (ofKeys bs) ↔ ReadAll ds bs := by
  have hitems : sequence? (tuple ds) = some ds := rfl
  have hstop : (tuple ds).stop? = Option.none := rfl
  simp [readsAs_ofKeys, hitems, hstop]

/-! A field that has passed its check reads as itself. -/

@[simp] theorem ofKey_readsAs_ofKey {k k' : Option Bytes} : (ofKey k).ReadsAs (ofKey k') ↔ k = k' := by
  cases k <;> cases k' <;> simp [ofKey, ReadsAs, Fields.bytes]

@[simp] theorem ofCount_readsAs_ofCount {n n' : Option Int} : (ofCount n).ReadsAs (ofCount n') ↔ n = n' := by
  cases n <;> cases n' <;> simp [ofCount, ReadsAs, Fields.int, Fields.characters?]

@[simp] theorem bytes_readsAs_bytes {b b' : Bytes} : (bytes b).ReadsAs (bytes b') ↔ b = b' := by
  simp [ReadsAs, Fields.bytes]

@[simp] theorem ofKeys_readsAs_ofKeys {bs bs' : List Bytes} : (ofKeys bs).ReadsAs (ofKeys bs') ↔ bs = bs' := by
  rw [ofKeys, tuple_readsAs_ofKeys, readAll_bytes]

end Datum

theorem refuseNone_bind_eq_ok {α : Type} {d : Datum} {p : Part} {f : Unit → Except Failure α} {x : α} :
    refuseNone d p >>= f = .ok x ↔ d ≠ .none ∧ f () = .ok x := by
  rw [Except.bind_eq_ok]
  constructor
  · rintro ⟨_, hd, h⟩
    exact ⟨refuseNone_eq_ok.1 hd, h⟩
  · rintro ⟨hd, h⟩
    exact ⟨(), refuseNone_eq_ok.2 hd, h⟩

namespace Command

/-- What is given for a field reads as a value, or nothing is given and the value is none. -/
def Reads (given : Given) (field : String) (v : Datum) : Prop :=
  match given.lookup field with
  | some d => d.ReadsAs v
  | none => v = .none

section
variable {given : Given} {field : String}

theorem optionalBytes_eq_ok {k : Option Bytes} : optionalBytes given field = .ok k ↔ Reads given field (.ofKey k) := by
  rw [optionalBytes, optional_eq_ok, Reads]
  cases given.lookup field with
  | none => cases k <;> simp [Datum.ofKey]
  | some d =>
    by_cases hd : d = .none
    · simp [hd, Datum.readsAs_ofKey, Fields.bytes]
    · simp [hd, Datum.readsAs_ofKey, single_eq_ok]

theorem optionalCount_eq_ok {n : Option Int} : optionalCount given = .ok n ↔ Reads given "count" (.ofCount n) := by
  rw [optionalCount, optional_eq_ok, Reads]
  cases given.lookup "count" with
  | none => cases n <;> simp [Datum.ofCount]
  | some d =>
    by_cases hd : d = .none
    · simp [hd, Datum.readsAs_ofCount, Fields.int, Fields.characters?]
    · simp [hd, Datum.readsAs_ofCount, single_eq_ok]

theorem requiredBytes_eq_ok {b : Bytes} : requiredBytes given field = .ok b ↔ Reads given field (.bytes b) := by
  rw [requiredBytes, Fields.required.eq_def, Reads]
  cases given.lookup field with
  | none => simp
  | some d => exact single_eq_ok

theorem requiredSeveral_eq_ok {bs : List Bytes} :
    requiredSeveral given field = .ok bs ↔ Reads given field (.ofKeys bs) := by
  rw [requiredSeveral, Fields.required.eq_def, Reads]
  cases given.lookup field with
  | none => simp [Datum.ofKeys]
  | some d => exact several_eq_ok.trans Datum.readsAs_ofKeys.symm

variable {cls : CommandClass} {c : Command}

/-- A command is built from given values just where each of its fields reads as what the command has there. -/
theorem build_eq_ok : build cls given = .ok c ↔ cls = c.cls ∧ ∀ f ∈ c.fields, Reads given f.1 f.2 := by
  rw [build, make, Except.mapError_eq_ok, Except.mapError_eq_ok]
  cases cls <;> cases c <;>
    simp [check, Command.cls, fields, Except.map_eq_ok, both_eq_ok, optionalBytes_eq_ok, requiredBytes_eq_ok,
      requiredSeveral_eq_ok, optionalCount_eq_ok, and_comm]

end

def bound? : Command → Binding → Bytes → Option Command
  | add _ vs, .into, k => some (add (some k) vs)
  | move s _ v, .into, k => some (move s (some k) v)
  | remove _ vs, .outOf, k => some (remove (some k) vs)
  | randomMembers _ n, .outOf, k => some (randomMembers (some k) n)
  | move _ d v, .outOf, k => some (move (some k) d v)
  | isMember _ v, .within, k => some (isMember (some k) v)
  | multiKeyStore ks _, .storedAt, k => some (multiKeyStore ks (some k))
  | combineStore how ks _, .storedAt, k => some (combineStore how ks (some k))
  | _, _, _ => none

section
variable {d key : Datum} {ds : List Datum} {c c' : Command} {b : Binding}

/-- Binding a key sets one field to the key and checks all the others again, which pass as they are. -/
theorem bind_eq_ok : c.bind b key = .ok c' ↔ ∃ k, Fields.bytes key = .ok k ∧ c.bound? b k = some c' := by
  unfold bind
  cases hb : b.target? c.cls with
  | none => cases c <;> cases b <;> simp_all [bound?, Binding.target?, Command.cls]
  | some target =>
    obtain ⟨field, p⟩ := target
    show refuseNone key p >>= (fun _ => c.replacing field key) = .ok c' ↔ _
    rw [refuseNone_bind_eq_ok, replacing, build_eq_ok]
    by_cases hkey : key = .none
    · simp [hkey, Fields.bytes]
    · -- What is left are the commands that have the field; the result is of the same class or not at all.
      cases b <;> cases c <;> simp [Binding.target?, Command.cls] at hb <;> obtain ⟨rfl, rfl⟩ := hb <;> cases c' <;>
        simp [Command.cls, fields, Reads, Datum.readsAs_ofKey_of_ne hkey, hkey, List.lookup_cons, bound?] <;> grind

theorem given_eq_ok {cls : CommandClass} {field : String} {p : Part} :
    refuseNone d p >>= (fun _ => build cls [(field, d)]) = .ok c ↔
      d ≠ .none ∧ cls = c.cls ∧ ∀ f ∈ c.fields, Reads [(field, d)] f.1 f.2 := by
  rw [refuseNone_bind_eq_ok, build_eq_ok]

theorem ofKey_eq_ok : ofKey .key d = .ok c ↔ ∃ k, Fields.bytes d = .ok k ∧ c = .key (some k) := by
  refine (given_eq_ok : ofKey .key d = .ok c ↔ _).trans ?_
  by_cases hd : d = .none
  · simp [hd, Fields.bytes]
  · cases c <;> simp [Command.cls, fields, Reads, List.lookup_cons, hd, Datum.readsAs_ofKey_of_ne, eq_comm]

theorem ofValue_move_eq_ok : ofValue .move d = .ok c ↔ ∃ v, Fields.bytes d = .ok v ∧ c = .move none none v := by
  refine (given_eq_ok : ofValue .move d = .ok c ↔ _).trans ?_
  by_cases hd : d = .none
  · simp [hd, Fields.bytes]
  · cases c <;> simp [Command.cls, fields, Reads, List.lookup_cons, hd, Datum.ReadsAs, and_comm, and_assoc]

theorem ofValue_isMember_eq_ok : ofValue .isMember d = .ok c ↔ ∃ v, Fields.bytes d = .ok v ∧ c = .isMember none v := by
  refine (given_eq_ok : ofValue .isMember d = .ok c ↔ _).trans ?_
  by_cases hd : d = .none
  · simp [hd, Fields.bytes]
  · cases c <;> simp [Command.cls, fields, Reads, List.lookup_cons, hd, Datum.ReadsAs, and_comm, and_assoc]

theorem ofCount_eq_ok : ofCount d = .ok c ↔ ∃ n, Fields.int d = .ok n ∧ c = .randomMembers none (some n) := by
  refine (given_eq_ok : ofCount d = .ok c ↔ _).trans ?_
  by_cases hd : d = .none
  · simp [hd, Fields.int, Fields.characters?]
  · cases c <;> simp [Command.cls, fields, Reads, List.lookup_cons, hd, Datum.readsAs_ofCount_of_ne]
    grind

theorem ofValues_add_eq_ok : ofValues .add (.list ds) = .ok c ↔ ∃ bs, ReadAll ds bs ∧ c = .add none bs := by
  refine (build_eq_ok : ofValues .add (.list ds) = .ok c ↔ _).trans ?_
  cases c <;> simp [Command.cls, fields, Reads, List.lookup_cons, and_comm]

theorem ofValues_remove_eq_ok : ofValues .remove (.list ds) = .ok c ↔ ∃ bs, ReadAll ds bs ∧ c = .remove none bs := by
  refine (build_eq_ok : ofValues .remove (.list ds) = .ok c ↔ _).trans ?_
  cases c <;> simp [Command.cls, fields, Reads, List.lookup_cons, and_comm]

theorem collection_eq_ok {x : Datum} {p : Part} :
    collection d p = .ok x ↔ d.isSingle = false ∧ ∃ ds, d.collect = .ok ds ∧ x = .tuple ds := by
  unfold collection
  cases d.isSingle with
  | true => simp
  | false => simpa [eq_comm] using Except.map_eq_ok (x := d.collect) (f := Datum.tuple)

theorem ofKeys_eq_ok {cls : CommandClass} : ofKeys cls d = .ok c ↔
    ∃ ds, d.isSingle = false ∧ d.collect = .ok ds ∧ build cls [("keys", .tuple ds)] = .ok c := by
  rw [ofKeys, refuseNone_bind_eq_ok, Except.bind_eq_ok]
  simp only [collection_eq_ok]
  constructor
  · rintro ⟨-, -, ⟨hs, ds, hds, rfl⟩, h⟩
    exact ⟨ds, hs, hds, h⟩
  · rintro ⟨ds, hs, hds, h⟩
    refine ⟨?_, _, ⟨hs, ds, hds, rfl⟩, h⟩
    rintro rfl
    cases hds

theorem ofKeys_combine_eq_ok {how : Combination} : ofKeys (.combine how) d = .ok c ↔
    ∃ ds ks, d.isSingle = false ∧ d.collect = .ok ds ∧ ReadAll ds ks ∧ c = .combine how ks := by
  simp only [ofKeys_eq_ok, build_eq_ok]
  cases c <;> simp [Command.cls, fields, Reads, List.lookup_cons]
  grind

theorem ofKeys_combineStore_eq_ok {how : Combination} : ofKeys (.combineStore how) d = .ok c ↔
    ∃ ds ks, d.isSingle = false ∧ d.collect = .ok ds ∧ ReadAll ds ks ∧ c = .combineStore how ks none := by
  simp only [ofKeys_eq_ok, build_eq_ok]
  cases c <;> simp [Command.cls, fields, Reads, List.lookup_cons]
  grind

end

end Command

/-- A computation that fails with nothing but the report of a check. -/
def Reports {α : Type} (x : Except Failure α) : Prop := ∀ f, x = .error f → ∃ r, f = .misuse (.invalid r)

section
variable {α β : Type} {x : Except Failure α} {d : Datum} {p : Part}

theorem reports_ok {a : α} (h : x = .ok a) : Reports x := by
  intro f hf
  cases h.symm.trans hf

theorem Reports.bind (hx : Reports x) {f : α → Except Failure β} (hf : ∀ a, x = .ok a → Reports (f a)) :
    Reports (x >>= f) := by
  intro g hg
  rcases Except.bind_eq_error.1 hg with hg | ⟨a, ha, hg⟩
  · exact hx g hg
  · exact hf a ha g hg

theorem reports_refuseNone (h : d ≠ .none) : Reports (refuseNone d p) := reports_ok (refuseNone_eq_ok.2 h)

/-- A computation that fails because a value is none, or because a single value stands for a collection. -/
def Refuses (x : Except Failure α) : Prop :=
  ∃ p, x = .error (.misuse (.absent p)) ∨ x = .error (.misuse (.single p))

theorem Refuses.bind (h : Refuses x) (f : α → Except Failure β) : Refuses (x >>= f) := by
  obtain ⟨p, rfl | rfl⟩ := h
  · exact ⟨p, .inl rfl⟩
  · exact ⟨p, .inr rfl⟩

theorem refuses_refuseNone_bind {f : Unit → Except Failure α} (h : d ≠ .none → Refuses (f ())) :
    Refuses (refuseNone d p >>= f) := by
  by_cases hd : d = .none
  · exact ⟨p, .inl (by rw [hd]; rfl)⟩
  · rw [Except.bind_of_eq_ok (refuseNone_eq_ok.2 hd)]
    exact h hd

namespace Command

theorem refuses_ofKeys {cls : CommandClass} (h : d.isSingle = true) : Refuses (ofKeys cls d) := by
  refine refuses_refuseNone_bind fun _ => Refuses.bind ⟨.keys, .inr ?_⟩ _
  rw [collection, if_pos h]

theorem ofKeys_of_collect {cls : CommandClass} {f : Failure} (hne : d ≠ .none) (hs : d.isSingle = false)
    (h : d.collect = .error f) : ofKeys cls d = .error f := by
  have hcollection : collection d .keys = .error f := by
    rw [collection, if_neg (Bool.eq_false_iff.1 hs), h]
    rfl
  rw [ofKeys, Except.bind_of_eq_ok (refuseNone_eq_ok.2 hne), hcollection]
  rfl

theorem reports_build {cls : CommandClass} {given : Given} : Reports (build cls given) := by
  intro f hf
  unfold build at hf
  cases hm : make cls given with
  | ok c =>
    rw [hm] at hf
    cases hf
  | error r =>
    rw [hm] at hf
    cases hf
    exact ⟨r, rfl⟩

theorem reports_given {cls : CommandClass} {field : String} (h : d ≠ .none) :
    Reports (refuseNone d p >>= fun _ => build cls [(field, d)]) :=
  (reports_refuseNone h).bind fun _ _ => reports_build

theorem reports_ofKeys {cls : CommandClass} {ds : List Datum} (hs : d.isSingle = false) (h : d.collect = .ok ds) :
    Reports (ofKeys cls d) := by
  have hne : d ≠ .none := by
    rintro rfl
    cases h
  refine (reports_refuseNone hne).bind fun _ _ => ?_
  exact (reports_ok (collection_eq_ok.2 ⟨hs, ds, h, rfl⟩)).bind fun _ _ => reports_build

theorem reports_bind {c : Command} {b : Binding} (hb : (b.target? c.cls).isSome) (h : d ≠ .none) :
    Reports (c.bind b d) := by
  obtain ⟨⟨field, p⟩, htarget⟩ := Option.isSome_iff_exists.1 hb
  have hbind : c.bind b d = refuseNone d p >>= fun _ => c.replacing field d := by
    unfold bind
    rw [htarget]
  rw [hbind]
  exact (reports_refuseNone h).bind fun _ _ => reports_build

end Command

end
end SetPipeline
