import SetPipeline.Client
import SetPipeline.Proofs.Client.Building

/-! Which scalar calls are let through. A call is turned away for the first of three reasons: an argument is none or a
single value stands where a collection of keys is asked for, a collection cannot be iterated to its end, or a value
fails its check. Every other call makes the command of its operation, of the checked arguments in their order. -/
namespace SetPipeline

open Fields

/-- What an argument stands for: one byte string, a number, one byte string or several, or a collection of keys. -/
inductive Role where
  | field
  | count
  | values
  | keys

namespace Role

def collects : Role → Datum → Bool
  | field, _ | count, _ => false
  | values, d => !d.isSingle
  | keys, _ => true

def elements (r : Role) (d : Datum) : Except Failure (List Datum) := if r.collects d then d.collect else .ok [d]

def IsUnsuitable (r : Role) (d : Datum) : Prop := r.collects d = true ∧ d.items? = none

def Breaks (r : Role) (d : Datum) (f : Failure) : Prop :=
  r.collects d = true ∧ d.items?.isSome = true ∧ d.stop? = some f

/-- An argument is none, or it is a single value where a collection of keys is asked for. -/
def IsMisused : Role → Datum → Prop
  | keys, d => d = .none ∨ d.isSingle = true
  | _, d => d = .none

def Accepts : Role → Datum → Prop
  | count, d => ∃ n, Fields.int d = .ok n
  | _, d => ∃ b, Fields.bytes d = .ok b

structure Admits (r : Role) (d : Datum) : Prop where
  used : ¬r.IsMisused d
  suitable : ∃ ds, r.elements d = .ok ds
  valid : ∀ ds, r.elements d = .ok ds → ∀ x ∈ ds, r.Accepts x

variable {r : Role} {d : Datum} {f : Failure}

theorem elements_eq_error : r.elements d = .error f ↔ r.IsUnsuitable d ∧ f = .unsuitable ∨ r.Breaks d f := by
  unfold elements IsUnsuitable Breaks
  cases r.collects d with
  | false => simp
  | true => simpa using Datum.collect_eq_error

theorem exists_elements (hsuitable : ¬r.IsUnsuitable d) (hunbroken : ∀ f, ¬r.Breaks d f) : ∃ ds, r.elements d = .ok ds := by
  cases h : r.elements d with
  | ok ds => exact ⟨ds, rfl⟩
  | error f => exact absurd (elements_eq_error.1 h) (by simp [hsuitable, hunbroken])

theorem admits_field : field.Admits d ↔ ∃ b, Fields.bytes d = .ok b := by
  constructor
  · intro h
    exact h.valid [d] rfl d List.mem_cons_self
  · rintro ⟨b, hb⟩
    exact ⟨ne_none_of_bytes hb, ⟨_, rfl⟩, by simp [elements, collects, Accepts, hb]⟩

theorem admits_count : count.Admits d ↔ ∃ n, Fields.int d = .ok n := by
  constructor
  · intro h
    exact h.valid [d] rfl d List.mem_cons_self
  · rintro ⟨n, hn⟩
    exact ⟨ne_none_of_int hn, ⟨_, rfl⟩, by simp [elements, collects, Accepts, hn]⟩

theorem admits_values : values.Admits d ↔ ∃ ds bs, values.elements d = .ok ds ∧ ReadAll ds bs := by
  constructor
  · intro h
    obtain ⟨ds, hds⟩ := h.suitable
    obtain ⟨bs, hbs⟩ := exists_readAll (h.valid ds hds)
    exact ⟨ds, bs, hds, hbs⟩
  · rintro ⟨ds, bs, hds, hbs⟩
    refine ⟨?_, ⟨ds, hds⟩, fun ds' hds' => ?_⟩
    · rintro rfl
      cases hds
    · cases hds.symm.trans hds'
      exact hbs.exists_bytes

theorem admits_keys : keys.Admits d ↔ ∃ ds bs, d.isSingle = false ∧ d.collect = .ok ds ∧ ReadAll ds bs := by
  constructor
  · intro h
    obtain ⟨ds, hds⟩ := h.suitable
    obtain ⟨bs, hbs⟩ := exists_readAll (h.valid ds hds)
    exact ⟨ds, bs, by simpa using fun hs => h.used (.inr hs), hds, hbs⟩
  · rintro ⟨ds, bs, hs, hds, hbs⟩
    refine ⟨?_, ⟨ds, hds⟩, fun ds' hds' => ?_⟩
    · rintro (rfl | hsingle)
      · cases hds
      · simp [hs] at hsingle
    · cases hds.symm.trans hds'
      exact hbs.exists_bytes

end Role

namespace Scalar

def arguments : Scalar → List (Role × Datum)
  | add key values | remove key values => [(.field, key), (.values, values)]
  | pop key | card key | members key | randomMember key => [(.field, key)]
  | move source destination value => [(.field, source), (.field, destination), (.field, value)]
  | isMember key value => [(.field, key), (.field, value)]
  | randomMembers key count => [(.field, key), (.count, count)]
  | combine _ keys => [(.keys, keys)]
  | combineStore _ destination keys => [(.field, destination), (.keys, keys)]

def IsMisused (m : Scalar) : Prop := ∃ a ∈ m.arguments, a.1.IsMisused a.2

def IsUnsuitable (m : Scalar) : Prop := ∃ a ∈ m.arguments, a.1.IsUnsuitable a.2

def Breaks (m : Scalar) (f : Failure) : Prop := ∃ a ∈ m.arguments, a.1.Breaks a.2 f

def IsValid (m : Scalar) : Prop :=
  ∀ a ∈ m.arguments, ∀ ds, a.1.elements a.2 = .ok ds → ∀ d ∈ ds, a.1.Accepts d

/-- The calls with nothing wrong about their arguments. -/
structure IsAdmitted (m : Scalar) : Prop where
  used : ¬m.IsMisused
  suitable : ¬m.IsUnsuitable
  unbroken : ∀ f, ¬m.Breaks f
  valid : m.IsValid

/-- What a call is turned away with: the first of the three reasons. An exception of an argument leaves the call, which
is a coroutine. -/
inductive Raises (m : Scalar) : Failure → Prop where
  | absent (p : Part) : m.IsMisused → Raises m (.misuse (.absent p))
  | single (p : Part) : m.IsMisused → Raises m (.misuse (.single p))
  | unsuitable : ¬m.IsMisused → m.IsUnsuitable → Raises m .unsuitable
  | broken {f : Failure} : ¬m.IsMisused → m.Breaks f → Raises m (f.leaving .coroutine)
  | invalid (r : Report) : ¬m.IsMisused → ¬m.IsUnsuitable → (∀ f, ¬m.Breaks f) → ¬m.IsValid →
    Raises m (.misuse (.invalid r))

/-- The operation that a call asks for, and its command: the checked arguments, in their order. -/
inductive Makes : Scalar → Operation → Command → Prop where
  | add {key values : Datum} {k : Bytes} {ds : List Datum} {bs : List Bytes} : Fields.bytes key = .ok k →
    Role.values.elements values = .ok ds → ReadAll ds bs → Makes (.add key values) .add (.add (some k) bs)
  | remove {key values : Datum} {k : Bytes} {ds : List Datum} {bs : List Bytes} : Fields.bytes key = .ok k →
    Role.values.elements values = .ok ds → ReadAll ds bs → Makes (.remove key values) .remove (.remove (some k) bs)
  | pop {key : Datum} {k : Bytes} : Fields.bytes key = .ok k → Makes (.pop key) .pop (.key (some k))
  | move {source destination value : Datum} {s d v : Bytes} : Fields.bytes source = .ok s →
    Fields.bytes destination = .ok d → Fields.bytes value = .ok v →
    Makes (.move source destination value) .move (.move (some s) (some d) v)
  | card {key : Datum} {k : Bytes} : Fields.bytes key = .ok k → Makes (.card key) .card (.key (some k))
  | isMember {key value : Datum} {k v : Bytes} : Fields.bytes key = .ok k → Fields.bytes value = .ok v →
    Makes (.isMember key value) .isMember (.isMember (some k) v)
  | members {key : Datum} {k : Bytes} : Fields.bytes key = .ok k → Makes (.members key) .members (.key (some k))
  | randomMember {key : Datum} {k : Bytes} : Fields.bytes key = .ok k →
    Makes (.randomMember key) .randomMembers (.randomMembers (some k) (some 1))
  | randomMembers {key count : Datum} {k : Bytes} {n : Int} : Fields.bytes key = .ok k → Fields.int count = .ok n →
    Makes (.randomMembers key count) .randomMembers (.randomMembers (some k) (some n))
  | combine (how : Combination) {keys : Datum} {ds : List Datum} {ks : List Bytes} : keys.isSingle = false →
    keys.collect = .ok ds → ReadAll ds ks → Makes (.combine how keys) (.combine how) (.combine how ks)
  | combineStore (how : Combination) {destination keys : Datum} {d : Bytes} {ds : List Datum} {ks : List Bytes} :
    Fields.bytes destination = .ok d → keys.isSingle = false → keys.collect = .ok ds → ReadAll ds ks →
    Makes (.combineStore how destination keys) (.combineStore how) (.combineStore how ks (some d))

variable {m : Scalar} {op : Operation} {c : Command}

section
variable {values d : Datum} {ds : List Datum}

theorem oneOrMany_of_ne (h : values ≠ .none) : oneOrMany values = (Role.values.elements values).map .list := by
  rw [oneOrMany, Except.bind_of_eq_ok (refuseNone_eq_ok.2 h)]
  unfold Role.elements
  cases hs : values.isSingle with
  | true => simp [Role.collects, hs, pure, Except.pure, Except.map]
  | false => simp [Role.collects, hs]

theorem oneOrMany_of_elements (h : Role.values.elements values = .ok ds) : oneOrMany values = .ok (.list ds) := by
  have hne : values ≠ .none := by
    rintro rfl
    cases h
  rw [oneOrMany_of_ne hne, h]
  rfl

theorem oneOrMany_of_error {f : Failure} (hne : values ≠ .none) (h : Role.values.elements values = .error f) :
    oneOrMany values = .error f := by
  rw [oneOrMany_of_ne hne, h]
  rfl

theorem oneOrMany_eq_ok : oneOrMany values = .ok d ↔ ∃ ds, Role.values.elements values = .ok ds ∧ d = .list ds := by
  cases h : Role.values.elements values with
  | ok ds => simp [oneOrMany_of_elements h, eq_comm]
  | error f =>
    by_cases hne : values = .none
    · simp [hne, oneOrMany, refuseNone_bind_eq_ok]
    · simp [oneOrMany_of_error hne h]

end

/-- A call comes to a command just where its arguments make it. -/
theorem command_eq_ok : m.command = .ok (op, c) ↔ m.Makes op c := by
  cases m with
  | add key values =>
    rw [command, refuseNone_bind_eq_ok]
    simp only [Except.bind_eq_ok, oneOrMany_eq_ok, Command.bind_eq_ok, pure, Except.pure]
    constructor
    · rintro ⟨-, _, ⟨ds, hds, rfl⟩, c', hmade, c'', ⟨k, hk, hbound⟩, ⟨⟩⟩
      obtain ⟨bs, hbs, rfl⟩ := Command.ofValues_add_eq_ok.1 hmade
      cases hbound
      exact .add hk hds hbs
    · intro h
      cases h with
      | add hk hds hbs =>
        exact ⟨ne_none_of_bytes hk, _, ⟨_, hds, rfl⟩, _, Command.ofValues_add_eq_ok.2 ⟨_, hbs, rfl⟩, _, ⟨_, hk, rfl⟩,
          rfl⟩
  | remove key values =>
    rw [command, refuseNone_bind_eq_ok]
    simp only [Except.bind_eq_ok, oneOrMany_eq_ok, Command.bind_eq_ok, pure, Except.pure]
    constructor
    · rintro ⟨-, _, ⟨ds, hds, rfl⟩, c', hmade, c'', ⟨k, hk, hbound⟩, ⟨⟩⟩
      obtain ⟨bs, hbs, rfl⟩ := Command.ofValues_remove_eq_ok.1 hmade
      cases hbound
      exact .remove hk hds hbs
    · intro h
      cases h with
      | remove hk hds hbs =>
        exact ⟨ne_none_of_bytes hk, _, ⟨_, hds, rfl⟩, _, Command.ofValues_remove_eq_ok.2 ⟨_, hbs, rfl⟩, _,
          ⟨_, hk, rfl⟩, rfl⟩
  | pop key | card key | members key =>
    rw [command, refuseNone_bind_eq_ok]
    simp only [Except.bind_eq_ok, Command.ofKey_eq_ok, pure, Except.pure]
    constructor
    · rintro ⟨-, _, ⟨k, hk, rfl⟩, ⟨⟩⟩
      constructor
      exact hk
    · intro h
      cases h
      next hk => exact ⟨ne_none_of_bytes hk, _, ⟨_, hk, rfl⟩, rfl⟩
  | move source destination value =>
    rw [command, refuseNone_bind_eq_ok, refuseNone_bind_eq_ok, refuseNone_bind_eq_ok]
    simp only [Except.bind_eq_ok, Command.ofValue_move_eq_ok, Command.bind_eq_ok, pure, Except.pure]
    constructor
    · rintro ⟨-, -, -, _, ⟨v, hv, rfl⟩, _, ⟨s, hs, ⟨⟩⟩, _, ⟨d, hd, ⟨⟩⟩, ⟨⟩⟩
      exact .move hs hd hv
    · intro h
      cases h with
      | move hs hd hv =>
        exact ⟨ne_none_of_bytes hs, ne_none_of_bytes hd, ne_none_of_bytes hv, _, ⟨_, hv, rfl⟩, _, ⟨_, hs, rfl⟩, _,
          ⟨_, hd, rfl⟩, rfl⟩
  | isMember key value =>
    rw [command, refuseNone_bind_eq_ok, refuseNone_bind_eq_ok]
    simp only [Except.bind_eq_ok, Command.ofValue_isMember_eq_ok, Command.bind_eq_ok, pure, Except.pure]
    constructor
    · rintro ⟨-, -, _, ⟨v, hv, rfl⟩, _, ⟨k, hk, ⟨⟩⟩, ⟨⟩⟩
      exact .isMember hk hv
    · intro h
      cases h with
      | isMember hk hv => exact ⟨ne_none_of_bytes hk, ne_none_of_bytes hv, _, ⟨_, hv, rfl⟩, _, ⟨_, hk, rfl⟩, rfl⟩
  | randomMember key =>
    rw [command, refuseNone_bind_eq_ok]
    simp only [Except.bind_eq_ok, Command.ofCount_eq_ok, Command.bind_eq_ok, pure, Except.pure]
    constructor
    · rintro ⟨-, _, ⟨n, ⟨⟩, rfl⟩, _, ⟨k, hk, ⟨⟩⟩, ⟨⟩⟩
      exact .randomMember hk
    · intro h
      cases h with
      | randomMember hk => exact ⟨ne_none_of_bytes hk, _, ⟨1, rfl, rfl⟩, _, ⟨_, hk, rfl⟩, rfl⟩
  | randomMembers key count =>
    rw [command, refuseNone_bind_eq_ok, refuseNone_bind_eq_ok]
    simp only [Except.bind_eq_ok, Command.ofCount_eq_ok, Command.bind_eq_ok, pure, Except.pure]
    constructor
    · rintro ⟨-, -, _, ⟨n, hn, rfl⟩, _, ⟨k, hk, ⟨⟩⟩, ⟨⟩⟩
      exact .randomMembers hk hn
    · intro h
      cases h with
      | randomMembers hk hn => exact ⟨ne_none_of_bytes hk, ne_none_of_int hn, _, ⟨_, hn, rfl⟩, _, ⟨_, hk, rfl⟩, rfl⟩
  | combine how keys =>
    rw [command, refuseNone_bind_eq_ok]
    simp only [Except.bind_eq_ok, Command.ofKeys_combine_eq_ok, pure, Except.pure]
    constructor
    · rintro ⟨-, _, ⟨ds, ks, hs, hds, hks, rfl⟩, ⟨⟩⟩
      exact .combine how hs hds hks
    · intro h
      cases h with
      | combine _ hs hds hks =>
        refine ⟨?_, _, ⟨_, _, hs, hds, hks, rfl⟩, rfl⟩
        rintro rfl
        cases hds
  | combineStore how destination keys =>
    rw [command, refuseNone_bind_eq_ok, refuseNone_bind_eq_ok]
    simp only [Except.bind_eq_ok, Command.ofKeys_combineStore_eq_ok, Command.bind_eq_ok, pure, Except.pure]
    constructor
    · rintro ⟨-, -, _, ⟨ds, ks, hs, hds, hks, rfl⟩, _, ⟨d, hd, ⟨⟩⟩, ⟨⟩⟩
      exact .combineStore how hd hs hds hks
    · intro h
      cases h with
      | combineStore _ hd hs hds hks =>
        refine ⟨ne_none_of_bytes hd, ?_, _, ⟨_, _, hs, hds, hks, rfl⟩, _, ⟨_, hd, rfl⟩, rfl⟩
        rintro rfl
        cases hds

theorem isAdmitted_iff_forall : m.IsAdmitted ↔ ∀ a ∈ m.arguments, a.1.Admits a.2 := by
  constructor
  · intro h a ha
    refine ⟨fun hmisused => h.used ⟨a, ha, hmisused⟩, ?_, h.valid a ha⟩
    exact Role.exists_elements (fun hnone => h.suitable ⟨a, ha, hnone⟩) fun f hf => h.unbroken f ⟨a, ha, hf⟩
  · intro h
    have hnot {f : Failure} {a : Role × Datum} (ha : a ∈ m.arguments) : a.1.elements a.2 ≠ .error f := by
      obtain ⟨ds, hds⟩ := (h a ha).suitable
      simp [hds]
    exact ⟨fun ⟨a, ha, hmisused⟩ => (h a ha).used hmisused,
      fun ⟨a, ha, hnone⟩ => hnot ha (Role.elements_eq_error.2 (.inl ⟨hnone, rfl⟩)),
      fun f ⟨a, ha, hf⟩ => hnot ha (Role.elements_eq_error.2 (.inr hf)), fun a ha => (h a ha).valid⟩

/-- The calls with nothing wrong about their arguments are those that make a command. -/
theorem isAdmitted_iff_makes : m.IsAdmitted ↔ ∃ op c, m.Makes op c := by
  rw [isAdmitted_iff_forall]
  constructor
  · intro h
    cases m with
    | add key values =>
      simp only [arguments, List.forall_mem_cons, Role.admits_field, Role.admits_values] at h
      obtain ⟨⟨k, hk⟩, ⟨ds, bs, hds, hbs⟩, -⟩ := h
      exact ⟨_, _, .add hk hds hbs⟩
    | remove key values =>
      simp only [arguments, List.forall_mem_cons, Role.admits_field, Role.admits_values] at h
      obtain ⟨⟨k, hk⟩, ⟨ds, bs, hds, hbs⟩, -⟩ := h
      exact ⟨_, _, .remove hk hds hbs⟩
    | pop key =>
      simp only [arguments, List.forall_mem_singleton, Role.admits_field] at h
      obtain ⟨k, hk⟩ := h
      exact ⟨_, _, .pop hk⟩
    | move source destination value =>
      simp only [arguments, List.forall_mem_cons, Role.admits_field] at h
      obtain ⟨⟨s, hs⟩, ⟨d, hd⟩, ⟨v, hv⟩, -⟩ := h
      exact ⟨_, _, .move hs hd hv⟩
    | card key =>
      simp only [arguments, List.forall_mem_singleton, Role.admits_field] at h
      obtain ⟨k, hk⟩ := h
      exact ⟨_, _, .card hk⟩
    | isMember key value =>
      simp only [arguments, List.forall_mem_cons, Role.admits_field] at h
      obtain ⟨⟨k, hk⟩, ⟨v, hv⟩, -⟩ := h
      exact ⟨_, _, .isMember hk hv⟩
    | members key =>
      simp only [arguments, List.forall_mem_singleton, Role.admits_field] at h
      obtain ⟨k, hk⟩ := h
      exact ⟨_, _, .members hk⟩
    | randomMember key =>
      simp only [arguments, List.forall_mem_singleton, Role.admits_field] at h
      obtain ⟨k, hk⟩ := h
      exact ⟨_, _, .randomMember hk⟩
    | randomMembers key count =>
      simp only [arguments, List.forall_mem_cons, Role.admits_field, Role.admits_count] at h
      obtain ⟨⟨k, hk⟩, ⟨n, hn⟩, -⟩ := h
      exact ⟨_, _, .randomMembers hk hn⟩
    | combine how keys =>
      simp only [arguments, List.forall_mem_singleton, Role.admits_keys] at h
      obtain ⟨ds, ks, hs, hds, hks⟩ := h
      exact ⟨_, _, .combine how hs hds hks⟩
    | combineStore how destination keys =>
      simp only [arguments, List.forall_mem_cons, Role.admits_field, Role.admits_keys] at h
      obtain ⟨⟨d, hd⟩, ⟨ds, ks, hs, hds, hks⟩, -⟩ := h
      exact ⟨_, _, .combineStore how hd hs hds hks⟩
  · rintro ⟨op, c, h⟩
    cases h with
    | add hk hds hbs | remove hk hds hbs =>
      simp only [arguments, List.forall_mem_cons, Role.admits_field, Role.admits_values]
      exact ⟨⟨_, hk⟩, ⟨_, _, hds, hbs⟩, by simp⟩
    | pop hk | card hk | members hk | randomMember hk =>
      simp only [arguments, List.forall_mem_singleton, Role.admits_field]
      exact ⟨_, hk⟩
    | move hs hd hv =>
      simp only [arguments, List.forall_mem_cons, Role.admits_field]
      exact ⟨⟨_, hs⟩, ⟨_, hd⟩, ⟨_, hv⟩, by simp⟩
    | isMember hk hv =>
      simp only [arguments, List.forall_mem_cons, Role.admits_field]
      exact ⟨⟨_, hk⟩, ⟨_, hv⟩, by simp⟩
    | randomMembers hk hn =>
      simp only [arguments, List.forall_mem_cons, Role.admits_field, Role.admits_count]
      exact ⟨⟨_, hk⟩, ⟨_, hn⟩, by simp⟩
    | combine how hs hds hks =>
      simp only [arguments, List.forall_mem_singleton, Role.admits_keys]
      exact ⟨_, _, hs, hds, hks⟩
    | combineStore how hd hs hds hks =>
      simp only [arguments, List.forall_mem_cons, Role.admits_field, Role.admits_keys]
      exact ⟨⟨_, hd⟩, ⟨_, _, hs, hds, hks⟩, by simp⟩

theorem refuses_command (h : m.IsMisused) : Refuses m.command := by
  cases m with
  | add key values | remove key values =>
    simp only [IsMisused, arguments, List.mem_cons, List.not_mem_nil, or_false, exists_eq_or_imp, exists_eq_left] at h
    refine refuses_refuseNone_bind fun hkey => ?_
    obtain rfl : values = .none := h.resolve_left hkey
    exact Refuses.bind ⟨.values, .inl rfl⟩ _
  | pop key | card key | members key | randomMember key =>
    simp only [IsMisused, arguments, List.mem_singleton, exists_eq_left] at h
    exact refuses_refuseNone_bind fun hkey => absurd h hkey
  | move source destination value =>
    simp only [IsMisused, arguments, List.mem_cons, List.not_mem_nil, or_false, exists_eq_or_imp, exists_eq_left] at h
    exact refuses_refuseNone_bind fun hs => refuses_refuseNone_bind fun hd => refuses_refuseNone_bind fun hv =>
      absurd ((h.resolve_left hs).resolve_left hd) hv
  | isMember key value =>
    simp only [IsMisused, arguments, List.mem_cons, List.not_mem_nil, or_false, exists_eq_or_imp, exists_eq_left] at h
    exact refuses_refuseNone_bind fun hk => refuses_refuseNone_bind fun hv => absurd (h.resolve_left hk) hv
  | randomMembers key count =>
    simp only [IsMisused, arguments, List.mem_cons, List.not_mem_nil, or_false, exists_eq_or_imp, exists_eq_left] at h
    exact refuses_refuseNone_bind fun hk => refuses_refuseNone_bind fun hn => absurd (h.resolve_left hk) hn
  | combine how keys =>
    simp only [IsMisused, arguments, List.mem_singleton, exists_eq_left] at h
    exact refuses_refuseNone_bind fun hkeys => (Command.refuses_ofKeys (h.resolve_left hkeys)).bind _
  | combineStore how destination keys =>
    simp only [IsMisused, arguments, List.mem_cons, List.not_mem_nil, or_false, exists_eq_or_imp, exists_eq_left] at h
    exact refuses_refuseNone_bind fun hd => refuses_refuseNone_bind fun hkeys =>
      (Command.refuses_ofKeys ((h.resolve_left hd).resolve_left hkeys)).bind _

theorem command_of_elements {f : Failure} (hm : ¬m.IsMisused) {a : Role × Datum} (ha : a ∈ m.arguments)
    (h : a.1.elements a.2 = .error f) : m.command = .error f := by
  have hused : ∀ a ∈ m.arguments, ¬a.1.IsMisused a.2 := fun a ha hmisused => hm ⟨a, ha, hmisused⟩
  cases m with
  | add key values | remove key values =>
    simp only [arguments, List.forall_mem_cons] at hused
    simp only [arguments, List.mem_cons, List.not_mem_nil, or_false] at ha
    rcases ha with rfl | rfl
    · cases h
    · rw [command, Except.bind_of_eq_ok (refuseNone_eq_ok.2 hused.1), oneOrMany_of_error hused.2.1 h]
      rfl
  | combine how keys =>
    simp only [arguments, List.forall_mem_singleton] at hused
    obtain rfl := List.mem_singleton.1 ha
    obtain ⟨hne, hs⟩ := not_or.1 hused
    rw [command, Except.bind_of_eq_ok (refuseNone_eq_ok.2 hne),
      Command.ofKeys_of_collect hne (by simpa using hs) h]
    rfl
  | combineStore how destination keys =>
    simp only [arguments, List.forall_mem_cons] at hused
    simp only [arguments, List.mem_cons, List.not_mem_nil, or_false] at ha
    rcases ha with rfl | rfl
    · cases h
    · obtain ⟨hne, hs⟩ := not_or.1 hused.2.1
      rw [command, Except.bind_of_eq_ok (refuseNone_eq_ok.2 hused.1), Except.bind_of_eq_ok (refuseNone_eq_ok.2 hne),
        Command.ofKeys_of_collect hne (by simpa using hs) h]
      rfl
  | pop key | card key | members key | randomMember key =>
    obtain rfl := List.mem_singleton.1 ha
    cases h
  | move source destination value =>
    simp only [arguments, List.mem_cons, List.not_mem_nil, or_false] at ha
    rcases ha with rfl | rfl | rfl <;> cases h
  | isMember key value | randomMembers key count =>
    simp only [arguments, List.mem_cons, List.not_mem_nil, or_false] at ha
    rcases ha with rfl | rfl <;> cases h

theorem reports_captured {x : Except Failure Command} {b : Command.Binding} {key : Datum} (hx : Reports x)
    (hb : ∀ c, x = .ok c → (b.target? c.cls).isSome) (hkey : key ≠ .none) :
    Reports (do let c ← x; return (op, ← c.bind b key)) :=
  hx.bind fun c hc => (Command.reports_bind (hb c hc) hkey).bind fun _ _ => reports_ok rfl

theorem reports_command (hm : ¬m.IsMisused) (hsuitable : ∀ a ∈ m.arguments, ∃ ds, a.1.elements a.2 = .ok ds) :
    Reports m.command := by
  have hused : ∀ a ∈ m.arguments, ¬a.1.IsMisused a.2 := fun a ha hmisused => hm ⟨a, ha, hmisused⟩
  cases m with
  | add key values =>
    simp only [arguments, List.forall_mem_cons] at hused hsuitable
    obtain ⟨ds, hds⟩ := hsuitable.2.1
    refine (reports_refuseNone hused.1).bind fun _ _ => ?_
    rw [Except.bind_of_eq_ok (oneOrMany_of_elements hds)]
    refine reports_captured Command.reports_build (fun c hc => ?_) hused.1
    obtain ⟨bs, -, rfl⟩ := Command.ofValues_add_eq_ok.1 hc
    rfl
  | remove key values =>
    simp only [arguments, List.forall_mem_cons] at hused hsuitable
    obtain ⟨ds, hds⟩ := hsuitable.2.1
    refine (reports_refuseNone hused.1).bind fun _ _ => ?_
    rw [Except.bind_of_eq_ok (oneOrMany_of_elements hds)]
    refine reports_captured Command.reports_build (fun c hc => ?_) hused.1
    obtain ⟨bs, -, rfl⟩ := Command.ofValues_remove_eq_ok.1 hc
    rfl
  | pop key | card key | members key =>
    simp only [arguments, List.forall_mem_singleton] at hused
    exact (reports_refuseNone hused).bind fun _ _ =>
      (Command.reports_given hused : Reports (Command.ofKey .key key)).bind fun _ _ => reports_ok rfl
  | move source destination value =>
    simp only [arguments, List.forall_mem_cons] at hused
    obtain ⟨hs, hd, hv, -⟩ := hused
    refine (reports_refuseNone hs).bind fun _ _ => (reports_refuseNone hd).bind fun _ _ =>
      (reports_refuseNone hv).bind fun _ _ => ?_
    refine (Command.reports_given hv : Reports (Command.ofValue .move value)).bind fun c hc => ?_
    obtain ⟨v, -, rfl⟩ := Command.ofValue_move_eq_ok.1 hc
    refine (Command.reports_bind rfl hs).bind fun c' hc' => ?_
    obtain ⟨s, -, ⟨⟩⟩ := Command.bind_eq_ok.1 hc'
    exact (Command.reports_bind rfl hd).bind fun _ _ => reports_ok rfl
  | isMember key value =>
    simp only [arguments, List.forall_mem_cons] at hused
    refine (reports_refuseNone hused.1).bind fun _ _ => (reports_refuseNone hused.2.1).bind fun _ _ => ?_
    refine reports_captured (Command.reports_given hused.2.1 : Reports (Command.ofValue .isMember value))
      (fun c hc => ?_) hused.1
    obtain ⟨v, -, rfl⟩ := Command.ofValue_isMember_eq_ok.1 hc
    rfl
  | randomMember key =>
    simp only [arguments, List.forall_mem_singleton] at hused
    refine (reports_refuseNone hused).bind fun _ _ => ?_
    refine reports_captured (Command.reports_given (by simp) : Reports (Command.ofCount (.int 1))) (fun c hc => ?_) hused
    obtain ⟨n, -, rfl⟩ := Command.ofCount_eq_ok.1 hc
    rfl
  | randomMembers key count =>
    simp only [arguments, List.forall_mem_cons] at hused
    refine (reports_refuseNone hused.1).bind fun _ _ => (reports_refuseNone hused.2.1).bind fun _ _ => ?_
    refine reports_captured (Command.reports_given hused.2.1 : Reports (Command.ofCount count)) (fun c hc => ?_) hused.1
    obtain ⟨n, -, rfl⟩ := Command.ofCount_eq_ok.1 hc
    rfl
  | combine how keys =>
    simp only [arguments, List.forall_mem_singleton] at hused hsuitable
    obtain ⟨hne, hs⟩ := not_or.1 hused
    obtain ⟨ds, hds⟩ := hsuitable
    exact (reports_refuseNone hne).bind fun _ _ =>
      (Command.reports_ofKeys (by simpa using hs) hds).bind fun _ _ => reports_ok rfl
  | combineStore how destination keys =>
    simp only [arguments, List.forall_mem_cons] at hused hsuitable
    obtain ⟨hne, hs⟩ := not_or.1 hused.2.1
    obtain ⟨ds, hds⟩ := hsuitable.2.1
    refine (reports_refuseNone hused.1).bind fun _ _ => (reports_refuseNone hne).bind fun _ _ => ?_
    refine reports_captured (Command.reports_ofKeys (by simpa using hs) hds) (fun c hc => ?_) hused.1
    obtain ⟨ds, ks, -, -, -, rfl⟩ := Command.ofKeys_combineStore_eq_ok.1 hc
    rfl

/-- What turns a call away is the first reason that there is. -/
theorem raises_of_command {f : Failure} (h : m.command = .error f) : m.Raises (f.leaving .coroutine) := by
  by_cases hm : m.IsMisused
  · obtain ⟨p, hp | hp⟩ := refuses_command hm
    · cases hp.symm.trans h
      exact .absent p hm
    · cases hp.symm.trans h
      exact .single p hm
  · by_cases hiterated : ∀ a ∈ m.arguments, ∃ ds, a.1.elements a.2 = .ok ds
    · obtain ⟨r, rfl⟩ := reports_command hm hiterated f h
      have hadmits : ¬∀ a ∈ m.arguments, a.1.Admits a.2 := fun hadmits => by
        obtain ⟨op, c, hmakes⟩ := isAdmitted_iff_makes.1 (isAdmitted_iff_forall.2 hadmits)
        cases (command_eq_ok.2 hmakes).symm.trans h
      have hnot {f : Failure} {a : Role × Datum} (ha : a ∈ m.arguments) : a.1.elements a.2 ≠ .error f := by
        obtain ⟨ds, hds⟩ := hiterated a ha
        simp [hds]
      refine .invalid r hm ?_ ?_ fun hvalid => hadmits fun a ha => ?_
      · rintro ⟨a, ha, hnone⟩
        exact hnot ha (Role.elements_eq_error.2 (.inl ⟨hnone, rfl⟩))
      · rintro g ⟨a, ha, hg⟩
        exact hnot ha (Role.elements_eq_error.2 (.inr hg))
      · exact ⟨fun hmisused => hm ⟨a, ha, hmisused⟩, hiterated a ha, hvalid a ha⟩
    · simp only [not_forall] at hiterated
      obtain ⟨a, ha, hnone⟩ := hiterated
      cases he : a.1.elements a.2 with
      | ok ds => exact absurd ⟨ds, he⟩ hnone
      | error g =>
        cases (command_of_elements hm ha he).symm.trans h
        rcases Role.elements_eq_error.1 he with ⟨hunsuitable, rfl⟩ | hbreaks
        · exact .unsuitable hm ⟨a, ha, hunsuitable⟩
        · exact .broken hm ⟨a, ha, hbreaks⟩

theorem exists_raises (h : ¬m.IsAdmitted) : ∃ f, m.command = .error f ∧ m.Raises (f.leaving .coroutine) := by
  cases hc : m.command with
  | ok p =>
    obtain ⟨op, c⟩ := p
    exact absurd (isAdmitted_iff_makes.2 ⟨op, c, command_eq_ok.1 hc⟩) h
  | error f => exact ⟨f, rfl, raises_of_command hc⟩

/-- The command that a call makes is one of the operation's own class, and it lacks nothing. -/
theorem Makes.isOwn (h : m.Makes op c) : c.cls = op.commandClass ∧ c.isComplete := by
  cases h <;> exact ⟨rfl, rfl⟩

theorem Makes.fits (h : m.Makes op c) : op.unfit? c = none := by
  obtain ⟨hcls, hcomplete⟩ := h.isOwn
  exact Operation.unfit?_eq_none.2 ⟨by rw [hcls, CommandClass.isKind_refl], hcomplete⟩

end Scalar
end SetPipeline
