import SetPipeline.Proofs.Store.Representation

/-! When a call on a store fails. The reasons against a call come in an order: its class, a part that it lacks, a
collection without items, a plain value under a key that it reads. The first one that applies is the failure, and a
call against which there is none succeeds. -/
namespace SetPipeline

namespace Command

/-- The parts that a command has to be given before it can run, in the order in which it asks for them. -/
def required : Command → List (Part × Option Bytes)
  | bare | multiKey _ | combine .. => []
  | key k | add k _ | remove k _ | randomMembers k _ => [(.key, k)]
  | move s d _ => [(.source, s), (.destination, d)]
  | isMember k _ => [(.setKey, k)]
  | multiKeyStore _ d | combineStore _ _ d => [(.destination, d)]

def Lacks (c : Command) (p : Part) : Prop := c.required.find? (·.2.isNone) = some (p, none)

theorem lacks_iff {c : Command} {p : Part} : c.Lacks p ↔ c.missing? = some p := by
  unfold Lacks
  cases c with
  | bare | multiKey | combine => simp [required, missing?]
  | key k | add k | remove k | randomMembers k | isMember k => cases k <;> simp [required, missing?, lacks]
  | move s d => cases s <;> cases d <;> simp [required, missing?, lacks]
  | multiKeyStore _ d | combineStore _ _ d => cases d <;> simp [required, missing?, lacks]

theorem isComplete_iff_lacks {c : Command} : c.isComplete ↔ ∀ p, ¬c.Lacks p := by
  simp [isComplete, lacks_iff, Option.eq_none_iff_forall_ne_some]

/-- A command asks for an action: it is of the class that the operation takes, and lacks nothing. -/
structure Means (c : Command) (op : Operation) (a : Action) : Prop where
  isKind : c.cls.isKind op.commandClass
  complete : ∀ p, ¬c.Lacks p
  action : Action.of? op c = some a

theorem Means.fits {c : Command} {op : Operation} {a : Action} (h : c.Means op a) : op.unfit? c = none :=
  Operation.unfit?_eq_none.2 ⟨h.isKind, isComplete_iff_lacks.2 h.complete⟩

theorem exists_means {c : Command} {op : Operation} (hkind : c.cls.isKind op.commandClass)
    (hcomplete : ∀ p, ¬c.Lacks p) : ∃ a, c.Means op a := by
  have hfits : op.unfit? c = none := Operation.unfit?_eq_none.2 ⟨hkind, isComplete_iff_lacks.2 hcomplete⟩
  obtain ⟨a, ha⟩ := Option.isSome_iff_exists.1 (Action.isSome_of_fits hfits)
  exact ⟨a, hkind, hcomplete, ha⟩

end Command

/-- No values to add or to remove, or no keys to combine. -/
def Action.LacksArguments : Action → Prop
  | add _ vs | remove _ vs => vs = []
  | combine _ ks | combineStore _ ks _ => ks = []
  | pop _ | move .. | card _ | isMember .. | members _ | randomMembers .. => False

namespace Entry

def isPlain : Entry → Bool
  | plain (.bytes _) => true
  | _ => false

theorem isPlain_iff {e : Entry} : e.isPlain = true ↔ ∃ v, e = plain (.bytes v) := by
  unfold isPlain
  split <;> simp_all

end Entry

namespace Store

variable {s : Store} {a : Action} {k : Bytes} {ks : List Bytes}

def HoldsPlain (s : Store) (k : Bytes) : Prop := ∃ v, s.data.get? k = some (.plain (.bytes v))

instance (s : Store) (k : Bytes) : Decidable (s.HoldsPlain k) :=
  decidable_of_iff ((s.data.get? k).any Entry.isPlain = true) (by
    simp only [Option.any_eq_true, Entry.isPlain_iff, HoldsPlain]
    grind)

theorem not_holdsPlain_putSet (s : Store) (k : Bytes) (m : MemberSet) : ¬(s.putSet k m).HoldsPlain k := by
  rintro ⟨v, hv⟩
  rw [get?_putSet, if_pos rfl] at hv
  split at hv <;> cases hv

theorem Proper.setAt_eq_error_iff (hs : s.Proper) : s.setAt k = .error .wrongType ↔ s.HoldsPlain k := by
  refine ⟨fun h => ?_, fun ⟨v, hv⟩ => setAt_of_plain hv⟩
  cases he : s.data.get? k with
  | none => simp [setAt, entrySet, he] at h
  | some e =>
    cases hs k e he with
    | set => simp [setAt, entrySet, he] at h
    | plain v => exact ⟨v, he⟩

theorem Proper.exists_setAt_iff (hs : s.Proper) : (∃ m, s.setAt k = .ok m) ↔ ¬s.HoldsPlain k := by
  rw [← hs.setAt_eq_error_iff]
  cases h : s.setAt k with
  | ok m => simp
  | error r => simp [setAt_eq_error h]

/-- The set under a key, without members if there is none. -/
def setUnder (s : Store) (k : Bytes) : MemberSet := (s.setAt k).toOption.getD ∅

theorem setUnder_of_eq_ok {m : MemberSet} (h : s.setAt k = .ok m) : s.setUnder k = m := by
  rw [setUnder, h]
  rfl

theorem setUnder_congr {t : Store} (h : t.data.get? k = s.data.get? k) : t.setUnder k = s.setUnder k := by
  rw [setUnder, setUnder, setAt, setAt, h]

theorem Proper.setAt_eq_ok (hs : s.Proper) (hk : ¬s.HoldsPlain k) : s.setAt k = .ok (s.setUnder k) := by
  obtain ⟨m, hm⟩ := hs.exists_setAt_iff.2 hk
  rw [setUnder_of_eq_ok hm, hm]

theorem Proper.get?_eq (hs : s.Proper) (hk : ¬s.HoldsPlain k) :
    s.data.get? k = if (s.setUnder k).isEmpty then none else some (.set (s.setUnder k)) := by
  cases he : s.data.get? k with
  | none => simp [setUnder_of_eq_ok (show s.setAt k = .ok ∅ by simp [setAt, entrySet, he])]
  | some e =>
    cases hs k e he with
    | plain v => exact absurd ⟨v, he⟩ hk
    | @set m hm => simp [setUnder_of_eq_ok (show s.setAt k = .ok m by simp [setAt, entrySet, he]), hm]

theorem combined_of_eq_ok (op : Operation) (how : Combination) (h : ∀ j ∈ k :: ks, s.setAt j = .ok (s.setUnder j)) :
    s.combined op how (k :: ks) = .ok ((s.setUnder k).combine how (ks.map s.setUnder)) := by
  obtain ⟨hk, hks⟩ := List.forall_mem_cons.1 h
  simp only [combined, operands, hk, Except.mapM_of_eq_ok hks]
  rfl

theorem combined_of_wrongType (op : Operation) (how : Combination) (hk : k ∈ ks)
    (h : s.setAt k = .error .wrongType) : s.combined op how ks = .error .wrongType := by
  cases hx : s.combined op how ks with
  | ok m =>
    obtain ⟨n, hn⟩ := combined_eq_ok hx k hk
    rw [h] at hn
    cases hn
  | error r =>
    cases ks with
    | nil => cases hk
    | cons j js => rw [operands_cons_eq_error (Except.map_eq_error.1 hx)]

theorem perform_of_lacksArguments (s : Store) (h : a.LacksArguments) :
    (s.perform a).1 = .error (.noArguments a.operation) := by
  cases a with
  | add | remove | combine | combineStore =>
    cases h
    rfl
  | pop | move | card | isMember | members | randomMembers => cases h

/-- One plain value among the keys that an action reads is enough, wherever it is. -/
theorem perform_of_wrongType (ha : ¬a.LacksArguments) (hk : k ∈ a.reads) (h : s.setAt k = .error .wrongType) :
    (s.perform a).1 = .error .wrongType := by
  have reading (next : MemberSet → Turn) : (s.reading k next).1 = .error .wrongType := by simp [Store.reading, h]
  cases a with
  | add j vs | remove j vs =>
    obtain rfl : k = j := by simpa [Action.reads] using hk
    have hvs : vs.isEmpty = false := by simpa [Action.LacksArguments] using ha
    simpa [perform, addTo, removeFrom, hvs] using reading _
  | pop j | randomMembers j n =>
    obtain rfl : k = j := by simpa [Action.reads] using hk
    exact reading _
  | move i j v =>
    cases hi : s.setAt i with
    | error r => simp [perform, moveBetween, Store.reading, hi, setAt_eq_error hi]
    | ok m =>
      -- The source was read, so the plain value is under the destination.
      have hki : k ≠ i := by
        rintro rfl
        rw [h] at hi
        cases hi
      obtain rfl : k = j := by simpa [Action.reads, hki] using hk
      simpa [perform, moveBetween, reading_of_ok hi] using reading _
  | card j | isMember j v | members j =>
    obtain rfl : k = j := by simpa [Action.reads] using hk
    simp [perform, h, Except.map]
  | combine how ks =>
    have hks : k ∈ ks := hk
    have hcombined := combined_of_wrongType (.combine how) how hks h
    simp [perform, hcombined, Except.map]
  | combineStore how ks d =>
    have hks : k ∈ ks := hk
    have hcombined := combined_of_wrongType (.combineStore how) how hks h
    simp [perform, combineTo, hcombined]

/-- Nothing else can go wrong with an action: with sets under all the keys that it reads it gives a reply. -/
theorem exists_perform_eq_ok (ha : ¬a.LacksArguments) (h : ∀ k ∈ a.reads, s.setAt k = .ok (s.setUnder k)) :
    ∃ x, (s.perform a).1 = .ok x := by
  have single {j : Bytes} (hj : ∀ k ∈ [j], s.setAt k = .ok (s.setUnder k)) : s.setAt j = .ok (s.setUnder j) :=
    hj j (List.mem_singleton_self j)
  cases a with
  | add j vs | remove j vs =>
    have hvs : vs.isEmpty = false := by simpa [Action.LacksArguments] using ha
    simp [perform, addTo, removeFrom, hvs, reading_of_ok (single h)]
  | pop j =>
    simp only [perform, popFrom, reading_of_ok (single h)]
    split <;> exact ⟨_, rfl⟩
  | move i j v =>
    obtain ⟨hi, hj⟩ := List.forall_mem_cons.1 h
    simp only [perform, moveBetween, reading_of_ok hi, reading_of_ok (single hj)]
    split
    · exact ⟨_, rfl⟩
    · split <;> exact ⟨_, rfl⟩
  | card j | isMember j v | members j => simp [perform, single h, Except.map]
  | combine how ks =>
    cases ks with
    | nil => exact absurd rfl ha
    | cons k ks => simp [perform, combined_of_eq_ok _ how h, Except.map]
  | combineStore how ks d =>
    cases ks with
    | nil => exact absurd rfl ha
    | cons k ks => simp [perform, combineTo, combined_of_eq_ok _ how h]
  | randomMembers j n =>
    simp only [perform, randomFrom, reading_of_ok (single h)]
    split <;> exact ⟨_, rfl⟩

/-- The first reason against a call, with the failure that it is. -/
inductive Fault (s : Store) (op : Operation) (c : Command) : Failure → Prop where
  | wrongClass : ¬c.cls.isKind op.commandClass →
    Fault s op c (.refused (Refusal.wrongClass (.known op) c.cls).message (.text Failure.err))
  | incomplete {p : Part} : c.cls.isKind op.commandClass → c.Lacks p → Fault s op c (absent p)
  | noArguments {a : Action} : c.Means op a → a.LacksArguments →
    Fault s op c (.refused (Refusal.noArguments op).message (.text Failure.err))
  | wrongType {a : Action} {k : Bytes} : c.Means op a → ¬a.LacksArguments → k ∈ a.reads → s.HoldsPlain k →
    Fault s op c (.refused Refusal.wrongType.message (.text Failure.wrongType))

/-- Nothing stands against a call: it asks for an action that has its arguments and finds no plain value. -/
def Clear (s : Store) (op : Operation) (c : Command) : Prop :=
  ∃ a, c.Means op a ∧ ¬a.LacksArguments ∧ ∀ k ∈ a.reads, ¬s.HoldsPlain k

theorem exists_fault_or_clear (s : Store) (op : Operation) (c : Command) :
    (∃ f, s.Fault op c f) ∨ s.Clear op c := by
  by_cases hkind : c.cls.isKind op.commandClass
  · by_cases hlacks : ∃ p, c.Lacks p
    · obtain ⟨p, hp⟩ := hlacks
      exact .inl ⟨_, .incomplete hkind hp⟩
    · obtain ⟨a, ha⟩ := Command.exists_means hkind (not_exists.1 hlacks)
      by_cases hargs : a.LacksArguments
      · exact .inl ⟨_, .noArguments ha hargs⟩
      · by_cases hplain : ∃ k ∈ a.reads, s.HoldsPlain k
        · obtain ⟨k, hk, hholds⟩ := hplain
          exact .inl ⟨_, .wrongType ha hargs hk hholds⟩
        · exact .inr ⟨a, ha, hargs, fun k hk hholds => hplain ⟨k, hk, hholds⟩⟩
  · exact .inl ⟨_, .wrongClass hkind⟩

variable {op : Operation} {c : Command}

theorem Proper.execute_of_error (hs : s.Proper) {r : Request} {f : Failure} (h : (s.execute r c).1 = .error f) :
    s.execute r c = (.error f, s.record r c) := by
  rw [hs.execute_eq] at h ⊢
  rw [(hs.answered r c).of_error h, h]
  rfl

theorem Proper.execute_of_means (hs : s.Proper) (h : c.Means op a) :
    s.execute (.known op) c = ((s.perform a).1.mapError Refusal.toFailure,
      (s.perform a).2.withRecorded (s.recorded ++ [(.known op, c)])) :=
  hs.execute_of_fits h.fits h.action

theorem Proper.execute_eq_ok_iff (hs : s.Proper) (h : c.Means op a) {x : Reply} :
    (s.execute (.known op) c).1 = .ok x ↔ (s.perform a).1 = .ok x := by
  rw [hs.execute_of_means h]
  exact Except.mapError_eq_ok

theorem Fault.execute {f : Failure} (h : s.Fault op c f) (hs : s.Proper) :
    (s.execute (.known op) c).1 = .error f := by
  cases h with
  | wrongClass hkind =>
    have hunfit : op.unfit? c = some .wrongClass := by simp [Operation.unfit?, hkind]
    rw [hs.execute_eq, answer_of_unfit s hunfit]
    rfl
  | @incomplete p hkind hp =>
    have hunfit : op.unfit? c = some (.incomplete p) := by
      simp [Operation.unfit?, hkind, Command.lacks_iff.1 hp]
    rw [hs.execute_eq, answer_of_unfit s hunfit]
  | @noArguments a ha hargs =>
    rw [hs.execute_of_means ha, perform_of_lacksArguments s hargs, Action.operation_of ha.action]
    rfl
  | @wrongType a k ha hargs hk hplain =>
    rw [hs.execute_of_means ha, perform_of_wrongType hargs hk (hs.setAt_eq_error_iff.2 hplain)]
    rfl

theorem Clear.execute (h : s.Clear op c) (hs : s.Proper) : ∃ x, (s.execute (.known op) c).1 = .ok x := by
  obtain ⟨a, ha, hargs, hplain⟩ := h
  obtain ⟨x, hx⟩ := exists_perform_eq_ok hargs fun k hk => hs.setAt_eq_ok (hplain k hk)
  exact ⟨x, (hs.execute_eq_ok_iff ha).2 hx⟩

/-- A call fails with the first reason against it, and succeeds if there is none. -/
theorem Reachable.execute_eq_error_iff_fault (hs : s.Reachable) (op : Operation) (c : Command) :
    (∀ f, (s.execute (.known op) c).1 = .error f ↔ s.Fault op c f) ∧
      ((∃ x, (s.execute (.known op) c).1 = .ok x) ↔ s.Clear op c) := by
  rcases exists_fault_or_clear s op c with ⟨f, hf⟩ | hclear
  · have hfails := hf.execute hs.proper
    refine ⟨fun g => ⟨fun h => ?_, fun h => h.execute hs.proper⟩, fun ⟨x, hx⟩ => ?_, fun h => h.execute hs.proper⟩
    · rwa [← Except.error.inj (hfails.symm.trans h)]
    · rw [hfails] at hx
      cases hx
  · obtain ⟨x, hx⟩ := hclear.execute hs.proper
    refine ⟨fun g => ⟨fun h => ?_, fun h => h.execute hs.proper⟩, fun _ => hclear, fun _ => ⟨x, hx⟩⟩
    rw [hx] at h
    cases h

theorem execute_eq_error_iff_fault_lodged : lodged.Reachable ∧
    lodged.Fault .move (.move (some [107]) (some [112]) [99]) (.refused Refusal.wrongType.message (.text "WRONGTYPE")) ∧
      (∀ f, (lodged.execute (.known .move) (.move (some [107]) (some [112]) [99])).1 = .error f ↔
        lodged.Fault .move (.move (some [107]) (some [112]) [99]) f) ∧
      ((∃ x, (lodged.execute (.known .move) (.move (some [107]) (some [112]) [99])).1 = .ok x) ↔
        lodged.Clear .move (.move (some [107]) (some [112]) [99])) := by
  have hboth := reachable_lodged.execute_eq_error_iff_fault .move (.move (some [107]) (some [112]) [99])
  exact ⟨reachable_lodged, (hboth.1 _).1 rfl, hboth⟩

end Store
end SetPipeline
