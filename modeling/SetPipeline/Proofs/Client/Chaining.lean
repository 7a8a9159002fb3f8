import SetPipeline.Proofs.Client.Building

/-! Chains of builder steps. Every step makes the command again and checks all its fields, and a field that has passed
its check passes again as it is; so a chain is a sequence of writes to a record. Each step sets one field to the byte
string that its argument reads as, the last one to set a field counts, and all other fields stay what they were. -/
namespace SetPipeline

/-- The fields that have to be set before a command of a class can run. -/
def CommandClass.keyFields : CommandClass → List String
  | bare | multiKey | combine _ => []
  | key | add | remove | isMember | randomMembers => ["key"]
  | move => ["key", "destination"]
  | multiKeyStore | combineStore _ => ["destination"]

namespace Command

def Binding.field? (b : Binding) (cls : CommandClass) : Option String := (b.target? cls).map (·.1)

abbrev Step := Binding × Datum

def chain (c : Command) (steps : List Step) : Except Failure Command := steps.foldlM (fun c s => c.bind s.1 s.2) c

/-- A step that a class has, with an argument that reads as a byte string. -/
structure Step.IsValid (cls : CommandClass) (s : Step) : Prop where
  has : (s.1.field? cls).isSome
  reads : ∃ k, Fields.bytes s.2 = .ok k

def lastFor (cls : CommandClass) (steps : List Step) (field : String) : Option Datum :=
  (steps.filter fun s => s.1.field? cls == some field).getLast?.map (·.2)

/-- One field of a command set to a byte string. -/
structure Sets (c : Command) (field : String) (k : Bytes) (c' : Command) : Prop where
  cls : c'.cls = c.cls
  set : c'.fields.lookup field = some (.bytes k)
  others : ∀ other, other ≠ field → c'.fields.lookup other = c.fields.lookup other

/-- What a chain makes of a command. A field holds what the last argument for it reads as, and what it held before if
there is none; and the result is complete just where all its key fields are set. -/
structure Chained (c : Command) (steps : List Step) (c' : Command) : Prop where
  cls : c'.cls = c.cls
  applied : ∀ field d, lastFor c.cls steps field = some d →
    ∃ k, Fields.bytes d = .ok k ∧ c'.fields.lookup field = some (.bytes k)
  kept : ∀ field, lastFor c.cls steps field = none → c'.fields.lookup field = c.fields.lookup field
  complete : c'.requireComplete = .ok () ↔ ∀ field ∈ c.cls.keyFields, ∃ k, c'.fields.lookup field = some (.bytes k)

section
variable {c c' : Command} {b : Binding} {d : Datum} {k : Bytes} {field : String} {p : Part} {s : Step} {steps : List Step}

/-- What a command has in its fields passes every check again, and as it is. -/
theorem build_fields (c : Command) : build c.cls c.fields = .ok c := by
  refine build_eq_ok.2 ⟨rfl, ?_⟩
  cases c <;> simp [fields, Reads, List.lookup_cons]

theorem ext_lookup (hcls : c.cls = c'.cls) (h : ∀ field, c.fields.lookup field = c'.fields.lookup field) : c = c' := by
  have hbuild : build c'.cls c'.fields = .ok c := by
    refine build_eq_ok.2 ⟨hcls.symm, fun f hf => ?_⟩
    have hreads := (build_eq_ok.1 c.build_fields).2 f hf
    rwa [Reads, h f.1] at hreads
  exact Except.ok.inj (hbuild.symm.trans c'.build_fields)

theorem requireComplete_iff :
    c.requireComplete = .ok () ↔ ∀ field ∈ c.cls.keyFields, ∃ k, c.fields.lookup field = some (.bytes k) := by
  have hset {k : Option Bytes} : (∃ b, Datum.ofKey k = .bytes b) ↔ k.isSome := by cases k <;> simp [Datum.ofKey]
  rw [requireComplete_eq_ok, isComplete]
  cases c <;> simp [missing?, Command.cls, CommandClass.keyFields, fields, List.lookup_cons, hset]

theorem lookup_replaced (given : Fields.Given) (field other : String) (d : Datum) :
    (given.map fun f => if f.1 = field then (field, d) else f).lookup other =
      if other = field then (given.lookup field).map fun _ => d else given.lookup other := by
  induction given with
  | nil => simp
  | cons f given ih =>
    obtain ⟨name, v⟩ := f
    by_cases hname : name = field
    · subst hname
      by_cases hother : other = name
      · simp [hother]
      · simpa [List.lookup_cons, hother, beq_eq_false_iff_ne.2 hother] using ih
    · by_cases hother : other = name
      · subst hother
        simp [hname]
      · simp [List.lookup_cons, hname, beq_eq_false_iff_ne.2 hother, beq_eq_false_iff_ne.2 (Ne.symm hname), ih]

theorem fields_of_bound? (h : c.bound? b k = some c') (hb : b.target? c.cls = some (field, p)) : c'.cls = c.cls ∧
    (c.fields.lookup field).isSome ∧ c'.fields = c.fields.map fun f => if f.1 = field then (field, .bytes k) else f := by
  cases b <;> cases c <;> simp [Binding.target?, Command.cls] at hb <;> obtain ⟨rfl, rfl⟩ := hb <;>
    simp [bound?] at h <;> subst h <;> simp [Command.cls, fields, List.lookup_cons, Datum.ofKey]

theorem sets_of_bound? (h : c.bound? b k = some c') (hb : b.target? c.cls = some (field, p)) : c.Sets field k c' := by
  obtain ⟨hcls, hfield, hfields⟩ := fields_of_bound? h hb
  obtain ⟨v, hv⟩ := Option.isSome_iff_exists.1 hfield
  constructor
  case cls => exact hcls
  case set => rw [hfields, lookup_replaced, if_pos rfl, hv, Option.map_some]
  case others =>
    intro other hother
    rw [hfields, lookup_replaced, if_neg hother]

theorem exists_bound? (hb : b.target? c.cls = some (field, p)) (k : Bytes) : ∃ c', c.bound? b k = some c' := by
  cases b <;> cases c <;> simp [Binding.target?, Command.cls] at hb <;> exact ⟨_, rfl⟩

theorem Step.IsValid.field?_eq (h : s.IsValid c.cls) : ∃ field p, s.1.target? c.cls = some (field, p) := by
  have hhas := h.has
  rw [Binding.field?, Option.isSome_map] at hhas
  obtain ⟨⟨field, p⟩, hb⟩ := Option.isSome_iff_exists.1 hhas
  exact ⟨field, p, hb⟩

theorem bind_of_isValid (h : s.IsValid c.cls) : ∃ field k c', s.1.field? c.cls = some field ∧ Fields.bytes s.2 = .ok k ∧
    c.bind s.1 s.2 = .ok c' ∧ c.Sets field k c' := by
  obtain ⟨field, p, hb⟩ := h.field?_eq
  obtain ⟨k, hk⟩ := h.reads
  obtain ⟨c', hc'⟩ := exists_bound? hb k
  exact ⟨field, k, c', by rw [Binding.field?, hb, Option.map_some], hk, bind_eq_ok.2 ⟨k, hk, hc'⟩, sets_of_bound? hc' hb⟩

theorem lastFor_cons {cls : CommandClass} : lastFor cls (s :: steps) field =
    (lastFor cls steps field).or (if s.1.field? cls = some field then some s.2 else none) := by
  unfold lastFor
  by_cases hs : s.1.field? cls = some field
  · rw [List.filter_cons_of_pos (by simpa using hs), List.getLast?_cons, if_pos hs]
    cases (steps.filter fun s => s.1.field? cls == some field).getLast? <;> simp
  · rw [List.filter_cons_of_neg (by simpa using hs), if_neg hs, Option.or_none]

theorem chain_cons (c : Command) (s : Step) (steps : List Step) :
    c.chain (s :: steps) = c.bind s.1 s.2 >>= fun c' => c'.chain steps := rfl

/-- A chain of valid steps goes through, and what it makes is told by its last arguments alone. -/
theorem chain_of_isValid (h : ∀ s ∈ steps, s.IsValid c.cls) : ∃ c', c.chain steps = .ok c' ∧ Chained c steps c' := by
  induction steps generalizing c with
  | nil => exact ⟨c, rfl, rfl, by simp [lastFor], fun _ _ => rfl, requireComplete_iff⟩
  | cons s steps ih =>
    obtain ⟨hs, hsteps⟩ := List.forall_mem_cons.1 h
    obtain ⟨field, k, c₁, hfield, hk, hbind, hsets⟩ := bind_of_isValid hs
    obtain ⟨c', hchain, hchained⟩ := ih (c := c₁) (hsets.cls ▸ hsteps)
    obtain ⟨hcls, happlied, hkept, hcomplete⟩ := hchained
    rw [hsets.cls] at hcls happlied hkept hcomplete
    refine ⟨c', ?_, hcls, fun other d hd => ?_, fun other hnone => ?_, hcomplete⟩
    · rw [chain_cons, Except.bind_of_eq_ok hbind]
      exact hchain
    · rw [lastFor_cons, hfield] at hd
      cases hrest : lastFor c.cls steps other with
      | some d' =>
        rw [hrest, Option.some_or] at hd
        exact happlied other d (hrest.trans hd)
      | none =>
        rw [hrest, Option.none_or] at hd
        split at hd
        · next he =>
          cases he
          cases hd
          exact ⟨k, hk, (hkept field hrest).trans hsets.set⟩
        · cases hd
    · rw [lastFor_cons, hfield, Option.or_eq_none_iff] at hnone
      obtain ⟨hrest, hother⟩ := hnone
      have hne : other ≠ field := by
        rintro rfl
        simp at hother
      rw [hkept other hrest, hsets.others other hne]

theorem optionalBytes_of_error {given : Fields.Given} {q : Problem} (hlookup : given.lookup field = some d)
    (hd : d ≠ .none) (hq : Fields.bytes d = .error q) : optionalBytes given field = .error [⟨field, none, q⟩] := by
  unfold optionalBytes Fields.optional
  rw [hlookup]
  cases d with
  | none => exact absurd rfl hd
  | _ => simp [Fields.single, Fields.located, hq, Except.mapError, Except.map]

theorem both_of_error {α β : Type} {x : Fields.Checked α} {y : Fields.Checked β} {is : List Issue} {v : β}
    (hx : x = .error is) (hy : y = .ok v) : Fields.both x y = .error is := by
  rw [hx, hy]
  rfl

theorem both_of_ok {α β : Type} {x : Fields.Checked α} {y : Fields.Checked β} {is : List Issue} {v : α}
    (hx : x = .ok v) (hy : y = .error is) : Fields.both x y = .error is := by
  rw [hx, hy]
  rfl

theorem check_replaced {q : Problem} (hb : b.target? c.cls = some (field, p)) (hd : d ≠ .none)
    (hq : Fields.bytes d = .error q) :
    check (c.fields.map fun f => if f.1 = field then (field, d) else f) c.cls = .error [⟨field, none, q⟩] := by
  have hbad {given : Fields.Given} {name : String} (h : given.lookup name = some d) :
      optionalBytes given name = .error [⟨name, none, q⟩] := optionalBytes_of_error h hd hq
  have hkey {given : Fields.Given} {name : String} {k : Option Bytes} (h : given.lookup name = some (.ofKey k)) :
      optionalBytes given name = .ok k := optionalBytes_eq_ok.2 (by simp [Reads, h])
  have hvalue {given : Fields.Given} {name : String} {v : Bytes} (h : given.lookup name = some (.bytes v)) :
      requiredBytes given name = .ok v := requiredBytes_eq_ok.2 (by simp [Reads, h])
  have hvalues {given : Fields.Given} {name : String} {vs : List Bytes} (h : given.lookup name = some (.ofKeys vs)) :
      requiredSeveral given name = .ok vs := requiredSeveral_eq_ok.2 (by simp [Reads, h])
  have hcount {given : Fields.Given} {n : Option Int} (h : given.lookup "count" = some (.ofCount n)) :
      optionalCount given = .ok n := optionalCount_eq_ok.2 (by simp [Reads, h])
  cases b <;> cases c <;> simp [Binding.target?, Command.cls] at hb <;> obtain ⟨rfl, rfl⟩ := hb <;>
    refine Except.map_eq_error.2 ?_
  case into.add => exact both_of_error (hbad rfl) (hvalues rfl)
  case outOf.remove => exact both_of_error (hbad rfl) (hvalues rfl)
  case into.move => exact both_of_ok (hkey rfl) (both_of_error (hbad rfl) (hvalue rfl))
  case outOf.move s t v =>
    exact both_of_error (hbad rfl) (Fields.both_eq_ok (p := (t, v)).2 ⟨hkey rfl, hvalue rfl⟩)
  case outOf.randomMembers => exact both_of_error (hbad rfl) (hcount rfl)
  case within.isMember => exact both_of_error (hbad rfl) (hvalue rfl)
  case storedAt.multiKeyStore => exact both_of_ok (hvalues rfl) (hbad rfl)
  case storedAt.combineStore => exact both_of_ok (hvalues rfl) (hbad rfl)

/-- An argument that is no byte string is reported at the field that it is for, and nothing else is. -/
theorem bind_of_error {q : Problem} (hb : b.target? c.cls = some (field, p)) (hd : d ≠ .none)
    (hq : Fields.bytes d = .error q) : c.bind b d = .error (.misuse (.invalid ⟨c.cls.name, [⟨field, none, q⟩]⟩)) := by
  have hbind : c.bind b d = c.replacing field d := by
    unfold bind
    rw [hb]
    exact Except.bind_of_eq_ok (refuseNone_eq_ok.2 hd) _
  rw [hbind, replacing, build, make, check_replaced hb hd hq]
  rfl

theorem Chained.unique {steps' : List Step} {c'' : Command} (h : Chained c steps c') (h' : Chained c steps' c'')
    (hlast : ∀ field, (lastFor c.cls steps field).map Fields.bytes = (lastFor c.cls steps' field).map Fields.bytes) :
    c' = c'' := by
  refine ext_lookup (h.cls.trans h'.cls.symm) fun field => ?_
  have hfield := hlast field
  cases hd : lastFor c.cls steps field with
  | none =>
    rw [hd, Option.map_none, eq_comm, Option.map_eq_none_iff] at hfield
    rw [h.kept field hd, h'.kept field hfield]
  | some d =>
    rw [hd, Option.map_some, eq_comm, Option.map_eq_some_iff] at hfield
    obtain ⟨d', hd', hsame⟩ := hfield
    obtain ⟨k, hk, hset⟩ := h.applied field d hd
    obtain ⟨k', hk', hset'⟩ := h'.applied field d' hd'
    have hkk : k = k' := Except.ok.inj (hk.symm.trans (hsame.symm.trans hk'))
    rw [hset, hset', hkk]

end

/-- Builder steps as writes to a record. What a command holds passes its checks again as it is; a chain of valid steps
goes through; the last arguments alone tell what it makes, so steps for different fields commute and a later step for
the same field wins. A step whose argument is none or no byte string is misuse. -/
structure CopiesOnWrite (c : Command) : Prop where
  again : build c.cls c.fields = .ok c
  chains : ∀ steps, (∀ s ∈ steps, s.IsValid c.cls) → ∃ c', c.chain steps = .ok c' ∧ Chained c steps c'
  determined : ∀ steps steps', (∀ s ∈ steps, s.IsValid c.cls) → (∀ s ∈ steps', s.IsValid c.cls) →
    (∀ field, (lastFor c.cls steps field).map Fields.bytes = (lastFor c.cls steps' field).map Fields.bytes) →
      c.chain steps = c.chain steps'
  commutes : ∀ s s', s.IsValid c.cls → s'.IsValid c.cls → s.1.field? c.cls ≠ s'.1.field? c.cls →
    c.chain [s, s'] = c.chain [s', s]
  overwrites : ∀ s s', s.IsValid c.cls → s'.IsValid c.cls → s.1.field? c.cls = s'.1.field? c.cls →
    c.chain [s, s'] = c.chain [s']
  absent : ∀ b field p, b.target? c.cls = some (field, p) → c.bind b .none = .error (.misuse (.absent p))
  invalid : ∀ b field p d, b.target? c.cls = some (field, p) → d ≠ .none → (∀ k, Fields.bytes d ≠ .ok k) →
    c.bind b d = .error (.misuse (.invalid ⟨c.cls.name, [⟨field, none, .bytesType⟩]⟩))

theorem copiesOnWrite (c : Command) : c.CopiesOnWrite := by
  have hdetermined (steps steps' : List Step) (h : ∀ s ∈ steps, s.IsValid c.cls) (h' : ∀ s ∈ steps', s.IsValid c.cls)
      (hlast : ∀ field, (lastFor c.cls steps field).map Fields.bytes = (lastFor c.cls steps' field).map Fields.bytes) :
      c.chain steps = c.chain steps' := by
    obtain ⟨c₁, hchain, hchained⟩ := chain_of_isValid h
    obtain ⟨c₂, hchain', hchained'⟩ := chain_of_isValid h'
    rw [hchain, hchain', hchained.unique hchained' hlast]
  constructor
  case again => exact c.build_fields
  case chains => exact fun steps => chain_of_isValid
  case determined => exact hdetermined
  case commutes =>
    intro s s' hs hs' hne
    refine hdetermined _ _ (by simp [hs, hs']) (by simp [hs, hs']) fun field => ?_
    have hapart : ¬(s.1.field? c.cls = some field ∧ s'.1.field? c.cls = some field) := fun h => hne (h.1.trans h.2.symm)
    simp only [lastFor_cons]
    by_cases hf : s.1.field? c.cls = some field <;> by_cases hf' : s'.1.field? c.cls = some field <;>
      simp_all [lastFor]
  case overwrites =>
    intro s s' hs hs' he
    refine hdetermined _ _ (by simp [hs, hs']) (by simp [hs']) fun field => ?_
    simp only [lastFor_cons, he]
    by_cases hf : s'.1.field? c.cls = some field <;> simp [lastFor, hf]
  case absent =>
    intro b field p hb
    unfold bind
    rw [hb]
    rfl
  case invalid =>
    intro b field p d hb hd hread
    cases hq : Fields.bytes d with
    | ok k => exact absurd hq (hread k)
    | error q => exact Fields.eq_bytesType hq ▸ bind_of_error hb hd hq

example : (move none none [118]).chain [(.into, .bytes [100]), (.outOf, .bytes [1]), (.outOf, .byteArray [115])] =
    .ok (move (some [115]) (some [100]) [118]) := by rfl

end Command
end SetPipeline
