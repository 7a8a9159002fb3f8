import SetPipeline.Proofs.Store.Unchanged

/-! What a call depends on and what it changes. On all stores that hold the same under the keys it reads, and draw
the same, a call comes to the same, takes the same random choices and makes the same updates under the keys it
writes; everything else stays as it is. So two calls of which neither writes what the other one reads or writes can
be made in either order. This holds on every store, whatever its entries are. -/
namespace SetPipeline

namespace Keyspace

def update (d : Keyspace) (k : Bytes) : Option Entry → Keyspace
  | some e => d.put k e
  | none => d.erase k

theorem get?_update (d : Keyspace) (j k : Bytes) (e : Option Entry) :
    (d.update k e).get? j = if j = k then e else d.get? j := by
  cases e with
  | none => exact get?_erase d j k
  | some e => exact get?_put d j k e

def updateAll (d : Keyspace) (ps : List (Bytes × Option Entry)) : Keyspace :=
  ps.foldl (fun d p => d.update p.1 p.2) d

theorem get?_updateAll_of_notMem {d : Keyspace} {k : Bytes} {ps : List (Bytes × Option Entry)}
    (h : ∀ p ∈ ps, p.1 ≠ k) : (d.updateAll ps).get? k = d.get? k := by
  induction ps generalizing d with
  | nil => rfl
  | cons p ps ih =>
    obtain ⟨hp, hps⟩ := List.forall_mem_cons.1 h
    show ((d.update p.1 p.2).updateAll ps).get? k = d.get? k
    rw [ih hps, get?_update, if_neg hp.symm]

theorem get?_updateAll_of_within {d : Keyspace} {k : Bytes} {ps : List (Bytes × Option Entry)} {ws : List Bytes}
    (hps : ∀ p ∈ ps, p.1 ∈ ws) (hk : k ∉ ws) : (d.updateAll ps).get? k = d.get? k := by
  refine get?_updateAll_of_notMem ?_
  rintro p hp rfl
  exact hk (hps p hp)

theorem get?_updateAll_congr {d e : Keyspace} {k : Bytes} (ps : List (Bytes × Option Entry))
    (h : d.get? k = e.get? k) : (d.updateAll ps).get? k = (e.updateAll ps).get? k := by
  induction ps generalizing d e with
  | nil => exact h
  | cons p ps ih =>
    refine ih (d := d.update p.1 p.2) (e := e.update p.1 p.2) ?_
    by_cases hk : k = p.1 <;> simp [get?_update, hk, h]

theorem updateAll_comm {d : Keyspace} {ps qs : List (Bytes × Option Entry)}
    (h : ∀ p ∈ ps, ∀ q ∈ qs, p.1 ≠ q.1) : (d.updateAll ps).updateAll qs = (d.updateAll qs).updateAll ps := by
  refine ext fun k => ?_
  by_cases hk : ∃ q ∈ qs, q.1 = k
  · obtain ⟨q, hq, rfl⟩ := hk
    have hfree : ∀ p ∈ ps, p.1 ≠ q.1 := fun p hp => h p hp q hq
    rw [get?_updateAll_of_notMem (d := d.updateAll qs) hfree]
    exact get?_updateAll_congr qs (get?_updateAll_of_notMem hfree)
  · have hfree : ∀ q ∈ qs, q.1 ≠ k := fun q hq he => hk ⟨q, hq, he⟩
    rw [get?_updateAll_of_notMem (d := d.updateAll ps) hfree]
    exact get?_updateAll_congr ps (get?_updateAll_of_notMem hfree).symm

end Keyspace

namespace Request

def action? : Request → Command → Option Action
  | known op, c => Action.of? op c
  | unknown _, _ => none

def reads (r : Request) (c : Command) : List Bytes := ((r.action? c).map Action.reads).getD []

def writes (r : Request) (c : Command) : List Bytes := ((r.action? c).map Action.writes).getD []

/-- Neither call writes a key that the other one reads or writes. -/
structure Apart (r₁ : Request) (c₁ : Command) (r₂ : Request) (c₂ : Command) : Prop where
  first : ∀ k ∈ r₁.writes c₁, k ∉ r₂.reads c₂ ∧ k ∉ r₂.writes c₂
  second : ∀ k ∈ r₂.writes c₂, k ∉ r₁.reads c₁ ∧ k ∉ r₁.writes c₁

end Request

namespace Store

/-- Another store that holds the same under some keys and draws the same. -/
structure Agrees (ks : List Bytes) (s t : Store) : Prop where
  entries : ∀ k ∈ ks, t.data.get? k = s.data.get? k
  draws : t.draws = s.draws

def updating (s : Store) (ps : List (Bytes × Option Entry)) : Store := { s with data := s.data.updateAll ps }

theorem putSet_eq (s : Store) (k : Bytes) (m : MemberSet) :
    s.putSet k m = s.updating [(k, if m.isEmpty then none else some (.set m))] := by
  cases h : m.isEmpty <;> simp [putSet, updating, Keyspace.updateAll, Keyspace.update, h]

theorem putMembers_eq (s : Store) (k : Bytes) (ms : Members) :
    s.putMembers k ms = s.updating [(k, if ms.isEmpty then none else some (.ofMembers ms))] := by
  cases h : ms.isEmpty <;> simp [putMembers, updating, Keyspace.updateAll, Keyspace.update, h]

theorem updating_updating (s : Store) (ps qs : List (Bytes × Option Entry)) :
    (s.updating ps).updating qs = s.updating (ps ++ qs) := by
  simp [updating, Keyspace.updateAll]

theorem mapM_congr {α β ε : Type} {f g : α → Except ε β} {xs : List α} (h : ∀ x ∈ xs, f x = g x) :
    xs.mapM f = xs.mapM g := by
  induction xs with
  | nil => rfl
  | cons x xs ih =>
    obtain ⟨hx, hxs⟩ := List.forall_mem_cons.1 h
    rw [List.mapM_cons, List.mapM_cons, hx, ih hxs]

section

variable {ks ws : List Bytes} {s t : Store}

theorem Agrees.setAt (h : Agrees ks s t) {k : Bytes} (hk : k ∈ ks) : t.setAt k = s.setAt k := by
  simp [Store.setAt, h.entries k hk]

theorem Agrees.membersAt (h : Agrees ks s t) {k : Bytes} (hk : k ∈ ks) : t.membersAt k = s.membersAt k := by
  simp [Store.membersAt, h.entries k hk]

theorem Agrees.combined (h : Agrees ks s t) (op : Operation) (how : Combination) :
    t.combined op how ks = s.combined op how ks := by
  cases ks with
  | nil => rfl
  | cons k ks =>
    have hall : ks.mapM t.setAt = ks.mapM s.setAt := mapM_congr fun j hj => h.setAt (List.mem_cons_of_mem k hj)
    simp only [Store.combined, operands, h.setAt List.mem_cons_self, hall]

theorem Agrees.combinedMembers (h : Agrees ks s t) (op : Operation) (how : Combination) :
    t.combinedMembers op how ks = s.combinedMembers op how ks := by
  cases ks with
  | nil => rfl
  | cons k ks =>
    have hall : ks.mapM t.membersAt = ks.mapM s.membersAt :=
      mapM_congr fun j hj => h.membersAt (List.mem_cons_of_mem k hj)
    simp only [Store.combinedMembers, h.membersAt List.mem_cons_self, hall]

theorem Agrees.readsMixed {a : Action} (h : Agrees a.reads s t) : t.readsMixed a = s.readsMixed a := by
  refine Bool.eq_iff_iff.2 ?_
  simp only [Store.readsMixed, List.any_eq_true]
  refine exists_congr fun k => and_congr_right fun hk => ?_
  rw [h.entries k hk]

/-- What `f` comes to depends on a store only through some keys and the source of random choices, and `f` updates
no keys but some: on all stores that agree with `s` the result is one, and so are the choices taken and the updates
made. -/
def Local (ks ws : List Bytes) (s : Store) {ε : Type} (f : Store → Except ε Reply × Store) : Prop :=
  ∃ x d ps, (∀ p ∈ ps, p.1 ∈ ws) ∧ ∀ t, Agrees ks s t → f t = (x, { t with draws := d }.updating ps)

namespace Local

variable {ε : Type} {f g : Store → Except ε Reply × Store}

theorem congr (hg : Local ks ws s g) (h : ∀ t, Agrees ks s t → f t = g t) : Local ks ws s f := by
  obtain ⟨x, d, ps, hps, hx⟩ := hg
  exact ⟨x, d, ps, hps, fun t ht => (h t ht).trans (hx t ht)⟩

theorem updates (x : Except ε Reply) (ps : List (Bytes × Option Entry)) (hps : ∀ p ∈ ps, p.1 ∈ ws) :
    Local ks ws s fun t => (x, t.updating ps) :=
  ⟨x, s.draws, ps, hps, fun t ht => by rw [← ht.draws]⟩

theorem putSet (x : Except ε Reply) {k : Bytes} (m : MemberSet) (hk : k ∈ ws) :
    Local ks ws s fun t => (x, t.putSet k m) := by
  simp only [putSet_eq]
  exact updates x _ (List.forall_mem_singleton.2 hk)

theorem putMembers (x : Except ε Reply) {k : Bytes} (ms : Members) (hk : k ∈ ws) :
    Local ks ws s fun t => (x, t.putMembers k ms) := by
  simp only [putMembers_eq]
  exact updates x _ (List.forall_mem_singleton.2 hk)

theorem same (x : Except ε Reply) : Local ks ws s fun t => (x, t) := updates x [] (by simp)

theorem result {y : Store → Except ε Reply} (h : ∀ t, Agrees ks s t → y t = y s) :
    Local ks ws s fun t => (y t, t) :=
  (same (y s)).congr fun t ht => by rw [h t ht]

theorem ite {p : Prop} [Decidable p] (hf : Local ks ws s f) (hg : Local ks ws s g) :
    Local ks ws s fun t => if p then f t else g t := by
  by_cases hp : p
  · simpa only [hp, if_true] using hf
  · simpa only [hp, if_false] using hg

theorem drawing {α : Type} (pick : Draws → α × Draws) (next : α → Store → Except ε Reply × Store)
    (h : ∀ a d, Local ks ws { s with draws := d } (next a)) :
    Local ks ws s fun t => next (pick t.draws).1 { t with draws := (pick t.draws).2 } := by
  obtain ⟨x, d, ps, hps, hx⟩ := h (pick s.draws).1 (pick s.draws).2
  refine ⟨x, d, ps, hps, fun t ht => ?_⟩
  simp only [ht.draws]
  exact hx { t with draws := (pick s.draws).2 } ⟨ht.entries, rfl⟩

theorem reading {k : Bytes} {next : Store → MemberSet → Turn} (hk : k ∈ ks)
    (h : ∀ m, Local ks ws s fun t => next t m) : Local ks ws s fun t => t.reading k (next t) := by
  cases hm : s.setAt k with
  | ok m => exact (h m).congr fun t ht => by simp [Store.reading, ht.setAt hk, hm]
  | error r => exact (same (.error r)).congr fun t ht => by simp [Store.reading, ht.setAt hk, hm]

theorem readingMembers {k : Bytes} {next : Store → Members → MixedTurn} (hk : k ∈ ks)
    (h : ∀ ms, Local ks ws s fun t => next t ms) : Local ks ws s fun t => t.readingMembers k (next t) := by
  cases hm : s.membersAt k with
  | ok ms => exact (h ms).congr fun t ht => by simp [Store.readingMembers, ht.membersAt hk, hm]
  | error r => exact (same (.error r.toFailure)).congr fun t ht => by simp [Store.readingMembers, ht.membersAt hk, hm]

theorem mapError {ε' : Type} (hf : Local ks ws s f) (e : ε → ε') :
    Local ks ws s fun t => ((f t).1.mapError e, (f t).2) := by
  obtain ⟨x, d, ps, hps, hx⟩ := hf
  exact ⟨x.mapError e, d, ps, hps, fun t ht => by simp only [hx t ht]⟩

end Local
end

theorem perform_local (s : Store) (a : Action) : Local a.reads a.writes s fun t => t.perform a := by
  have key {k : Bytes} : k ∈ [k] := List.mem_singleton_self k
  cases a with
  | add k vs => exact .ite (.same _) (.reading key fun m => .putSet _ _ key)
  | remove k vs => exact .ite (.same _) (.reading key fun m => .putSet _ _ key)
  | pop k =>
    refine .reading key fun m => ?_
    cases m.toList with
    | nil => exact .same _
    | cons x xs =>
      exact .drawing (fun d => d.choose x xs) (fun y t => (.ok (.member (some y)), t.putSet k (m.erase y)))
        fun y d => .putSet _ _ key
  | move a b v =>
    simp only [perform, moveBetween, putSet_eq, updating_updating]
    refine .reading List.mem_cons_self fun m => .reading (List.mem_cons_of_mem a key) fun n => ?_
    exact .ite (.same _) (.ite (.same _) (.updates _ _ (by simp [Action.writes])))
  | card k => exact .result fun t ht => by rw [ht.setAt key]
  | isMember k v => exact .result fun t ht => by rw [ht.setAt key]
  | combine how ks => exact .result fun t (ht : Agrees ks s t) => by rw [ht.combined]
  | combineStore how ks d =>
    simp only [perform, combineTo]
    cases hm : s.combined (.combineStore how) how ks with
    | ok m => exact (Local.putSet _ _ key).congr fun t (ht : Agrees ks s t) => by rw [ht.combined, hm]
    | error r => exact (Local.same _).congr fun t (ht : Agrees ks s t) => by rw [ht.combined, hm]
  | members k => exact .result fun t ht => by rw [ht.setAt key]
  | randomMembers k n =>
    refine .reading key fun m => ?_
    cases m.toList with
    | nil => exact .same _
    | cons x xs =>
      exact .drawing (fun d => d.several n x xs) (fun ys t => (.ok (.members ys), t)) fun ys d => .same _

theorem performMixed_local (s : Store) (a : Action) : Local a.reads a.writes s fun t => t.performMixed a := by
  have key {k : Bytes} : k ∈ [k] := List.mem_singleton_self k
  cases a with
  | add k vs => exact .ite (.same _) (.readingMembers key fun ms => .putMembers _ _ key)
  | remove k vs => exact .ite (.same _) (.readingMembers key fun ms => .putMembers _ _ key)
  | pop k =>
    refine .readingMembers key fun ms => ?_
    cases ms.sorted? with
    | none => exact .same _
    | some ms' =>
      cases ms' with
      | nil => exact .same _
      | cons x xs =>
        exact .drawing (fun d => d.choose x xs) (fun y t => (.ok (.value y.value), t.putMembers k (ms.erase y)))
          fun y d => .putMembers _ _ key
  | move a b v =>
    simp only [performMixed, moveMember, putMembers_eq, updating_updating]
    refine .readingMembers List.mem_cons_self fun ms => .readingMembers (List.mem_cons_of_mem a key) fun ns => ?_
    exact .ite (.same _) (.ite (.same _) (.updates _ _ (by simp [Action.writes])))
  | card k => exact .readingMembers key fun ms => .same _
  | isMember k v => exact .readingMembers key fun ms => .same _
  | combine how ks => exact .result fun t (ht : Agrees ks s t) => by rw [ht.combinedMembers]
  | combineStore how ks d =>
    simp only [performMixed]
    cases hm : s.combinedMembers (.combineStore how) how ks with
    | ok ms => exact (Local.putMembers _ _ key).congr fun t (ht : Agrees ks s t) => by rw [ht.combinedMembers, hm]
    | error r => exact (Local.same _).congr fun t (ht : Agrees ks s t) => by rw [ht.combinedMembers, hm]
  | members k => exact .readingMembers key fun ms => .same _
  | randomMembers k n =>
    refine .readingMembers key fun ms => ?_
    cases ms.sorted? with
    | none => exact .same _
    | some ms' =>
      cases ms' with
      | nil => exact .same _
      | cons x xs =>
        exact .drawing (fun d => d.several n x xs) (fun ys t => (.ok (.values (Members.values ys)), t))
          fun ys d => .same _

theorem act_local (s : Store) (a : Action) : Local a.reads a.writes s fun t => t.act a := by
  cases hm : s.readsMixed a with
  | true => exact (performMixed_local s a).congr fun t ht => by simp [act, ht.readsMixed, hm]
  | false =>
    exact ((perform_local s a).mapError Refusal.toFailure).congr fun t ht => by simp [act, ht.readsMixed, hm]

theorem answer_local (s : Store) (r : Request) (c : Command) :
    Local (r.reads c) (r.writes c) s fun t => t.answer r c := by
  simp only [answer]
  refine .ite (.same _) ?_
  cases c.missing? with
  | some p => exact .same _
  | none =>
    cases r with
    | unknown name => exact .same _
    | known op =>
      cases ha : Action.of? op c with
      | none => simpa [ha] using Local.same _
      | some a => simpa [ha, Request.reads, Request.writes, Request.action?] using act_local s a

/-- The same for a whole call. That it is noted plays no part in what it does. -/
theorem execute_local (s : Store) (r : Request) (c : Command) :
    ∃ x d ps, (∀ p ∈ ps, p.1 ∈ r.writes c) ∧
      ∀ t, Agrees (r.reads c) s t → t.execute r c = (x, { t.record r c with draws := d }.updating ps) := by
  obtain ⟨x, d, ps, hps, hx⟩ := answer_local (s.record r c) r c
  exact ⟨x, d, ps, hps, fun t ht => hx (t.record r c) ⟨ht.entries, ht.draws⟩⟩

/-- A call stays within its keys: it changes nothing under others, and other keys than those it reads have no part
in what it comes to. Stores that agree on these and on some more keys agree on all of them afterwards. -/
structure Confined (s : Store) (r : Request) (c : Command) : Prop where
  outside : ∀ k, k ∉ r.writes c → (s.execute r c).2.data.get? k = s.data.get? k
  aside : (s.execute r c).2.aside = s.aside
  result : ∀ t, Agrees (r.reads c) s t → (t.execute r c).1 = (s.execute r c).1
  within : ∀ ks t, Agrees (r.reads c ++ ks) s t → Agrees (r.reads c ++ ks) (s.execute r c).2 (t.execute r c).2

theorem Agrees.refl (ks : List Bytes) (s : Store) : Agrees ks s s := ⟨fun _ _ => rfl, rfl⟩

theorem Agrees.mono {ks js : List Bytes} {s t : Store} (h : Agrees ks s t) (hjs : ∀ j ∈ js, j ∈ ks) :
    Agrees js s t :=
  ⟨fun j hj => h.entries j (hjs j hj), h.draws⟩

theorem execute_confined (s : Store) (r : Request) (c : Command) : s.Confined r c := by
  obtain ⟨x, d, ps, hps, hx⟩ := execute_local s r c
  have hs := hx s (.refl _ s)
  refine ⟨fun k hk => ?_, ?_, fun t ht => ?_, fun ks t ht => ?_⟩
  · rw [hs]
    exact Keyspace.get?_updateAll_of_within hps hk
  · rw [hs]
    rfl
  · rw [hs, hx t ht]
  · rw [hs, hx t (ht.mono fun j hj => List.mem_append_left ks hj)]
    exact ⟨fun k hk => Keyspace.get?_updateAll_congr ps (ht.entries k hk), rfl⟩

/-- A call that makes its random choices by a source of its own. -/
def executeWith (s : Store) (d : Draws) (r : Request) (c : Command) : Except Failure Reply × Store :=
  ({ s with draws := d }).execute r c

theorem executeWith_local (s : Store) (d : Draws) (r : Request) (c : Command) :
    ∃ x e ps, (∀ p ∈ ps, p.1 ∈ r.writes c) ∧ ∀ t : Store, (∀ k ∈ r.reads c, t.data.get? k = s.data.get? k) →
      t.executeWith d r c = (x, { t.record r c with draws := e }.updating ps) := by
  obtain ⟨x, e, ps, hps, hx⟩ := execute_local { s with draws := d } r c
  exact ⟨x, e, ps, hps, fun t ht => hx { t with draws := d } ⟨ht, rfl⟩⟩

/-- Two calls made in one order and in the other leave the same entries, and each of them comes to the same. -/
structure Commute (s : Store) (d₁ : Draws) (r₁ : Request) (c₁ : Command) (d₂ : Draws) (r₂ : Request)
    (c₂ : Command) : Prop where
  data : ((s.executeWith d₁ r₁ c₁).2.executeWith d₂ r₂ c₂).2.data =
    ((s.executeWith d₂ r₂ c₂).2.executeWith d₁ r₁ c₁).2.data
  aside : ((s.executeWith d₁ r₁ c₁).2.executeWith d₂ r₂ c₂).2.aside =
    ((s.executeWith d₂ r₂ c₂).2.executeWith d₁ r₁ c₁).2.aside
  first : (s.executeWith d₁ r₁ c₁).1 = ((s.executeWith d₂ r₂ c₂).2.executeWith d₁ r₁ c₁).1
  second : ((s.executeWith d₁ r₁ c₁).2.executeWith d₂ r₂ c₂).1 = (s.executeWith d₂ r₂ c₂).1

theorem commute_of_apart (s : Store) {r₁ r₂ : Request} {c₁ c₂ : Command} (h : Request.Apart r₁ c₁ r₂ c₂)
    (d₁ d₂ : Draws) : s.Commute d₁ r₁ c₁ d₂ r₂ c₂ := by
  obtain ⟨x₁, e₁, ps, hps, h₁⟩ := executeWith_local s d₁ r₁ c₁
  obtain ⟨x₂, e₂, qs, hqs, h₂⟩ := executeWith_local s d₂ r₂ c₂
  -- The updates of either call are made under keys that the other one does not read.
  have hread₂ : ∀ k ∈ r₂.reads c₂, (s.data.updateAll ps).get? k = s.data.get? k := fun k hk =>
    Keyspace.get?_updateAll_of_within hps fun hw => (h.first k hw).1 hk
  have hread₁ : ∀ k ∈ r₁.reads c₁, (s.data.updateAll qs).get? k = s.data.get? k := fun k hk =>
    Keyspace.get?_updateAll_of_within hqs fun hw => (h.second k hw).1 hk
  have hfree : ∀ p ∈ ps, ∀ q ∈ qs, p.1 ≠ q.1 := by
    intro p hp q hq he
    exact (h.first p.1 (hps p hp)).2 (he ▸ hqs q hq)
  have hs₁ := h₁ s fun _ _ => rfl
  have hs₂ := h₂ s fun _ _ => rfl
  have hs₁₂ := h₂ (s.executeWith d₁ r₁ c₁).2 (by rw [hs₁]; exact hread₂)
  have hs₂₁ := h₁ (s.executeWith d₂ r₂ c₂).2 (by rw [hs₂]; exact hread₁)
  refine ⟨?_, ?_, ?_, ?_⟩
  · rw [hs₁₂, hs₂₁, hs₁, hs₂]
    exact Keyspace.updateAll_comm hfree
  · rw [hs₁₂, hs₂₁, hs₁, hs₂]
    rfl
  · rw [hs₂₁, hs₁]
  · rw [hs₁₂, hs₂]

/-- Every call stays within its keys, and calls apart from each other can be made in either order. -/
theorem execute_apart (s : Store) :
    (∀ r c, s.Confined r c) ∧
      ∀ r₁ c₁ r₂ c₂, Request.Apart r₁ c₁ r₂ c₂ → ∀ d₁ d₂, s.Commute d₁ r₁ c₁ d₂ r₂ c₂ :=
  ⟨s.execute_confined, fun _ _ _ _ h d₁ d₂ => s.commute_of_apart h d₁ d₂⟩

theorem execute_apart_lodged :
    Request.Apart (.known .pop) (.key (some [107])) (.known (.combineStore .union))
        (.combineStore .union [[109], [109]] (some [112])) ∧
      lodged.Commute ⟨[1], 0⟩ (.known .pop) (.key (some [107])) ⟨[], 0⟩ (.known (.combineStore .union))
        (.combineStore .union [[109], [109]] (some [112])) := by
  have hapart : Request.Apart (.known .pop) (.key (some [107])) (.known (.combineStore .union))
      (.combineStore .union [[109], [109]] (some [112])) := ⟨by decide, by decide⟩
  exact ⟨hapart, (execute_apart lodged).2 _ _ _ _ hapart _ _⟩

end Store
end SetPipeline
