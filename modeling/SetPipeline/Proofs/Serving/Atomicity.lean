import SetPipeline.Proofs.Pipeline.Correlation
import SetPipeline.Proofs.Serving.Step
import SetPipeline.Proofs.Store.Gate

/-! Calls on a store are atomic. Whatever streams there are and however their moves are mixed, the data is at
every moment that of the calls whose sleep went by, made one after the other in the order in which it did; a
response carries what its call comes to at its place in that order; and a command that was rejected, timed out or
cancelled has no place in it. Where the clock cannot measure the latency no call has. -/
namespace SetPipeline

open Pipeline

def Store.applied (s : Store) (vs : List Visit) : Store :=
  vs.foldl (fun st v => (st.execute (.known v.operation) v.command).2) s

namespace Visit

def entry (v : Visit) : Request × Command := (.known v.operation, v.command)

def key (v : Visit) : Nat × Nat := (v.stream, v.position)

/-- What a call comes to at its place among some calls. -/
def ComesTo (s : Store) (vs : List Visit) (v : Visit) (x : Except Failure Reply) : Prop :=
  ∃ before after, vs = before ++ v :: after ∧
    x = ((s.applied before).execute (.known v.operation) v.command).1

theorem ComesTo.append {s : Store} {vs : List Visit} {v : Visit} {x : Except Failure Reply}
    (h : ComesTo s vs v x) (us : List Visit) : ComesTo s (vs ++ us) v x := by
  obtain ⟨before, after, rfl, hx⟩ := h
  exact ⟨before, after ++ us, by simp, hx⟩

theorem ComesTo.mem {s : Store} {vs : List Visit} {v : Visit} {x : Except Failure Reply}
    (h : ComesTo s vs v x) : v ∈ vs := by
  obtain ⟨before, after, rfl, -⟩ := h
  simp

end Visit

namespace Store

theorem applied_append (s : Store) (us vs : List Visit) : s.applied (us ++ vs) = (s.applied us).applied vs :=
  List.foldl_append

theorem Proper.applied {s : Store} (hs : s.Proper) (vs : List Visit) : (s.applied vs).Proper := by
  induction vs generalizing s with
  | nil => exact hs
  | cons v vs ih => exact ih (hs.execute _ _)

theorem Proper.recorded_applied {s : Store} (hs : s.Proper) (vs : List Visit) :
    (s.applied vs).recorded = s.recorded ++ vs.map Visit.entry := by
  induction vs generalizing s with
  | nil => simp [Store.applied]
  | cons v vs ih =>
    show (((s.execute (.known v.operation) v.command).2).applied vs).recorded = _
    rw [ih (hs.execute _ _), hs.recorded_execute]
    simp [Visit.entry]

theorem foldl_record (s : Store) (vs : List Visit) :
    vs.foldl (fun st v => st.record (.known v.operation) v.command) s =
      s.withRecorded (s.recorded ++ vs.map Visit.entry) := by
  induction vs generalizing s with
  | nil => simp [withRecorded]
  | cons v vs ih =>
    rw [List.foldl_cons, ih]
    simp [record, withRecorded, Visit.entry]

end Store

namespace Serving

/-- How one stream stands to the calls on the store. The calls that it ended passed, or they failed for not being able
to sleep. -/
structure Followed (latency : Number) (s₀ : Store) (w : Serving) (j : Nat) (b : Batch) (s : State) : Prop where
  arrived : w.arrived.filter (·.stream == j) = s.begun.map fun p => ⟨j, p.1, b.operation, p.2⟩
  passed : (w.passed.filter (·.stream == j)).map (·.position) = if latency.isBeyondClock then [] else s.returned
  run : ∃ ms, Run b ms s ∧ ∀ i o, .settle i o ∈ ms →
    (∃ (v : Visit) (x : Except Failure Reply), v.ComesTo s₀ w.passed x ∧ v.stream = j ∧ v.position = i ∧
      o = x.map Reply.toDatum) ∨
    latency.isBeyondClock = true ∧ o = .error (.broken .overflow Failure.beyondDoubles)

/-- What is kept at every moment: the store is that of the calls that passed, but for its record, which has all
calls that came. -/
structure Kept (latency : Number) (s₀ : Store) (w : Serving) : Prop where
  store : w.store = (s₀.applied w.passed).withRecorded w.store.recorded
  recorded : w.store.recorded = s₀.recorded ++ w.arrived.map Visit.entry
  inside : ∀ v ∈ w.arrived, v.stream < w.streams.length
  passed : w.passed ⊆ w.arrived
  streams : ∀ j b s, w.streams[j]? = some ⟨b, s⟩ → Followed latency s₀ w j b s

theorem filter_stream_eq_nil {vs : List Visit} {j : Nat} (h : ∀ v ∈ vs, v.stream ≠ j) :
    vs.filter (·.stream == j) = [] :=
  List.filter_eq_nil_iff.2 fun v hv => by simpa using h v hv

theorem filter_stream_eq_self {vs : List Visit} {j : Nat} (h : ∀ v ∈ vs, v.stream = j) :
    vs.filter (·.stream == j) = vs :=
  List.filter_eq_self.2 fun v hv => by simpa using h v hv

theorem stream_of_newcomer {j : Nat} {b : Batch} {s t : State} {v : Visit} (h : v ∈ newcomers j b s t) :
    v.stream = j := by
  obtain ⟨p, -, rfl⟩ := List.mem_map.1 h
  rfl

/-- The other streams go on as they are when calls of one stream come or pass. -/
theorem Followed.other {latency : Number} {s₀ : Store} {w u : Serving} {j k : Nat} {b : Batch} {s : State}
    {as ps : List Visit}
    (h : Followed latency s₀ w k b s) (ha : u.arrived = w.arrived ++ as) (hp : u.passed = w.passed ++ ps)
    (has : ∀ v ∈ as, v.stream = j) (hps : ∀ v ∈ ps, v.stream = j) (hk : j ≠ k) : Followed latency s₀ u k b s := by
  obtain ⟨ms, hrun, hms⟩ := h.run
  have has' : as.filter (·.stream == k) = [] := filter_stream_eq_nil fun v hv => has v hv ▸ hk
  have hps' : ps.filter (·.stream == k) = [] := filter_stream_eq_nil fun v hv => hps v hv ▸ hk
  refine ⟨?_, ?_, ms, hrun, fun i o hm => ?_⟩
  · rw [ha, List.filter_append, has', List.append_nil]
    exact h.arrived
  · rw [hp, List.filter_append, hps', List.append_nil]
    exact h.passed
  · refine (hms i o hm).imp_left ?_
    rintro ⟨v, x, hv, hrest⟩
    exact ⟨v, x, hp ▸ hv.append ps, hrest⟩

section
variable {latency : Number} {s₀ : Store} {w : Serving}

theorem Followed.reachable {j : Nat} {b : Batch} {s : State} (h : Followed latency s₀ w j b s) :
    Pipeline.Reachable b s := by
  obtain ⟨ms, hrun, -⟩ := h.run
  exact hrun.reachable

theorem Followed.mem_arrived {j i : Nat} {b : Batch} {s : State} {c : Command} (h : Followed latency s₀ w j b s)
    (hi : s.flight? i = some ⟨i, c, .running⟩) : ⟨j, i, b.operation, c⟩ ∈ w.arrived := by
  obtain ⟨hmem, -⟩ := State.mem_of_flight? hi
  obtain ⟨q, hq⟩ := h.reachable.called
  have hbegun : (i, c) ∈ s.begun := hq.running_begun (h.reachable.sound.placed_of_flight hmem) hmem rfl
  have hvisit : (⟨j, i, b.operation, c⟩ : Visit) ∈ w.arrived.filter (·.stream == j) := by
    rw [h.arrived]
    exact List.mem_map.2 ⟨_, hbegun, rfl⟩
  exact List.mem_of_mem_filter hvisit

theorem Followed.advances {u : Serving} {j : Nat} {b : Batch} {s t : State} {m : Pipeline.Move}
    (h : Followed latency s₀ w j b s) (hm : ∀ i o, m ≠ .settle i o) (ht : b.step s m = some t)
    (ha : u.arrived = w.arrived ++ newcomers j b s t) (hp : u.passed = w.passed) : Followed latency s₀ u j b t := by
  have hstep := Pipeline.step_stepped ht
  obtain ⟨ms, hrun, hms⟩ := h.run
  refine ⟨?_, ?_, ms ++ [m], hrun.next ht, fun i o hi => ?_⟩
  · obtain ⟨new, hnew⟩ := hstep.begun
    rw [ha, List.filter_append, h.arrived, filter_stream_eq_self fun v hv => stream_of_newcomer hv, newcomers,
      ← hnew, List.drop_left, List.map_append]
  · have hreturned : t.returned = s.returned := by
      rw [hstep.returned]
      cases m with
      | settle i o => exact absurd rfl (hm i o)
      | _ => exact List.append_nil _
    rw [hp, h.passed, hreturned]
  · rw [hp]
    rcases List.mem_append.1 hi with hi | hi
    · exact hms i o hi
    · exact absurd (List.mem_singleton.1 hi).symm (hm i o)

theorem Followed.passes {u : Serving} {j i : Nat} {b : Batch} {s t : State} {c : Command}
    {x : Except Failure Reply} (h : Followed latency s₀ w j b s) (hclock : latency.isBeyondClock = false)
    (ht : b.step s (.settle i (x.map Reply.toDatum)) = some t) (ha : u.arrived = w.arrived)
    (hp : u.passed = w.passed ++ [⟨j, i, b.operation, c⟩])
    (hx : Visit.ComesTo s₀ u.passed ⟨j, i, b.operation, c⟩ x) : Followed latency s₀ u j b t := by
  have hstep := Pipeline.step_stepped ht
  obtain ⟨ms, hrun, hms⟩ := h.run
  refine ⟨?_, ?_, ms ++ [_], hrun.next ht, fun i' o hi => ?_⟩
  · rw [ha, hstep.begun_of_ne_start (by simp)]
    exact h.arrived
  · rw [hp, List.filter_append, List.map_append, h.passed, hstep.returned]
    simp [hclock, Pipeline.Move.returns]
  · rcases List.mem_append.1 hi with hi | hi
    · refine (hms i' o hi).imp_left ?_
      rintro ⟨v, y, hv, hrest⟩
      exact ⟨v, y, hp ▸ hv.append _, hrest⟩
    · cases List.mem_singleton.1 hi
      exact .inl ⟨_, x, hx, rfl, rfl, rfl⟩

theorem Followed.fails {u : Serving} {j i : Nat} {b : Batch} {s t : State} (h : Followed latency s₀ w j b s)
    (hclock : latency.isBeyondClock = true)
    (ht : b.step s (.settle i (.error (.broken .overflow Failure.beyondDoubles))) = some t)
    (ha : u.arrived = w.arrived) (hp : u.passed = w.passed) : Followed latency s₀ u j b t := by
  have hstep := Pipeline.step_stepped ht
  obtain ⟨ms, hrun, hms⟩ := h.run
  refine ⟨?_, ?_, ms ++ [_], hrun.next ht, fun i' o hi => ?_⟩
  · rw [ha, hstep.begun_of_ne_start (by simp)]
    exact h.arrived
  · rw [hp, h.passed, hclock, if_pos rfl, if_pos rfl]
  · rw [hp]
    rcases List.mem_append.1 hi with hi | hi
    · exact hms i' o hi
    · cases List.mem_singleton.1 hi
      exact .inr ⟨hclock, rfl⟩

theorem getElem?_set_cases {sts : List Stream} {j k : Nat} {st st' : Stream} (hj : j < sts.length)
    (h : (sts.set j st)[k]? = some st') : j = k ∧ st = st' ∨ j ≠ k ∧ sts[k]? = some st' := by
  by_cases hjk : j = k
  · subst hjk
    rw [List.getElem?_set_self hj] at h
    exact .inl ⟨rfl, Option.some.inj h⟩
  · rw [List.getElem?_set_ne hjk] at h
    exact .inr ⟨hjk, h⟩

theorem Kept.launches (h : Kept latency s₀ w) (b : Batch) :
    Kept latency s₀ { w with streams := w.streams ++ [⟨b, .initial⟩] } := by
  refine ⟨h.store, h.recorded, fun v hv => ?_, h.passed, fun j b' s hj => ?_⟩
  · rw [List.length_append]
    exact Nat.lt_add_right _ (h.inside v hv)
  · change (w.streams ++ [⟨b, .initial⟩])[j]? = _ at hj
    rcases Nat.lt_or_ge j w.streams.length with hlt | hge
    · rw [List.getElem?_append_left hlt] at hj
      obtain ⟨ha, hp, hr⟩ := h.streams j b' s hj
      exact ⟨ha, hp, hr⟩
    · -- the new stream has no calls yet
      rw [List.getElem?_append_right hge] at hj
      cases List.mem_singleton.1 (List.mem_of_getElem? hj)
      have hnone {v : Visit} (hv : v ∈ w.arrived) : v.stream ≠ j := by
        have := h.inside v hv
        omega
      refine ⟨?_, ?_, [], .initial, by simp⟩
      · rw [filter_stream_eq_nil fun v hv => hnone hv]
        rfl
      · rw [filter_stream_eq_nil fun v hv => hnone (h.passed hv)]
        split <;> rfl

theorem Kept.advances (h : Kept latency s₀ w) {j : Nat} {b : Batch} {s t : State} {m : Pipeline.Move} {vs : List Visit}
    (hj : w.streams[j]? = some ⟨b, s⟩) (hm : ∀ i o, m ≠ .settle i o) (ht : b.step s m = some t)
    (hvs : vs = newcomers j b s t) :
    Kept latency s₀ ⟨vs.foldl (fun st v => st.record (.known v.operation) v.command) w.store, w.streams.set j ⟨b, t⟩,
      w.arrived ++ vs, w.passed⟩ := by
  have hlt : j < w.streams.length := (List.getElem?_eq_some_iff.1 hj).1
  have hstream {v : Visit} (hv : v ∈ vs) : v.stream = j := stream_of_newcomer (hvs ▸ hv)
  rw [Store.foldl_record]
  refine ⟨?_, ?_, ?_, fun v hv => List.mem_append_left _ (h.passed hv), fun k b' s' hk => ?_⟩
  · calc w.store.withRecorded _ = ((s₀.applied w.passed).withRecorded w.store.recorded).withRecorded _ :=
          congrArg (Store.withRecorded · _) h.store
      _ = (s₀.applied w.passed).withRecorded _ := rfl
  · show w.store.recorded ++ _ = _
    rw [h.recorded, List.map_append, List.append_assoc]
  · intro v hv
    rw [List.length_set]
    rcases List.mem_append.1 hv with hv | hv
    · exact h.inside v hv
    · exact hstream hv ▸ hlt
  · rcases getElem?_set_cases hlt hk with ⟨rfl, he⟩ | ⟨hjk, hk⟩
    · cases he
      exact (h.streams j b s hj).advances hm ht (congrArg _ hvs) rfl
    · exact (h.streams k b' s' hk).other rfl (List.append_nil _).symm (fun v hv => hstream hv) (by simp) hjk

theorem Kept.passes (hs₀ : s₀.Proper) (h : Kept latency s₀ w) (hclock : latency.isBeyondClock = false) {j i : Nat}
    {b : Batch} {s t : State} {c : Command}
    {x : Except Failure Reply} {store : Store} (hj : w.streams[j]? = some ⟨b, s⟩)
    (hf : s.flight? i = some ⟨i, c, .running⟩) (hx : w.store.answer (.known b.operation) c = (x, store))
    (ht : b.step s (.settle i (x.map Reply.toDatum)) = some t) :
    Kept latency s₀ ⟨store, w.streams.set j ⟨b, t⟩, w.arrived, w.passed ++ [⟨j, i, b.operation, c⟩]⟩ := by
  have hlt : j < w.streams.length := (List.getElem?_eq_some_iff.1 hj).1
  have hproper := hs₀.applied w.passed
  have hfollowed := h.streams j b s hj
  -- the call is the same as one made at its place, but for the record
  have hanswer := hproper.answer_withRecorded w.store.recorded (.known b.operation) c
  rw [← h.store, hx] at hanswer
  obtain ⟨hx', hstore⟩ := Prod.mk.inj hanswer
  have hexecute := hproper.execute_eq (.known b.operation) c
  have hrecorded : store.recorded = w.store.recorded := by
    rw [hstore]
    rfl
  have hcomes : Visit.ComesTo s₀ (w.passed ++ [⟨j, i, b.operation, c⟩]) ⟨j, i, b.operation, c⟩ x := by
    refine ⟨w.passed, [], rfl, ?_⟩
    rw [hexecute]
    exact hx'
  refine ⟨?_, ?_, ?_, ?_, fun k b' s' hk => ?_⟩
  · show store = (s₀.applied (w.passed ++ [⟨j, i, b.operation, c⟩])).withRecorded store.recorded
    rw [Store.applied_append, hrecorded]
    show store = (((s₀.applied w.passed).execute (.known b.operation) c).2).withRecorded w.store.recorded
    rw [hexecute]
    exact hstore
  · rw [hrecorded]
    exact h.recorded
  · intro v hv
    rw [List.length_set]
    exact h.inside v hv
  · intro v hv
    rcases List.mem_append.1 hv with hv | hv
    · exact h.passed hv
    · rw [List.mem_singleton.1 hv]
      exact hfollowed.mem_arrived hf
  · rcases getElem?_set_cases hlt hk with ⟨rfl, he⟩ | ⟨hjk, hk⟩
    · cases he
      exact hfollowed.passes hclock ht rfl rfl hcomes
    · exact (h.streams k b' s' hk).other (List.append_nil _).symm rfl (by simp) (by simp) hjk

theorem Kept.fails (h : Kept latency s₀ w) (hclock : latency.isBeyondClock = true) {j i : Nat} {b : Batch}
    {s t : State} (hj : w.streams[j]? = some ⟨b, s⟩)
    (ht : b.step s (.settle i (.error (.broken .overflow Failure.beyondDoubles))) = some t) :
    Kept latency s₀ ⟨w.store, w.streams.set j ⟨b, t⟩, w.arrived, w.passed⟩ := by
  have hlt : j < w.streams.length := (List.getElem?_eq_some_iff.1 hj).1
  refine ⟨h.store, h.recorded, fun v hv => ?_, h.passed, fun k b' s' hk => ?_⟩
  · rw [List.length_set]
    exact h.inside v hv
  · rcases getElem?_set_cases hlt hk with ⟨rfl, he⟩ | ⟨hjk, hk⟩
    · cases he
      exact (h.streams j b s hj).fails hclock ht rfl rfl
    · exact (h.streams k b' s' hk).other (List.append_nil _).symm (List.append_nil _).symm (by simp) (by simp) hjk

theorem Kept.initial (s₀ : Store) : Kept latency s₀ (initial s₀) := by
  refine ⟨rfl, (List.append_nil _).symm, ?_, ?_, ?_⟩ <;> simp [Serving.initial]

theorem Reachable.kept (hs₀ : s₀.Proper) (h : Reachable latency s₀ w) : Kept latency s₀ w := by
  induction h with
  | initial => exact .initial s₀
  | next _ hs ih =>
    cases step_stepped hs with
    | launches b => exact ih.launches b
    | advances hj hm ht hvs => exact ih.advances hj hm ht hvs
    | passes hclock hj hf hx ht => exact ih.passes hs₀ hclock hj hf hx ht
    | fails hclock hj hf ht => exact ih.fails hclock hj ht

end

def Lacks (vs : List Visit) (j i : Nat) : Prop := ∀ v ∈ vs, v.stream = j → v.position ≠ i

/-- What a response of a stream tells. A rejected command never came to the store; one that timed out came and
was given up in its sleep; any other response carries what the call came to at its place among those that passed. -/
inductive Tells (s₀ : Store) (w : Serving) (j : Nat) (b : Batch) (s : State) (i : Nat) : Response → Prop where
  | rejection {c : Command} {u : Unfit} : b.source i = .item (.command c) → b.operation.unfit? c = some u →
    Lacks w.arrived j i → Tells s₀ w j b s i (reject b.operation c u)
  | timeout {c : Command} : b.source i = .item (.command c) → i ∈ s.cancelled → Lacks w.passed j i →
    Tells s₀ w j b s i (Response.failed b.operation.responseKind c Failure.timedOutMessage Failure.timeoutCode)
  | result {c : Command} {x : Except Failure Reply} {r : Response} : b.source i = .item (.command c) →
    Visit.ComesTo s₀ w.passed ⟨j, i, b.operation, c⟩ x → Response.Carries b.operation.responseKind c x r →
    (r.code = none ∨ r.code = some Failure.err ∨ r.code = some Failure.wrongType) → Tells s₀ w j b s i r

/-- The streams have the store as if each call were made in one piece when its sleep goes by: the data and the
random choices are those of the calls that passed, which are the ones that returned; every call that came is on
record, also one that was cancelled and so did not pass; and every response tells the truth. -/
structure Atomic (latency : Number) (s₀ : Store) (w : Serving) : Prop where
  data : w.store.data = (s₀.applied w.passed).data
  draws : w.store.draws = (s₀.applied w.passed).draws
  recorded : w.store.recorded = s₀.recorded ++ w.arrived.map Visit.entry
  once : (w.passed.map Visit.key).Nodup
  arrived : ∀ j b s, w.streams[j]? = some ⟨b, s⟩ →
    w.arrived.filter (·.stream == j) = s.begun.map fun p => ⟨j, p.1, b.operation, p.2⟩
  passed : ∀ j b s, w.streams[j]? = some ⟨b, s⟩ →
    (w.passed.filter (·.stream == j)).map (·.position) = if latency.isBeyondClock then [] else s.returned
  cancelled : ∀ j b s, w.streams[j]? = some ⟨b, s⟩ → ∀ i ∈ s.cancelled,
    Lacks w.passed j i ∧ ∃ v ∈ w.arrived, v.key = (j, i)
  responses : ∀ j b s, w.streams[j]? = some ⟨b, s⟩ → ∀ p ∈ s.yielded, Tells s₀ w j b s p.1 p.2

section
variable {latency : Number} {s₀ : Store} {w : Serving} {j i : Nat} {b : Batch} {s : State}

theorem keys_nodup {vs : List Visit} (h : ∀ j, ((vs.filter (·.stream == j)).map (·.position)).Nodup) :
    (vs.map Visit.key).Nodup := by
  induction vs with
  | nil => exact .nil
  | cons v vs ih =>
    refine List.nodup_cons.2 ⟨fun hmem => ?_, ih fun j => ?_⟩
    · obtain ⟨u, hu, he⟩ := List.mem_map.1 hmem
      obtain ⟨hstream, hposition⟩ := Prod.mk.inj he
      have hv := h v.stream
      rw [List.filter_cons_of_pos (by simp), List.map_cons, List.nodup_cons] at hv
      exact hv.1 (List.mem_map.2 ⟨u, List.mem_filter.2 ⟨hu, by simpa using hstream⟩, hposition⟩)
    · exact (h j).sublist (((List.sublist_cons_self v vs).filter _).map _)

theorem Followed.mem_begun (h : Followed latency s₀ w j b s) {v : Visit} (hv : v ∈ w.arrived) (hj : v.stream = j) :
    v.operation = b.operation ∧ (v.position, v.command) ∈ s.begun := by
  have hmem : v ∈ w.arrived.filter (·.stream == j) := List.mem_filter.2 ⟨hv, by simpa using hj⟩
  rw [h.arrived] at hmem
  obtain ⟨p, hp, rfl⟩ := List.mem_map.1 hmem
  exact ⟨rfl, hp⟩

theorem Followed.mem_returned (h : Followed latency s₀ w j b s) {v : Visit} (hv : v ∈ w.passed) (hj : v.stream = j) :
    v.position ∈ s.returned := by
  have hmem : v.position ∈ (w.passed.filter (·.stream == j)).map (·.position) :=
    List.mem_map_of_mem (List.mem_filter.2 ⟨hv, by simpa using hj⟩)
  rw [h.passed] at hmem
  split at hmem
  · cases hmem
  · exact hmem

theorem Followed.lacks_cancelled (h : Followed latency s₀ w j b s) (hi : i ∈ s.cancelled) : Lacks w.passed j i := by
  obtain ⟨q, hq⟩ := h.reachable.called
  rintro v hv hj rfl
  exact hq.not_returned hi (h.mem_returned hv hj)

theorem Followed.lacks_unfit (h : Followed latency s₀ w j b s) {c : Command} (hi : b.source i = .item (.command c))
    {u : Unfit} (hu : b.operation.unfit? c = some u) : Lacks w.arrived j i := by
  obtain ⟨q, hq⟩ := h.reachable.called
  rintro v hv hj rfl
  obtain ⟨hsource, hfits⟩ := hq.of_mem_begun (h.mem_begun hv hj).2
  cases hi.symm.trans hsource
  rw [hu] at hfits
  cases hfits

theorem Followed.eq_visit (h : Followed latency s₀ w j b s) {v : Visit} (hv : v ∈ w.arrived) (hj : v.stream = j)
    {c : Command}
    (hc : b.source v.position = .item (.command c)) : v = ⟨j, v.position, b.operation, c⟩ := by
  obtain ⟨q, hq⟩ := h.reachable.called
  obtain ⟨hop, hmem⟩ := h.mem_begun hv hj
  have hcommand := Datum.command.inj (Offer.item.inj (hc.symm.trans (hq.of_mem_begun hmem).1))
  obtain ⟨stream, position, operation, command⟩ := v
  cases hj
  cases hop
  cases hcommand
  rfl

theorem Kept.tells (hs₀ : s₀.Proper) (hw : Kept latency s₀ w) (h : Followed latency s₀ w j b s) {p : Nat × Response}
    (hp : p ∈ s.yielded) : Tells s₀ w j b s p.1 p.2 := by
  obtain ⟨i, r⟩ := p
  obtain ⟨ms, hrun, hms⟩ := h.run
  obtain ⟨c, hc, hcon⟩ := hrun.accounted.yielded _ hp
  dsimp only at hc hcon ⊢
  cases concluded_of_conclusion hcon with
  | rejected hu => exact .rejection hc hu (h.lacks_unfit hc hu)
  | responded hu _ ho hr =>
    rcases mem_of_outcomeOf ho with hsettle | ⟨hexpire, rfl⟩
    · rcases hms i _ hsettle with ⟨v, x, hv, hj, rfl, rfl⟩ | ⟨-, rfl⟩
      · have hvisit := h.eq_visit (hw.passed hv.mem) hj hc
        rw [hvisit] at hv
        obtain ⟨before, after, hsplit, hx⟩ := hv
        have hbefore := hs₀.applied before
        rw [hbefore.execute_eq] at hx
        obtain ⟨r', hr', hcarries, hcode⟩ := hbefore.respond hu b.room
        dsimp only at hx
        rw [← hx, hr] at hr'
        cases hr'
        refine .result hc ⟨before, after, hsplit, ?_⟩ (hx ▸ hcarries) hcode
        rw [hbefore.execute_eq]
        exact hx
      · cases hr
    · cases hr
      have hcancelled := hrun.expired hexpire
      exact .timeout hc hcancelled (h.lacks_cancelled hcancelled)

end

theorem reachable_once {latency : Number} {s₀ : Store} {w : Serving} (hs₀ : s₀.Proper) (h : Reachable latency s₀ w) :
    (w.passed.map Visit.key).Nodup := by
  have hkept := h.kept hs₀
  refine keys_nodup fun j => ?_
  cases hj : w.streams[j]? with
  | some st =>
    have hfollowed := hkept.streams j st.batch st.state hj
    obtain ⟨q, hq⟩ := hfollowed.reachable.called
    rw [hfollowed.passed]
    split
    · exact .nil
    · exact hq.returned_nodup
  | none =>
    have hnone {v : Visit} (hv : v ∈ w.passed) : v.stream ≠ j := by
      have hlt := hkept.inside v (hkept.passed hv)
      have hlen := List.getElem?_eq_none_iff.1 hj
      omega
    rw [filter_stream_eq_nil fun v hv => hnone hv]
    exact .nil

/-- Calls of any streams over a store are atomic, at every moment and in every interleaving. -/
theorem reachable_atomic (latency : Number) {s₀ : Store} {w : Serving} (hs₀ : s₀.Reachable)
    (h : Reachable latency s₀ w) : Atomic latency s₀ w := by
  have hkept := h.kept hs₀.proper
  refine ⟨?_, ?_, hkept.recorded, reachable_once hs₀.proper h, ?_, ?_, ?_, ?_⟩
  · rw [hkept.store]
    rfl
  · rw [hkept.store]
    rfl
  · exact fun j b s hj => (hkept.streams j b s hj).arrived
  · exact fun j b s hj => (hkept.streams j b s hj).passed
  · intro j b s hj i hi
    have hfollowed := hkept.streams j b s hj
    obtain ⟨q, hq⟩ := hfollowed.reachable.called
    obtain ⟨p, hp, rfl⟩ := hq.cancelled_begun hi
    have hmem : (⟨j, p.1, b.operation, p.2⟩ : Visit) ∈ w.arrived.filter (·.stream == j) := by
      rw [hfollowed.arrived]
      exact List.mem_map.2 ⟨p, hp, rfl⟩
    exact ⟨hfollowed.lacks_cancelled hi, _, List.mem_of_mem_filter hmem, rfl⟩
  · exact fun j b s hj p hp => hkept.tells hs₀.proper (hkept.streams j b s hj) hp

/-- Two streams add one member to one set, the call of the second wakes up, and the first is closed. -/
def rivals : List Move :=
  let b : Batch := .quiet .add (ofCommands [.add (some [107]) [[97]]]) ⟨.int 1, none⟩ 900
  [.launch b, .launch b, .advance 0 .ask, .advance 1 .ask, .advance 0 .offer, .advance 1 .offer,
    .advance 0 (.wake true []), .advance 1 (.wake true []), .advance 0 .start, .advance 1 .start, .pass 1 0,
    .advance 0 .close]

theorem reachable_atomic_rivals : ∃ w, Reachable (.int 1) (.empty ⟨[], 0⟩) w ∧
    w.passed.map Visit.key = [(1, 0)] ∧ w.arrived.map Visit.key = [(0, 0), (1, 0)] ∧
      Atomic (.int 1) (.empty ⟨[], 0⟩) w := by
  have hkeys : ((initial (.empty ⟨[], 0⟩)).steps (.int 1) rivals).map
      (fun w => (w.passed.map Visit.key, w.arrived.map Visit.key)) = some ([(1, 0)], [(0, 0), (1, 0)]) := by
    decide +kernel
  obtain ⟨w, hw, hpair⟩ := Option.map_eq_some_iff.1 hkeys
  obtain ⟨hpassed, harrived⟩ := Prod.mk.inj hpair
  have hreach : Reachable (.int 1) (.empty ⟨[], 0⟩) w := Reachable.initial.steps hw
  exact ⟨w, hreach, hpassed, harrived, reachable_atomic (.int 1) (.empty _) hreach⟩

end Serving
end SetPipeline
