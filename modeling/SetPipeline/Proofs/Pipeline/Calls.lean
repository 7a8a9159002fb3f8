import SetPipeline.Proofs.Pipeline.Conservation

/-! The calls of a stream. They begin in the order of the input, one for each command of some part at its
front that passes the check, and each of them is over at most once. -/
namespace SetPipeline.Pipeline

namespace State

/-- The positions of the flights in some phases. -/
def positionsIn (s : State) (which : Phase → Bool) : List Nat :=
  (s.flights.filter fun f => which f.phase).map (·.position)

abbrev queued (s : State) : List Nat := s.positionsIn Phase.isQueued

abbrev running (s : State) : List Nat := s.positionsIn Phase.isRunning

def taken (s : State) : Nat := s.pulled - s.held.length

/-- The positions of the calls that ended by themselves, in the order in which they did. -/
def returned (s : State) : List Nat :=
  s.log.filterMap fun
    | .returned i | .raised i => some i
    | _ => none

/-- The positions of the calls that were given up, in the order in which they were. -/
def cancelled (s : State) : List Nat :=
  s.log.filterMap fun
    | .cancelled i => some i
    | _ => none

section
variable {s : State} {which : Phase → Bool} {i : Nat}

theorem positionsIn_sublist : (s.positionsIn which).Sublist s.positions := List.filter_sublist.map _

theorem mem_positionsIn : i ∈ s.positionsIn which ↔ ∃ f ∈ s.flights, f.position = i ∧ which f.phase = true := by
  simp only [positionsIn, List.mem_map, List.mem_filter]
  exact ⟨fun ⟨f, ⟨hf, hw⟩, hi⟩ => ⟨f, hf, hi, hw⟩, fun ⟨f, hf, hi, hw⟩ => ⟨f, ⟨hf, hw⟩, hi⟩⟩

theorem positionsIn_remove : (s.remove i).positionsIn which = (s.positionsIn which).filter (· != i) := by
  simp only [positionsIn, remove, List.filter_map, List.filter_filter]
  congr 1
  exact List.filter_congr fun f _ => Bool.and_comm _ _

theorem positionsIn_setPhase {p : Phase} (hp : which p = false) :
    (s.setPhase i p).positionsIn which = (s.positionsIn which).filter (· != i) := by
  simp only [positionsIn, setPhase]
  induction s.flights with
  | nil => rfl
  | cons f fs ih =>
    rw [List.map_cons]
    by_cases hi : f.position = i
    · cases hw : which f.phase <;> simp [hi, hw, hp, ih]
    · cases hw : which f.phase <;> simp [hi, hw, ih]

theorem positionsIn_setPhase_perm {f : Flight} {p : Phase} (hn : s.positions.Nodup) (hf : f ∈ s.flights)
    (hold : which f.phase = false) (hp : which p = true) :
    ((s.setPhase f.position p).positionsIn which).Perm (s.positionsIn which ++ [f.position]) := by
  obtain ⟨before, after, hsplit⟩ := List.append_of_mem hf
  have hother {g : Flight} (hg : g ∈ before ++ after) : g.position ≠ f.position := by
    intro he
    simp only [positions, hsplit, List.map_append, List.map_cons] at hn
    have hnot := (List.nodup_cons.1 (List.nodup_middle.1 hn)).1
    exact hnot (List.map_append ▸ he ▸ List.mem_map_of_mem hg)
  have hsame (gs : List Flight) (hgs : ∀ g ∈ gs, g ∈ before ++ after) :
      gs.map (fun g => if g.position = f.position then { g with phase := p } else g) = gs :=
    (List.map_congr_left fun g hg => if_neg (hother (hgs g hg))).trans (List.map_id' gs)
  simp only [positionsIn, setPhase, hsplit, List.map_append, List.map_cons, if_true,
    hsame before fun g hg => List.mem_append_left _ hg, hsame after fun g hg => List.mem_append_right _ hg,
    List.filter_append]
  rw [List.filter_cons_of_pos (by simpa using hp), List.filter_cons_of_neg (by simp [hold]), List.map_cons,
    List.append_assoc]
  exact .append_left _ (List.perm_append_singleton _ _).symm

end
end State

section
variable {b : Batch} {s : State} {which : Phase → Bool}

theorem Placed.filter_positionsIn (h : Placed b s) {f : Flight} (hf : f ∈ s.flights) (hw : which f.phase = false) :
    (s.positionsIn which).filter (· != f.position) = s.positionsIn which := by
  refine List.filter_eq_self.2 fun i hi => ?_
  obtain ⟨g, hg, rfl, hwg⟩ := State.mem_positionsIn.1 hi
  refine bne_iff_ne.2 fun he => ?_
  rw [List.inj_on_of_nodup_map h.positions_nodup hg hf he, hw] at hwg
  cases hwg

theorem Placed.positionsIn_perm (h : Placed b s) {f : Flight} (hf : f ∈ s.flights) (hw : which f.phase = true) :
    (s.positionsIn which).Perm ((s.positionsIn which).filter (· != f.position) ++ [f.position]) := by
  have hn : (s.positionsIn which).Nodup := h.positions_nodup.sublist State.positionsIn_sublist
  have hi : f.position ∈ s.positionsIn which := State.mem_positionsIn.2 ⟨f, hf, rfl, hw⟩
  rw [← hn.erase_eq_filter]
  exact (List.perm_cons_erase hi).trans (List.perm_append_singleton _ _).symm

end

namespace Batch

/-- The call that a position leads to, if it leads to one. -/
def call? (b : Batch) (i : Nat) : Option (Nat × Command) :=
  match b.source i with
  | .item (.command c) =>
    if (b.operation.unfit? c).isNone && (b.config.barred? c).isNone then some (i, c) else none
  | _ => none

def calls (b : Batch) (q : Nat) : List (Nat × Command) := (List.range q).filterMap b.call?

variable {b : Batch}

theorem call?_eq_some {i : Nat} {p : Nat × Command} (h : b.call? i = some p) :
    p.1 = i ∧ b.source i = .item (.command p.2) ∧ b.operation.unfit? p.2 = none ∧ b.config.barred? p.2 = none := by
  unfold call? at h
  split at h
  · next c hc =>
    split at h
    · next hok =>
      cases h
      simpa [hc, Option.isNone_iff_eq_none] using hok
    · cases h
  · cases h

theorem calls_succ (b : Batch) (q : Nat) : b.calls (q + 1) = b.calls q ++ (b.call? q).toList := by
  rw [calls, List.range_succ, List.filterMap_append]
  cases h : b.call? q <;> simp [calls, h]

theorem mem_calls {q : Nat} {p : Nat × Command} :
    p ∈ b.calls q ↔ p.1 < q ∧ b.source p.1 = .item (.command p.2) ∧ b.operation.unfit? p.2 = none ∧
      b.config.barred? p.2 = none := by
  simp only [calls, List.mem_filterMap, List.mem_range]
  constructor
  · rintro ⟨i, hi, h⟩
    obtain ⟨rfl, h⟩ := call?_eq_some h
    exact ⟨hi, h⟩
  · rintro ⟨hi, hs, hu, hc⟩
    exact ⟨p.1, hi, by simp [call?, hs, hu, hc]⟩

theorem calls_split {q : Nat} {p : Nat × Command} (h : p ∈ b.calls q) :
    ∃ after, b.calls q = b.calls p.1 ++ p :: after := by
  induction q with
  | zero => cases h
  | succ q ih =>
    rw [calls_succ] at h ⊢
    rcases List.mem_append.1 h with h | h
    · obtain ⟨after, hafter⟩ := ih h
      exact ⟨after ++ (b.call? q).toList, by simp [hafter]⟩
    · have hp := Option.mem_toList.1 h
      have hq := (call?_eq_some hp).1
      exact ⟨[], by rw [hq, hp]; rfl⟩

theorem calls_positions_nodup (b : Batch) (q : Nat) : ((b.calls q).map (·.1)).Nodup := by
  induction q with
  | zero => exact .nil
  | succ q ih =>
    rw [calls_succ, List.map_append]
    refine List.nodup_append.2 ⟨ih, ?_, ?_⟩
    · cases b.call? q <;> simp
    · rintro i hi j hj rfl
      obtain ⟨p, hp, rfl⟩ := List.mem_map.1 hi
      obtain ⟨p', hp', he⟩ := List.mem_map.1 hj
      have hq := (call?_eq_some (Option.mem_toList.1 hp')).1
      have hlt := (mem_calls.1 hp).1
      omega

end Batch

namespace State
variable (s : State) (e : End)

@[simp] theorem returned_halt : (s.halt e).returned = s.returned := halt_filterMap s e (fun _ => rfl) rfl rfl

@[simp] theorem cancelled_halt : (s.halt e).cancelled = s.cancelled ++ s.running := by
  have hcalls : ((s.flights.filter (·.phase.isRunning)).map fun f => Event.cancelled f.position).filterMap
      (fun | .cancelled i => some i | _ => none) = s.running := by
    rw [List.filterMap_map]
    exact congrFun (List.filterMap_eq_map (f := Flight.position)) _
  simp only [cancelled, halt, emit, List.filterMap_append, hcalls]
  cases s.pull.isAsked <;> simp

end State

/-- How far the calls of a stream are: those of the first `q` positions began, and the ones to begin next are the
queued ones as long as nothing is broken off. A call that began is running or over. -/
structure Called (b : Batch) (q : Nat) (s : State) : Prop where
  begun : s.begun = b.calls q
  taken : q ≤ s.taken
  queued : s.IsWhole → s.queued = List.range' q (s.taken - q)
  split : (s.returned ++ s.cancelled ++ s.running).Perm (s.begun.map (·.1))

namespace Called

variable {b : Batch} {q : Nat} {s t : State}

theorem halted (h : Called b q s) (hf : t.flights = s.flights) (hp : t.pulled = s.pulled) (hl : t.log = s.log)
    {e : End} (he : e = .exhausted → q = t.pulled) : Called b q (t.halt e) := by
  have hbegun : t.begun = s.begun := by simp only [State.begun, hl]
  have hreturned : t.returned = s.returned := by simp only [State.returned, hl]
  have hcancelled : t.cancelled = s.cancelled := by simp only [State.cancelled, hl]
  have hrunning : t.running = s.running := by simp only [State.running, State.positionsIn, hf]
  refine ⟨?_, ?_, fun hw => ?_, ?_⟩
  · rw [State.begun_halt, hbegun]
    exact h.begun
  · show q ≤ t.pulled
    rw [hp]
    exact Nat.le_trans h.taken (Nat.sub_le _ _)
  · show [] = List.range' q (t.pulled - q)
    rw [he (hw e rfl), Nat.sub_self]
    rfl
  · rw [State.begun_halt, State.returned_halt, State.cancelled_halt, hbegun, hreturned, hcancelled, hrunning]
    show (s.returned ++ (s.cancelled ++ s.running) ++ []).Perm _
    rw [List.append_nil, ← List.append_assoc]
    exact h.split

theorem broken (h : Called b q s) {e : End} (he : e ≠ .exhausted) : Called b q (s.halt e) :=
  h.halted rfl rfl rfl fun h' => absurd h' he

theorem congr (h : Called b q s) (hf : t.flights = s.flights) (ht : t.taken = s.taken)
    (he : t.IsWhole → s.IsWhole) (hb : t.begun = s.begun) (hr : t.returned = s.returned)
    (hc : t.cancelled = s.cancelled) : Called b q t := by
  have hqueued : t.queued = s.queued := by simp only [State.queued, State.positionsIn, hf]
  have hrunning : t.running = s.running := by simp only [State.running, State.positionsIn, hf]
  refine ⟨hb ▸ h.begun, ht ▸ h.taken, fun hn => ?_, ?_⟩
  · rw [hqueued, ht]
    exact h.queued (he hn)
  · rw [hrunning, hr, hc, hb]
    exact h.split

theorem turned (h : Called b q s) (hw : s.IsWhole) (ht : Turned b s t) : Called b q t := by
  have hsame := ht.same
  have htaken : t.taken = s.taken := by simp only [State.taken, hsame.pulled, hsame.held]
  cases ht with
  | asks =>
    apply h.congr hsame.flights htaken (fun _ => hw) hsame.begun
    · simp [State.returned, State.emit]
    · simp [State.cancelled, State.emit]
  | waits => exact h.congr rfl rfl (fun _ => hw) rfl rfl rfl
  | ends hf hpull =>
    refine h.halted rfl rfl rfl fun _ => ?_
    have hqueued := h.queued hw
    have hpulled : s.taken = s.pulled := by rw [State.taken, State.held_eq_nil (by simp [hpull])]; rfl
    have hnil : s.queued = [] := by simp [State.queued, State.positionsIn, hf]
    have hle := h.taken
    rw [hnil, eq_comm, List.range'_eq_nil_iff] at hqueued
    omega

theorem remove (h : Called b q s) (hp : Placed b s) {i : Nat} {c : Command} {x : Except Failure Response}
    (hf : s.flight? i = some ⟨i, c, .finished x⟩) : Called b q (s.remove i) := by
  obtain ⟨hmem, -⟩ := State.mem_of_flight? hf
  have hin {which : Phase → Bool} (hw : which (.finished x) = false) :
      (s.remove i).positionsIn which = s.positionsIn which :=
    State.positionsIn_remove.trans (hp.filter_positionsIn hmem hw)
  have hqueued : (s.remove i).queued = s.queued := hin rfl
  have hrunning : (s.remove i).running = s.running := hin rfl
  refine ⟨h.begun, h.taken, fun he => ?_, ?_⟩
  · rw [hqueued]
    exact h.queued he
  · rw [hrunning]
    exact h.split

theorem handed (h : Called b q s) (hp : Placed b s) (hw : s.IsWhole) {round : List Nat}
    (ht : Handed b s round t) : Called b q t := by
  cases ht with
  | yields _ _ hf =>
    refine (h.remove hp hf).congr rfl rfl (fun _ => hw) ?_ ?_ ?_
    · simp [State.begun, State.remove, State.emit]
    · simp [State.returned, State.remove, State.emit]
    · simp [State.cancelled, State.remove, State.emit]
  | fails _ _ hf => exact (h.remove hp hf).broken (by simp)
  | turns _ ht => exact h.turned hw ht

theorem find?_queued (h : Called b q s) (hw : s.IsWhole) {f : Flight}
    (hf : s.flights.find? (·.phase.isQueued) = some f) :
    f.position = q ∧ s.queued = q :: List.range' (q + 1) (s.taken - (q + 1)) := by
  have hhead : s.queued.head? = some f.position := by
    simp only [State.queued, State.positionsIn, List.head?_map, List.head?_filter, hf, Option.map_some]
  rw [h.queued hw] at hhead ⊢
  cases hn : s.taken - q with
  | zero => simp [hn] at hhead
  | succ n =>
    rw [hn, List.range'_succ] at hhead
    have hrest : s.taken - (q + 1) = n := by omega
    exact ⟨(Option.some.inj hhead).symm, by rw [List.range'_succ, hrest]⟩

/-- Starting a flight takes it out of the queue, whatever becomes of it. -/
theorem starts (h : Called b q s) (hw : s.IsWhole) {f : Flight} {p : Phase}
    (hf : s.flights.find? (·.phase.isQueued) = some f) (hq : p.isQueued = false)
    (hr : ((s.setPhase f.position p).running).Perm (s.running ++ ((b.call? q).toList.map (·.1))))
    {es : List Event} (hes : (s.emit es).begun = s.begun ++ (b.call? q).toList)
    (hret : (s.emit es).returned = s.returned) (hcan : (s.emit es).cancelled = s.cancelled) :
    Called b (q + 1) ((s.setPhase f.position p).emit es) := by
  obtain ⟨hfq, hqueued⟩ := h.find?_queued hw hf
  have hlt : q < s.taken := by
    have hlen := congrArg List.length (h.queued hw)
    rw [hqueued] at hlen
    simp only [List.length_cons, List.length_range'] at hlen
    omega
  have hbegun : ((s.setPhase f.position p).emit es).begun = s.begun ++ (b.call? q).toList := hes
  have hqueue : ((s.setPhase f.position p).emit es).queued = s.queued.filter (· != f.position) :=
    State.positionsIn_setPhase hq
  refine ⟨?_, hlt, fun _ => ?_, ?_⟩
  · rw [hbegun, b.calls_succ, h.begun]
  · rw [hqueue, hqueued, hfq, List.filter_cons_of_neg (by simp)]
    refine List.filter_eq_self.2 fun i hi => bne_iff_ne.2 ?_
    have := (List.mem_range'_1.1 hi).1
    omega
  · rw [hbegun, List.map_append]
    show ((s.emit es).returned ++ (s.emit es).cancelled ++ (s.setPhase f.position p).running).Perm _
    rw [hret, hcan]
    apply (List.Perm.append_left _ hr).trans
    rw [← List.append_assoc]
    exact h.split.append_right _

theorem call?_next (h : Called b q s) (hp : Placed b s) (hw : s.IsWhole) {f : Flight}
    (hf : s.flights.find? (·.phase.isQueued) = some f) :
    b.call? q =
      if (b.operation.unfit? f.command).isNone && (b.config.barred? f.command).isNone then some (q, f.command)
      else none := by
  have hsource := hp.commands f (List.mem_of_find?_eq_some hf)
  rw [(h.find?_queued hw hf).1] at hsource
  simp only [Batch.call?, hsource]

theorem skips (h : Called b q s) (hp : Placed b s) (hw : s.IsWhole) {f : Flight} {x : Except Failure Response}
    (hf : s.flights.find? (·.phase.isQueued) = some f) (hnone : b.call? q = none) :
    Called b (q + 1) (s.setPhase f.position (.finished x)) := by
  have hq : f.phase = .queued := State.phase_of_find?_queued hf
  have hrunning : (s.setPhase f.position (.finished x)).running = s.running :=
    (State.positionsIn_setPhase rfl).trans
      (hp.filter_positionsIn (List.mem_of_find?_eq_some hf) (by simp [hq, Phase.isRunning]))
  rw [← State.emit_nil (s.setPhase _ _)]
  apply h.starts hw hf rfl
  · rw [hrunning, hnone]
    simp
  · simp [hnone, State.begun, State.emit]
  · simp [State.returned, State.emit]
  · simp [State.cancelled, State.emit]

theorem begins (h : Called b q s) (hp : Placed b s) (hw : s.IsWhole) {f : Flight}
    (hf : s.flights.find? (·.phase.isQueued) = some f) (hsome : b.call? q = some (q, f.command)) :
    Called b (q + 1) ((s.setPhase f.position .running).emit [.began f.position f.command]) := by
  have hq : f.phase = .queued := State.phase_of_find?_queued hf
  have hfq : f.position = q := (h.find?_queued hw hf).1
  have hruns : (s.setPhase f.position .running).running.Perm (s.running ++ [f.position]) :=
    State.positionsIn_setPhase_perm hp.positions_nodup (List.mem_of_find?_eq_some hf)
      (by simp [hq, Phase.isRunning]) rfl
  apply h.starts hw hf rfl
  · simpa [hsome, hfq] using hruns
  · simp [hsome, hfq, State.begun, State.emit]
  · simp [State.returned, State.emit]
  · simp [State.cancelled, State.emit]

theorem ends (h : Called b q s) (hp : Placed b s) {i : Nat} {c : Command} (hf : s.flight? i = some ⟨i, c, .running⟩)
    (x : Except Failure Response) {ev : Event} (hev : ev = .returned i ∨ ev = .raised i ∨ ev = .cancelled i) :
    Called b q ((s.setPhase i (.finished x)).emit [ev]) := by
  obtain ⟨hmem, -⟩ := State.mem_of_flight? hf
  have hrunning : s.running.Perm (s.running.filter (· != i) ++ [i]) := hp.positionsIn_perm hmem rfl
  have hrest : (s.setPhase i (.finished x)).running = s.running.filter (· != i) := State.positionsIn_setPhase rfl
  have hqueued : (s.setPhase i (.finished x)).queued = s.queued :=
    (State.positionsIn_setPhase rfl).trans (hp.filter_positionsIn hmem rfl)
  have hbegun : ((s.setPhase i (.finished x)).emit [ev]).begun = s.begun := by
    rcases hev with rfl | rfl | rfl <;> simp [State.begun, State.emit, State.setPhase]
  refine ⟨hbegun ▸ h.begun, h.taken, fun he => ?_, ?_⟩
  · show (s.setPhase i (.finished x)).queued = _
    rw [hqueued]
    exact h.queued he
  · rw [hbegun]
    refine List.Perm.trans ?_ h.split
    show (((s.emit [ev]).returned) ++ ((s.emit [ev]).cancelled) ++ (s.setPhase i (.finished x)).running).Perm _
    rw [hrest]
    refine List.Perm.trans ?_ (List.Perm.append_left _ hrunning.symm)
    rcases hev with rfl | rfl | rfl
    all_goals
      simp only [State.returned, State.cancelled, State.emit, List.filterMap_append, List.filterMap_cons,
        List.filterMap_nil, List.append_nil]
      rw [List.perm_iff_count]
      intro j
      simp only [List.count_append]
      omega

theorem takes (h : Called b q s) (hp : Placed b s) (hw : s.IsWhole) {i : Nat} {c : Command}
    (hg : s.pull = .given i (.item (.command c))) :
    Called b q { s with pull := .idle, flights := s.flights ++ [⟨i, c, .queued⟩] } := by
  have hpulled := (hp.given _ _ hg).2
  simp only [Offer.taken] at hpulled
  have htaken : s.taken = i := by simp [State.taken, State.held, hg, hpulled]
  have htaken' : ({ s with pull := .idle, flights := s.flights ++ [⟨i, c, .queued⟩] } : State).taken = i + 1 := by
    simp [State.taken, State.held, hpulled]
  have hle := h.taken
  refine ⟨h.begun, by omega, fun _ => ?_, ?_⟩
  · have hqueued := h.queued hw
    rw [htaken'] at *
    rw [htaken] at hqueued
    have hsplit : i + 1 - q = (i - q) + 1 := by omega
    rw [hsplit, List.range'_concat]
    simp only [State.queued, State.positionsIn, List.filter_append, List.map_append] at hqueued ⊢
    rw [hqueued]
    have hi : q + (i - q) = i := by omega
    simp [Phase.isQueued, hi]
  · have hrunning :
        ({ s with pull := .idle, flights := s.flights ++ [⟨i, c, .queued⟩] } : State).running = s.running := by
      simp [State.running, State.positionsIn, Phase.isRunning]
    rw [hrunning]
    exact h.split

theorem takesEnd (h : Called b q s) {i : Nat} (hg : s.pull = .given i .done) :
    Called b q { s with pull := .idle, exhausted := true } := by
  refine h.congr rfl ?_ id rfl rfl rfl
  simp [State.taken, State.held, hg]

theorem initial : Called b 0 .initial := by
  refine ⟨rfl, Nat.zero_le _, fun _ => rfl, ?_⟩
  simp [State.initial, State.returned, State.cancelled, State.running, State.positionsIn, State.begun]

end Called

theorem Stepped.called {b : Batch} {q : Nat} {s t : State} {m : Move} (h : Stepped b s m t) (hs : Sound b s)
    (hc : Called b q s) : ∃ q', Called b q' t := by
  have hw : s.IsWhole := .of_going (h.ending?_eq_none hs.staged)
  have hp := h.placed hs
  cases h with
  | asksFirst _ ht => exact ⟨q, hc.turned hw ht⟩
  | asks _ ht => exact ⟨q, hc.handed hp hw ht⟩
  | closesFresh => exact ⟨q, hc.congr rfl rfl (fun _ => hw) rfl rfl rfl⟩
  | closes => exact ⟨q, hc.broken (by simp)⟩
  | gives hg =>
    refine ⟨q, hc.congr rfl ?_ id ?_ ?_ ?_⟩
    · simp [State.taken, State.held, State.emit, hg]
    · simp [State.begun, State.emit]
    · simp [State.returned, State.emit]
    · simp [State.cancelled, State.emit]
  | gives_none hg _ hn =>
    refine ⟨q, hc.congr rfl ?_ id rfl rfl rfl⟩
    rw [State.taken, State.held_eq_nil fun j d hd => hn d (Pull.given.inj hd).2]
    simp [State.taken, State.held, hg]
  | rejects hf hu => exact ⟨q + 1, hc.skips hp hw hf (by simp [hc.call?_next hp hw hf, hu])⟩
  | bars hf _ hg => exact ⟨q + 1, hc.skips hp hw hf (by simp [hc.call?_next hp hw hf, hg])⟩
  | begins hf hu hg => exact ⟨q + 1, hc.begins hp hw hf (by simp [hc.call?_next hp hw hf, hu, hg])⟩
  | settles hf hev =>
    refine ⟨q, hc.ends hp hf _ ?_⟩
    rcases hev with rfl | rfl
    · exact .inl rfl
    · exact .inr (.inl rfl)
  | expires _ hf => exact ⟨q, hc.ends hp hf _ (.inr (.inr rfl))⟩
  | wakes _ ht => exact ⟨q, hc.handed hp hw ht⟩
  | takes _ hg ht => exact ⟨q, (hc.takes hp hw hg).handed (hp.takes hg) hw ht⟩
  | takesEnd _ hg ht => exact ⟨q, (hc.takesEnd hg).handed (hp.takesEnd hg) hw ht⟩
  | takesOther => exact ⟨q, hc.halted (t := { s with pull := .idle }) rfl rfl rfl (by simp)⟩
  | takesFailure => exact ⟨q, hc.halted (t := { s with pull := .idle }) rfl rfl rfl (by simp)⟩

theorem Reachable.called {b : Batch} {s : State} (h : Reachable b s) : ∃ q, Called b q s := by
  induction h with
  | initial => exact ⟨0, .initial⟩
  | next h hs ih =>
    obtain ⟨q, hq⟩ := ih
    exact (step_stepped hs).called h.sound hq

namespace Called

variable {b : Batch} {q : Nat} {s : State}

/-- What began passes the check, and is the command at its position. -/
theorem of_mem_begun (h : Called b q s) {p : Nat × Command} (hp : p ∈ s.begun) :
    b.source p.1 = .item (.command p.2) ∧ b.operation.unfit? p.2 = none := by
  rw [h.begun] at hp
  obtain ⟨-, hs, hu, -⟩ := Batch.mem_calls.1 hp
  exact ⟨hs, hu⟩

theorem running_begun (h : Called b q s) (hp : Placed b s) {f : Flight} (hf : f ∈ s.flights)
    (hr : f.phase = .running) : (f.position, f.command) ∈ s.begun := by
  have hi : f.position ∈ s.running := State.mem_positionsIn.2 ⟨f, hf, rfl, by rw [hr]; rfl⟩
  obtain ⟨p, hmem, he⟩ := List.mem_map.1 (h.split.subset (List.mem_append_right _ hi))
  have hsource := (h.of_mem_begun hmem).1
  rw [he, hp.commands f hf] at hsource
  have hc : f.command = p.2 := Datum.command.inj (Offer.item.inj hsource)
  rw [hc, ← he]
  exact hmem

theorem over_nodup (h : Called b q s) : (s.returned ++ s.cancelled ++ s.running).Nodup := by
  rw [h.split.nodup_iff, h.begun]
  exact b.calls_positions_nodup q

theorem returned_nodup (h : Called b q s) : s.returned.Nodup :=
  (List.nodup_append.1 (List.nodup_append.1 h.over_nodup).1).1

theorem not_returned (h : Called b q s) {i : Nat} (hi : i ∈ s.cancelled) : i ∉ s.returned := fun hr =>
  (List.nodup_append.1 (List.nodup_append.1 h.over_nodup).1).2.2 i hr i hi rfl

theorem cancelled_begun (h : Called b q s) {i : Nat} (hi : i ∈ s.cancelled) : ∃ p ∈ s.begun, p.1 = i :=
  List.mem_map.1 (h.split.subset (List.mem_append_left _ (List.mem_append_right _ hi)))

end Called

def Move.returns : Move → List Nat
  | .settle i _ => [i]
  | _ => []

theorem Turned.returned {b : Batch} {s t : State} (h : Turned b s t) : t.returned = s.returned := by
  cases h with
  | asks => simp [State.returned, State.emit]
  | waits => rfl
  | ends => exact s.returned_halt _

theorem Handed.returned {b : Batch} {s t : State} {round : List Nat} (h : Handed b s round t) :
    t.returned = s.returned := by
  cases h with
  | yields => simp [State.returned, State.emit, State.remove]
  | fails => exact State.returned_halt _ _
  | turns _ ht => exact ht.returned

theorem Handed.begun {b : Batch} {s t : State} {round : List Nat} (h : Handed b s round t) : t.begun = s.begun := by
  cases h with
  | yields => simp [State.begun, State.emit, State.remove]
  | fails => exact State.begun_halt _ _
  | turns _ ht => exact ht.same.begun

theorem Stepped.returned {b : Batch} {s t : State} {m : Move} (h : Stepped b s m t) :
    t.returned = s.returned ++ m.returns := by
  cases h with
  | asksFirst _ ht => exact ht.returned.trans (List.append_nil _).symm
  | asks _ ht => exact ht.returned.trans (List.append_nil _).symm
  | wakes _ ht => exact ht.returned.trans (List.append_nil _).symm
  | takes _ _ ht => exact ht.returned.trans (List.append_nil _).symm
  | takesEnd _ _ ht => exact ht.returned.trans (List.append_nil _).symm
  | closesFresh | gives_none | rejects | bars => exact (List.append_nil _).symm
  | closes | takesOther | takesFailure => exact (State.returned_halt _ _).trans (List.append_nil _).symm
  | gives | begins | expires => simp [State.returned, State.emit, State.setPhase, Move.returns]
  | settles _ he => rcases he with rfl | rfl <;> simp [State.returned, State.emit, State.setPhase, Move.returns]

theorem Stepped.begun_of_ne_start {b : Batch} {s t : State} {m : Move} (h : Stepped b s m t) (hm : m ≠ .start) :
    t.begun = s.begun := by
  cases h with
  | asksFirst _ ht => exact ht.same.begun
  | asks _ ht => exact ht.begun
  | wakes _ ht => exact ht.begun
  | takes _ _ ht => exact ht.begun
  | takesEnd _ _ ht => exact ht.begun
  | closesFresh | gives_none => rfl
  | closes | takesOther | takesFailure => exact State.begun_halt _ _
  | gives | expires => simp [State.begun, State.emit, State.setPhase]
  | settles _ he => rcases he with rfl | rfl <;> simp [State.begun, State.emit, State.setPhase]
  | rejects | bars | begins => exact absurd rfl hm

/-- At most one call begins in a move, and then it is running. -/
theorem Stepped.begun_or {b : Batch} {s t : State} {m : Move} (h : Stepped b s m t) :
    t.begun = s.begun ∨ ∃ f ∈ s.flights,
      t = (s.setPhase f.position .running).emit [.began f.position f.command] := by
  by_cases hm : m = .start
  · subst hm
    cases h with
    | rejects | bars => exact .inl rfl
    | @begins f hf => exact .inr ⟨f, List.mem_of_find?_eq_some hf, rfl⟩
  · exact .inl (h.begun_of_ne_start hm)

theorem Stepped.begun {b : Batch} {s t : State} {m : Move} (h : Stepped b s m t) : s.begun <+: t.begun :=
  h.log.filterMap _

theorem Run.expired {b : Batch} {ms : List Move} {s : State} {i : Nat} (h : Run b ms s) (hi : .expire i ∈ ms) :
    i ∈ s.cancelled := by
  induction h with
  | initial => cases hi
  | next _ hs ih =>
    have hstep := step_stepped hs
    rcases List.mem_append.1 hi with hi | hi
    · exact (hstep.log.filterMap _).subset (ih hi)
    · obtain rfl := List.mem_singleton.1 hi
      cases hstep
      simp [State.cancelled, State.emit]

end SetPipeline.Pipeline
