import Mathlib.Data.List.Induction
import SetPipeline.Proofs.Number
import SetPipeline.Proofs.Pipeline.Closing
import SetPipeline.Proofs.Pipeline.Ending

/-! One command at a time. Under a limit of one the stream is a plain loop over its input: whatever is seen of a
position is seen when just the positions before it are answered. So calls do not overlap, responses come in the order
of the input, nothing is asked for before all that was taken is answered, and behind a failure nothing is begun. -/
namespace SetPipeline.Pipeline

def answeredIn (log : List Event) : List Nat :=
  log.filterMap fun
    | .yielded i _ => some i
    | _ => none

abbrev asksIn (log : List Event) : Nat := log.countP Event.isAsked

/-- The position that an event is about, after what was seen before it. Each time the input is asked it is asked for the
next position. -/
def Event.place? (before : List Event) : Event → Option Nat
  | asked => some (asksIn before)
  | took i | began i _ | returned i | raised i | cancelled i | yielded i _ => some i
  | abandoned | closedSource => none

/-- Whatever is seen of a position is seen when just the positions before it are answered, in their order. -/
def IsOrderly (log : List Event) : Prop :=
  ∀ before e after, log = before ++ e :: after → ∀ i, e.place? before = some i → answeredIn before = List.range i

/-- What is seen of a stream that is stopped while a position has its turn. -/
inductive Event.Stops (turn : Nat → Prop) : Event → Prop where
  | call {i : Nat} : turn i → Stops turn (cancelled i)
  | pull : Stops turn abandoned
  | source : Stops turn closedSource

section
variable {log log' : List Event} {e : Event} {i : Nat}

theorem answeredIn_append : answeredIn (log ++ log') = answeredIn log ++ answeredIn log' := List.filterMap_append

theorem asksIn_append : asksIn (log ++ log') = asksIn log + asksIn log' := List.countP_append

theorem State.answered_eq (s : State) : s.answered = answeredIn s.log := by
  rw [State.answered, State.yielded, answeredIn, List.map_filterMap]
  congr 1
  funext e
  cases e <;> rfl

namespace IsOrderly

theorem nil : IsOrderly [] := by
  intro before e after h
  simp at h

theorem snoc (h : IsOrderly log) (he : ∀ i, e.place? log = some i → answeredIn log = List.range i) :
    IsOrderly (log ++ [e]) := by
  intro before e' after hsplit
  rcases List.eq_nil_or_concat after with rfl | ⟨after, last, rfl⟩
  · obtain ⟨rfl, he'⟩ := List.append_inj' hsplit rfl
    obtain rfl := List.singleton_inj.1 he'
    exact he
  · have hlog : log ++ [e] = (before ++ e' :: after) ++ [last] := by simpa using hsplit
    exact h before e' after (List.append_inj' hlog rfl).1

theorem left (h : IsOrderly (log ++ log')) : IsOrderly log := by
  rintro before e after rfl
  exact h before e (after ++ log') (by simp)

/-- The responses of an orderly log come in the order of the input. -/
theorem answeredIn_eq (h : IsOrderly log) : answeredIn log = List.range (answeredIn log).length := by
  induction log using List.reverseRecOn with
  | nil => rfl
  | append_singleton log e ih =>
    have hlog := ih h.left
    rw [answeredIn_append]
    cases e with
    | yielded i r =>
      have hi : answeredIn log = List.range i := h log _ [] rfl i rfl
      show answeredIn log ++ [i] = List.range (answeredIn log ++ [i]).length
      rw [hi]
      simp [List.range_succ]
    | _ => simpa [answeredIn] using hlog

theorem asksIn_le (h : IsOrderly log) : asksIn log ≤ (answeredIn log).length + 1 := by
  induction log using List.reverseRecOn with
  | nil => exact Nat.zero_le _
  | append_singleton log e ih =>
    have hlog := ih h.left
    rw [asksIn_append, answeredIn_append, List.length_append]
    cases e with
    | asked =>
      have hasked : answeredIn log = List.range (asksIn log) := h log _ [] rfl _ rfl
      rw [hasked, List.length_range]
      exact Nat.add_le_add_right (Nat.le_add_right _ _) 1
    | yielded => exact Nat.le_trans hlog (Nat.add_le_add_right (Nat.le_add_right _ _) 1)
    | _ => exact hlog

/-- Where a call began, all the positions before it are answered. -/
theorem le_of_began {c : Command} (h : IsOrderly log) (hc : .began i c ∈ log) : i ≤ (answeredIn log).length := by
  obtain ⟨before, after, rfl⟩ := List.append_of_mem hc
  have hbefore : answeredIn before = List.range i := h before _ after rfl i rfl
  rw [answeredIn_append, hbefore, List.length_append, List.length_range]
  exact Nat.le_add_right _ _

theorem append_stops {es : List Event} (h : IsOrderly log)
    (hes : ∀ e ∈ es, e.Stops fun i => answeredIn log = List.range i) : IsOrderly (log ++ es) := by
  induction es generalizing log with
  | nil => simpa using h
  | cons e es ih =>
    obtain ⟨he, hes⟩ := List.forall_mem_cons.1 hes
    have hsame : answeredIn (log ++ [e]) = answeredIn log := by
      cases he <;> simp [answeredIn]
    have hfirst : IsOrderly (log ++ [e]) := h.snoc fun i hi => by
      cases he with
      | call hturn =>
        cases hi
        exact hturn
      | pull | source => cases hi
    rw [List.append_cons]
    exact ih hfirst (hsame ▸ hes)

end IsOrderly
end

namespace State

theorem mem_begun {s : State} {p : Nat × Command} : p ∈ s.begun ↔ .began p.1 p.2 ∈ s.log := by
  rw [begun, List.mem_filterMap]
  constructor
  · rintro ⟨e, he, hp⟩
    cases e <;> cases hp
    exact he
  · exact fun he => ⟨_, he, rfl⟩

/-- How many of the answers of the input are missing or gave no item. -/
def unpulled (s : State) : Nat :=
  match s.pull with
  | .idle => if s.exhausted then 1 else 0
  | .asked => 1
  | .given _ o => 1 - o.taken

theorem askedCount_emit (s : State) (es : List Event) : (s.emit es).askedCount = s.askedCount + asksIn es :=
  asksIn_append

end State

/-- Whenever the input is asked it is asked for the next item. -/
def Asked (s : State) : Prop := s.askedCount = s.pulled + s.unpulled

section
variable {b : Batch} {s t : State} {m : Move}

theorem Asked.takes (h : Asked s) (hp : Placed b s) {i : Nat} {c : Command}
    (hg : s.pull = .given i (.item (.command c))) :
    Asked { s with pull := .idle, flights := s.flights ++ [⟨i, c, .queued⟩] } := by
  have hx : s.exhausted = false := by
    cases hx : s.exhausted with
    | false => rfl
    | true => cases hg.symm.trans (hp.exhausted hx).1
  show s.askedCount = _
  simpa [Asked, State.unpulled, hg, hx, Offer.taken] using h

theorem Asked.takesEnd (h : Asked s) {i : Nat} (hg : s.pull = .given i .done) :
    Asked { s with pull := .idle, exhausted := true } := by
  show s.askedCount = _
  simpa [Asked, State.unpulled, hg, Offer.taken] using h

theorem Asked.emit (h : Asked s) {es : List Event} (hes : asksIn es = 0) : Asked (s.emit es) := by
  rw [Asked, State.askedCount_emit, hes]
  exact h

theorem Turned.asked (h : Turned b s t) (ha : Asked s) (he : t.ending? = none) : Asked t := by
  cases h with
  | asks hp hx =>
    have hnone : s.unpulled = 0 := by simp [State.unpulled, hp, hx]
    rw [Asked, hnone] at ha
    rw [Asked, State.askedCount_emit]
    exact congrArg (· + 1) ha
  | waits => exact ha
  | ends => cases he

theorem Handed.asked {round : List Nat} (h : Handed b s round t) (ha : Asked s) (he : t.ending? = none) : Asked t := by
  cases h with
  | yields => exact ha.emit (s := { s.remove _ with stage := _ }) rfl
  | fails => cases he
  | turns _ ht => exact ht.asked ha he

theorem Stepped.asked (h : Stepped b s m t) (hs : Sound b s) (ha : Asked s) (he : t.ending? = none) : Asked t := by
  have hplaced := h.placed hs
  cases h with
  | asksFirst _ ht => exact ht.asked ha he
  | asks _ ht => exact ht.asked ha he
  | closesFresh | closes | takesOther | takesFailure => cases he
  | @gives d hp =>
    have hone : s.unpulled = 1 := by simp [State.unpulled, hp]
    rw [Asked, hone] at ha
    have hgiven : Asked { s with pull := .given s.pulled (.item d), pulled := s.pulled + 1 } := ha
    exact hgiven.emit rfl
  | @gives_none o hp _ hn =>
    have hone : s.unpulled = 1 := by simp [State.unpulled, hp]
    have hsame : ({ s with pull := .given s.pulled o } : State).unpulled = 1 := by
      cases o with
      | item d => exact absurd rfl (hn d)
      | done | failure => rfl
    rw [Asked, hone] at ha
    rw [Asked, hsame]
    exact ha
  | rejects | bars => exact ha
  | begins | expires => exact Asked.emit (s := s.setPhase _ _) ha rfl
  | settles _ hev => exact Asked.emit (s := s.setPhase _ _) ha (by rcases hev with rfl | rfl <;> rfl)
  | wakes _ ht => exact ht.asked ha he
  | takes _ hg ht => exact ht.asked (ha.takes hplaced hg) he
  | takesEnd _ hg ht => exact ht.asked (ha.takesEnd hg) he

theorem Reachable.asked (h : Reachable b s) (he : s.ending? = none) : Asked s := by
  induction h with
  | initial => rfl
  | next h hs ih =>
    have hstep := step_stepped hs
    exact hstep.asked h.sound (ih (hstep.ending?_eq_none h.sound.staged)) he

/-! What is seen under a limit of one. A position in flight is the one after all that are answered. -/

theorem IsOrderly.ordered (h : IsOrderly s.log) : s.answered = List.range s.answered.length := by
  rw [s.answered_eq]
  exact h.answeredIn_eq

theorem IsOrderly.halt (h : IsOrderly s.log) (hturn : ∀ f ∈ s.flights, answeredIn s.log = List.range f.position)
    (e : End) : IsOrderly (s.halt e).log := by
  refine h.append_stops fun ev hev => ?_
  simp only [List.mem_append, List.mem_map, List.mem_filter, List.mem_singleton] at hev
  rcases hev with (⟨f, ⟨hf, -⟩, rfl⟩ | hpull) | rfl
  · exact .call (hturn f hf)
  · cases hask : s.pull.isAsked with
    | false => simp [hask] at hpull
    | true =>
      simp only [hask, if_true, List.mem_singleton] at hpull
      exact hpull ▸ .pull
  · exact .source

theorem Placed.turn (h : Placed b s) (hw : Windowed 1 s) (ho : IsOrderly s.log) {f : Flight} (hf : f ∈ s.flights) :
    answeredIn s.log = List.range f.position := by
  have hmem : f.position ∈ s.positions := List.mem_map_of_mem hf
  have hlt := h.position_lt hmem
  have hge : s.answered.length ≤ f.position := by
    refine Nat.not_lt.1 fun hlt => h.not_answered hmem ?_
    rw [ho.ordered]
    exact List.mem_range.2 hlt
  have hpulled := hw.pulled
  have hlen : s.answered.length = f.position := by omega
  rw [← s.answered_eq, ho.ordered, hlen]

theorem Placed.turn_of_asked (h : Placed b s) (hw : Windowed 1 s) (hp : s.pull = .asked) :
    s.answered.length = s.pulled := by
  have hle := h.answered_subperm.length_le
  have hpulled := hw.pulled
  have hone : s.outstanding = 1 := by simp [State.outstanding, hp, Pull.isAsked]
  rw [List.length_range] at hle
  omega

theorem Turned.orderly (h : Turned b s t) (hp : Placed b s) (hl : ∀ n, b.config.allows n = true → n < 1)
    (hw : Windowed 1 s) (ha : Asked s) (ho : IsOrderly s.log) : IsOrderly t.log := by
  have ht : Windowed 1 t := .of_placed (hp.turned h) (h.occupied_le hl hw.occupied)
  have hturn := (hp.turned h).turn_of_asked ht
  rw [h.answered, h.same.pulled] at hturn
  cases h with
  | asks hidle hx =>
    have hnone : s.unpulled = 0 := by simp [State.unpulled, hidle, hx]
    refine ho.snoc fun i hi => ?_
    have hi : s.askedCount = i := Option.some.inj hi
    rw [Asked, hnone] at ha
    rw [← s.answered_eq, ho.ordered, hturn rfl, ← hi, ha]
    rfl
  | waits => exact ho
  | ends => exact ho.halt (fun _ => hp.turn hw ho) _

theorem Handed.orderly {round : List Nat} (h : Handed b s round t) (hp : Placed b s)
    (hl : ∀ n, b.config.allows n = true → n < 1) (hw : Windowed 1 s) (ha : Asked s)
    (ho : IsOrderly s.log) : IsOrderly t.log := by
  cases h with
  | yields _ _ hf =>
    refine ho.snoc fun j hj => ?_
    cases hj
    exact hp.turn hw ho (State.mem_of_flight? hf).1
  | fails => exact IsOrderly.halt (s := s.remove _) ho (fun _ hf => hp.turn hw ho (List.mem_of_mem_filter hf)) _
  | turns _ ht => exact ht.orderly hp hl hw ha ho

theorem Stepped.orderly (h : Stepped b s m t) (hs : Sound b s) (hl : ∀ n, b.config.allows n = true → n < 1)
    (hw : Windowed 1 s) (ha : Asked s) (ho : IsOrderly s.log) : IsOrderly t.log := by
  have hp := h.placed hs
  have hturn {f : Flight} (hf : f ∈ s.flights) : answeredIn s.log = List.range f.position := hp.turn hw ho hf
  -- an event about a flight
  have hsnoc {f : Flight} {e : Event} (hf : f ∈ s.flights) (he : e.place? s.log = some f.position) :
      IsOrderly (s.log ++ [e]) := ho.snoc fun i hi => Option.some.inj (he.symm.trans hi) ▸ hturn hf
  cases h with
  | asksFirst _ ht => exact ht.orderly hp hl hw ha ho
  | asks _ ht => exact ht.orderly hp hl hw ha ho
  | closesFresh | gives_none | rejects | bars => exact ho
  | closes => exact ho.halt (fun _ => hturn) _
  | takesOther | takesFailure => exact IsOrderly.halt (s := { s with pull := .idle }) ho (fun _ => hturn) _
  | gives hasked =>
    refine ho.snoc fun i hi => ?_
    cases hi
    rw [← s.answered_eq, ho.ordered, hp.turn_of_asked hw hasked]
  | begins hf => exact hsnoc (List.mem_of_find?_eq_some hf) rfl
  | settles hf he => exact hsnoc (State.mem_of_flight? hf).1 (by rcases he with rfl | rfl <;> rfl)
  | expires _ hf => exact hsnoc (State.mem_of_flight? hf).1 rfl
  | wakes _ ht => exact ht.orderly hp hl hw ha ho
  | takes _ hg ht => exact ht.orderly (hp.takes hg) hl (hw.takes hp hg) (ha.takes hp hg) ho
  | takesEnd _ hg ht => exact ht.orderly (hp.takesEnd hg) hl (hw.takesEnd hp hg) (ha.takesEnd hg) ho

theorem Reachable.orderly (h : Reachable b s) (hl : ∀ n, b.config.allows n = true → n < 1) : IsOrderly s.log := by
  induction h with
  | initial => exact .nil
  | next h hs ih =>
    have hstep := step_stepped hs
    exact hstep.orderly h.sound hl (h.windowed hl) (h.asked (hstep.ending?_eq_none h.sound.staged)) ih

end

/-- What a stream can fail with, and where: its input fails there, the item there is no command, or the command there
comes to a failure that is not its own. -/
inductive FailsAt (b : Batch) (o : Outcomes) (i : Nat) : Failure → Prop where
  | call {c : Command} {f : Failure} : b.source i = .item (.command c) → b.conclusion c (o i) = some (.error f) →
    FailsAt b o i f
  | item {d : Datum} : b.source i = .item d → (∀ c, d ≠ .command c) → FailsAt b o i (.misuse (.notCommand d.typeName))
  | input {f : Failure} : b.source i = .failure f → FailsAt b o i f

theorem FailsAt.mono {b : Batch} {o o' : Outcomes} {i : Nat} {f : Failure}
    (ho : ∀ i a, o i = some a → o' i = some a) (h : FailsAt b o i f) : FailsAt b o' i f := by
  cases h with
  | call hi hc => exact .call hi (conclusion_mono (ho _) hc)
  | item hi hd => exact .item hi hd
  | input hi => exact .input hi

section
variable {b : Batch} {o : Outcomes} {ms : List Move} {s t : State} {m : Move} {i : Nat} {f : Failure}

theorem Handed.failsAt {round : List Nat} (h : Handed b s round t) (hp : Placed b s) (ha : Accounted b o s)
    (he : t.ending? = some (.failed f)) : ∃ i, FailsAt b o i f ∧ i < s.pulled := by
  cases h with
  | yields => cases he
  | fails _ _ hf =>
    obtain ⟨hmem, -⟩ := State.mem_of_flight? hf
    cases he
    exact ⟨_, .call (hp.commands _ hmem) (ha.flights _ hmem), hp.position_lt (List.mem_map_of_mem hmem)⟩
  | turns _ ht => cases ht.ending he

theorem Stepped.failsAt (h : Stepped b s m t) (hs : Sound b s) (ha : Accounted b o s) (hasked : Asked s)
    (he : t.ending? = some (.failed f)) : ∃ i, FailsAt b o i f ∧ i < s.askedCount := by
  have hnone := h.ending?_eq_none hs.staged
  have hp := h.placed hs
  have hle : s.pulled ≤ s.askedCount := hasked ▸ Nat.le_add_right _ _
  have hhanded {u : State} {round : List Nat} (ht : Handed b u round t) (hpu : Placed b u) (hau : Accounted b o u)
      (hpulled : u.pulled = s.pulled) : ∃ i, FailsAt b o i f ∧ i < s.askedCount := by
    obtain ⟨i, hi, hlt⟩ := ht.failsAt hpu hau he
    exact ⟨i, hi, Nat.lt_of_lt_of_le (hpulled ▸ hlt) hle⟩
  have hgiven {i : Nat} {o : Offer} (hg : s.pull = .given i o) : i < s.askedCount := by
    have hi := (hp.given _ _ hg).2
    have htaken : o.taken ≤ 1 := by cases o <;> simp [Offer.taken]
    simp only [Asked, State.unpulled, hg] at hasked
    omega
  have hkeeps (ht : t.stage = s.stage) : False := by
    have hsame : t.ending? = s.ending? := by simp [State.ending?, ht]
    cases hnone.symm.trans (hsame.symm.trans he)
  cases h with
  | asksFirst _ ht => cases ht.ending he
  | asks _ ht => exact hhanded ht hp ha rfl
  | closesFresh | closes => cases he
  | gives | gives_none | rejects | bars | begins | settles | expires => exact (hkeeps rfl).elim
  | wakes _ ht => exact hhanded ht hp ha rfl
  | takes _ hg ht => exact hhanded ht (hp.takes hg) (ha.takes hg) rfl
  | takesEnd _ hg ht => exact hhanded ht (hp.takesEnd hg) ha.takesEnd rfl
  | takesOther _ hg hd =>
    cases he
    exact ⟨_, .item (hp.given _ _ hg).1 hd, hgiven hg⟩
  | takesFailure _ hg =>
    cases he
    exact ⟨_, .input (hp.given _ _ hg).1, hgiven hg⟩

theorem Run.failsAt (h : Run b ms s) (he : s.ending? = some (.failed f)) :
    ∃ i, FailsAt b (outcomeOf ms) i f ∧ i < s.askedCount := by
  cases h with
  | initial => cases he
  | @next ms s t m h hs =>
    have hstep := step_stepped hs
    have hasked := h.reachable.asked (hstep.ending?_eq_none h.reachable.sound.staged)
    obtain ⟨i, hi, hlt⟩ := hstep.failsAt h.reachable.sound h.accounted hasked he
    refine ⟨i, hi.mono fun _ _ => outcomeOf_append_of_some, Nat.lt_of_lt_of_le hlt ?_⟩
    exact hstep.log.sublist.countP_le

end

/-- One command at a time, as far as the stream is consumed: everything seen is in its turn, so responses come in the
order of the input; at most one item is taken, or asked for, ahead of them; and once the input is asked for a position
at which the stream fails, all the positions before it are answered and no call behind it begins. -/
structure Sequential (b : Batch) (ms : List Move) (s : State) : Prop where
  orderly : IsOrderly s.log
  ordered : s.answered = List.range s.answered.length
  ahead : s.took.length + s.outstanding ≤ s.answered.length + 1
  struck : ∀ i f, FailsAt b (outcomeOf ms) i f → i < s.askedCount →
    s.answered = List.range i ∧ ∀ p ∈ s.begun, p.1 ≤ i
  failed : ∀ f, s.ending? = some (.failed f) → ∃ i, FailsAt b (outcomeOf ms) i f ∧
    s.answered = List.range i ∧ ∀ p ∈ s.begun, p.1 ≤ i

section
variable {b : Batch} {ms : List Move} {s : State} {i : Nat} {f : Failure}

theorem Run.struck (h : Run b ms s) (ho : IsOrderly s.log) (hf : FailsAt b (outcomeOf ms) i f) (hi : i < s.askedCount) :
    s.answered = List.range i ∧ ∀ p ∈ s.begun, p.1 ≤ i := by
  have hnot : i ∉ s.answered := by
    intro hmem
    obtain ⟨p, hp, rfl⟩ := List.mem_map.1 hmem
    obtain ⟨c, hc, hcon⟩ := h.accounted.yielded p hp
    cases hf with
    | call hc' hfail =>
      cases hc.symm.trans hc'
      cases hcon.symm.trans hfail
    | item hd hne =>
      cases hc.symm.trans hd
      exact hne c rfl
    | input hfail => cases hc.symm.trans hfail
  have hle : s.answered.length ≤ i := by
    refine Nat.not_lt.1 fun hlt => hnot ?_
    rw [ho.ordered]
    exact List.mem_range.2 hlt
  have hasked : s.askedCount ≤ s.answered.length + 1 := by
    rw [s.answered_eq]
    exact ho.asksIn_le
  have hlen : s.answered.length = i := by omega
  constructor
  · rw [ho.ordered, hlen]
  · intro p hp
    rw [← hlen, s.answered_eq]
    exact ho.le_of_began (State.mem_begun.1 hp)

theorem Run.sequential_of_lt (h : Run b ms s) (hl : ∀ n, b.config.allows n = true → n < 1) : Sequential b ms s := by
  have ho := h.reachable.orderly hl
  refine ⟨ho, ho.ordered, ?_, fun _ _ => h.struck ho, fun f hf => ?_⟩
  · rw [h.reachable.took, List.length_range]
    exact (h.reachable.windowed hl).pulled
  · obtain ⟨i, hi, hlt⟩ := h.failsAt hf
    exact ⟨i, hi, h.struck ho hi hlt⟩

end

/-- Under a limit that equals one, whatever its type, a stream does one command at a time: for every input, whatever the
calls come to and in whatever order input, calls and consumer get their turns. -/
theorem Run.sequential {b : Batch} {ms : List Move} {s : State} (hone : b.config.maxInFlight.same (.int 1) = true)
    (h : Run b ms s) : Sequential b ms s := by
  refine h.sequential_of_lt fun n hn => ?_
  rw [Config.allows, Number.lt_of_same hone] at hn
  exact Int.ofNat_lt.1 (Number.int_lt_int.1 hn)

def brittle : Batch := .quiet .card (fun _ => .item (.command (.key (some [107])))) ⟨.int 1, none⟩ 900

def brittleMoves : List Move :=
  [.ask, .offer, .wake true [], .start, .settle 0 (.ok (.int 1)), .wake false [0], .ask, .offer, .wake true [], .start,
    .settle 1 (.error (.broken (.named "ConnectionError") "boom")), .wake false [1]]

theorem sequential_brittle : brittle.config.maxInFlight.same (.int 1) = true ∧ ∃ s, Run brittle brittleMoves s ∧
    s.ending? = some (.failed (.broken (.named "ConnectionError") "boom")) ∧ s.answered = [0] ∧
      s.begun.map (·.1) = [0, 1] ∧ Sequential brittle brittleMoves s := by
  have hone : brittle.config.maxInFlight.same (.int 1) = true := by decide
  have first := (((Run.initial (b := brittle)).next (m := .ask) rfl).next (m := .offer) rfl).next (m := .wake true []) rfl
  have answered := ((first.next (m := .start) rfl).next (m := .settle 0 (.ok (.int 1))) rfl).next
    (m := .wake false [0]) rfl
  have second := ((answered.next (m := .ask) rfl).next (m := .offer) rfl).next (m := .wake true []) rfl
  have broken := ((second.next (m := .start) rfl).next
    (m := .settle 1 (.error (.broken (.named "ConnectionError") "boom"))) rfl).next (m := .wake false [1]) rfl
  exact ⟨hone, _, broken, rfl, rfl, rfl, broken.sequential hone⟩

end SetPipeline.Pipeline
