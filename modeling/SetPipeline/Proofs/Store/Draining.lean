import SetPipeline.Proofs.Store.Locality
import SetPipeline.Proofs.Store.Sampling
import SetPipeline.Proofs.Store.Stored

/-! Members taken out at random until none is left. As many calls as there are members, with any calls in between
that leave the key alone, give each member once, in an order that the random choices settle; every order is given for
some choices. Then the key is absent, and nothing more is taken. -/
namespace SetPipeline

theorem MemberSet.cons_erase_perm {m : MemberSet} {b : Bytes} (h : b ∈ m) : (b :: (m.erase b).toList).Perm m.toList := by
  have hnotMem : b ∉ (m.erase b).toList := fun hb => (mem_erase.1 (mem_def.2 hb)).2 rfl
  refine (List.perm_ext_iff_of_nodup (List.nodup_cons.2 ⟨hnotMem, (m.erase b).nodup⟩) m.nodup).2 fun a => ?_
  rw [List.mem_cons, ← mem_def, ← mem_def, mem_erase]
  by_cases ha : a = b <;> simp [ha, h]

namespace Store

/-- What becomes of a store with some random numbers to come: just these are taken, and they settle all of it. -/
def Settled (s : Store) (f : Store → Store) : Prop :=
  ∃ (ns : List Nat) (t : Store), ∀ rest used, f (s.withDraws ⟨ns ++ rest, used⟩) = t.withDraws ⟨rest, used + ns.length⟩

namespace Settled

variable {s : Store} {f g : Store → Store}

theorem steady (t : Store) (h : ∀ d, f (s.withDraws d) = t.withDraws d) : Settled s f :=
  ⟨[], t, fun rest used => h ⟨rest, used⟩⟩

theorem same : Settled s fun t => t := steady s fun _ => rfl

theorem congr (hg : Settled s g) (h : ∀ d, f (s.withDraws d) = g (s.withDraws d)) : Settled s f := by
  obtain ⟨ns, t, ht⟩ := hg
  exact ⟨ns, t, fun rest used => (h _).trans (ht rest used)⟩

theorem ite {ε : Type} {p : Prop} [Decidable p] {f g : Store → Except ε Reply × Store} (hf : Settled s fun t => (f t).2)
    (hg : Settled s fun t => (g t).2) : Settled s fun t => (if p then f t else g t).2 := by
  by_cases hp : p
  · simpa only [hp, if_true] using hf
  · simpa only [hp, if_false] using hg

theorem reading {k : Bytes} {next : Store → MemberSet → Turn} (h : ∀ m, Settled s fun t => (next t m).2) :
    Settled s fun t => (t.reading k (next t)).2 := by
  have hsame (d : Draws) : (s.withDraws d).setAt k = s.setAt k := rfl
  cases hm : s.setAt k with
  | ok m => exact (h m).congr fun d => by simp only [Store.reading, hsame, hm]
  | error r => exact same.congr fun d => by simp only [Store.reading, hsame, hm]

theorem drawing {α : Type} {draw : Draws → α × Draws} {ns : List Nat} {a : α} (hdraw : Draws.Gives draw ns a)
    (next : α → Store → Store) {t : Store} (h : ∀ d, next a (s.withDraws d) = t.withDraws d) :
    Settled s fun u => next (draw u.draws).1 (u.withDraws (draw u.draws).2) := by
  refine ⟨ns, t, fun rest used => ?_⟩
  have hd : draw (s.withDraws ⟨ns ++ rest, used⟩).draws = (a, ⟨rest, used + ns.length⟩) := hdraw rest used
  simp only [hd]
  exact h _

theorem comp (hf : Settled s f) (hg : ∀ t d e, f (s.withDraws d) = t.withDraws e → Settled t g) :
    Settled s fun t => g (f t) := by
  obtain ⟨ns, t, ht⟩ := hf
  obtain ⟨ms, u, hu⟩ := hg t _ _ (ht [] 0)
  refine ⟨ns ++ ms, u, fun rest used => ?_⟩
  simp only [List.append_assoc, ht, hu, List.length_append, Nat.add_assoc]

end Settled

theorem perform_settled (s : Store) (a : Action) : Settled s fun t => (t.perform a).2 := by
  cases a with
  | add k vs => exact .ite .same (.reading fun m => .steady (s.putSet k _) fun d => rfl)
  | remove k vs => exact .ite .same (.reading fun m => .steady (s.putSet k _) fun d => rfl)
  | pop k =>
    refine .reading fun m => ?_
    cases m.toList with
    | nil => exact .same
    | cons x xs =>
      obtain ⟨n, hn⟩ := Draws.exists_choose (List.mem_cons_self (a := x) (l := xs))
      exact .drawing (t := s.putSet k (m.erase x)) hn (fun b t => t.putSet k (m.erase b)) fun d => rfl
  | move i j v =>
    refine .reading fun m => .reading fun n => ?_
    exact .ite .same (.ite .same (.steady ((s.putSet i (m.erase v)).putSet j (n.insert v)) fun d => rfl))
  | card | isMember | combine | members => exact .same
  | combineStore how ks k =>
    have hsame (d : Draws) :
      (s.withDraws d).combined (.combineStore how) how ks = s.combined (.combineStore how) how ks := rfl
    cases hm : s.combined (.combineStore how) how ks with
    | ok m => exact .steady (s.putSet k m) fun d => by simp only [perform, combineTo, hsame, hm]; rfl
    | error r => exact .steady s fun d => by simp only [perform, combineTo, hsame, hm]
  | randomMembers k count =>
    refine .reading fun m => ?_
    obtain ⟨ns, hns⟩ := MemberSet.exists_draw (m.samples_draw count s.draws)
    refine (Settled.drawing hns (fun _ t => t) fun d => rfl).congr fun d => ?_
    simp only [MemberSet.draw]
    cases m.toList <;> rfl

theorem proper_withDraws {s : Store} {d : Draws} : (s.withDraws d).Proper ↔ s.Proper := Iff.rfl

theorem Proper.answer_settled {s : Store} (hs : s.Proper) (r : Request) (c : Command) :
    Settled s fun t => (t.answer r c).2 := by
  simp only [Store.answer]
  refine .ite .same ?_
  cases c.missing? with
  | some p => exact .same
  | none =>
    cases r with
    | unknown name => exact .same
    | known op =>
      cases ha : Action.of? op c with
      | none => exact Settled.same.congr fun d => by simp only [ha]
      | some a =>
        exact (perform_settled s a).congr fun d => by simp only [ha, (proper_withDraws.2 hs).act_eq]

/-- What a call leaves is settled by the random numbers that it takes. -/
theorem Proper.execute_settled {s : Store} (hs : s.Proper) (r : Request) (c : Command) :
    Settled s fun t => (t.execute r c).2 := by
  have hproper : (s.record r c).Proper := hs
  exact hproper.answer_settled r c

theorem Proper.executeAll_settled {s : Store} (hs : s.Proper) (calls : List (Request × Command)) :
    Settled s fun t => t.executeAll calls := by
  induction calls generalizing s with
  | nil => exact .same
  | cons p calls ih =>
    refine (hs.execute_settled p.1 p.2).comp (g := fun t => t.executeAll calls) fun t d e ht => ih ?_
    have hafter := (proper_withDraws (d := d).2 hs).execute p.1 p.2
    exact proper_withDraws.1 (ht ▸ hafter)

/-- Calls that change nothing under a key. -/
def LeavesAlone (s : Store) (k : Bytes) : List (Request × Command) → Prop
  | [] => True
  | p :: calls =>
    (s.execute p.1 p.2).2.data.get? k = s.data.get? k ∧ (s.execute p.1 p.2).2.LeavesAlone k calls

variable {s t : Store} {k b : Bytes} {c : Command}

theorem leavesAlone_of_notMem {calls : List (Request × Command)} (h : ∀ p ∈ calls, k ∉ p.1.writes p.2) :
    s.LeavesAlone k calls := by
  induction calls generalizing s with
  | nil => trivial
  | cons p calls ih =>
    obtain ⟨hp, hcalls⟩ := List.forall_mem_cons.1 h
    exact ⟨(s.execute_confined p.1 p.2).outside k hp, ih hcalls⟩

theorem LeavesAlone.get?_executeAll {calls : List (Request × Command)} (h : s.LeavesAlone k calls) :
    (s.executeAll calls).data.get? k = s.data.get? k := by
  induction calls generalizing s with
  | nil => rfl
  | cons p calls ih => exact (ih h.2).trans h.1

/-- A call takes a member out of a key's set: it draws one number, and leaves all else. -/
structure Pops (s : Store) (k : Bytes) (c : Command) (b : Bytes) (t : Store) : Prop where
  execute : s.execute (.known .pop) c = (.ok (.member (some b)), t)
  held : b ∈ s.setUnder k
  left : t.setUnder k = (s.setUnder k).erase b
  others : ∀ j, j ≠ k → t.data.get? j = s.data.get? j
  aside : t.aside = s.aside
  draws : t.draws = s.draws.next.2

/-- Some calls, and then one that asks for a member. -/
structure Round where
  before : List (Request × Command)
  pop : Command

def round (s : Store) (r : Round) : Store := ((s.executeAll r.before).execute (.known .pop) r.pop).2

/-- Rounds that ask for members of a key's set, and leave it alone in between. -/
def Spares (s : Store) (k : Bytes) : List Round → Prop
  | [] => True
  | r :: rounds => s.LeavesAlone k r.before ∧ r.pop.Means .pop (.pop k) ∧ (s.round r).Spares k rounds

theorem spares_of_notMem {rounds : List Round} (hpop : ∀ r ∈ rounds, r.pop.Means .pop (.pop k))
    (hbefore : ∀ r ∈ rounds, ∀ p ∈ r.before, k ∉ p.1.writes p.2) : s.Spares k rounds := by
  induction rounds generalizing s with
  | nil => trivial
  | cons r rounds ih =>
    obtain ⟨hr, hrounds⟩ := List.forall_mem_cons.1 hpop
    obtain ⟨hb, hbs⟩ := List.forall_mem_cons.1 hbefore
    exact ⟨leavesAlone_of_notMem hb, hr, ih hrounds hbs⟩

inductive Draining (k : Bytes) : Store → List Round → List Bytes → Store → Prop where
  | nil (s : Store) : Draining k s [] [] s
  | cons {s t u : Store} {r : Round} {rounds : List Round} {b : Bytes} {bs : List Bytes} :
    (s.executeAll r.before).Pops k r.pop b t → Draining k t rounds bs u → Draining k s (r :: rounds) (b :: bs) u

variable {x : Bytes} {xs : List Bytes} {d : Draws}

def without (s : Store) (k : Bytes) (c : Command) (b : Bytes) (d : Draws) : Store :=
  ((s.withDraws d).putSet k ((s.setUnder k).erase b)).record (.known .pop) c

theorem Proper.pops (hs : s.Proper) (hk : ¬s.HoldsPlain k) (hm : (s.setUnder k).toList = x :: xs)
    (hc : c.Means .pop (.pop k)) (hb : s.draws.choose x xs = (b, d)) : s.Pops k c b (s.without k c b d) := by
  have hperform : s.perform (.pop k) =
      (.ok (.member (some b)), (s.withDraws d).putSet k ((s.setUnder k).erase b)) := by
    simp only [Store.perform, popFrom, reading_of_ok (hs.setAt_eq_ok hk), hm, hb]
    rfl
  have hmem : b ∈ (s.setUnder k).toList := by
    have hchosen : (s.draws.choose x xs).1 = b := congrArg Prod.fst hb
    rw [hm, ← hchosen]
    exact s.draws.choose_mem x xs
  refine ⟨?_, hmem, setUnder_putSet_self _ k _, fun j hj => ?_, rfl, (congrArg Prod.snd hb).symm⟩
  · rw [hs.execute_of_means hc, hperform]
    rfl
  · exact (get?_putSet _ j k _).trans (if_neg hj)

theorem Proper.without (hs : s.Proper) : (s.without k c b d).Proper :=
  Proper.putSet (s := s.withDraws d) hs k ((s.setUnder k).erase b)

theorem not_holdsPlain_without : ¬(s.without k c b d).HoldsPlain k := not_holdsPlain_putSet (s.withDraws d) k _

theorem Proper.execute_pop_absent (hs : s.Proper) (hk : s.data.get? k = none) (hc : c.Means .pop (.pop k)) :
    s.execute (.known .pop) c = (.ok (.member none), s.record (.known .pop) c) := by
  have hset : s.setAt k = .ok ∅ := by simp [setAt, entrySet, hk]
  have hperform : s.perform (.pop k) = (.ok (.member none), s) := by
    simp only [Store.perform, popFrom, reading_of_ok hset]
    rfl
  rw [hs.execute_of_means hc, hperform]
  rfl

/-- A key with nothing under it, now and after any calls that leave it alone. -/
structure Drained (s : Store) (k : Bytes) : Prop where
  absent : s.data.get? k = none
  later : ∀ calls, s.LeavesAlone k calls → ∀ c, c.Means .pop (.pop k) →
    (s.executeAll calls).execute (.known .pop) c = (.ok (.member none), (s.executeAll calls).record (.known .pop) c)

theorem Proper.drained (hs : s.Proper) (hk : s.data.get? k = none) : s.Drained k :=
  ⟨hk, fun calls hcalls _ hc => (hs.executeAll calls).execute_pop_absent (hcalls.get?_executeAll.trans hk) hc⟩

theorem LeavesAlone.holds {calls : List (Request × Command)} (h : s.LeavesAlone k calls) (hk : ¬s.HoldsPlain k) :
    ¬(s.executeAll calls).HoldsPlain k ∧ (s.executeAll calls).setUnder k = s.setUnder k := by
  refine ⟨?_, setUnder_congr h.get?_executeAll⟩
  rwa [HoldsPlain, h.get?_executeAll]

variable {r : Round} {rounds : List Round} {bs : List Bytes}

/-- A round takes out one of the members that were there before it, and the others are left. -/
theorem Proper.round_pops (hs : s.Proper) (hk : ¬s.HoldsPlain k) (halone : s.LeavesAlone k r.before)
    (hpop : r.pop.Means .pop (.pop k)) (hm : (s.setUnder k).toList = x :: xs) (hmid : s.executeAll r.before = t)
    (hb : t.draws.choose x xs = (b, d)) :
    s.round r = t.without k r.pop b d ∧ t.Pops k r.pop b (s.round r) ∧
      (b :: ((s.round r).setUnder k).toList).Perm (s.setUnder k).toList := by
  obtain ⟨hplain, hunder⟩ := halone.holds hk
  have hproper := hs.executeAll r.before
  rw [hmid] at hplain hunder hproper
  have hpops := hproper.pops hplain (hunder ▸ hm) hpop hb
  have hround : s.round r = t.without k r.pop b d := by rw [Store.round, hmid, hpops.execute]
  have hperm := MemberSet.cons_erase_perm hpops.held
  rw [← hpops.left, hunder] at hperm
  rw [hround]
  exact ⟨rfl, hpops, hperm⟩

/-- As many rounds as there are members take out all of them. -/
theorem Proper.exists_draining (hs : s.Proper) (hk : ¬s.HoldsPlain k) (hspares : s.Spares k rounds)
    (hlength : rounds.length = (s.setUnder k).card) :
    ∃ bs t, bs.Perm (s.setUnder k).toList ∧ Draining k s rounds bs t ∧ t.Drained k := by
  induction rounds generalizing s with
  | nil =>
    have hempty : s.setUnder k = ∅ := MemberSet.card_eq_zero.1 hlength.symm
    have habsent : s.data.get? k = none := by simp [hs.get?_eq hk, hempty]
    exact ⟨[], s, by rw [hempty]; exact .refl _, .nil s, hs.drained habsent⟩
  | cons r rounds ih =>
    obtain ⟨halone, hpop, hspares⟩ := hspares
    cases hm : (s.setUnder k).toList with
    | nil => simp [MemberSet.card, hm] at hlength
    | cons x xs =>
      rcases hb : (s.executeAll r.before).draws.choose x xs with ⟨b, d⟩
      obtain ⟨hround, hpops, hperm⟩ := hs.round_pops hk halone hpop hm rfl hb
      have hproper : (s.round r).Proper := hround ▸ (hs.executeAll r.before).without
      have hplain : ¬(s.round r).HoldsPlain k := hround ▸ not_holdsPlain_without
      have hcount : rounds.length + 1 = ((s.round r).setUnder k).card + 1 := hlength.trans hperm.length_eq.symm
      obtain ⟨bs, t, hbs, hdraining, hdrained⟩ := ih hproper hplain hspares (Nat.succ.inj hcount)
      rw [← hm]
      exact ⟨b :: bs, t, (hbs.cons b).trans hperm, .cons hpops hdraining, hdrained⟩

theorem Proper.exists_round (hs : s.Proper) (hk : ¬s.HoldsPlain k) (hb : b ∈ s.setUnder k) {used : Nat}
    (halone : ∀ ns, (s.withDraws ⟨ns, used⟩).LeavesAlone k r.before) (hpop : r.pop.Means .pop (.pop k)) :
    ∃ (ms : List Nat) (t : Store), t.Proper ∧ ¬t.HoldsPlain k ∧ (b :: (t.setUnder k).toList).Perm (s.setUnder k).toList ∧
      ∀ ns, (s.withDraws ⟨ms ++ ns, used⟩).round r = t.withDraws ⟨ns, used + ms.length⟩ ∧
        ((s.withDraws ⟨ms ++ ns, used⟩).executeAll r.before).Pops k r.pop b (t.withDraws ⟨ns, used + ms.length⟩) := by
  have hmem : b ∈ (s.setUnder k).toList := hb
  cases hm : (s.setUnder k).toList with
  | nil =>
    rw [hm] at hmem
    cases hmem
  | cons x xs =>
    obtain ⟨ms, t, ht⟩ := hs.executeAll_settled r.before
    obtain ⟨n, hn⟩ := Draws.exists_choose (hm ▸ hmem)
    have hmid (ns : List Nat) : (s.withDraws ⟨ms ++ [n] ++ ns, used⟩).executeAll r.before =
        t.withDraws ⟨n :: ns, used + ms.length⟩ := by
      rw [List.append_assoc]
      exact ht (n :: ns) used
    have hround (ns : List Nat) := Proper.round_pops (s := s.withDraws ⟨ms ++ [n] ++ ns, used⟩) hs hk
      (halone (ms ++ [n] ++ ns)) hpop hm (hmid ns) (hn ns _)
    have hproper : t.Proper := by
      have hafter := Proper.executeAll (s := s.withDraws ⟨ms ++ [n] ++ [], used⟩) hs r.before
      rw [hmid] at hafter
      exact hafter
    -- Whatever numbers come behind, one store is left.
    refine ⟨ms ++ [n], t.without k r.pop b t.draws, hproper.without, not_holdsPlain_without, ?_, fun ns => ?_⟩
    · have hperm := (hround []).2.2
      rw [(hround []).1] at hperm
      rw [← hm]
      exact hperm
    · obtain ⟨hround, hpops, -⟩ := hround ns
      rw [hround] at hpops
      rw [hmid, List.length_append]
      exact ⟨hround, hpops⟩

/-- Every order of the members is taken out with some numbers to come. -/
theorem Proper.exists_draining_of_perm (hs : s.Proper) (hk : ¬s.HoldsPlain k) (used : Nat)
    (hspares : ∀ ns, (s.withDraws ⟨ns, used⟩).Spares k rounds) (hlength : rounds.length = bs.length)
    (hperm : bs.Perm (s.setUnder k).toList) : ∃ ns t, Draining k (s.withDraws ⟨ns, used⟩) rounds bs t := by
  induction rounds generalizing s bs used with
  | nil =>
    obtain rfl := List.length_eq_zero_iff.1 hlength.symm
    exact ⟨[], _, .nil _⟩
  | cons r rounds ih =>
    cases bs with
    | nil => cases hlength
    | cons b bs =>
      have hb : b ∈ s.setUnder k := hperm.subset List.mem_cons_self
      obtain ⟨ms, t, hproper, hplain, hleft, hround⟩ :=
        hs.exists_round hk hb (fun ns => (hspares ns).1) (hspares []).2.1
      have hrest : ∀ ns, (t.withDraws ⟨ns, used + ms.length⟩).Spares k rounds := fun ns =>
        (hround ns).1 ▸ (hspares (ms ++ ns)).2.2
      obtain ⟨ns, u, hu⟩ := ih hproper hplain _ hrest (Nat.succ.inj hlength) (hperm.trans hleft.symm).cons_inv
      exact ⟨ms ++ ns, u, .cons (hround ns).2 hu⟩

/-- What rounds that ask for the members of a key come to, one round for each member. -/
structure Drains (s : Store) (k : Bytes) (m : MemberSet) (rounds : List Round) : Prop where
  sound : ∀ d, (s.withDraws d).Spares k rounds →
    ∃ bs t, bs.Perm m.toList ∧ Draining k (s.withDraws d) rounds bs t ∧ t.Drained k
  complete : (∀ d, (s.withDraws d).Spares k rounds) →
    ∀ bs, bs.Perm m.toList → ∃ d t, Draining k (s.withDraws d) rounds bs t

/-- Members are taken out without loss or repetition until the key is absent, in any order that there is. -/
theorem Reachable.drains (hs : s.Reachable) {m : MemberSet} (hk : s.data.get? k = some (.set m))
    (hlength : rounds.length = m.card) : s.Drains k m rounds := by
  have hset : s.setAt k = .ok m := by simp [setAt, entrySet, hk]
  have hunder : s.setUnder k = m := setUnder_of_eq_ok hset
  have hplain : ¬s.HoldsPlain k := hs.proper.exists_setAt_iff.1 ⟨m, hset⟩
  subst hunder
  refine ⟨fun d hspares => ?_, fun hspares bs hperm => ?_⟩
  · exact Proper.exists_draining (s := s.withDraws d) hs.proper hplain hspares hlength
  · obtain ⟨ns, t, ht⟩ := hs.proper.exists_draining_of_perm hplain 0 (fun ns => hspares ⟨ns, 0⟩)
      (hlength.trans hperm.length_eq.symm) hperm
    exact ⟨⟨ns, 0⟩, t, ht⟩

/-- Two rounds, with members put under another key, taken from it, and asked for at random in between. -/
def outings : List Round :=
  [⟨[(.known .add, .add (some [109]) [[97]])], .key (some [107])⟩,
    ⟨[(.known .randomMembers, .randomMembers (some [107]) (some 5)), (.known .pop, .key (some [109]))],
      .add (some [107]) []⟩]

theorem drains_lodged : lodged.Reachable ∧ lodged.data.get? [107] = some (.set (.ofList [[97], [98]])) ∧
    outings.length = (MemberSet.ofList [[97], [98]]).card ∧ lodged.Drains [107] (.ofList [[97], [98]]) outings ∧
    (∃ d t, Draining [107] (lodged.withDraws d) outings [[97], [98]] t) ∧
    ∃ d t, Draining [107] (lodged.withDraws d) outings [[98], [97]] t := by
  have hk : lodged.data.get? [107] = some (.set (.ofList [[97], [98]])) := rfl
  have hlength : outings.length = (MemberSet.ofList [[97], [98]]).card := rfl
  have hdrains := reachable_lodged.drains hk hlength
  have hmeans : ∀ r ∈ outings, r.pop.Means .pop (.pop [107]) := by
    intro r hr
    rcases List.mem_pair.1 hr with rfl | rfl <;> exact ⟨rfl, by simp [Command.Lacks, Command.required], rfl⟩
  have hspares (d : Draws) : (lodged.withDraws d).Spares [107] outings := spares_of_notMem hmeans (by decide)
  exact ⟨reachable_lodged, hk, hlength, hdrains, hdrains.complete hspares _ (by decide),
    hdrains.complete hspares _ (by decide)⟩

end Store
end SetPipeline
