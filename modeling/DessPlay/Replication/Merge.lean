/-
  DessPlay.Replication.Merge
  **MERGE IS A JOIN, AND IT AGREES WITH REPLAYING THE MISSING OPS.**

  `Map::merge` decides presence by clocks while values resolve by timestamp, so
  none of the lattice laws holds for arbitrary states.  They hold for the states
  a replica can be in: those that applied, for every actor and map, a GAP-FREE
  PREFIX of the actor's updates in order, each dot naming one update.  Such
  states are cuts through the set of all ops, and merging cuts is the join.  So are
  the states that come of applying and merging in turn (`Gossip`).
-/
import DessPlay.Replication.Lane

namespace DessPlay.Replication

open Joins Crdts DessPlay.Core List CrdtState

/-! ## §1. Histories. -/

def DotsName (L : Set CrdtOp) : Prop :=
  ∀ f u v, CrdtOp.up f u ∈ L → CrdtOp.up f v ∈ L → u.dot = v.dot → u = v

def countersOf (f : MapField) (a : ActorId) (ops : List CrdtOp) : List Nat :=
  ops.filterMap fun op => op.dot?.bind fun d =>
    if d.1 = f ∧ d.2.actor = a then some d.2.counter else none

/-- A history: ops of `L`, in which the updates of every actor and map carry the
counters 1, 2, 3, … without a gap. -/
structure History (L : Set CrdtOp) (ops : List CrdtOp) : Prop where
  issued : ∀ op ∈ ops, op ∈ L
  put : ∀ op ∈ ops, op.IsPut
  gapFree : ∀ f a, countersOf f a ops = List.range' 1 (countersOf f a ops).length

def replay (ops : List CrdtOp) : CrdtState := ops.foldl apply .new

theorem countersOf_append (f : MapField) (a : ActorId) (ops ops' : List CrdtOp) :
    countersOf f a (ops ++ ops') = countersOf f a ops ++ countersOf f a ops' :=
  filterMap_append

theorem countersOf_up (f : MapField) (u : LwwUpdate f.Key f.Val) :
    countersOf f u.dot.actor [.up f u] = [u.dot.counter] := by
  simp [countersOf, CrdtOp.dot?_up]

theorem countersOf_single (op : CrdtOp) (f : MapField) (a : ActorId) :
    countersOf f a [op] = [] ∨
      ∃ u, op = .up f u ∧ u.dot.actor = a ∧ countersOf f a [op] = [u.dot.counter] := by
  cases hd : op.dot? with
  | none => exact .inl (by simp [countersOf, hd])
  | some d =>
    obtain ⟨g, d⟩ := d
    obtain ⟨u, rfl, rfl⟩ := CrdtOp.eq_up_of_dot? hd
    by_cases hfa : g = f ∧ u.dot.actor = a
    · obtain ⟨rfl, rfl⟩ := hfa
      exact .inr ⟨u, rfl, rfl, countersOf_up g u⟩
    · exact .inl (by simp [countersOf, hd, hfa])

variable {L : Set CrdtOp}

variable {ops : List CrdtOp}

theorem History.init {op : CrdtOp} (h : History L (ops ++ [op])) : History L ops where
  issued o ho := h.issued o (by simp [ho])
  put o ho := h.put o (by simp [ho])
  gapFree f a := by
    have hg := h.gapFree f a
    rw [countersOf_append, length_append, range'_append_1.symm] at hg
    exact (append_inj hg (by simp)).1

theorem History.snoc (h : History L ops) (op : CrdtOp) (hop : op ∈ L) (hput : op.IsPut)
    (hnext : ∀ d ∈ op.dot?, d.2.counter = (countersOf d.1 d.2.actor ops).length + 1) :
    History L (ops ++ [op]) where
  issued o ho := by
    rcases mem_append.mp ho with ho | ho
    · exact h.issued o ho
    · rwa [mem_singleton.mp ho]
  put o ho := by
    rcases mem_append.mp ho with ho | ho
    · exact h.put o ho
    · rwa [mem_singleton.mp ho]
  gapFree f a := by
    rw [countersOf_append, length_append, range'_append_1.symm, ← h.gapFree f a]
    congr 1
    rcases countersOf_single op f a with hnil | ⟨u, rfl, rfl, hone⟩
    · rw [hnil]; rfl
    · rw [hone, hnext (f, u.dot) rfl, add_comm]
      rfl

theorem History.last_counter {f : MapField} {u : LwwUpdate f.Key f.Val}
    (h : History L (ops ++ [.up f u])) :
    u.dot.counter = (countersOf f u.dot.actor ops).length + 1 := by
  have hg := h.gapFree f u.dot.actor
  rw [countersOf_append, countersOf_up, length_append, range'_append_1.symm] at hg
  have := (append_inj hg (by simp)).2
  simpa [add_comm] using this

theorem History.exists_update (h : History L ops) {f : MapField} {a : ActorId} {n : Nat}
    (hpos : 0 < n) (hn : n ≤ (countersOf f a ops).length) :
    ∃ u, CrdtOp.up f u ∈ ops ∧ u.dot = ⟨a, n⟩ := by
  have hmem : n ∈ countersOf f a ops := by
    rw [h.gapFree f a, mem_range'_1]
    omega
  obtain ⟨op, hop, hdot⟩ := mem_filterMap.mp hmem
  obtain ⟨⟨g, d⟩, hd, hif⟩ := Option.bind_eq_some_iff.mp hdot
  split at hif
  next hfa =>
    obtain ⟨rfl, rfl⟩ := hfa
    obtain ⟨u, rfl, rfl⟩ := CrdtOp.eq_up_of_dot? hd
    exact ⟨u, hop, by rw [← Option.some.inj hif]⟩
  · cases hif

/-! ## §2. A history's state is the cut of its counters. -/

/-- What holds of the state a history leads to. -/
structure Replayed (L : Set CrdtOp) (ops : List CrdtOp) : Prop where
  cut : CutOf L .new (replay ops)
  wellFormed : (replay ops).WellFormed
  clock : ∀ f a, ((replay ops).maps f).clock.get a = (countersOf f a ops).length
  join : (replay ops).join = joinAll CrdtOp.delta new.join ops

theorem History.takes_new (h : History L ops) {op : CrdtOp} (hop : op ∈ ops) : new.Takes op := by
  have hput := h.put op hop
  revert hop
  refine hput.cases (fun f u hop => ?_) (fun _ _ _ => trivial) (fun _ _ _ => trivial)
    (fun _ _ => trivial)
  have hmem : u.dot.counter ∈ countersOf f u.dot.actor ops :=
    mem_filterMap.mpr ⟨_, hop, by simp [CrdtOp.dot?_up]⟩
  rw [h.gapFree, mem_range'_1] at hmem
  rw [takes_up]
  show (VClock.new : VClock ActorId).get u.dot.actor < _
  rw [VClock.get_new]
  omega

theorem History.replayed (hL : DotsName L) :
    ∀ {ops : List CrdtOp}, History L ops → Replayed L ops := by
  intro ops
  induction ops using List.reverseRecOn with
  | nil =>
    intro _
    exact ⟨.base fun _ => rfl, WellFormed.new, fun f a => by simp [replay, countersOf,
      new, Map.new], rfl⟩
  | append_singleton ops op ih =>
    intro h
    obtain ⟨hcut, hwf, hclock, hjoin⟩ := ih h.init
    have hput : op.IsPut := h.put op (by simp)
    have hmem : op ∈ L := h.issued op (by simp)
    have hstep : replay (ops ++ [op]) = (replay ops).apply op := by
      simp [replay, foldl_append]
    -- the op carries the next counter, so it skips nothing
    have hgap : NoGap L (replay ops) op := by
      rintro f u rfl v hv ha hlt hle
      have hu := h.last_counter
      rw [hclock] at hlt
      have hc : v.dot.counter = u.dot.counter := by omega
      refine hL f v u hv hmem ?_
      cases hvd : v.dot; cases hud : u.dot
      simp_all
    refine ⟨hstep ▸ hcut.apply hput hmem hgap, hstep ▸ hwf.apply hput, fun f a => ?_, ?_⟩
    · rw [hstep, countersOf_append, length_append, ← hclock]
      rcases countersOf_single op f a with hnil | ⟨u, rfl, rfl, hone⟩
      · rcases clock_apply_cases hcut.noDeferred hput f a with heq | ⟨u, rfl, -, ha, -⟩
        · rw [heq, hnil]; rfl
        · subst ha
          rw [countersOf_up] at hnil
          cases hnil
      · have hu := h.last_counter
        rw [← hclock] at hu
        rw [hone, clock_apply_up hcut.noDeferred, if_pos ⟨rfl, rfl⟩]
        simp only [length_singleton]
        omega
    · rw [hstep, hcut.join_apply hput hmem (h.takes_new (by simp)), hjoin, joinAll_snoc]

/-! ## §3. Replaying what is missing. -/

/-- The updates of one history that a second one lacks, applied to the second in
dot order, are taken in one by one. -/
theorem replay_missing (hL : DotsName L) {A B rest : List CrdtOp} (hA : History L A)
    (hB : History L B) (hord : DotOrdered rest) (hrest : ∀ op, op ∈ rest ↔ op ∈ B ∧ op ∉ A) :
    (rest.foldl apply (replay A)).NoDeferred ∧
      (rest.foldl apply (replay A)).join =
        joinAll CrdtOp.delta (replay A).join rest := by
  have rA := hA.replayed hL
  -- along any prefix: a cut, with the prefix taken in and covered
  suffices h : ∀ pre post, rest = pre ++ post →
      CutOf L .new (pre.foldl apply (replay A)) ∧
        (pre.foldl apply (replay A)).join =
          joinAll CrdtOp.delta (replay A).join pre ∧
        ∀ f u, CrdtOp.up f u ∈ pre →
          ¬ (pre.foldl apply (replay A)).Takes (.up f u) by
    obtain ⟨hcut, hjoin, -⟩ := h rest [] (by simp)
    exact ⟨hcut.noDeferred, hjoin⟩
  intro pre
  induction pre using List.reverseRecOn with
  | nil => exact fun _ _ => ⟨rA.cut, rfl, by simp⟩
  | append_singleton pre op ih =>
    intro post hsplit
    obtain ⟨hcut, hjoin, hcov⟩ := ih (op :: post) (by simp [hsplit])
    have hop : op ∈ rest := by simp [hsplit]
    have hopB := ((hrest op).mp hop).1
    have hput := hB.put op hopB
    have hmem := hB.issued op hopB
    have hstep : (pre ++ [op]).foldl apply (replay A) =
        (pre.foldl apply (replay A)).apply op := by
      rw [foldl_append]; rfl
    have hbase : (replay A).join ≤ (pre.foldl apply (replay A)).join :=
      hjoin ▸ le_joinAll _ _ _
    have hgap : NoGap L (pre.foldl apply (replay A)) op := by
      rintro f u rfl v hv ha hlt hle
      have hAle := clock_le_of_join_le hbase f u.dot.actor
      -- `v` is an op of `B`, because `B` reaches beyond it without a gap
      have hu : u.dot.counter ≤ (countersOf f u.dot.actor B).length := by
        have hmem' : u.dot.counter ∈ countersOf f u.dot.actor B :=
          mem_filterMap.mpr ⟨_, hopB, by simp [CrdtOp.dot?_up]⟩
        rw [hB.gapFree, mem_range'_1] at hmem'
        omega
      obtain ⟨w, hw, hwd⟩ := hB.exists_update (f := f) (a := u.dot.actor)
        (n := v.dot.counter) (by omega) (hle.trans hu)
      obtain rfl : w = v := hL f w v (hB.issued _ hw) hv (by rw [hwd, ← ha])
      -- and not one of `A`, whose clock does not reach it
      have hnotA : CrdtOp.up f w ∉ A := by
        intro hwA
        have hmem' : w.dot.counter ∈ countersOf f w.dot.actor A :=
          mem_filterMap.mpr ⟨_, hwA, by simp [CrdtOp.dot?_up]⟩
        rw [hA.gapFree, mem_range'_1, ha, ← rA.clock] at hmem'
        omega
      have hwrest : CrdtOp.up f w ∈ rest := (hrest _).mpr ⟨hw, hnotA⟩
      rw [hsplit] at hwrest hord
      rcases mem_append.mp hwrest with hw' | hw'
      · rcases mem_append.mp hw' with hw' | hw'
        · exact absurd (takes_up.mpr (by rw [ha]; exact hlt)) (hcov f w hw')
        · exact CrdtOp.up_injective (mem_singleton.mp hw')
      · have hpair := (pairwise_append.mp hord).2.2 (.up f u) (by simp) _ hw'
        have hlater : u.dot.counter < w.dot.counter :=
          hpair (f, u.dot) rfl (f, w.dot) rfl rfl ha.symm
        omega
    have hjoin' := hcut.join_apply hput hmem (hB.takes_new hopB)
    refine ⟨hstep ▸ hcut.apply hput hmem hgap, ?_, fun f u hu => ?_⟩
    · rw [hstep, hjoin', hjoin, joinAll_snoc]
    · rw [hstep]
      rcases mem_append.mp hu with hu | hu
      · exact fun ht => hcov f u hu (ht.of_join_le (hjoin' ▸ le_sup_left))
      · rw [← mem_singleton.mp hu]
        exact not_takes_apply_self hcut.noDeferred u

/-! ## §4. The laws. -/

/-- **Merge is a semilattice join that agrees with op replay**, on the states
that histories of one set of ops lead to. -/
theorem merge_join_replay (L : Set CrdtOp) (hL : DotsName L) (A B C : List CrdtOp)
    (hA : History L A) (hB : History L B) (hC : History L C) :
    (replay A).merge (replay B) = (replay B).merge (replay A) ∧
    ((replay A).merge (replay B)).merge (replay C) =
      (replay A).merge ((replay B).merge (replay C)) ∧
    (replay A).merge (replay A) = replay A ∧
    ∀ rest, DotOrdered rest → (∀ op, op ∈ rest ↔ op ∈ B ∧ op ∉ A) →
      (replay A).merge (replay B) = rest.foldl apply (replay A) := by
  have a := hA.replayed hL
  have b := hB.replayed hL
  have c := hC.replayed hL
  have hab := a.cut.merge b.cut a.wellFormed b.wellFormed
  have hbc := b.cut.merge c.cut b.wellFormed c.wellFormed
  have jab := a.cut.join_merge b.cut a.wellFormed b.wellFormed
  refine ⟨?_, ?_, ?_, fun rest hord hrest => ?_⟩
  · refine join_injective hab.noDeferred
      (b.cut.merge a.cut b.wellFormed a.wellFormed).noDeferred ?_
    rw [jab, b.cut.join_merge a.cut b.wellFormed a.wellFormed, sup_comm]
  · have wab := a.wellFormed.merge b.wellFormed
    have wbc := b.wellFormed.merge c.wellFormed
    refine join_injective (hab.merge c.cut wab c.wellFormed).noDeferred
      (a.cut.merge hbc a.wellFormed wbc).noDeferred ?_
    rw [hab.join_merge c.cut wab c.wellFormed, a.cut.join_merge hbc a.wellFormed wbc, jab,
      b.cut.join_merge c.cut b.wellFormed c.wellFormed, sup_assoc]
  · refine join_injective
      (a.cut.merge a.cut a.wellFormed a.wellFormed).noDeferred a.cut.noDeferred ?_
    rw [a.cut.join_merge a.cut a.wellFormed a.wellFormed, sup_idem]
  · obtain ⟨hnd, hjoin⟩ := replay_missing hL hA hB hord hrest
    refine join_injective hab.noDeferred hnd ?_
    rw [jab, hjoin, a.join, b.join, joinAll_sup, ← joinAll_append]
    refine joinAll_congr _ _ fun op => ?_
    rw [mem_append, mem_append, hrest]
    tauto

theorem dotsName_of_pairwise {l : List CrdtOp} (h : l.Pairwise fun o o' => o.dot? ≠ o'.dot?) :
    DotsName {op | op ∈ l} := by
  intro f u v hu hv hdot
  by_contra hne
  have hne' : CrdtOp.up f u ≠ .up f v := fun heq => hne (CrdtOp.up_injective heq)
  have : Std.Symm fun o o' : CrdtOp => o.dot? ≠ o'.dot? := ⟨fun _ _ h => h.symm⟩
  exact h.forall hu hv hne' (by rw [CrdtOp.dot?_up, CrdtOp.dot?_up, hdot])

theorem merge_join_replay_watched :
    (replay (overtakenLog.take 1)).merge (replay overtakenLog) =
      (overtakenLog.drop 1).foldl apply (replay (overtakenLog.take 1)) := by
  have hnil : History {op | op ∈ overtakenLog} [] :=
    ⟨by simp, by simp, fun f a => by simp [countersOf]⟩
  have hone := hnil.snoc overtakenLog[0] (by simp) (by decide) (by decide)
  have htwo := hone.snoc overtakenLog[1] (by simp) (by decide) (by decide)
  refine (merge_join_replay {op | op ∈ overtakenLog} (dotsName_of_pairwise (by decide))
    (overtakenLog.take 1) overtakenLog [] hone htwo hnil).2.2.2 _ (by decide) fun op => ?_
  have hne : overtakenLog[1] ≠ overtakenLog[0] := fun h =>
    absurd (congrArg CrdtOp.dot? h) (by decide)
  show op ∈ [overtakenLog[1]] ↔
    op ∈ [overtakenLog[0], overtakenLog[1]] ∧ op ∉ [overtakenLog[0]]
  simp only [mem_cons, not_mem_nil, or_false]
  exact ⟨fun h => ⟨.inr h, h ▸ hne⟩, fun h => h.1.resolve_left h.2⟩

/-! ## §5. Gossip. -/

/-- The replicas that come about when any one takes in ops of `L`, an actor's updates of a map
without a gap but possibly again, and any two merge; each with the ops that reached it. -/
inductive Gossip (L : Set CrdtOp) : List CrdtOp → CrdtState → Prop
  | new : Gossip L [] .new
  | apply {ops : List CrdtOp} {s : CrdtState} {op : CrdtOp} (h : Gossip L ops s) (hop : op ∈ L)
      (hput : op.IsPut) (hfresh : new.Takes op)
      (hnext : ∀ d ∈ op.dot?, d.2.counter ≤ (s.maps d.1).clock.get d.2.actor + 1) :
      Gossip L (ops ++ [op]) (s.apply op)
  | merge {ops ops' : List CrdtOp} {s t : CrdtState} (hs : Gossip L ops s) (ht : Gossip L ops' t) :
      Gossip L (ops ++ ops') (s.merge t)

/-- A replica is a cut of `L`, and the join of the ops that reached it. -/
theorem Gossip.cut (hL : DotsName L) {s : CrdtState} (h : Gossip L ops s) :
    CrdtState.CutOf L .new s ∧ s.WellFormed ∧
      s.join = joinAll CrdtOp.delta CrdtState.new.join ops := by
  induction h with
  | new => exact ⟨.base fun _ => rfl, CrdtState.WellFormed.new, rfl⟩
  | @apply ops s op _ hop hput hfresh hnext ih =>
    obtain ⟨hcut, hwf, hjoin⟩ := ih
    have hgap : CrdtState.NoGap L s op := by
      rintro f u rfl v hv ha hlt hle
      have hu : u.dot.counter ≤ (s.maps f).clock.get u.dot.actor + 1 :=
        hnext (f, u.dot) (CrdtOp.dot?_up f u)
      have hc : v.dot.counter = u.dot.counter := by omega
      refine hL f v u hv hop ?_
      cases hvd : v.dot; cases hud : u.dot
      simp_all
    refine ⟨hcut.apply hput hop hgap, hwf.apply hput, ?_⟩
    rw [hcut.join_apply hput hop hfresh, hjoin, joinAll_snoc]
  | merge _ _ ihs iht =>
    obtain ⟨hcut, hwf, hjoin⟩ := ihs
    obtain ⟨hcut', hwf', hjoin'⟩ := iht
    refine ⟨hcut.merge hcut' hwf hwf', hwf.merge hwf', ?_⟩
    rw [hcut.join_merge hcut' hwf hwf', hjoin, hjoin', joinAll_sup]

/-- **Gossip converges.**  Two replicas that the same ops have reached are equal, whatever either
applied, again or for the first time, whatever it merged, and in whichever order. -/
theorem gossip_converges (hL : DotsName L) {A B : List CrdtOp} {s t : CrdtState}
    (hs : Gossip L A s) (ht : Gossip L B t) (hsame : ∀ op, op ∈ A ↔ op ∈ B) : s = t := by
  obtain ⟨hcut, -, hjoin⟩ := hs.cut hL
  obtain ⟨hcut', -, hjoin'⟩ := ht.cut hL
  refine join_injective hcut.noDeferred hcut'.noDeferred ?_
  rw [hjoin, hjoin']
  exact joinAll_congr _ _ hsame

/-- The snapshot of a replica with both flags arrives before the first one's own copy. -/
theorem gossip_converges_late_copy :
    (new.merge (replay overtakenLog)).apply overtakenLog[0] = replay overtakenLog := by
  have hfirst : overtakenLog[0] ∈ {op | op ∈ overtakenLog} := getElem_mem _
  have hsecond : overtakenLog[1] ∈ {op | op ∈ overtakenLog} := getElem_mem _
  have hone : Gossip {op | op ∈ overtakenLog} _ _ :=
    .apply .new hfirst (by decide) (by decide) (by decide)
  have htwo : Gossip {op | op ∈ overtakenLog} overtakenLog (replay overtakenLog) :=
    .apply hone hsecond (by decide) (by decide) (by decide)
  refine gossip_converges (dotsName_of_pairwise (by decide)) (.apply (.merge .new htwo) hfirst
    (by decide) (by decide) (by decide)) htwo fun op => ?_
  simp only [nil_append, mem_append, mem_singleton]
  exact ⟨fun h => h.elim id fun h => h ▸ hfirst, .inl⟩

end DessPlay.Replication
