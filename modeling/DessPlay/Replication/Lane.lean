/-
  DessPlay.Replication.Lane
  **THE DATAGRAM LANE IS A PURE LATENCY OPTIMISATION.**

  A receiver gets a log of ops on the reliable stream, in order, through
  `CrdtState.apply`; copies of the same ops also arrive as datagrams, in any
  order and number, through `CrdtState.applyIfOrderly`.

  Read against the log, the receiver stays a CUT: its clocks cover only updates
  it holds.  `apply` keeps that because everything before the log position has
  been delivered; `applyIfOrderly` keeps it because the dot is the next one.  So
  both lanes only join deltas of log ops, and the reliable lane joins all of them.
-/
import DessPlay.Core.Replica
import DessPlay.Lib.Machine

namespace DessPlay.Replication

open Joins Machine Crdts DessPlay.Core List Option CrdtState

/-! ## §1. Logs in dot order. -/

def DotOrdered (log : List CrdtOp) : Prop :=
  log.Pairwise fun o o' => ∀ d ∈ o.dot?, ∀ d' ∈ o'.dot?, d.1 = d'.1 →
    d.2.actor = d'.2.actor → d.2.counter < d'.2.counter

instance (log : List CrdtOp) : Decidable (DotOrdered log) :=
  inferInstanceAs (Decidable (List.Pairwise _ log))

theorem DotOrdered.counter_lt {log : List CrdtOp} (h : DotOrdered log) {i j : Nat} {f : MapField}
    {u v : LwwUpdate f.Key f.Val} (hi : log[i]? = some (.up f u)) (hj : log[j]? = some (.up f v))
    (ha : u.dot.actor = v.dot.actor) (hij : i < j) : u.dot.counter < v.dot.counter := by
  obtain ⟨hi', hiv⟩ := List.getElem?_eq_some_iff.mp hi
  obtain ⟨hj', hjv⟩ := List.getElem?_eq_some_iff.mp hj
  have hpair := pairwise_iff_getElem.mp h i j hi' hj' hij
  rw [hiv, hjv] at hpair
  exact hpair (f, u.dot) rfl (f, v.dot) rfl rfl ha

theorem DotOrdered.index_le {log : List CrdtOp} (h : DotOrdered log) {i j : Nat} {f : MapField}
    {u v : LwwUpdate f.Key f.Val} (hi : log[i]? = some (.up f u)) (hj : log[j]? = some (.up f v))
    (ha : v.dot.actor = u.dot.actor) (hle : v.dot.counter ≤ u.dot.counter) : j ≤ i := by
  by_contra hlt
  have := h.counter_lt hi hj ha.symm (not_le.mp hlt)
  omega

theorem DotOrdered.insert_mid {l r : List CrdtOp} {op : CrdtOp} (h : DotOrdered (l ++ r))
    (hl : ∀ f u v, op = .up f u → CrdtOp.up f v ∈ l → v.dot.actor = u.dot.actor →
      v.dot.counter < u.dot.counter)
    (hr : ∀ f u v, op = .up f u → CrdtOp.up f v ∈ r → v.dot.actor ≠ u.dot.actor) :
    DotOrdered (l ++ [op] ++ r) := by
  obtain ⟨hll, hrr, hlr⟩ := pairwise_append.mp h
  refine pairwise_append.mpr ⟨pairwise_append.mpr
    ⟨hll, pairwise_singleton _ _, ?_⟩, hrr, ?_⟩
  · rintro o ho o' ho' ⟨f, d⟩ hd ⟨g, d'⟩ hd' rfl ha
    obtain ⟨v, rfl, rfl⟩ := CrdtOp.eq_up_of_dot? hd
    obtain ⟨u, hu, rfl⟩ := CrdtOp.eq_up_of_dot? hd'
    exact hl f u v ((mem_singleton.mp ho').symm.trans hu) ho ha
  · intro o ho o' ho'
    rcases mem_append.mp ho with ho | ho
    · exact hlr o ho o' ho'
    · rintro ⟨f, d⟩ hd ⟨g, d'⟩ hd' rfl ha
      obtain ⟨u, hu, rfl⟩ := CrdtOp.eq_up_of_dot? hd
      obtain ⟨v, rfl, rfl⟩ := CrdtOp.eq_up_of_dot? hd'
      exact absurd ha.symm (hr f u v ((mem_singleton.mp ho).symm.trans hu) ho')

theorem DotOrdered.snoc {l : List CrdtOp} {op : CrdtOp} (h : DotOrdered l)
    (hl : ∀ f u v, op = .up f u → CrdtOp.up f v ∈ l → v.dot.actor = u.dot.actor →
      v.dot.counter < u.dot.counter) : DotOrdered (l ++ [op]) := by
  have hnil : DotOrdered (l ++ []) := by rwa [append_nil]
  simpa only [append_nil] using
    hnil.insert_mid hl fun _ _ _ _ hv => absurd hv not_mem_nil

/-! ## §2. The receiver. -/

/-- What arrives: a copy of the log's `i`-th op, on one of the two lanes. -/
inductive Copy where
  | reliable (i : Nat)
  | datagram (i : Nat)
  deriving DecidableEq, Repr

/-- A receiver: its replica, how far the reliable stream has come, and which ops
it has applied (for the statements; the program keeps no such list). -/
structure Receiver where
  state : CrdtState
  next : Nat
  applied : List CrdtOp

namespace Receiver

def start (s₀ : CrdtState) : Receiver := ⟨s₀, 0, []⟩

/-- Execute `apply`, noting the op unless it is discarded as already seen. -/
def take (r : Receiver) (op : CrdtOp) : Receiver :=
  { r with
    state := r.state.apply op
    applied := if r.state.Takes op then r.applied ++ [op] else r.applied }

/-- One arrival.  A reliable copy never overtakes: it is the next one of the
stream, or a repetition of an earlier one. -/
def step (log : List CrdtOp) (r : Receiver) : Copy → Option Receiver
  | .reliable i => do
      let op ← log[i]?
      if i ≤ r.next then some { r.take op with next := max r.next (i + 1) } else none
  | .datagram i => do
      let op ← log[i]?
      -- the verdict of `applyIfOrderly` says whether it executed `apply`
      if (r.state.applyIfOrderly op).2 then some (r.take op)
      else some { r with state := (r.state.applyIfOrderly op).1 }

end Receiver

theorem applyIfOrderly_next {s : CrdtState} {f : MapField} {u : LwwUpdate f.Key f.Val}
    (h : (s.applyIfOrderly (.up f u)).2 = true) :
    u.dot.counter = (s.maps f).clock.get u.dot.actor + 1 := by
  unfold applyIfOrderly CrdtOp.up at h
  simp only at h
  split at h
  next hnext => exact (beq_iff_eq.mp hnext).symm
  · cases h

/-! ## §3. The receiver stays a cut through the log. -/

def freshOps (log : List CrdtOp) (s₀ : CrdtState) : Set CrdtOp :=
  {op | op ∈ log ∧ s₀.Takes op}

/-- What holds of a receiver after any arrivals. -/
structure LaneInv (log : List CrdtOp) (s₀ : CrdtState) (r : Receiver) : Prop where
  cut : CutOf (freshOps log s₀) s₀ r.state
  /-- Everything before the stream position is covered … -/
  covered : ∀ i < r.next, ∀ f u, log[i]? = some (.up f u) → ¬ r.state.Takes (.up f u)
  /-- … and contained. -/
  lower : ∀ i < r.next, ∀ op, log[i]? = some op → s₀.Takes op → op.delta ≤ r.state.join
  base : s₀.join ≤ r.state.join
  /-- Nothing but the log is contained. -/
  upper : ∀ x, s₀.join ≤ x → (∀ op ∈ freshOps log s₀, op.delta ≤ x) → r.state.join ≤ x
  /-- What the clocks cover was applied … -/
  held : ∀ f u, .up f u ∈ freshOps log s₀ → ¬ r.state.Takes (.up f u) →
    CrdtOp.up f u ∈ r.applied
  /-- … and no clock runs ahead of what was applied. -/
  tight : ∀ f a, (r.state.maps f).clock.get a = (s₀.maps f).clock.get a ∨
    ∃ u, CrdtOp.up f u ∈ r.applied ∧ u.dot.actor = a ∧
      u.dot.counter = (r.state.maps f).clock.get a

variable {log : List CrdtOp} {s₀ : CrdtState}

theorem LaneInv.start (h : s₀.NoDeferred) : LaneInv log s₀ (.start s₀) where
  cut := .base h
  covered _ hi := absurd hi (Nat.not_lt_zero _)
  lower _ hi := absurd hi (Nat.not_lt_zero _)
  base := le_rfl
  upper _ hx _ := hx
  held _ _ hu hnot := absurd hu.2 hnot
  tight _ _ := .inl rfl

variable {r r' : Receiver}

theorem LaneInv.take (h : LaneInv log s₀ r) {op : CrdtOp} (hput : op.IsPut) (hmem : op ∈ log)
    (hgap : NoGap (freshOps log s₀) r.state op) :
    LaneInv log s₀ (r.take op) ∧ (s₀.Takes op → op.delta ≤ (r.take op).state.join) ∧
      (∀ f u, op = .up f u → ¬ (r.take op).state.Takes op) := by
  have hnd := h.cut.noDeferred
  by_cases hfresh : s₀.Takes op
  · have hL : op ∈ freshOps log s₀ := ⟨hmem, hfresh⟩
    have hjoin : (r.take op).state.join = r.state.join ⊔ op.delta :=
      h.cut.join_apply hput hL hfresh
    have hgrow : r.state.join ≤ (r.take op).state.join := hjoin ▸ le_sup_left
    have happlied : ∀ o, o ∈ r.applied → o ∈ (r.take op).applied := by
      intro o ho
      unfold Receiver.take
      split
      · exact mem_append_left _ ho
      · exact ho
    refine ⟨⟨h.cut.apply hput hL hgap, ?_, ?_, h.base.trans hgrow, ?_, ?_, ?_⟩,
      fun _ => hjoin ▸ le_sup_right, ?_⟩
    · exact fun i hi f u hlog ht => h.covered i hi f u hlog (ht.of_join_le hgrow)
    · exact fun i hi o hlog hfr => (h.lower i hi o hlog hfr).trans hgrow
    · intro x hx hall
      rw [hjoin]
      exact sup_le (h.upper x hx hall) (hall op hL)
    · -- a newly covered update can only be the op itself
      intro f v hv hcov
      by_cases hold : r.state.Takes (.up f v)
      · have hlt : (r.state.maps f).clock.get v.dot.actor < v.dot.counter := hold
        have hge : v.dot.counter ≤ ((r.state.apply op).maps f).clock.get v.dot.actor :=
          not_lt.mp hcov
        rcases clock_apply_cases hnd hput f v.dot.actor with heq | ⟨u, rfl, ht, ha, hc⟩
        · omega
        · rw [hgap f u rfl v hv ha.symm (by rw [ha]; exact hlt) (by omega)]
          simp [Receiver.take, ht]
      · exact happlied _ (h.held f v hv hold)
    · intro f a
      rcases clock_apply_cases hnd hput f a with heq | ⟨u, rfl, ht, ha, hc⟩
      · rcases h.tight f a with hbase | ⟨u, hu, ha, hc⟩
        · exact .inl (heq.trans hbase)
        · exact .inr ⟨u, happlied _ hu, ha, hc.trans heq.symm⟩
      · exact .inr ⟨u, by simp [Receiver.take, ht], ha, hc⟩
    · rintro f u rfl
      exact not_takes_apply_self hnd u
  · -- already covered by the start: nothing happens
    have hnot : ¬ r.state.Takes op := fun ht => hfresh (ht.of_join_le h.base)
    have hsame : r.take op = r := by
      unfold Receiver.take
      rw [apply_of_not_takes hput hnot, if_neg hnot]
    rw [hsame]
    exact ⟨h, fun hf => absurd hf hfresh, fun _ _ _ => hnot⟩

/-- What a step of the receiver can be: `apply` on a log op that skips none of
the fresh ops, or a datagram without effect. -/
theorem Receiver.step_cases {c : Copy} (hord : DotOrdered log) (h : LaneInv log s₀ r)
    (hs : r.step log c = some r') :
    (∃ i op, log[i]? = some op ∧ NoGap (freshOps log s₀) r.state op ∧
      (r' = r.take op ∨ (i ≤ r.next ∧ r' = { r.take op with next := max r.next (i + 1) }))) ∨
      r' = r := by
  cases c with
  | reliable i =>
    obtain ⟨op, hop, hs⟩ := bind_eq_some_iff.mp hs
    split at hs
    next hi =>
      refine .inl ⟨i, op, hop, ?_, .inr ⟨hi, (some.inj hs).symm⟩⟩
      -- an update in between stands before the stream position, so it is covered
      rintro f u rfl v hv ha hlt hle
      obtain ⟨j, hj⟩ := mem_iff_getElem?.mp hv.1
      rcases (hord.index_le hop hj ha hle).lt_or_eq with hji | rfl
      · exact absurd (takes_up.mpr (by rw [ha]; exact hlt))
          (h.covered j (by omega) f v hj)
      · rw [hop] at hj
        exact (CrdtOp.up_injective (some.inj hj)).symm
    · cases hs
  | datagram i =>
    obtain ⟨op, hop, hs⟩ := bind_eq_some_iff.mp hs
    split at hs
    next hok =>
      refine .inl ⟨i, op, hop, ?_, .inl (some.inj hs).symm⟩
      -- the dot is the next one: there is no room in between
      rintro f u rfl v hv ha hlt hle
      have hnext := applyIfOrderly_next hok
      obtain ⟨j, hj⟩ := mem_iff_getElem?.mp hv.1
      rcases (hord.index_le hop hj ha hle).lt_or_eq with hji | rfl
      · have := hord.counter_lt hj hop ha hji
        omega
      · rw [hop] at hj
        exact (CrdtOp.up_injective (some.inj hj)).symm
    next hno =>
      right
      rcases applyIfOrderly_spec r.state op with ⟨hyes, -⟩ | ⟨-, hsame⟩
      · exact absurd hyes hno
      · rw [← some.inj hs, hsame]

theorem LaneInv.step {c : Copy} (hput : ∀ op ∈ log, op.IsPut) (hord : DotOrdered log)
    (h : LaneInv log s₀ r) (hs : r.step log c = some r') : LaneInv log s₀ r' := by
  rcases Receiver.step_cases hord h hs with ⟨i, op, hop, hgap, hr'⟩ | rfl
  · have hmem : op ∈ log := mem_of_getElem? hop
    obtain ⟨htake, hin, hcov⟩ := h.take (hput op hmem) hmem hgap
    rcases hr' with rfl | ⟨hi, rfl⟩
    · exact htake
    · -- the stream position moves past op `i` only when it stood at `i`
      refine ⟨htake.cut, fun j hj f u hlog => ?_, fun j hj o hlog hfr => ?_, htake.base,
        htake.upper, htake.held, htake.tight⟩
      · by_cases hjr : j < r.next
        · exact htake.covered j hjr f u hlog
        · obtain rfl : j = i := by
            have : j < max r.next (i + 1) := hj
            omega
          rw [hop] at hlog
          obtain rfl := some.inj hlog
          exact hcov f u rfl
      · by_cases hjr : j < r.next
        · exact htake.lower j hjr o hlog hfr
        · obtain rfl : j = i := by
            have : j < max r.next (i + 1) := hj
            omega
          rw [hop] at hlog
          obtain rfl := some.inj hlog
          exact hin hfr
  · exact h

theorem laneInv_of_reach (hput : ∀ op ∈ log, op.IsPut) (hord : DotOrdered log) (h₀ : s₀.NoDeferred)
    (hr : Reach (Receiver.step log) anyStep (.start s₀) r) : LaneInv log s₀ r :=
  hr.invariant (LaneInv.start h₀) fun _ _ _ h _ hs => h.step hput hord hs

/-! ## §4. The end state. -/

theorem LaneInv.state_eq (h : LaneInv log s₀ r) (h' : LaneInv log s₀ r')
    (hall : log.length ≤ r.next) (hall' : log.length ≤ r'.next) : r.state = r'.state := by
  have hle : ∀ {p q : Receiver}, LaneInv log s₀ p → LaneInv log s₀ q →
      log.length ≤ q.next → p.state.join ≤ q.state.join := by
    intro p q hp hq hq'
    refine hp.upper _ hq.base fun op hop => ?_
    obtain ⟨i, hi⟩ := mem_iff_getElem?.mp hop.1
    have hlt : i < log.length := (List.getElem?_eq_some_iff.mp hi).1
    exact hq.lower i (by omega) op hi hop.2
  exact join_injective h.cut.noDeferred h'.cut.noDeferred
    (le_antisymm (hle h h' hall') (hle h' h hall))

theorem reach_log_alone (log : List CrdtOp) (s₀ : CrdtState) :
    ∃ r, Reach (Receiver.step log) anyStep (.start s₀) r ∧ r.next = log.length ∧
      r.state = log.foldl apply s₀ := by
  suffices h : ∀ n ≤ log.length, ∃ r, Reach (Receiver.step log) anyStep (.start s₀) r ∧
      r.next = n ∧ r.state = (log.take n).foldl apply s₀ by
    obtain ⟨r, hr, hn, hs⟩ := h log.length le_rfl
    exact ⟨r, hr, hn, by rw [hs, take_length]⟩
  intro n
  induction n with
  | zero => exact fun _ => ⟨.start s₀, .refl, rfl, rfl⟩
  | succ n ih =>
    intro hn
    obtain ⟨r, hr, hnext, hstate⟩ := ih (by omega)
    have hop : log[n]? = some log[n] := getElem?_eq_getElem (by omega)
    refine ⟨{ r.take log[n] with next := max r.next (n + 1) },
      .step (e := .reliable n) hr trivial ?_, by simp [hnext], ?_⟩
    · simp [Receiver.step, hop, hnext]
    · rw [take_add_one, hop, foldl_append, ← hstate]
      rfl

/-- **The datagram lane is a pure latency optimisation.**  Whatever copies of log
ops pass `applyIfOrderly`, in whatever order and number: once the reliable
stream is through, the receiver is in the state of the log ALONE; and at
every moment its clocks cover only updates it has applied, each clock that
moved standing at an applied update. -/
theorem datagram_lane_transparent (log : List CrdtOp) (hput : ∀ op ∈ log, op.IsPut)
    (hord : DotOrdered log) (s₀ : CrdtState) (h₀ : s₀.NoDeferred) (r : Receiver)
    (hr : Reach (Receiver.step log) anyStep (.start s₀) r) :
    (r.next = log.length → r.state = log.foldl apply s₀) ∧
    (∀ f u, CrdtOp.up f u ∈ log → (s₀.maps f).clock.get u.dot.actor < u.dot.counter →
      u.dot.counter ≤ (r.state.maps f).clock.get u.dot.actor → CrdtOp.up f u ∈ r.applied) ∧
    (∀ f a, (r.state.maps f).clock.get a = (s₀.maps f).clock.get a ∨
      ∃ u, CrdtOp.up f u ∈ r.applied ∧ u.dot.actor = a ∧
        u.dot.counter = (r.state.maps f).clock.get a) := by
  have hinv := laneInv_of_reach hput hord h₀ hr
  refine ⟨fun hdone => ?_, fun f u hu hlo hhi => ?_, hinv.tight⟩
  · obtain ⟨r', hr', hnext', hstate'⟩ := reach_log_alone log s₀
    rw [← hstate']
    exact hinv.state_eq (laneInv_of_reach hput hord h₀ hr') hdone.ge hnext'.ge
  · exact hinv.held f u ⟨hu, hlo⟩ (not_lt.mpr hhi)

/-- Two watched flags of one session: the second one's datagram overtakes the
first, is refused, and arrives again after the reliable copies. -/
def overtakenLog : List CrdtOp :=
  [.up .watched ⟨⟨1, 1⟩, (7 : Nat), ⟨5, true⟩⟩, .up .watched ⟨⟨1, 2⟩, (8 : Nat), ⟨6, true⟩⟩]

theorem datagram_lane_transparent_overtaken :
    ∃ r, run (Receiver.step overtakenLog) (.start .new)
        [.datagram 1, .datagram 0, .reliable 0, .reliable 1, .datagram 1] = some r ∧
      r.applied.length = 2 ∧ r.state = overtakenLog.foldl apply .new := by
  refine ⟨_, rfl, rfl, ?_⟩
  exact (datagram_lane_transparent overtakenLog (by decide) (by decide) .new (fun _ => rfl) _
    (reach_of_run [.datagram 1, .datagram 0, .reliable 0, .reliable 1, .datagram 1] rfl)).1 rfl

end DessPlay.Replication
