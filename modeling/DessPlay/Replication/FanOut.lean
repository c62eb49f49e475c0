/-
  DessPlay.Replication.FanOut
  **THE SERVER FANS EACH OP OUT EXACTLY ONCE.**

  A client's op reaches the server on two transports, any number of times.
  `applyForBroadcast` detects news in three different ways: a register by its
  winner, a set or the chat by growth, a map by its origin's dot clock.  All
  three amount to one thing: a copy is news iff the state does not COVER the op
  yet (`applyForBroadcast_spec`).
-/
import DessPlay.Core.Covers
import DessPlay.Replication.Lane

namespace DessPlay.Replication

open Machine Crdts DessPlay.Core List CrdtState

/-! ## §1. One copy. -/

variable {op : CrdtOp}

theorem apply_of_covers {s : CrdtState} (hput : op.IsPut) (h : s.Covers op) : s.apply op = s := by
  revert h
  refine hput.cases (fun f u h => ?_) (fun r w h => ?_) (fun g x h => ?_) (fun id h => ?_)
  · exact apply_of_not_takes trivial (not_lt.mpr h)
  · have hsame : (s.regs r).apply w = s.regs r := by
      rw [LwwCell.apply_eq_sup]
      exact sup_eq_left.mpr h
    show { s with regs := Function.update s.regs r ((s.regs r).apply w) } = s
    rw [hsame, Function.update_eq_self]
  · have hsame : (s.sets g).apply x = s.sets g := GSet.ext_value fun y => by
      rw [GSet.mem_apply]
      exact ⟨fun hy => hy.elim (fun hyx => hyx ▸ h) id, .inr⟩
    show { s with sets := Function.update s.sets g ((s.sets g).apply x) } = s
    rw [hsame, Function.update_eq_self]
  · have hsame : s.chat.apply id = s.chat := GList.ext_list fun i => by
      rw [GList.mem_apply]
      exact ⟨fun hi => hi.elim (fun hid => hid ▸ h) (fun hi => hi), .inr⟩
    show { s with chat := s.chat.apply id } = s
    rw [hsame]

theorem apply_ne_of_not_covers {s : CrdtState} (h : ¬ s.Covers op) :
    s.apply op ≠ s := fun heq => h (heq ▸ s.covers_apply_self op)

/-- **One copy.**  It is applied and fanned out when the op is not covered, or
refused without a trace: because the op is covered, or because it is a
datagram out of sequence. -/
theorem applyForBroadcast_spec (s : CrdtState) (hput : op.IsPut) (via : Bool) :
    (¬ s.Covers op ∧ s.applyForBroadcast op via = (s.apply op, true)) ∨
      ((s.Covers op ∨ via = true) ∧ s.applyForBroadcast op via = (s, false)) := by
  have hnews : ∀ news : Bool, (news = true ↔ ¬ s.Covers op) →
      s.applyForBroadcast op via = (s.apply op, news) →
      (¬ s.Covers op ∧ s.applyForBroadcast op via = (s.apply op, true)) ∨
        ((s.Covers op ∨ via = true) ∧ s.applyForBroadcast op via = (s, false)) := by
    intro news hiff heq
    by_cases hc : s.Covers op
    · have : news = false := by
        rw [← Bool.not_eq_true, hiff]
        exact not_not.mpr hc
      exact .inr ⟨.inl hc, by rw [heq, this, apply_of_covers hput hc]⟩
    · exact .inl ⟨hc, by rw [heq, hiff.mpr hc]⟩
  revert hnews
  refine hput.cases (fun f u hnews => ?_) (fun r w hnews => ?_) (fun g x hnews => ?_)
    (fun id hnews => ?_)
  · cases via with
    | false =>
      refine hnews (advances (s.maps f) u.toOp) ?_ rfl
      rw [covers_up, not_le, Update.toOp, advances, decide_eq_true_iff]
    | true =>
      -- a datagram: the dot must be the very next one
      rcases applyIfOrderly_spec s (.up f u) with ⟨hyes, hstate⟩ | ⟨hno, hstate⟩
      · refine .inl ⟨?_, Prod.ext hstate hyes⟩
        rw [covers_up, applyIfOrderly_next hyes]
        omega
      · exact .inr ⟨.inr rfl, Prod.ext hstate hno⟩
  · refine hnews (!decide (LwwCell.single w ≤ s.regs r)) (by simp [Covers]) ?_
    simp only [applyForBroadcast, registerChanged_spec, apply]
  · refine hnews (!(s.sets g).contains x) ?_ ?_
    · rw [Bool.not_eq_true', ← Bool.not_eq_true, GSet.contains_iff]
      rfl
    · simp only [applyForBroadcast, gsetChanged_spec, apply]
  · refine hnews (!s.chat.list.contains id) ?_ ?_
    · rw [Bool.not_eq_true', ← Bool.not_eq_true, Std.ExtTreeSet.contains_iff_mem]
      rfl
    · simp only [applyForBroadcast, glistChanged_spec, apply]

/-! ## §2. Any number of copies. -/

/-- A copy of the `index`-th op of a sequence, on one of the two transports. -/
structure Arrival where
  index : Nat
  viaDatagram : Bool
  deriving DecidableEq, Repr

def receive (ops : List CrdtOp) (s : CrdtState) (a : Arrival) : CrdtState × Bool :=
  match ops[a.index]? with
  | some op => s.applyForBroadcast op a.viaDatagram
  | none => (s, false)

def after (ops : List CrdtOp) (s : CrdtState) (arrivals : List Arrival) : CrdtState :=
  arrivals.foldl (fun s a => (receive ops s a).1) s

/-- The reliable copies keep their order: none arrives before a reliable copy of
each earlier op has. -/
def ReliableInOrder (arrivals : List Arrival) : Prop :=
  ∀ n (h : n < arrivals.length), arrivals[n].viaDatagram = false →
    ∀ j < arrivals[n].index, (⟨j, false⟩ : Arrival) ∈ arrivals.take n

instance (arrivals : List Arrival) : Decidable (ReliableInOrder arrivals) :=
  inferInstanceAs (Decidable (∀ n (_ : n < arrivals.length), _))

variable {ops : List CrdtOp}

theorem after_append (s : CrdtState) (as bs : List Arrival) :
    after ops s (as ++ bs) = after ops (after ops s as) bs :=
  foldl_append

theorem Covers.after {s : CrdtState} (h : s.Covers op) (hput : ∀ o ∈ ops, o.IsPut)
    (as : List Arrival) : (after ops s as).Covers op := by
  induction as generalizing s with
  | nil => exact h
  | cons a as ih =>
    refine ih ?_
    show ((receive ops s a).1).Covers op
    unfold receive
    split
    next o ho =>
      rcases applyForBroadcast_spec s (hput o (mem_of_getElem? ho)) a.viaDatagram with
        ⟨-, heq⟩ | ⟨-, heq⟩
      · rw [heq]; exact h.apply o
      · rw [heq]; exact h
    · exact h

/-- Arrivals in order are a run of the receiver: the server's state is that of a
receiver whose stream has come past every reliable copy. -/
theorem reach_of_arrivals (ops : List CrdtOp) (s : CrdtState) :
    ∀ as : List Arrival, ReliableInOrder as →
      ∃ r, Reach (Receiver.step ops) anyStep (.start s) r ∧ r.state = after ops s as ∧
        ∀ i < ops.length, (⟨i, false⟩ : Arrival) ∈ as → i < r.next := by
  intro as
  induction as using List.reverseRecOn with
  | nil => exact fun _ => ⟨.start s, .refl, rfl, by simp⟩
  | append_singleton as a ih =>
    intro hio
    have hio' : ReliableInOrder as := by
      intro n hn hrel j hj
      have hlt : n < (as ++ [a]).length := by simp; omega
      have hget : (as ++ [a])[n] = as[n] := getElem_append_left hn
      have := hio n hlt (by rw [hget]; exact hrel) j (by rw [hget]; exact hj)
      rwa [take_append_of_le_length hn.le] at this
    obtain ⟨r, hr, hstate, hnext⟩ := ih hio'
    have hafter : after ops s (as ++ [a]) = (receive ops r.state a).1 := by
      rw [after_append, hstate]; rfl
    obtain ⟨i, via⟩ := a
    cases hop : ops[i]? with
    | none =>
      refine ⟨r, hr, ?_, fun j hj hmem => ?_⟩
      · rw [hafter]; simp only [receive, hop]
      · rcases mem_append.mp hmem with hmem | hmem
        · exact hnext j hj hmem
        · have : j = i := congrArg Arrival.index (mem_singleton.mp hmem)
          rw [getElem?_eq_none_iff] at hop
          omega
    | some op =>
      have hrecv : after ops s (as ++ [⟨i, via⟩]) =
          if via then (r.state.applyIfOrderly op).1 else r.state.apply op := by
        rw [hafter]
        simp only [receive, hop]
        exact applyForBroadcast_state _ _ _
      cases via with
      | false =>
        have hi : i < ops.length := (List.getElem?_eq_some_iff.mp hop).1
        -- the stream has come to this op: its predecessor has arrived
        have hle : i ≤ r.next := by
          rcases Nat.eq_zero_or_pos i with rfl | hpos
          · exact Nat.zero_le _
          · have hprev := hio as.length (by simp) (by simp) (i - 1) (by simp; omega)
            rw [take_left'] at hprev
            · have := hnext (i - 1) (by omega) hprev
              omega
            · rfl
        refine ⟨{ r.take op with next := max r.next (i + 1) },
          .step (e := .reliable i) hr trivial (by simp [Receiver.step, hop, hle]),
          by rw [hrecv]; rfl, fun j hj hmem => ?_⟩
        show j < max r.next (i + 1)
        rcases mem_append.mp hmem with hmem | hmem
        · have := hnext j hj hmem
          omega
        · have : j = i := congrArg Arrival.index (mem_singleton.mp hmem)
          omega
      | true =>
        have hmem' : ∀ j, (⟨j, false⟩ : Arrival) ∈ as ++ [⟨i, true⟩] →
            (⟨j, false⟩ : Arrival) ∈ as := by
          intro j hmem
          rcases mem_append.mp hmem with hmem | hmem
          · exact hmem
          · simp at hmem
        rcases applyIfOrderly_spec r.state op with ⟨hyes, heq⟩ | ⟨hno, heq⟩
        · refine ⟨r.take op, .step (e := .datagram i) hr trivial
            (by simp [Receiver.step, hop, hyes]), ?_, fun j hj hmem => ?_⟩
          · rw [hrecv, if_pos rfl, heq]; rfl
          · exact hnext j hj (hmem' j hmem)
        · refine ⟨r, hr, ?_, fun j hj hmem => hnext j hj (hmem' j hmem)⟩
          rw [hrecv, if_pos rfl, heq]

/-- **Exactly-once fan-out.**  For any arrivals of copies of `ops`:

* of two copies of one op, at most the first that was fanned out is;
* a copy is fanned out exactly when it changed the state;
* if the reliable copies kept their order and all have arrived, the state is
  that of plain `apply` of the whole sequence. -/
theorem fan_out_exactly_once (ops : List CrdtOp) (hput : ∀ op ∈ ops, op.IsPut)
    (hord : DotOrdered ops) (s : CrdtState) (arrivals : List Arrival) :
    (∀ pre a mid b post op, arrivals = pre ++ a :: (mid ++ b :: post) →
      ops[a.index]? = some op → ops[b.index]? = some op →
      (receive ops (after ops s pre) a).2 = true →
      (receive ops (after ops s (pre ++ a :: mid)) b).2 = false) ∧
    (∀ pre a post, arrivals = pre ++ a :: post →
      ((receive ops (after ops s pre) a).2 = true ↔
        (receive ops (after ops s pre) a).1 ≠ after ops s pre)) ∧
    (s.NoDeferred → ReliableInOrder arrivals →
      (∀ i < ops.length, (⟨i, false⟩ : Arrival) ∈ arrivals) →
      after ops s arrivals = ops.foldl apply s) := by
  refine ⟨fun pre a mid b post op _ ha hb hfirst => ?_, fun pre a post _ => ?_,
    fun hs hio hall => ?_⟩
  · have hop : op.IsPut := hput op (mem_of_getElem? ha)
    -- the first copy was applied, so the op is covered from then on
    have hcov : (after ops s (pre ++ [a])).Covers op := by
      rw [after_append]
      show ((receive ops (after ops s pre) a).1).Covers op
      simp only [receive, ha] at hfirst ⊢
      rcases applyForBroadcast_spec (after ops s pre) hop a.viaDatagram with
        ⟨-, heq⟩ | ⟨-, heq⟩
      · rw [heq]; exact covers_apply_self _ op
      · rw [heq] at hfirst; cases hfirst
    have hsplit : pre ++ a :: mid = (pre ++ [a]) ++ mid := by simp
    have hcov' := Covers.after hcov hput mid
    rw [← after_append, ← hsplit] at hcov'
    simp only [receive, hb]
    rcases applyForBroadcast_spec (after ops s (pre ++ a :: mid)) hop b.viaDatagram with
      ⟨hnot, -⟩ | ⟨-, heq⟩
    · exact absurd hcov' hnot
    · rw [heq]
  · unfold receive
    split
    next op hop =>
      rcases applyForBroadcast_spec (after ops s pre)
        (hput op (mem_of_getElem? hop)) a.viaDatagram with ⟨hnot, heq⟩ | ⟨-, heq⟩
      · rw [heq]
        exact ⟨fun _ => apply_ne_of_not_covers hnot, fun _ => rfl⟩
      · rw [heq]
        exact ⟨fun h => absurd h Bool.false_ne_true, fun h => absurd rfl h⟩
    · exact ⟨fun h => absurd h Bool.false_ne_true, fun h => absurd rfl h⟩
  · obtain ⟨r, hr, hstate, hnext⟩ := reach_of_arrivals ops s arrivals hio
    obtain ⟨r', hr', hnext', hstate'⟩ := reach_log_alone ops s
    rw [← hstate, ← hstate']
    refine (laneInv_of_reach hput hord hs hr).state_eq (laneInv_of_reach hput hord hs hr') ?_
      hnext'.ge
    by_contra hlt
    have := hnext r.next (by omega) (hall _ (by omega))
    omega

/-- The copies of `overtakenLog`, datagrams first and doubled: the second copy of
the first op is no news, and the end state is that of the sequence. -/
theorem fan_out_exactly_once_overtaken :
    (receive overtakenLog (after overtakenLog .new [⟨1, true⟩, ⟨0, true⟩]) ⟨0, false⟩).2 =
      false ∧
    after overtakenLog .new [⟨1, true⟩, ⟨0, true⟩, ⟨0, false⟩, ⟨1, false⟩] =
      overtakenLog.foldl apply .new := by
  obtain ⟨honce, -, hfinal⟩ := fan_out_exactly_once overtakenLog (by decide) (by decide) .new
    [⟨1, true⟩, ⟨0, true⟩, ⟨0, false⟩, ⟨1, false⟩]
  exact ⟨honce [⟨1, true⟩] ⟨0, true⟩ [] ⟨0, false⟩ [⟨1, false⟩] _ rfl rfl rfl rfl,
    hfinal (fun _ => rfl) (by decide) (by decide)⟩

end DessPlay.Replication
