/-
  DessPlay.Server.SnapshotCut
  **FULL STATES AS CUTS OF A CONNECTION'S STREAM.**

  A full state (SyncStatus or RequestMerge reply, merge rebroadcast, compaction
  snapshot) is captured under the lock at one POINT of the mutation order and
  pushed later.  What it contains is never in doubt: everything before its point
  (`Contains`).  Where it lands in the stream is: another task may apply an op
  after the capture and push it BEFORE the full state, and the recipient then
  overwrites the op with a state that lacks it (`snapshot_overtaken`).
-/
import DessPlay.Server.InFlight
import DessPlay.Server.DotOrder
import DessPlay.Core.Covers

namespace DessPlay.Server

open Machine Crdts DessPlay.Core List CrdtState

variable {H : Type}

/-! ## §1. What a state contains. -/

/-- The full state contains the op of epoch `e`.  Within the epoch, its state covers it.  Across
epochs there is a chain of compactions, each recorded in the mutation order: the op is
contained in the very state that was compacted, and the full state of the next epoch covers
all that the state rebuilt from that one's view does. -/
inductive Contains (hist : List Mutated) : StateSnapshot → Epoch → CrdtOp → Prop
  | covered {snapshot : StateSnapshot} {op : CrdtOp} (h : snapshot.state.Covers op) :
      Contains hist snapshot snapshot.epoch op
  | compacted {snapshot : StateSnapshot} {e last : Epoch} {op : CrdtOp} {before : CrdtState}
      {view : StateView} {chatKeep : Nat} {stamps : Nat → SharedTimestamp}
      (hview : before.view? = some view)
      (hmem :
        .compacted before ⟨snapshot.epoch, rebuild view ActorId.SERVER chatKeep stamps⟩ ∈ hist)
      (hlast : snapshot.epoch = Epoch.next last) (hlt : last < snapshot.epoch)
      (hextends : ∀ o, (rebuild view ActorId.SERVER chatKeep stamps).Covers o →
        snapshot.state.Covers o)
      (h : Contains hist ⟨last, before⟩ e op) : Contains hist snapshot e op

/-- The state contains every op of the mutation order. -/
def HistContained (c : Core) : Prop :=
  ∀ e op, Mutated.op e op ∈ c.hist → Contains c.hist c.snapshot e op

variable {op : CrdtOp}

variable {hist : List Mutated} {snapshot : StateSnapshot}

theorem Contains.grow {hist' : List Mutated} {snapshot' : StateSnapshot} {e : Epoch}
    (h : Contains hist snapshot e op) (hepoch : snapshot'.epoch = snapshot.epoch)
    (hhist : hist ⊆ hist') (hstate : ∀ o, snapshot.state.Covers o → snapshot'.state.Covers o) :
    Contains hist' snapshot' e op := by
  induction h generalizing snapshot' with
  | covered h => exact hepoch ▸ .covered (hstate _ h)
  | compacted hview hmem hlast hlt hextends _ ih =>
    rw [← hepoch] at hmem hlast hlt
    exact .compacted hview (hhist hmem) hlast hlt (fun o h => hstate o (hextends o h))
      (ih rfl fun _ h => h)

theorem Contains.epoch_le {e : Epoch} (h : Contains hist snapshot e op) : e ≤ snapshot.epoch := by
  induction h with
  | covered => exact le_rfl
  | compacted _ _ _ hlt _ _ ih => exact ih.trans hlt.le

/-- An op of the full state's own epoch is covered by its state. -/
theorem Contains.covers
    (h : Contains hist snapshot snapshot.epoch op) : snapshot.state.Covers op := by
  cases h with
  | covered h => exact h
  | compacted _ _ _ hlt _ h => exact absurd h.epoch_le (not_le.mpr hlt)

theorem covers_applyForBroadcast {s : CrdtState} (h : s.Covers op) (op' : CrdtOp) (via : Bool) :
    (s.applyForBroadcast op' via).1.Covers op := by
  rcases s.applyForBroadcast_cases op' via with heq | heq <;> rw [heq]
  · exact h.apply op'
  · exact h

variable {c c' : Core}

theorem HistContained.snoc_op (h : HistContained c) {state : CrdtState}
    (hstate : state = c.state.apply op) :
    HistContained { c with state := state, hist := c.hist ++ [.op c.epoch op] } := by
  subst hstate
  intro e o ho
  rcases mem_append.mp ho with ho | ho
  · exact (h e o ho).grow rfl (subset_append_left _ _) fun _ hc => hc.apply op
  · cases mem_singleton.mp ho
    exact .covered (covers_apply_self _ _)

theorem HistContained.move {outs : List (Outgoing H)} (hm : c.Move outs c') (h : HistContained c) :
    HistContained c' := by
  cases hm with
  | quiet c' hstate hepoch hhist =>
    intro e op hop
    rw [hhist] at hop ⊢
    refine (h e op hop).grow hepoch (List.Subset.refl _) fun o hc => ?_
    show c'.state.Covers o
    rw [hstate]
    exact hc
  | relayed op via hnews => exact h.snoc_op (applyForBroadcast_news hnews)
  | ignored op via hold =>
    exact fun e o ho => (h e o ho).grow rfl (List.Subset.refl _) fun _ hc =>
      covers_applyForBroadcast hc op via
  | authored ts w => exact h.snoc_op rfl
  | merged snapshot hepoch =>
    intro e o ho
    rcases mem_append.mp ho with ho | ho
    · exact (h e o ho).grow rfl (subset_append_left _ _) fun _ hc => hc.merge_left _
    · cases mem_singleton.mp ho
  | compacted view chatKeep stamps hview hepoch =>
    intro e o ho
    rcases mem_append.mp ho with ho | ho
    · -- the chain grows by the state whose epoch ends
      exact .compacted hview (mem_append_right _ (mem_singleton_self _)) rfl hepoch (fun _ h => h)
        ((h e o ho).grow rfl (subset_append_left _ _) fun _ h => h)
    · cases mem_singleton.mp ho
  | captured msg hmsg => exact h

/-! ## §2. Ops and full states on a stream. -/

def Outgoing.op? (x : Outgoing H) : Option (Epoch × CrdtOp) :=
  match x.msg with
  | .stateOp epoch op => some (epoch, op)
  | _ => none

def Outgoing.full? (x : Outgoing H) : Option StateSnapshot :=
  match x.msg with
  | .stateMerge snapshot => some snapshot
  | .stateSnapshot snapshot => some snapshot
  | _ => none

def CutOrder (x y : Outgoing H) : Prop :=
  ∀ p snapshot, x.op? = some p → y.full? = some snapshot → x.point < y.point

/-- An op is in the mutation order at its point; a full state contains everything
before its own. -/
structure CutSettled (c : Core) (x : Outgoing H) : Prop where
  op : ∀ e o, x.op? = some (e, o) → c.hist[x.point]? = some (.op e o)
  full : ∀ snapshot, x.full? = some snapshot → x.point ≤ c.hist.length ∧
    ∀ e o, Mutated.op e o ∈ c.hist.take x.point → Contains (c.hist.take x.point) snapshot e o

theorem hist_move {outs : List (Outgoing H)} (h : c.Move outs c') : c.hist <+: c'.hist := by
  cases h with
  | quiet c' hstate hepoch hhist => exact hhist ▸ prefix_rfl
  | relayed => exact prefix_append _ _
  | ignored => exact prefix_rfl
  | authored => exact prefix_append _ _
  | merged => exact prefix_append _ _
  | compacted => exact prefix_append _ _
  | captured => exact prefix_rfl

theorem CutSettled.mono {x : Outgoing H} (hpre : c.hist <+: c'.hist) (h : CutSettled c x) :
    CutSettled c' x := by
  obtain ⟨new, hnew⟩ := hpre
  refine ⟨fun e o hx => ?_, fun snapshot hx => ?_⟩
  · have hold := h.op e o hx
    rw [← hnew, List.getElem?_append_left (List.getElem?_eq_some_iff.mp hold).1]
    exact hold
  · obtain ⟨hle, hall⟩ := h.full snapshot hx
    rw [← hnew, take_append_of_le_length hle, length_append]
    exact ⟨hle.trans (Nat.le_add_right _ _), hall⟩

theorem cutSettled_op {authored : Bool} (hhist : c'.hist = c.hist ++ [.op c.epoch op]) :
    CutSettled c' (⟨.stateOp c.epoch op, c.hist.length, authored⟩ : Outgoing H) where
  op e o hx := by
    cases hx
    rw [hhist, getElem?_concat_length]
  full snapshot hx := by cases hx

theorem cutSettled_captured (h : HistContained c) {msg : ServerControl H} (hmsg : c.Captured msg) :
    CutSettled c (c.capture msg) := by
  refine ⟨fun e o hx => ?_, fun snapshot hx => ⟨le_rfl, ?_⟩⟩
  · rcases hmsg with rfl | rfl | ⟨hash, rfl⟩ <;> cases hx
  · have hsnap : snapshot = c.snapshot := by
      rcases hmsg with rfl | rfl | ⟨hash, rfl⟩ <;> cases hx <;> rfl
    rw [hsnap, Core.capture, take_length]
    exact h

/-- **Sections respect the cuts.** -/
theorem cutDiscipline : Discipline (H := H) CutOrder HistContained CutSettled where
  good hm h := h.move hm
  mono hm _ h := h.mono (hist_move hm)
  settled hm h y hy := by
    cases hm with
    | relayed op via hnews =>
      rw [mem_singleton.mp hy]
      exact cutSettled_op rfl
    | authored ts w =>
      rw [mem_singleton.mp hy]
      exact cutSettled_op rfl
    | captured msg hmsg =>
      rw [mem_singleton.mp hy]
      exact cutSettled_captured h hmsg
    | quiet => cases hy
    | ignored => cases hy
    | merged => cases hy
    | compacted => cases hy
  fresh hm y hy := by
    intro x hx p snapshot hxop hyfull
    cases hm with
    | relayed op via hnews =>
      rw [mem_singleton.mp hy] at hyfull
      cases hyfull
    | authored ts w =>
      rw [mem_singleton.mp hy] at hyfull
      cases hyfull
    | captured msg hmsg =>
      -- what is in the mutation order now precedes the capture
      rw [mem_singleton.mp hy]
      exact (List.getElem?_eq_some_iff.mp (hx.op p.1 p.2 hxop)).1
    | quiet => cases hy
    | ignored => cases hy
    | merged => cases hy
    | compacted => cases hy
  captured hmsg y p snapshot hx := by
    rcases hmsg with rfl | rfl | ⟨hash, rfl⟩ <;> cases hx

/-! ## §3. Adopting a full state. -/

/-- The op of epoch `e` in a message. -/
def Outgoing.opOf? (e : Epoch) (x : Outgoing H) : Option CrdtOp :=
  x.op?.bind fun p => if p.1 = e then some p.2 else none

/-- A client that adopts a full state and applies the ops that follow it on its
stream, dropping those of other epochs. -/
def adoptThenApply (snapshot : StateSnapshot) (post : List (Outgoing H)) : CrdtState :=
  (post.filterMap (Outgoing.opOf? snapshot.epoch)).foldl apply snapshot.state

/-- **Snapshot cut consistency**, in every interleaving of the server's tasks where
no op is pushed to a connection ahead of a full state that another task captured
before the op was produced.  For every full state on a connection's stream: the
ops ahead of it were produced before its capture; it contains every op produced
before its capture; and whoever adopts it and applies what follows has taken
account of every op of that epoch that was produced before the capture or sent on
the stream. -/
theorem snapshot_cut_consistent [DecidableEq H] (digest : StateView → H) (base : StateSnapshot)
    (s : Shared H) (hr : Reach (Shared.step digest) (Shared.NoOvertaking CutOrder) (.init base) s)
    (n : ConnId) (pre post : List (Outgoing H)) (full : Outgoing H) (snapshot : StateSnapshot)
    (hout : s.out n = pre ++ full :: post) (hfull : full.full? = some snapshot) :
    (∀ x ∈ pre, ∀ e op, x.op? = some (e, op) → x.point < full.point) ∧
      (∀ e op, Mutated.op e op ∈ s.core.hist.take full.point →
        Contains (s.core.hist.take full.point) snapshot e op) ∧
      (∀ op, Mutated.op snapshot.epoch op ∈ s.core.hist.take full.point →
        (adoptThenApply snapshot post).Covers op) ∧
      ∀ x ∈ s.out n, ∀ op, x.op? = some (snapshot.epoch, op) →
        (adoptThenApply snapshot post).Covers op := by
  have hord := Shared.Ordered.of_reach digest cutDiscipline
    (fun e op hop => by cases hop) hr
  have hsettled := hord.settledOut n
  have hpw := hord.out n
  rw [hout] at hsettled hpw
  obtain ⟨-, hcontains⟩ := (hsettled full (by simp)).full snapshot hfull
  have hpre : ∀ x ∈ pre, ∀ e op, x.op? = some (e, op) → x.point < full.point :=
    fun x hx e op hop => (pairwise_append.mp hpw).2.2 x hx full (mem_cons_self ..)
      (e, op) snapshot hop hfull
  have hold : ∀ op, Mutated.op snapshot.epoch op ∈ s.core.hist.take full.point →
      (adoptThenApply snapshot post).Covers op := by
    intro op hop
    refine covers_foldl_apply _ _ _ (.inl ?_)
    exact (hcontains _ op hop).covers
  refine ⟨hpre, hcontains, hold, fun x hx op hop => ?_⟩
  rw [hout] at hx
  rcases mem_append.mp hx with hx | hx
  · -- sent before the full state: produced before it, hence in it
    refine hold op (mem_of_getElem? (i := x.point) ?_)
    rw [getElem?_take_of_lt (hpre x hx _ op hop)]
    exact (hsettled x (mem_append_left _ hx)).op _ op hop
  · rcases mem_cons.mp hx with rfl | hx
    · -- the full state itself carries no op
      unfold Outgoing.full? at hfull
      unfold Outgoing.op? at hop
      split at hop
      next heq => rw [heq] at hfull; cases hfull
      · cases hop
    · refine covers_foldl_apply _ _ _ (.inr (mem_filterMap.mpr ⟨x, hx, ?_⟩))
      rw [Outgoing.opOf?, hop]
      exact if_pos rfl

def syncThenMark : List (ServerEvent Unit) :=
  [ .register none, .recv 0 (.syncStatus 0 none) false,
    .exec (.conn 0) (idleChoice []), .exec (.conn 0) (idleChoice []),
    .exec (.conn 0) (idleChoice []),
    .start (.conn 0) (.write (.map .watched (7 : Nat) true)),
    .exec (.conn 0) (idleChoice []), .exec (.conn 0) (idleChoice []),
    .exec (.conn 0) (idleChoice [0]), .exec (.conn 0) (idleChoice []) ]

theorem snapshot_cut_consistent_sync :
    ∃ s pre post full snapshot,
      run (Shared.step fun _ => ()) (.init ⟨0, .new⟩) syncThenMark = some s ∧
      s.out 0 = pre ++ full :: post ∧ full.full? = some snapshot ∧
      post.map Outgoing.op? = [some (0, markOp 1 7)] ∧
      (adoptThenApply snapshot post).Covers (markOp 1 7) := by
  have hsome : (run (Shared.step fun _ => ()) (.init ⟨0, .new⟩) syncThenMark).isSome = true := by
    decide
  have hrun := (Option.some_get hsome).symm
  refine ⟨_, [], _, _, _, hrun, rfl, rfl, rfl, ?_⟩
  exact (snapshot_cut_consistent _ ⟨0, .new⟩ _ (Shared.reach_of_single _ (.conn 0) syncThenMark
    (by decide) (fun _ _ => rfl) hrun) 0 [] _ _ _ rfl rfl).2.2.2 _ (mem_of_getElem?
    (i := 1) rfl) _ rfl

def overtakenSync : List (ServerEvent Unit) :=
  [ .register none, .recv 0 (.syncStatus 0 none) false, .exec (.conn 0) (idleChoice []),
    .start (.timer 0) (.write (.map .watched (7 : Nat) true)),
    .exec (.timer 0) (idleChoice []), .exec (.timer 0) (idleChoice []),
    .exec (.timer 0) (idleChoice [0]), .exec (.timer 0) (idleChoice []),
    .exec (.conn 0) (idleChoice []) ]

theorem snapshot_overtaken :
    ∃ s op full snapshot,
      run (Shared.step fun _ => ()) (.init ⟨0, .new⟩) overtakenSync = some s ∧
      s.out 0 = [op, full] ∧ op.op? = some (0, markOp 1 7) ∧ full.full? = some snapshot ∧
      snapshot.epoch = 0 ∧ full.point ≤ op.point ∧
      ((adoptThenApply (H := Unit) snapshot []).maps .watched).get (7 : Nat) = none := by
  have hsome : (run (Shared.step fun _ => ()) (.init ⟨0, .new⟩) overtakenSync).isSome = true := by
    decide
  exact ⟨_, _, _, ⟨0, .new⟩, (Option.some_get hsome).symm, rfl, rfl, rfl, rfl, le_rfl, by decide⟩

end DessPlay.Server
