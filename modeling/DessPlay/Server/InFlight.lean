/-
  DessPlay.Server.InFlight
  **WHAT A CRITICAL SECTION MAKES, AND WHO MAY OVERTAKE WHOM ON THE WAY OUT.**

  Messages are MADE under the lock, in the state's mutation order, and PUSHED
  after it, one connection at a time, by the task that made them.  Two tasks can
  push to one connection in the other order.
-/
import DessPlay.Server.Shared
import DessPlay.Lib.Machine

namespace DessPlay.Server

open Machine Crdts DessPlay.Core List Function CrdtState

/-! ## §1. The moves of a section. -/

namespace Core

variable {H : Type}

/-- The messages that carry no op: the full states and the view hash. -/
def Captured (c : Core) (msg : ServerControl H) : Prop :=
  msg = .stateMerge c.snapshot ∨ msg = .stateSnapshot c.snapshot ∨
    ∃ hash, msg = .stateHash c.epoch hash

inductive Move (c : Core) : List (Outgoing H) → Core → Prop
  /-- stamps, observations and the lock -/
  | quiet (c' : Core) (hstate : c'.state = c.state) (hepoch : c'.epoch = c.epoch)
      (hhist : c'.hist = c.hist) : Move c [] c'
  | relayed (op : CrdtOp) (viaDatagram : Bool)
      (hnews : (c.state.applyForBroadcast op viaDatagram).2 = true) :
      Move c [⟨.stateOp c.epoch op, c.hist.length, false⟩]
        { c with
          state := (c.state.applyForBroadcast op viaDatagram).1
          hist := c.hist ++ [.op c.epoch op] }
  | ignored (op : CrdtOp) (viaDatagram : Bool)
      (hold : (c.state.applyForBroadcast op viaDatagram).2 = false) :
      Move c [] { c with state := (c.state.applyForBroadcast op viaDatagram).1 }
  | authored (ts : SharedTimestamp) (w : Write) :
      Move c [(c.author ts w).2] (c.author (H := H) ts w).1
  | merged (snapshot : StateSnapshot) (hepoch : snapshot.epoch = c.epoch) :
      Move c []
        { c with
          state := c.state.merge snapshot.state
          hist := c.hist ++ [.merged snapshot] }
  | compacted (view : StateView) (chatKeep : Nat) (stamps : Nat → SharedTimestamp)
      (hview : c.state.view? = some view) (hepoch : c.epoch < Epoch.next c.epoch) :
      Move c []
        { c with
          state := rebuild view ActorId.SERVER chatKeep stamps
          epoch := Epoch.next c.epoch
          hist := c.hist ++ [.compacted c.state
            ⟨Epoch.next c.epoch, rebuild view ActorId.SERVER chatKeep stamps⟩] }
  | captured (msg : ServerControl H) (hmsg : c.Captured msg) : Move c [c.capture msg] c

inductive Moves : Core → List (Outgoing H) → Core → Prop
  | nil (c : Core) : Moves c [] c
  | cons {c c' c'' : Core} {outs outs' : List (Outgoing H)} (h : c.Move outs c')
      (h' : Moves c' outs' c'') : Moves c (outs ++ outs') c''

theorem Move.moves {c c' : Core} {outs : List (Outgoing H)} (h : c.Move outs c') :
    Moves c outs c' :=
  append_nil outs ▸ .cons h (.nil c')

theorem Moves.quiet {c c' : Core} (hstate : c'.state = c.state) (hepoch : c'.epoch = c.epoch)
    (hhist : c'.hist = c.hist) : Moves (H := H) c [] c' :=
  (Move.quiet c' hstate hepoch hhist).moves

theorem Moves.trans {c c' c'' : Core} {outs outs' : List (Outgoing H)} (h : Moves c outs c')
    (h' : Moves c' outs' c'') : Moves c (outs ++ outs') c'' := by
  induction h with
  | nil c => exact h'
  | cons hm _ ih => exact append_assoc _ _ _ ▸ .cons hm (ih h')

theorem moves_stampedWrite (c : Core) (now : Nat) (w : Write) :
    Moves (H := H) c [((c.stamp now).1.author (c.stamp now).2 w).2]
      ((c.stamp now).1.author (H := H) (c.stamp now).2 w).1 := by
  have hstamp : Moves (H := H) c [] (c.stamp now).1 := .quiet rfl rfl rfl
  exact hstamp.trans (Move.authored _ w).moves

theorem moves_authorAll (c : Core) (now : Nat → Nat) (ws : List Write) :
    Moves (H := H) c (c.authorAll now ws).2 (c.authorAll (H := H) now ws).1 := by
  induction ws generalizing c now with
  | nil => exact .nil c
  | cons w ws ih => exact (c.moves_stampedWrite (now 0) w).trans (ih _ _)

theorem moves_savePosition (c : Core) (before : Option Ed2kHash) (choice : Choice) :
    Moves (H := H) c (c.savePosition before choice).2.toList
      (c.savePosition (H := H) before choice).1 := by
  unfold savePosition
  split
  · split
    · exact .nil c
    · exact c.moves_stampedWrite _ _
  · exact .nil c

end Core

/-! ## §2. What a task still has to push. -/

/-- The message a piece of work carries along. -/
def Work.saved {H : Type} : Work H → List (Outgoing H)
  | .rebroadcast (some out) => [out]
  | _ => []

/-- Whether the connection is among the recipients, or still may be. -/
def Targets.mayReach (n : ConnId) : Targets → Bool
  | .all skip => skip ≠ some n
  | .conns ids => n ∈ ids

def Send.pendingFor {H : Type} (n : ConnId) (send : Send H) : List (Outgoing H) :=
  if send.reliable && send.targets.mayReach n then [send.out] else []

theorem Send.mem_pendingFor {H : Type} {n : ConnId} {send : Send H} {x : Outgoing H} :
    x ∈ send.pendingFor n ↔
      x = send.out ∧ send.reliable = true ∧ send.targets.mayReach n = true := by
  unfold Send.pendingFor
  split
  next h => simp_all
  next h => simp_all

/-- What may still go to a connection's reliable stream, in order. -/
def Task.pendingFor {H : Type} (n : ConnId) (task : Task H) : List (Outgoing H) :=
  task.sends.flatMap (Send.pendingFor n) ++ task.work.flatMap Work.saved

def Task.holds {H : Type} (task : Task H) : List (Outgoing H) :=
  task.sends.map (·.out) ++ task.work.flatMap Work.saved

def Done.made {H : Type} (done : Done H) : List (Outgoing H) :=
  Task.holds ⟨done.sends, done.work⟩

structure Core.Made {H : Type} (c : Core) (w : Work H) (done : Done H) : Prop where
  /-- what it makes comes before what it carried along -/
  moves : ∃ fresh, c.Moves fresh done.core ∧ done.made = fresh ++ w.saved
  /-- only a full state goes out before a carried message -/
  carried : w.saved = [] ∨ ∃ msg, c.Captured msg ∧ done.made = c.capture msg :: w.saved
  nodup : ∀ send ∈ done.sends, ∀ ids, send.targets = .conns ids → ids.Nodup
  tail : ∀ v ∈ done.work.tail, v.saved = []

namespace Core

variable {H : Type}

theorem nodup_broadcastOp (outs : List (Outgoing H)) (skip : Option ConnId)
    (transport : RelayTransport) :
    ∀ send ∈ outs.map (broadcastOp · skip transport), ∀ ids, send.targets = .conns ids →
      ids.Nodup := by
  intro send hsend ids hids
  obtain ⟨out, -, rfl⟩ := mem_map.mp hsend
  cases hids

theorem map_out_broadcastOp (outs : List (Outgoing H)) (skip : Option ConnId)
    (transport : RelayTransport) :
    (outs.map (broadcastOp · skip transport)).map (·.out) = outs := by
  rw [map_map]
  exact map_id outs

theorem Made.one {c c' : Core} {w : Work H} {send : Send H} {work : List (Work H)}
    (hm : c.Moves [send.out] c') (hw : w.saved = [])
    (hids : ∀ ids, send.targets = .conns ids → ids.Nodup) (hwork : ∀ v ∈ work, v.saved = []) :
    c.Made w ⟨c', [send], work⟩ where
  moves := ⟨_, hm, by
    rw [hw, Done.made, Task.holds, flatMap_eq_nil_iff.mpr hwork]
    rfl⟩
  carried := .inl hw
  nodup := by
    intro s hs
    rw [mem_singleton.mp hs]
    exact hids
  tail v hv := hwork v (mem_of_mem_tail hv)

theorem Made.none {c c' : Core} {w : Work H} {work : List (Work H)} (hm : Moves (H := H) c [] c')
    (hw : w.saved = []) (hwork : ∀ v ∈ work, v.saved = []) : c.Made w ⟨c', [], work⟩ where
  moves := ⟨_, hm, by
    rw [hw, Done.made, Task.holds, flatMap_eq_nil_iff.mpr hwork]
    rfl⟩
  carried := .inl hw
  nodup := by simp
  tail v hv := hwork v (mem_of_mem_tail hv)

theorem batch_made (c : Core) (w : Work H) (hw : w.saved = []) (now : Nat → Nat)
    (ws : List Write) : c.Made w (c.batch now ws) where
  moves := ⟨_, c.moves_authorAll now ws, by
    show ((c.authorAll now ws).2.map (broadcastOp · none .eager)).map (·.out) ++ [] = _
    rw [map_out_broadcastOp, hw]⟩
  carried := .inl hw
  nodup := nodup_broadcastOp _ none .eager
  tail v hv := by cases hv

theorem applyOp_made (c : Core) (sender : ConnId) (epoch : Epoch) (op : CrdtOp) (viaDatagram : Bool)
    (choice : Choice) :
    c.Made (.applyOp sender epoch op viaDatagram : Work H)
      (c.applyOp sender epoch op viaDatagram choice) := by
  unfold applyOp
  split
  · exact .none (.nil c) rfl (by simp)
  next hepoch =>
    rw [not_not] at hepoch
    subst hepoch
    simp only []
    split
    next hnews =>
      have hrelay := (Move.relayed (H := H) (c := c) op viaDatagram hnews).moves
      split
      next =>
        -- the file changed: the saved position follows the relayed op
        set c₁ : Core := { c with
          state := (c.state.applyForBroadcast op viaDatagram).1
          hist := c.hist ++ [.op c.epoch op] }
        set saved := c₁.savePosition (H := H) c.nowPlaying choice with hsaved
        refine ⟨⟨_, hrelay.trans (c₁.moves_savePosition c.nowPlaying choice), ?_⟩, .inl rfl, ?_,
          by simp⟩
        · show _ :: (saved.2.toList.map (broadcastOp · none .eager)).map (·.out) ++ [] = _
          rw [map_out_broadcastOp]
          rfl
        · intro send hsend
          rcases mem_cons.mp hsend with rfl | hsend
          · intro ids hids
            cases hids
          · exact nodup_broadcastOp _ none .eager send hsend
      · exact .one hrelay rfl (fun ids hids => by cases hids) (by simp)
    next hold =>
      exact .none (Move.ignored op viaDatagram (Bool.not_eq_true _ ▸ hold)).moves rfl (by simp)

theorem observeMerged_made (c : Core) (before : Option Ed2kHash) (choice : Choice) :
    c.Made (.observeMerged before : Work H) (c.observeMerged before choice) := by
  set c₁ : Core := { c.observe (some c.state.maxLwwTimestamp) with lock := none } with hc₁
  have hq : Moves (H := H) c [] c₁ := .quiet rfl rfl rfl
  unfold observeMerged
  simp only [← hc₁]
  split
  · exact .none hq rfl (by simp [Work.saved])
  · set saved := c₁.savePosition (H := H) before choice
    refine ⟨⟨_, hq.trans (c₁.moves_savePosition before choice), ?_⟩, .inl rfl, by simp, ?_⟩
    · show ([.rebroadcast saved.2, takeSeekAuthority] : List (Work H)).flatMap Work.saved = _
      cases saved.2 <;> rfl
    · simp [takeSeekAuthority, Work.saved]

theorem rebroadcast_made (c : Core) (saved : Option (Outgoing H)) :
    c.Made (.rebroadcast saved) ⟨c, broadcastControl (c.capture (.stateMerge c.snapshot)) none ::
      saved.toList.map (broadcastOp · none .eager), []⟩ := by
  have hmsg : c.Captured (.stateMerge c.snapshot : ServerControl H) := .inl rfl
  have hmade : Done.made (⟨c, broadcastControl (c.capture (.stateMerge c.snapshot)) none ::
      saved.toList.map (broadcastOp · none .eager), []⟩ : Done H) =
      c.capture (.stateMerge c.snapshot) :: (Work.rebroadcast saved).saved := by
    cases saved <;> rfl
  refine ⟨⟨_, (Move.captured _ hmsg).moves, hmade⟩, .inr ⟨_, hmsg, hmade⟩, ?_, by simp⟩
  intro send hsend
  rcases mem_cons.mp hsend with rfl | hsend
  · intro ids hids
    cases hids
  · exact nodup_broadcastOp _ none .eager send hsend

/-- **One piece of work**, as moves and messages. -/
theorem perform_made {c : Core} [DecidableEq H] (digest : StateView → H) (t : TaskId)
    (choice : Choice) {w : Work H} {done : Done H} (hd : c.perform digest t choice w = some done) :
    c.Made w done := by
  have hcap : ∀ msg : ServerControl H, c.Captured msg → Moves c [c.capture msg] c :=
    fun msg hmsg => (Move.captured msg hmsg).moves
  cases w with
  | observe ts =>
    cases hd
    refine .none (.quiet ?_ ?_ ?_) rfl (by simp) <;> cases ts <;> rfl
  | serverWrite w =>
    cases hd
    exact .none (.quiet rfl rfl rfl) rfl (by simp [Work.saved])
  | observeMerged before =>
    simp only [perform] at hd
    split at hd
    · cases hd; exact observeMerged_made c before choice
    · cases hd
  | applyOp sender epoch op via =>
    cases (whenFree_eq_some.mp hd).2
    exact applyOp_made c sender epoch op via choice
  | write ts w =>
    cases (whenFree_eq_some.mp hd).2
    exact .one (Move.authored ts w).moves rfl (fun ids hids => by cases hids) (by simp)
  | eof file =>
    cases (whenFree_eq_some.mp hd).2
    exact batch_made c _ rfl _ _
  | markWatched file watched =>
    cases (whenFree_eq_some.mp hd).2
    exact batch_made c _ rfl _ _
  | mergeState snapshot =>
    cases (whenFree_eq_some.mp hd).2
    unfold mergeState
    split
    · exact .none (.nil c) rfl (by simp)
    next hepoch =>
      have hm : Moves (H := H) c [] _ := (Move.merged snapshot (not_not.mp hepoch)).moves
      exact .none (hm.trans (.quiet rfl rfl rfl)) rfl (by simp [Work.saved])
  | compact chatKeep =>
    obtain ⟨view, hview, hd⟩ := Option.bind_eq_some_iff.mp (whenFree_eq_some.mp hd).2
    split at hd
    next hlt =>
      cases hd
      have hnext : c.epoch < Epoch.next c.epoch := by
        unfold Epoch.next
        rw [Nat.mod_eq_of_lt hlt]
        exact Nat.lt_succ_self _
      have hm : Moves (H := H) c [] _ := (Move.compacted view chatKeep
        (stampAt c.lastIssued choice.now) hview hnext).moves
      exact .none (hm.trans (.quiet rfl rfl rfl)) rfl (by simp [Work.saved])
    · cases hd
  | syncStatus n epoch hash =>
    cases (whenFree_eq_some.mp hd).2
    refine .one (hcap _ ?_) rfl (fun ids hids => ?_) (by simp)
    · split
      · exact .inl rfl
      · exact .inr (.inl rfl)
    · cases hids
      exact nodup_singleton n
  | requestMerge n =>
    cases (whenFree_eq_some.mp hd).2
    refine .one (hcap _ (.inr (.inl rfl))) rfl (fun ids hids => ?_) (by simp)
    cases hids
    exact nodup_singleton n
  | rebroadcast saved =>
    cases (whenFree_eq_some.mp hd).2
    exact rebroadcast_made c saved
  | compactSnapshot =>
    cases (whenFree_eq_some.mp hd).2
    exact .one (hcap _ (.inr (.inl rfl))) rfl (fun ids hids => by cases hids) (by simp)
  | stateHash =>
    cases (whenFree_eq_some.mp hd).2
    exact .one (hcap _ (.inr (.inr ⟨_, rfl⟩))) rfl (fun ids hids => by cases hids) (by simp)

end Core

/-! ## §3. An order between messages. -/

section

variable {H : Type}

/-- `R x y`: `x` may go out before `y`.  `Settled c x`: at `c`, all that `R` needs to
know about a message made earlier; `Good c`: what sections need to know about the
state.  Whatever a section makes may follow whatever was settled, and a full state
may go before anything. -/
structure Discipline (R : Outgoing H → Outgoing H → Prop) (Good : Core → Prop)
    (Settled : Core → Outgoing H → Prop) : Prop where
  good : ∀ {c c' : Core} {outs : List (Outgoing H)}, c.Move outs c' → Good c → Good c'
  mono : ∀ {c c' : Core} {outs : List (Outgoing H)}, c.Move outs c' →
    ∀ {x}, Settled c x → Settled c' x
  settled : ∀ {c c' : Core} {outs : List (Outgoing H)}, c.Move outs c' → Good c →
    ∀ y ∈ outs, Settled c' y
  fresh : ∀ {c c' : Core} {outs : List (Outgoing H)}, c.Move outs c' →
    ∀ y ∈ outs, ∀ x, Settled c x → R x y
  captured : ∀ {c : Core} {msg : ServerControl H}, c.Captured msg → ∀ y, R (c.capture msg) y

theorem Core.Move.outs_eq {c c' : Core} {outs : List (Outgoing H)} (h : c.Move outs c') :
    outs = [] ∨ ∃ y, outs = [y] := by
  cases h with
  | quiet => exact .inl rfl
  | relayed => exact .inr ⟨_, rfl⟩
  | ignored => exact .inl rfl
  | authored => exact .inr ⟨_, rfl⟩
  | merged => exact .inl rfl
  | compacted => exact .inl rfl
  | captured => exact .inr ⟨_, rfl⟩

variable {R : Outgoing H → Outgoing H → Prop} {Good : Core → Prop}
  {Settled : Core → Outgoing H → Prop}

theorem Discipline.moves (hD : Discipline R Good Settled) {c c' : Core} {outs : List (Outgoing H)}
    (h : c.Moves outs c') (hc : Good c) :
    Good c' ∧ (∀ x, Settled c x → Settled c' x) ∧ outs.Pairwise R ∧
      ∀ y ∈ outs, Settled c' y ∧ ∀ x, Settled c x → R x y := by
  induction h with
  | nil c => exact ⟨hc, fun x hx => hx, .nil, by simp⟩
  | @cons c c₁ c' outs outs' hm _ ih =>
    obtain ⟨hgood, hmono, hpw, hfresh⟩ := ih (hD.good hm hc)
    have hone : outs.Pairwise R := by
      rcases hm.outs_eq with rfl | ⟨y, rfl⟩
      · exact .nil
      · exact pairwise_singleton _ _
    refine ⟨hgood, fun x hx => hmono x (hD.mono hm hx), ?_, fun y hy => ?_⟩
    · exact pairwise_append.mpr ⟨hone, hpw, fun x hx y hy =>
        (hfresh y hy).2 x (hD.settled hm hc x hx)⟩
    · rcases mem_append.mp hy with hy | hy
      · exact ⟨hmono y (hD.settled hm hc y hy), hD.fresh hm y hy⟩
      · exact ⟨(hfresh y hy).1, fun x hx => (hfresh y hy).2 x (hD.mono hm hx)⟩

end

/-! ## §4. Every interleaving. -/

namespace Task

variable {H : Type}

theorem pendingFor_send (n : ConnId) (send : Send H) (rest : List (Send H)) (work : List (Work H)) :
    (⟨send :: rest, work⟩ : Task H).pendingFor n =
      send.pendingFor n ++ (⟨rest, work⟩ : Task H).pendingFor n := by
  simp [pendingFor]

theorem holds_send (send : Send H) (rest : List (Send H)) (work : List (Work H)) :
    (⟨send :: rest, work⟩ : Task H).holds = send.out :: (⟨rest, work⟩ : Task H).holds := rfl

theorem mem_holds {task : Task H} {n : ConnId} {x : Outgoing H} (h : x ∈ task.pendingFor n) :
    x ∈ task.holds := by
  rcases mem_append.mp h with h | h
  · refine mem_append_left _ ?_
    obtain ⟨send, hsend, hx⟩ := mem_flatMap.mp h
    exact mem_map.mpr ⟨send, hsend, (Send.mem_pendingFor.mp hx).1.symm⟩
  · exact mem_append_right _ h

end Task

def ServerEvent.task? {H : Type} : ServerEvent H → Option TaskId
  | .register _ => none
  | .drop _ => none
  | .recv n _ _ => some (.conn n)
  | .start t _ => some t
  | .exec t _ => some t

namespace Shared

variable {H : Type}

structure Ordered (R : Outgoing H → Outgoing H → Prop) (Good : Core → Prop)
    (Settled : Core → Outgoing H → Prop) (s : Shared H) : Prop where
  good : Good s.core
  settledOut : ∀ n, ∀ x ∈ s.out n, Settled s.core x
  settledTask : ∀ t, ∀ x ∈ (s.tasks t).holds, Settled s.core x
  out : ∀ n, (s.out n).Pairwise R
  /-- what is in flight may still follow what was pushed -/
  ahead : ∀ n, ∀ x ∈ s.out n, ∀ t, ∀ y ∈ (s.tasks t).pendingFor n, R x y
  inside : ∀ t, (s.tasks t).holds.Pairwise R
  nodup : ∀ t, ∀ send ∈ (s.tasks t).sends, ∀ ids, send.targets = .conns ids → ids.Nodup
  /-- only the next piece of work carries a message -/
  tail : ∀ t, ∀ v ∈ (s.tasks t).work.tail, v.saved = []
  live : s.live.Nodup ∧ ∀ n ∈ s.live, n < s.nextConn

/-- No other task still holds a message that had to go first. -/
def NoOvertaking (R : Outgoing H → Outgoing H → Prop) (s : Shared H) : ServerEvent H → Prop
  | .exec t _ => ∀ send rest work n ns, s.tasks t = ⟨send :: rest, work⟩ →
      send.reliable = true → send.targets = .conns (n :: ns) →
      ∀ t', t' ≠ t → ∀ y ∈ (s.tasks t').pendingFor n, R send.out y
  | _ => True

variable {R : Outgoing H → Outgoing H → Prop} {Good : Core → Prop}
  {Settled : Core → Outgoing H → Prop}

theorem Ordered.init {snapshot : StateSnapshot} (h : Good (init (H := H) snapshot).core) :
    Ordered R Good Settled (init (H := H) snapshot) where
  good := h
  settledOut n x hx := by cases hx
  settledTask t x hx := by cases hx
  out n := .nil
  ahead n x hx := by cases hx
  inside t := .nil
  nodup t send hsend := by cases hsend
  tail t v hv := by cases hv
  live := ⟨.nil, by simp [Shared.init]⟩

variable {s s' : Shared H}

/-- A step that leaves the state and the streams alone and gives one task less to
push. -/
theorem Ordered.shrink (h : Ordered R Good Settled s) {t : TaskId} {task : Task H}
    (hcore : s'.core = s.core) (hout : s'.out = s.out)
    (hlive : s'.live = s.live ∧ s'.nextConn = s.nextConn)
    (htasks : s'.tasks = update s.tasks t task)
    (hpending : ∀ n, ∀ x ∈ task.pendingFor n, x ∈ (s.tasks t).pendingFor n)
    (hholds : task.holds.Sublist (s.tasks t).holds)
    (hnodup : ∀ send ∈ task.sends, ∀ ids, send.targets = .conns ids → ids.Nodup)
    (htail : ∀ v ∈ task.work.tail, v.saved = []) : Ordered R Good Settled s' where
  good := hcore ▸ h.good
  settledOut n x hx := hcore ▸ h.settledOut n x (hout ▸ hx)
  settledTask := by
    rw [htasks, hcore]
    exact (forall_update_iff s.tasks fun _ task => ∀ x ∈ task.holds, Settled s.core x).mpr
      ⟨fun x hx => h.settledTask t x (hholds.subset hx), fun t' _ => h.settledTask t'⟩
  out n := hout ▸ h.out n
  ahead n x hx := by
    rw [hout] at hx
    rw [htasks]
    exact (forall_update_iff s.tasks fun _ task => ∀ y ∈ task.pendingFor n, R x y).mpr
      ⟨fun y hy => h.ahead n x hx t y (hpending n y hy), fun t' _ => h.ahead n x hx t'⟩
  inside := by
    rw [htasks]
    exact (forall_update_iff s.tasks fun _ task => task.holds.Pairwise R).mpr
      ⟨(h.inside t).sublist hholds, fun t' _ => h.inside t'⟩
  nodup := by
    rw [htasks]
    exact (forall_update_iff s.tasks fun _ task => ∀ send ∈ task.sends, ∀ ids,
      send.targets = .conns ids → ids.Nodup).mpr ⟨hnodup, fun t' _ => h.nodup t'⟩
  tail := by
    rw [htasks]
    exact (forall_update_iff s.tasks fun _ task => ∀ v ∈ task.work.tail, v.saved = []).mpr
      ⟨htail, fun t' _ => h.tail t'⟩
  live := by
    rw [hlive.1, hlive.2]
    exact h.live

/-- A message's handler and a timer's job start with nothing to push. -/
theorem saved_handler (s : Shared H) (n : ConnId) (viaDatagram : Bool) (msg : ServerControl H) :
    ∀ v ∈ s.handler n viaDatagram msg, v.saved = [] := by
  cases msg with
  | syncStatus epoch hash =>
    show ∀ v ∈ (if n ∈ s.syncSent then [] else [Work.syncStatus n epoch hash]), v.saved = []
    split <;> simp [Work.saved]
  | _ => simp [handler, Work.saved]

theorem Ordered.assign (h : Ordered R Good Settled s) {t : TaskId} {work : List (Work H)}
    (hcore : s'.core = s.core) (hout : s'.out = s.out)
    (hlive : s'.live = s.live ∧ s'.nextConn = s.nextConn)
    (htasks : s'.tasks = update s.tasks t ⟨[], work⟩) (hwork : ∀ v ∈ work, v.saved = []) :
    Ordered R Good Settled s' := by
  have hnil : work.flatMap Work.saved = [] := flatMap_eq_nil_iff.mpr hwork
  refine h.shrink hcore hout hlive htasks (fun n x hx => ?_) ?_ (by simp)
    fun v hv => hwork v (mem_of_mem_tail hv)
  · have hempty : (⟨[], work⟩ : Task H).pendingFor n = [] := hnil
    rw [hempty] at hx
    cases hx
  · have hempty : (⟨[], work⟩ : Task H).holds = [] := hnil
    rw [hempty]
    exact nil_sublist _

theorem Ordered.work (hD : Discipline R Good Settled) (h : Ordered R Good Settled s) {t : TaskId}
    {w : Work H} {ws : List (Work H)} (htask : s.tasks t = ⟨[], w :: ws⟩) {done : Done H}
    (hmade : s.core.Made w done) :
    Ordered R Good Settled
      ({ s with core := done.core }.setTask t ⟨done.sends, done.work ++ ws⟩) := by
  obtain ⟨fresh, hmoves, heq⟩ := hmade.moves
  obtain ⟨hgood, hmono, hpw, hfresh⟩ := hD.moves hmoves h.good
  have hws : ∀ v ∈ ws, v.saved = [] := by
    have htail := h.tail t
    rwa [htask] at htail
  have hholds : (⟨done.sends, done.work ++ ws⟩ : Task H).holds = done.made := by
    simp [Task.holds, Done.made, flatMap_eq_nil_iff.mpr hws]
  have hsaved : w.saved.Sublist (s.tasks t).holds := by
    rw [htask]
    exact sublist_append_left _ _
  have hpending : ∀ n, ∀ y ∈ w.saved, y ∈ (s.tasks t).pendingFor n := by
    intro n y hy
    rw [htask]
    exact mem_append_right _ (mem_flatMap.mpr ⟨w, mem_cons_self .., hy⟩)
  refine ⟨hgood, fun n x hx => hmono x (h.settledOut n x hx), ?_, h.out, ?_, ?_, ?_, ?_, h.live⟩
  · refine (forall_update_iff s.tasks fun _ task => ∀ x ∈ task.holds,
      Settled done.core x).mpr ⟨fun x hx => ?_, fun t' _ x hx => hmono x (h.settledTask t' x hx)⟩
    rw [hholds, heq] at hx
    rcases mem_append.mp hx with hx | hx
    · exact (hfresh x hx).1
    · exact hmono x (h.settledTask t x (hsaved.subset hx))
  · intro n x hx
    refine (forall_update_iff s.tasks fun _ task => ∀ y ∈ task.pendingFor n, R x y).mpr
      ⟨fun y hy => ?_, fun t' _ => h.ahead n x hx t'⟩
    have hy' := Task.mem_holds hy
    rw [hholds, heq] at hy'
    rcases mem_append.mp hy' with hy' | hy'
    · exact (hfresh y hy').2 x (h.settledOut n x hx)
    · exact h.ahead n x hx t y (hpending n y hy')
  · refine (forall_update_iff s.tasks fun _ task => task.holds.Pairwise R).mpr
      ⟨?_, fun t' _ => h.inside t'⟩
    rw [hholds]
    rcases hmade.carried with hnone | ⟨msg, hmsg, hcarried⟩
    · rw [heq, hnone, append_nil]
      exact hpw
    · rw [hcarried]
      exact pairwise_cons.mpr ⟨fun y _ => hD.captured hmsg y, (h.inside t).sublist hsaved⟩
  · exact (forall_update_iff s.tasks fun _ task => ∀ send ∈ task.sends, ∀ ids,
      send.targets = .conns ids → ids.Nodup).mpr ⟨hmade.nodup, fun t' _ => h.nodup t'⟩
  · refine (forall_update_iff s.tasks fun _ task => ∀ v ∈ task.work.tail,
      v.saved = []).mpr ⟨fun v hv => ?_, fun t' _ => h.tail t'⟩
    rcases hdone : done.work with _ | ⟨v₀, vs⟩
    · rw [hdone] at hv
      exact hws v (mem_of_mem_tail hv)
    · rw [hdone] at hv
      rcases mem_append.mp hv with hv | hv
      · exact hmade.tail v (hdone ▸ hv)
      · exact hws v hv

/-- A message gets its recipients, or loses one. -/
theorem Ordered.retarget (h : Ordered R Good Settled s) {t : TaskId} {send : Send H}
    {rest : List (Send H)} {work : List (Work H)} {ns : List ConnId}
    (htask : s.tasks t = ⟨send :: rest, work⟩) (hns : ns.Nodup)
    (hreach : ∀ n ∈ ns, send.targets.mayReach n = true) (hcore : s'.core = s.core)
    (hout : s'.out = s.out) (hlive : s'.live = s.live ∧ s'.nextConn = s.nextConn)
    (htasks : s'.tasks = update s.tasks t ⟨{ send with targets := .conns ns } :: rest, work⟩) :
    Ordered R Good Settled s' := by
  have hnodup := h.nodup t
  have htail := h.tail t
  rw [htask] at hnodup htail
  refine h.shrink hcore hout hlive htasks (fun n x hx => ?_) (htask ▸ List.Sublist.refl _)
    (fun send' hsend' ids hids => ?_) htail
  · rw [htask, Task.pendingFor_send]
    rw [Task.pendingFor_send] at hx
    rcases mem_append.mp hx with hx | hx
    · obtain ⟨rfl, hrel, hin⟩ := Send.mem_pendingFor.mp hx
      exact mem_append_left _
        (Send.mem_pendingFor.mpr ⟨rfl, hrel, hreach n (of_decide_eq_true hin)⟩)
    · exact mem_append_right _ hx
  · rcases mem_cons.mp hsend' with rfl | hsend'
    · cases hids
      exact hns
    · exact hnodup send' (mem_cons_of_mem _ hsend') ids hids

theorem Ordered.push (h : Ordered R Good Settled s) {t : TaskId} {send : Send H}
    {rest : List (Send H)} {work : List (Work H)} {n : ConnId} {ns : List ConnId}
    (htask : s.tasks t = ⟨send :: rest, work⟩) (hto : send.targets = .conns (n :: ns))
    (hfirst : send.reliable = true → ∀ t', t' ≠ t → ∀ y ∈ (s.tasks t').pendingFor n, R send.out y) :
    Ordered R Good Settled
      ((s.push n send).setTask t ⟨{ send with targets := .conns ns } :: rest, work⟩) := by
  set task : Task H := ⟨{ send with targets := .conns ns } :: rest, work⟩ with htask'
  have hids : (n :: ns).Nodup := by
    have hnodup := h.nodup t
    rw [htask] at hnodup
    exact hnodup send (mem_cons_self ..) _ hto
  -- the task has one recipient less
  have hreach : ∀ m ∈ ns, send.targets.mayReach m = true := by
    intro m hm
    rw [hto]
    exact decide_eq_true (mem_cons_of_mem _ hm)
  by_cases hrel : send.reliable = true
  · have hshrunk : Ordered R Good Settled (s.setTask t task) :=
      h.retarget htask (nodup_cons.mp hids).2 hreach rfl rfl ⟨rfl, rfl⟩ rfl
    have hself : send.out ∈ (s.tasks t).holds := by
      rw [htask]
      exact mem_cons_self ..
    have hnew : ∀ t', ∀ y ∈ ((s.setTask t task).tasks t').pendingFor n, R send.out y := by
      refine (forall_update_iff s.tasks fun _ task => ∀ y ∈ task.pendingFor n,
        R send.out y).mpr ⟨fun y hy => ?_, fun t' ht' => hfirst hrel t' ht'⟩
      rw [htask', Task.pendingFor_send] at hy
      rcases mem_append.mp hy with hy | hy
      · -- the message itself does not go to the connection again
        have hagain := (Send.mem_pendingFor.mp hy).2.2
        exact absurd (of_decide_eq_true hagain) (nodup_cons.mp hids).1
      · have hin := h.inside t
        rw [htask, Task.holds_send] at hin
        exact (pairwise_cons.mp hin).1 y (Task.mem_holds hy)
    have hout : (s.push n send).out = update s.out n (s.out n ++ [send.out]) := by
      simp [Shared.push, hrel]
    refine ⟨h.good, ?_, hshrunk.settledTask, ?_, ?_, hshrunk.inside, hshrunk.nodup,
      hshrunk.tail, h.live⟩
    · show ∀ m, ∀ x ∈ (s.push n send).out m, Settled s.core x
      rw [hout]
      refine (forall_update_iff s.out fun _ l => ∀ x ∈ l, Settled s.core x).mpr
        ⟨fun x hx => ?_, fun m _ => h.settledOut m⟩
      rcases mem_append.mp hx with hx | hx
      · exact h.settledOut n x hx
      · rw [mem_singleton.mp hx]
        exact h.settledTask t _ hself
    · show ∀ m, ((s.push n send).out m).Pairwise R
      rw [hout]
      refine (forall_update_iff s.out fun _ l => l.Pairwise R).mpr
        ⟨?_, fun m _ => h.out m⟩
      refine pairwise_append.mpr ⟨h.out n, pairwise_singleton _ _, fun x hx y hy => ?_⟩
      rw [mem_singleton.mp hy]
      refine h.ahead n x hx t _ ?_
      rw [htask, Task.pendingFor_send]
      exact mem_append_left _ (Send.mem_pendingFor.mpr ⟨rfl, hrel, by simp [hto, Targets.mayReach]⟩)
    · show ∀ m, ∀ x ∈ (s.push n send).out m, ∀ t',
        ∀ y ∈ ((s.setTask t task).tasks t').pendingFor m, R x y
      rw [hout]
      refine (forall_update_iff s.out fun m l => ∀ x ∈ l, ∀ t',
        ∀ y ∈ ((s.setTask t task).tasks t').pendingFor m, R x y).mpr
        ⟨fun x hx => ?_, fun m _ => hshrunk.ahead m⟩
      rcases mem_append.mp hx with hx | hx
      · exact hshrunk.ahead n x hx
      · rw [mem_singleton.mp hx]
        exact hnew
  · have hout : (s.push n send).out = s.out := by simp [Shared.push, hrel]
    exact h.retarget htask (nodup_cons.mp hids).2 hreach rfl hout ⟨rfl, rfl⟩ rfl

section

variable [DecidableEq H] (digest : StateView → H)

/-- **One step**, by a task that overtakes nobody. -/
theorem Ordered.step (hD : Discipline R Good Settled) {s s' : Shared H}
    (h : Ordered R Good Settled s) (e : ServerEvent H) (hok : s.NoOvertaking R e)
    (hs : s.step digest e = some s') : Ordered R Good Settled s' := by
  cases Step.of_step digest hs with
  | register supersedes =>
    refine { h with live := ⟨?_, fun n hn => ?_⟩ }
    · refine nodup_append.mpr ⟨h.live.1.filter _, nodup_singleton _, ?_⟩
      intro a ha b hb
      rw [mem_singleton.mp hb]
      exact (h.live.2 a (mem_filter.mp ha).1).ne
    · rcases mem_append.mp hn with hn | hn
      · exact (h.live.2 n (mem_filter.mp hn).1).trans (Nat.lt_succ_self _)
      · rw [mem_singleton.mp hn]
        exact Nat.lt_succ_self _
  | drop n =>
    exact { h with
      live := ⟨h.live.1.filter _, fun m hm => h.live.2 m (mem_filter.mp hm).1⟩ }
  | recv n msg via hidle hn =>
    exact h.assign rfl rfl ⟨rfl, rfl⟩ rfl (s.saved_handler n via msg)
  | start t job hidle =>
    refine h.assign rfl rfl ⟨rfl, rfl⟩ rfl ?_
    cases job <;> simp [Job.work, Work.saved]
  | work t choice w ws done htask hdone =>
    exact h.work hD htask (Core.perform_made digest t choice hdone)
  | resolve t choice send rest work skip htask hall hconns =>
    refine h.retarget htask (hconns.nodup_iff.mpr (h.live.1.filter _)) (fun n hn => ?_)
      rfl rfl ⟨rfl, rfl⟩ rfl
    rw [hall]
    exact decide_eq_true (of_decide_eq_true (mem_filter.mp (hconns.mem_iff.mp hn)).2).symm
  | finish t choice send rest work htask hnone =>
    refine h.shrink rfl rfl ⟨rfl, rfl⟩ rfl (fun n x hx => ?_) ?_ ?_ ?_
    · rw [htask, Task.pendingFor_send]
      exact mem_append_right _ hx
    · rw [htask, Task.holds_send]
      exact sublist_cons_self _ _
    · have hold := h.nodup t
      rw [htask] at hold
      exact fun send' hsend' => hold send' (mem_cons_of_mem _ hsend')
    · have hold := h.tail t
      rwa [htask] at hold
  | push t choice send rest work n ns htask hto =>
    exact h.push htask hto fun hrel => hok send rest work n ns htask hrel hto

/-- **Every run** in which nobody is overtaken keeps every stream in order. -/
theorem Ordered.of_reach (hD : Discipline R Good Settled) {snapshot : StateSnapshot}
    (h₀ : Good (Shared.init (H := H) snapshot).core) {s : Shared H}
    (hr : Reach (Shared.step digest) (NoOvertaking R) (.init snapshot) s) :
    Ordered R Good Settled s :=
  hr.invariant (.init h₀) fun _ e _ h hok hs => h.step digest hD e hok hs

theorem idle_step {s s' : Shared H} {t : TaskId} (hidle : ∀ t', t' ≠ t → s.tasks t' = ⟨[], []⟩)
    {e : ServerEvent H} (he : ∀ t' ∈ e.task?, t' = t) (hs : s.step digest e = some s') :
    s.NoOvertaking R e ∧ ∀ t', t' ≠ t → s'.tasks t' = ⟨[], []⟩ := by
  have hset : ∀ t₁ (task : Task H), t₁ = t → ∀ t', t' ≠ t →
      update s.tasks t₁ task t' = ⟨[], []⟩ := by
    intro t₁ task ht₁ t' ht'
    rw [update_of_ne (ht₁ ▸ ht')]
    exact hidle t' ht'
  have hexec : ∀ choice, e = .exec t choice → s.NoOvertaking R e := by
    rintro choice rfl send rest work n ns - - - t' ht' y hy
    rw [hidle t' ht'] at hy
    cases hy
  cases Step.of_step digest hs with
  | register supersedes => exact ⟨trivial, hidle⟩
  | drop n => exact ⟨trivial, hidle⟩
  | recv n msg via => exact ⟨trivial, hset _ _ (he _ rfl)⟩
  | start t' job => exact ⟨trivial, hset _ _ (he _ rfl)⟩
  | work t' choice =>
    obtain rfl := he t' rfl
    exact ⟨hexec choice rfl, hset _ _ rfl⟩
  | resolve t' choice =>
    obtain rfl := he t' rfl
    exact ⟨hexec choice rfl, hset _ _ rfl⟩
  | finish t' choice =>
    obtain rfl := he t' rfl
    exact ⟨hexec choice rfl, hset _ _ rfl⟩
  | push t' choice =>
    obtain rfl := he t' rfl
    exact ⟨hexec choice rfl, hset _ _ rfl⟩

/-- A run of a single task overtakes nobody. -/
theorem reach_of_single (t : TaskId) (es : List (ServerEvent H))
    (hes : ∀ e ∈ es, ∀ t' ∈ e.task?, t' = t) {s₀ s : Shared H}
    (hidle : ∀ t', t' ≠ t → s₀.tasks t' = ⟨[], []⟩) (h : run (step digest) s₀ es = some s) :
    Reach (step digest) (NoOvertaking R) s₀ s := by
  induction es generalizing s₀ with
  | nil => cases h; exact .refl
  | cons e es ih =>
    obtain ⟨s₁, hs₁, hrun⟩ := Option.bind_eq_some_iff.mp h
    obtain ⟨hok, hidle₁⟩ := idle_step (R := R) digest hidle (hes e (mem_cons_self ..)) hs₁
    exact Reach.trans (.step .refl hok hs₁)
      (ih (fun e he => hes e (mem_cons_of_mem _ he)) hidle₁ hrun)

end

end Shared

end DessPlay.Server
