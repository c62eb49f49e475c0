/-
  DessPlay.Sync.Stamps
  **THE SYNC ACTOR'S LAMPORT FLOOR.**

  `lastIssued` is raised by three mechanisms: the stamps themselves, `observe`
  for every op taken in, and `maxLwwTimestamp` after every merge, adoption and
  load.  Together they keep one invariant (`Floor`): no timestamp in the replica
  or in the offline buffer lies above `lastIssued`.  A message the actor DROPS
  (an op or a full state of another epoch) raises nothing.
-/
import DessPlay.Sync.Actor
import DessPlay.Core.Lamport
import DessPlay.Lib.Machine

namespace DessPlay.Sync

open Machine Crdts DessPlay.Core List CrdtState

/-! ## §1. The floor. -/

namespace SyncActor

variable {H : Type}

def offlineOps (a : SyncActor) : List CrdtOp := a.offlineBuffer ++ a.offlinePosition.toList

structure Floor (a : SyncActor) : Prop where
  state : a.state.Below a.lastIssued
  offline : ∀ op ∈ a.offlineOps, ∀ t ∈ op.lwwTimestamp, t ≤ a.lastIssued

def Raises (a a' : SyncActor) : Prop := a'.Floor ∧ a.lastIssued ≤ a'.lastIssued

theorem Floor.start (user : UserId) (actor : ActorId) (initial : Option StateSnapshot) :
    (SyncActor.start user actor initial).Floor where
  state := below_maxLwwTimestamp _
  offline op hop := by cases hop

variable {a : SyncActor}

theorem Floor.congr {a' : SyncActor} (h : a.Floor) (hs : a'.state = a.state)
    (hl : a.lastIssued ≤ a'.lastIssued) (hb : a'.offlineOps = a.offlineOps) : a'.Floor where
  state := hs ▸ h.state.mono hl
  offline op hop t ht := (h.offline op (hb ▸ hop) t ht).trans hl

theorem Raises.refl (h : a.Floor) : a.Raises a := ⟨h, le_rfl⟩

theorem lastIssued_lt_nextStamp (a : SyncActor) (clock : Nat) : a.lastIssued < a.nextStamp clock :=
  lt_of_lt_of_le (Nat.lt_succ_self _) (le_max_right _ _)

theorem lastIssued_le_observe (a : SyncActor) (ts : Option SharedTimestamp) :
    a.lastIssued ≤ (a.observe ts).lastIssued := by
  cases ts with
  | none => exact le_rfl
  | some t => exact le_max_left _ _

theorem le_lastIssued_observe (a : SyncActor) {ts : Option SharedTimestamp} {t : SharedTimestamp}
    (h : t ∈ ts) : t ≤ (a.observe ts).lastIssued := by
  cases h
  exact le_max_right _ _

theorem observe_eq (a : SyncActor) (ts : Option SharedTimestamp) :
    a.observe ts = { a with lastIssued := (a.observe ts).lastIssued } := by
  cases ts <;> rfl

/-! ## §2. Local mutations. -/

theorem Floor.route (h : a.Floor) {op : CrdtOp} (hop : ∀ t ∈ op.lwwTimestamp, t ≤ a.lastIssued)
    (r : Reading) (isPosition : Bool) : a.Raises (a.route (H := H) r isPosition op).1 := by
  have hwait : ∀ o ∈ a.offlineOps ++ [op], ∀ t ∈ o.lwwTimestamp, t ≤ a.lastIssued := by
    intro o ho
    rcases mem_append.mp ho with ho | ho
    · exact h.offline o ho
    · rwa [mem_singleton.mp ho]
  rcases a.route_cases (H := H) r isPosition op with ⟨-, last, heq⟩ | ⟨-, -, heq⟩ | ⟨-, -, heq⟩ |
    ⟨-, -, heq⟩ <;> rw [heq]
  · exact ⟨h.congr rfl le_rfl rfl, le_rfl⟩
  · exact .refl h
  · refine ⟨⟨h.state, fun o ho => hwait o ?_⟩, le_rfl⟩
    rcases mem_append.mp ho with ho | ho
    · exact mem_append_left _ (mem_append_left _ ho)
    · exact mem_append_right _ ho
  · refine ⟨⟨h.state, fun o ho => hwait o ?_⟩, le_rfl⟩
    simp only [offlineOps, append_assoc, mem_append] at ho ⊢
    tauto

def stampOf (a : SyncActor) (r : Reading) (mutation : Mutation) : Option SharedTimestamp :=
  if (a.graceLock r.peers mutation).isSome then none else some (a.nextStamp r.clock)

theorem Floor.mutate (h : a.Floor) (r : Reading) (mutation : Mutation) :
    a.Raises (a.mutate (H := H) r mutation).actor ∧
      ∀ t ∈ a.stampOf r mutation, t ≤ (a.mutate (H := H) r mutation).actor.lastIssued := by
  have hlt := (a.lastIssued_lt_nextStamp r.clock).le
  rcases a.mutate_cases (H := H) r mutation with ⟨refusal, grace, hlock, heq⟩ | ⟨hlock, heq⟩ |
    ⟨hlock, w, n, -, hn, heq⟩ <;> rw [heq] <;> unfold stampOf <;> rw [hlock]
  · exact ⟨⟨h.congr rfl le_rfl rfl, le_rfl⟩, fun t ht => by cases ht⟩
  · exact ⟨⟨h.congr rfl hlt rfl, hlt⟩, fun t ht => by cases ht; exact le_rfl⟩
  · have hop : ∀ t ∈ (a.state.writeOp a.actor (a.nextStamp r.clock) w).lwwTimestamp, t ≤ n :=
      fun t ht => (lwwTimestamp_writeOp t ht).symm ▸ hn
    -- the actor with the write applied, before the op is routed
    have hb : Floor { a with
        lastIssued := n
        state := a.state.apply (a.state.writeOp a.actor (a.nextStamp r.clock) w) } :=
      ⟨(h.state.mono (hlt.trans hn)).apply hop,
        fun o ho t ht => (h.offline o ho t ht).trans (hlt.trans hn)⟩
    obtain ⟨hfloor, hle⟩ := hb.route (H := H) hop r mutation.isPosition
    exact ⟨⟨hfloor.congr rfl le_rfl rfl, (hlt.trans hn).trans hle⟩,
      fun t ht => by cases ht; exact hn.trans hle⟩

/-! ## §3. What the server sends. -/

theorem Floor.synced (h : a.Floor) :
    (a.synced (H := H)).1.Floor ∧ (a.synced (H := H)).1.lastIssued = a.lastIssued := by
  unfold SyncActor.synced
  simp only []
  split
  · exact ⟨h.congr rfl le_rfl rfl, rfl⟩
  · refine ⟨⟨?_, fun op hop => by cases hop⟩, rfl⟩
    refine Below.foldl_apply (Below.foldl_apply h.state fun op hop => ?_)
      fun op hop => ?_
    · exact h.offline op (mem_append_left _ hop)
    · exact h.offline op (mem_append_right _ hop)
  · exact ⟨h.congr rfl le_rfl rfl, rfl⟩

theorem Floor.landed (h : a.Floor) (snapshot : StateSnapshot) :
    a.Raises (a.landed (H := H) snapshot).actor ∧
      snapshot.state.maxLwwTimestamp ≤ (a.landed (H := H) snapshot).actor.lastIssued := by
  have hb : Floor { a with
      epoch := snapshot.epoch
      state := snapshot.state
      lastIssued := max a.lastIssued snapshot.state.maxLwwTimestamp
      hashMismatches := 0 } :=
    ⟨(below_maxLwwTimestamp _).mono (le_max_right _ _),
      fun o ho t ht => (h.offline o ho t ht).trans (le_max_left _ _)⟩
  obtain ⟨hfloor, heq⟩ := hb.synced (H := H)
  exact ⟨⟨hfloor.congr rfl le_rfl rfl, (le_max_left _ _).trans heq.ge⟩,
    (le_max_right _ _).trans heq.ge⟩

/-- The message is taken in as it stands: an op of our epoch, a full state adopted
wholesale.  A merge is not: what it leaves is in the replica. -/
def adopts (a : SyncActor) : ServerControl H → Bool
  | .stateOp epoch _ => epoch = a.epoch
  | .stateMerge snapshot =>
    snapshot.epoch ≠ a.epoch ∧ (a.epoch < snapshot.epoch ∨ a.link = .awaitingSync)
  | .stateSnapshot snapshot => ¬ (snapshot.epoch < a.epoch ∧ a.link ≠ .awaitingSync)
  | _ => false

theorem Floor.remoteOp (h : a.Floor) (epoch : Epoch) (op : CrdtOp) (viaDatagram : Bool) :
    a.Raises (a.remoteOp (H := H) epoch op viaDatagram).actor ∧
      (epoch = a.epoch → ∀ t ∈ op.lwwTimestamp,
        t ≤ (a.remoteOp (H := H) epoch op viaDatagram).actor.lastIssued) := by
  unfold SyncActor.remoteOp
  by_cases hepoch : epoch = a.epoch
  · rw [if_neg (not_not.mpr hepoch)]
    have hle := a.lastIssued_le_observe op.lwwTimestamp
    have hop : ∀ t ∈ op.lwwTimestamp, t ≤ (a.observe op.lwwTimestamp).lastIssued :=
      fun t ht => a.le_lastIssued_observe ht
    have hstate : (a.observe op.lwwTimestamp).state = a.state := by rw [observe_eq]
    have hbelow := h.state.mono hle
    refine ⟨⟨⟨?_, ?_⟩, hle⟩, fun _ => hop⟩
    · simp only [changed, hstate]
      split
      · rcases a.state.applyIfOrderly_spec op with ⟨-, heq⟩ | ⟨-, heq⟩ <;> rw [heq]
        · exact hbelow.apply hop
        · exact hbelow
      · exact hbelow.apply hop
    · intro o ho t ht
      refine (h.offline o ?_ t ht).trans hle
      rw [observe_eq] at ho
      exact ho
  · rw [if_pos hepoch]
    exact ⟨.refl h, fun heq => absurd heq hepoch⟩

theorem Floor.remote (h : a.Floor) [DecidableEq H] (digest : StateView → H) (msg : ServerControl H)
    (viaDatagram : Bool) :
    a.Raises (a.remote digest msg viaDatagram).actor ∧
      (a.adopts msg = true → ∀ t, msg.HasStamp t →
        t ≤ (a.remote digest msg viaDatagram).actor.lastIssued) := by
  have hfull : ∀ snapshot : StateSnapshot, ∀ t, snapshot.state.HasStamp t →
      t ≤ (a.landed (H := H) snapshot).actor.lastIssued := fun snapshot t ht =>
    (below_iff.mp (below_maxLwwTimestamp _) t ht).trans
      (h.landed snapshot).2
  cases msg with
  | stateOp epoch op =>
    obtain ⟨hraise, hop⟩ := h.remoteOp (H := H) epoch op viaDatagram
    exact ⟨hraise, fun hadopt t ht => hop (of_decide_eq_true hadopt) t ht⟩
  | stateMerge snapshot =>
    show a.Raises (a.remoteMerge (H := H) snapshot).actor ∧ (_ → ∀ t, _ →
      t ≤ (a.remoteMerge (H := H) snapshot).actor.lastIssued)
    unfold remoteMerge
    split
    next heq =>
      refine ⟨(h.landed _).1, fun hadopt => ?_⟩
      exact absurd heq (of_decide_eq_true hadopt).1
    · split
      · exact ⟨(h.landed _).1, fun _ => hfull snapshot⟩
      next hnew =>
        split
        · exact ⟨(h.landed _).1, fun _ => hfull snapshot⟩
        next hlink =>
          refine ⟨.refl h, fun hadopt => ?_⟩
          exact absurd (of_decide_eq_true hadopt).2 (not_or.mpr ⟨hnew, hlink⟩)
  | stateSnapshot snapshot =>
    show a.Raises (a.remoteSnapshot (H := H) snapshot).actor ∧ (_ → ∀ t, _ →
      t ≤ (a.remoteSnapshot (H := H) snapshot).actor.lastIssued)
    unfold remoteSnapshot
    split
    next hstale => exact ⟨.refl h, fun hadopt => absurd hstale (of_decide_eq_true hadopt)⟩
    · exact ⟨(h.landed _).1, fun _ => hfull snapshot⟩
  | stateHash epoch hash =>
    refine ⟨?_, fun hadopt => absurd hadopt (by simp [adopts])⟩
    show a.Raises (a.remoteHash digest epoch hash).actor
    unfold remoteHash
    split
    · exact .refl h
    · split
      · split <;> exact ⟨h.congr rfl le_rfl rfl, le_rfl⟩
      · split <;> exact ⟨h.congr rfl le_rfl rfl, le_rfl⟩
  | eofReached file => exact ⟨.refl h, fun _ t ht => ht.elim⟩
  | goodbye => exact ⟨.refl h, fun _ t ht => ht.elim⟩
  | requestMerge => exact ⟨.refl h, fun _ t ht => ht.elim⟩
  | markWatched file watched => exact ⟨.refl h, fun _ t ht => ht.elim⟩
  | syncStatus epoch hash => exact ⟨.refl h, fun _ t ht => ht.elim⟩

/-! ## §4. Whole runs. -/

def issues (a : SyncActor) (r : Reading) : SyncCommand H → Option SharedTimestamp
  | .publishLocalReport text timestamp => a.stampOf r (.localReport text timestamp)
  | .mutate mutation => a.stampOf r mutation
  | _ => none

def adopted? (a : SyncActor) : SyncCommand H → Option (ServerControl H)
  | .server msg _ => if a.adopts msg then some msg else none
  | _ => none

theorem lt_of_issues {r : Reading} {cmd : SyncCommand H} {t : SharedTimestamp}
    (h : t ∈ a.issues r cmd) : a.lastIssued < t := by
  have hstamp : ∀ mutation, t ∈ a.stampOf r mutation → a.lastIssued < t := by
    intro mutation ht
    unfold stampOf at ht
    split at ht
    · cases ht
    · cases ht; exact a.lastIssued_lt_nextStamp r.clock
  cases cmd with
  | publishLocalReport text timestamp => exact hstamp _ h
  | mutate mutation => exact hstamp _ h
  | server msg via => cases h
  | connected => cases h
  | disconnected => cases h
  | clockSync offset => cases h
  | offlineHold => cases h

/-- **One command** keeps the floor and raises it over its stamp and over the
message it adopts. -/
theorem Floor.handle (h : a.Floor) [DecidableEq H] (digest : StateView → H) (r : Reading)
    (cmd : SyncCommand H) :
    a.Raises (a.handle digest r cmd).actor ∧
      (∀ t ∈ a.issues r cmd, t ≤ (a.handle digest r cmd).actor.lastIssued) ∧
      ∀ msg ∈ a.adopted? cmd, ∀ t, msg.HasStamp t →
        t ≤ (a.handle digest r cmd).actor.lastIssued := by
  cases cmd with
  | publishLocalReport text timestamp =>
    obtain ⟨hraise, hstamp⟩ := h.mutate (H := H) r (.localReport text timestamp)
    exact ⟨hraise, hstamp, fun msg hmsg => by cases hmsg⟩
  | mutate mutation =>
    obtain ⟨hraise, hstamp⟩ := h.mutate (H := H) r mutation
    exact ⟨hraise, hstamp, fun msg hmsg => by cases hmsg⟩
  | server msg via =>
    obtain ⟨hraise, hadopt⟩ := h.remote digest msg via
    refine ⟨hraise, fun t ht => (by cases ht), fun msg' hmsg => ?_⟩
    unfold adopted? at hmsg
    simp only at hmsg
    split at hmsg
    next hyes =>
      cases hmsg
      exact hadopt hyes
    · cases hmsg
  | connected =>
    exact ⟨⟨h.congr rfl le_rfl rfl, le_rfl⟩, fun t ht => (by cases ht), fun m hm => by cases hm⟩
  | disconnected =>
    exact ⟨⟨h.congr rfl le_rfl rfl, le_rfl⟩, fun t ht => (by cases ht), fun m hm => by cases hm⟩
  | clockSync offset =>
    exact ⟨⟨h.congr rfl le_rfl rfl, le_rfl⟩, fun t ht => (by cases ht), fun m hm => by cases hm⟩
  | offlineHold =>
    refine ⟨?_, fun t ht => (by cases ht), fun m hm => by cases hm⟩
    unfold SyncActor.handle
    simp only
    split
    · exact ⟨h.congr rfl le_rfl rfl, le_rfl⟩
    · exact .refl h

end SyncActor

structure Session (H : Type) where
  actor : SyncActor
  issued : List SharedTimestamp
  adopted : List (ServerControl H)

namespace Session

variable {H : Type} [DecidableEq H] (digest : StateView → H)

def step (s : Session H) (e : Reading × SyncCommand H) : Option (Session H) :=
  some
    { actor := (s.actor.handle digest e.1 e.2).actor
      issued := s.issued ++ (s.actor.issues e.1 e.2).toList
      adopted := s.adopted ++ (s.actor.adopted? e.2).toList }

/-- Everything issued or adopted so far lies at or below the floor. -/
structure Inv (s : Session H) : Prop where
  floor : s.actor.Floor
  issued : ∀ t ∈ s.issued, t ≤ s.actor.lastIssued
  adopted : ∀ msg ∈ s.adopted, ∀ t, msg.HasStamp t → t ≤ s.actor.lastIssued

theorem Inv.step {s s' : Session H} (inv : s.Inv) (e : Reading × SyncCommand H)
    (hs : s.step digest e = some s') : s'.Inv := by
  cases hs
  obtain ⟨⟨hfloor, hle⟩, hissued, hadopted⟩ := inv.floor.handle digest e.1 e.2
  refine ⟨hfloor, fun t ht => ?_, fun msg hmsg t ht => ?_⟩
  · rcases mem_append.mp ht with ht | ht
    · exact (inv.issued t ht).trans hle
    · exact hissued t (Option.mem_toList.mp ht)
  · rcases mem_append.mp hmsg with hmsg | hmsg
    · exact (inv.adopted msg hmsg t ht).trans hle
    · exact hadopted msg (Option.mem_toList.mp hmsg) t ht

theorem stamp_gt {user : UserId} {actor : ActorId} {initial : Option StateSnapshot} {s : Session H}
    (hr : Reach (step digest) anyStep ⟨.start user actor initial, [], []⟩ s) {r : Reading}
    {cmd : SyncCommand H} {ts : SharedTimestamp} (hts : ts ∈ s.actor.issues r cmd) :
    (∀ t ∈ s.issued, t < ts) ∧ (∀ t, s.actor.state.HasStamp t → t < ts) ∧
      ∀ msg ∈ s.adopted, ∀ t, msg.HasStamp t → t < ts := by
  have inv : s.Inv := hr.invariant
    ⟨SyncActor.Floor.start user actor initial, by simp, by simp⟩
    fun s e s' inv _ hs => inv.step digest e hs
  have hlt := SyncActor.lt_of_issues hts
  exact ⟨fun t ht => (inv.issued t ht).trans_lt hlt,
    fun t ht => (below_iff.mp inv.floor.state t ht).trans_lt hlt,
    fun msg hmsg t ht => (inv.adopted msg hmsg t ht).trans_lt hlt⟩

end Session

end DessPlay.Sync
