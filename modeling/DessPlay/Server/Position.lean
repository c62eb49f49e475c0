/-
  DessPlay.Server.Position
  **THE ONCE-A-SECOND POSITION CATCH-UP.**

  Most playback positions travel as datagrams only; once a second one is sent
  EAGERLY, on the reliable stream and as a datagram.  The server relays a copy
  the way it arrived, and only if it is news.  When the datagram copy of the
  eager tick wins the race it is relayed by datagram alone, and its reliable twin
  is then a duplicate that nobody is sent (`catch_up_lost`).
-/
import DessPlay.Server.SnapshotCut
import DessPlay.Core.Lamport

namespace DessPlay.Server

open Machine Crdts DessPlay.Core List Function CrdtState

variable {H : Type}

/-! ## §1. Copies arriving at the server. -/

structure Arrival where
  sender : ConnId
  epoch : Epoch
  op : CrdtOp
  viaDatagram : Bool
  choice : Choice

def serve (c : Core) : List Arrival → Core × List (Send H)
  | [] => (c, [])
  | a :: as =>
    let done : Done H := c.applyOp a.sender a.epoch a.op a.viaDatagram a.choice
    let rest := serve done.core as
    (rest.1, done.sends ++ rest.2)

/-- A position op of `actor` with a dot not below `k`. -/
def isTick (actor : ActorId) (k : Nat) (op : CrdtOp) : Bool :=
  match op with
  | .map .playbackPosition (.up d _ _) => d.actor = actor ∧ k ≤ d.counter
  | _ => false

/-- The message goes on the reliable stream of every live connection but the
sender's and carries such a tick. -/
def Send.relaysTick (actor : ActorId) (k : Nat) (sender : ConnId) (send : Send H) : Prop :=
  send.reliable = true ∧ send.targets = .all (some sender) ∧
    ∃ p, send.out.op? = some p ∧ isTick actor k p.2 = true

variable {actor : ActorId}

theorem isTick_eq {k : Nat} {op : CrdtOp} (h : isTick actor k op = true) :
    ∃ d key v, op = .map .playbackPosition (.up d key v) ∧ d.actor = actor ∧ k ≤ d.counter := by
  unfold isTick at h
  split at h
  next d key v => exact ⟨d, key, v, rfl, of_decide_eq_true h⟩
  · cases h

theorem savePosition_no_tick (c : Core) (before : Option Ed2kHash) (choice : Choice)
    {out : Outgoing H} (h : out ∈ (c.savePosition before choice).2.toList) {p : Epoch × CrdtOp}
    (hp : out.op? = some p) (actor : ActorId) (k : Nat) : isTick actor k p.2 = false := by
  unfold Core.savePosition at h
  split at h
  · split at h
    · cases h
    · rw [mem_singleton.mp h] at hp
      cases hp
      rfl
  · cases h

/-- **One copy** is relayed reliably iff it came reliably, in the server's epoch, and
its dot is beyond the server's clock. -/
theorem applyOp_relaysTick (c : Core) (a : Arrival) (actor : ActorId) (k : Nat) (sender : ConnId) :
    (∃ send ∈ (c.applyOp (H := H) a.sender a.epoch a.op a.viaDatagram a.choice).sends,
        send.relaysTick actor k sender) ↔
      a.sender = sender ∧ a.epoch = c.epoch ∧ a.viaDatagram = false ∧
        isTick actor k a.op = true ∧ c.state.Takes a.op := by
  unfold Core.applyOp
  by_cases hepoch : a.epoch = c.epoch
  · rw [if_neg (not_not.mpr hepoch)]
    simp only []
    by_cases htick : isTick actor k a.op = true
    · obtain ⟨d, key, v, hop, hd⟩ := isTick_eq htick
      have hnp : isNowPlaying a.op = false := by rw [hop]; rfl
      cases hvia : a.viaDatagram with
      | true =>
        -- a datagram copy leaves by datagram alone
        constructor
        · rintro ⟨send, hsend, hrel, -⟩
          split at hsend
          · rw [hnp] at hsend
            simp only [Bool.false_eq_true, if_false, mem_singleton] at hsend
            rw [hsend, hop] at hrel
            cases hrel
          · cases hsend
        · rintro ⟨-, -, hfalse, -⟩
          cases hfalse
      | false =>
        have hnews : (c.state.applyForBroadcast a.op false).2 = true ↔ c.state.Takes a.op := by
          rw [hop]
          exact decide_eq_true_iff
        constructor
        · rintro ⟨send, hsend, -, htargets, -⟩
          split at hsend
          next hyes =>
            rw [hnp] at hsend
            simp only [Bool.false_eq_true, if_false, mem_singleton] at hsend
            rw [hsend] at htargets
            cases htargets
            exact ⟨rfl, hepoch, rfl, htick, hnews.mp hyes⟩
          · cases hsend
        · rintro ⟨rfl, -, -, -, htakes⟩
          rw [if_pos (hnews.mpr htakes), hnp]
          refine ⟨_, mem_singleton_self _, ?_, rfl, _, rfl, htick⟩
          rw [hop]
          rfl
    · -- another op: nothing it triggers is a tick
      constructor
      · rintro ⟨send, hsend, -, -, p, hp, htick'⟩
        exfalso
        split at hsend
        · split at hsend
          · rcases mem_cons.mp hsend with rfl | hsend
            · cases hp
              exact htick htick'
            · obtain ⟨out, hout, rfl⟩ := mem_map.mp hsend
              have hno := savePosition_no_tick _ _ _ hout hp actor k
              rw [htick'] at hno
              cases hno
          · rw [mem_singleton.mp hsend] at hp
            cases hp
            exact htick htick'
        · cases hsend
      · rintro ⟨-, -, -, htick', -⟩
        exact absurd htick' htick
  · rw [if_pos hepoch]
    constructor
    · rintro ⟨send, hsend, -⟩
      cases hsend
    · rintro ⟨-, heq, -⟩
      exact absurd heq hepoch

/-- **Any order of arrival.**  Some reliable copy, of the tick or of a later one, has
to find the server's clock below its dot. -/
theorem serve_relaysTick (c : Core) (arrivals : List Arrival) (actor : ActorId) (k : Nat)
    (sender : ConnId) : (∃ send ∈ (serve (H := H) c arrivals).2, send.relaysTick actor k sender) ↔
      ∃ pre a post, arrivals = pre ++ a :: post ∧ a.sender = sender ∧
        a.epoch = (serve (H := H) c pre).1.epoch ∧ a.viaDatagram = false ∧
        isTick actor k a.op = true ∧ (serve (H := H) c pre).1.state.Takes a.op := by
  induction arrivals generalizing c with
  | nil =>
    constructor
    · rintro ⟨send, hsend, -⟩
      cases hsend
    · rintro ⟨pre, a, post, h, -⟩
      cases pre <;> cases h
  | cons b arrivals ih =>
    have hone := applyOp_relaysTick (H := H) c b actor k sender
    have hrest := ih (c.applyOp (H := H) b.sender b.epoch b.op b.viaDatagram b.choice).core
    constructor
    · rintro ⟨send, hsend, htick⟩
      rcases mem_append.mp hsend with hsend | hsend
      · exact ⟨[], b, arrivals, rfl, hone.mp ⟨send, hsend, htick⟩⟩
      · obtain ⟨pre, a, post, rfl, h⟩ := hrest.mp ⟨send, hsend, htick⟩
        exact ⟨b :: pre, a, post, rfl, h⟩
    · rintro ⟨pre, a, post, heq, h⟩
      cases pre with
      | nil =>
        obtain ⟨rfl, rfl⟩ := List.cons.inj heq
        obtain ⟨send, hsend, htick⟩ := hone.mpr h
        exact ⟨send, mem_append_left _ hsend, htick⟩
      | cons b' pre =>
        obtain ⟨rfl, rfl⟩ := List.cons.inj heq
        obtain ⟨send, hsend, htick⟩ := hrest.mpr ⟨pre, a, post, rfl, h⟩
        exact ⟨send, mem_append_right _ hsend, htick⟩

/-! ## §2. From the task to the streams. -/

namespace Shared

variable [DecidableEq H] (digest : StateView → H)

/-- Task `t` is looping over connections that include everyone in `L` not yet served. -/
def Serving (s : Shared H) (t : TaskId) (out : Outgoing H) (L : List ConnId) : Prop :=
  ∃ send rest work ids, s.tasks t = ⟨send :: rest, work⟩ ∧ send.out = out ∧
    send.reliable = true ∧ send.targets = .conns ids ∧ ∀ n ∈ L, n ∈ ids ∨ out ∈ s.out n

variable {s s' : Shared H}

theorem mem_out_step {e : ServerEvent H} (hs : s.step digest e = some s') {n : ConnId}
    {x : Outgoing H} (h : x ∈ s.out n) : x ∈ s'.out n := by
  cases Step.of_step digest hs with
  | push t choice send rest work m ns htask hto =>
    show x ∈ (s.push m send).out n
    unfold Shared.push
    simp only []
    split
    · by_cases hnm : n = m
      · subst hnm
        rw [update_self]
        exact mem_append_left _ h
      · rwa [update_of_ne hnm]
    · exact h
  | _ => exact h

theorem Serving.step {t : TaskId} {out : Outgoing H} {L : List ConnId} (h : Serving s t out L)
    {e : ServerEvent H} (hs : s.step digest e = some s') :
    Serving s' t out L ∨ ∀ n ∈ L, out ∈ s'.out n := by
  obtain ⟨send, rest, work, ids, htask, hout, hrel, hto, hL⟩ := h
  have hkeep : ∀ n ∈ L, n ∈ ids ∨ out ∈ s'.out n :=
    fun n hn => (hL n hn).imp id (mem_out_step digest hs)
  have hother : s'.tasks t = s.tasks t → Serving s' t out L := fun heq =>
    ⟨send, rest, work, ids, heq.trans htask, hout, hrel, hto, hkeep⟩
  have hupdate : ∀ (t' : TaskId) (task : Task H), t' ≠ t →
      update s.tasks t' task t = s.tasks t := fun t' task hne =>
    update_of_ne (Ne.symm hne) _ _
  have hbusy : s.tasks t ≠ ⟨[], []⟩ := by
    rw [htask]
    simp
  cases Step.of_step digest hs with
  | register supersedes => exact .inl (hother rfl)
  | drop n => exact .inl (hother rfl)
  | recv n msg via hidle hn =>
    exact .inl (hother (hupdate _ _ fun heq => hbusy (heq ▸ hidle)))
  | start t' job hidle => exact .inl (hother (hupdate _ _ fun heq => hbusy (heq ▸ hidle)))
  | work t' choice w ws done htask' hdone =>
    refine .inl (hother (hupdate _ _ fun heq => ?_))
    rw [heq, htask] at htask'
    cases htask'
  | resolve t' choice send' rest' work' skip htask' hall hconns =>
    refine .inl (hother (hupdate _ _ fun heq => ?_))
    rw [heq, htask] at htask'
    cases htask'
    rw [hto] at hall
    cases hall
  | finish t' choice send' rest' work' htask' hnone =>
    by_cases heq : t' = t
    · rw [heq, htask] at htask'
      cases htask'
      rw [hto] at hnone
      cases hnone
      exact .inr fun n hn => (hkeep n hn).resolve_left (by simp)
    · exact .inl (hother (hupdate _ _ heq))
  | push t' choice send' rest' work' m ns htask' hto' =>
    by_cases heq : t' = t
    · subst heq
      rw [htask] at htask'
      cases htask'
      rw [hto] at hto'
      cases hto'
      refine .inl ⟨_, rest, work, ns, update_self .., hout, hrel, rfl, fun n hn => ?_⟩
      rcases hkeep n hn with hmem | hmem
      · rcases mem_cons.mp hmem with rfl | hmem
        · refine .inr ?_
          show out ∈ (s.push n send).out n
          simp [Shared.push, hrel, hout]
        · exact .inl hmem
      · exact .inr hmem
    · exact .inl (hother (hupdate _ _ heq))

theorem serving_of_resolve {t : TaskId} {send : Send H} {rest : List (Send H)}
    {work : List (Work H)} {skip : Option ConnId} {choice : Choice}
    (htask : s.tasks t = ⟨send :: rest, work⟩) (hrel : send.reliable = true)
    (hall : send.targets = .all skip) (hs : s.step digest (.exec t choice) = some s') :
    Serving s' t send.out (s.live.filter fun n => some n ≠ skip) := by
  cases Step.of_step digest hs with
  | work t choice w ws done htask' hdone =>
    rw [htask] at htask'
    cases htask'
  | resolve t choice send' rest' work' skip' htask' hall' hconns =>
    rw [htask] at htask'
    cases htask'
    rw [hall] at hall'
    cases hall'
    exact ⟨_, rest, work, choice.conns, update_self .., rfl, hrel, rfl,
      fun n hn => .inl (hconns.mem_iff.mpr hn)⟩
  | finish t choice send' rest' work' htask' hnone =>
    rw [htask] at htask'
    cases htask'
    rw [hall] at hnone
    cases hnone
  | push t choice send' rest' work' m ns htask' hto =>
    rw [htask] at htask'
    cases htask'
    rw [hall] at hto
    cases hto

/-- **Everyone is served.**  From the moment a task has read the registry for a
reliable broadcast, whatever the other tasks do: the task is in its loop (and can
always go on), or every connection it read has the message. -/
theorem served_of_reach {t : TaskId} {out : Outgoing H} {L : List ConnId} (h : Serving s t out L)
    (hr : Reach (step digest) anyStep s s') :
    (∀ n ∈ L, out ∈ s'.out n) ∨
      Serving s' t out L ∧ ∀ choice, (s'.step digest (.exec t choice)).isSome = true := by
  have hinv : Serving s' t out L ∨ ∀ n ∈ L, out ∈ s'.out n := by
    induction hr with
    | refl => exact .inl h
    | step _ _ hs ih =>
      rcases ih with ih | ih
      · exact ih.step digest hs
      · exact .inr fun n hn => mem_out_step digest hs (ih n hn)
  rcases hinv with hs | hs
  · refine .inr ⟨hs, fun choice => ?_⟩
    obtain ⟨send, rest, work, ids, htask, -, -, hto, -⟩ := hs
    simp only [Shared.step, Shared.exec, htask, Shared.advance, hto]
    cases ids <;> rfl
  · exact .inl hs

end Shared

/-! ## §3. What the peer sees. -/

structure Tick where
  counter : Nat
  write : Lww PlaybackPosition

/-- The op of a report of `user`'s session `actor`. -/
def Tick.op (actor : ActorId) (user : UserId) (t : Tick) : CrdtOp :=
  .up .playbackPosition ⟨⟨actor, t.counter⟩, user, t.write⟩

def InTickOrder (ticks : List Tick) : Prop :=
  ticks.Pairwise fun t t' => t.counter < t'.counter ∧ t.write.timestamp < t'.write.timestamp

variable {ticks : List Tick}

theorem InTickOrder.timestamp_le (h : InTickOrder ticks) {t t' : Tick} (ht : t ∈ ticks)
    (ht' : t' ∈ ticks) (hle : t.counter ≤ t'.counter) : t.write.timestamp ≤ t'.write.timestamp := by
  obtain ⟨i, hi, rfl⟩ := mem_iff_getElem.mp ht
  obtain ⟨j, hj, rfl⟩ := mem_iff_getElem.mp ht'
  have hpw := pairwise_iff_getElem.mp h
  rcases lt_trichotomy i j with hij | rfl | hij
  · exact (hpw i j hi hj hij).2.le
  · exact le_rfl
  · exact absurd (hpw j i hj hi hij).1 (not_lt.mpr hle)

/-- The replica holds the report its clock names. -/
structure CaughtUp (actor : ActorId) (user : UserId) (ticks : List Tick) (p : CrdtState) :
    Prop where
  noDeferred : p.NoDeferred
  clock : (p.maps .playbackPosition).clock.get actor = 0 ∨ ∃ t ∈ ticks,
    t.counter = (p.maps .playbackPosition).clock.get actor ∧ (t.op actor user).delta ≤ p.join

def FromTicks (actor : ActorId) (user : UserId) (ticks : List Tick) (op : CrdtOp) : Prop :=
  op.IsPut ∧ ∀ u : LwwUpdate UserId PlaybackPosition, op = .up .playbackPosition u →
    u.dot.actor = actor → ∃ t ∈ ticks, op = t.op actor user

theorem CaughtUp.apply {user : UserId} {p : CrdtState} (h : CaughtUp actor user ticks p)
    {op : CrdtOp} (hop : FromTicks actor user ticks op) :
    CaughtUp actor user ticks (p.apply op) := by
  have hone : ∀ o ∈ [op], o.IsPut := by simpa using hop.1
  have hgrow : p.join ≤ (p.apply op).join := join_le_foldl_apply h.noDeferred hone
  refine ⟨h.noDeferred.apply hop.1, ?_⟩
  rcases clock_apply_cases h.noDeferred hop.1 .playbackPosition actor with
    hsame | ⟨u, hu, htakes, hactor, hcounter⟩
  · rw [hsame]
    exact h.clock.imp id fun ⟨t, ht, hc, hle⟩ => ⟨t, ht, hc, hle.trans hgrow⟩
  · -- the clock moved: the op is one of the reports, and it was taken
    obtain ⟨t, ht, heq⟩ := hop.2 u hu hactor
    refine .inr ⟨t, ht, ?_, ?_⟩
    · have hut : u = ⟨⟨actor, t.counter⟩, user, t.write⟩ := CrdtOp.up_injective (hu.symm.trans heq)
      rw [← hcounter, hut]
    · rw [join_apply h.noDeferred hop.1 htakes, heq]
      exact le_sup_right

def deliverAll (p : CrdtState) (copies : List (CrdtOp × Bool)) : CrdtState :=
  copies.foldl (fun p copy => if copy.2 then (p.applyIfOrderly copy.1).1 else p.apply copy.1) p

theorem CaughtUp.deliverAll {user : UserId} {p : CrdtState} (h : CaughtUp actor user ticks p)
    (copies : List (CrdtOp × Bool)) (hcopies : ∀ copy ∈ copies, FromTicks actor user ticks copy.1) :
    CaughtUp actor user ticks (deliverAll p copies) := by
  induction copies generalizing p with
  | nil => exact h
  | cons copy copies ih =>
    refine ih ?_ fun c hc => hcopies c (mem_cons_of_mem _ hc)
    have happly := h.apply (hcopies copy (mem_cons_self ..))
    show CaughtUp actor user ticks
      (if copy.2 then (p.applyIfOrderly copy.1).1 else p.apply copy.1)
    split
    · rcases p.applyIfOrderly_spec copy.1 with ⟨-, heq⟩ | ⟨-, heq⟩ <;> rw [heq]
      · exact happly
      · exact h
    · exact happly

/-- **After a reliable tick** the peer's position is at least that new, whatever it got
or lost before. -/
theorem CaughtUp.winner {user : UserId} (hord : InTickOrder ticks) {p : CrdtState}
    (h : CaughtUp actor user ticks p) {t t' : Tick} (ht : t ∈ ticks) (ht' : t' ∈ ticks)
    (hle : t.counter ≤ t'.counter) (hpos : 0 < t'.counter) :
    ∃ ts, (p.apply (t'.op actor user)).winner? (.key .playbackPosition user) = some ts ∧
      t.write.timestamp ≤ ts := by
  have hput : (t'.op actor user).IsPut := trivial
  have hfrom : FromTicks actor user ticks (t'.op actor user) :=
    ⟨hput, fun _ _ _ => ⟨t', ht', rfl⟩⟩
  have hseen : t'.counter ≤
      ((p.apply (t'.op actor user)).maps .playbackPosition).clock.get actor :=
    covers_apply_self p (t'.op actor user)
  rcases (h.apply hfrom).clock with hzero | ⟨t₁, ht₁, hc, hdelta⟩
  · omega
  · have hput₁ : (t₁.op actor user).IsPut := trivial
    obtain ⟨ts, hwin, hts⟩ := winner_of_delta_le hput₁ rfl hdelta
    exact ⟨ts, hwin, (hord.timestamp_le ht ht₁ (by omega)).trans (hts _ rfl)⟩

/-! ## §4. The catch-up. -/

/-- **The position catch-up.**  Fix a tick of a session whose reports grow in dot and
stamp.

* The server puts it, or a later one, on the reliable streams iff a reliable copy
  of such a tick arrives, in the server's epoch, while the server's clock is still
  below its dot: iff the datagram copy did not win the race.
* What the server puts there, every live connection but the sender's gets: all have it, or
  it heads its task's queue, addressed to those that do not, and the task can go on.
* A peer that gets it has a position at least as new as the tick, whatever
  datagrams it lost before. -/
theorem position_catch_up [DecidableEq H] (digest : StateView → H) (actor : ActorId) (user : UserId)
    (ticks : List Tick) (hord : InTickOrder ticks) (hpos : ∀ t ∈ ticks, 0 < t.counter) (tick : Tick)
    (htick : tick ∈ ticks) (sender : ConnId) (c : Core) (arrivals : List Arrival) :
    ((∃ send ∈ (serve (H := H) c arrivals).2, send.relaysTick actor tick.counter sender) ↔
      ∃ pre a post, arrivals = pre ++ a :: post ∧ a.sender = sender ∧
        a.epoch = (serve (H := H) c pre).1.epoch ∧ a.viaDatagram = false ∧
        isTick actor tick.counter a.op = true ∧ (serve (H := H) c pre).1.state.Takes a.op) ∧
    (∀ (s s₁ s' : Shared H) (t : TaskId) (send : Send H) (rest : List (Send H))
        (work : List (Work H)) (choice : Choice), s.tasks t = ⟨send :: rest, work⟩ →
      send.relaysTick actor tick.counter sender → s.step digest (.exec t choice) = some s₁ →
      Reach (Shared.step digest) anyStep s₁ s' →
      (∀ n ∈ s.live, n ≠ sender → send.out ∈ s'.out n) ∨
        s'.Serving t send.out (s.live.filter (· ≠ sender)) ∧
          ∀ choice, (s'.step digest (.exec t choice)).isSome = true) ∧
    ∀ (p : CrdtState) (copies : List (CrdtOp × Bool)) (later : Tick),
      CaughtUp actor user ticks p → (∀ copy ∈ copies, FromTicks actor user ticks copy.1) →
      later ∈ ticks → tick.counter ≤ later.counter →
      ∃ ts, ((deliverAll p copies).apply (later.op actor user)).winner?
        (.key .playbackPosition user) = some ts ∧ tick.write.timestamp ≤ ts := by
  refine ⟨serve_relaysTick c arrivals actor tick.counter sender, ?_, ?_⟩
  · intro s s₁ s' t send rest work choice htask hrelay hs hr
    have hserving := Shared.serving_of_resolve digest htask hrelay.1 hrelay.2.1 hs
    have hlive : (s.live.filter fun n => some n ≠ some sender) = s.live.filter (· ≠ sender) :=
      filter_congr fun n _ => by simp
    rw [hlive] at hserving
    refine (Shared.served_of_reach digest hserving hr).imp_left fun h n hn hne => ?_
    exact h n (mem_filter.mpr ⟨hn, decide_eq_true hne⟩)
  · intro p copies later hp hcopies hlater hle
    exact (hp.deliverAll copies hcopies).winner hord htick hlater hle (hpos later hlater)

def firstTick : Tick := ⟨1, 5, 0, 5, 7⟩

theorem position_catch_up_reliable_first : let c := (Shared.init (H := Unit) ⟨0, .new⟩).core
    let copy (via : Bool) : Arrival := ⟨0, 0, firstTick.op 1 "alice", via, idleChoice []⟩
    ∃ send ∈ (serve (H := Unit) c [copy false, copy true]).2, send.relaysTick 1 1 0 := by
  intro c copy
  exact (position_catch_up (H := Unit) (fun _ => ()) 1 "alice" [firstTick]
    (pairwise_singleton _ _) (by decide) firstTick (by simp) 0 c
    [copy false, copy true]).1.mpr ⟨[], copy false, [copy true], rfl, rfl, rfl, rfl, by decide,
      by decide⟩

/-- The datagram copy of the tick comes in first; connection 0 sends, 1 listens. -/
def datagramFirst : List (ServerEvent Unit) :=
  [ .register none, .register none,
    .recv 0 (.stateOp 0 (firstTick.op 1 "alice")) true,
    .exec (.conn 0) (idleChoice []), .exec (.conn 0) (idleChoice []),
    .exec (.conn 0) (idleChoice [1]), .exec (.conn 0) (idleChoice []),
    .exec (.conn 0) (idleChoice []),
    .recv 0 (.stateOp 0 (firstTick.op 1 "alice")) false,
    .exec (.conn 0) (idleChoice []), .exec (.conn 0) (idleChoice []) ]

/-- Both copies are handled, and connection 1's reliable stream is empty: a peer that
loses the relayed datagram never hears of the tick. -/
theorem catch_up_lost :
    ∃ s, run (Shared.step fun _ => ()) (.init ⟨0, .new⟩) datagramFirst = some s ∧
      s.tasks (.conn 0) = ⟨[], []⟩ ∧ s.live = [0, 1] ∧
      (s.core.state.winner? (.key .playbackPosition "alice")) = some 5 ∧ s.out 1 = [] := by
  have hsome : (run (Shared.step fun _ => ()) (.init ⟨0, .new⟩) datagramFirst).isSome = true := by
    decide
  exact ⟨_, (Option.some_get hsome).symm, rfl, rfl, rfl, rfl⟩

end DessPlay.Server
