/-
  DessPlay.Server.Outbox
  **THE OUTBOUND QUEUE OF A CONNECTION** (`dessplay-rendezvous/src/outbox.rs`).

  Any number of tasks push frames; one writer task drains them.  They share an atomic
  byte counter and a `closed` flag, so a push is a sequence of atomic steps: read
  `closed`, add the size, send (or take the size back and close).

  One equation carries everything (`Ledger.counter`): the counter is the size of the
  accepted frames whose write has not returned, plus what is momentarily added by pushes
  and by the writer between two of their steps.
-/
import DessPlay.Lib.Machine

namespace DessPlay.Server.Outbound

open List Option Machine

/-! ## §1. Pushes and the writer, step by step. -/

structure Frame where
  push : Nat
  size : Nat
  deriving DecidableEq

/-- Where a call of `push` is. -/
inductive Phase where
  /-- About to read `closed`. -/
  | begun
  /-- About to add its size. -/
  | opened
  /-- Within bounds: about to send. -/
  | counted
  /-- Past the limit: about to take its size back. -/
  | over
  /-- About to swap `closed`. -/
  | undone
  /-- Closed the queue itself: about to take the overflow action. -/
  | won
  /-- The writer is gone: about to take its size back. -/
  | bounced
  | refused
  | accepted
  deriving DecidableEq

/-- A call of `push`; `late` says that some push had been refused when it began. -/
structure Push where
  size : Nat
  phase : Phase
  late : Bool
  deriving DecidableEq

namespace Push

def pending (p : Push) : Nat :=
  match p.phase with
  | .counted | .over | .bounced => p.size
  | _ => 0

/-- What the push is about to send. -/
def promised (p : Push) : Nat :=
  match p.phase with
  | .counted => p.size
  | _ => 0

def done (p : Push) : Bool := p.phase = .refused || p.phase = .accepted

end Push

inductive Writer where
  | waiting
  /-- Took a frame: about to read `closed`. -/
  | taken (frame : Frame)
  | writing (frame : Frame)
  /-- The write returned: about to subtract the frame's size. -/
  | returned (frame : Frame) (ok : Bool)
  /-- After a failed write: about to set `closed`. -/
  | failed
  /-- Out of the loop, with the receiving end still there. -/
  | leaving
  | gone
  deriving DecidableEq

namespace Writer

def inHand : Writer → List Frame
  | taken frame | writing frame => [frame]
  | _ => []

def unsettled : Writer → Nat
  | returned frame _ => frame.size
  | _ => 0

def inLoop : Writer → Bool
  | leaving | gone => false
  | _ => true

def healthy : Writer → Bool
  | waiting | taken _ | writing _ | returned _ true => true
  | _ => false

end Writer

/-- The outbox.  `accepted`, `handled` and `written` remember the frames sent into the
channel, those whose write returned and those whose write succeeded. -/
structure Outbox where
  limit : Nat
  queued : Int
  closed : Bool
  onOverflow : Bool
  overflows : Nat
  channel : List Frame
  writer : Writer
  handles : Bool
  pushes : List Push
  accepted : List Frame
  handled : List Frame
  written : List Frame
  deriving DecidableEq

inductive Event where
  /-- A task calls `push`. -/
  | push (size : Nat)
  /-- A push takes its next step. -/
  | advance (push : Nat)
  | recv
  | check
  | writeReturns (ok : Bool)
  | settle
  | close
  | drop
  /-- Every handle is dropped. -/
  | hangUp
  deriving DecidableEq

namespace Outbox

/-- `Outbox::spawn`. -/
def spawn (limit : Nat) : Outbox where
  limit := limit
  queued := 0
  closed := false
  onOverflow := true
  overflows := 0
  channel := []
  writer := .waiting
  handles := true
  pushes := []
  accepted := []
  handled := []
  written := []

/-- A call of `push` begins. -/
def enter (o : Outbox) (size : Nat) : Outbox :=
  { o with pushes := o.pushes ++ [⟨size, .begun, o.pushes.any (·.phase = .refused)⟩] }

def mark (o : Outbox) (i : Nat) (p : Push) (phase : Phase) : Outbox :=
  { o with pushes := o.pushes.set i { p with phase := phase } }

/-- The next atomic step of push `i`. -/
def advance (o : Outbox) (i : Nat) (p : Push) : Option Outbox :=
  match p.phase with
  | .begun => some (o.mark i p (if o.closed then .refused else .opened))
  | .opened =>
    let before := o.queued
    some ({ o with queued := before + p.size }.mark i p
      (if 0 < before ∧ o.limit < before + p.size then .over else .counted))
  | .counted =>
    if o.writer = .gone then some (o.mark i p .bounced)
    else
      some ({ o with
        channel := o.channel ++ [Frame.mk i p.size]
        accepted := o.accepted ++ [Frame.mk i p.size] }.mark i p .accepted)
  | .over => some ({ o with queued := o.queued - p.size }.mark i p .undone)
  | .undone => some ({ o with closed := true }.mark i p (if o.closed then .refused else .won))
  | .won =>
    some ({ o with
      onOverflow := false
      overflows := if o.onOverflow then o.overflows + 1 else o.overflows }.mark i p .refused)
  | .bounced => some ({ o with queued := o.queued - p.size }.mark i p .refused)
  | .refused | .accepted => none

def step (o : Outbox) : Event → Option Outbox
  | .push size => if o.handles then some (o.enter size) else none
  | .advance i => o.pushes[i]?.bind (o.advance i)
  | .recv =>
    match o.writer, o.channel with
    | .waiting, frame :: rest => some { o with writer := .taken frame, channel := rest }
    | .waiting, [] => if o.handles then none else some { o with writer := .leaving }
    | _, _ => none
  | .check =>
    match o.writer with
    | .taken frame => some { o with writer := if o.closed then .leaving else .writing frame }
    | _ => none
  | .writeReturns ok =>
    match o.writer with
    | .writing frame =>
      some { o with
        writer := .returned frame ok
        handled := o.handled ++ [frame]
        written := if ok then o.written ++ [frame] else o.written }
    | _ => none
  | .settle =>
    match o.writer with
    | .returned frame ok =>
      some { o with
        queued := o.queued - frame.size
        writer := if ok then .waiting else .failed }
    | _ => none
  | .close =>
    match o.writer with
    | .failed => some { o with closed := true, writer := .leaving }
    | _ => none
  | .drop =>
    match o.writer with
    | .leaving => some { o with writer := .gone, channel := [] }
    | _ => none
  | .hangUp => if o.pushes.all (·.done) then some { o with handles := false } else none

/-- **What one event can do**, and where the writer stands when it does. -/
inductive Step (o : Outbox) : Event → Outbox → Prop
  | push {size : Nat} : Step o (.push size) (o.enter size)
  | advance {i : Nat} {p : Push} {o' : Outbox} (hp : o.pushes[i]? = some p)
      (hs : o.advance i p = some o') : Step o (.advance i) o'
  | recv {frame : Frame} {rest : List Frame} (hwriter : o.writer = .waiting)
      (hchannel : o.channel = frame :: rest) :
      Step o .recv { o with writer := .taken frame, channel := rest }
  | hungUp (hwriter : o.writer = .waiting) : Step o .recv { o with writer := .leaving }
  | check {frame : Frame} (hwriter : o.writer = .taken frame) :
      Step o .check { o with writer := if o.closed then .leaving else .writing frame }
  | writeReturns {frame : Frame} {ok : Bool} (hwriter : o.writer = .writing frame) :
      Step o (.writeReturns ok)
        { o with
          writer := .returned frame ok
          handled := o.handled ++ [frame]
          written := if ok then o.written ++ [frame] else o.written }
  | settle {frame : Frame} {ok : Bool} (hwriter : o.writer = .returned frame ok) :
      Step o .settle
        { o with
          queued := o.queued - frame.size
          writer := if ok then .waiting else .failed }
  | close (hwriter : o.writer = .failed) :
      Step o .close { o with closed := true, writer := .leaving }
  | drop (hwriter : o.writer = .leaving) : Step o .drop { o with writer := .gone, channel := [] }
  | hangUp : Step o .hangUp { o with handles := false }

theorem Step.of_step {o o' : Outbox} {event : Event} (hs : o.step event = some o') :
    o.Step event o' := by
  cases event with
  | push size =>
    obtain ⟨_, hs⟩ := ite_none_right_eq_some.mp hs
    cases hs
    exact .push
  | advance i =>
    obtain ⟨p, hp, hs⟩ := bind_eq_some_iff.mp hs
    exact .advance hp hs
  | hangUp =>
    obtain ⟨_, hs⟩ := ite_none_right_eq_some.mp hs
    cases hs
    exact .hangUp
  | recv =>
    simp only [Outbox.step] at hs
    split at hs
    next hwriter hchannel => cases hs; exact .recv hwriter hchannel
    next hwriter _ =>
      split at hs
      · cases hs
      · cases hs; exact .hungUp hwriter
    · cases hs
  | check | writeReturns _ | settle | close | drop =>
    simp only [Outbox.step] at hs
    split at hs
    next hwriter => cases hs; constructor; exact hwriter
    · cases hs

/-! ## §2. What is owed. -/

def outstanding (o : Outbox) : Nat := ((o.accepted.drop o.handled.length).map (·.size)).sum

def pending (o : Outbox) : Nat := (o.pushes.map Push.pending).sum

def promised (o : Outbox) : Nat := (o.pushes.map Push.promised).sum

/-- The largest frame accepted. -/
def largest (o : Outbox) : Nat := (o.accepted.map (·.size)).foldr max 0

def Settled (o : Outbox) : Prop :=
  (∀ p ∈ o.pushes, p.done = true) ∧ ∀ frame ok, o.writer ≠ .returned frame ok

/-- What the frames have been through. -/
structure InOrder (o : Outbox) : Prop where
  queue : o.writer.inLoop = true → o.accepted = o.handled ++ (o.writer.inHand ++ o.channel)
  handled : o.handled <+: o.accepted
  written : o.written <+: o.handled
  healthy : o.writer.healthy = true → o.written = o.handled

variable {o o' : Outbox} {p : Push} {i : Nat}

namespace InOrder

theorem spawn (limit : Nat) : (spawn limit).InOrder :=
  ⟨fun _ => rfl, prefix_rfl, prefix_rfl, fun _ => rfl⟩

theorem of_eq (h : o.InOrder) (hwriter : o'.writer = o.writer) (hchannel : o'.channel = o.channel)
    (haccepted : o'.accepted = o.accepted) (hhandled : o'.handled = o.handled)
    (hwritten : o'.written = o.written) : o'.InOrder := by
  refine ⟨?_, ?_, ?_, ?_⟩
  · rw [hwriter, haccepted, hhandled, hchannel]
    exact h.queue
  · rw [hhandled, haccepted]
    exact h.handled
  · rw [hwritten, hhandled]
    exact h.written
  · rw [hwriter, hwritten, hhandled]
    exact h.healthy

theorem send (h : o.InOrder) (frame : Frame) :
    InOrder { o with channel := o.channel ++ [frame], accepted := o.accepted ++ [frame] } where
  queue hloop := by
    show o.accepted ++ [frame] = o.handled ++ (o.writer.inHand ++ (o.channel ++ [frame]))
    rw [h.queue hloop, append_assoc, append_assoc]
  handled := h.handled.trans (prefix_append _ _)
  written := h.written
  healthy := h.healthy

theorem advance (h : o.InOrder) (hs : o.advance i p = some o') : o'.InOrder := by
  unfold Outbox.advance at hs
  split at hs
  case h_3 =>
    split at hs
    · cases hs; exact h.of_eq rfl rfl rfl rfl rfl
    · cases hs; exact (h.send ⟨i, p.size⟩).of_eq rfl rfl rfl rfl rfl
  all_goals cases hs
  all_goals exact h.of_eq rfl rfl rfl rfl rfl

theorem step (h : o.InOrder) {event : Event} (hs : o.step event = some o') : o'.InOrder := by
  cases Step.of_step hs with
  | push | hangUp => exact h.of_eq rfl rfl rfl rfl rfl
  | advance _ hs => exact h.advance hs
  | recv hwriter hchannel =>
    have hqueue := h.queue (by rw [hwriter]; rfl)
    have hhealthy := h.healthy (by rw [hwriter]; rfl)
    rw [hwriter, hchannel] at hqueue
    exact ⟨fun _ => hqueue, h.handled, h.written, fun _ => hhealthy⟩
  | check hwriter =>
    have hqueue := h.queue (by rw [hwriter]; rfl)
    have hhealthy := h.healthy (by rw [hwriter]; rfl)
    rw [hwriter] at hqueue
    cases hclosed : o.closed with
    | true => exact ⟨nofun, h.handled, h.written, nofun⟩
    | false => exact ⟨fun _ => hqueue, h.handled, h.written, fun _ => hhealthy⟩
  | @writeReturns frame ok hwriter =>
    have hqueue := h.queue (by rw [hwriter]; rfl)
    have hhealthy := h.healthy (by rw [hwriter]; rfl)
    have hnow : o.accepted = (o.handled ++ [frame]) ++ o.channel := by
      rw [hqueue, hwriter, append_assoc]
      rfl
    refine ⟨fun _ => hnow, hnow ▸ prefix_append _ _, ?_, ?_⟩
    · cases ok with
      | true =>
        show o.written ++ [frame] <+: o.handled ++ [frame]
        rw [hhealthy]
      | false => exact h.written.trans (prefix_append _ _)
    · cases ok with
      | true =>
        intro _
        show o.written ++ [frame] = o.handled ++ [frame]
        rw [hhealthy]
      | false => intro hh; cases hh
  | @settle frame ok hwriter =>
    have hqueue := h.queue (by rw [hwriter]; rfl)
    rw [hwriter] at hqueue
    cases ok with
    | true =>
      exact ⟨fun _ => hqueue, h.handled, h.written, fun _ => h.healthy (by rw [hwriter]; rfl)⟩
    | false => exact ⟨fun _ => hqueue, h.handled, h.written, nofun⟩
  | hungUp | close | drop => exact ⟨nofun, h.handled, h.written, nofun⟩

end InOrder

/-! ## §3. The counter. -/

section Sums

theorem sum_map_set {α : Type} (f : α → Nat) {l : List α} {i : Nat} {x y : α}
    (h : l[i]? = some x) : ((l.set i y).map f).sum + f x = (l.map f).sum + f y := by
  induction l generalizing i with
  | nil => cases h
  | cons first l ih =>
    cases i with
    | zero =>
      cases h
      simp only [set_cons_zero, map_cons, sum_cons]
      omega
    | succ i =>
      have := ih h
      simp only [set_cons_succ, map_cons, sum_cons]
      omega

theorem promised_le_pending (o : Outbox) : o.promised ≤ o.pending := by
  refine sum_le_sum fun p _ => ?_
  obtain ⟨size, phase, late⟩ := p
  cases phase <;> simp [Push.promised, Push.pending]

theorem pending_eq_zero (hdone : ∀ p ∈ o.pushes, p.done = true) : o.pending = 0 := by
  refine sum_eq_zero fun n hn => ?_
  obtain ⟨p, hp, rfl⟩ := mem_map.mp hn
  have := hdone p hp
  obtain ⟨size, phase, late⟩ := p
  cases phase <;> simp_all [Push.done, Push.pending]

theorem outstanding_of_eq {rest : List Frame} (h : o.accepted = o.handled ++ rest) :
    o.outstanding = (rest.map (·.size)).sum := by
  rw [outstanding, h, drop_left]

end Sums

/-- What is owed and promised fits the limit or an accepted frame, or is the promise that an
empty counter made. -/
structure Ledger (o : Outbox) : Prop where
  counter : o.queued = (o.outstanding + o.writer.unsettled + o.pending : Nat)
  within : o.outstanding + o.promised ≤ o.limit ∨
    (∃ frame ∈ o.accepted, o.outstanding + o.promised ≤ frame.size) ∨
    o.outstanding = 0 ∧ ∃ p ∈ o.pushes, p.phase = .counted ∧ o.promised ≤ p.size

namespace Ledger

theorem spawn (limit : Nat) : (spawn limit).Ledger := ⟨rfl, .inl (Nat.zero_le _)⟩

theorem eq_or_mem_set (phase : Phase) (hp : o.pushes[i]? = some p) {q : Push}
    (hq : q ∈ o.pushes) : q = p ∨ q ∈ o.pushes.set i { p with phase := phase } := by
  obtain ⟨j, hj⟩ := mem_iff_getElem?.mp hq
  by_cases hij : i = j
  · subst hij
    exact .inl (Option.some.inj (hj.symm.trans hp))
  · exact .inr (mem_iff_getElem?.mpr ⟨j, (getElem?_set_ne hij).trans hj⟩)

theorem promised_of_counted (h : p.phase = .counted) : p.promised = p.size := by
  rw [Push.promised, h]

theorem mark (h : o.Ledger) (hp : o.pushes[i]? = some p) {phase : Phase}
    (hframes : o'.accepted = o.accepted ∧ o'.handled = o.handled) (hwriter : o'.writer = o.writer)
    (hlimit : o'.limit = o.limit) (hpushes : o'.pushes = o.pushes.set i { p with phase := phase })
    (hcounter : o'.queued + p.pending = o.queued + { p with phase := phase }.pending)
    (hphase : phase ≠ .counted) : o'.Ledger := by
  have hpending := sum_map_set Push.pending (y := { p with phase := phase }) hp
  have hpromised := sum_map_set Push.promised (y := { p with phase := phase }) hp
  have hnone : { p with phase := phase }.promised = 0 := by
    cases phase <;> first | rfl | exact absurd rfl hphase
  have hout : o'.outstanding = o.outstanding := by
    rw [outstanding, hframes.1, hframes.2, outstanding]
  have hwas := h.counter
  constructor
  · rw [hout, hwriter, pending, hpushes]
    rw [pending] at hwas
    omega
  · have hle : o'.promised + p.promised = o.promised := by
      rw [promised, hpushes, promised]
      omega
    rw [hout, hlimit, hframes.1, hpushes]
    rcases h.within with hin | ⟨frame, hframe, hsize⟩ | ⟨hzero, q, hq, hcounted, hsize⟩
    · exact .inl (by omega)
    · exact .inr (.inl ⟨frame, hframe, by omega⟩)
    · rcases eq_or_mem_set phase hp hq with rfl | hq'
      · -- the promise itself is taken back
        rw [promised_of_counted hcounted] at hle
        exact .inl (by omega)
      · exact .inr (.inr ⟨hzero, q, hq', hcounted, by omega⟩)

/-- **A size is added**: to an empty counter, or within the limit. -/
theorem count (h : o.Ledger) (hp : o.pushes[i]? = some p) (hphase : p.phase = .opened)
    (hfits : ¬ (0 < o.queued ∧ o.limit < o.queued + p.size)) :
    Ledger ({ o with queued := o.queued + p.size }.mark i p .counted) := by
  have hpending := sum_map_set Push.pending (y := { p with phase := .counted }) hp
  have hpromised := sum_map_set Push.promised (y := { p with phase := .counted }) hp
  have hwas := h.counter
  have hsmall := o.promised_le_pending
  have hnone : p.pending = 0 ∧ p.promised = 0 := by simp [Push.pending, Push.promised, hphase]
  have hsize : { p with phase := .counted }.pending = p.size ∧
      { p with phase := .counted }.promised = p.size := ⟨rfl, rfl⟩
  rw [hnone.1, hsize.1] at hpending
  rw [hnone.2, hsize.2] at hpromised
  rw [pending] at hwas hsmall
  rw [promised] at hsmall
  constructor
  · show o.queued + p.size = ((o.outstanding + o.writer.unsettled +
      ((o.pushes.set i { p with phase := .counted }).map Push.pending).sum : Nat) : Int)
    omega
  · show o.outstanding + ((o.pushes.set i { p with phase := .counted }).map Push.promised).sum ≤
        o.limit ∨ _ ∨ _ ∧ ∃ q ∈ o.pushes.set i { p with phase := .counted }, _ ∧
          ((o.pushes.set i { p with phase := .counted }).map Push.promised).sum ≤ q.size
    by_cases hempty : 0 < o.queued
    · refine .inl ?_
      have hin : o.queued + p.size ≤ o.limit := not_lt.mp fun hlt => hfits ⟨hempty, hlt⟩
      omega
    · -- An empty counter: nothing else is owed.
      have hlt := (List.getElem?_eq_some_iff.mp hp).1
      refine .inr (.inr ⟨?_, _, mem_set hlt _, rfl, ?_⟩)
      · show o.outstanding = 0
        omega
      · show _ ≤ p.size
        omega

/-- **A frame is sent**: what was promised is owed. -/
theorem send (h : o.Ledger) (horder : o.InOrder) (hp : o.pushes[i]? = some p)
    (hphase : p.phase = .counted) :
    Ledger ({ o with
      channel := o.channel ++ [Frame.mk i p.size]
      accepted := o.accepted ++ [Frame.mk i p.size] }.mark i p .accepted) := by
  have hpending := sum_map_set Push.pending (y := { p with phase := .accepted }) hp
  have hpromised := sum_map_set Push.promised (y := { p with phase := .accepted }) hp
  have hwas := h.counter
  have hsize : p.pending = p.size ∧ p.promised = p.size := by
    simp [Push.pending, Push.promised, hphase]
  have hnone : { p with phase := .accepted }.pending = 0 ∧
      { p with phase := .accepted }.promised = 0 := ⟨rfl, rfl⟩
  rw [hsize.1, hnone.1] at hpending
  rw [hsize.2, hnone.2] at hpromised
  rw [pending] at hwas
  have hout : (((o.accepted ++ [Frame.mk i p.size]).drop o.handled.length).map (·.size)).sum =
      o.outstanding + p.size := by
    rw [drop_append_of_le_length horder.handled.length_le, map_append, sum_append,
      outstanding]
    rfl
  constructor
  · show o.queued = ((((((o.accepted ++ [Frame.mk i p.size]).drop o.handled.length).map
      (·.size)).sum) + o.writer.unsettled +
      ((o.pushes.set i { p with phase := .accepted }).map Push.pending).sum : Nat) : Int)
    rw [hout]
    omega
  · show (((o.accepted ++ [Frame.mk i p.size]).drop o.handled.length).map (·.size)).sum +
        ((o.pushes.set i { p with phase := .accepted }).map Push.promised).sum ≤ o.limit ∨
      (∃ frame ∈ o.accepted ++ [Frame.mk i p.size],
        (((o.accepted ++ [Frame.mk i p.size]).drop o.handled.length).map (·.size)).sum +
        ((o.pushes.set i { p with phase := .accepted }).map Push.promised).sum ≤ frame.size) ∨
      (((o.accepted ++ [Frame.mk i p.size]).drop o.handled.length).map (·.size)).sum = 0 ∧
        ∃ q ∈ o.pushes.set i { p with phase := .accepted }, q.phase = .counted ∧
          ((o.pushes.set i { p with phase := .accepted }).map Push.promised).sum ≤ q.size
    rw [hout]
    have hin := h.within
    rw [promised] at hin
    rcases hin with hin | ⟨frame, hframe, hfsize⟩ | ⟨hzero, q, hq, hcounted, hqsize⟩
    · exact .inl (by omega)
    · exact .inr (.inl ⟨frame, mem_append_left _ hframe, by omega⟩)
    · rcases eq_or_mem_set .accepted hp hq with rfl | hq'
      · exact .inr (.inl ⟨_, mem_append_right _ mem_cons_self, by show _ ≤ q.size; omega⟩)
      · -- beside that promise there is only room for an empty frame
        have hothers := single_le_sum (fun _ _ => Nat.zero_le _) _
          (mem_map_of_mem (f := Push.promised) hq')
        rw [promised_of_counted hcounted] at hothers
        exact .inr (.inr ⟨by omega, q, hq', hcounted, by omega⟩)

theorem advance (h : o.Ledger) (horder : o.InOrder) (hp : o.pushes[i]? = some p)
    (hs : o.advance i p = some o') : o'.Ledger := by
  unfold Outbox.advance at hs
  split at hs
  case h_1 hphase =>
    cases hs
    refine h.mark hp ⟨rfl, rfl⟩ rfl rfl rfl ?_ ?_
    all_goals cases o.closed <;> simp [Outbox.mark, Push.pending, hphase]
  case h_2 hphase =>
    dsimp only at hs
    split at hs
    next hover =>
      cases hs
      refine h.mark hp ⟨rfl, rfl⟩ rfl rfl rfl ?_ ?_ <;>
        simp [Outbox.mark, Push.pending, hphase]
    next hfits => cases hs; exact h.count hp hphase hfits
  case h_3 hphase =>
    split at hs
    · cases hs
      refine h.mark hp ⟨rfl, rfl⟩ rfl rfl rfl ?_ ?_ <;>
        simp [Outbox.mark, Push.pending, hphase]
    · cases hs; exact h.send horder hp hphase
  case h_4 hphase | h_7 hphase =>
    cases hs
    refine h.mark hp ⟨rfl, rfl⟩ rfl rfl rfl ?_ ?_ <;>
      simp [Outbox.mark, Push.pending, hphase]
  case h_5 hphase =>
    cases hs
    refine h.mark hp ⟨rfl, rfl⟩ rfl rfl rfl ?_ ?_
    all_goals cases o.closed <;> simp [Outbox.mark, Push.pending, hphase]
  case h_6 hphase =>
    cases hs
    refine h.mark hp ⟨rfl, rfl⟩ rfl rfl rfl ?_ ?_ <;>
      simp [Outbox.mark, Push.pending, hphase]
  all_goals cases hs

theorem enter (h : o.Ledger) (size : Nat) : (o.enter size).Ledger := by
  have hpending : (o.enter size).pending = o.pending := by
    simp [pending, Outbox.enter, Push.pending]
  have hpromised : (o.enter size).promised = o.promised := by
    simp [promised, Outbox.enter, Push.promised]
  constructor
  · rw [hpending]
    exact h.counter
  · rw [hpromised]
    exact h.within.imp_right (Or.imp_right fun ⟨hzero, q, hq, hcounted⟩ =>
      ⟨hzero, q, mem_append_left _ hq, hcounted⟩)

theorem move (h : o.Ledger) (hlimit : o'.limit = o.limit) (hpushes : o'.pushes = o.pushes)
    (haccepted : o'.accepted = o.accepted) (hout : o'.outstanding ≤ o.outstanding)
    (hcounter : o'.queued + (o.outstanding + o.writer.unsettled : Nat) =
      o.queued + (o'.outstanding + o'.writer.unsettled : Nat)) : o'.Ledger := by
  have hwas := h.counter
  have hpending : o'.pending = o.pending := by rw [pending, hpushes, pending]
  have hpromised : o'.promised = o.promised := by rw [promised, hpushes, promised]
  constructor
  · rw [hpending]
    omega
  · rw [hlimit, hpushes, haccepted, hpromised]
    rcases h.within with hin | ⟨frame, hframe, hsize⟩ | ⟨hzero, hpromise⟩
    · exact .inl (by omega)
    · exact .inr (.inl ⟨frame, hframe, by omega⟩)
    · exact .inr (.inr ⟨by omega, hpromise⟩)

theorem step (h : o.Ledger) (horder : o.InOrder) {event : Event} (hs : o.step event = some o') :
    o'.Ledger := by
  cases Step.of_step hs with
  | push => exact h.enter _
  | advance hp hs => exact h.advance horder hp hs
  | recv hwriter _ | hungUp hwriter | close hwriter | drop hwriter =>
    exact h.move rfl rfl rfl (le_refl _) (by rw [hwriter]; rfl)
  | check hwriter =>
    refine h.move rfl rfl rfl (le_refl _) ?_
    rw [hwriter]
    cases o.closed <;> rfl
  | @writeReturns frame ok hwriter =>
    have hqueue : o.accepted = o.handled ++ (frame :: o.channel) := by
      have := horder.queue (by rw [hwriter]; rfl)
      rwa [hwriter] at this
    have hbefore : o.outstanding = frame.size + (o.channel.map (·.size)).sum :=
      outstanding_of_eq hqueue
    have hafter : outstanding { o with
        writer := .returned frame ok
        handled := o.handled ++ [frame]
        written := if ok then o.written ++ [frame] else o.written } =
          (o.channel.map (·.size)).sum :=
      outstanding_of_eq (by rw [append_assoc]; exact hqueue)
    refine h.move rfl rfl rfl (by omega) ?_
    rw [hafter, hbefore, hwriter]
    simp only [Writer.unsettled]
    omega
  | @settle frame ok hwriter =>
    refine h.move rfl rfl rfl (le_refl _) ?_
    have hnow : (if ok = true then Writer.waiting else .failed).unsettled = 0 := by
      cases ok <;> rfl
    show o.queued - frame.size + (o.outstanding + o.writer.unsettled : Nat) =
      o.queued + (o.outstanding + (if ok = true then Writer.waiting else .failed).unsettled : Nat)
    rw [hnow, hwriter]
    simp only [Writer.unsettled]
    omega
  | hangUp => exact h.move rfl rfl rfl (le_refl _) rfl

end Ledger

/-! ## §4. After a refusal. -/

def Shut (o : Outbox) : Prop := o.closed = true ∨ o.writer = .gone

/-- What a push in this phase says about the queue. -/
structure PushOk (o : Outbox) (p : Push) : Prop where
  refused : p.phase = .refused → o.Shut
  won : p.phase = .won → o.closed = true
  bounced : p.phase = .bounced → o.writer = .gone
  shut : p.late = true → o.Shut
  late : p.late = true → p.phase = .begun ∨ p.phase = .refused ∨
    o.writer = .gone ∧ p.phase ≠ .accepted

structure Gate (o : Outbox) : Prop where
  pushes : ∀ p ∈ o.pushes, o.PushOk p
  sent : ∀ frame ∈ o.accepted, ∃ p, o.pushes[frame.push]? = some p ∧ p.phase = .accepted
  once : o.overflows + (if o.onOverflow then 1 else 0) = 1

theorem PushOk.mono (h : o.PushOk p) (hclosed : o.closed = true → o'.closed = true)
    (hgone : o.writer = .gone → o'.writer = .gone) : o'.PushOk p where
  refused hp := (h.refused hp).imp hclosed hgone
  won hp := hclosed (h.won hp)
  bounced hp := hgone (h.bounced hp)
  shut hp := (h.shut hp).imp hclosed hgone
  late hp := (h.late hp).imp id (Or.imp id (And.imp hgone id))

namespace Gate

theorem spawn (limit : Nat) : (spawn limit).Gate :=
  ⟨nofun, nofun, rfl⟩

theorem enter (h : o.Gate) (size : Nat) : (o.enter size).Gate := by
  refine ⟨?_, ?_, h.once⟩
  · show ∀ p ∈ o.pushes ++ [_], PushOk _ p
    rw [forall_mem_append]
    refine ⟨fun p hp => (h.pushes p hp).mono id id, ?_⟩
    rw [forall_mem_singleton]
    refine ⟨nofun, nofun, nofun, fun hlate => ?_, fun _ => .inl rfl⟩
    obtain ⟨q, hq, hphase⟩ := any_eq_true.mp hlate
    exact (h.pushes q hq).refused (of_decide_eq_true hphase)
  · intro frame hframe
    obtain ⟨p, hp, hphase⟩ := h.sent frame hframe
    have hlt := (List.getElem?_eq_some_iff.mp hp).1
    exact ⟨p, (List.getElem?_append_left hlt).trans hp, hphase⟩

theorem mark (h : o.Gate) (hp : o.pushes[i]? = some p) (hunsent : p.phase ≠ .accepted)
    {phase : Phase} (hpushes : o'.pushes = o.pushes.set i { p with phase := phase })
    (hclosed : o.closed = true → o'.closed = true) (hgone : o.writer = .gone → o'.writer = .gone)
    (haccepted : o'.accepted = o.accepted)
    (honce : o'.overflows + (if o'.onOverflow then 1 else 0) = 1)
    (hok : o'.PushOk { p with phase := phase }) : o'.Gate := by
  refine ⟨?_, ?_, honce⟩
  · rw [hpushes]
    intro q hq
    rcases mem_or_eq_of_mem_set hq with hq | rfl
    · exact (h.pushes q hq).mono hclosed hgone
    · exact hok
  · rw [haccepted, hpushes]
    intro frame hframe
    obtain ⟨q, hq, hphase⟩ := h.sent frame hframe
    have hne : i ≠ frame.push := by
      rintro rfl
      cases hp.symm.trans hq
      exact hunsent hphase
    exact ⟨q, (getElem?_set_ne hne).trans hq, hphase⟩

/-- **A frame is sent**: its push began before any refusal. -/
theorem send (h : o.Gate) (hp : o.pushes[i]? = some p) (hphase : p.phase = .counted)
    (hthere : o.writer ≠ .gone) :
    Gate ({ o with
      channel := o.channel ++ [Frame.mk i p.size]
      accepted := o.accepted ++ [Frame.mk i p.size] }.mark i p .accepted) := by
  have hmem : p ∈ o.pushes := List.mem_iff_getElem?.mpr ⟨i, hp⟩
  have hearly : p.late ≠ true := by
    intro hlate
    rcases (h.pushes p hmem).late hlate with hbegun | hrefused | ⟨hgone, _⟩
    · cases hphase.symm.trans hbegun
    · cases hphase.symm.trans hrefused
    · exact hthere hgone
  have hlt := (List.getElem?_eq_some_iff.mp hp).1
  refine ⟨?_, ?_, h.once⟩
  · intro q hq
    rcases mem_or_eq_of_mem_set hq with hq | rfl
    · exact (h.pushes q hq).mono id id
    · exact ⟨nofun, nofun, nofun, (absurd · hearly), (absurd · hearly)⟩
  · show ∀ frame ∈ o.accepted ++ [Frame.mk i p.size],
      ∃ q, (o.pushes.set i { p with phase := .accepted })[frame.push]? = some q ∧ _
    rw [forall_mem_append, forall_mem_singleton]
    refine ⟨fun frame hframe => ?_, _, getElem?_set_self hlt, rfl⟩
    obtain ⟨q, hq, hqphase⟩ := h.sent frame hframe
    have hne : i ≠ frame.push := by
      rintro rfl
      cases hp.symm.trans hq
      cases hphase.symm.trans hqphase
    exact ⟨q, (getElem?_set_ne hne).trans hq, hqphase⟩

theorem advance (h : o.Gate) (hp : o.pushes[i]? = some p) (hs : o.advance i p = some o') :
    o'.Gate := by
  have hmem : p ∈ o.pushes := mem_iff_getElem?.mpr ⟨i, hp⟩
  have hwas := h.pushes p hmem
  have hmoving : p.phase ≠ .accepted ∧ p.phase ≠ .refused := by
    constructor <;> intro hphase <;> simp [Outbox.advance, hphase] at hs
  -- A late push that got past the flag found the writer gone.
  have hgone (hbegun : p.phase ≠ .begun) (hlate : p.late = true) : o.writer = .gone :=
    (((hwas.late hlate).resolve_left hbegun).resolve_left hmoving.2).1
  unfold Outbox.advance at hs
  split at hs
  case h_1 hphase =>
    cases hs
    cases hclosed : o.closed with
    | true =>
      refine h.mark hp hmoving.1 rfl id id rfl h.once ?_
      exact ⟨fun _ => .inl hclosed, nofun, nofun, hwas.shut, fun _ => .inr (.inl rfl)⟩
    | false =>
      refine h.mark hp hmoving.1 rfl id id rfl h.once ?_
      refine ⟨nofun, nofun, nofun, hwas.shut, fun hlate => .inr (.inr ⟨?_, nofun⟩)⟩
      exact (hwas.shut hlate).resolve_left fun hc => by cases hclosed.symm.trans hc
  case h_2 hphase =>
    cases hs
    have hlate := hgone (by rw [hphase]; exact nofun)
    refine h.mark hp hmoving.1 rfl id id rfl h.once ?_
    split <;> exact ⟨nofun, nofun, nofun, hwas.shut, fun hl => .inr (.inr ⟨hlate hl, nofun⟩)⟩
  case h_3 hphase =>
    have hlate := hgone (by rw [hphase]; exact nofun)
    split at hs
    next hleft =>
      cases hs
      refine h.mark hp hmoving.1 rfl id id rfl h.once ?_
      exact ⟨nofun, nofun, fun _ => hleft, hwas.shut, fun hl => .inr (.inr ⟨hlate hl, nofun⟩)⟩
    next hthere => cases hs; exact h.send hp hphase hthere
  case h_4 hphase =>
    cases hs
    have hlate := hgone (by rw [hphase]; exact nofun)
    refine h.mark hp hmoving.1 rfl id id rfl h.once ?_
    exact ⟨nofun, nofun, nofun, hwas.shut, fun hl => .inr (.inr ⟨hlate hl, nofun⟩)⟩
  case h_5 hphase =>
    cases hs
    have hlate := hgone (by rw [hphase]; exact nofun)
    refine h.mark hp hmoving.1 rfl (fun _ => rfl) id rfl h.once ?_
    split
    · exact ⟨fun _ => .inl rfl, nofun, nofun, fun _ => .inl rfl, fun _ => .inr (.inl rfl)⟩
    · exact ⟨nofun, fun _ => rfl, nofun, fun _ => .inl rfl,
        fun hl => .inr (.inr ⟨hlate hl, nofun⟩)⟩
  case h_6 hphase =>
    cases hs
    have hclosed := hwas.won hphase
    refine h.mark hp hmoving.1 rfl id id rfl ?_ ?_
    · have honce := h.once
      show (if o.onOverflow then o.overflows + 1 else o.overflows) + 0 = 1
      split <;> simp_all
    · exact ⟨fun _ => .inl hclosed, nofun, nofun, fun _ => .inl hclosed, fun _ => .inr (.inl rfl)⟩
  case h_7 hphase =>
    cases hs
    have hleft := hwas.bounced hphase
    refine h.mark hp hmoving.1 rfl id id rfl h.once ?_
    exact ⟨fun _ => .inr hleft, nofun, nofun, hwas.shut, fun _ => .inr (.inl rfl)⟩
  all_goals cases hs

theorem move (h : o.Gate) (hpushes : o'.pushes = o.pushes) (haccepted : o'.accepted = o.accepted)
    (honce : o'.overflows = o.overflows ∧ o'.onOverflow = o.onOverflow)
    (hclosed : o.closed = true → o'.closed = true)
    (hgone : o.writer = .gone → o'.writer = .gone) : o'.Gate := by
  refine ⟨?_, ?_, ?_⟩
  · rw [hpushes]
    exact fun p hp => (h.pushes p hp).mono hclosed hgone
  · rw [haccepted, hpushes]
    exact h.sent
  · rw [honce.1, honce.2]
    exact h.once

theorem step (h : o.Gate) {event : Event} (hs : o.step event = some o') : o'.Gate := by
  cases Step.of_step hs with
  | push => exact h.enter _
  | advance hp hs => exact h.advance hp hs
  | recv hwriter _ | hungUp hwriter | check hwriter | writeReturns hwriter | settle hwriter =>
    exact h.move rfl rfl ⟨rfl, rfl⟩ id fun hgone => by cases hwriter.symm.trans hgone
  | close hwriter =>
    exact h.move rfl rfl ⟨rfl, rfl⟩ (fun _ => rfl) fun hgone => by
      cases hwriter.symm.trans hgone
  | drop => exact h.move rfl rfl ⟨rfl, rfl⟩ id fun _ => rfl
  | hangUp => exact h.move rfl rfl ⟨rfl, rfl⟩ id id

end Gate

/-! ## §5. A push that nothing steps into. -/

/-- Open, with no push in progress, every accepted frame dealt with, and the writer waiting
for the next. -/
def Idle (o : Outbox) : Prop :=
  o.handles = true ∧ o.closed = false ∧ o.writer = .waiting ∧ o.channel = [] ∧
    ∀ p ∈ o.pushes, p.done = true

/-- The writer's steps, and those of push `i`. -/
def alone (i : Nat) : Outbox → Event → Prop := fun _ event =>
  match event with
  | .push _ | .hangUp => False
  | .advance j => j = i
  | _ => True

/-- Push `i` will be accepted, and has `left` steps to go. -/
def OnItsWay (o : Outbox) (i : Nat) : Nat → Prop
  | 0 => ∃ p, o.pushes[i]? = some p ∧ p.phase = .accepted
  | left + 1 =>
    (o.handles = true ∧ o.closed = false ∧ o.writer = .waiting ∧ o.channel = []) ∧
      ∃ p, o.pushes[i]? = some p ∧ (left = 0 ∧ p.phase = .counted ∨
        o.queued = 0 ∧ (left = 1 ∧ p.phase = .opened ∨ left = 2 ∧ p.phase = .begun))

theorem onItsWay_enter (horder : o.InOrder) (h : o.Ledger) (hidle : o.Idle) (size : Nat) :
    (o.enter size).OnItsWay o.pushes.length 3 := by
  obtain ⟨hhandles, hclosed, hwriter, hchannel, hdone⟩ := hidle
  refine ⟨⟨hhandles, hclosed, hwriter, hchannel⟩, _, getElem?_concat_length,
    .inr ⟨?_, .inr ⟨rfl, rfl⟩⟩⟩
  have hqueue := horder.queue (by rw [hwriter]; rfl)
  rw [hwriter, hchannel] at hqueue
  have hout : o.outstanding = 0 := outstanding_of_eq hqueue
  have hpending : o.pending = 0 := pending_eq_zero hdone
  have hcounter := h.counter
  rw [hout, hpending, hwriter] at hcounter
  exact hcounter

theorem OnItsWay.advance {left : Nat} (h : o.OnItsWay i (left + 1)) :
    ∃ o', o.step (.advance i) = some o' ∧ o'.OnItsWay i left := by
  obtain ⟨hopen, p, hp, hphase⟩ := h
  have hlt := (List.getElem?_eq_some_iff.mp hp).1
  show ∃ o', o.pushes[i]?.bind (o.advance i) = some o' ∧ _
  rw [hp, bind_some]
  rcases hphase with ⟨rfl, hphase⟩ | ⟨hzero, ⟨rfl, hphase⟩ | ⟨rfl, hphase⟩⟩
  · have hthere : o.writer ≠ .gone := by rw [hopen.2.2.1]; exact nofun
    simp only [Outbox.advance, hphase, if_neg hthere]
    exact ⟨_, rfl, _, getElem?_set_self hlt, rfl⟩
  · simp only [Outbox.advance, hphase, hzero, lt_irrefl, false_and, if_false]
    exact ⟨_, rfl, hopen, _, getElem?_set_self hlt, .inl ⟨rfl, rfl⟩⟩
  · simp only [Outbox.advance, hphase, hopen.2.1]
    exact ⟨_, rfl, hopen, _, getElem?_set_self hlt, .inr ⟨hzero, .inl ⟨rfl, rfl⟩⟩⟩

theorem OnItsWay.step {left : Nat} (h : o.OnItsWay i left) {event : Event}
    (hok : alone i o event) (hs : o.step event = some o') : ∃ left, o'.OnItsWay i left := by
  cases left with
  | zero =>
    obtain ⟨p, hp, hphase⟩ := h
    refine ⟨0, p, ?_, hphase⟩
    cases Step.of_step hs with
    | push | hangUp => cases hok
    | advance hq hs =>
      cases hok
      cases hp.symm.trans hq
      simp only [Outbox.advance, hphase] at hs
      cases hs
    | _ => exact hp
  | succ left =>
    cases event with
    | push _ | hangUp => cases hok
    | advance j =>
      cases hok
      obtain ⟨next, hnext, hway⟩ := h.advance
      cases hnext.symm.trans hs
      exact ⟨left, hway⟩
    | recv | check | writeReturns _ | settle | close | drop =>
      -- The writer waits, and there is nothing for it to take.
      obtain ⟨⟨hhandles, _, hwriter, hchannel⟩, _⟩ := h
      simp only [Outbox.step, hwriter, hchannel, hhandles, if_true] at hs
      cases hs

theorem OnItsWay.completes {left : Nat} (h : o.OnItsWay i left) :
    ∃ o', run Outbox.step o (replicate left (.advance i)) = some o' ∧
      ∃ p, o'.pushes[i]? = some p ∧ p.phase = .accepted := by
  induction left generalizing o with
  | zero => exact ⟨o, rfl, h⟩
  | succ left ih =>
    obtain ⟨next, hnext, hway⟩ := h.advance
    obtain ⟨o', hrun, hdone⟩ := ih hway
    exact ⟨o', bind_eq_some_iff.mpr ⟨next, hnext, hrun⟩, hdone⟩

/-- Whatever the writer does meanwhile, push `i` is not refused, and its own next steps get
it accepted. -/
def SureOf (o : Outbox) (i : Nat) : Prop :=
  ∀ o', Reach Outbox.step (alone i) o o' →
    ∃ left o'', run Outbox.step o' (replicate left (.advance i)) = some o'' ∧
      ∃ p, o''.pushes[i]? = some p ∧ p.phase = .accepted

theorem OnItsWay.sureOf {left : Nat} (h : o.OnItsWay i left) : o.SureOf i := by
  intro o' hreach
  obtain ⟨left, hway⟩ : ∃ left, o'.OnItsWay i left := by
    induction hreach with
    | refl => exact ⟨left, h⟩
    | step _ hok hs ih =>
      obtain ⟨_, hway⟩ := ih
      exact hway.step hok hs
  obtain ⟨o'', hrun, hdone⟩ := hway.completes
  exact ⟨left, o'', hrun, hdone⟩

/-! ## §6. Every interleaving. -/

theorem largest_ge {frame : Frame} (h : frame ∈ o.accepted) : frame.size ≤ o.largest := by
  unfold largest
  generalize o.accepted = accepted at h
  induction accepted with
  | nil => cases h
  | cons first rest ih =>
    rcases mem_cons.mp h with rfl | h
    · exact le_max_left _ _
    · exact (ih h).trans (le_max_right _ _)

theorem advance_limit (hs : o.advance i p = some o') : o'.limit = o.limit := by
  unfold Outbox.advance at hs
  split at hs
  case h_3 => split at hs <;> cases hs <;> rfl
  all_goals cases hs
  all_goals rfl

theorem step_limit {event : Event} (hs : o.step event = some o') : o'.limit = o.limit := by
  cases Step.of_step hs with
  | advance _ hs => exact advance_limit hs
  | _ => rfl

/-- What a queue of this limit owes its callers. -/
structure Bounded (limit : Nat) (o : Outbox) : Prop where
  written : o.written <+: o.accepted
  counter : 0 ≤ o.queued
  settled : o.Settled → o.queued = o.outstanding
  bound : o.outstanding ≤ max limit o.largest
  idle : o.Idle → ∀ size, (o.enter size).SureOf o.pushes.length
  once : o.overflows ≤ 1
  early : ∀ frame ∈ o.written, ∀ p, o.pushes[frame.push]? = some p → p.late = false

/-- **The bounded outbox.**  Whatever the interleaving of pushes and writer: what is written
is a beginning of what was accepted; the counter does not go below zero, and between steps
is the size of the accepted frames whose write has not returned; this never passes the
limit or the largest frame accepted; an idle queue accepts any frame whose push nothing
steps into; the overflow action runs at most once; and no push that began after a refusal
is written. -/
theorem outbox_bounded (limit : Nat)
    (hreach : Reach Outbox.step anyStep (spawn limit) o) : Bounded limit o := by
  obtain ⟨horder, hledger, hgate, hlimit⟩ :
      o.InOrder ∧ o.Ledger ∧ o.Gate ∧ o.limit = limit := by
    induction hreach with
    | refl => exact ⟨.spawn limit, .spawn limit, .spawn limit, rfl⟩
    | step _ _ hs ih =>
      obtain ⟨horder, hledger, hgate, hlimit⟩ := ih
      exact ⟨horder.step hs, hledger.step horder hs, hgate.step hs,
        (step_limit hs).trans hlimit⟩
  have hcounter := hledger.counter
  refine ⟨horder.written.trans horder.handled, by omega, fun hsettled => ?_, ?_,
    fun hidle size => (onItsWay_enter horder hledger hidle size).sureOf, ?_, ?_⟩
  · have hpending : o.pending = 0 := pending_eq_zero hsettled.1
    have hunsettled : o.writer.unsettled = 0 := by
      cases hwriter : o.writer with
      | returned frame ok => exact absurd hwriter (hsettled.2 frame ok)
      | _ => rfl
    omega
  · rw [← hlimit]
    rcases hledger.within with hin | ⟨frame, hframe, hsize⟩ | ⟨hzero, -⟩
    · exact le_max_of_le_left (by omega)
    · have := largest_ge hframe
      exact le_max_of_le_right (by omega)
    · exact hzero.trans_le (Nat.zero_le _)
  · have := hgate.once
    omega
  · intro frame hframe p hp
    obtain ⟨q, hq, hphase⟩ :=
      hgate.sent frame ((horder.written.trans horder.handled).subset hframe)
    cases hp.symm.trans hq
    cases hlate : p.late with
    | false => rfl
    | true =>
      rcases (hgate.pushes p (mem_iff_getElem?.mpr ⟨_, hp⟩)).late hlate with h | h | h
      · cases hphase.symm.trans h
      · cases hphase.symm.trans h
      · exact absurd hphase h.2

/-- Two frames pass; the third finds the queue full and closes it. -/
def fills : List Event :=
  [.push 2, .advance 0, .advance 0, .advance 0, .recv, .check, .push 1, .advance 1, .advance 1,
    .writeReturns true, .settle, .advance 1, .push 3, .advance 2, .advance 2, .advance 2,
    .advance 2, .advance 2]

theorem outbox_bounded_fills :
    ∃ o, run Outbox.step (spawn 3) fills = some o ∧
      (o.written, o.accepted, o.queued, o.overflows) =
        ([⟨0, 2⟩], [⟨0, 2⟩, ⟨1, 1⟩], 1, 1) ∧ Bounded 3 o := by
  have hrun : (run Outbox.step (spawn 3) fills).map
      (fun o => (o.written, o.accepted, o.queued, o.overflows)) =
        some ([⟨0, 2⟩], [⟨0, 2⟩, ⟨1, 1⟩], 1, 1) := by decide +kernel
  obtain ⟨o, hrun, ho⟩ := map_eq_some_iff.mp hrun
  exact ⟨o, hrun, ho, outbox_bounded 3 (reach_of_run _ hrun)⟩

/-- A push begins on an empty queue; another is faster and fills it. -/
def overtaken : List Event :=
  [.push 1, .push 1, .advance 1, .advance 0, .advance 1, .advance 1, .advance 0, .advance 0,
    .advance 0, .advance 0]

def closedUnder : List Event :=
  [.push 1, .advance 0, .advance 0, .advance 0, .recv, .check, .writeReturns false, .settle,
    .push 1, .close, .advance 1]

/-- Neither push is accepted, though it began on an empty counter of an open queue with a live
writer and no other push in progress; and after the failed write the counter leaves out a
frame that was accepted and not written. -/
theorem empty_queue_refuses :
    (∃ o, run Outbox.step (spawn 1) (overtaken.take 0) = some o ∧
      (o.queued, o.closed, o.writer, o.pushes) = (0, false, .waiting, [])) ∧
    (∃ o, run Outbox.step (spawn 1) overtaken = some o ∧
      o.pushes.map (·.phase) = [.refused, .accepted]) ∧
    (∃ o, run Outbox.step (spawn 1) (closedUnder.take 8) = some o ∧
      (o.queued, o.closed, o.writer, o.pushes.map (·.phase), o.written) =
        (0, false, .failed, [.accepted], [])) ∧
    ∃ o, run Outbox.step (spawn 1) closedUnder = some o ∧
      o.pushes.map (·.phase) = [.accepted, .refused] := by
  have hovertaken : (run Outbox.step (spawn 1) overtaken).map (fun o : Outbox =>
      o.pushes.map (·.phase)) = some [.refused, .accepted] := by decide +kernel
  have hbefore : (run Outbox.step (spawn 1) (closedUnder.take 8)).map (fun o : Outbox =>
      (o.queued, o.closed, o.writer, o.pushes.map (·.phase), o.written)) =
        some (0, false, .failed, [.accepted], []) := by decide +kernel
  have hclosed : (run Outbox.step (spawn 1) closedUnder).map (fun o : Outbox =>
      o.pushes.map (·.phase)) = some [.accepted, .refused] := by decide +kernel
  exact ⟨⟨_, rfl, rfl⟩, map_eq_some_iff.mp hovertaken, map_eq_some_iff.mp hbefore,
    map_eq_some_iff.mp hclosed⟩

end Outbox

end DessPlay.Server.Outbound
