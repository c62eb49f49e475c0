/-
  DessPlay.Server.Shared
  **THE RENDEZVOUS SERVER'S TASKS, AT LOCK GRANULARITY**
  (`dessplay-rendezvous/src/server.rs`).

  One task per connection and one per timer share a state.  A handler alternates between

    * WORK: one critical section on the state (or one access to the atomic stamp
      counter), which may author ops or capture a full state, and
    * SENDS: what the section produced goes out AFTER the lock is released, to
      one connection at a time.

  Every step below is one such section or one push.  The lock is held across two
  steps in one place only: between the merge of a client's state and its observation
  another task may take a stamp.

  An argument of the step (`Choice`) are the clock, the order in which the registry's
  hash map lists connections, and what `derive` reads off the view.

  `hist`, `authored`, `issued` and `observed` record the past; nothing reads them back.
-/
import DessPlay.Core.Broadcast
import DessPlay.Core.Compact
import DessPlay.Core.Message

namespace DessPlay.Server

open Crdts DessPlay.Core CrdtState

/-! ## §1. What goes out, and where to. -/

abbrev ConnId : Type := Nat

inductive TaskId where
  | conn (n : ConnId)
  | timer (k : Nat)
  deriving DecidableEq

inductive RelayTransport where
  | eager | datagramOnly
  deriving DecidableEq, Repr

def relayTransport (op : CrdtOp) (viaDatagram : Bool) : RelayTransport :=
  match op with
  | .map .playbackPosition _ => if viaDatagram then .datagramOnly else .eager
  | _ => .eager

/-- A message on its way out.  `point` places it in the state's mutation order:
the number of mutations before it (an op) or in it (a full state). -/
structure Outgoing (H : Type) where
  msg : ServerControl H
  point : Nat
  /-- an op the server authored itself -/
  authored : Bool

inductive Targets where
  /-- before `live_conns` is read: every live connection but one -/
  | all (skip : Option ConnId)
  /-- the rest of the loop over the connections -/
  | conns (ids : List ConnId)

structure Send (H : Type) where
  out : Outgoing H
  reliable : Bool
  datagram : Bool
  targets : Targets

/-- `broadcast_op`. -/
def broadcastOp {H : Type} (out : Outgoing H) (skip : Option ConnId)
    (transport : RelayTransport) : Send H :=
  ⟨out, transport = .eager, true, .all skip⟩

/-- `broadcast_control`. -/
def broadcastControl {H : Type} (out : Outgoing H) (skip : Option ConnId) : Send H :=
  ⟨out, true, false, .all skip⟩

/-- `send_to`. -/
def sendTo {H : Type} (n : ConnId) (out : Outgoing H) : Send H := ⟨out, true, false, .conns [n]⟩

/-! ## §2. The state behind the lock. -/

/-- One mutation of the state. -/
inductive Mutated where
  | op (epoch : Epoch) (op : CrdtOp)
  | merged (snapshot : StateSnapshot)
  /-- the state compacted, and what replaced it -/
  | compacted (before : CrdtState) (snapshot : StateSnapshot)

structure Core where
  state : CrdtState
  epoch : Epoch
  lastIssued : Nat
  /-- who holds the `state` lock between two steps -/
  lock : Option TaskId
  /-- the state's mutation order -/
  hist : List Mutated
  /-- the ops the server wrote itself -/
  authored : List CrdtOp
  /-- the stamps handed out, in order -/
  issued : List SharedTimestamp
  /-- the timestamps of the ops received -/
  observed : List SharedTimestamp

structure Choice where
  /-- the clock readings of this step -/
  now : Nat → Nat
  /-- the answer of `derive::saved_position` -/
  saved : Option Nat
  /-- the writes of an EOF transition, or the List advances of a mark-watched -/
  writes : List Write
  /-- the live connections, in the order of the registry's iteration -/
  conns : List ConnId

namespace Core

variable {H : Type} (c : Core)

/-- `fetch_update(max(now, last + 1))`. -/
def stamp (now : Nat) : Core × SharedTimestamp :=
  let ts := max now (c.lastIssued + 1)
  ({ c with lastIssued := ts, issued := c.issued ++ [ts] }, ts)

/-- `fetch_max`. -/
def observe (ts : Option SharedTimestamp) : Core :=
  match ts with
  | some ts => { c with lastIssued := max c.lastIssued ts }
  | none => c

def snapshot : StateSnapshot := ⟨c.epoch, c.state⟩

def capture (msg : ServerControl H) : Outgoing H := ⟨msg, c.hist.length, false⟩

def author (ts : SharedTimestamp) (w : Write) : Core × Outgoing H :=
  let (state, op) := c.state.put ActorId.SERVER ts w
  ({ c with state := state, hist := c.hist ++ [.op c.epoch op], authored := c.authored ++ [op] },
    ⟨.stateOp c.epoch op, c.hist.length, true⟩)

/-- Several stamped writes in one section. -/
def authorAll (c : Core) (now : Nat → Nat) : List Write → Core × List (Outgoing H)
  | [] => (c, [])
  | w :: ws =>
    let (c₁, ts) := c.stamp (now 0)
    let (c₂, out) := c₁.author ts w
    let (c₃, outs) := authorAll c₂ (fun i => now (i + 1)) ws
    (c₃, out :: outs)

def nowPlaying : Option Ed2kHash :=
  ((c.state.regs .nowPlaying).value : Option (Option Ed2kHash)).join

/-- The saved-position write for the file that `before` was, when it is no longer
playing and somebody had it loaded. -/
def savePosition (before : Option Ed2kHash) (choice : Choice) : Core × Option (Outgoing H) :=
  match before, choice.saved with
  | some file, some millis =>
    if c.nowPlaying = before then (c, none)
    else
      let (c₁, ts) := c.stamp (choice.now 0)
      let (c₂, out) := c₁.author ts (.map .savedPosition file (millis : Nat))
      (c₂, some out)
  | _, _ => (c, none)

end Core

/-! ## §3. Work. -/

inductive Work (H : Type) where
  /-- `observe` of a received op -/
  | observe (ts : Option SharedTimestamp)
  /-- the `StateOp` section -/
  | applyOp (sender : ConnId) (epoch : Epoch) (op : CrdtOp) (viaDatagram : Bool)
  /-- `server_write`, before its stamp -/
  | serverWrite (w : Write)
  /-- `server_write`, stamped, before the lock -/
  | write (ts : SharedTimestamp) (w : Write)
  | eof (file : Ed2kHash)
  | markWatched (file : Ed2kHash) (watched : Bool)
  | syncStatus (n : ConnId) (epoch : Epoch) (hash : Option H)
  | requestMerge (n : ConnId)
  /-- the `StateMerge` section up to the merge -/
  | mergeState (snapshot : StateSnapshot)
  /-- and from the observation to its end -/
  | observeMerged (before : Option Ed2kHash)
  /-- the second `snapshot()` of a client merge; then the saved position -/
  | rebroadcast (saved : Option (Outgoing H))
  | compact (chatKeep : Nat)
  | compactSnapshot
  | stateHash

/-- A task between two steps: what is still to be sent, then what is still to be
done. -/
structure Task (H : Type) where
  sends : List (Send H)
  work : List (Work H)

def Task.idle {H : Type} : Task H := ⟨[], []⟩

def isNowPlaying : CrdtOp → Bool
  | .reg .nowPlaying _ => true
  | _ => false

def takeSeekAuthority {H : Type} : Work H := .serverWrite (.reg .seekAuthority .server)

structure Done (H : Type) where
  core : Core
  sends : List (Send H)
  work : List (Work H)

namespace Core

variable {H : Type} (c : Core)

/-- `StateOp`: dropped across epochs; fanned out iff this copy made news. -/
def applyOp (sender : ConnId) (epoch : Epoch) (op : CrdtOp) (viaDatagram : Bool)
    (choice : Choice) : Done H :=
  if epoch ≠ c.epoch then ⟨c, [], []⟩
  else
    let before := c.nowPlaying
    let (state, applied) := c.state.applyForBroadcast op viaDatagram
    if applied then
      let out : Outgoing H := ⟨.stateOp epoch op, c.hist.length, false⟩
      let c₁ := { c with state := state, hist := c.hist ++ [.op epoch op] }
      let relay := broadcastOp out (some sender) (relayTransport op viaDatagram)
      if isNowPlaying op then
        let (c₂, saved) := c₁.savePosition before choice
        ⟨c₂, relay :: saved.toList.map (broadcastOp · none .eager), [takeSeekAuthority]⟩
      else ⟨c₁, [relay], []⟩
    else ⟨{ c with state := state }, [], []⟩

/-- `server_write` under the lock. -/
def write (ts : SharedTimestamp) (w : Write) : Done H :=
  let (c₁, out) := c.author ts w
  ⟨c₁, [broadcastOp out none .eager], []⟩

def batch (now : Nat → Nat) (ws : List Write) : Done H :=
  let (c₁, outs) := c.authorAll now ws
  ⟨c₁, outs.map (broadcastOp · none .eager), []⟩

def markWatchedWrites (file : Ed2kHash) (watched : Bool) (advances : List Write) : List Write :=
  if (((c.state.maps .watched).get file).bind LwwCell.value : Option Bool) = some watched then []
  else .map .watched file watched :: if watched then advances else []

/-- `SyncStatus`: a merge only for an identical replica. -/
def answerSync [DecidableEq H] (digest : StateView → H) (n : ConnId) (epoch : Epoch)
    (hash : Option H) : Done H :=
  let identical := epoch = c.epoch ∧ hash = c.state.viewHash digest
  ⟨c, [sendTo n (c.capture (if identical then .stateMerge c.snapshot
    else .stateSnapshot c.snapshot))], []⟩

/-- `StateMerge`, up to the merge; the lock stays with the task. -/
def mergeState (t : TaskId) (snapshot : StateSnapshot) : Done H :=
  if snapshot.epoch ≠ c.epoch then ⟨c, [], []⟩
  else
    ⟨{ c with
        state := c.state.merge snapshot.state
        hist := c.hist ++ [.merged snapshot]
        lock := some t }, [], [.observeMerged c.nowPlaying]⟩

/-- `StateMerge`, from the observation on. -/
def observeMerged (before : Option Ed2kHash) (choice : Choice) : Done H :=
  let c := { c.observe (some c.state.maxLwwTimestamp) with lock := none }
  if c.nowPlaying = before then ⟨c, [], [.rebroadcast none]⟩
  else
    let (c₁, saved) := c.savePosition before choice
    ⟨c₁, [], [.rebroadcast saved, takeSeekAuthority]⟩

/-- The `i`-th of several stamps taken in a row. -/
def stampAt (last : Nat) (now : Nat → Nat) : Nat → SharedTimestamp
  | 0 => max (now 0) (last + 1)
  | i + 1 => max (now (i + 1)) (stampAt last now i + 1)

/-- `compact_state`'s section; `none` is the panic of an unreadable chat line.
2^64 compactions are not considered. -/
def compact (chatKeep : Nat) (now : Nat → Nat) : Option (Done H) :=
  c.state.view?.bind fun view =>
    if c.epoch + 1 < 2 ^ 64 then
      let stamps := stampAt c.lastIssued now
      let b := rebuildRun view ActorId.SERVER chatKeep stamps
      let taken := (List.range b.taken).map stamps
      some
        ⟨{ c with
            state := b.fresh
            epoch := Epoch.next c.epoch
            lastIssued := taken.foldl max c.lastIssued
            hist := c.hist ++ [.compacted c.state ⟨Epoch.next c.epoch, b.fresh⟩]
            issued := c.issued ++ taken }, [], [.compactSnapshot]⟩
    else none

variable [DecidableEq H] (digest : StateView → H)

def whenFree {α : Type} (x : Option α) : Option α := if c.lock = none then x else none

theorem whenFree_eq_some {α : Type} {c : Core} {x : Option α} {y : α} :
    c.whenFree x = some y ↔ c.lock = none ∧ x = some y := by
  unfold whenFree
  split
  next h => exact ⟨fun hx => ⟨h, hx⟩, And.right⟩
  next h => exact ⟨fun hx => absurd hx (by simp), fun hx => absurd hx.1 h⟩

/-- One piece of work of task `t`; `none` when it has to wait. -/
def perform (t : TaskId) (choice : Choice) : Work H → Option (Done H)
  | .observe ts => some ⟨{ c.observe ts with observed := c.observed ++ ts.toList }, [], []⟩
  | .applyOp sender epoch op viaDatagram =>
    c.whenFree (some (c.applyOp sender epoch op viaDatagram choice))
  | .serverWrite w =>
    some ⟨(c.stamp (choice.now 0)).1, [], [.write (c.stamp (choice.now 0)).2 w]⟩
  | .write ts w => c.whenFree (some (c.write ts w))
  | .eof file =>
    c.whenFree (some
      (c.batch choice.now (if c.nowPlaying = some file then choice.writes else [])))
  | .markWatched file watched =>
    c.whenFree (some (c.batch choice.now (c.markWatchedWrites file watched choice.writes)))
  | .syncStatus n epoch hash => c.whenFree (some (c.answerSync digest n epoch hash))
  | .requestMerge n =>
    c.whenFree (some ⟨c, [sendTo n (c.capture (.stateSnapshot c.snapshot))], []⟩)
  | .mergeState snapshot => c.whenFree (some (c.mergeState t snapshot))
  | .observeMerged before =>
    if c.lock = some t then some (c.observeMerged before choice) else none
  | .rebroadcast saved =>
    c.whenFree (some ⟨c, broadcastControl (c.capture (.stateMerge c.snapshot)) none ::
      saved.toList.map (broadcastOp · none .eager), []⟩)
  | .compact chatKeep => c.whenFree (c.compact chatKeep choice.now)
  | .compactSnapshot =>
    c.whenFree (some
      ⟨c, [broadcastControl (c.capture (.stateSnapshot c.snapshot)) none], []⟩)
  | .stateHash =>
    c.whenFree (some ⟨c, [broadcastControl
      (c.capture (.stateHash c.epoch (c.state.viewHash digest))) none], []⟩)

end Core

/-! ## §4. All tasks together. -/

structure Shared (H : Type) where
  core : Core
  tasks : TaskId → Task H
  /-- the connections in the registry -/
  live : List ConnId
  /-- the next connection id -/
  nextConn : ConnId
  /-- the connections that have had their initial sync -/
  syncSent : List ConnId
  /-- what was enqueued on each connection's reliable stream, in order -/
  out : ConnId → List (Outgoing H)
  /-- what was handed to each connection as a datagram -/
  datagrams : ConnId → List (Outgoing H)

inductive Job where
  /-- a write that a handler's tail, a timer or the AniDB worker decides on -/
  | write (w : Write)
  | compact (chatKeep : Nat)
  | hash

inductive ServerEvent (H : Type) where
  /-- a connection authenticates, superseding another one or none -/
  | register (supersedes : Option ConnId)
  | drop (n : ConnId)
  /-- a connection's task takes its next message -/
  | recv (n : ConnId) (msg : ServerControl H) (viaDatagram : Bool)
  | start (t : TaskId) (job : Job)
  /-- a task does its next piece of work or its next push -/
  | exec (t : TaskId) (choice : Choice)

namespace Shared

variable {H : Type}

def init (snapshot : StateSnapshot) : Shared H where
  core := ⟨snapshot.state, snapshot.epoch, snapshot.state.maxLwwTimestamp, none, [], [], [], []⟩
  tasks := fun _ => .idle
  live := []
  nextConn := 0
  syncSent := []
  out := fun _ => []
  datagrams := fun _ => []

section

variable (s : Shared H)

/-- What the handler of a message does. -/
def handler (n : ConnId) (viaDatagram : Bool) : ServerControl H → List (Work H)
  | .stateOp epoch op => [.observe op.lwwTimestamp, .applyOp n epoch op viaDatagram]
  | .eofReached file => [.eof file]
  | .markWatched file watched => [.markWatched file watched]
  | .syncStatus epoch hash => if n ∈ s.syncSent then [] else [.syncStatus n epoch hash]
  | .requestMerge => [.requestMerge n]
  | .stateMerge snapshot => [.mergeState snapshot]
  | _ => []

/-- A duplicate `SyncStatus` is not answered. -/
def noteSync (n : ConnId) : ServerControl H → List ConnId
  | .syncStatus _ _ => n :: s.syncSent
  | _ => s.syncSent

def Job.work : Job → Work H
  | .write w => .serverWrite w
  | .compact chatKeep => .compact chatKeep
  | .hash => .stateHash

def setTask (t : TaskId) (task : Task H) : Shared H :=
  { s with tasks := Function.update s.tasks t task }

def push (n : ConnId) (send : Send H) : Shared H :=
  { s with
    out := if send.reliable then Function.update s.out n (s.out n ++ [send.out]) else s.out
    datagrams :=
      if send.datagram then Function.update s.datagrams n (s.datagrams n ++ [send.out])
      else s.datagrams }

def advance (t : TaskId) (send : Send H) (rest : List (Send H)) (work : List (Work H))
    (choice : Choice) : Option (Shared H) :=
  match send.targets with
  | .all skip =>
    if choice.conns.Perm (s.live.filter fun n => some n ≠ skip) then
      some (s.setTask t ⟨{ send with targets := .conns choice.conns } :: rest, work⟩)
    else none
  | .conns [] => some (s.setTask t ⟨rest, work⟩)
  | .conns (n :: ns) =>
    some ((s.push n send).setTask t ⟨{ send with targets := .conns ns } :: rest, work⟩)

end

variable [DecidableEq H] (digest : StateView → H) (s : Shared H)

def exec (t : TaskId) (choice : Choice) : Option (Shared H) :=
  match s.tasks t with
  | ⟨send :: rest, work⟩ => s.advance t send rest work choice
  | ⟨[], w :: ws⟩ =>
    (s.core.perform digest t choice w).map fun done =>
      { s with core := done.core }.setTask t ⟨done.sends, done.work ++ ws⟩
  | ⟨[], []⟩ => none

def step : ServerEvent H → Option (Shared H)
  | .register supersedes =>
    some { s with
      live := s.live.filter (fun n => some n ≠ supersedes) ++ [s.nextConn]
      nextConn := s.nextConn + 1 }
  | .drop n => some { s with live := s.live.filter (· ≠ n) }
  | .recv n msg viaDatagram =>
    match s.tasks (.conn n) with
    | ⟨[], []⟩ =>
      if n < s.nextConn then
        some ({ s with syncSent := s.noteSync n msg }.setTask (.conn n)
          ⟨[], s.handler n viaDatagram msg⟩)
      else none
    | _ => none
  | .start t job =>
    match s.tasks t with
    | ⟨[], []⟩ => some (s.setTask t ⟨[], [Job.work job]⟩)
    | _ => none
  | .exec t choice => s.exec digest t choice

/-! ## §5. Everything a step can be. -/

inductive Step (s : Shared H) : ServerEvent H → Shared H → Prop
  | register (supersedes : Option ConnId) :
      Step s (.register supersedes)
        { s with
          live := s.live.filter (fun n => some n ≠ supersedes) ++ [s.nextConn]
          nextConn := s.nextConn + 1 }
  | drop (n : ConnId) : Step s (.drop n) { s with live := s.live.filter (· ≠ n) }
  | recv (n : ConnId) (msg : ServerControl H) (viaDatagram : Bool)
      (hidle : s.tasks (.conn n) = ⟨[], []⟩) (hn : n < s.nextConn) :
      Step s (.recv n msg viaDatagram)
        ({ s with syncSent := s.noteSync n msg }.setTask (.conn n)
          ⟨[], s.handler n viaDatagram msg⟩)
  | start (t : TaskId) (job : Job) (hidle : s.tasks t = ⟨[], []⟩) :
      Step s (.start t job) (s.setTask t ⟨[], [Job.work job]⟩)
  | work (t : TaskId) (choice : Choice) (w : Work H) (ws : List (Work H)) (done : Done H)
      (htask : s.tasks t = ⟨[], w :: ws⟩)
      (hdone : s.core.perform digest t choice w = some done) :
      Step s (.exec t choice)
        ({ s with core := done.core }.setTask t ⟨done.sends, done.work ++ ws⟩)
  | resolve (t : TaskId) (choice : Choice) (send : Send H) (rest : List (Send H))
      (work : List (Work H)) (skip : Option ConnId)
      (htask : s.tasks t = ⟨send :: rest, work⟩) (hall : send.targets = .all skip)
      (hconns : choice.conns.Perm (s.live.filter fun n => some n ≠ skip)) :
      Step s (.exec t choice)
        (s.setTask t ⟨{ send with targets := .conns choice.conns } :: rest, work⟩)
  | finish (t : TaskId) (choice : Choice) (send : Send H) (rest : List (Send H))
      (work : List (Work H)) (htask : s.tasks t = ⟨send :: rest, work⟩)
      (hnone : send.targets = .conns []) :
      Step s (.exec t choice) (s.setTask t ⟨rest, work⟩)
  | push (t : TaskId) (choice : Choice) (send : Send H) (rest : List (Send H))
      (work : List (Work H)) (n : ConnId) (ns : List ConnId)
      (htask : s.tasks t = ⟨send :: rest, work⟩) (hto : send.targets = .conns (n :: ns)) :
      Step s (.exec t choice)
        ((s.push n send).setTask t ⟨{ send with targets := .conns ns } :: rest, work⟩)

variable {s}

theorem Step.of_exec {t : TaskId} {choice : Choice} {s' : Shared H}
    (h : s.exec digest t choice = some s') : Step digest s (.exec t choice) s' := by
  unfold exec at h
  split at h
  next send rest work htask =>
    unfold advance at h
    split at h
    next skip hall =>
      split at h
      next hconns => cases h; exact .resolve t choice send rest work skip htask hall hconns
      · cases h
    next hnone => cases h; exact .finish t choice send rest work htask hnone
    next n ns hto => cases h; exact .push t choice send rest work n ns htask hto
  next w ws htask =>
    obtain ⟨done, hdone, rfl⟩ := Option.map_eq_some_iff.mp h
    exact .work t choice w ws done htask hdone
  · cases h

theorem Step.of_step {e : ServerEvent H} {s' : Shared H} (h : s.step digest e = some s') :
    Step digest s e s' := by
  cases e with
  | register supersedes => cases h; exact .register supersedes
  | drop n => cases h; exact .drop n
  | recv n msg via =>
    simp only [step] at h
    split at h
    next hidle =>
      split at h
      next hn => cases h; exact .recv n msg via hidle hn
      · cases h
    · cases h
  | start t job =>
    simp only [step] at h
    split at h
    next hidle => cases h; exact .start t job hidle
    · cases h
  | exec t choice => exact .of_exec digest h

end Shared

end DessPlay.Server
