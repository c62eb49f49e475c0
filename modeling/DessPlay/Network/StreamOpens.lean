/-
  DessPlay.Network.StreamOpens
  **STREAM-OPEN REQUESTS THROUGH THE NETWORK ACTOR** (`dessplay/src/actors/network.rs`).

  A request to open a data stream is taken by the actor's own task, which dials, serves
  a connection and backs off in turn; it buffers the request while no transfer link is
  up.  The link is a task of its own with a bounded channel of operations.  It hands each
  request to one more task, which opens the stream and answers.

  All of them send events on one bounded channel and wait there while it is full
  (`sending`).  The dial is the one place where the actor can be torn out of such a
  wait: `connect()` and the loop that takes commands meanwhile are two arms of one
  `select!`, and when the dial resolves the other arm is dropped where it stands.

  The log of requests taken and events sent is ghost state.
-/
import DessPlay.Core.Types
import DessPlay.Lib.Ledger
import DessPlay.Lib.Machine

namespace DessPlay.Network

open DessPlay.Core List Option Machine
open Ledger

/-! ## §1. Commands, events and operations. -/

abbrev OpenRequest : Type := UserId × Ed2kHash

inductive NetworkCommand where
  | sendReliable
  | sendEager
  | sendDatagramOnly
  | sendPeer (peer : UserId)
  | openTransferStream (peer : UserId) (file : Ed2kHash)
  | shutdown
  deriving DecidableEq

/-- Events to the main loop; `relayed` is any message passed on from the server or a peer. -/
inductive NetworkEvent where
  | connecting (attempt : Nat)
  | connected
  | rejected
  | disconnected
  | transferStream (peer : UserId) (file : Ed2kHash) (outbound : Bool)
  | transferStreamFailed (peer : UserId) (file : Ed2kHash)
  | transferLinkDown (consecutiveFailures : Nat)
  | transferLinkUp
  | linkHealth
  | relayed
  deriving DecidableEq

/-- The event ends the wait for a request: it carries the stream, its failure, or the news
that the connection is gone. -/
def NetworkEvent.answers : NetworkEvent → OpenRequest → Bool
  | .transferStream peer file outbound, r => outbound && (peer, file) == r
  | .transferStreamFailed peer file, r => (peer, file) == r
  | .disconnected, _ => true
  | _, _ => false

inductive TransferOp where
  | send (peer : UserId)
  | openStream (peer : UserId) (file : Ed2kHash)
  deriving DecidableEq

/-- `PENDING_OPEN_BUFFER`. -/
def pendingOpenBuffer : Nat := 64

def opChannel : Nat := 64

/-- `TRANSFER_LINK_DOWN_THRESHOLD`. -/
def transferLinkDownThreshold : Nat := 3

/-! ## §2. The transfer link. -/

structure TransferLink where
  queue : List TransferOp
  up : Bool
  consecutiveFailures : Nat
  downReported : Bool
  sending : Option NetworkEvent
  deriving DecidableEq

namespace TransferLink

def spawned : TransferLink := ⟨[], false, 0, false, none⟩

/-- `try_send` on the operation channel; `none` when it is full. -/
def trySend (link : TransferLink) (op : TransferOp) : Option TransferLink :=
  if link.queue.length < opChannel then some { link with queue := link.queue ++ [op] } else none

def forwardOpen (link : TransferLink) (r : OpenRequest) : TransferLink × Option NetworkEvent :=
  match link.trySend (.openStream r.1 r.2) with
  | some link' => (link', none)
  | none => (link, some (.transferStreamFailed r.1 r.2))

def noteTransferLinkFailure (link : TransferLink) : TransferLink :=
  let failures := link.consecutiveFailures + 1
  if failures = transferLinkDownThreshold ∧ link.downReported = false then
    { link with
      consecutiveFailures := failures, downReported := true,
      sending := some (.transferLinkDown failures) }
  else { link with consecutiveFailures := failures }

def comeUp (link : TransferLink) : TransferLink :=
  { link with
    up := true, consecutiveFailures := 0, downReported := false,
    sending := if link.downReported then some .transferLinkUp else none }

theorem queue_noteTransferLinkFailure (link : TransferLink) :
    link.noteTransferLinkFailure.queue = link.queue := by
  simp only [noteTransferLinkFailure]
  split <;> rfl

theorem mem_queue_trySend {link link' : TransferLink} {op op' : TransferOp}
    (h : link.trySend op = some link') : op' ∈ link'.queue ↔ op' ∈ link.queue ∨ op' = op := by
  unfold trySend at h
  split at h
  · cases h
    simp
  · cases h

end TransferLink

/-- A task in `open_data_stream`: once it is over, whether the stream was `opened`. -/
structure OpenTask where
  request : OpenRequest
  opened : Option Bool
  deriving DecidableEq

def answerOf (r : OpenRequest) (opened : Bool) : NetworkEvent :=
  if opened then .transferStream r.1 r.2 true else .transferStreamFailed r.1 r.2

@[simp] theorem answers_failed (r : OpenRequest) :
    (NetworkEvent.transferStreamFailed r.1 r.2).answers r = true := by
  simp [NetworkEvent.answers]

theorem answers_answerOf (r : OpenRequest) (opened : Bool) :
    (answerOf r opened).answers r = true := by
  cases opened <;> simp [answerOf, NetworkEvent.answers]

/-! ## §3. The actor. -/

/-- Where `run` stands; in `draining` the buffer goes into the link of this `AuthOk`. -/
inductive Phase where
  | announcing
  | dialing
  | unauthenticated
  | accepted
  | draining (link : TransferLink)
  | linked (link : TransferLink)
  | backoff
  | stopped
  deriving DecidableEq

namespace Phase

def transfer : Phase → Option TransferLink
  | draining link | linked link => some link
  | _ => none

def setTransfer : Phase → TransferLink → Phase
  | draining _, link => draining link
  | linked _, link => linked link
  | phase, _ => phase

/-- In the loop of `run_connection`. -/
def serving : Phase → Bool
  | unauthenticated | linked _ => true
  | _ => false

def afterSend : Phase → Phase
  | announcing => dialing
  | accepted => draining .spawned
  | phase => phase

variable {phase : Phase}

theorem ne_stopped_of_serving (h : phase.serving = true) : phase ≠ .stopped := by
  rintro rfl
  cases h

theorem afterSend_ne_stopped (h : phase.afterSend ≠ .stopped) : phase ≠ .stopped := by
  rintro rfl
  exact h rfl

theorem ne_stopped_of_transfer {link : TransferLink} (h : phase.transfer = some link) :
    phase ≠ .stopped := by
  rintro rfl
  cases h

theorem transfer_setTransfer {link : TransferLink} (h : phase.transfer = some link)
    (link' : TransferLink) : (phase.setTransfer link').transfer = some link' := by
  cases phase <;> first | rfl | cases h

end Phase

structure Actor where
  phase : Phase
  attemptNumber : Nat
  pendingOpens : List OpenRequest
  sending : Option NetworkEvent
  tasks : List OpenTask
  unread : Nat
  log : List (Entry OpenRequest NetworkEvent)
  deriving DecidableEq

inductive Event where
  /-- The actor's task finds room for the event it waits to send. -/
  | sent
  /-- A command is taken; `delivered` is what the transport makes of a message it sends. -/
  | command (cmd : NetworkCommand) (delivered : Bool)
  | dialed (ok : Bool)
  | authOk
  /-- `AuthFailed` or `ProtocolMismatch`. -/
  | refused
  | relay
  | healthTick
  /-- The control connection dies, or a probe or the `Auth` message cannot be sent on it. -/
  | lost
  | drain
  | backoffOver
  | linkFailed
  | linkUp
  | linkSent
  /-- The link takes an operation; `written` is what the relay stream makes of a message. -/
  | linkTake (written : Bool)
  | linkDied
  | opened (r : OpenRequest) (ok : Bool)
  | answered (r : OpenRequest) (ok : Bool)
  /-- A peer's stream toward us is classified, or its message read from the relay stream. -/
  | streamIn (peer : UserId) (file : Ed2kHash)
  | peerMessage
  /-- The main loop takes an event. -/
  | receive
  deriving DecidableEq

namespace Actor

def start : Actor :=
  { phase := .announcing, attemptNumber := 1, pendingOpens := [],
    sending := some (.connecting 1), tasks := [], unread := 0, log := [] }

def emit (s : Actor) (e : NetworkEvent) : Actor :=
  { s with unread := s.unread + 1, log := s.log ++ [.event e] }

def take (s : Actor) (r : OpenRequest) : Actor := { s with log := s.log ++ [.request r] }

def bufferOpen (s : Actor) (r : OpenRequest) : Actor :=
  if r ∈ s.pendingOpens then s
  else if s.pendingOpens.length ≥ pendingOpenBuffer then
    { s with sending := some (.transferStreamFailed r.1 r.2) }
  else { s with pendingOpens := s.pendingOpens ++ [r] }

def stashOpenOrDiscard (s : Actor) : NetworkCommand → Actor
  | .openTransferStream peer file => (s.take (peer, file)).bufferOpen (peer, file)
  | _ => s

def forward (s : Actor) (link : TransferLink) (r : OpenRequest) : Actor :=
  { s with
    phase := s.phase.setTransfer (link.forwardOpen r).1, sending := (link.forwardOpen r).2 }

/-- `ConnectionEnd::Lost`, or a dial that failed: the link is dropped with what it has queued. -/
def lose (s : Actor) : Actor := { s with phase := .backoff, sending := some .disconnected }

/-- The command arm of `run_connection`. -/
def connectionCommand (s : Actor) (cmd : NetworkCommand) (delivered : Bool) : Actor :=
  match cmd, s.phase.transfer with
  | .sendReliable, _ | .sendEager, _ => if delivered then s else s.lose
  | .sendDatagramOnly, _ => s
  | .sendPeer _, none => s
  | .sendPeer peer, some link =>
    { s with phase := s.phase.setTransfer ((link.trySend (.send peer)).getD link) }
  | .openTransferStream peer file, some link => (s.take (peer, file)).forward link (peer, file)
  | .openTransferStream peer file, none => (s.take (peer, file)).bufferOpen (peer, file)
  | .shutdown, _ => { s with phase := .stopped }

def onCommand (s : Actor) (cmd : NetworkCommand) (delivered : Bool) : Option Actor :=
  match s.phase with
  | .dialing | .backoff =>
    some (if cmd = .shutdown then { s with phase := .stopped } else s.stashOpenOrDiscard cmd)
  | .unauthenticated | .linked _ => some (s.connectionCommand cmd delivered)
  | _ => none

def onDrain (s : Actor) : Option Actor :=
  match s.phase, s.pendingOpens with
  | .draining link, [] => some { s with phase := .linked link }
  | .draining link, r :: rest => some ({ s with pendingOpens := rest }.forward link r)
  | _, _ => none

/-- The dial resolves.  The arm that takes commands is dropped, and with it the event it was
waiting to send. -/
def onDialed (s : Actor) (ok : Bool) : Option Actor :=
  match s.phase with
  | .dialing => some (if ok then { s with phase := .unauthenticated, sending := none } else s.lose)
  | _ => none

def onLinkTake (s : Actor) (link : TransferLink) (written : Bool) : Option Actor :=
  match link.queue with
  | [] => none
  | .send _ :: rest =>
    some { s with phase := s.phase.setTransfer { link with queue := rest, up := written } }
  | .openStream peer file :: rest =>
    some { s with
      phase := s.phase.setTransfer { link with queue := rest },
      tasks := s.tasks ++ [⟨(peer, file), none⟩] }

def onLink (s : Actor) (f : TransferLink → Option Actor) : Option Actor :=
  s.phase.transfer.bind fun link => if link.sending = none then f link else none

def whenIdle (s : Actor) (next : Option Actor) : Option Actor :=
  if s.sending = none then next else none

def step (capacity : Nat) (s : Actor) : Event → Option Actor
  | .sent =>
    s.sending.bind fun e =>
      if s.unread < capacity then
        some { s.emit e with sending := none, phase := s.phase.afterSend }
      else none
  | .command cmd delivered => s.whenIdle (s.onCommand cmd delivered)
  | .dialed ok => s.onDialed ok
  | .authOk =>
    s.whenIdle (if s.phase = .unauthenticated then
      some { s with phase := .accepted, sending := some .connected } else none)
  | .refused =>
    s.whenIdle (if s.phase.serving then
      some { s with phase := .stopped, sending := some .rejected } else none)
  | .relay =>
    s.whenIdle (if s.phase.serving then some { s with sending := some .relayed } else none)
  | .healthTick =>
    s.whenIdle (if s.phase.serving ∧ s.phase ≠ .unauthenticated then
      some (if s.unread < capacity then s.emit .linkHealth else s) else none)
  | .lost => s.whenIdle (if s.phase.serving then some s.lose else none)
  | .drain => s.whenIdle s.onDrain
  | .backoffOver =>
    s.whenIdle (if s.phase = .backoff then
      some { s with
        phase := .announcing, attemptNumber := s.attemptNumber + 1,
        sending := some (.connecting (s.attemptNumber + 1)) } else none)
  | .linkFailed =>
    s.onLink fun link =>
      if link.up then none
      else some { s with phase := s.phase.setTransfer link.noteTransferLinkFailure }
  | .linkUp =>
    s.onLink fun link =>
      if link.up then none else some { s with phase := s.phase.setTransfer link.comeUp }
  | .linkSent =>
    s.phase.transfer.bind fun link => link.sending.bind fun e =>
      if s.unread < capacity then
        some { s.emit e with phase := s.phase.setTransfer { link with sending := none } }
      else none
  | .linkTake written => s.onLink fun link => if link.up then s.onLinkTake link written else none
  | .linkDied =>
    s.onLink fun link =>
      if link.up then some { s with phase := s.phase.setTransfer { link with up := false } }
      else none
  | .opened r ok =>
    if ⟨r, none⟩ ∈ s.tasks then
      some { s with tasks := s.tasks.erase ⟨r, none⟩ ++ [⟨r, some ok⟩] }
    else none
  | .answered r ok =>
    if ⟨r, some ok⟩ ∈ s.tasks ∧ s.unread < capacity then
      some { s.emit (answerOf r ok) with tasks := s.tasks.erase ⟨r, some ok⟩ }
    else none
  | .streamIn peer file =>
    if s.unread < capacity then some (s.emit (.transferStream peer file false)) else none
  | .peerMessage => if s.unread < capacity then some (s.emit .relayed) else none
  | .receive => if 0 < s.unread then some { s with unread := s.unread - 1 } else none

/-! ## §4. Where a request can be. -/

/-- The request is with the actor: in its buffer, in the live link's channel, with a task that
opens its stream, or its answer waits for room in the event channel. -/
inductive Holds (s : Actor) (r : OpenRequest) : Prop
  | buffered (h : r ∈ s.pendingOpens)
  | queued {link : TransferLink} (hlink : s.phase.transfer = some link)
      (h : .openStream r.1 r.2 ∈ link.queue)
  | opening {t : OpenTask} (ht : t ∈ s.tasks) (h : t.request = r)
  | answering {e : NetworkEvent} (he : s.sending = some e) (h : e.answers r = true)

theorem holds_iff (s : Actor) (r : OpenRequest) :
    s.Holds r ↔ r ∈ s.pendingOpens ∨
      (∃ link ∈ s.phase.transfer, .openStream r.1 r.2 ∈ link.queue) ∨
      (∃ t ∈ s.tasks, t.request = r) ∨ ∃ e ∈ s.sending, e.answers r = true := by
  constructor
  · intro h
    cases h with
    | buffered h => exact .inl h
    | queued hlink h => exact .inr (.inl ⟨_, hlink, h⟩)
    | opening ht h => exact .inr (.inr (.inl ⟨_, ht, h⟩))
    | answering he h => exact .inr (.inr (.inr ⟨_, he, h⟩))
  · rintro (h | ⟨_, hlink, h⟩ | ⟨_, ht, h⟩ | ⟨_, he, h⟩)
    · exact .buffered h
    · exact .queued hlink h
    · exact .opening ht h
    · exact .answering he h

instance (s : Actor) (r : OpenRequest) : Decidable (s.Holds r) :=
  decidable_of_iff' _ (holds_iff s r)

def Accounted (s : Actor) : Prop :=
  Ledger.Accounted (fun e r => NetworkEvent.answers e r = true) s.Holds s.log

/-- What one step may do: enter nothing or one entry, and let go of a request only by emitting
an event that answers it. -/
inductive Keeps (s s' : Actor) : Prop
  | quiet (hlog : s'.log = s.log) (h : ∀ r, s.Holds r → s'.Holds r)
  | event (e : NetworkEvent) (hlog : s'.log = s.log ++ [.event e])
      (h : ∀ r, s.Holds r → e.answers r = true ∨ s'.Holds r)
  | request (r : OpenRequest) (hlog : s'.log = s.log ++ [.request r]) (hr : s'.Holds r)
      (h : ∀ r, s.Holds r → s'.Holds r)

variable {s s' : Actor} {r : OpenRequest} {link link' : TransferLink} {capacity : Nat}

theorem Keeps.accounted (h : Keeps s s') (hs : s.Accounted) : s'.Accounted := by
  unfold Accounted at hs ⊢
  cases h with
  | quiet hlog h =>
    rw [hlog]
    exact hs.mono h
  | event e hlog h =>
    rw [hlog]
    exact hs.event e h
  | request r hlog hr h =>
    rw [hlog]
    exact hs.request hr h

theorem Keeps.refl : Keeps s s := .quiet rfl fun _ h => h

theorem Holds.mono (h : s.Holds r) (hpending : s.pendingOpens ⊆ s'.pendingOpens)
    (htransfer : ∀ link, s.phase.transfer = some link →
      ∃ link', s'.phase.transfer = some link' ∧ link.queue ⊆ link'.queue)
    (htasks : s.tasks ⊆ s'.tasks) (hsending : s.sending = none ∨ s'.sending = s.sending) :
    s'.Holds r := by
  cases h with
  | buffered h => exact .buffered (hpending h)
  | queued hlink h =>
    obtain ⟨link', hlink', hqueue⟩ := htransfer _ hlink
    exact .queued hlink' (hqueue h)
  | opening ht h => exact .opening (htasks ht) h
  | answering he h =>
    rcases hsending with hnone | hsame
    · rw [hnone] at he
      cases he
    · exact .answering (hsame ▸ he) h

theorem Holds.of_eq (h : s.Holds r) (hpending : s'.pendingOpens = s.pendingOpens)
    (htransfer : s'.phase.transfer = s.phase.transfer) (htasks : s'.tasks = s.tasks)
    (hsending : s.sending = none ∨ s'.sending = s.sending) : s'.Holds r :=
  h.mono (hpending ▸ Subset.refl _)
    (fun link hlink => ⟨link, htransfer.trans hlink, Subset.refl _⟩)
    (htasks ▸ Subset.refl _) hsending

theorem Holds.setTransfer (h : s.Holds r) (hlink : s.phase.transfer = some link)
    (hqueue : link.queue ⊆ link'.queue) :
    { s with phase := s.phase.setTransfer link' }.Holds r := by
  refine h.mono (Subset.refl _) (fun l hl => ?_) (Subset.refl _) (.inr rfl)
  rw [hlink] at hl
  cases hl
  exact ⟨link', Phase.transfer_setTransfer hlink link', hqueue⟩

/-! ## §5. The actor's own steps. -/

theorem keeps_lose : Keeps s s.lose := .quiet rfl fun _ _ => .answering rfl rfl

theorem holds_take : (s.take r).Holds = s.Holds := by
  funext r'
  apply propext
  constructor
  all_goals
    intro h
    exact h.of_eq rfl rfl rfl (.inr rfl)

theorem keeps_bufferOpen (hidle : s.sending = none) : Keeps s ((s.take r).bufferOpen r) := by
  unfold bufferOpen
  split
  next hmem =>
    refine .request r rfl (.buffered hmem) fun r' h => ?_
    exact h.of_eq rfl rfl rfl (.inl hidle)
  · split
    · refine .request r rfl (.answering rfl (answers_failed r)) fun r' h => ?_
      exact h.of_eq rfl rfl rfl (.inl hidle)
    · refine .request r rfl (.buffered ?_) fun r' h => ?_
      · exact mem_append_right _ (mem_singleton_self r)
      · exact h.mono (subset_append_left _ _)
          (fun link hlink => ⟨link, hlink, Subset.refl _⟩) (Subset.refl _) (.inl hidle)

theorem forwardOpen_cases (link : TransferLink) (r : OpenRequest) :
    (∃ link', link.forwardOpen r = (link', none) ∧ link.queue ⊆ link'.queue ∧
      .openStream r.1 r.2 ∈ link'.queue) ∨
    link.forwardOpen r = (link, some (.transferStreamFailed r.1 r.2)) := by
  unfold TransferLink.forwardOpen
  cases hsend : link.trySend (.openStream r.1 r.2) with
  | none => exact .inr rfl
  | some link' =>
    refine .inl ⟨link', rfl, fun op hop => ?_, ?_⟩
    · exact (TransferLink.mem_queue_trySend hsend).mpr (.inl hop)
    · exact (TransferLink.mem_queue_trySend hsend).mpr (.inr rfl)

theorem holds_forward (hidle : s.sending = none) (hlink : s.phase.transfer = some link) :
    (s.forward link r).Holds r ∧ ∀ r', s.Holds r' → (s.forward link r).Holds r' := by
  unfold forward
  rcases forwardOpen_cases link r with ⟨link', heq, hqueue, hmem⟩ | heq
  · rw [heq]
    refine ⟨.queued (Phase.transfer_setTransfer hlink link') hmem, fun r' h => ?_⟩
    exact (h.setTransfer hlink hqueue).of_eq rfl rfl rfl (.inl hidle)
  · rw [heq]
    refine ⟨.answering rfl (answers_failed r), fun r' h => ?_⟩
    have h' := h.setTransfer hlink (Subset.refl link.queue)
    exact h'.of_eq rfl rfl rfl (.inl hidle)

theorem keeps_forward (hidle : s.sending = none) (hlink : s.phase.transfer = some link) :
    Keeps s ((s.take r).forward link r) := by
  obtain ⟨hr, hkept⟩ := holds_forward (s := s.take r) (r := r) hidle hlink
  rw [holds_take] at hkept
  exact .request r rfl hr hkept

theorem keeps_connectionCommand (hidle : s.sending = none) (cmd : NetworkCommand) (delivered : Bool)
    (hlive : (s.connectionCommand cmd delivered).phase ≠ .stopped) :
    Keeps s (s.connectionCommand cmd delivered) := by
  unfold connectionCommand at hlive ⊢
  split
  · split
    · exact .refl
    · exact keeps_lose
  · split
    · exact .refl
    · exact keeps_lose
  · exact .refl
  · exact .refl
  next peer link hlink =>
    refine .quiet rfl fun r h => h.setTransfer hlink ?_
    cases hsend : link.trySend (.send peer) with
    | none => exact Subset.refl _
    | some link' => exact fun op hop => (TransferLink.mem_queue_trySend hsend).mpr (.inl hop)
  next hlink => exact keeps_forward hidle hlink
  · exact keeps_bufferOpen hidle
  · exact absurd rfl hlive

variable {cmd : NetworkCommand} {delivered ok written : Bool}

theorem keeps_onCommand (hidle : s.sending = none) (hstep : s.onCommand cmd delivered = some s')
    (hlive : s'.phase ≠ .stopped) : Keeps s s' := by
  unfold onCommand at hstep
  split at hstep
  case h_5 => cases hstep
  case h_3 | h_4 =>
    cases hstep
    exact keeps_connectionCommand hidle cmd delivered hlive
  all_goals
    cases hstep
    split
    next hcmd =>
      rw [if_pos hcmd] at hlive
      exact absurd rfl hlive
    · cases cmd with
      | openTransferStream peer file => exact keeps_bufferOpen hidle
      | _ => exact .refl

theorem keeps_onDrain (hidle : s.sending = none) (hstep : s.onDrain = some s') : Keeps s s' := by
  unfold onDrain at hstep
  split at hstep
  next link hphase hempty =>
    cases hstep
    exact .quiet rfl fun r h => h.of_eq rfl (hphase ▸ rfl) rfl (.inl hidle)
  next link r rest hphase hpending =>
    cases hstep
    have hlink : s.phase.transfer = some link := by rw [hphase]; rfl
    obtain ⟨hr, hkept⟩ :=
      holds_forward (s := { s with pendingOpens := rest }) (r := r) hidle hlink
    refine .quiet rfl fun r' h => ?_
    -- the head of the buffer is where the link now has it; the others stay in place
    cases h with
    | buffered h =>
      rw [hpending] at h
      rcases mem_cons.mp h with rfl | h
      · exact hr
      · exact hkept r' (.buffered h)
    | queued hl h => exact hkept r' (.queued hl h)
    | opening ht h => exact hkept r' (.opening ht h)
    | answering he h => exact hkept r' (.answering he h)
  · cases hstep

theorem keeps_onDialed (hcut : ok = true → s.sending = none) (hstep : s.onDialed ok = some s') :
    Keeps s s' := by
  unfold onDialed at hstep
  split at hstep
  next hphase =>
    cases hstep
    cases ok with
    | false => exact keeps_lose
    | true =>
      exact .quiet rfl fun r h => h.of_eq rfl (hphase ▸ rfl) rfl (.inl (hcut rfl))
  · cases hstep

/-! ## §6. The other tasks' steps. -/

theorem keeps_emit (e : NetworkEvent) : Keeps s (s.emit e) :=
  .event e rfl fun _ h => .inr (h.of_eq rfl rfl rfl (.inr rfl))

theorem keeps_onLinkTake (hlink : s.phase.transfer = some link)
    (hstep : s.onLinkTake link written = some s') : Keeps s s' := by
  have hset := fun link' => Phase.transfer_setTransfer hlink link'
  unfold onLinkTake at hstep
  split at hstep
  · cases hstep
  next peer rest hqueue =>
    cases hstep
    refine .quiet rfl fun r h => ?_
    cases h with
    | buffered h => exact .buffered h
    | opening ht h => exact .opening ht h
    | answering he h => exact .answering he h
    | queued hl h =>
      rw [hlink] at hl
      cases hl
      rw [hqueue] at h
      rcases mem_cons.mp h with hop | h
      · cases hop
      · exact .queued (hset _) h
  next peer file rest hqueue =>
    cases hstep
    refine .quiet rfl fun r h => ?_
    cases h with
    | buffered h => exact .buffered h
    | opening ht h => exact .opening (mem_append_left _ ht) h
    | answering he h => exact .answering he h
    | queued hl h =>
      rw [hlink] at hl
      cases hl
      rw [hqueue] at h
      rcases mem_cons.mp h with hop | h
      · cases hop
        exact .opening (mem_append_right _ (mem_singleton_self _)) rfl
      · exact .queued (hset _) h

theorem keeps_opened : Keeps s { s with tasks := s.tasks.erase ⟨r, none⟩ ++ [⟨r, some ok⟩] } := by
  refine .quiet rfl fun r' h => ?_
  cases h with
  | buffered h => exact .buffered h
  | queued hl h => exact .queued hl h
  | answering he h => exact .answering he h
  | @opening t ht h =>
    by_cases heq : t = ⟨r, none⟩
    · cases heq
      exact .opening (mem_append_right _ (mem_singleton_self _)) h
    · exact .opening (mem_append_left _ ((mem_erase_of_ne heq).mpr ht)) h

theorem keeps_answered :
    Keeps s { s.emit (answerOf r ok) with tasks := s.tasks.erase ⟨r, some ok⟩ } := by
  refine .event (answerOf r ok) rfl fun r' h => ?_
  cases h with
  | buffered h => exact .inr (.buffered h)
  | queued hl h => exact .inr (.queued hl h)
  | answering he h => exact .inr (.answering he h)
  | @opening t ht h =>
    by_cases heq : t = ⟨r, some ok⟩
    · cases heq
      cases h
      exact .inl (answers_answerOf r ok)
    · exact .inr (.opening ((mem_erase_of_ne heq).mpr ht) h)

theorem keeps_sent {e : NetworkEvent} (hsending : s.sending = some e) :
    Keeps s { s.emit e with sending := none, phase := s.phase.afterSend } := by
  refine .event e rfl fun r h => ?_
  cases h with
  | buffered h => exact .inr (.buffered h)
  | opening ht h => exact .inr (.opening ht h)
  | answering he h =>
    rw [hsending] at he
    cases he
    exact .inl h
  | @queued link hl h =>
    refine .inr (.queued ?_ h)
    show s.phase.afterSend.transfer = some link
    cases hphase : s.phase with
    | draining l | linked l => rw [hphase] at hl; exact hl
    | _ => rw [hphase] at hl; cases hl

theorem whenIdle_eq_some {next : Option Actor} (h : s.whenIdle next = some s') :
    s.sending = none ∧ next = some s' := by
  unfold whenIdle at h
  split at h
  next hidle => exact ⟨hidle, h⟩
  · cases h

theorem whenIdle_ite_eq_some {c : Prop} [Decidable c] {next : Actor}
    (h : s.whenIdle (if c then some next else none) = some s') :
    s.sending = none ∧ c ∧ s' = next := by
  obtain ⟨hidle, h⟩ := whenIdle_eq_some h
  obtain ⟨hc, h⟩ := ite_none_right_eq_some.mp h
  exact ⟨hidle, hc, (Option.some.inj h).symm⟩

theorem onLink_eq_some {f : TransferLink → Option Actor} (h : s.onLink f = some s') :
    ∃ link, s.phase.transfer = some link ∧ f link = some s' := by
  obtain ⟨link, hlink, h⟩ := bind_eq_some_iff.mp h
  split at h
  · exact ⟨link, hlink, h⟩
  · cases h

/-! ## §7. The buffer. -/

/-- One step adds a request the buffer has room for and does not hold, takes its first, or
leaves it alone. -/
inductive Refilled (pending : List OpenRequest) : List OpenRequest → Prop
  | same : Refilled pending pending
  | drained {r : OpenRequest} {rest : List OpenRequest} (h : pending = r :: rest) :
      Refilled pending rest
  | pushed {r : OpenRequest} (hnew : r ∉ pending) (hroom : pending.length < pendingOpenBuffer) :
      Refilled pending (pending ++ [r])

theorem refilled_bufferOpen : Refilled s.pendingOpens ((s.take r).bufferOpen r).pendingOpens := by
  unfold bufferOpen
  split
  · exact .same
  next hnew =>
    split
    · exact .same
    next hroom => exact .pushed hnew (Nat.lt_of_not_le hroom)

theorem refilled_onCommand (hstep : s.onCommand cmd delivered = some s') :
    Refilled s.pendingOpens s'.pendingOpens := by
  unfold onCommand at hstep
  split at hstep
  case h_5 => cases hstep
  case h_3 | h_4 =>
    cases hstep
    unfold connectionCommand
    split
    case h_7 => exact refilled_bufferOpen
    case h_1 | h_2 => split <;> exact .same
    all_goals exact .same
  all_goals
    cases hstep
    split
    · exact .same
    · cases cmd with
      | openTransferStream peer file => exact refilled_bufferOpen
      | _ => exact .same

theorem refilled_onDrain (hstep : s.onDrain = some s') :
    Refilled s.pendingOpens s'.pendingOpens := by
  unfold onDrain at hstep
  split at hstep
  · cases hstep; exact .same
  next hpending => cases hstep; exact .drained hpending
  · cases hstep

theorem pendingOpens_onLinkTake (hstep : s.onLinkTake link written = some s') :
    s'.pendingOpens = s.pendingOpens := by
  unfold onLinkTake at hstep
  split at hstep <;> cases hstep <;> rfl

theorem onDialed_eq_some (hstep : s.onDialed ok = some s') :
    s.phase = .dialing ∧ s'.pendingOpens = s.pendingOpens := by
  unfold onDialed at hstep
  split at hstep
  next hphase => cases ok <;> cases hstep <;> exact ⟨hphase, rfl⟩
  · cases hstep

theorem onCommand_ne_stopped (hstep : s.onCommand cmd delivered = some s') :
    s.phase ≠ .stopped := by
  intro hphase
  rw [onCommand, hphase] at hstep
  cases hstep

theorem onDrain_ne_stopped (hstep : s.onDrain = some s') : s.phase ≠ .stopped := by
  intro hphase
  rw [onDrain, hphase] at hstep
  cases hstep

/-- Within its cap and free of duplicates. -/
def Bounded (pending : List OpenRequest) : Prop :=
  pending.length ≤ pendingOpenBuffer ∧ pending.Nodup

theorem Refilled.bounded {pending pending' : List OpenRequest} (h : Refilled pending pending')
    (hbounded : Bounded pending) : Bounded pending' := by
  obtain ⟨hlength, hnodup⟩ := hbounded
  cases h with
  | same => exact ⟨hlength, hnodup⟩
  | drained h =>
    rw [h, length_cons] at hlength
    rw [h] at hnodup
    exact ⟨by omega, hnodup.of_cons⟩
  | @pushed r hnew hroom =>
    have hlength' : (pending ++ [r]).length ≤ pendingOpenBuffer := by
      rw [length_append, length_singleton]
      omega
    exact ⟨hlength', concat_eq_append ▸ hnodup.concat hnew⟩

/-! ## §8. One step. -/

def uncut (s : Actor) (e : Event) : Prop := e = .dialed true → s.sending = none

instance (s : Actor) (e : Event) : Decidable (s.uncut e) :=
  inferInstanceAs (Decidable (e = .dialed true → s.sending = none))

structure Turn (s : Actor) (e : Event) (s' : Actor) : Prop where
  refilled : Refilled s.pendingOpens s'.pendingOpens
  live : s'.phase ≠ .stopped → s.phase ≠ .stopped
  keeps : s.uncut e → s'.phase ≠ .stopped → Keeps s s'

variable {e : Event}

theorem Turn.of_pending_eq (hpending : s'.pendingOpens = s.pendingOpens)
    (hlive : s'.phase ≠ .stopped → s.phase ≠ .stopped)
    (hkeeps : s.uncut e → s'.phase ≠ .stopped → Keeps s s') : Turn s e s' :=
  ⟨hpending ▸ .same, hlive, hkeeps⟩

theorem Turn.of_link (hlink : s.phase.transfer = some link)
    (hqueue : link.queue ⊆ link'.queue) : Turn s e { s with phase := s.phase.setTransfer link' } :=
  .of_pending_eq rfl (fun _ => Phase.ne_stopped_of_transfer hlink)
    fun _ _ => .quiet rfl fun _ h => h.setTransfer hlink hqueue

theorem Turn.of_emit (event : NetworkEvent) : Turn s e (s.emit event) :=
  .of_pending_eq rfl (fun h => h) fun _ _ => keeps_emit event

/-- The actor, waiting for nothing, changes its phase or the event it waits to send. -/
theorem Turn.of_idle {phase : Phase} {attemptNumber : Nat}
    {sending : Option NetworkEvent} (hidle : s.sending = none) (hlive : s.phase ≠ .stopped)
    (htransfer : phase.transfer = s.phase.transfer) :
    Turn s e { s with phase := phase, attemptNumber := attemptNumber, sending := sending } :=
  .of_pending_eq rfl (fun _ => hlive)
    fun _ _ => .quiet rfl fun _ h => h.of_eq rfl htransfer rfl (.inl hidle)

theorem turn_sent (hstep : s.step capacity .sent = some s') : Turn s .sent s' := by
  obtain ⟨e, hsending, hstep⟩ := bind_eq_some_iff.mp hstep
  obtain ⟨_, hstep⟩ := ite_none_right_eq_some.mp hstep
  cases hstep
  exact .of_pending_eq rfl Phase.afterSend_ne_stopped fun _ _ => keeps_sent hsending

theorem turn_healthTick (hstep : s.step capacity .healthTick = some s') :
    Turn s .healthTick s' := by
  obtain ⟨_, _, rfl⟩ := whenIdle_ite_eq_some hstep
  split
  · exact .of_emit _
  · exact .of_pending_eq rfl (fun h => h) fun _ _ => .refl

theorem turn_linkSent (hstep : s.step capacity .linkSent = some s') : Turn s .linkSent s' := by
  obtain ⟨link, hlink, hstep⟩ := bind_eq_some_iff.mp hstep
  obtain ⟨e, _, hstep⟩ := bind_eq_some_iff.mp hstep
  obtain ⟨_, hstep⟩ := ite_none_right_eq_some.mp hstep
  cases hstep
  refine .of_pending_eq rfl (fun _ => Phase.ne_stopped_of_transfer hlink) fun _ _ => ?_
  refine .event e rfl fun r h => .inr ?_
  have h' : { s with phase := s.phase.setTransfer { link with sending := none } }.Holds r :=
    h.setTransfer hlink (Subset.refl _)
  exact h'.of_eq rfl rfl rfl (.inr rfl)

theorem turn_linkTake {written : Bool} (hstep : s.step capacity (.linkTake written) = some s') :
    Turn s (.linkTake written) s' := by
  obtain ⟨link, hlink, hstep⟩ := onLink_eq_some hstep
  obtain ⟨_, hstep⟩ := ite_none_right_eq_some.mp hstep
  exact .of_pending_eq (pendingOpens_onLinkTake hstep)
    (fun _ => Phase.ne_stopped_of_transfer hlink) fun _ _ => keeps_onLinkTake hlink hstep

/-- **The step lemma**: outside shutdown and rejection a step lets go of a request only by
answering it. -/
theorem step_turn (hstep : s.step capacity e = some s') : Turn s e s' := by
  cases e with
  | sent => exact turn_sent hstep
  | command cmd delivered =>
    obtain ⟨hidle, hstep⟩ := whenIdle_eq_some hstep
    exact ⟨refilled_onCommand hstep, fun _ => onCommand_ne_stopped hstep,
      fun _ hlive => keeps_onCommand hidle hstep hlive⟩
  | dialed ok =>
    obtain ⟨hphase, hpending⟩ := onDialed_eq_some hstep
    exact .of_pending_eq hpending (fun _ => hphase ▸ nofun)
      fun hok _ => keeps_onDialed (fun h => hok (h ▸ rfl)) hstep
  | authOk =>
    obtain ⟨hidle, hphase, rfl⟩ := whenIdle_ite_eq_some hstep
    exact .of_idle hidle (hphase ▸ nofun) (hphase ▸ rfl)
  | refused =>
    obtain ⟨_, hserving, rfl⟩ := whenIdle_ite_eq_some hstep
    exact .of_pending_eq rfl (fun _ => Phase.ne_stopped_of_serving hserving)
      fun _ hlive => absurd rfl hlive
  | relay =>
    obtain ⟨hidle, hserving, rfl⟩ := whenIdle_ite_eq_some hstep
    exact .of_idle hidle (Phase.ne_stopped_of_serving hserving) rfl
  | healthTick => exact turn_healthTick hstep
  | lost =>
    obtain ⟨_, hserving, rfl⟩ := whenIdle_ite_eq_some hstep
    exact .of_pending_eq rfl (fun _ => Phase.ne_stopped_of_serving hserving) fun _ _ => keeps_lose
  | drain =>
    obtain ⟨hidle, hstep⟩ := whenIdle_eq_some hstep
    exact ⟨refilled_onDrain hstep, fun _ => onDrain_ne_stopped hstep,
      fun _ _ => keeps_onDrain hidle hstep⟩
  | backoffOver =>
    obtain ⟨hidle, hphase, rfl⟩ := whenIdle_ite_eq_some hstep
    exact .of_idle hidle (hphase ▸ nofun) (hphase ▸ rfl)
  | linkFailed =>
    obtain ⟨link, hlink, hstep⟩ := onLink_eq_some hstep
    cases (ite_none_left_eq_some.mp hstep).2
    exact .of_link hlink (link.queue_noteTransferLinkFailure ▸ Subset.refl _)
  | linkUp =>
    obtain ⟨link, hlink, hstep⟩ := onLink_eq_some hstep
    cases (ite_none_left_eq_some.mp hstep).2
    exact .of_link hlink (Subset.refl _)
  | linkSent => exact turn_linkSent hstep
  | linkTake written => exact turn_linkTake hstep
  | linkDied =>
    obtain ⟨link, hlink, hstep⟩ := onLink_eq_some hstep
    cases (ite_none_right_eq_some.mp hstep).2
    exact .of_link hlink (Subset.refl _)
  | opened r ok =>
    cases (ite_none_right_eq_some.mp hstep).2
    exact .of_pending_eq rfl (fun h => h) fun _ _ => keeps_opened
  | answered r ok =>
    cases (ite_none_right_eq_some.mp hstep).2
    exact .of_pending_eq rfl (fun h => h) fun _ _ => keeps_answered
  | streamIn peer file =>
    cases (ite_none_right_eq_some.mp hstep).2
    exact .of_emit _
  | peerMessage =>
    cases (ite_none_right_eq_some.mp hstep).2
    exact .of_emit _
  | receive =>
    cases (ite_none_right_eq_some.mp hstep).2
    exact .of_pending_eq rfl (fun h => h)
      fun _ _ => .quiet rfl fun _ h => h.of_eq rfl rfl rfl (.inr rfl)

/-! ## §9. Every request is answered, unless a dial cuts the answer off. -/

theorem pendingOpens_bounded (hs : Reach (step capacity) anyStep start s) :
    Bounded s.pendingOpens := by
  apply hs.invariant
  · exact ⟨Nat.zero_le _, nodup_nil⟩
  · intro s e s' h _ hstep
    exact (step_turn hstep).refilled.bounded h

/-- **Every request is answered or with the actor**, in every run in which no dial succeeds while
a refusal waits for room in the event channel. -/
theorem opens_answered (hs : Reach (step capacity) uncut start s) :
    (s.phase ≠ .stopped → ∀ peer file before after,
      s.log = before ++ .request (peer, file) :: after →
        (∃ e, .event e ∈ after ∧ e.answers (peer, file) = true) ∨ s.Holds (peer, file)) ∧
    s.pendingOpens.length ≤ pendingOpenBuffer ∧ s.pendingOpens.Nodup := by
  have hbounded := pendingOpens_bounded (hs.mono fun _ _ _ => trivial)
  have haccounted : s.phase ≠ .stopped → s.Accounted := by
    apply hs.invariant
    · exact fun _ => accounted_nil
    · intro s e s' ih hok hstep hlive
      have hturn := step_turn hstep
      exact (hturn.keeps hok hlive).accounted (ih (hturn.live hlive))
  exact ⟨fun hlive peer file => haccounted hlive (peer, file), hbounded⟩

def openStream (file : Ed2kHash) : Event := .command (.openTransferStream "bob" file) true

/-- One request is buffered, asked again and answered with its stream, one dies in the link's
channel with the connection, and one waits for the next. -/
def sessionRun : List Event :=
  [.sent, openStream 1, openStream 1, .dialed true, .authOk, .sent, .drain, .drain, openStream 2,
    .linkUp, .linkTake true, .opened ("bob", 1) true, .answered ("bob", 1) true, .lost, .sent,
    openStream 3]

theorem opens_answered_session :
    ∃ s, runWith (step 256) (fun s e => decide (s.uncut e)) start sessionRun = some s ∧
      s.phase = .backoff ∧ s.log.length = 8 ∧ s.pendingOpens = [("bob", 3)] ∧
      ∀ peer file before after, s.log = before ++ .request (peer, file) :: after →
        (∃ e, .event e ∈ after ∧ e.answers (peer, file) = true) ∨ s.Holds (peer, file) := by
  have hrun : (runWith (step 256) (fun s e => decide (s.uncut e)) start sessionRun).map
      (fun s => (s.phase, s.log.length, s.pendingOpens)) =
      some (.backoff, 8, [("bob", 3)]) := by decide +kernel
  obtain ⟨s, hs, hview⟩ := map_eq_some_iff.mp hrun
  obtain ⟨hphase, hview⟩ := Prod.mk.inj hview
  obtain ⟨hlength, hpending⟩ := Prod.mk.inj hview
  have hreach : Reach (step 256) uncut start s :=
    reach_of_runWith sessionRun (fun _ _ h => of_decide_eq_true h) hs
  exact ⟨s, hs, hphase, hlength, hpending, (opens_answered hreach).1 (hphase ▸ nofun)⟩

def failedAttempt : List Event := [.dialed false, .sent, .backoffOver, .sent]

/-- The server cannot be reached and the main loop is stalled, until 255 events are unread.  Then
the buffer fills in the next dial, one more request is refused, and the dial succeeds while
the refusal of another waits for room. -/
def overflowRun : List Event :=
  flatten
    [[.sent], (replicate 127 failedAttempt).flatten, (range 65).map openStream,
      [.sent, openStream 999, .dialed true, .receive, .authOk, .sent], replicate 65 .drain]

/-- The refusal is dropped with the arm of the `select!` it waited in: the connection is up and
the buffer drained, and nobody knows of the request. -/
theorem refusal_cut :
    ∃ s before after, run (step 256) start overflowRun = some s ∧ s.phase ≠ .stopped ∧
      s.log = before ++ .request ("bob", 999) :: after ∧
      (∀ e, .event e ∈ after → e.answers ("bob", 999) = false) ∧ ¬ s.Holds ("bob", 999) := by
  have hrun : (run (step 256) start overflowRun).map (fun s =>
      (decide (s.phase = .stopped), s.log.drop 321, decide (s.Holds ("bob", 999)))) =
      some (false, [.request ("bob", 999), .event .connected], false) := by decide +kernel
  obtain ⟨s, hs, hview⟩ := map_eq_some_iff.mp hrun
  obtain ⟨hphase, hview⟩ := Prod.mk.inj hview
  obtain ⟨hlog, hholds⟩ := Prod.mk.inj hview
  have hsplit := take_append_drop 321 s.log
  rw [hlog] at hsplit
  refine ⟨s, s.log.take 321, [.event .connected], hs, of_decide_eq_false hphase, hsplit.symm, ?_,
    of_decide_eq_false hholds⟩
  intro e he
  cases mem_singleton.mp he
  rfl

end Actor

end DessPlay.Network
