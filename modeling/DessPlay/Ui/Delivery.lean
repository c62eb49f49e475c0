/-
  DessPlay.Ui.Delivery
  **THE UI'S MAILBOX** (`dessplay/src/ui/delivery.rs`).

  Senders put inputs in a queue under a lock and then post a wake in a channel of
  capacity one; the receiver takes inputs under the lock, and waits on the wake channel
  when it found the queue empty.  A replaceable input takes the place of an older one
  with the same key in the trailing run of replaceable inputs, and a shutdown discards
  whatever is queued.  A send is two steps (queue, wake), and so is a receive that finds
  nothing.
-/
import DessPlay.Lib.Machine
import DessPlay.Lib.Thinning

namespace DessPlay.Ui

open Thinning List Machine

/-! ## §1. What is delivered. -/

inductive UpdateKey where
  | snapshot
  | hash (filename : String)
  | search (requestId : Nat)
  | import (id : Nat)
  | tvPicture
  deriving DecidableEq

inductive Delivery where
  | reliable
  | latest (key : UpdateKey)
  | shutdown
  deriving DecidableEq

/-- An input; what the mailbox does not look at is its `body`. -/
inductive UiInput (β : Type) where
  | roguelike (body : β)
  | snapshot (body : β)
  | event (body : β)
  | subtitle (body : β)
  | hashing (filename : String) (finished : Bool) (body : β)
  | system (body : β)
  | chatImage (body : β)
  | tvPicture (body : β)
  | irc (body : β)
  | browse (body : β)
  | localCopyOffer (body : β)
  | searchResults (body : β)
  | nyaaSearchProgress (requestId : Nat) (body : β)
  | nyaaResults (body : β)
  | nyaaImportProgress (id : Nat) (body : β)
  | nyaaImportFinished (body : β)
  | probe (body : β)
  | shutdown
  deriving DecidableEq

variable {β : Type}

namespace UiInput

def delivery : UiInput β → Delivery
  | snapshot _ => .latest .snapshot
  | hashing filename false _ => .latest (.hash filename)
  | nyaaSearchProgress requestId _ => .latest (.search requestId)
  | nyaaImportProgress id _ => .latest (.import id)
  | tvPicture _ => .latest .tvPicture
  | roguelike _ | event _ | subtitle _ | hashing _ true _ | system _ | chatImage _ | irc _
  | browse _ | localCopyOffer _ | searchResults _ | nyaaResults _ | nyaaImportFinished _
  | probe _ => .reliable
  | shutdown => .shutdown

def key? (input : UiInput β) : Option UpdateKey :=
  match input.delivery with
  | .latest key => some key
  | _ => none

end UiInput

/-! ## §2. The mailbox and its threads. -/

inductive Receiver where
  | idle
  /-- it found the queue empty and takes stale wakes, with the lock held -/
  | draining (waits : Bool)
  /-- it waits on the wake channel -/
  | waiting
  deriving DecidableEq

structure Mailbox (β : Type) where
  inputs : List (UiInput β)
  closed : Bool
  /-- a wake is in the channel -/
  wake : Bool
  senders : Nat
  /-- sends that have queued their input and not yet posted their wake -/
  notifying : Nat
  receiver : Receiver
  /-- every input accepted, in the order of acceptance -/
  accepted : List (UiInput β)
  /-- every input received -/
  received : List (UiInput β)

inductive MailboxEvent (β : Type) where
  /-- the part of `send` under the lock -/
  | send (input : UiInput β)
  /-- the rest of a `send` -/
  | notify
  | clone
  | dropSender
  /-- `try_recv`, or a turn of the loop of `recv_timeout` if it `waits` -/
  | recv (waits : Bool)
  /-- one `try_recv` of the wake channel -/
  | drain
  | woken
  | timeout

namespace Mailbox

def replaced (inputs : List (UiInput β)) (key : UpdateKey) : Option Nat :=
  (inputs.zipIdx.reverse.takeWhile fun entry => entry.1.key?.isSome).findSome? fun entry =>
    if entry.1.key? = some key then some entry.2 else none

/-- The queue after an input is accepted. -/
def enqueue (inputs : List (UiInput β)) (input : UiInput β) : List (UiInput β) :=
  match input.delivery with
  | .shutdown => [input]
  | .latest key =>
    match replaced inputs key with
    | some index => inputs.eraseIdx index ++ [input]
    | none => inputs ++ [input]
  | .reliable => inputs ++ [input]

def accept (s : Mailbox β) (input : UiInput β) : Mailbox β := { s with
  inputs := enqueue s.inputs input
  closed := s.closed || input.delivery = .shutdown
  notifying := s.notifying + 1
  accepted := s.accepted ++ [input] }

def step (s : Mailbox β) : MailboxEvent β → Option (Mailbox β)
  | .send input =>
    match s.receiver with
    | .draining _ => none
    | _ =>
      if s.senders = 0 then none
      -- `UiClosed`
      else if s.closed then some s
      else some (s.accept input)
  | .notify =>
    if s.notifying = 0 then none
    else some { s with wake := true, notifying := s.notifying - 1 }
  | .clone => if s.senders = 0 then none else some { s with senders := s.senders + 1 }
  -- The last sender stays until its sends are done.
  | .dropSender =>
    if s.senders = 0 ∨ s.senders = 1 ∧ s.notifying ≠ 0 then none
    else some { s with senders := s.senders - 1 }
  | .recv waits =>
    match s.receiver, s.inputs with
    | .idle, input :: inputs => some { s with
        inputs := inputs, received := s.received ++ [input] }
    | .idle, [] =>
      -- `Disconnected`
      if s.closed then some s else some { s with receiver := .draining waits }
    | _, _ => none
  | .drain =>
    match s.receiver with
    | .draining waits =>
      if s.wake then some { s with wake := false }
      -- `Disconnected`
      else if s.senders = 0 then some { s with receiver := .idle }
      else some { s with receiver := if waits then .waiting else .idle }
    | _ => none
  | .woken =>
    match s.receiver with
    | .waiting =>
      if s.wake then some { s with wake := false, receiver := .idle }
      else if s.senders = 0 then some { s with receiver := .idle }
      else none
    | _ => none
  | .timeout =>
    match s.receiver with
    | .waiting => some { s with receiver := .idle }
    | _ => none

/-- `channel()`. -/
def start : Mailbox β := ⟨[], false, false, 1, 0, .idle, [], []⟩

/-! ## §3. What was asked for. -/

/-- Until a shutdown, what was received and what is queued are what was accepted, but for inputs
that a later one with their key took the place of. -/
def Ordered (s : Mailbox β) : Prop :=
  s.closed = false → .shutdown ∉ s.accepted ∧
    Thinned UiInput.key? s.accepted (s.received ++ s.inputs)

/-- The shutdown discards what is queued, and is the last input accepted and the last received. -/
def Final (s : Mailbox β) : Prop :=
  s.closed = true → ∃ before got queued, s.accepted = before ++ [.shutdown] ∧
    .shutdown ∉ before ∧ .shutdown ∉ got ∧ Thinned UiInput.key? before (got ++ queued) ∧
    (s.received = got ∧ s.inputs = [.shutdown] ∨ s.received = got ++ [.shutdown] ∧ s.inputs = [])

def Awake (s : Mailbox β) : Prop :=
  s.receiver = .waiting → s.inputs ≠ [] → s.wake = true ∨ 0 < s.notifying

/-! ## §4. The queue. -/

variable {input : UiInput β}

theorem key?_eq_some {key : UpdateKey} : input.key? = some key ↔ input.delivery = .latest key := by
  unfold UiInput.key?
  cases input.delivery <;> simp

theorem replaced_concat (inputs : List (UiInput β)) (last : UiInput β) (key : UpdateKey) :
    replaced (inputs ++ [last]) key =
      if last.key?.isSome then
        if last.key? = some key then some inputs.length else replaced inputs key
      else none := by
  unfold replaced
  rw [zipIdx_append, reverse_append]
  show (takeWhile _ ((last, 0 + inputs.length) :: inputs.zipIdx.reverse)).findSome? _ = _
  rw [takeWhile_cons]
  by_cases hlast : last.key?.isSome
  · by_cases hkey : last.key? = some key
    · simp [hkey]
    · simp [hlast, hkey]
  · simp [hlast]

variable {inputs : List (UiInput β)}

theorem replaced_spec {key : UpdateKey} {index : Nat} (h : replaced inputs key = some index) :
    ∃ before old after, inputs = before ++ old :: after ∧ before.length = index ∧
      old.key? = some key ∧ ∀ input ∈ after, input.key?.isSome := by
  induction inputs using reverseRecOn with
  | nil => cases h
  | append_singleton inputs last ih =>
    rw [replaced_concat] at h
    split at h
    next hlast =>
      split at h
      next hkey =>
        cases h
        exact ⟨inputs, last, [], rfl, rfl, hkey, fun _ hin => absurd hin not_mem_nil⟩
      · obtain ⟨before, old, after, rfl, hlen, hold, hafter⟩ := ih h
        refine ⟨before, old, after ++ [last], by simp, hlen, hold, fun input hin => ?_⟩
        rcases mem_append.mp hin with hin | hin
        · exact hafter input hin
        · exact mem_singleton.mp hin ▸ hlast
    · cases h

theorem thinned_enqueue {accepted received : List (UiInput β)}
    (h : Thinned UiInput.key? accepted (received ++ inputs)) (hopen : input.delivery ≠ .shutdown) :
    Thinned UiInput.key? (accepted ++ [input]) (received ++ enqueue inputs input) := by
  have hpush : Thinned UiInput.key? (accepted ++ [input]) (received ++ (inputs ++ [input])) := by
    rw [← append_assoc]
    exact h.append input
  unfold enqueue
  split
  next hshut => exact absurd hshut hopen
  next key hkey =>
    split
    next index hindex =>
      obtain ⟨before, old, after, rfl, hlen, hold, hafter⟩ := replaced_spec hindex
      have herase : (before ++ old :: after).eraseIdx index = before ++ after := by
        rw [← hlen, eraseIdx_append_of_length_le (Nat.le_refl _), Nat.sub_self]
        rfl
      rw [← append_assoc] at h
      rw [herase, ← append_assoc, ← append_assoc]
      exact h.replace hold (key?_eq_some.mpr hkey) hafter
    · exact hpush
  · exact hpush

/-! ## §5. Every interleaving. -/

structure Sound (s : Mailbox β) : Prop where
  ordered : s.Ordered
  final : s.Final
  awake : s.Awake
  drained : ∀ waits, s.receiver = .draining waits → s.inputs = []

variable {s s' : Mailbox β}

theorem eq_shutdown_of_delivery (h : input.delivery = .shutdown) : input = .shutdown := by
  cases input with
  | shutdown => rfl
  | hashing filename finished body => cases finished <;> cases h
  | _ => cases h

theorem Sound.accept (h : s.Sound) (hopen : s.closed = false)
    (hfree : ∀ waits, s.receiver ≠ .draining waits) (input : UiInput β) :
    (s.accept input).Sound := by
  obtain ⟨hnone, hthin⟩ := h.ordered hopen
  refine ⟨fun hstill => ?_, fun hshut => ?_, fun _ _ => .inr (Nat.succ_pos _), fun waits hd =>
    absurd hd (hfree waits)⟩
  · have hdelivery : input.delivery ≠ .shutdown := by
      simpa [Mailbox.accept, hopen] using hstill
    refine ⟨fun hin => ?_, thinned_enqueue hthin hdelivery⟩
    rcases mem_append.mp hin with hin | hin
    · exact hnone hin
    · exact hdelivery (mem_singleton.mp hin ▸ rfl)
  · have hdelivery : input.delivery = .shutdown := by
      simpa [Mailbox.accept, hopen] using hshut
    have hinputs : enqueue s.inputs input = [.shutdown] := by
      rw [enqueue, hdelivery, eq_shutdown_of_delivery hdelivery]
    exact ⟨s.accepted, s.received, s.inputs, by rw [← eq_shutdown_of_delivery hdelivery]; rfl,
      hnone, fun hin => hnone (hthin.mem (mem_append_left _ hin)), hthin, .inl ⟨rfl, hinputs⟩⟩

theorem Sound.take (h : s.Sound) (hidle : s.receiver = .idle)
    (hinputs : s.inputs = input :: inputs) :
    Sound { s with inputs := inputs, received := s.received ++ [input] } := by
  refine ⟨fun hopen => ?_, fun hshut => ?_, fun hw => ?_, fun waits hd => ?_⟩
  · obtain ⟨hnone, hthin⟩ := h.ordered hopen
    refine ⟨hnone, ?_⟩
    rw [hinputs] at hthin
    simpa using hthin
  · obtain ⟨before, got, queued, hacc, hbefore, hgot, hthin, hrest⟩ := h.final hshut
    refine ⟨before, got, queued, hacc, hbefore, hgot, hthin, .inr ?_⟩
    rcases hrest with ⟨hreceived, hqueue⟩ | ⟨_, hqueue⟩
    · rw [hinputs] at hqueue
      cases hqueue
      exact ⟨by rw [hreceived], rfl⟩
    · rw [hinputs] at hqueue
      cases hqueue
  · exact absurd (hidle.symm.trans hw) nofun
  · exact absurd (hidle.symm.trans hd) nofun

theorem Sound.frame (h : s.Sound) (hinputs : s'.inputs = s.inputs) (hclosed : s'.closed = s.closed)
    (haccepted : s'.accepted = s.accepted) (hreceived : s'.received = s.received)
    (hawake : s'.Awake) (hdrained : ∀ waits, s'.receiver = .draining waits → s'.inputs = []) :
    s'.Sound := by
  refine ⟨?_, ?_, hawake, hdrained⟩
  · unfold Ordered
    rw [hinputs, hclosed, haccepted, hreceived]
    exact h.ordered
  · unfold Final
    rw [hinputs, hclosed, haccepted, hreceived]
    exact h.final

/-- **One step** of any thread. -/
theorem Sound.step (h : s.Sound) {event : MailboxEvent β} (hs : s.step event = some s') :
    s'.Sound := by
  cases event with
  | send input =>
    simp only [Mailbox.step] at hs
    split at hs
    · cases hs
    next hfree =>
      split at hs
      · cases hs
      · split at hs
        · cases hs
          exact h
        next hopen =>
          cases hs
          exact h.accept (by simpa using hopen) hfree input
  | notify =>
    simp only [Mailbox.step] at hs
    split at hs
    · cases hs
    · cases hs
      exact h.frame rfl rfl rfl rfl (fun _ _ => .inl rfl) h.drained
  | clone =>
    simp only [Mailbox.step] at hs
    split at hs
    · cases hs
    · cases hs
      exact h.frame rfl rfl rfl rfl h.awake h.drained
  | dropSender =>
    simp only [Mailbox.step] at hs
    split at hs
    · cases hs
    · cases hs
      exact h.frame rfl rfl rfl rfl h.awake h.drained
  | recv waits =>
    simp only [Mailbox.step] at hs
    split at hs
    next input inputs hidle hinputs =>
      cases hs
      exact h.take hidle hinputs
    next hidle hinputs =>
      split at hs
      · cases hs
        exact h
      · cases hs
        exact h.frame rfl rfl rfl rfl (fun hw => absurd hw nofun) fun _ _ => hinputs
    · cases hs
  | drain =>
    simp only [Mailbox.step] at hs
    split at hs
    next waits hdraining =>
      have hempty := h.drained waits hdraining
      split at hs
      · cases hs
        exact h.frame rfl rfl rfl rfl (fun hw => absurd (hdraining.symm.trans hw) nofun) h.drained
      · split at hs
        · cases hs
          exact h.frame rfl rfl rfl rfl (fun hw => absurd hw nofun) fun _ hd => absurd hd nofun
        · cases hs
          refine h.frame rfl rfl rfl rfl (fun _ hne => absurd hempty hne) fun _ _ => hempty
    · cases hs
  | woken =>
    simp only [Mailbox.step] at hs
    split at hs
    · split at hs
      · cases hs
        exact h.frame rfl rfl rfl rfl (fun hw => absurd hw nofun) fun _ hd => absurd hd nofun
      · split at hs
        · cases hs
          exact h.frame rfl rfl rfl rfl (fun hw => absurd hw nofun) fun _ hd => absurd hd nofun
        · cases hs
    · cases hs
  | timeout =>
    simp only [Mailbox.step] at hs
    split at hs
    · cases hs
      exact h.frame rfl rfl rfl rfl (fun hw => absurd hw nofun) fun _ hd => absurd hd nofun
    · cases hs

theorem sound_start : (start : Mailbox β).Sound where
  ordered _ := ⟨not_mem_nil, thinned_nil⟩
  final h := by cases h
  awake _ hne := absurd rfl hne
  drained _ h := by cases h

/-- **Nothing reliable is lost, repeated or reordered, and no wake is lost**, however the sends and
the receiver interleave. -/
theorem mailbox_delivers (hs : Reach step anyStep start s) : s.Ordered ∧ s.Final ∧ s.Awake := by
  have hsound : s.Sound := hs.invariant sound_start fun _ _ _ h _ hstep => h.step hstep
  exact ⟨hsound.ordered, hsound.final, hsound.awake⟩

def session : List (MailboxEvent Nat) :=
  [.send (.event 1), .notify, .send (.snapshot 2), .send (.snapshot 3), .recv true, .recv true,
   .recv true, .drain, .drain, .send (.irc 4), .notify, .woken, .recv true,
   .send (.system 5), .send .shutdown, .recv true]

theorem mailbox_delivers_session :
    ∃ s, run step start session = some s ∧
      s.received = [.event 1, .snapshot 3, .irc 4, .shutdown] ∧ s.Ordered ∧ s.Final ∧ s.Awake := by
  have hreceived : (run step start session).map (·.received) =
      some [.event 1, .snapshot 3, .irc 4, .shutdown] := by decide +kernel
  obtain ⟨s, hrun, hs⟩ := Option.map_eq_some_iff.mp hreceived
  exact ⟨s, hrun, hs, mailbox_delivers (reach_of_run _ hrun)⟩

end Mailbox

end DessPlay.Ui
