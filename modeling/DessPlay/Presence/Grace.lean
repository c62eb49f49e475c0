/-
  DessPlay.Presence.Grace
  **OUTAGE GRACE WINDOWS** (`open_grace_window`, `close_grace_windows`,
  `reconcile_grace_windows`, `force_pause` of `dessplay-rendezvous/src/server.rs`).

  Whatever stops the playback sets off a task that closes the windows, so a window over
  a stopped room has a closer coming.  Two half-steps break this.  Opening looks at the
  state in one section and writes the registry in another: a pause that runs in between
  finds no window to close.  And the registry holds ONE file for all windows: a window
  opened on the next file hides from the closer that the older ones belong to the last.
  A third way is a panic: saving the position of the file that is left reads the chat
  list, and a list that cannot be read ends the task before it closes anything.
-/
import DessPlay.Presence.Sessions

namespace DessPlay.Presence

open BTree DessPlay.Core Option Function Machine CrdtState
open List hiding getElem?_eq_some_iff getElem?_map

/-! ## §1. Closers and guards. -/

/-- A window on `file` is in its right: the file is playing. -/
def Protects (state : CrdtState) (file : Ed2kHash) : Prop :=
  state.playing = true ∧ state.nowPlaying = some file

theorem Protects.of_regs_eq {state state' : CrdtState} {file : Ed2kHash} (h : Protects state file)
    (hintent : state'.regs .playbackIntent = state.regs .playbackIntent)
    (hnow : state'.regs .nowPlaying = state.regs .nowPlaying) : Protects state' file := by
  unfold Protects playing nowPlaying at h ⊢
  rw [hintent, hnow]
  exact h

namespace Registry

variable {r : Registry}

theorem openGrace_opened {user : UserId} {conn : ConnId} {deadline : Nat}
    {nowPlaying : Option Ed2kHash} (h : (r.openGrace user conn deadline nowPlaying).2 = true) :
    (r.openGrace user conn deadline nowPlaying).1.graceFile = nowPlaying ∧
      ∀ u, u ≠ user → (r.openGrace user conn deadline nowPlaying).1.peers[u]? = r.peers[u]? := by
  unfold openGrace at h ⊢
  split at h
  next entry hentry =>
    split at h
    next hlost =>
      rw [if_pos hlost]
      refine ⟨rfl, fun u hu => ?_⟩
      show (r.put user _).peers[u]? = _
      rw [getElem?_put, if_neg hu]
    · cases h
  · cases h

/-- No window is opened, and the file is kept or cleared. -/
structure Shrinks (r r' : Registry) : Prop where
  file : ∀ f, r'.graceFile = some f → r.graceFile = some f
  windows : ∀ (user : UserId) (entry' : PeerEntry), r'.peers[user]? = some entry' →
    entry'.info.graceUntil.isSome →
    ∃ entry, r.peers[user]? = some entry ∧ entry.info.graceUntil.isSome

theorem Shrinks.refl (r : Registry) : r.Shrinks r where
  file _ h := h
  windows _ entry h hgrace := ⟨entry, h, hgrace⟩

theorem shrinks_put {user : UserId} {old entry : PeerEntry} (hold : r.peers[user]? = some old)
    (hgrace : entry.info.graceUntil = old.info.graceUntil) : r.Shrinks (r.put user entry) where
  file _ h := h
  windows u e hu hopen := by
    rw [getElem?_put] at hu
    split at hu
    next heq =>
      obtain rfl := some.inj hu
      exact ⟨old, heq ▸ hold, hgrace ▸ hopen⟩
    · exact ⟨e, hu, hopen⟩

theorem shrinks_map {f : PeerEntry → PeerEntry} {graceFile : Option Ed2kHash}
    (hfile : ∀ file, graceFile = some file → r.graceFile = some file)
    (hgrace : ∀ entry, (f entry).info.graceUntil.isSome → entry.info.graceUntil.isSome) :
    r.Shrinks ⟨r.peers.map fun _ => f, graceFile⟩ where
  file := hfile
  windows u e hu hopen := by
    have hu : (r.peers.map fun _ => f)[u]? = some e := hu
    rw [getElem?_map] at hu
    obtain ⟨old, hold, rfl⟩ := map_eq_some_iff.mp hu
    exact ⟨old, hold, hgrace old hopen⟩

theorem shrinks_closeGrace : r.Shrinks r.closeGrace.1 :=
  shrinks_map nofun nofun

theorem shrinks_register (user : UserId) (conn : ConnId) (role : Role) (token : Nat) :
    r.Shrinks (r.register user conn role token) where
  file f h := by
    have h : (if (r.put user _).anyGrace then r.graceFile else none) = some f := h
    split at h
    · exact h
    · cases h
  windows u e hu hopen := by
    have hu : (r.put user (freshEntry user conn role token)).peers[u]? = some e := hu
    rw [getElem?_put] at hu
    split at hu
    · obtain rfl := some.inj hu; cases hopen
    · exact ⟨e, hu, hopen⟩

theorem shrinks_endConnection (user : UserId) (conn : ConnId) (how : AuthedEnd) (now : Nat) :
    r.Shrinks (r.endConnection user conn how now) :=
  guarded_put (.refl r) fun _ hentry _ => shrinks_put hentry rfl

theorem shrinks_bindTransfer {user : UserId} {token : Nat} {transfer : TransferId} {r' : Registry}
    (h : r.bindTransfer user token transfer = some r') : r.Shrinks r' := by
  obtain ⟨old, hold, -, rfl⟩ := bindTransfer_eq h
  exact shrinks_put hold rfl

theorem shrinks_endTransfer (user : UserId) (transfer : TransferId) :
    r.Shrinks (r.endTransfer user transfer) :=
  guarded_put (.refl r) fun _ hentry _ => shrinks_put hentry rfl

theorem shrinks_relayHello (user : UserId) (transfer : TransferId) :
    r.Shrinks (r.relayHello user transfer) :=
  guarded_put (.refl r) fun _ hentry _ => shrinks_put hentry rfl

theorem shrinks_sweepDeparted (now : Nat) : r.Shrinks (r.sweepDeparted now) :=
  shrinks_map (fun _ h => h) fun entry h => by split at h <;> exact h

end Registry

namespace Instr

/-- Reaching this instruction, the task closes a window on `file` unless it is in its
right by then. -/
def Closes (file : Ed2kHash) : Instr → Prop
  | .pauseRead => True
  | .pauseClose _ => True
  | .reconcileRead => True
  | .reconcileCheck f => f = file
  | .reconcileClose _ _ => True
  | _ => False

def Guarded (state : CrdtState) : Instr → Prop
  | .graceOpen _ _ _ nowPlaying => ∃ file, nowPlaying = some file ∧ Protects state file
  | _ => True

def opens : Instr → Bool
  | .graceOpen _ _ _ _ => true
  | _ => false

/-- What an instruction needs of the ones behind it: a forced pause is followed by the
closing of the windows, no server write moves now-playing, and a section that may
panic without saving a position drops no closer. -/
def Before (rest : List Instr) : Instr → Prop
  | .stampWrite _ (.reg .playbackIntent _) => .pauseRead ∈ rest
  | .write _ _ (.reg .playbackIntent _) => .pauseRead ∈ rest
  | .stampWrite _ (.reg .nowPlaying _) => False
  | .write _ _ (.reg .nowPlaying _) => False
  | .graceRead _ _ _ => ∀ later ∈ rest, ∃ user, later = .takeCheck user
  | .applyOp _ _ => rest = []
  | .mergeState _ => rest = []
  | .pinCheck => rest = []
  | .pinPeers _ => rest = []
  | .pinDecide _ _ => rest = []
  | .eof _ => rest = []
  | _ => True

/-- The sections that may save a position; behind them, or in what they leave, are closers. -/
def saves : Instr → Bool
  | .saveLast => true
  | .applyOp _ _ => true
  | .mergeState _ => true
  | _ => false

theorem guarded_of_opens {state : CrdtState} {instr : Instr} (h : instr.opens = false) :
    instr.Guarded state := by
  cases instr with
  | graceOpen => cases h
  | _ => trivial

end Instr

namespace Room

def Sane : List Instr → Prop
  | [] => True
  | instr :: rest => instr.Before rest ∧ Sane rest

structure TaskSound (state : CrdtState) (task : List Instr) : Prop where
  sane : Sane task
  guard : ∀ instr ∈ task.head?, instr.Guarded state
  later : ∀ instr ∈ task.tail, instr.opens = false

variable {blockers : StateView → List PeerInfo → List UserId} {room room' mid : Room}
  {state state' : CrdtState} {instr : Instr} {next rest task : List Instr} {file : Ed2kHash}

theorem taskSound_of_closed (hsane : Sane task) (h : ∀ instr ∈ task, instr.opens = false) :
    TaskSound state task where
  sane := hsane
  guard instr hinstr := Instr.guarded_of_opens (h instr (mem_of_mem_head? hinstr))
  later instr hinstr := h instr (mem_of_mem_tail hinstr)

theorem Opening.opens (h : Opening instr) : instr.opens = false := by
  cases h <;> rfl

theorem sane_forcePause (h : Sane rest) : Sane (forcePause ++ rest) :=
  ⟨mem_cons_self, trivial, h⟩

theorem sane_departures (promoted : List (UserId × Role)) : Sane (departures promoted) := by
  unfold departures
  induction promoted.filter fun e => e.2 = .interactive with
  | nil => trivial
  | cons e promoted ih => exact ⟨trivial, ih⟩

theorem Fresh.sane (h : Fresh task) : Sane task := by
  cases h with
  | @farewell user conn role how before lastViewer =>
    have hgoodbye : Sane (Presence.forcePause ++ [.takeCheck user]) :=
      sane_forcePause ⟨trivial, trivial⟩
    have hlost : Sane [.graceRead user conn before, .takeCheck user] :=
      ⟨fun later hlater => ⟨user, mem_singleton.mp hlater⟩, trivial, trivial⟩
    unfold Room.farewell
    split
    · cases lastViewer <;> cases how
      · exact hgoodbye
      · exact hlost
      · exact ⟨trivial, hgoodbye⟩
      · exact ⟨trivial, hlost⟩
    · trivial
  | departures => exact sane_departures _
  | forcePause => exact sane_forcePause trivial
  | stateOp => exact ⟨trivial, rfl, trivial⟩
  | stateMerge => exact ⟨rfl, trivial⟩
  | eof => exact ⟨rfl, trivial⟩
  | background => exact ⟨trivial, trivial⟩

theorem sane_aftermath {moved : Bool} : Sane (aftermath moved) := by
  cases moved with
  | true => exact ⟨trivial, trivial, rfl, trivial⟩
  | false => exact ⟨trivial, rfl, trivial⟩

/-- **One section** leaves its task sound: a window about to open has just been found in its
right. -/
theorem Outcome.taskSound (h : room.Outcome instr mid next)
    (hsound : TaskSound room.state (instr :: rest)) : TaskSound mid.state (next ++ rest) := by
  obtain ⟨⟨hbefore, hsane⟩, -, hlater⟩ := hsound
  have hlater : ∀ later ∈ rest, later.opens = false := hlater
  -- most sections leave nothing that opens a window
  have hclosed : Sane (next ++ rest) → (∀ later ∈ next, later.opens = false) →
      TaskSound mid.state (next ++ rest) := fun hs hnext =>
    taskSound_of_closed hs fun later hmem =>
      (mem_append.mp hmem).elim (hnext later) (hlater later)
  cases h with
  | graceActive hplay hfile =>
    refine ⟨⟨trivial, hsane⟩, ?_, hlater⟩
    intro first hfirst
    obtain rfl := some.inj hfirst
    exact ⟨_, rfl, hplay, hfile⟩
  | @stampWrite why w =>
    refine hclosed ⟨?_, hsane⟩ fun later hmem => mem_singleton.mp hmem ▸ rfl
    cases w with
    | reg r value => cases r <;> exact hbefore
    | _ => trivial
  | pauseClose hnext =>
    obtain rfl | rfl := hnext
    · exact taskSound_of_closed hsane hlater
    · cases ‹Option Ed2kHash› with
      | none => exact taskSound_of_closed hsane hlater
      | some file =>
        exact hclosed ⟨trivial, hsane⟩ fun later hmem => mem_singleton.mp hmem ▸ rfl
  | reconcileClose hnext =>
    obtain rfl | ⟨-, rfl⟩ := hnext
    · exact taskSound_of_closed hsane hlater
    · exact hclosed ⟨trivial, hsane⟩ fun later hmem => mem_singleton.mp hmem ▸ rfl
  | pinFound | pinPeers =>
    exact hclosed ⟨hbefore, hsane⟩ fun later hmem => mem_singleton.mp hmem ▸ rfl
  | pinDecide | pauseRead | followOn | takeHeld | reconcileOpen | reconcileStop | eof =>
    exact hclosed ⟨trivial, hsane⟩ fun later hmem => mem_singleton.mp hmem ▸ rfl
  | graceIdle | graceRefused =>
    exact hclosed (sane_forcePause hsane) fun _ hmem => (opening_forcePause hmem).opens
  | applied | merged =>
    obtain rfl : rest = [] := hbefore
    rw [append_nil]
    exact taskSound_of_closed sane_aftermath fun _ hmem => (opening_aftermath hmem).opens
  | _ => exact taskSound_of_closed hsane hlater

theorem TaskSound.of_regs_eq (h : TaskSound state task)
    (hregs : ∀ first ∈ task.head?, first.opens = true →
      state'.regs .playbackIntent = state.regs .playbackIntent ∧
        state'.regs .nowPlaying = state.regs .nowPlaying) : TaskSound state' task := by
  refine ⟨h.sane, fun first hfirst => ?_, h.later⟩
  have hguard := h.guard first hfirst
  cases first with
  | graceOpen user conn now nowPlaying =>
    obtain ⟨file, hfile, hprot⟩ := hguard
    obtain ⟨hintent, hnow⟩ := hregs _ hfirst rfl
    exact ⟨file, hfile, hprot.of_regs_eq hintent hnow⟩
  | _ => trivial

/-! ## §2. One section and the open windows. -/

theorem applyForBroadcast_refused_regs {s : CrdtState} {op : CrdtOp} {viaDatagram : Bool}
    (h : (s.applyForBroadcast op viaDatagram).2 = false) :
    (s.applyForBroadcast op viaDatagram).1.regs = s.regs := by
  cases op with
  | reg r w =>
    -- the verdict compares winners, and the winner is all a cell holds
    have hread : ((s.regs r).apply w).read = (s.regs r).read := by
      simpa [applyForBroadcast, registerChanged] using h
    show update s.regs r ((s.regs r).apply w) = s.regs
    rw [update_eq_self_iff]
    exact congrArg LwwCell.mk hread
  | map f op =>
    funext r
    exact applyForBroadcast_regs_eq rfl
  | set g x => rfl
  | chat id => rfl

theorem reconcileRead_mem_aftermath (moved : Bool) : Instr.reconcileRead ∈ aftermath moved :=
  mem_append_right _ mem_cons_self

/-- **One section.**  A window that is open afterwards is in its right; or its task still has a
closer; or it was open before, the section was not its closer, and its right was not touched. -/
theorem Outcome.covers (h : room.Outcome instr mid next) (hbefore : instr.Before rest)
    (hguard : instr.Guarded room.state) (hfile : mid.registry.graceFile = some file) :
    Protects mid.state file ∨ (∃ closer ∈ next ++ rest, closer.Closes file) ∨
      room.registry.graceFile = some file ∧ ¬ instr.Closes file ∧
        (Protects room.state file → Protects mid.state file) := by
  have hhead : ∀ {closer : Instr}, closer ∈ next → closer.Closes file →
      ∃ closer ∈ next ++ rest, closer.Closes file :=
    fun hmem hcloses => ⟨_, mem_append_left _ hmem, hcloses⟩
  cases h with
  | @write why ts w =>
    have hframe : (∀ r, r = .playbackIntent ∨ r = .nowPlaying →
        (Instr.write why ts w).writes r = false) → _ := fun hw =>
      fun hprot : Protects room.state file => hprot.of_regs_eq
        (put_regs_eq (hw _ (.inl rfl))) (put_regs_eq (hw _ (.inr rfl)))
    cases w with
    | reg r value =>
      cases r with
      | playbackIntent => exact .inr (.inl ⟨_, hbefore, trivial⟩)
      | nowPlaying => exact hbefore.elim
      | seekAuthority | marquee =>
        refine .inr (.inr ⟨hfile, not_false, hframe ?_⟩)
        intro r hr
        obtain rfl | rfl := hr <;> rfl
    | map | set | chat => exact .inr (.inr ⟨hfile, not_false, hframe fun _ _ => rfl⟩)
  | pauseRead => exact .inr (.inl (hhead mem_cons_self trivial))
  | pauseClose => cases hfile
  | reconcileClose => cases hfile
  | reconcileOpen hopen =>
    obtain rfl := some.inj (hopen.symm.trans hfile)
    exact .inr (.inl (hhead mem_cons_self rfl))
  | reconcileNone hnone => rw [hnone] at hfile; cases hfile
  | reconcileStop => exact .inr (.inl (hhead mem_cons_self trivial))
  | @reconcileGo f hplay hnow =>
    by_cases hf : f = file
    · subst hf; exact .inl ⟨hplay, hnow⟩
    · exact .inr (.inr ⟨hfile, hf, fun h => h⟩)
  | graceOpened hopen =>
    obtain ⟨f, hf, hprot⟩ := hguard
    have hnew := (Registry.openGrace_opened hopen).1
    obtain rfl : f = file := some.inj (hf.symm.trans (hnew.symm.trans hfile))
    exact .inl hprot
  | saveLast hregs =>
    exact .inr (.inr ⟨hfile, not_false,
      fun h => h.of_regs_eq (congrFun hregs _) (congrFun hregs _)⟩)
  | refused hno =>
    have hregs := applyForBroadcast_refused_regs hno
    exact .inr (.inr ⟨hfile, not_false,
      fun h => h.of_regs_eq (congrFun hregs _) (congrFun hregs _)⟩)
  | applied | merged =>
    exact .inr (.inl (hhead (reconcileRead_mem_aftermath _) trivial))
  | eof => exact .inr (.inl (hhead mem_cons_self trivial))
  | _ => exact .inr (.inr ⟨hfile, not_false, fun h => h⟩)

theorem Outcome.shrinks (h : room.Outcome instr mid next) (hopens : instr.opens = false) :
    room.registry.Shrinks mid.registry := by
  cases h with
  | pauseClose | reconcileClose => exact Registry.shrinks_closeGrace
  | graceOpened => cases hopens
  | _ => exact .refl _

theorem shrinks_start {event : RoomEvent} (hrun : ∀ i ambient, event ≠ .run i ambient)
    (h : room.step blockers event = some room') : room.registry.Shrinks room'.registry := by
  cases event with
  | run i ambient => exact absurd rfl (hrun i ambient)
  | register conn user role token =>
    simp only [step] at h
    split at h
    · cases h
    · obtain rfl := some.inj h; exact Registry.shrinks_register ..
  | connEnd conn user role how now =>
    simp only [step] at h
    split at h
    · split at h
      · obtain rfl := some.inj h; exact Registry.shrinks_endConnection ..
      · obtain rfl := some.inj h; exact Registry.shrinks_endConnection ..
    · cases h
  | bind transfer user token =>
    simp only [step] at h
    split at h
    · cases h
    · obtain ⟨registry, hbind, rfl⟩ := map_eq_some_iff.mp h
      exact Registry.shrinks_bindTransfer hbind
  | transferEnd transfer user =>
    simp only [step] at h
    split at h
    · obtain rfl := some.inj h; exact Registry.shrinks_endTransfer ..
    · cases h
  | hello transfer user =>
    simp only [step] at h
    split at h
    · obtain rfl := some.inj h; exact Registry.shrinks_relayHello ..
    · cases h
  | sweepDeparted now =>
    obtain rfl := some.inj h
    exact Registry.shrinks_sweepDeparted now
  | sweepGrace now =>
    obtain rfl := some.inj h
    split <;> exact .refl _
  | _ =>
    obtain rfl := some.inj h
    exact .refl _

/-! ## §3. Pending closers. -/

/-- Some task will close a window on `file`. -/
def HasCloser (tasks : List (List Instr)) (file : Ed2kHash) : Prop :=
  ∃ task ∈ tasks, ∃ instr ∈ task, instr.Closes file

theorem HasCloser.set {tasks : List (List Instr)} {i : Nat} {old new : List Instr}
    (h : HasCloser tasks file) (hold : tasks[i]? = some old)
    (hkeep : (∃ closer ∈ old, closer.Closes file) → ∃ closer ∈ new, closer.Closes file) :
    HasCloser (tasks.set i new) file := by
  have hlt := (List.getElem?_eq_some_iff.mp hold).1
  obtain ⟨task, htask, hcloser⟩ := h
  obtain ⟨j, hj⟩ := getElem?_of_mem htask
  by_cases hij : j = i
  · subst hij
    obtain rfl := some.inj (hold.symm.trans hj)
    exact ⟨new, mem_set hlt new, hkeep hcloser⟩
  · refine ⟨task, ?_, hcloser⟩
    rw [← getElem?_set_ne (Ne.symm hij)] at hj
    exact mem_of_getElem? hj

/-- A panic that saves no position changes nothing and drops no closer. -/
theorem no_closer_of_panic (hpanic : room.Panics instr mid) (hsaves : instr.saves = false)
    (hbefore : instr.Before rest) (file : Ed2kHash) :
    mid = room ∧ ¬ ∃ closer ∈ instr :: rest, closer.Closes file := by
  cases hpanic with
  | pinDecide | eof =>
    obtain rfl : rest = [] := hbefore
    refine ⟨rfl, ?_⟩
    rintro ⟨closer, hmem, hcloses⟩
    obtain rfl := mem_singleton.mp hmem
    exact hcloses
  | graceRead =>
    refine ⟨rfl, ?_⟩
    rintro ⟨closer, hmem, hcloses⟩
    obtain rfl | hlater := mem_cons.mp hmem
    · exact hcloses
    · obtain ⟨user, rfl⟩ := hbefore closer hlater
      exact hcloses
  | saveLast | applyOp | mergeState => cases hsaves

end Room

/-! ## §4. Runs, with the file of every window. -/

/-- The server, and for every user the file their last window was opened on. -/
structure Windowed where
  room : Room
  openedOn : UserId → Option Ed2kHash

namespace Windowed

variable (blockers : StateView → List PeerInfo → List UserId)

def logged (w : Windowed) : RoomEvent → UserId → Option Ed2kHash
  | .run i _ =>
    match w.room.tasks[i]? with
    | some (.graceOpen user conn now nowPlaying :: _) =>
      if (w.room.registry.openGrace user conn (now + OUTAGE_GRACE_MILLIS) nowPlaying).2 then
        update w.openedOn user nowPlaying
      else w.openedOn
    | _ => w.openedOn
  | _ => w.openedOn

def step (w : Windowed) (event : RoomEvent) : Option Windowed :=
  (w.room.step blockers event).map fun room => ⟨room, w.logged event⟩

def start (state : CrdtState) : Windowed := ⟨.start state, fun _ => none⟩

/-- No section touches the intent or now-playing between another task's look at them and the
opening of its window, no window is opened while one on another file is open, and no section
that saves a position panics on a chat list it cannot read. -/
def Settled (w : Windowed) : RoomEvent → Prop
  | .run i ambient => ∀ instr ∈ w.room.tasks[i]?.bind head?,
      (∀ j other, j ≠ i → other ∈ w.room.tasks[j]?.bind head? → other.opens = true →
        instr.writes .playbackIntent = false ∧ instr.writes .nowPlaying = false) ∧
      (∀ user conn now nowPlaying file, instr = .graceOpen user conn now nowPlaying →
        w.room.registry.graceFile = some file → nowPlaying = some file) ∧
      (instr.saves = true → (w.room.perform blockers ambient instr).2 ≠ none)
  | _ => True

/-- **The invariant.**  A window that is not in its right has a closer coming, and every window is
on the registry's file. -/
structure Covered (w : Windowed) : Prop where
  registered : w.room.Registered
  tasks : ∀ task ∈ w.room.tasks, Room.TaskSound w.room.state task
  pending : ∀ file, w.room.registry.graceFile = some file →
    Protects w.room.state file ∨ Room.HasCloser w.room.tasks file
  files : ∀ (user : UserId) (entry : PeerEntry), w.room.registry.peers[user]? = some entry →
    entry.info.graceUntil.isSome → w.openedOn user = w.room.registry.graceFile

variable {blockers} {w w' : Windowed}

theorem Covered.files_of_shrinks (h : w.Covered) {registry : Registry}
    (hshrinks : w.room.registry.Shrinks registry) (hwf : registry.WellFormed) (user : UserId)
    (entry : PeerEntry) (hentry : registry.peers[user]? = some entry)
    (hopen : entry.info.graceUntil.isSome) : w.openedOn user = registry.graceFile := by
  obtain ⟨old, hold, hgrace⟩ := hshrinks.windows user entry hentry hopen
  obtain ⟨file, hfile⟩ := isSome_iff_exists.mp (hwf.graceFile.mpr ⟨user, entry, hentry, hopen⟩)
  rw [h.files user old hold hgrace, hfile]
  exact hshrinks.file file hfile

variable {event : RoomEvent} {room' : Room}

theorem Covered.tasks_step (h : w.Covered) (hok : w.Settled blockers event)
    (hstep : w.room.step blockers event = some room') :
    ∀ task ∈ room'.tasks, Room.TaskSound room'.state task := by
  cases event with
  | run i ambient =>
    have hnil (state : CrdtState) : Room.TaskSound state [] :=
      Room.taskSound_of_closed trivial fun _ hinstr => by cases hinstr
    refine Room.forall_tasks_run h.tasks hstep hnil (fun _ hout => hout.taskSound) ?_
    intro instr rest mid next j task htask hout hij hj hold
    refine hold.of_regs_eq fun first hfirst hopens => ?_
    have hquiet := (hok instr (by rw [htask]; rfl)).1 j first hij (by rw [hj]; exact hfirst) hopens
    exact ⟨hout.regs_eq hquiet.1, hout.regs_eq hquiet.2⟩
  | _ =>
    refine Room.forall_tasks_start h.tasks (fun _ _ heq => by cases heq) hstep fun task hfresh => ?_
    exact Room.taskSound_of_closed hfresh.sane fun _ hinstr => (hfresh.opening hinstr).opens

theorem Covered.pending_run (h : w.Covered) {i : Nat} {ambient : Ambient}
    (hok : w.Settled blockers (.run i ambient))
    (hstep : w.room.step blockers (.run i ambient) = some room') (file : Ed2kHash)
    (hfile : room'.registry.graceFile = some file) :
    Protects room'.state file ∨ Room.HasCloser room'.tasks file := by
  obtain ⟨instr, rest, mid, next, left, htask, hout, rfl, hleft⟩ := Room.step_run hstep
  obtain ⟨⟨hbefore, -⟩, hguard, -⟩ := h.tasks _ (mem_of_getElem? htask)
  have hlt := (List.getElem?_eq_some_iff.mp htask).1
  obtain rfl | ⟨rfl, hnone, hpanic⟩ := hleft
  · obtain hprot | hcloser | ⟨hold, hnot, hkeep⟩ := hout.covers hbefore (hguard instr rfl) hfile
    · exact .inl hprot
    · exact .inr ⟨next ++ rest, mem_set hlt _, hcloser⟩
    · -- the section had nothing to do with this window
      refine (h.pending file hold).imp hkeep fun hpending => hpending.set htask ?_
      rintro ⟨closer, hmem, hcloses⟩
      obtain rfl | hlater := mem_cons.mp hmem
      · exact absurd hcloses hnot
      · exact ⟨closer, mem_append_right _ hlater, hcloses⟩
  · have hsaves : instr.saves = false := Bool.eq_false_iff.mpr fun hsaves =>
      (hok instr (by rw [htask]; rfl)).2.2 hsaves hnone
    obtain ⟨rfl, hno⟩ := Room.no_closer_of_panic hpanic hsaves hbefore file
    refine (h.pending file hfile).imp_right fun hpending => hpending.set htask ?_
    exact fun hcloser => absurd hcloser hno

theorem Covered.pending_start (h : w.Covered) (hrun : ∀ i ambient, event ≠ .run i ambient)
    (hstep : w.room.step blockers event = some room') (file : Ed2kHash)
    (hfile : room'.registry.graceFile = some file) :
    Protects room'.state file ∨ Room.HasCloser room'.tasks file := by
  obtain ⟨hstate, htasks⟩ := Room.step_start hrun hstep
  rw [hstate]
  refine (h.pending file ((Room.shrinks_start hrun hstep).file file hfile)).imp_right ?_
  rintro ⟨task, htask, hcloser⟩
  refine ⟨task, ?_, hcloser⟩
  obtain hsame | ⟨new, -, hnew⟩ := htasks
  · rw [hsame]; exact htask
  · rw [hnew]; exact mem_append_left _ htask

theorem Covered.files_run (h : w.Covered) {i : Nat} {ambient : Ambient}
    (hok : w.Settled blockers (.run i ambient))
    (hstep : w.room.step blockers (.run i ambient) = some room')
    (user : UserId) (entry : PeerEntry) (hentry : room'.registry.peers[user]? = some entry)
    (hopen : entry.info.graceUntil.isSome) :
    w.logged (.run i ambient) user = room'.registry.graceFile := by
  have hwf := (h.registered.step hstep).wellFormed
  obtain ⟨instr, rest, mid, next, left, htask, hout, rfl, -⟩ := Room.step_run hstep
  have hlogged : instr.opens = false → w.logged (.run i ambient) = w.openedOn := by
    intro hopens
    cases instr with
    | graceOpen => cases hopens
    | _ => simp only [logged, htask]
  cases hopens : instr.opens with
  | false =>
    rw [hlogged hopens]
    exact h.files_of_shrinks (hout.shrinks hopens) hwf user entry hentry hopen
  | true =>
    cases hout with
    | @graceOpened who conn now nowPlaying hyes =>
      simp only [logged, htask, if_pos hyes]
      obtain ⟨hnew, hothers⟩ := Registry.openGrace_opened hyes
      show _ = (w.room.registry.openGrace _ _ _ _).1.graceFile
      rw [hnew]
      by_cases hwho : user = who
      · rw [hwho, update_self]
      · rw [update_of_ne hwho]
        have hentry : (w.room.registry.openGrace _ _ _ _).1.peers[user]? = some entry := hentry
        rw [hothers user hwho] at hentry
        obtain ⟨file, hfile⟩ := isSome_iff_exists.mp
          (h.registered.wellFormed.graceFile.mpr ⟨user, entry, hentry, hopen⟩)
        rw [h.files user entry hentry hopen, hfile]
        exact ((hok _ (by rw [htask]; rfl)).2.1 _ _ _ _ file rfl hfile).symm
    | graceRefused hno =>
      simp only [logged, htask, hno, Bool.false_eq_true, if_false]
      exact h.files user entry hentry hopen
    | _ => cases hopens

/-- **One step.** -/
theorem Covered.step (h : w.Covered) (hok : w.Settled blockers event)
    (hstep : w.step blockers event = some w') : w'.Covered := by
  obtain ⟨room', hroom, rfl⟩ := map_eq_some_iff.mp hstep
  have hreg := h.registered.step hroom
  cases event with
  | run i ambient =>
    exact ⟨hreg, h.tasks_step hok hroom, h.pending_run hok hroom, h.files_run hok hroom⟩
  | _ =>
    refine ⟨hreg, h.tasks_step hok hroom, h.pending_start (fun _ _ heq => by cases heq) hroom,
      h.files_of_shrinks (Room.shrinks_start (fun _ _ heq => by cases heq) hroom) hreg.wellFormed⟩

/-- One task at a time, no window over another, and no position to save. -/
def alone (w : Windowed) (_ : RoomEvent) : Bool :=
  w.room.tasks.length ≤ 1 ∧
    (w.room.registry.graceFile = none ∨ ∀ task ∈ w.room.tasks, task.head?.all fun i => !i.opens) ∧
    ∀ task ∈ w.room.tasks, task.head?.all fun i => !i.saves

end Windowed

end DessPlay.Presence
