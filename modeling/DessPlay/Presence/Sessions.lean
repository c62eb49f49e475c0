/-
  DessPlay.Presence.Sessions
  **THE REGISTRY OVER WHOLE RUNS, AND LATE CLEANUPS**
  (`dessplay-rendezvous/src/server.rs`).

  Two things are left to the run as a whole: that a window is only ever opened ON A
  FILE (the file is read in one section and written in another), and that the end of
  a superseded connection finds an entry that is not its own.
  For the latter the log of registrations is compared with the entries: an entry is
  backed by the LAST session of its user, and its transfer connection is the LAST
  one bound for that user.
-/
import DessPlay.Presence.Room

namespace DessPlay.Presence

open BTree DessPlay.Core Option Machine
open List hiding getElem?_map map_map

/-! ## §1. Logs of connections. -/

/-- The last connection logged for a user. -/
def lastOf (log : List (Nat × UserId)) (user : UserId) : Option Nat :=
  ((log.filter fun e => e.2 = user).getLast?).map Prod.fst

def Superseded (log : List (Nat × UserId)) (id : Nat) (user : UserId) : Prop :=
  ∃ front back, log = front ++ (id, user) :: back ∧ ∃ later, (later, user) ∈ back

theorem lastOf_concat (log : List (Nat × UserId)) (id : Nat) (user u : UserId) :
    lastOf (log ++ [(id, user)]) u = if u = user then some id else lastOf log u := by
  unfold lastOf
  rw [filter_append]
  by_cases hu : u = user
  · subst hu
    simp
  · have hne : ¬ user = u := fun h => hu h.symm
    simp [hu, hne]

theorem lastOf_mem {log : List (Nat × UserId)} {user : UserId} {id : Nat}
    (h : lastOf log user = some id) : (id, user) ∈ log := by
  obtain ⟨e, he, rfl⟩ := map_eq_some_iff.mp h
  have hmem := mem_of_getLast? he
  rw [mem_filter] at hmem
  obtain rfl := of_decide_eq_true hmem.2
  exact hmem.1

theorem lastOf_ne_of_superseded {log : List (Nat × UserId)} {id : Nat} {user : UserId}
    (hnodup : (log.map Prod.fst).Nodup) (h : Superseded log id user) :
    lastOf log user ≠ some id := by
  obtain ⟨front, back, rfl, later, hlater⟩ := h
  intro hlast
  -- the last one is among those logged later
  have hback : lastOf (front ++ (id, user) :: back) user = lastOf back user := by
    have hin : (later, user) ∈ back.filter fun e => e.2 = user := by simp [hlater]
    have hne : (back.filter fun e => e.2 = user) ≠ [] := ne_nil_of_mem hin
    unfold lastOf
    rw [append_cons, filter_append, getLast?_append_of_ne_nil _ hne]
  rw [hback] at hlast
  have hmem := mem_map_of_mem (f := Prod.fst) (lastOf_mem hlast)
  rw [map_append, map_cons, nodup_append] at hnodup
  exact (nodup_cons.mp hnodup.2.1).1 hmem

/-! ## §2. Sections keep the backing connections. -/

/-- No entry changes its backing connection, and none gains a transfer connection. -/
structure Registry.Keeps (r r' : Registry) : Prop where
  backing : ∀ user : UserId, (r'.peers[user]?).map (·.connId) = (r.peers[user]?).map (·.connId)
  transfer : ∀ (user : UserId) entry', r'.peers[user]? = some entry' →
    ∀ t, entry'.transferConnId = some t →
      ∃ entry, r.peers[user]? = some entry ∧ entry.transferConnId = some t

namespace Registry

variable {r : Registry}

theorem Keeps.refl (r : Registry) : r.Keeps r := ⟨fun _ => rfl, fun _ e he _ ht => ⟨e, he, ht⟩⟩

theorem keeps_put {user : UserId} {old entry : PeerEntry} (hold : r.peers[user]? = some old)
    (hconn : entry.connId = old.connId)
    (htransfer : entry.transferConnId = old.transferConnId ∨ entry.transferConnId = none) :
    r.Keeps (r.put user entry) where
  backing u := by
    rw [getElem?_put]
    split
    next hu => rw [hu, hold]; exact congrArg some hconn
    · rfl
  transfer u e he t ht := by
    rw [getElem?_put] at he
    split at he
    next hu =>
      cases he
      rcases htransfer with hsame | hnone
      · exact ⟨old, hu ▸ hold, hsame ▸ ht⟩
      · rw [hnone] at ht; cases ht
    · exact ⟨e, he, ht⟩

theorem keeps_map {f : PeerEntry → PeerEntry} {graceFile : Option Ed2kHash}
    (hconn : ∀ entry, (f entry).connId = entry.connId)
    (htransfer : ∀ entry, (f entry).transferConnId = entry.transferConnId) :
    r.Keeps ⟨r.peers.map fun _ => f, graceFile⟩ where
  backing u := by
    show ((r.peers.map fun _ => f)[u]?).map _ = _
    rw [getElem?_map, map_map]
    exact congrArg (fun g => Option.map g _) (funext hconn)
  transfer u e he t ht := by
    have he : (r.peers.map fun _ => f)[u]? = some e := he
    rw [getElem?_map] at he
    obtain ⟨old, hold, rfl⟩ := map_eq_some_iff.mp he
    exact ⟨old, hold, htransfer old ▸ ht⟩

theorem keeps_endConnection (user : UserId) (conn : ConnId) (how : AuthedEnd) (now : Nat) :
    r.Keeps (r.endConnection user conn how now) :=
  guarded_put (.refl r) fun _ hentry _ => keeps_put hentry rfl (.inr rfl)

theorem keeps_endTransfer (user : UserId) (transfer : TransferId) :
    r.Keeps (r.endTransfer user transfer) :=
  guarded_put (.refl r) fun _ hentry _ => keeps_put hentry rfl (.inr rfl)

theorem keeps_relayHello (user : UserId) (transfer : TransferId) :
    r.Keeps (r.relayHello user transfer) :=
  guarded_put (.refl r) fun _ hentry _ => keeps_put hentry rfl (.inl rfl)

theorem keeps_openGrace (user : UserId) (conn : ConnId) (deadline : Nat)
    (nowPlaying : Option Ed2kHash) : r.Keeps (r.openGrace user conn deadline nowPlaying).1 := by
  unfold openGrace
  split
  next entry hentry =>
    split
    · have hput : r.Keeps (r.put user
          { entry with info := { entry.info with graceUntil := some deadline } }) :=
        keeps_put hentry rfl (.inl rfl)
      exact ⟨hput.backing, hput.transfer⟩
    · exact .refl r
  · exact .refl r

end Registry

/-! ## §3. What a task will do. -/

/-- A window about to open is for a file. -/
def Instr.HasFile : Instr → Prop
  | .graceOpen _ _ _ nowPlaying => nowPlaying.isSome
  | _ => True

theorem Room.Opening.hasFile {instr : Instr} (h : Room.Opening instr) : instr.HasFile := by
  cases h <;> trivial

theorem Room.Outcome.hasFile {room room' : Room} {instr : Instr} {next : List Instr}
    (h : room.Outcome instr room' next) : ∀ i ∈ next, i.HasFile := by
  intro i hi
  cases h with
  | pauseClose hnext =>
    rcases hnext with rfl | rfl
    · cases hi
    · obtain ⟨file, -, rfl⟩ := mem_map.mp hi
      trivial
  | reconcileClose hnext =>
    rcases hnext with rfl | ⟨-, rfl⟩
    · cases hi
    · obtain rfl := mem_singleton.mp hi; trivial
  | graceActive => obtain rfl := mem_singleton.mp hi; rfl
  | graceIdle => exact (Room.opening_forcePause hi).hasFile
  | graceRefused => exact (Room.opening_forcePause hi).hasFile
  | applied => exact (Room.opening_aftermath hi).hasFile
  | merged => exact (Room.opening_aftermath hi).hasFile
  | stampWrite | pauseRead | followOn | takeHeld | reconcileOpen | reconcileStop | pinFound
  | pinPeers | pinDecide | eof => obtain rfl := mem_singleton.mp hi; trivial
  | _ => cases hi

theorem Room.Outcome.registry {room room' : Room} {instr : Instr} {next : List Instr}
    (h : room.Outcome instr room' next) (hfile : instr.HasFile) (hr : room.registry.WellFormed) :
    room'.registry.WellFormed ∧ room.registry.Keeps room'.registry := by
  have hclose : room.registry.closeGrace.1.WellFormed ∧
      room.registry.Keeps room.registry.closeGrace.1 :=
    ⟨hr.closeGrace, Registry.keeps_map (fun _ => rfl) fun _ => rfl⟩
  cases h with
  | pauseClose => exact hclose
  | reconcileClose => exact hclose
  | graceOpened => exact ⟨hr.openGrace _ _ _ hfile, Registry.keeps_openGrace ..⟩
  | _ => exact ⟨hr, .refl _⟩

/-! ## §4. Runs. -/

namespace Room

/-- The registry agrees with the logs, and every window about to open is for a file. -/
structure Registered (room : Room) : Prop where
  wellFormed : room.registry.WellFormed
  files : ∀ task ∈ room.tasks, ∀ instr ∈ task, instr.HasFile
  sessionIds : (room.sessions.map Prod.fst).Nodup
  bindIds : (room.binds.map Prod.fst).Nodup
  backing : ∀ user : UserId,
    (room.registry.peers[user]?).map (·.connId) = lastOf room.sessions user
  bound : ∀ (user : UserId) entry, room.registry.peers[user]? = some entry →
    ∀ t, entry.transferConnId = some t → lastOf room.binds user = some t

variable {blockers : StateView → List PeerInfo → List UserId} {room room' : Room}

theorem registered_start (state : CrdtState) : (start state).Registered where
  wellFormed := Registry.wellFormed_new
  files task htask := by cases htask
  sessionIds := nodup_nil
  bindIds := nodup_nil
  backing user := by
    show (Registry.new.peers[user]?).map _ = _
    rw [show Registry.new.peers[user]? = none from Std.ExtTreeMap.getElem?_empty]
    rfl
  bound user entry h := by
    rw [show (start state).registry.peers[user]? = none from Std.ExtTreeMap.getElem?_empty] at h
    cases h

variable {registry : Registry}

theorem Registered.keep (h : room.Registered) {tasks : List (List Instr)}
    (hr : registry.WellFormed) (hkeep : room.registry.Keeps registry)
    (hfiles : ∀ task ∈ tasks, ∀ instr ∈ task, instr.HasFile) (hrest : room'.registry = registry ∧
      room'.sessions = room.sessions ∧ room'.binds = room.binds ∧ room'.tasks = tasks) :
    room'.Registered := by
  obtain ⟨rfl, hsessions, hbinds, rfl⟩ := hrest
  refine ⟨hr, hfiles, hsessions ▸ h.sessionIds, hbinds ▸ h.bindIds, ?_, ?_⟩
  · intro user
    rw [hsessions, hkeep.backing]
    exact h.backing user
  · intro user entry hentry t ht
    rw [hbinds]
    obtain ⟨old, hold, hsame⟩ := hkeep.transfer user entry hentry t ht
    exact h.bound user old hold t hsame

theorem Registered.spawn (h : room.Registered) {task : List Instr}
    (htask : Fresh task) : (room.spawn task).Registered := by
  refine h.keep h.wellFormed (.refl _) ?_ ⟨rfl, rfl, rfl, rfl⟩
  intro t ht
  rcases mem_append.mp ht with ht | ht
  · exact h.files t ht
  · obtain rfl := mem_singleton.mp ht
    exact fun instr hinstr => (htask.opening hinstr).hasFile

variable {user : UserId}

theorem nodup_ids_concat {α : Type} {log : List (α × UserId)} {id : α}
    (h : (log.map Prod.fst).Nodup) (hfresh : id ∉ log.map Prod.fst) :
    ((log ++ [(id, user)]).map Prod.fst).Nodup := by
  rw [map_append]
  exact concat_eq_append ▸ Nodup.concat hfresh h

theorem Registered.register (h : room.Registered) {conn : ConnId} {role : Role}
    {token : Nat} (hfresh : conn ∉ room.sessions.map Prod.fst) :
    Registered { room with
      registry := room.registry.register user conn role token
      control := room.control ++ [(conn, user, role)]
      sessions := room.sessions ++ [(conn, user)] } := by
  refine ⟨h.wellFormed.register user conn role token, h.files, ?_, h.bindIds, ?_, ?_⟩
  · exact nodup_ids_concat h.sessionIds hfresh
  · intro u
    show ((room.registry.put user _).peers[u]?).map _ = lastOf (room.sessions ++ _) u
    rw [lastOf_concat, Registry.getElem?_put]
    split
    · rfl
    · exact h.backing u
  · intro u entry hentry t ht
    have hentry : (room.registry.put user _).peers[u]? = some entry := hentry
    rw [Registry.getElem?_put] at hentry
    split at hentry
    · cases hentry; cases ht
    · exact h.bound u entry hentry t ht

variable {transfer : TransferId}

theorem Registered.bind (h : room.Registered) {token : Nat}
    (hbind : room.registry.bindTransfer user token transfer = some registry)
    (hfresh : transfer ∉ room.binds.map Prod.fst) :
    Registered { room with
      registry := registry
      transfers := room.transfers ++ [(transfer, user)]
      binds := room.binds ++ [(transfer, user)] } := by
  obtain ⟨old, hold, -, hput⟩ := Registry.bindTransfer_eq hbind
  refine ⟨h.wellFormed.bindTransfer hbind, h.files, h.sessionIds, ?_, ?_, ?_⟩
  · exact nodup_ids_concat h.bindIds hfresh
  · intro u
    show (registry.peers[u]?).map _ = _
    rw [hput, Registry.getElem?_put, ← h.backing u]
    split
    next hu => rw [hu, hold]; rfl
    · rfl
  · intro u entry hentry t ht
    show lastOf (room.binds ++ [(transfer, user)]) u = some t
    have hentry : registry.peers[u]? = some entry := hentry
    rw [hput, Registry.getElem?_put] at hentry
    rw [lastOf_concat]
    split at hentry
    next hu =>
      cases hentry
      rw [if_pos hu]
      exact ht
    next hu =>
      rw [if_neg hu]
      exact h.bound u entry hentry t ht

theorem Registered.sweepDeparted (h : room.Registered) (now : Nat) :
    Registered { room with registry := room.registry.sweepDeparted now } := by
  refine h.keep (h.wellFormed.sweepDeparted now) (Registry.keeps_map ?_ ?_) h.files
    ⟨rfl, rfl, rfl, rfl⟩
  · intro entry; split <;> rfl
  · intro entry; split <;> rfl

/-- A section keeps the agreement, whatever it leaves of its task. -/
theorem Registered.outcome (h : room.Registered) {mid : Room} {i : Nat} {instr : Instr}
    {rest next left : List Instr} (htask : room.tasks[i]? = some (instr :: rest))
    (hout : room.Outcome instr mid next) (hleft : left ⊆ next ++ rest) :
    Registered { mid with tasks := room.tasks.set i left } := by
  have hown := h.files _ (mem_of_getElem? htask)
  obtain ⟨-, hsessions, -, hbinds, -⟩ := hout.frame
  obtain ⟨hr, hkeep⟩ := hout.registry (hown instr mem_cons_self) h.wellFormed
  refine h.keep hr hkeep (fun task hmem i hi => ?_) ⟨rfl, hsessions, hbinds, rfl⟩
  rcases mem_or_eq_of_mem_set hmem with hold | rfl
  · exact h.files task hold i hi
  · rcases mem_append.mp (hleft hi) with hi | hi
    · exact hout.hasFile i hi
    · exact hown i (mem_cons_of_mem _ hi)

/-- **One step** keeps the agreement. -/
theorem Registered.step (h : room.Registered) {e : RoomEvent}
    (hstep : room.step blockers e = some room') : room'.Registered := by
  cases e with
  | register conn user role token =>
    simp only [Room.step] at hstep
    split at hstep
    · cases hstep
    next hfresh => cases hstep; exact h.register hfresh
  | connEnd conn user role how now =>
    simp only [Room.step] at hstep
    split at hstep
    · have hend : Registered
          { room with
            registry := room.registry.endConnection user conn how now
            control := room.control.erase (conn, user, role) } :=
        h.keep (h.wellFormed.endConnection user conn how now)
          (Registry.keeps_endConnection user conn how now) h.files ⟨rfl, rfl, rfl, rfl⟩
      split at hstep
      · cases hstep; exact hend.spawn .farewell
      · cases hstep; exact hend
    · cases hstep
  | bind transfer user token =>
    simp only [Room.step] at hstep
    split at hstep
    · cases hstep
    next hfresh =>
      obtain ⟨registry, hbind, rfl⟩ := map_eq_some_iff.mp hstep
      exact h.bind hbind hfresh
  | transferEnd transfer user =>
    simp only [Room.step] at hstep
    split at hstep
    · cases hstep
      exact h.keep (h.wellFormed.endTransfer user transfer) (Registry.keeps_endTransfer ..)
        h.files ⟨rfl, rfl, rfl, rfl⟩
    · cases hstep
  | hello transfer user =>
    simp only [Room.step] at hstep
    split at hstep
    · cases hstep
      exact h.keep (h.wellFormed.relayHello user transfer) (Registry.keeps_relayHello ..)
        h.files ⟨rfl, rfl, rfl, rfl⟩
    · cases hstep
  | sweepDeparted now => cases hstep; exact (h.sweepDeparted now).spawn .departures
  | sweepGrace now =>
    cases hstep
    split
    · exact h.spawn .forcePause
    · exact h
  | stateOp op viaDatagram => cases hstep; exact h.spawn .stateOp
  | stateMerge other => cases hstep; exact h.spawn .stateMerge
  | eofReached ws => cases hstep; exact h.spawn .eof
  | background f key value => cases hstep; exact h.spawn .background
  | run i ambient =>
    obtain ⟨instr, rest, mid, next, left, htask, hout, rfl, hleft⟩ := step_run hstep
    refine h.outcome htask hout ?_
    obtain rfl | ⟨rfl, -⟩ := hleft
    · exact fun _ hi => hi
    · exact nil_subset _

theorem Registered.endConnection_superseded (h : room.Registered) {conn : ConnId}
    (hold : Superseded room.sessions conn user) (how : AuthedEnd) (now : Nat) :
    room.registry.endConnection user conn how now = room.registry := by
  have hlast := lastOf_ne_of_superseded h.sessionIds hold
  rw [← h.backing user] at hlast
  unfold Registry.endConnection
  split
  next entry hentry =>
    rw [hentry] at hlast
    rw [if_neg fun heq => hlast (congrArg some heq)]
  · rfl

theorem Registered.endTransfer_superseded (h : room.Registered)
    (hold : Superseded room.binds transfer user) :
    room.registry.endTransfer user transfer = room.registry := by
  have hlast := lastOf_ne_of_superseded h.bindIds hold
  unfold Registry.endTransfer
  split
  next entry hentry => rw [if_neg fun heq => hlast (h.bound user entry hentry transfer heq)]
  · rfl

/-- **The registry invariant.**  In every state of every run the registry is well formed, and
the end of a superseded control or transfer connection changes nothing in it. -/
theorem registry_invariant (state : CrdtState)
    (h : Reach (step blockers) anyStep (start state) room) :
    room.registry.WellFormed ∧
    (∀ conn user, Superseded room.sessions conn user → ∀ role how now room',
      room.step blockers (.connEnd conn user role how now) = some room' →
        room'.registry = room.registry) ∧
    ∀ transfer user, Superseded room.binds transfer user → ∀ room',
      room.step blockers (.transferEnd transfer user) = some room' →
        room'.registry = room.registry := by
  have hreg : room.Registered :=
    h.invariant (registered_start state) fun _ _ _ hr _ hstep => hr.step hstep
  refine ⟨hreg.wellFormed, ?_, ?_⟩
  · intro conn user hold role how now room' hstep
    simp only [Room.step, hreg.endConnection_superseded hold] at hstep
    split at hstep
    · split at hstep
      · cases hstep; rfl
      · cases hstep; rfl
    · cases hstep
  · intro transfer user hold room' hstep
    simp only [Room.step, hreg.endTransfer_superseded hold] at hstep
    split at hstep
    · cases hstep; rfl
    · cases hstep

theorem registry_invariant_reconnect :
    ∃ room, run (step fun _ _ => []) (start .new)
        [.register 1 "ada" .interactive 7, .register 2 "ada" .interactive 8] = some room ∧
      room.registry.WellFormed ∧
      ∃ room', room.step (fun _ _ => []) (.connEnd 1 "ada" .interactive .lost 50) = some room' ∧
        room'.registry = room.registry := by
  have hrun : run (step fun _ _ => []) (start .new)
      [.register 1 "ada" .interactive 7, .register 2 "ada" .interactive 8] = some _ := rfl
  obtain ⟨hwf, hend, -⟩ := registry_invariant .new (reach_of_run _ hrun)
  refine ⟨_, hrun, hwf, _, rfl, hend 1 "ada" ?_ .interactive .lost 50 _ rfl⟩
  exact ⟨[], [(2, "ada")], rfl, 2, mem_singleton_self _⟩

end Room

end DessPlay.Presence
