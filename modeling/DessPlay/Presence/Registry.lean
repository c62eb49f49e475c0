/-
  DessPlay.Presence.Registry
  **THE PEER REGISTRY** (`PeerEntry`, `Registry` and the critical sections on it in
  `dessplay-rendezvous/src/server.rs`).

  One entry a username, never removed.  Each function below is ONE critical section
  on the registry lock.  `WellFormed` ties the fields of an entry together; §3 shows
  that every section keeps it, whoever runs it and when.
-/
import DessPlay.Core.Derive

namespace DessPlay.Presence

open BTree DessPlay.Core Option

abbrev ConnId : Type := Nat

abbrev TransferId : Type := Nat

/-- `DEPART_AFTER_MILLIS`. -/
def DEPART_AFTER_MILLIS : Nat := 30000

/-! ## §1. Entries. -/

/-- What the server knows of one user.  A connection or a queue is named by the
connection it belongs to. -/
structure PeerEntry where
  /-- the connection backing this entry, live or last -/
  connId : ConnId
  /-- the live connection -/
  conn : Option ConnId
  transferToken : Nat
  transferConn : Option TransferId
  transferConnId : Option TransferId
  /-- the queue onto the relay stream, opened on this transfer connection -/
  relayTx : Option TransferId
  info : PeerInfo
  lostAt : Option Nat
  deriving DecidableEq

/-- The registry.  `graceFile` is the file the open grace windows were opened on. -/
structure Registry where
  peers : BTreeMap UserId PeerEntry
  graceFile : Option Ed2kHash

inductive AuthedEnd where
  | goodbye | lost
  deriving DecidableEq

def AuthedEnd.presence : AuthedEnd → Presence
  | goodbye => .departed
  | lost => .lost

namespace Registry

variable (r : Registry)

def new : Registry := ⟨∅, none⟩

def put (user : UserId) (entry : PeerEntry) : Registry :=
  { r with peers := r.peers.insert user entry }

def peerInfos : List PeerInfo := r.peers.toList.map (·.2.info)

def anyGrace : Bool := r.peers.toList.any fun e => e.2.info.graceUntil.isSome

/-! ## §2. The critical sections. -/

/-- A session's entry. -/
def freshEntry (user : UserId) (conn : ConnId) (role : Role) (token : Nat) : PeerEntry :=
  { connId := conn
    conn := some conn
    transferToken := token
    transferConn := none
    transferConnId := none
    relayTx := none
    info := { username := user, role := role, presence := .present, graceUntil := none }
    lostAt := none }

/-- Register, superseding any entry of the user; the return may close the last open window. -/
def register (user : UserId) (conn : ConnId) (role : Role) (token : Nat) : Registry :=
  let registered := r.put user (freshEntry user conn role token)
  { registered with graceFile := if registered.anyGrace then registered.graceFile else none }

def PeerEntry.ended (entry : PeerEntry) (how : AuthedEnd) (now : Nat) : PeerEntry :=
  { entry with
    transferConn := none
    transferConnId := none
    conn := none
    relayTx := none
    info := { entry.info with presence := how.presence }
    lostAt := some now }

def stillOurs (user : UserId) (conn : ConnId) : Bool :=
  (r.peers[user]?).any fun entry => entry.connId = conn

def endConnection (user : UserId) (conn : ConnId) (how : AuthedEnd) (now : Nat) : Registry :=
  match r.peers[user]? with
  | some entry =>
    if entry.connId = conn then r.put user (PeerEntry.ended entry how now) else r
  | none => r

/-- No present interactive peer is left. -/
def nobodyWatching : Bool :=
  !r.peers.toList.any fun e => e.2.info.presence = .present ∧ e.2.info.role = .interactive

/-- The registry half of `open_grace_window`, and whether it opened. -/
def openGrace (user : UserId) (conn : ConnId) (deadline : Nat) (nowPlaying : Option Ed2kHash) :
    Registry × Bool :=
  match r.peers[user]? with
  | some entry =>
    if entry.connId = conn ∧ entry.info.presence = .lost then
      ({ r.put user { entry with info := { entry.info with graceUntil := some deadline } } with
          graceFile := nowPlaying }, true)
    else (r, false)
  | none => (r, false)

/-- `close_grace_windows`, and whether any was open. -/
def closeGrace : Registry × Bool :=
  ({ peers := r.peers.map fun _ entry =>
       { entry with info := { entry.info with graceUntil := none } }
     graceFile := none }, r.graceFile.isSome || r.anyGrace)

/-- Bind a transfer connection; `none` when it is refused. -/
def bindTransfer (user : UserId) (token : Nat) (transfer : TransferId) : Option Registry :=
  match r.peers[user]? with
  | some entry =>
    if entry.conn.isSome ∧ entry.transferToken = token then
      some (r.put user
        { entry with
          transferConn := some transfer
          transferConnId := some transfer
          relayTx := none })
    else none
  | none => none

def endTransfer (user : UserId) (transfer : TransferId) : Registry :=
  match r.peers[user]? with
  | some entry =>
    if entry.transferConnId = some transfer then
      r.put user { entry with transferConn := none, transferConnId := none, relayTx := none }
    else r
  | none => r

/-- `classify_stream` on a `Hello`: register the relay queue. -/
def relayHello (user : UserId) (transfer : TransferId) : Registry :=
  match r.peers[user]? with
  | some entry =>
    if entry.transferConnId = some transfer then
      r.put user { entry with relayTx := some transfer }
    else r
  | none => r

def PeerEntry.overdue (now : Nat) (entry : PeerEntry) : Bool :=
  entry.info.presence = .lost ∧ entry.lostAt.any fun t => DEPART_AFTER_MILLIS ≤ now - t

/-- `sweep_departed`: who was promoted. -/
def promoted (now : Nat) : List (UserId × Role) :=
  (r.peers.toList.filter fun e => PeerEntry.overdue now e.2).map fun e => (e.1, e.2.info.role)

/-- `sweep_departed`: Lost to Departed. -/
def sweepDeparted (now : Nat) : Registry :=
  { r with peers := r.peers.map fun _ entry =>
      if PeerEntry.overdue now entry then
        { entry with info := { entry.info with presence := .departed } }
      else entry }

/-- `sweep_grace`: some window has run out. -/
def graceExpired (now : Nat) : Bool :=
  r.peers.toList.any fun e => e.2.info.graceUntil.any fun deadline => deadline ≤ now

end Registry

/-! ## §3. Well-formed registries. -/

/-- The fields of an entry agree. -/
structure PeerEntry.WellFormed (entry : PeerEntry) : Prop where
  connected : entry.conn.isSome ↔ entry.info.presence = .present
  lost : entry.lostAt.isSome ↔ entry.info.presence ≠ .present
  transfer : entry.transferConn.isSome → entry.conn.isSome
  transferId : entry.transferConnId = entry.transferConn
  relay : ∀ t, entry.relayTx = some t → entry.transferConn = some t
  grace : entry.info.graceUntil.isSome → entry.info.presence ≠ .present

/-- Every entry is well formed, and the grace file stands iff a deadline does. -/
structure Registry.WellFormed (r : Registry) : Prop where
  entries : ∀ (user : UserId) entry, r.peers[user]? = some entry → entry.WellFormed
  graceFile : r.graceFile.isSome ↔
    ∃ (user : UserId) (entry : PeerEntry),
      r.peers[user]? = some entry ∧ entry.info.graceUntil.isSome

namespace Registry

variable {r : Registry}

theorem anyGrace_iff :
    r.anyGrace = true ↔ ∃ (user : UserId) (entry : PeerEntry),
      r.peers[user]? = some entry ∧ entry.info.graceUntil.isSome := by
  unfold anyGrace
  rw [List.any_eq_true]
  constructor
  · rintro ⟨e, he, hgrace⟩
    exact ⟨e.1, e.2, (mem_entries _ e).mp he, hgrace⟩
  · rintro ⟨user, entry, hentry, hgrace⟩
    exact ⟨(user, entry), (mem_entries _ (user, entry)).mpr hentry, hgrace⟩

theorem wellFormed_new : new.WellFormed where
  entries user entry h := by
    rw [show new.peers[user]? = none from Std.ExtTreeMap.getElem?_empty] at h
    cases h
  graceFile := by
    constructor
    · intro h; cases h
    · rintro ⟨user, entry, h, -⟩
      rw [show new.peers[user]? = none from Std.ExtTreeMap.getElem?_empty] at h
      cases h

theorem getElem?_put (user u : UserId) (entry : PeerEntry) :
    (r.put user entry).peers[u]? = if u = user then some entry else r.peers[u]? :=
  getElem?_insert ..

theorem WellFormed.put (h : r.WellFormed) {user : UserId} {old entry : PeerEntry}
    (hold : r.peers[user]? = some old) (hentry : entry.WellFormed)
    (hgrace : entry.info.graceUntil = old.info.graceUntil) : (r.put user entry).WellFormed where
  entries u e hu := by
    rw [getElem?_put] at hu
    split at hu
    · obtain rfl := some.inj hu; exact hentry
    · exact h.entries u e hu
  graceFile := by
    show r.graceFile.isSome ↔ _
    rw [h.graceFile]
    constructor
    · rintro ⟨u, e, hu, hg⟩
      by_cases heq : u = user
      · subst heq
        rw [hold] at hu
        obtain rfl := some.inj hu
        exact ⟨u, entry, by rw [getElem?_put, if_pos rfl], by rw [hgrace]; exact hg⟩
      · exact ⟨u, e, by rw [getElem?_put, if_neg heq]; exact hu, hg⟩
    · rintro ⟨u, e, hu, hg⟩
      rw [getElem?_put] at hu
      split at hu
      · obtain rfl := some.inj hu
        exact ⟨user, old, hold, by rw [← hgrace]; exact hg⟩
      · exact ⟨u, e, hu, hg⟩

/-- **Changing one entry under a guard.** -/
theorem guarded_put {P : Registry → Prop} {user : UserId} {c : PeerEntry → Prop}
    [DecidablePred c] {f : PeerEntry → PeerEntry} (h : P r)
    (hput : ∀ entry, r.peers[user]? = some entry → c entry → P (r.put user (f entry))) :
    P (match r.peers[user]? with
      | some entry => if c entry then r.put user (f entry) else r
      | none => r) := by
  split
  next entry hentry =>
    split
    next hc => exact hput entry hentry hc
    · exact h
  · exact h

theorem WellFormed.map (h : r.WellFormed) {f : PeerEntry → PeerEntry}
    (hf : ∀ entry, entry.WellFormed → (f entry).WellFormed)
    (hgrace : ∀ entry, (f entry).info.graceUntil = entry.info.graceUntil) :
    ({ r with peers := r.peers.map fun _ => f } : Registry).WellFormed where
  entries u e hu := by
    rw [getElem?_map] at hu
    obtain ⟨old, hold, rfl⟩ := map_eq_some_iff.mp hu
    exact hf old (h.entries u old hold)
  graceFile := by
    show r.graceFile.isSome ↔ _
    rw [h.graceFile]
    constructor
    · rintro ⟨u, e, hu, hg⟩
      exact ⟨u, f e, by rw [getElem?_map, hu]; rfl, by rw [hgrace]; exact hg⟩
    · rintro ⟨u, e, hu, hg⟩
      rw [getElem?_map] at hu
      obtain ⟨old, hold, rfl⟩ := map_eq_some_iff.mp hu
      exact ⟨u, old, hold, by rw [← hgrace]; exact hg⟩

theorem wellFormed_freshEntry (user : UserId) (conn : ConnId) (role : Role) (token : Nat) :
    (freshEntry user conn role token).WellFormed := by
  constructor <;> simp [freshEntry]

theorem WellFormed.register (h : r.WellFormed) (user : UserId) (conn : ConnId) (role : Role)
    (token : Nat) : (r.register user conn role token).WellFormed where
  entries u e hu := by
    have hu : (r.put user (freshEntry user conn role token)).peers[u]? = some e := hu
    rw [getElem?_put] at hu
    split at hu
    · obtain rfl := some.inj hu; exact wellFormed_freshEntry ..
    · exact h.entries u e hu
  graceFile := by
    show isSome (if (r.put user _).anyGrace then r.graceFile else none) ↔ _
    rw [← anyGrace_iff]
    show _ ↔ (r.put user (freshEntry user conn role token)).anyGrace = true
    split
    next hany =>
      -- a deadline that is left was there before
      simp only [hany, iff_true]
      rw [h.graceFile]
      obtain ⟨u, e, hu, hg⟩ := anyGrace_iff.mp hany
      rw [getElem?_put] at hu
      split at hu
      · obtain rfl := some.inj hu; cases hg
      · exact ⟨u, e, hu, hg⟩
    next hany => simp [hany]

theorem wellFormed_ended (entry : PeerEntry) (how : AuthedEnd) (now : Nat) :
    (PeerEntry.ended entry how now).WellFormed := by
  constructor <;> cases how <;> simp [PeerEntry.ended, AuthedEnd.presence]

theorem WellFormed.endConnection (h : r.WellFormed) (user : UserId) (conn : ConnId)
    (how : AuthedEnd) (now : Nat) : (r.endConnection user conn how now).WellFormed :=
  guarded_put h fun entry hentry _ => h.put hentry (wellFormed_ended entry how now) rfl

theorem WellFormed.openGrace (h : r.WellFormed) (user : UserId) (conn : ConnId) (deadline : Nat)
    {nowPlaying : Option Ed2kHash} (hfile : nowPlaying.isSome) :
    (r.openGrace user conn deadline nowPlaying).1.WellFormed := by
  unfold Registry.openGrace
  split
  next entry hentry =>
    split
    next hlost =>
      have hok := h.entries user entry hentry
      refine ⟨fun u e hu => ?_, ?_⟩
      · have hu : (r.put user _).peers[u]? = some e := hu
        rw [getElem?_put] at hu
        split at hu
        · obtain rfl := some.inj hu
          exact { hok with grace := fun _ => by rw [show _ = Presence.lost from hlost.2]; decide }
        · exact h.entries u e hu
      · show nowPlaying.isSome ↔ _
        simp only [hfile, true_iff]
        refine
          ⟨user, { entry with info := { entry.info with graceUntil := some deadline } }, ?_, rfl⟩
        show (r.put user _).peers[user]? = _
        rw [getElem?_put, if_pos rfl]
    · exact h
  · exact h

theorem openGrace_refused {user : UserId} {conn : ConnId} {deadline : Nat}
    {nowPlaying : Option Ed2kHash} (h : (r.openGrace user conn deadline nowPlaying).2 = false) :
    (r.openGrace user conn deadline nowPlaying).1 = r := by
  unfold Registry.openGrace at h ⊢
  split
  next entry hentry =>
    simp only [hentry] at h
    split
    next hlost => rw [if_pos hlost] at h; cases h
    · rfl
  · rfl

theorem WellFormed.closeGrace (h : r.WellFormed) : r.closeGrace.1.WellFormed where
  entries u e hu := by
    have hu : (r.peers.map _)[u]? = some e := hu
    rw [getElem?_map] at hu
    obtain ⟨old, hold, rfl⟩ := map_eq_some_iff.mp hu
    have hok := h.entries u old hold
    exact { hok with grace := nofun }
  graceFile := by
    constructor
    · intro hf; cases hf
    · rintro ⟨u, e, hu, hg⟩
      have hu : (r.peers.map _)[u]? = some e := hu
      rw [getElem?_map] at hu
      obtain ⟨old, hold, rfl⟩ := map_eq_some_iff.mp hu
      cases hg

theorem bindTransfer_eq {user : UserId} {token : Nat} {transfer : TransferId} {r' : Registry}
    (h : r.bindTransfer user token transfer = some r') :
    ∃ old, r.peers[user]? = some old ∧ old.conn.isSome ∧
      r' = r.put user { old with
        transferConn := some transfer, transferConnId := some transfer, relayTx := none } := by
  unfold Registry.bindTransfer at h
  split at h
  next old hold =>
    split at h
    next hlive => exact ⟨old, hold, hlive.1, (some.inj h).symm⟩
    · cases h
  · cases h

theorem WellFormed.bindTransfer (h : r.WellFormed) {user : UserId} {token : Nat}
    {transfer : TransferId} {r' : Registry} (hbind : r.bindTransfer user token transfer = some r') :
    r'.WellFormed := by
  obtain ⟨old, hold, hlive, rfl⟩ := bindTransfer_eq hbind
  have hok := h.entries user old hold
  exact h.put hold ⟨hok.connected, hok.lost, fun _ => hlive, rfl, nofun, hok.grace⟩ rfl

theorem WellFormed.endTransfer (h : r.WellFormed) (user : UserId) (transfer : TransferId) :
    (r.endTransfer user transfer).WellFormed := by
  refine guarded_put h fun entry hentry _ => h.put hentry ?_ rfl
  have hok := h.entries user entry hentry
  exact ⟨hok.connected, hok.lost, nofun, rfl, nofun, hok.grace⟩

theorem WellFormed.relayHello (h : r.WellFormed) (user : UserId) (transfer : TransferId) :
    (r.relayHello user transfer).WellFormed := by
  refine guarded_put h fun entry hentry hbound => ?_
  have hok := h.entries user entry hentry
  refine h.put hentry { hok with relay := fun t ht => ?_ } rfl
  rw [← hok.transferId, hbound]
  exact ht

theorem WellFormed.sweepDeparted (h : r.WellFormed) (now : Nat) :
    (r.sweepDeparted now).WellFormed := by
  refine h.map (fun entry hok => ?_) fun entry => ?_
  · split
    next hover =>
      have hlost : entry.info.presence = .lost := (of_decide_eq_true hover).1
      have hgone : entry.conn.isSome = false := by
        rw [← Bool.not_eq_true, hok.connected, hlost]
        decide
      refine ⟨?_, ?_, hok.transfer, hok.transferId, hok.relay, fun _ => by simp⟩
      · simp [hgone]
      · have := hok.lost
        simp only [hlost] at this
        simpa using this
    · exact hok
  · split <;> rfl

end Registry

end DessPlay.Presence
