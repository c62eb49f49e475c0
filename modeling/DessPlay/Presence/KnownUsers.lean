/-
  DessPlay.Presence.KnownUsers
  **THE USERS THE SERVER REMEMBERS ACROSS A RESTART** (`known_offline` and `record_seen`
  in `dessplay-rendezvous/src/server.rs`, the `known_users` table of `storage.rs`).

  The registry dies with the server process, the table does not.  Each interactive user
  is recorded when they connect and when they leave; what the server sends with the peer
  list is every row within the retention window whose user is not present.  A client
  gates on the peer list with these merged in (`mergeKnownOffline`).
-/
import DessPlay.Core.Blockers
import DessPlay.Presence.Registry

namespace DessPlay.Presence

open BTree DessPlay.Core List

/-! ## §1. The table. -/

/-- `KNOWN_USER_RETENTION_MILLIS`. -/
def KNOWN_USER_RETENTION_MILLIS : Nat := 30 * 24 * 60 * 60 * 1000

/-- `as i64` on a `u64`. -/
def asI64 (n : Nat) : Int := (n : Int).bmod (2 ^ 64)

/-- `as u64` on an `i64`. -/
def asU64 (i : Int) : Nat := (i % 2 ^ 64).toNat

theorem asI64_of_lt {n : Nat} (h : n < 2 ^ 63) : asI64 n = n := by
  unfold asI64
  rw [Int.bmod_def]
  omega

theorem asU64_natCast {n : Nat} (h : n < 2 ^ 63) : asU64 n = n := by
  unfold asU64
  omega

theorem asI64_bounds (n : Nat) : -2 ^ 63 ≤ asI64 n ∧ asI64 n < 2 ^ 63 := by
  unfold asI64
  rw [Int.bmod_def]
  omega

/-- The rows of `known_users`: one a username, the time in an `i64` column. -/
structure KnownUsers where
  rows : List (UserId × Int)
  primaryKey : (rows.map (·.1)).Nodup
  column : ∀ row ∈ rows, -2 ^ 63 ≤ row.2 ∧ row.2 < 2 ^ 63

namespace KnownUsers

def empty : KnownUsers := ⟨[], nodup_nil, nofun⟩

def seenAt (user : UserId) (time : Int) (row : UserId × Int) : UserId × Int :=
  if row.1 = user then (user, time) else row

def upsert (rows : List (UserId × Int)) (user : UserId) (time : Int) : List (UserId × Int) :=
  if user ∈ rows.map (·.1) then rows.map (seenAt user time) else rows ++ [(user, time)]

theorem seenAt_fst (user : UserId) (time : Int) (row : UserId × Int) :
    (seenAt user time row).1 = row.1 := by
  unfold seenAt
  split
  next h => exact h.symm
  · rfl

theorem nodup_upsert {rows : List (UserId × Int)} (h : (rows.map (·.1)).Nodup) (user : UserId)
    (time : Int) : ((upsert rows user time).map (·.1)).Nodup := by
  unfold upsert
  split
  · rw [map_map, show (·.1) ∘ seenAt user time = (·.1) from funext (seenAt_fst user time)]
    exact h
  next hnew =>
    rw [map_append, map_singleton]
    exact concat_eq_append ▸ h.concat hnew

theorem mem_upsert {rows : List (UserId × Int)} {user : UserId} {time : Int} {row : UserId × Int} :
    row ∈ upsert rows user time ↔ row = (user, time) ∨ row.1 ≠ user ∧ row ∈ rows := by
  unfold upsert
  split
  next hold =>
    obtain ⟨old, hmem, hold⟩ := mem_map.mp hold
    rw [mem_map]
    constructor
    · rintro ⟨row, hrow, rfl⟩
      unfold seenAt
      split
      · exact .inl rfl
      next hne => exact .inr ⟨hne, hrow⟩
    · rintro (rfl | ⟨hne, hrow⟩)
      · exact ⟨old, hmem, if_pos hold⟩
      · exact ⟨row, hrow, if_neg hne⟩
  next hnew =>
    rw [mem_append, mem_singleton]
    constructor
    · rintro (hrow | rfl)
      · exact .inr ⟨fun h => hnew (h ▸ mem_map_of_mem hrow), hrow⟩
      · exact .inl rfl
    · rintro (rfl | ⟨_, hrow⟩)
      · exact .inr rfl
      · exact .inl hrow

def recordSeen (table : KnownUsers) (user : UserId) (time : Nat) : KnownUsers where
  rows := upsert table.rows user (asI64 time)
  primaryKey := nodup_upsert table.primaryKey user (asI64 time)
  column := by
    intro row hrow
    rcases mem_upsert.mp hrow with hnew | ⟨_, hrow⟩
    · simpa only [hnew] using asI64_bounds time
    · exact table.column row hrow

/-- `SELECT username, last_seen FROM known_users WHERE last_seen >= cutoff`. -/
def knownUsers (table : KnownUsers) (cutoff : Int) : List (UserId × Int) :=
  table.rows.filter fun row => cutoff ≤ row.2

def knownOffline (table : KnownUsers) (peers : List PeerInfo) (now : Nat) : List KnownUser :=
  let cutoff := asI64 (now - KNOWN_USER_RETENTION_MILLIS)
  ((table.knownUsers cutoff).filter fun row =>
    !peers.any fun p => p.username = row.1 ∧ p.presence = .present).map
      fun row => ⟨row.1, asU64 row.2⟩

variable {table : KnownUsers} {peers : List PeerInfo} {now : Nat}

theorem row_unique {user : UserId} {time time' : Int} (h : (user, time) ∈ table.rows)
    (h' : (user, time') ∈ table.rows) : time = time' :=
  congrArg Prod.snd (inj_on_of_nodup_map table.primaryKey h h' rfl)

theorem mem_knownOffline {k : KnownUser} :
    k ∈ table.knownOffline peers now ↔
      ∃ row ∈ table.rows, asI64 (now - KNOWN_USER_RETENTION_MILLIS) ≤ row.2 ∧
        (∀ p ∈ peers, p.username = row.1 → p.presence ≠ .present) ∧
        k = ⟨row.1, asU64 row.2⟩ := by
  unfold knownOffline knownUsers
  simp only [mem_map, mem_filter, Bool.not_eq_true', any_eq_false,
    decide_eq_true_eq, not_and]
  constructor
  · rintro ⟨row, ⟨⟨hrow, hcut⟩, hpeers⟩, rfl⟩
    exact ⟨row, hrow, hcut, hpeers, rfl⟩
  · rintro ⟨row, hrow, hcut, hpeers, rfl⟩
    exact ⟨row, ⟨⟨hrow, hcut⟩, hpeers⟩, rfl⟩

theorem cutoff_le {time : Nat} (htime : time < 2 ^ 63)
    (h : now - time ≤ KNOWN_OFFLINE_GATING_HORIZON_MILLIS) :
    asI64 (now - KNOWN_USER_RETENTION_MILLIS) ≤ time := by
  unfold KNOWN_OFFLINE_GATING_HORIZON_MILLIS at h
  unfold KNOWN_USER_RETENTION_MILLIS
  rw [asI64_of_lt (by omega)]
  omega

end KnownUsers

/-! ## §2. The gate, before and after a restart. -/

def Absent (peers : List PeerInfo) (user : UserId) : Prop :=
  ∀ p ∈ peers, p.username = user → p.presence ≠ .present

def KnownUsers.SeenWithin (table : KnownUsers) (user : UserId) (now : Nat) : Prop :=
  ∃ time, (user, time) ∈ table.rows ∧
    now - asU64 time ≤ KNOWN_OFFLINE_GATING_HORIZON_MILLIS

/-- Nobody was interactive before who is listed as a seeder: the table has interactive users only,
and each keeps its role. -/
def RolesUnchanged (peers : List PeerInfo) (table : KnownUsers) : Prop :=
  ∀ p ∈ peers, p.role ≠ .interactive → ∀ row ∈ table.rows, row.1 ≠ p.username

def Recorded (peers : List PeerInfo) (table : KnownUsers) : Prop :=
  ∀ p ∈ peers, p.role = .interactive → p.presence ≠ .present →
    ∃ time : Nat, (p.username, (time : Int)) ∈ table.rows

def gate (md4 : List Nat → ListEntryId) (view : StateView) (registry : Registry)
    (table : KnownUsers) (now : Nat) : List Blocker :=
  let peers := registry.peerInfos
  playbackBlockers md4 view (mergeKnownOffline peers (table.knownOffline peers now) now)

section Gate

variable {md4 : List Nat → ListEntryId} {view : StateView} {registry : Registry}
  {table : KnownUsers} {now : Nat} {b : Blocker}

theorem mem_gate :
    b ∈ gate md4 view registry table now ↔
      b ∈ playbackBlockers md4 view registry.peerInfos ∨
        ((∃ k ∈ table.knownOffline registry.peerInfos now,
          k.username = b.user ∧ k.inHorizon now = true) ∧
          ∀ p ∈ registry.peerInfos, p.username ≠ b.user) ∧
        awaited md4 view b.user = true ∧ b.reason = .committedAbsent := by
  simp only [gate]
  rw [playbackBlockers_merge, mem_append, mem_map]
  simp only [mem_filter, mem_missingUsers]
  constructor
  · rintro (h | ⟨user, ⟨hmissing, hawaited⟩, rfl⟩)
    · exact .inl h
    · exact .inr ⟨hmissing, hawaited, rfl⟩
  · rintro (h | ⟨hmissing, hawaited, hreason⟩)
    · exact .inl h
    · exact .inr ⟨b.user, ⟨hmissing, hawaited⟩, by rw [← hreason]⟩

theorem mem_gate_of_no_entry (hnone : ∀ p ∈ registry.peerInfos, p.username ≠ b.user) :
    b ∈ gate md4 view registry table now ↔
      (∃ time, (b.user, time) ∈ table.rows ∧
        asI64 (now - KNOWN_USER_RETENTION_MILLIS) ≤ time ∧
        now - asU64 time ≤ KNOWN_OFFLINE_GATING_HORIZON_MILLIS) ∧
      awaited md4 view b.user = true ∧ b.reason = .committedAbsent := by
  rw [mem_gate]
  constructor
  · rintro (h | ⟨⟨⟨k, hk, huser, hin⟩, _⟩, hawaited⟩)
    · obtain ⟨p, hp, hpuser, _⟩ := mem_playbackBlockers.mp h
      exact absurd hpuser (hnone p hp)
    · obtain ⟨row, hrow, hcut, _, rfl⟩ := KnownUsers.mem_knownOffline.mp hk
      exact ⟨⟨row.2, huser ▸ hrow, hcut, of_decide_eq_true hin⟩, hawaited⟩
  · rintro ⟨⟨time, hrow, hcut, hin⟩, hawaited⟩
    refine .inr ⟨⟨⟨⟨b.user, asU64 time⟩, ?_, rfl, decide_eq_true hin⟩, hnone⟩, hawaited⟩
    exact KnownUsers.mem_knownOffline.mpr
      ⟨_, hrow, hcut, fun p hp huser => absurd huser (hnone p hp), rfl⟩

theorem graceUntil_eq_none (h : registry.anyGrace = false) {p : PeerInfo}
    (hp : p ∈ registry.peerInfos) : p.graceUntil = none := by
  obtain ⟨e, he, rfl⟩ := mem_map.mp hp
  simpa using any_eq_false.mp h e he

theorem mem_gate_of_entry (hroles : RolesUnchanged registry.peerInfos table)
    (hgrace : registry.anyGrace = false) (habsent : Absent registry.peerInfos b.user)
    (hseen : table.SeenWithin b.user now) {p : PeerInfo} (hp : p ∈ registry.peerInfos)
    (hpuser : p.username = b.user) :
    b ∈ gate md4 view registry table now ↔
      awaited md4 view b.user = true ∧ b.reason = .committedAbsent := by
  obtain ⟨time, hrow, _⟩ := hseen
  have hreason : ∀ q ∈ registry.peerInfos, q.username = b.user → blockReason md4 view q =
      if awaited md4 view b.user then some .committedAbsent else none := by
    intro q hq hquser
    have hrole : q.role = .interactive := by
      by_contra hrole
      exact hroles q hq hrole _ hrow hquser.symm
    rw [← hquser]
    exact blockReason_of_absent hrole (habsent q hq hquser) (graceUntil_eq_none hgrace hq)
  rw [mem_gate, mem_playbackBlockers]
  constructor
  · rintro (⟨q, hq, hquser, hb⟩ | ⟨⟨_, hnone⟩, _⟩)
    · rw [hreason q hq hquser] at hb
      obtain ⟨hawaited, hb⟩ := Option.ite_none_right_eq_some.mp hb
      exact ⟨hawaited, (Option.some.inj hb).symm⟩
    · exact absurd hpuser (hnone p hp)
  · rintro ⟨hawaited, hb⟩
    exact .inl ⟨p, hp, hpuser, by rw [hreason p hp hpuser, if_pos hawaited, hb]⟩

end Gate

/-- **Commitments survive a restart of the server.**  Who was absent before it and was seen within
the horizon blocks afterwards iff they did before; and the blockers of any merged list are
those of the peers, followed by the missing users who are awaited. -/
theorem commitments_survive_restart (md4 : List Nat → ListEntryId) (view : StateView)
    (registry : Registry) (table : KnownUsers) (now : Nat)
    (hroles : RolesUnchanged registry.peerInfos table) (hgrace : registry.anyGrace = false)
    (hrecorded : Recorded registry.peerInfos table) :
    (∀ b : Blocker, Absent registry.peerInfos b.user → table.SeenWithin b.user now →
      (b ∈ gate md4 view registry table now ↔ b ∈ gate md4 view .new table now)) ∧
    ∀ (peers : List PeerInfo) (known : List KnownUser) (now : Nat),
      playbackBlockers md4 view (mergeKnownOffline peers known now) =
        playbackBlockers md4 view peers ++
          ((missingUsers peers known now).filter (awaited md4 view)).map
            fun user => ⟨user, .committedAbsent⟩ := by
  refine ⟨fun b habsent hseen => ?_, playbackBlockers_merge⟩
  have hnew : Registry.new.peerInfos = [] := by decide +kernel
  have hgate : ∀ p ∈ Registry.new.peerInfos, p.username ≠ b.user := by rw [hnew]; exact nofun
  rw [mem_gate_of_no_entry hgate]
  by_cases hentry : ∃ p ∈ registry.peerInfos, p.username = b.user
  · obtain ⟨p, hp, hpuser⟩ := hentry
    rw [mem_gate_of_entry hroles hgrace habsent hseen hp hpuser]
    refine (and_iff_right ?_).symm
    obtain ⟨time, hrow, hin⟩ := hseen
    have hrole : p.role = .interactive := by
      by_contra hrole
      exact hroles p hp hrole _ hrow hpuser.symm
    obtain ⟨left, hleft⟩ := hrecorded p hp hrole (habsent p hp hpuser)
    rw [hpuser] at hleft
    obtain rfl := KnownUsers.row_unique hrow hleft
    have hlt : left < 2 ^ 63 := by
      have := (table.column _ hrow).2
      simp only at this
      omega
    refine ⟨_, hrow, ?_, hin⟩
    rw [asU64_natCast hlt] at hin
    exact KnownUsers.cutoff_le hlt hin
  · exact mem_gate_of_no_entry fun p hp hpuser => hentry ⟨p, hp, hpuser⟩

def kimLeft : Registry :=
  (Registry.new.register "kim" 0 .interactive 0).endConnection "kim" 0 .lost 1000

def kimCommitted : StateView :=
  { twoSeasons with
    nowPlaying := some 10
    seriesPreference := (∅ : BTreeMap (UserId ×ₗ ListEntryId) SeriesPreference).insert
      (lex "kim" 7) { state := .watching, setBy := none } }

theorem commitments_survive_restart_kim :
    ⟨"kim", .committedAbsent⟩ ∈ gate (fun _ => 0) kimCommitted .new
      (KnownUsers.empty.recordSeen "kim" 1000) 5000 := by
  have hpeers : kimLeft.peerInfos = [⟨"kim", .interactive, .lost, none⟩] := by decide +kernel
  have hrows : (KnownUsers.empty.recordSeen "kim" 1000).rows = [("kim", 1000)] := by decide +kernel
  have hkim : ∀ p ∈ kimLeft.peerInfos, p = ⟨"kim", .interactive, .lost, none⟩ := by
    rw [hpeers]
    exact fun p hp => mem_singleton.mp hp
  refine ((commitments_survive_restart (fun _ => 0) kimCommitted kimLeft
    (KnownUsers.empty.recordSeen "kim" 1000) 5000 ?_ (by decide +kernel) ?_).1
    ⟨"kim", .committedAbsent⟩ ?_ ⟨1000, hrows ▸ mem_singleton_self _, by decide⟩).mp
    (by decide +kernel)
  · rintro p hp hrole
    exact absurd (hkim p hp ▸ rfl) hrole
  · rintro p hp - -
    exact ⟨1000, by rw [hkim p hp, hrows]; exact mem_singleton_self _⟩
  · rintro p hp -
    rw [hkim p hp]
    decide

end DessPlay.Presence
