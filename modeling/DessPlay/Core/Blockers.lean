/-
  DessPlay.Core.Blockers
  **WHO BLOCKS PLAYBACK, AND WHY** (`playback_blockers` and `merge_known_offline` in
  `dessplay-core/src/derive.rs`).

  Each interactive peer is judged on its own, by its commitment to what is playing, its
  presence and its manual override.  An absent peer without a grace window can only block
  as a commitment that is neither excused nor acknowledged (`awaited`); the users the
  server knows but has no entry for are merged into the peer list as just such peers.
-/
import DessPlay.Core.SeriesIdentity

namespace DessPlay.Core

open BTree
open List hiding beq_eq_decide

/-! ## §1. The gating matrix. -/

inductive BlockReason where
  | paused
  | fileMissing
  | downloading
  | committedAbsent
  deriving DecidableEq

structure Blocker where
  user : UserId
  reason : BlockReason
  deriving DecidableEq

def StateView.manual (view : StateView) (user : UserId) : Option ManualState :=
  (MapView.find (f := .manualOverride) view.manualOverride user).join

def ManualState.isAway : ManualState → Bool
  | .away _ => true
  | .paused => false

def StateView.acknowledged (view : StateView) (user : UserId) : Bool :=
  view.nowPlaying.any fun file => lex file user ∈ view.acknowledgedAbsent

def fileBlockReason (view : StateView) (user : UserId) : Option BlockReason :=
  view.nowPlaying.bind fun file =>
    match view.availability user file with
    | none | some .ready | some (.downloadingPlayable _) => none
    | some .missing => some .fileMissing
    | some (.downloading _) => some .downloading

def presentBlockReason (view : StateView) (user : UserId) (manual : Option ManualState) :
    Option BlockReason :=
  if manual = some .paused then some .paused else fileBlockReason view user

section Matrix

variable (md4 : List Nat → ListEntryId)

def effectiveWatch (view : StateView) (user : UserId) : SeriesWatchState :=
  match view.nowPlaying with
  | some file => seriesWatchForFile md4 view user file
  | none => .maybe

/-- The body of the loop over the peers. -/
def blockReason (view : StateView) (peer : PeerInfo) : Option BlockReason :=
  let manual := view.manual peer.username
  if peer.role ≠ .interactive then none
  else if manual.any ManualState.isAway then none
  else if peer.presence ≠ .present ∧ peer.graceUntil.isSome then none
  else
    match effectiveWatch md4 view peer.username, peer.presence with
    | .notWatching, _ => none
    | .maybe, .present | .watching, .present => presentBlockReason view peer.username manual
    | .maybe, _ => none
    | .watching, _ => if view.acknowledged peer.username then none else some .committedAbsent

def playbackBlockers (view : StateView) (peers : List PeerInfo) : List Blocker :=
  peers.filterMap fun peer => (blockReason md4 view peer).map fun reason => ⟨peer.username, reason⟩

def awaited (view : StateView) (user : UserId) : Bool :=
  effectiveWatch md4 view user = .watching && !(view.manual user).any ManualState.isAway &&
    !view.acknowledged user

end Matrix

variable {md4 : List Nat → ListEntryId} {view : StateView}

theorem mem_playbackBlockers {peers : List PeerInfo} {b : Blocker} :
    b ∈ playbackBlockers md4 view peers ↔
      ∃ peer ∈ peers, peer.username = b.user ∧ blockReason md4 view peer = some b.reason := by
  unfold playbackBlockers
  rw [mem_filterMap]
  constructor
  · rintro ⟨peer, hpeer, hb⟩
    obtain ⟨reason, hreason, rfl⟩ := Option.map_eq_some_iff.mp hb
    exact ⟨peer, hpeer, rfl, hreason⟩
  · rintro ⟨peer, hpeer, huser, hreason⟩
    refine ⟨peer, hpeer, ?_⟩
    rw [hreason, Option.map_some, huser]

/-- **The absent row of the matrix.** -/
theorem blockReason_of_absent {peer : PeerInfo} (hrole : peer.role = .interactive)
    (habsent : peer.presence ≠ .present) (hgrace : peer.graceUntil = none) :
    blockReason md4 view peer =
      if awaited md4 view peer.username then some .committedAbsent else none := by
  have hgrace' : ¬ (peer.presence ≠ .present ∧ peer.graceUntil.isSome) := by
    rw [hgrace]
    simp
  unfold blockReason
  rw [if_neg (not_not.mpr hrole), if_neg hgrace']
  by_cases haway : (view.manual peer.username).any ManualState.isAway = true
  · rw [if_pos haway, if_neg (by simp [awaited, haway])]
  · rw [if_neg haway]
    cases hwatch : effectiveWatch md4 view peer.username with
    | notWatching | maybe =>
      have hawaited : awaited md4 view peer.username = false := by simp [awaited, hwatch]
      rw [hawaited]
      cases hpresence : peer.presence with
      | present => exact absurd hpresence habsent
      | lost | departed => rfl
    | watching =>
      have hawaited : awaited md4 view peer.username = !view.acknowledged peer.username := by
        simp [awaited, hwatch, haway]
      rw [hawaited]
      cases hpresence : peer.presence with
      | present => exact absurd hpresence habsent
      | lost | departed => cases view.acknowledged peer.username <;> rfl

/-! ## §2. The users the server knows, as departed peers. -/

def departedPeer (user : UserId) : PeerInfo :=
  { username := user, role := .interactive, presence := .departed, graceUntil := none }

def KnownUser.inHorizon (now : Nat) (user : KnownUser) : Bool :=
  now - user.lastSeen ≤ KNOWN_OFFLINE_GATING_HORIZON_MILLIS

/-- The distinct known users seen within the horizon that have no peer entry, in the order they
are listed. -/
def missingUsers (peers : List PeerInfo) (known : List KnownUser) (now : Nat) : List UserId :=
  (((known.filter (·.inHorizon now)).map (·.username)).filter
    fun user => !peers.any fun p => p.username = user).eraseDups

theorem mem_missingUsers {peers : List PeerInfo} {known : List KnownUser} {now : Nat}
    {user : UserId} :
    user ∈ missingUsers peers known now ↔
      (∃ k ∈ known, k.username = user ∧ k.inHorizon now = true) ∧
        ∀ p ∈ peers, p.username ≠ user := by
  unfold missingUsers
  rw [mem_eraseDups, mem_filter, mem_map]
  simp only [mem_filter, Bool.not_eq_true', any_eq_false, decide_eq_true_eq]
  constructor
  · rintro ⟨⟨k, ⟨hk, hin⟩, huser⟩, hpeers⟩
    exact ⟨⟨k, hk, huser, hin⟩, hpeers⟩
  · rintro ⟨⟨k, hk, huser, hin⟩, hpeers⟩
    exact ⟨⟨k, ⟨hk, hin⟩, huser⟩, hpeers⟩

/-- **What the merge adds**: the peers stay as they are, and each missing user follows as one
departed peer. -/
theorem mergeKnownOffline_eq (peers : List PeerInfo) (known : List KnownUser) (now : Nat) :
    mergeKnownOffline peers known now =
      peers ++ (missingUsers peers known now).map departedPeer := by
  unfold mergeKnownOffline missingUsers
  induction known generalizing peers with
  | nil => simp
  | cons k known ih =>
    rw [foldl_cons]
    by_cases hin : KNOWN_OFFLINE_GATING_HORIZON_MILLIS < now - k.lastSeen
    · have hout : k.inHorizon now = false := by
        simp only [KnownUser.inHorizon, decide_eq_false_iff_not]
        omega
      rw [if_pos hin, ih, filter_cons, hout]
      simp
    · have hhorizon : k.inHorizon now = true := by
        simp only [KnownUser.inHorizon, decide_eq_true_eq]
        omega
      rw [if_neg hin, filter_cons, hhorizon, if_pos rfl, map_cons, filter_cons]
      by_cases hlisted : (peers.any fun p => p.username = k.username) = true
      · rw [if_pos hlisted, ih]
        simp [hlisted]
      · -- the new entry keeps later rows of the same user out, as `eraseDups` does
        have hnew : (!peers.any fun p => p.username = k.username) = true := by
          simpa using hlisted
        rw [if_neg hlisted, ih, if_pos hnew, eraseDups_cons, map_cons,
          append_assoc, singleton_append, filter_filter]
        congr 4
        refine filter_congr fun user _ => ?_
        rw [any_append, Bool.not_or, Bool.and_comm]
        congr 1
        simp [eq_comm, beq_eq_decide]

theorem playbackBlockers_merge (peers : List PeerInfo) (known : List KnownUser) (now : Nat) :
    playbackBlockers md4 view (mergeKnownOffline peers known now) =
      playbackBlockers md4 view peers ++
        ((missingUsers peers known now).filter (awaited md4 view)).map
          fun user => ⟨user, .committedAbsent⟩ := by
  have hdeparted : ∀ user, (blockReason md4 view (departedPeer user)).map
      (fun reason => (⟨user, reason⟩ : Blocker)) =
      if awaited md4 view user then some ⟨user, .committedAbsent⟩ else none := by
    intro user
    rw [blockReason_of_absent rfl (by simp [departedPeer]) rfl]
    cases hawaited : awaited md4 view user <;> simp [departedPeer, hawaited]
  rw [mergeKnownOffline_eq, playbackBlockers, filterMap_append, filterMap_map,
    ← filterMap_eq_map', filterMap_filter]
  congr 2
  exact funext hdeparted

end DessPlay.Core
