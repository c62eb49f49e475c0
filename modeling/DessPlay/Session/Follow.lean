/-
  DessPlay.Session.Follow
  **WHOM A CLIENT FOLLOWS** (`PlayerWiring::position_reference` in
  `dessplay/src/session.rs`).

  Four modes decide in turn: the laggard after an outage pause, a user who sought or
  was pinned as the anchor, and else the elected leader.  The mode is a function of
  the view and the peer list alone (`source`); what differs from client to client is
  only who stays put (`positionReference_eq`).  Hence the follow graph is a STAR.
-/
import DessPlay.Core.Derive

namespace DessPlay.Session

open DessPlay.Core List Option

/-! ## §1. The function, as the source writes it. -/

def sameFilePositions (view : StateView) (peers : List PeerInfo) :
    List (UserId × PlaybackPosition) :=
  match view.nowPlaying with
  | some file => loadedPositions view peers file
  | none => []

/-- The holder of a user or anchor authority; an anchor counts on its own file. -/
def authority (view : StateView) : Option UserId :=
  match view.seekAuthority with
  | some (.user seek) => some seek.user
  | some (.anchor user file) => if view.nowPlaying = some file then some user else none
  | _ => none

def laggard (view : StateView) (peers : List PeerInfo) : Option (UserId × PlaybackPosition) :=
  match view.seekAuthority with
  | some (.laggard file) => if view.nowPlaying = some file then rejoinLaggard view peers else none
  | _ => none

/-- The furthest-ahead loaded peer; the last of several (`max_by_key`). -/
def leader (view : StateView) (peers : List PeerInfo) : Option (UserId × PlaybackPosition) :=
  (sameFilePositions view peers).reverse.argmax (·.2.positionMillis)

/-- The client's own position; a sample of another file counts as 0. -/
def ownPosition (me : UserId) (view : StateView) : Nat :=
  (((view.position me).filter fun p => view.nowPlaying = some p.file).map
    (·.positionMillis)).getD 0

def elect (me : UserId) (view : StateView) (peers : List PeerInfo) :
    Option (UserId × PlaybackPosition) :=
  (leader view peers).bind fun leader =>
    if leader.1 = me ∨ leader.2.positionMillis ≤ ownPosition me view then none else some leader

def positionReference (me : UserId) (view : StateView) (peers : List PeerInfo) :
    Option (UserId × PlaybackPosition) :=
  match laggard view peers with
  | some laggard => if laggard.1 ≠ me then some laggard else none
  | none =>
    match authority view with
    | some user =>
      if user = me then none
      else
        match (sameFilePositions view peers).find? fun e => e.1 = user with
        | some sample => some sample
        -- not a valid source: fall through to the election
        | none => elect me view peers
    | none => elect me view peers

/-! ## §2. One source for everybody. -/

def seeker (view : StateView) (peers : List PeerInfo) : Option (UserId × PlaybackPosition) :=
  (authority view).bind fun user => (sameFilePositions view peers).find? fun e => e.1 = user

def source (view : StateView) (peers : List PeerInfo) : Option (UserId × PlaybackPosition) :=
  (laggard view peers).or ((seeker view peers).or (leader view peers))

variable {view : StateView} {peers : List PeerInfo} {me : UserId} {s : UserId × PlaybackPosition}

theorem elect_eq_some (h : elect me view peers = some s) :
    leader view peers = some s ∧ s.1 ≠ me ∧ ownPosition me view < s.2.positionMillis := by
  obtain ⟨lead, hlead, h⟩ := bind_eq_some_iff.mp h
  split at h
  · cases h
  next hnot =>
    obtain rfl := some.inj h
    obtain ⟨hme, hahead⟩ := not_or.mp hnot
    exact ⟨hlead, hme, not_le.mp hahead⟩

/-- **The answer is the source**, or nothing.  Who asks decides only whether there is an answer. -/
theorem positionReference_spec (h : positionReference me view peers = some s) :
    source view peers = some s ∧ s.1 ≠ me ∧
      (laggard view peers = none → seeker view peers = none →
        ownPosition me view < s.2.positionMillis) := by
  unfold positionReference at h
  unfold source seeker
  cases hlag : laggard view peers with
  | some lag =>
    rw [hlag] at h
    dsimp only at h
    split at h
    next hne =>
      obtain rfl := some.inj h
      exact ⟨rfl, hne, nofun⟩
    · cases h
  | none =>
    rw [hlag] at h
    dsimp only at h
    cases hauth : authority view with
    | none =>
      rw [hauth] at h
      obtain ⟨hlead, hme, hahead⟩ := elect_eq_some h
      exact ⟨hlead, hme, fun _ _ => hahead⟩
    | some user =>
      rw [hauth] at h
      dsimp only at h
      split at h
      · cases h
      next hne =>
        cases hfind : (sameFilePositions view peers).find? fun e => e.1 = user with
        | some sample =>
          rw [hfind] at h
          obtain rfl := some.inj h
          have huser : sample.1 = user := by simpa using find?_some hfind
          refine ⟨by rw [bind_some, hfind]; rfl, ?_, fun _ hnone => ?_⟩
          · rw [huser]; exact hne
          · rw [bind_some, hfind] at hnone
            cases hnone
        | none =>
          rw [hfind] at h
          obtain ⟨hlead, hme, hahead⟩ := elect_eq_some h
          exact ⟨by rw [bind_some, hfind]; exact hlead, hme, fun _ _ => hahead⟩

theorem mem_sameFilePositions (h : s ∈ sameFilePositions view peers) :
    ∃ file, view.nowPlaying = some file ∧ Loaded view peers file s.1 s.2 := by
  unfold sameFilePositions at h
  split at h
  next file hfile => exact ⟨file, hfile, mem_loadedPositions h⟩
  · cases h

theorem source_loaded (h : source view peers = some s) :
    ∃ file, view.nowPlaying = some file ∧ Loaded view peers file s.1 s.2 := by
  unfold source at h
  rcases or_eq_some_iff.mp h with hlag | ⟨-, h⟩
  · unfold laggard at hlag
    split at hlag
    · split at hlag
      · obtain ⟨file, hfile, hmem⟩ := rejoinLaggard_loaded hlag
        exact ⟨file, hfile, mem_loadedPositions hmem⟩
      · cases hlag
    · cases hlag
  · rcases or_eq_some_iff.mp h with hseek | ⟨-, hlead⟩
    · obtain ⟨user, -, hfind⟩ := bind_eq_some_iff.mp hseek
      exact mem_sameFilePositions (mem_of_find?_eq_some hfind)
    · exact mem_sameFilePositions (mem_reverse.mp (argmax_mem hlead))

/-! ## §3. The follow graph. -/

/-- `user` slaves to `other`. -/
def Follows (view : StateView) (peers : List PeerInfo) (user other : UserId) : Prop :=
  ∃ pos, positionReference user view peers = some (other, pos)

theorem source_follows_nobody (h : source view peers = some s) :
    positionReference s.1 view peers = none := by
  cases hown : positionReference s.1 view peers with
  | none => rfl
  | some t =>
    obtain ⟨hsource, hne, -⟩ := positionReference_spec hown
    rw [h] at hsource
    obtain rfl := some.inj hsource
    exact absurd rfl hne

/-- **The follow graph is a star.**  All answers name one user and one sample: a loaded peer whose
own answer is none.  Outside the laggard and seeker modes it is strictly ahead of whoever
follows it.  So following has no cycles. -/
theorem follow_graph_is_star (view : StateView) (peers : List PeerInfo) :
    (∀ a b s t, positionReference a view peers = some s → positionReference b view peers = some t →
      s = t) ∧
    (∀ a s, positionReference a view peers = some s →
      (∃ file, view.nowPlaying = some file ∧ Loaded view peers file s.1 s.2) ∧
      positionReference s.1 view peers = none ∧
      (laggard view peers = none → seeker view peers = none →
        ownPosition a view < s.2.positionMillis)) ∧
    ∀ user, ¬ Relation.TransGen (Follows view peers) user user := by
  refine ⟨?_, ?_, ?_⟩
  · intro a b s t hs ht
    have hsource := (positionReference_spec hs).1
    rw [(positionReference_spec ht).1] at hsource
    exact (some.inj hsource).symm
  · intro a s hs
    obtain ⟨hsource, -, hahead⟩ := positionReference_spec hs
    exact ⟨source_loaded hsource, source_follows_nobody hsource, hahead⟩
  · -- the first user on a cycle is followed by the last, and follows somebody itself
    intro user hcycle
    obtain ⟨next, ⟨pos, hfirst⟩, -⟩ := Relation.TransGen.head'_iff.mp hcycle
    obtain ⟨last, -, pos', hlast⟩ := Relation.TransGen.tail'_iff.mp hcycle
    have hnone := source_follows_nobody (positionReference_spec hlast).1
    rw [hfirst] at hnone
    cases hnone

end DessPlay.Session
