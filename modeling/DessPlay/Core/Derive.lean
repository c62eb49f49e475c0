/-
  DessPlay.Core.Derive
  **WHO HAS THE FILE LOADED, AND WHETHER THE VIDEO PLAYS**
  (`dessplay-core/src/derive.rs`).

  `loadedPositions` is the one eligibility rule behind every decision that rests on
  positions; `mem_loadedPositions` is all that later files use of it.  Who blocks
  playback is a parameter here.
-/
import DessPlay.Core.Message
import DessPlay.Lib.Binary64

namespace DessPlay.Core

open BTree Crdts Option
open List hiding getElem?_insert insert

/-! ## §1. Who is loaded. -/

def OUTAGE_GRACE_MILLIS : Nat := 3 * 60 * 1000

def FileAvailability.playable : FileAvailability → Bool
  | ready | downloadingPlayable _ => true
  | _ => false

def MapView.find {f : MapField} (view : MapView f) (key : f.Key) : Option f.Val := view[key]?

def StateView.availability (view : StateView) (user : UserId) (file : Ed2kHash) :
    Option FileAvailability :=
  MapView.find (f := .fileAvailability) view.fileAvailability (lex user file)

def StateView.position (view : StateView) (user : UserId) : Option PlaybackPosition :=
  MapView.find (f := .playbackPosition) view.playbackPosition user

/-- The sample under which a peer counts as having `file` loaded. -/
def loadedSample (view : StateView) (file : Ed2kHash) (p : PeerInfo) : Option PlaybackPosition :=
  if p.presence = .present ∧ p.role = .interactive then
    match view.availability p.username file with
    | some availability =>
      if availability.playable then (view.position p.username).filter fun pos => pos.file = file
      else none
    | none => none
  else none

/-- Every peer who has `file` loaded, with its sample, in username order. -/
def loadedPositions (view : StateView) (peers : List PeerInfo) (file : Ed2kHash) :
    List (UserId × PlaybackPosition) :=
  let loaded : BTreeMap UserId PlaybackPosition :=
    peers.foldl (fun loaded p =>
      match loadedSample view file p with
      | some pos => loaded.insert p.username pos
      | none => loaded) ∅
  loaded.toList

/-- `saturating_add` on a `u64`. -/
def saturatingAdd (a b : Nat) : Nat := min (a + b) (2 ^ 64 - 1)

/-- The furthest-behind peer among those within a grace window of the front; the
first of several in username order. -/
def rejoinLaggard (view : StateView) (peers : List PeerInfo) : Option (UserId × PlaybackPosition) :=
  view.nowPlaying.bind fun file =>
    let loaded := loadedPositions view peers file
    (loaded.map (·.2.positionMillis)).max?.bind fun front =>
      (loaded.filter fun e => front ≤ saturatingAdd e.2.positionMillis OUTAGE_GRACE_MILLIS).argmin
        (·.2.positionMillis)

structure KnownUser where
  username : UserId
  lastSeen : Nat
  deriving DecidableEq

/-- `KNOWN_OFFLINE_GATING_HORIZON_MILLIS`: a week. -/
def KNOWN_OFFLINE_GATING_HORIZON_MILLIS : Nat := 7 * 24 * 60 * 60 * 1000

def mergeKnownOffline (peers : List PeerInfo) (known : List KnownUser) (now : Nat) :
    List PeerInfo :=
  known.foldl (fun merged user =>
    if KNOWN_OFFLINE_GATING_HORIZON_MILLIS < now - user.lastSeen then merged
    else if merged.any fun p => p.username = user.username then merged
    else
      merged ++ [{ username := user.username, role := .interactive, presence := .departed,
                   graceUntil := none }]) peers

/-- Video plays iff the latch is `Playing`, something is queued and nobody blocks. -/
def playbackActive (blockers : StateView → List PeerInfo → List UserId) (view : StateView)
    (peers : List PeerInfo) : Bool :=
  view.playbackIntent = .playing ∧ view.nowPlaying.isSome ∧ (blockers view peers).isEmpty

/-- **Who is loaded.**  A present interactive peer that holds the video, with the
position it reported for this very file. -/
structure Loaded (view : StateView) (peers : List PeerInfo) (file : Ed2kHash) (user : UserId)
    (pos : PlaybackPosition) : Prop where
  peer : ∃ p ∈ peers, p.username = user ∧ p.presence = .present ∧ p.role = .interactive
  available : ∃ availability, view.availability user file = some availability ∧
    availability.playable = true
  sample : view.position user = some pos
  tagged : pos.file = file

theorem loadedSample_eq_some {view : StateView} {file : Ed2kHash} {p : PeerInfo}
    {pos : PlaybackPosition} (h : loadedSample view file p = some pos) :
    p.presence = .present ∧ p.role = .interactive ∧
      (∃ availability, view.availability p.username file = some availability ∧
        availability.playable = true) ∧
      view.position p.username = some pos ∧ pos.file = file := by
  unfold loadedSample at h
  split at h
  next hpeer =>
    split at h
    next availability havail =>
      split at h
      next hplay =>
        obtain ⟨hpos, htag⟩ := filter_eq_some_iff.mp h
        exact ⟨hpeer.1, hpeer.2, ⟨availability, havail, hplay⟩, hpos, of_decide_eq_true htag⟩
      · cases h
    · cases h
  · cases h

theorem mem_loadedPositions {view : StateView} {peers : List PeerInfo} {file : Ed2kHash}
    {e : UserId × PlaybackPosition} (h : e ∈ loadedPositions view peers file) :
    Loaded view peers file e.1 e.2 := by
  have hfold : ∀ l : List PeerInfo, l ⊆ peers → ∀ loaded : BTreeMap UserId PlaybackPosition,
      (∀ (u : UserId) pos, loaded[u]? = some pos → Loaded view peers file u pos) →
      ∀ (u : UserId) pos, (l.foldl (fun loaded p =>
        match loadedSample view file p with
        | some pos => loaded.insert p.username pos
        | none => loaded) loaded)[u]? = some pos → Loaded view peers file u pos := by
    intro l
    induction l with
    | nil => intro _ loaded hloaded; exact hloaded
    | cons p l ih =>
      intro hsub loaded hloaded
      rw [foldl_cons]
      refine ih (fun x hx => hsub (mem_cons_of_mem _ hx)) _ ?_
      intro u pos hu
      -- the turn of `p` adds at most the sample of `p`
      cases hp : loadedSample view file p with
      | none =>
        rw [hp] at hu
        exact hloaded u pos hu
      | some sample =>
        rw [hp] at hu
        simp only [getElem?_insert] at hu
        split at hu
        next heq =>
          cases hu
          subst heq
          obtain ⟨hpres, hrole, havail, hpos, htag⟩ := loadedSample_eq_some hp
          exact ⟨⟨p, hsub mem_cons_self, rfl, hpres, hrole⟩, havail, hpos, htag⟩
        · exact hloaded u pos hu
  refine hfold peers (fun _ hx => hx) ∅ (fun u pos hu => ?_) e.1 e.2 ((mem_entries _ e).mp h)
  rw [Std.ExtTreeMap.getElem?_empty] at hu
  cases hu

theorem rejoinLaggard_loaded {view : StateView} {peers : List PeerInfo}
    {e : UserId × PlaybackPosition} (h : rejoinLaggard view peers = some e) :
    ∃ file, view.nowPlaying = some file ∧ e ∈ loadedPositions view peers file := by
  obtain ⟨file, hfile, h⟩ := bind_eq_some_iff.mp h
  obtain ⟨front, -, h⟩ := bind_eq_some_iff.mp h
  exact ⟨file, hfile, mem_of_mem_filter (argmin_mem h)⟩

/-! ## §2. The saved position. -/

/-- The middle of sorted positions, or the mean of the two in the middle. -/
def median (positions : List Nat) : Nat :=
  let mid := positions.length / 2
  if positions.length % 2 = 1 then positions.getD mid 0
  else (positions.getD (mid - 1) 0 + positions.getD mid 0) / 2

/-- `WATCHED_FRACTION`, 0.85 as an `f64`: this over 2⁵³. -/
def WATCHED_FRACTION : Nat := 7656119366529843

/-- `millis as f64 >= WATCHED_FRACTION * duration as f64`, both sides times 2⁵³. -/
def pastWatched (millis duration : Nat) : Bool :=
  Binary64.round (WATCHED_FRACTION * Binary64.round duration) ≤ 2 ^ 53 * Binary64.round millis

/-- The duration that the playlist has for `file`. -/
def StateView.durationOf (view : StateView) (file : Ed2kHash) : Option ℕ+ :=
  (view.playlist.find? fun e => e.hash = file).bind (·.state.durationMillis)

/-- The file counts as watched at `millis`. -/
def StateView.watchedAt (view : StateView) (file : Ed2kHash) (millis : Nat) : Bool :=
  (view.durationOf file).any fun duration : ℕ+ => pastWatched millis duration

/-- The group saved position of `file`, stored when the group stops watching it. -/
def savedPosition (view : StateView) (peers : List PeerInfo) (file : Ed2kHash) : Option Nat :=
  let positions := (loadedPositions view peers file).map (·.2.positionMillis)
  if positions = [] then none
  else
    let median := median (positions.insertionSort (· ≤ ·))
    some (if view.watchedAt file median then 0 else median)

theorem median_halves {l : List Nat} (hsorted : l.Pairwise (· ≤ ·)) (hne : l ≠ []) :
    l.length ≤ 2 * l.countP (· ≤ median l) ∧ l.length ≤ 2 * l.countP (median l ≤ ·) := by
  have hpos := length_pos_iff.mpr hne
  have hle : ∀ i j, i ≤ j → j < l.length → l.getD i 0 ≤ l.getD j 0 := by
    intro i j hij hj
    rw [getD_eq_getElem _ _ (by omega), getD_eq_getElem _ _ hj]
    rcases hij.eq_or_lt with rfl | hlt
    · exact le_rfl
    · exact pairwise_iff_getElem.mp hsorted i j (by omega) hj hlt
  -- the median lies between the last of the lower half and the first of the upper one
  have hbetween :
      l.getD ((l.length - 1) / 2) 0 ≤ median l ∧ median l ≤ l.getD (l.length / 2) 0 := by
    have hmid := hle ((l.length - 1) / 2) (l.length / 2) (by omega) (by omega)
    unfold median
    dsimp only
    split
    next hodd => rw [show (l.length - 1) / 2 = l.length / 2 by omega]; exact ⟨le_rfl, le_rfl⟩
    next heven =>
      rw [show (l.length - 1) / 2 = l.length / 2 - 1 by omega] at hmid ⊢
      omega
  have hlow : (l.take ((l.length + 1) / 2)).countP (· ≤ median l) = _ :=
    countP_eq_length.mpr fun a ha => by
      obtain ⟨i, hi, rfl⟩ := mem_take_iff_getElem.mp ha
      have := hle i ((l.length - 1) / 2) (by omega) (by omega)
      rw [getD_eq_getElem _ _ (by omega)] at this
      exact decide_eq_true (this.trans hbetween.1)
  have hhigh : (l.drop (l.length / 2)).countP (median l ≤ ·) = _ :=
    countP_eq_length.mpr fun a ha => by
      obtain ⟨i, hi, rfl⟩ := mem_drop_iff_getElem.mp ha
      have := hle (l.length / 2) (l.length / 2 + i) (by omega) (by omega)
      rw [getD_eq_getElem _ _ (by omega : l.length / 2 + i < l.length)] at this
      exact decide_eq_true (hbetween.2.trans this)
  have hlow' := (take_sublist ((l.length + 1) / 2) l).countP_le (p := (· ≤ median l))
  have hhigh' := (drop_sublist (l.length / 2) l).countP_le (p := (median l ≤ ·))
  rw [hlow, length_take] at hlow'
  rw [hhigh, length_drop] at hhigh'
  omega

/-- Up to 2⁴⁸ ms the comparison in `f64` is that of the exact fraction. -/
theorem pastWatched_iff {millis duration : Nat} (h : duration < 2 ^ 48) :
    pastWatched millis duration = true ↔ 85 * duration ≤ 100 * millis := by
  have herror := Binary64.round_error (WATCHED_FRACTION * duration)
  unfold pastWatched
  rw [decide_eq_true_iff, Binary64.round_of_lt (h.trans (by decide))]
  by_cases hsmall : millis < 2 ^ 53
  · rw [Binary64.round_of_lt hsmall]
    refine ⟨fun hpast => ?_, fun hle => ?_⟩
    · -- short of the fraction, the gap of a twentieth exceeds the error
      unfold WATCHED_FRACTION at *
      omega
    · -- the position is a value, which rounding does not pass
      rw [Nat.mul_comm (2 ^ 53)]
      refine Binary64.round_le hsmall ?_
      unfold WATCHED_FRACTION
      omega
  · have hmillis := (Binary64.round_error millis).2
    unfold WATCHED_FRACTION at *
    omega

/-- **No minority moves the saved position.**  It is stored exactly where somebody has the file
loaded; at least half of them are then at or before it and at least half at or behind it, unless
there the file counts as watched, which for durations below 2⁴⁸ ms means 85 % of it. -/
theorem saved_position_halves (view : StateView) (peers : List PeerInfo) (file : Ed2kHash) :
    let loaded := (loadedPositions view peers file).map (·.2.positionMillis)
    loaded = [] ∧ savedPosition view peers file = none ∨
    loaded ≠ [] ∧ ∃ m,
      loaded.length ≤ 2 * loaded.countP (· ≤ m) ∧ loaded.length ≤ 2 * loaded.countP (m ≤ ·) ∧
      savedPosition view peers file = some (if view.watchedAt file m then 0 else m) ∧
      ∀ duration : ℕ+, (duration : Nat) < 2 ^ 48 → view.durationOf file = some duration →
        (view.watchedAt file m = true ↔ 85 * (duration : Nat) ≤ 100 * m) := by
  intro loaded
  by_cases hempty : loaded = []
  · exact .inl ⟨hempty, if_pos hempty⟩
  · have hperm := perm_insertionSort (· ≤ ·) loaded
    obtain ⟨hlow, hhigh⟩ := median_halves (pairwise_insertionSort (· ≤ ·) loaded)
      fun h => hempty (nil_perm.mp (h ▸ hperm))
    rw [hperm.length_eq, hperm.countP_eq] at hlow hhigh
    refine .inr ⟨hempty, _, hlow, hhigh, if_neg hempty, fun duration hshort hduration => ?_⟩
    unfold StateView.watchedAt
    rw [hduration, Option.any_some]
    exact pastWatched_iff hshort

end DessPlay.Core
