/-
  DessPlay.Core.Playlist
  **WHAT THE PLAYLIST SHOWS**
  (`dessplay-core/src/playlist.rs`).

  The display order sorts by `(position, hash)` and hashes are the keys of a map,
  so the list shown is DETERMINED by its members: a list sorted that way with the
  right members is the playlist (`playlistEntries_eq`).  Appending is then a
  membership fact.
-/
import DessPlay.Core.View

namespace DessPlay.Core

open BTree Crdts Option
open List hiding getElem?_insert insert

theorem mapView_getElem? {K V : Type} [LinearOrder K] (m : LwwMap K V) (k : K) :
    (mapView m)[k]? = m.entries[k]?.bind fun entry => entry.val.value :=
  getElem?_filterMap m.entries _ k

theorem LwwCell.apply_of_lt {V : Type} [LinearOrder V] {c : LwwCell V} {w : Lww V}
    (h : ∀ current ∈ c.current, current < w) : c.apply w = .single w := by
  obtain ⟨_ | current⟩ := c
  · rfl
  · exact if_pos (h current rfl)

theorem mapView_update_of_lt {K V : Type} [LinearOrder K] [LinearOrder V] {m : LwwMap K V}
    (hd : m.deferred = []) {key : K} {w : Lww V}
    (hnew : ∀ e, m.entries[key]? = some e → ∀ current ∈ e.val.current, current < w)
    (actor : ActorId) :
    mapView (m.apply (m.update key actor w)) = (mapView m).insert key w.value := by
  unfold Map.update
  rw [Map.apply_new hd (show m.clock.get _ < m.clock.get actor + 1 from Nat.lt_succ_self _)]
  refine map_ext fun k => ?_
  rw [mapView_getElem?, getElem?_insert, getElem?_insert, mapView_getElem?]
  by_cases hk : k = key
  · rw [if_pos hk, if_pos hk]
    refine congrArg LwwCell.value (LwwCell.apply_of_lt fun current hcurrent => ?_)
    cases he : m.entries[key]? with
    | none => rw [he] at hcurrent; cases hcurrent
    | some e => rw [he] at hcurrent; exact hnew e he current hcurrent
  · rw [if_neg hk, if_neg hk]

namespace CrdtState

/-! ## §1. The playlist is its members in order. -/

/-- The sort key of an entry. -/
def playlistKey (entry : PlaylistEntry) : Identifier ActorId ×ₗ Ed2kHash :=
  lex entry.state.position entry.hash

instance : Std.Total playlistLe := ⟨fun a b => le_total (playlistKey a) (playlistKey b)⟩

instance : IsTrans PlaylistEntry playlistLe :=
  ⟨fun a b c (hab : playlistKey a ≤ playlistKey b) (hbc : playlistKey b ≤ playlistKey c) =>
    le_trans hab hbc⟩

def playlistMap (s : CrdtState) : LwwMap Ed2kHash (Option PlaylistFileState) := s.maps .playlist

def listed? (s : CrdtState) (hash : Ed2kHash) : Option PlaylistFileState :=
  (mapView s.playlistMap)[hash]?.join

def unsorted (m : LwwMap Ed2kHash (Option PlaylistFileState)) : List PlaylistEntry :=
  m.entries.toList.filterMap fun e => e.2.val.value.join.map fun state => ⟨e.1, state⟩

theorem playlistEntries_perm (s : CrdtState) : s.playlistEntries.Perm (unsorted s.playlistMap) :=
  perm_insertionSort playlistLe _

theorem mem_unsorted (m : LwwMap Ed2kHash (Option PlaylistFileState)) (entry : PlaylistEntry) :
    entry ∈ unsorted m ↔ (mapView m)[entry.hash]?.join = some entry.state := by
  unfold unsorted
  rw [mem_filterMap, mapView_getElem?]
  constructor
  · rintro ⟨⟨hash, e⟩, hmem, he⟩
    rw [Std.ExtTreeMap.mem_toList_iff_getElem?_eq_some] at hmem
    obtain ⟨state, hstate, rfl⟩ := map_eq_some_iff.mp he
    rw [hmem]
    exact hstate
  · intro h
    cases he : m.entries[entry.hash]? with
    | none =>
      rw [he] at h
      cases h
    | some e =>
      rw [he] at h
      exact ⟨(entry.hash, e), Std.ExtTreeMap.mem_toList_iff_getElem?_eq_some.mpr he,
        map_eq_some_iff.mpr ⟨entry.state, h, rfl⟩⟩

theorem unsorted_nodup (m : LwwMap Ed2kHash (Option PlaylistFileState)) :
    ((unsorted m).map (·.hash)).Nodup := by
  unfold unsorted
  rw [Nodup, pairwise_map, pairwise_filterMap]
  refine m.entries.distinct_keys_toList.imp ?_
  intro a b hne x hx y hy heq
  obtain ⟨_, -, rfl⟩ := map_eq_some_iff.mp hx
  obtain ⟨_, -, rfl⟩ := map_eq_some_iff.mp hy
  exact hne (compare_eq_iff_eq.mpr heq)

theorem mem_playlistEntries (s : CrdtState) (entry : PlaylistEntry) :
    entry ∈ s.playlistEntries ↔ s.listed? entry.hash = some entry.state :=
  s.playlistEntries_perm.mem_iff.trans (mem_unsorted _ entry)

theorem playlistEntries_pairwise (s : CrdtState) : s.playlistEntries.Pairwise playlistLe :=
  pairwise_insertionSort playlistLe _

theorem playlistEntries_nodup (s : CrdtState) : (s.playlistEntries.map (·.hash)).Nodup :=
  (s.playlistEntries_perm.map _).nodup_iff.mpr (unsorted_nodup _)

/-- **The playlist is its members in order.** -/
theorem playlistEntries_eq {s : CrdtState} {l : List PlaylistEntry}
    (hsorted : l.Pairwise fun a b => playlistKey a < playlistKey b)
    (hmem : ∀ entry, entry ∈ l ↔ s.listed? entry.hash = some entry.state) :
    s.playlistEntries = l := by
  have hlt : ∀ {a b : PlaylistEntry}, playlistKey a < playlistKey b → a ≠ b := by
    rintro a b h rfl
    exact lt_irrefl _ h
  have hperm : s.playlistEntries.Perm l := by
    rw [perm_ext_iff_of_nodup s.playlistEntries_nodup.of_map (hsorted.imp hlt)]
    exact fun entry => (s.mem_playlistEntries entry).trans (hmem entry).symm
  refine hperm.eq_of_pairwise ?_ s.playlistEntries_pairwise (hsorted.imp le_of_lt)
  -- Two members with one sort key have one hash, and the map has one entry for it.
  intro a b ha hb hab hba
  have hkey : playlistKey a = playlistKey b := le_antisymm hab hba
  have hhash : a.hash = b.hash := congrArg (fun k => (ofLex k).2) hkey
  have hstate := (s.mem_playlistEntries a).mp ha
  rw [hhash, (hmem b).mp hb] at hstate
  obtain ⟨ahash, astate⟩ := a
  cases hhash
  cases hstate
  rfl

/-! ## §2. Appending. -/

theorem positionAfter_last {s : CrdtState} {hash : Ed2kHash} (hnew : s.listed? hash = none)
    (actor : ActorId) :
    s.positionAfter (s.playlistEntries.getLast?.map (·.hash)) hash actor
      = .between (s.playlistEntries.getLast?.map (·.state.position)) none actor := by
  have hkeep : (s.playlistEntries.filter fun entry => entry.hash ≠ hash) = s.playlistEntries := by
    refine filter_eq_self.mpr fun entry hentry => decide_eq_true fun heq => ?_
    rw [s.mem_playlistEntries, heq, hnew] at hentry
    cases hentry
  unfold positionAfter
  rw [hkeep]
  cases hlast : s.playlistEntries.getLast? with
  | none =>
    rw [getLast?_eq_none_iff.mp hlast]
    rfl
  | some last =>
    obtain ⟨front, hfront⟩ : ∃ front, s.playlistEntries = front ++ [last] :=
      getLast?_eq_some_iff.mp hlast
    have hindex : (s.playlistEntries.findIdx? fun entry => entry.hash = last.hash)
        = some front.length := by
      have hnodup := s.playlistEntries_nodup
      rw [hfront, map_append, nodup_append] at hnodup
      rw [hfront, findIdx?_append, findIdx?_eq_none_iff.mpr]
      · simp
      · intro entry hentry
        exact decide_eq_false (hnodup.2.2 _ (mem_map_of_mem hentry) _
          (mem_singleton_self _))
    simp only [map_some, hindex, bind_some]
    rw [hfront]
    simp

end CrdtState

end DessPlay.Core
