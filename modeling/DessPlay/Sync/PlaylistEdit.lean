/-
  DessPlay.Sync.PlaylistEdit
  **WHERE A PLAYLIST EDIT LANDS**
  (`dessplay-core/src/playlist.rs`, `dessplay/src/actors/sync.rs`).

  An edit gives its entry a position between those of the anchor and of whatever
  follows it.  Positions are dense, so there is always room BETWEEN TWO POSITIONS
  THAT DIFFER; between equals `Identifier::between` hands the same position out
  again and the hashes decide.
-/
import DessPlay.Core.Lamport
import DessPlay.Core.Rebuilt
import DessPlay.Lib.Machine
import DessPlay.Sync.Actor

namespace DessPlay.Core

open BTree Crdts Option
open List hiding getElem?_insert insert

namespace CrdtState

/-! ## §1. Where an edit belongs. -/

/-- The entries up to `hash`, and those behind it; all of them when it is missing. -/
def splitBehind (hash : Ed2kHash) : List PlaylistEntry → List PlaylistEntry × List PlaylistEntry
  | [] => ([], [])
  | entry :: entries =>
    if entry.hash = hash then ([entry], entries)
    else (entry :: (splitBehind hash entries).1, (splitBehind hash entries).2)

/-- What stays before an entry put after `anchor`, and what behind it. -/
def splitAfter (anchor : Option Ed2kHash) (entries : List PlaylistEntry) :
    List PlaylistEntry × List PlaylistEntry :=
  match anchor with
  | none => ([], entries)
  | some hash => splitBehind hash entries

variable (s : CrdtState)

def others (hash : Ed2kHash) : List PlaylistEntry :=
  s.playlistEntries.filter fun entry => entry.hash ≠ hash

/-- **Landed where asked.**  The file stands right behind the anchor (first without one, last when
the anchor is missing) and the others are as they were. -/
def LandsAfter (s' : CrdtState) (anchor : Option Ed2kHash) (hash : Ed2kHash) : Prop :=
  ∃ entry : PlaylistEntry, entry.hash = hash ∧
    s'.playlistEntries =
      (splitAfter anchor (s.others hash)).1 ++ entry :: (splitAfter anchor (s.others hash)).2

def Apart (anchor : Option Ed2kHash) (hash : Ed2kHash) : Prop :=
  ∀ low ∈ (splitAfter anchor (s.others hash)).1.getLast?,
    ∀ high ∈ (splitAfter anchor (s.others hash)).2.head?,
      low.state.position = high.state.position → low.hash < hash ∧ hash < high.hash

theorem splitBehind_append (hash : Ed2kHash) (entries : List PlaylistEntry) :
    (splitBehind hash entries).1 ++ (splitBehind hash entries).2 = entries := by
  induction entries with
  | nil => rfl
  | cons entry entries ih =>
    unfold splitBehind
    split
    · rfl
    · exact congrArg (entry :: ·) ih

theorem splitAfter_append (anchor : Option Ed2kHash) (entries : List PlaylistEntry) :
    (splitAfter anchor entries).1 ++ (splitAfter anchor entries).2 = entries := by
  cases anchor with
  | none => rfl
  | some hash => exact splitBehind_append hash entries

theorem splitBehind_found {hash : Ed2kHash} {entries : List PlaylistEntry} {i : Nat}
    (h : entries.findIdx? (fun entry => entry.hash = hash) = some i) :
    (splitBehind hash entries).1.getLast? = entries[i]? ∧
      (splitBehind hash entries).2.head? = entries[i + 1]? := by
  induction entries generalizing i with
  | nil => cases h
  | cons entry entries ih =>
    rw [findIdx?_cons] at h
    unfold splitBehind
    by_cases hentry : entry.hash = hash
    · rw [if_pos (decide_eq_true hentry)] at h
      obtain rfl := some.inj h
      rw [if_pos hentry]
      exact ⟨rfl, head?_eq_getElem?⟩
    · rw [if_neg (by simpa using hentry)] at h
      obtain ⟨j, hj, rfl⟩ := map_eq_some_iff.mp h
      obtain ⟨hlast, hhead⟩ := ih hj
      rw [if_neg hentry]
      refine ⟨?_, hhead⟩
      show (entry :: (splitBehind hash entries).1).getLast? = entries[j]?
      have hlt := (findIdx?_eq_some_iff_findIdx_eq.mp hj).1
      rw [getLast?_cons, hlast, getElem?_eq_getElem hlt]
      rfl

theorem splitBehind_missing {hash : Ed2kHash} {entries : List PlaylistEntry}
    (h : entries.findIdx? (fun entry => entry.hash = hash) = none) :
    splitBehind hash entries = (entries, []) := by
  induction entries with
  | nil => rfl
  | cons entry entries ih =>
    rw [findIdx?_cons] at h
    unfold splitBehind
    by_cases hentry : entry.hash = hash
    · rw [if_pos (decide_eq_true hentry)] at h
      cases h
    · rw [if_neg (by simpa using hentry)] at h
      rw [if_neg hentry, ih (map_eq_none_iff.mp h)]

theorem positionAfter_eq (anchor : Option Ed2kHash) (moving : Ed2kHash) (actor : ActorId) :
    s.positionAfter anchor moving actor = .between
      ((splitAfter anchor (s.others moving)).1.getLast?.map (·.state.position))
      ((splitAfter anchor (s.others moving)).2.head?.map (·.state.position)) actor := by
  cases anchor with
  | none => rfl
  | some hash =>
    simp only [positionAfter, splitAfter, others]
    generalize (s.playlistEntries.filter fun entry => entry.hash ≠ moving) = entries
    cases hfound : entries.findIdx? fun entry => entry.hash = hash with
    | some i =>
      obtain ⟨hlast, hhead⟩ := splitBehind_found hfound
      simp only [hlast, hhead, bind_some]
    | none =>
      rw [splitBehind_missing hfound]
      -- the anchor vanished: the last entry stands in for it
      by_cases hempty : entries.length = 0
      · obtain rfl := length_eq_zero_iff.mp hempty
        rfl
      · simp only [if_neg hempty, bind_some, getLast?_eq_getElem?, head?_nil]
        rw [Nat.sub_add_cancel (Nat.pos_of_ne_zero hempty), getElem?_length]

/-! ## §2. One edit. -/

section Edit

variable {s} {hash : Ed2kHash} {st : PlaylistFileState} {ts : SharedTimestamp} {actor : ActorId}
  {anchor : Option Ed2kHash}

/-- The order of the playlist's values: a tombstone is below every entry. -/
local instance : LinearOrder (Option PlaylistFileState) := optionOrder PlaylistFileState

theorem listed?_setPlaylistEntry (hd : s.NoDeferred) (hts : s.maxLwwTimestamp < ts) (k : Ed2kHash) :
    (s.setPlaylistEntry actor ts hash st).1.listed? k =
      if k = hash then some st else s.listed? k := by
  have hview : mapView (s.setPlaylistEntry actor ts hash st).1.playlistMap
      = (mapView s.playlistMap).insert hash (some st) := by
    have hmap : (s.setPlaylistEntry actor ts hash st).1.playlistMap =
        s.playlistMap.apply (s.playlistMap.update hash actor ⟨ts, some st⟩) :=
      s.maps_apply_self (f := .playlist) ((s.maps .playlist).update hash actor ⟨ts, some st⟩)
    rw [hmap]
    refine mapView_update_of_lt (hd .playlist) (fun e he current hcurrent => ?_) actor
    have hbelow := s.below_maxLwwTimestamp.maps .playlist hash e he current.timestamp
      (congrArg (Option.map Lww.timestamp) hcurrent)
    exact Lww.lt_of_timestamp_lt (lt_of_le_of_lt hbelow hts)
  unfold listed?
  rw [hview, getElem?_insert]
  split
  · rfl
  · rfl

theorem playlistEntries_strict (s : CrdtState) :
    s.playlistEntries.Pairwise fun a b => playlistKey a < playlistKey b := by
  have hnodup : s.playlistEntries.Pairwise fun a b => a.hash ≠ b.hash :=
    pairwise_map.mp s.playlistEntries_nodup
  refine (s.playlistEntries_pairwise.and hnodup).imp fun ⟨hle, hne⟩ => lt_of_le_of_ne hle ?_
  exact fun heq => hne (congrArg (fun k => (ofLex k).2) heq)

variable {entry : PlaylistEntry}

theorem mem_others :
    entry ∈ s.others hash ↔ entry.hash ≠ hash ∧ s.listed? entry.hash = some entry.state := by
  unfold others
  rw [mem_filter, s.mem_playlistEntries, decide_eq_true_iff]
  exact and_comm

theorem pairwise_insert {key : PlaylistEntry → Identifier ActorId ×ₗ Ed2kHash}
    {front back : List PlaylistEntry} (h : (front ++ back).Pairwise fun a b => key a < key b)
    (hlow : ∀ low ∈ front.getLast?, key low < key entry)
    (hhigh : ∀ high ∈ back.head?, key entry < key high) :
    (front ++ entry :: back).Pairwise fun a b => key a < key b := by
  obtain ⟨hfront, hback, hcross⟩ := pairwise_append.mp h
  -- everything in front is at most the last, everything behind at least the first
  have hbelow : ∀ a ∈ front, key a < key entry := by
    intro a ha
    obtain ⟨init, last, rfl⟩ := (eq_nil_or_concat' front).resolve_left (ne_nil_of_mem ha)
    have hlast := hlow last (by simp)
    obtain hinit | hmem := mem_append.mp ha
    · exact lt_trans ((pairwise_append.mp hfront).2.2 a hinit last (by simp)) hlast
    · obtain rfl := mem_singleton.mp hmem
      exact hlast
  have habove : ∀ b ∈ back, key entry < key b := by
    intro b hb
    cases back with
    | nil => cases hb
    | cons first rest =>
      have hfirst := hhigh first rfl
      obtain rfl | hrest := mem_cons.mp hb
      · exact hfirst
      · exact lt_trans hfirst ((pairwise_cons.mp hback).1 b hrest)
  refine pairwise_append.mpr ⟨hfront, pairwise_cons.mpr ⟨habove, hback⟩, ?_⟩
  intro a ha b hb
  obtain rfl | hb := mem_cons.mp hb
  · exact hbelow a ha
  · exact hcross a ha b hb

def HasNodes (s : CrdtState) : Prop :=
  ∀ (hash : Ed2kHash) (st : PlaylistFileState), s.listed? hash = some st → st.position.path ≠ []

theorem HasNodes.position (h : s.HasNodes) (hentry : entry ∈ s.others hash) :
    entry.state.position.path ≠ [] :=
  h entry.hash entry.state (mem_others.mp hentry).2

theorem others_strict (s : CrdtState) (hash : Ed2kHash) :
    (s.others hash).Pairwise fun a b => playlistKey a < playlistKey b :=
  s.playlistEntries_strict.sublist filter_sublist

theorem position_of_neighbours (hpos : st.position = s.positionAfter anchor hash actor)
    {low high : PlaylistEntry} (hlow : low ∈ (splitAfter anchor (s.others hash)).1.getLast?)
    (hhigh : high ∈ (splitAfter anchor (s.others hash)).2.head?) :
    low.state.position < st.position ∧ st.position < high.state.position ∨
      low.state.position = high.state.position ∧ st.position = low.state.position := by
  have hstrict := s.others_strict hash
  rw [← splitAfter_append anchor (s.others hash)] at hstrict
  have hkey := (pairwise_append.mp hstrict).2.2 low (mem_of_getLast? hlow) high
    (mem_of_mem_head? hhigh)
  rw [hpos, positionAfter_eq, hlow, hhigh]
  obtain hlt | ⟨heq, -⟩ := Prod.Lex.toLex_lt_toLex.mp hkey
  · exact .inl (Identifier.between_of_lt hlt actor)
  · -- between equals the same position is handed out again
    have heq : low.state.position = high.state.position := heq
    exact .inr ⟨heq, by rw [map_some, map_some, heq, Identifier.between_self]⟩

theorem key_low_lt (hnodes : s.HasNodes) (hapart : s.Apart anchor hash)
    (hpos : st.position = s.positionAfter anchor hash actor) {low : PlaylistEntry}
    (hlow : low ∈ (splitAfter anchor (s.others hash)).1.getLast?) :
    playlistKey low < playlistKey ⟨hash, st⟩ := by
  have hmem : low ∈ s.others hash := by
    rw [← splitAfter_append anchor (s.others hash)]
    exact mem_append_left _ (mem_of_getLast? hlow)
  refine Prod.Lex.toLex_lt_toLex.mpr ?_
  cases hhigh : (splitAfter anchor (s.others hash)).2.head? with
  | none =>
    rw [positionAfter_eq, hlow, hhigh] at hpos
    refine .inl ?_
    show low.state.position < st.position
    rw [hpos]
    exact Identifier.lt_between_none (hnodes.position hmem) actor
  | some high =>
    obtain ⟨hlt, -⟩ | ⟨heq, hst⟩ := position_of_neighbours hpos hlow hhigh
    · exact .inl hlt
    · exact .inr ⟨hst.symm, (hapart low hlow high hhigh heq).1⟩

theorem key_lt_high (hapart : s.Apart anchor hash)
    (hpos : st.position = s.positionAfter anchor hash actor) {high : PlaylistEntry}
    (hhigh : high ∈ (splitAfter anchor (s.others hash)).2.head?) :
    playlistKey ⟨hash, st⟩ < playlistKey high := by
  refine Prod.Lex.toLex_lt_toLex.mpr ?_
  cases hlow : (splitAfter anchor (s.others hash)).1.getLast? with
  | none =>
    rw [positionAfter_eq, hlow, hhigh] at hpos
    refine .inl ?_
    show st.position < high.state.position
    rw [hpos]
    exact Identifier.between_none_lt _ actor
  | some low =>
    obtain ⟨-, hlt⟩ | ⟨heq, hst⟩ := position_of_neighbours hpos hlow hhigh
    · exact .inl hlt
    · exact .inr ⟨hst.trans heq, (hapart low hlow high hhigh heq).2⟩

/-- **One edit.**  Stamped above everything, an entry at the position computed for it lands where
asked iff its neighbours are apart. -/
theorem landsAfter_iff (hd : s.NoDeferred) (hnodes : s.HasNodes) (hts : s.maxLwwTimestamp < ts)
    (hpos : st.position = s.positionAfter anchor hash actor) :
    s.LandsAfter (s.setPlaylistEntry actor ts hash st).1 anchor hash ↔ s.Apart anchor hash := by
  have hsplit := splitAfter_append anchor (s.others hash)
  constructor
  · rintro ⟨entry, rfl, hshown⟩ low hlow high hhigh heq
    have hstrict := (s.setPlaylistEntry actor ts entry.hash st).1.playlistEntries_strict
    rw [hshown] at hstrict
    have hstate : entry.state = st := by
      have hmem := ((s.setPlaylistEntry actor ts entry.hash st).1.mem_playlistEntries entry).mp
        (by rw [hshown]; simp)
      rw [listed?_setPlaylistEntry hd hts, if_pos rfl] at hmem
      exact (some.inj hmem).symm
    -- all three have one position, so the display order is that of the hashes
    have hsame : entry.state.position = high.state.position := by
      rw [hstate, hpos, positionAfter_eq, hlow, hhigh, map_some, map_some, heq,
        Identifier.between_self]
    obtain ⟨-, hbehind, hcross⟩ := pairwise_append.mp hstrict
    have hbelow := hcross low (mem_of_getLast? hlow) entry mem_cons_self
    have habove := (pairwise_cons.mp hbehind).1 high (mem_of_mem_head? hhigh)
    have hhash : ∀ {a b : PlaylistEntry}, a.state.position = b.state.position →
        playlistKey a < playlistKey b → a.hash < b.hash := by
      intro a b hab hkey
      obtain hlt | ⟨-, hlt⟩ := Prod.Lex.toLex_lt_toLex.mp hkey
      · exact absurd hab (ne_of_lt hlt)
      · exact hlt
    exact ⟨hhash (heq.trans hsame.symm) hbelow, hhash hsame habove⟩
  · intro hapart
    refine ⟨⟨hash, st⟩, rfl, playlistEntries_eq ?_ fun entry => ?_⟩
    · refine pairwise_insert ?_ (fun low hlow => key_low_lt hnodes hapart hpos hlow)
        fun high hhigh => key_lt_high hapart hpos hhigh
      rw [hsplit]
      exact s.others_strict hash
    · rw [listed?_setPlaylistEntry hd hts, mem_append, mem_cons, or_left_comm,
        ← mem_append, hsplit, mem_others]
      by_cases hentry : entry.hash = hash
      · obtain ⟨h, state⟩ := entry
        obtain rfl : h = hash := hentry
        simp [eq_comm]
      · have hne : entry ≠ ⟨hash, st⟩ := fun heq => hentry (congrArg PlaylistEntry.hash heq)
        simp [hentry, hne]

end Edit

/-! ## §3. Positions with nodes. -/

def CellPlaced (c : LwwCell (Option PlaylistFileState)) : Prop :=
  ∀ st, c.value = some (some st) → st.position.path ≠ []

structure Placed (s : CrdtState) : Prop where
  noDeferred : s.NoDeferred
  cells : Map.AllVals (fun _ => CellPlaced) s.playlistMap.entries

def OpPlaced (op : CrdtOp) : Prop :=
  ∃ dot hash ts value, op = .map .playlist (.up dot hash ⟨ts, value⟩) ∧
    ∀ st, value = some st → st.position.path ≠ []

section Placed

local instance : LinearOrder (Option PlaylistFileState) := optionOrder PlaylistFileState

theorem CellPlaced.apply {c : LwwCell (Option PlaylistFileState)}
    {w : Lww (Option PlaylistFileState)} (h : CellPlaced c)
    (hw : ∀ st, w.value = some st → st.position.path ≠ []) : CellPlaced (c.apply w) := by
  have hsingle : CellPlaced (.single w) := fun st hst => hw st (some.inj hst)
  unfold LwwCell.apply
  split
  · exact hsingle
  · split
    · exact hsingle
    · exact h

theorem cellPlaced_closed : Map.ValClosed ActorId CellPlaced where
  default st hst := by cases hst
  merge {v w} hv hw := by
    show CellPlaced (v.merge w)
    unfold LwwCell.merge
    split
    next theirs htheirs =>
      refine hv.apply fun st hst => hw st ?_
      show w.current.map Lww.value = _
      rw [htheirs]
      exact congrArg some hst
    · exact hv
  resetRemove _ hv := hv

variable {s t : CrdtState}

theorem placed_new : CrdtState.new.Placed where
  noDeferred _ := rfl
  cells k e hk := by
    have hnone : (Map.new : LwwMap Ed2kHash (Option PlaylistFileState)).entries[k]? = none :=
      Std.ExtTreeMap.getElem?_empty
    cases hnone.symm.trans hk

theorem OpPlaced.isPut {op : CrdtOp} (h : OpPlaced op) : op.IsPut := by
  obtain ⟨dot, hash, ts, value, rfl, -⟩ := h
  trivial

theorem Placed.apply (h : s.Placed) {op : CrdtOp} (hop : OpPlaced op) : (s.apply op).Placed where
  noDeferred := h.noDeferred.apply hop.isPut
  cells := by
    obtain ⟨dot, hash, ts, value, rfl, hvalue⟩ := hop
    show Map.AllVals _ ((s.apply (.map .playlist _)).maps .playlist).entries
    rw [maps_apply_self]
    refine Map.AllVals.apply (fun _ => cellPlaced_closed) h.cells _ ?_
    intro d k o heq v hv
    obtain ⟨rfl, rfl, rfl⟩ := Map.Op.up.inj heq
    exact CellPlaced.apply hv hvalue

theorem Placed.merge (hs : s.Placed) (ht : t.Placed) : (s.merge t).Placed where
  noDeferred f := Map.merge_deferred (hs.noDeferred f) (ht.noDeferred f)
  cells := Map.AllVals.merge (fun _ => cellPlaced_closed) hs.cells ht.cells

theorem Placed.hasNodes (h : s.Placed) : s.HasNodes := by
  intro hash st hst
  unfold listed? at hst
  rw [mapView_getElem?] at hst
  cases he : s.playlistMap.entries[hash]? with
  | none => rw [he] at hst; cases hst
  | some e =>
    rw [he] at hst
    exact h.cells hash e he st (join_eq_some_iff.mp hst)

theorem Placed.positionAfter (h : s.Placed) (anchor : Option Ed2kHash) (hash : Ed2kHash)
    (actor : ActorId) : (s.positionAfter anchor hash actor).path ≠ [] := by
  rw [positionAfter_eq]
  refine Identifier.between_path_ne_nil actor fun id hid => ?_
  obtain ⟨high, hhigh, rfl⟩ := map_eq_some_iff.mp hid
  have hmem : high ∈ s.others hash := by
    rw [← splitAfter_append anchor (s.others hash)]
    exact mem_append_right _ (mem_of_mem_head? hhigh)
  exact h.hasNodes.position hmem

end Placed

end CrdtState

end DessPlay.Core

namespace DessPlay.Sync

open DessPlay.Core Crdts
open CrdtState (NewPlaylistEntry)

/-! ## §4. The edits of a client. -/

/-- The playlist mutations. -/
inductive PlaylistEdit where
  | addAfter (anchor : Option Ed2kHash) (new : NewPlaylistEntry)
  | push (new : NewPlaylistEntry)
  | moveAfter (hash : Ed2kHash) (anchor : Option Ed2kHash)
  | remove (hash : Ed2kHash)
  | setDuration (hash : Ed2kHash) (durationMillis : ℕ+)

namespace PlaylistEdit

/-- The edit in a replica; `none` when there is nothing to do. -/
def author (s : CrdtState) (actor : ActorId) (ts : SharedTimestamp) :
    PlaylistEdit → Option (CrdtState × CrdtOp)
  | .addAfter anchor new => some (s.addPlaylistEntryAfter actor ts anchor new)
  | .push new => some (s.pushPlaylistEntry actor ts new)
  | .moveAfter hash anchor => s.movePlaylistEntryAfter actor ts hash anchor
  | .remove hash => some (s.removePlaylistEntry actor ts hash)
  | .setDuration hash durationMillis =>
    -- a whole-entry rewrite of the winning state
    (s.playlistEntries.find? fun entry => entry.hash = hash).map fun entry =>
      s.setPlaylistEntry actor ts hash { entry.state with durationMillis := some durationMillis }

def mutation : PlaylistEdit → Mutation
  | .addAfter anchor new => .addPlaylistAfter anchor new
  | .push new => .pushPlaylist new
  | .moveAfter hash anchor => .movePlaylistAfter hash anchor
  | .remove hash => .removePlaylist hash
  | .setDuration hash durationMillis => .setPlaylistDuration hash durationMillis

theorem author_eq (a : SyncActor) (ts : SharedTimestamp) (edit : PlaylistEdit) :
    a.author ts edit.mutation = edit.author a.state a.actor ts := by
  cases edit <;> rfl

variable {s s' : CrdtState} {actor : ActorId} {ts : SharedTimestamp} {op : CrdtOp}

theorem opPlaced_put (s : CrdtState) (actor : ActorId) (ts : SharedTimestamp) (hash : Ed2kHash)
    {st : PlaylistFileState} (h : st.position.path ≠ []) :
    CrdtState.OpPlaced (s.put actor ts (.map .playlist hash (some st))).2 :=
  ⟨_, hash, ts, some st, rfl, fun _ hst => Option.some.inj hst ▸ h⟩

theorem author_placed {edit : PlaylistEdit} (hs : s.Placed)
    (h : edit.author s actor ts = some (s', op)) : s' = s.apply op ∧ CrdtState.OpPlaced op := by
  cases edit with
  | addAfter anchor new =>
    obtain ⟨rfl, rfl⟩ := Prod.mk.inj (Option.some.inj h)
    exact ⟨rfl, opPlaced_put s actor ts new.hash (hs.positionAfter _ _ _)⟩
  | push new =>
    obtain ⟨rfl, rfl⟩ := Prod.mk.inj (Option.some.inj h)
    exact ⟨rfl, opPlaced_put s actor ts new.hash (hs.positionAfter _ _ _)⟩
  | moveAfter hash anchor =>
    simp only [author, CrdtState.movePlaylistEntryAfter] at h
    split at h
    · cases h
    · obtain ⟨entry, -, hput⟩ := Option.map_eq_some_iff.mp h
      obtain ⟨rfl, rfl⟩ := Prod.mk.inj hput
      exact ⟨rfl, opPlaced_put s actor ts hash (hs.positionAfter _ _ _)⟩
  | remove hash =>
    obtain ⟨rfl, rfl⟩ := Prod.mk.inj (Option.some.inj h)
    exact ⟨rfl, _, hash, ts, none, rfl, fun st hst => by cases hst⟩
  | setDuration hash durationMillis =>
    obtain ⟨entry, hfind, hput⟩ := Option.map_eq_some_iff.mp h
    obtain ⟨rfl, rfl⟩ := Prod.mk.inj hput
    have hmem := (s.mem_playlistEntries entry).mp (List.mem_of_find?_eq_some hfind)
    exact ⟨rfl, opPlaced_put s actor ts hash (hs.hasNodes entry.hash entry.state hmem)⟩

end PlaylistEdit

/-! ## §5. Clients that edit and sync. -/

/-- The replicas, and the ops sent so far. -/
structure Editors where
  states : ActorId → CrdtState
  sent : List CrdtOp

/-- An edit at one client; an op reaching a client, at any time and in any order; a client taking in
another's whole state. -/
inductive EditorEvent where
  | edit (actor : ActorId) (ts : SharedTimestamp) (edit : PlaylistEdit)
  | deliver (actor : ActorId) (index : Nat)
  | merge (actor other : ActorId)

namespace Editors

def start : Editors := ⟨fun _ => .new, []⟩

def step (e : Editors) : EditorEvent → Option Editors
  | .edit actor ts edit =>
    (edit.author (e.states actor) actor ts).map fun done =>
      ⟨Function.update e.states actor done.1, e.sent ++ [done.2]⟩
  | .deliver actor index =>
    e.sent[index]?.map fun op =>
      { e with states := Function.update e.states actor ((e.states actor).apply op) }
  | .merge actor other =>
    some { e with
      states := Function.update e.states actor ((e.states actor).merge (e.states other)) }

structure Placed (e : Editors) : Prop where
  states : ∀ actor, (e.states actor).Placed
  sent : ∀ op ∈ e.sent, CrdtState.OpPlaced op

variable {e e' : Editors}

/-- **One event.** -/
theorem Placed.step (h : e.Placed) {event : EditorEvent} (hstep : e.step event = some e') :
    e'.Placed := by
  -- every event replaces one replica
  have hupdate : ∀ {actor : ActorId} {s : CrdtState}, s.Placed →
      ∀ a, (Function.update e.states actor s a).Placed := by
    intro actor s hs a
    by_cases ha : a = actor
    · subst ha
      rw [Function.update_self]
      exact hs
    · rw [Function.update_of_ne ha]
      exact h.states a
  cases event with
  | edit actor ts edit =>
    obtain ⟨⟨s', op⟩, hauthor, rfl⟩ := Option.map_eq_some_iff.mp hstep
    obtain ⟨rfl, hop⟩ := PlaylistEdit.author_placed (h.states actor) hauthor
    refine ⟨hupdate ((h.states actor).apply hop), fun op' hop' => ?_⟩
    obtain hold | hnew := List.mem_append.mp hop'
    · exact h.sent op' hold
    · obtain rfl := List.mem_singleton.mp hnew
      exact hop
  | deliver actor index =>
    obtain ⟨op, hop, rfl⟩ := Option.map_eq_some_iff.mp hstep
    exact ⟨hupdate ((h.states actor).apply (h.sent op (List.mem_of_getElem? hop))), h.sent⟩
  | merge actor other =>
    obtain rfl := Option.some.inj hstep
    exact ⟨hupdate ((h.states actor).merge (h.states other)), h.sent⟩

/-- **Playlist edits land where asked, iff the neighbours are apart**: in every state any clients'
edits can lead to, for every add and every move stamped above everything in it. -/
theorem edit_lands_iff (h : Machine.Reach step Machine.anyStep start e) (editor : ActorId)
    (ts : SharedTimestamp) (hts : (e.states editor).maxLwwTimestamp < ts)
    (anchor : Option Ed2kHash) :
    (∀ new : NewPlaylistEntry,
      (e.states editor).LandsAfter
          ((e.states editor).addPlaylistEntryAfter editor ts anchor new).1 anchor new.hash ↔
        (e.states editor).Apart anchor new.hash) ∧
    ∀ hash s' op, (e.states editor).movePlaylistEntryAfter editor ts hash anchor = some (s', op) →
      ((e.states editor).LandsAfter s' anchor hash ↔ (e.states editor).Apart anchor hash) := by
  have hplaced : e.Placed := h.invariant ⟨fun _ => CrdtState.placed_new, fun _ hop => by cases hop⟩
    fun _ _ _ he _ hstep => he.step hstep
  have hs := hplaced.states editor
  refine ⟨fun new => CrdtState.landsAfter_iff hs.noDeferred hs.hasNodes hts rfl, ?_⟩
  intro hash s' op hmove
  unfold CrdtState.movePlaylistEntryAfter at hmove
  split at hmove
  · cases hmove
  · obtain ⟨entry, -, hput⟩ := Option.map_eq_some_iff.mp hmove
    obtain ⟨rfl, -⟩ := Prod.mk.inj hput
    exact CrdtState.landsAfter_iff hs.noDeferred hs.hasNodes hts rfl

def video (hash : Ed2kHash) : NewPlaylistEntry := ⟨hash, "ada", "video", 1, none⟩

theorem edit_lands_iff_third :
    ∃ e, Machine.run step start
        [.edit 1 1 (.addAfter none (video 5)), .edit 1 2 (.addAfter none (video 3))] = some e ∧
      (e.states 1).maxLwwTimestamp < 9 ∧
      ((e.states 1).LandsAfter ((e.states 1).addPlaylistEntryAfter 1 9 (some 3) (video 7)).1
          (some 3) 7 ↔ (e.states 1).Apart (some 3) 7) := by
  have hrun : Machine.run step start
      [.edit 1 1 (.addAfter none (video 5)), .edit 1 2 (.addAfter none (video 3))] = some _ := rfl
  refine ⟨_, hrun, by decide +kernel, ?_⟩
  exact (edit_lands_iff (Machine.reach_of_run _ hrun) 1 9 (by decide +kernel) (some 3)).1 (video 7)

/-- Client 1 adds file 1, removes it and adds file 2, which gets the SAME position; client 2 has
seen only the first add when it measures file 1's duration, and the two sync. -/
def revived : List EditorEvent :=
  [.edit 1 1 (.addAfter none (video 1)), .deliver 2 0, .edit 1 2 (.remove 1),
    .edit 1 3 (.addAfter none (video 2)), .edit 2 10 (.setDuration 1 1000), .merge 1 2]

/-- **An edit lands elsewhere.**  Files 1 and 2 share a position; file 9, asked to go behind file 1,
goes behind file 2. -/
theorem edit_lands_elsewhere :
    ∃ e, Machine.run step start revived = some e ∧ (e.states 1).maxLwwTimestamp < 20 ∧
      (e.states 1).playlistEntries.map (·.hash) = [1, 2] ∧
      ((e.states 1).addPlaylistEntryAfter 1 20 (some 1) (video 9)).1.playlistEntries.map (·.hash)
        = [1, 2, 9] ∧
      ¬ (e.states 1).LandsAfter
        ((e.states 1).addPlaylistEntryAfter 1 20 (some 1) (video 9)).1 (some 1) 9 := by
  refine ⟨_, rfl, by decide +kernel, by decide +kernel, by decide +kernel, ?_⟩
  rintro ⟨entry, hentry, hshown⟩
  have hhashes := congrArg (List.map PlaylistEntry.hash) hshown
  rw [List.map_append, List.map_cons, hentry] at hhashes
  exact absurd hhashes (by decide +kernel)

end Editors

end DessPlay.Sync
