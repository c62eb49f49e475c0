/-
  DessPlay.Core.Rebuilt
  **WHAT A REBUILT STATE SHOWS.**

  Compaction writes every part of a view into an empty state, one section after
  the other.  Each section touches ONE map, register or list and leaves the others
  as they were, so the view of the result is read off section by section.
-/
import DessPlay.Core.Compact
import DessPlay.Core.Playlist
import DessPlay.Core.Replica

namespace DessPlay.Core

open BTree Crdts Function CrdtState
open List hiding getElem?_insert insert

/-! ## §1. The first write under a key. -/

theorem LwwCell.value_stamped {V : Type} (value : Option V) (ts : SharedTimestamp) :
    (⟨value.map fun v => ⟨ts, v⟩⟩ : LwwCell V).value = value := by
  cases value <;> rfl

theorem mapView_update {K V : Type} [LinearOrder K] [LinearOrder V] {m : LwwMap K V}
    (hd : m.deferred = []) {key : K} (hnew : (mapView m)[key]? = none) (actor : ActorId)
    (w : Lww V) : mapView (m.apply (m.update key actor w)) = (mapView m).insert key w.value := by
  refine mapView_update_of_lt hd (fun e he current hcurrent => ?_) actor
  rw [mapView_getElem?, he] at hnew
  have hvalue : e.val.value = some current.value := congrArg (Option.map _) hcurrent
  cases hvalue.symm.trans hnew

theorem mapView_new {K V : Type} [LinearOrder K] : mapView (Map.new : LwwMap K V) = ∅ :=
  map_ext fun k => by rw [mapView_getElem?]; rfl

namespace Rebuild

variable (actor : ActorId) (stamp : Nat → SharedTimestamp)

/-! ## §2. Sections and what they leave alone. -/

/-- What a rebuild writes into each map; the playlist is pushed entry by entry. -/
def writtenMap (view : StateView) : (f : MapField) → MapView f
  | .playlist => ∅
  | .watched => view.watched.filter fun _ watched => (watched : Bool)
  | .seriesPreference => view.seriesPreference
  | .manualOverride => view.manualOverride
  | .fileAvailability => view.fileAvailability
  | .anidbMetadata => view.anidbMetadata
  | .seriesRelations => view.seriesRelations
  | .fileCatalog => view.fileCatalog
  | .listEntries => view.listEntries
  | .listNextEp => view.listNextEp
  | .playbackPosition => view.playbackPosition
  | .savedPosition => view.savedPosition.filter fun _ (millis : Nat) => decide (0 < millis)

def writtenReg (view : StateView) : (r : RegField) → Option r.Val
  | .nowPlaying => some view.nowPlaying
  | .seekAuthority => view.seekAuthority
  | .playbackIntent => some view.playbackIntent
  | .marquee => none

def pushAll (b : Rebuild) (entries : List PlaylistEntry) : Rebuild :=
  entries.foldl (fun b entry => b.push actor stamp entry) b

def writeMaps (view : StateView) (b : Rebuild) (fields : List MapField) : Rebuild :=
  fields.foldl (fun b f => b.writeMap actor stamp f (writtenMap view f)) b

def writeReg (view : StateView) (b : Rebuild) (r : RegField) : Rebuild :=
  match writtenReg view r with
  | some value => b.write actor stamp (.reg r value)
  | none => b

def writeRegs (view : StateView) (b : Rebuild) (fields : List RegField) : Rebuild :=
  fields.foldl (writeReg actor stamp view) b

def chatAll (b : Rebuild) (messages : List ChatMessage) : Rebuild :=
  messages.foldl (fun b m => b.chat actor m) b

def middleMaps : List MapField :=
  [.seriesPreference, .manualOverride, .fileAvailability, .anidbMetadata, .seriesRelations,
    .fileCatalog, .listEntries, .listNextEp]

theorem rebuildRun_eq (view : StateView) (chatKeep : Nat) :
    rebuildRun view actor chatKeep stamp =
      writeMaps actor stamp view
        (chatAll actor
          (writeMaps actor stamp view
            (writeRegs actor stamp view
              (writeMaps actor stamp view (pushAll actor stamp ⟨.new, 0⟩ view.playlist) [.watched])
              [.nowPlaying, .seekAuthority, .playbackIntent])
            middleMaps)
          (view.chat.reverse.take chatKeep).reverse)
        [.playbackPosition, .savedPosition] := by
  -- The two agree by computation once it is known whether an authority is written.
  obtain ⟨_, _, _, _, _ | _⟩ := view <;> rfl

/-- The two states differ at most in map `f`. -/
structure OnlyMap (f : MapField) (b b' : Rebuild) : Prop where
  maps : ∀ g, g ≠ f → b'.fresh.maps g = b.fresh.maps g
  regs : b'.fresh.regs = b.fresh.regs
  sets : b'.fresh.sets = b.fresh.sets
  chat : b'.fresh.chat = b.fresh.chat

theorem OnlyMap.refl (f : MapField) (b : Rebuild) : OnlyMap f b b :=
  ⟨fun _ _ => rfl, rfl, rfl, rfl⟩

variable {f g : MapField} {b : Rebuild}

theorem OnlyMap.write {b' : Rebuild} (h : OnlyMap f b b') (key : f.Key) (value : f.Val) :
    OnlyMap f b (b'.write actor stamp (.map f key value)) :=
  ⟨fun g hg => (update_of_ne hg _ _).trans (h.maps g hg), h.regs, h.sets, h.chat⟩

theorem writeMap_onlyMap (b : Rebuild) (f : MapField) (view : MapView f) :
    OnlyMap f b (b.writeMap actor stamp f view) :=
  foldl_invariant view _ (OnlyMap.refl f b) fun _ key value _ h => h.write actor stamp key value

theorem pushAll_onlyMap (b : Rebuild) (entries : List PlaylistEntry) :
    OnlyMap .playlist b (b.pushAll actor stamp entries) := by
  unfold pushAll
  induction entries using reverseRecOn with
  | nil => exact OnlyMap.refl _ b
  | append_singleton entries entry ih =>
    rw [foldl_append]
    exact ih.write actor stamp entry.hash (some _)

theorem writeMaps_rest (view : StateView) (b : Rebuild) (fields : List MapField) :
    (b.writeMaps actor stamp view fields).fresh.regs = b.fresh.regs
      ∧ (b.writeMaps actor stamp view fields).fresh.sets = b.fresh.sets
      ∧ (b.writeMaps actor stamp view fields).fresh.chat = b.fresh.chat := by
  unfold writeMaps
  induction fields generalizing b with
  | nil => exact ⟨rfl, rfl, rfl⟩
  | cons f fields ih =>
    obtain ⟨-, hregs, hsets, hchat⟩ := b.writeMap_onlyMap actor stamp f (writtenMap view f)
    obtain ⟨ihregs, ihsets, ihchat⟩ := ih (b.writeMap actor stamp f (writtenMap view f))
    exact ⟨ihregs.trans hregs, ihsets.trans hsets, ihchat.trans hchat⟩

theorem writeMaps_of_not_mem (view : StateView) (b : Rebuild) {fields : List MapField}
    (hg : g ∉ fields) : (b.writeMaps actor stamp view fields).fresh.maps g = b.fresh.maps g := by
  unfold writeMaps
  induction fields generalizing b with
  | nil => rfl
  | cons f fields ih =>
    rw [mem_cons, not_or] at hg
    exact (ih _ hg.2).trans ((b.writeMap_onlyMap actor stamp f _).maps g hg.1)

theorem writeRegs_rest (view : StateView) (b : Rebuild) (fields : List RegField) :
    (b.writeRegs actor stamp view fields).fresh.maps = b.fresh.maps
      ∧ (b.writeRegs actor stamp view fields).fresh.sets = b.fresh.sets
      ∧ (b.writeRegs actor stamp view fields).fresh.chat = b.fresh.chat := by
  unfold writeRegs
  induction fields generalizing b with
  | nil => exact ⟨rfl, rfl, rfl⟩
  | cons r fields ih =>
    rw [foldl_cons]
    obtain ⟨hmaps, hsets, hchat⟩ := ih (writeReg actor stamp view b r)
    rw [hmaps, hsets, hchat]
    unfold writeReg
    split <;> exact ⟨rfl, rfl, rfl⟩

theorem chatAll_rest (b : Rebuild) (messages : List ChatMessage) :
    (b.chatAll actor messages).fresh.maps = b.fresh.maps
      ∧ (b.chatAll actor messages).fresh.regs = b.fresh.regs
      ∧ (b.chatAll actor messages).fresh.sets = b.fresh.sets := by
  unfold chatAll
  induction messages using reverseRecOn with
  | nil => exact ⟨rfl, rfl, rfl⟩
  | append_singleton messages message ih =>
    rw [foldl_append]
    exact ih

/-! ## §3. What each section shows. -/

theorem writes_view (f : MapField) {l : List (f.Key × f.Val)} (hdistinct : DistinctKeys l)
    (hd : (b.fresh.maps f).deferred = []) (hnew : ∀ e ∈ l, (mapView (b.fresh.maps f))[e.1]? = none)
    (k : f.Key) : let b' := l.foldl (fun b e => b.write actor stamp (.map f e.1 e.2)) b
    (∀ v, (k, v) ∈ l → (mapView (b'.fresh.maps f))[k]? = some v)
      ∧ ((∀ v, (k, v) ∉ l) →
          (mapView (b'.fresh.maps f))[k]? = (mapView (b.fresh.maps f))[k]?) := by
  induction l generalizing b with
  | nil => exact ⟨fun v hv => absurd hv not_mem_nil, fun _ => rfl⟩
  | cons e l ih =>
    obtain ⟨hfirst, hrest⟩ := pairwise_cons.mp hdistinct
    have hmaps : (b.write actor stamp (.map f e.1 e.2)).fresh.maps f
        = (b.fresh.maps f).apply ((b.fresh.maps f).update e.1 actor ⟨stamp b.taken, e.2⟩) :=
      update_self ..
    have hview : mapView ((b.write actor stamp (.map f e.1 e.2)).fresh.maps f)
        = (mapView (b.fresh.maps f)).insert e.1 e.2 := by
      rw [hmaps]
      exact mapView_update hd (hnew e mem_cons_self) actor _
    obtain ⟨hin, hout⟩ := ih hrest (b := b.write actor stamp (.map f e.1 e.2))
      (by rw [hmaps]; exact Map.apply_up_deferred hd _ _ _)
      (fun e' he' => by
        rw [hview, getElem?_insert, if_neg (Ne.symm (hfirst e' he'))]
        exact hnew e' (mem_cons_of_mem _ he'))
    refine ⟨fun v hv => ?_, fun hnone => ?_⟩
    · cases mem_cons.mp hv with
      | inl heq =>
        -- the rest does not write this key again
        subst heq
        refine (hout fun w hw => hfirst _ hw rfl).trans ?_
        rw [hview, getElem?_insert, if_pos rfl]
      | inr hmem => exact hin v hmem
    · refine (hout fun w hw => hnone w (mem_cons_of_mem _ hw)).trans ?_
      have hk : k ≠ e.1 := fun heq => hnone e.2 (by rw [heq]; exact mem_cons_self)
      rw [hview, getElem?_insert, if_neg hk]

/-- **A map written key by key** resolves to what was written. -/
theorem writeMap_view (hnew : b.fresh.maps f = Map.new) (view : MapView f) :
    mapView ((b.writeMap actor stamp f view).fresh.maps f) = view := by
  refine map_ext fun k => ?_
  have hdistinct : DistinctKeys view.toList :=
    view.distinct_keys_toList.imp fun hne heq => hne (compare_eq_iff_eq.mpr heq)
  obtain ⟨hin, hout⟩ := writes_view actor stamp f hdistinct (b := b) (by rw [hnew]; rfl)
    (fun e _ => by rw [hnew, mapView_new]; exact Std.ExtTreeMap.getElem?_empty) k
  unfold writeMap
  rw [Std.ExtTreeMap.foldl_eq_foldl_toList]
  cases hk : view[k]? with
  | some v => exact hin v (Std.ExtTreeMap.mem_toList_iff_getElem?_eq_some.mpr hk)
  | none =>
    refine (hout fun v hv => ?_).trans ?_
    · rw [Std.ExtTreeMap.mem_toList_iff_getElem?_eq_some, hk] at hv
      cases hv
    · rw [hnew, mapView_new]
      exact Std.ExtTreeMap.getElem?_empty

theorem writeMaps_view (view : StateView) {fields : List MapField} (hnodup : fields.Nodup)
    (hg : g ∈ fields) (hnew : b.fresh.maps g = Map.new) :
    mapView ((b.writeMaps actor stamp view fields).fresh.maps g) = writtenMap view g := by
  induction fields generalizing b with
  | nil => exact absurd hg not_mem_nil
  | cons f fields ih =>
    obtain ⟨hfirst, hrest⟩ := nodup_cons.mp hnodup
    by_cases heq : g = f
    · subst heq
      have hlater := writeMaps_of_not_mem actor stamp view
        (b.writeMap actor stamp g (writtenMap view g)) hfirst
      exact (congrArg mapView hlater).trans (writeMap_view actor stamp hnew _)
    · refine ih hrest ((mem_cons.mp hg).resolve_left heq) ?_
      exact ((b.writeMap_onlyMap actor stamp f _).maps g heq).trans hnew

variable {r : RegField}

theorem writeReg_ne (view : StateView) (b : Rebuild) {r' : RegField} (h : r' ≠ r) :
    (b.writeReg actor stamp view r).fresh.regs r' = b.fresh.regs r' := by
  unfold writeReg
  split
  · exact update_of_ne h _ _
  · rfl

theorem writeReg_self (view : StateView) (hnew : b.fresh.regs r = .new) :
    (b.writeReg actor stamp view r).fresh.regs r
      = ⟨(writtenReg view r).map fun value => ⟨stamp b.taken, value⟩⟩ := by
  unfold writeReg
  cases writtenReg view r with
  | none => exact hnew
  | some value =>
    show update b.fresh.regs r ((b.fresh.regs r).apply ⟨stamp b.taken, value⟩) r = _
    rw [update_self, hnew]
    rfl

theorem writeRegs_of_not_mem (view : StateView) (b : Rebuild) {fields : List RegField}
    (hr : r ∉ fields) : (b.writeRegs actor stamp view fields).fresh.regs r = b.fresh.regs r := by
  unfold writeRegs
  induction fields generalizing b with
  | nil => rfl
  | cons r' fields ih =>
    rw [mem_cons, not_or] at hr
    exact (ih _ hr.2).trans (writeReg_ne actor stamp view b hr.1)

theorem writeRegs_view (view : StateView) {fields : List RegField}
    (hnodup : fields.Nodup) (hr : r ∈ fields) (hnew : b.fresh.regs r = .new) :
    ∃ i, (b.writeRegs actor stamp view fields).fresh.regs r
      = ⟨(writtenReg view r).map fun value => ⟨stamp i, value⟩⟩ := by
  induction fields generalizing b with
  | nil => exact absurd hr not_mem_nil
  | cons r' fields ih =>
    obtain ⟨hfirst, hrest⟩ := nodup_cons.mp hnodup
    by_cases heq : r = r'
    · subst heq
      have hlater := writeRegs_of_not_mem actor stamp view (b.writeReg actor stamp view r) hfirst
      exact ⟨b.taken, hlater.trans (writeReg_self actor stamp view hnew)⟩
    · refine ih hrest ((mem_cons.mp hr).resolve_left heq) ?_
      exact (writeReg_ne actor stamp view b heq).trans hnew

def rebalanced (entries : List PlaylistEntry) : List PlaylistEntry :=
  entries.zipIdx.map fun e =>
    ⟨e.1.hash, { e.1.state with position := Identifier.flat e.2 actor }⟩

theorem rebalanced_snoc (entries : List PlaylistEntry) (entry : PlaylistEntry) :
    rebalanced actor (entries ++ [entry]) = rebalanced actor entries ++
      [⟨entry.hash, { entry.state with position := Identifier.flat entries.length actor }⟩] := by
  unfold rebalanced
  rw [zipIdx_append, map_append]
  simp

theorem rebalanced_pairwise (entries : List PlaylistEntry) :
    (rebalanced actor entries).Pairwise
      fun a b => playlistKey a < playlistKey b := by
  unfold rebalanced
  rw [pairwise_map, pairwise_iff_getElem]
  intro i j hi hj hij
  rw [getElem_zipIdx, getElem_zipIdx]
  exact Prod.Lex.toLex_lt_toLex.mpr (.inl (Identifier.flat_lt_flat (by omega) _ _))

theorem map_hash_rebalanced (entries : List PlaylistEntry) :
    (rebalanced actor entries).map (·.hash) = entries.map (·.hash) := by
  unfold rebalanced
  rw [map_map]
  exact (map_map (g := (·.hash)) (f := Prod.fst) (l := entries.zipIdx)).symm.trans
    (congrArg _ (zipIdx_map_fst 0 entries))

theorem between_last_rebalanced (entries : List PlaylistEntry) :
    Identifier.between ((rebalanced actor entries).getLast?.map (·.state.position)) none actor
      = .flat entries.length actor := by
  induction entries using reverseRecOn with
  | nil => exact Identifier.between_none_none actor
  | append_singleton entries entry _ =>
    rw [rebalanced_snoc, getLast?_concat, length_append]
    exact Identifier.between_flat_none entries.length actor actor

section Pushes

/-- The order of the playlist's values: a tombstone is below every entry. -/
local instance : LinearOrder (Option PlaylistFileState) := optionOrder PlaylistFileState

theorem push_shows {b : Rebuild} {entries : List PlaylistEntry} {entry : PlaylistEntry}
    (hd : b.fresh.playlistMap.deferred = [])
    (hshows : b.fresh.playlistEntries = rebalanced actor entries)
    (hnew : (mapView b.fresh.playlistMap)[entry.hash]? = none) :
    (b.push actor stamp entry).fresh.playlistEntries = rebalanced actor (entries ++ [entry])
      ∧ mapView (b.push actor stamp entry).fresh.playlistMap
          = (mapView b.fresh.playlistMap).insert entry.hash
              (some { entry.state with position := Identifier.flat entries.length actor }) := by
  have hlisted : b.fresh.listed? entry.hash = none := by
    unfold listed?
    rw [hnew]
    rfl
  have hposition : b.fresh.positionAfter (b.fresh.playlistEntries.getLast?.map (·.hash))
      entry.hash actor = .flat entries.length actor := by
    rw [positionAfter_last hlisted, hshows, between_last_rebalanced]
  have hmap : (b.push actor stamp entry).fresh.playlistMap
      = b.fresh.playlistMap.apply (b.fresh.playlistMap.update entry.hash actor
          ⟨stamp b.taken, some { entry.state with
            position := Identifier.flat entries.length actor }⟩) := by
    rw [← hposition]
    exact update_self (β := fun f => LwwMap f.Key f.Val) MapField.playlist _ b.fresh.maps
  have hview := mapView_update hd hnew actor
    ⟨stamp b.taken, some { entry.state with position := Identifier.flat entries.length actor }⟩
  rw [← hmap] at hview
  refine ⟨playlistEntries_eq (rebalanced_pairwise actor _) fun e => ?_, hview⟩
  unfold listed?
  rw [hview, getElem?_insert, rebalanced_snoc, mem_append, ← hshows,
    mem_playlistEntries, mem_singleton]
  by_cases he : e.hash = entry.hash
  · rw [if_pos he, he, hlisted]
    obtain ⟨hash, state⟩ := e
    cases he
    simp [eq_comm]
  · rw [if_neg he]
    refine or_iff_left fun heq => he ?_
    rw [heq]

/-- **Pushed entries** come out in the order they were pushed. -/
theorem pushAll_shows {b : Rebuild} (hnew : b.fresh.playlistMap = Map.new)
    {entries : List PlaylistEntry} (hnodup : (entries.map (·.hash)).Nodup) :
    (b.pushAll actor stamp entries).fresh.playlistEntries = rebalanced actor entries
      ∧ (b.pushAll actor stamp entries).fresh.playlistMap.deferred = []
      ∧ ∀ hash, hash ∉ entries.map (·.hash) →
          (mapView (b.pushAll actor stamp entries).fresh.playlistMap)[hash]? = none := by
  induction entries using reverseRecOn with
  | nil =>
    have hempty : ∀ hash : Ed2kHash, (mapView b.fresh.playlistMap)[hash]? = none := fun hash => by
      rw [hnew, mapView_new]
      exact Std.ExtTreeMap.getElem?_empty
    refine ⟨playlistEntries_eq .nil fun e => ?_, ?_, fun hash _ => hempty hash⟩
    · show e ∈ [] ↔ (mapView b.fresh.playlistMap)[e.hash]?.join = _
      rw [hempty]
      simp
    · show b.fresh.playlistMap.deferred = []
      rw [hnew]
      rfl
  | append_singleton entries entry ih =>
    rw [map_append, nodup_append] at hnodup
    obtain ⟨hshows, hd, hnone⟩ := ih hnodup.1
    have hentry : entry.hash ∉ entries.map (·.hash) := fun hmem =>
      hnodup.2.2 _ hmem _ (mem_singleton_self _) rfl
    have hstep : b.pushAll actor stamp (entries ++ [entry])
        = (b.pushAll actor stamp entries).push actor stamp entry := by
      unfold pushAll
      rw [foldl_append]
      rfl
    obtain ⟨hafter, hview⟩ := push_shows actor stamp hd hshows (hnone _ hentry)
    rw [hstep]
    refine ⟨hafter, Map.apply_up_deferred hd _ _ _, fun hash hhash => ?_⟩
    rw [map_append, mem_append, not_or] at hhash
    have hne : hash ≠ entry.hash := fun heq => hhash.2 (heq ▸ mem_singleton_self _)
    rw [hview, getElem?_insert, if_neg hne]
    exact hnone hash hhash.1

end Pushes

/-- **Appended messages** are read back in order. -/
theorem chatAll_toList (hnew : b.fresh.chat = .new) (messages : List ChatMessage) :
    (b.chatAll actor messages).fresh.chat.list.toList = GList.flats messages := by
  unfold chatAll
  induction messages using reverseRecOn with
  | nil =>
    show b.fresh.chat.list.toList = []
    rw [hnew]
    rfl
  | append_singleton messages message ih =>
    rw [foldl_append]
    exact GList.toList_append ih message

/-! ## §4. The rebuilt state. -/

section Result

variable (view : StateView) (chatKeep : Nat)

theorem mapView_rebuildRun {f : MapField} (hf : f ≠ .playlist) :
    mapView ((rebuildRun view actor chatKeep stamp).fresh.maps f) = writtenMap view f := by
  -- The maps of `f` before the section that writes it are the empty ones of `pushAll`.
  have hpushed : (pushAll actor stamp ⟨.new, 0⟩ view.playlist).fresh.maps f = Map.new :=
    (pushAll_onlyMap actor stamp ⟨.new, 0⟩ view.playlist).maps f hf
  rw [rebuildRun_eq]
  by_cases hlast : f ∈ [MapField.playbackPosition, MapField.savedPosition]
  · have hmiddle : f ∉ middleMaps ∧ f ∉ [MapField.watched] := by
      revert hlast
      cases f <;> decide
    refine writeMaps_view actor stamp view (by decide) hlast ?_
    rw [(chatAll_rest ..).1, writeMaps_of_not_mem _ _ _ _ hmiddle.1, (writeRegs_rest ..).1,
      writeMaps_of_not_mem _ _ _ _ hmiddle.2, hpushed]
  · rw [writeMaps_of_not_mem _ _ _ _ hlast, (chatAll_rest ..).1]
    by_cases hmiddle : f ∈ middleMaps
    · have hwatched : f ∉ [MapField.watched] := by
        revert hmiddle
        cases f <;> decide
      refine writeMaps_view actor stamp view (by decide) hmiddle ?_
      rw [(writeRegs_rest ..).1, writeMaps_of_not_mem _ _ _ _ hwatched, hpushed]
    · rw [writeMaps_of_not_mem _ _ _ _ hmiddle, (writeRegs_rest ..).1]
      have hwatched : f ∈ [MapField.watched] := by
        revert hmiddle hlast hf
        cases f <;> decide
      exact writeMaps_view actor stamp view (by decide) hwatched hpushed

theorem playlistEntries_rebuildRun (hnodup : (view.playlist.map (·.hash)).Nodup) :
    (rebuildRun view actor chatKeep stamp).fresh.playlistEntries
      = rebalanced actor view.playlist := by
  have hmap : (rebuildRun view actor chatKeep stamp).fresh.maps .playlist
      = (pushAll actor stamp ⟨.new, 0⟩ view.playlist).fresh.maps .playlist := by
    rw [rebuildRun_eq, writeMaps_of_not_mem _ _ _ _ (by decide), (chatAll_rest ..).1,
      writeMaps_of_not_mem _ _ _ _ (by decide), (writeRegs_rest ..).1,
      writeMaps_of_not_mem _ _ _ _ (by decide)]
  rw [← (pushAll_shows actor stamp (b := ⟨.new, 0⟩) rfl hnodup).1]
  unfold playlistEntries
  rw [hmap]

theorem regs_rebuildRun (r : RegField) :
    ∃ i, (rebuildRun view actor chatKeep stamp).fresh.regs r
      = ⟨(writtenReg view r).map fun value => ⟨stamp i, value⟩⟩ := by
  have hnew : (writeMaps actor stamp view (pushAll actor stamp ⟨.new, 0⟩ view.playlist)
      [.watched]).fresh.regs r = .new := by
    rw [(writeMaps_rest ..).1, (pushAll_onlyMap ..).regs]
    rfl
  rw [rebuildRun_eq, (writeMaps_rest ..).1, (chatAll_rest ..).2.1, (writeMaps_rest ..).1]
  by_cases hr : r ∈ [RegField.nowPlaying, RegField.seekAuthority, RegField.playbackIntent]
  · exact writeRegs_view actor stamp view (by decide) hr hnew
  · refine ⟨0, (writeRegs_of_not_mem _ _ _ _ hr).trans (hnew.trans ?_)⟩
    have hmarquee : r = .marquee := by
      revert hr
      cases r <;> decide
    subst hmarquee
    rfl

theorem sets_rebuildRun : (rebuildRun view actor chatKeep stamp).fresh.sets = fun _ => .new := by
  rw [rebuildRun_eq, (writeMaps_rest ..).2.1, (chatAll_rest ..).2.2, (writeMaps_rest ..).2.1,
    (writeRegs_rest ..).2.1, (writeMaps_rest ..).2.1, (pushAll_onlyMap ..).sets]
  rfl

theorem chat_rebuildRun :
    (rebuildRun view actor chatKeep stamp).fresh.chat.read?
      = some (view.chat.drop (view.chat.length - chatKeep)) := by
  have hnew : (writeMaps actor stamp view (writeRegs actor stamp view (writeMaps actor stamp view
      (pushAll actor stamp ⟨.new, 0⟩ view.playlist) [.watched])
      [.nowPlaying, .seekAuthority, .playbackIntent]) middleMaps).fresh.chat = .new := by
    rw [(writeMaps_rest ..).2.2, (writeRegs_rest ..).2.2, (writeMaps_rest ..).2.2,
      (pushAll_onlyMap ..).chat]
    rfl
  rw [rebuildRun_eq, (writeMaps_rest ..).2.2, GList.read_flats (chatAll_toList actor hnew _),
    take_reverse, reverse_reverse]

end Result

end Rebuild

end DessPlay.Core
