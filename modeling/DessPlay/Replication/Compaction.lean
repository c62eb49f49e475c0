/-
  DessPlay.Replication.Compaction
  **COMPACTION KEEPS WHAT THE GROUP SEES.**

  The daily compaction throws the replicated state away and rebuilds its resolved
  view under the server's actor.  The view of the result is the old view up to a
  fixed list of reductions (`compacted`); and since the clocks of the new state know
  only the rebuilding actor, everybody else's counters start over.
-/
import DessPlay.Core.Rebuilt
import DessPlay.Core.Covers
import DessPlay.Replication.Merge

namespace DessPlay.Replication

open BTree Crdts DessPlay.Core Option CrdtState
open List hiding getElem?_filter getElem?_insert

/-! ## §1. The view of a rebuilt state. -/

def compacted (view : StateView) (actor : ActorId) (chatKeep : Nat) (since : SharedTimestamp) :
    StateView :=
  { view with
    playlist := Rebuild.rebalanced actor view.playlist
    watched := view.watched.filter fun _ watched => (watched : Bool)
    nowPlayingSince := some since
    lookupRequests := ∅
    chat := view.chat.drop (view.chat.length - chatKeep)
    acknowledgedAbsent := ∅
    marquee := none
    savedPosition := view.savedPosition.filter fun _ (millis : Nat) => decide (0 < millis) }

def unpositioned (entry : PlaylistEntry) : Ed2kHash × UserId × String × Nat × Option ℕ+ :=
  (entry.hash, entry.state.addedBy, entry.state.filename, entry.state.sizeBytes,
    entry.state.durationMillis)

theorem unpositioned_rebalanced (actor : ActorId) (entries : List PlaylistEntry) :
    (Rebuild.rebalanced actor entries).map unpositioned = entries.map unpositioned := by
  induction entries using reverseRecOn with
  | nil => rfl
  | append_singleton entries entry ih =>
    rw [Rebuild.rebalanced_snoc, map_append, map_append, ih]
    rfl

/-- **The rebuilt view.** -/
theorem view_rebuild {view : StateView} (hnodup : (view.playlist.map (·.hash)).Nodup)
    (actor : ActorId) (chatKeep : Nat) (stamp : Nat → SharedTimestamp) :
    ∃ i, (rebuild view actor chatKeep stamp).view?
      = some (compacted view actor chatKeep (stamp i)) := by
  have hmap : ∀ f, f ≠ MapField.playlist →
      mapView ((rebuild view actor chatKeep stamp).maps f) = Rebuild.writtenMap view f :=
    fun f hf => Rebuild.mapView_rebuildRun actor stamp view chatKeep hf
  have hsets : (rebuild view actor chatKeep stamp).sets = fun _ => .new :=
    Rebuild.sets_rebuildRun actor stamp view chatKeep
  have hchat : (rebuild view actor chatKeep stamp).chat.read?
      = some (view.chat.drop (view.chat.length - chatKeep)) :=
    Rebuild.chat_rebuildRun actor stamp view chatKeep
  have hlist : (rebuild view actor chatKeep stamp).playlistEntries
      = Rebuild.rebalanced actor view.playlist :=
    Rebuild.playlistEntries_rebuildRun actor stamp view chatKeep hnodup
  have hreg : ∀ r, ∃ i, (rebuild view actor chatKeep stamp).regs r
      = ⟨(Rebuild.writtenReg view r).map fun value => ⟨stamp i, value⟩⟩ :=
    Rebuild.regs_rebuildRun actor stamp view chatKeep
  obtain ⟨i, hnow⟩ := hreg .nowPlaying
  obtain ⟨_, hauthority⟩ := hreg .seekAuthority
  obtain ⟨_, hintent⟩ := hreg .playbackIntent
  obtain ⟨_, hmarquee⟩ := hreg .marquee
  refine ⟨i, ?_⟩
  unfold view? compacted
  rw [hchat, map_some, hlist, hsets, hnow, hauthority, hintent, hmarquee]
  refine congrArg some (Eq.mpr (StateView.mk.injEq ..) ?_)
  exact ⟨rfl, hmap .watched (by decide), rfl, rfl, LwwCell.value_stamped _ _, rfl,
    hmap .seriesPreference (by decide),
    hmap .manualOverride (by decide), hmap .fileAvailability (by decide),
    hmap .anidbMetadata (by decide), hmap .seriesRelations (by decide),
    hmap .fileCatalog (by decide), hmap .listEntries (by decide), hmap .listNextEp (by decide),
    rfl, rfl, hmap .playbackPosition (by decide), rfl, rfl, hmap .savedPosition (by decide)⟩

/-! ## §2. Doing it again. -/

theorem rebalanced_rebalanced (actor : ActorId) (entries : List PlaylistEntry) :
    Rebuild.rebalanced actor (Rebuild.rebalanced actor entries)
      = Rebuild.rebalanced actor entries := by
  induction entries using reverseRecOn with
  | nil => rfl
  | append_singleton entries entry ih =>
    have hlength : (Rebuild.rebalanced actor entries).length = entries.length := by
      simp [Rebuild.rebalanced]
    rw [Rebuild.rebalanced_snoc, Rebuild.rebalanced_snoc, ih, hlength]

theorem filter_filter_self {K V : Type} [LinearOrder K] (m : BTreeMap K V) (p : K → V → Bool) :
    (m.filter p).filter p = m.filter p := by
  refine map_ext fun k => ?_
  rw [getElem?_filter, getElem?_filter]
  cases m[k]? with
  | none => rfl
  | some v => cases h : p k v <;> simp [Option.filter, h]

theorem compacted_compacted (view : StateView) (actor : ActorId) (chatKeep : Nat)
    (since since' : SharedTimestamp) :
    compacted (compacted view actor chatKeep since) actor chatKeep since'
      = { compacted view actor chatKeep since with nowPlayingSince := some since' } := by
  have hchat : (view.chat.drop (view.chat.length - chatKeep)).drop
      ((view.chat.drop (view.chat.length - chatKeep)).length - chatKeep)
      = view.chat.drop (view.chat.length - chatKeep) := by
    have hshort : (view.chat.drop (view.chat.length - chatKeep)).length - chatKeep = 0 := by
      rw [length_drop]
      omega
    rw [hshort, drop_zero]
  exact Eq.mpr (StateView.mk.injEq ..) ⟨rebalanced_rebalanced _ _, filter_filter_self _ _, rfl, rfl,
    rfl, rfl, rfl, rfl, rfl, rfl, rfl, rfl, rfl, rfl, rfl, hchat, rfl, rfl, rfl,
    filter_filter_self _ _⟩

/-! ## §3. Clocks start over. -/

/-- No clock of the state knows anybody but `actor`. -/
structure SoleActor (s : CrdtState) (actor : ActorId) : Prop where
  noDeferred : s.NoDeferred
  clock : ∀ f a, a ≠ actor → (s.maps f).clock.dots[a]? = none
  entries : ∀ f (key : f.Key) (entry : Entry (LwwCell f.Val) ActorId),
    (s.maps f).entries[key]? = some entry → ∀ a, a ≠ actor → entry.clock.dots[a]? = none

theorem SoleActor.new (actor : ActorId) : SoleActor .new actor where
  noDeferred _ := rfl
  clock _ a _ := VClock.dots_new a
  entries f key entry h := by
    have hnone : (CrdtState.new.maps f).entries[key]? = none := Std.ExtTreeMap.getElem?_empty
    rw [hnone] at h
    cases h

theorem dots_apply_ne {c : VClock ActorId} {d : Dot ActorId} {a : ActorId} (h : a ≠ d.actor) :
    (c.apply d).dots[a]? = c.dots[a]? := by
  rw [VClock.dots_apply]
  simp [h]

theorem SoleActor.put {s : CrdtState} {actor : ActorId} (h : SoleActor s actor)
    (ts : SharedTimestamp) (w : Write) : SoleActor (s.put actor ts w).1 actor := by
  cases w with
  | reg r value => exact { h with }
  | set g x => exact { h with }
  | chat message => exact { h with }
  | map f key value =>
    have happly : (s.maps f).apply (.up ((s.maps f).clock.inc actor) key ⟨ts, value⟩) = _ :=
      Map.apply_new (h.noDeferred f) (Nat.lt_succ_self _)
    have hself : ((s.put actor ts (.map f key value)).1).maps f
        = (s.maps f).apply ((s.maps f).update key actor ⟨ts, value⟩) := Function.update_self ..
    have hother : ∀ g, g ≠ f → ((s.put actor ts (.map f key value)).1).maps g = s.maps g :=
      fun g hg => Function.update_of_ne hg _ _
    unfold Map.update at hself
    rw [happly] at hself
    refine ⟨fun g => ?_, fun g a ha => ?_, fun g k entry hentry a ha => ?_⟩
    · by_cases hg : g = f
      · subst hg
        rw [hself]
        exact h.noDeferred g
      · rw [hother g hg]
        exact h.noDeferred g
    · by_cases hg : g = f
      · subst hg
        rw [hself]
        exact (dots_apply_ne ha).trans (h.clock g a ha)
      · rw [hother g hg]
        exact h.clock g a ha
    · by_cases hg : g = f
      · subst hg
        rw [hself, getElem?_insert] at hentry
        split at hentry
        next hk =>
          cases hentry
          refine (dots_apply_ne ha).trans ?_
          cases hold : (s.maps g).entries[key]? with
          | none => exact VClock.dots_new a
          | some old => exact h.entries g key old hold a ha
        · exact h.entries g k entry hentry a ha
      · rw [hother g hg] at hentry
        exact h.entries g k entry hentry a ha

theorem soleActor_rebuild (view : StateView) (actor : ActorId) (chatKeep : Nat)
    (stamp : Nat → SharedTimestamp) : SoleActor (rebuild view actor chatKeep stamp) actor :=
  rebuildRun_induct (P := fun b => SoleActor b.fresh actor) (SoleActor.new actor)
    (fun b w hb => hb.put (stamp b.taken) w) (fun _ m hb => hb.put 0 (.chat m)) view chatKeep

theorem SoleActor.takes {s : CrdtState} {actor : ActorId} (h : SoleActor s actor)
    {pre post : List CrdtOp} {f : MapField} {u : LwwUpdate f.Key f.Val} (hu : u.dot.actor ≠ actor)
    (hcounters : countersOf f u.dot.actor (pre ++ .up f u :: post)
      = range' 1 (countersOf f u.dot.actor (pre ++ .up f u :: post)).length) :
    (pre.foldl apply s).Takes (.up f u) := by
  have hsplit : countersOf f u.dot.actor (pre ++ .up f u :: post)
      = countersOf f u.dot.actor pre ++ u.dot.counter :: countersOf f u.dot.actor post := by
    rw [countersOf_append, ← singleton_append, countersOf_append, countersOf_up]
    rfl
  have hsorted : (countersOf f u.dot.actor pre ++ u.dot.counter ::
      countersOf f u.dot.actor post).Pairwise (· < ·) := by
    rw [← hsplit, hcounters]
    exact pairwise_lt_range'
  have hpos : 1 ≤ u.dot.counter := by
    have hmem : u.dot.counter ∈ countersOf f u.dot.actor (pre ++ .up f u :: post) := by
      rw [hsplit]
      exact mem_append_right _ mem_cons_self
    rw [hcounters, mem_range'_1] at hmem
    exact hmem.1
  have hbase : s.Takes (.up f u) := by
    show (s.maps f).clock.get u.dot.actor < u.dot.counter
    rw [VClock.get_of_dots_none (h.clock f u.dot.actor hu)]
    exact hpos
  refine hbase.foldl_apply fun o ho g d d' hd hd' hactor => ?_
  cases hd
  have hmem : d'.counter ∈ countersOf f u.dot.actor pre :=
    mem_filterMap.mpr ⟨o, ho, by rw [hd']; simp [hactor]⟩
  exact (pairwise_append.mp hsorted).2.2 _ hmem _ mem_cons_self

theorem entry_of_takes {s : CrdtState} (h : s.NoDeferred) {f : MapField}
    {u : LwwUpdate f.Key f.Val} (htakes : s.Takes (.up f u)) :
    ∃ entry : Entry (LwwCell f.Val) ActorId,
      ((s.apply (.up f u)).maps f).entries[u.key]? = some entry ∧ .single u.op ≤ entry.val := by
  have hself : (s.apply (.up f u)).maps f = (s.maps f).apply u.toOp := Function.update_self ..
  rw [hself, Update.toOp, Map.apply_new (h f) htakes, getElem?_insert, if_pos rfl]
  refine ⟨_, rfl, ?_⟩
  show LwwCell.single u.op ≤ LwwCell.apply _ u.op
  rw [LwwCell.apply_eq_sup]
  exact le_sup_right

/-! ## §4. The result. -/

/-- **Compaction preserves meaning**, for every state that has a view and every source
of stamps. -/
theorem compaction_preserves_meaning {s : CrdtState} {view : StateView}
    (hview : s.view? = some view) (actor : ActorId) (chatKeep : Nat)
    (stamp : Nat → SharedTimestamp) :
    ∃ i, (rebuild view actor chatKeep stamp).view?
          = some (compacted view actor chatKeep (stamp i))
      -- the playlist is the old one but for the positions
      ∧ (compacted view actor chatKeep (stamp i)).playlist.map unpositioned
          = view.playlist.map unpositioned
      -- once more changes nothing but the moment of the now-playing write
      ∧ (∀ stamp' : Nat → SharedTimestamp, ∃ j,
          (rebuild (compacted view actor chatKeep (stamp i)) actor chatKeep stamp').view?
            = some { compacted view actor chatKeep (stamp i) with
                nowPlayingSince := some (stamp' j) })
      -- no clock mentions anybody else
      ∧ SoleActor (rebuild view actor chatKeep stamp) actor
      -- so the others' updates, counted from 1, are applied
      ∧ ∀ ops : List CrdtOp, (∀ op ∈ ops, op.IsPut) →
          (∀ f a, a ≠ actor → countersOf f a ops = range' 1 (countersOf f a ops).length) →
          ∀ (pre post : List CrdtOp) (f : MapField) (u : LwwUpdate f.Key f.Val),
            ops = pre ++ .up f u :: post →
            u.dot.actor ≠ actor →
            let now := pre.foldl apply (rebuild view actor chatKeep stamp)
            now.Takes (.up f u) ∧ ∃ entry : Entry (LwwCell f.Val) ActorId,
              ((now.apply (.up f u)).maps f).entries[u.key]? = some entry
                ∧ .single u.op ≤ entry.val := by
  have hnodup : (view.playlist.map (·.hash)).Nodup := by
    unfold view? at hview
    obtain ⟨chat, -, rfl⟩ := map_eq_some_iff.mp hview
    exact s.playlistEntries_nodup
  have hsole := soleActor_rebuild view actor chatKeep stamp
  obtain ⟨i, hi⟩ := view_rebuild hnodup actor chatKeep stamp
  refine ⟨i, hi, unpositioned_rebalanced actor _, fun stamp' => ?_, hsole, ?_⟩
  · have hagain : ((compacted view actor chatKeep (stamp i)).playlist.map (·.hash)).Nodup := by
      show ((Rebuild.rebalanced actor view.playlist).map (·.hash)).Nodup
      rw [Rebuild.map_hash_rebalanced]
      exact hnodup
    obtain ⟨j, hj⟩ := view_rebuild hagain actor chatKeep stamp'
    exact ⟨j, hj.trans (congrArg some (compacted_compacted ..))⟩
  · intro ops hput hcounters pre post f u hops hu
    subst hops
    have htakes := hsole.takes hu (hcounters f u.dot.actor hu)
    refine ⟨htakes, entry_of_takes ?_ htakes⟩
    exact hsole.noDeferred.foldl_apply fun op hop => hput op (mem_append_left _ hop)

def unmarked : CrdtState :=
  ((new.setWatched 1 5 7 true).1.setWatched 1 6 7 false).1

theorem compaction_preserves_meaning_unmarked :
    ∃ view, unmarked.view? = some view ∧
      ∃ i, (rebuild view 0 100 (7 + ·)).view? = some (compacted view 0 100 (7 + i)) := by
  have hsome : unmarked.view?.isSome = true := by decide
  have hview := (some_get hsome).symm
  obtain ⟨i, hi, -⟩ := compaction_preserves_meaning hview 0 100 (7 + ·)
  exact ⟨_, hview, i, hi⟩

end DessPlay.Replication
