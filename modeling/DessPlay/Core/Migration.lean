/-
  DessPlay.Core.Migration
  **UPGRADING THE RELATIONS OF AN OLD SNAPSHOT** (`upgrade_relations_map` in
  `dessplay-core/src/state.rs`).

  An old layout's `series_relations` map is rebuilt entry by entry.  The rebuilt map's
  dots are spent by one actor PER KEY, so two replicas that migrate on their own spend a
  dot on the same key or not at all (`Redotted`).  Such maps are compatible
  (`Redotted.compat`), their merge is the join, and the join of two registers is the
  later write: migration commutes with merging.
-/
import DessPlay.Core.State

namespace DessPlay.Core

open BTree Joins Crdts Option Function
open List hiding getElem?_insert insert map_map

/-! ## §1. The old layout and its upgrade. -/

/-- `SeriesRelations` as persisted before `short_titles` was appended. -/
structure SeriesRelationsV10 where
  title : String
  year : Option Nat
  episodeCount : Option Nat
  relations : BTreeSet SeriesRelation
  deriving DecidableEq

instance : LinearOrder SeriesRelationsV10 :=
  LinearOrder.lift'
    (fun r => lex r.title (lex (ofOption r.year) (lex (ofOption r.episodeCount) r.relations)))
    (by rintro ⟨⟩ ⟨⟩ h; simpa using h)

/-- `From<SeriesRelationsV10> for SeriesRelations`. -/
def SeriesRelations.ofV10 (old : SeriesRelationsV10) : SeriesRelations where
  title := old.title
  year := old.year
  episodeCount := old.episodeCount
  relations := old.relations
  shortTitles := []

def Lww.map {V W : Type} (f : V → W) (l : Lww V) : Lww W := ⟨l.timestamp, f l.value⟩

/-- The reserved band of migration actors. -/
def migrationBand : ActorId := (2 ^ 64 - 1) * 2 ^ 64

/-- The actor of the dot written for a key; the key is a `u32`, so the source's `|` is a
sum. -/
def snapshotMigrationActor (series : AniDbSeriesId) : ActorId := migrationBand + series

section Put

variable {K V : Type} [LinearOrder K] [LinearOrder V]

def mapPut (m : LwwMap K V) (actor : ActorId) (ts : SharedTimestamp) (key : K) (value : V) :
    LwwMap K V :=
  m.apply (m.update key actor ⟨ts, value⟩)

/-- What a key resolves to. -/
def winner (m : LwwMap K V) (key : K) : Option (Lww V) := (m.get key).bind LwwCell.read

end Put

/-- One round of the rebuild. -/
def upgradeEntry (fresh : LwwMap AniDbSeriesId SeriesRelations)
    (entry : AniDbSeriesId × Entry (LwwCell SeriesRelationsV10) ActorId) :
    LwwMap AniDbSeriesId SeriesRelations :=
  match entry.2.val.read with
  | some lww =>
    mapPut fresh (snapshotMigrationActor entry.1) lww.timestamp entry.1 (.ofV10 lww.value)
  | none => fresh

def upgradeRelationsMap (old : LwwMap AniDbSeriesId SeriesRelationsV10) :
    LwwMap AniDbSeriesId SeriesRelations :=
  old.entries.toList.foldl upgradeEntry Map.new

/-! ## §2. Maps whose dots are spent by one actor per key. -/

section Redotted

variable {K V : Type} [LinearOrder K] [LinearOrder V] {actor : K → ActorId}

/-- The map that holds these winners, each under its key's own dot. -/
structure Redotted (actor : K → ActorId) (m : LwwMap K V) (winners : K → Option (Lww V)) :
    Prop where
  deferred : m.deferred = []
  entries : ∀ k, m.entries[k]? =
    (winners k).map fun lww => ⟨VClock.new.apply ⟨actor k, 1⟩, .single lww⟩
  spent : ∀ k, m.clock.dots[actor k]? = (winners k).map fun _ => 1
  outside : ∀ a, (∀ k, a ≠ actor k) → m.clock.dots[a]? = none

namespace Redotted

variable {m m' : LwwMap K V} {f g : K → Option (Lww V)}

omit [LinearOrder V] in
theorem new : Redotted actor (Map.new : LwwMap K V) fun _ => none := by
  refine ⟨rfl, fun k => ?_, fun k => ?_, fun a _ => ?_⟩ <;> simp [Map.new, VClock.new]

theorem put (h : Redotted actor m f) (hactor : Injective actor) {key : K}
    (hfree : f key = none) (lww : Lww V) :
    Redotted actor (mapPut m (actor key) lww.timestamp key lww.value)
      (update f key (some lww)) := by
  have hnone : m.clock.dots[actor key]? = none := by rw [h.spent, hfree]; rfl
  have hentry : m.entries[key]? = none := by rw [h.entries, hfree]; rfl
  have hzero : m.clock.get (actor key) = 0 := VClock.get_of_dots_none hnone
  have hput : mapPut m (actor key) lww.timestamp key lww.value =
      m.apply (.up ⟨actor key, 1⟩ key lww) := by
    show m.apply (.up ⟨actor key, m.clock.get (actor key) + 1⟩ key lww) = _
    rw [hzero]
  have hnew : m.clock.get (actor key) < 1 := by rw [hzero]; exact zero_lt_one
  rw [hput, Map.apply_new h.deferred hnew, hentry]
  refine ⟨h.deferred, fun k => ?_, fun k => ?_, fun a ha => ?_⟩
  · show (m.entries.insert key _)[k]? = _
    rw [getElem?_insert]
    by_cases hk : k = key
    · subst hk
      rw [if_pos rfl, update_self]
      rfl
    · rw [if_neg hk, update_of_ne hk]
      exact h.entries k
  · show (m.clock.apply ⟨actor key, 1⟩).dots[actor k]? = _
    rw [VClock.dots_apply]
    by_cases hk : k = key
    · subst hk
      rw [if_pos rfl, if_pos hnew, update_self]
      rfl
    · rw [if_neg fun heq => hk (hactor heq), update_of_ne hk]
      exact h.spent k
  · show (m.clock.apply ⟨actor key, 1⟩).dots[a]? = _
    rw [VClock.dots_apply, if_neg (ha key)]
    exact h.outside a ha

omit [LinearOrder V] in
theorem wellFormed (h : Redotted actor m f) : m.WellFormed where
  noDeferred := h.deferred
  clockPos a := by
    by_cases ha : ∃ k, a = actor k
    · obtain ⟨k, rfl⟩ := ha
      rw [h.spent k]
      cases f k <;> simp
    · rw [h.outside a fun k heq => ha ⟨k, heq⟩]
      exact nofun
  entryOk k e he := by
    rw [h.entries k] at he
    obtain ⟨lww, _, rfl⟩ := map_eq_some_iff.mp he
    refine ⟨VClock.Pos.new.apply zero_lt_one, fun hbot => ?_⟩
    rw [VClock.seen_apply _ zero_lt_one] at hbot
    have := congrFun (sup_eq_bot_iff.mp hbot).2 (actor k)
    simp [dotSeen] at this

omit [LinearOrder V] in
theorem entryDot_eq (h : Redotted actor m f) (k : K) (a : ActorId) :
    Map.entryDot m.entries[k]? a = if a = actor k ∧ (f k).isSome then ((1 : Nat) : WithBot Nat)
      else ⊥ := by
  rw [h.entries k]
  cases hk : f k with
  | none => simp [Map.entryDot]
  | some lww =>
    show (VClock.new.apply ⟨actor k, 1⟩).seen a = _
    rw [VClock.seen_apply _ zero_lt_one, VClock.seen_new, bot_sup_eq]
    by_cases ha : a = actor k
    · simp [dotSeen, ha]
    · simp [dotSeen, ha]

omit [LinearOrder V] in
/-- **Replicas that migrate on their own are compatible.**  A dot of a key that only one side
has is beyond the other side's clock. -/
theorem compat (h : Redotted actor m f) (h' : Redotted actor m' g) : Map.Compat m m' := by
  intro k a
  rw [h.entryDot_eq, h'.entryDot_eq]
  by_cases ha : a = actor k
  · subst ha
    cases hf : f k with
    | none =>
      cases hg : g k with
      | none => exact .inl rfl
      | some lww =>
        refine .inr (.inl ⟨?_, by simp⟩)
        have hzero : m.clock.get (actor k) = 0 :=
          VClock.get_of_dots_none (by rw [h.spent, hf]; rfl)
        rw [hzero]
        simp
    | some lww =>
      cases hg : g k with
      | none =>
        refine .inr (.inr ⟨?_, by simp⟩)
        have hzero : m'.clock.get (actor k) = 0 :=
          VClock.get_of_dots_none (by rw [h'.spent, hg]; rfl)
        rw [hzero]
        simp
      | some lww' => exact .inl (by simp)
  · exact .inl (by simp [ha])

omit [LinearOrder V] in
theorem winner_eq (h : Redotted actor m f) (k : K) : winner m k = f k := by
  unfold winner Map.get
  rw [h.entries k]
  cases f k <;> rfl

omit [LinearOrder V] in
theorem clock_get_outside (h : Redotted actor m f) {a : ActorId} (ha : ∀ k, a ≠ actor k) :
    m.clock.get a = 0 :=
  VClock.get_of_dots_none (h.outside a ha)

omit [LinearOrder V] in
theorem entryJoin_eq (h : Redotted actor m f) (k : K) :
    Map.entryJoin m.entries[k]? = ofOption ((f k).map fun lww =>
      ((VClock.new.apply ⟨actor k, 1⟩).seen, LwwCell.single lww)) := by
  rw [h.entries k, Map.entryJoin, map_map]
  rfl

/-- **The merge** holds, key by key, the later of the two writes. -/
theorem winner_merge (h : Redotted actor m f) (h' : Redotted actor m' g) (k : K) :
    winner (m.merge m') k = ((LwwCell.mk (f k)).merge ⟨g k⟩).read := by
  have hjoin : Map.entryJoin (m.merge m').entries[k]? =
      Map.entryJoin m.entries[k]? ⊔ Map.entryJoin m'.entries[k]? :=
    congrArg (fun j => j.2 k) (Map.join_merge h.wellFormed h'.wellFormed (h.compat h'))
  rw [h.entryJoin_eq, h'.entryJoin_eq] at hjoin
  have hread : ∀ e : Option (Entry (LwwCell V) ActorId), ∀ seen cell,
      Map.entryJoin e = WithBot.some (seen, cell) →
        (e.map Entry.val).bind LwwCell.read = cell.read := by
    intro e seen cell he
    cases e with
    | none => cases he
    | some e =>
      obtain ⟨_, hcell⟩ := Prod.mk.inj (WithBot.coe_inj.mp he)
      exact congrArg LwwCell.read hcell
  cases hf : f k with
  | none =>
    cases hg : g k with
    | none =>
      rw [hf, hg] at hjoin
      have hnone : (m.merge m').entries[k]? = none := Map.entryJoin_injective hjoin
      rw [winner, Map.get, hnone]
      rfl
    | some theirs =>
      rw [hf, hg] at hjoin
      exact hread _ _ _ (hjoin.trans (bot_sup_eq _))
  | some ours =>
    cases hg : g k with
    | none =>
      rw [hf, hg] at hjoin
      exact hread _ _ _ (hjoin.trans (sup_bot_eq _))
    | some theirs =>
      rw [hf, hg] at hjoin
      rw [LwwCell.merge_eq_sup]
      exact hread _ _ _ hjoin

theorem merge_clock_get_outside (h : Redotted actor m f) (h' : Redotted actor m' g) {a : ActorId}
    (ha : ∀ k, a ≠ actor k) : (m.merge m').clock.get a = 0 := by
  rw [Map.merge_clock_get, h.clock_get_outside ha, h'.clock_get_outside ha]
  rfl

end Redotted

end Redotted

/-! ## §3. The rebuilt map. -/

theorem snapshotMigrationActor_injective : Injective snapshotMigrationActor :=
  fun _ _ h => add_left_cancel h

def upgraded (old : LwwMap AniDbSeriesId SeriesRelationsV10) (series : AniDbSeriesId) :
    Option (Lww SeriesRelations) :=
  (winner old series).map (Lww.map .ofV10)

-- The winners are given for the whole list; the induction only says where they come from.
theorem redotted_foldl {l : List (AniDbSeriesId × Entry (LwwCell SeriesRelationsV10) ActorId)}
    (hnodup : (l.map (·.1)).Nodup) {winners : AniDbSeriesId → Option (Lww SeriesRelations)}
    (hlisted : ∀ entry ∈ l, winners entry.1 = entry.2.val.read.map (Lww.map .ofV10)) :
    ∀ {m f}, Redotted snapshotMigrationActor m f → (∀ entry ∈ l, f entry.1 = none) →
      (∀ k, k ∉ l.map (·.1) → winners k = f k) →
      Redotted snapshotMigrationActor (l.foldl upgradeEntry m) winners := by
  induction l with
  | nil =>
    intro m f h _ hother
    have heq : winners = f := funext fun k => hother k not_mem_nil
    rw [heq]
    exact h
  | cons entry l ih =>
    intro m f h hfree hother
    obtain ⟨hnot, hnodup⟩ := nodup_cons.mp hnodup
    have hhead := hlisted entry mem_cons_self
    have hempty := hfree entry mem_cons_self
    have hrest := fun e he => hlisted e (mem_cons_of_mem _ he)
    show Redotted _ (l.foldl upgradeEntry (upgradeEntry m entry)) winners
    cases hread : entry.2.val.read with
    | none =>
      have hsame : upgradeEntry m entry = m := by rw [upgradeEntry, hread]
      rw [hsame]
      refine ih hnodup hrest h (fun e he => hfree e (mem_cons_of_mem _ he)) fun k hk => ?_
      by_cases heq : k = entry.1
      · rw [heq, hhead, hread, hempty]
        rfl
      · exact hother k fun hmem => (mem_cons.mp hmem).elim heq hk
    | some lww =>
      have hput : upgradeEntry m entry = mapPut m (snapshotMigrationActor entry.1)
          (lww.map SeriesRelations.ofV10).timestamp entry.1
            (lww.map SeriesRelations.ofV10).value := by
        rw [upgradeEntry, hread]
        rfl
      rw [hput]
      refine ih hnodup hrest (h.put snapshotMigrationActor_injective hempty _)
        (fun e he => ?_) fun k hk => ?_
      · have hne : e.1 ≠ entry.1 := fun heq => hnot (mem_map.mpr ⟨e, he, heq⟩)
        rw [update_of_ne hne]
        exact hfree e (mem_cons_of_mem _ he)
      · by_cases heq : k = entry.1
        · rw [heq, update_self, hhead, hread]
          rfl
        · rw [update_of_ne heq]
          exact hother k fun hmem => (mem_cons.mp hmem).elim heq hk

/-- **The rebuilt map** holds every old winner under its key's own dot. -/
theorem redotted_upgradeRelationsMap (old : LwwMap AniDbSeriesId SeriesRelationsV10) :
    Redotted snapshotMigrationActor (upgradeRelationsMap old) (upgraded old) := by
  have hkeys : (old.entries.toList.map (·.1)).Nodup := by
    rw [Std.ExtTreeMap.map_fst_toList_eq_keys]
    exact nodup_keys old.entries
  refine redotted_foldl (l := old.entries.toList) hkeys (fun entry hentry => ?_) .new
    (fun _ _ => rfl) fun k hk => ?_
  · have hget := (mem_entries old.entries entry).mp hentry
    rw [upgraded, winner, Map.get, hget]
    rfl
  · have hnone : old.entries[k]? = none := by
      rw [Std.ExtTreeMap.map_fst_toList_eq_keys] at hk
      cases hget : old.entries[k]? with
      | none => rfl
      | some e => exact absurd ((mem_keys old.entries k).mpr ⟨e, hget⟩) hk
    rw [upgraded, winner, Map.get, hnone]
    rfl

/-! ## §4. The order of the two layouts. -/

theorem ofV10_lt_iff (v w : SeriesRelationsV10) :
    SeriesRelations.ofV10 v < SeriesRelations.ofV10 w ↔ v < w := by
  show lex v.title (lex (ofOption v.year) (lex (ofOption v.episodeCount)
        (lex v.relations ([] : List String)))) <
      lex w.title (lex (ofOption w.year) (lex (ofOption w.episodeCount) (lex w.relations []))) ↔
    lex v.title (lex (ofOption v.year) (lex (ofOption v.episodeCount) v.relations)) <
      lex w.title (lex (ofOption w.year) (lex (ofOption w.episodeCount) w.relations))
  simp only [lex, Prod.Lex.toLex_lt_toLex, lt_irrefl, and_false, or_false]

theorem Lww.map_ofV10_lt_iff (l l' : Lww SeriesRelationsV10) :
    l.map SeriesRelations.ofV10 < l'.map SeriesRelations.ofV10 ↔ l < l' := by
  show lex l.timestamp (SeriesRelations.ofV10 l.value) <
      lex l'.timestamp (SeriesRelations.ofV10 l'.value) ↔
    lex l.timestamp l.value < lex l'.timestamp l'.value
  simp only [lex, Prod.Lex.toLex_lt_toLex, ofV10_lt_iff]

namespace LwwCell

def ofV10 (c : LwwCell SeriesRelationsV10) : LwwCell SeriesRelations :=
  ⟨c.current.map (Lww.map .ofV10)⟩

theorem ofV10_apply (c : LwwCell SeriesRelationsV10) (op : Lww SeriesRelationsV10) :
    (c.apply op).ofV10 = c.ofV10.apply (op.map .ofV10) := by
  obtain ⟨current⟩ := c
  cases current with
  | none => rfl
  | some current =>
    by_cases h : current < op
    · have h' := (Lww.map_ofV10_lt_iff current op).mpr h
      simp only [apply, ofV10, h, h', map_some, if_true]
    · have h' : ¬ current.map SeriesRelations.ofV10 < op.map .ofV10 :=
        fun hlt => h ((Lww.map_ofV10_lt_iff current op).mp hlt)
      simp only [apply, ofV10, h, h', map_some, if_false]

theorem isSome_read_merge {V : Type} [LinearOrder V] {c c' : LwwCell V}
    (h : c.read.isSome ∨ c'.read.isSome) : (c.merge c').read.isSome := by
  obtain ⟨ours⟩ := c
  obtain ⟨theirs⟩ := c'
  cases theirs with
  | none => exact h.resolve_right Bool.false_ne_true
  | some theirs =>
    cases ours with
    | none => rfl
    | some ours =>
      show (if ours < theirs then LwwCell.mk (some theirs) else ⟨some ours⟩).read.isSome
      split <;> rfl

theorem ofV10_merge (c c' : LwwCell SeriesRelationsV10) :
    (c.merge c').ofV10 = c.ofV10.merge c'.ofV10 := by
  obtain ⟨theirs⟩ := c'
  cases theirs with
  | none => rfl
  | some theirs => exact ofV10_apply c theirs

end LwwCell

def cellAt {K V : Type} [LinearOrder K] (m : LwwMap K V) (key : K) : LwwCell V :=
  (m.get key).getD .new

theorem read_cellAt {K V : Type} [LinearOrder K] (m : LwwMap K V) (key : K) :
    (cellAt m key).read = winner m key := by
  unfold cellAt winner
  cases m.get key <;> rfl

theorem winner_apply {K V : Type} [LinearOrder K] [LinearOrder V] {m : LwwMap K V}
    (hd : m.deferred = []) {dot : Dot ActorId} (hnew : m.clock.get dot.actor < dot.counter)
    (key : K) (op : Lww V) :
    winner (m.apply (.up dot key op)) key = ((cellAt m key).apply op).read := by
  rw [Map.apply_new hd hnew, winner, Map.get]
  show (((m.entries.insert key _)[key]?).map Entry.val).bind LwwCell.read = _
  rw [getElem?_insert, if_pos rfl, cellAt, Map.get]
  cases m.entries[key]? <;> rfl

/-! ## §5. Migration commutes with merging. -/

/-- An actor of the server or of a session; the band is the top of the 128-bit actors. -/
def OutsideBand (actor : ActorId) : Prop := actor < migrationBand

/-- What independently migrated replicas have of each other. -/
structure MergesToUnion (a b : LwwMap AniDbSeriesId SeriesRelationsV10) : Prop where
  /-- Migrating and merging resolves like merging the registers and migrating. -/
  union : ∀ series,
    cellAt ((upgradeRelationsMap a).merge (upgradeRelationsMap b)) series =
      ((cellAt a series).merge (cellAt b series)).ofV10
  kept : ∀ series, (winner a series).isSome ∨ (winner b series).isSome →
    (winner ((upgradeRelationsMap a).merge (upgradeRelationsMap b)) series).isSome
  stamped : ∀ series, winner (upgradeRelationsMap a) series =
    (winner a series).map (Lww.map .ofV10)
  /-- A later write of the server or a session is not taken for a known one … -/
  unseen : ∀ dot : Dot ActorId, OutsideBand dot.actor → 0 < dot.counter →
    (upgradeRelationsMap a).clock.get dot.actor < dot.counter ∧
    ((upgradeRelationsMap a).merge (upgradeRelationsMap b)).clock.get dot.actor < dot.counter
  /-- … and wins against the migrated entry exactly if it wins against the original: … -/
  later : ∀ dot : Dot ActorId, OutsideBand dot.actor → 0 < dot.counter → ∀ series op,
    winner ((upgradeRelationsMap a).apply (.up dot series (op.map .ofV10))) series =
      ((cellAt a series).apply op).read.map (Lww.map .ofV10)
  /-- … in the new layout, too, a different timestamp decides. -/
  newer : ∀ dot : Dot ActorId, OutsideBand dot.actor → 0 < dot.counter → ∀ series old op,
    winner a series = some old → old.timestamp ≠ op.timestamp →
      (winner ((upgradeRelationsMap a).apply (.up dot series op)) series = some op ↔
        old.timestamp < op.timestamp)

theorem cellAt_upgradeRelationsMap (old : LwwMap AniDbSeriesId SeriesRelationsV10)
    (series : AniDbSeriesId) :
    cellAt (upgradeRelationsMap old) series = (cellAt old series).ofV10 := by
  have hcell : ∀ c : LwwCell SeriesRelations, c = ⟨c.read⟩ := fun _ => rfl
  rw [hcell (cellAt (upgradeRelationsMap old) series), read_cellAt,
    (redotted_upgradeRelationsMap old).winner_eq, upgraded, ← read_cellAt]
  rfl

theorem read_apply_eq_some_iff {V : Type} [LinearOrder V] {c : LwwCell V} {old op : Lww V}
    (hold : c.read = some old) (hne : old.timestamp ≠ op.timestamp) :
    (c.apply op).read = some op ↔ old.timestamp < op.timestamp := by
  obtain ⟨current⟩ := c
  cases hold
  show (if old < op then LwwCell.mk (some op) else ⟨some old⟩).read = some op ↔ _
  have hlt : old < op ↔ old.timestamp < op.timestamp := by
    refine ⟨fun h => lt_of_le_of_ne (Lww.timestamp_le_of_le h.le) hne, Lww.lt_of_timestamp_lt⟩
  by_cases h : old < op
  · rw [if_pos h]
    exact iff_of_true rfl (hlt.mp h)
  · rw [if_neg h]
    refine iff_of_false (fun heq => hne ?_) fun h' => h (hlt.mpr h')
    exact congrArg Lww.timestamp (Option.some.inj heq)

theorem OutsideBand.ne {actor : ActorId} (h : OutsideBand actor) (series : AniDbSeriesId) :
    actor ≠ snapshotMigrationActor series := by
  intro heq
  have hge : migrationBand ≤ actor := heq ▸ Nat.le_add_right _ _
  exact absurd h (not_lt.mpr hge)

/-- **Independently migrated replicas merge to the union.** -/
theorem migrated_merge_to_union (a b : LwwMap AniDbSeriesId SeriesRelationsV10) :
    MergesToUnion a b := by
  have ha := redotted_upgradeRelationsMap a
  have hb := redotted_upgradeRelationsMap b
  have hmerge : ∀ series,
      winner ((upgradeRelationsMap a).merge (upgradeRelationsMap b)) series =
        ((cellAt a series).merge (cellAt b series)).ofV10.read := by
    intro series
    rw [ha.winner_merge hb, LwwCell.ofV10_merge, upgraded, upgraded, ← read_cellAt, ← read_cellAt]
    rfl
  have hfresh : ∀ dot : Dot ActorId, OutsideBand dot.actor → 0 < dot.counter →
      (upgradeRelationsMap a).clock.get dot.actor < dot.counter := by
    intro dot hout hpos
    rw [ha.clock_get_outside hout.ne]
    exact hpos
  refine ⟨fun series => ?_, fun series hthere => ?_, ha.winner_eq, fun dot hout hpos => ?_,
    fun dot hout hpos series op => ?_, fun dot hout hpos series old op hold hne => ?_⟩
  · have hcell : ∀ c : LwwCell SeriesRelations, c = ⟨c.read⟩ := fun _ => rfl
    rw [hcell (cellAt _ series), read_cellAt, hmerge series]
    rfl
  · rw [← read_cellAt, ← read_cellAt] at hthere
    rw [hmerge series]
    exact (isSome_map ..).trans (LwwCell.isSome_read_merge hthere)
  · refine ⟨hfresh dot hout hpos, ?_⟩
    rw [ha.merge_clock_get_outside hb hout.ne]
    exact hpos
  · rw [winner_apply ha.deferred (hfresh dot hout hpos), cellAt_upgradeRelationsMap,
      ← LwwCell.ofV10_apply]
    rfl
  · rw [winner_apply ha.deferred (hfresh dot hout hpos)]
    have hread : (cellAt (upgradeRelationsMap a) series).read = some (old.map .ofV10) := by
      rw [read_cellAt, ha.winner_eq, upgraded, hold]
      rfl
    exact read_apply_eq_some_iff hread hne

end DessPlay.Core
