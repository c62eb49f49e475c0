/-
  DessPlay.Core.Franchise
  **FRANCHISES: THE COMPONENTS OF THE RELATIONS GRAPH**
  (`dessplay-core/src/franchise.rs`, `RelationKind::groups_franchise`).

  A series' row names related series; the structural edges among them group
  series into franchises.  `seriesComponents` is the union-find over all rows,
  `reachableComponent` the walk from one series, `franchises` the grouping of the
  files with metadata, `seasonOrdinal` the walk from prequel to prequel.  Each has one
  lemma here: the least id of a component, what the edges reach, the key a file is
  grouped under, and the chain of prequels that is counted.
-/
import DessPlay.Core.View
import DessPlay.Lib.Components
import DessPlay.Lib.Index

namespace DessPlay.Core

open BTree Crdts Relation List
open Std (ExtTreeMap ExtTreeSet)

/-! ## §1. The parts of a view that are read. -/

instance : Inhabited StateView where
  default :=
    { playlist := [], watched := ∅, nowPlaying := none, nowPlayingSince := none
      seekAuthority := none, playbackIntent := .paused, seriesPreference := ∅, manualOverride := ∅
      fileAvailability := ∅, anidbMetadata := ∅, seriesRelations := ∅, fileCatalog := ∅
      listEntries := ∅, listNextEp := ∅, lookupRequests := ∅, chat := [], playbackPosition := ∅
      acknowledgedAbsent := ∅, marquee := none, savedPosition := ∅ }

namespace StateView

def relations (view : StateView) : BTreeMap AniDbSeriesId SeriesRelations := view.seriesRelations

/-- What is known about files; `none` is a lookup that found nothing. -/
def metadata (view : StateView) : BTreeMap Ed2kHash (Option AniDbMetadata) := view.anidbMetadata

def entries (view : StateView) : BTreeMap ListEntryId SeriesListEntry := view.listEntries

def metadataOf (view : StateView) (file : Ed2kHash) : Option AniDbMetadata :=
  view.metadata[file]?.join

def seriesOf (view : StateView) (file : Ed2kHash) : Option AniDbSeriesId :=
  (view.metadataOf file).bind (·.seriesId)

end StateView

def RelationKind.groupsFranchise : RelationKind → Bool
  | .sequel | .prequel | .alternativeVersion | .sideStory | .parentStory | .summary
  | .fullStory => true
  | .sameSetting | .alternativeSetting | .musicVideo | .character | .other _ => false

def SeriesRelations.structural (row : SeriesRelations) : List AniDbSeriesId :=
  (row.relations.toList.filter fun r => r.kind.groupsFranchise).map (·.target)

def SeriesRelations.prequel (row : SeriesRelations) : Option AniDbSeriesId :=
  ((row.relations.toList.filter fun r => r.kind = .prequel).map (·.target)).min?

namespace StateView

def structural (view : StateView) (series : AniDbSeriesId) : List AniDbSeriesId :=
  view.relations[series]?.elim [] SeriesRelations.structural

/-- A structural edge: the row of `a` names `b`. -/
def Edge (view : StateView) (a b : AniDbSeriesId) : Prop := b ∈ view.structural a

def Connected (view : StateView) : AniDbSeriesId → AniDbSeriesId → Prop := EqvGen view.Edge

def Known (view : StateView) (series : AniDbSeriesId) : Prop :=
  series ∈ view.relations ∨ (∃ a, view.Edge a series) ∨ ∃ file, view.seriesOf file = some series

end StateView

/-! ## §2. The components. -/

def seriesComponents (view : StateView) : BTreeMap AniDbSeriesId AniDbSeriesId :=
  let parent := view.relations.toList.foldl (fun parent row =>
    row.2.structural.foldl (fun parent target => Components.union parent row.1 target)
      (Components.find parent row.1).1) ∅
  -- series known only through file metadata
  let parent := (view.metadata.toList.filterMap fun e => e.2.bind (·.seriesId)).foldl
    (fun parent series => (Components.find parent series).1) parent
  parent.keys.foldl (fun parent id => (Components.find parent id).1) parent

def reachableComponent (view : StateView) (series : AniDbSeriesId) : BTreeSet AniDbSeriesId :=
  Components.reachable view.structural
    ((view.relations.toList.flatMap fun row => row.2.structural).length + 1) series

/-- Walk from prequel to prequel until there is none or one comes again; `saturating_add` on a
`u32`. -/
def seasonWalk (view : StateView) : Nat → BTreeSet AniDbSeriesId → AniDbSeriesId → Nat → Nat
  | 0, _, _, ordinal => ordinal
  | fuel + 1, seen, current, ordinal =>
    match view.relations[current]?.bind SeriesRelations.prequel with
    | none => ordinal
    | some prequel =>
      if prequel ∈ seen then ordinal
      else seasonWalk view fuel (seen.insert prequel) prequel (min (ordinal + 1) (2 ^ 32 - 1))

def seasonOrdinal (view : StateView) (series : AniDbSeriesId) : Nat :=
  seasonWalk view view.relations.size ((∅ : BTreeSet AniDbSeriesId).insert series) series 1

namespace StateView

theorem edge_iff {view : StateView} {a b : AniDbSeriesId} :
    view.Edge a b ↔ ∃ row, view.relations[a]? = some row ∧ b ∈ row.structural := by
  unfold Edge structural
  cases view.relations[a]? with
  | none => simp
  | some row => simp

theorem seriesOf_iff {view : StateView} {file : Ed2kHash} {series : AniDbSeriesId} :
    view.seriesOf file = some series ↔
      ∃ m, view.metadata[file]? = some (some m) ∧ m.seriesId = some series := by
  unfold seriesOf metadataOf
  rw [Option.bind_eq_some_iff]
  simp only [Option.join_eq_some_iff]

end StateView

theorem represents_rows (rows : List (AniDbSeriesId × SeriesRelations)) :
    Components.Represents (fun x => ∃ row ∈ rows, x = row.1 ∨ x ∈ row.2.structural)
      (fun x y => ∃ row ∈ rows, x = row.1 ∧ y ∈ row.2.structural)
      (rows.foldl (fun parent row =>
        row.2.structural.foldl (fun parent target => Components.union parent row.1 target)
          (Components.find parent row.1).1) ∅) := by
  induction rows using reverseRecOn with
  | nil => exact Components.Represents.empty.congr (fun x => by simp) fun x y => by simp
  | append_singleton rows row ih =>
    rw [foldl_concat]
    refine ((ih.find row.1).union_list row.1 (.inr rfl) row.2.structural).congr
      (fun x => ?_) fun x y => ?_
    · simp only [mem_append, mem_singleton, or_and_right, exists_or, exists_eq_left,
        or_assoc]
    · simp only [mem_append, mem_singleton, or_and_right, exists_or, exists_eq_left]

/-- **The union-find knows the known series and maps each to the least of its component.** -/
theorem seriesComponents_spec (view : StateView) :
    (∀ x, x ∈ seriesComponents view ↔ view.Known x) ∧
    ∀ x r, (seriesComponents view)[x]? = some r → IsLeast {y | view.Connected x y} r := by
  have hrows := ((represents_rows view.relations.toList).find_list
    (view.metadata.toList.filterMap fun e => e.2.bind (·.seriesId))).congr
    (T := view.Known) (F := view.Edge) ?_ ?_
  · exact hrows.find_all
  · intro x
    have hfiles : x ∈ (view.metadata.toList.filterMap fun e => e.2.bind (·.seriesId)) ↔
        ∃ file, view.seriesOf file = some x := by
      simp only [mem_filterMap, Prod.exists, mem_entries, StateView.seriesOf_iff,
        Option.bind_eq_some_iff]
      constructor
      · rintro ⟨file, _, hm, m, rfl, hx⟩
        exact ⟨file, m, hm, hx⟩
      · rintro ⟨file, m, hm, hx⟩
        exact ⟨file, some m, hm, m, rfl, hx⟩
    rw [hfiles, StateView.Known, ← or_assoc]
    refine or_congr_left ?_
    simp only [Prod.exists, mem_entries, StateView.edge_iff]
    constructor
    · rintro ⟨a, row, hrow, rfl | hx⟩
      · exact .inl (ExtTreeMap.mem_iff_isSome_getElem?.mpr
          (Option.isSome_iff_exists.mpr ⟨row, hrow⟩))
      · exact .inr ⟨a, row, hrow, hx⟩
    · rintro (hx | ⟨a, row, hrow, hx⟩)
      · obtain ⟨row, hrow⟩ := Option.isSome_iff_exists.mp (ExtTreeMap.mem_iff_isSome_getElem?.mp hx)
        exact ⟨x, row, hrow, .inl rfl⟩
      · exact ⟨a, row, hrow, .inr hx⟩
  · intro x y
    simp only [Prod.exists, mem_entries, StateView.edge_iff]
    constructor
    · rintro ⟨_, row, hrow, rfl, hy⟩
      exact ⟨row, hrow, hy⟩
    · rintro ⟨row, hrow, hy⟩
      exact ⟨x, row, hrow, rfl, hy⟩

variable {view : StateView}

theorem mem_targets {a t : AniDbSeriesId} (h : view.Edge a t) :
    t ∈ (view.relations.toList.flatMap fun row => row.2.structural).toFinset := by
  obtain ⟨row, hrow, ht⟩ := StateView.edge_iff.mp h
  exact mem_toFinset.mpr (mem_flatMap.mpr ⟨(a, row), (mem_entries _ _).mpr hrow, ht⟩)

/-- **The walk finds what the edges reach.** -/
theorem mem_reachableComponent (view : StateView) (series t : AniDbSeriesId) :
    t ∈ reachableComponent view series ↔ ReflTransGen view.Edge series t :=
  Components.mem_reachable (fun _ _ ht => mem_targets ht)
    (Nat.lt_succ_of_le (toFinset_card_le _)) series t

/-- The prequel the walk goes to from a series. -/
def StateView.prequelOf (view : StateView) (series : AniDbSeriesId) : Option AniDbSeriesId :=
  view.relations[series]?.bind SeriesRelations.prequel

def prequels (view : StateView) : Finset AniDbSeriesId :=
  (view.relations.toList.filterMap fun row => row.2.prequel).toFinset

theorem card_prequels_le (view : StateView) : (prequels view).card ≤ view.relations.size :=
  (toFinset_card_le _).trans
    ((length_filterMap_le _ _).trans_eq ExtTreeMap.length_toList)

variable {current : AniDbSeriesId}

theorem mem_prequels {prequel : AniDbSeriesId} (h : view.prequelOf current = some prequel) :
    prequel ∈ prequels view := by
  obtain ⟨row, hrow, hprequel⟩ := Option.bind_eq_some_iff.mp h
  exact mem_toFinset.mpr
    (mem_filterMap.mpr ⟨(current, row), (mem_entries _ _).mpr hrow, hprequel⟩)

/-- `rest` goes on from `current`, from prequel to prequel not seen before, as far as there is
one. -/
structure PrequelWalk (view : StateView) (seen : BTreeSet AniDbSeriesId) (current : AniDbSeriesId)
    (rest : List AniDbSeriesId) : Prop where
  chain : (current :: rest).IsChain fun a b => view.prequelOf a = some b
  nodup : rest.Nodup
  fresh : ∀ p ∈ rest, p ∉ seen
  ends : ∀ last ∈ (current :: rest).getLast?, ∀ p ∈ view.prequelOf last, p ∈ seen ∨ p ∈ rest

theorem PrequelWalk.stop {seen : BTreeSet AniDbSeriesId}
    (h : ∀ p ∈ view.prequelOf current, p ∈ seen) : PrequelWalk view seen current [] where
  chain := .singleton _
  nodup := .nil
  fresh _ hp := absurd hp not_mem_nil
  ends last hlast p hp := by
    obtain rfl : current = last := Option.some.inj hlast
    exact .inl (h p hp)

theorem PrequelWalk.step {seen : BTreeSet AniDbSeriesId} {p : AniDbSeriesId}
    {rest : List AniDbSeriesId} (hp : view.prequelOf current = some p) (hnew : p ∉ seen)
    (h : PrequelWalk view (seen.insert p) p rest) : PrequelWalk view seen current (p :: rest) where
  chain := .cons_cons hp h.chain
  nodup :=
    nodup_cons.mpr ⟨fun hmem => h.fresh p hmem ((mem_insert ..).mpr (.inl rfl)), h.nodup⟩
  fresh q hq := by
    rcases mem_cons.mp hq with rfl | hq
    · exact hnew
    · exact fun hseen => h.fresh q hq ((mem_insert ..).mpr (.inr hseen))
  ends last hlast q hq := by
    rw [getLast?_cons_cons] at hlast
    rcases h.ends last hlast q hq with hq | hq
    · rcases (mem_insert ..).mp hq with rfl | hq
      · exact .inr mem_cons_self
      · exact .inl hq
    · exact .inr (mem_cons_of_mem p hq)

/-- With fuel for the prequels not seen yet, the walk counts them and stops by itself. -/
theorem seasonWalk_counts (fuel : Nat) (seen : BTreeSet AniDbSeriesId) (current : AniDbSeriesId)
    (ordinal : Nat) (hordinal : ordinal ≤ 2 ^ 32 - 1)
    (hfuel : ((prequels view).filter (· ∉ seen)).card ≤ fuel) :
    ∃ rest, PrequelWalk view seen current rest ∧
      seasonWalk view fuel seen current ordinal = min (ordinal + rest.length) (2 ^ 32 - 1) := by
  induction fuel generalizing seen current ordinal with
  | zero =>
    refine ⟨[], .stop fun p hp => ?_, (min_eq_left hordinal).symm⟩
    by_contra hnot
    exact absurd (Finset.mem_filter.mpr ⟨mem_prequels hp, hnot⟩)
      (Finset.card_eq_zero.mp (Nat.le_zero.mp hfuel) ▸ Finset.notMem_empty p)
  | succ fuel ih =>
    rw [seasonWalk]
    split
    next hnone =>
      refine ⟨[], .stop fun p hp => ?_, (min_eq_left hordinal).symm⟩
      cases hnone.symm.trans hp
    next p hp =>
      by_cases hseen : p ∈ seen
      · rw [if_pos hseen]
        refine ⟨[], .stop fun q hq => ?_, (min_eq_left hordinal).symm⟩
        exact Option.some.inj (hp.symm.trans hq) ▸ hseen
      · -- one prequel more: the rest is counted from the next number
        rw [if_neg hseen]
        have hlt := Components.card_unseen_insert_lt (mem_prequels hp) hseen
        obtain ⟨rest, hwalk, hcount⟩ := ih (seen.insert p) p (min (ordinal + 1) (2 ^ 32 - 1))
          (min_le_right ..) (by omega)
        refine ⟨p :: rest, .step hp hseen hwalk, hcount.trans ?_⟩
        rw [length_cons]
        omega

/-- **The season number counts the prequels.**  It is the length of the chain of prequels of a
series, itself included, up to the one that has none or whose prequel is in the chain already:
relations that run in a circle end the walk as well. -/
theorem season_ordinal_counts_prequels (view : StateView) (series : AniDbSeriesId) :
    ∃ chain : List AniDbSeriesId, chain.head? = some series ∧ chain.Nodup ∧
      chain.IsChain (fun a b => view.prequelOf a = some b) ∧
      (∀ last ∈ chain.getLast?, ∀ p ∈ view.prequelOf last, p ∈ chain) ∧
      seasonOrdinal view series = min chain.length (2 ^ 32 - 1) := by
  have hseen : ∀ p, p ∈ (∅ : BTreeSet AniDbSeriesId).insert series ↔ p = series := by
    intro p
    rw [mem_insert]
    simp
  obtain ⟨rest, hwalk, hcount⟩ := seasonWalk_counts view.relations.size
    ((∅ : BTreeSet AniDbSeriesId).insert series) series 1 (by decide)
    ((Finset.card_filter_le ..).trans (card_prequels_le view))
  refine ⟨series :: rest, rfl, nodup_cons.mpr ⟨fun hmem => ?_, hwalk.nodup⟩, hwalk.chain,
    fun last hlast p hp => ?_, hcount.trans ?_⟩
  · exact hwalk.fresh series hmem ((hseen series).mpr rfl)
  · exact mem_cons.mpr ((hwalk.ends last hlast p hp).imp_left (hseen p).mp)
  · rw [length_cons, add_comm]

/-! ## §3. The groups. -/

inductive FranchiseKey where
  | series (root : AniDbSeriesId)
  | name (name : String)
  deriving DecidableEq

/-- Variant number and payload of a `FranchiseKey`. -/
def FranchiseKey.key : FranchiseKey → Nat ×ₗ AniDbSeriesId ×ₗ String
  | .series root => lex 0 (lex root "")
  | .name text => lex 1 (lex 0 text)

instance : LinearOrder FranchiseKey :=
  LinearOrder.lift' FranchiseKey.key
    (by rintro ⟨⟩ ⟨⟩ h <;> simp_all [FranchiseKey.key])

structure Franchise where
  key : FranchiseKey
  title : String
  /-- the members with files, by year and id -/
  series : List AniDbSeriesId
  /-- the whole component -/
  members : BTreeSet AniDbSeriesId
  year : Option Nat
  files : List Ed2kHash
  deriving DecidableEq

section Groups

variable (view : StateView)

/-- The root a series is grouped under. -/
def franchiseRoot (id : AniDbSeriesId) : AniDbSeriesId := (seriesComponents view)[id]?.getD id

def components : BTreeMap AniDbSeriesId (BTreeSet AniDbSeriesId) :=
  Index.collect ∅ (fun ids id => ids.insert id)
    ((seriesComponents view).toList.map fun e => (e.2, e.1))

def rootedFiles : List (AniDbSeriesId × Ed2kHash) :=
  view.metadata.toList.filterMap fun e =>
    (e.2.bind (·.seriesId)).map fun series => (franchiseRoot view series, e.1)

def namedFiles : List (String × Ed2kHash) :=
  view.metadata.toList.filterMap fun e =>
    (e.2.filter fun m => m.seriesId.isNone).map fun m => (m.seriesName, e.1)

def nameByRoot : BTreeMap AniDbSeriesId String :=
  Index.first (view.metadata.toList.filterMap fun e =>
    e.2.bind fun m => m.seriesId.map fun series => (franchiseRoot view series, m.seriesName))

def seriesWithFiles : BTreeSet AniDbSeriesId :=
  (view.metadata.toList.filterMap fun e => e.2.bind (·.seriesId)).foldl
    (fun ids series => ids.insert series) ∅

/-- The title of a component's earliest member; the lowest id of several. -/
def bestByRoot : BTreeMap AniDbSeriesId (String × Option Nat) :=
  view.relations.toList.foldl (fun best row =>
    let root := franchiseRoot view row.1
    let better : Bool :=
      match best[root]? with
      | none => true
      | some (_, some existing) => row.2.year.any fun candidate => candidate < existing
      | some (_, none) => row.2.year.isSome
    if better then best.insert root (row.2.title, row.2.year) else best) ∅

def earlierYear : Option Nat → Option Nat → Option Nat
  | some a, some b => some (min a b)
  | a, b => a.or b

/-- The first year of each component. -/
def yearMinByRoot : BTreeMap AniDbSeriesId (Option Nat) :=
  Index.collect none earlierYear
    (view.relations.toList.map fun row => (franchiseRoot view row.1, row.2.year))

/-- When a member aired, for sorting; unknown years last (`u16::MAX`). -/
def memberOrder (id : AniDbSeriesId) : Nat ×ₗ AniDbSeriesId :=
  lex ((view.relations[id]?.bind (·.year)).getD (2 ^ 16 - 1)) id

/-- The franchise of one component; `none` when no file belongs to it. -/
def seriesFranchise (component : AniDbSeriesId × BTreeSet AniDbSeriesId) : Option Franchise :=
  (Index.group (rootedFiles view))[component.1]?.map fun files =>
    { key := .series component.1
      title := (((bestByRoot view)[component.1]?.map (·.1)).or
        (nameByRoot view)[component.1]?).getD ("anidb:" ++ toString component.1)
      series := (component.2.toList.filter (· ∈ seriesWithFiles view)).insertionSort
        fun a b => memberOrder view a ≤ memberOrder view b
      members := component.2
      year := ((yearMinByRoot view)[component.1]?).join
      files := files }

def nameFranchise (group : String × List Ed2kHash) : Franchise :=
  { key := .name group.1
    title := group.1
    series := []
    members := ∅
    year := none
    files := group.2 }

def franchises : List Franchise :=
  ((components view).toList.filterMap (seriesFranchise view) ++
    (Index.group (namedFiles view)).toList.map nameFranchise).insertionSort
      fun a b => lex a.title a.key ≤ lex b.title b.key

/-- What a file is grouped under. -/
def franchiseKey (file : Ed2kHash) : Option FranchiseKey :=
  (view.metadataOf file).map fun m =>
    match m.seriesId with
    | some series => .series (franchiseRoot view series)
    | none => .name m.seriesName

end Groups

section Grouping

variable {view : StateView}

variable {root x y : AniDbSeriesId} {file : Ed2kHash}

theorem franchiseKey_eq_series :
    franchiseKey view file = some (.series root) ↔
      ∃ series, view.seriesOf file = some series ∧ franchiseRoot view series = root := by
  unfold franchiseKey StateView.seriesOf
  cases view.metadataOf file with
  | none => simp
  | some m => cases hs : m.seriesId <;> simp [hs]

theorem mem_rootedFiles :
    (root, file) ∈ rootedFiles view ↔ franchiseKey view file = some (.series root) := by
  rw [franchiseKey_eq_series]
  unfold rootedFiles
  simp only [mem_filterMap, Prod.exists, mem_entries, Option.map_eq_some_iff,
    StateView.seriesOf_iff, Option.bind_eq_some_iff, Prod.mk.injEq]
  constructor
  · rintro ⟨_, _, hm, series, ⟨m, rfl, hs⟩, rfl, rfl⟩
    exact ⟨series, ⟨m, hm, hs⟩, rfl⟩
  · rintro ⟨series, ⟨m, hm, hs⟩, rfl⟩
    exact ⟨file, some m, hm, series, ⟨m, rfl, hs⟩, rfl, rfl⟩

theorem mem_namedFiles {name : String} :
    (name, file) ∈ namedFiles view ↔ franchiseKey view file = some (.name name) := by
  unfold namedFiles franchiseKey StateView.metadataOf
  simp only [mem_filterMap, Prod.exists, mem_entries, Option.map_eq_some_iff,
    Option.filter_eq_some_iff, Option.join_eq_some_iff, Prod.mk.injEq, Option.isNone_iff_eq_none]
  constructor
  · rintro ⟨_, _, hm, m, ⟨rfl, hs⟩, rfl, rfl⟩
    exact ⟨m, hm, by rw [hs]⟩
  · rintro ⟨m, hm, hkey⟩
    cases hs : m.seriesId with
    | none =>
      rw [hs] at hkey
      exact ⟨file, some m, hm, m, ⟨rfl, hs⟩, FranchiseKey.name.inj hkey, rfl⟩
    | some series => rw [hs] at hkey; cases hkey

theorem nodup_files {K : Type} {f : Ed2kHash × Option AniDbMetadata → Option (K × Ed2kHash)}
    (hf : ∀ e p, f e = some p → p.2 = e.1) :
    ((view.metadata.toList.filterMap f).map Prod.snd).Nodup := by
  refine Nodup.sublist ?_ (nodup_keys view.metadata)
  rw [← ExtTreeMap.map_fst_toList_eq_keys]
  generalize view.metadata.toList = rows
  induction rows with
  | nil => exact .slnil
  | cons e rows ih =>
    rw [filterMap_cons]
    cases hfe : f e with
    | none => exact ih.cons _
    | some p =>
      rw [map_cons, map_cons, hf e p hfe]
      exact ih.cons_cons _

theorem nodup_group {K : Type} [LinearOrder K] {l : List (K × Ed2kHash)}
    (hl : (l.map Prod.snd).Nodup) {k : K} {files : List Ed2kHash}
    (h : (Index.group l)[k]? = some files) : files.Nodup := by
  rw [Index.getElem?_group] at h
  split at h
  · cases h
  · cases h
    exact hl.sublist ((filter_sublist).map Prod.snd)

/-- **A group's files are the files with its key.** -/
theorem mem_files {franchise : Franchise} (h : franchise ∈ franchises view) (file : Ed2kHash) :
    file ∈ franchise.files ↔ franchiseKey view file = some franchise.key := by
  rw [franchises, mem_insertionSort, mem_append, mem_filterMap, mem_map] at h
  rcases h with ⟨component, _, h⟩ | ⟨group, hgroup, rfl⟩
  · obtain ⟨files, hfiles, rfl⟩ := Option.map_eq_some_iff.mp h
    rw [← mem_rootedFiles, ← Index.mem_getD_group, hfiles]
    rfl
  · rw [mem_entries] at hgroup
    show file ∈ group.2 ↔ franchiseKey view file = some (.name group.1)
    rw [← mem_namedFiles, ← Index.mem_getD_group, hgroup]
    rfl

theorem nodup_franchise_files {franchise : Franchise} (h : franchise ∈ franchises view) :
    franchise.files.Nodup := by
  rw [franchises, mem_insertionSort, mem_append, mem_filterMap, mem_map] at h
  rcases h with ⟨component, _, h⟩ | ⟨group, hgroup, rfl⟩
  · obtain ⟨files, hfiles, rfl⟩ := Option.map_eq_some_iff.mp h
    refine nodup_group (nodup_files fun e p hp => ?_) hfiles
    obtain ⟨series, _, rfl⟩ := Option.map_eq_some_iff.mp hp
    rfl
  · refine nodup_group (nodup_files fun e p hp => ?_) ((mem_entries _ _).mp hgroup)
    obtain ⟨m, _, rfl⟩ := Option.map_eq_some_iff.mp hp
    rfl

theorem nodup_franchise_keys (view : StateView) : ((franchises view).map (·.key)).Nodup := by
  have hperm := (perm_insertionSort
    (fun a b : Franchise => lex a.title a.key ≤ lex b.title b.key)
    ((components view).toList.filterMap (seriesFranchise view) ++
      (Index.group (namedFiles view)).toList.map nameFranchise)).map (·.key)
  refine hperm.nodup_iff.mpr ?_
  rw [map_append, nodup_append]
  refine ⟨?_, ?_, ?_⟩
  · -- a component has at most one group, under its root
    have hsub : (((components view).toList.filterMap (seriesFranchise view)).map (·.key)).Sublist
        ((components view).keys.map FranchiseKey.series) := by
      rw [← ExtTreeMap.map_fst_toList_eq_keys]
      generalize (components view).toList = rows
      induction rows with
      | nil => exact .slnil
      | cons component rows ih =>
        rw [filterMap_cons]
        cases hg : seriesFranchise view component with
        | none => exact ih.cons _
        | some franchise =>
          obtain ⟨files, _, rfl⟩ := Option.map_eq_some_iff.mp hg
          exact ih.cons_cons _
    exact hsub.nodup ((nodup_keys _).map fun _ _ => FranchiseKey.series.inj)
  · rw [List.map_map]
    have hkeys : (Index.group (namedFiles view)).toList.map (Franchise.key ∘ nameFranchise) =
        (Index.group (namedFiles view)).keys.map FranchiseKey.name := by
      rw [← ExtTreeMap.map_fst_toList_eq_keys, List.map_map]
      rfl
    rw [hkeys]
    exact (nodup_keys _).map fun _ _ => FranchiseKey.name.inj
  · intro key hkey key' hkey' heq
    obtain ⟨franchise, hf, rfl⟩ := mem_map.mp hkey
    obtain ⟨component, _, hg⟩ := mem_filterMap.mp hf
    obtain ⟨files, _, rfl⟩ := Option.map_eq_some_iff.mp hg
    obtain ⟨franchise', hf', rfl⟩ := mem_map.mp hkey'
    obtain ⟨group, _, rfl⟩ := mem_map.mp hf'
    cases heq

theorem exists_group {K V : Type} [LinearOrder K] {l : List (K × V)} {k : K} {v : V}
    (h : (k, v) ∈ l) : ∃ vs, (Index.group l)[k]? = some vs := by
  have hmem : k ∈ Index.group l := Index.mem_collect.mpr ⟨v, h⟩
  exact Option.isSome_iff_exists.mp (ExtTreeMap.mem_iff_isSome_getElem?.mp hmem)

/-- **Every key of a file has a group.** -/
theorem exists_franchise {key : FranchiseKey} (h : franchiseKey view file = some key) :
    ∃ franchise ∈ franchises view, franchise.key = key := by
  simp only [franchises, mem_insertionSort, mem_append, mem_filterMap, mem_map]
  cases key with
  | series root =>
    obtain ⟨files, hfiles⟩ := exists_group (mem_rootedFiles.mpr h)
    -- the file's series is known, so its root has a component
    have hcomponent : root ∈ components view := by
      obtain ⟨series, hseries, hroot⟩ := franchiseKey_eq_series.mp h
      have hknown := ((seriesComponents_spec view).1 series).mpr (.inr (.inr ⟨file, hseries⟩))
      obtain ⟨r, hr⟩ := Option.isSome_iff_exists.mp
        (ExtTreeMap.mem_iff_isSome_getElem?.mp hknown)
      have heq : r = root := by rw [← hroot, franchiseRoot, hr]; rfl
      exact Index.mem_collect.mpr ⟨series, mem_map.mpr
        ⟨(series, root), (mem_entries _ _).mpr (heq ▸ hr), rfl⟩⟩
    obtain ⟨members, hmembers⟩ := Option.isSome_iff_exists.mp
      (ExtTreeMap.mem_iff_isSome_getElem?.mp hcomponent)
    exact ⟨_, .inl ⟨(root, members), (mem_entries _ _).mpr hmembers,
      Option.map_eq_some_iff.mpr ⟨files, hfiles, rfl⟩⟩, rfl⟩
  | name text =>
    obtain ⟨files, hfiles⟩ := exists_group (mem_namedFiles.mpr h)
    exact ⟨_, .inr ⟨(text, files), (mem_entries _ _).mpr hfiles, rfl⟩, rfl⟩

theorem eq_of_connected_unknown (hx : ¬ view.Known x) (h : view.Connected x y) : y = x := by
  have hout : ∀ a b, view.Edge a b → view.Known a ∧ view.Known b := by
    intro a b hab
    obtain ⟨row, hrow, _⟩ := StateView.edge_iff.mp hab
    exact ⟨.inl (ExtTreeMap.mem_iff_isSome_getElem?.mpr (Option.isSome_iff_exists.mpr ⟨row, hrow⟩)),
      .inr (.inl ⟨a, hab⟩)⟩
  have hside : ∀ a b, view.Connected a b → a = b ∨ view.Known a ∧ view.Known b := by
    intro a b hab
    induction hab with
    | rel a b hab => exact .inr (hout a b hab)
    | refl a => exact .inl rfl
    | symm a b _ ih => exact ih.imp Eq.symm And.symm
    | trans a b c _ _ ih ih' =>
      rcases ih with rfl | ih
      · exact ih'
      · rcases ih' with rfl | ih'
        · exact .inr ih
        · exact .inr ⟨ih.1, ih'.2⟩
  rcases hside x y h with heq | hknown
  · exact heq.symm
  · exact absurd hknown.1 hx

theorem isLeast_franchiseRoot (view : StateView) (x : AniDbSeriesId) :
    IsLeast {y | view.Connected x y} (franchiseRoot view x) := by
  unfold franchiseRoot
  cases hx : (seriesComponents view)[x]? with
  | some r => exact (seriesComponents_spec view).2 x r hx
  | none =>
    have hunknown : ¬ view.Known x := by
      rw [← (seriesComponents_spec view).1, ExtTreeMap.mem_iff_isSome_getElem?, hx]
      exact Bool.false_ne_true
    exact ⟨EqvGen.refl x, fun y hy => (eq_of_connected_unknown hunknown hy).ge⟩

theorem franchiseRoot_eq_iff :
    franchiseRoot view x = franchiseRoot view y ↔ view.Connected x y := by
  have hx := isLeast_franchiseRoot view x
  have hy := isLeast_franchiseRoot view y
  constructor
  · intro heq
    exact EqvGen.trans _ _ _ hx.1 (EqvGen.symm _ _ (heq ▸ hy.1))
  · intro hxy
    refine le_antisymm (hx.2 (EqvGen.trans _ _ _ hxy hy.1)) (hy.2 ?_)
    exact EqvGen.trans _ _ _ (EqvGen.symm _ _ hxy) hx.1

/-- **Two files share a group when their series share a component.** -/
theorem share_franchise_iff {f g : Ed2kHash} {s t : AniDbSeriesId} (hf : view.seriesOf f = some s)
    (hg : view.seriesOf g = some t) :
    (∃ franchise ∈ franchises view, f ∈ franchise.files ∧ g ∈ franchise.files) ↔
      view.Connected s t := by
  have hkey : ∀ {file series}, view.seriesOf file = some series →
      franchiseKey view file = some (.series (franchiseRoot view series)) := fun h =>
    franchiseKey_eq_series.mpr ⟨_, h, rfl⟩
  rw [← franchiseRoot_eq_iff]
  constructor
  · rintro ⟨franchise, hmem, hfm, hgm⟩
    rw [mem_files hmem, hkey hf] at hfm
    rw [mem_files hmem, hkey hg, ← hfm] at hgm
    exact FranchiseKey.series.inj (Option.some.inj hgm.symm)
  · intro heq
    obtain ⟨franchise, hmem, hfk⟩ := exists_franchise (hkey hf)
    refine ⟨franchise, hmem, ?_, ?_⟩
    · rw [mem_files hmem, hkey hf, hfk]
    · rw [mem_files hmem, hkey hg, hfk, heq]

/-- **Every file with metadata is listed once.** -/
theorem count_franchise_files {m : AniDbMetadata} (h : view.metadataOf file = some m) :
    ((franchises view).flatMap (·.files)).count file = 1 := by
  obtain ⟨key, hkey⟩ : ∃ key, franchiseKey view file = some key := by
    rw [franchiseKey, h]
    exact ⟨_, rfl⟩
  obtain ⟨franchise, hmem, hfk⟩ := exists_franchise hkey
  refine count_eq_one_of_mem (nodup_flatMap.mpr ⟨fun g => nodup_franchise_files, ?_⟩) ?_
  · -- a file common to two groups would give both its key
    have hkeys := pairwise_map.mp (nodup_franchise_keys view)
    refine hkeys.imp_of_mem fun {a b} ha hb hne f hfa hfb => hne ?_
    exact Option.some.inj (((mem_files ha f).mp hfa).symm.trans ((mem_files hb f).mp hfb))
  · exact mem_flatMap.mpr ⟨franchise, hmem, (mem_files hmem file).mpr (hfk ▸ hkey)⟩

end Grouping

end DessPlay.Core
