/-
  DessPlay.Core.SeriesIdentity
  **WHICH LIST ENTRY CLAIMS A FILE** (`dessplay-core/src/series_identity.rs`,
  `derive::series_watch_for_file`).

  A file belongs to the entry linked into its franchise, else to the one it was
  attached to by hand, else to the one that carries its name.  Several entries can
  be linked into one franchise; `canonicalFirst` picks the one that speaks for it.
  `mem_claimants` says who competes, `head_claimants` who wins.
-/
import DessPlay.Core.Derive
import DessPlay.Core.Franchise

namespace DessPlay.Core

open BTree Crdts Relation
open List hiding getElem?_insert insert
open Std (ExtTreeMap ExtTreeSet)

/-! ## §1. Derived ids. -/

/-- What the id of an entry nobody made by hand is derived from. -/
inductive DerivedName where
  | anidb (series : AniDbSeriesId)
  | name (text : String)
  deriving DecidableEq

def utf8 (text : String) : List Nat := text.toByteArray.data.toList.map UInt8.toNat

/-- The bytes that are hashed.  On a `u32` the last number of a series id is a byte too. -/
def DerivedName.bytes : DerivedName → List Nat
  | .anidb series => utf8 "dessplay:list-entry:anidb:" ++
      [series % 256, series / 256 % 256, series / 65536 % 256, series / 16777216]
  | .name text => utf8 "dessplay:list-entry:name:" ++ utf8 text

def derivedName (series : Option AniDbSeriesId) (text : String) : DerivedName :=
  match series with
  | some id => .anidb id
  | none => .name text

section Resolve

-- MD4, as a number: third-party code
variable (md4 : List Nat → ListEntryId)

def deriveEntryId (series : Option AniDbSeriesId) (text : String) : ListEntryId :=
  md4 (derivedName series text).bytes

/-! ## §2. The order of the entries of one franchise. -/

def linkOf (view : StateView) (id : ListEntryId) : Option AniDbSeriesId :=
  view.entries[id]?.bind (·.anidbSeriesId)

def autoCreated (view : StateView) (id : ListEntryId) : Bool :=
  (linkOf view id).any fun series => deriveEntryId md4 (some series) "" = id

/-- How deep along the prequels an entry is linked; 0 without a link. -/
def linkOrdinal (view : StateView) (id : ListEntryId) : Nat :=
  (linkOf view id).elim 0 (seasonOrdinal view)

def canonicalKey (view : StateView) (id : ListEntryId) : Bool ×ₗ Natᵒᵈ :=
  lex (autoCreated md4 view id) (OrderDual.toDual (linkOrdinal view id))

/-- Order entries canonical first, without duplicates; equal keys keep the order of their ids. -/
def canonicalFirst (view : StateView) (ids : List ListEntryId) : List ListEntryId :=
  ((ids.insertionSort (· ≤ ·)).dedup).insertionSort
    fun a b => canonicalKey md4 view a ≤ canonicalKey md4 view b

/-! ## §3. The index and the resolution. -/

structure SeriesEntryIndex where
  /-- entries linked to each series -/
  bySeries : BTreeMap AniDbSeriesId (List ListEntryId)
  /-- entries whose season's row names a series by a structural edge -/
  byNeighbour : BTreeMap AniDbSeriesId (List ListEntryId)
  /-- first entry a file is attached to -/
  byManual : BTreeMap Ed2kHash ListEntryId
  /-- first entry that carries a name or an alias -/
  byName : BTreeMap String ListEntryId

def links (view : StateView) : List (AniDbSeriesId × ListEntryId) :=
  view.entries.toList.filterMap fun e => e.2.anidbSeriesId.map fun series => (series, e.1)

def neighbours (view : StateView) : List (AniDbSeriesId × ListEntryId) :=
  (links view).flatMap fun link => (view.structural link.1).map fun target => (target, link.2)

def attachments (view : StateView) : List (Ed2kHash × ListEntryId) :=
  view.entries.toList.flatMap fun e => e.2.manualFiles.toList.map fun file => (file, e.1)

def names (view : StateView) : List (String × ListEntryId) :=
  view.entries.toList.flatMap fun e =>
    (e.2.name, e.1) :: e.2.localAliases.toList.map fun name => (name, e.1)

def SeriesEntryIndex.new (view : StateView) : SeriesEntryIndex where
  bySeries := Index.group (links view)
  byNeighbour := Index.group (neighbours view)
  byManual := Index.first (attachments view)
  byName := Index.first (names view)

namespace SeriesEntryIndex

def claimants (index : SeriesEntryIndex) (view : StateView) (series : AniDbSeriesId) :
    List ListEntryId :=
  canonicalFirst md4 view
    (((reachableComponent view series).toList.flatMap fun member =>
      index.bySeries[member]?.getD []) ++ index.byNeighbour[series]?.getD [])

def resolve (index : SeriesEntryIndex) (view : StateView) (file : Ed2kHash) : Option ListEntryId :=
  let claimed := (view.seriesOf file).bind fun series => (index.claimants md4 view series).head?
  -- attaching a file by hand needs no metadata
  (claimed.or index.byManual[file]?).or
    ((view.metadataOf file).bind fun m => index.byName[m.seriesName]?)

end SeriesEntryIndex

def resolveSeriesEntryForFile (view : StateView) (file : Ed2kHash) : Option ListEntryId :=
  (SeriesEntryIndex.new view).resolve md4 view file

def entriesClaimingSeries (view : StateView) (series : AniDbSeriesId) : List ListEntryId :=
  (SeriesEntryIndex.new view).claimants md4 view series

def buildEntryForFile (view : StateView) (file : Ed2kHash) : Option SeriesListEntry :=
  (view.metadataOf file).map fun m =>
    { name := m.seriesName
      neroName := none
      genre := none
      notes := []
      recommender := none
      status := .active
      statusNote := none
      source := none
      watchers := ∅
      anidbSeriesId := m.seriesId
      localAliases := if m.seriesId.isNone then (∅ : BTreeSet String).insert m.seriesName else ∅
      manualFiles := ∅
      anidbUnavailable := false }

def resolveOrBuildEntry (view : StateView) (file : Ed2kHash) :
    Option (ListEntryId × Option SeriesListEntry) :=
  match resolveSeriesEntryForFile md4 view file with
  | some id => some (id, none)
  | none =>
    (view.metadataOf file).bind fun m =>
      (buildEntryForFile view file).map fun entry =>
        (deriveEntryId md4 m.seriesId m.seriesName, some entry)

def SeriesWatchState.stronger : SeriesWatchState → SeriesWatchState → SeriesWatchState
  | .watching, _ | _, .watching => .watching
  | .notWatching, _ | _, .notWatching => .notWatching
  | .maybe, .maybe => .maybe

def StateView.preferenceOf (view : StateView) (user : UserId) (entry : ListEntryId) :
    Option SeriesPreference :=
  MapView.find (f := .seriesPreference) view.seriesPreference (lex user entry)

/-- A user's commitment to the series of a file: the strongest preference for any entry of its
franchise. -/
def seriesWatchForFile (view : StateView) (user : UserId) (file : Ed2kHash) : SeriesWatchState :=
  match resolveSeriesEntryForFile md4 view file with
  | none => .maybe
  | some entry =>
    let siblings :=
      match linkOf view entry with
      | some series => entriesClaimingSeries md4 view series
      | none => [entry]
    ((siblings.filterMap fun entry => view.preferenceOf user entry).map (·.state)).foldl
      SeriesWatchState.stronger .maybe

/-- `a` speaks for a franchise rather than `b`: made by hand before derived, then the deeper link,
then the lower id. -/
def Precedes (view : StateView) (a b : ListEntryId) : Prop :=
  autoCreated md4 view a = false ∧ autoCreated md4 view b = true ∨
  autoCreated md4 view a = autoCreated md4 view b ∧
    (linkOrdinal view b < linkOrdinal view a ∨ linkOrdinal view a = linkOrdinal view b ∧ a ≤ b)

end Resolve

/-! ## §4. Who claims a series, and who speaks for it. -/

section Claims

variable {md4 : List Nat → ListEntryId} {view : StateView}

variable {id a b : ListEntryId} {series : AniDbSeriesId}

theorem linkOf_iff :
    linkOf view id = some series ↔
      ∃ entry, view.entries[id]? = some entry ∧ entry.anidbSeriesId = some series :=
  Option.bind_eq_some_iff

theorem mem_links : (series, id) ∈ links view ↔ linkOf view id = some series := by
  rw [linkOf_iff]
  simp only [links, mem_filterMap, Prod.exists, mem_entries, Option.map_eq_some_iff,
    Prod.mk.injEq]
  constructor
  · rintro ⟨_, entry, hentry, _, hlink, rfl, rfl⟩
    exact ⟨entry, hentry, hlink⟩
  · rintro ⟨entry, hentry, hlink⟩
    exact ⟨id, entry, hentry, series, hlink, rfl, rfl⟩

theorem mem_neighbours :
    (series, id) ∈ neighbours view ↔
      ∃ link, linkOf view id = some link ∧ view.Edge link series := by
  simp only [neighbours, mem_flatMap, Prod.exists, mem_links, mem_map, Prod.mk.injEq]
  constructor
  · rintro ⟨link, _, hlink, _, hedge, rfl, rfl⟩
    exact ⟨link, hlink, hedge⟩
  · rintro ⟨link, hlink, hedge⟩
    exact ⟨link, id, hlink, series, hedge, rfl, rfl⟩

theorem mem_attachments {file : Ed2kHash} :
    (file, id) ∈ attachments view ↔
      ∃ entry, view.entries[id]? = some entry ∧ file ∈ entry.manualFiles := by
  simp only [attachments, mem_flatMap, Prod.exists, mem_entries, mem_map, Prod.mk.injEq,
    mem_toList]
  constructor
  · rintro ⟨_, entry, hentry, _, hfile, rfl, rfl⟩
    exact ⟨entry, hentry, hfile⟩
  · rintro ⟨entry, hentry, hfile⟩
    exact ⟨id, entry, hentry, file, hfile, rfl, rfl⟩

theorem mem_names {name : String} :
    (name, id) ∈ names view ↔
      ∃ entry, view.entries[id]? = some entry ∧
        (name = entry.name ∨ name ∈ entry.localAliases) := by
  simp only [names, mem_flatMap, Prod.exists, mem_entries, mem_cons, mem_map,
    Prod.mk.injEq, mem_toList]
  constructor
  · rintro ⟨_, entry, hentry, ⟨rfl, rfl⟩ | ⟨_, halias, rfl, rfl⟩⟩
    · exact ⟨entry, hentry, .inl rfl⟩
    · exact ⟨entry, hentry, .inr halias⟩
  · rintro ⟨entry, hentry, rfl | halias⟩
    · exact ⟨id, entry, hentry, .inl ⟨rfl, rfl⟩⟩
    · exact ⟨id, entry, hentry, .inr ⟨name, halias, rfl, rfl⟩⟩

theorem mem_canonicalFirst {ids : List ListEntryId} :
    id ∈ canonicalFirst md4 view ids ↔ id ∈ ids := by
  rw [canonicalFirst, mem_insertionSort, mem_dedup, mem_insertionSort]

/-- **Who claims a series**: the entries linked to what the series reaches, and those whose own
season names it. -/
theorem mem_claimants :
    id ∈ entriesClaimingSeries md4 view series ↔ ∃ link, linkOf view id = some link ∧
      (link ∈ reachableComponent view series ∨ view.Edge link series) := by
  unfold entriesClaimingSeries SeriesEntryIndex.claimants SeriesEntryIndex.new
  rw [mem_canonicalFirst, mem_append, Index.mem_getD_group, mem_neighbours]
  simp only [mem_flatMap, mem_toList, Index.mem_getD_group, mem_links]
  constructor
  · rintro (⟨link, hreach, hlink⟩ | ⟨link, hlink, hedge⟩)
    · exact ⟨link, hlink, .inl hreach⟩
    · exact ⟨link, hlink, .inr hedge⟩
  · rintro ⟨link, hlink, hreach | hedge⟩
    · exact .inl ⟨link, hreach, hlink⟩
    · exact .inr ⟨link, hlink, hedge⟩

theorem precedes_of_key (h : canonicalKey md4 view a < canonicalKey md4 view b ∨
      canonicalKey md4 view a = canonicalKey md4 view b ∧ a ≤ b) : Precedes md4 view a b := by
  unfold canonicalKey at h
  unfold Precedes
  rcases h with h | ⟨h, hle⟩
  · rcases Prod.Lex.toLex_lt_toLex.mp h with hauto | ⟨hauto, hdeep⟩
    · exact .inl (Bool.lt_iff.mp hauto)
    · exact .inr ⟨hauto, .inl hdeep⟩
  · obtain ⟨hauto, hdeep⟩ := lex_inj.mp h
    exact .inr ⟨hauto, .inr ⟨OrderDual.toDual_inj.mp hdeep, hle⟩⟩

/-- **Who speaks for a franchise.** -/
theorem head_canonicalFirst {ids : List ListEntryId}
    (h : (canonicalFirst md4 view ids).head? = some id) :
    id ∈ ids ∧ ∀ j ∈ ids, Precedes md4 view id j := by
  have hsorted : ((ids.insertionSort (· ≤ ·)).dedup).Pairwise (· < ·) :=
    ((pairwise_insertionSort (· ≤ ·) ids).sublist (dedup_sublist _)).imp₂
      (fun _ _ => lt_of_le_of_ne) (nodup_dedup _)
  obtain ⟨hmem, hfirst⟩ := Index.head_stable hsorted h
  have hids : ∀ j, j ∈ (ids.insertionSort (· ≤ ·)).dedup ↔ j ∈ ids := fun j => by
    rw [mem_dedup, mem_insertionSort]
  exact ⟨(hids id).mp hmem, fun j hj => precedes_of_key (hfirst j ((hids j).mpr hj))⟩

theorem Precedes.antisymm (hab : Precedes md4 view a b) (hba : Precedes md4 view b a) : a = b := by
  unfold Precedes at hab hba
  rcases hab with hab | ⟨hauto, hab⟩
  · rcases hba with hba | ⟨hauto, _⟩
    · exact absurd (hab.1.symm.trans hba.2) Bool.false_ne_true
    · exact absurd (hab.1.symm.trans (hauto.symm.trans hab.2)) Bool.false_ne_true
  · rcases hba with hba | ⟨_, hba⟩
    · exact absurd (hba.1.symm.trans (hauto.symm.trans hba.2)) Bool.false_ne_true
    · -- neither link is deeper, so the ids decide
      rcases hab with hab | ⟨hdeep, hle⟩
      · rcases hba with hba | ⟨hdeep, _⟩
        · exact absurd hab hba.not_gt
        · exact absurd hab hdeep.not_lt
      · rcases hba with hba | ⟨_, hge⟩
        · exact absurd hba hdeep.not_lt
        · exact le_antisymm hle hge

theorem head_claimants (hclaimed : ∃ id, id ∈ entriesClaimingSeries md4 view series) :
    ∃ id, (entriesClaimingSeries md4 view series).head? = some id ∧
      id ∈ entriesClaimingSeries md4 view series ∧
      ∀ j ∈ entriesClaimingSeries md4 view series, Precedes md4 view id j := by
  obtain ⟨j, hj⟩ := hclaimed
  obtain ⟨id, hid⟩ := Option.isSome_iff_exists.mp (isSome_head?.mpr (ne_nil_of_mem hj))
  obtain ⟨hmem, hfirst⟩ := head_canonicalFirst hid
  exact ⟨id, hid, mem_canonicalFirst.mpr hmem, fun j hj => hfirst j (mem_canonicalFirst.mp hj)⟩

theorem resolve_of_head {file : Ed2kHash} (hseries : view.seriesOf file = some series)
    (hid : (entriesClaimingSeries md4 view series).head? = some id) :
    resolveSeriesEntryForFile md4 view file = some id := by
  unfold resolveSeriesEntryForFile SeriesEntryIndex.resolve
  rw [hseries]
  show (((entriesClaimingSeries md4 view series).head?.or _).or _) = some id
  rw [hid]
  rfl

end Claims

/-! ## §5. One franchise, one entry. -/

section Symmetric

variable {md4 : List Nat → ListEntryId} {view : StateView}

variable {s t : AniDbSeriesId}

theorem reach_symm (hedge : ∀ a b, view.Edge a b → view.Edge b a) (h : ReflTransGen view.Edge s t) :
    ReflTransGen view.Edge t s := by
  induction h with
  | refl => exact .refl
  | tail _ hstep ih => exact ih.head (hedge _ _ hstep)

theorem reach_iff_connected (hedge : ∀ a b, view.Edge a b → view.Edge b a) :
    ReflTransGen view.Edge s t ↔ view.Connected s t := by
  constructor
  · intro h
    induction h with
    | refl => exact EqvGen.refl s
    | tail _ hstep ih => exact EqvGen.trans _ _ _ ih (EqvGen.rel _ _ hstep)
  · intro h
    induction h with
    | rel a b hab => exact .single hab
    | refl a => exact .refl
    | symm a b _ ih => exact reach_symm hedge ih
    | trans a b c _ _ ih ih' => exact ih.trans ih'

theorem mem_claimants_iff_connected (hedge : ∀ a b, view.Edge a b → view.Edge b a)
    {series : AniDbSeriesId} {id : ListEntryId} :
    id ∈ entriesClaimingSeries md4 view series ↔
      ∃ link, linkOf view id = some link ∧ view.Connected series link := by
  rw [mem_claimants]
  refine exists_congr fun link => and_congr_right fun _ => ?_
  rw [mem_reachableComponent, reach_iff_connected hedge, or_iff_left_iff_imp]
  exact fun h => EqvGen.symm _ _ (EqvGen.rel _ _ h)

/-- **All files of a franchise with a linked entry go to one entry.** -/
theorem resolve_component (md4 : List Nat → ListEntryId)
    (hedge : ∀ a b, view.Edge a b → view.Edge b a) {id : ListEntryId} {link : AniDbSeriesId}
    (hid : linkOf view id = some link) (hlink : view.Connected s link) :
    ∃ entry ∈ entriesClaimingSeries md4 view s,
      (∀ j ∈ entriesClaimingSeries md4 view s, Precedes md4 view entry j) ∧
      ∀ file t, view.seriesOf file = some t → view.Connected s t →
        resolveSeriesEntryForFile md4 view file = some entry := by
  have hsame : ∀ {t}, view.Connected s t → ∀ j,
      j ∈ entriesClaimingSeries md4 view t ↔ j ∈ entriesClaimingSeries md4 view s := by
    intro t hst j
    rw [mem_claimants_iff_connected hedge, mem_claimants_iff_connected hedge]
    refine exists_congr fun link => and_congr_right fun _ => ⟨fun h => ?_, fun h => ?_⟩
    · exact EqvGen.trans _ _ _ hst h
    · exact EqvGen.trans _ _ _ (EqvGen.symm _ _ hst) h
  have hclaimed : ∃ j, j ∈ entriesClaimingSeries md4 view s :=
    ⟨id, (mem_claimants_iff_connected hedge).mpr ⟨link, hid, hlink⟩⟩
  obtain ⟨entry, _, hmem, hfirst⟩ := head_claimants hclaimed
  refine ⟨entry, hmem, hfirst, fun file t hfile hst => ?_⟩
  obtain ⟨j, hj⟩ := hclaimed
  obtain ⟨found, hfound, hfmem, hffirst⟩ := head_claimants ⟨j, (hsame hst j).mpr hj⟩
  have heq : found = entry := Precedes.antisymm
    (hffirst entry ((hsame hst entry).mpr hmem)) (hfirst found ((hsame hst found).mp hfmem))
  exact resolve_of_head hfile (heq ▸ hfound)

/-- **One franchise, one list entry.**  In a view whose structural relations are symmetric, every
related series having its row: the union-find maps every known series to the least of its
component; the walk from a series finds its component; files share a group exactly when their
series share a component, and every file with metadata is listed once; and all files of a
component with a linked entry resolve to the one entry that speaks for it, with one answer per
user. -/
theorem one_franchise_one_entry (md4 : List Nat → ListEntryId) (view : StateView)
    (hsymm : ∀ a b, view.Edge a b → b ∈ view.relations → view.Edge b a)
    (hrows : ∀ a b, view.Edge a b → b ∈ view.relations) :
    (∀ s, s ∈ seriesComponents view ↔ view.Known s) ∧
    (∀ s r, (seriesComponents view)[s]? = some r → IsLeast {t | view.Connected s t} r) ∧
    (∀ s t, t ∈ reachableComponent view s ↔ view.Connected s t) ∧
    (∀ f g s t, view.seriesOf f = some s → view.seriesOf g = some t →
      ((∃ franchise ∈ franchises view, f ∈ franchise.files ∧ g ∈ franchise.files) ↔
        view.Connected s t)) ∧
    (∀ f m, view.metadataOf f = some m → ((franchises view).flatMap (·.files)).count f = 1) ∧
    ∀ s, (∃ id link, linkOf view id = some link ∧ view.Connected s link) →
      ∃ entry link, linkOf view entry = some link ∧ view.Connected s link ∧
        (∀ id link, linkOf view id = some link → view.Connected s link →
          Precedes md4 view entry id) ∧
        ∃ watch : UserId → SeriesWatchState, ∀ file t, view.seriesOf file = some t →
          view.Connected s t → resolveSeriesEntryForFile md4 view file = some entry ∧
            ∀ user, seriesWatchForFile md4 view user file = watch user := by
  have hedge : ∀ a b, view.Edge a b → view.Edge b a := fun a b h => hsymm a b h (hrows a b h)
  refine ⟨(seriesComponents_spec view).1, (seriesComponents_spec view).2, fun s t => ?_,
    fun f g s t hf hg => share_franchise_iff hf hg, fun f m hm => count_franchise_files hm,
    fun s ⟨id, link, hid, hlink⟩ => ?_⟩
  · rw [mem_reachableComponent, reach_iff_connected hedge]
  · obtain ⟨entry, hentry, hfirst, hresolve⟩ := resolve_component md4 hedge hid hlink
    obtain ⟨elink, helink, hconn⟩ := (mem_claimants_iff_connected hedge).mp hentry
    refine ⟨entry, elink, helink, hconn, fun j jlink hj hjlink => ?_, ?_⟩
    · exact hfirst j ((mem_claimants_iff_connected hedge).mpr ⟨jlink, hj, hjlink⟩)
    · -- the commitment is read off the entry, and the entry is the same
      refine ⟨fun user => ((entriesClaimingSeries md4 view elink).filterMap
        (view.preferenceOf user)).map (·.state) |>.foldl SeriesWatchState.stronger .maybe,
        fun file t hfile hst => ⟨hresolve file t hfile hst, fun user => ?_⟩⟩
      rw [seriesWatchForFile, hresolve file t hfile hst]
      dsimp only
      rw [helink]

end Symmetric

def oneEdge (kind : RelationKind) (target : AniDbSeriesId) : SeriesRelations :=
  { title := "", year := none, episodeCount := none, shortTitles := []
    relations := (∅ : BTreeSet SeriesRelation).insert ⟨kind, target⟩ }

def episodeOf (series : AniDbSeriesId) (name : String) : AniDbMetadata :=
  { source := .aniDb, seriesName := name, seriesId := some series, episodeNumber := none }

def linkedEntry (name : String) (link : Option AniDbSeriesId) : SeriesListEntry :=
  { name := name, neroName := none, genre := none, notes := [], recommender := none
    status := .active, statusNote := none, source := none, watchers := ∅, anidbSeriesId := link
    localAliases := ∅, manualFiles := ∅, anidbUnavailable := false }

def twoSeasons : StateView :=
  { (default : StateView) with
    seriesRelations := ((∅ : BTreeMap AniDbSeriesId SeriesRelations).insert 1
      (oneEdge .sequel 2)).insert 2 (oneEdge .prequel 1)
    anidbMetadata := ((∅ : BTreeMap Ed2kHash (Option AniDbMetadata)).insert 10
      (some (episodeOf 1 "A"))).insert 11 (some (episodeOf 2 "A II"))
    listEntries := ((∅ : BTreeMap ListEntryId SeriesListEntry).insert 7
      (linkedEntry "A" (some 1))).insert 9 (linkedEntry "A II" (some 2)) }

theorem structural_twoSeasons (a b : AniDbSeriesId) :
    twoSeasons.Edge a b ↔ a = 1 ∧ b = 2 ∨ a = 2 ∧ b = 1 := by
  have hsequel : (oneEdge .sequel 2).structural = [2] := by decide +kernel
  have hprequel : (oneEdge .prequel 1).structural = [1] := by decide +kernel
  have hrow : twoSeasons.relations[a]? = if a = 2 then some (oneEdge .prequel 1)
      else if a = 1 then some (oneEdge .sequel 2) else none := by
    show (((∅ : BTreeMap AniDbSeriesId SeriesRelations).insert 1 _).insert 2 _)[a]? = _
    rw [getElem?_insert, getElem?_insert, ExtTreeMap.getElem?_empty]
  rw [StateView.edge_iff, hrow]
  split
  next h => simp [h, hprequel]
  · split
    next h => simp [h, hsequel]
    next h h' => simp [h, h']

theorem one_franchise_one_entry_two_seasons : ∃ entry,
    resolveSeriesEntryForFile (fun _ => 7) twoSeasons 10 = some entry ∧
    resolveSeriesEntryForFile (fun _ => 7) twoSeasons 11 = some entry := by
  have hrows : ∀ a b, twoSeasons.Edge a b → b ∈ twoSeasons.relations := by
    intro a b h
    rcases (structural_twoSeasons a b).mp h with ⟨_, rfl⟩ | ⟨_, rfl⟩ <;> decide +kernel
  have hsymm : ∀ a b, twoSeasons.Edge a b → b ∈ twoSeasons.relations → twoSeasons.Edge b a := by
    intro a b h _
    rw [structural_twoSeasons] at h ⊢
    tauto
  obtain ⟨_, _, _, _, _, hentries⟩ :=
    one_franchise_one_entry (fun _ => 7) twoSeasons hsymm hrows
  have hseasons : twoSeasons.Connected 1 2 :=
    EqvGen.rel _ _ ((structural_twoSeasons 1 2).mpr (.inl ⟨rfl, rfl⟩))
  obtain ⟨entry, _, _, _, _, _, hresolve⟩ :=
    hentries 1 ⟨7, 1, by decide +kernel, EqvGen.refl 1⟩
  exact ⟨entry, (hresolve 10 1 (by decide +kernel) (EqvGen.refl 1)).1,
    (hresolve 11 2 (by decide +kernel) hseasons).1⟩

end DessPlay.Core
