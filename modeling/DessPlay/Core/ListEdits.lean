/-
  DessPlay.Core.ListEdits
  **HISTORIES OF LIST EDITS, AND WHAT AUTO-CREATION OVERWRITES**
  (`dessplay-core/src/series_identity.rs`, `session::resolve_or_create_series_entry`).

  The id of an auto-created entry is derived from a series or a name, but files find
  entries by their CURRENT links, names and aliases: an entry that has been edited away
  from what its id was derived from is found by nobody, and the next auto-creation lands
  on it.
-/
import DessPlay.Core.SeriesIdentity
import DessPlay.Lib.Machine

namespace DessPlay.Core

open BTree Crdts Relation List Option Machine
open Std (ExtTreeMap ExtTreeSet)

/-! ## §1. Derived names are told apart by their bytes. -/

theorem utf8_injective : Function.Injective utf8 := by
  intro a b h
  have hbytes := map_injective_iff.mpr (fun _ _ => UInt8.toNat_inj.mp) h
  exact String.toByteArray_inj.mp (ByteArray.ext (Array.toList_inj.mp hbytes))

theorem DerivedName.bytes_anidb_ne_name (series : AniDbSeriesId) (text : String) :
    (DerivedName.anidb series).bytes ≠ (DerivedName.name text).bytes := by
  intro h
  have hanidb : utf8 "dessplay:list-entry:anidb:" =
      utf8 "dessplay:list-entry:" ++ [97] ++ utf8 "nidb:" := by
    decide +kernel
  have hname : utf8 "dessplay:list-entry:name:" =
      utf8 "dessplay:list-entry:" ++ [110] ++ utf8 "ame:" := by
    decide +kernel
  unfold bytes at h
  rw [hanidb, hname] at h
  simp only [append_assoc] at h
  exact absurd (List.cons.inj (append_cancel_left h)).1 (by decide)

theorem le_bytes_injective (a b : Nat)
    (h : [a % 256, a / 256 % 256, a / 65536 % 256, a / 16777216] =
      [b % 256, b / 256 % 256, b / 65536 % 256, b / 16777216]) : a = b := by
  simp only [List.cons.injEq, and_true] at h
  omega

theorem DerivedName.bytes_injective : Function.Injective DerivedName.bytes := by
  intro n n' h
  cases n with
  | anidb series =>
    cases n' with
    | anidb series' =>
      rw [le_bytes_injective series series' (append_cancel_left h)]
    | name text => exact absurd h (bytes_anidb_ne_name series text)
  | name text =>
    cases n' with
    | anidb series => exact absurd h.symm (bytes_anidb_ne_name series text)
    | name text' => rw [utf8_injective (append_cancel_left h)]

/-! ## §2. The edits. -/

namespace StateView

def putListEntry (view : StateView) (id : ListEntryId) (entry : SeriesListEntry) : StateView :=
  { view with listEntries := view.entries.insert id entry }

end StateView

/-- What reaches a client's view of the List and of what it is read with. -/
inductive ListEvent where
  /-- anybody creates, renames, relinks or otherwise edits an entry -/
  | putListEntry (id : ListEntryId) (entry : SeriesListEntry)
  /-- the entry for a file is resolved, and created if there is none -/
  | autoCreate (file : Ed2kHash)
  /-- the server learns about a file -/
  | setMetadata (file : Ed2kHash) (metadata : Option AniDbMetadata)
  /-- the server learns about a series -/
  | setRelations (series : AniDbSeriesId) (row : SeriesRelations)
  deriving DecidableEq

section Steps

variable (md4 : List Nat → ListEntryId)

def resolveOrCreateSeriesEntry (view : StateView) (file : Ed2kHash) : StateView :=
  match resolveOrBuildEntry md4 view file with
  | some (id, some entry) => view.putListEntry id entry
  | _ => view

def listStep (view : StateView) : ListEvent → Option StateView
  | .putListEntry id entry => some (view.putListEntry id entry)
  | .autoCreate file => some (resolveOrCreateSeriesEntry md4 view file)
  | .setMetadata file m => some { view with anidbMetadata := view.metadata.insert file m }
  | .setRelations series row =>
    some { view with seriesRelations := view.relations.insert series row }

/-- An entry whose id is derived still has the link, or still carries the name, it is derived
from. -/
structure Carries (id : ListEntryId) (entry : SeriesListEntry) : Prop where
  link : ∀ series, md4 (DerivedName.anidb series).bytes = id → entry.anidbSeriesId = some series
  name : ∀ text, md4 (DerivedName.name text).bytes = id →
    text = entry.name ∨ text ∈ entry.localAliases

def KeepsDerived (_ : StateView) : ListEvent → Prop
  | .putListEntry id entry => Carries md4 id entry
  | _ => True

def AllCarry (view : StateView) : Prop :=
  ∀ id entry, view.entries[id]? = some entry → Carries md4 id entry

end Steps

section Frame

variable {view : StateView} {id : ListEntryId} {entry : SeriesListEntry}

@[simp] theorem relations_putListEntry : (view.putListEntry id entry).relations = view.relations :=
  rfl

@[simp] theorem metadata_putListEntry : (view.putListEntry id entry).metadata = view.metadata := rfl

theorem entries_putListEntry (j : ListEntryId) :
    (view.putListEntry id entry).entries[j]? = if j = id then some entry else view.entries[j]? :=
  getElem?_insert _ _ _ _

end Frame

/-! ## §3. What nobody claims. -/

section Unclaimed

variable {md4 : List Nat → ListEntryId} {view : StateView} {file : Ed2kHash}

/-- Nothing claims a file: no entry is linked into its franchise, it is attached to none, and none
carries its name. -/
theorem resolve_eq_none :
    resolveSeriesEntryForFile md4 view file = none ↔
      (∀ series, view.seriesOf file = some series →
        ∀ id, id ∉ entriesClaimingSeries md4 view series) ∧
      (∀ id, (file, id) ∉ attachments view) ∧
      ∀ m, view.metadataOf file = some m → ∀ id, (m.seriesName, id) ∉ names view := by
  unfold resolveSeriesEntryForFile SeriesEntryIndex.resolve
  simp only [or_eq_none_iff, bind_eq_none_iff, head?_eq_none_iff,
    eq_nil_iff_forall_not_mem, and_assoc]
  refine and_congr_right' (and_congr Index.getElem?_first_eq_none ?_)
  exact forall_congr' fun m => forall_congr' fun _ => Index.getElem?_first_eq_none

theorem resolveOrBuildEntry_new {id : ListEntryId} {entry : SeriesListEntry}
    (h : resolveOrBuildEntry md4 view file = some (id, some entry)) :
    resolveSeriesEntryForFile md4 view file = none ∧ ∃ m, view.metadataOf file = some m ∧
      id = md4 (derivedName m.seriesId m.seriesName).bytes ∧ entry.name = m.seriesName ∧
      entry.anidbSeriesId = m.seriesId ∧ entry.manualFiles = ∅ := by
  unfold resolveOrBuildEntry at h
  split at h
  · cases h
  next hnone =>
    obtain ⟨m, hm, h⟩ := bind_eq_some_iff.mp h
    obtain ⟨built, hbuilt, h⟩ := map_eq_some_iff.mp h
    obtain ⟨rfl, rfl⟩ : deriveEntryId md4 m.seriesId m.seriesName = id ∧ built = entry := by
      simpa using h
    rw [buildEntryForFile, hm] at hbuilt
    cases hbuilt
    exact ⟨hnone, m, hm, rfl, rfl, rfl, rfl⟩

end Unclaimed

/-! ## §4. Auto-creation. -/

section AutoCreate

variable {md4 : List Nat → ListEntryId} {view : StateView}

/-- What is found under its derived id while every entry carries what its id is derived from is
found by resolving, too. -/
theorem resolve_ne_none {file : Ed2kHash} {m : AniDbMetadata} (hm : view.metadataOf file = some m)
    (hall : AllCarry md4 view) {old : SeriesListEntry}
    (hold : view.entries[md4 (derivedName m.seriesId m.seriesName).bytes]? = some old) :
    resolveSeriesEntryForFile md4 view file ≠ none := by
  intro hnone
  obtain ⟨hclaims, _, hnames⟩ := resolve_eq_none.mp hnone
  have hcarries := hall _ old hold
  cases hseries : m.seriesId with
  | some series =>
    rw [hseries] at hold hcarries
    have hlink : linkOf view (md4 (DerivedName.anidb series).bytes) = some series :=
      linkOf_iff.mpr ⟨old, hold, hcarries.link series rfl⟩
    refine hclaims series (by rw [StateView.seriesOf, hm]; exact hseries) _
      (mem_claimants.mpr ⟨series, hlink, .inl ?_⟩)
    exact (mem_reachableComponent view series series).mpr .refl
  | none =>
    rw [hseries] at hold hcarries
    exact hnames m hm _ (mem_names.mpr ⟨old, hold, hcarries.name m.seriesName rfl⟩)

theorem resolve_putListEntry {file : Ed2kHash} {id : ListEntryId} {entry : SeriesListEntry}
    (h : resolveOrBuildEntry md4 view file = some (id, some entry)) :
    resolveSeriesEntryForFile md4 (view.putListEntry id entry) file = some id := by
  obtain ⟨hnone, m, hm, _, hname, hlink, hmanual⟩ := resolveOrBuildEntry_new h
  obtain ⟨hclaims, hattached, hnames⟩ := resolve_eq_none.mp hnone
  have hstored : (view.putListEntry id entry).entries[id]? = some entry := by
    rw [entries_putListEntry, if_pos rfl]
  -- an entry other than the new one is as it was, and claims nothing of the file
  have hother : ∀ {j old}, j ≠ id → (view.putListEntry id entry).entries[j]? = some old →
      view.entries[j]? = some old := by
    intro j old hne hj
    rwa [entries_putListEntry, if_neg hne] at hj
  cases hseries : m.seriesId with
  | some series =>
    have hfile : view.seriesOf file = some series := by
      rw [StateView.seriesOf, hm]
      exact hseries
    have hnew : id ∈ entriesClaimingSeries md4 (view.putListEntry id entry) series := by
      have hself := linkOf_iff.mpr ⟨entry, hstored, hlink.trans hseries⟩
      exact mem_claimants.mpr
        ⟨series, hself, .inl ((mem_reachableComponent _ series series).mpr .refl)⟩
    have honly : ∀ j ∈ entriesClaimingSeries md4 (view.putListEntry id entry) series, j = id := by
      intro j hj
      by_contra hne
      obtain ⟨link, hjlink, hclaim⟩ := mem_claimants.mp hj
      obtain ⟨old, hold, holdlink⟩ := linkOf_iff.mp hjlink
      exact hclaims series hfile j
        (mem_claimants.mpr ⟨link, linkOf_iff.mpr ⟨old, hother hne hold, holdlink⟩, hclaim⟩)
    obtain ⟨k, hhead, hk, _⟩ := head_claimants ⟨id, hnew⟩
    have hstill : (view.putListEntry id entry).seriesOf file = some series := hfile
    exact resolve_of_head hstill (honly k hk ▸ hhead)
  | none =>
    have hfile : (view.putListEntry id entry).seriesOf file = none := by
      show (view.metadataOf file).bind (·.seriesId) = none
      rw [hm]
      exact hseries
    have hmanual' : (Index.first (attachments (view.putListEntry id entry)))[file]? = none := by
      refine Index.getElem?_first_eq_none.mpr fun j hj => ?_
      obtain ⟨old, hold, hattach⟩ := mem_attachments.mp hj
      by_cases hne : j = id
      · rw [hne, hstored] at hold
        cases hold
        rw [hmanual] at hattach
        exact ExtTreeSet.not_mem_empty hattach
      · exact hattached j (mem_attachments.mpr ⟨old, hother hne hold, hattach⟩)
    have hname' : (Index.first (names (view.putListEntry id entry)))[m.seriesName]? = some id := by
      cases hfirst : (Index.first (names (view.putListEntry id entry)))[m.seriesName]? with
      | none =>
        refine absurd ?_ (Index.getElem?_first_eq_none.mp hfirst id)
        exact mem_names.mpr ⟨entry, hstored, .inl hname.symm⟩
      | some k =>
        obtain ⟨old, hold, hcarries⟩ := mem_names.mp (Index.mem_of_getElem?_first hfirst)
        by_contra hne
        have hk : k ≠ id := fun heq => hne (congrArg some heq)
        exact hnames m hm k (mem_names.mpr ⟨old, hother hk hold, hcarries⟩)
    unfold resolveSeriesEntryForFile SeriesEntryIndex.resolve
    rw [hfile]
    show ((none : Option ListEntryId).or (Index.first _)[file]?).or
      ((view.metadataOf file).bind fun m => (Index.first (names _))[m.seriesName]?) = some id
    rw [hmanual', hm]
    exact hname'

theorem carries_new (hmd4 : Set.InjOn md4 (Set.range DerivedName.bytes)) {file : Ed2kHash}
    {id : ListEntryId} {entry : SeriesListEntry}
    (h : resolveOrBuildEntry md4 view file = some (id, some entry)) : Carries md4 id entry := by
  obtain ⟨_, m, _, rfl, hname, hlink, _⟩ := resolveOrBuildEntry_new h
  have hinj : ∀ n, md4 n.bytes = md4 (derivedName m.seriesId m.seriesName).bytes →
      n = derivedName m.seriesId m.seriesName := fun n hn =>
    DerivedName.bytes_injective (hmd4 ⟨n, rfl⟩ ⟨_, rfl⟩ hn)
  refine ⟨fun series hseries => ?_, fun text htext => ?_⟩
  · have hn := hinj _ hseries
    rw [hlink]
    cases hs : m.seriesId with
    | some s => rw [hs] at hn; rw [DerivedName.anidb.inj hn]
    | none => rw [hs] at hn; cases hn
  · have hn := hinj _ htext
    cases hs : m.seriesId with
    | some s => rw [hs] at hn; cases hn
    | none => rw [hs] at hn; exact .inl ((DerivedName.name.inj hn).trans hname.symm)

theorem allCarry_step (hmd4 : Set.InjOn md4 (Set.range DerivedName.bytes)) {view' : StateView}
    {event : ListEvent} (hall : AllCarry md4 view) (hok : KeepsDerived md4 view event)
    (hstep : listStep md4 view event = some view') : AllCarry md4 view' := by
  have hput : ∀ id entry, Carries md4 id entry → AllCarry md4 (view.putListEntry id entry) := by
    intro id entry hcarries j other hj
    rw [entries_putListEntry] at hj
    split at hj
    next heq => exact heq ▸ Option.some.inj hj ▸ hcarries
    · exact hall j other hj
  cases event with
  | putListEntry id entry => cases hstep; exact hput id entry hok
  | autoCreate file =>
    cases hstep
    unfold resolveOrCreateSeriesEntry
    split
    next id entry hnew => exact hput id entry (carries_new hmd4 hnew)
    · exact hall
  | setMetadata file m => cases hstep; exact hall
  | setRelations series row => cases hstep; exact hall

/-- **Auto-creation overwrites nothing** while no edit takes from an entry the link or the name its
id is derived from: a new entry's id is free, and once it is stored its file resolves to it. -/
theorem auto_create_overwrites_nothing (hmd4 : Set.InjOn md4 (Set.range DerivedName.bytes))
    {view₀ : StateView} (hstart : AllCarry md4 view₀)
    (hreach : Reach (listStep md4) (KeepsDerived md4) view₀ view) {file : Ed2kHash}
    {id : ListEntryId} {entry : SeriesListEntry}
    (hnew : resolveOrBuildEntry md4 view file = some (id, some entry)) :
    view.entries[id]? = none ∧
      resolveOrBuildEntry md4 (view.putListEntry id entry) file = some (id, none) := by
  have hall : AllCarry md4 view :=
    hreach.invariant hstart fun s e s' hs hok hstep => allCarry_step hmd4 hs hok hstep
  obtain ⟨hnone, m, hm, hid, _⟩ := resolveOrBuildEntry_new hnew
  refine ⟨?_, ?_⟩
  · cases hold : view.entries[id]? with
    | none => rfl
    | some old => exact absurd hnone (resolve_ne_none hm hall (hid ▸ hold))
  · rw [resolveOrBuildEntry, resolve_putListEntry hnew]

end AutoCreate

def packBytes : List Nat → ListEntryId
  | [] => 0
  | b :: bytes => 2 ^ b * (2 * packBytes bytes + 1)

theorem two_pow_mul_odd_inj {a b m n : Nat} (h : 2 ^ a * (2 * m + 1) = 2 ^ b * (2 * n + 1)) :
    a = b ∧ m = n := by
  induction a generalizing b with
  | zero =>
    cases b with
    | zero => omega
    | succ b =>
      -- an odd number is not an even one
      rw [pow_succ, mul_assoc, mul_left_comm] at h
      omega
  | succ a ih =>
    cases b with
    | zero =>
      rw [pow_succ, mul_assoc, mul_left_comm] at h
      omega
    | succ b =>
      have hhalf : 2 ^ a * (2 * m + 1) = 2 ^ b * (2 * n + 1) := by
        rw [pow_succ, pow_succ, mul_assoc, mul_left_comm, mul_assoc, mul_left_comm (2 ^ b)] at h
        omega
      obtain ⟨rfl, rfl⟩ := ih hhalf
      exact ⟨rfl, rfl⟩

theorem packBytes_injective : Function.Injective packBytes := by
  intro bytes
  induction bytes with
  | nil =>
    intro bytes' h
    cases bytes' with
    | nil => rfl
    | cons b bytes' =>
      have hpos : 0 < 2 ^ b * (2 * packBytes bytes' + 1) := by positivity
      exact absurd h.symm hpos.ne'
  | cons b bytes ih =>
    intro bytes' h
    cases bytes' with
    | nil =>
      have hpos : 0 < 2 ^ b * (2 * packBytes bytes + 1) := by positivity
      exact absurd h hpos.ne'
    | cons b' bytes' =>
      obtain ⟨rfl, hrest⟩ := two_pow_mul_odd_inj h
      rw [ih hrest]

def twoShows : StateView :=
  { (default : StateView) with
    anidbMetadata := ((∅ : BTreeMap Ed2kHash (Option AniDbMetadata)).insert 10
      (some (episodeOf 1 "A"))).insert 11 (some (episodeOf 2 "B")) }

def firstShow : ListEntryId := packBytes (DerivedName.anidb 1).bytes

theorem auto_create_overwrites_nothing_second_show : ∃ view id entry,
    Reach (listStep packBytes) (KeepsDerived packBytes) twoShows view ∧
      resolveOrBuildEntry packBytes view 11 = some (id, some entry) ∧ view.entries[id]? = none ∧
      resolveOrBuildEntry packBytes (view.putListEntry id entry) 11 = some (id, none) := by
  have hstart : AllCarry packBytes twoShows := by
    intro id entry h
    have hempty : (∅ : BTreeMap ListEntryId SeriesListEntry)[id]? = none :=
      ExtTreeMap.getElem?_empty
    exact absurd (hempty.symm.trans h) nofun
  obtain ⟨view, hrun, hnew⟩ : ∃ view,
      run (listStep packBytes) twoShows [.autoCreate 10] = some view ∧
      resolveOrBuildEntry packBytes view 11 = some (packBytes (DerivedName.anidb 2).bytes,
        some (linkedEntry "B" (some 2))) :=
    bind_eq_some_iff.mp (by decide +kernel : (run (listStep packBytes) twoShows
      [.autoCreate 10]).bind (fun view => resolveOrBuildEntry packBytes view 11) = _)
  have hreach : Reach (listStep packBytes) (KeepsDerived packBytes) twoShows view :=
    .step (e := .autoCreate 10) .refl trivial (by simpa [run] using hrun)
  exact ⟨view, _, _, hreach, hnew, auto_create_overwrites_nothing
    packBytes_injective.injOn hstart hreach hnew⟩

/-- An auto-created entry is linked to another series and then renamed.  Nothing claims its
series' file any more, and the entry created for it lands on the one that was edited. -/
theorem relinked_entry_overwritten :
    Set.InjOn packBytes (Set.range DerivedName.bytes) ∧
    ∃ view, Reach (listStep packBytes) anyStep twoShows view ∧
      resolveOrBuildEntry packBytes view 10 = some (firstShow, some (linkedEntry "A" (some 1))) ∧
      view.entries[firstShow]? = some (linkedEntry "C" (some 3)) := by
  have hrun : (run (listStep packBytes) twoShows
      [.autoCreate 10, .putListEntry firstShow (linkedEntry "A" (some 3)),
        .putListEntry firstShow (linkedEntry "C" (some 3))]).map
      (fun view => (resolveOrBuildEntry packBytes view 10, view.entries[firstShow]?)) =
      some (some (firstShow, some (linkedEntry "A" (some 1))),
        some (linkedEntry "C" (some 3))) := by
    decide +kernel
  obtain ⟨view, hview, hend⟩ := map_eq_some_iff.mp hrun
  obtain ⟨hnew, hold⟩ := Prod.mk.injEq .. ▸ hend
  exact ⟨packBytes_injective.injOn, view, reach_of_run _ hview, hnew, hold⟩

end DessPlay.Core
