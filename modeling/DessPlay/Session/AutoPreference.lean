/-
  DessPlay.Session.AutoPreference
  **AUTOMATIC PREFERENCES AND STORED CHOICES.**

  The wiring writes preferences by itself: from the List's watchers on every new
  view, and `NotWatching` for a series the user does not know.  Its guards look at
  one entry, while a commitment is folded over every entry of the franchise
  (`series_watch_for_file`).
-/
import DessPlay.Session.Effects

namespace DessPlay.Session

open BTree DessPlay.Core PlayerWiring
open List hiding getElem?_insert insert
open Sync (Mutation)
open Std (ExtTreeMap ExtTreeSet)

/-! ## §1. A commitment, and the preferences it is folded from. -/

section Commitment

variable (md4 : List Nat → ListEntryId) (view : StateView) (user : UserId) (file : Ed2kHash)

def siblings : List ListEntryId :=
  match resolveSeriesEntryForFile md4 view file with
  | none => []
  | some entry =>
    match linkOf view entry with
    | some series => entriesClaimingSeries md4 view series
    | none => [entry]

def choice (id : ListEntryId) : Option SeriesWatchState := (view.preferenceOf user id).map (·.state)

def Committed (state : SeriesWatchState) : Prop :=
  ∃ id ∈ siblings md4 view file, choice view user id = some state

end Commitment

theorem foldl_stronger (l : List SeriesWatchState) :
    l.foldl SeriesWatchState.stronger .maybe =
      if .watching ∈ l then .watching else if .notWatching ∈ l then .notWatching else .maybe := by
  induction l using reverseRecOn with
  | nil => rfl
  | append_singleton l state ih =>
    rw [foldl_concat, ih]
    by_cases hw : SeriesWatchState.watching ∈ l <;>
      by_cases hn : SeriesWatchState.notWatching ∈ l <;> cases state <;>
      simp [hw, hn, SeriesWatchState.stronger]

theorem foldl_stronger_eq_iff (l l' : List SeriesWatchState) :
    l.foldl SeriesWatchState.stronger .maybe = l'.foldl SeriesWatchState.stronger .maybe ↔
      (.watching ∈ l ↔ .watching ∈ l') ∧
        (.watching ∉ l → (.notWatching ∈ l ↔ .notWatching ∈ l')) := by
  rw [foldl_stronger, foldl_stronger]
  by_cases hw : SeriesWatchState.watching ∈ l <;> by_cases hw' : SeriesWatchState.watching ∈ l' <;>
    by_cases hn : SeriesWatchState.notWatching ∈ l <;>
    by_cases hn' : SeriesWatchState.notWatching ∈ l' <;> simp [hw, hw', hn, hn']

section Fold

variable {md4 : List Nat → ListEntryId} {view view' : StateView} {user : UserId} {file : Ed2kHash}

theorem seriesWatchForFile_eq :
    seriesWatchForFile md4 view user file =
      ((siblings md4 view file).filterMap (choice view user)).foldl SeriesWatchState.stronger
        .maybe := by
  unfold seriesWatchForFile siblings
  cases resolveSeriesEntryForFile md4 view file with
  | none => rfl
  | some entry =>
    dsimp only
    rw [map_filterMap]
    rfl

theorem mem_choices {state : SeriesWatchState} :
    state ∈ (siblings md4 view file).filterMap (choice view user) ↔
      Committed md4 view user file state :=
  mem_filterMap

/-- **When a commitment is the same in two views.** -/
theorem seriesWatchForFile_eq_iff :
    seriesWatchForFile md4 view user file = seriesWatchForFile md4 view' user file ↔
      (Committed md4 view user file .watching ↔ Committed md4 view' user file .watching) ∧
      (¬Committed md4 view user file .watching →
        (Committed md4 view user file .notWatching ↔
          Committed md4 view' user file .notWatching)) := by
  rw [seriesWatchForFile_eq, seriesWatchForFile_eq, foldl_stronger_eq_iff]
  simp only [mem_choices]

end Fold

/-! ## §2. Writing preferences. -/

def preferences (view : StateView) : BTreeMap (UserId ×ₗ ListEntryId) SeriesPreference :=
  view.seriesPreference

def setSeriesPreference (view : StateView) (user : UserId) (entry : ListEntryId)
    (pref : SeriesPreference) : StateView :=
  { view with seriesPreference := (preferences view).insert (lex user entry) pref }

def applyPref (view : StateView) : Directive → StateView
  | .mutate (.setSeriesPreference user entry pref setBy) =>
    setSeriesPreference view user entry { state := pref, setBy := setBy }
  | _ => view

def applyPrefs (view : StateView) (out : List Directive) : StateView := out.foldl applyPref view

/-- What the wiring writes by itself. -/
def autoWrite (me : UserId) (id : ListEntryId) (state : SeriesWatchState) : Directive :=
  .mutate (.setSeriesPreference me id state none)

section Writes

variable {md4 : List Nat → ListEntryId} {view : StateView} {me : UserId} {file : Ed2kHash}

theorem preferenceOf_setSeriesPreference (view : StateView) (user other : UserId)
    (entry id : ListEntryId) (pref : SeriesPreference) :
    (setSeriesPreference view user entry pref).preferenceOf other id =
      if other = user ∧ id = entry then some pref else view.preferenceOf other id := by
  show ((preferences view).insert (lex user entry) pref)[lex other id]? = _
  rw [getElem?_insert]
  simp only [lex_inj]
  rfl

section Frame

variable {user : UserId} {entry : ListEntryId} {pref : SeriesPreference}

theorem seasonOrdinal_setSeriesPreference :
    seasonOrdinal (setSeriesPreference view user entry pref) = seasonOrdinal view := by
  have hwalk : ∀ fuel, seasonWalk (setSeriesPreference view user entry pref) fuel =
      seasonWalk view fuel := by
    intro fuel
    induction fuel with
    | zero => rfl
    | succ fuel ih =>
      funext seen current ordinal
      rw [seasonWalk, seasonWalk, ih]
      rfl
  funext series
  exact congrFun (congrFun (congrFun (hwalk _) _) _) _

theorem entriesClaimingSeries_setSeriesPreference (series : AniDbSeriesId) :
    entriesClaimingSeries md4 (setSeriesPreference view user entry pref) series =
      entriesClaimingSeries md4 view series := by
  unfold entriesClaimingSeries SeriesEntryIndex.claimants canonicalFirst canonicalKey linkOrdinal
  rw [seasonOrdinal_setSeriesPreference]
  rfl

theorem resolveSeriesEntryForFile_setSeriesPreference :
    resolveSeriesEntryForFile md4 (setSeriesPreference view user entry pref) file =
      resolveSeriesEntryForFile md4 view file := by
  have hclaimants : ∀ series, (SeriesEntryIndex.new view).claimants md4
      (setSeriesPreference view user entry pref) series =
        (SeriesEntryIndex.new view).claimants md4 view series :=
    entriesClaimingSeries_setSeriesPreference
  show (SeriesEntryIndex.new view).resolve md4 (setSeriesPreference view user entry pref) file = _
  unfold resolveSeriesEntryForFile SeriesEntryIndex.resolve
  simp only [hclaimants]
  rfl

end Frame

theorem siblings_applyPref (view : StateView) (d : Directive) :
    siblings md4 (applyPref view d) file = siblings md4 view file := by
  unfold applyPref
  split
  · unfold siblings
    rw [resolveSeriesEntryForFile_setSeriesPreference]
    simp only [entriesClaimingSeries_setSeriesPreference]
    rfl
  · rfl

theorem siblings_applyPrefs (out : List Directive) :
    siblings md4 (applyPrefs view out) file = siblings md4 view file := by
  unfold applyPrefs
  induction out using reverseRecOn with
  | nil => rfl
  | append_singleton out d ih => rw [foldl_concat, siblings_applyPref, ih]

theorem applyPrefs_filter (view : StateView) (out : List Directive) :
    applyPrefs view (out.filter Directive.prefers) = applyPrefs view out := by
  unfold applyPrefs
  induction out generalizing view with
  | nil => rfl
  | cons d out ih =>
    by_cases hd : d.prefers
    · rw [filter_cons_of_pos hd, foldl_cons, foldl_cons, ih]
    · have hsame : applyPref view d = view := by
        unfold applyPref
        split
        · exact absurd rfl hd
        · rfl
      rw [filter_cons_of_neg hd, foldl_cons, hsame, ih]

theorem choice_applyPrefs (state : ListEntryId → SeriesWatchState) {out : List Directive}
    (hout : ∀ d ∈ out, ∃ id, d = autoWrite me id (state id)) (id : ListEntryId) :
    choice (applyPrefs view out) me id =
      if autoWrite me id (state id) ∈ out then some (state id) else choice view me id := by
  unfold applyPrefs
  induction out using reverseRecOn with
  | nil => simp
  | append_singleton out d ih =>
    obtain ⟨j, rfl⟩ := hout d (by simp)
    have ih := ih fun d hd => hout d (mem_append_left _ hd)
    rw [foldl_concat]
    unfold choice at ih ⊢
    show ((setSeriesPreference _ me j _).preferenceOf me id).map (·.state) = _
    rw [preferenceOf_setSeriesPreference]
    by_cases hj : id = j
    · simp [hj]
    · have hne : autoWrite me id (state id) ≠ autoWrite me j (state j) := by
        simp [autoWrite, hj]
      simp [hj, hne, ih]

end Writes

/-! ## §3. What the wiring writes. -/

/-- An entry awaits an automatic write: it has watchers, the user has no preference for it, and
none was written in this session. -/
def awaits (w : PlayerWiring) (view : StateView) (e : ListEntryId × SeriesListEntry) : Bool :=
  !e.2.watchers.isEmpty && (view.preferenceOf w.me e.1).isNone &&
    !decide (e.1 ∈ w.watcherPrefsWritten)

def Marks (env : Env) (file : Ed2kHash) (series : Option AniDbSeriesId) (known : Bool)
    (view : StateView) (peers : List PeerInfo) (w : PlayerWiring) (id : ListEntryId) : Prop :=
  file ∉ w.copyOfferPending ∧ ¬(known ∨ series.isNone) ∧
  (¬(resolveSeriesEntryForFile env.md4 view file).any fun entry =>
    (view.preferenceOf w.me entry).isSome) ∧
  ¬(w.autoDownload ∧ w.downloadSources view peers file ≠ []) ∧
  ∃ create, resolveOrBuildEntry env.md4 view file = some (id, create)

section Emitted

variable {env : Env} {view : StateView} {peers : List PeerInfo} {w : PlayerWiring}

theorem writeWatcherPref_eq (view : StateView) (w : PlayerWiring) (out : List Directive)
    (e : ListEntryId × SeriesListEntry) :
    writeWatcherPref view (w, out) e =
      if awaits w view e then
        ({ w with watcherPrefsWritten := w.watcherPrefsWritten.insert e.1 },
          out ++ [autoWrite w.me e.1 (impliedPref w.me e.2)])
      else (w, out) := by
  unfold writeWatcherPref awaits
  dsimp only
  by_cases hempty : e.2.watchers.isEmpty
  · simp [hempty]
  · cases hpref : view.preferenceOf w.me e.1 with
    | none => by_cases hwritten : e.1 ∈ w.watcherPrefsWritten <;> simp [hempty, hwritten, autoWrite]
    | some pref => simp [hempty]

theorem foldl_writeWatcherPref (l : List (ListEntryId × SeriesListEntry))
    (hnodup : (l.map (·.1)).Nodup) (w : PlayerWiring) (out : List Directive) :
    (l.foldl (writeWatcherPref view) (w, out)).2 =
      out ++ (l.filter (awaits w view)).map fun e =>
        autoWrite w.me e.1 (impliedPref w.me e.2) := by
  induction l generalizing w out with
  | nil => simp
  | cons e l ih =>
    obtain ⟨hnew, hnodup⟩ := nodup_cons.mp hnodup
    rw [foldl_cons, writeWatcherPref_eq]
    by_cases hawaits : awaits w view e
    · have hlater : l.filter (awaits { w with
          watcherPrefsWritten := w.watcherPrefsWritten.insert e.1 } view) =
            l.filter (awaits w view) := by
        refine filter_congr fun e' he' => ?_
        have hne : ¬e.1 = e'.1 := fun heq => hnew (mem_map.mpr ⟨e', he', heq.symm⟩)
        simp [awaits, hne]
      rw [if_pos hawaits, ih hnodup, hlater, filter_cons_of_pos hawaits, map_cons,
        append_assoc]
      rfl
    · rw [if_neg hawaits, ih hnodup, filter_cons_of_neg hawaits]

theorem mem_writeWatcherPrefs {d : Directive} :
    d ∈ (w.writeWatcherPrefs view).2 ↔ ∃ id entry, view.entries[id]? = some entry ∧
      awaits w view (id, entry) ∧ d = autoWrite w.me id (impliedPref w.me entry) := by
  unfold writeWatcherPrefs
  have hnodup : (view.entries.toList.map (·.1)).Nodup := by
    rw [ExtTreeMap.map_fst_toList_eq_keys]
    exact nodup_keys _
  rw [foldl_writeWatcherPref _ hnodup]
  simp only [nil_append, mem_map, mem_filter, Prod.exists, mem_entries]
  constructor
  · rintro ⟨id, entry, ⟨hentry, hawaits⟩, rfl⟩
    exact ⟨id, entry, hentry, hawaits, rfl⟩
  · rintro ⟨id, entry, hentry, hawaits, rfl⟩
    exact ⟨id, entry, ⟨hentry, hawaits⟩, rfl⟩

theorem impartial_loadVerified : Impartial w (w.loadVerified view) := by
  unfold loadVerified
  repeat' split
  all_goals exact ⟨rfl, rfl⟩

/-- **The preferences a new view writes** are those of the List's watchers. -/
theorem mem_prefers_onState {d : Directive} :
    d ∈ (w.onState env view peers).2.filter Directive.prefers ↔
      ∃ id entry, view.entries[id]? = some entry ∧ awaits w view (id, entry) ∧
        d = autoWrite w.me id (impliedPref w.me entry) := by
  have hsplit : w.onState env view peers = runStages
      ([kickEviction view, kickResolves view,
        requestLookups view] ++
       ([writeWatcherPrefs view] ++
        [maybeCheckSeriesKnown view, maybeOfferLocalCopies env view,
         loadVerified view, reassertPlayback env view peers,
         follow env view peers])) w := rfl
  have hbefore : Impartial w (runStages
      [kickEviction view, kickResolves view,
        requestLookups view] w) :=
    keeps_runStages (fun stage hstage w => by
      fin_cases hstage
      exacts [calm_kickEviction.impartial, calm_kickResolves.impartial,
        calm_requestLookups.impartial]) w
  have hafter : ∀ w, Impartial w (runStages
      [maybeCheckSeriesKnown view, maybeOfferLocalCopies env view,
         loadVerified view, reassertPlayback env view peers,
         follow env view peers] w) :=
    keeps_runStages fun stage hstage w => by
      fin_cases hstage
      exacts [calm_maybeCheckSeriesKnown.impartial, calm_maybeOfferLocalCopies.impartial,
        impartial_loadVerified, calm_reassertPlayback.impartial, calm_follow.impartial]
  rw [hsplit, runStages_append, runStages_append, runStages_singleton]
  generalize runStages _ w = r at hbefore ⊢
  have hme : r.1.me = w.me := congrArg (·.1) hbefore.kept
  have hwritten : r.1.watcherPrefsWritten = w.watcherPrefsWritten := congrArg (·.2) hbefore.kept
  dsimp only
  rw [filter_append, filter_append, hbefore.silent, (hafter _).silent, nil_append,
    append_nil, mem_filter, mem_writeWatcherPrefs]
  simp only [awaits, hme, hwritten]
  constructor
  · exact fun h => h.1
  · intro h
    refine ⟨h, ?_⟩
    obtain ⟨_, _, _, _, rfl⟩ := h
    rfl

/-- **The preference an answer about a series writes.** -/
theorem mem_prefers_onSeriesKnown {file : Ed2kHash} {series : Option AniDbSeriesId} {known : Bool}
    {d : Directive} :
    d ∈ (w.onSeriesKnown env file series known view peers).2.filter Directive.prefers ↔
      ∃ id, Marks env file series known view peers w id ∧ d = autoWrite w.me id .notWatching := by
  have hplaceholder :
      (if view.nowPlaying = some file then [Directive.renderPlaceholder file] else []).filter
        Directive.prefers = [] := by
    split <;> rfl
  -- a guard that stops the write contradicts `Marks`
  have hstopped {out : List Directive} (hout : out.filter Directive.prefers = [])
      (hguard : ∀ id, ¬Marks env file series known view peers w id) :
      d ∈ out.filter Directive.prefers ↔
        ∃ id, Marks env file series known view peers w id ∧ d = autoWrite w.me id .notWatching := by
    rw [hout]
    constructor
    · intro hd
      exact absurd hd not_mem_nil
    · rintro ⟨id, hmarks, _⟩
      exact absurd hmarks (hguard id)
  unfold onSeriesKnown
  dsimp only
  split
  next h => exact hstopped rfl fun _ hmarks => hmarks.1 h
  next hpending =>
    split
    next h => exact hstopped rfl fun _ hmarks => hmarks.2.1 h
    next hunknown =>
      split
      next h => exact hstopped rfl fun _ hmarks => hmarks.2.2.1 h
      next hchoice =>
        split
        next h => exact hstopped hplaceholder fun _ hmarks => hmarks.2.2.2.1 h
        next hsources =>
          split
          next h =>
            refine hstopped rfl fun _ hmarks => ?_
            obtain ⟨_, heq⟩ := hmarks.2.2.2.2
            rw [h] at heq
            cases heq
          next id create h =>
            have hcreate : (create.toList.map fun new => Directive.mutate
                (.putListEntry id new)).filter Directive.prefers = [] := by
              cases create <;> rfl
            rw [filter_append, filter_append, hcreate, hplaceholder]
            constructor
            · intro hd
              rw [mem_singleton.mp hd]
              exact ⟨id, ⟨hpending, hunknown, hchoice, hsources, create, h⟩, rfl⟩
            · rintro ⟨j, ⟨_, _, _, _, _, heq⟩, rfl⟩
              rw [h] at heq
              cases heq
              exact mem_singleton_self _

end Emitted

/-! ## §4. What becomes of a commitment. -/

section After

variable {env : Env} {view : StateView} {peers : List PeerInfo} {w : PlayerWiring}
  {file g : Ed2kHash} {series : Option AniDbSeriesId} {known : Bool}

theorem committed_onState {state : SeriesWatchState} :
    Committed env.md4 (applyPrefs view (w.onState env view peers).2) w.me file state ↔
      Committed env.md4 view w.me file state ∨
        ∃ id ∈ siblings env.md4 view file, ∃ entry, view.entries[id]? = some entry ∧
          awaits w view (id, entry) ∧ impliedPref w.me entry = state := by
  let implied : ListEntryId → SeriesWatchState := fun id =>
    view.entries[id]?.elim .maybe (impliedPref w.me)
  have himplied : ∀ {id entry}, view.entries[id]? = some entry →
      implied id = impliedPref w.me entry := by
    intro id entry hentry
    simp [implied, hentry]
  have hmem : ∀ id, autoWrite w.me id (implied id) ∈
      (w.onState env view peers).2.filter Directive.prefers ↔
        ∃ entry, view.entries[id]? = some entry ∧ awaits w view (id, entry) := by
    intro id
    rw [mem_prefers_onState]
    constructor
    · rintro ⟨j, entry, hentry, hawaits, heq⟩
      obtain ⟨rfl, -⟩ : id = j ∧ _ := by simpa [autoWrite] using heq
      exact ⟨entry, hentry, hawaits⟩
    · rintro ⟨entry, hentry, hawaits⟩
      exact ⟨id, entry, hentry, hawaits, by rw [himplied hentry]⟩
  have hchoice : ∀ id, choice (applyPrefs view (w.onState env view peers).2) w.me id =
      if autoWrite w.me id (implied id) ∈
        (w.onState env view peers).2.filter Directive.prefers then some (implied id)
      else choice view w.me id := by
    rw [← applyPrefs_filter]
    refine choice_applyPrefs implied fun d hd => ?_
    obtain ⟨id, entry, hentry, _, rfl⟩ := mem_prefers_onState.mp hd
    exact ⟨id, by rw [himplied hentry]⟩
  unfold Committed
  rw [siblings_applyPrefs]
  constructor
  · rintro ⟨id, hid, hstate⟩
    rw [hchoice] at hstate
    split at hstate
    next hwritten =>
      obtain ⟨entry, hentry, hawaits⟩ := (hmem id).mp hwritten
      exact .inr ⟨id, hid, entry, hentry, hawaits,
        (himplied hentry).symm.trans (Option.some.inj hstate)⟩
    · exact .inl ⟨id, hid, hstate⟩
  · rintro (⟨id, hid, hstate⟩ | ⟨id, hid, entry, hentry, hawaits, rfl⟩)
    · -- an entry with a preference awaits none
      refine ⟨id, hid, ?_⟩
      rw [hchoice, if_neg, hstate]
      rw [hmem]
      rintro ⟨entry, _, hawaits⟩
      simp_all [awaits, choice]
    · refine ⟨id, hid, ?_⟩
      rw [hchoice, if_pos ((hmem id).mpr ⟨entry, hentry, hawaits⟩), himplied hentry]

theorem committed_onSeriesKnown {state : SeriesWatchState} :
    Committed env.md4 (applyPrefs view (w.onSeriesKnown env g series known view peers).2) w.me file
        state ↔
      (∃ id ∈ siblings env.md4 view file, ¬Marks env g series known view peers w id ∧
        choice view w.me id = some state) ∨
      (.notWatching = state ∧
        ∃ id ∈ siblings env.md4 view file, Marks env g series known view peers w id) := by
  have hmem : ∀ id, autoWrite w.me id .notWatching ∈
      (w.onSeriesKnown env g series known view peers).2.filter Directive.prefers ↔
        Marks env g series known view peers w id := by
    intro id
    rw [mem_prefers_onSeriesKnown]
    constructor
    · rintro ⟨j, hmarks, heq⟩
      obtain rfl : id = j := by simpa [autoWrite] using heq
      exact hmarks
    · exact fun hmarks => ⟨id, hmarks, rfl⟩
  have hchoice : ∀ id,
      choice (applyPrefs view (w.onSeriesKnown env g series known view peers).2) w.me id =
        if autoWrite w.me id .notWatching ∈
          (w.onSeriesKnown env g series known view peers).2.filter Directive.prefers
        then some .notWatching else choice view w.me id := by
    rw [← applyPrefs_filter]
    refine choice_applyPrefs (fun _ => .notWatching) fun d hd => ?_
    obtain ⟨id, _, rfl⟩ := mem_prefers_onSeriesKnown.mp hd
    exact ⟨id, rfl⟩
  unfold Committed
  rw [siblings_applyPrefs]
  constructor
  · rintro ⟨id, hid, hstate⟩
    rw [hchoice] at hstate
    split at hstate
    next hwritten => exact .inr ⟨Option.some.inj hstate, id, hid, (hmem id).mp hwritten⟩
    next hwritten => exact .inl ⟨id, hid, fun h => hwritten ((hmem id).mpr h), hstate⟩
  · rintro (⟨id, hid, hmarks, hstate⟩ | ⟨rfl, id, hid, hmarks⟩)
    · refine ⟨id, hid, ?_⟩
      rw [hchoice, if_neg fun h => hmarks ((hmem id).mp h), hstate]
    · refine ⟨id, hid, ?_⟩
      rw [hchoice, if_pos ((hmem id).mpr hmarks)]

theorem Marks.unique {a b : ListEntryId} (ha : Marks env g series known view peers w a)
    (hb : Marks env g series known view peers w b) : a = b := by
  obtain ⟨_, _, _, _, _, ha⟩ := ha
  obtain ⟨_, _, _, _, _, hb⟩ := hb
  rw [ha] at hb
  cases hb
  rfl

end After

/-- **When automatic preferences spare a commitment.**  A new view: every entry of the franchise
that awaits a write is outweighed by what the user holds on it already.  An answer about a
series: so is the mark on an entry of the franchise. -/
theorem auto_preferences_spare_iff (env : Env) (w : PlayerWiring) (view : StateView)
    (peers : List PeerInfo) (file : Ed2kHash) :
    (seriesWatchForFile env.md4 view w.me file =
        seriesWatchForFile env.md4 (applyPrefs view (w.onState env view peers).2) w.me file ↔
      ∀ id ∈ siblings env.md4 view file, ∀ entry, view.entries[id]? = some entry →
        awaits w view (id, entry) →
        Committed env.md4 view w.me file .watching ∨
          (w.me ∉ entry.watchers ∧ Committed env.md4 view w.me file .notWatching)) ∧
    ∀ g series known,
      (seriesWatchForFile env.md4 view w.me file = seriesWatchForFile env.md4
          (applyPrefs view (w.onSeriesKnown env g series known view peers).2) w.me file ↔
        ∀ id ∈ siblings env.md4 view file, Marks env g series known view peers w id →
          (∃ other ∈ siblings env.md4 view file, other ≠ id ∧
            choice view w.me other = some .watching) ∨
          (choice view w.me id ≠ some .watching ∧
            Committed env.md4 view w.me file .notWatching)) := by
  constructor
  · rw [seriesWatchForFile_eq_iff, committed_onState, committed_onState]
    constructor
    · rintro ⟨hwatching, hnot⟩ id hid entry hentry hawaits
      by_cases hw : Committed env.md4 view w.me file .watching
      · exact .inl hw
      · have hout : w.me ∉ entry.watchers := fun hin =>
          hw (hwatching.mpr (.inr ⟨id, hid, entry, hentry, hawaits, if_pos hin⟩))
        exact .inr ⟨hout, (hnot hw).mpr (.inr ⟨id, hid, entry, hentry, hawaits, if_neg hout⟩)⟩
    · intro h
      refine ⟨⟨.inl, ?_⟩, fun hw => ⟨.inl, ?_⟩⟩
      · rintro (hw | ⟨id, hid, entry, hentry, hawaits, himplied⟩)
        · exact hw
        · rcases h id hid entry hentry hawaits with hw | ⟨hout, _⟩
          · exact hw
          · rw [impliedPref, if_neg hout] at himplied
            cases himplied
      · rintro (hn | ⟨id, hid, entry, hentry, hawaits, _⟩)
        · exact hn
        · rcases h id hid entry hentry hawaits with hw' | ⟨_, hn⟩
          · exact absurd hw' hw
          · exact hn
  · intro g series known
    rw [seriesWatchForFile_eq_iff, committed_onSeriesKnown, committed_onSeriesKnown]
    constructor
    · rintro ⟨hwatching, hnot⟩ id hid hmarks
      by_cases hw : Committed env.md4 view w.me file .watching
      · rcases hwatching.mp hw with ⟨other, hother, hunmarked, hc⟩ | ⟨hf, _⟩
        · exact .inl ⟨other, hother, fun heq => hunmarked (heq ▸ hmarks), hc⟩
        · cases hf
      · exact .inr ⟨fun hc => hw ⟨id, hid, hc⟩, (hnot hw).mpr (.inr ⟨rfl, id, hid, hmarks⟩)⟩
    · intro h
      -- what survives was held before
      have hback : ∀ {state}, (∃ id ∈ siblings env.md4 view file,
          ¬Marks env g series known view peers w id ∧ choice view w.me id = some state) →
            Committed env.md4 view w.me file state := by
        rintro state ⟨id, hid, _, hc⟩
        exact ⟨id, hid, hc⟩
      refine ⟨⟨fun hw => .inl ?_, ?_⟩, fun hw => ⟨fun hn => ?_, ?_⟩⟩
      · obtain ⟨id, hid, hc⟩ := hw
        by_cases hmarks : Marks env g series known view peers w id
        · rcases h id hid hmarks with ⟨other, hother, hne, hc⟩ | ⟨hnot, _⟩
          · exact ⟨other, hother, fun hother => hne (hother.unique hmarks), hc⟩
          · exact absurd hc hnot
        · exact ⟨id, hid, hmarks, hc⟩
      · rintro (hw | ⟨hf, _⟩)
        · exact hback hw
        · cases hf
      · by_cases hany : ∃ id ∈ siblings env.md4 view file, Marks env g series known view peers w id
        · exact .inr ⟨rfl, hany⟩
        · obtain ⟨id, hid, hc⟩ := hn
          exact .inl ⟨id, hid, fun hmarks => hany ⟨id, hid, hmarks⟩, hc⟩
      · rintro (hn | ⟨_, id, hid, hmarks⟩)
        · exact hback hn
        · rcases h id hid hmarks with ⟨other, hother, _, hc⟩ | ⟨_, hn⟩
          · exact absurd ⟨other, hother, hc⟩ hw
          · exact hn

/-- Two seasons of one show; the user skips the first, and is down as a watcher of the second. -/
def skippedSeason : StateView :=
  setSeriesPreference
    { twoSeasons with
      listEntries := twoSeasons.entries.insert 9
        { linkedEntry "A II" (some 2) with watchers := (∅ : BTreeSet UserId).insert "me" } }
    "me" 7 { state := .notWatching, setBy := none }

/-- Two seasons of one show; the user has left the second open on purpose. -/
def openSeason : StateView :=
  setSeriesPreference twoSeasons "me" 7 { state := .maybe, setBy := none }

/-- A new view turns a stored "not watching" into "watching"; an answer about an unknown series
turns a stored "maybe" into "not watching". -/
theorem stored_choice_overridden :
    let env : Env := { blockers := fun _ _ => [], md4 := fun _ => 0, fileName := some }
    let w := new "me" false
    (choice skippedSeason "me" 7 = some .notWatching ∧
      seriesWatchForFile env.md4 skippedSeason "me" 10 = .notWatching ∧
      seriesWatchForFile env.md4 (applyPrefs skippedSeason (w.onState env skippedSeason []).2)
        "me" 10 = .watching) ∧
    (choice openSeason "me" 7 = some .maybe ∧
      seriesWatchForFile env.md4 openSeason "me" 11 = .maybe ∧
      seriesWatchForFile env.md4
        (applyPrefs openSeason (w.onSeriesKnown env 11 (some 2) false openSeason []).2)
        "me" 11 = .notWatching) := by
  decide +kernel

end DessPlay.Session
