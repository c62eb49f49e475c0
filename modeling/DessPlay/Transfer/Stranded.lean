/-
  DessPlay.Transfer.Stranded
  **NO CHUNK IS LEFT WAITING AT A SOURCE THAT COULD SERVE IT.**

  When a source's turn in a refill is over, every needed chunk it advertises is in
  flight somewhere, or its pipeline is full, or it ranks past the source cap and
  more is left than one pipeline (`Served`).
-/
import DessPlay.Transfer.Tick

namespace DessPlay.Transfer

open BTree DessPlay.Core List Option

variable {P : Type} [LinearOrder P]

/-! ## §1. One file's pass. -/

namespace Download

def InFlight (d : Download P) (c : Nat) : Prop := ∃ (p : P) (i : Issue), (d.flight p)[c]? = some i

theorem inFlight_iff (d : Download P) (c : Nat) :
    d.InFlight c ↔ ∃ e ∈ d.sources.toList, (e.2.inFlight[c]?).isSome = true := by
  constructor
  · rintro ⟨p, i, hi⟩
    cases hp : d.sources[p]? with
    | none =>
      rw [flight_of_none hp] at hi
      simp at hi
    | some src =>
      rw [flight_of_source hp] at hi
      exact ⟨(p, src), (mem_entries d.sources _).mpr hp, isSome_of_mem hi⟩
  · rintro ⟨⟨p, src⟩, he, hsome⟩
    obtain ⟨i, hi⟩ := isSome_iff_exists.mp hsome
    refine ⟨p, i, ?_⟩
    rw [flight_of_source ((mem_entries d.sources _).mp he)]
    exact hi

instance (d : Download P) (c : Nat) : Decidable (d.InFlight c) :=
  decidable_of_iff _ (d.inFlight_iff c).symm

/-- The source of name `q` and that rank has been served: each needed chunk it has is in
flight, or its pipeline is full, or it is past the cap outside the endgame. -/
def Served (cfg : DownloadConfig) (now : Nat) (d : Download P) (budget : P → Nat) (q : P)
    (rank : Nat) : Prop :=
  ∀ src, d.sources[q]? = some src → src.retryAt ≤ now → ∀ c ∈ d.store.neededChunks,
    src.bitfield.get c = true →
    d.InFlight c ∨ cfg.pipelineDepth ≤ budget q ∨
      cfg.maxSources ≤ rank ∧ cfg.pipelineDepth < d.store.neededChunks.length

theorem InFlight.grown {d d' : Download P} {c : Nat} (h : d.InFlight c) (hgrown : d.Grown d') :
    d'.InFlight c := by
  obtain ⟨p, i, hi⟩ := h
  exact ⟨p, i, hgrown.flight p c i hi⟩

theorem Served.grown {cfg : DownloadConfig} {now rank : Nat} {d d' : Download P}
    {budget budget' : P → Nat} {q : P} (h : d.Served cfg now budget q rank)
    (hgrown : d.Grown d') (hbudget : budget q ≤ budget' q) : d'.Served cfg now budget' q rank := by
  intro src' hsrc' hready c hc hbit
  rw [hgrown.sources q] at hsrc'
  obtain ⟨src, hsrc, rfl⟩ := map_eq_some_iff.mp hsrc'
  rw [hgrown.store] at hc
  rcases h src hsrc hready c hc hbit with hflight | hfull | hcap
  · exact .inl (hflight.grown hgrown)
  · exact .inr (.inl (hfull.trans hbudget))
  · exact .inr (.inr ⟨hcap.1, by rw [hgrown.store]; exact hcap.2⟩)

theorem more_than_pipeline {cfg : DownloadConfig} {d : Download P} {windowUrgent : Bool}
    {now c : Nat} (h : (d.plan cfg windowUrgent now).urgent c ≠ true) :
    cfg.pipelineDepth < d.store.neededChunks.length := by
  by_contra hfits
  refine h (Bool.or_eq_true_iff.mpr (.inl (decide_eq_true ?_)))
  exact (Nat.mod_le _ _).trans (not_lt.mp hfits)

end Download

namespace Downloads

open Download

/-- What is assigned is in flight. -/
def AssignedInFlight (pass : Pass P) : Prop := ∀ c ∈ pass.assigned, pass.download.InFlight c

theorem assigned_start (d : Download P) (budget : P → Nat) (issued : Nat) :
    AssignedInFlight
      ⟨d, d.sources.toList.flatMap fun (_, src) => src.inFlight.keys, budget, issued, []⟩ := by
  intro c hc
  obtain ⟨⟨p, src⟩, hsrc, hkey⟩ := mem_flatMap.mp hc
  obtain ⟨i, hi⟩ := (mem_keys src.inFlight c).mp hkey
  refine ⟨p, i, ?_⟩
  show (d.flight p)[c]? = some i
  rw [flight_of_source ((mem_entries d.sources _).mp hsrc)]
  exact hi

section Turn

variable {cfg : DownloadConfig} {file : Ed2kHash} {now rank : Nat} {plan : Plan}
  {windowUrgent : Bool} {d : Download P} {pass : Pass P} {peer : P} {src : Source}
  {take : List Nat}

theorem AssignedInFlight.ask (h : AssignedInFlight pass)
    (hsrc : pass.download.sources[peer]? = some src)
    (hgrown : pass.download.Grown (pass.ask plan file now peer src take).download) :
    AssignedInFlight (pass.ask plan file now peer src take) := by
  intro c hc
  rcases Pass.mem_assigned_ask.mp hc with hold | hnew
  · exact (h c hold).grown hgrown
  · exact ⟨peer, _, by rw [Pass.flight_ask hsrc, if_pos ⟨rfl, hnew⟩]⟩

theorem bulkCount_le_length (urgent : Nat → Bool) (cs : List Nat) :
    bulkCount urgent cs ≤ cs.length :=
  countP_le_length

/-- **A source's turn serves it.** -/
theorem served_ask (hplanned : Planned d pass) (hassigned : AssignedInFlight pass)
    (hsrc : pass.download.sources[peer]? = some src)
    (hasked : Asked cfg (d.plan cfg windowUrgent now) pass.assigned
      (cfg.pipelineDepth - pass.budget peer) rank src take) :
    (pass.ask (d.plan cfg windowUrgent now) file now peer src take).download.Served cfg now
      (pass.ask (d.plan cfg windowUrgent now) file now peer src take).budget peer rank := by
  have hgrown : pass.download.Grown
      (pass.ask (d.plan cfg windowUrgent now) file now peer src take).download := by
    refine grown_ask hsrc (fun c hc => ?_) hasked.fresh
    rw [hplanned.store]
    exact hasked.needed c hc
  have hstore := hgrown.store.trans hplanned.store
  intro src' hsrc' _ c hc hbit
  rw [hstore] at hc ⊢
  rw [Pass.sources_ask _ file now take hsrc, if_pos rfl] at hsrc'
  cases hsrc'
  cases hflight : src.inFlight[c]? with
  | some i =>
    refine .inl (InFlight.grown ⟨peer, i, ?_⟩ hgrown)
    rw [flight_of_source hsrc]
    exact hflight
  | none =>
    by_cases hallowed : (d.plan cfg windowUrgent now).urgent c = true ∨
        rank < cfg.maxSources ∧ c ∉ pass.assigned
    · rcases hasked.all c hc hbit hflight hallowed with htake | hslots
      · exact .inl ⟨peer, _, by rw [Pass.flight_ask hsrc, if_pos ⟨rfl, htake⟩]⟩
      · refine .inr (.inl ?_)
        have hlen := bulkCount_le_length (d.plan cfg windowUrgent now).urgent take
        rw [Pass.budget_ask, if_pos rfl]
        omega
    · rw [not_or, not_and_or, not_lt, not_not] at hallowed
      rcases hallowed.2 with hcap | hold
      · exact .inr (.inr ⟨hcap, more_than_pipeline hallowed.1⟩)
      · exact .inl ((hassigned c hold).grown hgrown)

end Turn

/-- What the loop over a file's sources keeps. -/
structure Turning (d : Download P) (pass : Pass P) : Prop where
  planned : Planned d pass
  assigned : AssignedInFlight pass

section Loop

variable {cfg : DownloadConfig} {file : Ed2kHash} {windowUrgent : Bool} {now : Nat}
  {d : Download P} {pass : Pass P}

theorem grown_planSource (h : Turning d pass) (peer : P) (rank : Nat) :
    pass.download.Grown
        (planSource cfg file now (d.plan cfg windowUrgent now) pass peer rank).download ∧
      ∀ p, pass.budget p ≤
        (planSource cfg file now (d.plan cfg windowUrgent now) pass peer rank).budget p := by
  rcases pass.planSource_cases cfg file now (d.plan cfg windowUrgent now)
      d.store.nodup_neededChunks peer rank with ⟨hsame, _⟩ | ⟨src, take, hsrc, hasked, hask⟩
  · rw [hsame]
    exact ⟨.refl _, fun p => le_refl _⟩
  · rw [hask]
    refine ⟨grown_ask hsrc (fun c hc => ?_) hasked.fresh, fun p => ?_⟩
    · rw [h.planned.store]
      exact hasked.needed c hc
    · rw [Pass.budget_ask]
      exact Nat.le_add_right _ _

theorem Turning.planSource (h : Turning d pass) (peer : P) (rank : Nat) :
    Turning d (Download.planSource cfg file now (d.plan cfg windowUrgent now) pass peer rank) := by
  have hgrown : pass.download.Grown
      (Download.planSource cfg file now (d.plan cfg windowUrgent now) pass peer rank).download :=
    (grown_planSource h peer rank).1
  rcases pass.planSource_cases cfg file now (d.plan cfg windowUrgent now)
      d.store.nodup_neededChunks peer rank with ⟨hsame, _⟩ | ⟨src, take, hsrc, _, hask⟩
  · rw [hsame]
    exact h
  · rw [hask] at hgrown ⊢
    exact ⟨h.planned.ask hsrc, h.assigned.ask hsrc hgrown⟩

theorem served_planSource (h : Turning d pass) (peer : P) (rank : Nat) :
    (planSource cfg file now (d.plan cfg windowUrgent now) pass peer rank).download.Served cfg now
      (planSource cfg file now (d.plan cfg windowUrgent now) pass peer rank).budget peer rank := by
  rcases pass.planSource_cases cfg file now (d.plan cfg windowUrgent now)
      d.store.nodup_neededChunks peer rank with ⟨hsame, hwait⟩ | ⟨src, take, hsrc, hasked, hask⟩
  · rw [hsame]
    intro src hsrc hready
    exact absurd (hwait src hsrc) (not_lt.mpr hready)
  · rw [hask]
    exact served_ask h.planned h.assigned hsrc hasked

end Loop

theorem grown_planRequests (cfg : DownloadConfig) (file : Ed2kHash) (windowUrgent : Bool)
    (now : Nat) (d : Download P) (budget : P → Nat) (issued : Nat) :
    d.Grown (d.planRequests cfg file windowUrgent now budget issued).download := by
  unfold planRequests
  dsimp only
  split
  · exact .refl d
  · exact (List.foldlRecOn _ _ (motive := fun pass => Turning d pass ∧ d.Grown pass.download)
      ⟨⟨planned_start d _ _, assigned_start d _ _⟩, .refl d⟩
      fun pass h entry _ => ⟨h.1.planSource entry.1 entry.2,
        h.2.trans (grown_planSource h.1 entry.1 entry.2).1⟩).2

theorem served_planRequests (cfg : DownloadConfig) (file : Ed2kHash) (windowUrgent : Bool)
    (now : Nat) (d : Download P) (budget : P → Nat) (issued : Nat) {q : P} {rank : Nat}
    (hq : (q, rank) ∈ d.sources.keys.zipIdx) :
    (d.planRequests cfg file windowUrgent now budget issued).download.Served cfg now
      (d.planRequests cfg file windowUrgent now budget issued).budget q rank := by
  unfold planRequests
  dsimp only
  split
  next hempty =>
    intro src _ _ c hc
    have hnil : d.store.neededChunks = [] := isEmpty_iff.mp hempty
    rw [hnil] at hc
    cases hc
  · exact (Machine.foldl_visits (Turning d)
      (fun (pass : Pass P) (entry : P × Nat) =>
        pass.download.Served cfg now pass.budget entry.1 entry.2)
      (fun pass entry h => h.planSource entry.1 entry.2)
      (fun pass entry h => served_planSource h entry.1 entry.2)
      (fun pass entry other h hdone => hdone.grown (grown_planSource h entry.1 entry.2).1
        ((grown_planSource h entry.1 entry.2).2 other.1))
      _ ⟨planned_start d _ _, assigned_start d _ _⟩).2 (q, rank) hq

end Downloads

/-! ## §2. The refill. -/

/-- How many sources of the file come before `q` by name. -/
def Download.ahead (d : Download P) (q : P) : Nat := (d.sources.keys.filter (· < q)).length

theorem Download.ahead_le {d d' : Download P}
    (h : ∀ (p : P) (src : Source), d.sources[p]? = some src → ∃ src', d'.sources[p]? = some src')
    (q : P) : d.ahead q ≤ d'.ahead q := by
  refine (List.Nodup.subperm ((nodup_keys d.sources).filter _) fun p hp => ?_).length_le
  obtain ⟨hkey, hlt⟩ := mem_filter.mp hp
  obtain ⟨src, hsrc⟩ := (mem_keys d.sources p).mp hkey
  exact mem_filter.mpr ⟨(mem_keys d'.sources p).mpr (h p src hsrc), hlt⟩

theorem Download.Grown.ahead_le {d d' : Download P} (h : d.Grown d') (q : P) :
    d.ahead q ≤ d'.ahead q := by
  refine Download.ahead_le (fun p src hsrc => ?_) q
  exact ⟨_, by rw [h.sources p, hsrc]; rfl⟩

theorem Download.Served.rank_le {cfg : DownloadConfig} {now rank rank' : Nat} {d : Download P}
    {budget : P → Nat} {q : P} (h : d.Served cfg now budget q rank) (hle : rank ≤ rank') :
    d.Served cfg now budget q rank' := by
  intro src hsrc hready c hc hbit
  exact (h src hsrc hready c hc hbit).imp_right (Or.imp_right (And.imp_left hle.trans'))

namespace Downloads

open Download

/-- Every source of the file is served. -/
def FileServed (cfg : DownloadConfig) (now : Nat) (r : Refill P) (file : Ed2kHash) : Prop :=
  ∀ d, r.downloads.files[file]? = some d → d.blockHashes.isSome = true →
    ∀ q, d.Served cfg now r.budget q (d.ahead q)

theorem FileServed.commits {cfg : DownloadConfig} {now : Nat} {r r' : Refill P} {file : Ed2kHash}
    (h : FileServed cfg now r file) (hcommit : Commits r r') : FileServed cfg now r' file := by
  obtain ⟨f, d₀, d₁, peer, take, urgent, hd₀, _, hdownloads, hgrown, _, hbudget, _⟩ := hcommit
  have hle : ∀ p, r.budget p ≤ r'.budget p := fun p => by
    rw [hbudget p]
    exact Nat.le_add_right _ _
  intro d hd hhashes q
  have hget : r'.downloads.files[file]? =
      if file = f then some d₁ else r.downloads.files[file]? := by
    rw [hdownloads]
    exact getElem?_put r.downloads f file d₁
  rw [hget] at hd
  split at hd
  next hfile =>
    cases hd
    rw [hgrown.blockHashes] at hhashes
    exact ((h d₀ (hfile ▸ hd₀) hhashes q).grown hgrown (hle q)).rank_le (hgrown.ahead_le q)
  · exact (h d hd hhashes q).grown (.refl d) (hle q)

/-- **A file's turn serves its sources**, whether it is planned or passed over. -/
theorem fileServed_planFile (now : Nat) (urgentSweep : Bool) (r : Refill P) (file : Ed2kHash) :
    FileServed r.downloads.config now (planFile now urgentSweep r file) file := by
  unfold planFile
  dsimp only
  split
  next hnone =>
    intro d hd
    rw [hnone] at hd
    cases hd
  next d hd =>
  split
  next hskip =>
    intro d' hd' hhashes q src hsrc
    rw [hd] at hd'
    cases hd'
    rcases Bool.or_eq_true_iff.mp hskip with hempty | hpending
    · rw [(isEmpty_iff_getElem? d.sources).mp hempty q] at hsrc
      cases hsrc
    · rw [isNone_iff_eq_none.mp hpending] at hhashes
      cases hhashes
  split
  next hparked =>
    -- passed over: no source of the file has budget left
    intro d' hd' _ q src hsrc _ c _ _
    rw [hd] at hd'
    cases hd'
    refine .inr (.inl ?_)
    by_contra hfree
    refine absurd ?_ (Bool.eq_false_iff.mp (Bool.not_eq_true' _ |>.mp hparked))
    refine Bool.or_eq_true_iff.mpr (.inl (any_eq_true.mpr ⟨q, ?_, ?_⟩))
    · exact (mem_keys d.sources q).mpr ⟨src, hsrc⟩
    · exact decide_eq_true (not_le.mp hfree)
  · intro d' hd' _ q
    have hself : d' = (d.planRequests r.downloads.config file
        (r.downloads.nowPlaying == some file) now r.budget r.downloads.issued).download := by
      have hput := getElem?_put r.downloads file file (d.planRequests r.downloads.config file
        (r.downloads.nowPlaying == some file) now r.budget r.downloads.issued).download
      rw [if_pos rfl] at hput
      exact Option.some.inj (hd'.symm.trans hput)
    subst hself
    have hgrown := grown_planRequests r.downloads.config file
      (r.downloads.nowPlaying == some file) now d r.budget r.downloads.issued
    intro src hsrc
    have hq : q ∈ d.sources.keys := by
      rw [hgrown.sources q] at hsrc
      obtain ⟨src₀, hsrc₀, _⟩ := map_eq_some_iff.mp hsrc
      exact (mem_keys d.sources q).mpr ⟨src₀, hsrc₀⟩
    have hserved := served_planRequests r.downloads.config file
      (r.downloads.nowPlaying == some file) now d r.budget r.downloads.issued
      (mem_zipIdx_of_sorted (sorted_keys d.sources) hq)
    exact hserved.rank_le (hgrown.ahead_le q) src hsrc

/-- **The refill serves every source of every file.** -/
theorem fileServed_planAll (s : Downloads P) (now : Nat) (urgentSweep : Bool) {file : Ed2kHash}
    {d : Download P} (hd : s.files[file]? = some d) :
    FileServed s.config now (s.planAll now urgentSweep) file := by
  refine (Machine.foldl_visits (fun r : Refill P => r.downloads.config = s.config)
    (FileServed s.config now) (fun r f hr => ?_) (fun r f hr => ?_) (fun r f f' _ hserved => ?_)
    s.priorityOrderedFiles rfl).2 file ((s.mem_priorityOrderedFiles file).mpr ⟨d, hd⟩)
  · refine planFile_induct (I := fun r : Refill P => r.downloads.config = s.config)
      (fun r r' hr hcommit => ?_) now urgentSweep f hr
    obtain ⟨_, _, _, _, _, _, _, _, hdownloads, _⟩ := hcommit
    rw [hdownloads]
    exact hr
  · rw [← hr]
    exact fileServed_planFile now urgentSweep r f
  · exact planFile_induct (I := fun r => FileServed s.config now r f')
      (fun r r' h hcommit => h.commits hcommit) now urgentSweep f hserved

end Downloads

/-! ## §3. A tick. -/

/-- How many sources of the file beside `q` have requests in flight. -/
def Download.othersServing (d : Download P) (q : P) : Nat :=
  d.sources.toList.countP fun (p, src) => decide (p ≠ q) && !src.inFlight.isEmpty

/-- … and will not time out at `now`. -/
def Download.othersBusy (cfg : DownloadConfig) (now : Nat) (d : Download P) (q : P) : Nat :=
  d.sources.toList.countP fun (p, src) =>
    decide (p ≠ q) && (!src.inFlight.isEmpty && !src.snubbed cfg now)

/-- Why a source may be left unasked: it is backing off, its pipeline is full, or as many other
sources as the cap allows are serving the file. -/
def Downloads.Excused (s : Downloads P) (now : Nat) (d : Download P) (q : P) (src : Source) :
    Prop :=
  now < src.retryAt ∨ s.config.pipelineDepth ≤ s.inFlightAt q ∨
    s.config.maxSources ≤ d.othersServing q

instance (s : Downloads P) (now : Nat) (d : Download P) (q : P) (src : Source) :
    Decidable (s.Excused now d q src) :=
  inferInstanceAs (Decidable (_ ∨ _ ∨ _))

/-- **No available chunk is stranded**: a source that has a needed chunk nobody was asked for is
excused. -/
def Downloads.NoneStranded (s : Downloads P) (now : Nat) (file : Ed2kHash) (q : P) : Prop :=
  ∀ d, s.files[file]? = some d → d.blockHashes.isSome = true →
    ∀ c ∈ d.store.neededChunks, ¬ d.InFlight c →
      ∀ src, d.sources[q]? = some src → src.bitfield.get c = true → s.Excused now d q src

namespace Downloads

open Download

theorem ahead_ticked {cfg : DownloadConfig} {file : Ed2kHash} {now : Nat} {d d₁ : Download P}
    (h : (d.ticked cfg file now).1 = some d₁) (q : P) : d₁.ahead q ≤ d.ahead q := by
  refine Download.ahead_le (fun p src hsrc => ?_) q
  rw [sources_ticked h p] at hsrc
  obtain ⟨src₀, hsrc₀, _⟩ := map_eq_some_iff.mp hsrc
  exact ⟨src₀, (filter_eq_some_iff.mp hsrc₀).1⟩

/-- A busy source that does not time out is busy after the tick. -/
theorem othersBusy_le {cfg : DownloadConfig} {file : Ed2kHash} {now : Nat} {d d₁ d' : Download P}
    (h : (d.ticked cfg file now).1 = some d₁) (hgrown : d₁.Grown d') (q : P) :
    d.othersBusy cfg now q ≤ d'.othersServing q := by
  unfold Download.othersBusy Download.othersServing
  rw [countP_eq_length_filter, countP_eq_length_filter, ← length_map Prod.fst,
    ← @length_map _ _ (filter _ d'.sources.toList) Prod.fst]
  have hnodup : (d.sources.toList.map Prod.fst).Nodup := by
    rw [Std.ExtTreeMap.map_fst_toList_eq_keys]
    exact nodup_keys d.sources
  refine (List.Nodup.subperm (hnodup.sublist (filter_sublist.map _)) fun _ hp => ?_).length_le
  obtain ⟨⟨p, src⟩, hmem, rfl⟩ := mem_map.mp hp
  obtain ⟨hsrc, hbusy⟩ := mem_filter.mp hmem
  rw [Bool.and_eq_true, Bool.and_eq_true] at hbusy
  obtain ⟨hne, hflight, hon⟩ := hbusy
  -- its entry loses nothing, first to the tick, then to the refill
  have hsrc₁ := sources_ticked h p
  rw [(mem_entries d.sources _).mp hsrc, filter_some, if_pos hon, map_some] at hsrc₁
  have hsame : d₁.flight p = src.inFlight := by
    rw [flight_of_source hsrc₁, inFlight_asked, inFlight_resolicit]
  obtain ⟨src', hsrc', hflight'⟩ : ∃ src', d'.sources[p]? = some src' ∧
      src'.inFlight = d'.flight p := ⟨_, by rw [hgrown.sources p, hsrc₁]; rfl, rfl⟩
  refine mem_map.mpr ⟨(p, src'), mem_filter.mpr ⟨(mem_entries d'.sources _).mpr hsrc', ?_⟩, rfl⟩
  rw [Bool.and_eq_true]
  refine ⟨hne, ?_⟩
  rw [Bool.not_eq_true', Bool.eq_false_iff] at hflight ⊢
  intro hempty
  refine hflight ((isEmpty_iff_getElem? _).mpr fun c => ?_)
  cases hc : src.inFlight[c]? with
  | none => rfl
  | some i =>
    have hkept := hgrown.flight p c i (by rw [hsame]; exact hc)
    rw [← hflight', (isEmpty_iff_getElem? _).mp hempty c] at hkept
    cases hkept

theorem budget_planAll (s : Downloads P) (now : Nat) (urgentSweep : Bool) (p : P) :
    (s.planAll now urgentSweep).budget p =
      (s.planAll now urgentSweep).downloads.inFlightAt p :=
  planAll_induct (I := fun r : Refill P => ∀ p, r.budget p = r.downloads.inFlightAt p)
    (fun _ _ hr hcommit => hcommit.budget hr) now urgentSweep (fun _ => rfl) p

/-- **Within the cap nothing is stranded.**  A source with fewer than `maxSources` names before
its own, every source once what is left fits in one pipeline, and every source beside
`maxSources` others that are busy and do not time out, is asked for each needed chunk that
nobody else was asked for, or is excused. -/
theorem none_stranded_within_cap (s : Downloads P) (now : Nat) (file : Ed2kHash) (q : P)
    (hcap : ∀ d, s.files[file]? = some d →
      d.ahead q < s.config.maxSources ∨
        d.store.neededChunks.length ≤ s.config.pipelineDepth ∨
        s.config.maxSources ≤ d.othersBusy s.config now q) :
    (s.tick now).1.NoneStranded now file q := by
  intro d' hd' hhashes c hc hflight src hsrc hbit
  rw [tick_eq] at hd' ⊢
  have hrefilled := refilled_planAll (s.ticked now) now true
  obtain ⟨d₁, hd₁, hgrown, _⟩ := hrefilled.origin hd'
  -- the download before the tick, and what its first phase kept of it
  have hfirst := hd₁
  rw [files_ticked] at hfirst
  obtain ⟨d, hd, hticked⟩ := bind_eq_some_iff.mp hfirst
  have hserved := fileServed_planAll (s.ticked now) now true hd₁ d' hd' hhashes q
  rw [config_ticked] at hserved
  unfold Excused
  rw [hrefilled.config, config_ticked, ← budget_planAll]
  by_cases hready : src.retryAt ≤ now
  · rcases hserved src hsrc hready c hc hbit with hin | hfull | ⟨hrank, hmore⟩
    · exact absurd hin hflight
    · exact .inr (.inl hfull)
    · have hstore : d'.store = d.store := hgrown.store.trans (idle_ticked hticked).store
      have hahead : d'.ahead q ≤ d.ahead q := by
        refine le_trans (Download.ahead_le (fun p src hsrc => ?_) q) (ahead_ticked hticked q)
        rw [hgrown.sources p] at hsrc
        obtain ⟨src₁, hsrc₁, _⟩ := map_eq_some_iff.mp hsrc
        exact ⟨src₁, hsrc₁⟩
      rw [hstore] at hmore
      rcases hcap d hd with hlt | hfits | hbusy
      · exact absurd (hrank.trans hahead) (not_le.mpr hlt)
      · exact absurd hfits (not_le.mpr hmore)
      · exact .inr (.inr (hbusy.trans (othersBusy_le hticked hgrown q)))
  · exact .inl (not_le.mp hready)

/-- Two chunks to fetch, one request at a time from one source at most: source 2 has both, and
source 1 has what `first` says. -/
def twoHolders (first : Bitfield) : Downloads Nat :=
  let io : DiskIo := ⟨.done, fun _ => true⟩
  runCalls (fun _ => 0) (Downloads.new ⟨1, 1, 30000, 5000⟩)
    [.start 7 256001 5 "f" [1, 2] 0 0 ⟨none, true, none⟩,
      .peerMessage 1 (.fileAvailability 7 first) 1 io,
      .peerMessage 2 (.fileAvailability 7 ⟨[3], 2⟩) 2 io,
      .peerMessage 2 (.blockHashes 7 [5]) 3 io]

theorem none_stranded_within_cap_first :
    (((twoHolders ⟨[3], 2⟩).tick 4).1.files[7]?.map fun d =>
        (decide (d.InFlight 0), decide (d.InFlight 1))) = some (true, false) ∧
      ((twoHolders ⟨[3], 2⟩).tick 4).1.NoneStranded 4 7 1 := by
  refine ⟨by decide +kernel, none_stranded_within_cap _ 4 7 1 fun d hd => .inl ?_⟩
  have hahead : ((twoHolders ⟨[3], 2⟩).files[7]?.map fun d => d.ahead 1) = some 0 := by
    decide +kernel
  rw [hd] at hahead
  have hzero : d.ahead 1 = 0 := Option.some.inj hahead
  rw [hzero]
  decide +kernel

/-- **An idle first source strands the chunks of the second.**  Source 1 has nothing, source 2
has everything and is idle, and the tick asks nobody. -/
theorem idle_first_source_strands :
    Machine.Reach (step fun _ => 0) Machine.anyStep (Downloads.new ⟨1, 1, 30000, 5000⟩)
        (twoHolders ⟨[0], 2⟩) ∧
      ¬ ((twoHolders ⟨[0], 2⟩).tick 4).1.NoneStranded 4 7 2 := by
  refine ⟨reach_runCalls _ _ _, fun h => ?_⟩
  have hstate : (((twoHolders ⟨[0], 2⟩).tick 4).1.files[7]?.map fun d =>
      (d.blockHashes.isSome, decide (0 ∈ d.store.neededChunks), decide (d.InFlight 0),
        (d.sources[2]?).map fun src => (src.bitfield.get 0,
          decide (((twoHolders ⟨[0], 2⟩).tick 4).1.Excused 4 d 2 src)))) =
      some (true, true, false, some (true, false)) := by decide +kernel
  obtain ⟨d, hd, hfields⟩ := map_eq_some_iff.mp hstate
  simp only [Prod.mk.injEq, decide_eq_true_eq, decide_eq_false_iff_not] at hfields
  obtain ⟨hhashes, hneeded, hflight, hsource⟩ := hfields
  obtain ⟨src, hsrc, hview⟩ := map_eq_some_iff.mp hsource
  simp only [Prod.mk.injEq, decide_eq_false_iff_not] at hview
  exact hview.2 (h d hd hhashes 0 hneeded hflight src hsrc hview.1)

end Downloads

end DessPlay.Transfer
