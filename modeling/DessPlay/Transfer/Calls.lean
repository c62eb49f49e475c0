/-
  DessPlay.Transfer.Calls
  **WHAT ONE CALL CAN DO TO ONE DOWNLOAD.**

  A call has two phases.  The first touches the download it names (a tick: all of
  them), requests nothing, and ends by dropping it if it is complete.  The second,
  if there is one, is `planAll`, which only adds requests.
-/
import DessPlay.Transfer.Scheduler

namespace DessPlay.Transfer

open BTree DessPlay.Core Option
open List hiding getElem?_filter getElem?_insert getElem?_map

variable {P : Type} [LinearOrder P]

/-! ## §1. Changes that request nothing. -/

def Within (m m' : BTreeMap Nat Issue) : Prop :=
  ∀ (c : Nat) (i : Issue), m[c]? = some i → m'[c]? = some i

theorem Within.refl (m : BTreeMap Nat Issue) : Within m m := fun _ _ h => h

theorem Within.trans {m m' m'' : BTreeMap Nat Issue} (h : Within m m') (h' : Within m' m'') :
    Within m m'' := fun c i hi => h' c i (h c i hi)

theorem within_empty (m : BTreeMap Nat Issue) : Within ∅ m := by
  intro c i hi
  simp at hi

theorem within_erase (m : BTreeMap Nat Issue) (index : Nat) : Within (m.erase index) m := by
  intro c i hi
  rw [getElem?_erase] at hi
  split at hi
  · cases hi
  · exact hi

namespace Download

def flight (d : Download P) (peer : P) : BTreeMap Nat Issue :=
  (d.sources[peer]?).elim ∅ Source.inFlight

variable {d d' d'' : Download P}

theorem flight_of_source {peer : P} {src : Source} (h : d.sources[peer]? = some src) :
    d.flight peer = src.inFlight := by
  unfold flight
  rw [h]
  rfl

theorem flight_of_none {peer : P} (h : d.sources[peer]? = none) : d.flight peer = ∅ := by
  unfold flight
  rw [h]
  rfl

structure Kept (d d' : Download P) : Prop where
  root : d'.root = d.root
  sizeBytes : d'.sizeBytes = d.sizeBytes
  flight : ∀ p, Within (d'.flight p) (d.flight p)

structure Idle (d d' : Download P) : Prop extends Kept d d' where
  store : d'.store = d.store
  blockHashes : d'.blockHashes = d.blockHashes

theorem Kept.trans (h : Kept d d') (h' : Kept d' d'') : Kept d d'' where
  root := h'.root.trans h.root
  sizeBytes := h'.sizeBytes.trans h.sizeBytes
  flight p := (h'.flight p).trans (h.flight p)

theorem Idle.refl (d : Download P) : Idle d d := ⟨⟨rfl, rfl, fun _ => Within.refl _⟩, rfl, rfl⟩

theorem Idle.trans (h : Idle d d') (h' : Idle d' d'') : Idle d d'' :=
  ⟨h.toKept.trans h'.toKept, h'.store.trans h.store, h'.blockHashes.trans h.blockHashes⟩

theorem flight_of_sources
    (h : ∀ (p : P) (src' : Source), d'.sources[p]? = some src' → src'.inFlight = ∅ ∨
      ∃ src, d.sources[p]? = some src ∧ Within src'.inFlight src.inFlight)
    (p : P) : Within (d'.flight p) (d.flight p) := by
  cases hp : d'.sources[p]? with
  | none =>
    rw [flight_of_none hp]
    exact within_empty _
  | some src' =>
    rw [flight_of_source hp]
    rcases h p src' hp with hempty | ⟨src, hsrc, hsub⟩
    · rw [hempty]
      exact within_empty _
    · rw [flight_of_source hsrc]
      exact hsub

theorem getElem?_updateSource (d : Download P) (peer : P) (f : Source → Source) (p : P) :
    (d.updateSource peer f).sources[p]? =
      if p = peer then (d.sources[p]?).map f else d.sources[p]? := by
  unfold updateSource
  split
  next src hsrc =>
    rw [getElem?_insert]
    split
    next hp => rw [hp, hsrc]; rfl
    · rfl
  next hnone =>
    split
    next hp => rw [hp, hnone]; rfl
    · rfl

theorem updateSource_fields (d : Download P) (peer : P) (f : Source → Source) :
    (d.updateSource peer f).store = d.store ∧ (d.updateSource peer f).root = d.root ∧
      (d.updateSource peer f).sizeBytes = d.sizeBytes ∧
      (d.updateSource peer f).blockHashes = d.blockHashes := by
  unfold updateSource
  split <;> exact ⟨rfl, rfl, rfl, rfl⟩

theorem idle_updateSource (d : Download P) (peer : P) {f : Source → Source}
    (hf : ∀ src, Within (f src).inFlight src.inFlight) : Idle d (d.updateSource peer f) := by
  obtain ⟨hstore, hroot, hsize, hhashes⟩ := d.updateSource_fields peer f
  refine ⟨⟨hroot, hsize, flight_of_sources fun p src' hp => .inr ?_⟩, hstore, hhashes⟩
  rw [getElem?_updateSource] at hp
  split at hp
  · obtain ⟨src, hsrc, rfl⟩ := map_eq_some_iff.mp hp
    exact ⟨src, hsrc, hf src⟩
  · exact ⟨src', hp, Within.refl _⟩

theorem idle_addSource (d : Download P) (now : Nat) (peer : P) : Idle d (d.addSource now peer) := by
  unfold addSource
  split
  · exact Idle.refl d
  split
  · exact Idle.refl d
  · refine ⟨⟨rfl, rfl, flight_of_sources fun p src' hp => ?_⟩, rfl, rfl⟩
    rw [getElem?_insert] at hp
    split at hp
    · cases hp
      exact .inl rfl
    · exact .inr ⟨src', hp, Within.refl _⟩

theorem idle_setSources (d : Download P) (sources : List P) (playChunk now : Nat) :
    Idle d (d.setSources sources playChunk now) := by
  have hadd : ∀ (l : List P) (d₁ : Download P), Idle d d₁ →
      Idle d (l.foldl (fun d peer => d.addSource now peer) d₁) := by
    intro l
    induction l with
    | nil => exact fun _ h => h
    | cons peer l ih => exact fun d₁ h => ih _ (h.trans (idle_addSource d₁ now peer))
  refine hadd sources _ ⟨⟨rfl, rfl, flight_of_sources fun p src' hp => .inr ?_⟩, rfl, rfl⟩
  rw [getElem?_filter] at hp
  exact ⟨src', (filter_eq_some_iff.mp hp).1, Within.refl _⟩

theorem idle_eraseSource (d : Download P) (peer : P) (denied : BTreeSet P) :
    Idle d { d with sources := d.sources.erase peer, denied } := by
  refine ⟨⟨rfl, rfl, flight_of_sources fun p src' hp => .inr ?_⟩, rfl, rfl⟩
  rw [getElem?_erase] at hp
  split at hp
  · cases hp
  · exact ⟨src', hp, Within.refl _⟩

theorem idle_mapSources (d : Download P) {f : P → Source → Source}
    (hf : ∀ p src, Within (f p src).inFlight src.inFlight) :
    Idle d { d with sources := d.sources.map f } := by
  refine ⟨⟨rfl, rfl, flight_of_sources fun p src' hp => .inr ?_⟩, rfl, rfl⟩
  rw [getElem?_map] at hp
  obtain ⟨src, hsrc, rfl⟩ := map_eq_some_iff.mp hp
  exact ⟨src, hsrc, hf p src⟩

theorem idle_cancelElsewhere (d : Download P) (file : Ed2kHash) (index : Nat) (sender : P) :
    Idle d (d.cancelElsewhere file index sender).1 := by
  refine idle_mapSources d fun p src => ?_
  split
  · exact Within.refl _
  · exact within_erase _ _

theorem resolicit_inFlight {cfg : DownloadConfig} {needHashes : Bool} {now : Nat}
    {src src' : Source} (h : src.resolicit cfg needHashes now = some src') :
    src'.inFlight = src.inFlight := by
  unfold Source.resolicit at h
  split at h
  · cases h
  dsimp only at h
  split at h
  · split at h
    · cases h
    · cases h
      rfl
  · split at h
    · cases h
    · cases h
      rfl

theorem idle_snub (cfg : DownloadConfig) (file : Ed2kHash) (now : Nat) (d : Download P) :
    Idle d (d.snub cfg file now).1 := by
  have hfilter :
      Idle d { d with sources := d.sources.filter fun _ src => !src.snubbed cfg now } := by
    refine ⟨⟨rfl, rfl, flight_of_sources fun p src' hp => .inr ?_⟩, rfl, rfl⟩
    rw [getElem?_filter] at hp
    exact ⟨src', (filter_eq_some_iff.mp hp).1, Within.refl _⟩
  refine hfilter.trans (idle_mapSources _ fun p src => ?_)
  cases hre : src.resolicit cfg d.blockHashes.isNone now with
  | none => exact Within.refl _
  | some src' =>
    show Within src'.inFlight src.inFlight
    rw [resolicit_inFlight hre]
    exact Within.refl _

theorem idle_solicit (d : Download P) (file : Ed2kHash) : Idle d (d.solicit file).1 := by
  refine idle_mapSources d fun p src => ?_
  split <;> exact Within.refl _

theorem idle_report (d : Download P) (file : Ed2kHash) : Idle d (d.report file).1 := by
  unfold report
  dsimp only
  split
  · exact ⟨⟨rfl, rfl, fun _ => Within.refl _⟩, rfl, rfl⟩
  · exact Idle.refl d

theorem progressAndSolicit_cases (d : Download P) (file : Ed2kHash) :
    (d.store.isComplete = true ∧ d.progressAndSolicit file =
        (none, [.complete file d.store.path (d.blockHashes.getD []) d])) ∨
      d.store.isComplete = false ∧ ∃ d' actions,
        d.progressAndSolicit file = (some d', actions) ∧ Idle d d' ∧
          ∀ f path hashes e, DownloadAction.complete f path hashes e ∉ actions := by
  have hasked : ∀ f path hashes e,
      DownloadAction.complete f path hashes e ∉ (d.solicit file).2 := by
    intro f path hashes e he
    obtain ⟨⟨p, src⟩, _, hsend⟩ := mem_filterMap.mp he
    dsimp only at hsend
    split at hsend <;> cases hsend
  unfold progressAndSolicit
  cases hcomplete : d.store.isComplete with
  | true => exact .inl ⟨rfl, rfl⟩
  | false =>
    refine .inr ⟨rfl, ?_⟩
    cases hhashes : d.blockHashes with
    | none => exact ⟨_, _, rfl, d.idle_solicit file, hasked⟩
    | some _ =>
      refine ⟨_, _, rfl, (d.idle_solicit file).trans (idle_report _ file), ?_⟩
      intro f path hashes e he
      rcases mem_append.mp he with he | he
      · exact hasked f path hashes e he
      · unfold report at he
        dsimp only at he
        split at he
        · cases mem_singleton.mp he
        · cases he

end Download

/-! ## §2. The first phase of a call. -/

def ChunkStore.verifyKnown (md4 : List UInt8 → Nat) (hashes : Option (List Ed2kBlockHash))
    (readable : Nat → Bool) (s : ChunkStore) : ChunkStore :=
  match hashes with
  | none => s
  | some hs => s.verify md4 hs readable

namespace Download

theorem verifyAndCollect_eq (md4 : List UInt8 → Nat) (readable : Nat → Bool) (d : Download P) :
    d.verifyAndCollect md4 readable =
      { d with store := d.store.verifyKnown md4 d.blockHashes readable } := by
  obtain ⟨_, _, _, _ | _, _, _, _, _, _, _⟩ := d <;> rfl

/-- **Everything the first phase can do** to the download of `file`: bookkeeping, trusting a
hash list and verifying what is there, a failed write, or a chunk's arrival, after which
the chunk is in flight nowhere. -/
inductive Edit (md4 : List UInt8 → Nat) (call : Downloads.Call P) (file : Ed2kHash)
    (d d' : Download P) : Prop
  | idle (h : Idle d d')
  | trusted {sender : P} {hashes : List Ed2kBlockHash} {now : Nat} {io : Downloads.DiskIo}
      (hcall : call = .peerMessage sender (.blockHashes file hashes) now io) (hkept : Kept d d')
      (hpending : d.blockHashes = none)
      (hmatch : d.store.blockHashesMatch md4 d.root hashes = true)
      (hhashes : d'.blockHashes = some hashes)
      (hstore : d'.store = d.store.verify md4 hashes io.readable)
  | failed {sender : P} {index : Nat} {data : List UInt8} {now : Nat} {io : Downloads.DiskIo}
      (hcall : call = .peerMessage sender (.chunkData file index data) now io)
      (hkept : Kept d d') (hnew : d.store.isWritten index = false)
      (hhashes : d'.blockHashes = d.blockHashes)
      (hfail : (d.store.writeChunk index data io.write).2 = false)
      (hstore : d'.store = (d.store.writeChunk index data io.write).1)
  | arrived {sender : P} {index : Nat} {data : List UInt8} {now : Nat} {io : Downloads.DiskIo}
      (hcall : call = .peerMessage sender (.chunkData file index data) now io)
      (hkept : Kept d d') (hnew : d.store.isWritten index = false)
      (hhashes : d'.blockHashes = d.blockHashes)
      (hdone : (d.store.writeChunk index data io.write).2 = true)
      (hstore : d'.store = (d.store.writeChunk index data io.write).1.verifyKnown md4 d.blockHashes
        io.readable)
      (hgone : ∀ p, (d'.flight p)[index]? = none)

variable {md4 : List UInt8 → Nat} {call : Downloads.Call P} {file : Ed2kHash}

theorem Edit.then_idle {d d' d'' : Download P} (h : Edit md4 call file d d') (h' : Idle d' d'') :
    Edit md4 call file d d'' := by
  cases h with
  | idle h => exact .idle (h.trans h')
  | trusted hcall hkept hpending hmatch hhashes hstore =>
    exact .trusted hcall (hkept.trans h'.toKept) hpending hmatch
      (h'.blockHashes.trans hhashes) (h'.store.trans hstore)
  | failed hcall hkept hnew hhashes hfail hstore =>
    exact .failed hcall (hkept.trans h'.toKept) hnew (h'.blockHashes.trans hhashes) hfail
      (h'.store.trans hstore)
  | arrived hcall hkept hnew hhashes hdone hstore hgone =>
    refine .arrived hcall (hkept.trans h'.toKept) hnew (h'.blockHashes.trans hhashes) hdone
      (h'.store.trans hstore) fun p => ?_
    rw [eq_none_iff_forall_ne_some]
    intro i hi
    have hold := h'.flight p _ i hi
    rw [hgone p] at hold
    cases hold

/-- Where a download after the first phase comes from: it was there and was edited, or the
call started it. -/
def Origin (md4 : List UInt8 → Nat) (s : Downloads P) (call : Downloads.Call P) (file : Ed2kHash)
    (d' : Download P) : Prop :=
  (∃ d, s.files[file]? = some d ∧ Edit md4 call file d d') ∨
    s.files[file]? = none ∧ ∃ sizeBytes root path sources playChunk now fs store,
      call = .start file sizeBytes root path sources playChunk now fs ∧
        ChunkStore.openFile fs path sizeBytes = .ok store ∧
        Idle (Download.new store root sizeBytes playChunk) d'

theorem Origin.then_idle {s : Downloads P} {d' d'' : Download P} (h : Origin md4 s call file d')
    (h' : Idle d' d'') : Origin md4 s call file d'' := by
  rcases h with ⟨d, hd, hedit⟩ | ⟨hnone, size, root, path, srcs, play, now, fs, store, hc, ho, hi⟩
  · exact .inl ⟨d, hd, hedit.then_idle h'⟩
  · exact .inr ⟨hnone, size, root, path, srcs, play, now, fs, store, hc, ho, hi.trans h'⟩

end Download

namespace Downloads

open Download

/-- What the first phase guarantees about the state and the actions it leaves. -/
structure FirstPhase (md4 : List UInt8 → Nat) (s : Downloads P) (call : Call P)
    (r : Downloads P × List (DownloadAction P)) : Prop where
  config : r.1.config = s.config
  issued : r.1.issued = s.issued
  origin : ∀ (file : Ed2kHash) (d' : Download P), r.1.files[file]? = some d' →
    Origin md4 s call file d'
  live : ∀ (file : Ed2kHash) (d' : Download P), r.1.files[file]? = some d' →
    d'.store.isComplete = true → ∃ d, s.files[file]? = some d ∧ d.store.isComplete = true
  complete : ∀ file path hashes e, DownloadAction.complete file path hashes e ∈ r.2 →
    Origin md4 s call file e ∧ e.store.isComplete = true ∧ path = e.store.path
  dropped : ∀ (file : Ed2kHash) (d : Download P), s.files[file]? = some d →
    r.1.files[file]? = none →
    call = .cancel file ∨ ∃ path hashes e, DownloadAction.complete file path hashes e ∈ r.2

section Phases

variable {md4 : List UInt8 → Nat} {s : Downloads P} {call : Call P}

/-- Actions without a `Complete`. -/
def Quiet (actions : List (DownloadAction P)) : Prop :=
  ∀ file path hashes e, DownloadAction.complete file path hashes e ∉ actions

theorem quiet_nil : Quiet ([] : List (DownloadAction P)) := fun _ _ _ _ => not_mem_nil

theorem quiet_filterMap {l : List (P × Source)} {f : P × Source → Option (DownloadAction P)}
    (hf : ∀ e a, f e = some a → ∃ peer message, a = .send peer message) :
    Quiet (l.filterMap f) := by
  intro file path hashes e he
  obtain ⟨entry, _, hentry⟩ := mem_filterMap.mp he
  obtain ⟨peer, message, heq⟩ := hf entry _ hentry
  cases heq

theorem Quiet.append {l l' : List (DownloadAction P)} (h : Quiet l) (h' : Quiet l') :
    Quiet (l ++ l') := by
  intro file path hashes e he
  rcases mem_append.mp he with he | he
  · exact h file path hashes e he
  · exact h' file path hashes e he

variable {actions : List (DownloadAction P)}

theorem firstPhase_of_files {t : Downloads P} (hconfig : t.config = s.config)
    (hissued : t.issued = s.issued) (hfiles : t.files = s.files) (hquiet : Quiet actions) :
    FirstPhase md4 s call (t, actions) where
  config := hconfig
  issued := hissued
  origin _ d' h := .inl ⟨d', hfiles ▸ h, .idle (Idle.refl d')⟩
  live _ d' h hc := ⟨d', hfiles ▸ h, hc⟩
  complete file path hashes e h := absurd h (hquiet file path hashes e)
  dropped file d h hn := by
    rw [hfiles, h] at hn
    cases hn

theorem firstPhase_refl (hquiet : Quiet actions) : FirstPhase md4 s call (s, actions) :=
  firstPhase_of_files rfl rfl rfl hquiet

theorem getElem?_put (s : Downloads P) (file f : Ed2kHash) (d : Download P) :
    (s.put file d).files[f]? = if f = file then some d else s.files[f]? :=
  getElem?_insert s.files file f d

theorem put_put (s : Downloads P) (file : Ed2kHash) (d d' : Download P) :
    (s.put file d).put file d' = s.put file d' := by
  unfold put
  congr 1
  refine map_ext fun f => ?_
  rw [getElem?_insert, getElem?_insert, getElem?_insert]
  split <;> rfl

variable {r : Downloads P × List (DownloadAction P)} {file : Ed2kHash} {d₀ d : Download P}

theorem FirstPhase.put (h : FirstPhase md4 s call r) (horigin : Origin md4 s call file d₀)
    (hlive : d₀.store.isComplete = true →
      ∃ d, s.files[file]? = some d ∧ d.store.isComplete = true)
    (hquiet : Quiet actions) :
    FirstPhase md4 s call (r.1.put file d₀, r.2 ++ actions) where
  config := h.config
  issued := h.issued
  origin f d' hf := by
    rw [getElem?_put] at hf
    split at hf
    next heq =>
      cases hf
      rw [heq]
      exact horigin
    · exact h.origin f d' hf
  live f d' hf hc := by
    rw [getElem?_put] at hf
    split at hf
    next heq =>
      cases hf
      rw [heq]
      exact hlive hc
    · exact h.live f d' hf hc
  complete f path hashes e he := by
    rcases mem_append.mp he with he | he
    · exact h.complete f path hashes e he
    · exact absurd he (hquiet f path hashes e)
  dropped f d hf hn := by
    rw [getElem?_put] at hn
    split at hn
    · cases hn
    · refine (h.dropped f d hf hn).imp_right ?_
      rintro ⟨path, hashes, e, he⟩
      exact ⟨path, hashes, e, mem_append_left _ he⟩

theorem FirstPhase.progress (h : FirstPhase md4 s call r) (horigin : Origin md4 s call file d₀)
    (hquiet : Quiet actions) :
    FirstPhase md4 s call
      (((r.1.put file d₀).progressAndSolicit file).1,
        r.2 ++ actions ++ ((r.1.put file d₀).progressAndSolicit file).2) := by
  have hfile : (r.1.put file d₀).files[file]? = some d₀ := by
    rw [getElem?_put, if_pos rfl]
  unfold progressAndSolicit
  rw [hfile]
  dsimp only
  rcases d₀.progressAndSolicit_cases file with ⟨hc, heq⟩ | ⟨hc, d', acts, heq, hidle, hq⟩
  · rw [heq]
    -- the download is complete and dropped
    refine ⟨h.config, h.issued, fun f d' hf => ?_, fun f d' hf => ?_, fun f path hashes e he => ?_,
      fun f d hf hn => ?_⟩
    · rw [getElem?_erase] at hf
      split at hf
      · cases hf
      next hne =>
        rw [getElem?_put, if_neg hne] at hf
        exact h.origin f d' hf
    · rw [getElem?_erase] at hf
      split at hf
      · cases hf
      next hne =>
        rw [getElem?_put, if_neg hne] at hf
        exact h.live f d' hf
    · rcases mem_append.mp he with he | he
      · rcases mem_append.mp he with he | he
        · exact h.complete f path hashes e he
        · exact absurd he (hquiet f path hashes e)
      · cases mem_singleton.mp he
        exact ⟨horigin, hc, rfl⟩
    · by_cases hff : f = file
      · subst hff
        exact .inr ⟨_, _, _, mem_append_right _ (mem_singleton.mpr rfl)⟩
      · rw [getElem?_erase, if_neg hff, getElem?_put, if_neg hff] at hn
        refine (h.dropped f d hf hn).imp_right ?_
        rintro ⟨path, hashes, e, he⟩
        exact ⟨path, hashes, e, mem_append_left _ (mem_append_left _ he)⟩
  · rw [heq]
    show FirstPhase md4 s call ((r.1.put file d₀).put file d', r.2 ++ actions ++ acts)
    rw [put_put, append_assoc]
    refine h.put (horigin.then_idle hidle) (fun hc' => ?_) fun f path hashes e he => ?_
    · rw [hidle.store, hc] at hc'
      cases hc'
    · rcases mem_append.mp he with he | he
      · exact hquiet f path hashes e he
      · exact hq f path hashes e he

/-! ## §3. Splitting a call into its phases. -/

/-- The result of a call is its first phase, or the first phase and then `planAll`. -/
def SplitsAs (md4 : List UInt8 → Nat) (s : Downloads P) (call : Call P)
    (result : Downloads P × List (DownloadAction P)) : Prop :=
  ∃ r, FirstPhase md4 s call r ∧ (result = r ∨ ∃ now sweep, result =
    ((r.1.planAll now sweep).downloads, r.2 ++ (r.1.planAll now sweep).actions))

theorem splitsAs_first (h : FirstPhase md4 s call r) : SplitsAs md4 s call r :=
  ⟨r, h, .inl rfl⟩

theorem splitsAs_refl (hquiet : Quiet actions) : SplitsAs md4 s call (s, actions) :=
  splitsAs_first (firstPhase_refl hquiet)

theorem splitsAs_refill (horigin : Origin md4 s call file d₀) (hquiet : Quiet actions) (now : Nat) :
    SplitsAs md4 s call
      (((s.put file d₀).progressAndRefill file now).1,
        actions ++ ((s.put file d₀).progressAndRefill file now).2) := by
  have hrefl : FirstPhase md4 s call (s, []) := firstPhase_refl quiet_nil
  refine ⟨_, hrefl.progress horigin hquiet, .inr ⟨now, false, ?_⟩⟩
  simp only [progressAndRefill, nil_append, append_assoc]

theorem splitsAs_setSources (horigin : ∀ d₀, Idle d d₀ → Origin md4 s call file d₀)
    (sources : List P) (playChunk now : Nat) :
    SplitsAs md4 s call ((s.put file d).setSources file sources playChunk now) := by
  unfold setSources
  rw [getElem?_put, if_pos rfl]
  dsimp only
  rw [put_put]
  exact splitsAs_refill (horigin _ (d.idle_setSources sources playChunk now)) quiet_nil now

theorem put_self {s : Downloads P} (h : s.files[file]? = some d) : s.put file d = s := by
  unfold put
  rw [insert_of_getElem? h]

theorem setSources_put_self (h : s.files[file]? = some d) {sources : List P} {playChunk now : Nat} :
    (s.put file d).setSources file sources playChunk now =
      s.setSources file sources playChunk now := by
  rw [put_self h]

theorem origin_idle (h : s.files[file]? = some d) (hidle : Idle d d₀) : Origin md4 s call file d₀ :=
  .inl ⟨d, h, .idle hidle⟩

theorem splitsAs_start (file : Ed2kHash) (sizeBytes : Nat) (root : Ed2kHash) (path : String)
    (sources : List P) (playChunk now : Nat) (fs : FileSystem) :
    SplitsAs md4 s (.start file sizeBytes root path sources playChunk now fs)
      (s.start file sizeBytes root path sources playChunk now fs) := by
  unfold start
  split
  next d hd =>
    rw [← setSources_put_self hd]
    exact splitsAs_setSources (fun d₀ => origin_idle hd) sources playChunk now
  next hnone =>
    split
    · refine splitsAs_refl fun f p hs e he => ?_
      cases mem_singleton.mp he
    next store hopen =>
      exact splitsAs_setSources (fun d₀ hidle => .inr ⟨hnone, sizeBytes, root, path, sources,
        playChunk, now, fs, store, rfl, hopen, hidle⟩) sources playChunk now

theorem splitsAs_cancel (file : Ed2kHash) : SplitsAs md4 s (.cancel file) (s.cancel file) := by
  unfold cancel
  split
  · exact splitsAs_refl quiet_nil
  next d hd =>
    refine splitsAs_first ⟨rfl, rfl, fun f d' hf => ?_, fun f d' hf hc => ?_,
      fun f p hs e he => absurd he (quiet_filterMap (fun e a ha => ?_) f p hs e),
      fun f e hf hn => ?_⟩
    · rw [getElem?_erase] at hf
      split at hf
      · cases hf
      · exact origin_idle hf (Idle.refl d')
    · rw [getElem?_erase] at hf
      split at hf
      · cases hf
      · exact ⟨d', hf, hc⟩
    · dsimp only at ha
      split at ha
      · cases ha
      · cases ha
        exact ⟨_, _, rfl⟩
    · by_cases hff : f = file
      · exact .inl (hff ▸ rfl)
      · rw [getElem?_erase, if_neg hff, hf] at hn
        cases hn

theorem splitsAs_updateSource (hd : s.files[file]? = some d) (peer : P) {f : Source → Source}
    (hf : ∀ src, Within (f src).inFlight src.inFlight) (now : Nat) :
    SplitsAs md4 s call ((s.put file (d.updateSource peer f)).progressAndRefill file now) :=
  splitsAs_refill (origin_idle hd (d.idle_updateSource peer hf)) quiet_nil now

theorem splitsAs_onBlockHashes (file : Ed2kHash) (sender : P) (hashes : List Ed2kBlockHash)
    (now : Nat) (io : DiskIo) :
    SplitsAs md4 s (.peerMessage sender (.blockHashes file hashes) now io)
      (s.onBlockHashes md4 file sender hashes now io) := by
  unfold onBlockHashes
  split
  · exact splitsAs_refl quiet_nil
  next d hd =>
  split
  · exact splitsAs_refl quiet_nil
  next hpending =>
  split
  · exact splitsAs_refill (origin_idle hd (d.idle_eraseSource sender d.denied)) quiet_nil now
  next hmatch =>
  refine splitsAs_refill (.inl ⟨d, hd, ?_⟩) quiet_nil now
  have hidle := idle_updateSource { d with blockHashes := some hashes } sender
    (f := fun src => { src with hashesReplied := true }) fun src => Within.refl _
  rw [verifyAndCollect_eq, hidle.blockHashes, hidle.store]
  exact .trusted rfl ⟨hidle.root, hidle.sizeBytes, hidle.flight⟩
    (not_isSome_iff_eq_none.mp hpending) (by simpa using hmatch) rfl rfl

theorem flight_cancelElsewhere {index : Nat} {sender : P}
    (hsender : (d.flight sender)[index]? = none) (file : Ed2kHash) (p : P) :
    (((d.cancelElsewhere file index sender).1).flight p)[index]? = none := by
  have hmap : (d.cancelElsewhere file index sender).1.sources[p]? = (d.sources[p]?).map fun src =>
      if p = sender then src else { src with inFlight := src.inFlight.erase index } :=
    getElem?_map _ _ p
  cases hp : d.sources[p]? with
  | none =>
    rw [flight_of_none (by rw [hmap, hp]; rfl)]
    simp
  | some src =>
    rw [hp] at hmap
    rw [flight_of_source hmap]
    split
    next heq =>
      subst heq
      rw [flight_of_source hp] at hsender
      exact hsender
    · rw [getElem?_erase, if_pos rfl]

theorem flight_delivered (d : Download P) (sender : P) (index now : Nat) :
    ((d.updateSource sender fun src => src.delivered index now).flight sender)[index]? = none := by
  have hget := d.getElem?_updateSource sender (fun src => src.delivered index now) sender
  rw [if_pos rfl] at hget
  cases hp : d.sources[sender]? with
  | none =>
    rw [flight_of_none (by rw [hget, hp]; rfl)]
    simp
  | some src =>
    rw [hp] at hget
    rw [flight_of_source hget]
    show (src.inFlight.erase index)[index]? = none
    rw [getElem?_erase, if_pos rfl]

theorem quiet_cancelElsewhere (d : Download P) (file : Ed2kHash) (index : Nat) (sender : P) :
    Quiet (d.cancelElsewhere file index sender).2 := by
  refine quiet_filterMap fun e a ha => ?_
  dsimp only at ha
  split at ha
  · cases ha
    exact ⟨_, _, rfl⟩
  · cases ha

theorem splitsAs_onChunkData (file : Ed2kHash) (sender : P) (index : Nat) (data : List UInt8)
    (now : Nat) (io : DiskIo) :
    SplitsAs md4 s (.peerMessage sender (.chunkData file index data) now io)
      (s.onChunkData md4 file sender index data now io) := by
  unfold onChunkData
  split
  · exact splitsAs_refl quiet_nil
  next d hd =>
  have hidle : Idle d (d.updateSource sender fun src => src.delivered index now) :=
    d.idle_updateSource sender fun src => within_erase _ _
  set d₁ := d.updateSource sender fun src => src.delivered index now with hd₁
  have hsender : (d₁.flight sender)[index]? = none := flight_delivered d sender index now
  dsimp only
  split
  · -- a duplicate only cancels
    have hcancel := hidle.trans (d₁.idle_cancelElsewhere file index sender)
    refine splitsAs_first ((firstPhase_refl quiet_nil).put (origin_idle hd hcancel)
      (fun hc => ⟨d, hd, ?_⟩) (quiet_cancelElsewhere d₁ file index sender))
    rw [hcancel.store] at hc
    exact hc
  next hnew =>
  have hnew' : d.store.isWritten index = false := by
    rw [hidle.store] at hnew
    exact Bool.eq_false_of_not_eq_true hnew
  rw [hidle.store]
  split
  next hfail =>
    have hfail' : (d.store.writeChunk index data io.write).2 = false := by simpa using hfail
    have hedit : Edit md4 (.peerMessage sender (.chunkData file index data) now io) file d
        { d₁ with store := (d.store.writeChunk index data io.write).1 } :=
      .failed rfl ⟨hidle.root, hidle.sizeBytes, hidle.flight⟩ hnew' hidle.blockHashes hfail' rfl
    refine splitsAs_first ((firstPhase_refl quiet_nil).put (.inl ⟨d, hd, hedit⟩)
      (fun hc => ⟨d, hd, ?_⟩) quiet_nil)
    rw [← hc]
    rcases ChunkStore.writeChunk_cases d.store index data io.write with
      heq | ⟨_, _, ⟨_, heq⟩ | heq⟩ <;> rw [heq] <;> rfl
  next hdone =>
    have hdone' : (d.store.writeChunk index data io.write).2 = true := by simpa using hdone
    let d₂ : Download P := { d₁ with store := (d.store.writeChunk index data io.write).1 }
    have hcancel := d₂.idle_cancelElsewhere file index sender
    refine splitsAs_refill (.inl ⟨d, hd, ?_⟩) (quiet_cancelElsewhere d₂ file index sender) now
    rw [verifyAndCollect_eq]
    refine .arrived rfl ⟨hidle.root, hidle.sizeBytes, fun p => ?_⟩ hnew' hidle.blockHashes
      hdone' ?_ fun p => ?_
    · exact (hcancel.flight p).trans (hidle.flight p)
    · show ChunkStore.verifyKnown md4 _ _ _ = _
      rw [hcancel.store, hcancel.blockHashes]
      show ChunkStore.verifyKnown md4 d₁.blockHashes _ _ = _
      rw [hidle.blockHashes]
    · exact flight_cancelElsewhere (d := d₂) hsender file p

theorem splitsAs_onPeerMessage (sender : P) (message : PeerMessage) (now : Nat) (io : DiskIo) :
    SplitsAs md4 s (.peerMessage sender message now io)
      (s.onPeerMessage md4 sender message now io) := by
  cases message with
  | fileAvailability file bitfield =>
    unfold onPeerMessage
    dsimp only
    split
    · exact splitsAs_refl quiet_nil
    next d hd =>
    split
    · exact splitsAs_refl quiet_nil
    · exact splitsAs_updateSource hd sender (f := fun src => { src with bitfield })
        (fun src => Within.refl _) now
  | blockHashes file hashes => exact splitsAs_onBlockHashes file sender hashes now io
  | cannotServe file =>
    unfold onPeerMessage
    dsimp only
    split
    · exact splitsAs_refl quiet_nil
    next d hd =>
      exact splitsAs_refill (origin_idle hd (d.idle_eraseSource sender _)) quiet_nil now
  | chunkData file index data => exact splitsAs_onChunkData file sender index data now io
  | blockHashRequest _ => exact splitsAs_refl quiet_nil
  | chunkRequest _ _ => exact splitsAs_refl quiet_nil
  | cancel _ _ => exact splitsAs_refl quiet_nil

theorem splitsAs_onSourceStreamLost (file : Ed2kHash) (peer : P) (now : Nat) :
    SplitsAs md4 s call (s.onSourceStreamLost file peer now) := by
  unfold onSourceStreamLost requeueSource
  split
  next hnone =>
    refine ⟨(s, []), firstPhase_refl quiet_nil, .inr ⟨now, false, ?_⟩⟩
    unfold progressAndRefill progressAndSolicit
    rw [hnone]
  next d hd =>
    exact splitsAs_updateSource hd peer (fun src => within_empty _) now

theorem splitsAs_requeueSource (file : Ed2kHash) (peer : P) (now : Nat) :
    SplitsAs md4 s call (s.requeueSource file peer now, []) := by
  unfold requeueSource
  split
  · exact splitsAs_refl quiet_nil
  next d hd =>
    have hidle : Idle d (d.updateSource peer fun src => src.requeue now) :=
      d.idle_updateSource peer fun src => within_empty _
    refine splitsAs_first ((firstPhase_refl quiet_nil).put (origin_idle hd hidle)
      (fun hc => ⟨d, hd, ?_⟩) quiet_nil)
    rw [hidle.store] at hc
    exact hc

theorem quiet_snub (cfg : DownloadConfig) (file : Ed2kHash) (now : Nat) (d : Download P) :
    Quiet (d.snub cfg file now).2 := by
  refine Quiet.append (quiet_filterMap fun e a ha => ?_) (quiet_filterMap fun e a ha => ?_)
  all_goals
    dsimp only at ha
    split at ha
    · cases ha
      exact ⟨_, _, rfl⟩
    · cases ha

theorem FirstPhase.tickFile (h : FirstPhase md4 s call r) (now : Nat) (file : Ed2kHash) :
    FirstPhase md4 s call (Downloads.tickFile now r file) := by
  unfold Downloads.tickFile snub
  cases hd : r.1.files[file]? with
  | none =>
    unfold progressAndSolicit
    simp only [hd, append_nil]
    exact h
  | some d =>
    exact h.progress ((h.origin file d hd).then_idle (idle_snub r.1.config file now d))
      (quiet_snub r.1.config file now d)

theorem splitsAs_tick (now : Nat) : SplitsAs md4 s call (s.tick now) := by
  have hloop : ∀ (files : List Ed2kHash) (r : Downloads P × List (DownloadAction P)),
      FirstPhase md4 s call r → FirstPhase md4 s call (files.foldl (tickFile now) r) := by
    intro files
    induction files with
    | nil => exact fun r h => h
    | cons file files ih => exact fun r h => ih _ (h.tickFile now file)
  exact ⟨_, hloop _ _ (firstPhase_refl quiet_nil), .inr ⟨now, true, rfl⟩⟩

/-- **Every call splits into its phases.** -/
theorem splitsAs_call (md4 : List UInt8 → Nat) (s : Downloads P) (c : Call P) :
    SplitsAs md4 s c (s.call md4 c) := by
  cases c with
  | setPriority order nowPlaying =>
    exact splitsAs_first (firstPhase_of_files (s := s) (t := s.setPriority order nowPlaying)
      rfl rfl rfl quiet_nil)
  | start file sizeBytes root path sources playChunk now fs =>
    exact splitsAs_start file sizeBytes root path sources playChunk now fs
  | setSources file sources playChunk now =>
    show SplitsAs md4 s _ (s.setSources file sources playChunk now)
    cases hd : s.files[file]? with
    | none =>
      unfold setSources
      rw [hd]
      exact splitsAs_refl quiet_nil
    | some d =>
      rw [← setSources_put_self hd]
      exact splitsAs_setSources (fun d₀ => origin_idle hd) sources playChunk now
  | cancel file => exact splitsAs_cancel file
  | peerMessage sender message now io => exact splitsAs_onPeerMessage sender message now io
  | streamLost file peer now => exact splitsAs_onSourceStreamLost file peer now
  | requeueSource file peer now => exact splitsAs_requeueSource file peer now
  | tick now => exact splitsAs_tick now

end Phases

end Downloads

end DessPlay.Transfer
