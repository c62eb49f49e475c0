/-
  DessPlay.Transfer.Tick
  **THE FIRST PHASE OF A TICK, FILE BY FILE.**

  `tick` snubs and solicits every file before it refills.  The files are visited in
  priority order, each of them once, and a visit touches its own download only.  So
  what the loop leaves of a file is `Download.ticked`, a function of that file alone.
-/
import DessPlay.Transfer.Planning

namespace DessPlay.Transfer

open BTree DessPlay.Core Option

variable {P : Type} [LinearOrder P]

/-- What a tick does to one download before the refill; `none` once it is complete. -/
def Download.ticked (cfg : DownloadConfig) (file : Ed2kHash) (now : Nat) (d : Download P) :
    Option (Download P) × List (DownloadAction P) :=
  let snubbed := d.snub cfg file now
  let progressed := snubbed.1.progressAndSolicit file
  (progressed.1, snubbed.2 ++ progressed.2)

namespace Download

/-- A source as `solicit` leaves it. -/
def asked (src : Source) : Source :=
  if src.unsolicited then { src with solicited := true } else src

theorem inFlight_asked (src : Source) : (asked src).inFlight = src.inFlight := by
  unfold asked
  split <;> rfl

theorem inFlight_resolicit (cfg : DownloadConfig) (needHashes : Bool) (now : Nat) (src : Source) :
    ((src.resolicit cfg needHashes now).getD src).inFlight = src.inFlight := by
  cases hre : src.resolicit cfg needHashes now with
  | none => rfl
  | some src' => exact resolicit_inFlight hre

theorem sources_snub (cfg : DownloadConfig) (file : Ed2kHash) (now : Nat) (d : Download P) (p : P) :
    (d.snub cfg file now).1.sources[p]? =
      ((d.sources[p]?).filter fun src => !src.snubbed cfg now).map fun src =>
        (src.resolicit cfg d.blockHashes.isNone now).getD src := by
  rw [← getElem?_filter d.sources (fun _ src => !src.snubbed cfg now) p]
  exact getElem?_map _ _ p

variable {d d₁ : Download P}

theorem sources_progressAndSolicit {file : Ed2kHash} (h : (d.progressAndSolicit file).1 = some d₁)
    (p : P) : d₁.sources[p]? = (d.sources[p]?).map asked := by
  have hsolicit : (d.solicit file).1.sources[p]? = (d.sources[p]?).map asked :=
    getElem?_map _ _ p
  unfold progressAndSolicit report at h
  dsimp only at h
  split at h
  · cases h
  · rw [← hsolicit]
    split at h
    · cases h
      rfl
    · split at h <;> cases h <;> rfl

/-- **A source after the first phase**: dropped when snubbed, else asked again where due. -/
theorem sources_ticked {cfg : DownloadConfig} {file : Ed2kHash} {now : Nat}
    (h : (d.ticked cfg file now).1 = some d₁) (p : P) :
    d₁.sources[p]? = ((d.sources[p]?).filter fun src => !src.snubbed cfg now).map fun src =>
      asked ((src.resolicit cfg d.blockHashes.isNone now).getD src) := by
  rw [sources_progressAndSolicit h p, sources_snub, map_map]
  rfl

theorem idle_ticked {cfg : DownloadConfig} {file : Ed2kHash} {now : Nat}
    (h : (d.ticked cfg file now).1 = some d₁) : Idle d d₁ := by
  have hsnub := idle_snub cfg file now d
  rcases (d.snub cfg file now).1.progressAndSolicit_cases file with
    ⟨_, hcase⟩ | ⟨_, d₂, actions, hcase, hidle, _⟩
  · have hnone : (d.ticked cfg file now).1 = none := congrArg Prod.fst hcase
    rw [hnone] at h
    cases h
  · have hsome : (d.ticked cfg file now).1 = some d₂ := congrArg Prod.fst hcase
    rw [hsome] at h
    cases h
    exact hsnub.trans hidle

end Download

namespace Downloads

theorem mem_priorityOrderedFiles (s : Downloads P) (file : Ed2kHash) :
    file ∈ s.priorityOrderedFiles ↔ ∃ d, s.files[file]? = some d := by
  unfold priorityOrderedFiles
  rw [List.mem_insertionSort, mem_keys]

theorem nodup_priorityOrderedFiles (s : Downloads P) : s.priorityOrderedFiles.Nodup :=
  (List.perm_insertionSort _ _).nodup_iff.mpr (nodup_keys s.files)

section Loop

variable (now : Nat) (acc : Downloads P × List (DownloadAction P))

theorem tickFile_spec (file : Ed2kHash) :
    (tickFile now acc file).1.config = acc.1.config ∧
      (∀ f : Ed2kHash, (tickFile now acc file).1.files[f]? =
        if f = file then (acc.1.files[f]?).bind fun d => (d.ticked acc.1.config f now).1
        else acc.1.files[f]?) ∧
      (tickFile now acc file).2 = acc.2 ++
        ((acc.1.files[file]?).elim [] fun d => (d.ticked acc.1.config file now).2) := by
  unfold tickFile snub
  cases hd : acc.1.files[file]? with
  | none =>
    unfold progressAndSolicit
    simp only [hd, List.append_nil, elim_none, and_true, true_and]
    intro f
    split
    next hf =>
      rw [hf, hd]
      rfl
    · rfl
  | some d =>
    have hself : (acc.1.put file (d.snub acc.1.config file now).1).files[file]? =
        some (d.snub acc.1.config file now).1 := by rw [getElem?_put, if_pos rfl]
    unfold progressAndSolicit
    simp only [hself, elim_some]
    cases hp : ((d.snub acc.1.config file now).1.progressAndSolicit file).1 with
    | none =>
      refine ⟨rfl, fun f => ?_, List.append_assoc _ _ _⟩
      show ((acc.1.files.insert file _).erase file)[f]? = _
      rw [getElem?_erase, getElem?_insert]
      split
      next hf =>
        rw [hf, hd]
        exact hp.symm
      · rfl
    | some d' =>
      refine ⟨rfl, fun f => ?_, List.append_assoc _ _ _⟩
      show (Downloads.put _ file d').files[f]? = _
      rw [getElem?_put, getElem?_put]
      split
      next hf =>
        rw [hf, hd]
        exact hp.symm
      · rfl

/-- **A tick's loop, file by file.** -/
theorem files_tickLoop (files : List Ed2kHash) (hnodup : files.Nodup) :
    (files.foldl (tickFile now) acc).1.config = acc.1.config ∧
      ∀ f : Ed2kHash, (files.foldl (tickFile now) acc).1.files[f]? =
        if f ∈ files then (acc.1.files[f]?).bind fun d => (d.ticked acc.1.config f now).1
        else acc.1.files[f]? := by
  induction files generalizing acc with
  | nil => exact ⟨rfl, fun f => rfl⟩
  | cons file files ih =>
    obtain ⟨hfile, hnodup⟩ := List.nodup_cons.mp hnodup
    obtain ⟨hconfig, hfiles, _⟩ := tickFile_spec now acc file
    obtain ⟨hconfig', hfiles'⟩ := ih (tickFile now acc file) hnodup
    rw [List.foldl_cons]
    refine ⟨hconfig'.trans hconfig, fun f => ?_⟩
    rw [hfiles', hfiles, hconfig]
    by_cases hf : f = file
    · -- visited now, and not among the files still to come
      subst hf
      rw [if_neg hfile, if_pos rfl, if_pos List.mem_cons_self]
    · simp [hf]

theorem actions_tickLoop (files : List Ed2kHash) (hnodup : files.Nodup) {f : Ed2kHash}
    (hf : f ∈ files) {d : Download P} (hd : acc.1.files[f]? = some d) :
    (d.ticked acc.1.config f now).2 ⊆ (files.foldl (tickFile now) acc).2 := by
  have hgrows : ∀ (files : List Ed2kHash) (acc : Downloads P × List (DownloadAction P)),
      acc.2 ⊆ (files.foldl (tickFile now) acc).2 := by
    intro files
    induction files with
    | nil => exact fun acc => List.Subset.refl _
    | cons file files ih =>
      intro acc
      refine List.Subset.trans ?_ (ih (tickFile now acc file))
      rw [(tickFile_spec now acc file).2.2]
      exact List.subset_append_left _ _
  induction files generalizing acc with
  | nil => cases hf
  | cons file files ih =>
    obtain ⟨hfile, hnodup⟩ := List.nodup_cons.mp hnodup
    obtain ⟨hconfig, hfiles, hactions⟩ := tickFile_spec now acc file
    rw [List.foldl_cons]
    rcases List.mem_cons.mp hf with rfl | hf
    · refine List.Subset.trans ?_ (hgrows files _)
      rw [hactions, hd]
      exact List.subset_append_right _ _
    · have hne : f ≠ file := fun h => hfile (h ▸ hf)
      rw [← hconfig]
      refine ih (tickFile now acc file) hnodup hf ?_
      rw [hfiles, if_neg hne]
      exact hd

end Loop

def ticked (s : Downloads P) (now : Nat) : Downloads P :=
  (s.priorityOrderedFiles.foldl (tickFile now) (s, [])).1

theorem tick_eq (s : Downloads P) (now : Nat) :
    (s.tick now).1 = ((s.ticked now).planAll now true).downloads := rfl

theorem config_ticked (s : Downloads P) (now : Nat) : (s.ticked now).config = s.config :=
  (files_tickLoop now (s, []) _ s.nodup_priorityOrderedFiles).1

theorem files_ticked (s : Downloads P) (now : Nat) (file : Ed2kHash) :
    (s.ticked now).files[file]? =
      (s.files[file]?).bind fun d => (d.ticked s.config file now).1 := by
  unfold ticked
  rw [(files_tickLoop now (s, []) _ s.nodup_priorityOrderedFiles).2 file]
  split
  · rfl
  next hfile =>
    have hnone : s.files[file]? = none := by
      rw [eq_none_iff_forall_ne_some]
      exact fun d hd => hfile ((s.mem_priorityOrderedFiles file).mpr ⟨d, hd⟩)
    rw [hnone]
    rfl

theorem actions_tick (s : Downloads P) (now : Nat) {file : Ed2kHash} {d : Download P}
    (hd : s.files[file]? = some d) : (d.ticked s.config file now).2 ⊆ (s.tick now).2 := by
  refine List.Subset.trans ?_ (List.subset_append_left _ _)
  exact actions_tickLoop now (s, []) _ s.nodup_priorityOrderedFiles
    ((s.mem_priorityOrderedFiles file).mpr ⟨d, hd⟩) hd

end Downloads

end DessPlay.Transfer
