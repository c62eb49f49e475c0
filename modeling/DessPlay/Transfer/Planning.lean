/-
  DessPlay.Transfer.Planning
  **THE SECOND PHASE OF A CALL: REFILLING THE PIPELINES.**

  `planAll` walks the files in priority order and, inside each, the sources by name.
  Each visit commits some needed chunks to one source (`Asked` says which) and charges
  the shared budget.
-/
import DessPlay.Transfer.Calls

namespace DessPlay.Transfer

open BTree DessPlay.Core List Option Function Download

variable {P : Type} [LinearOrder P]

/-! ## §1. What one source is asked for. -/

theorem takeLoop_sublist (urgent : Nat → Bool) (bulkLeft : Nat) (cs : List Nat) :
    (takeLoop urgent bulkLeft cs).Sublist cs := by
  induction cs generalizing bulkLeft with
  | nil => exact .slnil
  | cons c cs ih =>
    unfold takeLoop
    split
    · exact (ih bulkLeft).cons_cons c
    · cases bulkLeft with
      | zero => exact nil_sublist _
      | succ bulkLeft => exact (ih bulkLeft).cons_cons c

def bulkCount (urgent : Nat → Bool) (cs : List Nat) : Nat := cs.countP fun c => !urgent c

theorem bulkCount_takeLoop_le (urgent : Nat → Bool) (bulkLeft : Nat) (cs : List Nat) :
    bulkCount urgent (takeLoop urgent bulkLeft cs) ≤ bulkLeft := by
  induction cs generalizing bulkLeft with
  | nil => exact Nat.zero_le _
  | cons c cs ih =>
    unfold takeLoop
    split
    next hc =>
      unfold bulkCount
      rw [countP_cons_of_neg (by simp [hc])]
      exact ih bulkLeft
    next hc =>
      cases bulkLeft with
      | zero => exact Nat.zero_le _
      | succ bulkLeft =>
        unfold bulkCount
        rw [countP_cons_of_pos (by simp [hc])]
        exact Nat.succ_le_succ (ih bulkLeft)

theorem mem_takeLoop_or (urgent : Nat → Bool) (bulkLeft : Nat) {cs : List Nat} {c : Nat}
    (hc : c ∈ cs) : c ∈ takeLoop urgent bulkLeft cs ∨
      bulkLeft ≤ bulkCount urgent (takeLoop urgent bulkLeft cs) := by
  induction cs generalizing bulkLeft with
  | nil => cases hc
  | cons b cs ih =>
    unfold takeLoop
    split
    next hb =>
      unfold bulkCount
      rw [countP_cons_of_neg (by simp [hb])]
      rcases mem_cons.mp hc with rfl | hc
      · exact .inl mem_cons_self
      · exact (ih bulkLeft hc).imp_left (mem_cons_of_mem b)
    next hb =>
      cases bulkLeft with
      | zero => exact .inr (Nat.zero_le _)
      | succ bulkLeft =>
        unfold bulkCount
        rw [countP_cons_of_pos (by simp [hb])]
        rcases mem_cons.mp hc with rfl | hc
        · exact .inl mem_cons_self
        · exact (ih bulkLeft hc).imp (mem_cons_of_mem b) Nat.succ_le_succ

structure Asked (cfg : DownloadConfig) (plan : Plan) (assigned : List Nat) (slots rank : Nat)
    (src : Source) (take : List Nat) : Prop where
  needed : ∀ c ∈ take, c ∈ plan.needed
  fresh : ∀ c ∈ take, src.inFlight[c]? = none
  single : ∀ c ∈ take, plan.urgent c = false → c ∉ assigned
  nodup : take.Nodup
  bulk : bulkCount plan.urgent take ≤ slots
  all : ∀ c ∈ plan.needed, src.bitfield.get c = true → src.inFlight[c]? = none →
    plan.urgent c = true ∨ rank < cfg.maxSources ∧ c ∉ assigned →
    c ∈ take ∨ slots ≤ bulkCount plan.urgent take

theorem mem_candidates {cfg : DownloadConfig} {plan : Plan} {assigned : List Nat} {rank : Nat}
    {src : Source} {c : Nat} :
    c ∈ candidates cfg plan assigned rank src ↔
      c ∈ plan.needed ∧ src.bitfield.get c = true ∧ src.inFlight[c]? = none ∧
        (plan.urgent c = true ∨ rank < cfg.maxSources ∧ c ∉ assigned) := by
  unfold candidates
  rw [mem_filter, Bool.and_eq_true, Bool.and_eq_true, and_assoc]
  refine and_congr_right fun _ => and_congr_right fun _ => and_congr ?_ ?_
  · rw [Bool.not_eq_true', Std.ExtTreeMap.contains_eq_isSome_getElem?, isSome_eq_false_iff,
      isNone_iff_eq_none]
  · cases plan.urgent c <;> simp

theorem asked_take (cfg : DownloadConfig) {plan : Plan} (hnodup : plan.needed.Nodup)
    (assigned : List Nat) (slots rank : Nat) (src : Source) :
    Asked cfg plan assigned slots rank src
      (takeLoop plan.urgent slots
        ((candidates cfg plan assigned rank src).insertionSort
          fun a b => (plan.cmp a b).isLE)) := by
  set r : Nat → Nat → Prop := fun a b => (plan.cmp a b).isLE = true
  have hperm := perm_insertionSort r (candidates cfg plan assigned rank src)
  have hsub := takeLoop_sublist plan.urgent slots
    ((candidates cfg plan assigned rank src).insertionSort r)
  have hmem : ∀ c ∈ takeLoop plan.urgent slots
      ((candidates cfg plan assigned rank src).insertionSort r),
      c ∈ candidates cfg plan assigned rank src :=
    fun c hc => hperm.mem_iff.mp (hsub.subset hc)
  refine ⟨fun c hc => (mem_candidates.mp (hmem c hc)).1,
    fun c hc => (mem_candidates.mp (hmem c hc)).2.2.1, fun c hc hbulk => ?_, ?_,
    bulkCount_takeLoop_le _ _ _, fun c hc hbit hfresh hallowed => ?_⟩
  · rcases (mem_candidates.mp (hmem c hc)).2.2.2 with hurgent | hfree
    · rw [hurgent] at hbulk
      cases hbulk
    · exact hfree.2
  · exact (hperm.nodup_iff.mpr (hnodup.filter _)).sublist hsub
  · exact mem_takeLoop_or _ _
      (hperm.mem_iff.mpr (mem_candidates.mpr ⟨hc, hbit, hfresh, hallowed⟩))

/-! ## §2. Committing chunks to a source. -/

namespace Pass

def ask (pass : Pass P) (plan : Plan) (file : Ed2kHash) (now : Nat) (peer : P) (src : Source)
    (take : List Nat) : Pass P :=
  if take.isEmpty then pass
  else
    { download := pass.download.commit plan now pass.issued peer src take
      assigned := pass.assigned ++ take
      budget := update pass.budget peer (pass.budget peer + take.length)
      issued := pass.issued + 1
      actions := pass.actions ++ [.send peer (.chunkRequest file take)] }

theorem planSource_cases (cfg : DownloadConfig) (file : Ed2kHash) (now : Nat) (plan : Plan)
    (hnodup : plan.needed.Nodup) (pass : Pass P) (peer : P) (rank : Nat) :
    (planSource cfg file now plan pass peer rank = pass ∧
        ∀ src, pass.download.sources[peer]? = some src → now < src.retryAt) ∨
      ∃ src take, pass.download.sources[peer]? = some src ∧
        Asked cfg plan pass.assigned (cfg.pipelineDepth - pass.budget peer) rank src take ∧
        planSource cfg file now plan pass peer rank =
          pass.ask plan file now peer src take := by
  unfold planSource
  split
  next hnone =>
    refine .inl ⟨rfl, fun src hsrc => ?_⟩
    rw [hnone] at hsrc
    cases hsrc
  next src hsrc =>
    split
    next hwait =>
      refine .inl ⟨rfl, fun src' hsrc' => ?_⟩
      rw [hsrc] at hsrc'
      cases hsrc'
      exact hwait
    · exact .inr ⟨src, _, hsrc, asked_take cfg hnodup _ _ _ _, rfl⟩

section Ask

variable {pass : Pass P} {plan : Plan} {file : Ed2kHash} {now : Nat} {peer : P} {src : Source}
  {take : List Nat}

theorem ask_nil : pass.ask plan file now peer src [] = pass := rfl

theorem ask_of_ne_nil (h : take ≠ []) : pass.ask plan file now peer src take =
    { download := pass.download.commit plan now pass.issued peer src take
      assigned := pass.assigned ++ take
      budget := update pass.budget peer (pass.budget peer + take.length)
      issued := pass.issued + 1
      actions := pass.actions ++ [.send peer (.chunkRequest file take)] } :=
  if_neg (by simpa using h)

theorem sources_ask (plan : Plan) (file : Ed2kHash) (now : Nat) (take : List Nat)
    (hsrc : pass.download.sources[peer]? = some src) (p : P) :
    (pass.ask plan file now peer src take).download.sources[p]? =
      if p = peer then some (src.request plan.urgent pass.issued take)
      else pass.download.sources[p]? := by
  by_cases htake : take = []
  · subst htake
    rw [ask_nil]
    split
    next hp => rw [hp, hsrc]; rfl
    · rfl
  · rw [ask_of_ne_nil htake]
    exact getElem?_insert _ _ _ _

theorem flight_ask (hsrc : pass.download.sources[peer]? = some src) (p : P) (c : Nat) :
    ((pass.ask plan file now peer src take).download.flight p)[c]? =
      if p = peer ∧ c ∈ take then some ⟨pass.issued, plan.urgent c⟩
      else (pass.download.flight p)[c]? := by
  have hget := sources_ask plan file now take hsrc p
  by_cases hp : p = peer
  · subst hp
    rw [if_pos rfl] at hget
    rw [flight_of_source hget, flight_of_source hsrc]
    show (take.foldl _ src.inFlight)[c]? = _
    rw [getElem?_foldl_insert (fun c => (⟨pass.issued, plan.urgent c⟩ : Issue))]
    simp
  · rw [if_neg hp] at hget
    unfold flight
    rw [hget]
    simp [hp]

theorem fields_ask (pass : Pass P) (plan : Plan) (file : Ed2kHash) (now : Nat) (peer : P)
    (src : Source) (take : List Nat) :
    (pass.ask plan file now peer src take).download.store = pass.download.store ∧
      (pass.ask plan file now peer src take).download.root = pass.download.root ∧
      (pass.ask plan file now peer src take).download.sizeBytes = pass.download.sizeBytes ∧
      (pass.ask plan file now peer src take).download.blockHashes = pass.download.blockHashes := by
  unfold ask
  split <;> exact ⟨rfl, rfl, rfl, rfl⟩

theorem budget_ask (p : P) : (pass.ask plan file now peer src take).budget p =
    pass.budget p + if p = peer then take.length else 0 := by
  by_cases htake : take = []
  · subst htake
    rw [ask_nil]
    split <;> rfl
  · rw [ask_of_ne_nil htake]
    show update _ _ _ p = _
    by_cases hp : p = peer
    · subst hp
      rw [update_self, if_pos rfl]
    · rw [update_of_ne hp, if_neg hp, add_zero]

theorem mem_assigned_ask {c : Nat} : c ∈ (pass.ask plan file now peer src take).assigned ↔
    c ∈ pass.assigned ∨ c ∈ take := by
  by_cases htake : take = []
  · subst htake
    rw [ask_nil]
    simp
  · rw [ask_of_ne_nil htake]
    exact mem_append

end Ask

end Pass

/-! ## §3. A refill is a sequence of commits. -/

/-- Needed chunks were requested, and nothing else changed. -/
structure Download.Grown (d d' : Download P) : Prop where
  store : d'.store = d.store
  root : d'.root = d.root
  sizeBytes : d'.sizeBytes = d.sizeBytes
  blockHashes : d'.blockHashes = d.blockHashes
  sources : ∀ p : P, d'.sources[p]? =
    (d.sources[p]?).map fun src => { src with inFlight := d'.flight p }
  flight : ∀ p, Within (d.flight p) (d'.flight p)
  needed : ∀ (p : P) (c : Nat) (i : Issue), (d'.flight p)[c]? = some i →
    (d.flight p)[c]? = some i ∨ c ∈ d.store.neededChunks

theorem Download.Grown.refl (d : Download P) : d.Grown d where
  store := rfl
  root := rfl
  sizeBytes := rfl
  blockHashes := rfl
  sources p := by
    cases hp : d.sources[p]? with
    | none => rfl
    | some src =>
      rw [Download.flight_of_source hp]
      rfl
  flight _ := Within.refl _
  needed _ _ _ h := .inl h

theorem Download.Grown.trans {d d' d'' : Download P} (h : d.Grown d') (h' : d'.Grown d'') :
    d.Grown d'' where
  store := h'.store.trans h.store
  root := h'.root.trans h.root
  sizeBytes := h'.sizeBytes.trans h.sizeBytes
  blockHashes := h'.blockHashes.trans h.blockHashes
  sources p := by
    rw [h'.sources p, h.sources p, Option.map_map]
    rfl
  flight p := (h.flight p).trans (h'.flight p)
  needed p c i hi := by
    rcases h'.needed p c i hi with hi | hc
    · exact h.needed p c i hi
    · exact .inr (h.store ▸ hc)

namespace Downloads

/-- **One commit**: `take` is requested from one source of one file, at the next issue number,
within the slots its budget leaves for bulk chunks; a bulk chunk is in flight nowhere
else. -/
inductive Commits (r r' : Refill P) : Prop
  | intro (file : Ed2kHash) (d d' : Download P) (peer : P) (take : List Nat)
      (urgent : Nat → Bool) (hd : r.downloads.files[file]? = some d)
      (hhashes : d.blockHashes.isSome = true)
      (hdownloads : r'.downloads =
        { r.downloads.put file d' with issued := r.downloads.issued + 1 })
      (hgrown : d.Grown d')
      (hflight : ∀ (p : P) (c : Nat), (d'.flight p)[c]? =
        if p = peer ∧ c ∈ take then some ⟨r.downloads.issued, urgent c⟩ else (d.flight p)[c]?)
      (hbudget : ∀ p, r'.budget p = r.budget p + if p = peer then take.length else 0)
      (hfresh : ∀ c ∈ take, (d.flight peer)[c]? = none) (hnodup : take.Nodup)
      (hbulk : bulkCount urgent take ≤ r.downloads.config.pipelineDepth - r.budget peer)
      (hsingle : ∀ c ∈ take, urgent c = false → ∀ p, (d.flight p)[c]? = none)
      (hactions : r'.actions = r.actions ++ [.send peer (.chunkRequest file take)])

def Refill.within (r : Refill P) (file : Ed2kHash) (pass : Pass P) : Refill P where
  downloads := { r.downloads.put file pass.download with issued := pass.issued }
  budget := pass.budget
  actions := r.actions ++ pass.actions

/-- What a file's pass keeps true: the store is the planned one, and what is in flight is
assigned. -/
structure Planned (d : Download P) (pass : Pass P) : Prop where
  store : pass.download.store = d.store
  blockHashes : pass.download.blockHashes = d.blockHashes
  assigned : ∀ (p : P) (c : Nat) (i : Issue), (pass.download.flight p)[c]? = some i →
    c ∈ pass.assigned

variable {cfg : DownloadConfig} {file : Ed2kHash} {now : Nat} {plan : Plan} {d : Download P}
  {pass : Pass P} {peer : P} {src : Source} {take : List Nat}

theorem Planned.ask (h : Planned d pass) (hsrc : pass.download.sources[peer]? = some src) :
    Planned d (pass.ask plan file now peer src take) := by
  obtain ⟨hstore, _, _, hhashes⟩ :=
    pass.fields_ask plan file now peer src take
  refine ⟨hstore.trans h.store, hhashes.trans h.blockHashes, fun p c i hi => ?_⟩
  rw [Pass.mem_assigned_ask]
  rw [Pass.flight_ask hsrc] at hi
  split at hi
  next hc => exact .inr hc.2
  · exact .inl (h.assigned p c i hi)

theorem grown_ask (hsrc : pass.download.sources[peer]? = some src)
    (hneeded : ∀ c ∈ take, c ∈ pass.download.store.neededChunks)
    (hfresh : ∀ c ∈ take, src.inFlight[c]? = none) :
    pass.download.Grown (pass.ask plan file now peer src take).download := by
  obtain ⟨hstore, hroot, hsize, hhashes⟩ :=
    pass.fields_ask plan file now peer src take
  refine ⟨hstore, hroot, hsize, hhashes, fun p => ?_, fun p c i hi => ?_, fun p c i hi => ?_⟩
  · have hget := Pass.sources_ask plan file now take hsrc p
    by_cases hp : p = peer
    · subst hp
      rw [if_pos rfl] at hget
      rw [Download.flight_of_source hget, hget, hsrc]
      rfl
    · rw [if_neg hp] at hget
      rw [hget]
      cases hq : pass.download.sources[p]? with
      | none => rfl
      | some src' =>
        rw [Download.flight_of_source (hget.trans hq)]
        rfl
  · rw [Pass.flight_ask hsrc]
    split
    next hc =>
      rw [hc.1, Download.flight_of_source hsrc, hfresh c hc.2] at hi
      cases hi
    · exact hi
  · rw [Pass.flight_ask hsrc] at hi
    split at hi
    next hc => exact .inr (hneeded c hc.2)
    · exact .inl hi

theorem commits_ask (r : Refill P) {rank : Nat} (hplanned : Planned d pass)
    (hhashes : d.blockHashes.isSome = true) (hneeded : plan.needed = d.store.neededChunks)
    (hsrc : pass.download.sources[peer]? = some src)
    (hasked : Asked r.downloads.config plan pass.assigned
      (r.downloads.config.pipelineDepth - pass.budget peer) rank src take) (hne : take ≠ []) :
    Commits (r.within file pass) (r.within file (pass.ask plan file now peer src take)) := by
  have hneeded' : ∀ c ∈ take, c ∈ pass.download.store.neededChunks := fun c hc => by
    rw [hplanned.store, ← hneeded]
    exact hasked.needed c hc
  refine .intro file pass.download (pass.ask plan file now peer src take).download peer take
    plan.urgent ?_ ?_ ?_ (grown_ask hsrc hneeded' hasked.fresh) (Pass.flight_ask hsrc)
    Pass.budget_ask (fun c hc => ?_) hasked.nodup hasked.bulk (fun c hc hbulk p => ?_) ?_
  · exact (getElem?_put _ _ _ _).trans (if_pos rfl)
  · rw [hplanned.blockHashes]
    exact hhashes
  · show ({ r.downloads.put file _ with issued := _ } : Downloads P) =
      { ({ r.downloads.put file pass.download with issued := pass.issued } : Downloads P).put file _
        with issued := pass.issued + 1 }
    rw [Pass.ask_of_ne_nil hne]
    have hput := put_put r.downloads file pass.download
      (pass.download.commit plan now pass.issued peer src take)
    rw [← hput]
    rfl
  · rw [Download.flight_of_source hsrc]
    exact hasked.fresh c hc
  · rw [eq_none_iff_forall_ne_some]
    intro i hi
    exact hasked.single c hc hbulk (hplanned.assigned p c i hi)
  · rw [Pass.ask_of_ne_nil hne]
    exact (append_assoc _ _ _).symm

variable {r r' : Refill P}

theorem within_start (hd : r.downloads.files[file]? = some d) (assigned : List Nat) :
    r.within file ⟨d, assigned, r.budget, r.downloads.issued, []⟩ = r := by
  unfold Refill.within
  rw [put_self hd, append_nil]

theorem planned_start (d : Download P) (budget : P → Nat) (issued : Nat) :
    Planned d
      ⟨d, d.sources.toList.flatMap fun (_, src) => src.inFlight.keys, budget, issued, []⟩ := by
  refine ⟨rfl, rfl, fun p c i hi => ?_⟩
  cases hp : d.sources[p]? with
  | none =>
    rw [Download.flight_of_none hp] at hi
    simp at hi
  | some src =>
    rw [Download.flight_of_source hp] at hi
    exact mem_flatMap.mpr ⟨(p, src), (mem_entries _ _).mpr hp, (mem_keys _ _).mpr ⟨i, hi⟩⟩

section Induct

variable {I : Refill P → Prop}

theorem planRequests_induct {r : Refill P} (hstep : ∀ r r', I r → Commits r r' → I r')
    (hd : r.downloads.files[file]? = some d) (hhashes : d.blockHashes.isSome = true)
    (windowUrgent : Bool) (now : Nat) (h : I r) :
    I (r.within file (d.planRequests r.downloads.config file windowUrgent now r.budget
      r.downloads.issued)) := by
  unfold Download.planRequests
  dsimp only
  split
  · rw [within_start hd]
    exact h
  have hloop : ∀ (l : List (P × Nat)) (pass : Pass P), Planned d pass → I (r.within file pass) →
      I (r.within file (l.foldl (fun pass entry => Download.planSource r.downloads.config file now
        (d.plan r.downloads.config windowUrgent now) pass entry.1 entry.2) pass)) := by
    intro l
    induction l with
    | nil => exact fun _ _ hI => hI
    | cons entry l ih =>
      intro pass hplanned hI
      rw [foldl_cons]
      rcases pass.planSource_cases r.downloads.config file now
          (d.plan r.downloads.config windowUrgent now) d.store.nodup_neededChunks entry.1
          entry.2 with ⟨hsame, _⟩ | ⟨src, take, hsrc, hasked, hask⟩
      · rw [hsame]
        exact ih pass hplanned hI
      · rw [hask]
        refine ih _ (hplanned.ask hsrc) ?_
        by_cases hne : take = []
        · rw [hne, Pass.ask_nil]
          exact hI
        · exact hstep _ _ hI (commits_ask r hplanned hhashes rfl hsrc hasked hne)
  refine hloop _ _ (planned_start d _ _) ?_
  rw [within_start hd]
  exact h

theorem planFile_induct {r : Refill P} (hstep : ∀ r r', I r → Commits r r' → I r') (now : Nat)
    (urgentSweep : Bool) (file : Ed2kHash) (h : I r) : I (planFile now urgentSweep r file) := by
  unfold planFile
  dsimp only
  split
  · exact h
  next d hd =>
  split
  · exact h
  next hskip =>
  split
  · exact h
  · have hhashes : d.blockHashes.isSome = true := by
      cases hb : d.blockHashes with
      | none =>
        rw [hb] at hskip
        simp at hskip
      | some _ => rfl
    exact planRequests_induct hstep hd hhashes _ now h

/-- **The refill rule**: what every commit keeps, the refill keeps. -/
theorem planAll_induct {s : Downloads P} (hstep : ∀ r r', I r → Commits r r' → I r') (now : Nat)
    (urgentSweep : Bool) (h : I ⟨s, s.inFlightAt, []⟩) : I (s.planAll now urgentSweep) := by
  have hloop : ∀ (files : List Ed2kHash) (r : Refill P), I r →
      I (files.foldl (planFile now urgentSweep) r) := by
    intro files
    induction files with
    | nil => exact fun _ hI => hI
    | cons file files ih => exact fun r hI => ih _ (planFile_induct hstep now urgentSweep file hI)
  exact hloop _ _ h

end Induct

/-! ## §4. What a refill leaves. -/

/-- A download's entry before and after planning. -/
structure Refilled (s : Downloads P) (r : Refill P) : Prop where
  config : r.downloads.config = s.config
  nowPlaying : r.downloads.nowPlaying = s.nowPlaying
  none : ∀ file : Ed2kHash, s.files[file]? = none → r.downloads.files[file]? = none
  some : ∀ (file : Ed2kHash) (d : Download P), s.files[file]? = some d →
    ∃ d', r.downloads.files[file]? = some d' ∧ d.Grown d' ∧ (d.blockHashes = Option.none → d' = d)

theorem refilled_planAll (s : Downloads P) (now : Nat) (urgentSweep : Bool) :
    Refilled s (s.planAll now urgentSweep) := by
  refine planAll_induct (I := Refilled s) ?_ now urgentSweep
    ⟨rfl, rfl, fun _ h => h, fun _ d h => ⟨d, h, .refl d, fun _ => rfl⟩⟩
  intro r r' hr hcommit
  obtain ⟨file, d, d', peer, take, urgent, hd, hhashes, hdownloads, hgrown, _⟩ := hcommit
  have hget : ∀ f : Ed2kHash, r'.downloads.files[f]? =
      if f = file then some d' else r.downloads.files[f]? := by
    intro f
    rw [hdownloads]
    exact getElem?_put r.downloads file f d'
  refine ⟨?_, ?_, fun f hf => ?_, fun f d₀ hf => ?_⟩
  · rw [hdownloads]
    exact hr.config
  · rw [hdownloads]
    exact hr.nowPlaying
  · have hold := hr.none f hf
    have hne : f ≠ file := by
      rintro rfl
      rw [hold] at hd
      cases hd
    rw [hget, if_neg hne]
    exact hold
  · obtain ⟨d₁, hd₁, hg, hsame⟩ := hr.some f d₀ hf
    by_cases hff : f = file
    · subst hff
      rw [hd] at hd₁
      cases hd₁
      refine ⟨d', by rw [hget, if_pos rfl], hg.trans hgrown, fun hnone => ?_⟩
      rw [hsame hnone, hnone] at hhashes
      cases hhashes
    · exact ⟨d₁, by rw [hget, if_neg hff]; exact hd₁, hg, hsame⟩

theorem Refilled.origin {s : Downloads P} (h : Refilled s r) {file : Ed2kHash} {d' : Download P}
    (hd' : r.downloads.files[file]? = Option.some d') :
    ∃ d, s.files[file]? = Option.some d ∧ d.Grown d' ∧ (d.blockHashes = Option.none → d' = d) := by
  cases hd : s.files[file]? with
  | none =>
    rw [h.none file hd] at hd'
    cases hd'
  | some d =>
    obtain ⟨d'', hd'', hgrown, hsame⟩ := h.some file d hd
    rw [hd'] at hd''
    cases hd''
    exact ⟨d, rfl, hgrown, hsame⟩

/-- The requests of `f` in flight at a peer, over all files. -/
def flightTotal (f : Nat → Issue → Nat) (s : Downloads P) (peer : P) : Nat :=
  total (fun _ d => total f (d.flight peer)) s.files

theorem inFlightAt_eq (s : Downloads P) (peer : P) :
    s.inFlightAt peer = s.flightTotal (fun _ _ => 1) peer := by
  unfold inFlightAt flightTotal
  congr 1
  funext _ d
  rw [← size_eq_total]
  unfold Download.flight
  cases d.sources[peer]? <;> rfl

theorem flightTotal_commits (f : Nat → Issue → Nat) {file : Ed2kHash}
    {d d' : Download P} {peer : P} {take : List Nat} {urgent : Nat → Bool}
    (hd : r.downloads.files[file]? = some d)
    (hdownloads : r'.downloads = { r.downloads.put file d' with issued := r.downloads.issued + 1 })
    (hflight : ∀ (p : P) (c : Nat), (d'.flight p)[c]? =
      if p = peer ∧ c ∈ take then some ⟨r.downloads.issued, urgent c⟩ else (d.flight p)[c]?)
    (hfresh : ∀ c ∈ take, (d.flight peer)[c]? = none) (hnodup : take.Nodup) (p : P) :
    r'.downloads.flightTotal f p = r.downloads.flightTotal f p +
      if p = peer then (take.map fun c => f c ⟨r.downloads.issued, urgent c⟩).sum else 0 := by
  have hinsert := total_insert (fun _ d => total f (Download.flight d p)) r.downloads.files file d'
  rw [hd, elim_some] at hinsert
  have hnew : r'.downloads.flightTotal f p =
      total (fun _ d => total f (Download.flight d p)) (r.downloads.files.insert file d') := by
    rw [hdownloads]
    rfl
  have hmap : total f (d'.flight p) = total f (d.flight p) +
      if p = peer then (take.map fun c => f c ⟨r.downloads.issued, urgent c⟩).sum else 0 := by
    by_cases hp : p = peer
    · subst hp
      rw [if_pos rfl,
        ← total_foldl_insert f (fun c => ⟨r.downloads.issued, urgent c⟩) hnodup hfresh]
      congr 1
      refine map_ext fun c => ?_
      rw [getElem?_foldl_insert (fun c => (⟨r.downloads.issued, urgent c⟩ : Issue)), hflight]
      simp
    · rw [if_neg hp, add_zero]
      congr 1
      refine map_ext fun c => ?_
      rw [hflight]
      simp [hp]
  rw [hnew]
  unfold flightTotal
  omega

/-- **The budget is the number of requests in flight**, throughout a refill. -/
theorem Commits.budget (hcommit : Commits r r') (hr : ∀ p, r.budget p = r.downloads.inFlightAt p)
    (p : P) : r'.budget p = r'.downloads.inFlightAt p := by
  obtain ⟨file, d, d', peer, take, urgent, hd, _, hdownloads, _, hflight, hbudget, hfresh, hnodup,
    _, _⟩ := hcommit
  rw [hbudget p, hr p, inFlightAt_eq, inFlightAt_eq,
    flightTotal_commits (fun _ _ => 1) hd hdownloads hflight hfresh hnodup p]
  simp

/-! ## §5. Both phases together. -/

section Call

variable {md4 : List UInt8 → Nat} {s : Downloads P} {c : Call P} {file : Ed2kHash}

theorem call_origin {d' : Download P} (h : (s.call md4 c).1.files[file]? = some d') :
    ∃ d₁, Download.Origin md4 s c file d₁ ∧ d₁.Grown d' := by
  obtain ⟨r, hr, hresult | ⟨now, sweep, hresult⟩⟩ := splitsAs_call md4 s c
  · rw [hresult] at h
    exact ⟨d', hr.origin file d' h, .refl d'⟩
  · rw [hresult] at h
    obtain ⟨d₁, hd₁, hgrown, _⟩ := (refilled_planAll r.1 now sweep).origin h
    exact ⟨d₁, hr.origin file d₁ hd₁, hgrown⟩

theorem call_dropped {d : Download P} (hd : s.files[file]? = some d)
    (h : (s.call md4 c).1.files[file]? = none) :
    c = .cancel file ∨
      ∃ path hashes e, DownloadAction.complete file path hashes e ∈ (s.call md4 c).2 := by
  obtain ⟨r, hr, hresult | ⟨now, sweep, hresult⟩⟩ := splitsAs_call md4 s c
  · rw [hresult] at h ⊢
    exact hr.dropped file d hd h
  · rw [hresult] at h ⊢
    have hnone : r.1.files[file]? = none := by
      rw [eq_none_iff_forall_ne_some]
      intro d₁ hd₁
      obtain ⟨d', hd', _⟩ := (refilled_planAll r.1 now sweep).some file d₁ hd₁
      rw [h] at hd'
      cases hd'
    refine (hr.dropped file d hd hnone).imp_right ?_
    rintro ⟨path, hashes, e, he⟩
    exact ⟨path, hashes, e, mem_append_left _ he⟩

theorem call_live (hs : ∀ d, s.files[file]? = some d → d.store.isComplete = false) {d' : Download P}
    (h : (s.call md4 c).1.files[file]? = some d') : d'.store.isComplete = false := by
  have hfirst : ∀ {r : Downloads P × List (DownloadAction P)} {d₁ : Download P},
      FirstPhase md4 s c r → r.1.files[file]? = some d₁ → d₁.store.isComplete = false := by
    intro r d₁ hr hd₁
    by_contra hc
    obtain ⟨d, hd, hcomplete⟩ := hr.live file d₁ hd₁ (Bool.eq_true_of_not_eq_false hc)
    rw [hs d hd] at hcomplete
    cases hcomplete
  obtain ⟨r, hr, hresult | ⟨now, sweep, hresult⟩⟩ := splitsAs_call md4 s c
  · rw [hresult] at h
    exact hfirst hr h
  · rw [hresult] at h
    obtain ⟨d₁, hd₁, hgrown, _⟩ := (refilled_planAll r.1 now sweep).origin h
    rw [hgrown.store]
    exact hfirst hr hd₁

end Call

end Downloads

end DessPlay.Transfer
