/-
  DessPlay.Transfer.InFlight
  **WHAT IS IN FLIGHT, IN EVERY REACHABLE STATE.**

  Requests only ever concern needed chunks; a chunk is requested twice only if it is
  urgent by then; and the requests of a peer that were not urgent fit its pipeline.

  `Disciplined` is kept by the first phase of a call, which only drops requests, and by
  every commit of a refill, because the shared budget counts all requests in flight.
-/
import DessPlay.Transfer.Planning

namespace DessPlay.Transfer

open BTree DessPlay.Core

variable {P : Type} [LinearOrder P] {md4 : List UInt8 → Nat}

/-! ## §1. Stores under the edits of a call. -/

namespace ChunkStore

theorem WellFormed.verifyKnown {s : ChunkStore} (h : s.WellFormed)
    (hashes : Option (List Ed2kBlockHash)) (readable : Nat → Bool) :
    (s.verifyKnown md4 hashes readable).WellFormed := by
  cases hashes with
  | none => exact h
  | some hs => exact h.verify

theorem sameFile_verifyKnown (s : ChunkStore) (hashes : Option (List Ed2kBlockHash))
    (readable : Nat → Bool) : s.SameFile (s.verifyKnown md4 hashes readable) := by
  cases hashes with
  | none => exact SameFile.refl s
  | some hs => exact sameFile_verify s

theorem isWritten_verifyKnown {s : ChunkStore} (h : s.WellFormed)
    (hashes : Option (List Ed2kBlockHash)) (readable : Nat → Bool) {c : Nat}
    (hc : s.isWritten c = false) : (s.verifyKnown md4 hashes readable).isWritten c = false := by
  cases hashes with
  | none => exact hc
  | some hs => exact isWritten_verify h hc

theorem isWritten_writeChunk {s : ChunkStore} (h : s.WellFormed) {index : Nat} {data : List UInt8}
    {outcome : WriteOutcome} {c : Nat}
    (hc : (s.writeChunk index data outcome).2 = true → c ≠ index) :
    (s.writeChunk index data outcome).1.isWritten c = s.isWritten c := by
  rcases writeChunk_cases s index data outcome with heq | ⟨hlt, _, ⟨wrote, heq⟩ | heq⟩
  · rw [heq]
  · rw [heq]
    rfl
  · rw [heq] at hc ⊢
    show ((s.putBytes index data).mark index).isWritten c = _
    rw [isWritten_mark (h.putBytes index data) hlt]
    simp only [Ne.symm (hc rfl), decide_false, Bool.or_false]
    rfl

theorem chunks_writeChunk (s : ChunkStore) (index : Nat) (data : List UInt8)
    (outcome : WriteOutcome) : (s.writeChunk index data outcome).1.chunks = s.chunks := by
  rcases writeChunk_cases s index data outcome with heq | ⟨_, _, ⟨_, heq⟩ | heq⟩ <;>
    rw [heq] <;> rfl

end ChunkStore

namespace Download

variable {call : Downloads.Call P} {file : Ed2kHash} {d d' : Download P}

theorem Edit.kept (h : Edit md4 call file d d') : Kept d d' := by
  cases h with
  | idle h => exact h.toKept
  | trusted _ hkept => exact hkept
  | failed _ hkept => exact hkept
  | arrived _ hkept => exact hkept

theorem Edit.wellFormed (h : Edit md4 call file d d') (hd : d.store.WellFormed) :
    d'.store.WellFormed := by
  cases h with
  | idle h =>
    rw [h.store]
    exact hd
  | trusted _ _ _ _ _ hstore =>
    rw [hstore]
    exact hd.verify
  | failed _ _ _ _ _ hstore =>
    rw [hstore]
    exact hd.writeChunk _ _ _
  | arrived _ _ _ _ _ hstore =>
    rw [hstore]
    exact (hd.writeChunk _ _ _).verifyKnown _ _

theorem Edit.needed (h : Edit md4 call file d d') (hd : d.store.WellFormed) {p : P} {c : Nat}
    {i : Issue} (hi : (d'.flight p)[c]? = some i) (hc : c ∈ d.store.neededChunks) :
    c ∈ d'.store.neededChunks := by
  rw [ChunkStore.mem_neededChunks_iff (h.wellFormed hd)]
  rw [ChunkStore.mem_neededChunks_iff hd] at hc
  cases h with
  | idle h =>
    rw [h.store]
    exact hc
  | trusted _ _ _ _ _ hstore =>
    rw [hstore]
    exact ⟨(ChunkStore.sameFile_verify d.store).2.2.2.1 ▸ hc.1,
      ChunkStore.isWritten_verify hd hc.2⟩
  | failed _ _ _ _ hfail hstore =>
    rw [hstore, ChunkStore.chunks_writeChunk, ChunkStore.isWritten_writeChunk hd]
    · exact hc
    · intro hdone
      rw [hfail] at hdone
      cases hdone
  | @arrived _ index _ _ _ _ _ _ _ _ hstore hgone =>
    rw [hstore, (ChunkStore.sameFile_verifyKnown _ _ _).2.2.2.1, ChunkStore.chunks_writeChunk]
    refine ⟨hc.1, ChunkStore.isWritten_verifyKnown (hd.writeChunk _ _ _) _ _ ?_⟩
    rw [ChunkStore.isWritten_writeChunk hd]
    · exact hc.2
    · rintro _ rfl
      rw [hgone p] at hi
      cases hi

theorem flight_of_new {store : ChunkStore} {root : Ed2kHash} {sizeBytes playChunk : Nat}
    (h : Idle (Download.new store root sizeBytes playChunk) d') (p : P) : d'.flight p = ∅ := by
  refine map_ext fun c => ?_
  rw [Std.ExtTreeMap.getElem?_empty, Option.eq_none_iff_forall_ne_some]
  intro i hi
  have hold := h.flight p c i hi
  rw [flight_of_none Std.ExtTreeMap.getElem?_empty] at hold
  simp at hold

end Download

/-! ## §2. The discipline of requests. -/

namespace Downloads

open Download

def bulkRequest (_ : Nat) (i : Issue) : Nat := if i.urgent then 0 else 1

/-- What holds of one download whose manager has issued `issued` requests. -/
structure DisciplinedFile (issued : Nat) (d : Download P) : Prop where
  wellFormed : d.store.WellFormed
  needed : ∀ (p : P) (c : Nat) (i : Issue), (d.flight p)[c]? = some i → c ∈ d.store.neededChunks
  issued : ∀ (p : P) (c : Nat) (i : Issue), (d.flight p)[c]? = some i → i.seq < issued
  duplicate : ∀ (p q : P) (c : Nat) (i j : Issue), p ≠ q → (d.flight p)[c]? = some i →
    (d.flight q)[c]? = some j → i.seq ≠ j.seq ∧ (i.seq < j.seq → j.urgent = true)

structure Disciplined (s : Downloads P) : Prop where
  files : ∀ (file : Ed2kHash) (d : Download P), s.files[file]? = some d →
    DisciplinedFile s.issued d
  bulk : ∀ p, s.flightTotal bulkRequest p ≤ s.config.pipelineDepth

theorem disciplined_new (cfg : DownloadConfig) : Disciplined (Downloads.new cfg : Downloads P) := by
  have hnone : ∀ file : Ed2kHash, (Downloads.new cfg : Downloads P).files[file]? = none :=
    fun _ => Std.ExtTreeMap.getElem?_empty
  refine ⟨fun file d hd => ?_, fun p => ?_⟩
  · rw [hnone] at hd
    cases hd
  · exact Nat.zero_le _

theorem DisciplinedFile.edit {call : Call P} {file : Ed2kHash} {issued : Nat} {d d' : Download P}
    (h : DisciplinedFile issued d) (hedit : Edit md4 call file d d') :
    DisciplinedFile issued d' where
  wellFormed := hedit.wellFormed h.wellFormed
  needed p c i hi := hedit.needed h.wellFormed hi (h.needed p c i (hedit.kept.flight p c i hi))
  issued p c i hi := h.issued p c i (hedit.kept.flight p c i hi)
  duplicate p q c i j hne hi hj :=
    h.duplicate p q c i j hne (hedit.kept.flight p c i hi) (hedit.kept.flight q c j hj)

theorem disciplinedFile_new {store : ChunkStore} (hstore : store.WellFormed) {root : Ed2kHash}
    {sizeBytes playChunk : Nat} {d' : Download P}
    (h : Idle (Download.new store root sizeBytes playChunk) d') (issued : Nat) :
    DisciplinedFile issued d' := by
  have hnone : ∀ (p : P) (c : Nat), (d'.flight p)[c]? = none := fun p c => by
    rw [flight_of_new h p]
    exact Std.ExtTreeMap.getElem?_empty
  refine ⟨h.store ▸ hstore, fun p c i hi => ?_, fun p c i hi => ?_, fun p q c i j _ hi => ?_⟩
  all_goals
    rw [hnone] at hi
    cases hi

theorem total_within {m m' : BTreeMap Nat Issue} (h : Within m m') (f : Nat → Issue → Nat) :
    total f m ≤ total f m' := by
  refine total_le fun c => ?_
  cases hc : m[c]? with
  | none => exact Nat.zero_le _
  | some i => rw [h c i hc]

variable {s : Downloads P} {r : Downloads P × List (DownloadAction P)}

theorem FirstPhase.flightTotal_le {call : Call P} (h : FirstPhase md4 s call r)
    (f : Nat → Issue → Nat) (p : P) : r.1.flightTotal f p ≤ s.flightTotal f p := by
  refine total_le fun file => ?_
  cases hd' : r.1.files[file]? with
  | none => exact Nat.zero_le _
  | some d' =>
    rcases h.origin file d' hd' with
      ⟨d, hd, hedit⟩ | ⟨_, _, _, _, _, _, _, _, _, _, _, hidle⟩
    · rw [hd]
      exact total_within (hedit.kept.flight p) f
    · show total f (d'.flight p) ≤ _
      rw [flight_of_new hidle p]
      exact Nat.zero_le _

theorem Disciplined.firstPhase {call : Call P} (h : Disciplined s) (hr : FirstPhase md4 s call r) :
    Disciplined r.1 := by
  refine ⟨fun file d' hd' => ?_, fun p => ?_⟩
  · rw [hr.issued]
    rcases hr.origin file d' hd' with
      ⟨d, hd, hedit⟩ | ⟨_, _, _, _, _, _, _, _, _, _, hopen, hidle⟩
    · exact (h.files file d hd).edit hedit
    · obtain ⟨disk, allWritten, rfl, _⟩ := ChunkStore.openFile_cases hopen
      exact disciplinedFile_new (ChunkStore.wellFormed_withFile _ _ _ _) hidle _
  · rw [hr.config]
    exact (hr.flightTotal_le bulkRequest p).trans (h.bulk p)

theorem DisciplinedFile.commit {issued : Nat} {d d' : Download P} {peer : P} {take : List Nat}
    {urgent : Nat → Bool} (h : DisciplinedFile issued d) (hgrown : d.Grown d')
    (hflight : ∀ (p : P) (c : Nat), (d'.flight p)[c]? =
      if p = peer ∧ c ∈ take then some ⟨issued, urgent c⟩ else (d.flight p)[c]?)
    (hsingle : ∀ c ∈ take, urgent c = false → ∀ p, (d.flight p)[c]? = none) :
    DisciplinedFile (issued + 1) d' := by
  refine ⟨hgrown.store ▸ h.wellFormed, fun p c i hi => ?_, fun p c i hi => ?_,
    fun p q c i j hne hi hj => ?_⟩
  · rw [hgrown.store]
    rcases hgrown.needed p c i hi with hold | hneeded
    · exact h.needed p c i hold
    · exact hneeded
  · rw [hflight] at hi
    split at hi
    · cases hi
      exact Nat.lt_succ_self _
    · exact Nat.lt_succ_of_lt (h.issued p c i hi)
  · rw [hflight] at hi hj
    -- of two requests at most one is new; the new one has the larger number
    split at hi
    next hp =>
      rw [if_neg (fun hq => hne (hp.1.trans hq.1.symm))] at hj
      cases hi
      have hlt := h.issued q c j hj
      refine ⟨ne_of_gt hlt, fun hlt' => absurd hlt' (not_lt.mpr (le_of_lt hlt))⟩
    · split at hj
      next hq =>
        cases hj
        refine ⟨ne_of_lt (h.issued p c i hi), fun _ => ?_⟩
        by_contra hbulk
        have hnone := hsingle c hq.2 (Bool.eq_false_of_not_eq_true hbulk) p
        rw [hi] at hnone
        cases hnone
      · exact h.duplicate p q c i j hne hi hj

theorem sum_bulkRequest (issued : Nat) (urgent : Nat → Bool) (take : List Nat) :
    (take.map fun c => bulkRequest c ⟨issued, urgent c⟩).sum = bulkCount urgent take := by
  induction take with
  | nil => rfl
  | cons c take ih =>
    rw [List.map_cons, List.sum_cons, ih]
    unfold bulkCount bulkRequest
    cases hc : urgent c with
    | true => simp [hc]
    | false =>
      simp [hc]
      omega

theorem bulk_le_inFlightAt (s : Downloads P) (p : P) :
    s.flightTotal bulkRequest p ≤ s.inFlightAt p := by
  rw [inFlightAt_eq]
  refine total_mono fun file d => total_mono fun c i => ?_
  unfold bulkRequest
  split <;> omega

theorem Disciplined.planAll (h : Disciplined s) (now : Nat) (urgentSweep : Bool) :
    Disciplined (s.planAll now urgentSweep).downloads := by
  refine (planAll_induct (I := fun r => Disciplined r.downloads ∧
    ∀ p, r.budget p = r.downloads.inFlightAt p) ?_ now urgentSweep ⟨h, fun _ => rfl⟩).1
  intro r r' ⟨hr, hexact⟩ hcommit
  have hexact' := hcommit.budget hexact
  refine ⟨?_, hexact'⟩
  obtain ⟨file, d, d', peer, take, urgent, hd, _, hdownloads, hgrown, hflight, _, hfresh, hnodup,
    hbulk, hsingle, _⟩ := hcommit
  refine ⟨fun f e hf => ?_, fun p => ?_⟩
  · have hget : r'.downloads.files[f]? = if f = file then some d' else r.downloads.files[f]? := by
      rw [hdownloads]
      exact getElem?_put r.downloads file f d'
    have hissued : r'.downloads.issued = r.downloads.issued + 1 := by rw [hdownloads]
    rw [hissued]
    rw [hget] at hf
    split at hf
    · cases hf
      exact (hr.files file d hd).commit hgrown hflight hsingle
    · have hold := hr.files f e hf
      exact ⟨hold.wellFormed, hold.needed,
        fun p c i hi => Nat.lt_succ_of_lt (hold.issued p c i hi), hold.duplicate⟩
  · have hconfig : r'.downloads.config = r.downloads.config := by
      rw [hdownloads]
      rfl
    rw [hconfig, flightTotal_commits bulkRequest hd hdownloads hflight hfresh hnodup p]
    have hold := hr.bulk p
    split
    next hp =>
      subst hp
      have hless := bulk_le_inFlightAt r.downloads p
      rw [sum_bulkRequest]
      rw [hexact p] at hbulk
      omega
    · exact hold

theorem Disciplined.call (h : Disciplined s) (c : Call P) : Disciplined (s.call md4 c).1 := by
  obtain ⟨r, hr, hresult | ⟨now, sweep, hresult⟩⟩ := splitsAs_call md4 s c
  · rw [hresult]
    exact h.firstPhase hr
  · rw [hresult]
    exact (h.firstPhase hr).planAll now sweep

/-! ## §3. Every reachable state. -/

theorem disciplined_of_reach {cfg : DownloadConfig}
    (h : Machine.Reach (step md4) Machine.anyStep (Downloads.new cfg) s) : Disciplined s :=
  h.invariant (disciplined_new cfg) fun s c s' hs _ hstep => by
    cases hstep
    exact hs.call c

/-- What is in flight is needed; a chunk in flight at two sources of a file was urgent when the
later request was issued; a peer's requests that were not urgent when issued fit the
pipeline. -/
def RequestInvariants (s : Downloads P) : Prop :=
  (∀ (file : Ed2kHash) (d : Download P) (p : P) (c : Nat) (i : Issue), s.files[file]? = some d →
    (d.flight p)[c]? = some i → c ∈ d.store.neededChunks) ∧
  (∀ (file : Ed2kHash) (d : Download P) (p q : P) (c : Nat) (i j : Issue),
    s.files[file]? = some d → p ≠ q → (d.flight p)[c]? = some i → (d.flight q)[c]? = some j →
    i.seq ≠ j.seq ∧ (i.seq < j.seq → j.urgent = true)) ∧
  ∀ p, s.flightTotal bulkRequest p ≤ s.config.pipelineDepth

/-- **The requests in flight**, after any sequence of calls and peer messages. -/
theorem request_invariants (md4 : List UInt8 → Nat) (cfg : DownloadConfig) {s : Downloads P}
    (h : Machine.Reach (step md4) Machine.anyStep (Downloads.new cfg) s) : RequestInvariants s := by
  have hs := disciplined_of_reach h
  refine ⟨fun file d p c i hd => ?_, fun file d p q c i j hd => ?_, hs.bulk⟩
  · exact (hs.files file d hd).needed p c i
  · exact (hs.files file d hd).duplicate p q c i j

def endgame : Downloads Nat :=
  let io : DiskIo := ⟨.done, fun _ => true⟩
  runCalls (fun _ => 0) (Downloads.new ⟨1, 1, 30000, 5000⟩)
    [.start 7 1 5 "f" [1, 2] 0 0 ⟨none, true, none⟩,
      .peerMessage 1 (.fileAvailability 7 ⟨[1], 1⟩) 1 io,
      .peerMessage 2 (.fileAvailability 7 ⟨[1], 1⟩) 2 io,
      .peerMessage 1 (.blockHashes 7 [5]) 3 io]

theorem request_invariants_endgame :
    (endgame.files[7]?.map fun d => ((d.flight 1)[0]?, (d.flight 2)[0]?)) =
        some (some ⟨0, true⟩, some ⟨1, true⟩) ∧ RequestInvariants endgame :=
  ⟨by decide +kernel, request_invariants _ _ (reach_runCalls _ _ _)⟩

end Downloads

end DessPlay.Transfer
