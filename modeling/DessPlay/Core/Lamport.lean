/-
  DessPlay.Core.Lamport
  **WHICH TIMESTAMPS A STATE HOLDS, AND THAT THE FLOOR COVERS THEM ALL.**

  `HasStamp s t`: some register or map entry of `s` was won by a write stamped
  `t`.  `maxLwwTimestamp` bounds them all, because its list names every LWW
  component; applying an op brings in the op's own timestamp at most, merging
  brings in the other side's.  A write stamped ABOVE another one resolves over it.
-/
import DessPlay.Core.Compact
import DessPlay.Core.Covers
import DessPlay.Core.Message
import DessPlay.Crdts.MapVals

namespace DessPlay.Core

open BTree Crdts List CrdtState

namespace LwwCell

variable {V : Type}

/-- The winner, if any, is stamped `B` at most. -/
def Below (B : SharedTimestamp) (c : LwwCell V) : Prop := ∀ t ∈ c.timestamp, t ≤ B

variable {B : SharedTimestamp}

theorem Below.single {w : Lww V} (h : w.timestamp ≤ B) : (LwwCell.single w).Below B := by
  intro t ht
  rwa [← Option.some.inj ht]

variable [LinearOrder V]

theorem Below.sup {c c' : LwwCell V} (h : c.Below B) (h' : c'.Below B) : (c ⊔ c').Below B := by
  rcases le_total c c' with hle | hle
  · rwa [sup_eq_right.mpr hle]
  · rwa [sup_eq_left.mpr hle]

theorem Below.apply {c : LwwCell V} (h : c.Below B) {w : Lww V} (hw : w.timestamp ≤ B) :
    (c.apply w).Below B :=
  apply_eq_sup c w ▸ h.sup (.single hw)

theorem Below.merge {c c' : LwwCell V} (h : c.Below B) (h' : c'.Below B) : (c.merge c').Below B :=
  merge_eq_sup c c' ▸ h.sup h'

theorem Below.closed (B : SharedTimestamp) :
    Map.ValClosed ActorId (Below B : LwwCell V → Prop) where
  default := nofun
  merge := fun hv hw => Below.merge hv hw
  resetRemove := fun _ hv => hv

end LwwCell

namespace CrdtState

/-- A write stamped `t` is the winner somewhere in the state. -/
def HasStamp (s : CrdtState) (t : SharedTimestamp) : Prop :=
  (∃ (f : MapField) (k : f.Key) (e : Entry (LwwCell f.Val) ActorId),
      (s.maps f).entries[k]? = some e ∧ e.val.timestamp = some t) ∨
    ∃ r, (s.regs r).timestamp = some t

/-- Every timestamp in the state is `B` at most. -/
structure Below (s : CrdtState) (B : SharedTimestamp) : Prop where
  maps : ∀ f, Map.AllVals (fun _ => LwwCell.Below B) (s.maps f).entries
  regs : ∀ r, (s.regs r).Below B

variable {s : CrdtState} {B ts : SharedTimestamp}

theorem below_iff : s.Below B ↔ ∀ t, s.HasStamp t → t ≤ B := by
  constructor
  · rintro h t (⟨f, k, e, hk, ht⟩ | ⟨r, ht⟩)
    · exact h.maps f k e hk t ht
    · exact h.regs r t ht
  · intro h
    exact ⟨fun f k e hk t ht => h t (.inl ⟨f, k, e, hk, ht⟩), fun r t ht => h t (.inr ⟨r, ht⟩)⟩

theorem Below.mono {B' : SharedTimestamp} (h : s.Below B) (hB : B ≤ B') : s.Below B' :=
  below_iff.mpr fun t ht => (below_iff.mp h t ht).trans hB

/-! ## §1. The floor names every component. -/

theorem start_le_foldl_max (l : List Nat) (n : Nat) : n ≤ l.foldl max n := by
  induction l generalizing n with
  | nil => exact le_rfl
  | cons m l ih => exact (le_max_left n m).trans (ih (max n m))

theorem le_foldl_max {l : List Nat} {t : Nat} (n : Nat) (h : t ∈ l) : t ≤ l.foldl max n := by
  induction l generalizing n with
  | nil => cases h
  | cons m l ih =>
    rcases mem_cons.mp h with rfl | h
    · exact (le_max_right n t).trans (start_le_foldl_max l _)
    · exact ih _ h

theorem le_mapMax {K V : Type} [LinearOrder K] (m : LwwMap K V) :
    Map.AllVals (fun _ => LwwCell.Below (mapMax m)) m.entries := by
  intro k e hk t ht
  refine le_foldl_max 0 (mem_filterMap.mpr ⟨(k, e), ?_, ht⟩)
  exact Std.ExtTreeMap.mem_toList_iff_getElem?_eq_some.mpr hk

/-- **The floor is a bound**: all sixteen LWW components are in the list. -/
theorem below_maxLwwTimestamp (s : CrdtState) : s.Below s.maxLwwTimestamp where
  maps f k e hk t ht := by
    refine (le_mapMax (s.maps f) k e hk t ht).trans (le_foldl_max 0 ?_)
    cases f <;> simp
  regs r t ht := by
    have hget : t = (s.regs r).timestamp.getD 0 := by rw [ht]; rfl
    rw [hget]
    apply le_foldl_max 0
    cases r <;> simp

/-! ## §2. What brings timestamps in. -/

theorem Below.new (B : SharedTimestamp) : new.Below B where
  maps f k e hk := by
    have hnone : (Map.new : LwwMap f.Key f.Val).entries[k]? = none :=
      Std.ExtTreeMap.getElem?_empty
    exact absurd (hnone.symm.trans hk) (by simp)
  regs r t ht := by cases ht

theorem Below.apply (h : s.Below B) {op : CrdtOp} (hop : ∀ t ∈ op.lwwTimestamp, t ≤ B) :
    (s.apply op).Below B := by
  cases op with
  | map f op =>
    refine ⟨fun g => ?_, h.regs⟩
    by_cases hg : g = f
    · subst hg
      rw [maps_apply_self]
      refine Map.AllVals.apply (fun _ => LwwCell.Below.closed B) (h.maps g) op ?_
      rintro dot key o rfl v hv
      exact LwwCell.Below.apply hv (hop _ rfl)
    · rw [maps_apply_ne _ _ hg]
      exact h.maps g
  | reg r w =>
    refine ⟨h.maps, fun r' => ?_⟩
    by_cases hr : r' = r
    · subst hr
      rw [regs_apply_self]
      exact (h.regs r').apply (hop _ rfl)
    · rw [regs_apply_ne _ _ hr]
      exact h.regs r'
  | set g x => exact ⟨h.maps, h.regs⟩
  | chat id => exact ⟨h.maps, h.regs⟩

theorem Below.foldl_apply (h : s.Below B) {ops : List CrdtOp}
    (hops : ∀ op ∈ ops, ∀ t ∈ op.lwwTimestamp, t ≤ B) : (ops.foldl CrdtState.apply s).Below B := by
  induction ops generalizing s with
  | nil => exact h
  | cons op ops ih =>
    exact ih (h.apply (hops op mem_cons_self)) fun o ho =>
      hops o (mem_cons_of_mem _ ho)

theorem lwwTimestamp_writeOp {actor : ActorId} {w : Write} :
    ∀ t ∈ (s.writeOp actor ts w).lwwTimestamp, t = ts := by
  intro t ht
  cases w <;> cases ht <;> rfl

theorem Below.put (h : s.Below B) (actor : ActorId) (hts : ts ≤ B) (w : Write) :
    (s.put actor ts w).1.Below B :=
  h.apply fun t ht => (lwwTimestamp_writeOp t ht).symm ▸ hts

end CrdtState

/-- A message brings `t`: as its op's timestamp, or in its full state. -/
def ServerControl.HasStamp {H : Type} (msg : ServerControl H) (t : SharedTimestamp) : Prop :=
  match msg with
  | .stateOp _ op => op.lwwTimestamp = some t
  | .stateMerge snapshot => snapshot.state.HasStamp t
  | .stateSnapshot snapshot => snapshot.state.HasStamp t
  | _ => False

/-! ## §3. Compaction only brings in stamps it took. -/

namespace Rebuild

variable (actor : ActorId) {stamp : Nat → SharedTimestamp}

def Stamped (stamp : Nat → SharedTimestamp) (b : Rebuild) : Prop :=
  ∀ B, (∀ i < b.taken, stamp i ≤ B) → b.fresh.Below B

theorem Stamped.write {b : Rebuild} (h : b.Stamped stamp) (w : Write) :
    (b.write actor stamp w).Stamped stamp := fun B hB =>
  (h B fun i hi => hB i (Nat.lt_succ_of_lt hi)).put actor (hB b.taken (Nat.lt_succ_self _)) w

theorem Stamped.chat {b : Rebuild} (h : b.Stamped stamp) (message : ChatMessage) :
    (b.chat actor message).Stamped stamp := fun B hB =>
  (h B hB).put actor (Nat.zero_le B) (.chat message)

theorem stamped_rebuildRun (view : StateView) (actor : ActorId) (chatKeep : Nat)
    (stamp : Nat → SharedTimestamp) : (rebuildRun view actor chatKeep stamp).Stamped stamp :=
  rebuildRun_induct (fun B _ => Below.new B) (fun _ w hb => hb.write actor w)
    (fun _ m hb => hb.chat actor m) view chatKeep

end Rebuild

/-! ## §4. A later stamp resolves over an earlier one. -/

inductive Cell where
  | reg (r : RegField)
  | key (f : MapField) (k : f.Key)

def CrdtOp.cell? : CrdtOp → Option Cell
  | .map f (.up _ k _) => some (.key f k)
  | .reg r _ => some (.reg r)
  | _ => none

namespace CrdtState

def winner? (s : CrdtState) : Cell → Option SharedTimestamp
  | .reg r => (s.regs r).timestamp
  | .key f k => (s.maps f).entries[k]?.bind fun e => e.val.timestamp

theorem timestamp_of_single_le {V : Type} [LinearOrder V] {w : Lww V} {c : LwwCell V}
    (h : LwwCell.single w ≤ c) : ∃ t, c.timestamp = some t ∧ w.timestamp ≤ t := by
  obtain ⟨win, hwin, hle⟩ := (LwwCell.single_le_iff w c).mp h
  exact ⟨win.timestamp, by rw [LwwCell.timestamp, hwin]; rfl, Lww.timestamp_le_of_le hle⟩

theorem winner_of_delta_le {s : CrdtState} {op : CrdtOp} {c : Cell} (hput : op.IsPut)
    (hc : op.cell? = some c) (h : op.delta ≤ s.join) :
    ∃ t, s.winner? c = some t ∧ ∀ ts ∈ op.lwwTimestamp, ts ≤ t := by
  revert hc h
  refine hput.cases (fun f u hc h => ?_) (fun r w hc h => ?_) (fun _ _ hc => ?_)
    (fun _ hc => ?_)
  · obtain ⟨e, he, hle⟩ := Map.exists_entry_of_upDelta_le (upDelta_le_of_delta_le h)
    obtain ⟨t, ht, hts⟩ := timestamp_of_single_le hle
    obtain rfl : Cell.key f u.key = c := Option.some.inj hc
    refine ⟨t, ?_, fun ts hmem => (Option.some.inj hmem) ▸ hts⟩
    show ((s.maps f).entries[u.key]?.bind fun e => e.val.timestamp) = some t
    rw [he]
    exact ht
  · have hself : (CrdtOp.reg r w).delta.2.1 r = LwwCell.single w := Function.update_self ..
    obtain ⟨t, ht, hts⟩ := timestamp_of_single_le (hself ▸ h.2.1 r)
    obtain rfl : Cell.reg r = c := Option.some.inj hc
    exact ⟨t, ht, fun ts hmem => (Option.some.inj hmem) ▸ hts⟩
  · cases hc
  · cases hc

/-- **A write that is taken wins over everything stamped below it**, whatever puts
the replica applied before and applies after. -/
theorem winner_of_taken {s : CrdtState} (hs : s.NoDeferred) {pre post : List CrdtOp} {op : CrdtOp}
    {c : Cell} (hput : ∀ o ∈ pre ++ op :: post, o.IsPut) (hc : op.cell? = some c)
    (htakes : (pre.foldl apply s).Takes op) :
    ∃ t, ((pre ++ op :: post).foldl apply s).winner? c = some t ∧
      ∀ ts ∈ op.lwwTimestamp, ts ≤ t := by
  have hop := hput op (by simp)
  have hpre : (pre.foldl apply s).NoDeferred :=
    hs.foldl_apply fun o ho => hput o (by simp [ho])
  apply winner_of_delta_le hop hc
  rw [foldl_append, foldl_cons]
  calc op.delta
      ≤ ((pre.foldl apply s).apply op).join := join_apply hpre hop htakes ▸ le_sup_right
    _ ≤ _ := join_le_foldl_apply (hpre.apply hop) fun o ho => hput o (by simp [ho])

end CrdtState

end DessPlay.Core
