/-
  DessPlay.Core.Covers
  **WHAT A STATE HAS ALREADY TAKEN ACCOUNT OF.**

  `Covers s op` is the condition under which one more copy of `op` is no news to
  `s`: the clock has its dot, the register's winner is not older, the element or
  chat line is there.  It is gained by applying the op and NEVER LOST again,
  under any op (removals included) and any merge; and it is exactly when
  `applyForBroadcast` does not fan a reliable copy out.
-/
import DessPlay.Core.Replica

namespace DessPlay.Core

open BTree Crdts List Function

namespace CrdtState

def Covers (s : CrdtState) : CrdtOp → Prop
  | .map f (.up d _ _) => d.counter ≤ (s.maps f).clock.get d.actor
  | .map _ (.rm _ _) => True
  | .reg r w => LwwCell.single w ≤ s.regs r
  | .set g x => x ∈ (s.sets g).value
  | .chat id => id ∈ s.chat.list

variable {s : CrdtState}

theorem covers_up {f : MapField} {u : LwwUpdate f.Key f.Val} :
    s.Covers (.up f u) ↔ u.dot.counter ≤ (s.maps f).clock.get u.dot.actor := Iff.rfl

/-! ## §1. Covering is gained by applying and never lost. -/

theorem clock_le_apply (s : CrdtState) (op : CrdtOp) (f : MapField) (a : ActorId) :
    (s.maps f).clock.get a ≤ ((s.apply op).maps f).clock.get a := by
  cases op with
  | map g op =>
    by_cases hf : f = g
    · subst hf
      rw [maps_apply_self]
      cases op with
      | rm c ks => rw [Map.apply_rm_clock]
      | up d k o =>
        rw [Map.apply_up_clock]
        split
        · exact le_max_left _ _
        · exact le_rfl
    · rw [maps_apply_ne _ _ hf]
  | reg r w => exact le_rfl
  | set g x => exact le_rfl
  | chat id => exact le_rfl

variable {op : CrdtOp}

theorem clock_apply_lt {f : MapField} {a : ActorId} {m : Nat} (h : (s.maps f).clock.get a < m)
    (hop : ∀ d, op.dot? = some (f, d) → d.actor = a → d.counter < m) :
    ((s.apply op).maps f).clock.get a < m := by
  cases op with
  | map g op =>
    by_cases hf : f = g
    · subst hf
      rw [maps_apply_self]
      cases op with
      | rm c ks => rwa [Map.apply_rm_clock]
      | up d k o =>
        rw [Map.apply_up_clock]
        split
        next hd => exact max_lt h (hop d rfl hd.symm)
        · exact h
    · rwa [maps_apply_ne _ _ hf]
  | reg r w => exact h
  | set g x => exact h
  | chat id => exact h

theorem Takes.foldl_apply (h : s.Takes op) {pre : List CrdtOp}
    (hpre : ∀ o ∈ pre, ∀ f d d', op.dot? = some (f, d) → o.dot? = some (f, d') →
      d'.actor = d.actor → d'.counter < d.counter) :
    (pre.foldl CrdtState.apply s).Takes op := by
  induction pre generalizing s with
  | nil => exact h
  | cons o pre ih =>
    refine ih ?_ fun o ho => hpre o (mem_cons_of_mem _ ho)
    cases op with
    | map f op =>
      cases op with
      | rm c ks => trivial
      | up d k v =>
        exact clock_apply_lt h fun d' hd' => hpre o (mem_cons_self ..) f d d' rfl hd'
    | reg r w => trivial
    | set g x => trivial
    | chat id => trivial

theorem covers_apply_self (s : CrdtState) (op : CrdtOp) : (s.apply op).Covers op := by
  cases op with
  | map f op =>
    cases op with
    | rm c ks => trivial
    | up d k o =>
      show d.counter ≤ ((s.apply (.map f (.up d k o))).maps f).clock.get d.actor
      rw [maps_apply_self, Map.apply_up_clock, if_pos rfl]
      exact le_max_right _ _
  | reg r w =>
    show LwwCell.single w ≤ (s.apply (.reg r w)).regs r
    rw [regs_apply_self, LwwCell.apply_eq_sup]
    exact le_sup_right
  | set g x =>
    show x ∈ (update s.sets g ((s.sets g).apply x) g).value
    rw [update_self, GSet.mem_apply]
    exact .inl rfl
  | chat id => exact (GList.mem_apply _ _ _).mpr (.inl rfl)

theorem Covers.apply (h : s.Covers op) (op' : CrdtOp) : (s.apply op').Covers op := by
  cases op with
  | map f op =>
    cases op with
    | rm c ks => trivial
    | up d k o => exact le_trans h (clock_le_apply s op' f d.actor)
  | reg r w =>
    cases op' with
    | reg r' w' =>
      by_cases hr : r = r'
      · subst hr
        show LwwCell.single w ≤ (s.apply (.reg r w')).regs r
        rw [regs_apply_self, LwwCell.apply_eq_sup]
        exact le_sup_of_le_left h
      · show LwwCell.single w ≤ (s.apply (.reg r' w')).regs r
        rw [regs_apply_ne _ _ hr]
        exact h
    | map _ _ => exact h
    | set _ _ => exact h
    | chat _ => exact h
  | set g x =>
    cases op' with
    | set g' x' =>
      show x ∈ (update s.sets g' ((s.sets g').apply x') g).value
      by_cases hg : g = g'
      · subst hg
        rw [update_self, GSet.mem_apply]
        exact .inr h
      · rw [update_of_ne hg]
        exact h
    | map _ _ => exact h
    | reg _ _ => exact h
    | chat _ => exact h
  | chat id =>
    cases op' with
    | chat id' => exact (GList.mem_apply _ _ _).mpr (.inr h)
    | map _ _ => exact h
    | reg _ _ => exact h
    | set _ _ => exact h

theorem Covers.merge_left (h : s.Covers op) (t : CrdtState) : (s.merge t).Covers op := by
  cases op with
  | map f op =>
    cases op with
    | rm c ks => trivial
    | up d k o =>
      show d.counter ≤ ((s.maps f).merge (t.maps f)).clock.get d.actor
      rw [Map.merge_clock_get]
      exact le_max_of_le_left h
  | reg r w =>
    show LwwCell.single w ≤ (s.regs r).merge (t.regs r)
    rw [LwwCell.merge_eq_sup]
    exact le_sup_of_le_left h
  | set g x => exact (GSet.mem_merge _ _ _).mpr (.inl h)
  | chat id => exact (GList.mem_merge _ _ _).mpr (.inl h)

theorem covers_foldl_apply (s : CrdtState) (ops : List CrdtOp) (op : CrdtOp)
    (h : s.Covers op ∨ op ∈ ops) : (ops.foldl CrdtState.apply s).Covers op := by
  induction ops generalizing s with
  | nil => exact h.resolve_right (by simp)
  | cons o ops ih =>
    rw [foldl_cons]
    apply ih
    rcases h with h | h
    · exact .inl (h.apply o)
    · rcases mem_cons.mp h with rfl | h
      · exact .inl (covers_apply_self s op)
      · exact .inr h

end CrdtState

end DessPlay.Core
