/-
  DessPlay.Core.Broadcast
  **APPLYING OPS THAT ARRIVE TWICE** (`dessplay-core/src/state.rs`).

  Every ordinary op is sent on the reliable stream and as a datagram.  A map op
  from a datagram is applied only when its dot is the NEXT one of its origin
  (`applyIfOrderly`); the reliable copy applies in any case and reports whether
  the dot was new (`applyMapReliable`).  The server decides with
  `applyForBroadcast` whether a copy is fanned out.
-/
import DessPlay.Core.State

namespace DessPlay.Core

open Crdts

/-- The op's dot is `clock[actor] + 1` on this map. -/
def nextInSequence {K V : Type} [LinearOrder K] (m : LwwMap K V) : LwwMapOp K V → Bool
  | .up dot _ _ => m.clock.get dot.actor + 1 == dot.counter
  | .rm _ _ => false

def advances {K V : Type} [LinearOrder K] (m : LwwMap K V) : LwwMapOp K V → Bool
  | .up dot _ _ => m.clock.get dot.actor < dot.counter
  | .rm _ _ => false

def registerChanged {V : Type} [LinearOrder V] (c : LwwCell V) (op : Lww V) : LwwCell V × Bool :=
  (c.apply op, (c.apply op).read != c.read)

def gsetChanged {T : Type} [LinearOrder T] (s : GSet T) (x : T) : GSet T × Bool :=
  if s.contains x then (s, false) else (s.apply x, true)

def glistChanged {T : Type} [LinearOrder T] (l : GList T) (id : Identifier T) : GList T × Bool :=
  (l.apply id, (l.apply id).len != l.len)

namespace CrdtState

/-- Apply an op RECEIVED VIA DATAGRAM; the verdict says whether it was applied. -/
def applyIfOrderly (s : CrdtState) : CrdtOp → CrdtState × Bool
  | .map f op => if nextInSequence (s.maps f) op then (s.apply (.map f op), true) else (s, false)
  | op => (s.apply op, true)

/-- Apply a map op from the RELIABLE stream; the verdict says whether it
advanced its origin's clock. -/
def applyMapReliable (s : CrdtState) : CrdtOp → CrdtState × Bool
  | .map f op => (s.apply (.map f op), advances (s.maps f) op)
  | op => (s.apply op, true)

/-- Apply an op the server received from a client; the verdict says whether this
copy is fanned out to the other peers. -/
def applyForBroadcast (s : CrdtState) (op : CrdtOp) (viaDatagram : Bool) : CrdtState × Bool :=
  match op with
  | .reg r op =>
    let changed := registerChanged (s.regs r) op
    ({ s with regs := Function.update s.regs r changed.1 }, changed.2)
  | .set g x =>
    let changed := gsetChanged (s.sets g) x
    ({ s with sets := Function.update s.sets g changed.1 }, changed.2)
  | .chat id =>
    let changed := glistChanged s.chat id
    ({ s with chat := changed.1 }, changed.2)
  | .map f op =>
    if viaDatagram then s.applyIfOrderly (.map f op) else s.applyMapReliable (.map f op)

/-! ## What the verdicts say. -/

theorem applyIfOrderly_spec (s : CrdtState) (op : CrdtOp) :
    ((s.applyIfOrderly op).2 = true ∧ (s.applyIfOrderly op).1 = s.apply op) ∨
      ((s.applyIfOrderly op).2 = false ∧ (s.applyIfOrderly op).1 = s) := by
  cases op with
  | map f op =>
    by_cases hnext : nextInSequence (s.maps f) op = true
    · exact .inl (by simp only [applyIfOrderly, hnext, if_true, and_self])
    · exact .inr (by simp only [applyIfOrderly, if_neg hnext, and_self])
  | reg r w => exact .inl ⟨rfl, rfl⟩
  | set g x => exact .inl ⟨rfl, rfl⟩
  | chat id => exact .inl ⟨rfl, rfl⟩

end CrdtState

theorem registerChanged_spec {V : Type} [LinearOrder V] (c : LwwCell V) (w : Lww V) :
    registerChanged c w = (c.apply w, !decide (LwwCell.single w ≤ c)) := by
  unfold registerChanged
  rw [LwwCell.apply_eq_sup]
  by_cases h : LwwCell.single w ≤ c
  · simp [h]
  · have hne : (c ⊔ LwwCell.single w).current ≠ c.current := by
      intro heq
      have : c ⊔ LwwCell.single w = c := by
        cases hc : c ⊔ LwwCell.single w
        cases c
        simp_all
      exact h (sup_eq_left.mp this)
    simp [LwwCell.read, hne, h]

theorem gsetChanged_spec {T : Type} [LinearOrder T] (s : GSet T) (x : T) :
    gsetChanged s x = (s.apply x, !s.contains x) := by
  unfold gsetChanged
  by_cases h : s.contains x = true
  · have hmem := (GSet.contains_iff s x).mp h
    have hsame : s.apply x = s := GSet.ext_value fun y => by
      rw [GSet.mem_apply]
      exact ⟨fun hy => hy.elim (fun hyx => hyx ▸ hmem) id, .inr⟩
    simp [h, hsame]
  · simp [h]

theorem glistChanged_spec {T : Type} [LinearOrder T] (l : GList T) (id : Identifier T) :
    glistChanged l id = (l.apply id, !l.list.contains id) := by
  unfold glistChanged
  rw [GList.len_apply]
  by_cases h : l.list.contains id = true <;> simp [h]

namespace CrdtState

theorem applyForBroadcast_state (s : CrdtState) (op : CrdtOp) (via : Bool) :
    (s.applyForBroadcast op via).1 = if via then (s.applyIfOrderly op).1 else s.apply op := by
  cases op with
  | map f op => cases via <;> rfl
  | reg r w => cases via <;> rfl
  | set g x =>
    have h : (s.applyForBroadcast (.set g x) via).1 = s.apply (.set g x) := by
      simp only [applyForBroadcast, gsetChanged_spec, apply]
    rw [h]
    cases via <;> rfl
  | chat id => cases via <;> rfl

theorem applyForBroadcast_cases (s : CrdtState) (op : CrdtOp) (via : Bool) :
    (s.applyForBroadcast op via).1 = s.apply op ∨ (s.applyForBroadcast op via).1 = s := by
  rw [applyForBroadcast_state]
  split
  · exact (applyIfOrderly_spec s op).imp And.right And.right
  · exact .inl rfl

theorem applyForBroadcast_news {s : CrdtState} {op : CrdtOp} {via : Bool}
    (h : (s.applyForBroadcast op via).2 = true) : (s.applyForBroadcast op via).1 = s.apply op := by
  rw [applyForBroadcast_state]
  cases via with
  | false => rfl
  | true =>
    rcases applyIfOrderly_spec s op with ⟨-, heq⟩ | ⟨hno, -⟩
    · exact heq
    · cases op with
      | map f op =>
        have hyes : (s.applyIfOrderly (.map f op)).2 = true := h
        rw [hno] at hyes
        cases hyes
      | reg r w => rfl
      | set g x => rfl
      | chat id => rfl

end CrdtState

end DessPlay.Core
