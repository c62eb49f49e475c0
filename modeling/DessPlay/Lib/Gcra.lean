/-
  DessPlay.Lib.Gcra
  **A BUDGET KEPT AS ONE MOMENT IN TIME.**

  A budget of `burst` units that refills at one per `refill` can be kept as the
  single moment at which it will be full again (the generic cell rate algorithm's
  "theoretical arrival time").  Spending a unit moves that moment; a spend is
  admitted while the moment is not too far ahead.

  What the moment says about the spends that led to it is two inequalities:

      add_count_mul_le  — every spend since `s` moved it by a whole `refill`
      le_add_count_mul  — only the last `burst · refill` of time still count
-/
import Mathlib.Data.List.Induction
import Mathlib.Algebra.Order.Group.Nat
import Mathlib.Tactic.Ring

namespace Gcra

open List

variable (refill burst : Nat)

/-- The moment after a unit is spent at `now`. -/
def spend (full now : Nat) : Nat :=
  now + (full - now) + refill

/-- The moment after spends at these times, of a budget that was full. -/
def spendAll (times : List Nat) : Nat :=
  times.foldl (spend refill) 0

/-- A spend at `now` is refused. -/
def Refused (full now : Nat) : Prop :=
  refill * burst < full - now + refill

instance (full now : Nat) : Decidable (Refused refill burst full now) :=
  inferInstanceAs (Decidable (_ < _))

/-- Spends, oldest first, each of which was admitted when it was made. -/
inductive Admitted : List Nat → Prop
  | nil : Admitted []
  | snoc {times : List Nat} {now : Nat} (past : Admitted times)
      (admitted : ¬ Refused refill burst (spendAll refill times) now) : Admitted (times ++ [now])

variable {refill burst}

theorem spend_eq_max (full now : Nat) : spend refill full now = max full now + refill := by
  unfold spend
  omega

theorem spendAll_snoc (times : List Nat) (now : Nat) :
    spendAll refill (times ++ [now]) = max (spendAll refill times) now + refill := by
  unfold spendAll
  rw [foldl_append, foldl_cons, foldl_nil, spend_eq_max]

variable {full full' now : Nat}

/-- Budgets that differ only in the past of `now` differ in nothing at `now`. -/
theorem refused_congr (h : max now full = max now full') :
    Refused refill burst full now ↔ Refused refill burst full' now := by
  unfold Refused
  omega

theorem spend_congr (h : max now full = max now full') :
    spend refill full now = spend refill full' now := by
  rw [spend_eq_max, spend_eq_max]
  omega

theorem countP_snoc (p : Nat → Bool) (times : List Nat) (now : Nat) :
    (times ++ [now]).countP p = times.countP p + if p now then 1 else 0 := by
  rw [countP_append, countP_singleton]

/-- Every spend since `s` moved the moment by a whole `refill`. -/
theorem add_count_mul_le (s : Nat) (times : List Nat) :
    s + times.countP (fun u => s ≤ u) * refill ≤ max s (spendAll refill times) := by
  induction times using List.reverseRecOn with
  | nil => simp
  | append_singleton times now ih =>
    rw [countP_snoc, spendAll_snoc]
    by_cases hs : s ≤ now
    · rw [if_pos (decide_eq_true hs)]
      have hmul : (times.countP (fun u => s ≤ u) + 1) * refill
          = times.countP (fun u => s ≤ u) * refill + refill := by ring
      omega
    · rw [if_neg fun h => hs (of_decide_eq_true h), add_zero]
      omega

/-- Spends older than `burst · refill` have left no trace at `now`. -/
theorem le_add_count_mul {times : List Nat} (hadm : Admitted refill burst times)
    (hpast : ∀ u ∈ times, u ≤ now) :
    spendAll refill times
      ≤ now + times.countP (fun u => now < u + burst * refill) * refill := by
  induction hadm with
  | nil => exact Nat.zero_le _
  | @snoc times u past admitted ih =>
    have ih := ih fun v hv => hpast v (mem_append_left _ hv)
    have hu : u ≤ now := hpast u (mem_append_right _ (mem_singleton_self u))
    rw [countP_snoc, spendAll_snoc]
    by_cases hrecent : now < u + burst * refill
    · rw [if_pos (decide_eq_true hrecent)]
      have hmul : (times.countP (fun u => now < u + burst * refill) + 1) * refill
          = times.countP (fun u => now < u + burst * refill) * refill + refill := by ring
      omega
    · -- An admitted spend leaves the moment at most `burst · refill` ahead of it.
      have hcomm : refill * burst = burst * refill := mul_comm _ _
      unfold Refused at admitted
      omega

/-- **At most** `burst` plus one per `refill` in any window. -/
theorem count_window_le {times : List Nat} (hadm : Admitted refill burst times)
    (hrefill : 0 < refill) (hburst : 0 < burst) {s t : Nat} (hst : s ≤ t) :
    times.countP (fun u => s ≤ u ∧ u ≤ t) ≤ burst + (t - s) / refill := by
  induction hadm with
  | nil => exact Nat.zero_le _
  | @snoc times u past admitted ih =>
    rw [countP_snoc]
    by_cases hu : s ≤ u ∧ u ≤ t
    · rw [if_pos (decide_eq_true hu)]
      have hfewer : times.countP (fun u => s ≤ u ∧ u ≤ t) ≤ times.countP (fun u => s ≤ u) :=
        countP_mono_left fun v _ hv => by simp_all
      have hmoved : s + times.countP (fun u => s ≤ u) * refill ≤ max s (spendAll refill times) :=
        add_count_mul_le s times
      have hone : refill ≤ refill * burst := Nat.le_mul_of_pos_right _ hburst
      unfold Refused at admitted
      -- The spend at `u` was admitted, so the moment is not beyond `t + burst · refill`.
      have hmul : (times.countP (fun u => s ≤ u) + 1) * refill
          ≤ (t - s) + burst * refill := by
        have hcomm : refill * burst = burst * refill := Nat.mul_comm _ _
        have hsucc : (times.countP (fun u => s ≤ u) + 1) * refill
            = times.countP (fun u => s ≤ u) * refill + refill := by ring
        omega
      have hdiv := (Nat.le_div_iff_mul_le hrefill).mpr hmul
      rw [Nat.add_mul_div_right _ _ hrefill] at hdiv
      omega
    · rw [if_neg fun h => hu (of_decide_eq_true h), Nat.add_zero]
      exact ih

/-- **Only after** `burst` recent spends is another one refused. -/
theorem burst_le_of_refused {times : List Nat} (hadm : Admitted refill burst times)
    (hpast : ∀ u ∈ times, u ≤ now) (h : Refused refill burst (spendAll refill times) now) :
    burst ≤ times.countP (fun u => now < u + burst * refill) := by
  have hle := le_add_count_mul hadm hpast
  unfold Refused at h
  have hlt : burst * refill
      < (times.countP (fun u => now < u + burst * refill) + 1) * refill := by
    have hcomm : refill * burst = burst * refill := Nat.mul_comm _ _
    have hsucc : (times.countP (fun u => now < u + burst * refill) + 1) * refill
        = times.countP (fun u => now < u + burst * refill) * refill + refill := by ring
    omega
  exact Nat.le_of_lt_succ (Nat.lt_of_mul_lt_mul_right hlt)

end Gcra
