/-
  DessPlay.Lib.Machine
  **RUNS OF A STEP FUNCTION, AND THE ONE INDUCTION OVER THEM.**

  A machine is `step : σ → ε → Option σ`: `none` means the event is not enabled
  in that state.  `run` executes a list of events; `Reach` is the states reached
  by runs whose every step meets a condition `ok` on the state BEFORE it and the
  event, `Reach.invariant` the induction over them.

  A loop that visits each element of a list has its own rule, `foldl_visits`: what
  an element's turn brings about, and no later turn undoes, holds of every element.
-/
import Mathlib

namespace Machine

open List

variable {σ ε : Type*}

/-- Execute events in order; `none` as soon as one is not enabled. -/
def run (step : σ → ε → Option σ) : σ → List ε → Option σ
  | s, [] => some s
  | s, e :: es => (step s e).bind fun s' => run step s' es

/-- The states reached from `s₀` by steps that all meet `ok`. -/
inductive Reach (step : σ → ε → Option σ) (ok : σ → ε → Prop) (s₀ : σ) : σ → Prop
  | refl : Reach step ok s₀ s₀
  | step {s s' : σ} {e : ε} (hr : Reach step ok s₀ s) (hok : ok s e)
      (hs : step s e = some s') : Reach step ok s₀ s'

/-- The condition every step meets. -/
def anyStep : σ → ε → Prop := fun _ _ => True

variable {step : σ → ε → Option σ} {ok : σ → ε → Prop} {s₀ s : σ}

/-- **The invariant rule.**  What holds initially and is kept by every guarded
step holds in every state reached. -/
theorem Reach.invariant {Inv : σ → Prop} (h : Reach step ok s₀ s) (h₀ : Inv s₀)
    (hstep : ∀ s e s', Inv s → ok s e → step s e = some s' → Inv s') : Inv s := by
  induction h with
  | refl => exact h₀
  | step _ hok hs ih => exact hstep _ _ _ ih hok hs

theorem Reach.mono {ok' : σ → ε → Prop} (h : Reach step ok s₀ s)
    (himp : ∀ s e, ok s e → ok' s e) : Reach step ok' s₀ s := by
  induction h with
  | refl => exact .refl
  | step _ hok hs ih => exact .step ih (himp _ _ hok) hs

theorem Reach.trans {s₁ s₂ : σ} (h : Reach step ok s₀ s₁) (h' : Reach step ok s₁ s₂) :
    Reach step ok s₀ s₂ := by
  induction h' with
  | refl => exact h
  | step _ hok hs ih => exact .step ih hok hs

theorem reach_of_run (es : List ε) (h : run step s₀ es = some s) : Reach step anyStep s₀ s := by
  induction es generalizing s₀ with
  | nil => cases h; exact .refl
  | cons e es ih =>
    obtain ⟨s₁, hs₁, hrun⟩ := Option.bind_eq_some_iff.mp h
    exact Reach.trans (.step .refl trivial hs₁) (ih hrun)

/-- Execute events, checking a decidable condition before each. -/
def runWith (step : σ → ε → Option σ) (test : σ → ε → Bool) : σ → List ε → Option σ
  | s, [] => some s
  | s, e :: es =>
    if test s e then (step s e).bind fun s' => runWith step test s' es else none

theorem reach_of_runWith {test : σ → ε → Bool} (es : List ε)
    (hok : ∀ s e, test s e = true → ok s e) (h : runWith step test s₀ es = some s) :
    Reach step ok s₀ s := by
  induction es generalizing s₀ with
  | nil => cases h; exact .refl
  | cons e es ih =>
    unfold runWith at h
    split at h
    next htest =>
      obtain ⟨s₁, hs₁, hrun⟩ := Option.bind_eq_some_iff.mp h
      exact Reach.trans (.step .refl (hok _ _ htest) hs₁) (ih hrun)
    · cases h

/-- **The completion rule.**  If every event is enabled in the states met when its turn comes,
the whole list runs. -/
theorem run_completes (Inv : σ → List ε → Prop)
    (hstep : ∀ s e es, Inv s (e :: es) → ∃ s', step s e = some s' ∧ Inv s' es)
    (es : List ε) (s : σ) (h : Inv s es) : ∃ s', run step s es = some s' ∧ Inv s' [] := by
  induction es generalizing s with
  | nil => exact ⟨s, rfl, h⟩
  | cons e es ih =>
    obtain ⟨s₁, hs₁, hinv⟩ := hstep s e es h
    obtain ⟨s', hrun, hend⟩ := ih s₁ hinv
    exact ⟨s', by rw [run, hs₁]; exact hrun, hend⟩

/-- **The loop rule.**  What each turn brings about for its element, and every turn keeps for
all others, holds of every element once the loop is over. -/
theorem foldl_visits {f : σ → ε → σ} (Inv : σ → Prop) (done : σ → ε → Prop)
    (hkeep : ∀ s e, Inv s → Inv (f s e)) (hturn : ∀ s e, Inv s → done (f s e) e)
    (hstable : ∀ s e e', Inv s → done s e' → done (f s e) e') (es : List ε) (h₀ : Inv s₀) :
    Inv (es.foldl f s₀) ∧ ∀ e ∈ es, done (es.foldl f s₀) e := by
  induction es using List.reverseRecOn with
  | nil => exact ⟨h₀, fun e he => absurd he not_mem_nil⟩
  | append_singleton es last ih =>
    rw [foldl_concat]
    refine ⟨hkeep _ _ ih.1, fun e he => ?_⟩
    rcases mem_append.mp he with he | he
    · exact hstable _ _ _ ih.1 (ih.2 e he)
    · cases mem_singleton.mp he
      exact hturn _ _ ih.1

end Machine
