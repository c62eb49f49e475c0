/-
  DessPlay.Player.Drift
  **DRIFT CORRECTIONS ARE DEBOUNCED** (`DriftController::observe` and `reset` in
  `dessplay/src/actors/drift.rs`).

  Every call is logged with its answer, and with whether a correction ran before and after it.
  A counter of the controller is then at most a count over the log, newest reading first.
  Whether a new speed is close to the commanded one is decided in `f64`: here it is an input of
  each sample, and may be anything.
-/
import DessPlay.Player.Actor

namespace DessPlay.Player

open List

namespace DriftController

/-! ## §1. One sample. -/

/-- **Everything a sample can do.** -/
inductive Outcome (d : DriftController) (magnitude : Nat) : DriftController × DriftAction → Prop
  | hardSeek (hm : 3000 < magnitude) (hrun : 2 ≤ d.seekRun) : Outcome d magnitude (new, .hardSeek)
  | beyond {since : Nat} (hm : 3000 < magnitude) (hsince : since ≤ d.sinceCommand + 1) :
      Outcome d magnitude ({ d with seekRun := d.seekRun + 1, sinceCommand := since }, .none)
  | calm {since : Nat} (hidle : d.slew = none) (hm : magnitude < 150)
      (hsince : since ≤ d.sinceCommand + 1) :
      Outcome d magnitude (⟨d.slew, 0, 0, since⟩, .none)
  | engaging {since : Nat} (hidle : d.slew = none) (hm : 150 ≤ magnitude ∧ magnitude ≤ 3000)
      (hsince : since ≤ d.sinceCommand + 1) :
      Outcome d magnitude (⟨d.slew, d.engageRun + 1, 0, since⟩, .none)
  | start {speed : ℚ} (hidle : d.slew = none) (hm : 150 ≤ magnitude ∧ magnitude ≤ 3000)
      (hrun : 2 ≤ d.engageRun) : Outcome d magnitude (⟨some speed, 0, 0, 0⟩, .setSpeed speed)
  | release (hslew : d.slew.isSome) (hm : magnitude < 25) :
      Outcome d magnitude (⟨none, 0, 0, 0⟩, .setSpeed 1)
  | glide {since : Nat} (hslew : d.slew.isSome) (hm : 25 ≤ magnitude ∧ magnitude ≤ 3000)
      (hsince : since ≤ d.sinceCommand + 1) : Outcome d magnitude (⟨d.slew, 0, 0, since⟩, .none)
  | update {speed : ℚ} (hslew : d.slew.isSome) (hm : 25 ≤ magnitude ∧ magnitude ≤ 3000)
      (hsince : 9 ≤ d.sinceCommand) : Outcome d magnitude (⟨some speed, 0, 0, 0⟩, .setSpeed speed)

attribute [local simp] driftHardSeekMillis driftEngageMillis driftReleaseMillis engageRunLength
  slewRecommandSamples

theorem outcome_observeIf (close : Bool) (d : DriftController) (deltaMillis : Int) :
    Outcome d deltaMillis.natAbs (d.observeIf close deltaMillis) := by
  have hsince : min (d.sinceCommand + 1) (2 ^ 32 - 1) ≤ d.sinceCommand + 1 := min_le_left _ _
  generalize hm : deltaMillis.natAbs = m
  by_cases hbeyond : 3000 < m
  · by_cases hrun : 2 ≤ d.seekRun
    · have houtcome := Outcome.hardSeek hbeyond hrun
      simpa [observeIf, hm, hbeyond, hrun] using houtcome
    · have houtcome := Outcome.beyond (d := d) hbeyond hsince
      simpa [observeIf, hm, hbeyond, hrun] using houtcome
  cases hslew : d.slew with
  | none =>
    by_cases hcalm : m < 150
    · have houtcome := Outcome.calm hslew hcalm hsince
      simpa [observeIf, hm, hbeyond, hslew, hcalm] using houtcome
    have hband : 150 ≤ m ∧ m ≤ 3000 := by omega
    by_cases hrun : d.engageRun + 1 < 3
    · have houtcome := Outcome.engaging hslew hband hsince
      simpa [observeIf, hm, hbeyond, hslew, hcalm, hrun] using houtcome
    · have houtcome := @Outcome.start d m (slewFor deltaMillis) hslew hband (by omega)
      simpa [observeIf, correctIf, hm, hbeyond, hslew, hcalm, hrun, show ¬ m < 25 by omega]
        using houtcome
  | some current =>
    have hsome : d.slew.isSome := by rw [hslew]; rfl
    by_cases hrelease : m < 25
    · have houtcome := Outcome.release hsome hrelease
      simpa [observeIf, hm, hbeyond, hslew, hrelease] using houtcome
    have hband : 25 ≤ m ∧ m ≤ 3000 := by omega
    by_cases hkeep : close = true ∨ d.sinceCommand + 1 < 10
    · have houtcome := Outcome.glide hsome hband hsince
      simpa [observeIf, correctIf, hm, hbeyond, hslew, hrelease, hkeep] using houtcome
    · have houtcome := @Outcome.update d m (slewFor deltaMillis) hsome hband (by omega)
      simpa [observeIf, correctIf, hm, hbeyond, hslew, hrelease, hkeep] using houtcome

end DriftController

/-! ## §2. The log. -/

inductive Feed where
  | sample (deltaMillis : Int) (close : Bool)
  | reset

/-- One call: the magnitude of the sample (`none` for a reset), the answer, and whether a
correction ran before and after. -/
structure Reading where
  magnitude : Option Nat
  action : DriftAction
  was : Bool
  is : Bool

namespace Reading

def isSample (r : Reading) : Bool := r.magnitude.isSome

def isBeyond (r : Reading) : Bool := r.magnitude.any (3000 < ·)

def isEngaging (r : Reading) : Bool := r.magnitude.any fun m => 150 ≤ m ∧ m ≤ 3000

def clears (r : Reading) : Bool := r.magnitude.all (· < 150) || (r.was && !r.is)

def commands (r : Reading) : Bool :=
  r.is && match r.action with
    | .setSpeed _ => true
    | _ => false

end Reading

/-- What the answer `r` says about the readings before it. -/
structure Debounced (r : Reading) (past : List Reading) : Prop where
  /-- a hard seek is the third of three samples beyond the threshold, none answered before -/
  hardSeek : r.action = .hardSeek → r.isBeyond ∧
    ∃ r₁ r₂ rest, past = r₁ :: r₂ :: rest ∧ ∀ x ∈ [r₁, r₂], x.isBeyond ∧ x.action = .none
  start : r.was = false → r.is = true →
    3 ≤ ((r :: past).takeWhile (!·.clears)).countP (·.isEngaging)
  finish : r.was = true → r.is = false →
    r.magnitude.any (· < 25) ∨ r.action = .hardSeek ∨ r.magnitude = none
  apart : ∀ between first rest, past = between ++ first :: rest → r.commands → first.commands →
    (∀ x ∈ r :: between, x.was) → 10 ≤ (r :: between).countP (·.isSample)

def AllDebounced : List Reading → Prop
  | [] => True
  | r :: past => Debounced r past ∧ AllDebounced past

structure Monitor where
  controller : DriftController
  log : List Reading

namespace Monitor

def start : Monitor := ⟨.new, []⟩

def feed (s : Monitor) : Feed → Monitor
  | .sample deltaMillis close =>
    let (d, action) := s.controller.observeIf close deltaMillis
    ⟨d, ⟨some deltaMillis.natAbs, action, s.controller.slew.isSome, d.slew.isSome⟩ :: s.log⟩
  | .reset => ⟨.new, ⟨none, .none, s.controller.slew.isSome, false⟩ :: s.log⟩

/-- The counters of the controller, as the log has them. -/
structure Counted (s : Monitor) : Prop where
  seekRun : s.controller.seekRun ≤
    (s.log.takeWhile fun r => r.isBeyond ∧ r.action = .none).length
  engageRun : s.controller.engageRun ≤
    (s.log.takeWhile (!·.clears)).countP (·.isEngaging)
  sinceCommand : ∀ between first rest, s.log = between ++ first :: rest → first.commands →
    s.controller.sinceCommand ≤ between.countP (·.isSample)

variable {s : Monitor} {d : DriftController} {r : Reading}

theorem Counted.log (h : s.Counted) (hseek : d.seekRun = 0 ∨
      r.isBeyond = true ∧ r.action = .none ∧ d.seekRun = s.controller.seekRun + 1)
    (hengage : d.engageRun = 0 ∨ r.clears = false ∧
      (d.engageRun = s.controller.engageRun ∨
        r.isEngaging = true ∧ d.engageRun = s.controller.engageRun + 1))
    (hsince : d.sinceCommand = 0 ∨ r.commands = false ∧ r.isSample = true ∧
      d.sinceCommand ≤ s.controller.sinceCommand + 1) :
    Counted ⟨d, r :: s.log⟩ where
  seekRun := by
    rcases hseek with hzero | ⟨hbeyond, hnone, hrun⟩
    · simp [hzero]
    · simpa [hbeyond, hnone, hrun] using h.seekRun
  engageRun := by
    have hold := h.engageRun
    rcases hengage with hzero | ⟨hclears, hrun | ⟨hengaging, hrun⟩⟩
    · simp [hzero]
    · simp only [takeWhile_cons, hclears, Bool.not_false, if_true, countP_cons]
      omega
    · simp only [takeWhile_cons, hclears, Bool.not_false, if_true, countP_cons,
        hengaging]
      omega
  sinceCommand := by
    intro between first rest hlog hfirst
    rcases hsince with hzero | ⟨hcommands, hsample, hle⟩
    · simp [hzero]
    · cases between with
      | nil =>
        rw [← (List.cons.inj hlog).1, hcommands] at hfirst
        cases hfirst
      | cons x between =>
        have hold := h.sinceCommand between first rest (List.cons.inj hlog).2 hfirst
        rw [← (List.cons.inj hlog).1]
        simp only [countP_cons, hsample, if_true]
        omega

theorem Counted.lastTwo (h : s.Counted) (hrun : 2 ≤ s.controller.seekRun) :
    ∃ r₁ r₂ rest, s.log = r₁ :: r₂ :: rest ∧ ∀ x ∈ [r₁, r₂], x.isBeyond ∧ x.action = .none := by
  have hlen := hrun.trans h.seekRun
  match hwhile : s.log.takeWhile fun r => r.isBeyond ∧ r.action = .none with
  | [] | [_] =>
    rw [hwhile] at hlen
    simp at hlen
  | r₁ :: r₂ :: rest =>
    refine ⟨r₁, r₂, rest ++ s.log.dropWhile fun r => r.isBeyond ∧ r.action = .none, ?_, ?_⟩
    · rw [← cons_append, ← cons_append, ← hwhile, takeWhile_append_dropWhile]
    · intro x hx
      have hmem : x ∈ r₁ :: r₂ :: rest := mem_append_left rest hx
      rw [← hwhile] at hmem
      have hholds := mem_takeWhile_imp hmem
      exact of_decide_eq_true hholds

theorem debounced_of_none (haction : r.action = .none) (his : r.is = r.was) (past : List Reading) :
    Debounced r past where
  hardSeek := fun h => by cases haction.symm.trans h
  start := fun hwas h => by cases h.symm.trans (his.trans hwas)
  finish := fun hwas h => by cases h.symm.trans (his.trans hwas)
  apart := fun _ _ _ _ h => by simp [Reading.commands, haction] at h

/-- **One call.** -/
theorem Counted.feed (h : s.Counted) (f : Feed) :
    Counted (s.feed f) ∧ ∃ r, (s.feed f).log = r :: s.log ∧ Debounced r s.log := by
  cases f with
  | reset =>
    refine ⟨h.log (.inl rfl) (.inl rfl) (.inl rfl), _, rfl, ?_⟩
    exact ⟨nofun, nofun, fun _ _ => .inr (.inr rfl), fun _ _ _ _ => nofun⟩
  | sample deltaMillis close =>
    have houtcome := DriftController.outcome_observeIf close s.controller deltaMillis
    simp only [Monitor.feed]
    generalize s.controller.observeIf close deltaMillis = answer at houtcome ⊢
    generalize deltaMillis.natAbs = m at houtcome ⊢
    cases houtcome with
    | hardSeek hm hrun =>
      refine ⟨h.log (.inl rfl) (.inl rfl) (.inl rfl), _, rfl, ?_⟩
      exact ⟨fun _ => ⟨by simpa [Reading.isBeyond] using hm, h.lastTwo hrun⟩, nofun,
        fun _ _ => .inr (.inl rfl), fun _ _ _ _ => nofun⟩
    | beyond hm hsince =>
      refine ⟨h.log (.inr ⟨?_, rfl, rfl⟩) (.inr ⟨?_, .inl rfl⟩) (.inr ⟨?_, rfl, hsince⟩), _, rfl,
        debounced_of_none rfl rfl _⟩
      · simpa [Reading.isBeyond] using hm
      · simp only [Reading.clears, Option.all_some, Bool.and_not_self, Bool.or_false]
        exact decide_eq_false (by omega)
      · simp [Reading.commands]
    | calm hidle hm hsince =>
      exact ⟨h.log (.inl rfl) (.inl rfl) (.inr ⟨by simp [Reading.commands], rfl, hsince⟩), _, rfl,
        debounced_of_none rfl rfl _⟩
    | engaging hidle hm hsince =>
      refine ⟨h.log (.inl rfl) (.inr ⟨?_, .inr ⟨?_, rfl⟩⟩)
        (.inr ⟨by simp [Reading.commands], rfl, hsince⟩), _, rfl, debounced_of_none rfl rfl _⟩
      · simp only [Reading.clears, Option.all_some, Bool.and_not_self, Bool.or_false]
        exact decide_eq_false (by omega)
      · simpa [Reading.isEngaging] using hm
    | start hidle hm hrun =>
      refine ⟨h.log (.inl rfl) (.inl rfl) (.inl rfl), _, rfl, nofun, fun _ _ => ?_, nofun,
        fun _ _ _ _ _ _ hwas => ?_⟩
      · -- the sample itself is the third
        have hcount := h.engageRun
        rw [takeWhile_cons_of_pos, countP_cons_of_pos]
        · omega
        · simpa [Reading.isEngaging] using hm
        · simpa [Reading.clears] using hm.1
      · have := hwas _ mem_cons_self
        simp [hidle] at this
    | release hslew hm =>
      refine ⟨h.log (.inl rfl) (.inl rfl) (.inl rfl), _, rfl, nofun, nofun, fun _ _ => .inl ?_,
        fun _ _ _ _ => nofun⟩
      simpa using hm
    | glide hslew hm hsince =>
      exact ⟨h.log (.inl rfl) (.inl rfl) (.inr ⟨by simp [Reading.commands], rfl, hsince⟩), _, rfl,
        debounced_of_none rfl rfl _⟩
    | update hslew hm hsince =>
      refine ⟨h.log (.inl rfl) (.inl rfl) (.inl rfl), _, rfl, nofun,
        fun hwas => ?_, nofun, fun between first rest hlog _ hfirst _ => ?_⟩
      · cases hslew.symm.trans hwas
      · have hcount := h.sinceCommand between first rest hlog hfirst
        rw [countP_cons_of_pos rfl]
        omega

end Monitor

/-- **Drift corrections are debounced**, whatever the samples, the resets and the comparisons. -/
theorem corrections_debounced (feeds : List Feed) :
    AllDebounced (feeds.foldl Monitor.feed .start).log := by
  suffices h : (feeds.foldl Monitor.feed .start).Counted ∧
      AllDebounced (feeds.foldl Monitor.feed .start).log from h.2
  induction feeds using List.reverseRecOn with
  | nil => exact ⟨⟨Nat.le_refl _, Nat.le_refl _, fun _ _ _ _ _ => Nat.zero_le _⟩, trivial⟩
  | append_singleton feeds f ih =>
    rw [foldl_concat]
    obtain ⟨hcounted, r, hlog, hr⟩ := ih.1.feed f
    exact ⟨hcounted, hlog ▸ ⟨hr, ih.2⟩⟩

end DessPlay.Player
