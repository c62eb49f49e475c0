/-
  DessPlay.Crdts.Cut
  **A REPLICA OF A MAP IS A CUT THROUGH THE UPDATES THAT EXIST.**

  Fix the set `L` of updates that were ever issued on a map and the map `m₀`
  everyone started from.  A replica is a CUT when it holds exactly those updates
  of `L` that its clock covers.  Cuts are closed under

    * applying an update that skips none of `L`     (`Cut.apply`),
    * merging with another cut                      (`Cut.merge`),
    * the issue of updates beyond the clock         (`Cut.grow`),

  and any two of them are compatible (`Cut.compat`): merging cuts is the join.
-/
import DessPlay.Crdts.MapJoin

namespace DessPlay.Crdts

open BTree Joins

/-- An update: the payload of `Map.Op.up`. -/
structure Update (K O A : Type) where
  dot : Dot A
  key : K
  op : O
  deriving DecidableEq

variable {K V O A : Type} [LinearOrder K] [LinearOrder A]

def Update.toOp (u : Update K O A) : Map.Op K O A := .up u.dot u.key u.op

namespace Map

section Cuts

variable [SemilatticeSup V] [OrderBot V] [Val V O A] [JoinVal V O A]

/-- The delta of an update. -/
def delta (u : Update K O A) : MapJoin K V A := upDelta u.dot u.key u.op

def Holds (m₀ m : Map K V A) (u : Update K O A) : Prop :=
  m₀.clock.get u.dot.actor < u.dot.counter ∧ u.dot.counter ≤ m.clock.get u.dot.actor

/-- `m` is `m₀` joined with exactly the updates of `L` that its clock covers. -/
structure Cut (L : Set (Update K O A)) (m₀ m : Map K V A) : Prop where
  noDeferred : m.deferred = []
  content : ∃ l : List (Update K O A),
    (∀ u, u ∈ l ↔ u ∈ L ∧ Holds m₀ m u) ∧ m.join = joinAll delta m₀.join l

/-! ## §1. Clocks and entry dots, read off the join. -/

omit [OrderBot V] [Val V O A] [JoinVal V O A] in
theorem get_le_of_join_le {m m' : Map K V A} (h : m.join ≤ m'.join) (a : A) :
    m.clock.get a ≤ m'.clock.get a := by
  have hle : m.clock.seen a ≤ m'.clock.seen a := h.1 a
  rw [VClock.get_eq_unbotD, VClock.get_eq_unbotD]
  cases hx : m.clock.seen a with
  | bot => exact Nat.zero_le _
  | coe n =>
    rw [hx] at hle
    cases hy : m'.clock.seen a with
    | bot => rw [hy] at hle; exact absurd hle (by simp)
    | coe k =>
      rw [hy] at hle
      exact WithBot.coe_le_coe.mp hle

theorem Cut.base_le {L : Set (Update K O A)} {m₀ m : Map K V A} (h : Cut L m₀ m) (a : A) :
    m₀.clock.get a ≤ m.clock.get a := by
  obtain ⟨l, -, hjoin⟩ := h.content
  exact get_le_of_join_le (hjoin ▸ le_joinAll delta m₀.join l) a

def dotAt (k : K) (a : A) (x : MapJoin K V A) : WithBot Nat :=
  ((x.2 k).map Prod.fst).unbotD ⊥ a

omit [LinearOrder K] [LinearOrder A] [OrderBot V] in
theorem dotAt_sup (k : K) (a : A) (x y : MapJoin K V A) :
    dotAt k a (x ⊔ y) = max (dotAt k a x) (dotAt k a y) := by
  show ((x.2 k ⊔ y.2 k).map Prod.fst).unbotD ⊥ a = _
  unfold dotAt
  cases x.2 k with
  | bot => rw [bot_sup_eq]; exact (max_eq_right bot_le).symm
  | coe e =>
    cases y.2 k with
    | bot => rw [sup_bot_eq]; exact (max_eq_left bot_le).symm
    | coe e' => rfl

omit [SemilatticeSup V] [OrderBot V] [Val V O A] [JoinVal V O A] in
theorem dotAt_join (m : Map K V A) (k : K) (a : A) :
    dotAt k a m.join = entryDot m.entries[k]? a := by
  show ((entryJoin m.entries[k]?).map Prod.fst).unbotD ⊥ a = _
  cases m.entries[k]? <;> rfl

theorem dotAt_delta (u : Update K O A) (k : K) (a : A) :
    dotAt k a (delta u : MapJoin K V A) =
      if k = u.key ∧ a = u.dot.actor then WithBot.some u.dot.counter else ⊥ := by
  unfold dotAt delta upDelta
  by_cases hk : k = u.key
  · simp only [hk, if_true, true_and]
    rfl
  · simp only [hk, if_false, false_and]
    rfl

/-! ## §2. Closure of cuts. -/

variable {L : Set (Update K O A)} {m₀ m m' : Map K V A}

theorem Cut.base (h : m₀.deferred = []) : Cut L m₀ m₀ where
  noDeferred := h
  content := ⟨[], fun u => by simp [Holds], rfl⟩

theorem Cut.clock_attained (h : Cut L m₀ m) (a : A) :
    m.clock.get a = m₀.clock.get a ∨ ∃ u ∈ L, u.dot = ⟨a, m.clock.get a⟩ := by
  obtain ⟨l, hl, hjoin⟩ := h.content
  have hbase := h.base_le a
  have hseen : m.clock.seen a = (joinAll delta m₀.join l).1 a := by rw [← hjoin]; rfl
  rcases joinAll_attained delta (fun x : MapJoin K V A => x.1 a) (fun _ _ => rfl) m₀.join l
    with h₀ | ⟨u, hu, hδ⟩
  · left
    rw [VClock.get_eq_unbotD, VClock.get_eq_unbotD, hseen, h₀]
    rfl
  · have hδ' : m.clock.seen a = if a = u.dot.actor then WithBot.some u.dot.counter else ⊥ :=
      hseen.trans hδ
    have hget : m.clock.get a = (m.clock.seen a).unbotD 0 := VClock.get_eq_unbotD _ _
    rw [hδ'] at hget
    by_cases ha : a = u.dot.actor
    · rw [if_pos ha] at hget
      refine .inr ⟨u, ((hl u).mp hu).1, ?_⟩
      rw [hget, ha]
      rfl
    · rw [if_neg ha] at hget
      have hzero : m.clock.get a = 0 := hget
      exact .inl (by omega)

theorem Cut.apply (h : Cut L m₀ m) {u : Update K O A} (hu : u ∈ L)
    (hnext : ∀ v ∈ L, v.dot.actor = u.dot.actor → m.clock.get u.dot.actor < v.dot.counter →
      v.dot.counter ≤ u.dot.counter → v = u) :
    Cut L m₀ (m.apply u.toOp) := by
  by_cases hseen : u.dot.counter ≤ m.clock.get u.dot.actor
  · rw [Update.toOp, apply_seen hseen]; exact h
  · have hnew := not_le.mp hseen
    have hbase := h.base_le u.dot.actor
    obtain ⟨l, hl, hjoin⟩ := h.content
    refine ⟨apply_up_deferred h.noDeferred _ _ _, l ++ [u], fun v => ?_, ?_⟩
    · -- the clock grew at `u`'s actor only, to `u`'s counter
      have hclock : (m.apply u.toOp).clock.get v.dot.actor =
          if v.dot.actor = u.dot.actor then u.dot.counter else m.clock.get v.dot.actor := by
        rw [Update.toOp, apply_new h.noDeferred hnew]
        show (m.clock.apply u.dot).get v.dot.actor = _
        rw [VClock.get_apply]
        split
        next ha => rw [ha]; omega
        · rfl
      rw [List.mem_append, List.mem_singleton, hl, Holds, Holds, hclock]
      constructor
      · rintro (⟨hv, hlo, hhi⟩ | rfl)
        · refine ⟨hv, hlo, ?_⟩
          split
          next ha => rw [ha] at hhi; omega
          · exact hhi
        · exact ⟨hu, by omega, by rw [if_pos rfl]⟩
      · rintro ⟨hv, hlo, hhi⟩
        by_cases ha : v.dot.actor = u.dot.actor
        · rw [if_pos ha] at hhi
          by_cases hcov : v.dot.counter ≤ m.clock.get v.dot.actor
          · exact .inl ⟨hv, hlo, hcov⟩
          · exact .inr (hnext v hv ha (by rw [← ha]; omega) hhi)
        · rw [if_neg ha] at hhi
          exact .inl ⟨hv, hlo, hhi⟩
    · rw [Update.toOp, join_apply_new h.noDeferred hnew, hjoin, joinAll_snoc]
      rfl

theorem Cut.grow {L' : Set (Update K O A)} (h : Cut L m₀ m) (hsub : L ⊆ L')
    (hbeyond : ∀ u ∈ L', u ∉ L → m.clock.get u.dot.actor < u.dot.counter) : Cut L' m₀ m := by
  obtain ⟨l, hl, hjoin⟩ := h.content
  refine ⟨h.noDeferred, l, fun u => ?_, hjoin⟩
  rw [hl]
  constructor
  · exact fun ⟨hu, hh⟩ => ⟨hsub hu, hh⟩
  · rintro ⟨hu, hh⟩
    refine ⟨?_, hh⟩
    by_contra hnot
    have := hbeyond u hu hnot
    exact absurd hh.2 (by omega)

theorem Cut.entryDot_cases (h : Cut L m₀ m) (k : K) (a : A) :
    entryDot m.entries[k]? a = entryDot m₀.entries[k]? a ∨
      ∃ u ∈ L, Holds m₀ m u ∧ u.key = k ∧ u.dot.actor = a ∧
        entryDot m.entries[k]? a = WithBot.some u.dot.counter := by
  obtain ⟨l, hl, hjoin⟩ := h.content
  have hatt := joinAll_attained delta (dotAt k a) (dotAt_sup k a) m₀.join l
  rw [← hjoin, dotAt_join, dotAt_join] at hatt
  rcases hatt with h0 | ⟨u, hu, hdot⟩
  · exact .inl h0
  · rw [dotAt_delta] at hdot
    split at hdot
    next hka => exact .inr ⟨u, ((hl u).mp hu).1, ((hl u).mp hu).2, hka.1.symm, hka.2.symm, hdot⟩
    · left
      have hle : entryDot m₀.entries[k]? a ≤ entryDot m.entries[k]? a := by
        have := le_joinAll delta m₀.join l
        rw [← dotAt_join, ← dotAt_join, hjoin, ← sup_eq_right.mpr this, dotAt_sup]
        exact le_max_left _ _
      rw [hdot] at hle ⊢
      exact (le_bot_iff.mp hle).symm

theorem Cut.le_entryDot (h : Cut L m₀ m) (k : K) (a : A) :
    entryDot m₀.entries[k]? a ≤ entryDot m.entries[k]? a ∧
      ∀ u ∈ L, Holds m₀ m u → u.key = k → u.dot.actor = a →
        WithBot.some u.dot.counter ≤ entryDot m.entries[k]? a := by
  obtain ⟨l, hl, hjoin⟩ := h.content
  have hmono : ∀ x, x ≤ m.join → dotAt k a x ≤ entryDot m.entries[k]? a := by
    intro x hx
    rw [← dotAt_join, ← sup_eq_right.mpr hx, dotAt_sup]
    exact le_max_left _ _
  refine ⟨?_, fun u hu hh hk ha => ?_⟩
  · rw [← dotAt_join]
    exact hmono _ (hjoin ▸ le_joinAll delta m₀.join l)
  · have := hmono (delta u)
      (hjoin ▸ delta_le_joinAll delta m₀.join ((hl u).mpr ⟨hu, hh⟩))
    rwa [dotAt_delta, if_pos ⟨hk.symm, ha.symm⟩] at this

/-- One direction of compatibility: at an actor whose clock on the right is at
least that on the left, the right entry agrees or is beyond the left. -/
theorem Cut.compatAt_of_le (h : Cut L m₀ m) (h' : Cut L m₀ m') (k : K) (a : A)
    (hle : m.clock.get a ≤ m'.clock.get a) :
    CompatAt (m.clock.get a) (m'.clock.get a)
      (entryDot m.entries[k]? a) (entryDot m'.entries[k]? a) := by
  -- everything the left holds, the right holds
  have hxy : entryDot m.entries[k]? a ≤ entryDot m'.entries[k]? a := by
    rcases h.entryDot_cases k a with h0 | ⟨u, hu, hh, hk, ha, hdot⟩
    · rw [h0]; exact (h'.le_entryDot k a).1
    · rw [hdot]
      subst ha
      exact (h'.le_entryDot k _).2 u hu ⟨hh.1, hh.2.trans hle⟩ hk rfl
  rcases h'.entryDot_cases k a with h0 | ⟨u, hu, hh, hk, ha, hdot⟩
  · exact .inl (le_antisymm hxy (h0 ▸ (h.le_entryDot k a).1))
  · subst ha
    by_cases hcov : u.dot.counter ≤ m.clock.get u.dot.actor
    · refine .inl (le_antisymm hxy ?_)
      rw [hdot]
      exact (h.le_entryDot k _).2 u hu ⟨hh.1, hcov⟩ hk rfl
    · refine .inr (.inl ⟨?_, hxy⟩)
      rw [hdot, WithBot.coe_lt_coe]
      omega

/-- **Any two cuts are compatible.** -/
theorem Cut.compat (h : Cut L m₀ m) (h' : Cut L m₀ m') : Compat m m' := by
  intro k a
  rcases le_total (m.clock.get a) (m'.clock.get a) with hle | hle
  · exact h.compatAt_of_le h' k a hle
  · exact (h'.compatAt_of_le h k a hle).symm

/-- **Cuts are closed under merge.** -/
theorem Cut.merge (h : Cut L m₀ m) (h' : Cut L m₀ m') (hw : m.WellFormed)
    (hw' : m'.WellFormed) : Cut L m₀ (Map.merge (O := O) m m') := by
  obtain ⟨l, hl, hjoin⟩ := h.content
  obtain ⟨l', hl', hjoin'⟩ := h'.content
  refine ⟨merge_deferred h.noDeferred h'.noDeferred, l ++ l', fun u => ?_, ?_⟩
  · rw [List.mem_append, hl, hl', Holds, Holds, Holds, merge_clock h.noDeferred h'.noDeferred,
      VClock.get_merge, le_max_iff]
    tauto
  · rw [join_merge hw hw' (h.compat h'), hjoin, hjoin', joinAll_sup]

end Cuts

end Map

end DessPlay.Crdts
