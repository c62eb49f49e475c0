/-
  DessPlay.Crdts.MapJoin
  **A PUT-ONLY MAP IS THE JOIN OF THE UPDATES IT HAS SEEN.**

  When the nested CRDT is a join (its ops and merges are `⊔`, a reset does
  nothing), a map without pending removals is determined by three growing
  things: the dots of its clock, the dots of each entry's clock, and each
  entry's value.  `Map.join` reads them off as an element of ONE semilattice:

    * a NEW update adds its delta:        `join_apply_new`;
    * a merge of COMPATIBLE maps is `⊔`:  `join_merge`;
    * nothing else is in the map:         `join_injective`.

  `Compat` is the price of the middle one: presence is decided by clocks, so the two
  sides must agree on every dot that both clocks cover.
-/
import DessPlay.Crdts.Map
import DessPlay.Lib.Joins

namespace DessPlay.Crdts

open BTree Joins Option

/-! ## §1. The dots of a clock, as an element of a lattice. -/

abbrev Seen (A : Type) : Type := A → WithBot Nat

section Clock

variable {A : Type} [LinearOrder A]

namespace VClock

def seen (c : VClock A) : Seen A := fun a => ofOption c.dots[a]?

def Pos (c : VClock A) : Prop := ∀ a : A, c.dots[a]? ≠ some 0

theorem seen_injective {c c' : VClock A} (h : c.seen = c'.seen) : c = c' :=
  ext_dots fun a => ofOption_injective (congrFun h a)

theorem seen_new : (new : VClock A).seen = ⊥ := by
  funext a
  simp only [seen, dots_new, ofOption_none, Pi.bot_apply]

theorem get_eq_unbotD (c : VClock A) (a : A) : c.get a = (c.seen a).unbotD 0 := by
  rw [get_eq, seen]
  cases c.dots[a]? <;> rfl

theorem seen_eq_coe_get {c : VClock A} {a : A} (h : c.seen a ≠ ⊥) :
    c.seen a = WithBot.some (c.get a) := by
  rw [get_eq, seen] at *
  cases hd : c.dots[a]? with
  | none => rw [hd] at h; exact absurd rfl h
  | some n => rfl

end VClock

def dotSeen (d : Dot A) : Seen A := fun a =>
  if a = d.actor then WithBot.some d.counter else ⊥

namespace VClock

theorem seen_apply (c : VClock A) {d : Dot A} (hd : 0 < d.counter) :
    (c.apply d).seen = c.seen ⊔ dotSeen d := by
  funext a
  simp only [seen, dots_apply, Pi.sup_apply, dotSeen]
  by_cases ha : a = d.actor
  · rw [if_pos ha, if_pos ha]
    cases hc : c.dots[a]? with
    | none =>
      rw [get_of_dots_none hc, if_pos hd, ofOption_none, bot_sup_eq, ofOption_some]
    | some n =>
      rw [get_of_dots hc]
      by_cases hlt : n < d.counter
      · rw [if_pos hlt, ofOption_some, ofOption_some]
        exact (sup_eq_right.mpr (WithBot.coe_le_coe.mpr hlt.le)).symm
      · rw [if_neg hlt, ofOption_some]
        exact (sup_eq_left.mpr (WithBot.coe_le_coe.mpr (not_lt.mp hlt))).symm
  · rw [if_neg ha, if_neg ha, sup_bot_eq]

variable {other c l : VClock A}

theorem seen_merge (c : VClock A) (ho : other.Pos) :
    (c.merge other).seen = c.seen ⊔ other.seen := by
  funext a
  simp only [seen, dots_merge, Pi.sup_apply]
  cases hother : other.dots[a]? with
  | none => rw [elim_none, ofOption_none, sup_bot_eq]
  | some n =>
    have hn : 0 < n := pos_of_ne_zero fun h0 => ho a (by rw [hother, h0])
    rw [elim_some]
    cases hc : c.dots[a]? with
    | none =>
      rw [get_of_dots_none hc, if_pos hn, ofOption_none, bot_sup_eq]
    | some k =>
      rw [get_of_dots hc]
      by_cases hlt : k < n
      · rw [if_pos hlt, ofOption_some, ofOption_some]
        exact (sup_eq_right.mpr (WithBot.coe_le_coe.mpr hlt.le)).symm
      · rw [if_neg hlt, ofOption_some, ofOption_some]
        exact (sup_eq_left.mpr (WithBot.coe_le_coe.mpr (not_lt.mp hlt))).symm

theorem seen_resetRemove (hc : c.Pos) (other : VClock A) (a : A) :
    (c.resetRemove other).seen a = if c.get a ≤ other.get a then ⊥ else c.seen a := by
  simp only [seen, dots_resetRemove]
  cases ho : other.dots[a]? with
  | none =>
    rw [elim_none, get_of_dots_none ho]
    cases hd : c.dots[a]? with
    | none => rw [ofOption_none, ite_self]
    | some n =>
      have hn : n ≠ 0 := fun h0 => hc a (by rw [hd, h0])
      rw [get_of_dots hd, if_neg (by omega)]
  | some n =>
    rw [elim_some, get_of_dots ho]
    by_cases hle : c.get a ≤ n
    · rw [if_pos hle, if_pos hle, ofOption_none]
    · rw [if_neg hle, if_neg hle]

private theorem ofOption_filter_getD {x : Option Nat} (hx : x ≠ some 0) (y : Option Nat) :
    ofOption (x.filter fun n => y.getD 0 == n) =
      if ofOption x = ofOption y then ofOption x else ⊥ := by
  cases x with
  | none => split <;> rfl
  | some n =>
    have hn : n ≠ 0 := fun h0 => hx (by rw [h0])
    cases y with
    | none => simp [Option.filter, hn.symm]
    | some k =>
      by_cases h : k = n
      · simp [Option.filter, h]
      · have h' : ¬ n = k := fun he => h he.symm
        simp [Option.filter, h, h']

theorem seen_intersection (hl : l.Pos) (r : VClock A) (a : A) :
    (intersection l r).seen a = if l.seen a = r.seen a then l.seen a else ⊥ := by
  simp only [seen, dots_intersection, get_eq]
  exact ofOption_filter_getD (hl a) _

theorem isEmpty_iff_seen (c : VClock A) : c.isEmpty = true ↔ c.seen = ⊥ := by
  rw [isEmpty_iff]
  constructor
  · intro h
    funext a
    simp only [seen, h a, ofOption_none, Pi.bot_apply]
  · intro h a
    exact ofOption_injective (congrFun h a)

theorem Pos.new : (VClock.new : VClock A).Pos := fun a => by rw [dots_new]; simp

theorem Pos.apply (hc : c.Pos) {d : Dot A} (hd : 0 < d.counter) : (c.apply d).Pos := by
  intro a
  rw [dots_apply]
  split_ifs with h1 h2
  · simp only [ne_eq, some.injEq]; omega
  · exact hc a
  · exact hc a

theorem Pos.merge (hc : c.Pos) (ho : other.Pos) : (c.merge other).Pos := by
  intro a
  rw [dots_merge]
  cases hother : other.dots[a]? with
  | none => exact hc a
  | some n =>
    rw [elim_some]
    split_ifs
    · exact hother ▸ ho a
    · exact hc a

theorem Pos.resetRemove (hc : c.Pos) (other : VClock A) : (c.resetRemove other).Pos := by
  intro a
  rw [dots_resetRemove]
  cases other.dots[a]? with
  | none => exact hc a
  | some n =>
    rw [elim_some]
    split_ifs
    · simp
    · exact hc a

theorem Pos.intersection (hl : l.Pos) (r : VClock A) : (VClock.intersection l r).Pos := by
  intro a h
  rw [dots_intersection, filter_eq_some_iff] at h
  exact hl a h.1

end VClock

end Clock

/-! ## §2. The lattice of a map. -/

/-- The nested CRDT is a join: applying an op and merging are `⊔`, a reset does
nothing, and the default is least. -/
class JoinVal (V : Type) (O : outParam Type) (A : Type) [LinearOrder A]
    [SemilatticeSup V] [OrderBot V] [Val V O A] where
  lift : O → V
  default_eq : (Val.default A : V) = ⊥
  apply_eq : ∀ (v : V) (o : O), Val.apply A v o = v ⊔ lift o
  merge_eq : ∀ v w : V, Val.merge A v w = v ⊔ w
  resetRemove_eq : ∀ (v : V) (c : VClock A), Val.resetRemove v c = v

abbrev MapJoin (K V A : Type) : Type := Seen A × (K → WithBot (Seen A × V))

namespace Map

variable {K V O A : Type} [LinearOrder K] [LinearOrder A]

/-- An entry as an element of the lattice. -/
def entryJoin (e : Option (Entry V A)) : WithBot (Seen A × V) :=
  ofOption (e.map fun e => (e.clock.seen, e.val))

def join (m : Map K V A) : MapJoin K V A :=
  (m.clock.seen, fun k => entryJoin m.entries[k]?)

theorem entryJoin_injective {e e' : Option (Entry V A)} (h : entryJoin e = entryJoin e') :
    e = e' := by
  have h' := ofOption_injective h
  cases e with
  | none => cases e' with
    | none => rfl
    | some e' => simp at h'
  | some e => cases e' with
    | none => simp at h'
    | some e' =>
      simp only [map_some, some.injEq, Prod.mk.injEq] at h'
      obtain ⟨c, v⟩ := e
      obtain ⟨c', v'⟩ := e'
      obtain ⟨hc, hv⟩ := h'
      obtain rfl : c = c' := VClock.seen_injective hc
      obtain rfl : v = v' := hv
      rfl

theorem join_injective {m m' : Map K V A} (hd : m.deferred = m'.deferred) (h : m.join = m'.join) :
    m = m' := by
  obtain ⟨c, e, d⟩ := m
  obtain ⟨c', e', d'⟩ := m'
  obtain ⟨hc, he⟩ := Prod.mk.inj h
  congr
  · exact VClock.seen_injective hc
  · exact map_ext fun k => entryJoin_injective (congrFun he k)

section Updates

variable [SemilatticeSup V] [OrderBot V] [Val V O A] [JoinVal V O A]

def upDelta (dot : Dot A) (key : K) (op : O) : MapJoin K V A :=
  (dotSeen dot,
    fun k => if k = key then WithBot.some (dotSeen dot, JoinVal.lift A op) else ⊥)

theorem exists_entry_of_upDelta_le {m : Map K V A} {dot : Dot A} {key : K} {op : O}
    (h : upDelta dot key op ≤ m.join) :
    ∃ e, m.entries[key]? = some e ∧ JoinVal.lift A op ≤ e.val := by
  have hkey : WithBot.some (dotSeen dot, JoinVal.lift A op) ≤ entryJoin m.entries[key]? := by
    have hle := h.2 key
    simp only [upDelta, if_true] at hle
    exact hle
  cases he : m.entries[key]? with
  | none =>
    rw [he] at hkey
    exact absurd hkey (WithBot.not_coe_le_bot _)
  | some e =>
    rw [he] at hkey
    exact ⟨e, rfl, (WithBot.coe_le_coe.mp hkey).2⟩

omit [SemilatticeSup V] [OrderBot V] [Val V O A] [JoinVal V O A] in
theorem entryJoin_insert (entries : BTreeMap K (Entry V A)) (key k : K) (e : Entry V A) :
    entryJoin (entries.insert key e)[k]? =
      if k = key then WithBot.some (e.clock.seen, e.val) else entryJoin entries[k]? := by
  rw [getElem?_insert]
  by_cases h : k = key
  · rw [if_pos h, if_pos h]; rfl
  · rw [if_neg h, if_neg h]

/-- **A new update adds its delta.** -/
theorem join_apply_new {m : Map K V A} (hd : m.deferred = []) {dot : Dot A} {key : K} {op : O}
    (h : m.clock.get dot.actor < dot.counter) :
    (m.apply (.up dot key op)).join = m.join ⊔ upDelta dot key op := by
  have hpos : 0 < dot.counter := Nat.zero_lt_of_lt h
  rw [apply_new hd h]
  apply Prod.ext
  · exact VClock.seen_apply m.clock hpos
  · funext k
    show entryJoin (m.entries.insert key _)[k]? =
      entryJoin m.entries[k]? ⊔ (if k = key then _ else ⊥)
    rw [entryJoin_insert]
    by_cases hk : k = key
    · subst hk
      rw [if_pos rfl, if_pos rfl, VClock.seen_apply _ hpos, JoinVal.apply_eq]
      cases m.entries[k]? with
      | none =>
        simp only [getD_none, emptyEntry, VClock.seen_new, JoinVal.default_eq,
          bot_sup_eq, entryJoin, map_none, ofOption_none]
      | some e => rfl
    · rw [if_neg hk, if_neg hk, sup_bot_eq]

end Updates

/-! ## §3. Merging, key by key. -/

section Merge

variable [SemilatticeSup V] [Val V O A]

/-- What `merge` leaves at one key, when resets do nothing. -/
def mergeEntry (selfClock otherClock : VClock A) :
    Option (Entry V A) → Option (Entry V A) → Option (Entry V A)
  | none, none => none
  | some ours, none =>
    if otherClock.ge ours.clock then none
    else some ⟨ours.clock.resetRemove otherClock, ours.val⟩
  | none, some theirs =>
    if selfClock.ge theirs.clock then none
    else some ⟨theirs.clock.resetRemove selfClock, theirs.val⟩
  | some ours, some theirs =>
    let common := commonClock selfClock otherClock ours.clock theirs.clock
    if common.isEmpty then none else some ⟨common, ours.val ⊔ theirs.val⟩

theorem getElem?_takeTheirs [OrderBot V] [JoinVal V O A] (selfClock otherClock : VClock A)
    (entries : BTreeMap K (Entry V A)) (key : K) (theirs : Entry V A) (k : K) :
    (takeTheirs (O := O) selfClock otherClock entries key theirs)[k]? =
      if k = key then mergeEntry selfClock otherClock entries[k]? (some theirs)
      else entries[k]? := by
  unfold takeTheirs
  by_cases hk : k = key
  · subst hk
    rw [if_pos rfl]
    cases hours : entries[k]? with
    | none =>
      simp only [mergeEntry, JoinVal.resetRemove_eq]
      split
      · exact hours
      · rw [getElem?_insert, if_pos rfl]
    | some ours =>
      simp only [mergeEntry, JoinVal.resetRemove_eq, JoinVal.merge_eq]
      split
      · rw [getElem?_erase, if_pos rfl]
      · rw [getElem?_insert, if_pos rfl]
  · rw [if_neg hk]
    cases entries[key]? with
    | none =>
      simp only []
      split
      · rfl
      · rw [getElem?_insert, if_neg hk]
    | some ours =>
      simp only []
      split
      · rw [getElem?_erase, if_neg hk]
      · rw [getElem?_insert, if_neg hk]

theorem getElem?_keepOurs [OrderBot V] [JoinVal V O A] (m other : Map K V A) (k : K) :
    (m.entries.filterMap (keepOurs (O := O) other))[k]? =
      if (other.entries[k]?).isSome then m.entries[k]?
      else mergeEntry m.clock other.clock m.entries[k]? none := by
  rw [getElem?_filterMap, ← Std.ExtTreeMap.contains_eq_isSome_getElem?]
  cases m.entries[k]? with
  | none => rw [bind_none]; split <;> rfl
  | some ours =>
    rw [bind_some]
    simp only [keepOurs, mergeEntry, JoinVal.resetRemove_eq]

/-- **Merge, key by key.** -/
theorem merge_entries [OrderBot V] [JoinVal V O A] {m other : Map K V A} (hm : m.deferred = [])
    (ho : other.deferred = []) (k : K) : (merge (O := O) m other).entries[k]? =
      mergeEntry m.clock other.clock m.entries[k]? other.entries[k]? := by
  rw [merge_of_nil hm ho]
  have h := foldl_keyed other.entries (takeTheirs (O := O) m.clock other.clock)
    (fun entries j => entries[j]?)
    (fun _ theirs ours => mergeEntry m.clock other.clock ours (some theirs))
    (fun entries key theirs j => getElem?_takeTheirs m.clock other.clock entries key theirs j)
    (m.entries.filterMap (keepOurs (O := O) other)) k
  rw [h, getElem?_keepOurs]
  cases other.entries[k]? <;> rfl

end Merge

/-! ## §4. Compatible maps: when a merge is the join. -/

/-- At one key and actor, with the two map clocks at `n` and `n'`: the entries'
dots agree, or the larger one is beyond what the OTHER side's map clock
covers. -/
def CompatAt (n n' : Nat) (x y : WithBot Nat) : Prop :=
  x = y ∨ (WithBot.some n < y ∧ x ≤ y) ∨ (WithBot.some n' < x ∧ y ≤ x)

/-- The dot an entry carries for an actor, `⊥` when there is no entry. -/
def entryDot (e : Option (Entry V A)) (a : A) : WithBot Nat :=
  e.elim ⊥ fun e => e.clock.seen a

def Compat (m m' : Map K V A) : Prop :=
  ∀ (k : K) (a : A), CompatAt (m.clock.get a) (m'.clock.get a)
    (entryDot m.entries[k]? a) (entryDot m'.entries[k]? a)

def EntryOk (e : Option (Entry V A)) : Prop :=
  ∀ e', e = some e' → e'.clock.Pos ∧ e'.clock.seen ≠ ⊥

/-- A map as put-style writes build it. -/
structure WellFormed (m : Map K V A) : Prop where
  noDeferred : m.deferred = []
  clockPos : m.clock.Pos
  entryOk : ∀ k : K, EntryOk m.entries[k]?

theorem WellFormed.new : (Map.new : Map K V A).WellFormed where
  noDeferred := rfl
  clockPos := VClock.Pos.new
  entryOk := by
    intro k e h
    simp [Map.new] at h

theorem WellFormed.apply_up [Val V O A] {m : Map K V A} (hm : m.WellFormed) (dot : Dot A) (key : K)
    (op : O) : (m.apply (.up dot key op)).WellFormed := by
  by_cases hseen : dot.counter ≤ m.clock.get dot.actor
  · rw [apply_seen hseen]; exact hm
  · have hnew := not_le.mp hseen
    have hpos : 0 < dot.counter := Nat.zero_lt_of_lt hnew
    rw [apply_new hm.noDeferred hnew]
    refine ⟨hm.noDeferred, hm.clockPos.apply hpos, fun k e he => ?_⟩
    rw [getElem?_insert] at he
    split at he
    · have hold : ((m.entries[key]?).getD (emptyEntry (O := O))).clock.Pos := by
        cases hkey : m.entries[key]? with
        | none => exact VClock.Pos.new
        | some e' => exact (hm.entryOk key e' hkey).1
      cases he
      refine ⟨hold.apply hpos, fun hbot => ?_⟩
      rw [VClock.seen_apply _ hpos] at hbot
      have := congrFun (sup_eq_bot_iff.mp hbot).2 dot.actor
      simp [dotSeen] at this
    · exact hm.entryOk k e he

theorem CompatAt.symm {n n' : Nat} {x y : WithBot Nat} (h : CompatAt n n' x y) :
    CompatAt n' n y x := by
  rcases h with h | h | h
  · exact .inl h.symm
  · exact .inr (.inr h)
  · exact .inr (.inl h)

variable {c other n n' ours theirs : VClock A}

theorem seen_resetRemove_of_lt (hc : c.Pos) {a : A} (h : WithBot.some (other.get a) < c.seen a) :
    (c.resetRemove other).seen a = c.seen a := by
  have hne : c.seen a ≠ ⊥ := ne_bot_of_gt h
  rw [VClock.seen_resetRemove hc, if_neg]
  rw [VClock.seen_eq_coe_get hne, WithBot.coe_lt_coe] at h
  omega

theorem seen_resetRemove_le (hc : c.Pos) (other : VClock A) (a : A) :
    (c.resetRemove other).seen a ≤ c.seen a := by
  rw [VClock.seen_resetRemove hc]
  split
  · exact bot_le
  · exact le_rfl

theorem seen_commonClock (ho : ours.Pos) (ht : theirs.Pos) (a : A) :
    (commonClock n n' ours theirs).seen a =
      ((if theirs.seen a = ours.seen a then theirs.seen a else ⊥) ⊔
        (theirs.resetRemove n).seen a) ⊔ (ours.resetRemove n').seen a := by
  unfold commonClock VClock.cloneWithout
  rw [VClock.seen_merge _ (ho.resetRemove n'), VClock.seen_merge _ (ht.resetRemove n)]
  show (_ ⊔ _) ⊔ _ = _
  rw [VClock.seen_intersection ht]

theorem seen_commonClock_of_compat (ho : ours.Pos) (ht : theirs.Pos) {a : A}
    (h : CompatAt (n.get a) (n'.get a) (ours.seen a) (theirs.seen a)) :
    (commonClock n n' ours theirs).seen a = ours.seen a ⊔ theirs.seen a := by
  have hleO := seen_resetRemove_le ho n' a
  have hleT := seen_resetRemove_le ht n a
  rw [seen_commonClock ho ht]
  rcases h with h | ⟨hlt, hle⟩ | ⟨hlt, hle⟩
  · rw [if_pos h.symm, h, sup_idem, sup_eq_left.mpr hleT]
    exact sup_eq_left.mpr (h ▸ hleO)
  · -- theirs is beyond our clock: it is kept and dominates
    rw [seen_resetRemove_of_lt ht hlt, sup_eq_right.mpr hle]
    have hif : (if theirs.seen a = ours.seen a then theirs.seen a else ⊥) ≤ theirs.seen a := by
      split
      · exact le_rfl
      · exact bot_le
    rw [sup_eq_right.mpr hif, sup_eq_left.mpr (hleO.trans hle)]
  · -- ours is beyond their clock
    rw [seen_resetRemove_of_lt ho hlt, sup_eq_left.mpr hle]
    have hif : (if theirs.seen a = ours.seen a then theirs.seen a else ⊥) ≤ ours.seen a := by
      split
      · exact hle
      · exact bot_le
    exact sup_eq_right.mpr (sup_le hif (hleT.trans hle))

theorem beyond_kept (hc : c.Pos) (hne : c.seen ≠ ⊥)
    (h : ∀ a, c.seen a = ⊥ ∨ WithBot.some (other.get a) < c.seen a) :
    other.ge c = false ∧ c.resetRemove other = c := by
  constructor
  · obtain ⟨a, ha⟩ := Function.ne_iff.mp hne
    rw [Pi.bot_apply] at ha
    have hlt := (h a).resolve_left ha
    rw [VClock.seen_eq_coe_get ha, WithBot.coe_lt_coe] at hlt
    rw [← Bool.not_eq_true, VClock.ge_iff]
    intro hall
    cases hd : c.dots[a]? with
    | none => exact ha (by rw [VClock.seen, hd]; rfl)
    | some n =>
      have := hall a n hd
      rw [VClock.get_of_dots hd] at hlt
      omega
  · apply VClock.seen_injective
    funext a
    rcases h a with hbot | hlt
    · exact le_antisymm (seen_resetRemove_le hc other a) (hbot ▸ bot_le)
    · exact seen_resetRemove_of_lt hc hlt

section JoinOfMerge

variable [SemilatticeSup V]

theorem entryJoin_mergeEntry {n n' : VClock A} {e e' : Option (Entry V A)} (he : EntryOk e)
    (he' : EntryOk e') (h : ∀ a, CompatAt (n.get a) (n'.get a) (entryDot e a) (entryDot e' a)) :
    entryJoin (mergeEntry n n' e e') = entryJoin e ⊔ entryJoin e' := by
  cases e with
  | none =>
    cases e' with
    | none => rfl
    | some theirs =>
      obtain ⟨hpos, hne⟩ := he' theirs rfl
      have hbeyond : ∀ a, theirs.clock.seen a = ⊥ ∨
          WithBot.some (n.get a) < theirs.clock.seen a := by
        intro a
        rcases h a with h | ⟨h, -⟩ | ⟨h, -⟩
        · exact .inl h.symm
        · exact .inr h
        · exact absurd h not_lt_bot
      obtain ⟨hge, hreset⟩ := beyond_kept hpos hne hbeyond
      simp only [mergeEntry, hge, hreset, Bool.false_eq_true, if_false]
      exact (bot_sup_eq _).symm
  | some ours =>
    obtain ⟨hpos, hne⟩ := he ours rfl
    cases e' with
    | none =>
      have hbeyond : ∀ a, ours.clock.seen a = ⊥ ∨
          WithBot.some (n'.get a) < ours.clock.seen a := by
        intro a
        rcases h a with h | ⟨h, -⟩ | ⟨h, -⟩
        · exact .inl h
        · exact absurd h not_lt_bot
        · exact .inr h
      obtain ⟨hge, hreset⟩ := beyond_kept hpos hne hbeyond
      simp only [mergeEntry, hge, hreset, Bool.false_eq_true, if_false]
      exact (sup_bot_eq _).symm
    | some theirs =>
      obtain ⟨hpos', -⟩ := he' theirs rfl
      have hseen : (commonClock n n' ours.clock theirs.clock).seen =
          ours.clock.seen ⊔ theirs.clock.seen :=
        funext fun a => seen_commonClock_of_compat hpos hpos' (h a)
      have hfull : ¬ (commonClock n n' ours.clock theirs.clock).isEmpty = true := by
        rw [VClock.isEmpty_iff_seen, hseen]
        exact fun hbot => hne (sup_eq_bot_iff.mp hbot).1
      simp only [mergeEntry, if_neg hfull, entryJoin, map_some, ofOption_some,
        hseen]
      rfl

theorem entryOk_mergeEntry {n n' : VClock A} {e e' : Option (Entry V A)} (he : EntryOk e)
    (he' : EntryOk e') : EntryOk (mergeEntry n n' e e') := by
  -- a kept clock is a part of an ok clock, and it is kept because it has a dot
  have hkeep : ∀ {c : VClock A} (d : VClock A), c.Pos → ¬ d.ge c = true →
      (c.resetRemove d).Pos ∧ (c.resetRemove d).seen ≠ ⊥ := by
    intro c d hpos hge
    refine ⟨hpos.resetRemove d, fun hbot => hge ?_⟩
    rw [VClock.ge_iff]
    intro a k hk
    have hcg : c.get a = k := VClock.get_of_dots hk
    have hbot' := congrFun hbot a
    rw [VClock.seen_resetRemove hpos, hcg] at hbot'
    by_contra hlt
    rw [if_neg hlt, VClock.seen, hk] at hbot'
    exact absurd hbot' (by simp)
  cases e with
  | none =>
    cases e' with
    | none => exact he
    | some theirs =>
      intro r hr
      simp only [mergeEntry] at hr
      split at hr
      · cases hr
      next hge => cases hr; exact hkeep _ (he' theirs rfl).1 hge
  | some ours =>
    cases e' with
    | none =>
      intro r hr
      simp only [mergeEntry] at hr
      split at hr
      · cases hr
      next hge => cases hr; exact hkeep _ (he ours rfl).1 hge
    | some theirs =>
      intro r hr
      simp only [mergeEntry] at hr
      split at hr
      · cases hr
      next hfull =>
        cases hr
        have hpos := (he ours rfl).1
        have hpos' := (he' theirs rfl).1
        refine ⟨((hpos'.intersection _).merge (hpos'.resetRemove n)).merge
          (hpos.resetRemove n'), fun hbot => hfull ?_⟩
        rwa [VClock.isEmpty_iff_seen]

variable [OrderBot V] [Val V O A] [JoinVal V O A]

/-- **A merge of compatible maps is the join.** -/
theorem join_merge {m m' : Map K V A} (hm : m.WellFormed) (hm' : m'.WellFormed) (hc : Compat m m') :
    (merge (O := O) m m').join = m.join ⊔ m'.join := by
  apply Prod.ext
  · show (merge m m').clock.seen = m.clock.seen ⊔ m'.clock.seen
    rw [merge_clock hm.noDeferred hm'.noDeferred, VClock.seen_merge _ hm'.clockPos]
  · funext k
    show entryJoin (merge m m').entries[k]? =
      entryJoin m.entries[k]? ⊔ entryJoin m'.entries[k]?
    rw [merge_entries hm.noDeferred hm'.noDeferred]
    exact entryJoin_mergeEntry (hm.entryOk k) (hm'.entryOk k) (hc k)

theorem WellFormed.merge {m m' : Map K V A} (hm : m.WellFormed) (hm' : m'.WellFormed) :
    (Map.merge (O := O) m m').WellFormed where
  noDeferred := merge_deferred hm.noDeferred hm'.noDeferred
  clockPos := by
    rw [merge_clock hm.noDeferred hm'.noDeferred]
    exact hm.clockPos.merge hm'.clockPos
  entryOk := by
    intro k
    rw [merge_entries hm.noDeferred hm'.noDeferred]
    exact entryOk_mergeEntry (hm.entryOk k) (hm'.entryOk k)

end JoinOfMerge

end Map

end DessPlay.Crdts
