/-
  DessPlay.Lib.Components
  **CONNECTED COMPONENTS, TWICE: BY UNION-FIND AND BY A WALK.**

  Union-find over a map of parent pointers in which a parent never exceeds its
  child: the root of a class is then its LEAST element.  `Represents S E parent`
  says which elements are known (`S`) and that two of them share a root exactly when
  the edges `E` connect them.

  A walk marks what it sees and keeps a stack of what it has not expanded yet;
  `mem_reachable` says that it ends with exactly what the edges reach.
-/
import DessPlay.Lib.BTree
import DessPlay.Lib.Machine

namespace Components

open BTree Relation
open List hiding getElem?_insert insert
open Std (ExtTreeMap ExtTreeSet)

variable {K : Type*} [LinearOrder K]

/-! ## §1. Parent pointers and roots. -/

/-- Follow the pointers until one points at itself or there is none. -/
def chase (parent : BTreeMap K K) : Nat → K → K
  | 0, root => root
  | fuel + 1, root =>
    match parent[root]? with
    | none => root
    | some next => if next = root then root else chase parent fuel next

/-- The end of the chain from `id`; a chain has at most as many links as there are pointers. -/
def rootOf (parent : BTreeMap K K) (id : K) : K := chase parent parent.size id

/-- The root, and the pointers with `id` pointing straight at it. -/
def find (parent : BTreeMap K K) (id : K) : BTreeMap K K × K :=
  let root := rootOf parent id
  (parent.insert id root, root)

/-- Join two classes: the larger root is pointed at the smaller. -/
def union (parent : BTreeMap K K) (a b : K) : BTreeMap K K :=
  let (parent, ra) := find parent a
  let (parent, rb) := find parent b
  let (lo, hi) := if ra ≤ rb then (ra, rb) else (rb, ra)
  parent.insert hi lo

/-- No pointer leads upwards. -/
def Forest (parent : BTreeMap K K) : Prop := ∀ x p : K, parent[x]? = some p → p ≤ x

/-- How many pointers start at or below `x`: what bounds the chain from `x`. -/
def below (parent : BTreeMap K K) (x : K) : Nat := (parent.keys.filter (· ≤ x)).length

theorem below_le_size (parent : BTreeMap K K) (x : K) : below parent x ≤ parent.size :=
  (length_filter_le _ _).trans_eq ExtTreeMap.length_keys

variable {parent : BTreeMap K K}

/-- A pointer that moves leaves fewer pointers below. -/
theorem below_lt {x p : K} (hx : parent[x]? = some p) (hp : p < x) :
    below parent p < below parent x := by
  have hmem : x ∈ parent.keys := (mem_keys parent x).mpr ⟨p, hx⟩
  have hsub : (parent.keys.filter (· ≤ p)).toFinset ⊂ (parent.keys.filter (· ≤ x)).toFinset := by
    rw [Finset.ssubset_iff_of_subset]
    · refine ⟨x, by simpa using hmem, ?_⟩
      simpa using fun _ => hp
    · intro k hk
      simp only [mem_toFinset, mem_filter, decide_eq_true_eq] at hk ⊢
      exact ⟨hk.1, hk.2.trans hp.le⟩
  have hcard := Finset.card_lt_card hsub
  rwa [toFinset_card_of_nodup ((nodup_keys parent).filter _),
    toFinset_card_of_nodup ((nodup_keys parent).filter _)] at hcard

/-- **Induction along the pointers.** -/
theorem Forest.induction (hf : Forest parent) {P : K → Prop} (hnone : ∀ x, parent[x]? = none → P x)
    (hself : ∀ x, parent[x]? = some x → P x)
    (hstep : ∀ x p, parent[x]? = some p → p < x → P p → P x) (x : K) : P x := by
  generalize hn : below parent x = n
  induction n using Nat.strong_induction_on generalizing x with
  | _ n ih =>
    cases hx : parent[x]? with
    | none => exact hnone x hx
    | some p =>
      rcases (hf x p hx).lt_or_eq with hlt | rfl
      · exact hstep x p hx hlt (ih _ (hn ▸ below_lt hx hlt) p rfl)
      · exact hself p hx

/-- A chain ends within as many steps as there are pointers below its start. -/
theorem Forest.chase_fuel (hf : Forest parent) (x : K) :
    ∀ fuel fuel' : Nat, below parent x ≤ fuel → below parent x ≤ fuel' →
      chase parent fuel x = chase parent fuel' x := by
  -- a start that has a pointer has one below it, so its fuel is not used up
  have hpos : ∀ {y p : K}, parent[y]? = some p → 0 < below parent y := by
    intro y p hy
    refine length_pos_of_mem (mem_filter.mpr ⟨(mem_keys parent y).mpr ⟨p, hy⟩, ?_⟩)
    simp
  induction x using hf.induction with
  | hnone x hx => intro fuel fuel' _ _; cases fuel <;> cases fuel' <;> simp [chase, hx]
  | hself x hx => intro fuel fuel' _ _; cases fuel <;> cases fuel' <;> simp [chase, hx]
  | hstep x p hx hp ih =>
    intro fuel fuel' hfuel hfuel'
    have hlt := below_lt hx hp
    obtain ⟨n, rfl⟩ := Nat.exists_eq_succ_of_ne_zero (by have := hpos hx; omega : fuel ≠ 0)
    obtain ⟨n', rfl⟩ := Nat.exists_eq_succ_of_ne_zero (by have := hpos hx; omega : fuel' ≠ 0)
    simp only [chase, hx, if_neg hp.ne]
    exact ih n n' (by omega) (by omega)

section Roots

variable {parent : BTreeMap K K}

theorem rootOf_of_none {x : K} (hx : parent[x]? = none) : rootOf parent x = x := by
  unfold rootOf
  cases parent.size <;> simp [chase, hx]

theorem rootOf_of_self {x : K} (hx : parent[x]? = some x) : rootOf parent x = x := by
  unfold rootOf
  cases parent.size <;> simp [chase, hx]

theorem Forest.rootOf_step (hf : Forest parent) {x p : K} (hx : parent[x]? = some p) :
    rootOf parent x = rootOf parent p := by
  rcases (hf x p hx).lt_or_eq with hlt | rfl
  · have hfuel := hf.chase_fuel x parent.size (parent.size + 1) (below_le_size parent x)
      ((below_le_size parent x).trans (Nat.le_succ _))
    rw [rootOf, hfuel, chase, hx]
    exact if_neg hlt.ne
  · rfl

/-- The roots are the one solution of the pointers' equations. -/
theorem Forest.rootOf_unique (hf : Forest parent) {f : K → K}
    (hnone : ∀ x, parent[x]? = none → f x = x) (hself : ∀ x, parent[x]? = some x → f x = x)
    (hstep : ∀ x p, parent[x]? = some p → f x = f p) (x : K) : rootOf parent x = f x := by
  induction x using hf.induction with
  | hnone x hx => rw [rootOf_of_none hx, hnone x hx]
  | hself x hx => rw [rootOf_of_self hx, hself x hx]
  | hstep x p hx _ ih => rw [hf.rootOf_step hx, ih, hstep x p hx]

theorem Forest.rootOf_le (hf : Forest parent) (x : K) : rootOf parent x ≤ x := by
  induction x using hf.induction with
  | hnone x hx => exact (rootOf_of_none hx).le
  | hself x hx => exact (rootOf_of_self hx).le
  | hstep x p hx hp ih => exact (hf.rootOf_step hx).le.trans (ih.trans hp.le)

theorem Forest.rootOf_rootOf (hf : Forest parent) (x : K) :
    rootOf parent (rootOf parent x) = rootOf parent x := by
  induction x using hf.induction with
  | hnone x hx => rw [rootOf_of_none hx, rootOf_of_none hx]
  | hself x hx => rw [rootOf_of_self hx, rootOf_of_self hx]
  | hstep x p hx _ ih => rw [hf.rootOf_step hx, ih]

theorem Forest.insert (hf : Forest parent) {hi lo : K} (hle : lo ≤ hi) :
    Forest (parent.insert hi lo) := by
  intro x p hx
  rw [getElem?_insert] at hx
  split at hx
  next heq =>
    cases hx
    exact heq ▸ hle
  · exact hf x p hx

/-- Pointing an element at its root moves no root. -/
theorem Forest.rootOf_compress (hf : Forest parent) (id x : K) :
    rootOf (parent.insert id (rootOf parent id)) x = rootOf parent x := by
  refine (hf.insert (hf.rootOf_le id)).rootOf_unique (fun y hy => ?_) (fun y hy => ?_)
    (fun y p hy => ?_) x <;> rw [getElem?_insert] at hy <;> split at hy
  · cases hy
  · exact rootOf_of_none hy
  next heq => rw [heq]; exact (Option.some.inj hy).trans heq
  · exact rootOf_of_self hy
  next heq => rw [heq, ← Option.some.inj hy, hf.rootOf_rootOf]
  · exact hf.rootOf_step hy

/-- Pointing a root at a smaller root moves its class there, and nothing else. -/
theorem Forest.rootOf_link (hf : Forest parent) {lo hi : K} (hle : lo ≤ hi)
    (hlo : rootOf parent lo = lo) (hhi : rootOf parent hi = hi) (x : K) :
    rootOf (parent.insert hi lo) x = if rootOf parent x = hi then lo else rootOf parent x := by
  refine (hf.insert hle).rootOf_unique
    (f := fun x => if rootOf parent x = hi then lo else rootOf parent x)
    (fun y hy => ?_) (fun y hy => ?_) (fun y p hy => ?_) x <;>
    rw [getElem?_insert] at hy <;> split at hy
  · cases hy
  next hne => rw [rootOf_of_none hy, if_neg hne]
  next heq => rw [heq, if_pos hhi]; exact (Option.some.inj hy).trans heq
  next hne => rw [rootOf_of_self hy, if_neg hne]
  next heq =>
    rw [← Option.some.inj hy, heq, if_pos hhi, hlo, ite_self]
  · rw [hf.rootOf_step hy]

theorem Forest.rootOf_find (hf : Forest parent) (id x : K) :
    rootOf (find parent id).1 x = rootOf parent x :=
  hf.rootOf_compress id x

theorem union_eq (parent : BTreeMap K K) (a b : K) :
    union parent a b = (find (find parent a).1 b).1.insert
      (max (rootOf parent a) (rootOf (find parent a).1 b))
      (min (rootOf parent a) (rootOf (find parent a).1 b)) := by
  have hsort : ∀ x y : K, (if x ≤ y then (x, y) else (y, x)) = (min x y, max x y) := by
    intro x y
    rcases le_or_gt x y with hle | hlt
    · rw [if_pos hle, min_eq_left hle, max_eq_right hle]
    · rw [if_neg hlt.not_ge, min_eq_right hlt.le, max_eq_left hlt.le]
  exact congrArg (fun p : K × K => (find (find parent a).1 b).1.insert p.2 p.1) (hsort _ _)

end Roots

/-! ## §2. What the pointers stand for. -/

/-- The edges `E` and one more. -/
def withEdge (E : K → K → Prop) (a b : K) : K → K → Prop := fun x y => E x y ∨ x = a ∧ y = b

/-- The pointers know exactly `S`, and two elements share a root exactly when the edges `E`
connect them. -/
structure Represents (S : K → Prop) (E : K → K → Prop) (parent : BTreeMap K K) : Prop where
  forest : Forest parent
  /-- what a pointer leads to has a pointer itself -/
  closed : ∀ x p : K, parent[x]? = some p → p ∈ parent
  known : ∀ x : K, x ∈ parent ↔ S x
  same : ∀ x y : K, rootOf parent x = rootOf parent y ↔ EqvGen E x y

namespace Represents

variable {S : K → Prop} {E : K → K → Prop} {parent : BTreeMap K K}

theorem congr {T : K → Prop} {F : K → K → Prop} (h : Represents S E parent) (hS : ∀ x, S x ↔ T x)
    (hE : ∀ x y, E x y ↔ F x y) : Represents T F parent := by
  have hT : S = T := funext fun x => propext (hS x)
  have hF : E = F := funext fun x => funext fun y => propext (hE x y)
  exact hT ▸ hF ▸ h

theorem empty : Represents (fun _ : K => False) (fun _ _ => False) ∅ where
  forest := fun x p hx => by rw [ExtTreeMap.getElem?_empty] at hx; cases hx
  closed := fun x p hx => by rw [ExtTreeMap.getElem?_empty] at hx; cases hx
  known := fun x => iff_of_false ExtTreeMap.not_mem_empty id
  same := by
    intro x y
    rw [rootOf_of_none ExtTreeMap.getElem?_empty, rootOf_of_none ExtTreeMap.getElem?_empty]
    constructor
    · rintro rfl
      exact .refl x
    · intro h
      induction h with
      | rel _ _ h => exact h.elim
      | refl _ => rfl
      | symm _ _ _ ih => exact ih.symm
      | trans _ _ _ _ _ ih ih' => exact ih.trans ih'

theorem eqvGen_rootOf (h : Represents S E parent) (x : K) : EqvGen E x (rootOf parent x) :=
  (h.same x _).mp (h.forest.rootOf_rootOf x).symm

theorem isLeast_rootOf (h : Represents S E parent) (x : K) :
    IsLeast {y | EqvGen E x y} (rootOf parent x) :=
  ⟨h.eqvGen_rootOf x, fun y hy => (h.same x y).mpr hy ▸ h.forest.rootOf_le y⟩

theorem rootOf_mem (h : Represents S E parent) {x : K} (hx : x ∈ parent) :
    rootOf parent x ∈ parent := by
  induction x using h.forest.induction with
  | hnone x hnone => rwa [rootOf_of_none hnone]
  | hself x hself => rwa [rootOf_of_self hself]
  | hstep x p hp _ ih =>
    rw [h.forest.rootOf_step hp]
    exact ih (h.closed x p hp)

/-- Writing pointers of known elements, or of one new element at itself, keeps every pointer's end
known. -/
theorem closed_insert (h : Represents S E parent) {x p : K} (hp : p ∈ parent.insert x p) {y q : K}
    (hy : (parent.insert x p)[y]? = some q) : q ∈ parent.insert x p := by
  rw [getElem?_insert] at hy
  split at hy
  · exact Option.some.inj hy ▸ hp
  · exact ExtTreeMap.mem_insert.mpr (.inr (h.closed y q hy))

/-- **`find` adds its argument and changes no class.** -/
theorem find (h : Represents S E parent) (id : K) :
    Represents (fun x => S x ∨ x = id) E (find parent id).1 where
  forest := h.forest.insert (h.forest.rootOf_le id)
  closed := by
    intro y q hy
    refine h.closed_insert (ExtTreeMap.mem_insert.mpr ?_) hy
    by_cases hid : id ∈ parent
    · exact .inr (h.rootOf_mem hid)
    · have hnone : parent[id]? = none := ExtTreeMap.getElem?_eq_none hid
      exact .inl (compare_eq_iff_eq.mpr (rootOf_of_none hnone).symm)
  known := by
    intro x
    show x ∈ parent.insert id _ ↔ _
    rw [ExtTreeMap.mem_insert, compare_eq_iff_eq, h.known, or_comm, eq_comm (a := id)]
  same := by
    intro x y
    show rootOf (parent.insert id (rootOf parent id)) x = rootOf (parent.insert id _) y ↔ _
    rw [h.forest.rootOf_compress, h.forest.rootOf_compress]
    exact h.same x y

/-- Pointing the larger of two known roots at the smaller joins their classes. -/
theorem link (h : Represents S E parent) {a b lo hi : K} (hle : lo ≤ hi) (hlo : lo ∈ parent)
    (hhi : hi ∈ parent) (hroots : rootOf parent a = lo ∧ rootOf parent b = hi ∨
      rootOf parent a = hi ∧ rootOf parent b = lo) :
    Represents S (withEdge E a b) (parent.insert hi lo) := by
  have hfix : rootOf parent lo = lo ∧ rootOf parent hi = hi := by
    rcases hroots with ⟨rfl, rfl⟩ | ⟨rfl, rfl⟩ <;>
      exact ⟨h.forest.rootOf_rootOf _, h.forest.rootOf_rootOf _⟩
  have hmove := h.forest.rootOf_link hle hfix.1 hfix.2
  have hold : ∀ x y, EqvGen E x y → EqvGen (withEdge E a b) x y := fun x y hxy =>
    hxy.mono fun _ _ => Or.inl
  have hjoin : EqvGen (withEdge E a b) hi lo := by
    have hab : EqvGen (withEdge E a b) a b := .rel a b (.inr ⟨rfl, rfl⟩)
    have ha := hold a _ (h.eqvGen_rootOf a)
    have hb := hold b _ (h.eqvGen_rootOf b)
    rcases hroots with ⟨rfl, rfl⟩ | ⟨rfl, rfl⟩
    · exact (hb.symm.trans _ _ _ hab.symm).trans _ _ _ ha
    · exact (ha.symm.trans _ _ _ hab).trans _ _ _ hb
  -- the new root of an element is connected with it
  have hroot : ∀ x, EqvGen (withEdge E a b) x (rootOf (parent.insert hi lo) x) := by
    intro x
    have hx := hold x _ (h.eqvGen_rootOf x)
    rw [hmove]
    split
    next heq => exact (heq ▸ hx).trans _ _ _ hjoin
    · exact hx
  refine ⟨h.forest.insert hle, fun y q hy => ?_, fun x => ?_,
    fun x y => ⟨fun heq => ?_, fun hxy => ?_⟩⟩
  · exact h.closed_insert (ExtTreeMap.mem_insert.mpr (.inr hlo)) hy
  · rw [ExtTreeMap.mem_insert, compare_eq_iff_eq, ← h.known]
    exact ⟨fun hx => hx.elim (fun heq => heq ▸ hhi) id, Or.inr⟩
  · exact (hroot x).trans _ _ _ (heq ▸ (hroot y).symm)
  · induction hxy with
    | rel x y hxy =>
      rcases hxy with hxy | ⟨rfl, rfl⟩
      · rw [hmove, hmove, (h.same x y).mpr (.rel x y hxy)]
      · rw [hmove, hmove]
        rcases hroots with ⟨hx, hy⟩ | ⟨hx, hy⟩ <;> simp [hx, hy]
    | refl _ => rfl
    | symm _ _ _ ih => exact ih.symm
    | trans _ _ _ _ _ ih ih' => exact ih.trans ih'

/-- **`union` adds its arguments and the edge between them.** -/
theorem union (h : Represents S E parent) (a b : K) :
    Represents (fun x => (S x ∨ x = a) ∨ x = b) (withEdge E a b) (union parent a b) := by
  have hfound := (h.find a).find b
  rw [union_eq, h.forest.rootOf_find]
  -- neither `find` moves a root
  have hroot : ∀ x, rootOf (Components.find (Components.find parent a).1 b).1 x =
      rootOf parent x := fun x => by
    rw [(h.find a).forest.rootOf_find, h.forest.rootOf_find]
  have ha := hfound.rootOf_mem ((hfound.known a).mpr (.inl (.inr rfl)))
  have hb := hfound.rootOf_mem ((hfound.known b).mpr (.inr rfl))
  rw [hroot] at ha hb
  rcases le_total (rootOf parent a) (rootOf parent b) with hle | hle
  · rw [max_eq_right hle, min_eq_left hle]
    exact hfound.link hle ha hb (.inl ⟨hroot a, hroot b⟩)
  · rw [max_eq_left hle, min_eq_right hle]
    exact hfound.link hle hb ha (.inr ⟨hroot a, hroot b⟩)

/-- A loop of `find`s adds what it visits. -/
theorem find_list (h : Represents S E parent) (ids : List K) :
    Represents (fun x => S x ∨ x ∈ ids) E
      (ids.foldl (fun parent id => (Components.find parent id).1) parent) := by
  induction ids generalizing S parent with
  | nil => exact h.congr (fun x => by simp) fun _ _ => Iff.rfl
  | cons id ids ih =>
    exact (ih (h.find id)).congr (fun x => by rw [mem_cons, or_assoc]) fun _ _ => Iff.rfl

/-- A loop of `union`s from one element adds its targets and the edges to them. -/
theorem union_list (h : Represents S E parent) (a : K) (ha : S a) (targets : List K) :
    Represents (fun x => S x ∨ x ∈ targets) (fun x y => E x y ∨ x = a ∧ y ∈ targets)
      (targets.foldl (fun parent target => Components.union parent a target) parent) := by
  induction targets generalizing S E parent with
  | nil => exact h.congr (fun x => by simp) fun x y => by simp
  | cons target targets ih =>
    refine (ih (h.union a target) (.inl (.inl ha))).congr (fun x => ?_) fun x y => ?_
    · have hx : x = a → S x := fun heq => heq ▸ ha
      rw [mem_cons]
      tauto
    · rw [mem_cons, withEdge]
      tauto

/-- `find` of known elements: every one visited points straight at its root. -/
theorem find_each (h : Represents S E parent) (ids : List K) (hids : ∀ id ∈ ids, S id) :
    let final := ids.foldl (fun parent id => (Components.find parent id).1) parent
    Represents S E final ∧ ∀ id ∈ ids, final[id]? = some (rootOf final id) := by
  induction ids using reverseRecOn with
  | nil => exact ⟨h, fun id hid => absurd hid not_mem_nil⟩
  | append_singleton ids last ih =>
    obtain ⟨hrep, hpoint⟩ := ih fun id hid => hids id (mem_append_left _ hid)
    have hlast : S last := hids last (by simp)
    rw [foldl_concat]
    refine ⟨(hrep.find last).congr (fun x => ⟨?_, Or.inl⟩) fun _ _ => Iff.rfl, fun id hid => ?_⟩
    · rintro (hx | rfl)
      · exact hx
      · exact hlast
    · rw [hrep.forest.rootOf_find]
      refine (getElem?_insert _ _ _ _).trans ?_
      split
      next heq => rw [heq]
      next hne =>
        exact hpoint id ((mem_append.mp hid).resolve_right (mt mem_singleton.mp hne))

/-- **A closing pass leaves every known element pointing at the least of its class.** -/
theorem find_all (h : Represents S E parent) :
    let final := parent.keys.foldl (fun parent id => (Components.find parent id).1) parent
    (∀ x, x ∈ final ↔ S x) ∧ (∀ x r, final[x]? = some r → IsLeast {y | EqvGen E x y} r) := by
  intro final
  have hkeys : ∀ id ∈ parent.keys, S id := fun id hid =>
    (h.known id).mp (ExtTreeMap.mem_keys.mp hid)
  obtain ⟨hrep, hpoint⟩ := h.find_each parent.keys hkeys
  refine ⟨hrep.known, fun x r hx => ?_⟩
  have hmem : x ∈ parent.keys := by
    rw [ExtTreeMap.mem_keys, h.known, ← hrep.known, ExtTreeMap.mem_iff_isSome_getElem?]
    exact Option.isSome_iff_exists.mpr ⟨r, hx⟩
  have hroot : r = rootOf final x := Option.some.inj (hx.symm.trans (hpoint x hmem))
  exact hroot ▸ hrep.isLeast_rootOf x

end Represents

/-! ## §3. The walk. -/

/-- An element not seen yet is marked and stacked. -/
def mark (w : BTreeSet K × List K) (t : K) : BTreeSet K × List K :=
  if t ∈ w.1 then w else (w.1.insert t, t :: w.2)

/-- Look at the successors of one element. -/
def expand (succs : List K) (w : BTreeSet K × List K) : BTreeSet K × List K :=
  succs.foldl mark w

/-- Take elements from the stack until it is empty. -/
def walk (succs : K → List K) : Nat → BTreeSet K × List K → BTreeSet K
  | 0, (seen, _) => seen
  | _ + 1, (seen, []) => seen
  | fuel + 1, (seen, current :: frontier) =>
    walk succs fuel (expand (succs current) (seen, frontier))

/-- Everything the walk from `start` sees. -/
def reachable (succs : K → List K) (fuel : Nat) (start : K) : BTreeSet K :=
  walk succs fuel ((∅ : BTreeSet K).insert start, [start])

theorem mem_expand_seen (succs : List K) (w : BTreeSet K × List K) (x : K) :
    x ∈ (expand succs w).1 ↔ x ∈ w.1 ∨ x ∈ succs := by
  induction succs generalizing w with
  | nil => simp [expand]
  | cons t succs ih =>
    show x ∈ (expand succs _).1 ↔ _
    rw [ih, mem_cons]
    unfold mark
    split
    next ht =>
      refine ⟨fun h => h.imp_right Or.inr, ?_⟩
      rintro (h | rfl | h)
      · exact .inl h
      · exact .inl ht
      · exact .inr h
    · rw [mem_insert]
      tauto

theorem mem_expand_frontier (succs : List K) (w : BTreeSet K × List K) (x : K) :
    x ∈ (expand succs w).2 ↔ x ∈ w.2 ∨ x ∈ succs ∧ x ∉ w.1 := by
  induction succs generalizing w with
  | nil => simp [expand]
  | cons t succs ih =>
    show x ∈ (expand succs _).2 ↔ _
    rw [ih, mem_cons]
    unfold mark
    split
    next ht =>
      refine ⟨fun h => h.imp_right fun h => ⟨.inr h.1, h.2⟩, ?_⟩
      rintro (h | ⟨rfl | h, hnot⟩)
      · exact .inl h
      · exact absurd ht hnot
      · exact .inr ⟨h, hnot⟩
    next ht =>
      rw [mem_insert, mem_cons]
      by_cases hx : x = t
      · simp [hx, ht]
      · simp [hx]

/-- Marking an element of `T` leaves fewer of them to see. -/
theorem card_unseen_insert_lt {T : Finset K} {seen : BTreeSet K} {t : K} (ht : t ∈ T)
    (hnot : t ∉ seen) : (T.filter (· ∉ seen.insert t)).card < (T.filter (· ∉ seen)).card := by
  refine Finset.card_lt_card (Finset.ssubset_iff_of_subset ?_ |>.mpr ⟨t, ?_, ?_⟩)
  · intro x hx
    rw [Finset.mem_filter] at hx ⊢
    exact ⟨hx.1, fun h => hx.2 ((mem_insert _ _ _).mpr (.inr h))⟩
  · exact Finset.mem_filter.mpr ⟨ht, hnot⟩
  · rw [Finset.mem_filter, not_and_not_right]
    exact fun _ => (mem_insert _ _ _).mpr (.inl rfl)

/-- What is left to see in `T`, and what is stacked: each turn takes one off. -/
def pending (T : Finset K) (w : BTreeSet K × List K) : Nat :=
  (T.filter (· ∉ w.1)).card + w.2.length

theorem pending_expand_le {T : Finset K} {succs : List K} (hT : ∀ t ∈ succs, t ∈ T)
    (w : BTreeSet K × List K) : pending T (expand succs w) ≤ pending T w := by
  induction succs generalizing w with
  | nil => exact le_refl _
  | cons t succs ih =>
    refine (ih (fun s hs => hT s (mem_cons_of_mem t hs)) _).trans ?_
    unfold mark
    split
    · exact le_refl _
    next ht =>
      have hlt := card_unseen_insert_lt (hT t mem_cons_self) ht
      simp only [pending, length_cons]
      omega

section Walk

variable {succs : K → List K}

/-- One edge of the graph. -/
def Succ (succs : K → List K) (a b : K) : Prop := b ∈ succs a

/-- What holds at every turn: only what is reachable is seen, what is stacked is seen, and what
is seen and not stacked has had its successors seen. -/
structure Walking (succs : K → List K) (start : K) (w : BTreeSet K × List K) : Prop where
  sound : ∀ x ∈ w.1, ReflTransGen (Succ succs) start x
  start : start ∈ w.1
  stacked : ∀ x ∈ w.2, x ∈ w.1
  done : ∀ x ∈ w.1, x ∉ w.2 → ∀ y ∈ succs x, y ∈ w.1

theorem Walking.expand {start current : K} {seen : BTreeSet K} {frontier : List K}
    (h : Walking succs start (seen, current :: frontier)) :
    Walking succs start (expand (succs current) (seen, frontier)) where
  sound := by
    intro x hx
    rcases (mem_expand_seen _ _ x).mp hx with hx | hx
    · exact h.sound x hx
    · exact (h.sound current (h.stacked current mem_cons_self)).tail hx
  start := (mem_expand_seen _ _ start).mpr (.inl h.start)
  stacked := by
    intro x hx
    rw [mem_expand_seen]
    rcases (mem_expand_frontier _ _ x).mp hx with hx | hx
    · exact .inl (h.stacked x (mem_cons_of_mem current hx))
    · exact .inr hx.1
  done := by
    intro x hx hnot y hy
    rw [mem_expand_frontier, not_or, not_and_not_right] at hnot
    rw [mem_expand_seen]
    by_cases hc : x = current
    · exact .inr (hc ▸ hy)
    · have hseen : x ∈ seen := ((mem_expand_seen _ _ x).mp hx).elim id hnot.2
      have hfrontier : x ∉ current :: frontier := by simpa [hc] using hnot.1
      exact .inl (h.done x hseen hfrontier y hy)

/-- With an empty stack everything reachable has been seen. -/
theorem Walking.complete {start : K} {seen : BTreeSet K} (h : Walking succs start (seen, []))
    (x : K) : x ∈ seen ↔ ReflTransGen (Succ succs) start x := by
  refine ⟨h.sound x, fun hx => ?_⟩
  induction hx with
  | refl => exact h.start
  | tail _ hstep ih => exact h.done _ ih not_mem_nil _ hstep

theorem Walking.mem_walk {start : K} {T : Finset K} (hT : ∀ x, ∀ t ∈ succs x, t ∈ T) (fuel : Nat)
    (w : BTreeSet K × List K) (h : Walking succs start w) (hfuel : pending T w ≤ fuel) (x : K) :
    x ∈ walk succs fuel w ↔ ReflTransGen (Succ succs) start x := by
  induction fuel generalizing w with
  | zero =>
    obtain ⟨seen, frontier⟩ := w
    have hnil : frontier = [] := eq_nil_of_length_eq_zero (by
      simp only [pending] at hfuel
      omega)
    subst hnil
    exact h.complete x
  | succ fuel ih =>
    obtain ⟨seen, frontier⟩ := w
    cases frontier with
    | nil => exact h.complete x
    | cons current frontier =>
      refine ih _ h.expand ((pending_expand_le (hT current) _).trans ?_)
      simp only [pending, length_cons] at hfuel ⊢
      omega

/-- **The walk ends with exactly what the edges reach.** -/
theorem mem_reachable {T : Finset K} (hT : ∀ x, ∀ t ∈ succs x, t ∈ T) {fuel : Nat}
    (hfuel : T.card < fuel) (start x : K) :
    x ∈ reachable succs fuel start ↔ ReflTransGen (Succ succs) start x := by
  have hstart : Walking succs start ((∅ : BTreeSet K).insert start, [start]) := by
    have hmem : ∀ y, y ∈ (∅ : BTreeSet K).insert start ↔ y = start := by
      intro y
      rw [mem_insert]
      exact or_iff_left ExtTreeSet.not_mem_empty
    refine ⟨fun y hy => ?_, (hmem start).mpr rfl, fun y hy => ?_, fun y hy hnot => ?_⟩
    · cases (hmem y).mp hy
      exact .refl
    · exact (hmem y).mpr (mem_singleton.mp hy)
    · exact absurd (mem_singleton.mpr ((hmem y).mp hy)) hnot
  refine Walking.mem_walk hT fuel _ hstart ?_ x
  have hle := Finset.card_filter_le T (· ∉ (∅ : BTreeSet K).insert start)
  simp only [pending, length_singleton]
  omega

end Walk

end Components
