/-
  DessPlay.Crdts.Lists
  **GROW-ONLY SETS, DENSE IDENTIFIERS AND THE GROW-ONLY LIST**
  (`vendor/crdts/src/{gset,identifier,glist}.rs`).

  A `GList` is a set of `Identifier`s: paths of `(rational, marker)` nodes,
  ordered lexicographically EXCEPT that a path is GREATER than its extensions.
  `Identifier.cmp` is the crate's loop; the order used by the sets is the
  lexicographic order of paths closed by a top node, and `compare_eq_cmp` says
  that the two agree.
-/
import DessPlay.Lib.BTree

namespace DessPlay.Crdts

open BTree List

/-! ## §1. The grow-only set. -/

structure GSet (T : Type) [LinearOrder T] where
  value : BTreeSet T
  deriving DecidableEq

namespace GSet

variable {T : Type} [LinearOrder T]

def new : GSet T := ⟨∅⟩

instance : Inhabited (GSet T) := ⟨new⟩

def apply (s : GSet T) (x : T) : GSet T := ⟨s.value.insert x⟩

def merge (s other : GSet T) : GSet T :=
  ⟨other.value.foldl (fun acc x => acc.insert x) s.value⟩

def contains (s : GSet T) (x : T) : Bool := s.value.contains x

theorem ext_value {s t : GSet T} (h : ∀ x, x ∈ s.value ↔ x ∈ t.value) : s = t := by
  cases s; cases t
  congr
  exact set_ext h

theorem mem_apply (s : GSet T) (x y : T) : y ∈ (s.apply x).value ↔ y = x ∨ y ∈ s.value :=
  mem_insert s.value x y

theorem mem_merge (s t : GSet T) (x : T) : x ∈ (s.merge t).value ↔ x ∈ s.value ∨ x ∈ t.value :=
  mem_foldl_insert s.value t.value x

theorem contains_iff (s : GSet T) (x : T) : s.contains x = true ↔ x ∈ s.value :=
  Std.ExtTreeSet.contains_iff_mem

end GSet

/-! ## §2. Dense identifiers. -/

structure Identifier (T : Type) where
  path : List (ℚ × T)
  deriving DecidableEq

namespace Identifier

variable {T : Type}

def rationalBetween (low high : Option ℚ) : ℚ :=
  match low, high with
  | none, none => 0
  | some low, none => low + 1
  | none, some high => high - 1
  | some low, some high => (low + high) / 2

/-- The value an identifier carries: that of its last node.  `none` is the
crate's `unwrap` panic on an empty path. -/
def value? (id : Identifier T) : Option T := id.path.getLast?.map Prod.snd

section Order

variable [LinearOrder T]

/-- The crate's comparison loop. -/
def cmpPath : List (ℚ × T) → List (ℚ × T) → Ordering
  | x :: xs, y :: ys =>
    match compare (toLex x) (toLex y) with
    | .eq => cmpPath xs ys
    | ord => ord
  | [], _ :: _ => .gt
  | _ :: _, [] => .lt
  | [], [] => .eq

def cmp (a b : Identifier T) : Ordering := cmpPath a.path b.path

/-- A path closed by a node above all others: this makes the end of a path
compare as GREATER than any continuation. -/
def closed (id : Identifier T) : List (WithTop (ℚ ×ₗ T)) :=
  id.path.map (fun n => ((toLex n : ℚ ×ₗ T) : WithTop (ℚ ×ₗ T))) ++ [⊤]

omit [LinearOrder T] in
theorem closed_injective : Function.Injective (closed (T := T)) := by
  intro a b h
  have hmap := append_cancel_right h
  have hinj : Function.Injective
      (fun n : ℚ × T => ((toLex n : ℚ ×ₗ T) : WithTop (ℚ ×ₗ T))) :=
    fun x y hxy => toLex.injective (WithTop.coe_injective hxy)
  obtain ⟨pa⟩ := a
  obtain ⟨pb⟩ := b
  exact congrArg Identifier.mk (map_injective_iff.mpr hinj hmap)

instance : LinearOrder (Identifier T) := LinearOrder.lift' closed closed_injective

instance (priority := 3000) transCmp_identifier :
    Std.TransCmp (compare : Identifier T → Identifier T → Ordering) :=
  instTransCmp

theorem cmpPath_spec : ∀ p q : List (ℚ × T),
    match cmpPath p q with
    | .lt => closed ⟨p⟩ < closed ⟨q⟩
    | .eq => p = q
    | .gt => closed ⟨q⟩ < closed ⟨p⟩
  | [], [] => rfl
  | [], y :: ys => by
      show _ :: _ < _ :: _
      rw [cons_lt_cons_iff]
      exact .inl (WithTop.coe_lt_top _)
  | x :: xs, [] => by
      show _ :: _ < _ :: _
      rw [cons_lt_cons_iff]
      exact .inl (WithTop.coe_lt_top _)
  | x :: xs, y :: ys => by
      have ih := cmpPath_spec xs ys
      unfold cmpPath
      cases hxy : compare (toLex x) (toLex y) with
      | lt =>
        show _ :: _ < _ :: _
        rw [cons_lt_cons_iff]
        exact .inl (WithTop.coe_lt_coe.mpr (compare_lt_iff_lt.mp hxy))
      | gt =>
        show _ :: _ < _ :: _
        rw [cons_lt_cons_iff]
        exact .inl (WithTop.coe_lt_coe.mpr (compare_gt_iff_gt.mp hxy))
      | eq =>
        -- equal heads: the verdict is that of the tails
        obtain rfl : x = y := toLex.injective (compare_eq_iff_eq.mp hxy)
        simp only []
        cases hrest : cmpPath xs ys with
        | lt =>
          rw [hrest] at ih
          show _ :: _ < _ :: _
          rw [cons_lt_cons_iff]
          exact .inr ⟨rfl, ih⟩
        | eq => rw [hrest] at ih; exact congrArg _ ih
        | gt =>
          rw [hrest] at ih
          show _ :: _ < _ :: _
          rw [cons_lt_cons_iff]
          exact .inr ⟨rfl, ih⟩

/-- **The order is the crate's.** -/
theorem compare_eq_cmp (a b : Identifier T) : compare a b = cmp a b := by
  have h := cmpPath_spec a.path b.path
  unfold cmp
  cases hc : cmpPath a.path b.path with
  | lt => rw [hc] at h; exact compare_lt_iff_lt.mpr h
  | eq =>
    rw [hc] at h
    exact compare_eq_iff_eq.mpr (by cases a; cases b; exact congrArg _ h)
  | gt => rw [hc] at h; exact compare_gt_iff_gt.mpr h

/-- The walk of `between` below two forked paths: copy the common part, then
squeeze the marker in. -/
def betweenPath (marker : T) : List (ℚ × T) → List (ℚ × T) → List (ℚ × T)
  | (lr, lm) :: low, (hr, hm) :: high =>
    if lr = hr then
      if lm < marker ∧ marker < hm then [(hr, marker)]
      else if lm = hm then (hr, hm) :: betweenPath marker low high
      -- diverged: follow the high path, the low one is cleared
      else (hr, hm) :: betweenPath marker [] high
    else [(rationalBetween (some lr) (some hr), marker)]
  | [], (hr, _) :: _ => [(rationalBetween none (some hr), marker)]
  | (lr, _) :: _, [] => [(rationalBetween (some lr) none, marker)]
  | [], [] => [(rationalBetween none none, marker)]
termination_by structural _ high => high

/-- An identifier between two bounds, holding `marker`. -/
def between (low high : Option (Identifier T)) (marker : T) : Identifier T :=
  match low, high with
  | some low, some high =>
    match cmp low high with
    | .gt => ⟨betweenPath marker high.path low.path⟩
    | .eq => high
    | .lt => ⟨betweenPath marker low.path high.path⟩
  | low, high =>
    ⟨[(rationalBetween (low.bind fun id => id.path.head?.map Prod.fst)
        (high.bind fun id => id.path.head?.map Prod.fst), marker)]⟩

theorem betweenPath_ne_nil (marker : T) (low high : List (ℚ × T)) :
    betweenPath marker low high ≠ [] := by
  fun_cases betweenPath marker low high <;> simp

theorem between_path_ne_nil {low high : Option (Identifier T)} (marker : T)
    (hhigh : ∀ id ∈ high, id.path ≠ []) : (between low high marker).path ≠ [] := by
  unfold between
  split
  next low high =>
    split
    · exact betweenPath_ne_nil marker _ _
    · exact hhigh high rfl
    · exact betweenPath_ne_nil marker _ _
  · exact cons_ne_nil _ _

/-! ### Between two identifiers. -/

theorem cons_lt_cons {x y : ℚ × T} {xs ys : List (ℚ × T)} :
    (⟨x :: xs⟩ : Identifier T) < ⟨y :: ys⟩ ↔
      toLex x < toLex y ∨ x = y ∧ (⟨xs⟩ : Identifier T) < ⟨ys⟩ := by
  show closed ⟨x :: xs⟩ < closed ⟨y :: ys⟩ ↔ _
  show _ :: _ < _ :: _ ↔ _
  rw [cons_lt_cons_iff, WithTop.coe_lt_coe, WithTop.coe_inj, toLex_inj]
  rfl

theorem cons_lt_nil (x : ℚ × T) (xs : List (ℚ × T)) : (⟨x :: xs⟩ : Identifier T) < ⟨[]⟩ := by
  show closed ⟨x :: xs⟩ < closed ⟨[]⟩
  show _ :: _ < _ :: _
  rw [cons_lt_cons_iff]
  exact .inl (WithTop.coe_lt_top _)

theorem not_nil_lt (ys : List (ℚ × T)) : ¬ (⟨[]⟩ : Identifier T) < ⟨ys⟩ := by
  cases ys with
  | nil => exact lt_irrefl _
  | cons y ys => exact not_lt_of_gt (cons_lt_nil y ys)

theorem cons_lt_cons_of_lt {r r' : ℚ} (h : r < r') (m m' : T) (xs ys : List (ℚ × T)) :
    (⟨(r, m) :: xs⟩ : Identifier T) < ⟨(r', m') :: ys⟩ :=
  cons_lt_cons.mpr (.inl (Prod.Lex.toLex_lt_toLex.mpr (.inl h)))

theorem betweenPath_nil_lt (marker : T) (high : List (ℚ × T)) :
    (⟨betweenPath marker [] high⟩ : Identifier T) < ⟨high⟩ := by
  cases high with
  | nil => exact cons_lt_nil _ _
  | cons y ys => exact cons_lt_cons_of_lt (sub_one_lt y.1) _ _ _ _

/-- **Strictly between.**  The walk stays between two paths that differ. -/
theorem betweenPath_strict (marker : T) {low high : List (ℚ × T)}
    (h : (⟨low⟩ : Identifier T) < ⟨high⟩) :
    (⟨low⟩ : Identifier T) < ⟨betweenPath marker low high⟩ ∧
      (⟨betweenPath marker low high⟩ : Identifier T) < ⟨high⟩ := by
  induction high generalizing low with
  | nil =>
    cases low with
    | nil => exact absurd h (lt_irrefl _)
    | cons x xs => exact ⟨cons_lt_cons_of_lt (lt_add_one x.1) _ _ _ _, cons_lt_nil _ _⟩
  | cons y ys ih =>
    cases low with
    | nil => exact absurd h (not_nil_lt _)
    | cons x xs =>
      obtain ⟨lr, lm⟩ := x
      obtain ⟨hr, hm⟩ := y
      unfold betweenPath
      split
      next heq =>
        subst heq
        split
        next hbetween =>
          -- the marker itself fits between the two
          refine ⟨cons_lt_cons.mpr (.inl ?_), cons_lt_cons.mpr (.inl ?_)⟩
          · exact Prod.Lex.toLex_lt_toLex.mpr (.inr ⟨rfl, hbetween.1⟩)
          · exact Prod.Lex.toLex_lt_toLex.mpr (.inr ⟨rfl, hbetween.2⟩)
        · split
          next hmarker =>
            -- a common node: the walk goes on behind it
            subst hmarker
            obtain hlt | ⟨-, hlt⟩ := cons_lt_cons.mp h
            · exact absurd hlt (lt_irrefl _)
            · obtain ⟨habove, hbelow⟩ := ih hlt
              exact ⟨cons_lt_cons.mpr (.inr ⟨rfl, habove⟩), cons_lt_cons.mpr (.inr ⟨rfl, hbelow⟩)⟩
          next hmarker =>
            -- the high node is already above; its own path bounds the rest
            obtain hlt | ⟨heq, -⟩ := cons_lt_cons.mp h
            · exact ⟨cons_lt_cons.mpr (.inl hlt),
                cons_lt_cons.mpr (.inr ⟨rfl, betweenPath_nil_lt marker ys⟩)⟩
            · exact absurd (congrArg Prod.snd heq) hmarker
      next hne =>
        have hlt : lr < hr := by
          obtain hlt | ⟨heq, -⟩ := cons_lt_cons.mp h
          · obtain hlt | ⟨heq, -⟩ := Prod.Lex.toLex_lt_toLex.mp hlt
            · exact hlt
            · exact absurd heq hne
          · exact absurd (congrArg Prod.fst heq) hne
        refine ⟨cons_lt_cons_of_lt ?_ _ _ _ _, cons_lt_cons_of_lt ?_ _ _ _ _⟩
        · show lr < (lr + hr) / 2
          linarith
        · show (lr + hr) / 2 < hr
          linarith

theorem between_of_lt {low high : Identifier T} (h : low < high) (marker : T) :
    low < between (some low) (some high) marker ∧
      between (some low) (some high) marker < high := by
  have hcmp : cmp low high = .lt := by
    rw [← compare_eq_cmp]
    exact compare_lt_iff_lt.mpr h
  simp only [between, hcmp]
  exact betweenPath_strict marker h

theorem between_self (id : Identifier T) (marker : T) :
    between (some id) (some id) marker = id := by
  have hcmp : cmp id id = .eq := by
    rw [← compare_eq_cmp]
    exact compare_eq_iff_eq.mpr rfl
  simp only [between, hcmp]

theorem between_none_lt (high : Identifier T) (marker : T) :
    between none (some high) marker < high := by
  obtain ⟨path⟩ := high
  cases path with
  | nil => exact cons_lt_nil _ _
  | cons y ys => exact cons_lt_cons_of_lt (sub_one_lt y.1) _ _ _ _

theorem lt_between_none {low : Identifier T} (h : low.path ≠ []) (marker : T) :
    low < between (some low) none marker := by
  obtain ⟨path⟩ := low
  cases path with
  | nil => exact absurd rfl h
  | cons x xs => exact cons_lt_cons_of_lt (lt_add_one x.1) _ _ _ _

def flat (i : Nat) (marker : T) : Identifier T := ⟨[((i : ℚ), marker)]⟩

theorem flat_lt_flat {i j : Nat} (h : i < j) (a b : T) : flat i a < flat j b := by
  show closed (flat i a) < closed (flat j b)
  show _ :: _ < _ :: _
  rw [cons_lt_cons_iff]
  exact .inl (WithTop.coe_lt_coe.mpr (Prod.Lex.toLex_lt_toLex.mpr (.inl (Nat.cast_lt.mpr h))))

theorem between_none_none (marker : T) : between none none marker = flat 0 marker := by
  show (⟨[((0 : ℚ), marker)]⟩ : Identifier T) = ⟨[(((0 : Nat) : ℚ), marker)]⟩
  rw [Nat.cast_zero]

theorem between_flat_none (i : Nat) (a marker : T) :
    between (some (flat i a)) none marker = flat (i + 1) marker := by
  show (⟨[((i : ℚ) + 1, marker)]⟩ : Identifier T) = ⟨[(((i + 1 : Nat) : ℚ), marker)]⟩
  rw [Nat.cast_succ]

end Order

end Identifier

/-! ## §3. The grow-only list. -/

structure GList (T : Type) [LinearOrder T] where
  list : BTreeSet (Identifier T)
  deriving DecidableEq

namespace GList

variable {T : Type} [LinearOrder T]

def new : GList T := ⟨∅⟩

instance : Inhabited (GList T) := ⟨new⟩

def apply (l : GList T) (id : Identifier T) : GList T := ⟨l.list.insert id⟩

def merge (l other : GList T) : GList T :=
  ⟨other.list.foldl (fun acc id => acc.insert id) l.list⟩

def len (l : GList T) : Nat := l.list.size

def last (l : GList T) : Option (Identifier T) := l.list.toList.getLast?

/-- The op that inserts `elem` after the given marker. -/
def insertAfter (l : GList T) (low : Option (Identifier T)) (elem : T) : Identifier T :=
  let high := low.bind fun low => l.list.toList.find? fun id => low < id
  Identifier.between low high elem

/-- The elements in order; `none` when an identifier has an empty path, where
the crate panics. -/
def read? (l : GList T) : Option (List T) := l.list.toList.mapM Identifier.value?

variable {l : GList T}

theorem ext_list {l' : GList T} (h : ∀ id, id ∈ l.list ↔ id ∈ l'.list) : l = l' := by
  cases l; cases l'
  congr
  exact set_ext h

theorem mem_apply (l : GList T) (id id' : Identifier T) :
    id' ∈ (l.apply id).list ↔ id' = id ∨ id' ∈ l.list :=
  mem_insert l.list id id'

theorem mem_merge (l l' : GList T) (id : Identifier T) :
    id ∈ (l.merge l').list ↔ id ∈ l.list ∨ id ∈ l'.list :=
  mem_foldl_insert l.list l'.list id

theorem len_apply (l : GList T) (id : Identifier T) :
    (l.apply id).len = if l.list.contains id then l.len else l.len + 1 :=
  Std.ExtTreeSet.size_insert

variable {elems : List T}

/-! ## §4. Lists that are only appended to. -/

/-- The identifiers of `elems`, appended one by one to an empty list. -/
def flats (elems : List T) : List (Identifier T) :=
  elems.zipIdx.map fun e => Identifier.flat e.2 e.1

omit [LinearOrder T] in
theorem flats_snoc (elems : List T) (elem : T) :
    flats (elems ++ [elem]) = flats elems ++ [.flat elems.length elem] := by
  unfold flats
  rw [zipIdx_append, map_append]
  simp

theorem flats_pairwise (elems : List T) : (flats elems).Pairwise (· < ·) := by
  unfold flats
  rw [pairwise_map, pairwise_iff_getElem]
  intro i j hi hj hij
  rw [getElem_zipIdx, getElem_zipIdx]
  exact Identifier.flat_lt_flat (by omega) _ _

theorem insertAfter_last (h : l.list.toList = flats elems) (elem : T) :
    l.insertAfter l.last elem = .flat elems.length elem := by
  unfold insertAfter last
  rw [h]
  induction elems using List.reverseRecOn with
  | nil => exact Identifier.between_none_none elem
  | append_singleton elems final _ =>
    rw [flats_snoc, getLast?_concat, length_append]
    have hnone : (flats elems ++ [Identifier.flat elems.length final]).find?
        (fun id => Identifier.flat elems.length final < id) = none := by
      rw [find?_eq_none]
      intro id hid
      have hle : id ≤ .flat elems.length final := by
        cases mem_append.mp hid with
        | inl hfront =>
          have hsorted := flats_pairwise (elems ++ [final])
          rw [flats_snoc, pairwise_append] at hsorted
          exact (hsorted.2.2 id hfront _ (mem_singleton_self _)).le
        | inr hlast => exact (mem_singleton.mp hlast).le
      exact fun hlt => absurd (of_decide_eq_true hlt) (not_lt.mpr hle)
    show Identifier.between (some _) (List.find? _ _) elem = _
    rw [hnone]
    exact Identifier.between_flat_none elems.length final elem

theorem toList_append (h : l.list.toList = flats elems) (elem : T) :
    (l.apply (l.insertAfter l.last elem)).list.toList = flats (elems ++ [elem]) := by
  refine toList_eq_of_sorted (flats_pairwise _) fun id => ?_
  rw [mem_apply, insertAfter_last h, flats_snoc, mem_append, mem_singleton, ← h,
    mem_toList, or_comm]

theorem read_flats (h : l.list.toList = flats elems) : l.read? = some elems := by
  unfold read?
  rw [h]
  unfold flats
  rw [mapM_map]
  have hval : (Identifier.value? ∘ fun e : T × Nat => Identifier.flat e.2 e.1)
      = fun e => some e.1 := rfl
  have hpure := mapM_pure (m := Option) (l := elems.zipIdx) (f := Prod.fst)
  exact hpure.trans (congrArg some (zipIdx_map_fst 0 elems))

end GList

end DessPlay.Crdts
