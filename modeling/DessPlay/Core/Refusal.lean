/-
  DessPlay.Core.Refusal
  **WHAT A REFUSED OP LEAVES BEHIND** (`dessplay-core/src/state.rs`).

  `applyForBroadcast` computes its verdict apart from the mutation.  For
  registers, sets, the chat and map UPDATES the two agree: a refused op was
  already there.  A map REMOVAL, which no mutator issues and the decoder accepts,
  is dropped on the datagram path; on the reliable path it is applied first and
  then reported as nothing new.
-/
import DessPlay.Core.Broadcast
import DessPlay.Lib.Machine

namespace DessPlay.Crdts.Map

open BTree

variable {K V O A : Type} [LinearOrder K] [LinearOrder A] [Val V O A]

/-! ## §1. Removals, whatever the clocks say. -/

theorem applyKeysetRm_vacuous (m : Map K V A) {clock : VClock A} (h : ∀ a, clock.get a = 0) :
    m.applyKeysetRm ∅ clock = m := by
  have hcovers : m.clock.covers clock = true :=
    (VClock.covers_iff _ _).mpr fun a n ha => by
      rw [← VClock.get_of_dots ha, h a]
      exact Nat.zero_le _
  have hnone : (∅ : BTreeSet K).foldl (removeKey clock) m.entries = m.entries := by
    rw [Std.ExtTreeSet.foldl_eq_foldl_toList]
    rfl
  unfold applyKeysetRm VClock.partialCmp
  rw [hnone]
  by_cases heq : m.clock = clock
  · simp only [heq, if_true]
    rw [← heq]
  · simp only [if_neg heq, hcovers, if_true]

theorem applyKeysetRm_new_deferred {clock : VClock A} {a : A} (h : 0 < clock.get a)
    (keyset : BTreeSet K) : ((new : Map K V A).applyKeysetRm keyset clock).deferred ≠ [] := by
  have hne : (VClock.new : VClock A) ≠ clock := by
    rintro rfl
    exact absurd h (by simp)
  have hcovers : ¬ (VClock.new : VClock A).covers clock = true := by
    intro hc
    cases hdot : clock.dots[a]? with
    | none => exact absurd (VClock.get_of_dots_none hdot) h.ne'
    | some n =>
      have hle := (VClock.covers_iff _ _).mp hc a n hdot
      rw [VClock.get_of_dots hdot] at h
      rw [VClock.get_new] at hle
      omega
  unfold applyKeysetRm VClock.partialCmp
  by_cases hrev : clock.covers VClock.new = true <;>
    simp [new, hne, hcovers, hrev, appendDeferred]

theorem applyKeysetRm_unsupported {m : Map K V A} {key : K} {v : V}
    (hentry : m.entries[key]? = some ⟨VClock.new, v⟩) {keyset : BTreeSet K} (hkey : key ∈ keyset)
    (clock : VClock A) : (m.applyKeysetRm keyset clock).entries[key]? = none := by
  have hentries : (m.applyKeysetRm keyset clock).entries
      = keyset.toList.foldl (removeKey clock) m.entries := by
    rw [← Std.ExtTreeSet.foldl_eq_foldl_toList]
    unfold applyKeysetRm
    dsimp only
    split <;> rfl
  have hempty : (VClock.new.resetRemove clock : VClock A).isEmpty = true :=
    (VClock.isEmpty_iff _).mpr fun a => by
      rw [VClock.dots_resetRemove]
      cases clock.dots[a]? <;> simp
  -- one turn removes the key it is for and leaves this one alone otherwise
  have hturn : ∀ entries : BTreeMap K (Entry V A), ∀ k : K,
      (entries[key]? = none ∨ entries[key]? = some ⟨VClock.new, v⟩) →
      (removeKey clock entries k)[key]? = if k = key then none else entries[key]? := by
    intro entries k hinv
    unfold removeKey
    by_cases hk : k = key
    · subst hk
      rcases hinv with hnone | hsome
      · simp [hnone]
      · simp [hsome, hempty]
    · cases hek : entries[k]? with
      | none => simp [hk]
      | some e =>
        dsimp only
        split
        · rw [getElem?_erase, if_neg (Ne.symm hk)]
        · rw [getElem?_insert, if_neg (Ne.symm hk)]
  rw [hentries]
  refine (Machine.foldl_visits
    (fun entries : BTreeMap K (Entry V A) =>
      entries[key]? = none ∨ entries[key]? = some ⟨VClock.new, v⟩)
    (fun entries k => k = key → entries[key]? = none) ?_ ?_ ?_ keyset.toList (.inr hentry)).2 key
      ((mem_toList _ _).mpr hkey) rfl
  · intro entries k hinv
    rw [hturn entries k hinv]
    split
    · exact .inl rfl
    · exact hinv
  · intro entries k hinv hk
    rw [hturn entries k hinv, if_pos hk]
  · intro entries k k' hinv hdone hk'
    rw [hturn entries k hinv, hdone hk']
    exact ite_self _

end DessPlay.Crdts.Map

namespace DessPlay.Core

open Crdts BTree

/-! ## §2. The verdict and the state. -/

/-- The op removes map keys: it names some, or its clock claims some dot.  No
mutator issues such an op; the decoder accepts it. -/
def CrdtOp.Removes : CrdtOp → Prop
  | .map _ (.rm clock keyset) => (∃ key, key ∈ keyset) ∨ ∃ actor, 0 < clock.get actor
  | _ => False

namespace CrdtState

def withMap (f : MapField) (m : LwwMap f.Key f.Val) : CrdtState :=
  { new with maps := Function.update new.maps f m }

theorem maps_withMap (f : MapField) (m : LwwMap f.Key f.Val) : (withMap f m).maps f = m := by
  unfold withMap
  exact Function.update_self ..

/-- Every removal changes some state: the one that has an unsupported entry under
a key it names, or the empty one, which remembers the dot it claims. -/
theorem exists_apply_rm_ne {f : MapField} {clock : VClock ActorId} {keyset : BTreeSet f.Key}
    (h : (CrdtOp.map f (.rm clock keyset)).Removes) :
    ∃ s : CrdtState, s.apply (.map f (.rm clock keyset)) ≠ s := by
  suffices hmap : ∃ m : LwwMap f.Key f.Val, m.applyKeysetRm keyset clock ≠ m by
    obtain ⟨m, hm⟩ := hmap
    refine ⟨withMap f m, fun heq => hm ?_⟩
    have hf := congrArg (fun s => s.maps f) heq
    simpa only [apply, Map.apply, maps_withMap, Function.update_self] using hf
  rcases h with ⟨key, hkey⟩ | ⟨actor, hdot⟩
  · refine ⟨⟨VClock.new, (∅ : BTreeMap _ _).insert key ⟨VClock.new, LwwCell.new⟩, []⟩, ?_⟩
    intro heq
    have hpresent := getElem?_insert (∅ : BTreeMap f.Key (Entry (LwwCell f.Val) ActorId)) key key
      ⟨VClock.new, LwwCell.new⟩
    rw [if_pos rfl] at hpresent
    have hgone := Map.applyKeysetRm_unsupported
      (m := ⟨VClock.new, (∅ : BTreeMap _ _).insert key ⟨VClock.new, LwwCell.new⟩, []⟩)
      hpresent hkey clock
    rw [heq, hpresent] at hgone
    cases hgone
  · refine ⟨Map.new, fun heq => ?_⟩
    exact Map.applyKeysetRm_new_deferred hdot keyset (congrArg Map.deferred heq)

theorem refused_of_not_map {s : CrdtState} {op : CrdtOp} {via : Bool}
    (hmap : ∀ f mop, op ≠ .map f mop) (h : (s.applyForBroadcast op via).2 = false) :
    (s.applyForBroadcast op via).1 = s := by
  cases op with
  | map f mop => exact absurd rfl (hmap f mop)
  | reg r w =>
    have hsame : (registerChanged (s.regs r) w).1 = s.regs r := by
      have hverdict : (registerChanged (s.regs r) w).2 = false := h
      rw [registerChanged_spec] at hverdict ⊢
      have hle : LwwCell.single w ≤ s.regs r := by simpa using hverdict
      exact (LwwCell.apply_eq_sup _ _).trans (sup_eq_left.mpr hle)
    show ({ s with regs := Function.update s.regs r _ } : CrdtState) = s
    rw [hsame, Function.update_eq_self]
  | set g x =>
    have hsame : (gsetChanged (s.sets g) x).1 = s.sets g := by
      have hverdict : (gsetChanged (s.sets g) x).2 = false := h
      unfold gsetChanged at hverdict ⊢
      split at hverdict
      next hin => rw [if_pos hin]
      · cases hverdict
    show ({ s with sets := Function.update s.sets g _ } : CrdtState) = s
    rw [hsame, Function.update_eq_self]
  | chat id =>
    have hsame : (glistChanged s.chat id).1 = s.chat := by
      have hverdict : (glistChanged s.chat id).2 = false := h
      rw [glistChanged_spec] at hverdict ⊢
      have hin : id ∈ s.chat.list := by simpa using hverdict
      refine GList.ext_list fun id' => (GList.mem_apply s.chat id id').trans ?_
      exact ⟨fun h' => h'.elim (fun he => he ▸ hin) fun hold => hold, .inr⟩
    show ({ s with chat := _ } : CrdtState) = s
    rw [hsame]

theorem refused_of_map {s : CrdtState} {f : MapField} {mop : LwwMapOp f.Key f.Val} {via : Bool}
    (hop : via = true ∨ ¬ (CrdtOp.map f mop).Removes)
    (h : (s.applyForBroadcast (.map f mop) via).2 = false) :
    (s.applyForBroadcast (.map f mop) via).1 = s := by
  cases via with
  | true =>
    rcases applyIfOrderly_spec s (.map f mop) with ⟨hyes, -⟩ | ⟨-, heq⟩
    · have hno : (s.applyIfOrderly (.map f mop)).2 = false := h
      rw [hyes] at hno
      cases hno
    · exact heq
  | false =>
    have hsame : (s.maps f).apply mop = s.maps f := by
      cases mop with
      | up dot key w =>
        have hverdict : decide ((s.maps f).clock.get dot.actor < dot.counter) = false := h
        exact Map.apply_seen (not_lt.mp (of_decide_eq_false hverdict))
      | rm clock keyset =>
        obtain ⟨hkeys, hdots⟩ := not_or.mp (hop.resolve_left Bool.false_ne_true)
        have hempty : keyset = ∅ := set_ext fun key =>
          ⟨fun hk => absurd ⟨key, hk⟩ hkeys, fun hk => absurd hk Std.ExtTreeSet.not_mem_empty⟩
        rw [hempty]
        exact Map.applyKeysetRm_vacuous _ fun a =>
          Nat.eq_zero_of_not_pos fun hpos => hdots ⟨a, hpos⟩
    show ({ s with maps := Function.update s.maps f _ } : CrdtState) = s
    rw [hsame, Function.update_eq_self]

/-- **A refused op changes nothing, in every state, exactly when it is no removal
or came as a datagram**: the reliable path applies a removal and then reports
that no dot was new. -/
theorem refused_unchanged_iff (op : CrdtOp) (via : Bool) :
    (∀ s : CrdtState,
        (s.applyForBroadcast op via).2 = false → (s.applyForBroadcast op via).1 = s) ↔
      via = true ∨ ¬ op.Removes := by
  constructor
  · intro hall
    by_contra hcon
    obtain ⟨hvia, hrm⟩ := not_or.mp hcon
    obtain rfl := Bool.eq_false_iff.mpr hvia
    cases op with
    | map f mop =>
      cases mop with
      | up dot key w => exact hrm id
      | rm clock keyset =>
        obtain ⟨s, hs⟩ := exists_apply_rm_ne (not_not.mp hrm)
        exact hs (hall s rfl)
    | reg r w => exact hrm id
    | set g x => exact hrm id
    | chat line => exact hrm id
  · intro hop s h
    cases op with
    | map f mop => exact refused_of_map hop h
    | reg r w => exact refused_of_not_map (fun _ _ => nofun) h
    | set g x => exact refused_of_not_map (fun _ _ => nofun) h
    | chat id => exact refused_of_not_map (fun _ _ => nofun) h

/-- One file is marked watched; then a removal of it arrives on the reliable
stream.  It is refused, and the mark is gone. -/
theorem reliable_removal_refused_and_applied :
    ∃ (s : CrdtState) (op : CrdtOp),
      (s.applyForBroadcast op false).2 = false ∧
      (((s.applyForBroadcast op false).1.maps .watched).get (7 : Ed2kHash)).isNone ∧
      ((s.maps .watched).get (7 : Ed2kHash)).isSome := by
  refine ⟨CrdtState.new.apply (.map .watched (.up ⟨1, 1⟩ (7 : Ed2kHash) ⟨10, true⟩)),
    .map .watched (.rm (VClock.new.apply ⟨1, 1⟩) ((∅ : BTreeSet Ed2kHash).insert 7)), ?_⟩
  decide +kernel

end CrdtState

end DessPlay.Core
