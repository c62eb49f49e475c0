/-
  DessPlay.Core.Replica
  **A REPLICA IS THE JOIN OF THE PUTS IT HAS SEEN.**

  The map theory, lifted to the whole state.  `CrdtState.join` reads a state as
  an element of one semilattice, `CrdtOp.delta` is what a put adds to it:

    * an op the state TAKES (`Takes`: a map op with a new dot, any other op) adds
      its delta, an op it does not take changes nothing;
    * a state without pending removals is determined by its join.

  `CutOf` lifts `Map.Cut`: relative to the ops `L` that exist, every map holds
  exactly the updates its clock covers.
-/
import DessPlay.Core.Broadcast

namespace DessPlay.Core

open BTree Joins Crdts List Function CrdtState

/-! ## §1. Puts, field by field. -/

namespace CrdtOp

/-- The op carries an update of map `f`. -/
def up (f : MapField) (u : LwwUpdate f.Key f.Val) : CrdtOp := .map f u.toOp

theorem up_injective {f : MapField} {u v : LwwUpdate f.Key f.Val} (h : up f u = up f v) :
    u = v := by
  obtain ⟨d, k, o⟩ := u
  obtain ⟨d', k', o'⟩ := v
  simp only [up, Update.toOp, map.injEq, heq_eq_eq, true_and, Map.Op.up.injEq] at h
  obtain ⟨rfl, rfl, rfl⟩ := h
  rfl

/-- Put-style: not a `Map::Rm`.  The program emits no other op. -/
def IsPut : CrdtOp → Prop
  | .map _ (.rm _ _) => False
  | _ => True

instance : DecidablePred IsPut
  | .map _ (.rm _ _) => .isFalse id
  | .map _ (.up _ _ _) => .isTrue trivial
  | .reg _ _ => .isTrue trivial
  | .set _ _ => .isTrue trivial
  | .chat _ => .isTrue trivial

def dot? : CrdtOp → Option (MapField × Dot ActorId)
  | .map f (.up d _ _) => some (f, d)
  | _ => none

theorem dot?_up (f : MapField) (u : LwwUpdate f.Key f.Val) : (up f u).dot? = some (f, u.dot) :=
  rfl

theorem eq_up_of_dot? {op : CrdtOp} {f : MapField} {d : Dot ActorId} (h : op.dot? = some (f, d)) :
    ∃ u, op = up f u ∧ u.dot = d := by
  cases op with
  | map g op =>
    cases op with
    | rm c ks => cases h
    | up d' k o =>
      cases h
      exact ⟨⟨d, k, o⟩, rfl, rfl⟩
  | reg r w => cases h
  | set g x => cases h
  | chat id => cases h

@[elab_as_elim] theorem IsPut.cases {motive : CrdtOp → Prop} {op : CrdtOp} (h : op.IsPut)
    (hup : ∀ f u, motive (.up f u)) (hreg : ∀ r w, motive (.reg r w))
    (hset : ∀ g x, motive (.set g x)) (hchat : ∀ id, motive (.chat id)) : motive op := by
  cases op with
  | map f op =>
    cases op with
    | rm c ks => exact absurd h (by simp [IsPut])
    | up d k o => exact hup f ⟨d, k, o⟩
  | reg r w => exact hreg r w
  | set g x => exact hset g x
  | chat id => exact hchat id

end CrdtOp

namespace CrdtState

/-- No map holds a deferred removal. -/
def NoDeferred (s : CrdtState) : Prop := ∀ f, (s.maps f).deferred = []

def WellFormed (s : CrdtState) : Prop := ∀ f, (s.maps f).WellFormed

theorem WellFormed.noDeferred {s : CrdtState} (h : s.WellFormed) : s.NoDeferred :=
  fun f => (h f).noDeferred

@[ext] theorem ext_fields {s t : CrdtState} (hm : ∀ f, s.maps f = t.maps f)
    (hr : ∀ r, s.regs r = t.regs r) (hs : ∀ g, s.sets g = t.sets g) (hc : s.chat = t.chat)
    (hp : s.protocolVersion = t.protocolVersion) : s = t := by
  cases s; cases t
  congr
  · exact funext hm
  · exact funext hr
  · exact funext hs

/-! ### What `apply` leaves in each field. -/

section Apply

variable (s : CrdtState)

@[simp] theorem maps_apply_self (f : MapField) (op : LwwMapOp f.Key f.Val) :
    (s.apply (.map f op)).maps f = (s.maps f).apply op :=
  update_self ..

theorem maps_apply_ne {f g : MapField} (op : LwwMapOp f.Key f.Val) (h : g ≠ f) :
    (s.apply (.map f op)).maps g = s.maps g :=
  update_of_ne h ..

@[simp] theorem maps_apply_reg (r : RegField) (w : LwwRegOp r.Val) :
    (s.apply (.reg r w)).maps = s.maps := rfl

@[simp] theorem maps_apply_set (g : SetField) (x : g.Elem) :
    (s.apply (.set g x)).maps = s.maps := rfl

@[simp] theorem maps_apply_chat (id : Identifier ChatMessage) :
    (s.apply (.chat id)).maps = s.maps := rfl

@[simp] theorem regs_apply_self (r : RegField) (w : LwwRegOp r.Val) :
    (s.apply (.reg r w)).regs r = (s.regs r).apply w :=
  update_self ..

theorem regs_apply_ne {r r' : RegField} (w : LwwRegOp r.Val) (h : r' ≠ r) :
    (s.apply (.reg r w)).regs r' = s.regs r' :=
  update_of_ne h ..

end Apply

end CrdtState

/-! ## §2. The lattice of states. -/

/-- A state's content: the maps' lattices, the registers, the sets, the chat and
the version number, each growing. -/
abbrev StateJoin : Type :=
  ((f : MapField) → MapJoin f.Key (LwwCell f.Val) ActorId) × ((r : RegField) → LwwCell r.Val) ×
    ((g : SetField) → Set g.Elem) × Set (Identifier ChatMessage) × Nat

def CrdtOp.delta : CrdtOp → StateJoin
  | .map f (.up d k o) => (update ⊥ f (Map.upDelta d k o), ⊥)
  | .map _ (.rm _ _) => ⊥
  | .reg r w => (⊥, update ⊥ r (LwwCell.single w), ⊥)
  | .set g x => (⊥, ⊥, update ⊥ g {x}, ⊥)
  | .chat id => (⊥, ⊥, ⊥, {id}, ⊥)

theorem sup_update_bot {ι : Type} [DecidableEq ι] {L : ι → Type} [∀ i, SemilatticeSup (L i)]
    [∀ i, OrderBot (L i)] (x : (i : ι) → L i) (i j : ι) (y : L i) :
    (x ⊔ update ⊥ i y) j = update x i (x i ⊔ y) j := by
  by_cases h : j = i
  · subst h
    rw [Pi.sup_apply, update_self, update_self]
  · rw [Pi.sup_apply, update_of_ne h, update_of_ne h]
    exact sup_bot_eq _

namespace CrdtState

def join (s : CrdtState) : StateJoin :=
  (fun f => (s.maps f).join, s.regs, fun g => {x | x ∈ (s.sets g).value},
    {id | id ∈ s.chat.list}, s.protocolVersion)

/-- The op is not discarded as already seen: a map op whose dot is new, or any
op of another kind. -/
def Takes (s : CrdtState) : CrdtOp → Prop
  | .map f (.up d _ _) => (s.maps f).clock.get d.actor < d.counter
  | _ => True

instance (s : CrdtState) : DecidablePred s.Takes
  | .map f (.up d _ _) =>
    inferInstanceAs (Decidable ((s.maps f).clock.get d.actor < d.counter))
  | .map _ (.rm _ _) => .isTrue trivial
  | .reg _ _ => .isTrue trivial
  | .set _ _ => .isTrue trivial
  | .chat _ => .isTrue trivial

variable {s t : CrdtState} {f : MapField}

variable {u : LwwUpdate f.Key f.Val}

theorem takes_up :
    s.Takes (.up f u) ↔ (s.maps f).clock.get u.dot.actor < u.dot.counter := Iff.rfl

theorem join_injective (hs : s.NoDeferred) (ht : t.NoDeferred) (h : s.join = t.join) : s = t := by
  obtain ⟨hm, hr, hg, hc, hp⟩ :
      _ ∧ _ ∧ _ ∧ _ ∧ s.protocolVersion = t.protocolVersion := by
    simpa only [join, Prod.mk.injEq] using h
  apply ext_fields
  · exact fun f => Map.join_injective ((hs f).trans (ht f).symm) (congrFun hm f)
  · exact congrFun hr
  · exact fun g => GSet.ext_value fun x => Set.ext_iff.mp (congrFun hg g) x
  · exact GList.ext_list fun id => Set.ext_iff.mp hc id
  · exact hp

variable {op : CrdtOp}

theorem NoDeferred.apply (h : s.NoDeferred) (hop : op.IsPut) : (s.apply op).NoDeferred := by
  refine hop.cases (fun f u => ?_) (fun _ _ => h) (fun _ _ => h) (fun _ => h)
  intro g
  by_cases hg : g = f
  · subst hg
    rw [CrdtOp.up, maps_apply_self]
    exact Map.apply_up_deferred (h g) _ _ _
  · rw [CrdtOp.up, maps_apply_ne _ _ hg]
    exact h g

theorem NoDeferred.foldl_apply (h : s.NoDeferred) {ops : List CrdtOp}
    (hops : ∀ op ∈ ops, op.IsPut) : (ops.foldl CrdtState.apply s).NoDeferred := by
  induction ops generalizing s with
  | nil => exact h
  | cons op ops ih =>
    exact ih (h.apply (hops op mem_cons_self)) fun o ho =>
      hops o (mem_cons_of_mem _ ho)

/-- **An op that is taken adds its delta.** -/
theorem join_apply (h : s.NoDeferred) (hop : op.IsPut) (htakes : s.Takes op) :
    (s.apply op).join = s.join ⊔ op.delta := by
  revert htakes
  refine hop.cases (fun f u htakes => ?_) (fun r w _ => ?_) (fun g x _ => ?_) (fun id _ => ?_)
  · have hmaps : (fun g => ((s.apply (.up f u)).maps g).join) =
        (fun g => (s.maps g).join) ⊔ update ⊥ f (Map.upDelta u.dot u.key u.op) := by
      funext g
      rw [sup_update_bot]
      by_cases hg : g = f
      · subst hg
        rw [CrdtOp.up, maps_apply_self, update_self]
        exact Map.join_apply_new (h g) htakes
      · rw [CrdtOp.up, maps_apply_ne _ _ hg, update_of_ne hg]
    exact Prod.ext hmaps (sup_bot_eq _).symm
  · have hregs : (s.apply (.reg r w)).regs =
        s.regs ⊔ update ⊥ r (LwwCell.single w) := by
      funext r'
      rw [sup_update_bot, ← LwwCell.apply_eq_sup]
      rfl
    exact Prod.ext (sup_bot_eq _).symm (Prod.ext hregs (sup_bot_eq _).symm)
  · have hsets : (fun g' => {y | y ∈ ((s.apply (.set g x)).sets g').value}) =
        (fun g' => {y | y ∈ (s.sets g').value}) ⊔ update ⊥ g {x} := by
      funext g'
      rw [sup_update_bot]
      by_cases hg : g' = g
      · subst hg
        rw [update_self]
        ext y
        show y ∈ (update s.sets g' _ g').value ↔ y ∈ (s.sets g').value ∨ y = x
        rw [update_self, GSet.mem_apply, or_comm]
      · rw [update_of_ne hg]
        show {y | y ∈ (update s.sets g _ g').value} = _
        rw [update_of_ne hg]
    exact Prod.ext (sup_bot_eq _).symm (Prod.ext (sup_bot_eq _).symm
      (Prod.ext hsets (sup_bot_eq _).symm))
  · have hchat : {i | i ∈ (s.apply (.chat id)).chat.list} = {i | i ∈ s.chat.list} ⊔ {id} := by
      ext i
      show i ∈ (s.chat.apply id).list ↔ i ∈ s.chat.list ∨ i = id
      rw [GList.mem_apply, or_comm]
    exact Prod.ext (sup_bot_eq _).symm (Prod.ext (sup_bot_eq _).symm
      (Prod.ext (sup_bot_eq _).symm (Prod.ext hchat (sup_bot_eq _).symm)))

theorem apply_of_not_takes (hop : op.IsPut) (h : ¬ s.Takes op) : s.apply op = s := by
  revert h
  refine hop.cases (fun f u h => ?_) (fun _ _ h => absurd trivial h)
    (fun _ _ h => absurd trivial h) (fun _ h => absurd trivial h)
  have hseen : u.dot.counter ≤ (s.maps f).clock.get u.dot.actor := not_lt.mp h
  have hmaps : update s.maps f ((s.maps f).apply u.toOp) = s.maps := by
    rw [Update.toOp, Map.apply_seen hseen, update_eq_self]
  show { s with maps := update s.maps f ((s.maps f).apply u.toOp) } = s
  rw [hmaps]

theorem clock_apply_up (h : s.NoDeferred) (u : LwwUpdate f.Key f.Val) (g : MapField) (a : ActorId) :
    ((s.apply (.up f u)).maps g).clock.get a =
      if g = f ∧ a = u.dot.actor then max ((s.maps g).clock.get a) u.dot.counter
      else (s.maps g).clock.get a := by
  by_cases hg : g = f
  · subst hg
    rw [CrdtOp.up, maps_apply_self]
    by_cases hseen : u.dot.counter ≤ (s.maps g).clock.get u.dot.actor
    · rw [Update.toOp, Map.apply_seen hseen]
      split
      next ha => rw [ha.2]; omega
      · rfl
    · rw [Update.toOp, Map.apply_new (h g) (not_le.mp hseen)]
      show ((s.maps g).clock.apply u.dot).get a = _
      rw [VClock.get_apply]
      simp only [true_and]
  · rw [CrdtOp.up, maps_apply_ne _ _ hg, if_neg fun hc => hg hc.1]

theorem clock_apply_cases (h : s.NoDeferred) (hop : op.IsPut) (f : MapField) (a : ActorId) :
    ((s.apply op).maps f).clock.get a = (s.maps f).clock.get a ∨
      ∃ u, op = .up f u ∧ s.Takes op ∧ u.dot.actor = a ∧
        u.dot.counter = ((s.apply op).maps f).clock.get a := by
  refine hop.cases (fun g u => ?_) (fun _ _ => .inl rfl) (fun _ _ => .inl rfl)
    (fun _ => .inl rfl)
  by_cases hhit : f = g ∧ a = u.dot.actor
  · obtain ⟨rfl, rfl⟩ := hhit
    rw [clock_apply_up h, if_pos ⟨rfl, rfl⟩]
    by_cases htakes : s.Takes (.up f u)
    · refine .inr ⟨u, rfl, htakes, rfl, ?_⟩
      have hlt : (s.maps f).clock.get u.dot.actor < u.dot.counter := htakes
      omega
    · have hle : u.dot.counter ≤ (s.maps f).clock.get u.dot.actor := not_lt.mp htakes
      exact .inl (by omega)
  · exact .inl (by rw [clock_apply_up h, if_neg hhit])

theorem not_takes_apply_self (h : s.NoDeferred) (u : LwwUpdate f.Key f.Val) :
    ¬ (s.apply (.up f u)).Takes (.up f u) := by
  show ¬ ((s.apply (.up f u)).maps f).clock.get u.dot.actor < u.dot.counter
  rw [clock_apply_up h, if_pos ⟨rfl, rfl⟩]
  omega

theorem upDelta_le_of_delta_le (h : (CrdtOp.up f u).delta ≤ s.join) :
    Map.upDelta u.dot u.key u.op ≤ (s.maps f).join := by
  have hself : (CrdtOp.up f u).delta.1 f = Map.upDelta u.dot u.key u.op :=
    update_self ..
  exact hself ▸ h.1 f

theorem not_takes_of_delta_le (h : (CrdtOp.up f u).delta ≤ s.join) : ¬ s.Takes (.up f u) := by
  have hmap := upDelta_le_of_delta_le h
  have hseen : dotSeen u.dot u.dot.actor ≤ (s.maps f).clock.seen u.dot.actor :=
    hmap.1 u.dot.actor
  rw [dotSeen, if_pos rfl] at hseen
  rw [takes_up, not_lt]
  have hne : (s.maps f).clock.seen u.dot.actor ≠ ⊥ := by
    intro hbot
    rw [hbot] at hseen
    exact absurd hseen (WithBot.not_coe_le_bot _)
  rw [VClock.seen_eq_coe_get hne] at hseen
  exact WithBot.coe_le_coe.mp hseen

theorem clock_le_of_join_le (h : s.join ≤ t.join) (f : MapField) (a : ActorId) :
    (s.maps f).clock.get a ≤ (t.maps f).clock.get a :=
  Map.get_le_of_join_le (h.1 f) a

theorem Takes.of_join_le (h : s.join ≤ t.join) (ht : t.Takes op) : s.Takes op := by
  cases op with
  | map f op =>
    cases op with
    | rm c ks => trivial
    | up d k o => exact lt_of_le_of_lt (clock_le_of_join_le h f d.actor) ht
  | reg r w => trivial
  | set g x => trivial
  | chat id => trivial

theorem join_le_foldl_apply (h : s.NoDeferred) {ops : List CrdtOp} (hops : ∀ op ∈ ops, op.IsPut) :
    s.join ≤ (ops.foldl apply s).join := by
  induction ops generalizing s with
  | nil => exact le_rfl
  | cons op ops ih =>
    have hput := hops op mem_cons_self
    refine le_trans ?_ (ih (h.apply hput) fun o ho => hops o (mem_cons_of_mem _ ho))
    by_cases htakes : s.Takes op
    · exact join_apply h hput htakes ▸ le_sup_left
    · rw [apply_of_not_takes hput htakes]

/-! ### What a local write issues. -/

theorem isPut_writeOp (s : CrdtState) (actor : ActorId) (ts : SharedTimestamp) (w : Write) :
    (s.writeOp actor ts w).IsPut := by
  cases w <;> trivial

theorem dot_writeOp {actor : ActorId} {ts : SharedTimestamp} {w : Write}
    (h : s.writeOp actor ts w = .up f u) : u.dot = ⟨actor, (s.maps f).clock.get actor + 1⟩ := by
  have hdot : (s.writeOp actor ts w).dot? = some (f, u.dot) := h ▸ CrdtOp.dot?_up f u
  cases w with
  | map g key value =>
    obtain ⟨rfl, hd⟩ := Prod.mk.inj (Option.some.inj hdot)
    exact hd.symm
  | reg r value => cases hdot
  | set g x => cases hdot
  | chat message => cases hdot

theorem takes_writeOp (s : CrdtState) (actor : ActorId) (ts : SharedTimestamp) (w : Write) :
    s.Takes (s.writeOp actor ts w) := by
  cases w with
  | map f key value => exact Nat.lt_succ_self _
  | reg r value => trivial
  | set g x => trivial
  | chat message => trivial

/-! ## §3. Well-formed states and cuts. -/

theorem WellFormed.new : new.WellFormed := fun _ => Map.WellFormed.new

theorem WellFormed.apply (h : s.WellFormed) (hop : op.IsPut) : (s.apply op).WellFormed := by
  refine hop.cases (fun f u => ?_) (fun _ _ => h) (fun _ _ => h) (fun _ => h)
  intro g
  by_cases hg : g = f
  · subst hg
    rw [CrdtOp.up, maps_apply_self]
    exact (h g).apply_up _ _ _
  · rw [CrdtOp.up, maps_apply_ne _ _ hg]
    exact h g

theorem WellFormed.merge (hs : s.WellFormed) (ht : t.WellFormed) :
    (s.merge t).WellFormed := fun f => (hs f).merge (ht f)

/-- Relative to the ops `L` that exist and the common start `s₀`, every map holds
exactly the updates of `L` that its clock covers. -/
def CutOf (L : Set CrdtOp) (s₀ s : CrdtState) : Prop :=
  ∀ f, Map.Cut {u | CrdtOp.up f u ∈ L} (s₀.maps f) (s.maps f)

/-- No update of `L` lies strictly between the clock and this op. -/
def NoGap (L : Set CrdtOp) (s : CrdtState) (op : CrdtOp) : Prop :=
  ∀ f u, op = .up f u → ∀ v, CrdtOp.up f v ∈ L → v.dot.actor = u.dot.actor →
    (s.maps f).clock.get u.dot.actor < v.dot.counter → v.dot.counter ≤ u.dot.counter → v = u

section Cuts

variable {L : Set CrdtOp} {s₀ s t : CrdtState}

theorem CutOf.base (h : s₀.NoDeferred) : CutOf L s₀ s₀ := fun f => Map.Cut.base (h f)

theorem CutOf.noDeferred (h : CutOf L s₀ s) : s.NoDeferred := fun f => (h f).noDeferred

theorem CutOf.apply (h : CutOf L s₀ s) {op : CrdtOp} (hop : op.IsPut) (hL : op ∈ L)
    (hgap : NoGap L s op) : CutOf L s₀ (s.apply op) := by
  revert hL hgap
  refine hop.cases (fun f u hL hgap => ?_) (fun _ _ _ _ => h) (fun _ _ _ _ => h)
    (fun _ _ _ => h)
  intro g
  by_cases hg : g = f
  · subst hg
    rw [CrdtOp.up, maps_apply_self]
    exact (h g).apply hL fun v hv => hgap g u rfl v hv
  · rw [CrdtOp.up, maps_apply_ne _ _ hg]
    exact h g

theorem CutOf.delta_le (h : CutOf L s₀ s) {op : CrdtOp} (hop : op.IsPut) (hL : op ∈ L)
    (hfresh : s₀.Takes op) (hseen : ¬ s.Takes op) : op.delta ≤ s.join := by
  revert hL hfresh hseen
  refine hop.cases (fun f u hL hfresh hseen => ?_) (fun _ _ _ _ hs => absurd trivial hs)
    (fun _ _ _ _ hs => absurd trivial hs) (fun _ _ _ hs => absurd trivial hs)
  obtain ⟨l, hl, hjoin⟩ := (h f).content
  have hmem : u ∈ l := (hl u).mpr ⟨hL, hfresh, not_lt.mp hseen⟩
  have hle : Map.upDelta u.dot u.key u.op ≤ (s.maps f).join :=
    hjoin ▸ delta_le_joinAll Map.delta _ hmem
  refine ⟨fun g => ?_, bot_le⟩
  by_cases hg : g = f
  · subst hg
    exact (update_self ..).le.trans hle
  · exact (update_of_ne hg ..).le.trans bot_le

theorem CutOf.join_apply (h : CutOf L s₀ s) {op : CrdtOp} (hop : op.IsPut) (hL : op ∈ L)
    (hfresh : s₀.Takes op) : (s.apply op).join = s.join ⊔ op.delta := by
  by_cases htakes : s.Takes op
  · exact CrdtState.join_apply h.noDeferred hop htakes
  · rw [apply_of_not_takes hop htakes]
    exact (sup_eq_left.mpr (h.delta_le hop hL hfresh htakes)).symm

theorem CutOf.clock_base_le (h : CutOf L s₀ s) (f : MapField) (a : ActorId) :
    (s₀.maps f).clock.get a ≤ (s.maps f).clock.get a := (h f).base_le a

theorem CutOf.clock_attained (h : CutOf L s₀ s) (f : MapField) (a : ActorId) :
    (s.maps f).clock.get a = (s₀.maps f).clock.get a ∨
      ∃ u, CrdtOp.up f u ∈ L ∧ u.dot = ⟨a, (s.maps f).clock.get a⟩ :=
  (h f).clock_attained a

theorem CutOf.grow {L' : Set CrdtOp} (h : CutOf L s₀ s) (hsub : L ⊆ L')
    (hbeyond : ∀ f u, CrdtOp.up f u ∈ L' → CrdtOp.up f u ∉ L → s.Takes (.up f u)) : CutOf L' s₀ s :=
  fun f => (h f).grow (fun _ hu => hsub hu) fun u hu hnot => hbeyond f u hu hnot

theorem CutOf.merge (hs : CutOf L s₀ s) (ht : CutOf L s₀ t) (ws : s.WellFormed)
    (wt : t.WellFormed) : CutOf L s₀ (s.merge t) :=
  fun f => (hs f).merge (ht f) (ws f) (wt f)

/-- **Merging two cuts is the join.** -/
theorem CutOf.join_merge (hs : CutOf L s₀ s) (ht : CutOf L s₀ t) (ws : s.WellFormed)
    (wt : t.WellFormed) : (s.merge t).join = s.join ⊔ t.join := by
  have hmaps : (fun f => ((s.merge t).maps f).join) =
      (fun f => (s.maps f).join) ⊔ (fun f => (t.maps f).join) :=
    funext fun f => Map.join_merge (ws f) (wt f) ((hs f).compat (ht f))
  have hregs : (s.merge t).regs = s.regs ⊔ t.regs :=
    funext fun r => LwwCell.merge_eq_sup _ _
  have hsets : (fun g => {x | x ∈ ((s.merge t).sets g).value}) =
      (fun g => {x | x ∈ (s.sets g).value}) ⊔ (fun g => {x | x ∈ (t.sets g).value}) :=
    funext fun g => Set.ext fun x => GSet.mem_merge _ _ _
  have hchat : {id | id ∈ (s.merge t).chat.list} =
      {id | id ∈ s.chat.list} ⊔ {id | id ∈ t.chat.list} :=
    Set.ext fun id => GList.mem_merge _ _ _
  exact Prod.ext hmaps (Prod.ext hregs (Prod.ext hsets (Prod.ext hchat rfl)))

end Cuts

end CrdtState

end DessPlay.Core
