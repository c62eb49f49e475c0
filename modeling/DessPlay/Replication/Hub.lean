/-
  DessPlay.Replication.Hub
  **HUB CONVERGENCE: ONCE THE CHANNELS ARE DRAINED, ALL VIEWS AGREE**
  (the topology of `dessplay-core/src/test_support.rs`, `Cluster`).

  Clients apply their mutations locally and send them FIFO to the server; the
  server applies them and its own writes into ONE log, which every client gets
  in order.  At any moment a client may also merge a copy of the server's full
  state, the current one or one that has been in flight for a while.

  Every replica is a CUT through the ops `L` in the log or in a queue: each actor's
  ops reach it in dot order, and a merged state is a cut itself.  So applying and
  merging are joins, and each client is squeezed:

      start ⊔ delivered log   ≤   client   ≤   server ⊔ own queue.
-/
import DessPlay.Core.View
import DessPlay.Replication.Lane

namespace DessPlay.Replication

open Joins Machine Crdts DessPlay.Core List Option Function CrdtState ActorId

/-! ## §1. Issuing an op. -/

/-- The replica's own clock covers everything `a` has issued. -/
def Issuer (L : Set CrdtOp) (s : CrdtState) (a : ActorId) : Prop :=
  ∀ f u, CrdtOp.up f u ∈ L → u.dot.actor = a → ¬ s.Takes (.up f u)

section Issue

variable {L : Set CrdtOp} {s₀ s t : CrdtState} {a : ActorId} {ts : SharedTimestamp}
  {w : Write}

theorem Issuer.clock_le (h : Issuer L s a) (hs : CutOf L s₀ s) (ht : CutOf L s₀ t) (f : MapField) :
    (t.maps f).clock.get a ≤ (s.maps f).clock.get a := by
  rcases ht.clock_attained f a with heq | ⟨u, hu, hdot⟩
  · exact heq ▸ hs.clock_base_le f a
  · have hcov := h f u hu (by rw [hdot])
    rw [takes_up, hdot] at hcov
    exact not_lt.mp hcov

theorem Issuer.takes_writeOp (h : Issuer L s a) (hs : CutOf L s₀ s)
    (ht : CutOf L s₀ t) : t.Takes (s.writeOp a ts w) := by
  have hput := s.isPut_writeOp a ts w
  generalize hop : s.writeOp a ts w = op at hput
  revert hop
  refine hput.cases (fun f u hop => ?_) (fun _ _ _ => trivial) (fun _ _ _ => trivial)
    (fun _ _ => trivial)
  rw [takes_up, dot_writeOp hop]
  exact Nat.lt_succ_of_le (h.clock_le hs ht f)

theorem Issuer.cut_insert (h : Issuer L s a) (hs : CutOf L s₀ s)
    (ht : CutOf L s₀ t) : CutOf (insert (s.writeOp a ts w) L) s₀ t := by
  refine ht.grow (Set.subset_insert _ _) fun f u hu hnot => ?_
  rw [hu.resolve_right hnot]
  exact h.takes_writeOp hs ht

theorem Issuer.cut_apply (h : Issuer L s a) (hs : CutOf L s₀ s) :
    CutOf (insert (s.writeOp a ts w) L) s₀ (s.apply (s.writeOp a ts w)) := by
  refine (h.cut_insert hs hs).apply (s.isPut_writeOp a ts w) (.inl rfl) ?_
  intro f u hop v hv ha hlt hle
  have hdot := dot_writeOp hop
  rcases hv with hv | hv
  · exact CrdtOp.up_injective (hv.trans hop)
  · rw [hdot] at ha hlt
    have hcov := h f v hv ha
    rw [takes_up, ha] at hcov
    exact absurd hlt hcov

theorem Issuer.issuer_apply (h : Issuer L s a) (hs : CutOf L s₀ s) :
    Issuer (insert (s.writeOp a ts w) L) (s.apply (s.writeOp a ts w)) a := by
  intro f u hu ha
  rcases hu with hu | hu
  · exact hu ▸ not_takes_apply_self hs.noDeferred u
  · intro htakes
    have hjoin := join_apply hs.noDeferred (s.isPut_writeOp a ts w)
      (s.takes_writeOp a ts w)
    exact h f u hu ha (htakes.of_join_le (hjoin ▸ le_sup_left))

theorem Issuer.counter_lt (h : Issuer L s a) {f : MapField} {u v : LwwUpdate f.Key f.Val}
    (hop : s.writeOp a ts w = .up f u) (hv : CrdtOp.up f v ∈ L) (ha : v.dot.actor = u.dot.actor) :
    v.dot.counter < u.dot.counter := by
  rw [dot_writeOp hop] at ha ⊢
  have hcov := h f v hv ha
  rw [takes_up, ha, not_lt] at hcov
  exact Nat.lt_succ_of_le hcov

theorem Issuer.insert_other {b : ActorId} (h : Issuer L t b) (hne : b ≠ a) :
    Issuer (insert (s.writeOp a ts w) L) t b := by
  intro f u hu hb
  rcases hu with hu | hu
  · have hdot := dot_writeOp hu.symm
    rw [hdot] at hb
    exact absurd hb.symm hne
  · exact h f u hu hb

theorem Issuer.of_join_le (h : Issuer L s a) (hle : s.join ≤ t.join) : Issuer L t a :=
  fun f u hu ha htakes => h f u hu ha (htakes.of_join_le hle)

end Issue

/-! ## §2. The hub. -/

/-- The server, the clients and what is in flight between them. -/
structure Hub (ι : Type) where
  server : CrdtState
  clients : ι → CrdtState
  /-- ops a client sent that the server has not processed -/
  pending : ι → List CrdtOp
  /-- the server's total broadcast order -/
  log : List CrdtOp
  /-- how much of the log a client has received -/
  delivered : ι → Nat
  /-- full states the server has handed out -/
  copies : List CrdtState

/-- One thing that happens. -/
inductive HubEvent (ι : Type) where
  | clientOp (i : ι) (ts : SharedTimestamp) (w : Write)
  | serverOp (ts : SharedTimestamp) (w : Write)
  | serverPoll (i : ι)
  | deliver (i : ι)
  | takeCopy
  | mergeCopy (i : ι) (n : Nat)

namespace Hub

variable {ι : Type} (actor : ι → ActorId)

def start (s₀ : CrdtState) : Hub ι := ⟨s₀, fun _ => s₀, fun _ => [], [], fun _ => 0, []⟩

section Transitions

variable [DecidableEq ι] (h : Hub ι)

def mutate (i : ι) (ts : SharedTimestamp) (w : Write) : Hub ι :=
  let (state, op) := (h.clients i).put (actor i) ts w
  { h with
    clients := update h.clients i state
    pending := update h.pending i (h.pending i ++ [op]) }

def serverWrite (ts : SharedTimestamp) (w : Write) : Hub ι :=
  let (state, op) := h.server.put SERVER ts w
  { h with server := state, log := h.log ++ [op] }

def poll (i : ι) (op : CrdtOp) (rest : List CrdtOp) : Hub ι :=
  { h with
    server := h.server.apply op
    pending := update h.pending i rest
    log := h.log ++ [op] }

def deliverOne (i : ι) (op : CrdtOp) : Hub ι :=
  { h with
    clients := update h.clients i ((h.clients i).apply op)
    delivered := update h.delivered i (h.delivered i + 1) }

def mergeInto (i : ι) (copy : CrdtState) : Hub ι :=
  { h with clients := update h.clients i ((h.clients i).merge copy) }

def step : HubEvent ι → Option (Hub ι)
  | .clientOp i ts w => some (h.mutate actor i ts w)
  | .serverOp ts w => some (h.serverWrite ts w)
  | .serverPoll i =>
    match h.pending i with
    | [] => none
    | op :: rest => some (h.poll i op rest)
  | .deliver i => (h.log[h.delivered i]?).map (h.deliverOne i)
  | .takeCopy => some { h with copies := h.copies ++ [h.server] }
  | .mergeCopy i n => (h.copies[n]?).map (h.mergeInto i)

end Transitions

/-- Every channel is empty: the server has processed every client op and every
client has received the whole log. -/
def Drained (h : Hub ι) : Prop :=
  (∀ i, h.pending i = []) ∧ ∀ i, h.delivered i = h.log.length

def issued (h : Hub ι) : Set CrdtOp := {op | op ∈ h.log ∨ ∃ i, op ∈ h.pending i}

/-! ## §3. The invariant of every run. -/

def Replica (h : Hub ι) (s : CrdtState) : Prop :=
  s = h.server ∨ (∃ i, s = h.clients i) ∨ s ∈ h.copies

/-- What holds in every state reached. -/
structure Inv (s₀ : CrdtState) (h : Hub ι) : Prop where
  put : ∀ op ∈ h.issued, op.IsPut
  fresh : ∀ op ∈ h.issued, s₀.Takes op
  cut : ∀ s, h.Replica s → CutOf h.issued s₀ s
  wellFormed : ∀ s, h.Replica s → s.WellFormed
  own : ∀ i, Issuer h.issued (h.clients i) (actor i)
  ownServer : Issuer h.issued h.server SERVER
  pendingActor : ∀ i f u, CrdtOp.up f u ∈ h.pending i → u.dot.actor = actor i
  ordered : ∀ i, DotOrdered (h.log ++ h.pending i)
  server_eq : h.server.join = joinAll CrdtOp.delta s₀.join h.log
  client_le : ∀ i, (h.clients i).join ≤ joinAll CrdtOp.delta h.server.join (h.pending i)
  le_client : ∀ i, joinAll CrdtOp.delta s₀.join (h.log.take (h.delivered i)) ≤
    (h.clients i).join
  delivered_le : ∀ i, h.delivered i ≤ h.log.length
  copy_le : ∀ s ∈ h.copies, s.join ≤ h.server.join

variable {actor} {s₀ : CrdtState} {h : Hub ι}

theorem Inv.start (h₀ : s₀.WellFormed) : Inv actor s₀ (Hub.start s₀ : Hub ι) := by
  have hnone : ∀ op, op ∉ (Hub.start s₀ : Hub ι).issued := by
    rintro op (h | ⟨i, h⟩) <;> cases h
  have hrep : ∀ s, (Hub.start s₀ : Hub ι).Replica s → s = s₀ := by
    rintro s (h | ⟨i, h⟩ | h)
    · exact h
    · exact h
    · cases h
  exact
    { put := fun op hop => absurd hop (hnone op)
      fresh := fun op hop => absurd hop (hnone op)
      cut := fun s hs => (hrep s hs).symm ▸ .base h₀.noDeferred
      wellFormed := fun s hs => (hrep s hs).symm ▸ h₀
      own := fun i f u hu => absurd hu (hnone _)
      ownServer := fun f u hu => absurd hu (hnone _)
      pendingActor := fun i f u hu => absurd hu not_mem_nil
      ordered := fun i => List.Pairwise.nil
      server_eq := rfl
      client_le := fun i => le_rfl
      le_client := fun i => le_rfl
      delivered_le := fun i => le_rfl
      copy_le := fun s hs => absurd hs not_mem_nil }

theorem Inv.log_seen (inv : Inv actor s₀ h) {f : MapField} {u : LwwUpdate f.Key f.Val}
    (hu : CrdtOp.up f u ∈ h.log) : ¬ h.server.Takes (.up f u) :=
  not_takes_of_delta_le (inv.server_eq ▸ delta_le_joinAll CrdtOp.delta s₀.join hu)

variable {i : ι}

theorem replica_update [DecidableEq ι] {h' : Hub ι} {s t : CrdtState}
    (hserver : h'.server = h.server) (hclients : h'.clients = update h.clients i t)
    (hcopies : h'.copies = h.copies) (hs : h'.Replica s) : s = t ∨ h.Replica s := by
  rcases hs with hs | ⟨j, hs⟩ | hs
  · exact .inr (.inl (hs.trans hserver))
  · rw [hclients] at hs
    by_cases hj : j = i
    · subst hj
      exact .inl (hs.trans (update_self ..))
    · exact .inr (.inr (.inl ⟨j, hs.trans (update_of_ne hj ..)⟩))
  · exact .inr (.inr (.inr (hcopies ▸ hs)))

theorem issued_mutate [DecidableEq ι] (i : ι) (ts : SharedTimestamp) (w : Write) :
    (h.mutate actor i ts w).issued =
      insert ((h.clients i).writeOp (actor i) ts w) h.issued := by
  ext o
  show (o ∈ h.log ∨ ∃ j, o ∈ update h.pending i (h.pending i ++ [_]) j) ↔ _ ∨ _
  rw [exists_update_iff h.pending fun _ l => o ∈ l]
  constructor
  · rintro (ho | ho | ⟨j, -, ho⟩)
    · exact .inr (.inl ho)
    · rcases mem_append.mp ho with ho | ho
      · exact .inr (.inr ⟨i, ho⟩)
      · exact .inl (mem_singleton.mp ho)
    · exact .inr (.inr ⟨j, ho⟩)
  · rintro (ho | ho | ⟨j, ho⟩)
    · exact .inr (.inl (mem_append_right _ (mem_singleton.mpr ho)))
    · exact .inl ho
    · by_cases hj : j = i
      · subst hj
        exact .inr (.inl (mem_append_left _ ho))
      · exact .inr (.inr ⟨j, hj, ho⟩)

theorem issued_serverWrite (ts : SharedTimestamp) (w : Write) :
    (h.serverWrite ts w).issued =
      insert (h.server.writeOp SERVER ts w) h.issued := by
  ext o
  show (o ∈ h.log ++ [_] ∨ ∃ j, o ∈ h.pending j) ↔ _ ∨ o ∈ h.log ∨ ∃ j, o ∈ h.pending j
  rw [mem_append, mem_singleton]
  exact ⟨fun ho => by tauto, fun ho => by tauto⟩

variable {op : CrdtOp} {rest : List CrdtOp}

theorem issued_poll [DecidableEq ι] (hp : h.pending i = op :: rest) :
    (h.poll i op rest).issued = h.issued := by
  ext o
  show (o ∈ h.log ++ [op] ∨ ∃ j, o ∈ update h.pending i rest j) ↔
    o ∈ h.log ∨ ∃ j, o ∈ h.pending j
  rw [exists_update_iff h.pending fun _ l => o ∈ l, mem_append,
    mem_singleton]
  constructor
  · rintro ((ho | rfl) | ho | ⟨j, -, ho⟩)
    · exact .inl ho
    · exact .inr ⟨i, by rw [hp]; exact mem_cons_self⟩
    · exact .inr ⟨i, by rw [hp]; exact mem_cons_of_mem _ ho⟩
    · exact .inr ⟨j, ho⟩
  · rintro (ho | ⟨j, ho⟩)
    · exact .inl (.inl ho)
    · by_cases hj : j = i
      · subst hj
        rw [hp] at ho
        rcases mem_cons.mp ho with ho | ho
        · exact .inl (.inr ho)
        · exact .inr (.inl ho)
      · exact .inr (.inr ⟨j, hj, ho⟩)

/-! ## §4. Each transition keeps it. -/

theorem Inv.base_le_client (inv : Inv actor s₀ h) (i : ι) : s₀.join ≤ (h.clients i).join :=
  (le_joinAll CrdtOp.delta s₀.join _).trans (inv.le_client i)

theorem Inv.mutate [DecidableEq ι] (inv : Inv actor s₀ h) (hinj : Injective actor)
    (hne : ∀ i, actor i ≠ SERVER) (i : ι) (ts : SharedTimestamp) (w : Write) :
    Inv actor s₀ (h.mutate actor i ts w) := by
  have hcut := inv.cut _ (.inr (.inl ⟨i, rfl⟩))
  have hown := inv.own i
  have hput := (h.clients i).isPut_writeOp (actor i) ts w
  have htakes := (h.clients i).takes_writeOp (actor i) ts w
  have hjoin := join_apply hcut.noDeferred hput htakes
  have hrep : ∀ s, (h.mutate actor i ts w).Replica s →
      s = (h.clients i).apply ((h.clients i).writeOp (actor i) ts w) ∨ h.Replica s :=
    fun s => replica_update rfl rfl rfl
  constructor
  case put =>
    rw [issued_mutate]
    exact Set.forall_mem_insert.mpr ⟨hput, inv.put⟩
  case fresh =>
    rw [issued_mutate]
    exact Set.forall_mem_insert.mpr ⟨htakes.of_join_le (inv.base_le_client i), inv.fresh⟩
  case cut =>
    rw [issued_mutate]
    intro s hs
    rcases hrep s hs with rfl | hs
    · exact hown.cut_apply hcut
    · exact hown.cut_insert hcut (inv.cut s hs)
  case wellFormed =>
    intro s hs
    rcases hrep s hs with rfl | hs
    · exact (inv.wellFormed _ (.inr (.inl ⟨i, rfl⟩))).apply hput
    · exact inv.wellFormed s hs
  case own =>
    rw [issued_mutate]
    refine (forall_update_iff h.clients
      fun j s => Issuer _ s (actor j)).mpr ⟨hown.issuer_apply hcut, fun j hj => ?_⟩
    exact (inv.own j).insert_other fun heq => hj (hinj heq)
  case ownServer =>
    rw [issued_mutate]
    exact inv.ownServer.insert_other (hne i).symm
  case pendingActor =>
    refine (forall_update_iff h.pending
      fun j l => ∀ f u, CrdtOp.up f u ∈ l → u.dot.actor = actor j).mpr
        ⟨fun f u hu => ?_, fun j _ => inv.pendingActor j⟩
    rcases mem_append.mp hu with hu | hu
    · exact inv.pendingActor i f u hu
    · rw [dot_writeOp (mem_singleton.mp hu).symm]
  case ordered =>
    refine (forall_update_iff h.pending
      fun j l => DotOrdered (h.log ++ l)).mpr ⟨?_, fun j _ => inv.ordered j⟩
    rw [← append_assoc]
    refine (inv.ordered i).snoc fun f u v hop hv ha => hown.counter_lt hop ?_ ha
    exact (mem_append.mp hv).imp_right fun hv => ⟨i, hv⟩
  case server_eq => exact inv.server_eq
  case client_le =>
    intro j
    show (update h.clients i _ j).join ≤
      joinAll CrdtOp.delta h.server.join (update h.pending i _ j)
    by_cases hj : j = i
    · subst hj
      rw [update_self, update_self, joinAll_snoc]
      exact hjoin.le.trans (sup_le_sup_right (inv.client_le j) _)
    · rw [update_of_ne hj, update_of_ne hj]
      exact inv.client_le j
  case le_client =>
    refine (forall_update_iff h.clients
      fun j s => joinAll CrdtOp.delta s₀.join (h.log.take (h.delivered j)) ≤ s.join).mpr
        ⟨?_, fun j _ => inv.le_client j⟩
    rw [hjoin]
    exact (inv.le_client i).trans le_sup_left
  case delivered_le => exact inv.delivered_le
  case copy_le => exact inv.copy_le

theorem Inv.serverWrite (inv : Inv actor s₀ h) (hne : ∀ i, actor i ≠ SERVER)
    (ts : SharedTimestamp) (w : Write) : Inv actor s₀ (h.serverWrite ts w) := by
  have hcut := inv.cut _ (.inl rfl)
  have hown := inv.ownServer
  have hput := h.server.isPut_writeOp SERVER ts w
  have htakes := h.server.takes_writeOp SERVER ts w
  have hjoin := join_apply hcut.noDeferred hput htakes
  have hle : h.server.join ≤ (h.server.apply (h.server.writeOp SERVER ts w)).join :=
    hjoin ▸ le_sup_left
  have hrep : ∀ s, (h.serverWrite ts w).Replica s →
      s = h.server.apply (h.server.writeOp SERVER ts w) ∨ h.Replica s :=
    fun s hs => hs.imp_right .inr
  constructor
  case put =>
    rw [issued_serverWrite]
    exact Set.forall_mem_insert.mpr ⟨hput, inv.put⟩
  case fresh =>
    rw [issued_serverWrite]
    refine Set.forall_mem_insert.mpr ⟨htakes.of_join_le ?_, inv.fresh⟩
    exact inv.server_eq ▸ le_joinAll CrdtOp.delta s₀.join h.log
  case cut =>
    rw [issued_serverWrite]
    intro s hs
    rcases hrep s hs with rfl | hs
    · exact hown.cut_apply hcut
    · exact hown.cut_insert hcut (inv.cut s hs)
  case wellFormed =>
    intro s hs
    rcases hrep s hs with rfl | hs
    · exact (inv.wellFormed _ (.inl rfl)).apply hput
    · exact inv.wellFormed s hs
  case own =>
    rw [issued_serverWrite]
    exact fun i => (inv.own i).insert_other (hne i)
  case ownServer =>
    rw [issued_serverWrite]
    exact hown.issuer_apply hcut
  case pendingActor => exact inv.pendingActor
  case ordered =>
    intro i
    refine (inv.ordered i).insert_mid
      (fun f u v hop hv ha => hown.counter_lt hop (.inl hv) ha) fun f u v hop hv => ?_
    rw [dot_writeOp hop, inv.pendingActor i f v hv]
    exact hne i
  case server_eq =>
    show (h.server.apply _).join = joinAll CrdtOp.delta s₀.join (h.log ++ [_])
    rw [hjoin, inv.server_eq, joinAll_snoc]
  case client_le =>
    exact fun i => (inv.client_le i).trans (joinAll_mono CrdtOp.delta hle _)
  case le_client =>
    intro i
    show joinAll _ _ ((h.log ++ [_]).take (h.delivered i)) ≤ _
    rw [take_append_of_le_length (inv.delivered_le i)]
    exact inv.le_client i
  case delivered_le =>
    exact fun i => (inv.delivered_le i).trans (prefix_append _ _).length_le
  case copy_le => exact fun s hs => (inv.copy_le s hs).trans hle

theorem Inv.noGap_poll (inv : Inv actor s₀ h) (hinj : Injective actor)
    (hp : h.pending i = op :: rest) : NoGap h.issued h.server op := by
  rintro f u rfl v hv ha hlt hle
  have hu : u.dot.actor = actor i := inv.pendingActor i f u (by rw [hp]; exact .head _)
  rcases hv with hv | ⟨j, hv⟩
  · exact absurd (takes_up.mpr (ha ▸ hlt)) (inv.log_seen hv)
  · obtain rfl : j = i := hinj ((inv.pendingActor j f v hv).symm.trans (ha.trans hu))
    rw [hp] at hv
    rcases mem_cons.mp hv with hv | hv
    · exact CrdtOp.up_injective hv
    · have hord := (pairwise_append.mp (inv.ordered j)).2.1
      rw [hp] at hord
      have hlater : u.dot.counter < v.dot.counter :=
        (pairwise_cons.mp hord).1 _ hv (f, u.dot) rfl (f, v.dot) rfl rfl ha.symm
      omega

theorem Inv.poll [DecidableEq ι] (inv : Inv actor s₀ h) (hinj : Injective actor)
    (hp : h.pending i = op :: rest) : Inv actor s₀ (h.poll i op rest) := by
  have hcut := inv.cut _ (.inl rfl)
  have hop : op ∈ h.issued := .inr ⟨i, by rw [hp]; exact .head _⟩
  have hput := inv.put op hop
  have hgap := inv.noGap_poll hinj hp
  have hjoin := hcut.join_apply hput hop (inv.fresh op hop)
  have hle : h.server.join ≤ (h.server.apply op).join := hjoin ▸ le_sup_left
  have hrep : ∀ s, (h.poll i op rest).Replica s → s = h.server.apply op ∨ h.Replica s :=
    fun s hs => hs.imp_right .inr
  constructor
  case put => rw [issued_poll hp]; exact inv.put
  case fresh => rw [issued_poll hp]; exact inv.fresh
  case cut =>
    rw [issued_poll hp]
    intro s hs
    rcases hrep s hs with rfl | hs
    · exact hcut.apply hput hop hgap
    · exact inv.cut s hs
  case wellFormed =>
    intro s hs
    rcases hrep s hs with rfl | hs
    · exact (inv.wellFormed _ (.inl rfl)).apply hput
    · exact inv.wellFormed s hs
  case own => rw [issued_poll hp]; exact inv.own
  case ownServer => rw [issued_poll hp]; exact inv.ownServer.of_join_le hle
  case pendingActor =>
    refine (forall_update_iff h.pending
      fun j l => ∀ f u, CrdtOp.up f u ∈ l → u.dot.actor = actor j).mpr
        ⟨fun f u hu => inv.pendingActor i f u ?_, fun j _ => inv.pendingActor j⟩
    rw [hp]
    exact mem_cons_of_mem _ hu
  case ordered =>
    refine (forall_update_iff h.pending
      fun j l => DotOrdered (h.log ++ [op] ++ l)).mpr ⟨?_, fun j hj => ?_⟩
    · have hord := inv.ordered i
      rwa [hp, append_cons] at hord
    · refine (inv.ordered j).insert_mid ?_ ?_
      · rintro f u v rfl hv ha
        have hord := inv.ordered i
        rw [hp] at hord
        exact (pairwise_append.mp hord).2.2 _ hv _ (.head _) (f, v.dot) rfl (f, u.dot) rfl
          rfl ha
      · rintro f u v rfl hv
        have hu : u.dot.actor = actor i := inv.pendingActor i f u (by rw [hp]; exact .head _)
        rw [hu, inv.pendingActor j f v hv]
        exact fun heq => hj (hinj heq)
  case server_eq =>
    show (h.server.apply op).join = joinAll CrdtOp.delta s₀.join (h.log ++ [op])
    rw [hjoin, inv.server_eq, joinAll_snoc]
  case client_le =>
    intro j
    show (h.clients j).join ≤
      joinAll CrdtOp.delta (h.server.apply op).join (update h.pending i rest j)
    by_cases hj : j = i
    · subst hj
      rw [update_self, hjoin]
      have hclient := inv.client_le j
      rwa [hp] at hclient
    · rw [update_of_ne hj]
      exact (inv.client_le j).trans (joinAll_mono CrdtOp.delta hle _)
  case le_client =>
    intro j
    show joinAll _ _ ((h.log ++ [_]).take (h.delivered j)) ≤ _
    rw [take_append_of_le_length (inv.delivered_le j)]
    exact inv.le_client j
  case delivered_le =>
    exact fun j => (inv.delivered_le j).trans (prefix_append _ _).length_le
  case copy_le => exact fun s hs => (inv.copy_le s hs).trans hle

theorem Inv.noGap_deliver (inv : Inv actor s₀ h) (hop : h.log[h.delivered i]? = some op) :
    NoGap h.issued (h.clients i) op := by
  rintro f u rfl v hv ha hlt hle
  rcases hv with hv | ⟨j, hv⟩
  · have hord := (pairwise_append.mp (inv.ordered i)).1
    obtain ⟨k, hk⟩ := mem_iff_getElem?.mp hv
    rcases lt_or_eq_of_le (DotOrdered.index_le hord hop hk ha hle) with hlt' | rfl
    · have hmem : CrdtOp.up f v ∈ h.log.take (h.delivered i) :=
        mem_of_getElem? ((getElem?_take_of_lt hlt').trans hk)
      exact absurd (takes_up.mpr (ha ▸ hlt)) (not_takes_of_delta_le
        ((delta_le_joinAll CrdtOp.delta s₀.join hmem).trans (inv.le_client i)))
    · exact CrdtOp.up_injective (Option.some.inj (hk.symm.trans hop))
  · have hlater : u.dot.counter < v.dot.counter :=
      (pairwise_append.mp (inv.ordered j)).2.2 _ (mem_of_getElem? hop) _ hv
        (f, u.dot) rfl (f, v.dot) rfl rfl ha.symm
    omega

theorem Inv.growClient [DecidableEq ι] (inv : Inv actor s₀ h) (i : ι) {s' : CrdtState} (d : Nat)
    (hcut : CutOf h.issued s₀ s') (hwf : s'.WellFormed)
    (hge : (h.clients i).join ≤ s'.join) (hle : s'.join ≤ (h.clients i).join ⊔ h.server.join)
    (hd : d ≤ h.log.length) (hlow : joinAll CrdtOp.delta s₀.join (h.log.take d) ≤ s'.join) :
    Inv actor s₀ { h with
      clients := update h.clients i s'
      delivered := update h.delivered i d } := by
  have hrep : ∀ s, Replica { h with
      clients := update h.clients i s'
      delivered := update h.delivered i d } s → s = s' ∨ h.Replica s :=
    fun s => replica_update rfl rfl rfl
  constructor
  case put => exact inv.put
  case fresh => exact inv.fresh
  case cut =>
    intro s hs
    rcases hrep s hs with rfl | hs
    · exact hcut
    · exact inv.cut s hs
  case wellFormed =>
    intro s hs
    rcases hrep s hs with rfl | hs
    · exact hwf
    · exact inv.wellFormed s hs
  case own =>
    exact (forall_update_iff h.clients fun j s => Issuer _ s (actor j)).mpr
      ⟨(inv.own i).of_join_le hge, fun j _ => inv.own j⟩
  case ownServer => exact inv.ownServer
  case pendingActor => exact inv.pendingActor
  case ordered => exact inv.ordered
  case server_eq => exact inv.server_eq
  case client_le =>
    refine (forall_update_iff h.clients
      fun j s => s.join ≤ joinAll CrdtOp.delta h.server.join (h.pending j)).mpr
        ⟨hle.trans (sup_le (inv.client_le i) ?_), fun j _ => inv.client_le j⟩
    exact le_joinAll _ _ _
  case le_client =>
    intro j
    show joinAll _ _ (h.log.take (update h.delivered i d j)) ≤
      (update h.clients i s' j).join
    by_cases hj : j = i
    · subst hj
      rwa [update_self, update_self]
    · rw [update_of_ne hj, update_of_ne hj]
      exact inv.le_client j
  case delivered_le =>
    exact (forall_update_iff h.delivered fun _ n => n ≤ h.log.length).mpr
      ⟨hd, fun j _ => inv.delivered_le j⟩
  case copy_le => exact inv.copy_le

theorem Inv.deliverOne [DecidableEq ι] (inv : Inv actor s₀ h)
    (hop : h.log[h.delivered i]? = some op) : Inv actor s₀ (h.deliverOne i op) := by
  have hcut := inv.cut _ (.inr (.inl ⟨i, rfl⟩))
  have hlog : op ∈ h.log := mem_of_getElem? hop
  have hput := inv.put op (.inl hlog)
  have hjoin := hcut.join_apply hput (.inl hlog) (inv.fresh op (.inl hlog))
  have hserver : op.delta ≤ h.server.join :=
    inv.server_eq ▸ delta_le_joinAll CrdtOp.delta s₀.join hlog
  refine inv.growClient i (h.delivered i + 1)
    (hcut.apply hput (.inl hlog) (inv.noGap_deliver hop))
    ((inv.wellFormed _ (.inr (.inl ⟨i, rfl⟩))).apply hput) (hjoin ▸ le_sup_left)
    (hjoin ▸ sup_le_sup_left hserver _) ?_ ?_
  · exact (List.getElem?_eq_some_iff.mp hop).1
  · rw [List.take_add_one, hop, Option.toList_some, joinAll_snoc, hjoin]
    exact sup_le_sup_right (inv.le_client i) _

theorem Inv.mergeInto [DecidableEq ι] (inv : Inv actor s₀ h) (i : ι) {copy : CrdtState}
    (hcopy : copy ∈ h.copies) : Inv actor s₀ (h.mergeInto i copy) := by
  have hcut := inv.cut _ (.inr (.inl ⟨i, rfl⟩))
  have hcut' := inv.cut _ (.inr (.inr hcopy))
  have hwf := inv.wellFormed _ (.inr (.inl ⟨i, rfl⟩))
  have hwf' := inv.wellFormed _ (.inr (.inr hcopy))
  have hjoin := hcut.join_merge hcut' hwf hwf'
  have hge : (h.clients i).join ≤ ((h.clients i).merge copy).join := hjoin ▸ le_sup_left
  have hgrow := inv.growClient i (h.delivered i) (hcut.merge hcut' hwf hwf') (hwf.merge hwf')
    hge (hjoin ▸ sup_le_sup_left (inv.copy_le copy hcopy) _) (inv.delivered_le i)
    ((inv.le_client i).trans hge)
  rwa [update_eq_self] at hgrow

theorem Inv.takeCopy (inv : Inv actor s₀ h) :
    Inv actor s₀ { h with copies := h.copies ++ [h.server] } := by
  have hrep : ∀ s, Replica { h with copies := h.copies ++ [h.server] } s → h.Replica s := by
    rintro s (hs | hs | hs)
    · exact .inl hs
    · exact .inr (.inl hs)
    · rcases mem_append.mp hs with hs | hs
      · exact .inr (.inr hs)
      · exact .inl (mem_singleton.mp hs)
  exact
    { inv with
      cut := fun s hs => inv.cut s (hrep s hs)
      wellFormed := fun s hs => inv.wellFormed s (hrep s hs)
      copy_le := fun s hs => by
        rcases mem_append.mp hs with hs | hs
        · exact inv.copy_le s hs
        · exact (mem_singleton.mp hs ▸ le_rfl) }

theorem Inv.step [DecidableEq ι] (hinj : Injective actor)
    (hne : ∀ i, actor i ≠ SERVER) (inv : Inv actor s₀ h) (e : HubEvent ι) {h' : Hub ι}
    (hs : h.step actor e = some h') : Inv actor s₀ h' := by
  cases e with
  | clientOp i ts w => cases hs; exact inv.mutate hinj hne i ts w
  | serverOp ts w => cases hs; exact inv.serverWrite hne ts w
  | serverPoll i =>
    simp only [Hub.step] at hs
    split at hs
    · cases hs
    next op rest hp => cases hs; exact inv.poll hinj hp
  | deliver i =>
    obtain ⟨op, hop, rfl⟩ := map_eq_some_iff.mp hs
    exact inv.deliverOne hop
  | takeCopy => cases hs; exact inv.takeCopy
  | mergeCopy i n =>
    obtain ⟨copy, hcopy, rfl⟩ := map_eq_some_iff.mp hs
    exact inv.mergeInto i (mem_of_getElem? hcopy)

theorem Inv.client_eq_server (inv : Inv actor s₀ h) (hd : h.Drained) (i : ι) :
    h.clients i = h.server := by
  apply join_injective (inv.cut _ (.inr (.inl ⟨i, rfl⟩))).noDeferred
    (inv.cut _ (.inl rfl)).noDeferred
  apply le_antisymm
  · have hle := inv.client_le i
    rwa [hd.1 i] at hle
  · have hle := inv.le_client i
    rwa [hd.2 i, take_length, ← inv.server_eq] at hle

end Hub

/-! ## §5. Convergence. -/

/-- **Hub convergence.**  Any number of clients with distinct non-server actors,
starting from one well-formed state (every state the program builds is); any
run of client and server writes, polls, deliveries and merges of server
copies.  Once the channels are drained, every client's view is the server's. -/
theorem hub_convergence {ι : Type} [DecidableEq ι] (actor : ι → ActorId)
    (hinj : Injective actor) (hne : ∀ i, actor i ≠ SERVER) (s₀ : CrdtState)
    (h₀ : s₀.WellFormed) (h : Hub ι) (hr : Reach (Hub.step actor) anyStep (.start s₀) h)
    (hd : h.Drained) (i : ι) : h.clients i = h.server ∧ (h.clients i).view? = h.server.view? := by
  have inv : Hub.Inv actor s₀ h := hr.invariant (Hub.Inv.start h₀)
    fun h e h' inv _ hs => inv.step hinj hne e hs
  have heq := inv.client_eq_server hd i
  exact ⟨heq, by rw [heq]⟩

/-- Two clients write concurrently; the second merges a copy taken before the
server saw its own write. -/
def twoClientRun : List (HubEvent Bool) :=
  [ .clientOp false 1 (.map .watched (7 : Nat) true),
    .clientOp true 2 (.map .watched (7 : Nat) false),
    .serverPoll false,
    .takeCopy,
    .serverOp 3 (.reg .nowPlaying (some (7 : Nat))),
    .mergeCopy true 0,
    .serverPoll true,
    .deliver false, .deliver false, .deliver false,
    .deliver true, .deliver true, .deliver true ]

/-- Client `i` acts as actor 1 or 2. -/
def twoActors (i : Bool) : ActorId := if i then 2 else 1

theorem hub_convergence_two_clients :
    ∃ h, run (Hub.step twoActors) (.start .new) twoClientRun = some h ∧ h.Drained ∧
      ∀ i, h.clients i = h.server ∧ (h.clients i).view? = h.server.view? := by
  have hsome : (run (Hub.step twoActors) (.start .new) twoClientRun).isSome := by decide
  have hrun := (some_get hsome).symm
  have hd : ((run (Hub.step twoActors) (.start .new) twoClientRun).get hsome).Drained :=
    ⟨fun i => by cases i <;> rfl, fun i => by cases i <;> rfl⟩
  refine ⟨_, hrun, hd, ?_⟩
  exact hub_convergence twoActors (by decide) (by decide) .new WellFormed.new _
    (reach_of_run twoClientRun hrun) hd

end DessPlay.Replication
