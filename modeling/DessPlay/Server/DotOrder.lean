/-
  DessPlay.Server.DotOrder
  **SERVER-AUTHORED OPS ON EACH PEER'S STREAM.**

  The server's own writes take their dots under the lock: on one map, in one
  epoch, later sections draw larger counters.  The pushes come after the lock, so
  two tasks (say, two mark-watched handlers) can enqueue their ops on a
  connection in the OTHER order, and the peer then discards the smaller dot as
  already seen (`mark_watched_overtaken`).
-/
import DessPlay.Server.InFlight
import DessPlay.Core.Covers

namespace DessPlay.Server

open Machine Crdts DessPlay.Core List Option CrdtState ActorId

/-! ## §1. The order of the server's dots. -/

variable {H : Type}

def Outgoing.serverDot? (x : Outgoing H) : Option (Epoch × MapField × Dot ActorId) :=
  match x.authored, x.msg with
  | true, .stateOp epoch op => op.dot?.map fun p => (epoch, p)
  | _, _ => none

def InDotOrder (x y : Outgoing H) : Prop :=
  ∀ e f d d', x.serverDot? = some (e, f, d) → y.serverDot? = some (e, f, d') →
    d.counter < d'.counter

def DotSettled (c : Core) (x : Outgoing H) : Prop :=
  ∀ e f d, x.serverDot? = some (e, f, d) → d.actor = SERVER ∧
    (e < c.epoch ∨ e = c.epoch ∧ d.counter ≤ (c.state.maps f).clock.get SERVER)

theorem DotSettled.mono {c c' : Core} {x : Outgoing H} (h : DotSettled c x)
    (hclock : c.epoch < c'.epoch ∨ c.epoch = c'.epoch ∧ ∀ f a,
      (c.state.maps f).clock.get a ≤ (c'.state.maps f).clock.get a) : DotSettled c' x := by
  intro e f d hx
  obtain ⟨hactor, hd⟩ := h e f d hx
  refine ⟨hactor, ?_⟩
  rcases hclock with hlt | ⟨heq, hle⟩
  · rcases hd with hd | ⟨rfl, -⟩
    · exact .inl (hd.trans hlt)
    · exact .inl hlt
  · rcases hd with hd | ⟨rfl, hd⟩
    · exact .inl (heq ▸ hd)
    · exact .inr ⟨heq, hd.trans (hle f _)⟩

theorem dotSettled_of_none {c : Core} {x : Outgoing H} (h : x.serverDot? = none) :
    DotSettled c x := by
  intro e f d hx
  rw [h] at hx
  cases hx

theorem serverDot_author {c : Core} {ts : SharedTimestamp} {w : Write} {e : Epoch}
    {f : MapField} {d : Dot ActorId} (h : (c.author (H := H) ts w).2.serverDot? = some (e, f, d)) :
    e = c.epoch ∧ d = ⟨SERVER, (c.state.maps f).clock.get SERVER + 1⟩ ∧
      d.counter ≤ ((c.author (H := H) ts w).1.state.maps f).clock.get SERVER := by
  obtain ⟨p, hp, heq⟩ := map_eq_some_iff.mp h
  obtain ⟨rfl, rfl⟩ := Prod.mk.inj heq
  obtain ⟨u, hu, rfl⟩ := CrdtOp.eq_up_of_dot? hp
  have hdot := dot_writeOp hu
  refine ⟨rfl, hdot, ?_⟩
  have hcov := covers_apply_self c.state (.up f u)
  rw [covers_up, hdot] at hcov
  show u.dot.counter ≤ ((c.state.apply (c.state.writeOp SERVER ts w)).maps f).clock.get _
  rw [hu, hdot]
  exact hcov

theorem clock_move {c c' : Core} {outs : List (Outgoing H)} (h : c.Move outs c') :
    c.epoch < c'.epoch ∨ c.epoch = c'.epoch ∧ ∀ f a,
      (c.state.maps f).clock.get a ≤ (c'.state.maps f).clock.get a := by
  have hbroadcast : ∀ op via f a, (c.state.maps f).clock.get a ≤
      ((c.state.applyForBroadcast op via).1.maps f).clock.get a := by
    intro op via f a
    rcases c.state.applyForBroadcast_cases op via with heq | heq <;> rw [heq]
    exact clock_le_apply _ _ f a
  cases h with
  | quiet c' hstate hepoch hhist => exact .inr ⟨hepoch.symm, fun f a => hstate ▸ le_rfl⟩
  | relayed op via hnews => exact .inr ⟨rfl, hbroadcast op via⟩
  | ignored op via hold => exact .inr ⟨rfl, hbroadcast op via⟩
  | authored ts w => exact .inr ⟨rfl, fun f a => clock_le_apply _ _ f a⟩
  | merged snapshot hepoch =>
    refine .inr ⟨rfl, fun f a => ?_⟩
    show _ ≤ ((c.state.maps f).merge (snapshot.state.maps f)).clock.get a
    rw [Map.merge_clock_get]
    exact le_max_left _ _
  | compacted view chatKeep stamps hview hepoch => exact .inl hepoch
  | captured msg hmsg => exact .inr ⟨rfl, fun f a => le_rfl⟩

/-- **Sections respect the dot order.** -/
theorem dotDiscipline : Discipline (H := H) InDotOrder (fun _ => True) DotSettled where
  good _ _ := trivial
  mono h _ hx := hx.mono (clock_move h)
  settled h _ y hy := by
    cases h with
    | authored ts w =>
      rw [mem_singleton.mp hy]
      intro e f d hdot
      obtain ⟨rfl, hd, hle⟩ := serverDot_author hdot
      exact ⟨hd ▸ rfl, .inr ⟨rfl, hle⟩⟩
    | relayed op via hnews =>
      rw [mem_singleton.mp hy]
      exact dotSettled_of_none rfl
    | captured msg hmsg =>
      rw [mem_singleton.mp hy]
      exact dotSettled_of_none rfl
    | quiet => cases hy
    | ignored => cases hy
    | merged => cases hy
    | compacted => cases hy
  fresh h y hy := by
    intro x hx e f d d' hdx hdy
    cases h with
    | @authored ts w =>
      rw [mem_singleton.mp hy] at hdy
      obtain ⟨rfl, hd', -⟩ := serverDot_author hdy
      -- what was settled is at most the clock the new dot was drawn from
      rcases (hx _ f d hdx).2 with hlt | ⟨-, hle⟩
      · exact absurd hlt (lt_irrefl _)
      · rw [hd']
        exact Nat.lt_succ_of_le hle
    | relayed op via hnews =>
      rw [mem_singleton.mp hy] at hdy
      cases hdy
    | captured msg hmsg =>
      rw [mem_singleton.mp hy] at hdy
      cases hdy
    | quiet => cases hy
    | ignored => cases hy
    | merged => cases hy
    | compacted => cases hy
  captured _ y e f d d' hx := by cases hx

/-! ## §2. What a peer makes of its stream. -/

def isServerOp (op : CrdtOp) : Bool := op.dot?.any fun p => p.2.actor = SERVER

/-- The server-authored op of epoch `e` in a message. -/
def Outgoing.serverOp? (e : Epoch) (x : Outgoing H) : Option CrdtOp :=
  match x.authored, x.msg with
  | true, .stateOp epoch op => if epoch = e ∧ isServerOp op then some op else none
  | _, _ => none

theorem serverDot_of_serverOp {e : Epoch} {x : Outgoing H} {op : CrdtOp}
    (h : x.serverOp? e = some op) {f : MapField} {d : Dot ActorId} (hd : op.dot? = some (f, d)) :
    x.serverDot? = some (e, f, d) := by
  obtain ⟨msg, point, authored⟩ := x
  cases authored with
  | false => cases h
  | true =>
    cases msg with
    | stateOp epoch op' =>
      simp only [Outgoing.serverOp?] at h
      split at h
      next hyes =>
        cases h
        simp only [Outgoing.serverDot?, hd, hyes.1, map_some]
      · cases h
    | _ => cases h

theorem counter_lt_of_pairwise {e : Epoch} {stream : List (Outgoing H)}
    (h : stream.Pairwise InDotOrder) :
    (stream.filterMap (Outgoing.serverOp? e)).Pairwise fun o o' => ∀ f d d',
      o.dot? = some (f, d) → o'.dot? = some (f, d') → d.counter < d'.counter := by
  refine List.Pairwise.filterMap _ (fun x y hxy o ho o' ho' f d d' hd hd' => ?_) h
  exact hxy e f d d' (serverDot_of_serverOp ho hd) (serverDot_of_serverOp ho' hd')

/-- **Server-authored ops reach each peer in dot order**, in every interleaving of
the server's tasks where no push overtakes a smaller dot that another task has
not sent yet.  Then a peer that applies the server's ops of an epoch in the
order of its stream, in between whatever ops of other actors, takes every one
it had not seen before. -/
theorem server_ops_in_dot_order [DecidableEq H] (digest : StateView → H)
    (snapshot : StateSnapshot) (s : Shared H)
    (hr : Reach (Shared.step digest) (Shared.NoOvertaking InDotOrder) (.init snapshot) s)
    (n : ConnId) :
    (s.out n).Pairwise InDotOrder ∧
      ∀ (e : Epoch) (peer : CrdtState) (pre post : List CrdtOp) (op : CrdtOp),
        (pre ++ op :: post).filter isServerOp = (s.out n).filterMap (Outgoing.serverOp? e) →
        isServerOp op = true → peer.Takes op → (pre.foldl apply peer).Takes op := by
  have hord := (Shared.Ordered.of_reach digest dotDiscipline trivial hr).out n
  refine ⟨hord, fun e peer pre post op hstream hop htakes => htakes.foldl_apply ?_⟩
  intro o ho f d d' hd hd' hactor
  have hpw := counter_lt_of_pairwise (e := e) hord
  rw [← hstream, filter_append, filter_cons_of_pos hop] at hpw
  have hserver : isServerOp o = true := by
    rw [isServerOp, hd] at hop
    rw [isServerOp, hd']
    simpa [hactor] using hop
  exact (pairwise_append.mp hpw).2.2 o (mem_filter.mpr ⟨ho, hserver⟩) op
    (mem_cons_self ..) f d' d hd' hd

def idleChoice (conns : List ConnId) : Choice := ⟨fun _ => 0, none, [], conns⟩

def twoMarks : List (ServerEvent Unit) :=
  let mark (file : Ed2kHash) : List (ServerEvent Unit) :=
    [ .start (.timer 0) (.write (.map .watched file true)),
      .exec (.timer 0) (idleChoice []), .exec (.timer 0) (idleChoice []),
      .exec (.timer 0) (idleChoice [0]), .exec (.timer 0) (idleChoice []),
      .exec (.timer 0) (idleChoice []) ]
  .register none :: mark 7 ++ mark 8

/-- Two tasks mark files watched; the one that wrote second pushes first. -/
def overtakenMarks : List (ServerEvent Unit) :=
  [ .register none, .register none,
    .recv 0 (.markWatched 7 true) false, .recv 1 (.markWatched 8 true) false,
    .exec (.conn 0) (idleChoice []), .exec (.conn 1) (idleChoice []),
    .exec (.conn 1) (idleChoice [0, 1]), .exec (.conn 1) (idleChoice []),
    .exec (.conn 0) (idleChoice [0, 1]), .exec (.conn 0) (idleChoice []) ]

theorem server_ops_in_dot_order_two_marks :
    ∃ s, run (Shared.step fun _ => ()) (.init ⟨0, .new⟩) twoMarks = some s ∧
      (s.out 0).map Outgoing.serverDot? =
        [some (0, .watched, ⟨SERVER, 1⟩), some (0, .watched, ⟨SERVER, 2⟩)] ∧
      (s.out 0).Pairwise InDotOrder := by
  have hsome : (run (Shared.step fun _ => ()) (.init ⟨0, .new⟩) twoMarks).isSome = true := by
    decide
  have hrun := (some_get hsome).symm
  refine ⟨_, hrun, rfl, ?_⟩
  refine (server_ops_in_dot_order _ ⟨0, .new⟩ _
    (Shared.reach_of_single _ (.timer 0) twoMarks ?_ (fun _ _ => rfl) hrun) 0).1
  decide

/-- The watched mark the server authors as its `i`-th write. -/
def markOp (i : Nat) (file : Ed2kHash) : CrdtOp :=
  .up .watched ⟨⟨SERVER, i⟩, file, ⟨i, true⟩⟩

theorem mark_watched_overtaken :
    ∃ s, run (Shared.step fun _ => ()) (.init ⟨0, .new⟩) overtakenMarks = some s ∧
      (s.out 0).filterMap (Outgoing.serverOp? 0) = [markOp 2 8, markOp 1 7] ∧
      new.Takes (markOp 1 7) ∧
      ¬ (new.apply (markOp 2 8)).Takes (markOp 1 7) ∧
      (((new.apply (markOp 2 8)).apply (markOp 1 7)).maps .watched).get (7 : Nat) =
        none := by
  have hsome : (run (Shared.step fun _ => ()) (.init ⟨0, .new⟩) overtakenMarks).isSome = true := by
    decide
  exact ⟨_, (some_get hsome).symm, rfl, by decide, by decide, by decide⟩

end DessPlay.Server
