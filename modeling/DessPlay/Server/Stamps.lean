/-
  DessPlay.Server.Stamps
  **THE SERVER'S LAMPORT FLOOR.**

  Stamps come from one atomic counter that every task may move at any moment,
  inside or outside the lock.  `Grows` says what any piece of work does to it: it
  never falls, and what it hands out lies above where it stood.  `Floor` is the
  invariant: everything handed out or received lies at or below the counter, and
  so does every timestamp in the state WHILE NOBODY HOLDS THE LOCK.
-/
import DessPlay.Server.Shared
import DessPlay.Sync.Stamps

namespace DessPlay.Server

open Machine Crdts DessPlay.Core List Option CrdtState

namespace Core

variable {H : Type}

/-! ## §1. How the counter moves. -/

/-- The counter does not fall, and new stamps lie above where it stood. -/
structure Grows (c c' : Core) : Prop where
  le : c.lastIssued ≤ c'.lastIssued
  stamps : ∃ new, c'.issued = c.issued ++ new ∧ new.Pairwise (· < ·) ∧
    ∀ ts ∈ new, c.lastIssued < ts ∧ ts ≤ c'.lastIssued

variable {c c' c'' : Core}

theorem Grows.of_le (h : c.lastIssued ≤ c'.lastIssued) (hi : c'.issued = c.issued) : c.Grows c' :=
  ⟨h, [], by simp [hi], .nil, by simp⟩

theorem Grows.trans (h : c.Grows c') (h' : c'.Grows c'') : c.Grows c'' := by
  obtain ⟨new, hnew, hpw, hlt⟩ := h.stamps
  obtain ⟨new', hnew', hpw', hlt'⟩ := h'.stamps
  refine ⟨h.le.trans h'.le, new ++ new', by rw [hnew', hnew, append_assoc], ?_, ?_⟩
  · refine pairwise_append.mpr ⟨hpw, hpw', fun a ha b hb => ?_⟩
    exact (hlt a ha).2.trans_lt (hlt' b hb).1
  · intro ts hts
    rcases mem_append.mp hts with hts | hts
    · exact ⟨(hlt ts hts).1, (hlt ts hts).2.trans h'.le⟩
    · exact ⟨h.le.trans_lt (hlt' ts hts).1, (hlt' ts hts).2⟩

theorem grows_stamp (c : Core) (now : Nat) : c.Grows (c.stamp now).1 := by
  have hlt : c.lastIssued < max now (c.lastIssued + 1) :=
    lt_of_lt_of_le (Nat.lt_succ_self _) (le_max_right _ _)
  refine ⟨hlt.le, [max now (c.lastIssued + 1)], rfl, pairwise_singleton _ _, ?_⟩
  intro ts hts
  rw [mem_singleton.mp hts]
  exact ⟨hlt, le_rfl⟩

theorem grows_observe (c : Core) (ts : Option SharedTimestamp) : c.Grows (c.observe ts) := by
  cases ts with
  | none => exact .of_le le_rfl rfl
  | some t => exact .of_le (le_max_left _ _) rfl

/-! ## §2. The floor. -/

structure Floor (c : Core) : Prop where
  state : c.lock = none → c.state.Below c.lastIssued
  increasing : c.issued.Pairwise (· < ·)
  issued : ∀ t ∈ c.issued, t ≤ c.lastIssued
  observed : ∀ t ∈ c.observed, t ≤ c.lastIssued

theorem Floor.grow (h : c.Floor) (hg : c.Grows c')
    (hs : c'.lock = none → c'.state.Below c'.lastIssued) (ho : c'.observed = c.observed) :
    c'.Floor := by
  obtain ⟨new, hnew, hpw, hlt⟩ := hg.stamps
  refine ⟨hs, ?_, fun t ht => ?_, fun t ht => ?_⟩
  · rw [hnew]
    refine pairwise_append.mpr ⟨h.increasing, hpw, fun a ha b hb => ?_⟩
    exact (h.issued a ha).trans_lt (hlt b hb).1
  · rw [hnew] at ht
    rcases mem_append.mp ht with ht | ht
    · exact (h.issued t ht).trans hg.le
    · exact (hlt t ht).2
  · exact (h.observed t (ho ▸ ht)).trans hg.le

structure Section (c c' : Core) : Prop where
  grows : c.Grows c'
  state : c.state.Below c.lastIssued → c'.state.Below c'.lastIssued
  lock : c'.lock = c.lock
  observed : c'.observed = c.observed

theorem Section.trans (h : c.Section c') (h' : c'.Section c'') : c.Section c'' :=
  ⟨h.grows.trans h'.grows, fun hb => h'.state (h.state hb), h'.lock.trans h.lock,
    h'.observed.trans h.observed⟩

theorem Section.refl (c : Core) : c.Section c := ⟨.of_le le_rfl rfl, id, rfl, rfl⟩

theorem section_stamp (c : Core) (now : Nat) : c.Section (c.stamp now).1 :=
  ⟨c.grows_stamp now, fun h => h.mono (c.grows_stamp now).le, rfl, rfl⟩

theorem section_author (c : Core) {ts : SharedTimestamp} (hts : ts ≤ c.lastIssued)
    (w : Write) : c.Section (c.author (H := H) ts w).1 :=
  ⟨.of_le le_rfl rfl, fun h => h.put ActorId.SERVER hts w, rfl, rfl⟩

theorem section_stampedWrite (c : Core) (now : Nat) (w : Write) :
    c.Section ((c.stamp now).1.author (H := H) (c.stamp now).2 w).1 :=
  (c.section_stamp now).trans (section_author _ le_rfl w)

theorem section_authorAll (c : Core) (now : Nat → Nat) (ws : List Write) :
    c.Section (c.authorAll (H := H) now ws).1 := by
  induction ws generalizing c now with
  | nil => exact .refl c
  | cons w ws ih => exact (c.section_stampedWrite (H := H) (now 0) w).trans (ih _ _)

theorem section_savePosition (c : Core) (before : Option Ed2kHash) (choice : Choice) :
    c.Section (c.savePosition (H := H) before choice).1 := by
  unfold savePosition
  split
  · split
    · exact .refl c
    · exact c.section_stampedWrite (H := H) _ _
  · exact .refl c

theorem section_applyOp (c : Core) (sender : ConnId) (epoch : Epoch) {op : CrdtOp}
    (hop : ∀ t ∈ op.lwwTimestamp, t ≤ c.lastIssued) (viaDatagram : Bool) (choice : Choice) :
    c.Section (c.applyOp (H := H) sender epoch op viaDatagram choice).core := by
  have hstate : c.state.Below c.lastIssued →
      (c.state.applyForBroadcast op viaDatagram).1.Below c.lastIssued := by
    intro h
    rcases c.state.applyForBroadcast_cases op viaDatagram with heq | heq <;> rw [heq]
    · exact h.apply hop
    · exact h
  -- the section up to the saved position
  have hfirst : c.Section { c with
      state := (c.state.applyForBroadcast op viaDatagram).1
      hist := c.hist ++ [.op epoch op] } := ⟨.of_le le_rfl rfl, hstate, rfl, rfl⟩
  unfold applyOp
  split
  · exact .refl c
  · simp only []
    split
    · split
      · exact hfirst.trans (section_savePosition _ _ _)
      · exact hfirst
    · exact ⟨.of_le le_rfl rfl, hstate, rfl, rfl⟩

theorem stampAt_strictMono (last : Nat) (now : Nat → Nat) : StrictMono (stampAt last now) :=
  strictMono_nat_of_lt_succ fun _ => lt_of_lt_of_le (Nat.lt_succ_self _) (le_max_right _ _)

theorem lt_stampAt (last : Nat) (now : Nat → Nat) (i : Nat) : last < stampAt last now i :=
  lt_of_lt_of_le (lt_of_lt_of_le (Nat.lt_succ_self _) (le_max_right _ _))
    ((stampAt_strictMono last now).monotone (Nat.zero_le i))

theorem section_compact (c : Core) {chatKeep : Nat} {now : Nat → Nat} {done : Done H}
    (h : c.compact chatKeep now = some done) : c.Section done.core := by
  obtain ⟨view, -, h⟩ := bind_eq_some_iff.mp h
  split at h
  · cases h
    set b := rebuildRun view ActorId.SERVER chatKeep (stampAt c.lastIssued now) with hb
    have htaken : ∀ i < b.taken, stampAt c.lastIssued now i ≤
        ((List.range b.taken).map (stampAt c.lastIssued now)).foldl max c.lastIssued :=
      fun i hi => le_foldl_max _
        (mem_map.mpr ⟨i, mem_range.mpr hi, rfl⟩)
    refine ⟨⟨start_le_foldl_max _ _, _, rfl, ?_, ?_⟩, fun _ => ?_, rfl, rfl⟩
    · exact (pairwise_lt_range).map _ fun a b hab => stampAt_strictMono _ _ hab
    · intro ts hts
      obtain ⟨i, hi, rfl⟩ := mem_map.mp hts
      exact ⟨lt_stampAt _ _ _, htaken i (mem_range.mp hi)⟩
    · exact Rebuild.stamped_rebuildRun view ActorId.SERVER chatKeep _ _ htaken
  · cases h

/-! ## §3. Work keeps the floor. -/

end Core

namespace Work

variable {H : Type}

/-- The stamp or op this work carries lies at or below `n`. -/
def Ready (n : Nat) : Work H → Prop
  | .applyOp _ _ op _ => ∀ t ∈ op.lwwTimestamp, t ≤ n
  | .write ts _ => ts ≤ n
  | _ => True

def raise (n : Nat) : Work H → Nat
  | .observe (some ts) => max n ts
  | _ => n

def AllReady : Nat → List (Work H) → Prop
  | _, [] => True
  | n, w :: ws => w.Ready n ∧ AllReady (w.raise n) ws

theorem Ready.mono {n m : Nat} (hnm : n ≤ m) {w : Work H} (h : w.Ready n) : w.Ready m := by
  cases w with
  | applyOp sender epoch op via => exact fun t ht => (h t ht).trans hnm
  | write ts w => exact le_trans h hnm
  | _ => trivial

theorem raise_mono {n m : Nat} (hnm : n ≤ m) (w : Work H) : w.raise n ≤ w.raise m := by
  cases w with
  | observe ts =>
    cases ts with
    | none => exact hnm
    | some t => exact max_le_max_right t hnm
  | _ => exact hnm

theorem AllReady.mono {ws : List (Work H)} {n m : Nat} (hnm : n ≤ m) (h : AllReady n ws) :
    AllReady m ws := by
  induction ws generalizing n m with
  | nil => trivial
  | cons w ws ih => exact ⟨h.1.mono hnm, ih (raise_mono hnm w) h.2⟩

theorem le_raise (n : Nat) (w : Work H) : n ≤ w.raise n := by
  cases w with
  | observe ts =>
    cases ts with
    | none => exact le_rfl
    | some t => exact le_max_left _ _
  | _ => exact le_rfl

theorem AllReady.append {n m : Nat} {ws vs : List (Work H)} (hws : AllReady m ws)
    (hvs : AllReady n vs) (hnm : n ≤ m) : AllReady m (ws ++ vs) := by
  induction ws generalizing m with
  | nil => exact hvs.mono hnm
  | cons w ws ih => exact ⟨hws.1, ih hws.2 (hnm.trans (le_raise m w))⟩

end Work

namespace Core

variable {H : Type}

structure Kept (c : Core) (w : Work H) (done : Done H) : Prop where
  grows : c.Grows done.core
  floor : done.core.Floor
  raised : w.raise c.lastIssued ≤ done.core.lastIssued
  ready : Work.AllReady done.core.lastIssued done.work

variable {c : Core}

theorem Section.kept (h : c.Floor) (hlock : c.lock = none) {w : Work H}
    (hw : w.raise c.lastIssued = c.lastIssued) {done : Done H} (hs : c.Section done.core)
    (hready : Work.AllReady done.core.lastIssued done.work) : c.Kept w done where
  grows := hs.grows
  floor := h.grow hs.grows (fun _ => hs.state (h.state hlock)) hs.observed
  raised := hw.le.trans hs.grows.le
  ready := hready

theorem observeMerged_kept (h : c.Floor) (before : Option Ed2kHash) (choice : Choice) :
    c.Kept (.observeMerged before) (c.observeMerged (H := H) before choice) := by
  have hg := c.grows_observe (some c.state.maxLwwTimestamp)
  have hbelow : c.state.Below (c.observe (some c.state.maxLwwTimestamp)).lastIssued :=
    (below_maxLwwTimestamp _).mono (le_max_right _ _)
  -- the core just after the observation, with the lock released
  set c₁ : Core := { c.observe (some c.state.maxLwwTimestamp) with lock := none } with hc₁
  have hg₁ : c.Grows c₁ := ⟨hg.le, hg.stamps⟩
  have hfloor : c₁.Floor := h.grow hg₁ (fun _ => hbelow) rfl
  have hs := section_savePosition (H := H) c₁ before choice
  unfold observeMerged
  simp only [← hc₁]
  split
  · exact ⟨hg₁, hfloor, hg.le, trivial, trivial⟩
  · exact ⟨hg₁.trans hs.grows, hfloor.grow hs.grows (fun _ => hs.state hbelow) hs.observed,
      hg.le.trans hs.grows.le, trivial, trivial, trivial⟩

theorem observe_kept (h : c.Floor) (ts : Option SharedTimestamp) :
    c.Kept (.observe ts : Work H)
      ⟨{ c.observe ts with observed := c.observed ++ ts.toList }, [], []⟩ := by
  have hg := c.grows_observe ts
  have hf : (c.observe ts).Floor := by
    refine h.grow hg (fun hl => ?_) (by cases ts <;> rfl)
    cases ts with
    | none => exact h.state hl
    | some t => exact (h.state hl).mono (le_max_left _ _)
  refine ⟨⟨hg.le, hg.stamps⟩, ⟨hf.state, hf.increasing, hf.issued, fun t ht => ?_⟩, ?_, trivial⟩
  · rcases mem_append.mp ht with ht | ht
    · exact (h.observed t ht).trans hg.le
    · cases mem_toList.mp ht
      exact le_max_right _ _
  · cases ts with
    | none => exact le_rfl
    | some t => exact le_rfl

theorem applyOp_ready (c : Core) (sender : ConnId) (epoch : Epoch) (op : CrdtOp)
    (viaDatagram : Bool) (choice : Choice) (n : Nat) :
    Work.AllReady n (c.applyOp (H := H) sender epoch op viaDatagram choice).work := by
  unfold applyOp
  split
  · trivial
  · simp only []
    split
    · split
      · exact ⟨trivial, trivial⟩
      · trivial
    · trivial

theorem mergeState_kept (h : c.Floor) (hfree : c.lock = none) (t : TaskId)
    (snapshot : StateSnapshot) :
    c.Kept (.mergeState snapshot : Work H) (c.mergeState t snapshot) := by
  unfold mergeState
  split
  · exact Section.kept h hfree rfl (.refl c) trivial
  · exact ⟨.of_le le_rfl rfl, h.grow (.of_le le_rfl rfl) nofun rfl, le_rfl,
      trivial, trivial⟩

/-- **One piece of work**, whatever it is. -/
theorem perform_kept (h : c.Floor) [DecidableEq H] (digest : StateView → H) (t : TaskId)
    (choice : Choice) {w : Work H} (hw : w.Ready c.lastIssued) {done : Done H}
    (hd : c.perform digest t choice w = some done) : c.Kept w done := by
  cases w with
  | observe ts => cases hd; exact observe_kept h ts
  | serverWrite w =>
    cases hd
    have hs := c.section_stamp (choice.now 0)
    exact ⟨hs.grows, h.grow hs.grows (fun hl => hs.state (h.state hl)) rfl, hs.grows.le,
      le_rfl, trivial⟩
  | observeMerged before =>
    simp only [perform] at hd
    split at hd
    · cases hd; exact observeMerged_kept h before choice
    · cases hd
  | applyOp sender epoch op via =>
    obtain ⟨hfree, hd⟩ := whenFree_eq_some.mp hd
    cases hd
    exact Section.kept h hfree rfl (section_applyOp c sender epoch hw via choice)
      (applyOp_ready c sender epoch op via choice _)
  | write ts w =>
    obtain ⟨hfree, hd⟩ := whenFree_eq_some.mp hd
    cases hd
    exact Section.kept h hfree rfl (section_author (H := H) c hw w) trivial
  | eof file =>
    obtain ⟨hfree, hd⟩ := whenFree_eq_some.mp hd
    cases hd
    exact Section.kept h hfree rfl (section_authorAll (H := H) c choice.now _) trivial
  | markWatched file watched =>
    obtain ⟨hfree, hd⟩ := whenFree_eq_some.mp hd
    cases hd
    exact Section.kept h hfree rfl (section_authorAll (H := H) c choice.now _) trivial
  | mergeState snapshot =>
    obtain ⟨hfree, hd⟩ := whenFree_eq_some.mp hd
    cases hd
    exact mergeState_kept h hfree t snapshot
  | compact chatKeep =>
    obtain ⟨hfree, hd⟩ := whenFree_eq_some.mp hd
    refine Section.kept h hfree rfl (section_compact c hd) ?_
    obtain ⟨view, -, hd⟩ := bind_eq_some_iff.mp hd
    split at hd
    · cases hd; exact ⟨trivial, trivial⟩
    · cases hd
  | syncStatus n epoch hash =>
    obtain ⟨hfree, hd⟩ := whenFree_eq_some.mp hd
    cases hd
    exact Section.kept h hfree rfl (.refl c) trivial
  | requestMerge n =>
    obtain ⟨hfree, hd⟩ := whenFree_eq_some.mp hd
    cases hd
    exact Section.kept h hfree rfl (.refl c) trivial
  | rebroadcast saved =>
    obtain ⟨hfree, hd⟩ := whenFree_eq_some.mp hd
    cases hd
    exact Section.kept h hfree rfl (.refl c) trivial
  | compactSnapshot =>
    obtain ⟨hfree, hd⟩ := whenFree_eq_some.mp hd
    cases hd
    exact Section.kept h hfree rfl (.refl c) trivial
  | stateHash =>
    obtain ⟨hfree, hd⟩ := whenFree_eq_some.mp hd
    cases hd
    exact Section.kept h hfree rfl (.refl c) trivial

end Core

namespace Shared

variable {H : Type}

/-! ## §4. Every interleaving. -/

/-- The floor, with every task's queued work ready for it. -/
structure StampInv (s : Shared H) : Prop where
  floor : s.core.Floor
  ready : ∀ t, Work.AllReady s.core.lastIssued (s.tasks t).work

theorem allReady_handler (s : Shared H) (n : ConnId) (viaDatagram : Bool) (msg : ServerControl H)
    (last : Nat) : Work.AllReady last (s.handler n viaDatagram msg) := by
  cases msg with
  | stateOp epoch op =>
    refine ⟨trivial, fun t ht => ?_, trivial⟩
    cases hts : op.lwwTimestamp with
    | none => rw [hts] at ht; cases ht
    | some u => rw [hts] at ht; cases ht; exact le_max_right _ _
  | syncStatus epoch hash =>
    show Work.AllReady last (if n ∈ s.syncSent then [] else [.syncStatus n epoch hash])
    split
    · trivial
    · exact ⟨trivial, trivial⟩
  | _ => trivial

theorem StampInv.setTask {s s' : Shared H} (hs : s.StampInv) (hfloor : s'.core.Floor)
    (hle : s.core.lastIssued ≤ s'.core.lastIssued) {t : TaskId} {task : Task H}
    (htasks : s'.tasks = Function.update s.tasks t task)
    (htask : Work.AllReady s'.core.lastIssued task.work) : s'.StampInv := by
  refine ⟨hfloor, fun t' => ?_⟩
  rw [htasks]
  by_cases ht : t' = t
  · subst ht
    rwa [Function.update_self]
  · rw [Function.update_of_ne ht]
    exact (hs.ready t').mono hle

theorem stampInv_init (snapshot : StateSnapshot) : (init (H := H) snapshot).StampInv where
  floor := ⟨fun _ => below_maxLwwTimestamp _, .nil, by simp [init], by simp [init]⟩
  ready _ := trivial

variable [DecidableEq H] (digest : StateView → H)

/-- **One step** of any task keeps the floor, and the counter only grows. -/
theorem StampInv.step {s s' : Shared H} (inv : s.StampInv) (e : ServerEvent H)
    (hs : s.step digest e = some s') : s'.StampInv ∧ s.core.Grows s'.core := by
  have hsame : s.core.Grows s.core := .of_le le_rfl rfl
  cases Step.of_step digest hs with
  | register supersedes => exact ⟨⟨inv.floor, inv.ready⟩, hsame⟩
  | drop n => exact ⟨⟨inv.floor, inv.ready⟩, hsame⟩
  | recv n msg via hidle hn =>
    exact ⟨inv.setTask inv.floor le_rfl rfl (s.allReady_handler n via msg _), hsame⟩
  | start t job hidle =>
    refine ⟨inv.setTask inv.floor le_rfl rfl ?_, hsame⟩
    cases job <;> exact ⟨trivial, trivial⟩
  | work t choice w ws done htask hdone =>
    have hready := inv.ready t
    rw [htask] at hready
    have hkept := Core.perform_kept inv.floor digest t choice hready.1 hdone
    exact ⟨inv.setTask hkept.floor hkept.grows.le rfl
      (hkept.ready.append hready.2 hkept.raised), hkept.grows⟩
  | resolve t choice send rest work skip htask hall hconns =>
    have hready := inv.ready t
    rw [htask] at hready
    exact ⟨inv.setTask inv.floor le_rfl rfl hready, hsame⟩
  | finish t choice send rest work htask hnone =>
    have hready := inv.ready t
    rw [htask] at hready
    exact ⟨inv.setTask inv.floor le_rfl rfl hready, hsame⟩
  | push t choice send rest work n ns htask hto =>
    have hready := inv.ready t
    rw [htask] at hready
    exact ⟨inv.setTask inv.floor le_rfl rfl hready, hsame⟩

theorem stamp_gt {snapshot : StateSnapshot} {s s' : Shared H} {e : ServerEvent H}
    (hr : Reach (step digest) anyStep (init snapshot) s) (hs : s.step digest e = some s') :
    ∃ new, s'.core.issued = s.core.issued ++ new ∧ new.Pairwise (· < ·) ∧ ∀ ts ∈ new,
      (∀ t ∈ s.core.issued, t < ts) ∧ (∀ t ∈ s.core.observed, t < ts) ∧
        (s.core.lock = none → ∀ t, s.core.state.HasStamp t → t < ts) := by
  have inv : s.StampInv := hr.invariant (stampInv_init snapshot)
    fun s e s' inv _ hs => (inv.step digest e hs).1
  obtain ⟨new, hnew, hpw, hlt⟩ := (inv.step digest e hs).2.stamps
  refine ⟨new, hnew, hpw, fun ts hts => ?_⟩
  have hgt := (hlt ts hts).1
  exact ⟨fun t ht => (inv.floor.issued t ht).trans_lt hgt,
    fun t ht => (inv.floor.observed t ht).trans_lt hgt,
    fun hfree t ht => (below_iff.mp (inv.floor.state hfree) t ht).trans_lt hgt⟩

end Shared

open Sync

/-! ## §5. Causally later writes win. -/

/-- **Causally later writes win.**  The sync actor's next stamp exceeds every stamp
it issued, every timestamp in its replica and every timestamp of a message it
adopted; so does the server's, with what it received, and with the state
whenever nobody holds the lock.  On any replica that takes it, a write stamped
`ts` loses its cell only to a write stamped `ts` or later. -/
theorem causally_later_writes_win {H : Type} [DecidableEq H] (digest : StateView → H) :
    (∀ (user : UserId) (actor : ActorId) (initial : Option StateSnapshot) (s : Session H),
      Reach (Session.step digest) anyStep ⟨.start user actor initial, [], []⟩ s →
      ∀ (r : Reading) (cmd : SyncCommand H), ∀ ts ∈ s.actor.issues r cmd,
        (∀ t ∈ s.issued, t < ts) ∧ (∀ t, s.actor.state.HasStamp t → t < ts) ∧
          ∀ msg ∈ s.adopted, ∀ t, msg.HasStamp t → t < ts) ∧
    (∀ (snapshot : StateSnapshot) (s s' : Shared H) (e : ServerEvent H),
      Reach (Shared.step digest) anyStep (.init snapshot) s → s.step digest e = some s' →
      ∃ new, s'.core.issued = s.core.issued ++ new ∧ new.Pairwise (· < ·) ∧ ∀ ts ∈ new,
        (∀ t ∈ s.core.issued, t < ts) ∧ (∀ t ∈ s.core.observed, t < ts) ∧
          (s.core.lock = none → ∀ t, s.core.state.HasStamp t → t < ts)) ∧
    (∀ (author replica : CrdtState) (actor : ActorId) (ts : SharedTimestamp)
        (w : Write) (c : Cell) (pre post : List CrdtOp), replica.NoDeferred →
      (∀ o ∈ pre ++ post, o.IsPut) → (author.writeOp actor ts w).cell? = some c →
      (pre.foldl apply replica).Takes (author.writeOp actor ts w) →
      ∃ t, ((pre ++ author.writeOp actor ts w :: post).foldl apply replica).winner? c
        = some t ∧ ts ≤ t) := by
  refine ⟨fun user actor initial s hr r cmd ts hts => Session.stamp_gt digest hr hts,
    fun snapshot s s' e hr hs => Shared.stamp_gt digest hr hs, ?_⟩
  intro author replica actor ts w c pre post hdef hput hc htakes
  have hputs : ∀ o ∈ pre ++ author.writeOp actor ts w :: post, o.IsPut := by
    intro o ho
    rcases mem_append.mp ho with ho | ho
    · exact hput o (mem_append_left _ ho)
    · rcases mem_cons.mp ho with rfl | ho
      · exact isPut_writeOp ..
      · exact hput o (mem_append_right _ ho)
  obtain ⟨t, hwin, hle⟩ := winner_of_taken hdef hputs hc htakes
  refine ⟨t, hwin, hle ts ?_⟩
  cases w with
  | map f k v => rfl
  | reg r v => rfl
  | set g x => cases hc
  | chat m => cases hc

/-- A client that took in a write stamped 1000, a server task about to stamp, and a
replica that holds the old write: all three parts at work. -/
theorem causally_later_writes_win_over_1000 : let digest : StateView → Unit := fun _ => ()
    let old : CrdtOp := .reg .nowPlaying ⟨1000, (none : Option Ed2kHash)⟩
    let r : Reading := ⟨0, 0, none⟩
    let cmd : SyncCommand Unit := .mutate (.setNowPlaying (some (7 : Nat)))
    let choice : Choice := ⟨fun _ => 0, none, [], []⟩
    (∃ s, run (Session.step digest) ⟨.start "alice" 1 none, [], []⟩
        [(r, .server (.stateOp 0 old) false)] = some s ∧
      s.actor.issues r cmd = some 1001 ∧ ∀ t, s.actor.state.HasStamp t → t < 1001) ∧
    (∃ s s', run (Shared.step digest) (.init ⟨0, new.apply old⟩)
        [.start (.timer 0) (.write (.reg .nowPlaying (none : Option Ed2kHash)))] = some s ∧
      s.step digest (.exec (.timer 0) choice) = some s' ∧
      ∃ new, s'.core.issued = s.core.issued ++ new ∧ new.Pairwise (· < ·)) ∧
    ∃ t, (([old] ++ new.writeOp 1 1001 (.reg .nowPlaying (some (7 : Nat))) :: []).foldl
      apply .new).winner? (.reg .nowPlaying) = some t ∧ 1001 ≤ t := by
  intro digest old r cmd choice
  obtain ⟨hclient, hserver, hreplica⟩ := causally_later_writes_win digest
  refine ⟨?_, ?_, ?_⟩
  · refine ⟨_, rfl, by decide, ?_⟩
    have hr : Reach (Session.step digest) anyStep ⟨.start "alice" 1 none, [], []⟩ _ :=
      reach_of_run [(r, .server (.stateOp 0 old) false)] rfl
    exact (hclient "alice" 1 none _ hr r cmd 1001 (by decide)).2.1
  · refine ⟨_, _, rfl, rfl, ?_⟩
    have hr : Reach (Shared.step digest) anyStep (.init ⟨0, new.apply old⟩) _ :=
      reach_of_run [.start (.timer 0) (.write (.reg .nowPlaying (none : Option Ed2kHash)))] rfl
    obtain ⟨new, hnew, hpw, -⟩ := hserver _ _ _ (.exec (.timer 0) choice) hr rfl
    exact ⟨new, hnew, hpw⟩
  · exact hreplica .new .new 1 1001 _ _ [old] [] (fun _ => rfl) (by decide) rfl trivial

theorem dropped_op_not_observed :
    let op : CrdtOp := .reg .nowPlaying ⟨1000, (none : Option Ed2kHash)⟩
    let a := SyncActor.start "alice" 1 none
    let a' :=
      (a.handle (H := Unit) (fun _ => ()) ⟨0, 0, none⟩ (.server (.stateOp 1 op) false)).actor
    op.lwwTimestamp = some 1000 ∧
      a'.issues (H := Unit) ⟨0, 0, none⟩ (.mutate (.setNowPlaying none)) = some 1 := by
  decide

end DessPlay.Server
