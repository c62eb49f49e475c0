/-
  DessPlay.Server.Hostile
  **DECODED OPS THAT NO MUTATOR ISSUES, AND PANICS**
  (`dessplay-core/src/{state,playlist,compact}.rs`, `dessplay-rendezvous/src/server.rs`,
  `vendor/crdts`).

  The rest of the development counts in `Nat`.  Here every addition on a `u64` is
  checked as in a debug build, and every partial read returns `none` where the
  source panics.  There are three kinds of such places: `clock[actor] + 1` (the test
  of a datagram, the dot of a map write), `last + 1` (a server stamp), and the
  `unwrap` on the last node of a chat identifier (a view, hence its hash and
  compaction).  `apply`, `merge`, `max_lww_timestamp` and `append_chat` have none.
-/
import DessPlay.Core.Broadcast
import DessPlay.Core.Compact
import DessPlay.Lib.Machine
import DessPlay.Replication.Compaction
import DessPlay.Server.Shared

namespace DessPlay.Core

open BTree Crdts List Option CrdtState

/-! ## §1. The additions, checked. -/

/-- `u64::MAX`. -/
def U64_MAX : Nat := 2 ^ 64 - 1

/-- `n + 1` in a debug build: `none` is the overflow panic. -/
def checkedSucc (n : Nat) : Option Nat := if n < U64_MAX then some (n + 1) else none

theorem checkedSucc_of_lt {n : Nat} (h : n < U64_MAX) : checkedSucc n = some (n + 1) := if_pos h

theorem checkedSucc_eq_some {n m : Nat} (h : checkedSucc n = some m) : m = n + 1 := by
  unfold checkedSucc at h
  split at h
  · exact (some.inj h).symm
  · cases h

/-- `next_in_sequence`, which adds one to the counter it has seen. -/
def nextInSequence? {K V : Type} [LinearOrder K] (m : LwwMap K V) : LwwMapOp K V → Option Bool
  | .up dot _ _ => (checkedSucc (m.clock.get dot.actor)).map (· == dot.counter)
  | .rm _ _ => some false

namespace CrdtState

variable (s : CrdtState)

/-- `apply_if_orderly`. -/
def applyIfOrderly? : CrdtOp → Option (CrdtState × Bool)
  | .map f op =>
    (nextInSequence? (s.maps f) op).map fun next =>
      if next then (s.apply (.map f op), true) else (s, false)
  | op => some (s.apply op, true)

/-- `apply_for_broadcast`: only the datagram arm of the maps adds. -/
def applyForBroadcast? (op : CrdtOp) (viaDatagram : Bool) : Option (CrdtState × Bool) :=
  match op, viaDatagram with
  | .map f op, true => s.applyIfOrderly? (.map f op)
  | op, viaDatagram => some (s.applyForBroadcast op viaDatagram)

/-- The op of a write: `map_put` derives the actor's next dot. -/
def writeOp? (actor : ActorId) (ts : SharedTimestamp) : Write → Option CrdtOp
  | .map f key value =>
    (checkedSucc ((s.maps f).clock.get actor)).map fun counter =>
      .map f (.up ⟨actor, counter⟩ key ⟨ts, value⟩)
  | w => some (s.writeOp actor ts w)

def put? (actor : ActorId) (ts : SharedTimestamp) (w : Write) : Option (CrdtState × CrdtOp) :=
  (s.writeOp? actor ts w).map fun op => (s.apply op, op)

def addPlaylistEntryAfter? (actor : ActorId) (ts : SharedTimestamp) (anchor : Option Ed2kHash)
    (new : NewPlaylistEntry) : Option (CrdtState × CrdtOp) :=
  s.put? actor ts (.map .playlist new.hash (some
    { position := s.positionAfter anchor new.hash actor
      addedBy := new.addedBy
      filename := new.filename
      sizeBytes := new.sizeBytes
      durationMillis := new.durationMillis }))

def pushPlaylistEntry? (actor : ActorId) (ts : SharedTimestamp) (new : NewPlaylistEntry) :
    Option (CrdtState × CrdtOp) :=
  s.addPlaylistEntryAfter? actor ts (s.playlistEntries.getLast?.map (·.hash)) new

/-- Every counter the maps have seen is below `u64::MAX`. -/
def Roomy : Prop := ∀ f (actor : ActorId), (s.maps f).clock.get actor < U64_MAX

variable {s}

theorem applyIfOrderly?_of_roomy (h : s.Roomy) (op : CrdtOp) :
    s.applyIfOrderly? op = some (s.applyIfOrderly op) := by
  cases op with
  | map f op =>
    cases op with
    | up dot key w =>
      simp only [applyIfOrderly?, nextInSequence?, checkedSucc_of_lt (h f _), map_some,
        applyIfOrderly, nextInSequence]
      rfl
    | rm clock keyset => rfl
  | reg r w => rfl
  | set g x => rfl
  | chat id => rfl

theorem applyForBroadcast?_of_roomy (h : s.Roomy) (op : CrdtOp) (via : Bool) :
    s.applyForBroadcast? op via = some (s.applyForBroadcast op via) := by
  cases op with
  | map f op =>
    cases via with
    | false => rfl
    | true => exact applyIfOrderly?_of_roomy h (.map f op)
  | reg r w => rfl
  | set g x => rfl
  | chat id => rfl

theorem put?_of_roomy (h : s.Roomy) (actor : ActorId) (ts : SharedTimestamp) (w : Write) :
    s.put? actor ts w = some (s.put actor ts w) := by
  cases w with
  | map f key value =>
    simp only [put?, writeOp?, checkedSucc_of_lt (h f actor), map_some]
    rfl
  | reg r value => rfl
  | set g x => rfl
  | chat message => rfl

theorem put?_eq_some {actor : ActorId} {ts : SharedTimestamp} {w : Write}
    {done : CrdtState × CrdtOp} (h : s.put? actor ts w = some done) : done = s.put actor ts w := by
  cases w with
  | map f key value =>
    obtain ⟨op, hop, hdone⟩ := map_eq_some_iff.mp h
    obtain ⟨counter, hcounter, rfl⟩ := map_eq_some_iff.mp hop
    rw [← hdone, checkedSucc_eq_some hcounter]
    rfl
  | reg r value => exact (some.inj h).symm
  | set g x => exact (some.inj h).symm
  | chat message => exact (some.inj h).symm

end CrdtState

/-! ## §2. The rebuild, one step at a time. -/

/-- One write of a rebuild. -/
inductive RebuildStep where
  | push (entry : PlaylistEntry)
  | write (w : Write)
  | chat (message : ChatMessage)

namespace RebuildStep

def stamped : RebuildStep → Bool
  | chat _ => false
  | _ => true

/-- The stamped writes of a resolved map. -/
def ofMap (f : MapField) (view : MapView f) : List RebuildStep :=
  view.toList.map fun e => .write (.map f e.1 e.2)

end RebuildStep

def PlaylistEntry.renewed (entry : PlaylistEntry) : NewPlaylistEntry :=
  { hash := entry.hash
    addedBy := entry.state.addedBy
    filename := entry.state.filename
    sizeBytes := entry.state.sizeBytes
    durationMillis := entry.state.durationMillis }

/-- The writes of `rebuild`, in its order. -/
def rebuildSteps (view : StateView) (chatKeep : Nat) : List RebuildStep :=
  view.playlist.map .push ++
  RebuildStep.ofMap .watched (view.watched.filter fun _ watched => (watched : Bool)) ++
  [.write (.reg .nowPlaying view.nowPlaying)] ++
  view.seekAuthority.toList.map (fun authority => .write (.reg .seekAuthority authority)) ++
  [.write (.reg .playbackIntent view.playbackIntent)] ++
  RebuildStep.ofMap .seriesPreference view.seriesPreference ++
  RebuildStep.ofMap .manualOverride view.manualOverride ++
  RebuildStep.ofMap .fileAvailability view.fileAvailability ++
  RebuildStep.ofMap .anidbMetadata view.anidbMetadata ++
  RebuildStep.ofMap .seriesRelations view.seriesRelations ++
  RebuildStep.ofMap .fileCatalog view.fileCatalog ++
  RebuildStep.ofMap .listEntries view.listEntries ++
  RebuildStep.ofMap .listNextEp view.listNextEp ++
  (view.chat.reverse.take chatKeep).reverse.map .chat ++
  RebuildStep.ofMap .playbackPosition view.playbackPosition ++
  RebuildStep.ofMap .savedPosition
    (view.savedPosition.filter fun _ (millis : Nat) => decide (0 < millis))

def Rebuild.perform (actor : ActorId) (stamp : Nat → SharedTimestamp) (b : Rebuild) :
    RebuildStep → Rebuild
  | .push entry => b.push actor stamp entry
  | .write w => b.write actor stamp w
  | .chat message => b.chat actor message

theorem Rebuild.writeMap_eq (actor : ActorId) (stamp : Nat → SharedTimestamp) (f : MapField)
    (b : Rebuild) (view : MapView f) :
    b.writeMap actor stamp f view =
      (RebuildStep.ofMap f view).foldl (Rebuild.perform actor stamp) b := by
  unfold Rebuild.writeMap RebuildStep.ofMap
  rw [Std.ExtTreeMap.foldl_eq_foldl_toList, foldl_map]
  rfl

theorem rebuildRun_eq_foldl (view : StateView) (actor : ActorId) (chatKeep : Nat)
    (stamp : Nat → SharedTimestamp) :
    rebuildRun view actor chatKeep stamp =
      (rebuildSteps view chatKeep).foldl (Rebuild.perform actor stamp) ⟨.new, 0⟩ := by
  unfold rebuildRun rebuildSteps
  simp only [foldl_append, ← Rebuild.writeMap_eq, foldl_map, foldl_cons,
    foldl_nil]
  cases view.seekAuthority <;> rfl

/-! ## §3. Counters within a bound, chat lines that can be read. -/

/-- The op's dot is within `B` and its chat identifier has a node. -/
def CrdtOp.Sound (B : Nat) : CrdtOp → Prop
  | .map _ (.up dot _ _) => dot.counter ≤ B
  | .chat id => id.path ≠ []
  | _ => True

theorem CrdtOp.Sound.mono {B B' : Nat} {op : CrdtOp} (h : op.Sound B) (hle : B ≤ B') :
    op.Sound B' := by
  cases op with
  | map f op =>
    cases op with
    | up dot key w => exact le_trans (show dot.counter ≤ B from h) hle
    | rm clock keyset => trivial
  | reg r w => trivial
  | set g x => trivial
  | chat id => exact h

namespace CrdtState

/-- The maps' counters are within `B` and every chat identifier has a node. -/
structure Sound (B : Nat) (s : CrdtState) : Prop where
  counters : ∀ f (actor : ActorId), (s.maps f).clock.get actor ≤ B
  lines : ∀ id ∈ s.chat.list, id.path ≠ []

variable {B : Nat} {s : CrdtState}

theorem sound_new (B : Nat) : (new : CrdtState).Sound B where
  counters _ _ := by
    show VClock.get VClock.new _ ≤ B
    rw [VClock.get_new]
    exact Nat.zero_le B
  lines _ hid := absurd hid Std.ExtTreeSet.not_mem_empty

theorem Sound.mono {B' : Nat} (h : s.Sound B) (hle : B ≤ B') : s.Sound B' :=
  ⟨fun f actor => (h.counters f actor).trans hle, h.lines⟩

theorem Sound.roomy (h : s.Sound B) (hB : B < U64_MAX) : s.Roomy := fun f actor =>
  (h.counters f actor).trans_lt hB

theorem counter_apply_le {f : MapField} {op : LwwMapOp f.Key f.Val} {m : LwwMap f.Key f.Val}
    (hm : ∀ actor, m.clock.get actor ≤ B) (hop : (CrdtOp.map f op).Sound B) (actor : ActorId) :
    (m.apply op).clock.get actor ≤ B := by
  cases op with
  | up dot key w =>
    rw [Map.apply_up_clock]
    split
    · exact max_le (hm actor) hop
    · exact hm actor
  | rm clock keyset =>
    rw [Map.apply_rm_clock]
    exact hm actor

theorem Sound.apply (h : s.Sound B) {op : CrdtOp} (hop : op.Sound B) : (s.apply op).Sound B := by
  cases op with
  | map f op =>
    refine ⟨fun g actor => ?_, h.lines⟩
    show (Function.update s.maps f _ g).clock.get actor ≤ B
    by_cases hg : g = f
    · subst hg
      rw [Function.update_self]
      exact counter_apply_le (h.counters g) hop actor
    · rw [Function.update_of_ne hg]
      exact h.counters g actor
  | reg r w => exact ⟨h.counters, h.lines⟩
  | set g x => exact ⟨h.counters, h.lines⟩
  | chat line =>
    refine ⟨h.counters, fun id hid => ?_⟩
    rcases (GList.mem_apply s.chat line id).mp hid with rfl | hold
    · exact hop
    · exact h.lines id hold

theorem Sound.merge {other : CrdtState} (h : s.Sound B) (ho : other.Sound B) :
    (s.merge other).Sound B where
  counters f actor := by
    show (Map.merge (s.maps f) (other.maps f)).clock.get actor ≤ B
    rw [Map.merge_clock_get]
    exact max_le (h.counters f actor) (ho.counters f actor)
  lines id hid := ((GList.mem_merge s.chat other.chat id).mp hid).elim (h.lines id) (ho.lines id)

theorem Sound.applyIfOrderly (h : s.Sound B) {op : CrdtOp} (hop : op.Sound B) :
    (s.applyIfOrderly op).1.Sound B := by
  rcases applyIfOrderly_spec s op with ⟨-, heq⟩ | ⟨-, heq⟩
  · rw [heq]; exact h.apply hop
  · rw [heq]; exact h

theorem Sound.applyForBroadcast (h : s.Sound B) {op : CrdtOp} (hop : op.Sound B) (via : Bool) :
    (s.applyForBroadcast op via).1.Sound B := by
  rcases applyForBroadcast_cases s op via with heq | heq
  · rw [heq]; exact h.apply hop
  · rw [heq]; exact h

theorem Sound.line (h : s.Sound B) (message : ChatMessage) :
    (s.chat.insertAfter s.chat.last message).path ≠ [] := by
  refine Identifier.between_path_ne_nil message fun id hid => ?_
  obtain ⟨low, -, hfind⟩ := bind_eq_some_iff.mp hid
  exact h.lines id ((mem_toList _ _).mp (mem_of_find?_eq_some hfind))

theorem Sound.appendChat (h : s.Sound B) (actor : ActorId) (ts : SharedTimestamp)
    (message : ChatMessage) : (s.appendChat actor ts message).1.Sound B := by
  have hop : (CrdtOp.chat (s.chat.insertAfter s.chat.last message)).Sound B := h.line message
  exact h.apply hop

theorem Sound.put (h : s.Sound B) (actor : ActorId) (ts : SharedTimestamp) (w : Write) :
    (s.put actor ts w).1.Sound (B + 1) := by
  refine (h.mono (Nat.le_succ B)).apply ?_
  cases w with
  | map f key value => exact Nat.succ_le_succ (h.counters f actor)
  | reg r value => trivial
  | set g x => trivial
  | chat message => exact h.line message

theorem Sound.view (h : s.Sound B) : ∃ view, s.view? = some view := by
  have hread : ∀ l : List (Identifier ChatMessage), (∀ id ∈ l, id.path ≠ []) →
      ∃ chat, l.mapM Identifier.value? = some chat := by
    intro l
    induction l with
    | nil => exact fun _ => ⟨[], rfl⟩
    | cons id l ih =>
      intro hl
      obtain ⟨chat, hchat⟩ := ih fun id' hid' => hl id' (mem_cons_of_mem _ hid')
      have hnode := getLast?_eq_some_getLast (hl id mem_cons_self)
      refine ⟨(id.path.getLast (hl id mem_cons_self)).2 :: chat, ?_⟩
      have hvalue : id.value? = some (id.path.getLast (hl id mem_cons_self)).2 :=
        congrArg (Option.map Prod.snd) hnode
      rw [mapM_cons, hvalue, hchat]
      rfl
  obtain ⟨chat, hchat⟩ := hread s.chat.list.toList fun id hid =>
    h.lines id ((mem_toList _ _).mp hid)
  exact ⟨_, by unfold view? GList.read?; rw [hchat]; rfl⟩

end CrdtState

end DessPlay.Core

namespace DessPlay.Server

open BTree DessPlay.Core Crdts

/-! ## §4. The rebuild, checked. -/

/-- `Shared::stamp`: `last + 1` is computed to store the new value and again to return it. -/
def stamp? (last now : Nat) : Option SharedTimestamp := (checkedSucc last).map (max now)

structure Compaction where
  fresh : CrdtState
  lastIssued : Nat
  taken : Nat

/-- One write of the rebuild; the clock reads `now i` for the `i`-th stamp. -/
def Compaction.perform? (actor : ActorId) (now : Nat → Nat) (b : Compaction) :
    RebuildStep → Option Compaction
  | .push entry => do
      let ts ← stamp? b.lastIssued (now b.taken)
      let done ← b.fresh.pushPlaylistEntry? actor ts entry.renewed
      some ⟨done.1, ts, b.taken + 1⟩
  | .write w => do
      let ts ← stamp? b.lastIssued (now b.taken)
      let done ← b.fresh.put? actor ts w
      some ⟨done.1, ts, b.taken + 1⟩
  | .chat message => some { b with fresh := (b.fresh.appendChat actor 0 message).1 }

/-- `rebuild`, drawing its stamps from the server's counter. -/
def rebuild? (view : StateView) (actor : ActorId) (chatKeep : Nat) (now : Nat → Nat)
    (last : Nat) : Option Compaction :=
  Machine.run (Compaction.perform? actor now) ⟨.new, last, 0⟩ (rebuildSteps view chatKeep)

/-- The stamp counter when `i` stamps have been taken. -/
def counterAt (last : Nat) (now : Nat → Nat) : Nat → Nat
  | 0 => last
  | i + 1 => Core.stampAt last now i

theorem stampAt_eq (last : Nat) (now : Nat → Nat) (i : Nat) :
    Core.stampAt last now i = max (now i) (counterAt last now i + 1) := by
  cases i <;> rfl

variable {now : Nat → Nat}

theorem Compaction.perform?_refines {actor : ActorId} {last : Nat} {b b' : Compaction}
    {x : RebuildStep} (hlast : b.lastIssued = counterAt last now b.taken)
    (h : b.perform? actor now x = some b') :
    Rebuild.perform actor (Core.stampAt last now) ⟨b.fresh, b.taken⟩ x =
        ⟨b'.fresh, b'.taken⟩ ∧
      b'.lastIssued = counterAt last now b'.taken := by
  -- both stamped steps put one write under the next stamp
  have hstamped : ∀ w, ((stamp? b.lastIssued (now b.taken)).bind fun ts =>
      (b.fresh.put? actor ts w).bind fun done => some ⟨done.1, ts, b.taken + 1⟩) = some b' →
      Rebuild.write actor (Core.stampAt last now) ⟨b.fresh, b.taken⟩ w =
          ⟨b'.fresh, b'.taken⟩ ∧
        b'.lastIssued = counterAt last now b'.taken := by
    intro w hw
    obtain ⟨ts, hts, hw⟩ := Option.bind_eq_some_iff.mp hw
    obtain ⟨done, hdone, hb'⟩ := Option.bind_eq_some_iff.mp hw
    obtain ⟨next, hnext, rfl⟩ := Option.map_eq_some_iff.mp hts
    obtain rfl := checkedSucc_eq_some hnext
    obtain rfl := Option.some.inj hb'
    obtain rfl := CrdtState.put?_eq_some hdone
    have hstamp : Core.stampAt last now b.taken = max (now b.taken) (b.lastIssued + 1) := by
      rw [stampAt_eq, hlast]
    refine ⟨?_, hstamp.symm⟩
    unfold Rebuild.write
    rw [hstamp]
  cases x with
  | push entry => exact hstamped (.map .playlist entry.hash (some _)) h
  | write w => exact hstamped w h
  | chat message =>
    obtain rfl := Option.some.inj h
    exact ⟨rfl, hlast⟩

/-- **A checked rebuild that returns is the rebuild** under the stamps of the server's counter. -/
theorem rebuild?_refines {view : StateView} {actor : ActorId} {chatKeep : Nat} {last : Nat}
    {b : Compaction} (h : rebuild? view actor chatKeep now last = some b) :
    b.fresh = rebuild view actor chatKeep (Core.stampAt last now) := by
  suffices hrun : ∀ steps (b₀ b : Compaction), b₀.lastIssued = counterAt last now b₀.taken →
      Machine.run (Compaction.perform? actor now) b₀ steps = some b →
      steps.foldl (Rebuild.perform actor (Core.stampAt last now)) ⟨b₀.fresh, b₀.taken⟩ =
        ⟨b.fresh, b.taken⟩ by
    have hfold := hrun _ ⟨.new, last, 0⟩ b rfl h
    unfold rebuild
    rw [rebuildRun_eq_foldl, hfold]
  intro steps
  induction steps with
  | nil => rintro b₀ b - hb; obtain rfl := Option.some.inj hb; rfl
  | cons x steps ih =>
    intro b₀ b hlast hb
    obtain ⟨b₁, hb₁, hrest⟩ := Option.bind_eq_some_iff.mp hb
    obtain ⟨hstep, hlast₁⟩ := Compaction.perform?_refines hlast hb₁
    rw [List.foldl_cons, hstep]
    exact ih b₁ b hlast₁ hrest

/-! ## §5. A replica under hostile traffic. -/

/-- A replica with the server's stamp counter.  `spent` counts the stamps and dots it has issued
itself; nothing reads it. -/
structure Node where
  state : CrdtState
  lastIssued : Nat
  spent : Nat

/-- Everything that touches the state: what arrives, and what is computed from it. -/
inductive Call where
  | apply (op : CrdtOp)
  | applyIfOrderly (op : CrdtOp)
  | applyForBroadcast (op : CrdtOp) (viaDatagram : Bool)
  | merge (other : CrdtState)
  | view
  | viewHash
  | maxLwwTimestamp
  | appendChat (actor : ActorId) (ts : SharedTimestamp) (message : ChatMessage)
  | addPlaylistEntryAfter (actor : ActorId) (ts : SharedTimestamp) (anchor : Option Ed2kHash)
      (new : CrdtState.NewPlaylistEntry)
  | observe (op : CrdtOp)
  | stamp (now : Nat)
  | compact (actor : ActorId) (chatKeep : Nat) (now : Nat → Nat)

namespace Node

def cost (n : Node) : Call → Nat
  | .addPlaylistEntryAfter .. => 1
  | .stamp _ => 1
  | .compact _ chatKeep _ =>
    (n.state.view?.map fun view =>
      (rebuildSteps view chatKeep).countP RebuildStep.stamped).getD 0
  | _ => 0

/-- What a call leaves; `none` is a panic. -/
def call? {H : Type} (digest : StateView → H) (n : Node) : Call → Option Node
  | .apply op => some { n with state := n.state.apply op }
  | .applyIfOrderly op => (n.state.applyIfOrderly? op).map fun done => { n with state := done.1 }
  | .applyForBroadcast op viaDatagram =>
    (n.state.applyForBroadcast? op viaDatagram).map fun done => { n with state := done.1 }
  | .merge other => some { n with state := n.state.merge other }
  | .view => n.state.view?.map fun _ => n
  | .viewHash => (n.state.viewHash digest).map fun _ => n
  | .maxLwwTimestamp => some n
  | .appendChat actor ts message => some { n with state := (n.state.appendChat actor ts message).1 }
  | .addPlaylistEntryAfter actor ts anchor new =>
    (n.state.addPlaylistEntryAfter? actor ts anchor new).map fun done =>
      { n with state := done.1 }
  | .observe op => some { n with lastIssued := max n.lastIssued (op.lwwTimestamp.getD 0) }
  | .stamp now => (stamp? n.lastIssued now).map fun ts => { n with lastIssued := ts }
  | .compact actor chatKeep now => do
      let view ← n.state.view?
      let b ← rebuild? view actor chatKeep now n.lastIssued
      some { n with state := b.fresh, lastIssued := b.lastIssued }

def step {H : Type} (digest : StateView → H) (n : Node) (c : Call) : Option Node :=
  (n.call? digest c).map fun n' => { n' with spent := n.spent + n.cost c }

/-- The node's counters are within `B` and what it has issued itself. -/
structure Sound (B : Nat) (n : Node) : Prop where
  state : n.state.Sound (B + n.spent)
  lastIssued : n.lastIssued ≤ B + n.spent

end Node

/-- What a call brings from outside is within `B`: dots, observed timestamps, clock readings; and
its chat identifiers have nodes. -/
def Call.Within (B : Nat) : Call → Prop
  | .apply op => op.Sound B
  | .applyIfOrderly op => op.Sound B
  | .applyForBroadcast op _ => op.Sound B
  | .merge other => other.Sound B
  | .observe op => ∀ ts ∈ op.lwwTimestamp, ts ≤ B
  | .stamp now => now ≤ B
  | .compact _ _ now => ∀ i, now i ≤ B
  | _ => True

/-- The call is within `B` and leaves room below `u64::MAX` for what it issues. -/
def Call.Affordable (B : Nat) (n : Node) (c : Call) : Prop :=
  c.Within B ∧ B + n.spent + n.cost c < U64_MAX

theorem stamp?_of_lt {last now : Nat} (h : last < U64_MAX) :
    stamp? last now = some (max now (last + 1)) := by
  unfold stamp?
  rw [checkedSucc_of_lt h]
  rfl

/-- What the rebuild keeps while `steps` are ahead, of `total` stamps in all. -/
structure Compaction.Sound (B total : Nat) (b : Compaction) (steps : List RebuildStep) : Prop where
  fresh : b.fresh.Sound b.taken
  lastIssued : b.lastIssued ≤ B + b.taken
  ahead : b.taken + steps.countP RebuildStep.stamped = total

theorem Compaction.Sound.perform {B total : Nat} (hroom : B + total < U64_MAX) {actor : ActorId}
    (hnow : ∀ i, now i ≤ B) {b : Compaction} {x : RebuildStep} {steps : List RebuildStep}
    (h : b.Sound B total (x :: steps)) :
    ∃ b', b.perform? actor now x = some b' ∧ b'.Sound B total steps := by
  have hlast := h.lastIssued
  have hahead := h.ahead
  rw [List.countP_cons] at hahead
  -- both stamped steps put one write under the next stamp
  have hstamped : x.stamped = true → ∀ w, ∃ b' : Compaction,
      ((stamp? b.lastIssued (now b.taken)).bind fun ts =>
        (b.fresh.put? actor ts w).bind fun done =>
          some (⟨done.1, ts, b.taken + 1⟩ : Compaction)) = some b' ∧ b'.Sound B total steps := by
    intro hx w
    rw [if_pos hx] at hahead
    have hroomy : b.fresh.Roomy := h.fresh.roomy (by omega)
    let ts := max (now b.taken) (b.lastIssued + 1)
    refine ⟨⟨(b.fresh.put actor ts w).1, ts, b.taken + 1⟩, ?_, h.fresh.put actor ts w,
      max_le ((hnow _).trans (Nat.le_add_right ..)) ?_, ?_⟩
    · rw [stamp?_of_lt (by omega), Option.bind_some, CrdtState.put?_of_roomy hroomy,
        Option.bind_some]
    · show b.lastIssued + 1 ≤ B + (b.taken + 1)
      omega
    · show b.taken + 1 + _ = total
      omega
  cases x with
  | push entry => exact hstamped rfl (.map .playlist entry.hash (some _))
  | write w => exact hstamped rfl w
  | chat message => exact ⟨_, rfl, h.fresh.appendChat actor 0 message, hlast, hahead⟩

theorem rebuild?_completes {B last : Nat} (hlast : last ≤ B) (hnow : ∀ i, now i ≤ B)
    (view : StateView) (actor : ActorId) (chatKeep : Nat)
    (hroom : B + (rebuildSteps view chatKeep).countP RebuildStep.stamped < U64_MAX) :
    ∃ b, rebuild? view actor chatKeep now last = some b ∧
      b.Sound B ((rebuildSteps view chatKeep).countP RebuildStep.stamped) [] :=
  Machine.run_completes (Compaction.Sound B _) (fun _ _ _ => Compaction.Sound.perform hroom hnow)
    _ _ ⟨CrdtState.sound_new _, hlast, zero_add _⟩

namespace Node

variable {H : Type} {digest : StateView → H}

theorem step_of_call {n n' : Node} {c : Call} (h : n.call? digest c = some n') :
    n.step digest c = some { n' with spent := n.spent + n.cost c } := by
  unfold step
  rw [h]
  rfl

theorem Sound.of_state {B : Nat} {n : Node} (h : n.Sound B) {state : CrdtState}
    (hstate : state.Sound (B + n.spent)) :
    Sound B { n with state := state, spent := n.spent + 0 } :=
  ⟨hstate, h.lastIssued⟩

/-- **One call.**  It returns, and leaves the node sound. -/
theorem Sound.step {B : Nat} {n : Node} (h : n.Sound B) {c : Call} (hc : c.Affordable B n) :
    ∃ n', n.step digest c = some n' ∧ n'.Sound B := by
  obtain ⟨hwithin, hroom⟩ := hc
  have hB : B ≤ B + n.spent := Nat.le_add_right ..
  have hroomy : n.state.Roomy := h.state.roomy (by omega)
  have hlast := h.lastIssued
  obtain ⟨view, hview⟩ := h.state.view
  cases c with
  | apply op => exact ⟨_, rfl, h.of_state (h.state.apply (hwithin.mono hB))⟩
  | applyIfOrderly op =>
    have hcall : n.call? digest (.applyIfOrderly op) =
        some { n with state := (n.state.applyIfOrderly op).1 } := by
      simp only [call?, CrdtState.applyIfOrderly?_of_roomy hroomy, Option.map_some]
    exact ⟨_, step_of_call hcall, h.of_state (h.state.applyIfOrderly (hwithin.mono hB))⟩
  | applyForBroadcast op via =>
    have hcall : n.call? digest (.applyForBroadcast op via) =
        some { n with state := (n.state.applyForBroadcast op via).1 } := by
      simp only [call?, CrdtState.applyForBroadcast?_of_roomy hroomy, Option.map_some]
    exact ⟨_, step_of_call hcall, h.of_state (h.state.applyForBroadcast (hwithin.mono hB) via)⟩
  | merge other => exact ⟨_, rfl, h.of_state (h.state.merge (hwithin.mono hB))⟩
  | view =>
    have hcall : n.call? digest .view = some n := by simp only [call?, hview, Option.map_some]
    exact ⟨_, step_of_call hcall, h.of_state h.state⟩
  | viewHash =>
    have hcall : n.call? digest .viewHash = some n := by
      simp only [call?, CrdtState.viewHash, hview, Option.map_some]
    exact ⟨_, step_of_call hcall, h.of_state h.state⟩
  | maxLwwTimestamp => exact ⟨_, rfl, h.of_state h.state⟩
  | appendChat actor ts message =>
    exact ⟨_, rfl, h.of_state (h.state.appendChat actor ts message)⟩
  | addPlaylistEntryAfter actor ts anchor new =>
    have hcall : n.call? digest (.addPlaylistEntryAfter actor ts anchor new) =
        some { n with state := (n.state.addPlaylistEntryAfter actor ts anchor new).1 } := by
      simp only [call?, CrdtState.addPlaylistEntryAfter?, CrdtState.put?_of_roomy hroomy,
        Option.map_some]
      rfl
    have hput : (n.state.addPlaylistEntryAfter actor ts anchor new).1.Sound (B + n.spent + 1) :=
      h.state.put actor ts (.map .playlist new.hash (some _))
    exact ⟨_, step_of_call hcall, hput, hlast.trans (Nat.le_succ _)⟩
  | observe op =>
    refine ⟨_, rfl, h.state, max_le hlast ?_⟩
    cases hts : op.lwwTimestamp with
    | none => exact Nat.zero_le _
    | some ts => exact (hwithin ts hts).trans hB
  | stamp now =>
    have hcall : n.call? digest (.stamp now) =
        some { n with lastIssued := max now (n.lastIssued + 1) } := by
      simp only [call?, stamp?_of_lt (show n.lastIssued < U64_MAX by omega), Option.map_some]
    exact ⟨_, step_of_call hcall, h.state.mono (Nat.le_succ _),
      max_le (le_trans hwithin (Nat.le_add_right ..)) (Nat.succ_le_succ hlast)⟩
  | compact actor chatKeep now =>
    have hcost : n.cost (.compact actor chatKeep now) =
        (rebuildSteps view chatKeep).countP RebuildStep.stamped := by
      simp only [cost, hview, Option.map_some, Option.getD_some]
    rw [hcost] at hroom
    obtain ⟨b, hb, hsound⟩ := rebuild?_completes hlast (fun i => (hwithin i).trans hB) view actor
      chatKeep hroom
    have hcall : n.call? digest (.compact actor chatKeep now) =
        some { n with state := b.fresh, lastIssued := b.lastIssued } := by
      simp only [call?, hview, hb, Option.bind_eq_bind, Option.bind_some]
    have htaken : b.taken = n.cost (.compact actor chatKeep now) := by
      rw [hcost, ← hsound.ahead]
      rfl
    refine ⟨_, step_of_call hcall, hsound.fresh.mono ?_, ?_⟩
    · show b.taken ≤ B + (n.spent + n.cost _)
      omega
    · show b.lastIssued ≤ B + (n.spent + n.cost _)
      have := hsound.lastIssued
      omega

theorem Sound.of_reach {B : Nat} {n₀ n : Node} (h₀ : n₀.Sound B)
    (hrun : Machine.Reach (Node.step digest) (fun n c => c.Affordable B n) n₀ n) : n.Sound B :=
  hrun.invariant h₀ fun n c n' hn hok hstep => by
    obtain ⟨next, hnext, hkeep⟩ : ∃ next, n.step digest c = some next ∧ next.Sound B := hn.step hok
    rw [hstep] at hnext
    exact Option.some.inj hnext ▸ hkeep

/-- **Hostile traffic within a bound never crashes a replica.**  From a node whose counters are
within `B`, along any run of calls that each bring in nothing above `B`, no chat identifier
without a node, and leave room for what they issue, every such call returns. -/
theorem affordable_calls_return (B : Nat) (digest : StateView → H) {n₀ n : Node} (h₀ : n₀.Sound B)
    (hrun : Machine.Reach (Node.step digest) (fun n c => c.Affordable B n) n₀ n) (c : Call)
    (hc : c.Affordable B n) : (n.step digest c).isSome := by
  obtain ⟨n', hn', -⟩ := (h₀.of_reach hrun).step hc
  rw [hn']
  rfl

theorem affordable_calls_return_removal :
    (Node.step (fun view => view)
      ⟨CrdtState.new.apply (.map .watched (.rm (VClock.new.apply ⟨1, 2 ^ 64 - 1⟩) ∅)), 0, 0⟩
      .view).isSome := by
  have h₀ : Node.Sound 10 ⟨CrdtState.new, 0, 0⟩ := ⟨CrdtState.sound_new _, Nat.zero_le _⟩
  refine affordable_calls_return 10 (fun view => view) h₀
    (.step (e := .apply (.map .watched (.rm _ _))) .refl ?_ rfl) .view ?_
  · exact ⟨trivial, by decide⟩
  · exact ⟨trivial, by decide⟩

/-- Ways to crash a replica with one decoded op: a chat identifier without a node makes the next
view unwrap nothing; the largest timestamp leaves the next stamp no room; the largest counter
of an actor leaves no room for the test of a datagram, nor for that actor's next write. -/
theorem hostile_ops_panic :
    Machine.run (Node.step fun view => view) ⟨.new, 0, 0⟩ [.apply (.chat ⟨[]⟩), .view] = none ∧
    Machine.run (Node.step fun view => view) ⟨.new, 0, 0⟩
      [.observe (.reg .playbackIntent ⟨2 ^ 64 - 1, PlaybackIntent.playing⟩), .stamp 0] = none ∧
    Machine.run (Node.step fun view => view) ⟨.new, 0, 0⟩
      [.apply (.map .watched (.up ⟨1, 2 ^ 64 - 1⟩ (7 : Ed2kHash) ⟨1, true⟩)),
        .applyForBroadcast (.map .watched (.up ⟨1, 5⟩ (7 : Ed2kHash) ⟨2, true⟩)) true] = none ∧
    Machine.run (Node.step fun view => view) ⟨.new, 0, 0⟩
      [.apply (.map .playlist (.up ⟨1, 2 ^ 64 - 1⟩ (7 : Ed2kHash)
          ⟨1, (none : Option PlaylistFileState)⟩)),
        .addPlaylistEntryAfter 1 2 none ⟨8, "ada", "a.mkv", 1, none⟩] = none := by
  decide +kernel

/-- **Compaction under traffic.**  After any such run a compaction returns, and the state it leaves
shows what the old one did, compacted: the checked rebuild is the plain one under the stamps of
the server's own counter. -/
theorem compaction_under_traffic (B : Nat) (digest : StateView → H) {n₀ n : Node} (h₀ : n₀.Sound B)
    (hrun : Machine.Reach (Node.step digest) (fun n c => c.Affordable B n) n₀ n) {actor : ActorId}
    {chatKeep : Nat} {now : Nat → Nat} (hc : (Call.compact actor chatKeep now).Affordable B n) :
    ∃ view n' i, n.state.view? = some view ∧ n.step digest (.compact actor chatKeep now) = some n' ∧
      n'.state.view? =
        some (Replication.compacted view actor chatKeep (Core.stampAt n.lastIssued now i)) := by
  obtain ⟨n', hn', -⟩ := (h₀.of_reach hrun).step hc
  obtain ⟨done, hcall, rfl⟩ := Option.map_eq_some_iff.mp hn'
  obtain ⟨view, hview, hcall⟩ := Option.bind_eq_some_iff.mp hcall
  obtain ⟨b, hb, hdone⟩ := Option.bind_eq_some_iff.mp hcall
  obtain rfl := Option.some.inj hdone
  have hnodup : (view.playlist.map (·.hash)).Nodup := by
    unfold CrdtState.view? at hview
    obtain ⟨chat, -, rfl⟩ := Option.map_eq_some_iff.mp hview
    exact n.state.playlistEntries_nodup
  obtain ⟨i, hi⟩ := Replication.view_rebuild hnodup actor chatKeep (Core.stampAt n.lastIssued now)
  refine ⟨view, _, i, hview, hn', ?_⟩
  show b.fresh.view? = _
  rw [rebuild?_refines hb]
  exact hi

theorem compaction_under_traffic_watched :
    let n : Node := ⟨(CrdtState.new.setWatched 1 5 7 true).1, 0, 0⟩
    ∃ view n' i, n.state.view? = some view ∧
      n.step (fun view => view) (.compact 0 100 fun _ => 6) = some n' ∧
      n'.state.view? =
        some (Replication.compacted view 0 100 (Core.stampAt 0 (fun _ => 6) i)) := by
  intro n
  have h₀ : n.Sound 10 :=
    ⟨(CrdtState.sound_new 9).put 1 5 (.map .watched (7 : Ed2kHash) true), Nat.zero_le _⟩
  exact compaction_under_traffic 10 (fun view => view) h₀ .refl
    ⟨fun _ => (by decide : 6 ≤ 10), by decide +kernel⟩

end Node

end DessPlay.Server
