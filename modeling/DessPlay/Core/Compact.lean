/-
  DessPlay.Core.Compact
  **COMPACTION: A FRESH STATE FROM THE RESOLVED VIEW**
  (`dessplay-core/src/compact.rs`).

  The server rebuilds the view under its own actor.  Each write that carries a
  timestamp asks `stamp` for the next one; `stamp i` is the `i`-th answer.
-/
import DessPlay.Core.View

namespace DessPlay.Core

open BTree Crdts

structure Rebuild where
  fresh : CrdtState
  taken : Nat

namespace Rebuild

variable (actor : ActorId) (stamp : Nat → SharedTimestamp)

def write (b : Rebuild) (w : CrdtState.Write) : Rebuild :=
  ⟨(b.fresh.put actor (stamp b.taken) w).1, b.taken + 1⟩

def writeMap (f : MapField) (b : Rebuild) (view : MapView f) : Rebuild :=
  view.foldl (fun b key value => b.write actor stamp (.map f key value)) b

def push (b : Rebuild) (entry : PlaylistEntry) : Rebuild :=
  ⟨(b.fresh.pushPlaylistEntry actor (stamp b.taken)
      { hash := entry.hash
        addedBy := entry.state.addedBy
        filename := entry.state.filename
        sizeBytes := entry.state.sizeBytes
        durationMillis := entry.state.durationMillis }).1, b.taken + 1⟩

/-- Append a chat message; it takes no stamp. -/
def chat (b : Rebuild) (message : ChatMessage) : Rebuild :=
  { b with fresh := (b.fresh.appendChat actor 0 message).1 }

end Rebuild

/-- Rebuild `view` as a fresh state authored entirely by `actor`.  Tombstones,
`false` watched flags, zero saved positions, the two sets, the marquee and
all but the last `chatKeep` chat lines are left out. -/
def rebuildRun (view : StateView) (actor : ActorId) (chatKeep : Nat)
    (stamp : Nat → SharedTimestamp) : Rebuild :=
  let b : Rebuild := ⟨.new, 0⟩
  let b := view.playlist.foldl (fun b entry => b.push actor stamp entry) b
  let b := b.writeMap actor stamp .watched (view.watched.filter fun _ watched => (watched : Bool))
  let b := b.write actor stamp (.reg .nowPlaying view.nowPlaying)
  let b :=
    match view.seekAuthority with
    | some authority => b.write actor stamp (.reg .seekAuthority authority)
    | none => b
  let b := b.write actor stamp (.reg .playbackIntent view.playbackIntent)
  let b := b.writeMap actor stamp .seriesPreference view.seriesPreference
  let b := b.writeMap actor stamp .manualOverride view.manualOverride
  let b := b.writeMap actor stamp .fileAvailability view.fileAvailability
  let b := b.writeMap actor stamp .anidbMetadata view.anidbMetadata
  let b := b.writeMap actor stamp .seriesRelations view.seriesRelations
  let b := b.writeMap actor stamp .fileCatalog view.fileCatalog
  let b := b.writeMap actor stamp .listEntries view.listEntries
  let b := b.writeMap actor stamp .listNextEp view.listNextEp
  let b := (view.chat.reverse.take chatKeep).reverse.foldl (fun b m => b.chat actor m) b
  let b := b.writeMap actor stamp .playbackPosition view.playbackPosition
  let b := b.writeMap actor stamp .savedPosition
    (view.savedPosition.filter fun _ (millis : Nat) => decide (0 < millis))
  b

theorem rebuildRun_induct {P : Rebuild → Prop} {actor : ActorId} {stamp : Nat → SharedTimestamp}
    (h₀ : P ⟨.new, 0⟩) (hwrite : ∀ b w, P b → P (b.write actor stamp w))
    (hchat : ∀ b m, P b → P (b.chat actor m)) (view : StateView) (chatKeep : Nat) :
    P (rebuildRun view actor chatKeep stamp) := by
  have hlist : ∀ {α : Type} (step : Rebuild → α → Rebuild), (∀ b x, P b → P (step b x)) →
      ∀ (l : List α) (b : Rebuild), P b → P (l.foldl step b) := by
    intro α step hstep l
    induction l with
    | nil => exact fun b hb => hb
    | cons x l ih => exact fun b hb => ih _ (hstep b x hb)
  have hmap : ∀ f (m : MapView f) b, P b → P (b.writeMap actor stamp f m) := fun f m b hb =>
    foldl_invariant m _ hb fun b _ _ _ hb => hwrite b _ hb
  -- A push is a write of the playlist.
  have hpush := hlist (fun b entry => b.push actor stamp entry)
    (fun b entry hb => hwrite b (.map .playlist entry.hash (some _)) hb) view.playlist _ h₀
  have hnow := hwrite _ (.reg .nowPlaying view.nowPlaying)
    (hmap .watched (view.watched.filter fun _ watched => (watched : Bool)) _ hpush)
  unfold rebuildRun
  refine hmap _ _ _ (hmap _ _ _ (hlist _ hchat _ _ ?_))
  iterate 8 refine hmap _ _ _ ?_
  refine hwrite _ _ ?_
  cases view.seekAuthority with
  | none => exact hnow
  | some authority => exact hwrite _ _ hnow

def rebuild (view : StateView) (actor : ActorId) (chatKeep : Nat)
    (stamp : Nat → SharedTimestamp) : CrdtState :=
  (rebuildRun view actor chatKeep stamp).fresh

end DessPlay.Core
