/-
  DessPlay.Core.Message
  **THE CONTROL MESSAGES OF STATE SYNC, AND THE PEER LIST**
  (`dessplay-core/src/net/message.rs`, `derive.rs`).

  Only the messages the sync actor and the server's state handlers read are
  here.  A view hash is an element of `H`: encoding and SHA-256 are third-party.
-/
import DessPlay.Core.View

namespace DessPlay.Core

/-- Control messages; the same type travels both ways. -/
inductive ServerControl (H : Type) where
  | eofReached (file : Ed2kHash)
  | goodbye
  | stateSnapshot (snapshot : StateSnapshot)
  | stateOp (epoch : Epoch) (op : CrdtOp)
  | stateMerge (snapshot : StateSnapshot)
  | stateHash (epoch : Epoch) (hash : Option H)
  | requestMerge
  | markWatched (file : Ed2kHash) (watched : Bool)
  | syncStatus (epoch : Epoch) (stateHash : Option H)

inductive Role where
  | interactive | seeder
  deriving DecidableEq

inductive Presence where
  | present | lost | departed
  deriving DecidableEq

structure PeerInfo where
  username : UserId
  role : Role
  presence : Presence
  graceUntil : Option Nat
  deriving DecidableEq

structure OutageGrace where
  user : UserId
  untilMillis : Nat
  deriving DecidableEq

/-- The soonest-ending window among absent interactive peers; the first of
several that end together. -/
def outageGrace (peers : List PeerInfo) : Option OutageGrace :=
  (peers.filter fun p => p.role = .interactive ∧ p.presence ≠ .present).filterMap (fun p =>
    p.graceUntil.map fun u => (⟨p.username, u⟩ : OutageGrace)) |>.argmin (·.untilMillis)

end DessPlay.Core
