import Callio.Model.Rows
import Callio.Store.Table

/-! Everything the workers share: the database, the owning worker's rooms,
the Redis keys a call's life depends on, and what has been sent to clients and
providers so far. -/

namespace Callio

/-! ## Media rooms -/

/-- A call's room on the worker that owns its media. Legs are numbered in the
order they were made. -/
structure Room where
  /-- The worker holds the room: it made one, and has not closed it. -/
  held : Bool := false
  legSeq : Nat := 0
  customer : Option Nat := none
  pendingAgent : Option Nat := none
  agents : List (Nat × Nat) := []
  deriving DecidableEq, Repr

/-- The number `_key` gives the next leg. -/
def Room.nextLeg (room : Room) : Nat := room.legSeq + 1

def Room.setAgent (room : Room) (agentId leg : Nat) : Room :=
  { room with agents := (agentId, leg) :: room.agents.filter (·.1 ≠ agentId) }

def Room.dropAgent (room : Room) (agentId : Nat) : Room :=
  { room with agents := room.agents.filter (·.1 ≠ agentId) }

/-! ## Provider ends seen before their offer -/

/-- Provider call ids are only unique per channel type. -/
structure ProviderKey where
  channel : Channel
  providerCallId : Nat
  deriving DecidableEq, Repr

structure Tombstone where
  failed : Bool
  endedAt : Option Nat
  deriving DecidableEq, Repr

/-! ## What leaves the service -/

inductive Event
  | callTerminated (callId : Nat) (reason : Option TerminationReason)
      (terminatedBy : Option TerminatedBy)
  | callIncoming (callId : Nat) (agentId : Option Nat) (offeredAgentIds : List Nat)
      (sdpOffer : Option Sdp)
  | ringingReconnectDeliver (callId : Nat) (sdpOffer : Sdp)
  | callReconnected (callId agentId : Nat) (sdpOffer : Option Sdp)
  | offerWithdrawn (callId : Nat) (agentIds : List Nat)
  | callHandled (callId : Nat) (agentId : Option Nat)
  | callError (callId : Nat) (message : String)
  deriving DecidableEq, Repr

/-- What a worker asks the customer's provider to do. -/
inductive ProviderAction
  | accept | reject | rejectBusy | terminate | initiate
  deriving DecidableEq, Repr

/-- A queue's round-robin order as Redis has it, and since when each member kept
in it is away. -/
structure QueueOrder where
  order : List Nat := []
  unavailableSince : Nat → Option Nat := fun _ => none

structure World where
  now : Nat := 0
  calls : Store.Table CallRow := .empty
  agents : Store.Table AgentRow := .empty
  queues : Nat → Option QueueRow := fun _ => none
  flows : Nat → Option IvrFlowRow := fun _ => none
  /-- `queue_members`, in offer order. -/
  members : Nat → List Nat := fun _ => []
  /-- `local_sdp` of the AGENT row of `call_connections`. -/
  agentSdp : Nat → Option Sdp := fun _ => none
  /-- The CUSTOMER row of `call_connections` holds the provider's offer. -/
  customerOffer : Nat → Bool := fun _ => false
  /-- Agents with a row in `call_participants`. -/
  participants : Nat → List Nat := fun _ => []
  /-- When agents accepted the call (`inbound_accepted`). -/
  accepted : Nat → List Nat := fun _ => []
  rooms : Nat → Room := fun _ => {}
  tombstones : ProviderKey → Option Tombstone := fun _ => none
  /-- A worker has claimed the provider call id. -/
  owned : ProviderKey → Bool := fun _ => false
  declined : Nat → List Nat := fun _ => []
  missed : Nat → List Nat := fun _ => []
  missedStreak : Nat → Nat := fun _ => 0
  queueOrder : Nat → QueueOrder := fun _ => {}
  /-- A tenant's auto-offline threshold, if the policy is enabled. -/
  autoOffline : Nat → Option Nat := fun _ => none
  sent : List Event := []
  providerLog : List (Nat × ProviderAction) := []

namespace World

def call (w : World) (callId : Nat) : Option CallRow := w.calls.get callId

def agent (w : World) (agentId : Nat) : Option AgentRow := w.agents.get agentId

/-- The queue a row points at. -/
def queueOf (w : World) (c : CallRow) : Option QueueRow := c.queueId.bind w.queues

def flowOf (w : World) (c : CallRow) : Option IvrFlowRow := c.ivrFlowId.bind w.flows

/-- The call holding an agent. -/
def busy (w : World) (agentId : Nat) : Option Nat := (w.agent agentId).bind (·.busyCallId)

end World

end Callio
