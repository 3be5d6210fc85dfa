import Callio.Model.World

/-! `AgentRepository`: the shift and the busy lock. -/

namespace Callio

/-- `ON_SHIFT`. -/
def AgentRow.onShift (a : AgentRow) : Bool :=
  a.availability = .available || a.availability = .onCall

/-- The agent has an active call, other than `excludeCallId`. -/
def World.hasActiveCall (w : World) (agentId : Nat) (excludeCallId : Option Nat) : Bool :=
  w.calls.any fun id c => c.agentId = some agentId && c.status.active && excludeCallId ≠ some id

/-- The call is still active and this agent's. -/
def World.isOwnCall (w : World) (agentId callId : Nat) : Bool :=
  (w.call callId).any fun c => c.agentId = some agentId && c.status.active

inductive AgentUpdate
  | claimAgentForCall (callId : Nat)
  /-- The UPDATE of `holdForOwnCall`; see `holdForOwnCall` for the read that may follow. -/
  | holdForOwnCall (callId : Nat)
  | releaseFromCall (callId : Nat)
  | updateAgentAvailability (availability : Availability)
  deriving DecidableEq, Repr

namespace AgentUpdate

def guard (w : World) (agentId : Nat) : AgentUpdate → AgentRow → Bool
  | claimAgentForCall _, a =>
      a.busyCallId.isNone && a.onShift && !a.deleted && !w.hasActiveCall agentId none
  | holdForOwnCall callId, a =>
      a.busyCallId.all (· = callId) && !a.deleted && !w.hasActiveCall agentId (some callId) &&
        w.isOwnCall agentId callId
  | releaseFromCall callId, a => a.busyCallId = some callId
  | updateAgentAvailability _, a => !a.deleted

def set : AgentUpdate → AgentRow → AgentRow
  | claimAgentForCall callId, a | holdForOwnCall callId, a => { a with busyCallId := some callId }
  | releaseFromCall _, a => { a with busyCallId := none }
  | updateAgentAvailability availability, a => { a with availability }

end AgentUpdate

/-! ## claimAgentAndAssignCall -/

structure Claim where
  claimed : Bool
  assigned : Bool
  deriving DecidableEq, Repr

/-- The agent half of the transaction. `anyShift`: the agent's own line rings
them whatever their shift. -/
def World.claimable (w : World) (agentId : Nat) (anyShift : Bool) (a : AgentRow) : Bool :=
  a.busyCallId.isNone && (anyShift || a.onShift) && !a.deleted && !w.hasActiveCall agentId none

/-- The call half of the transaction. -/
def CallRow.assignable (c : CallRow) : Bool :=
  c.agentId.isNone && c.status = .ringing && c.direction = .inbound && c.state ≠ some .ivr

/-- One transaction: both halves or neither. -/
def World.claimAgentAndAssignCall (w : World) (agentId callId : Nat) (anyShift : Bool) :
    World × Claim :=
  if (w.agent agentId).any (w.claimable agentId anyShift) then
    if (w.call callId).any CallRow.assignable then
      ({ w with
          agents := w.agents.modify agentId fun a => { a with busyCallId := some callId }
          calls := w.calls.modify callId fun c =>
            { c with agentId := some agentId, offeredAt := some (sqlNow w.now) } },
        ⟨true, true⟩)
    else (w, ⟨true, false⟩)
  else (w, ⟨false, false⟩)

end Callio
