import Mathlib.Tactic.Common

/-! The rows of the tables a call's life runs on. Times are milliseconds, and a
TIMESTAMP column keeps whole seconds of them; addresses and provider ids are
opaque keys. A column that may be NULL is an `Option`. A row's `id` is its key
in the table, so only what a SELECT returns carries it (`Call`, `Agent`,
`Queue`). `CANCELLED` is a constant of the source that no column holds. -/

namespace Callio

/-! ## Time -/

def second : Nat := 1000

def minute : Nat := 60 * second

/-- `NOW()`: the clock, cut to the whole second. -/
def sqlNow (now : Nat) : Nat := now / second * second

/-- A time of the service as a TIMESTAMP column keeps it: the database rounds
it to the nearest second. -/
def timestamp (t : Nat) : Nat := (t + 500) / second * second

section time

variable {t t' : Nat}

theorem sqlNow_le (t : Nat) : sqlNow t ≤ t := by
  unfold sqlNow second
  omega

theorem lt_sqlNow_add (t : Nat) : t < sqlNow t + second := by
  unfold sqlNow second
  omega

theorem sqlNow_mono (h : t ≤ t') : sqlNow t ≤ sqlNow t' := by
  unfold sqlNow second
  omega

theorem sqlNow_add (t n : Nat) : sqlNow (t + n * second) = sqlNow t + n * second := by
  unfold sqlNow second
  omega

@[simp] theorem sqlNow_sqlNow (t : Nat) : sqlNow (sqlNow t) = sqlNow t := by
  unfold sqlNow second
  omega

/-- A whole second that is not after the clock is not after `NOW()`. -/
theorem sqlNow_le_sqlNow (h : sqlNow t ≤ t') : sqlNow t ≤ sqlNow t' := by
  simpa using sqlNow_mono h

@[simp] theorem timestamp_timestamp (t : Nat) : timestamp (timestamp t) = timestamp t := by
  unfold timestamp second
  omega

/-- What fell due by `NOW()` has waited `n` seconds, unless it is still the very
second of it and the fraction at which the wait began has not come yet. -/
theorem due_of_sqlNow {now n : Nat} (h : sqlNow t + n * second ≤ sqlNow now)
    (hf : sqlNow now = sqlNow t + n * second → t % second ≤ now % second) : t + n * second ≤ now := by
  unfold sqlNow second at *
  omega

end time

inductive CallStatus
  | initiated | ringing | inProgress | terminated | failed
  deriving DecidableEq, Repr

/-- `ACTIVE_STATUSES` and `LIVE_STATUSES`. -/
def CallStatus.active : CallStatus → Bool
  | .initiated | .ringing | .inProgress => true
  | .terminated | .failed => false

inductive CallState
  | ivr | queue | active | onHold
  deriving DecidableEq, Repr

inductive Direction
  | inbound | outbound
  deriving DecidableEq, Repr

inductive Channel
  | whatsapp | sip
  deriving DecidableEq, Repr

inductive TerminationReason
  | completed | noAnswer | timeout | cancelled | rejected | busy | agentDisconnected
  | agentMediaNotReady | systemError | serviceMaintenance | networkError
  | customerNetworkLoss | providerError | providerTriggerFailed | ivrAgentNoAnswer
  deriving DecidableEq, Repr

inductive TerminatedBy
  | agent | system | customer | provider | consumer
  deriving DecidableEq, Repr

inductive Availability
  | available | offline | onCall
  deriving DecidableEq, Repr

inductive QueueStrategy
  | ringAll | roundRobin | priority
  deriving DecidableEq, Repr

structure CallRow where
  tenantId : Nat := 1
  channelId : Nat := 1
  channel : Channel := .whatsapp
  providerCallId : Option Nat := none
  queueId : Option Nat := none
  agentId : Option Nat := none
  ivrFlowId : Option Nat := none
  customerAddress : Option Nat := none
  direction : Direction
  status : CallStatus := .initiated
  state : Option CallState := none
  createdAt : Nat := 0
  ringingAt : Option Nat := none
  queuedAt : Option Nat := none
  offeredAt : Option Nat := none
  answeredAt : Option Nat := none
  endedAt : Option Nat := none
  overflowCount : Nat := 0
  terminationReason : Option TerminationReason := none
  terminatedBy : Option TerminatedBy := none
  ringingDuration : Nat := 0
  callDuration : Nat := 0
  queueDuration : Nat := 0
  deriving DecidableEq, Repr

/-- The call is over: `TERMINATED` or `FAILED`. -/
def CallRow.ended (row : CallRow) : Bool := !row.status.active

structure Call extends CallRow where
  id : Nat
  deriving DecidableEq, Repr

structure AgentRow where
  tenantId : Nat := 1
  availability : Availability := .available
  busyCallId : Option Nat := none
  deleted : Bool := false
  deriving DecidableEq, Repr

/-- `reportedAvailability`: `ON_CALL` while busy, else the shift. -/
def AgentRow.reportedAvailability (row : AgentRow) : Availability :=
  if row.busyCallId.isSome then .onCall
  else if row.availability = .offline then .offline
  else .available

/-- An agent as `findById` and `getMembers` return one, with the status reported. -/
structure Agent where
  id : Nat
  tenantId : Nat
  availability : Availability
  busyCallId : Option Nat
  deriving DecidableEq, Repr

structure QueueRow where
  tenantId : Nat := 1
  strategy : QueueStrategy := .roundRobin
  ringTimeoutSeconds : Option Nat := none
  maxActiveCalls : Option Nat := none
  maxWaitSeconds : Option Nat := none
  overflowQueueId : Option Nat := none
  active : Bool := true
  deriving DecidableEq, Repr

structure Queue extends QueueRow where
  id : Nat
  deriving DecidableEq, Repr

/-- `QueueRouter.isRingAll`. -/
def QueueRow.isRingAll (q : QueueRow) : Bool := q.strategy = .ringAll

structure IvrFlowRow where
  agentRingTimeout : Option Nat := none
  deriving DecidableEq, Repr

/-- An SDP, as far as pairing offers with answers needs it: which leg of the
call's room it describes. -/
inductive Sdp
  | offer (leg : Nat)
  | answer (leg : Nat)
  deriving DecidableEq, Repr

end Callio
