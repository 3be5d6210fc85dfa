import Callio.Model.World
import Callio.Sql.Truth

/-! The sweeps' queries (`CallRepository`). A sweep selects a row when its
WHERE clause is true of it; NULL columns make comparisons unknown, which a
clause does not select and a NOT does not turn into true. -/

namespace Callio

open Sql

/-- `t` lies before a cutoff the worker takes from its own clock, `ms` back. -/
def World.olderThan (w : World) (t : Option Nat) (ms : Nat) : Truth :=
  relate (fun t now => t + ms < now) t (some w.now)

/-- `t < DATE_SUB(NOW(), INTERVAL ..)`. -/
def World.beforeInterval (w : World) (t : Option Nat) (ms : Nat) : Truth :=
  relate (fun t now => t + ms < now) t (some (sqlNow w.now))

/-- `t <= DATE_SUB(NOW(), INTERVAL ..)`. -/
def World.dueSince (w : World) (t : Option Nat) (ms : Nat) : Truth :=
  relate (fun t now => t + ms ≤ now) t (some (sqlNow w.now))

/-- `EXISTS (SELECT 1 FROM queues q WHERE q.id = c.queue_id AND ..)`. -/
def World.queueExists (w : World) (c : CallRow) (p : QueueRow → Bool) : Truth :=
  .ofBool ((w.queueOf c).any p)

def statusIs (c : CallRow) (status : CallStatus) : Truth := eq (some c.status) (some status)

def directionIs (c : CallRow) (direction : Direction) : Truth :=
  eq (some c.direction) (some direction)

def stateIs (c : CallRow) (state : CallState) : Truth := eq c.state (some state)

/-- `status NOT IN ('TERMINATED', 'FAILED')`. -/
def notFinal (c : CallRow) : Truth := .ofBool (!c.ended)

/-- A queue whose offers pass on after a ring timeout. -/
def QueueRow.passesOffersOn (q : QueueRow) : Bool :=
  q.ringTimeoutSeconds.isSome && q.strategy ≠ .ringAll

def findStuckIvrTransferredCalls (w : World) (c : CallRow) : Truth :=
  let timeout := ((w.flowOf c).bind (·.agentRingTimeout)).getD 60
  (((((((statusIs c .ringing).and (stateIs c .queue)).and (directionIs c .inbound)).and
    (isNotNull c.agentId)).and (isNotNull c.ivrFlowId)).and (isNotNull c.ringingAt)).and
    (w.beforeInterval c.ringingAt (timeout * second))).and
    (w.queueExists c QueueRow.passesOffersOn).not

/-- An IVR call waiting for its auto-accept. -/
def awaitingAutoAccept (c : CallRow) : Truth :=
  ((directionIs c .inbound).and (isNull c.agentId)).and (stateIs c .ivr)

/-- A ringing call the IVR transferred to an agent. -/
def ivrTransferred (c : CallRow) : Truth :=
  (((directionIs c .inbound).and (isNotNull c.agentId)).and (isNotNull c.ivrFlowId)).and
    (stateIs c .queue)

/-- A call in a queue with its own `max_wait_seconds`. -/
def World.maxWaitRuns (w : World) (c : CallRow) : Truth :=
  (directionIs c .inbound).and (w.queueExists c (·.maxWaitSeconds.isSome))

/-- `IN_PROGRESS` with a termination reason. -/
def endedInProgress (c : CallRow) : Truth :=
  (statusIs c .inProgress).and (isNotNull c.terminationReason)

def findAllStuckCalls (w : World) (ringingMinutes : Nat) (c : CallRow) : Truth :=
  ((((((statusIs c .ringing).and (w.olderThan c.ringingAt (ringingMinutes * minute))).and
    (awaitingAutoAccept c).not).and (ivrTransferred c).not).and (w.maxWaitRuns c).not).or
    (endedInProgress c)).and (notFinal c)

def findStuckCallsForUser (w : World) (agentId ringingMinutes : Nat) (c : CallRow) : Truth :=
  ((eq c.agentId (some agentId)).and
    ((((statusIs c .ringing).and (w.olderThan c.ringingAt (ringingMinutes * minute))).and
      (((directionIs c .inbound).and (isNotNull c.ivrFlowId)).and (stateIs c .queue)).not).or
      (endedInProgress c))).and (notFinal c)

def findExpiredOutboundIntents (w : World) (minutes : Nat) (c : CallRow) : Truth :=
  ((((directionIs c .outbound).and (statusIs c .initiated)).and (isNull c.ringingAt)).and
    (isNull c.providerCallId)).and (w.olderThan (some c.createdAt) (minutes * minute))

/-- `state IS NULL OR state = 'QUEUE'`. -/
def outsideIvr (c : CallRow) : Truth := (isNull c.state).or (stateIs c .queue)

/-- A column of the joined queue: unknown without a queue, and NULL when unset. -/
def World.queueColumn {α : Type} (w : World) (c : CallRow) (column : QueueRow → Option α) :
    Option α :=
  (w.queueOf c).bind column

def findExpiredOffers (w : World) (c : CallRow) : Truth :=
  ((((((statusIs c .ringing).and (directionIs c .inbound)).and (isNotNull c.agentId)).and
    (isNotNull c.offeredAt)).and (outsideIvr c)).and
    (w.queueExists c QueueRow.passesOffersOn)).and
    (w.dueSince c.offeredAt ((w.queueColumn c (·.ringTimeoutSeconds)).getD 0 * second))

def findExpiredWaits (w : World) (c : CallRow) : Truth :=
  ((((((statusIs c .ringing).and (directionIs c .inbound)).and (outsideIvr c)).and
    ((isNull c.agentId).or (isNotNull c.offeredAt))).and
    (w.queueExists c (·.maxWaitSeconds.isSome))).and
    (w.dueSince (c.queuedAt.or (c.ringingAt.or (some c.createdAt)))
      ((w.queueColumn c (·.maxWaitSeconds)).getD 0 * second)))

def findExpiredHandovers (w : World) (timeoutSeconds : Nat) (c : CallRow) : Truth :=
  (((statusIs c .inProgress).and (isNotNull c.agentId)).and (isNotNull c.offeredAt)).and
    (w.dueSince c.offeredAt (max 1 (if timeoutSeconds = 0 then 30 else timeoutSeconds) * second))

/-! ## What the clauses select -/

section selects

variable (w : World) (c : CallRow)

@[simp] theorem holds_statusIs (s : CallStatus) : (statusIs c s).holds = decide (c.status = s) := by
  rw [Bool.eq_iff_iff]
  simp [statusIs, eq]

@[simp] theorem holds_directionIs (d : Direction) :
    (directionIs c d).holds = decide (c.direction = d) := by
  rw [Bool.eq_iff_iff]
  simp [directionIs, eq]

@[simp] theorem holds_stateIs (s : CallState) : (stateIs c s).holds = decide (c.state = some s) := by
  rw [Bool.eq_iff_iff]
  simp [stateIs, eq]

@[simp] theorem holds_notFinal : (notFinal c).holds = !c.ended := by simp [notFinal]

@[simp] theorem holds_queueExists (p : QueueRow → Bool) :
    (w.queueExists c p).holds = (w.queueOf c).any p := by
  simp [World.queueExists]

/-- A NULL state is neither `QUEUE` nor anything else. -/
theorem stateIs_eq_false (s : CallState) :
    stateIs c s = some false ↔ ∃ s', c.state = some s' ∧ s' ≠ s := by
  simp [stateIs, eq]

theorem directionIs_eq_false (d : Direction) : directionIs c d = some false ↔ c.direction ≠ d := by
  simp [directionIs, eq]

theorem isNull_eq_false {α : Type} (a : Option α) : isNull a = some false ↔ a.isSome := by
  cases a <;> simp [isNull, Truth.ofBool]

theorem isNotNull_eq_false {α : Type} (a : Option α) : isNotNull a = some false ↔ a = none := by
  cases a <;> simp [isNotNull, Truth.ofBool]

theorem queueExists_eq_false (p : QueueRow → Bool) :
    w.queueExists c p = some false ↔ (w.queueOf c).any p = false := by
  simp [World.queueExists, Truth.ofBool_eq_false]

theorem holds_olderThan (t : Option Nat) (ms : Nat) :
    (w.olderThan t ms).holds = t.any fun t => t + ms < w.now := by
  cases t <;> simp [World.olderThan, relate, Truth.holds]

theorem holds_beforeInterval (t : Option Nat) (ms : Nat) :
    (w.beforeInterval t ms).holds = t.any fun t => t + ms < sqlNow w.now := by
  cases t <;> simp [World.beforeInterval, relate, Truth.holds]

theorem holds_dueSince (t : Option Nat) (ms : Nat) :
    (w.dueSince t ms).holds = t.any fun t => t + ms ≤ sqlNow w.now := by
  cases t <;> simp [World.dueSince, relate, Truth.holds]

/-- The exclusion of calls awaiting their auto-accept also drops a call with
no agent and no state. -/
theorem holds_not_awaitingAutoAccept :
    (awaitingAutoAccept c).not.holds = true ↔
      c.direction ≠ .inbound ∨ c.agentId.isSome ∨ ∃ s, c.state = some s ∧ s ≠ .ivr := by
  simp [awaitingAutoAccept, Truth.and_eq_false, stateIs_eq_false, directionIs_eq_false,
    isNull_eq_false, or_assoc]

/-- The exclusion of IVR transfers also drops one with no state. -/
theorem holds_not_ivrTransferred :
    (ivrTransferred c).not.holds = true ↔
      c.direction ≠ .inbound ∨ c.agentId = none ∨ c.ivrFlowId = none ∨
        ∃ s, c.state = some s ∧ s ≠ .queue := by
  simp [ivrTransferred, Truth.and_eq_false, stateIs_eq_false, directionIs_eq_false,
    isNotNull_eq_false, or_assoc]

theorem holds_not_maxWaitRuns :
    (w.maxWaitRuns c).not.holds = true ↔
      c.direction ≠ .inbound ∨ (w.queueOf c).any (·.maxWaitSeconds.isSome) = false := by
  simp [World.maxWaitRuns, Truth.and_eq_false, directionIs_eq_false, queueExists_eq_false]

end selects

end Callio
