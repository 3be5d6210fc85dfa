import Callio.Core.Handlers

/-! `ConsumerEventPublisher`: what a consumer is told of a call. A publication reads
the row, then whom to tell, and only then takes the time the event is stamped with;
any number of them run beside the handlers that write the row. The copy of a
subscription a worker keeps for a minute, and an agent's and a channel's names, are
left out. -/

namespace Callio.Publisher

open Concurrency

/-! ## Events -/

inductive EventType
  | created | ringing | queued | assigned | answered | transferred | overflowed | ivrCompleted | ended
  | recordingCompleted
  deriving DecidableEq, Repr

/-- `ONCE_PER_CALL`: events of a one-time transition, written at most once. -/
def EventType.oncePerCall : EventType → Bool
  | created | answered | ended => true
  | _ => false

structure Durations where
  ringing : Nat
  call : Nat
  queue : Nat
  deriving DecidableEq, Repr

/-- `toConsumerCallView`. -/
structure CallView where
  callId : Nat
  tenantId : Nat
  channel : Channel
  channelId : Nat
  queueId : Option Nat
  direction : Direction
  status : CallStatus
  state : Option CallState
  customerAddress : Option Nat
  agentId : Option Nat
  ringingAt : Option Nat
  answeredAt : Option Nat
  endedAt : Option Nat
  providerCallId : Option Nat
  ivrFlowId : Option Nat
  terminationReason : Option TerminationReason
  terminatedBy : Option TerminatedBy
  durations : Durations
  createdAt : Nat
  deriving DecidableEq, Repr

def toConsumerCallView (call : Call) : CallView where
  callId := call.id
  tenantId := call.tenantId
  channel := call.channel
  channelId := call.channelId
  queueId := call.queueId
  direction := call.direction
  status := call.status
  state := call.state
  customerAddress := call.customerAddress
  agentId := call.agentId
  ringingAt := call.ringingAt
  answeredAt := call.answeredAt
  endedAt := call.endedAt
  providerCallId := call.providerCallId
  ivrFlowId := call.ivrFlowId
  terminationReason := call.terminationReason
  terminatedBy := call.terminatedBy
  durations := ⟨call.ringingDuration, call.callDuration, call.queueDuration⟩
  createdAt := call.createdAt

/-- A row of `webhook_deliveries`, as it is written. -/
structure Event where
  consumerId : Nat
  tenantId : Nat
  callId : Nat
  eventType : EventType
  occurredAt : Nat
  call : CallView
  deriving DecidableEq, Repr

/-- The event's `dedupe_key`, if it has one. -/
def Event.dedupeKey (e : Event) : Option (Nat × EventType) :=
  if e.eventType.oncePerCall then some (e.callId, e.eventType) else none

/-! ## The database -/

structure Station where
  world : World
  /-- The consumer of each tenant there is. -/
  consumerOf : Nat → Option Nat := fun _ => none
  /-- The event types a consumer subscribed to; `none`: every one. -/
  eventTypes : Nat → Option (List EventType) := fun _ => none
  outbox : List Event := []

def Station.existsByDedupeKey (σ : Station) (key : Nat × EventType) : Bool :=
  σ.outbox.any fun e => e.dedupeKey = some key

inductive Op
  /-- A handler's statement, or one on the same tables. -/
  | core (s : Stmt)
  | existsByDedupeKey (key : Nat × EventType)
  | tenantContext (tenantId : Nat)
  | subscribed (consumerId : Nat) (eventType : EventType)
  /-- The dedupe key is unique; the answer says whether the event was written. -/
  | enqueue (e : Event)

namespace Op

abbrev Res : Op → Type
  | core s => s.Res
  | existsByDedupeKey _ | subscribed _ _ | enqueue _ => Bool
  | tenantContext _ => Option Nat

def exec : (op : Op) → Station → Station × op.Res
  | core s, σ => ({ σ with world := (s.exec σ.world).1 }, (s.exec σ.world).2)
  | existsByDedupeKey key, σ => (σ, σ.existsByDedupeKey key)
  | tenantContext tenantId, σ => (σ, σ.consumerOf tenantId)
  | subscribed consumerId eventType, σ => (σ, (σ.eventTypes consumerId).all (·.contains eventType))
  | enqueue e, σ =>
    if e.dedupeKey.any σ.existsByDedupeKey then (σ, false) else ({ σ with outbox := e :: σ.outbox }, true)

end Op

abbrev Job := Prog Op.Res

/-- A handler's code beside publications. -/
def core {α : Type} : Code α → Job α
  | .ret a => .ret a
  | .call s k => .call (.core s) fun r => core (k r)

def stmt (s : Stmt) : Job s.Res := Prog.cmd (Op.core s)

/-! ## Publishing -/

/-- `WRITE_RETRY_DELAYS_MS`. -/
def writeRetryDelaysMs : List Nat := [200, 1000, 3000]

/-- A publication, and what the database does to its writes: each attempt that
throws had written the event all the same, or not. -/
structure Publication where
  callId : Nat
  eventType : EventType
  failures : List Bool := []
  deriving DecidableEq, Repr

/-- An attempt that throws, the event written or not. -/
def failedAttempt (e : Event) (written : Bool) : Job Unit := do
  if written then let _ ← Prog.cmd (Op.enqueue e)

/-- `#enqueue`: an attempt that throws is made again after a delay, then given up. -/
def enqueue (e : Event) : (delays : List Nat) → (failures : List Bool) → Job Unit
  | _, [] => do
    let _ ← Prog.cmd (Op.enqueue e)
  | [], written :: _ => failedAttempt e written
  | delay :: delays, written :: failures => do
    failedAttempt e written
    stmt (.wait delay)
    enqueue e delays failures

namespace Publication

def event (p : Publication) (call : Call) (consumerId occurredAt : Nat) : Event :=
  { consumerId, tenantId := call.tenantId, callId := p.callId, eventType := p.eventType, occurredAt,
    call := toConsumerCallView call }

/-- The row as it was read is what the event will show. -/
def publishRead (p : Publication) (call : Call) : Job Unit := do
  match ← Prog.cmd (Op.tenantContext call.tenantId) with
  | none => return ()
  | some consumerId =>
    if !(← Prog.cmd (Op.subscribed consumerId p.eventType)) then return ()
    if let some agentId := call.agentId then let _ ← stmt (.query (.findAgent agentId))
    let occurredAt ← stmt (.query .now)
    enqueue (p.event call consumerId occurredAt) writeRetryDelaysMs p.failures

def publishForCall (p : Publication) : Job Unit := do
  let known ← if p.eventType.oncePerCall then Prog.cmd (Op.existsByDedupeKey (p.callId, p.eventType)) else pure false
  if known then return ()
  match ← stmt (.query (.findById p.callId)) with
  | none => return ()
  | some call => p.publishRead call

end Publication

/-! ## Runs -/

inductive Task
  | handler (h : Handler)
  | publish (p : Publication)

def Task.code : Task → Job Unit
  | handler h => core h.code
  | publish p => p.publishForCall

variable {ι : Type}

abbrev Service (ι : Type) := Config Op.Res Station ι

def Service.spawn (σ : Station) (ts : ι → Task) : Service ι := Config.spawn σ fun i => (ts i).code

/-- The service after the schedule's first `k` moves. -/
def Service.after [DecidableEq ι] (s : Service ι) (schedule : List ι) (k : Nat) : Service ι :=
  Concurrency.run Op.exec s (schedule.take k)

end Callio.Publisher
