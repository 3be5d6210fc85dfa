import Callio.Js.Json
import Callio.Store.Table

/-! How long call data is kept: the sweep of `RetentionService.js` and the statements of
`RetentionRepository.js`. -/

namespace Callio.Retention

open Js Store

/-! ## Tables -/

/-- Times are in milliseconds. -/
structure Call where
  tenantId : Nat
  /-- `status IN ('TERMINATED', 'FAILED')`. -/
  ended : Bool
  endedAt : Option Int
  deriving DecidableEq

inductive RecordingStatus
  | recording
  | processing
  | completed
  | failed
  | pendingDeletion
  | purged
  deriving DecidableEq

structure Recording where
  callId : Nat
  storageProvider : Text
  storageKey : Option Text
  status : RecordingStatus
  startedAt : Int
  purgedAt : Option Int := none
  deriving DecidableEq

inductive DetailTable
  | callLifecycleEvents
  | callConnections
  | callTransferLogs
  | ivrSessions
  deriving DecidableEq

/-- A row of `ivr_session_inputs`. -/
structure SessionInput where
  nodeName : Text
  input : Text
  deriving DecidableEq

/-- A row of one of them; only legs have descriptions and candidates, and only IVR
sessions have inputs, whose rows go with their session's. -/
structure Detail where
  callId : Nat
  localSdp : Option Text := none
  remoteSdp : Option Text := none
  iceCandidates : Option Text := none
  inputs : List SessionInput := []
  deriving DecidableEq

structure Delivery where
  /-- `status IN ('DELIVERED', 'FAILED')`. -/
  finished : Bool
  createdAt : Int
  deriving DecidableEq

structure Tenant where
  id : Nat
  settings : Option Json

structure World where
  /-- As a select without an order gives them. -/
  tenants : List Tenant
  distinct : (tenants.map Tenant.id).Nodup
  calls : Table Call
  recordings : Table Recording
  detail : DetailTable → Table Detail := fun _ => .empty
  deliveries : Table Delivery := .empty
  /-- The objects in storage. -/
  objects : Text → Bool
  /-- How often the sweep has looked whether it is in time. -/
  tests : Nat := 0

/-! ## What the sweep depends on -/

/-- A reading of the clock. -/
inductive Reading
  /-- At the beginning, for the deadline. -/
  | start
  /-- For the `n`-th test of the deadline. -/
  | test (n : Nat)
  /-- For the cutoff of the step after it. -/
  | step (n : Nat)
  | callDetail
  /-- For the cutoff of a tenant. -/
  | tenant (id : Nat)

structure Env where
  sdpHours : Number
  callDetailDays : Number
  webhookDeliveryDays : Number
  recordingDays : Number
  numberText : Number → Text
  clock : Reading → Nat
  /-- `NOW()`, when a recording is marked. -/
  sqlNow : Nat → Int
  /-- Whether a column is less than a date that is sent; the date may be invalid. -/
  older : Option Int → Int → Bool
  /-- Object storage is configured. -/
  isInitialized : Bool
  /-- Whether storage deletes an object. -/
  deletes : Text → Bool

def batchSize : Nat := 1000
def budgetMs : Nat := 60000
def dayMs : Nat := 86400000

/-! ## Running -/

/-- How a part of the sweep ends. -/
inductive Outcome (α : Type)
  | done (a : α) (w : World)
  | thrown (w : World)
  /-- Its loops may go on. -/
  | unfinished (w : World)

def Outcome.world {α : Type} : Outcome α → World
  | done _ w | thrown w | unfinished w => w

def Outcome.Ended {α : Type} : Outcome α → Prop
  | done _ _ | thrown _ => True
  | unfinished _ => False

abbrev M (α : Type) := World → Outcome α

instance : Monad M where
  pure a w := .done a w
  bind m f w :=
    match m w with
    | .done a w => f a w
    | .thrown w => .thrown w
    | .unfinished w => .unfinished w

variable (env : Env)

/-- `Date.now() < deadline`. -/
def inTime : M Bool := fun w =>
  .done (env.clock (.test w.tests) < env.clock .start + budgetMs) { w with tests := w.tests + 1 }

/-- `new Date(Date.now() - ms)`. -/
def ago (reading : Reading) (ms : Number) : Option Int := (Number.subFrom (env.clock reading) ms).timeClip

/-! ## Statements -/

/-- The call ended before the cutoff. -/
def endedBefore (calls : Table Call) (cutoff : Option Int) (callId : Nat) : Bool :=
  (calls.get callId).any fun call => call.ended && call.endedAt.any (env.older cutoff)

/-- The rows of `limit` calls. -/
def deleteCallDetail (table : DetailTable) (cutoff : Option Int) (callLimit : Nat) : M Nat := fun w =>
  let rows := (w.detail table).filter fun _ row => endedBefore env w.calls cutoff row.callId
  let ids := ((rows.map Detail.callId).dedup).take callLimit
  let deleted := (w.detail table).filter fun _ row => row.callId ∈ ids
  .done deleted.length { w with
    detail := Function.update w.detail table ((w.detail table).removeAll fun _ row => row.callId ∈ ids) }

/-- `local_sdp IS NOT NULL OR remote_sdp IS NOT NULL OR ice_candidates IS NOT NULL`. -/
def Detail.described (row : Detail) : Bool := row.localSdp.isSome || row.remoteSdp.isSome || row.iceCandidates.isSome

def scrubConnectionSdp (cutoff : Option Int) (limit : Nat) : M Nat := fun w =>
  let legs := w.detail .callConnections
  let ids := ((legs.entries fun _ row => endedBefore env w.calls cutoff row.callId && row.described).take limit).map Prod.fst
  .done ids.length { w with
    detail := Function.update w.detail .callConnections (legs.updateAll (fun id _ => id ∈ ids) fun row =>
      { row with localSdp := none, remoteSdp := none, iceCandidates := none }) }

def deleteFinishedDeliveries (cutoff : Option Int) (limit : Nat) : M Nat := fun w =>
  let ids := ((w.deliveries.entries fun _ row => row.finished && env.older cutoff row.createdAt).take limit).map Prod.fst
  .done ids.length { w with deliveries := w.deliveries.removeAll fun id _ => id ∈ ids }

/-- A tenant's completed recordings that started before the cutoff. -/
def expired (w : World) (tenantId : Nat) (cutoff : Option Int) : List (Nat × Recording) :=
  w.recordings.entries fun _ row =>
    (w.calls.get row.callId).any (·.tenantId = tenantId) && row.status = .completed && env.older cutoff row.startedAt

def expiredRecordings (tenantId : Nat) (cutoff : Option Int) (limit : Nat) : M (List (Nat × Recording)) := fun w =>
  .done ((expired env w tenantId cutoff).take limit) w

def Recording.purge (now : Int) (row : Recording) : Recording :=
  if row.status = .completed then { row with status := .purged, purgedAt := some now, storageKey := none } else row

def markRecordingPurged (recordingId : Nat) : M Unit := fun w =>
  .done () { w with recordings := w.recordings.modify recordingId (Recording.purge (env.sqlNow recordingId)) }

/-- `deleteFile` of the storage client. -/
def deleteFile (key : Text) : M Bool := fun w =>
  if env.deletes key then .done true { w with objects := fun k => k ≠ key && w.objects k } else .done false w

/-! ## The sweep -/

/-- Repeats a step until it has nothing left; `fuel` times at most. -/
def loop (step : M Nat) : Nat → M Nat
  | 0 => fun w => .unfinished w
  | fuel + 1 => do
    if ← inTime env then
      let n ← step
      if n = 0 then return 0
      return n + (← loop step fuel)
    else return 0

/-- The number of the step after the test. -/
def stepReading (w : World) : Reading := .step w.tests

def callDetail (fuel : Nat) (cutoff : Option Int) : List DetailTable → M Nat
  | [] => pure 0
  | table :: tables => do
    let n ← loop env (deleteCallDetail env table cutoff 200) fuel
    return n + (← callDetail fuel cutoff tables)

/-- `rec.storage_key && rec.storage_provider === 's3'`, and the key. -/
def storedKey (row : Recording) : Option Text :=
  row.storageKey.filter fun key => key ≠ [] && row.storageProvider = "s3".toList

/-- How many rows of a batch are marked, and whether it is gone through: without
storage it is left at an object. -/
def purgeBatch : List (Nat × Recording) → M (Nat × Bool)
  | [] => pure (0, true)
  | (id, row) :: rows =>
    match storedKey row with
    | some key =>
      if !env.isInitialized then pure (0, false)
      else do
        if ← deleteFile env key then
          markRecordingPurged env id
          let (n, through) ← purgeBatch rows
          return (n + 1, through)
        else purgeBatch rows
    | none => do
      markRecordingPurged env id
      let (n, through) ← purgeBatch rows
      return (n + 1, through)

def recordingBatch : Nat := 100

/-- One tenant's recordings. -/
def purgeTenant (tenantId : Nat) (cutoff : Option Int) : Nat → M (Nat × Bool)
  | 0 => fun w => .unfinished w
  | fuel + 1 => do
    if ← inTime env then
      let batch ← expiredRecordings env tenantId cutoff recordingBatch
      let (progress, through) ← purgeBatch env batch
      if progress = 0 || !through then return (progress, through)
      let (n, through) ← purgeTenant tenantId cutoff fuel
      return (progress + n, through)
    else return (0, true)

/-- `Number(tenant.settings?.recording?.retention_days)`; a `TypeError` is `none`. -/
def ownDays (tenant : Tenant) : Option Number :=
  match (tenant.settings.bind (·.get "recording")).bind (·.get "retention_days") with
  | some v => v.toNumber env.numberText
  | none => some .nan

/-- `Number.isFinite(own) && own >= 0 ? own : config.retention.recordingDays`. -/
def retentionDays (tenant : Tenant) : Option Number :=
  (ownDays env tenant).map fun own =>
    match own with
    | .fin q => if 0 ≤ q then .fin q else env.recordingDays
    | _ => env.recordingDays

/-- The tenant's cutoff. -/
def cutoffOf (tenantId : Nat) (days : Number) : Option Int := ago env (.tenant tenantId) (days.times dayMs)

def purgeTenants (fuel : Nat) : List Tenant → M Nat
  | [] => pure 0
  | tenant :: tenants =>
    match retentionDays env tenant with
    | none => fun w => .thrown w
    | some days =>
      if !days.isTruthy then purgeTenants fuel tenants
      else do
        let (n, through) ← purgeTenant env tenant.id (cutoffOf env tenant.id days) fuel
        if through then return n + (← purgeTenants fuel tenants) else return n

def purgeRecordings (fuel : Nat) : M Nat := fun w => purgeTenants env fuel w.tenants w

structure Counts where
  sdpCleared : Nat
  detailRows : Nat
  deliveries : Nat
  recordings : Nat
  deriving DecidableEq

/-- A part set to 0 keeps its data. -/
def part (setting : Number) (m : M Nat) : M Nat := if setting.isTruthy then m else pure 0

def detailTables : List DetailTable := [.callLifecycleEvents, .callConnections, .callTransferLogs, .ivrSessions]

def sweep (fuel : Nat) : M Counts := do
  let sdpCleared ← part env.sdpHours <| loop env (fun w =>
    scrubConnectionSdp env (ago env (stepReading w) (env.sdpHours.times 3600000)) batchSize w) fuel
  let detailRows ← part env.callDetailDays <|
    callDetail env fuel (ago env .callDetail (env.callDetailDays.times dayMs)) detailTables
  let deliveries ← part env.webhookDeliveryDays <| loop env (fun w =>
    deleteFinishedDeliveries env (ago env (stepReading w) (env.webhookDeliveryDays.times dayMs)) batchSize w) fuel
  let recordings ← purgeRecordings env fuel
  return { sdpCleared, detailRows, deliveries, recordings }

end Callio.Retention
