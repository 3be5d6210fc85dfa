import Callio.Concurrency.Fallible
import Callio.Core.Retention
import Callio.Model.Rows

/-! Deleting data on a consumer's request: `CallErasure.js` and the statements of
`CallErasureRepository.js`. Every statement may fail, and so may every deletion of an object. -/

namespace Callio.CallErasure

open Js Store Concurrency Concurrency.Fallible
open Retention (Recording RecordingStatus Detail storedKey)

/-! ## Tables -/

/-- The columns that identify the customer or describe the call. -/
structure Call where
  tenantId : Nat
  status : CallStatus
  customerAddress : Option Text
  customerName : Option Text := none
  externalRef : Option Text := none
  consumerMetadata : Option Text := none
  metadata : Option Text := none
  failureDetails : Option Text := none
  deriving DecidableEq

/-- The tables whose rows go with their call; a session's inputs go with it. -/
inductive CallTable
  | callLifecycleEvents
  | callConnections
  | callTransferLogs
  | ivrSessions
  | callParticipants
  deriving DecidableEq

@[ext] structure World where
  calls : Table Call
  recordings : Table Recording := .empty
  /-- The call an event was about, if it was about one. -/
  deliveries : Table (Option Nat) := .empty
  detail : CallTable → Table Detail := fun _ => .empty
  /-- The objects in storage. -/
  objects : Text → Bool := fun _ => false

structure Env where
  /-- Whether two texts are equal under the column's collation. -/
  sameText : Text → Text → Bool
  /-- Object storage is configured. -/
  isInitialized : Bool

/-- `ENDED`, also in the statements. -/
def ended : CallStatus → Bool
  | .terminated | .failed => true
  | .initiated | .ringing | .inProgress => false

/-- `UNSETTLED`. -/
def unsettled : RecordingStatus → Bool
  | .recording | .processing => true
  | .completed | .failed | .pendingDeletion | .purged => false

def batch : Nat := 100

inductive ErrorCode
  | callActive
  | recordingInProgress
  | storageUnavailable
  deriving DecidableEq

structure ErasureError where
  code : ErrorCode
  message : String
  deriving DecidableEq

/-- How a request ends that no failing statement stops. -/
inductive Reply (α : Type)
  | done (a : α)
  | refused (error : ErasureError)
  /-- Its loop may go on. -/
  | unfinished
  deriving DecidableEq

/-! ## Statements -/

section statements

variable (env : Env) (tenantId : Nat)

def select {α : Type} (f : World → α) : Fallible World α := command fun w => (w, f w)

def findCall (callId : Nat) : Fallible World (Option Call) :=
  select fun w => (w.calls.get callId).filter (·.tenantId = tenantId)

/-- `customer_address = ?`. -/
def Call.of (address : Text) (call : Call) : Bool := call.customerAddress.any (env.sameText address)

/-- An ended call of the customer. -/
def Call.erasable (address : Text) (call : Call) : Bool :=
  call.tenantId = tenantId && call.of env address && ended call.status

def endedCallsOfCustomer (address : Text) (limit : Nat) : Fallible World (List Nat) :=
  select fun w => ((w.calls.entries fun _ call => call.erasable env tenantId address).take limit).map Prod.fst

def countActiveCallsOfCustomer (address : Text) : Fallible World Nat :=
  select fun w => (w.calls.filter fun _ call =>
    call.tenantId = tenantId && call.of env address && !ended call.status).length

def recordingsOf (callIds : List Nat) : Fallible World (List (Nat × Recording)) :=
  if callIds.isEmpty then pure [] else select fun w => w.recordings.entries fun _ row => row.callId ∈ callIds

def deleteRecordingRows (recordingIds : List Nat) : Fallible World Nat :=
  if recordingIds.isEmpty then pure 0
  else command fun w =>
    ({ w with recordings := w.recordings.removeAll fun id _ => id ∈ recordingIds },
      (w.recordings.entries fun id _ => id ∈ recordingIds).length)

/-- The delivery is about one of the calls. -/
def about (callIds : List Nat) (callId : Option Nat) : Bool := callId.any (· ∈ callIds)

def deleteDeliveries (callIds : List Nat) : Fallible World Nat :=
  if callIds.isEmpty then pure 0
  else command fun w =>
    ({ w with deliveries := w.deliveries.removeAll fun _ => about callIds },
      (w.deliveries.entries fun _ => about callIds).length)

/-- The row's call is deleted with all that is `ON DELETE CASCADE`; deliveries stay, without it. -/
def World.withoutCall (w : World) (callId : Nat) : World where
  calls := w.calls.remove callId
  recordings := w.recordings.removeAll fun _ row => row.callId = callId
  deliveries := w.deliveries.map fun about => about.filter (· ≠ callId)
  detail table := (w.detail table).removeAll fun _ row => row.callId = callId
  objects := w.objects

def deleteEndedCall (callId : Nat) : Fallible World Bool :=
  command fun w =>
    if (w.calls.get callId).any fun call => call.tenantId = tenantId && ended call.status then
      (w.withoutCall callId, true)
    else (w, false)

def World.setDetail (w : World) (table : CallTable) (rows : Table Detail) : World :=
  { w with detail := Function.update w.detail table rows }

def deleteDetail (table : CallTable) (callIds : List Nat) : Fallible World Unit :=
  command fun w => (w.setDetail table ((w.detail table).removeAll fun _ row => row.callId ∈ callIds), ())

def scrubbed (row : Detail) : Detail := { row with localSdp := none, remoteSdp := none, iceCandidates := none }

def scrubConnections (callIds : List Nat) : Fallible World Unit :=
  command fun w => (w.setDetail .callConnections
    ((w.detail .callConnections).updateAll (fun _ row => row.callId ∈ callIds) scrubbed), ())

def Call.anonymised (call : Call) : Call :=
  { call with
    customerAddress := none, customerName := none, externalRef := none, consumerMetadata := none, metadata := none
    failureDetails := none }

def anonymise (callIds : List Nat) : Fallible World Nat :=
  if callIds.isEmpty then pure 0
  else do
    deleteDetail .callLifecycleEvents callIds
    deleteDetail .ivrSessions callIds
    scrubConnections callIds
    command fun w =>
      let matched := fun id (call : Call) => call.tenantId = tenantId && id ∈ callIds && ended call.status
      ({ w with calls := w.calls.updateAll matched Call.anonymised }, (w.calls.entries matched).length)

end statements

/-! ## Requests -/

section requests

variable (env : Env) (tenantId : Nat)

/-- `deleteFile` of the storage client, which does not throw. -/
def deleteFile (key : Text) : Fallible World Bool :=
  tried (command fun w => ({ w with objects := fun k => k ≠ key && w.objects k }, ()))

/-- The first deletion that fails stops them. -/
def deleteFiles : List Text → Fallible World (Option ErasureError)
  | [] => pure none
  | key :: keys => do
    if ← deleteFile key then deleteFiles keys
    else return some ⟨.storageUnavailable, "Deleting the recording from storage failed — try again"⟩

def deleteRecordingFiles (recordings : List Recording) : Fallible World (Option ErasureError) :=
  if recordings.any (unsettled ·.status) then
    pure (some ⟨.recordingInProgress, "A recording is still being saved — try again in a minute"⟩)
  else
    let files := recordings.filterMap storedKey
    if !files.isEmpty && !env.isInitialized then
      pure (some ⟨.storageUnavailable, "Object storage is not configured, so the recording can't be deleted"⟩)
    else deleteFiles files

/-- False when the call is none of the tenant's. -/
def deleteCall (callId : Nat) : Fallible World (Reply Bool) := do
  match ← findCall tenantId callId with
  | none => return .done false
  | some call =>
    if !ended call.status then return .refused ⟨.callActive, "The call has not ended"⟩
    else
      let recordings ← recordingsOf [callId]
      match ← deleteRecordingFiles env (recordings.map Prod.snd) with
      | some error => return .refused error
      | none =>
        let _ ← deleteDeliveries [callId]
        let _ ← deleteEndedCall tenantId callId
        return .done true

structure Counts where
  callsErased : Nat
  recordingsDeleted : Nat
  activeCallsSkipped : Nat
  deriving DecidableEq

/-- The loop of `eraseCustomer`, `fuel` times at most. -/
def eraseCalls (address : Text) : Nat → Nat → Nat → Fallible World (Reply (Nat × Nat))
  | 0, _, _ => pure .unfinished
  | fuel + 1, callsErased, recordingsDeleted => do
    let callIds ← endedCallsOfCustomer env tenantId address batch
    if callIds.isEmpty then return .done (callsErased, recordingsDeleted)
    else
      let recordings ← recordingsOf callIds
      match ← deleteRecordingFiles env (recordings.map Prod.snd) with
      | some error => return .refused error
      | none =>
        let deleted ← deleteRecordingRows (recordings.map Prod.fst)
        let _ ← deleteDeliveries callIds
        let erased ← anonymise tenantId callIds
        -- The batch would come again if nothing changed.
        if erased = 0 then return .done (callsErased + erased, recordingsDeleted + deleted)
        else eraseCalls address fuel (callsErased + erased) (recordingsDeleted + deleted)

def eraseCustomer (fuel : Nat) (address : Text) : Fallible World (Reply Counts) := do
  match ← eraseCalls env tenantId address fuel 0 0 with
  | .unfinished => return .unfinished
  | .refused error => return .refused error
  | .done (callsErased, recordingsDeleted) =>
    let activeCallsSkipped ← countActiveCallsOfCustomer env tenantId address
    return .done { callsErased, recordingsDeleted, activeCallsSkipped }

end requests

end Callio.CallErasure
