import Callio.Concurrency.Protocol
import Callio.Ivr.Targets
import Callio.Store.Table

/-! Deleting a tenant's queues and audio assets (`EntityDeletion.js`), and the tables
it reads and deletes from, as far as they refer to one another. -/

namespace Callio.EntityDeletion

open Js Concurrency Store IvrTargets

/-! ## Tables -/

structure Channel where
  tenantId : Nat
  externalRef : Text
  inboundQueueId : Option Nat

structure Queue where
  tenantId : Nat
  externalRef : Text
  overflowQueueId : Option Nat
  holdAudioAssetId : Option Nat

structure Flow where
  tenantId : Nat
  externalRef : Text
  structure_ : Json

/-- No tenant: a platform default. -/
structure AudioAsset where
  tenantId : Option Nat

/-- What a foreign key may hold. -/
def Refers {α : Type} (t : Table α) (key : Option Nat) : Prop := ∀ id, key = some id → (t.get id).isSome

instance {α : Type} (t : Table α) (key : Option Nat) : Decidable (Refers t key) :=
  match key with
  | none => isTrue nofun
  | some id => decidable_of_iff ((t.get id).isSome = true)
      ⟨fun h _ hid => Option.some.inj hid ▸ h, fun h => h id rfl⟩

theorem Refers.mono {α : Type} {t u : Table α} {key : Option Nat} (h : Refers t key)
    (hkept : ∀ id, (t.get id).isSome → (u.get id).isSome) : Refers u key :=
  fun id hid => hkept id (h id hid)

/-- `ON DELETE SET NULL`. -/
def cleared (deleted : Nat) (key : Option Nat) : Option Nat := if key = some deleted then none else key

theorem Refers.cleared {α : Type} {t u : Table α} {key : Option Nat} (h : Refers t key) {deleted : Nat}
    (hkept : ∀ id ≠ deleted, (t.get id).isSome → (u.get id).isSome) : Refers u (cleared deleted key) := by
  intro id hid
  unfold EntityDeletion.cleared at hid
  split at hid
  · cases hid
  · rename_i hne
    have hdeleted : id ≠ deleted := by
      rintro rfl
      exact hne hid
    exact hkept id hdeleted (h id hid)

/-- The rows, and what their foreign keys promise. -/
structure Db where
  queues : Table Queue
  assets : Table AudioAsset
  channels : List Channel
  flows : List Flow
  /-- The queues of the live calls. -/
  liveIn : List Nat
  inboundQueue : ∀ c ∈ channels, Refers queues c.inboundQueueId
  overflowQueue : ∀ id row, queues.get id = some row → Refers queues row.overflowQueueId
  holdAudio : ∀ id row, queues.get id = some row → Refers assets row.holdAudioAssetId

/-! ## Statements -/

def Db.empty : Db where
  queues := .empty
  assets := .empty
  channels := []
  flows := []
  liveIn := []
  inboundQueue := nofun
  overflowQueue := nofun
  holdAudio := nofun

def Db.usingInboundQueue (db : Db) (queueId : Nat) : List Text :=
  (db.channels.filter (·.inboundQueueId = some queueId)).map Channel.externalRef

def Db.overflowingInto (db : Db) (queueId : Nat) : List Text :=
  (db.queues.filter fun _ row => row.overflowQueueId = some queueId).map Queue.externalRef

def Db.queuesHoldingAudio (db : Db) (assetId : Nat) : List Text :=
  (db.queues.filter fun _ row => row.holdAudioAssetId = some assetId).map Queue.externalRef

def Db.listFlowStructures (db : Db) (tenantId : Nat) : List Flow := db.flows.filter (·.tenantId = tenantId)

def Db.removeQueue (db : Db) (queueId : Nat) : Db where
  queues := (db.queues.remove queueId).map fun row => { row with overflowQueueId := cleared queueId row.overflowQueueId }
  assets := db.assets
  channels := db.channels.map fun c => { c with inboundQueueId := cleared queueId c.inboundQueueId }
  flows := db.flows
  liveIn := db.liveIn
  inboundQueue := by
    refine List.forall_mem_map.mpr fun c hc => (db.inboundQueue c hc).cleared fun id hne hid => ?_
    simpa [hne] using hid
  overflowQueue id row hrow := by
    obtain ⟨old, hold, rfl⟩ := Option.map_eq_some_iff.mp hrow
    have hget : db.queues.get id = some old := (if_neg (fun hid => by simp [hid] at hold)).symm.trans hold
    refine (db.overflowQueue id old hget).cleared fun id hne hid => ?_
    simpa [hne] using hid
  holdAudio id row hrow := by
    obtain ⟨old, hold, rfl⟩ := Option.map_eq_some_iff.mp hrow
    have hget : db.queues.get id = some old := (if_neg (fun hid => by simp [hid] at hold)).symm.trans hold
    exact db.holdAudio id old hget

/-- Guarded: not while a live call is in the queue. -/
def Db.deleteIfUnused (db : Db) (queueId tenantId : Nat) : Db × Bool :=
  match db.queues.get queueId with
  | some row => if row.tenantId = tenantId ∧ queueId ∉ db.liveIn then (db.removeQueue queueId, true) else (db, false)
  | none => (db, false)

def Db.removeAsset (db : Db) (assetId : Nat) : Db where
  queues := db.queues.map fun row => { row with holdAudioAssetId := cleared assetId row.holdAudioAssetId }
  assets := db.assets.remove assetId
  channels := db.channels
  flows := db.flows
  liveIn := db.liveIn
  inboundQueue c hc := (db.inboundQueue c hc).mono fun id hid => by simpa using hid
  overflowQueue id row hrow := by
    obtain ⟨old, hold, rfl⟩ := Option.map_eq_some_iff.mp hrow
    exact (db.overflowQueue id old hold).mono fun id hid => by simpa using hid
  holdAudio id row hrow := by
    obtain ⟨old, hold, rfl⟩ := Option.map_eq_some_iff.mp hrow
    refine (db.holdAudio id old hold).cleared fun id hne hid => ?_
    simpa [hne] using hid

def Db.deleteAudioAsset (db : Db) (assetId tenantId : Nat) : Db × Bool :=
  match db.assets.get assetId with
  | some row => if row.tenantId = some tenantId then (db.removeAsset assetId, true) else (db, false)
  | none => (db, false)

/-- Fails on a queue that is not there. -/
def Db.upsertChannel (db : Db) (channel : Channel) : Db × Bool :=
  if h : Refers db.queues channel.inboundQueueId then
    ({ db with
        channels := channel :: db.channels.filter fun c =>
          ¬(c.tenantId = channel.tenantId ∧ c.externalRef = channel.externalRef)
        inboundQueue := List.forall_mem_cons.mpr ⟨h, fun c hc => db.inboundQueue c (List.mem_of_mem_filter hc)⟩ }, true)
  else (db, false)

/-- The row under its key, or the next. -/
def putQueue (t : Table Queue) (queue : Queue) : Table Queue :=
  match t.findId fun row => row.tenantId = queue.tenantId ∧ row.externalRef = queue.externalRef with
  | some id => t.modify id fun _ => queue
  | none => t.insert fun _ => queue

/-- A row that is put is the new one or was there. -/
theorem get_putQueue {t : Table Queue} {queue row : Queue} {id : Nat} (h : (putQueue t queue).get id = some row) :
    row = queue ∨ t.get id = some row := by
  unfold putQueue at h
  split at h
  · rw [Table.get_modify] at h
    split at h
    · obtain ⟨_, -, hrow⟩ := Option.map_eq_some_iff.mp h
      exact .inl hrow.symm
    · exact .inr h
  · rw [Table.get_insert] at h
    split at h
    · exact .inl (Option.some.inj h).symm
    · exact .inr h

theorem isSome_putQueue {t : Table Queue} (queue : Queue) {id : Nat} (h : (t.get id).isSome) :
    ((putQueue t queue).get id).isSome := by
  unfold putQueue
  split
  · rw [Table.get_modify]
    split
    · rename_i hid
      rw [Option.isSome_map, ← hid]
      exact h
    · exact h
  · rw [Table.get_insert]
    split
    · rfl
    · exact h

/-- Fails on a queue or an asset that is not there. -/
def Db.upsertQueue (db : Db) (queue : Queue) : Db × Bool :=
  if h : Refers db.queues queue.overflowQueueId ∧ Refers db.assets queue.holdAudioAssetId then
    ({ db with
        queues := putQueue db.queues queue
        inboundQueue := fun c hc => (db.inboundQueue c hc).mono fun _ => isSome_putQueue queue
        overflowQueue := by
          intro id row hrow
          rcases get_putQueue hrow with rfl | hrow
          · exact h.1.mono fun _ => isSome_putQueue row
          · exact (db.overflowQueue id row hrow).mono fun _ => isSome_putQueue queue
        holdAudio := by
          intro id row hrow
          rcases get_putQueue hrow with rfl | hrow
          · exact h.2
          · exact db.holdAudio id row hrow }, true)
  else (db, false)

/-- Nothing checks a structure's ids. -/
def Db.upsertFlow (db : Db) (flow : Flow) : Db :=
  { db with flows := flow :: db.flows.filter fun f => ¬(f.tenantId = flow.tenantId ∧ f.externalRef = flow.externalRef) }

def Db.createAudioAsset (db : Db) (tenantId : Nat) : Db :=
  { db with
    assets := db.assets.insert fun _ => ⟨some tenantId⟩
    holdAudio := fun id row hrow => (db.holdAudio id row hrow).mono fun id hid => by
      rw [Table.get_insert]
      split
      · rfl
      · exact hid }

/-! ## Commands -/

/-- What a delete returns. -/
inductive Outcome
  | deleted
  | inUse (channels overflowQueues queues ivrFlows : List Text)
  | liveCalls
  /-- `blockedBy: null`. -/
  | gone
  | threw

inductive Cmd
  | usingInboundQueue (queueId : Nat)
  | overflowingInto (queueId : Nat)
  | queuesHoldingAudio (assetId : Nat)
  | listFlowStructures (tenantId : Nat)
  | deleteIfUnused (queueId tenantId : Nat)
  | deleteAudioAsset (assetId tenantId : Nat)
  | upsertChannel (channel : Channel)
  | upsertQueue (queue : Queue)
  | upsertFlow (flow : Flow)
  | createAudioAsset (tenantId : Nat)
  /-- Calls come and go. -/
  | calls (liveIn : List Nat)
  /-- The delete returns. -/
  | reply (outcome : Outcome)

abbrev Cmd.Res : Cmd → Type
  | usingInboundQueue _ | overflowingInto _ | queuesHoldingAudio _ => List Text
  | listFlowStructures _ => List Flow
  | deleteIfUnused _ _ | deleteAudioAsset _ _ | upsertChannel _ | upsertQueue _ => Bool
  | upsertFlow _ | createAudioAsset _ | calls _ | reply _ => Unit

def exec (c : Cmd) (db : Db) : Db × c.Res :=
  match c with
  | .usingInboundQueue queueId => (db, db.usingInboundQueue queueId)
  | .overflowingInto queueId => (db, db.overflowingInto queueId)
  | .queuesHoldingAudio assetId => (db, db.queuesHoldingAudio assetId)
  | .listFlowStructures tenantId => (db, db.listFlowStructures tenantId)
  | .deleteIfUnused queueId tenantId => db.deleteIfUnused queueId tenantId
  | .deleteAudioAsset assetId tenantId => db.deleteAudioAsset assetId tenantId
  | .upsertChannel channel => db.upsertChannel channel
  | .upsertQueue queue => db.upsertQueue queue
  | .upsertFlow flow => (db.upsertFlow flow, ())
  | .createAudioAsset tenantId => (db.createAudioAsset tenantId, ())
  | .calls liveIn => ({ db with liveIn }, ())
  | .reply _ => (db, ())

/-! ## Deletes -/

/-- `nodes.some(predicate)`, which stops at the first. -/
def someNode (predicate : Json → Option Bool) : List Json → Option Bool
  | [] => some false
  | node :: nodes => do if ← predicate node then return true else someNode predicate nodes

/-- The refs of the flows that have such a node. -/
def flowsWhere (predicate : Json → Option Bool) : List Flow → Option (List Text)
  | [] => some []
  | flow :: flows => do
    let hit ← someNode predicate (nodesOf flow.structure_)
    let refs ← flowsWhere predicate flows
    return if hit then flow.externalRef :: refs else refs

section

variable (numberText : Number → Text) (toLowerCase : Text → Text)

/-- `targetId != null && String(targetId) === String(queueId)`, and so for assets. -/
def sameId (v : Option Json) (id : Nat) : Option Bool :=
  match v with
  | none | some .null => some false
  | some v => (v.toText numberText).map fun s => s = numberText (.fin id)

def transfersToQueue (queueId : Nat) (node : Json) : Option Bool :=
  if isTransfer node then do
    let targetType ← rawTargetType numberText toLowerCase node
    if targetType = "agent".toList then return false else sameId numberText (field node "targetId") queueId
  else some false

/-- An ASCII letter's lower case: what `/i` ignores. -/
def lowerAscii (c : Char) : Char := if 'A' ≤ c ∧ c ≤ 'Z' then Char.ofNat (c.toNat + 32) else c

/-- `/audiofileid$/i`. -/
def isAudioKey (key : Text) : Bool := "audiofileid".toList.isSuffixOf (key.map lowerAscii)

def someAudio (assetId : Nat) : List (Text × Json) → Option Bool
  | [] => some false
  | (key, v) :: entries =>
    if isAudioKey key then do
      if ← sameId numberText (some v) assetId then return true else someAudio assetId entries
    else someAudio assetId entries

def playsAudio (assetId : Nat) (node : Json) : Option Bool :=
  someAudio numberText assetId (Json.orElse (node.get "data") (.object [])).entries

def deleteQueue (tenantId queueId : Nat) : Prog Cmd.Res Outcome := do
  let channels ← .cmd (.usingInboundQueue queueId)
  let overflowQueues ← .cmd (.overflowingInto queueId)
  let flows ← .cmd (.listFlowStructures tenantId)
  match flowsWhere (transfersToQueue numberText toLowerCase queueId) flows with
  | none => return .threw
  | some ivrFlows =>
    if channels ≠ [] ∨ overflowQueues ≠ [] ∨ ivrFlows ≠ [] then return .inUse channels overflowQueues [] ivrFlows
    else if ← .cmd (.deleteIfUnused queueId tenantId) then return .deleted
    else return .liveCalls

def deleteAudioAsset (tenantId assetId : Nat) : Prog Cmd.Res Outcome := do
  let queues ← .cmd (.queuesHoldingAudio assetId)
  let flows ← .cmd (.listFlowStructures tenantId)
  match flowsWhere (playsAudio numberText assetId) flows with
  | none => return .threw
  | some ivrFlows =>
    if queues ≠ [] ∨ ivrFlows ≠ [] then return .inUse [] [] queues ivrFlows
    else if ← .cmd (.deleteAudioAsset assetId tenantId) then return .deleted
    else return .gone

end

/-- What is deleted. -/
inductive Entity
  | queue (id : Nat)
  | audioAsset (id : Nat)

/-- A delete, and what it returns. -/
def delete (numberText : Number → Text) (toLowerCase : Text → Text) (tenantId : Nat) (entity : Entity) :
    Prog Cmd.Res Unit :=
  match entity with
  | .queue id => deleteQueue numberText toLowerCase tenantId id >>= fun outcome => .cmd (Cmd.reply outcome)
  | .audioAsset id => deleteAudioAsset numberText tenantId id >>= fun outcome => .cmd (Cmd.reply outcome)

end Callio.EntityDeletion
