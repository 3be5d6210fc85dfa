import Callio.Js.Json

/-! The ids in an IVR node: which queue a transfer node sends a call to
(`IvrTransferHandler.handle`), and which audio assets are played at a node
(`IvrTransferHandler._resolveAudio`, `IvrCoordinator._resolveAudio`). -/

namespace Callio.IvrTargets

open Js

/-- A flow's nodes, where they are an array. -/
def nodesOf (structure_ : Json) : List Json :=
  match structure_.get "nodes" with
  | some (.list nodes) => nodes
  | _ => []

/-- `node.data?.key`. -/
def field (node : Json) (key : String) : Option Json := (node.get "data").bind (·.get key)

def isTransfer (node : Json) : Bool :=
  match node.get "type" with
  | some (.string type) => type = "ivr_transfer".toList
  | _ => false

section

variable (numberText : Number → Text) (toLowerCase : Text → Text)

/-- `String(targetType ?? 'queue').toLowerCase()`. -/
def rawTargetType (node : Json) : Option Text :=
  ((Json.orElse (field node "targetType") (.string "queue".toList)).toText numberText).map toLowerCase

/-- `targetId ? Number(targetId) : null`. -/
def rawTargetId (node : Json) : Option (Option Number) :=
  match field node "targetId" with
  | some v => if Json.truthy (some v) then (v.toNumber numberText).map some else some none
  | none => some none

/-- The queue that `handle` looks up for a transfer of a call that waits for
`queueId`; none where the target is an agent, is missing, or throws. -/
def targetQueue (queueId : Option Nat) (node : Json) : Option Number :=
  match rawTargetType numberText toLowerCase node, rawTargetId numberText node with
  | some targetType, some targetId =>
    if targetType = "agent".toList then none
    else
      match targetId with
      | some targetId => some targetId
      | none => queueId.map fun queueId : Nat => .fin queueId
  | _, _ => none

/-- Whether a transfer of a call that waits for `queueId` resolves to the queue. -/
def resolvesToQueue (queueId : Option Nat) (node : Json) (queue : Nat) : Bool :=
  isTransfer node && (targetQueue numberText toLowerCase queueId node = some (.fin queue) : Bool)

/-- `findAudioFile(Number(audioFileId))`, for an id that is set. -/
def findsAudio (audioFileId : Option Json) (asset : Nat) : Bool :=
  match audioFileId with
  | some v => Json.truthy (some v) && (v.toNumber numberText = some (.fin asset) : Bool)
  | none => false

/-- `offlineAction !== 'queue'`. -/
def playsOffline (node : Json) : Bool :=
  match Json.orElse (field node "offlineAction") (.string "hangup".toList) with
  | .string action => action ≠ "queue".toList
  | _ => true

/-- The key that `audioFilesById[audioFileId]` reads. -/
def nodeAudioKey (node : Json) : Option Text :=
  match field node "audioFileId" with
  | none | some .null => none
  | some v => v.toText numberText

/-- Whether a call at the node can be played the asset: the node's own audio, or a
transfer's while its target is offline or busy. -/
def resolvesToAudio (node : Json) (asset : Nat) : Bool :=
  (nodeAudioKey numberText node = some (numberText (.fin asset)) : Bool) ||
    isTransfer node && (playsOffline node && findsAudio numberText (field node "offlineAudioFileId") asset ||
      findsAudio numberText (field node "busyAudioFileId") asset)

end

end Callio.IvrTargets
