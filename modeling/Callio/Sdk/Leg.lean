import Mathlib.Tactic.Common
import Mathlib.Data.List.Basic

/-! What `Call.js` and `Monitor.js` of the agent SDK have in common: the state and the
peer connection of a leg, what it emits and sends, and its microphone. Of the browser
they rely on this: a closed peer connection takes no track, and what is asked of it
does not succeed. -/

namespace Callio.Sdk

/-! ## The leg -/

/-- `call.state`, `monitor.state`. -/
inductive Status
  | ringing | dialing | connecting | active | elsewhere | ended
  deriving DecidableEq, Repr

inductive EndReason
  | acceptFailed | declined | hangup | mediaFailed | withdrawn | terminated | stopped | failed
  deriving DecidableEq, Repr

/-- What is sent to Callio. -/
inductive Message
  | accept | reject | cancel | terminate (systemFailed : Bool) | start | reconnect | reconnectAnswer
  | monitor | monitorMode | monitorStop | monitorAnswer
  deriving DecidableEq, Repr

inductive Output
  | state (next previous : Status)
  | ended (reason : EndReason)
  | send (message : Message)
  deriving DecidableEq, Repr

/-- An `RTCPeerConnection`. -/
structure Peer where
  closed : Bool := false
  connected : Bool := false
  remoteDescription : Bool := false
  localDescription : Bool := false
  deriving DecidableEq, Repr

structure Leg where
  state : Status
  /-- Every peer connection it made, oldest first; `pc` is the one it has. -/
  peers : List Peer := []
  pc : Option Nat := none
  /-- The peer connection whose connect timer runs. -/
  timer : Option Nat := none
  /-- Newest first. -/
  log : List Output := []
  deriving DecidableEq, Repr

namespace Leg

def send (leg : Leg) (message : Message) : Leg := { leg with log := .send message :: leg.log }

/-- `_setState`. -/
def setState (leg : Leg) (next : Status) : Leg :=
  if leg.state = next ∨ leg.state = .ended then leg
  else { leg with state := next, log := .state next leg.state :: leg.log }

def changePeer (leg : Leg) (p : Nat) (f : Peer → Peer) : Leg := { leg with peers := leg.peers.modify p f }

def peer (leg : Leg) (p : Nat) : Peer := leg.peers.getD p { closed := true }

/-- `_closePeer`: the timer is cleared too. -/
def closePeer (leg : Leg) : Leg :=
  match leg.pc with
  | some p => { leg.changePeer p (fun peer => { peer with closed := true }) with pc := none, timer := none }
  | none => { leg with timer := none }

/-- A new peer connection, with its timer. -/
def newPeer (leg : Leg) : Leg :=
  let leg := leg.closePeer
  { leg with peers := leg.peers ++ [{}], pc := some leg.peers.length, timer := some leg.peers.length }

/-- `_end`, as far as the leg goes. -/
def end_ (leg : Leg) (reason : EndReason) : Leg :=
  if leg.state = .ended then leg
  else
    let leg := leg.closePeer
    { leg with state := .ended, log := .ended reason :: .state .ended leg.state :: leg.log }

end Leg

/-! ## The microphone -/

/-- A `MediaStream`: whether each of its tracks is live. -/
structure Stream where
  /-- From `_getMicrophone`, not from the user. -/
  own : Bool
  tracks : List Bool
  deriving DecidableEq, Repr

def Stream.stopped (stream : Stream) : Bool := stream.tracks.all (! ·)

/-- Every `track.stop()`. -/
def Stream.stop (stream : Stream) : Stream := { stream with tracks := stream.tracks.map fun _ => false }

structure Mic where
  /-- Every stream it was given, oldest first; `localStream` is the one it has. -/
  streams : List Stream := []
  localStream : Option Nat := none
  ownsLocalStream : Bool := false
  deriving DecidableEq, Repr

namespace Mic

/-- `!localStream || every track 'ended'`. -/
def missing (mic : Mic) : Bool :=
  match mic.localStream with
  | none => true
  | some i => (mic.streams[i]?.map Stream.stopped).getD true

/-- The tracks to send. -/
def tracks (mic : Mic) : List Bool := (mic.localStream.bind fun i => mic.streams[i]?.map Stream.tracks).getD []

def take (mic : Mic) (stream : Stream) : Mic :=
  { mic with streams := mic.streams ++ [stream], localStream := some mic.streams.length }

/-- What `_end` does: only a stream of its own is stopped. -/
def release (mic : Mic) : Mic :=
  match mic.ownsLocalStream, mic.localStream with
  | true, some i => { mic with streams := mic.streams.modify i Stream.stop }
  | _, _ => mic

/-- A device is unplugged, or the user stops a track. -/
def trackEnds (mic : Mic) (i k : Nat) : Mic :=
  { mic with streams := mic.streams.modify i fun stream => { stream with tracks := stream.tracks.set k false } }

end Mic

/-! ## Awaited calls -/

/-- What a continuation waits for. -/
inductive Await
  /-- `_getMicrophone()`. -/
  | microphone
  /-- `_attachMicrophone` itself, which may have thrown. -/
  | attached (thrown : Bool)
  | setRemote | setLocal | createOffer | createAnswer
  /-- `addIceCandidate(..).catch(..)`, with so many candidates to go. -/
  | candidate (left : Nat)
  /-- `_flushRemote` itself. -/
  | flushed (thrown : Bool)
  /-- An error on its way to the caller. -/
  | rejected
  deriving DecidableEq, Repr

/-- Calls that succeed on an open peer connection only. -/
def Await.onPeer : Await → Bool
  | setRemote | setLocal | createOffer | createAnswer => true
  | _ => false

end Callio.Sdk
