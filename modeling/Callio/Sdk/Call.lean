import Callio.Sdk.Leg

/-! One call in the agent SDK (`Call.js`): its chains of awaited calls, and the user's
actions, server events and media events between them. What is only sent on (muting,
transfers, our own ICE candidates) and other listeners are left out. -/

namespace Callio.Sdk

/-- Who asked for a new leg. -/
inductive Origin
  | switchHere | mediaFailed | pageReload
  deriving DecidableEq, Repr

/-- The `async` function a continuation belongs to. -/
inductive Routine
  | accept | start | reconnect (origin : Origin) | onReconnected (offer : Bool) | onStarted | onServerCandidate
  deriving DecidableEq, Repr

/-- A continuation, with its own `pc`. -/
structure Task where
  routine : Routine
  pc : Nat
  await : Await
  deriving DecidableEq, Repr

structure Call where
  leg : Leg
  mic : Mic := {}
  isDirect : Bool := false
  /-- `data.sdpOffer`. -/
  hasOffer : Bool := false
  /-- Callio's ICE candidates that wait. -/
  pendingRemote : Nat := 0
  reconnects : Nat := 0
  recovering : Bool := false
  awaitingReconnect : Bool := false
  customerAnswered : Bool := false
  mediaConnected : Bool := false
  tasks : List Task := []
  deriving DecidableEq, Repr

namespace Call

def maxReconnects : Nat := 1

def send (c : Call) (message : Message) : Call := { c with leg := c.leg.send message }

def setState (c : Call) (next : Status) : Call := { c with leg := c.leg.setState next }

/-- Goes on when the awaited call settles. -/
def awaits (c : Call) (t : Task) : Call := { c with tasks := c.tasks ++ [t] }

/-- `_end`. -/
def end_ (c : Call) (reason : EndReason) : Call :=
  if c.leg.state = .ended then c else { c with leg := c.leg.end_ reason, mic := c.mic.release }

/-! ## Media -/

/-- Adding a track to a closed peer connection throws. -/
def addTracks (c : Call) (routine : Routine) (pc : Nat) : Call :=
  c.awaits ⟨routine, pc, .attached ((c.leg.peer pc).closed && c.mic.tracks ≠ [])⟩

/-- `_attachMicrophone`; `stream`: the user's. -/
def attachMicrophone (c : Call) (routine : Routine) (pc : Nat) (stream : Option (List Bool)) : Call :=
  if c.mic.missing then
    match stream with
    | some tracks => { c with mic := { c.mic with ownsLocalStream := false }.take ⟨false, tracks⟩ }.addTracks routine pc
    | none => { c with mic := { c.mic with ownsLocalStream := true } }.awaits ⟨routine, pc, .microphone⟩
  else c.addTracks routine pc

/-- `_attachMicrophone` behind `_getMicrophone()`. -/
def acquire (c : Call) (t : Task) (tracks : Nat) : Call :=
  { c with mic := c.mic.take ⟨true, List.replicate tracks true⟩ }.addTracks t.routine t.pc

/-- `_newPeer`. -/
def newPeer (c : Call) (keepRemoteCandidates : Bool) : Call :=
  { c with leg := c.leg.newPeer, pendingRemote := if keepRemoteCandidates then c.pendingRemote else 0 }

def closePeer (c : Call) : Call := { c with leg := c.leg.closePeer }

/-- `_flushRemote`, with so many candidates to go. -/
def flushRemote (c : Call) (routine : Routine) (pc left : Nat) : Call :=
  match left, c.leg.pc with
  | 0, _ => c.awaits ⟨routine, pc, .flushed false⟩
  | _ + 1, none => c.awaits ⟨routine, pc, .flushed true⟩
  | left + 1, some _ => c.awaits ⟨routine, pc, .candidate left⟩

/-! ## Agent actions -/

def hangup (c : Call) : Call :=
  if c.leg.state = .ended then c
  else (c.send (if c.leg.state = .dialing then .cancel else .terminate false)).end_ .hangup

def decline (c : Call) : Call :=
  if c.leg.state = .ringing then (c.send .reject).end_ .declined else c

/-- `_setState('connecting')`; a listener may hang up when it is told. -/
def connecting (c : Call) (hangsUp : Bool) : Call :=
  if c.leg.state = .connecting ∨ c.leg.state = .ended ∨ hangsUp = false then c.setState .connecting
  else (c.setState .connecting).hangup

def accept (c : Call) (stream : Option (List Bool)) (hangsUp : Bool) : Call :=
  if c.leg.state = .ringing ∧ c.hasOffer then
    let c := c.connecting hangsUp
    (c.newPeer true).attachMicrophone .accept c.leg.peers.length stream
  else c

/-- `_reconnect`. -/
def reconnect (c : Call) (origin : Origin) (stream : Option (List Bool)) (hangsUp : Bool) : Call :=
  let c := { c with recovering := true }.connecting hangsUp
  (c.newPeer false).attachMicrophone (.reconnect origin) c.leg.peers.length stream

def switchHere (c : Call) (stream : Option (List Bool)) (hangsUp : Bool) : Call :=
  if c.leg.state = .elsewhere then c.reconnect .switchHere stream hangsUp else c

/-- `_mediaFailed`. -/
def mediaFailed (c : Call) (hangsUp : Bool) : Call :=
  if c.leg.state = .ended ∨ c.leg.state = .elsewhere ∨ c.recovering then c
  else if maxReconnects ≤ c.reconnects then (c.send (.terminate true)).end_ .mediaFailed
  else { c with reconnects := c.reconnects + 1 }.reconnect .mediaFailed none hangsUp

/-! ## Continuations -/

/-- An awaited call of the routine threw. -/
def throws (c : Call) (t : Task) : Call :=
  match t.routine with
  | .accept => c.end_ .acceptFailed
  | .reconnect .switchHere => { c with recovering := false }
  | .reconnect _ => { c with recovering := false }.awaits { t with await := .rejected }
  | _ => c

def afterAttached (c : Call) (t : Task) : Call :=
  match t.routine with
  | .accept => c.awaits { t with await := .setRemote }
  | .start => c.awaits { t with await := .createOffer }
  | .reconnect _ =>
    let c := { c with awaitingReconnect := true }
    if c.isDirect then { c.send .reconnect with recovering := false } else c.awaits { t with await := .createOffer }
  | _ => c

def afterFlushed (c : Call) (t : Task) : Call :=
  match t.routine, c.leg.pc with
  | .accept, _ => c.awaits { t with await := .createAnswer }
  | .onReconnected true, some pc => c.awaits ⟨t.routine, pc, .createAnswer⟩
  | _, _ => c

def afterSetLocal (c : Call) (t : Task) : Call :=
  match t.routine with
  | .accept => c.send .accept
  | .start => c.send .start
  | .reconnect _ => { c.send .reconnect with recovering := false }
  | .onReconnected _ =>
    match c.leg.pc with
    | some pc => if (c.leg.peer pc).localDescription then c.send .reconnectAnswer else c
    | none => c
  | _ => c

/-- What a continuation does; `result`: rejected, or resolved, with a stream of so
many tracks where it is one. -/
def resume (c : Call) (t : Task) (result : Option Nat) : Call :=
  match t.await, result with
  | .microphone, some tracks => c.acquire t tracks
  | .microphone, none => c.awaits { t with await := .attached true }
  | .attached false, _ => c.afterAttached t
  | .attached true, _ => c.throws t
  | .setRemote, some _ =>
    let n := c.pendingRemote
    { c with
      leg := c.leg.changePeer t.pc fun peer => { peer with remoteDescription := true }
      pendingRemote := 0 }.flushRemote t.routine t.pc n
  | .candidate left, _ => if t.routine = .onServerCandidate then c else c.flushRemote t.routine t.pc left
  | .flushed false, _ => c.afterFlushed t
  | .flushed true, _ => c.throws t
  | .createOffer, some _ | .createAnswer, some _ => c.awaits { t with await := .setLocal }
  | .setLocal, some _ =>
    { c with leg := c.leg.changePeer t.pc fun peer => { peer with localDescription := true } }.afterSetLocal t
  | .setRemote, none | .createOffer, none | .createAnswer, none | .setLocal, none => c.throws t
  | .rejected, _ => c.end_ .mediaFailed

/-! ## Server and media events -/

def onReconnected (c : Call) (offer : Bool) : Call :=
  match c.awaitingReconnect, c.leg.pc with
  | true, some pc => { c with awaitingReconnect := false }.awaits ⟨.onReconnected offer, pc, .setRemote⟩
  | _, _ => c

def onStarted (c : Call) (answer : Bool) : Call :=
  match c.leg.pc with
  | some pc => if answer ∧ ¬(c.leg.peer pc).remoteDescription then c.awaits ⟨.onStarted, pc, .setRemote⟩ else c
  | none => c

def onServerCandidate (c : Call) : Call :=
  match c.leg.pc with
  | some pc =>
    if (c.leg.peer pc).remoteDescription then c.awaits ⟨.onServerCandidate, pc, .candidate 0⟩
    else { c with pendingRemote := c.pendingRemote + 1 }
  | none => { c with pendingRemote := c.pendingRemote + 1 }

def customerAnsweredNow (c : Call) : Call :=
  let c := { c with customerAnswered := true }
  if c.leg.state = .dialing ∧ c.mediaConnected then c.setState .active else c

def superseded (c : Call) : Call := c.closePeer.setState .elsewhere

/-- `onconnectionstatechange` of the peer connection it has. -/
def connected (c : Call) : Call :=
  let c := { c with leg := { c.leg with timer := none }, reconnects := 0 }
  let c := if c.leg.state = .connecting ∨ (c.leg.state = .dialing ∧ c.customerAnswered) then c.setState .active else c
  { c with mediaConnected := true }

inductive Connection
  | connected | failed | other
  deriving DecidableEq, Repr

def connectionChanges (c : Call) (pc : Nat) (now : Connection) (hangsUp : Bool) : Call :=
  let c := { c with leg := c.leg.changePeer pc fun peer => { peer with connected := now = .connected } }
  if c.leg.pc = some pc then
    match now with
    | .connected => c.connected
    | .failed => c.mediaFailed hangsUp
    | .other => c
  else c

/-- The connect timer fires. -/
def timeout (c : Call) (hangsUp : Bool) : Call :=
  match c.leg.timer with
  | some pc =>
    let c := { c with leg := { c.leg with timer := none } }
    if c.leg.pc = some pc ∧ ¬(c.leg.peer pc).connected then c.mediaFailed hangsUp else c
  | none => c

inductive Event
  | accept (stream : Option (List Bool)) (hangsUp : Bool)
  | decline
  | hangup
  | switchHere (stream : Option (List Bool)) (hangsUp : Bool)
  /-- `agent.close()`. -/
  | close
  /-- An offer's payload, or a newer one. -/
  | update (isDirect hasOffer : Bool)
  /-- The server ends it, or only its offer. -/
  | ends (reason : EndReason)
  | endsRinging (reason : EndReason)
  | superseded
  | reconnected (offer : Bool)
  | started (answer : Bool)
  | serverCandidate
  | customerAnswered
  | connection (pc : Nat) (now : Connection) (hangsUp : Bool)
  | timeout (hangsUp : Bool)
  | trackEnds (stream track : Nat)
  /-- What task `k` awaits settles. -/
  | settles (k : Nat) (result : Option Nat)
  deriving DecidableEq, Repr

def step (c : Call) (e : Event) : Call :=
  match e with
  | .accept stream hangsUp => c.accept stream hangsUp
  | .decline => c.decline
  | .hangup => c.hangup
  | .switchHere stream hangsUp => c.switchHere stream hangsUp
  | .close => c.closePeer
  | .update isDirect hasOffer => { c with isDirect, hasOffer }
  | .ends reason => c.end_ reason
  | .endsRinging reason => if c.leg.state = .ringing then c.end_ reason else c
  | .superseded => c.superseded
  | .reconnected offer => c.onReconnected offer
  | .started answer => c.onStarted answer
  | .serverCandidate => c.onServerCandidate
  | .customerAnswered => c.customerAnsweredNow
  | .connection pc now hangsUp => c.connectionChanges pc now hangsUp
  | .timeout hangsUp => c.timeout hangsUp
  | .trackEnds stream track => { c with mic := c.mic.trackEnds stream track }
  | .settles k result =>
    match c.tasks[k]? with
    | some t => { c with tasks := c.tasks.eraseIdx k }.resume t result
    | none => c

/-! ## Beginnings -/

/-- How the SDK makes a call: offered, started by `startOutbound`, on another device,
or this device's without its media. -/
inductive Begin
  | ringing (isDirect hasOffer : Bool)
  | dialing (stream : Option (List Bool))
  | elsewhere (isDirect : Bool)
  | pageReload (isDirect : Bool)

def begin (b : Begin) : Call :=
  match b with
  | .ringing isDirect hasOffer => { leg := { state := .ringing }, isDirect, hasOffer }
  | .dialing stream => (({ leg := { state := .dialing } } : Call).newPeer false).attachMicrophone .start 0 stream
  | .elsewhere isDirect => { leg := { state := .elsewhere }, isDirect }
  | .pageReload isDirect => { leg := { state := .connecting }, isDirect : Call }.reconnect .pageReload none false

end Call

end Callio.Sdk
