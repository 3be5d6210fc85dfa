import Callio.Sdk.Leg

/-! A supervisor listening to a call in the agent SDK (`Monitor.js`, `CallioAgent.monitor`).
Muting and our own ICE candidates are left out. -/

namespace Callio.Sdk

/-- The `async` function a continuation belongs to. -/
inductive MonitorRoutine
  | start | onOffer | onStarted | onServerCandidate
  deriving DecidableEq, Repr

structure MonitorTask where
  routine : MonitorRoutine
  await : Await
  deriving DecidableEq, Repr

structure Monitor where
  leg : Leg := { state := .connecting }
  mic : Mic := {}
  direct : Bool := false
  /-- The peer connection's handlers are set. -/
  listens : Bool := false
  pendingRemote : Nat := 0
  tasks : List MonitorTask := []
  deriving DecidableEq, Repr

namespace Monitor

/-- Its only peer connection. -/
def onlyPeer : Nat := 0

def send (m : Monitor) (message : Message) : Monitor := { m with leg := m.leg.send message }

/-- Goes on when the awaited call settles. -/
def awaits (m : Monitor) (routine : MonitorRoutine) (await : Await) : Monitor :=
  { m with tasks := m.tasks ++ [⟨routine, await⟩] }

/-- `_end`. -/
def end_ (m : Monitor) (reason : EndReason) : Monitor :=
  if m.leg.state = .ended then m else { m with leg := m.leg.end_ reason, mic := m.mic.release }

def stop (m : Monitor) : Monitor := if m.leg.state = .ended then m else (m.send .monitorStop).end_ .stopped

def setMode (m : Monitor) : Monitor := if m.leg.state = .ended then m else m.send .monitorMode

/-! ## The line -/

/-- The handlers and the connect timer. -/
def listen (m : Monitor) : Monitor := { m with leg := { m.leg with timer := some onlyPeer }, listens := true }

/-- `_start` behind the microphone: adding it to a closed peer connection throws. -/
def addLine (m : Monitor) : Monitor :=
  if (m.leg.peer onlyPeer).closed then m.awaits .start .rejected else m.listen.awaits .start .createOffer

/-- `_start`; `stream`: the user's. -/
def start (direct : Bool) (stream : Option (List Bool)) : Monitor :=
  let m : Monitor := { leg := { state := .connecting, peers := [{}], pc := some onlyPeer }, direct }
  if direct then m.listen.send .monitor
  else
    match stream with
    | some tracks => { m with mic := m.mic.take ⟨false, tracks⟩ }.addLine
    | none => { m with mic := { m.mic with ownsLocalStream := true } }.awaits .start .microphone

/-- `_start` when the microphone arrives. -/
def acquire (m : Monitor) (tracks : Nat) : Monitor :=
  { m with mic := m.mic.take ⟨true, List.replicate tracks true⟩ }.addLine

/-! ## Continuations -/

/-- An awaited call of the routine threw; `monitor` ends what `_start` could not begin. -/
def throws (m : Monitor) (routine : MonitorRoutine) : Monitor :=
  if routine = .start then m.awaits .start .rejected else m

/-- Behind the candidates that waited. -/
def afterCandidates (m : Monitor) (routine : MonitorRoutine) : Monitor :=
  if routine = .onOffer ∧ m.leg.pc.isSome then m.awaits routine .createAnswer else m

def addCandidates (m : Monitor) (routine : MonitorRoutine) (left : Nat) : Monitor :=
  match left, m.leg.pc with
  | 0, _ => m.afterCandidates routine
  | _ + 1, none => m.throws routine
  | left + 1, some _ => m.awaits routine (.candidate left)

def afterSetLocal (m : Monitor) (routine : MonitorRoutine) : Monitor :=
  match routine with
  | .start => m.send .monitor
  | .onOffer => if m.leg.pc.isSome then m.send .monitorAnswer else m
  | _ => m

def changePeer (m : Monitor) (f : Peer → Peer) : Monitor := { m with leg := m.leg.changePeer onlyPeer f }

/-- What a continuation does; `result`: rejected, or resolved, with a stream of so
many tracks where it is one. -/
def resume (m : Monitor) (t : MonitorTask) (result : Option Nat) : Monitor :=
  match t.await, result with
  | .microphone, some tracks => m.acquire tracks
  | .microphone, none => m.throws t.routine
  | .setRemote, some _ =>
    let n := m.pendingRemote
    { m.changePeer (fun peer => { peer with remoteDescription := true }) with pendingRemote := 0 }.addCandidates t.routine n
  | .candidate left, _ => if t.routine = .onServerCandidate then m else m.addCandidates t.routine left
  | .createOffer, some _ | .createAnswer, some _ => m.awaits t.routine .setLocal
  | .setLocal, some _ =>
    (m.changePeer fun peer => { peer with localDescription := true }).afterSetLocal t.routine
  | .setRemote, none | .createOffer, none | .createAnswer, none | .setLocal, none => m.throws t.routine
  | .rejected, _ => m.end_ .failed
  | .attached _, _ | .flushed _, _ => m

/-! ## Server and media events -/

/-- `_onOffer` and `_onStarted`, with a description. -/
def describe (m : Monitor) (routine : MonitorRoutine) : Monitor :=
  if m.leg.pc.isSome ∧ ¬(m.leg.peer onlyPeer).remoteDescription then m.awaits routine .setRemote else m

def onServerCandidate (m : Monitor) : Monitor :=
  if m.leg.pc.isSome ∧ (m.leg.peer onlyPeer).remoteDescription then m.awaits .onServerCandidate (.candidate 0)
  else { m with pendingRemote := m.pendingRemote + 1 }

/-- `onconnectionstatechange`, when connected or failed. -/
def connectionChanges (m : Monitor) (connected : Bool) : Monitor :=
  if m.listens ∧ m.leg.pc.isSome then
    if connected then { m with leg := { m.leg with timer := none }.setState .active } else m.stop
  else m

/-- The connect timer fires. -/
def timeout (m : Monitor) : Monitor :=
  match m.leg.timer with
  | some _ =>
    let m := { m with leg := { m.leg with timer := none } }
    if m.leg.state = .connecting then m.stop else m
  | none => m

inductive Event
  | stop
  | setMode
  /-- The server ends it, the call ends, or the connection is lost. -/
  | ends (reason : EndReason)
  | offer
  | started
  | serverCandidate
  | connection (connected : Bool)
  | timeout
  | trackEnds (stream track : Nat)
  /-- What task `k` awaits settles. -/
  | settles (k : Nat) (result : Option Nat)
  deriving DecidableEq, Repr

def step (m : Monitor) (e : Event) : Monitor :=
  match e with
  | .stop => m.stop
  | .setMode => m.setMode
  | .ends reason => m.end_ reason
  | .offer => m.describe .onOffer
  | .started => m.describe .onStarted
  | .serverCandidate => m.onServerCandidate
  | .connection connected => m.connectionChanges connected
  | .timeout => m.timeout
  | .trackEnds stream track => { m with mic := m.mic.trackEnds stream track }
  | .settles k result =>
    match m.tasks[k]? with
    | some t => { m with tasks := m.tasks.eraseIdx k }.resume t result
    | none => m

end Monitor

end Callio.Sdk
