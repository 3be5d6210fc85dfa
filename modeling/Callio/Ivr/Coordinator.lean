import Mathlib.Logic.Function.Basic
import Callio.Ivr.Engine

/-! The IVR sessions of a worker (`IvrCoordinator.js`): starting and stopping one, its listeners
on the event bus, and what it remembers of a call. Only what lies between two awaits
happens at once. -/

namespace Callio.IvrCoordinator

open Ivr

/-- `removeListener`: the last of several. -/
def off {α : Type} [DecidableEq α] (listeners : List α) (listener : α) : List α := (listeners.reverse.erase listener).reverse

/-- A listener of `call:terminated`. A run of `startSession` has two of its own. -/
inductive Listener
  /-- The constructor's: it clears the latch. -/
  | clearLatch
  | earlyGuard (run : Nat)
  | termination (run : Nat)
  deriving DecidableEq

/-- What `_sessions` holds for a call. -/
inductive Entry
  | pending
  | session (run : Nat)
  deriving DecidableEq

/-- A call of `startSession`. -/
structure Run (ι : Type) where
  callId : Nat
  /-- The node that a worker that died was at. -/
  resume : Option ι := none
  /-- `call:terminated` was heard during the setup. -/
  terminated : Bool := false
  engine : Option (Flow ι × Engine ι) := none

structure State (ι : Type) where
  sessions : Nat → Option Entry := fun _ => none
  completedCallIds : Nat → Bool := fun _ => false
  /-- The listeners of `call:terminated`, in their order. -/
  onTerminated : List Listener := [.clearLatch]
  /-- The runs whose `completeHandler` listens on `call:ivr_complete`. -/
  onComplete : List Nat := []
  runs : Nat → Run ι := fun _ => { callId := 0 }
  /-- How many runs there were. -/
  started : Nat := 0
  settingUp : List Nat := []
  /-- The calls whose transfer is being worked on and has not decided yet. -/
  transfers : List Nat := []
  /-- The calls whose session is being stopped. -/
  stops : List Nat := []

variable {ι : Type} [DecidableEq ι]

namespace State

variable (st : State ι)

def setRun (run : Nat) (f : Run ι → Run ι) : State ι := { st with runs := Function.update st.runs run (f (st.runs run)) }

def setEngine (run : Nat) (flow : Flow ι) (engine : Engine ι) : State ι :=
  st.setRun run fun r => { r with engine := some (flow, engine) }

def callOf (run : Nat) : Nat := (st.runs run).callId

end State

/-! ## Stopping -/

def stopEngine (run : Nat) (st : State ι) : State ι :=
  match (st.runs run).engine with
  | some (flow, engine) => st.setEngine run flow engine.stop
  | none => st

/-- `stopSession`, until it waits. -/
def stopSession (callId : Nat) (st : State ι) : State ι :=
  match st.sessions callId with
  | some (.session run) =>
    let st := { st with
      completedCallIds := Function.update st.completedCallIds callId true
      onComplete := off st.onComplete run
      onTerminated := off st.onTerminated (.termination run)
      stops := st.stops ++ [callId] }
    stopEngine run st
  | _ => st

/-- Its rest. -/
def stopSettled (callId : Nat) (st : State ι) : State ι :=
  { st with stops := st.stops.erase callId, sessions := Function.update st.sessions callId none }

/-! ## Completing -/

/-- `_onComplete`, until it waits. -/
def onComplete (callId : Nat) (action : Action ι) (st : State ι) : State ι :=
  match action with
  | .transferred _ => { st with transfers := st.transfers ++ [callId] }
  | _ => stopSession callId st

/-- A `completeHandler`. -/
def heardComplete (callId : Nat) (action : Action ι) (st : State ι) (run : Nat) : State ι :=
  if st.callOf run = callId then onComplete callId action { st with onComplete := off st.onComplete run } else st

/-- `call:ivr_complete`. -/
def ivrComplete (callId : Nat) (action : Action ι) (st : State ι) : State ι :=
  st.onComplete.foldl (heardComplete callId action) st

/-- The action with which an engine completed on its way. -/
def completedIn (before after : Engine ι) : Option (Action ι) :=
  (after.log.drop before.log.length).findSome? fun
    | .completed action => some action
    | _ => none

/-- An engine moves on, and is heard if it completes. -/
def engineMoved (run : Nat) (flow : Flow ι) (before after : Engine ι) (st : State ι) : State ι :=
  let st := st.setEngine run flow after
  match completedIn before after with
  | some action => ivrComplete (st.callOf run) action st
  | none => st

/-! ## Starting -/

/-- `startSession`, until it waits. -/
def startSession (callId : Nat) (resume : Option ι) (st : State ι) : State ι :=
  if (st.sessions callId).isSome || st.completedCallIds callId then st
  else { st with
    sessions := Function.update st.sessions callId (some .pending)
    onTerminated := st.onTerminated ++ [.earlyGuard st.started]
    runs := Function.update st.runs st.started { callId, resume }
    started := st.started + 1
    settingUp := st.settingUp ++ [st.started] }

/-- How the setup goes on. -/
inductive SetUp (ι : Type)
  /-- There is no such flow, or a step throws. -/
  | failed
  | ready (flow : Flow ι)

/-- The `finally` of a setup that established no session. -/
def released (run : Nat) (st : State ι) : State ι :=
  { st with
    onTerminated := off st.onTerminated (.earlyGuard run)
    sessions := Function.update st.sessions (st.callOf run) none }

/-- A new engine sets out. -/
def begun (flow : Flow ι) : Option ι → Engine ι
  | some nodeId => (Engine.startAt flow {} nodeId).1
  | none => (Engine.start flow {}).1

/-- The session is there, with its two handlers. -/
def registered (run : Nat) (st : State ι) : State ι :=
  { st with
    sessions := Function.update st.sessions (st.callOf run) (some (.session run))
    onComplete := st.onComplete ++ [run]
    onTerminated := st.onTerminated ++ [.termination run] }

/-- Its engine starts; the setup is over. -/
def established (run : Nat) (flow : Flow ι) (st : State ι) : State ι :=
  let st := engineMoved run flow {} (begun flow (st.runs run).resume) (registered run st)
  { st with onTerminated := off st.onTerminated (.earlyGuard run) }

def setUp (run : Nat) (outcome : SetUp ι) (st : State ι) : State ι :=
  let st := { st with settingUp := st.settingUp.erase run }
  match outcome with
  | .failed => released run st
  | .ready flow =>
    if (st.runs run).terminated then released run (st.setEngine run flow (Engine.stop {}))
    else established run flow st

/-! ## Terminating -/

/-- A listener of `call:terminated`, until it waits. -/
def heardTerminated (callId : Nat) (st : State ι) : Listener → State ι
  | .clearLatch => { st with completedCallIds := Function.update st.completedCallIds callId false }
  | .earlyGuard run => if st.callOf run = callId then st.setRun run fun r => { r with terminated := true } else st
  | .termination run =>
    if st.callOf run = callId then
      stopSession callId { st with
        onTerminated := off st.onTerminated (.termination run)
        onComplete := off st.onComplete run }
    else st

/-! ## Replaying -/

/-- `_replay`; a `restart` that throws has done what it did. -/
def replay (callId : Nat) (st : State ι) : State ι :=
  match st.sessions callId with
  | some (.session run) =>
    let st := { st with onComplete := st.onComplete ++ [run] }
    match (st.runs run).engine with
    | some (flow, engine) =>
      engineMoved run flow engine (engine.restart flow).1 st
    | none => st
  | _ => st

/-! ## Suspending -/

def suspend (st : State ι) (run : Nat) : State ι :=
  if st.sessions (st.callOf run) = some (.session run) then
    stopEngine run { st with
      onComplete := off st.onComplete run
      onTerminated := off st.onTerminated (.termination run) }
  else st

def suspendAll (st : State ι) : State ι :=
  { (List.range st.started).foldl suspend st with sessions := fun _ => none }

/-! ## Steps -/

inductive Event (ι : Type)
  | startSession (callId : Nat) (resume : Option ι)
  | setUp (run : Nat) (outcome : SetUp ι)
  /-- Something comes at a run's engine. -/
  | engine (run : Nat) (event : Ivr.Event)
  /-- `call:terminated`, with its listeners in this order. -/
  | terminated (callId : Nat) (order : List Listener)
  /-- A transfer stops the session. -/
  | transferStops (callId : Nat)
  | transferReplays (callId : Nat)
  /-- A transfer throws before it does either. -/
  | transferFails (callId : Nat)
  | stopSettles (callId : Nat)
  | suspendAll

variable [Truthy ι]

/-- What waits for nothing does not go on. -/
def step (st : State ι) : Event ι → State ι
  | .startSession callId resume => startSession callId resume st
  | .setUp run outcome => if run ∈ st.settingUp then setUp run outcome st else st
  | .engine run event =>
    match (st.runs run).engine with
    | some (flow, engine) => engineMoved run flow engine (engine.step flow event) st
    | none => st
  | .terminated callId order => order.foldl (heardTerminated callId) st
  | .transferStops callId =>
    if callId ∈ st.transfers then stopSession callId { st with transfers := st.transfers.erase callId } else st
  | .transferReplays callId =>
    if callId ∈ st.transfers then replay callId { st with transfers := st.transfers.erase callId } else st
  | .transferFails callId => { st with transfers := st.transfers.erase callId }
  | .stopSettles callId => if callId ∈ st.stops then stopSettled callId st else st
  | .suspendAll => suspendAll st

def run (events : List (Event ι)) : State ι := events.foldl step {}

end Callio.IvrCoordinator
