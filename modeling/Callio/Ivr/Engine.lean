import Mathlib.Data.List.Nodup
import Mathlib.Logic.Function.Iterate
import Mathlib.Order.Basic

/-! One caller's way through an IVR flow (`core/ivr/IvrEngine.js`). Prompts, timers and key
presses come back as events in any order; each is answered over the engine's fields alone. -/

namespace Callio.Ivr

/-! ## The flow -/

/-- What `!id` tests: an id may be anything the flow's JSON holds. -/
class Truthy (α : Type) where
  truthy : α → Bool

instance : Truthy String := ⟨fun text => text != ""⟩
instance : Truthy Nat := ⟨fun number => number != 0⟩

inductive NodeType
  | start | menu | play | transfer | hangup | other
  deriving DecidableEq, Repr

structure NodeData (ι : Type) where
  label : Option String := none
  timeoutSeconds : Option Nat := none
  noInputAction : Option String := none
  /-- The routes older flows keep in the node itself. -/
  dtmfMap : List (String × ι) := []
  /-- What a transfer passes on unread. -/
  rest : List (String × String) := []
  deriving DecidableEq, Repr

structure Node (ι : Type) where
  id : ι
  type : NodeType
  data : NodeData ι := {}
  deriving DecidableEq, Repr

/-- `sourceHandle` is the handle's text, as `String(…)` gives it. -/
structure Edge (ι : Type) where
  source : ι
  sourceHandle : String := "undefined"
  target : ι
  deriving DecidableEq, Repr

/-- What the engine is built from. -/
structure Flow (ι : Type) where
  nodes : List (Node ι)
  edges : List (Edge ι)
  defaultTimeout : Option Nat := none
  errorAudio : Option String := none
  audioPathMap : List (ι × String) := []

variable {ι : Type} [DecidableEq ι] [Truthy ι]

/-- `Map.set`: a later node of the same id takes the earlier one's place. -/
def setNode (map : List (Node ι)) (node : Node ι) : List (Node ι) :=
  if map.any (·.id = node.id) then map.map fun old => if old.id = node.id then node else old
  else map ++ [node]

def indexNodes (nodes : List (Node ι)) : List (Node ι) := nodes.foldl setNode []

section Index

omit [Truthy ι]

theorem setNode_nodup {map : List (Node ι)} (h : (map.map (·.id)).Nodup) (node : Node ι) :
    ((setNode map node).map (·.id)).Nodup := by
  unfold setNode
  split
  · have hids : (map.map fun old => if old.id = node.id then node else old).map (·.id) =
        map.map (·.id) := by
      rw [List.map_map]
      apply List.map_congr_left
      intro old _
      by_cases hid : old.id = node.id <;> simp [hid]
    rwa [hids]
  · rename_i hnew
    have hfresh : ∀ old ∈ map, old.id ≠ node.id := by simpa using hnew
    rw [List.map_append, List.map_singleton]
    apply List.nodup_append.mpr
    refine ⟨h, List.nodup_singleton _, fun id hid id' hid' => ?_⟩
    obtain ⟨old, hold, rfl⟩ := List.mem_map.mp hid
    rw [List.mem_singleton.mp hid']
    exact hfresh old hold

/-- One node for each id. -/
theorem indexNodes_nodup (nodes : List (Node ι)) : ((indexNodes nodes).map (·.id)).Nodup := by
  have hfold : ∀ map : List (Node ι), (map.map (·.id)).Nodup →
      ((nodes.foldl setNode map).map (·.id)).Nodup := by
    induction nodes with
    | nil => exact fun _ h => h
    | cons node nodes ih => exact fun map h => ih _ (setNode_nodup h node)
  exact hfold [] List.nodup_nil

end Index

namespace Flow

def index (flow : Flow ι) : List (Node ι) := indexNodes flow.nodes

def getNode (flow : Flow ι) (nodeId : ι) : Option (Node ι) := flow.index.find? (·.id = nodeId)

def findNodeByType (flow : Flow ι) (type : NodeType) : Option (Node ι) :=
  flow.index.find? (·.type = type)

omit [Truthy ι] in
theorem getNode_id {flow : Flow ι} {nodeId : ι} {node : Node ι}
    (h : flow.getNode nodeId = some node) : node.id = nodeId := by
  simpa using List.find?_some h

omit [Truthy ι] in
/-- A node found by its type is the one its id names. -/
theorem getNode_of_findNodeByType {flow : Flow ι} {type : NodeType} {node : Node ι}
    (h : flow.findNodeByType type = some node) :
    node.type = type ∧ flow.getNode node.id = some node := by
  have hmem := List.mem_of_find?_eq_some h
  refine ⟨by simpa using List.find?_some h, ?_⟩
  cases hget : flow.getNode node.id with
  | none =>
    have hnot := List.find?_eq_none.mp hget node hmem
    simp at hnot
  | some other =>
    have hother := List.mem_of_find?_eq_some hget
    rw [List.inj_on_of_nodup_map (indexNodes_nodup flow.nodes) hother hmem (getNode_id hget)]

/-- The first edge that leaves a node. -/
def edgeFrom (flow : Flow ι) (nodeId : ι) : Option (Edge ι) := flow.edges.find? (·.source = nodeId)

/-- The edge a new run of the flow begins with. -/
def startEdge (flow : Flow ι) : Option (Edge ι) :=
  (flow.findNodeByType .start).bind fun startNode => flow.edgeFrom startNode.id

def audioPath (flow : Flow ι) (nodeId : ι) : Option String :=
  (flow.audioPathMap.lookup nodeId).filter (· != "")

def errorPath (flow : Flow ι) : Option String := flow.errorAudio.filter (· != "")

def defaultTimeoutMs (flow : Flow ι) : Nat := flow.defaultTimeout.getD 10 * 1000

def timeoutMs (flow : Flow ι) (node : Node ι) : Nat :=
  let ms := node.data.timeoutSeconds.getD 0 * 1000
  if ms = 0 then flow.defaultTimeoutMs else ms

end Flow

/-! ## The engine -/

/-- Whose audio a player plays, with the node its callbacks close over. -/
inductive Prompt (ι : Type)
  | menu (node : Node ι)
  | play (node : Node ι)
  | error
  deriving DecidableEq, Repr

inductive Timer (ι : Type)
  | noInput (node : Node ι) (ms : Nat)
  | grace (node : Node ι)
  deriving DecidableEq, Repr

inductive Action (ι : Type)
  | transferred (transferData : NodeData ι)
  | hungUp
  | timeout
  | error
  deriving DecidableEq, Repr

inductive RouteMethod
  | edge | legacyMap
  deriving DecidableEq, Repr

/-- What the engine lets out, in order. -/
inductive Output (ι : Type)
  /-- `call:ivr_node` and `onNodeEntered`. -/
  | entered (node : Node ι)
  | played (player : Nat) (audioPath : String)
  | stoppedPlayer (player : Nat)
  | dtmfReceived (digit : String) (node : Node ι)
  | routeSelected (digit : String) (source : Node ι) (route : Option (RouteMethod × ι))
  | recordedInput (digit : String) (nodeId : ι)
  /-- `call:ivr_complete`. -/
  | completed (action : Action ι)
  | stopped
  deriving DecidableEq, Repr

/-- The engine's fields, its subscriptions on the bus and the callbacks still to come. -/
structure Engine (ι : Type) where
  currentNodeId : Option ι := none
  currentMenuNode : Option (Node ι) := none
  player : Option Nat := none
  timer : Option Nat := none
  stopped : Bool := false
  replayCount : Nat := 0
  /-- Whether `_dtmfHandler` still holds the handler. -/
  dtmfHandler : Bool := true
  /-- How many times the handler is on `call:dtmf`. -/
  subscriptions : Nat := 0
  /-- The players made so far, and the ones whose `play` has not settled. -/
  players : Nat := 0
  plays : List (Nat × Prompt ι) := []
  timersSet : Nat := 0
  timers : List (Nat × Timer ι) := []
  log : List (Output ι) := []
  deriving DecidableEq, Repr

namespace Engine

def emit (engine : Engine ι) (output : Output ι) : Engine ι :=
  { engine with log := engine.log ++ [output] }

/-- `player.play(audioPath)` of a player made now. -/
def play (engine : Engine ι) (prompt : Prompt ι) (audioPath : String) : Engine ι :=
  { engine with
    players := engine.players + 1
    plays := engine.plays ++ [(engine.players, prompt)]
    log := engine.log ++ [.played engine.players audioPath] }

def setTimer (engine : Engine ι) (timer : Timer ι) : Engine ι :=
  { engine with
    timersSet := engine.timersSet + 1
    timers := engine.timers ++ [(engine.timersSet, timer)]
    timer := some engine.timersSet }

/-- A play that settled: its callbacks run once. -/
def withoutPlay (engine : Engine ι) (player : Nat) : Engine ι :=
  { engine with plays := engine.plays.filter (·.1 ≠ player) }

/-- A timer that fired or was cleared. -/
def withoutTimer (engine : Engine ι) (timer : Nat) : Engine ι :=
  { engine with timers := engine.timers.filter (·.1 ≠ timer) }

/-- `EventBus.on('call:dtmf', …)`: a handler that is there already is there once more. -/
def listen (engine : Engine ι) : Engine ι := { engine with subscriptions := engine.subscriptions + 1 }

def clearPlayer (engine : Engine ι) : Engine ι :=
  match engine.player with
  | none => engine
  | some player => { engine.emit (.stoppedPlayer player) with player := none }

def clearTimer (engine : Engine ι) : Engine ι :=
  match engine.timer with
  | none => engine
  | some timer => { engine.withoutTimer timer with timer := none }

/-- `EventBus.off` takes one of the handler's subscriptions. -/
def removeDtmfListener (engine : Engine ι) : Engine ι :=
  if engine.dtmfHandler then
    { engine with subscriptions := engine.subscriptions - 1, dtmfHandler := false }
  else engine

/-- What every way out does first. -/
def cleared (engine : Engine ι) : Engine ι := engine.clearPlayer.clearTimer.removeDtmfListener

def complete (engine : Engine ι) (action : Action ι) : Engine ι :=
  if engine.stopped then engine
  else ({ engine with stopped := true } : Engine ι).cleared.emit (.completed action)

def stop (engine : Engine ι) : Engine ι :=
  if engine.stopped then engine
  else ({ engine with stopped := true } : Engine ι).cleared.emit .stopped

def playErrorAndHangup (flow : Flow ι) (engine : Engine ι) : Engine ι :=
  match flow.errorPath with
  | none => engine.cleared.complete .hungUp
  | some errorPath => engine.cleared.play .error errorPath

section Lemmas

omit [DecidableEq ι] [Truthy ι]

variable (engine : Engine ι)

/-- What clearing the player lets out. -/
def stopsPlayer : List (Output ι) := engine.player.toList.map .stoppedPlayer

@[simp] theorem clearPlayer_player : engine.clearPlayer.player = none := by
  unfold clearPlayer
  split
  · assumption
  · rfl

/-- Only the player goes, with its `stop`. -/
theorem clearPlayer_eq : engine.clearPlayer =
    { engine with player := none, log := engine.log ++ engine.stopsPlayer } := by
  obtain ⟨_, _, player, _, _, _, _, _, _, _, _, _, _⟩ := engine
  cases player with
  | none => simp [clearPlayer, stopsPlayer]
  | some player => rfl

/-- Only the timer goes, and its callback with it. -/
theorem clearTimer_eq : engine.clearTimer =
    { engine with timer := none, timers := engine.timers.filter fun x => engine.timer ≠ some x.1 } := by
  obtain ⟨_, _, _, timer, _, _, _, _, _, _, _, _, _⟩ := engine
  cases timer with
  | none => simp [clearTimer]
  | some timer => simp [clearTimer, withoutTimer, eq_comm]

theorem removeDtmfListener_eq : engine.removeDtmfListener =
    { engine with subscriptions := engine.subscriptions - engine.dtmfHandler.toNat, dtmfHandler := false } := by
  obtain ⟨_, _, _, _, _, _, handler, _, _, _, _, _, _⟩ := engine
  cases handler <;> simp [removeDtmfListener]

theorem cleared_eq : engine.cleared =
    { engine with
      player := none
      timer := none
      timers := engine.timers.filter fun x => engine.timer ≠ some x.1
      subscriptions := engine.subscriptions - engine.dtmfHandler.toNat
      dtmfHandler := false
      log := engine.log ++ engine.stopsPlayer } := by
  rw [cleared, removeDtmfListener_eq, clearTimer_eq, clearPlayer_eq]

theorem complete_of_stopped (action : Action ι) (h : engine.stopped = true) :
    engine.complete action = engine := if_pos h

theorem complete_of_live (action : Action ι) (h : engine.stopped = false) :
    engine.complete action =
      ({ engine with stopped := true } : Engine ι).cleared.emit (.completed action) := by
  rw [complete, if_neg (by simp [h])]

end Lemmas

/-! ### Navigation -/

def enterMenu (flow : Flow ι) (engine : Engine ι) (node : Node ι) : Engine ι :=
  match flow.audioPath node.id with
  | none => engine.playErrorAndHangup flow
  | some audioPath =>
    ({ engine with currentMenuNode := some node, player := some engine.players } : Engine ι).play
      (.menu node) audioPath

def enterPlay (flow : Flow ι) (engine : Engine ι) (node : Node ι) : Engine ι :=
  match flow.audioPath node.id with
  | none => engine.playErrorAndHangup flow
  | some audioPath =>
    ({ engine with player := some engine.players } : Engine ι).play (.play node) audioPath

/-- The engine's fields once it is in the node. -/
def enter (engine : Engine ι) (node : Node ι) : Engine ι :=
  let engine := engine.clearPlayer.clearTimer
  { engine with
    currentMenuNode := none
    replayCount := if engine.currentNodeId = some node.id then engine.replayCount else 0
    currentNodeId := some node.id
    log := engine.log ++ [.entered node] }

/-- What the node's type makes of it. -/
def act (flow : Flow ι) (engine : Engine ι) (node : Node ι) : Engine ι :=
  match node.type with
  | .menu => engine.enterMenu flow node
  | .play => engine.enterPlay flow node
  | .transfer => engine.complete (.transferred node.data)
  | .hangup => engine.complete .hungUp
  | .start | .other => engine.complete .error

def navigateTo (flow : Flow ι) (engine : Engine ι) (nodeId : ι) : Engine ι :=
  if engine.stopped then engine
  else
    match flow.getNode nodeId with
    | none => engine.complete .error
    | some node => (engine.enter node).act flow node

/-! ### Digits -/

/-- Where a digit leads: the node's edge, else its older map where that names a node. -/
def route (flow : Flow ι) (node : Node ι) (digit : String) : Option (RouteMethod × ι) :=
  let edge := flow.edges.find? fun e => e.source = node.id ∧ e.sourceHandle = digit
  match (edge.map (·.target)).filter Truthy.truthy with
  | some target => some (.edge, target)
  | none =>
    match (node.data.dtmfMap.lookup digit).filter Truthy.truthy with
    | none => none
    | some legacyTargetId =>
      if (flow.getNode legacyTargetId).isSome then some (.legacyMap, legacyTargetId) else none

def onDtmf (flow : Flow ι) (engine : Engine ι) (node : Node ι) (digit : String) : Engine ι :=
  if engine.stopped then engine
  else
    let engine := engine.emit (.dtmfReceived digit node)
    match route flow node digit with
    | none => engine.emit (.routeSelected digit node none)
    | some (method, targetNodeId) =>
      ((engine.emit (.routeSelected digit node (some (method, targetNodeId)))).emit
        (.recordedInput digit node.id)).navigateTo flow targetNodeId

/-- The engine's handler of `call:dtmf`. -/
def onBusDigit (flow : Flow ι) (engine : Engine ι) (digit : String) : Engine ι :=
  match engine.currentMenuNode with
  | none => engine
  | some node => if engine.stopped then engine else engine.onDtmf flow node digit

/-! ### Timeouts -/

def executeTimeout (flow : Flow ι) (engine : Engine ι) (node : Node ι) : Engine ι :=
  if engine.stopped then engine
  else if node.data.noInputAction.getD "replay" = "replay" then
    let engine := { engine with replayCount := engine.replayCount + 1 }
    if engine.replayCount > 3 then engine.complete .hungUp else engine.navigateTo flow node.id
  else
    let engine := { engine with replayCount := 0 }
    match flow.findNodeByType .hangup with
    | some hangupNode => engine.navigateTo flow hangupNode.id
    | none => engine.complete .timeout

/-- A timer's callback. -/
def timedOut (flow : Flow ι) (engine : Engine ι) : Timer ι → Engine ι
  | .noInput node _ => if engine.stopped then engine else engine.setTimer (.grace node)
  | .grace node => ({ engine with timer := none } : Engine ι).executeTimeout flow node

/-! ### Prompts -/

inductive Outcome
  | finished | failed
  deriving DecidableEq, Repr

/-- The engine goes on from a play node. -/
def playedOut (flow : Flow ι) (engine : Engine ι) (node : Node ι) : Engine ι :=
  match flow.edgeFrom node.id with
  | some nextEdge => engine.navigateTo flow nextEdge.target
  | none => engine.complete .hungUp

/-- The callbacks of a `play`. Only a menu's `then` asks whether its player is still the one. -/
def settled (flow : Flow ι) (engine : Engine ι) (player : Nat) : Prompt ι → Outcome → Engine ι
  | .menu node, .finished =>
    if engine.stopped then engine
    else if engine.player ≠ some player then engine
    else ({ engine with player := none } : Engine ι).setTimer (.noInput node (flow.timeoutMs node))
  | .play node, .finished => if engine.stopped then engine else engine.playedOut flow node
  | .menu _, .failed | .play _, .failed =>
    if engine.stopped then engine else engine.playErrorAndHangup flow
  | .error, _ => if engine.stopped then engine else engine.complete .hungUp

/-! ### Lifecycle -/

/-- `start`, and whether it threw: the bus takes no listener that is not a function. -/
def start (flow : Flow ι) (engine : Engine ι) : Engine ι × Bool :=
  match flow.startEdge with
  | none => (engine.complete .error, false)
  | some firstEdge =>
    if engine.dtmfHandler then
      (engine.listen.navigateTo flow firstEdge.target, false)
    else (engine, true)

def startAt (flow : Flow ι) (engine : Engine ι) (nodeId : ι) : Engine ι × Bool :=
  if (flow.getNode nodeId).isNone then engine.start flow
  else
    let engine := { engine with stopped := false }
    if engine.dtmfHandler then
      (engine.listen.navigateTo flow nodeId, false)
    else (engine, true)

def restart (flow : Flow ι) (engine : Engine ι) : Engine ι × Bool :=
  ({ engine with stopped := false, currentNodeId := none, replayCount := 0 } : Engine ι).start flow

end Engine

/-! ## Runs -/

inductive Event
  | settle (player : Nat) (outcome : Engine.Outcome)
  | digit (digit : String)
  | fire (timer : Nat)
  | stop
  deriving DecidableEq, Repr

namespace Engine

/-- A play settles and a timer fires once at most; a cleared timer never does. A digit is
heard once for each subscription there was. -/
def step (flow : Flow ι) (engine : Engine ι) : Event → Engine ι
  | .settle player outcome =>
    match engine.plays.lookup player with
    | none => engine
    | some prompt => (engine.withoutPlay player).settled flow player prompt outcome
  | .digit digit => (fun engine => engine.onBusDigit flow digit)^[engine.subscriptions] engine
  | .fire timer =>
    match engine.timers.lookup timer with
    | none => engine
    | some callback => (engine.withoutTimer timer).timedOut flow callback
  | .stop => engine.stop

def run (flow : Flow ι) (engine : Engine ι) (events : List Event) : Engine ι :=
  events.foldl (step flow) engine

end Engine

/-- How a new engine sets out: at the flow's start, or where a worker that died had it. -/
inductive Begin (ι : Type)
  | start
  | startAt (nodeId : ι)
  deriving DecidableEq, Repr

def Begin.engine (flow : Flow ι) : Begin ι → Engine ι
  | .start => (Engine.start flow {}).1
  | .startAt nodeId => (Engine.startAt flow {} nodeId).1

/-- A new engine after these events. -/
def ran (flow : Flow ι) (origin : Begin ι) (events : List Event) : Engine ι :=
  (origin.engine flow).run flow events

end Callio.Ivr
