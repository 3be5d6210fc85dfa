import Callio.Concurrency.Fallible
import Callio.Media.Rooms

/-! `RoomMedia` at the level of its media commands: what each operation creates, moves and
destroys on FreeSWITCH and rtpengine, where any command may fail, what it saves of the room
(`RoomSnapshot`) and how another worker takes it over (`adopt`). -/

namespace Callio.RoomMedia

open Concurrency
open Rooms (Kind Mode)

/-! ## The media server -/

/-- `callio.<bootId>.<callId>.<kind><seq>` -/
structure RtpKey where
  worker : Nat
  kind : Kind
  seq : Nat
  deriving DecidableEq, Repr

inductive Sound
  /-- Hold music, or the reconnect tone where there is none. -/
  | hold (audio : Option String)
  | tone
  deriving DecidableEq, Repr

def Sound.isHold : Sound → Bool
  | .hold _ => true
  | .tone => false

/-- FreeSWITCH's endpoints and conference members, and rtpengine's legs. -/
structure Server where
  endpoints : List Nat := []
  nextEndpoint : Nat := 0
  rtp : List RtpKey := []
  /-- The endpoint behind a conference member. -/
  member : Nat → Option Nat := fun _ => none
  nextMember : Nat := 0
  /-- What was played to a member and not stopped. -/
  playing : Nat → List Sound := fun _ => []
  /-- How often an endpoint or a leg was to go that was not there, or no longer. -/
  strays : Nat := 0

namespace Server

def createEndpoint (server : Server) : Server × Nat :=
  ({ server with
      endpoints := server.endpoints ++ [server.nextEndpoint]
      nextEndpoint := server.nextEndpoint + 1 }, server.nextEndpoint)

/-- Its member leaves the conference with it. -/
def destroyEndpoint (server : Server) (ep : Nat) : Server :=
  { server with
    endpoints := server.endpoints.filter (· ≠ ep)
    member := fun memberId => (server.member memberId).filter (· ≠ ep)
    playing := fun memberId => if server.member memberId = some ep then [] else server.playing memberId
    strays := if ep ∈ server.endpoints then server.strays else server.strays + 1 }

def offerRtp (server : Server) (key : RtpKey) : Server :=
  if key ∈ server.rtp then server else { server with rtp := server.rtp ++ [key] }

def deleteRtp (server : Server) (key : RtpKey) : Server :=
  { server with
    rtp := server.rtp.filter (· ≠ key)
    strays := if key ∈ server.rtp then server.strays else server.strays + 1 }

def join (server : Server) (ep : Nat) : Server × Nat :=
  ({ server with
      member := Function.update server.member server.nextMember (some ep)
      nextMember := server.nextMember + 1 }, server.nextMember)

def play (server : Server) (memberId : Nat) (sound : Sound) : Server :=
  if (server.member memberId).isSome then
    { server with
      playing := Function.update server.playing memberId (server.playing memberId ++ [sound]) }
  else server

def stopAll (server : Server) (memberId : Nat) : Server :=
  { server with playing := Function.update server.playing memberId [] }

end Server

/-! ## The room -/

inductive Transport
  | webrtc | rtp
  deriving DecidableEq, Repr

structure Leg where
  kind : Kind
  ep : Nat
  rtpKey : RtpKey
  transport : Transport
  memberId : Option Nat := none
  answered : Bool
  agentId : Option Nat := none
  listening : Bool := false
  deriving DecidableEq, Repr

/-- A JavaScript `Map` of legs by id, in the order of insertion. -/
abbrev Legs := List (Nat × Leg)

namespace Legs

def get (legs : Legs) (id : Nat) : Option Leg := legs.lookup id

def delete (legs : Legs) (id : Nat) : Legs := legs.filter (·.1 ≠ id)

/-- The entry under the id keeps its place. -/
def set (legs : Legs) (id : Nat) (leg : Leg) : Legs :=
  if (legs.get id).isSome then legs.map fun entry => if entry.1 = id then (id, leg) else entry
  else legs ++ [(id, leg)]

def ids (legs : Legs) : List Nat := legs.map (·.1)

def values (legs : Legs) : List Leg := legs.map (·.2)

/-- The ids an operation names: the one given, or all. -/
def named (legs : Legs) : Option Nat → List Nat
  | some id => [id]
  | none => legs.ids

end Legs

structure Room where
  /-- The worker whose conference it is. -/
  name : Nat
  customer : Option Leg := none
  pendingAgent : Option Leg := none
  agents : Legs := []
  supervisors : Legs := []
  pendingSupervisors : Legs := []
  mode : Mode := .listen
  agentPrivate : Bool := false
  bridged : Bool := false
  toneOn : Bool := false
  holdOn : Bool := false
  recording : Option Nat := none
  /-- The rtpengine leg the customer's monitor watches. -/
  monitor : Option RtpKey := none
  legSeq : Nat := 0
  deriving DecidableEq, Repr

namespace Room

def customerId (room : Room) : Option Nat := room.customer.bind (·.memberId)

def legs (room : Room) : List Leg :=
  room.customer.toList ++ room.pendingAgent.toList ++ room.agents.values ++
    room.supervisors.values ++ room.pendingSupervisors.values

/-- `hasLegs` of `RoomSnapshot`. -/
def hasLegs (room : Room) : Bool :=
  room.customer.isSome || room.pendingAgent.isSome || !room.agents.isEmpty ||
    !room.supervisors.isEmpty

end Room

/-! ## The snapshot -/

structure Snapshot where
  name : Nat
  legSeq : Nat
  mode : Mode
  agentPrivate : Bool
  bridged : Bool
  toneOn : Bool
  holdOn : Bool
  customer : Option Leg
  pendingAgent : Option Leg
  agents : List Leg
  supervisors : Legs
  recording : Option Nat
  deriving DecidableEq, Repr

def snapshotOf (room : Room) : Snapshot where
  name := room.name
  legSeq := room.legSeq
  mode := room.mode
  agentPrivate := room.agentPrivate
  bridged := room.bridged
  toneOn := room.toneOn
  holdOn := room.holdOn
  customer := room.customer
  pendingAgent := room.pendingAgent
  agents := room.agents.values
  supervisors := room.supervisors
  recording := room.recording

/-! ## Operations

An operation runs on a room object; the map may hold another one by then, or none. -/

inductive Held
  | this | other | nothing
  deriving DecidableEq, Repr

structure World where
  worker : Nat
  room : Room
  held : Held
  server : Server
  saved : Option Snapshot

abbrev Code := Fallible World

/-- A command to the media server. -/
def send (effect : Server → Server) : Code Unit :=
  Fallible.command fun w => ({ w with server := effect w.server }, ())

/-- One that answers with what it made. -/
def make (effect : Server → Server × Nat) : Code Nat :=
  Fallible.command fun w => ({ w with server := (effect w.server).1 }, (effect w.server).2)

/-- A command none of whose effects is kept here. -/
def api : Code Unit := send id

def theRoom : Code Room := Fallible.read (·.room)

def modify (f : Room → Room) : Code Unit := Fallible.change fun w => { w with room := f w.room }

/-! ### Internals -/

/-- `_key` -/
def key (kind : Kind) : Code RtpKey := do
  modify fun room => { room with legSeq := room.legSeq + 1 }
  let room ← theRoom
  let worker ← Fallible.read (·.worker)
  return ⟨worker, kind, room.legSeq⟩

/-- `rtpLegs.delete`, which logs its failure. -/
def deleteRtp (rtpKey : RtpKey) : Code Unit := Fallible.caught (send (·.deleteRtp rtpKey))

def legFromOffer (kind : Kind) (transport : Transport) : Code Leg := do
  let rtpKey ← key kind
  Fallible.onFailure (do
    send (·.offerRtp rtpKey)
    let ep ← make (·.createEndpoint)
    api
    return { kind, ep, rtpKey, transport, answered := true }) (deleteRtp rtpKey)

def legOffer (kind : Kind) (transport : Transport) : Code Leg := do
  let rtpKey ← key kind
  Fallible.onFailure (do
    let ep ← make (·.createEndpoint)
    send (·.offerRtp rtpKey)
    return { kind, ep, rtpKey, transport, answered := false }) (deleteRtp rtpKey)

/-- `_applyAnswer`: `remoteAnswer`, then `modify`. -/
def applyAnswer (leg : Leg) : Code Leg := do
  api
  api
  return { leg with answered := true }

def destroyLeg : Option Leg → Code Unit
  | none => return ()
  | some leg => do
    Fallible.caught (send (·.destroyEndpoint leg.ep))
    deleteRtp leg.rtpKey

def destroyLegs : List Leg → Code Unit
  | [] => return ()
  | leg :: legs => do
    destroyLeg (some leg)
    destroyLegs legs

/-- `_join`; the variable set afterwards may fail. -/
def join (leg : Leg) : Code Leg :=
  match leg.memberId with
  | some _ => return leg
  | none => do
    let memberId ← make (·.join leg.ep)
    Fallible.caught api
    return { leg with memberId := some memberId }

/-- `_armCustomer` of a leg made here; an adopted one's digits are detected already. -/
def armCustomer (leg : Leg) (made : Bool) : Code Unit := do
  modify fun room => { room with customer := some { leg with listening := false } }
  if made then Fallible.caught api

/-- `_watchCustomer` -/
def watchCustomer : Code Unit :=
  modify fun room =>
    if room.monitor.isSome then room else { room with monitor := room.customer.map (·.rtpKey) }

/-- `_rules` for one supervisor: muted or not, and related to the customer's member. -/
def supervisorRule (cust : Option Nat) (leg : Leg) : Code Unit :=
  match leg.memberId with
  | none => return ()
  | some _ => do
    api
    if cust.isSome then api

/-- `_rules` for one agent. -/
def agentRule (leg : Leg) : Code Unit :=
  match leg.memberId with
  | none => return ()
  | some _ => api

def forLegs (rule : Leg → Code Unit) : List Leg → Code Unit
  | [] => return ()
  | leg :: legs => do
    rule leg
    forLegs rule legs

def rulesFor (room : Room) : Code Unit := do
  forLegs (supervisorRule room.customerId) room.supervisors.values
  if room.customerId.isSome then forLegs agentRule room.agents.values

/-- `_rules` -/
def rules : Code Unit := do rulesFor (← theRoom)

def soundTo (cust : Nat) (on : Bool) (sound : Sound) : Code Unit :=
  if on then send (·.play cust sound) else send (·.stopAll cust)

/-- `_tone` -/
def tone (on : Bool) : Code Unit := do
  let room ← theRoom
  match room.customerId with
  | none => return ()
  | some cust =>
    if room.toneOn = on then return ()
    else
      modify fun room => { room with toneOn := on }
      soundTo cust on .tone

/-- `_hold` -/
def hold (on : Bool) (audio : Option String) : Code Unit := do
  let room ← theRoom
  match room.customerId with
  | none => return ()
  | some cust =>
    if room.holdOn = on then return ()
    else
      modify fun room => { room with holdOn := on }
      soundTo cust on (.hold audio)

/-- `_break` of the customer's leg -/
def breakCustomer : Code Unit := do
  let room ← theRoom
  if room.customer.isSome then Fallible.caught api

def joinCustomer : Code Unit := do
  let room ← theRoom
  match room.customer with
  | none => return ()
  | some leg => do
    let leg ← join leg
    modify fun room => { room with customer := some leg }

/-- The agents' legs join one after the other, each in its place. -/
def joinAgents : List Nat → Code Unit
  | [] => return ()
  | agentId :: ids => do
    let room ← theRoom
    match room.agents.get agentId with
    | none => joinAgents ids
    | some leg => do
      let leg ← join leg
      modify fun room => { room with agents := room.agents.set agentId leg }
      joinAgents ids

/-- The supervisor's leg, if there is one, goes before another takes its place. -/
def dropPreviousSupervisor (supervisorId : Nat) : Code Unit := do
  let room ← theRoom
  match room.supervisors.get supervisorId with
  | none => return ()
  | some previous => do
    modify fun room => { room with supervisors := room.supervisors.delete supervisorId }
    destroyLeg (some previous)

def dropPreviousAgent (agentId : Nat) : Code Unit := do
  let room ← theRoom
  match room.agents.get agentId with
  | none => return ()
  | some previous => do
    modify fun room => { room with agents := room.agents.delete agentId }
    destroyLeg (some previous)

def removeAgents : List Nat → Code Unit
  | [] => return ()
  | agentId :: ids => do
    dropPreviousAgent agentId
    removeAgents ids

def removeSupervisors : List Nat → Code Unit
  | [] => return ()
  | supervisorId :: ids => do
    dropPreviousSupervisor supervisorId
    removeSupervisors ids

/-! ### The customer's leg -/

def answerCustomer (transport : Transport) : Code Unit := do
  destroyLeg (← theRoom).customer
  let leg ← legFromOffer .customer transport
  armCustomer leg true
  watchCustomer

def offerCustomer (transport : Transport) : Code Unit := do
  destroyLeg (← theRoom).customer
  let leg ← legOffer .customer transport
  armCustomer leg true

def customerAnswered : Code Unit := do
  match (← theRoom).customer with
  | none => throw ()
  | some leg => do
    let leg ← applyAnswer leg
    modify fun room => { room with customer := some leg }
    watchCustomer

/-! ### The agents' legs -/

def offerAgent : Code Unit := do
  destroyLeg (← theRoom).pendingAgent
  modify fun room => { room with pendingAgent := none }
  let leg ← legOffer .agent .webrtc
  modify fun room => { room with pendingAgent := some leg }

/-- The answer is applied and the agent's audio arrives, or the leg is given up. -/
def answeredAgentLeg (leg : Leg) : Code Leg :=
  Fallible.onFailure (do
    let leg ← applyAnswer leg
    api
    return leg) (destroyLeg (some leg))

def agentAccepted (agentId : Nat) : Code Unit := do
  match (← theRoom).pendingAgent with
  | none => throw ()
  | some leg => do
    modify fun room => { room with pendingAgent := none }
    let leg ← answeredAgentLeg leg
    destroyLeg ((← theRoom).agents.get agentId)
    modify fun room => { room with agents := room.agents.set agentId { leg with agentId } }

def answerAgent (agentId : Nat) : Code Unit := do
  dropPreviousAgent agentId
  let leg ← legFromOffer .agent .webrtc
  modify fun room => { room with agents := room.agents.set agentId { leg with agentId } }

def dropAgent (agentId : Option Nat) : Code Unit := do
  let room ← theRoom
  removeAgents (room.agents.named agentId)
  let room ← theRoom
  if room.agents.isEmpty then
    modify fun room => { room with agentPrivate := false }
    tone true

/-! ### The room -/

def enterIfOut : Code Unit := do
  if (← theRoom).customerId.isNone then
    breakCustomer
    joinCustomer

/-- `recorded`: what the recorder makes of it, which never throws. -/
def bridge (recorded : Option Nat) : Code Bool := do
  let room ← theRoom
  if (room.customer.any (·.answered)) = false ∨ room.agents.isEmpty then return false
  else
    enterIfOut
    hold false none
    joinAgents room.agents.ids
    tone false
    rules
    modify fun room =>
      { room with bridged := true, recording := if room.bridged then room.recording else recorded }
    return true

/-! ### Supervisors -/

/-- A supervisor's leg joins muted, in listen mode where no other is in the room. -/
def joinSupervisor (supervisorId : Nat) (leg : Leg) : Code Unit := do
  modify fun room => if room.supervisors.isEmpty then { room with mode := .listen } else room
  let leg ← join leg
  modify fun room => { room with supervisors := room.supervisors.set supervisorId leg }
  rules

def addSupervisor (supervisorId : Nat) : Code Unit := do
  dropPreviousSupervisor supervisorId
  let leg ← legFromOffer .supervisor .webrtc
  joinSupervisor supervisorId leg

def offerSupervisor (supervisorId : Nat) : Code Unit := do
  destroyLeg ((← theRoom).pendingSupervisors.get supervisorId)
  let leg ← legOffer .supervisor .webrtc
  modify fun room =>
    { room with pendingSupervisors := room.pendingSupervisors.set supervisorId leg }

def supervisorAnswered (supervisorId : Nat) : Code Unit := do
  match (← theRoom).pendingSupervisors.get supervisorId with
  | none => throw ()
  | some leg => do
    modify fun room =>
      { room with pendingSupervisors := room.pendingSupervisors.delete supervisorId }
    let leg ← applyAnswer leg
    dropPreviousSupervisor supervisorId
    joinSupervisor supervisorId leg

/-- Whether it ended a private reply. -/
def setSupervisorMode (mode : Mode) : Code Bool := do
  let room ← theRoom
  let endedPrivate := room.agentPrivate && mode ≠ .whisper
  modify fun room => { room with mode, agentPrivate := room.agentPrivate && !endedPrivate }
  rules
  return endedPrivate

def setAgentPrivate (active : Bool) : Code Bool := do
  let room ← theRoom
  let allowed := room.mode = .whisper ∧ room.supervisors.isEmpty = false
  modify fun room => { room with agentPrivate := active && decide allowed }
  rules
  return (← theRoom).agentPrivate

/-- Whether it ended a private reply. -/
def removeSupervisor (supervisorId : Option Nat) : Code Bool := do
  let room ← theRoom
  removeSupervisors (room.supervisors.named supervisorId)
  let wasPrivate := (← theRoom).agentPrivate
  modify fun room =>
    if room.supervisors.isEmpty then { room with agentPrivate := false, mode := .listen } else room
  rules
  return wasPrivate && !(← theRoom).agentPrivate

/-! ### What the customer hears -/

def startHold (audio : Option String) : Code Unit := do
  let room ← theRoom
  if room.customer.isNone ∨ room.agents.isEmpty = false then return ()
  else
    breakCustomer
    joinCustomer
    hold true audio

def stopHold : Code Unit := hold false none

/-! ### Lifecycle -/

def close : Code Unit := do
  let held ← Fallible.read (·.held)
  if held = .nothing then return ()
  else
    Fallible.change fun w => { w with held := .nothing }
    destroyLegs (← theRoom).legs
    Fallible.change fun w => { w with saved := none }

/-- `legOf`: the leg as a worker that takes it over drives it. -/
def adoptLeg (leg : Leg) : Code Leg := do
  api
  return leg

def adoptAgents : List Leg → Code Unit
  | [] => return ()
  | saved :: rest => do
    let leg ← adoptLeg saved
    modify fun room => { room with agents := room.agents.set (leg.agentId.getD 0) leg }
    adoptAgents rest

def adoptSupervisors : Legs → Code Unit
  | [] => return ()
  | (supervisorId, saved) :: rest => do
    let leg ← adoptLeg saved
    modify fun room => { room with supervisors := room.supervisors.set supervisorId leg }
    adoptSupervisors rest

def adoptCustomer : Option Leg → Code Unit
  | none => return ()
  | some saved => do
    let leg ← adoptLeg saved
    armCustomer leg false
    modify fun room => { room with customer := some { leg with listening := saved.listening } }

def adoptPendingAgent : Option Leg → Code Unit
  | none => modify fun room => { room with pendingAgent := none }
  | some saved => do
    let leg ← adoptLeg saved
    modify fun room => { room with pendingAgent := some leg }

/-- The room's legs, as the snapshot has them. -/
def adoptLegs (snap : Snapshot) : Code Unit := do
  adoptCustomer snap.customer
  adoptPendingAgent snap.pendingAgent
  adoptAgents snap.agents
  adoptSupervisors snap.supervisors
  modify fun room => { room with recording := snap.recording.or room.recording }
  watchCustomer

def adopt : Code Bool := do
  let room ← theRoom
  if room.customer.isSome ∨ room.agents.isEmpty = false ∨ room.supervisors.isEmpty = false then
    return true
  else
    match ← Fallible.read (·.saved) with
    | none => do
      Fallible.change fun w => { w with held := .nothing }
      return false
    | some snap => do
      modify fun room =>
        { room with
          name := snap.name
          legSeq := snap.legSeq
          mode := snap.mode
          agentPrivate := snap.agentPrivate
          bridged := snap.bridged
          toneOn := snap.toneOn
          holdOn := snap.holdOn }
      adoptLegs snap
      return true

/-! ## The operations of the port -/

inductive Operation
  | answerCustomer (transport : Transport)
  | offerCustomer (transport : Transport)
  | customerAnswered
  | offerAgent
  | agentAccepted (agentId : Nat)
  | answerAgent (agentId : Nat)
  | dropAgent (agentId : Option Nat)
  | bridge (recorded : Option Nat)
  | addSupervisor (supervisorId : Nat)
  | offerSupervisor (supervisorId : Nat)
  | supervisorAnswered (supervisorId : Nat)
  | setSupervisorMode (mode : Mode)
  | setAgentPrivate (active : Bool)
  | removeSupervisor (supervisorId : Option Nat)
  | startHold (audio : Option String)
  | stopHold
  | close
  | adopt
  deriving DecidableEq, Repr

namespace Operation

/-- The operation, with what it answers where that is yes or no. -/
def code : Operation → Code Bool
  | answerCustomer transport => do RoomMedia.answerCustomer transport; return false
  | offerCustomer transport => do RoomMedia.offerCustomer transport; return false
  | customerAnswered => do RoomMedia.customerAnswered; return false
  | offerAgent => do RoomMedia.offerAgent; return false
  | agentAccepted agentId => do RoomMedia.agentAccepted agentId; return false
  | answerAgent agentId => do RoomMedia.answerAgent agentId; return false
  | dropAgent agentId => do RoomMedia.dropAgent agentId; return false
  | bridge recorded => RoomMedia.bridge recorded
  | addSupervisor supervisorId => do RoomMedia.addSupervisor supervisorId; return false
  | offerSupervisor supervisorId => do RoomMedia.offerSupervisor supervisorId; return false
  | supervisorAnswered supervisorId => do RoomMedia.supervisorAnswered supervisorId; return false
  | setSupervisorMode mode => RoomMedia.setSupervisorMode mode
  | setAgentPrivate active => RoomMedia.setAgentPrivate active
  | removeSupervisor supervisorId => RoomMedia.removeSupervisor supervisorId
  | startHold audio => do RoomMedia.startHold audio; return false
  | stopHold => do RoomMedia.stopHold; return false
  | close => do RoomMedia.close; return false
  | adopt => RoomMedia.adopt

/-- What the operation comes to where the map holds no room; `none`: it makes one. -/
def withoutRoom : Operation → Option (Option Bool)
  | dropAgent _ | removeSupervisor _ | stopHold | close => some (some false)
  | setSupervisorMode _ | setAgentPrivate _ => some none
  | _ => none

end Operation

/-- A worker and what it holds of the call, with what Redis and the media server keep. -/
structure Station where
  worker : Nat := 0
  room : Option Room := none
  server : Server := {}
  saved : Option Snapshot := none

namespace Station

/-- The room the operation runs on. -/
def roomFor (s : Station) : Room := s.room.getD { name := s.worker }

def world (s : Station) : World := ⟨s.worker, s.roomFor, .this, s.server, s.saved⟩

/-- After the operation: a room still in the map is saved if it has legs. -/
def after (w : World) : Station where
  worker := w.worker
  room := if w.held = .this then some w.room else none
  server := w.server
  saved := if w.held = .this ∧ w.room.hasLegs then some (snapshotOf w.room) else w.saved

/-- One operation, with which of its commands fail; `none`: it threw. -/
def perform (s : Station) (op : Operation) (faults : List Bool) : Station × Option Bool :=
  match if s.room.isNone then op.withoutRoom else none with
  | some answer => (s, answer)
  | none =>
    match op.code ⟨s.world, faults⟩ with
    | .ok answer w => (after w.state, some answer)
    | .error _ w => (after w.state, none)

/-- `listenForDigits`, at once and unsaved. -/
def listenForDigits (s : Station) (on : Bool) : Station :=
  { s with room := s.room.map fun room =>
      { room with customer := room.customer.map fun leg => { leg with listening := on } } }

/-- The worker dies; the media goes on, and another worker is there. -/
def died (s : Station) : Station := { s with worker := s.worker + 1, room := none }

end Station

inductive Event
  | operate (op : Operation) (faults : List Bool)
  | listenForDigits (on : Bool)
  | died
  deriving DecidableEq, Repr

def Station.step (s : Station) : Event → Station
  | .operate op faults => (s.perform op faults).1
  | .listenForDigits on => s.listenForDigits on
  | .died => s.died

def Station.run (s : Station) (events : List Event) : Station := events.foldl Station.step s

/-- `P` holds of every operation of the run, in the state it finds. -/
def Each (P : Station → Operation → List Bool → Prop) : Station → List Event → Prop
  | _, [] => True
  | s, event :: events =>
    (∀ op faults, event = .operate op faults → P s op faults) ∧ Each P (s.step event) events

/-- What holds of each operation holds of the last. -/
theorem each_last {P : Station → Operation → List Bool → Prop} {s : Station} {events : List Event}
    {op : Operation} {faults : List Bool} (h : Each P s (events ++ [.operate op faults])) :
    P (s.run events) op faults := by
  induction events generalizing s with
  | nil => exact h.1 op faults rfl
  | cons event events ih => exact ih h.2

/-- Two laws that agree wherever `I` holds, and keep it, agree along the run. -/
theorem each_iff {I : Station → Prop} {G : Event → Prop}
    {P P' : Station → Operation → List Bool → Prop}
    (hiff : ∀ {s}, I s → ∀ op faults, G (.operate op faults) → (P s op faults ↔ P' s op faults))
    (hstep : ∀ {s}, I s → ∀ event, G event →
      (∀ op faults, event = .operate op faults → P s op faults) → I (s.step event))
    {s : Station} (hs : I s) {events : List Event} (hevents : ∀ event ∈ events, G event) :
    Each P s events ↔ Each P' s events := by
  induction events generalizing s with
  | nil => exact Iff.rfl
  | cons event events ih =>
    obtain ⟨hevent, hrest⟩ := List.forall_mem_cons.mp hevents
    have hnow : (∀ op faults, event = .operate op faults → P s op faults) ↔
        ∀ op faults, event = .operate op faults → P' s op faults :=
      forall_congr' fun op => forall_congr' fun faults =>
        imp_congr_right fun heq => hiff hs op faults (heq ▸ hevent)
    constructor
    · rintro ⟨hfirst, hothers⟩
      exact ⟨hnow.mp hfirst, (ih (hstep hs event hevent hfirst) hrest).mp hothers⟩
    · rintro ⟨hfirst, hothers⟩
      have hfirst := hnow.mpr hfirst
      exact ⟨hfirst, (ih (hstep hs event hevent hfirst) hrest).mpr hothers⟩

end Callio.RoomMedia
