import Mathlib.Logic.Function.Basic
import Callio.Concurrency.Program

/-! A call's room (`RoomMedia`): the legs the worker holds, and the conference on
the media server that it steers with one command after the other. Operations on a
room run one at a time. A call without a room has an empty one. -/

namespace Callio.Rooms

open Concurrency

/-! ## The conference -/

inductive Kind
  | customer | agent | supervisor
  deriving DecidableEq, Repr

structure Member where
  kind : Kind
  muted : Bool
  deriving DecidableEq, Repr

structure Conference where
  member : Nat → Option Member := fun _ => none
  /-- The first member does not speak to the second. -/
  nospeak : Nat → Nat → Bool := fun _ _ => false
  nextId : Nat := 1

/-- The customer hears a member of the kind. -/
def Conference.Heard (conf : Conference) (kind : Kind) : Prop :=
  ∃ speaker customer muted, conf.member speaker = some ⟨kind, false⟩ ∧
    conf.member customer = some ⟨.customer, muted⟩ ∧ conf.nospeak speaker customer = false

/-- What the media server is told. -/
inductive Cmd
  /-- The endpoint joins, with the flag `mute` or without. -/
  | join (kind : Kind) (muted : Bool)
  /-- The endpoint is destroyed, a member or not. -/
  | destroy (memberId : Option Nat)
  | mute (memberId : Nat)
  | unmute (memberId : Nat)
  | relate (memberId other : Nat) (nospeak : Bool)
  | play (memberId : Nat)
  | stopAll (memberId : Nat)
  /-- `uuid_break`. -/
  | break_
  deriving DecidableEq, Repr

namespace Conference

/-- The member comes in, or goes. -/
def set (conf : Conference) (memberId : Nat) (member : Option Member) : Conference :=
  { conf with member := Function.update conf.member memberId member }

def setMuted (conf : Conference) (memberId : Nat) (muted : Bool) : Conference :=
  conf.set memberId ((conf.member memberId).map fun m => ⟨m.kind, muted⟩)

/-- Refused where one of the two is not a member. -/
def relate (conf : Conference) (memberId other : Nat) (nospeak : Bool) : Conference :=
  let nospeaks := Function.update (conf.nospeak memberId) other nospeak
  if (conf.member memberId).isSome ∧ (conf.member other).isSome then
    { conf with nospeak := Function.update conf.nospeak memberId nospeaks }
  else conf

end Conference

namespace Cmd

abbrev Res : Cmd → Type
  | join _ _ => Nat
  | _ => Unit

def exec : (cmd : Cmd) → Conference → Conference × cmd.Res
  | .join kind muted, conf =>
      ({ conf.set conf.nextId (some ⟨kind, muted⟩) with nextId := conf.nextId + 1 }, conf.nextId)
  | .destroy none, conf => (conf, ())
  | .destroy (some memberId), conf => (conf.set memberId none, ())
  | .mute memberId, conf => (conf.setMuted memberId true, ())
  | .unmute memberId, conf => (conf.setMuted memberId false, ())
  | .relate memberId other nospeak, conf => (conf.relate memberId other nospeak, ())
  | .play _, conf | .stopAll _, conf | .break_, conf => (conf, ())

end Cmd

abbrev Code := Prog Cmd.Res

/-! ## The room -/

structure Leg where
  answered : Bool
  memberId : Option Nat := none
  deriving DecidableEq, Repr

inductive Mode
  | listen | whisper | barge
  deriving DecidableEq, Repr

/-- A JavaScript `Map` of legs by id, in the order of insertion. -/
abbrev Legs := List (Nat × Leg)

namespace Legs

def get : Legs → Nat → Option Leg
  | [], _ => none
  | l :: legs, id => if l.1 = id then some l.2 else get legs id

def delete : Legs → Nat → Legs
  | [], _ => []
  | l :: legs, id => if l.1 = id then legs else l :: delete legs id

/-- The entry under the id keeps its place. -/
def set : Legs → Nat → Leg → Legs
  | [], id, leg => [(id, leg)]
  | l :: legs, id, leg => if l.1 = id then (id, leg) :: legs else l :: set legs id leg

end Legs

structure Room where
  customer : Option Leg := none
  pendingAgent : Option Leg := none
  agents : Legs := []
  supervisors : Legs := []
  pendingSupervisors : Legs := []
  mode : Mode := .listen
  agentPrivate : Bool := false
  bridged : Bool := false
  toneOn : Bool := false
  holdOn : Bool := false
  deriving DecidableEq, Repr

def Room.customerId (room : Room) : Option Nat := room.customer.bind (·.memberId)

/-! ## Internals -/

def destroyLeg : Option Leg → Code Unit
  | none => return ()
  | some leg => .cmd (Cmd.destroy leg.memberId)

def destroyLegs : List Leg → Code Unit
  | [] => return ()
  | leg :: legs => do
    destroyLeg (some leg)
    destroyLegs legs

def join (kind : Kind) (leg : Leg) (muted : Bool) : Code Leg :=
  match leg.memberId with
  | some _ => return leg
  | none => do
    let memberId ← .cmd (Cmd.join kind muted)
    return { leg with memberId := some memberId }

/-- The relation to the customer's member, if there is one. -/
def relate (memberId : Nat) (nospeak : Bool) : Option Nat → Code Unit
  | none => return ()
  | some cust => .cmd (Cmd.relate memberId cust nospeak)

def muteIn (mode : Mode) (memberId : Nat) : Code Unit :=
  if mode = .listen then .cmd (Cmd.mute memberId) else .cmd (Cmd.unmute memberId)

/-- `_rules` for one supervisor. -/
def supervisorRule (mode : Mode) (cust : Option Nat) (leg : Leg) : Code Unit :=
  match leg.memberId with
  | none => return ()
  | some memberId => do
    muteIn mode memberId
    relate memberId (mode = .whisper) cust

/-- `_rules` for one agent. -/
def agentRule (agentPrivate : Bool) (cust : Option Nat) (leg : Leg) : Code Unit :=
  match leg.memberId with
  | none => return ()
  | some memberId => relate memberId agentPrivate cust

def forLegs (rule : Leg → Code Unit) : Legs → Code Unit
  | [] => return ()
  | (_, leg) :: legs => do
    rule leg
    forLegs rule legs

/-- `_rules`. -/
def rules (room : Room) : Code Unit := do
  forLegs (supervisorRule room.mode room.customerId) room.supervisors
  forLegs (agentRule room.agentPrivate room.customerId) room.agents

def playOrStop (cust : Nat) (on : Bool) : Code Unit :=
  if on then .cmd (Cmd.play cust) else .cmd (Cmd.stopAll cust)

/-- `_tone`. -/
def tone (room : Room) (on : Bool) : Code Room :=
  match room.customerId with
  | none => return room
  | some cust =>
    if room.toneOn = on then return room
    else do
      playOrStop cust on
      return { room with toneOn := on }

/-- `_hold`. -/
def hold (room : Room) (on : Bool) : Code Room :=
  match room.customerId with
  | none => return room
  | some cust =>
    if room.holdOn = on then return room
    else do
      playOrStop cust on
      return { room with holdOn := on }

/-- `_break`. -/
def breakLeg : Option Leg → Code Unit
  | none => return ()
  | some _ => .cmd Cmd.break_

def joinCustomer (room : Room) : Code Room :=
  match room.customer with
  | none => return room
  | some leg => do
    let leg ← join .customer leg false
    return { room with customer := some leg }

/-- The customer's leg joins; an IVR prompt still playing breaks off. -/
def enterCustomer (room : Room) : Code Room := do
  breakLeg room.customer
  joinCustomer room

/-- `bridge`: the customer's leg joins if it is not in the conference. -/
def enterIfOut (room : Room) : Code Room :=
  if room.customerId.isNone then enterCustomer room else return room

def joinAgents : Legs → Code Legs
  | [] => return []
  | (id, leg) :: legs => do
    let leg ← join .agent leg false
    let legs ← joinAgents legs
    return (id, leg) :: legs

/-- Legs go, one after the other; `ids` are those to remove. -/
def removeLegs : List Nat → Legs → Code Legs
  | [], legs => return legs
  | id :: ids, legs =>
    match legs.get id with
    | none => removeLegs ids legs
    | some leg => do
      destroyLeg (some leg)
      removeLegs ids (legs.delete id)

/-- The leg the map has under the id is replaced by none. -/
def dropPrevious (legs : Legs) (id : Nat) : Code Legs :=
  match legs.get id with
  | none => return legs
  | some leg => do
    destroyLeg (some leg)
    return legs.delete id

/-! ## Operations

`ok`: the new leg could be made, or the answer applied; else the operation throws
where it does. -/

/-- `answerCustomer` and `offerCustomer`; `answered`: the customer's side offered. -/
def newCustomer (answered ok : Bool) (room : Room) : Code Room := do
  destroyLeg room.customer
  if ok then return { room with customer := some { answered } } else return room

def customerAnswered (ok : Bool) (room : Room) : Code Room :=
  match room.customer with
  | some leg => if ok then return { room with customer := some { leg with answered := true } } else return room
  | none => return room

def offerAgent (ok : Bool) (room : Room) : Code Room := do
  destroyLeg room.pendingAgent
  return { room with pendingAgent := if ok then some { answered := false } else none }

def agentAccepted (agentId : Nat) (ok : Bool) (room : Room) : Code Room :=
  match room.pendingAgent with
  | none => return room
  | some leg =>
    if ok then do
      destroyLeg (room.agents.get agentId)
      return { room with pendingAgent := none, agents := room.agents.set agentId { leg with answered := true } }
    else do
      destroyLeg (some leg)
      return { room with pendingAgent := none }

def answerAgent (agentId : Nat) (ok : Bool) (room : Room) : Code Room := do
  let agents ← dropPrevious room.agents agentId
  if ok then return { room with agents := agents.set agentId { answered := true } }
  else return { room with agents }

def dropAgent (agentId : Option Nat) (room : Room) : Code Room := do
  let ids := match agentId with
    | some id => [id]
    | none => room.agents.map Prod.fst
  let agents ← removeLegs ids room.agents
  let room := { room with agents }
  if agents.isEmpty then tone { room with agentPrivate := false } true else return room

def bridge (room : Room) : Code Room :=
  if (room.customer.any (·.answered)) = false ∨ room.agents.isEmpty then return room
  else do
    let room ← enterIfOut room
    let room ← hold room false
    let agents ← joinAgents room.agents
    let room ← tone { room with agents } false
    rules room
    return { room with bridged := true }

/-- A supervisor's leg joins muted, in listen mode if it is the only one. -/
def joinSupervisor (supervisorId : Nat) (leg : Leg) (room : Room) : Code Room := do
  let room := if room.supervisors.isEmpty then { room with mode := .listen } else room
  let leg ← join .supervisor leg true
  let room := { room with supervisors := room.supervisors.set supervisorId leg }
  rules room
  return room

def addSupervisor (supervisorId : Nat) (ok : Bool) (room : Room) : Code Room := do
  let supervisors ← dropPrevious room.supervisors supervisorId
  let room := { room with supervisors }
  if ok then joinSupervisor supervisorId { answered := true } room else return room

def offerSupervisor (supervisorId : Nat) (ok : Bool) (room : Room) : Code Room := do
  destroyLeg (room.pendingSupervisors.get supervisorId)
  if ok then
    return { room with pendingSupervisors := room.pendingSupervisors.set supervisorId { answered := false } }
  else return room

def supervisorAnswered (supervisorId : Nat) (ok : Bool) (room : Room) : Code Room :=
  match room.pendingSupervisors.get supervisorId with
  | none => return room
  | some leg => do
    let room := { room with pendingSupervisors := room.pendingSupervisors.delete supervisorId }
    if ok then
      let supervisors ← dropPrevious room.supervisors supervisorId
      joinSupervisor supervisorId { leg with answered := true } { room with supervisors }
    else return room

def setSupervisorMode (mode : Mode) (room : Room) : Code Room := do
  let room := { room with mode, agentPrivate := room.agentPrivate && mode = .whisper }
  rules room
  return room

def setAgentPrivate (active : Bool) (room : Room) : Code Room := do
  let allowed := room.mode = .whisper ∧ room.supervisors ≠ []
  let room := { room with agentPrivate := active && decide allowed }
  rules room
  return room

def removeSupervisor (supervisorId : Option Nat) (room : Room) : Code Room := do
  let ids := match supervisorId with
    | some id => [id]
    | none => room.supervisors.map Prod.fst
  let supervisors ← removeLegs ids room.supervisors
  let room := { room with supervisors }
  let room := if supervisors.isEmpty then { room with agentPrivate := false, mode := .listen } else room
  rules room
  return room

def startHold (room : Room) : Code Room :=
  if room.customer.isNone ∨ room.agents ≠ [] then return room
  else do
    let room ← enterCustomer room
    hold room true

def stopHold (room : Room) : Code Room := hold room false

/-- Every leg is destroyed; what comes after is a new room. -/
def close (room : Room) : Code Room := do
  destroyLegs (room.customer.toList ++ room.pendingAgent.toList ++ room.agents.map Prod.snd ++
    room.supervisors.map Prod.snd ++ room.pendingSupervisors.map Prod.snd)
  return {}

inductive Operation
  | newCustomer (answered ok : Bool)
  | customerAnswered (ok : Bool)
  | offerAgent (ok : Bool)
  | agentAccepted (agentId : Nat) (ok : Bool)
  | answerAgent (agentId : Nat) (ok : Bool)
  | dropAgent (agentId : Option Nat)
  | bridge
  | addSupervisor (supervisorId : Nat) (ok : Bool)
  | offerSupervisor (supervisorId : Nat) (ok : Bool)
  | supervisorAnswered (supervisorId : Nat) (ok : Bool)
  | setSupervisorMode (mode : Mode)
  | setAgentPrivate (active : Bool)
  | removeSupervisor (supervisorId : Option Nat)
  | startHold
  | stopHold
  | close
  deriving DecidableEq, Repr

def Operation.code : Operation → Room → Code Room
  | newCustomer answered ok => Rooms.newCustomer answered ok
  | customerAnswered ok => Rooms.customerAnswered ok
  | offerAgent ok => Rooms.offerAgent ok
  | agentAccepted agentId ok => Rooms.agentAccepted agentId ok
  | answerAgent agentId ok => Rooms.answerAgent agentId ok
  | dropAgent agentId => Rooms.dropAgent agentId
  | bridge => Rooms.bridge
  | addSupervisor supervisorId ok => Rooms.addSupervisor supervisorId ok
  | offerSupervisor supervisorId ok => Rooms.offerSupervisor supervisorId ok
  | supervisorAnswered supervisorId ok => Rooms.supervisorAnswered supervisorId ok
  | setSupervisorMode mode => Rooms.setSupervisorMode mode
  | setAgentPrivate active => Rooms.setAgentPrivate active
  | removeSupervisor supervisorId => Rooms.removeSupervisor supervisorId
  | startHold => Rooms.startHold
  | stopHold => Rooms.stopHold
  | close => Rooms.close

/-- A room and its conference. -/
structure State where
  room : Room := {}
  conf : Conference := {}

def State.perform (s : State) (op : Operation) : State :=
  let out := (op.code s.room).eval Cmd.exec s.conf
  ⟨out.1, out.2⟩

end Callio.Rooms
