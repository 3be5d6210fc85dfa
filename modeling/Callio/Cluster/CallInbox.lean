import Mathlib.Data.List.AList
import Callio.Concurrency.Protocol

/-! `CallInbox`: how a call's inputs reach the one worker that runs it. A lease
in Redis names the owner, a stream holds the inputs, a cursor the last one
taken. A worker keeps the calls it owns in memory, and one loop reads all their
streams. Each statement of a program is one atomic step: a Redis command, or
what the worker's code does between two awaits.

A worker's commands share one connection, which Redis serves in order. A
command sent without waiting stays in the worker's queue until Redis gets to
it, or until the worker waits for a later one. The wake stream only makes a
blocked read return early, which here it may do anyway. -/

namespace Callio.Inbox

open Concurrency

/-- `MAXLEN`: Redis may keep more entries of a stream, never fewer. -/
def maxLen : Nat := 1000

inductive Input
  /-- CALL_TERMINATED: the notice that the call ended, else a request to end it. -/
  | callTerminated (notice : Bool)
  | other (n : Nat)
  deriving DecidableEq, Repr

/-- An entry of a stream; ids grow with time. -/
structure Entry where
  id : Nat
  input : Input
  deriving DecidableEq, Repr

/-- What `owned` holds of a call. -/
structure Own where
  lastId : Nat
  /-- Whether the handler is set. -/
  handler : Bool
  deriving DecidableEq, Repr

/-- A command sent without waiting for its answer. -/
inductive Sent
  | setCursor (callId lastId : Nat)
  | releaseLease (callId : Nat)
  deriving DecidableEq, Repr

def Sent.callId : Sent → Nat
  | setCursor callId _ | releaseLease callId => callId

/-- A worker from its boot on. -/
structure Node where
  owned : AList fun _ : Nat => Own := ∅
  /-- Sent and not yet served, oldest first. -/
  sent : List Sent := []
  /-- Inputs handed to the handler, whose code is still to run. -/
  inputs : List (Nat × Input) := []

structure Handed where
  node : Nat
  callId : Nat
  entry : Entry
  deriving DecidableEq, Repr

structure Cluster where
  lease : Nat → Option Nat := fun _ => none
  inbox : Nat → List Entry := fun _ => []
  cursor : Nat → Option Nat := fun _ => none
  /-- `callio:calls:leased`. -/
  leased : Nat → Bool := fun _ => false
  nextId : Nat := 1
  nodes : Nat → Node := fun _ => {}
  /-- The call's row is final. -/
  ended : Nat → Bool := fun _ => false
  /-- Every entry ever posted, latest first. -/
  posted : List (Nat × Entry) := []
  /-- Every entry a handler was given, latest first. -/
  handed : List Handed := []
  /-- The call's inbox and cursor have been deleted at some time. -/
  purged : Nat → Bool := fun _ => false
  /-- A lease of the call has lapsed at some time. -/
  lapsed : Nat → Bool := fun _ => false

namespace Cluster

def own (w : Cluster) (n c : Nat) : Option Own := (w.nodes n).owned.lookup c

def setNode (w : Cluster) (n : Nat) (node : Node) : Cluster :=
  { w with nodes := Function.update w.nodes n node }

def setOwned (w : Cluster) (n : Nat) (owned : AList fun _ : Nat => Own) : Cluster :=
  w.setNode n { w.nodes n with owned }

def send (w : Cluster) (n : Nat) (s : Sent) : Cluster :=
  w.setNode n { w.nodes n with sent := (w.nodes n).sent ++ [s] }

/-- What Redis does for a command of worker `n`; a lease is given up by its
holder only. -/
def serve (w : Cluster) (n : Nat) : Sent → Cluster
  | .setCursor c lastId => { w with cursor := Function.update w.cursor c (some lastId) }
  | .releaseLease c =>
      if w.lease c = some n then { w with lease := Function.update w.lease c none } else w

/-- Redis serves the oldest command that `n` sent. -/
def serveNext (w : Cluster) (n : Nat) : Cluster :=
  match (w.nodes n).sent with
  | [] => w
  | s :: rest => (w.setNode n { w.nodes n with sent := rest }).serve n s

/-- Redis serves everything that `n` sent. -/
def flush (w : Cluster) (n : Nat) : Cluster := (fun w => w.serveNext n)^[(w.nodes n).sent.length] w

/-- XADD with MAXLEN. -/
def append (entries : List Entry) (e : Entry) : List Entry :=
  (entries ++ [e]).drop (entries.length + 1 - maxLen)

/-- The calls of a worker that have a handler, each with where its reading goes on. -/
def streams (w : Cluster) (n : Nat) : List (Nat × Nat) :=
  ((w.nodes n).owned.entries.filter fun own => own.2.handler).map fun own => (own.1, own.2.lastId)

/-- XREAD: the streams that hold entries past the given ids, with these. -/
def xread (w : Cluster) (from_ : List (Nat × Nat)) : List (Nat × List Entry) :=
  (from_.map fun (c, lastId) => (c, (w.inbox c).filter (lastId < ·.id))).filter fun stream => stream.2 ≠ []

/-- Each entry is handed to the handler of a call that worker `n` has. -/
def hand (w : Cluster) (n c : Nat) (entries : List Entry) : Cluster :=
  let w := { w with handed := (entries.map fun e : Entry => Handed.mk n c e).reverse ++ w.handed }
  w.setNode n { w.nodes n with inputs := (w.nodes n).inputs ++ entries.map fun e : Entry => (c, e.input) }

/-- `_readLoop` on the entries of one stream, if the worker has the call still:
they are handed out, and the cursor follows. Without a handler the first one
throws. The loop goes through all streams without waiting; here other tasks may
come in between. -/
def deliver (w : Cluster) (n c : Nat) (entries : List Entry) : Cluster × Bool :=
  match w.own n c, entries.getLast? with
  | some own, some last =>
    if own.handler then
      let w := w.setOwned n ((w.nodes n).owned.insert c { own with lastId := last.id })
      ((w.hand n c entries).send n (.setCursor c last.id), true)
    else
      let first := (entries.head?.map (·.id)).getD own.lastId
      (w.setOwned n ((w.nodes n).owned.insert c { own with lastId := first }), false)
  | _, _ => (w, true)

end Cluster

/-! ## Statements -/

inductive Op
  -- Redis
  | flush (n : Nat)
  | serveNext (n : Nat)
  /-- XADD and EXISTS of the lease, in one transaction. -/
  | post (c : Nat) (input : Input)
  /-- SET NX. -/
  | setLease (n c : Nat)
  | getLease (c : Nat)
  | getCursor (c : Nat)
  | addLeased (c : Nat)
  | isLeased (c : Nat)
  | renewLease (n c : Nat)
  /-- Out of the leased set, and its inbox and cursor deleted. -/
  | purge (c : Nat)
  | xread (n : Nat) (from_ : List (Nat × Nat))
  -- what a worker does between two awaits
  | owns (n c : Nat)
  | ownedIds (n : Nat)
  | streams (n : Nat)
  /-- `claim` enters the call, without a handler. -/
  | register (n c lastId : Nat)
  | setHandler (n c : Nat)
  /-- `release` drops the call and sends the lease's release. -/
  | unregister (n c : Nat)
  /-- `_renew` drops a call whose lease it lost. -/
  | lose (n c : Nat)
  | deliver (n c : Nat) (entries : List Entry)
  | takeInput (n : Nat)
  -- the call's row
  /-- The guarded write of the final state; `passes`: the status it asks for. -/
  | commitEnd (c : Nat) (passes : Bool)
  | isEnded (c : Nat)
  /-- A lease that was not renewed lapses. -/
  | lapse (c : Nat)

namespace Op

abbrev Res : Op → Type
  | post _ _ | setLease _ _ | isLeased _ | renewLease _ _ | owns _ _ | setHandler _ _ => Bool
  | unregister _ _ | deliver _ _ _ | commitEnd _ _ | isEnded _ => Bool
  | getLease _ | getCursor _ => Option Nat
  | ownedIds _ => List Nat
  | streams _ => List (Nat × Nat)
  | xread _ _ => List (Nat × List Entry)
  | takeInput _ => Option (Nat × Input)
  | _ => Unit

def exec : (op : Op) → Cluster → Cluster × op.Res
  | flush n, w => (w.flush n, ())
  | serveNext n, w => (w.serveNext n, ())
  | post c input, w =>
      let e : Entry := ⟨w.nextId, input⟩
      ({ w with inbox := Function.update w.inbox c (Cluster.append (w.inbox c) e)
                nextId := w.nextId + 1
                posted := (c, e) :: w.posted }, (w.lease c).isSome)
  | setLease n c, w =>
      if (w.lease c).isSome then (w, false)
      else ({ w with lease := Function.update w.lease c (some n) }, true)
  | getLease c, w => (w, w.lease c)
  | getCursor c, w => (w, w.cursor c)
  | addLeased c, w => ({ w with leased := Function.update w.leased c true }, ())
  | isLeased c, w => (w, w.leased c)
  | renewLease n c, w => (w, w.lease c = some n)
  | purge c, w =>
      ({ w with leased := Function.update w.leased c false
                inbox := Function.update w.inbox c []
                cursor := Function.update w.cursor c none
                purged := Function.update w.purged c true }, ())
  | xread _ from_, w => (w, w.xread from_)
  | owns n c, w => (w, (w.own n c).isSome)
  | ownedIds n, w => (w, (w.nodes n).owned.keys)
  | streams n, w => (w, w.streams n)
  | register n c lastId, w => (w.setOwned n ((w.nodes n).owned.insert c ⟨lastId, false⟩), ())
  | setHandler n c, w =>
      match w.own n c with
      | none => (w, false)
      | some own => (w.setOwned n ((w.nodes n).owned.insert c { own with handler := true }), true)
  | unregister n c, w =>
      if (w.own n c).isSome then
        ((w.setOwned n ((w.nodes n).owned.erase c)).send n (.releaseLease c), true)
      else (w, false)
  | lose n c, w => (w.setOwned n ((w.nodes n).owned.erase c), ())
  | deliver n c entries, w => w.deliver n c entries
  | takeInput n, w =>
      match (w.nodes n).inputs with
      | [] => (w, none)
      | input :: rest => (w.setNode n { w.nodes n with inputs := rest }, some input)
  | commitEnd c passes, w =>
      if passes && !w.ended c then ({ w with ended := Function.update w.ended c true }, true)
      else (w, false)
  | isEnded c, w => (w, w.ended c)
  | lapse c, w =>
      ({ w with lease := Function.update w.lease c none, lapsed := Function.update w.lapsed c true }, ())

end Op

/-- A task's code. -/
abbrev Code := Prog Op.Res

/-- Waits for a command's answer: Redis serves what the worker sent before it first. -/
def await (n : Nat) (op : Op) : Code op.Res := do
  .cmd (Op.flush n)
  .cmd op

/-! ## CallInbox -/

namespace CallInbox

def post (n c : Nat) (input : Input) : Code Unit := do
  let _ ← await n (.post c input)

/-- The rest of `claim`, the lease being this worker's. -/
def enter (n c : Nat) : Code Bool := do
  let cursor ← await n (.getCursor c)
  .cmd (Op.register n c (cursor.getD 0))
  await n (.addLeased c)
  return true

def claim (n c : Nat) : Code Bool := do
  if ← .cmd (Op.owns n c) then return true
  if ← await n (.setLease n c) then enter n c
  else if (← await n (.getLease c)) = some n then enter n c
  else return false

def read (n c : Nat) : Code Bool := .cmd (Op.setHandler n c)

def own (n c : Nat) : Code Bool := do
  if !(← claim n c) then return false
  let _ ← read n c
  return true

def release (n c : Nat) (purge : Bool := false) : Code Unit := do
  let had ← .cmd (Op.unregister n c)
  if had then .cmd (Op.flush n)
  if purge then await n (.purge c)

/-- `forget`. -/
def forget (n c : Nat) : Code Unit := await n (.purge c)

def renewAll (n : Nat) : List Nat → Code Unit
  | [] => return ()
  | c :: rest => do
    let ok ← await n (.renewLease n c)
    if !ok then .cmd (Op.lose n c)
    renewAll n rest

/-- One `_renew`. -/
def renew (n : Nat) : Code Unit := do
  renewAll n (← .cmd (Op.ownedIds n))

/-- False if a delivery threw. -/
def deliverAll (n : Nat) : List (Nat × List Entry) → Code Bool
  | [] => return true
  | (c, entries) :: rest => do
    if ← .cmd (Op.deliver n c entries) then deliverAll n rest else return false

/-- `_readLoop`, for so many rounds; a throw ends it. -/
def readLoop (n : Nat) : (rounds : Nat) → Code Unit
  | 0 => return ()
  | rounds + 1 => do
    let from_ ← .cmd (Op.streams n)
    let res ← .cmd (Op.xread n from_)
    if ← deliverAll n res then readLoop n rounds else return ()

def releaseAll (n : Nat) : List Nat → Code Unit
  | [] => return ()
  | c :: rest => do
    release n c
    releaseAll n rest

def handOver (n : Nat) : Code Unit := do
  releaseAll n (← .cmd (Op.ownedIds n))

end CallInbox

end Callio.Inbox
