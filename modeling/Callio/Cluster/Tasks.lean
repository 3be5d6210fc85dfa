import Callio.Cluster.CallInbox

/-! What workers do beside one another: they take calls and give them up, adopt
calls whose lease lapsed (`CallAdoption`), end calls (`CallTerminator`) and run
the inputs handed to them (`CallEventHandler`). A worker that crashes is one
whose tasks make no more moves. -/

namespace Callio.Inbox

open Concurrency CallInbox

/-! ## Adoption -/

/-- How `callMedia.adopt` ends. -/
inductive RoomAdoption
  | failed | noRoom | adopted
  deriving DecidableEq, Repr

/-- `CallAdoption._take`. -/
def take (n c : Nat) (room : RoomAdoption) : Code Unit := do
  if ← .cmd (Op.isEnded c) then forget n c
  else if ← claim n c then
    match room with
    | .failed => release n c
    | .noRoom =>
      release n c
      forget n c
    | .adopted =>
      let _ ← read n c

/-- One call of an adoption tick: taken if it is an orphan. -/
def adopt (n c : Nat) (room : RoomAdoption) : Code Unit := do
  let leased ← await n (.isLeased c)
  let owned ← .cmd (Op.owns n c)
  if leased && !owned then
    if (← await n (.getLease c)).isNone then take n c room

/-! ## Ending a call -/

/-- `media`: 'broadcast' or 'local'. -/
inductive MediaClose
  | broadcast | onlyHere
  deriving DecidableEq, Repr

/-- `#closeMedia`: the inbox's part of it. -/
def closeMedia (n c : Nat) : MediaClose → Code Unit
  | .onlyHere => release n c true
  | .broadcast => post n c (.callTerminated true)

/-- `CallTerminator.end`. `guarded`: it asks for a status (`onlyIfStatus`), and
`passes` says whether the call has it. -/
def endCall (n c : Nat) (guarded passes : Bool) (media : MediaClose) : Code Unit := do
  if ← .cmd (Op.commitEnd c (passes || !guarded)) then closeMedia n c media
  else if guarded then
    -- the call moved on: it is live, and so is its media
    if ← .cmd (Op.isEnded c) then closeMedia n c .onlyHere
  else closeMedia n c .onlyHere

/-- A caller that commits the end itself: only the winner settles. -/
def commitAndSettle (n c : Nat) (media : MediaClose) : Code Unit := do
  if ← .cmd (Op.commitEnd c true) then closeMedia n c media

/-! ## Inputs -/

/-- The handler's code for the oldest input not yet begun; of CALL_TERMINATED
only, since no other input touches the inbox. -/
def handle (n : Nat) : Code Unit := do
  match ← .cmd (Op.takeInput n) with
  | some (c, .callTerminated _) =>
    if !(← .cmd (Op.isEnded c)) then endCall n c false true .onlyHere
    -- `#releaseIfEnded`
    if ← .cmd (Op.isEnded c) then release n c true
  | _ => return ()

/-! ## Tasks -/

inductive Task
  | own (n c : Nat)
  | adopt (n c : Nat) (room : RoomAdoption)
  | release (n c : Nat) (purge : Bool)
  | handOver (n : Nat)
  | renew (n : Nat)
  | readLoop (n rounds : Nat)
  | handle (n : Nat)
  | post (n c : Nat) (input : Input)
  | endCall (n c : Nat) (guarded passes : Bool) (media : MediaClose)
  | commitAndSettle (n c : Nat) (media : MediaClose)
  /-- Redis gets to what a worker sent without waiting. -/
  | serve (n : Nat)
  | lapse (c : Nat)
  deriving DecidableEq

def Task.code : Task → Code Unit
  | own n c => do let _ ← CallInbox.own n c
  | adopt n c room => Inbox.adopt n c room
  | release n c purge => CallInbox.release n c purge
  | handOver n => CallInbox.handOver n
  | renew n => CallInbox.renew n
  | readLoop n rounds => CallInbox.readLoop n rounds
  | handle n => Inbox.handle n
  | post n c input => CallInbox.post n c input
  | endCall n c guarded passes media => Inbox.endCall n c guarded passes media
  | commitAndSettle n c media => Inbox.commitAndSettle n c media
  | serve n => .cmd (Op.serveNext n)
  | lapse c => .cmd (Op.lapse c)

variable {ι : Type}

/-- Tasks at work on one cluster. -/
abbrev Workers (ι : Type) := Config Op.Res Cluster ι

def Workers.spawn (w : Cluster) (tasks : ι → Task) : Workers ι :=
  Config.spawn w fun i => (tasks i).code

variable [DecidableEq ι]

/-- The workers after the schedule's first `k` moves. -/
def Workers.after (s : Workers ι) (schedule : List ι) (k : Nat) : Workers ι :=
  Concurrency.run Op.exec s (schedule.take k)

/-- What move `k` by `i` does, as tasks that follow a protocol see it. -/
theorem Workers.after_succ {P : Protocol Op.Res} {final : P.Phase → Prop} {init : ι → P.Phase}
    {s : Workers ι} {schedule : List ι} {k : Nat} {i : ι} (hi : schedule[k]? = some i)
    (hc : P.Conforms final init (s.after schedule k)) :
    P.Conforms final init (s.after schedule (k + 1)) ∧
      ((s.after schedule k).next i = none ∧ s.after schedule (k + 1) = s.after schedule k ∨
        ∃ op, (s.after schedule k).next i = some op ∧
          P.allows (P.phases init (s.after schedule k) i) op ∧
          (s.after schedule (k + 1)).state = (op.exec (s.after schedule k).state).1 ∧
          P.phases init (s.after schedule (k + 1)) = Function.update (P.phases init (s.after schedule k)) i
            (P.next (P.phases init (s.after schedule k) i) op (op.exec (s.after schedule k).state).2)) := by
  have hafter : s.after schedule (k + 1) = Concurrency.step Op.exec (s.after schedule k) i :=
    run_take_succ Op.exec hi
  rw [hafter]
  exact ⟨hc.step Op.exec i, hc.move i⟩

end Callio.Inbox
