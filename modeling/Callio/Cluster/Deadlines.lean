import Mathlib
import Callio.Concurrency.Protocol
import Callio.Js.Number
import Callio.Model.Rows
import Callio.Store.SortedSet

/-! `Deadlines`: timers of calls in one sorted set in Redis, which every worker looks
at twice a second. Those who set them: the grace period of a customer who is not
heard (`CustomerNetworkLossPolicy`), the time an agent has to come back
(`ConnectionEventHandler`), a line that rings its owner (`ChannelIngress`). -/

namespace Callio.Deadlines

open Concurrency Js Store

/-! ## Members -/

/-- An id, a number that doubles and decimal digits keep apart. -/
abbrev CallId := { n : Nat // n < 2 ^ 53 }

def warnKind : Text := "network-warn".toList
def endKind : Text := "network-end".toList
def lineRing : Text := "line-ring".toList
def reconnect : Text := "agent-reconnect".toList

def member (kind : Text) (callId : CallId) : Text := kind ++ '|' :: Nat.toDigits 10 callId.1

/-- What `_tick` reads of a member. -/
def parse (m : Text) : Text × Number :=
  match m.splitOn '|' with
  | kind :: callId :: _ => (kind, .ofText callId)
  | [kind] => (kind, .nan)
  | [] => ([], .nan)

/-- The id a number is. -/
def idOf : Number → Option CallId
  | .fin q => if h : q.den = 1 ∧ 0 ≤ q.num ∧ q.num.toNat < 2 ^ 53 then some ⟨q.num.toNat, h.2.2⟩ else none
  | _ => none

/-- Redis orders members of one score by their bytes. -/
def before (m m' : Text) : Bool := m.lex m' fun c c' => c.toNat < c'.toNat

def batch : Nat := 50
def warnAfterMs : Nat := 15000
def endAfterMs : Nat := 20000
def reconnectTimeoutMs : Nat := 120000

/-! ## State -/

structure Worker where
  /-- `handlers`, the kinds in it. -/
  kinds : List Text := []
  clock : Nat := 0
  /-- `_running`. -/
  running : Bool := false
  /-- Handlers called whose code is still to run. -/
  jobs : List (Text × Number) := []

/-- A handler acted on a call; `log` is what Redis had done until then. -/
structure Expiry where
  kind : Text
  callId : CallId
  log : List (SortedSet.Event Text)

structure Cluster where
  /-- `callio:deadlines`. -/
  deadlines : List (Scored Text) := []
  workers : Nat → Worker
  calls : CallId → Option CallRow
  /-- What Redis did, latest first. -/
  log : List (SortedSet.Event Text) := []
  /-- What handlers did, latest first. -/
  expired : List Expiry := []
  /-- What clocks showed when they were read. -/
  readings : List Nat := []

def Cluster.setWorker (s : Cluster) (n : Nat) (w : Worker) : Cluster :=
  { s with workers := Function.update s.workers n w }

/-! ## Statements -/

inductive Op
  /-- `Date.now()`. -/
  | now (n : Nat)
  -- Redis
  | zadd (score : Nat) (m : Text)
  | zrem (ms : List Text)
  | claim (time : Nat)
  -- what a worker does between two awaits
  | kinds (n : Nat)
  | enter (n : Nat)
  | leave (n : Nat)
  | hand (n : Nat) (due : List Text)
  | takeJob (n : Nat)
  | expire (kind : Text) (callId : CallId)
  -- the calls' rows, written elsewhere
  | findCall (callId : CallId)
  | setCall (callId : CallId) (row : Option CallRow)
  | pass (n ms : Nat)

namespace Op

abbrev Res : Op → Type
  | now _ => Nat
  | claim _ => List Text
  | kinds _ => List Text
  | enter _ => Bool
  | takeJob _ => Option (Text × Number)
  | findCall _ => Option CallRow
  | _ => Unit

local instance lawfulText : LawfulBEq Text := inferInstance

def exec : (op : Op) → Cluster → Cluster × op.Res
  | now n, s => ({ s with readings := (s.workers n).clock :: s.readings }, (s.workers n).clock)
  | zadd score m, s =>
    ({ s with deadlines := SortedSet.add before m score s.deadlines, log := .added m score :: s.log }, ())
  | zrem ms, s => ({ s with deadlines := SortedSet.remove ms s.deadlines, log := .removed ms :: s.log }, ())
  | claim time, s =>
    let due := SortedSet.due batch time s.deadlines
    ({ s with deadlines := SortedSet.remove due s.deadlines, log := .claimed time due :: s.log }, due)
  | kinds n, s => (s, (s.workers n).kinds)
  | enter n, s =>
    if (s.workers n).running then (s, false) else (s.setWorker n { s.workers n with running := true }, true)
  | leave n, s => (s.setWorker n { s.workers n with running := false }, ())
  | hand n due, s =>
    let called := (due.map parse).filter (·.1 ∈ (s.workers n).kinds)
    (s.setWorker n { s.workers n with jobs := (s.workers n).jobs ++ called }, ())
  | takeJob n, s =>
    match (s.workers n).jobs with
    | [] => (s, none)
    | job :: jobs => (s.setWorker n { s.workers n with jobs }, some job)
  | expire kind callId, s => ({ s with expired := ⟨kind, callId, s.log⟩ :: s.expired }, ())
  | findCall callId, s => (s, s.calls callId)
  | setCall callId row, s => ({ s with calls := Function.update s.calls callId row }, ())
  | pass n ms, s => (s.setWorker n { s.workers n with clock := (s.workers n).clock + ms }, ())

end Op

abbrev Code := Prog Op.Res

/-! ## Deadlines -/

def set (n : Nat) (kind : Text) (callId : CallId) (inMs : Nat) : Code Unit := do
  let now ← .cmd (Op.now n)
  .cmd (Op.zadd (now + inMs) (member kind callId))

def clear (kind : Text) (callId : CallId) : Code Unit := .cmd (Op.zrem [member kind callId])

def clearCall (n : Nat) (callId : CallId) : Code Unit := do
  let members := (← .cmd (Op.kinds n)).map fun kind => member kind callId
  if members ≠ [] then .cmd (Op.zrem members)

/-- `_tick`; a kind without a handler on this worker is logged only. -/
def tick (n : Nat) : Code Unit := do
  if ← .cmd (Op.enter n) then
    let now ← .cmd (Op.now n)
    let due ← .cmd (Op.claim now)
    .cmd (Op.hand n due)
    .cmd (Op.leave n)

/-! ## Handlers -/

/-- Whether the handler of a kind acts on a call it finds so: `_warn`, `_end`,
`_lineRingExpired`, `_reconnectExpired`. -/
def acts (kind : Text) (row : CallRow) : Bool :=
  if kind = warnKind then row.status = .inProgress
  else if kind = endKind then !row.ended
  else if kind = lineRing then row.status = .ringing
  else kind = reconnect

/-- The code of the oldest handler called and not yet begun. -/
def handle (n : Nat) : Code Unit := do
  match ← .cmd (Op.takeJob n) with
  | none => return ()
  | some (kind, callId) =>
    match idOf callId with
    | none => return ()
    | some callId =>
      if let some row ← .cmd (Op.findCall callId) then
        if acts kind row then .cmd (Op.expire kind callId)

/-! ## CustomerNetworkLossPolicy -/

/-- `state` of 'customer:media:state'. -/
inductive MediaState
  | drop | active
  deriving DecidableEq, Repr

/-- `_cancel`. -/
def cancel (callId : CallId) : Code Unit := do
  clear warnKind callId
  clear endKind callId

/-- `_onMediaState`; `logged`: the lifecycle row was written. Both deadlines are asked for before
either is answered. -/
def onMediaState (n : Nat) (callId : CallId) (state : MediaState) (logged : Bool) : Code Unit := do
  if (← .cmd (Op.findCall callId)).isSome then
    match state with
    | .drop =>
      if logged then
        let warnNow ← .cmd (Op.now n)
        let endNow ← .cmd (Op.now n)
        .cmd (Op.zadd (warnNow + warnAfterMs) (member warnKind callId))
        .cmd (Op.zadd (endNow + endAfterMs) (member endKind callId))
    | .active => cancel callId

/-! ## ConnectionEventHandler -/

def clearReconnectTimer (callId : CallId) : Code Unit := clear reconnect callId

/-- `handleFrontendDisconnected`, its deadline: a user who is not the call's agent is ignored. -/
def handleFrontendDisconnected (n : Nat) (callId : CallId) (userId : Option Nat) : Code Unit := do
  match userId with
  | none => set n reconnect callId reconnectTimeoutMs
  | some user =>
    if let some row ← .cmd (Op.findCall callId) then
      if row.agentId = some user then set n reconnect callId reconnectTimeoutMs

/-! ## Tasks -/

inductive Task
  | tick (n : Nat)
  | handle (n : Nat)
  | mediaState (n : Nat) (callId : CallId) (state : MediaState) (logged : Bool)
  /-- 'call:terminated'. -/
  | terminated (callId : CallId)
  | frontendDisconnected (n : Nat) (callId : CallId) (userId : Option Nat)
  | reconnected (callId : CallId)
  /-- An inbound call rings its line's owner. -/
  | ringOwner (n : Nat) (callId : CallId) (ringTimeoutMs : Nat)
  /-- `CallTerminator` closes the call's media. -/
  | settled (n : Nat) (callId : CallId)
  | setCall (callId : CallId) (row : Option CallRow)
  | pass (n ms : Nat)

def Task.code : Task → Code Unit
  | tick n => Deadlines.tick n
  | handle n => Deadlines.handle n
  | mediaState n callId state logged => onMediaState n callId state logged
  | terminated callId => cancel callId
  | frontendDisconnected n callId userId => handleFrontendDisconnected n callId userId
  | reconnected callId => clearReconnectTimer callId
  | ringOwner n callId ringTimeoutMs => set n lineRing callId ringTimeoutMs
  | settled n callId => clearCall n callId
  | setCall callId row => .cmd (Op.setCall callId row)
  | pass n ms => .cmd (Op.pass n ms)

/-- Before anything was set. -/
def boot (kinds : Nat → List Text) (clocks : Nat → Nat) (calls : CallId → Option CallRow) : Cluster :=
  { workers := fun n => { kinds := kinds n, clock := clocks n }, calls }

/-! ## Members, read and written -/

theorem parse_member {kind : Text} (h : '|' ∉ kind) (callId : CallId) :
    parse (member kind callId) = (kind, .fin callId.1) := by
  have hdigits : '|' ∉ Nat.toDigits 10 callId.1 := by
    intro hin
    have := List.all_eq_true.mp (isNumeral_toDigits callId.1).2 _ hin
    exact absurd this (by decide)
  have hsplit : (member kind callId).splitOn '|' = [kind, Nat.toDigits 10 callId.1] := by
    rw [member, List.splitOn_append_cons_self_of_not_mem h, List.splitOn_eq_singleton hdigits]
  rw [parse, hsplit]
  simp only [Number.ofText_of_isNumeral (isNumeral_toDigits callId.1), Nat.ofDigitChars_ten_toDigits,
    Number.round_natCast callId.2]

theorem idOf_fin (callId : CallId) : idOf (.fin (callId.1 : Rat)) = some callId := by
  obtain ⟨n, hn⟩ := callId
  have hsafe : (n : Rat).den = 1 ∧ 0 ≤ (n : Rat).num ∧ (n : Rat).num.toNat < 2 ^ 53 := by simpa using hn
  rw [idOf, dif_pos hsafe]
  simp

end Callio.Deadlines
