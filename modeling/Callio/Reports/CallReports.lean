import Callio.Model.Rows
import Callio.Store.Buckets

/-! Contact-center reports for one tenant (`CallReports.calls`). Times are
milliseconds; the window and the bucket starts may lie before 1970. -/

namespace Callio.CallReports

open Store

/-! ## Rows -/

structure LifecycleEvent where
  callId : Nat
  eventType : String
  occurredAt : Nat
  deriving DecidableEq, Repr

/-- A row of `callsInRange`. -/
structure ReportRow extends Call where
  /-- The moment an agent first answered. -/
  agentAnsweredAt : Option Nat
  deriving DecidableEq, Repr

inductive Interval
  | hour | day
  deriving DecidableEq, Repr

structure Request where
  from_ : Int
  to_ : Int
  interval : Interval
  utcOffsetMinutes : Int := 0
  serviceLevelSeconds : Nat := 20
  queueId : Option Nat := none
  channelId : Option Nat := none
  deriving DecidableEq, Repr

/-- `SELECT MIN(e.occurred_at) .. WHERE e.call_id = c.id AND e.event_type = 'inbound_accepted'`. -/
def agentAnsweredAt (events : List LifecycleEvent) (callId : Nat) : Option Nat :=
  ((events.filter fun e => e.callId = callId ∧ e.eventType = "inbound_accepted").map (·.occurredAt)).min?

/-- The tenant's calls created in `[from, to)`. -/
def callsInRange (calls : List Call) (events : List LifecycleEvent) (tenantId : Nat) (r : Request) : List ReportRow :=
  (calls.filter fun c => c.tenantId = tenantId ∧ r.from_ ≤ c.createdAt ∧ c.createdAt < r.to_ ∧
    (r.queueId.isNone ∨ c.queueId = r.queueId) ∧ (r.channelId.isNone ∨ some c.channelId = r.channelId)).map
      fun c => { c with agentAnsweredAt := agentAnsweredAt events c.id }

/-! ## Buckets -/

structure ServiceLevel where
  within : Nat := 0
  of : Nat := 0
  deriving DecidableEq, Repr

structure Wait where
  sum : Nat := 0
  n : Nat := 0
  max : Nat := 0
  deriving DecidableEq, Repr

structure Talk where
  sum : Nat := 0
  n : Nat := 0
  deriving DecidableEq, Repr

/-- `emptyBucket` has every count at zero. -/
structure Bucket where
  inbound : Nat := 0
  answered : Nat := 0
  abandoned : Nat := 0
  missed : Nat := 0
  inProgress : Nat := 0
  outbound : Nat := 0
  outboundConnected : Nat := 0
  serviceLevel : ServiceLevel := {}
  wait : Wait := {}
  talk : Talk := {}
  deriving DecidableEq, Repr

def emptyBucket : Bucket := {}

/-- `Math.round` of a quotient, halves up. -/
def roundQuotient (a b : Nat) : Nat := (2 * a + b) / (2 * b)

/-- `Math.max(0, Math.round((b - a) / 1000))`. -/
def secondsBetween (a b : Nat) : Nat := roundQuotient (b - a) 1000

def avg (sum n : Nat) : Option Nat := if n ≠ 0 then some (roundQuotient sum n) else none

/-- Talk time of a call that is over. -/
def addTalk (b : Bucket) (call : ReportRow) : Bucket :=
  if call.ended then { b with talk := ⟨b.talk.sum + call.callDuration, b.talk.n + 1⟩ } else b

def addOutbound (b : Bucket) (call : ReportRow) : Bucket :=
  let b := { b with outbound := b.outbound + 1 }
  if call.answeredAt.isSome then addTalk { b with outboundConnected := b.outboundConnected + 1 } call else b

def addWait (b : Bucket) (call : ReportRow) (answeredAt : Nat) : Bucket :=
  match call.queuedAt with
  | some queuedAt =>
    let wait := secondsBetween queuedAt answeredAt
    { b with wait := ⟨b.wait.sum + wait, b.wait.n + 1, max b.wait.max wait⟩ }
  | none => b

/-- What became of an inbound call. -/
def addOutcome (b : Bucket) (call : ReportRow) : Bucket :=
  match call.agentAnsweredAt with
  | some answeredAt => addWait (addTalk { b with answered := b.answered + 1 } call) call answeredAt
  | none =>
    if !call.ended then { b with inProgress := b.inProgress + 1 }
    else if call.terminatedBy = some .customer then { b with abandoned := b.abandoned + 1 }
    else { b with missed := b.missed + 1 }

/-- Answered within `slSeconds` of entering the queue. -/
def isWithin (call : ReportRow) (slSeconds queuedAt : Nat) : Bool :=
  call.agentAnsweredAt.any fun answeredAt => secondsBetween queuedAt answeredAt ≤ slSeconds

def addServiceLevel (b : Bucket) (call : ReportRow) (slSeconds : Nat) : Bucket :=
  match call.queuedAt with
  | some queuedAt =>
    if call.agentAnsweredAt.isSome || call.ended then
      { b with serviceLevel :=
        ⟨if isWithin call slSeconds queuedAt then b.serviceLevel.within + 1 else b.serviceLevel.within,
          b.serviceLevel.of + 1⟩ }
    else b
  | none => b

def add (slSeconds : Nat) (b : Bucket) (call : ReportRow) : Bucket :=
  if call.direction = .outbound then addOutbound b call
  else addServiceLevel (addOutcome { b with inbound := b.inbound + 1 } call) call slSeconds

/-! ## The report -/

structure View where
  inbound : Nat
  answered : Nat
  abandoned : Nat
  missed : Nat
  inProgress : Nat
  outbound : Nat
  outboundConnected : Nat
  serviceLevelPercent : Option Rat
  avgWaitSeconds : Option Nat
  maxWaitSeconds : Option Nat
  talkSeconds : Nat
  avgTalkSeconds : Option Nat
  deriving DecidableEq, Repr

def view (b : Bucket) : View where
  inbound := b.inbound
  answered := b.answered
  abandoned := b.abandoned
  missed := b.missed
  inProgress := b.inProgress
  outbound := b.outbound
  outboundConnected := b.outboundConnected
  serviceLevelPercent :=
    if b.serviceLevel.of ≠ 0 then
      some ((roundQuotient (1000 * b.serviceLevel.within) b.serviceLevel.of : Rat) / 10)
    else none
  avgWaitSeconds := avg b.wait.sum b.wait.n
  maxWaitSeconds := if b.wait.n ≠ 0 then some b.wait.max else none
  talkSeconds := b.talk.sum
  avgTalkSeconds := avg b.talk.sum b.talk.n

def Interval.step : Interval → Int
  | .hour => 3600000
  | .day => 86400000

theorem Interval.step_pos (interval : Interval) : 0 < interval.step := by
  cases interval <;> decide

def Request.offset (r : Request) : Int := r.utcOffsetMinutes * 60000

def Request.bucketStart (r : Request) (t : Int) : Int := (t + r.offset) / r.interval.step * r.interval.step - r.offset

/-- The starts from `t` on. -/
def Request.startsFrom (r : Request) (t : Int) : List Int :=
  if t < r.to_ then t :: r.startsFrom (t + r.interval.step) else []
  termination_by (r.to_ - t).toNat
  decreasing_by
    have hstep := r.interval.step_pos
    omega

def Request.starts (r : Request) : List Int := r.startsFrom (r.bucketStart r.from_)

/-- The totals and the buckets, counted. -/
structure Tally where
  totals : Bucket
  buckets : List (Int × Bucket)

/-- Every row into the totals, and into its bucket if it has one. -/
def tally (r : Request) (rows : List ReportRow) : Tally where
  totals := rows.foldl (add r.serviceLevelSeconds) emptyBucket
  buckets := Buckets.sort (fun call => r.bucketStart call.createdAt) (add r.serviceLevelSeconds) rows
    (r.starts.map fun t => (t, emptyBucket))

/-- `calls`, before what it counted is viewed. -/
def count (allCalls : List Call) (events : List LifecycleEvent) (tenantId : Nat) (r : Request) : Tally :=
  tally r (callsInRange allCalls events tenantId r)

structure Report where
  totals : View
  buckets : List (Int × View)

def calls (allCalls : List Call) (events : List LifecycleEvent) (tenantId : Nat) (r : Request) : Report :=
  let counted := count allCalls events tenantId r
  { totals := view counted.totals, buckets := counted.buckets.map fun b => (b.1, view b.2) }

end Callio.CallReports
