import Mathlib.Data.List.Sort
import Callio.Concurrency.Protocol
import Callio.Store.Table

/-! The outbox (`OutboxRepository`, `OutboxDispatcher`): events awaiting delivery,
the workers that POST them to their consumers, and what consumers ask for. A row's
id stands for its `event_id`, which is unique too. -/

namespace Callio.Outbox

open Concurrency Store

/-! ## Tables -/

inductive Status
  | pending | delivered | failed
  deriving DecidableEq, Repr

/-- The `payload` column: parsed by the driver, or text. -/
inductive Payload
  | parsed (json : String)
  | text (s : String)
  deriving DecidableEq, Repr

/-- A row of `webhook_deliveries`. -/
structure Delivery where
  consumerId : Nat
  eventType : String
  dedupeKey : Option String := none
  payload : Payload
  status : Status := .pending
  attempts : Nat := 0
  nextAttemptAt : Nat
  lastResponseStatus : Option Nat := none
  lastError : Option String := none
  deliveredAt : Option Nat := none
  deriving DecidableEq, Repr

/-- A row of `consumers`; the secret is the ciphertext's parts between its colons. -/
structure Consumer where
  eventWebhookUrl : Option String
  eventWebhookSecret : Option (List String)
  active : Bool
  deriving DecidableEq, Repr

/-! ## What is read -/

/-- The primitives outside: AES-256-GCM under the master key, which throws on a
ciphertext that is not its own, and `JSON.parse`. -/
structure Primitives where
  decipher : (iv tag data : String) → Option String
  parseJson : String → Option String

structure Webhook where
  url : String
  secret : Option String
  deriving DecidableEq, Repr

section reading

variable (lib : Primitives)

/-- `none`: it throws. -/
def decryptSecret : List String → Option String
  | version :: iv :: tag :: data :: _ =>
    if version ≠ "v1" ∨ iv = "" ∨ tag = "" then none else lib.decipher iv tag data
  | _ => none

/-- `getWebhookConfig` of the row found; `none`: it throws. -/
def getWebhookConfig : Option Consumer → Option (Option Webhook)
  | none => some none
  | some consumer =>
    match consumer.eventWebhookUrl with
    | none => some none
    | some url =>
      match consumer.eventWebhookSecret with
      | none => some (some ⟨url, none⟩)
      | some secret => (decryptSecret lib secret).map fun plain => some ⟨url, some plain⟩

def readPayload : Payload → Option String
  | .parsed json => some json
  | .text s => lib.parseJson s

end reading

/-! ## Delivering -/

/-- The consumer's answer to a request, or the error's text. -/
inductive Answer
  | status (code : Nat)
  | error (message : String)
  deriving DecidableEq, Repr

def Answer.ok : Answer → Bool
  | status code => 200 ≤ code && code < 300
  | error _ => false

/-- How a write ends: `refused`, it throws and nothing was written; `lost`, it
was written and throws. -/
inductive Write
  | done
  | refused (message : String)
  | lost (message : String)
  deriving DecidableEq, Repr

def Write.applies : Write → Bool
  | refused _ => false
  | _ => true

/-- The error's text, when the write throws. -/
def Write.thrown : Write → Option String
  | done => none
  | refused message | lost message => some message

structure Request where
  url : String
  eventType : String
  /-- Signs the body. -/
  secret : Option String
  body : String
  deriving DecidableEq, Repr

/-- Seconds until the next attempt, by attempts made so far. -/
def backoffSeconds : List Nat := [5, 15, 60, 300, 900, 1800, 3600, 3600, 3600, 3600, 3600]

def maxAttempts : Nat := backoffSeconds.length + 1

def attemptsMade (d : Delivery) : Nat := d.attempts + 1

def giveUp (d : Delivery) : Bool := maxAttempts ≤ attemptsMade d

theorem giveUp_iff {d : Delivery} : giveUp d = true ↔ maxAttempts ≤ attemptsMade d := by simp [giveUp]

/-- `nextAttemptInSeconds`; `undefined`, beyond the table, is `none` as well. -/
def nextAttemptIn (d : Delivery) : Option Nat :=
  if giveUp d then none else backoffSeconds[attemptsMade d - 1]?

/-! ## State -/

/-- What has happened to events; `ι` names the ticks. -/
inductive Happening (ι : Type)
  | read (i : ι) (ids : List Nat)
  | answered (i : ι) (id : Nat) (answer : Answer)
  /-- A failed attempt was counted. -/
  | counted (i : ι) (id : Nat)
  | redelivered (id : Nat)
  deriving DecidableEq, Repr

structure World (ι : Type) where
  deliveries : Table Delivery
  consumers : Nat → Option Consumer
  /-- In seconds, as `NOW()`. -/
  now : Nat
  /-- The dispatcher lease's holder. -/
  lease : Option Nat := none
  running : Nat → Bool := fun _ => false
  stopped : Nat → Bool := fun _ => false
  /-- Newest first. -/
  history : List (Happening ι) := []

/-- The rows `findDue` returns. -/
structure Batch where
  rows : List (Nat × Delivery)
  nodup : (rows.map Prod.fst).Nodup

section findDue

variable {ι : Type} (w : World ι)

/-- Its consumer has a webhook URL and is active, and it is PENDING. -/
def World.awaits (d : Delivery) : Bool :=
  d.status = .pending && (w.consumers d.consumerId).any fun c => c.eventWebhookUrl.isSome && c.active

def World.due (d : Delivery) : Bool := w.awaits d && d.nextAttemptAt ≤ w.now

/-- ORDER BY next_attempt_at ASC, id ASC. -/
def Precedes (a b : Nat × Delivery) : Prop :=
  a.2.nextAttemptAt < b.2.nextAttemptAt ∨ a.2.nextAttemptAt = b.2.nextAttemptAt ∧ a.1 ≤ b.1

instance : DecidableRel Precedes := fun _ _ => inferInstanceAs (Decidable (_ ∨ _))

def World.rows : List (Nat × Delivery) :=
  (List.range w.deliveries.nextId).filterMap fun id => (w.deliveries.get id).map (id, ·)

def safeLimit (limit : Nat) : Nat := max 1 (min (if limit = 0 then 50 else limit) 500)

def World.findDue (limit : Nat) : List (Nat × Delivery) :=
  ((w.rows.filter fun r => w.due r.2).insertionSort Precedes).take (safeLimit limit)

variable {w} in
theorem World.mem_rows {r : Nat × Delivery} : r ∈ w.rows ↔ w.deliveries.get r.1 = some r.2 := by
  simp only [World.rows, List.mem_filterMap, List.mem_range, Option.map_eq_some_iff]
  constructor
  · rintro ⟨id, _, d, hd, rfl⟩
    exact hd
  · intro h
    exact ⟨r.1, Table.lt_nextId h, r.2, h, rfl⟩

theorem World.rows_nodup : (w.rows.map Prod.fst).Nodup := by
  have hsub : (w.rows.map Prod.fst).Sublist (List.range w.deliveries.nextId) := by
    unfold World.rows
    induction List.range w.deliveries.nextId with
    | nil => exact List.Sublist.refl _
    | cons id ids ih =>
      cases h : w.deliveries.get id with
      | none => simpa [h] using ih.cons id
      | some d => simpa [h] using ih.cons_cons id
  exact hsub.nodup List.nodup_range

theorem World.findDue_nodup (limit : Nat) : ((w.findDue limit).map Prod.fst).Nodup := by
  have hfilter : ((w.rows.filter fun r => w.due r.2).map Prod.fst).Nodup :=
    (List.filter_sublist.map _).nodup w.rows_nodup
  have hsorted := ((List.perm_insertionSort Precedes _).map Prod.fst).nodup_iff.mpr hfilter
  exact ((List.take_sublist _ _).map _).nodup hsorted

variable {w} in
/-- A due row is the table's, and pending. -/
theorem World.of_mem_findDue {limit : Nat} {r : Nat × Delivery} (h : r ∈ w.findDue limit) :
    w.deliveries.get r.1 = some r.2 ∧ w.due r.2 = true := by
  have hfilter := (List.mem_insertionSort Precedes).mp (List.mem_of_mem_take h)
  rw [List.mem_filter, World.mem_rows] at hfilter
  exact hfilter

variable {w} in
theorem World.status_of_due {d : Delivery} (h : w.due d = true) : d.status = .pending := by
  simp only [World.due, World.awaits, Bool.and_eq_true, decide_eq_true_eq] at h
  exact h.1.1

end findDue

/-! ## Commands -/

inductive Op (ι : Type)
  /-- The looks at `_running` and `_stopped`, and `_running` set. -/
  | enter (n : Nat)
  | leave (n : Nat)
  | renewLease (n : Nat)
  | takeLease (n : Nat)
  | findDue (i : ι) (limit : Nat)
  | isStopped (n : Nat)
  | getWebhookConfig (consumerId : Nat)
  | post (i : ι) (id : Nat) (request : Request) (answer : Answer)
  | markDelivered (i : ι) (id responseStatus : Nat) (write : Write)
  | markAttemptFailed (i : ι) (id : Nat) (responseStatus : Option Nat) (error : String)
      (nextAttemptInSeconds : Option Nat) (write : Write)
  | enqueue (consumerId : Nat) (eventType : String) (payload : Payload) (dedupeKey : Option String)
  | redeliver (consumerId id : Nat)
  | stop (n : Nat)
  | dropLease (n : Nat)
  /-- The lease's TTL runs out. -/
  | lapse
  | pass (seconds : Nat)
  deriving DecidableEq

namespace Op

variable {ι : Type}

abbrev Res : Op ι → Type
  | enter _ | renewLease _ | takeLease _ | isStopped _ | redeliver _ _ => Bool
  | findDue _ _ => Batch
  | getWebhookConfig _ => Option (Option Webhook)
  | post _ _ _ _ => Answer
  | markDelivered _ _ _ _ | markAttemptFailed _ _ _ _ _ _ => Option String
  | enqueue _ _ _ _ => Option Nat
  | _ => Unit

/-- `markDelivered`'s row. -/
def delivered (now responseStatus : Nat) (d : Delivery) : Delivery :=
  { d with status := .delivered, attempts := d.attempts + 1, lastResponseStatus := some responseStatus,
           lastError := none, deliveredAt := some now }

/-- `markAttemptFailed`'s row: the next attempt scheduled, or given up. -/
def attemptFailed (now : Nat) (responseStatus : Option Nat) (error : String)
    (nextAttemptInSeconds : Option Nat) (d : Delivery) : Delivery :=
  let d := { d with attempts := d.attempts + 1, lastResponseStatus := responseStatus,
                    lastError := some (error.take 2000).toString }
  match nextAttemptInSeconds with
  | none => { d with status := .failed }
  | some seconds => { d with nextAttemptAt := now + seconds }

/-- `redeliver`'s row. -/
def restarted (now : Nat) (d : Delivery) : Delivery :=
  { d with status := .pending, attempts := 0, nextAttemptAt := now, lastError := none }

def exec (lib : Primitives) : (op : Op ι) → World ι → World ι × op.Res
  | enter n, w =>
      if w.running n || w.stopped n then (w, false)
      else ({ w with running := Function.update w.running n true }, true)
  | leave n, w => ({ w with running := Function.update w.running n false }, ())
  | renewLease n, w => (w, w.lease = some n)
  | takeLease n, w => if w.lease.isNone then ({ w with lease := some n }, true) else (w, false)
  | findDue i limit, w =>
      ({ w with history := .read i ((w.findDue limit).map Prod.fst) :: w.history },
        ⟨w.findDue limit, w.findDue_nodup limit⟩)
  | isStopped n, w => (w, w.stopped n)
  | getWebhookConfig consumerId, w => (w, Outbox.getWebhookConfig lib (w.consumers consumerId))
  | post i id _ answer, w => ({ w with history := .answered i id answer :: w.history }, answer)
  | markDelivered _ id responseStatus write, w =>
      (if write.applies then
        { w with deliveries := w.deliveries.modify id (delivered w.now responseStatus) }
      else w, write.thrown)
  | markAttemptFailed i id responseStatus error nextAttemptInSeconds write, w =>
      (if write.applies && (w.deliveries.get id).isSome then
        { w with
          deliveries := w.deliveries.modify id (attemptFailed w.now responseStatus error nextAttemptInSeconds)
          history := .counted i id :: w.history }
      else w, write.thrown)
  | enqueue consumerId eventType payload dedupeKey, w =>
      if dedupeKey.isSome && w.deliveries.any fun _ d => d.dedupeKey = dedupeKey then (w, none)
      else
        ({ w with deliveries := w.deliveries.insert fun _ =>
            { consumerId, eventType, dedupeKey, payload, nextAttemptAt := w.now } }, some w.deliveries.nextId)
  | redeliver consumerId id, w =>
      let found := (w.deliveries.get id).any (·.consumerId = consumerId)
      (if found then
        { w with deliveries := w.deliveries.modify id (restarted w.now)
                 history := .redelivered id :: w.history }
      else w, found)
  | stop n, w => ({ w with stopped := Function.update w.stopped n true }, ())
  | dropLease n, w => (if w.lease = some n then { w with lease := none } else w, ())
  | lapse, w => ({ w with lease := none }, ())
  | pass seconds, w => ({ w with now := w.now + seconds }, ())

end Op

abbrev Code (ι : Type) := Prog (@Op.Res ι)

/-! ## The dispatcher -/

/-- How one delivery goes: the answer, and the writes after it, which may throw. -/
structure Fate where
  answer : Answer
  write : Write := .done
  rewrite : Write := .done
  deriving DecidableEq

section dispatcher

variable {ι : Type} (lib : Primitives) (i : ι)

def batchSize : Nat := 50

/-- `#failed`, and the text it throws. -/
def failed (id : Nat) (d : Delivery) (status : Option Nat) (error : String) (write : Write) :
    Code ι (Option String) :=
  .cmd (Op.markAttemptFailed i id status error (nextAttemptIn d) write)

/-- What an answer with a status leads to first, and the text it throws. -/
def recordAnswer (id : Nat) (d : Delivery) (code : Nat) (write : Write) : Code ι (Option String) :=
  if (Answer.status code).ok then .cmd (Op.markDelivered i id code write)
  else failed i id d (some code) s!"HTTP {code}" write

/-- `#deliver`; false if it throws. -/
def deliver (id : Nat) (d : Delivery) (webhook : Option Webhook) (fate : Fate) : Code ι Bool :=
  match webhook with
  | none => return true
  | some webhook =>
    match readPayload lib d.payload with
    | none => return false
    | some body => do
      let request : Request := ⟨webhook.url, d.eventType, webhook.secret, body⟩
      match ← .cmd (Op.post i id request fate.answer) with
      | .status code =>
        match ← recordAnswer i id d code fate.write with
        | none => return true
        | some error => return (← failed i id d (some code) error fate.rewrite).isNone
      | .error message => return (← failed i id d none message fate.write).isNone

/-- The batch, one after the other, until the worker is stopped or one throws. -/
def deliverAll (n : Nat) (fates : Nat → Fate) :
    List (Nat × Delivery) → List (Nat × Option Webhook) → Code ι Unit
  | [], _ => return ()
  | (id, d) :: due, configs => do
    if ← .cmd (Op.isStopped n) then return ()
    match configs.lookup d.consumerId with
    | some webhook =>
      if ← deliver lib i id d webhook (fates id) then deliverAll n fates due configs
    | none =>
      match ← .cmd (Op.getWebhookConfig d.consumerId) with
      | none => return ()
      | some webhook =>
        if ← deliver lib i id d webhook (fates id) then
          deliverAll n fates due ((d.consumerId, webhook) :: configs)

def holdLease (n : Nat) : Code ι Bool := do
  if ← .cmd (Op.renewLease n) then return true
  .cmd (Op.takeLease n)

/-- `#tick` of worker `n`. -/
def tick (n : Nat) (fates : Nat → Fate) : Code ι Unit := do
  if ← .cmd (Op.enter n) then
    if ← holdLease n then
      let due ← .cmd (Op.findDue i batchSize)
      deliverAll lib i n fates due.rows []
    .cmd (Op.leave n)

end dispatcher

/-! ## What runs -/

inductive Task
  | tick (n : Nat) (fates : Nat → Fate)
  | enqueue (consumerId : Nat) (eventType : String) (payload : Payload) (dedupeKey : Option String)
  | redeliver (consumerId id : Nat)
  | stop (n : Nat)
  | lapse
  | pass (seconds : Nat)

def Task.code {ι : Type} (lib : Primitives) (i : ι) : Task → Code ι Unit
  | tick n fates => Outbox.tick lib i n fates
  | enqueue consumerId eventType payload dedupeKey => do
    let _ ← .cmd (Op.enqueue consumerId eventType payload dedupeKey)
  | redeliver consumerId id => do
    let _ ← .cmd (Op.redeliver consumerId id)
  | stop n => do
    .cmd (Op.stop n)
    .cmd (Op.dropLease n)
  | lapse => .cmd Op.lapse
  | pass seconds => .cmd (Op.pass seconds)

end Callio.Outbox
