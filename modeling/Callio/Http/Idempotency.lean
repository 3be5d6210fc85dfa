import Callio.Concurrency.Protocol

/-! The Idempotency-Key header on Management API POSTs (`idempotencyPreHandler`,
`idempotencyOnSend`, `IdempotencyKeyRepository`), for one key of one consumer: its row
of `api_idempotency_keys`, and the requests that carry it. -/

namespace Callio.Idempotency

open Concurrency

/-! ## Requests and responses -/

/-- What goes into the fingerprint: no method or path has a blank or a line end, so its
text determines the three. -/
structure Content where
  method : String
  path : String
  /-- `JSON.stringify(request.body ?? null)`. -/
  body : String
  deriving DecidableEq, Repr

/-- What the handler sends. -/
structure Response where
  statusCode : Nat
  payload : Option String
  deriving DecidableEq, Repr

structure Request where
  content : Content
  /-- The query string, which the fingerprint leaves out. -/
  query : Option String := none
  /-- `apiKeyAuth` set `request.consumer`. -/
  authenticated : Bool := true
  /-- `config.idempotent` of the route. -/
  idempotent : Bool := true
  key : Option String
  /-- What its handler answers, if it runs. -/
  response : Response
  deriving DecidableEq, Repr

/-- What the client gets. -/
inductive Reply
  | sent (response : Response)
  /-- A stored response, with `Idempotent-Replayed: true`. -/
  | replayed (status : Nat) (body : Option String)
  | error (status : Nat) (code message : String) (retryAfter : Option String)
  deriving DecidableEq, Repr

def invalidKey : Reply := .error 400 "invalid_request" "Idempotency-Key must be 1-255 characters" none

def reused : Reply :=
  .error 422 "idempotency_key_reused" "This Idempotency-Key was used with a different request" none

def inUse : Reply :=
  .error 409 "idempotency_key_in_use" "A request with this Idempotency-Key is still in progress" (some "1")

/-- The same once both attempts at the key were overtaken. -/
def inUseAfterAll : Reply :=
  .error 409 "idempotency_key_in_use" "A request with this Idempotency-Key is still in progress" none

/-- SHA-256, and `JSON.parse` with the text of what it parsed. -/
structure Primitives where
  digest : Content → String
  parseJson : String → Option String

/-! ## The row -/

inductive Status
  | inProgress | completed
  deriving DecidableEq, Repr

structure Row where
  id : Nat
  requestHash : String
  status : Status := .inProgress
  responseStatus : Nat := 0
  responseBody : Option String := none
  expiresAt : Nat
  updatedAt : Nat
  deriving DecidableEq, Repr

/-- What `find` selects. -/
structure Found where
  id : Nat
  requestHash : String
  status : Status
  responseStatus : Nat
  responseBody : Option String
  expired : Bool
  idleSeconds : Nat
  deriving DecidableEq, Repr

def Row.found (now : Nat) (row : Row) : Found where
  id := row.id
  requestHash := row.requestHash
  status := row.status
  responseStatus := row.responseStatus
  responseBody := row.responseBody
  expired := row.expiresAt ≤ now
  idleSeconds := now - row.updatedAt

def ttlSeconds : Nat := 24 * 3600

def abandonedAfterSeconds : Nat := 120

/-- What has happened to the key's requests; `ι` names them. -/
inductive Entry (ι : Type)
  /-- The row was claimed or taken over. -/
  | claimed (i : ι) (id time : Nat)
  | found (i : ι)
  | ran (i : ι)
  | ended (i : ι)
  | replied (i : ι) (reply : Reply)
  deriving DecidableEq, Repr

structure World (ι : Type) where
  row : Option Row := none
  nextId : Nat := 1
  /-- In seconds, as `NOW()`. -/
  now : Nat := 0
  /-- Newest first. -/
  log : List (Entry ι) := []
  deriving DecidableEq

inductive Op (ι : Type)
  | claim (i : ι) (requestHash : String) (ttlSeconds : Nat)
  | find (i : ι)
  | takeOver (i : ι) (id staleSeconds : Nat)
  | remove (id : Nat)
  /-- The route's handler. -/
  | handle (i : ι)
  /-- `onSend`'s write: `complete`, or `remove` after a 5xx. -/
  | complete (i : ι) (id responseStatus : Nat) (responseBody : Option String)
  | removeFailed (i : ι) (id : Nat)
  | reply (i : ι) (reply : Reply)
  /-- `purgeExpired`; `hits`: the row is among the first thousand. -/
  | purgeExpired (hits : Bool)
  | pass (seconds : Nat)
  deriving DecidableEq

namespace Op

variable {ι : Type}

abbrev Res : Op ι → Type
  | claim _ _ _ => Option Nat
  | find _ => Option Found
  | takeOver _ _ _ => Bool
  | _ => Unit

/-- `DELETE … WHERE id = ?` -/
def delete (id : Nat) (w : World ι) : World ι :=
  { w with row := w.row.filter fun row => row.id ≠ id }

def exec : (op : Op ι) → World ι → World ι × op.Res
  | claim i requestHash ttlSeconds, w =>
      match w.row with
      | some _ => (w, none)
      | none =>
        ({ w with
            row := some { id := w.nextId, requestHash, expiresAt := w.now + ttlSeconds, updatedAt := w.now }
            nextId := w.nextId + 1
            log := .claimed i w.nextId w.now :: w.log }, some w.nextId)
  | find i, w => ({ w with log := .found i :: w.log }, w.row.map (·.found w.now))
  | takeOver i id staleSeconds, w =>
      match w.row with
      | some row =>
        if row.id = id ∧ row.status = .inProgress ∧ row.updatedAt + staleSeconds ≤ w.now then
          ({ w with row := some { row with updatedAt := w.now }, log := .claimed i id w.now :: w.log }, true)
        else (w, false)
      | none => (w, false)
  | remove id, w => (delete id w, ())
  | handle i, w => ({ w with log := .ran i :: w.log }, ())
  | complete i id responseStatus responseBody, w =>
      ({ w with
          row := w.row.map fun row =>
            if row.id = id then { row with status := .completed, responseStatus, responseBody, updatedAt := w.now }
            else row
          log := .ended i :: w.log }, ())
  | removeFailed i id, w => ({ delete id w with log := .ended i :: w.log }, ())
  | reply i answer, w => ({ w with log := .replied i answer :: w.log }, ())
  | purgeExpired hits, w =>
      ({ w with row := w.row.filter fun row => !(hits && row.expiresAt ≤ w.now) }, ())
  | pass seconds, w => ({ w with now := w.now + seconds }, ())

end Op

abbrev Code (ι : Type) := Prog (@Op.Res ι)

/-! ## The hooks -/

/-- What `idempotencyPreHandler` makes of a row it found, or found removed. -/
inductive Verdict
  | claimAgain
  | expired (id : Nat)
  | abandoned (id : Nat)
  | reply (reply : Reply)
  deriving DecidableEq, Repr

def judge (requestHash : String) : Option Found → Verdict
  | none => .claimAgain
  | some row =>
    if row.expired then .expired row.id
    else if row.requestHash ≠ requestHash then .reply reused
    else if row.status = .completed then .reply (.replayed row.responseStatus row.responseBody)
    else if abandonedAfterSeconds ≤ row.idleSeconds then .abandoned row.id
    else .reply inUse

/-- How the hook ends: the request goes on to its handler, with the row it claimed if
there is one, or it is answered. -/
inductive Passed
  | runs (id : Option Nat)
  | answered (reply : Reply)
  deriving DecidableEq, Repr

section hooks

variable {ι : Type} (lib : Primitives) (i : ι)

/-- The loop over attempts at the key. -/
def attempt (requestHash : String) : Nat → Code ι Passed
  | 0 => return .answered inUseAfterAll
  | attempts + 1 => do
    match ← .cmd (Op.claim i requestHash ttlSeconds) with
    | some id => return .runs (some id)
    | none =>
      match judge requestHash (← .cmd (Op.find i)) with
      | .claimAgain => attempt requestHash attempts
      | .expired id =>
        .cmd (Op.remove id)
        attempt requestHash attempts
      | .abandoned id =>
        if ← .cmd (Op.takeOver i id abandonedAfterSeconds) then return .runs (some id)
        else return .answered inUse
      | .reply reply => return .answered reply

def idempotencyPreHandler (r : Request) : Code ι Passed :=
  if r.content.method ≠ "POST" ∨ !r.authenticated ∨ !r.idempotent then return .runs none
  else
    match r.key with
    | none => return .runs none
    | some key =>
      if key.length = 0 ∨ 255 < key.length then return .answered invalidKey
      else attempt i (lib.digest r.content) 2

/-- `onSend`'s body: the payload if it is JSON. -/
def storedBody (r : Response) : Option String := r.payload.bind lib.parseJson

def idempotencyOnSend (id : Option Nat) (r : Response) : Code ι Unit :=
  match id with
  | none => return ()
  | some id =>
    if 500 ≤ r.statusCode then .cmd (Op.removeFailed i id)
    else .cmd (Op.complete i id r.statusCode (storedBody lib r))

/-- A request, from the hook to the reply. -/
def serve (r : Request) : Code ι Unit := do
  match ← idempotencyPreHandler lib i r with
  | .answered reply => .cmd (Op.reply i reply)
  | .runs id =>
    .cmd (Op.handle i)
    idempotencyOnSend lib i id r.response
    .cmd (Op.reply i (.sent r.response))

end hooks

inductive Task
  | request (r : Request)
  | purgeExpired (hits : Bool)
  | pass (seconds : Nat)
  deriving DecidableEq, Repr

def Task.code {ι : Type} (lib : Primitives) (i : ι) : Task → Code ι Unit
  | request r => serve lib i r
  | purgeExpired hits => .cmd (Op.purgeExpired hits)
  | pass seconds => .cmd (Op.pass seconds)

end Callio.Idempotency
