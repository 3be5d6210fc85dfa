import Callio.Concurrency.Protocol
import Callio.Js.Number
import Callio.Store.Table

/-! A consumer's API keys and signing keys (`ConsumerProvisioning.js`): issuing one,
and revoking one unless it is the last. -/

namespace Callio.ConsumerProvisioning

open Js Concurrency Store

/-! ## Keys -/

/-- A key of a consumer, as the guarded revokes see it. -/
class Credential (α : Type) where
  consumerId : α → Nat
  revokedAt : α → Option Nat
  /-- Whether the guard counts it. -/
  usable (now : Nat) : α → Bool
  /-- `revoked_at = NOW()`. -/
  revoke (now : Nat) : α → α
  consumerId_revoke : ∀ now key, consumerId (revoke now key) = consumerId key
  revokedAt_revoke : ∀ now key, revokedAt (revoke now key) = some now
  revokedAt_of_usable : ∀ {now key}, usable now key = true → revokedAt key = none

open Credential

/-- `consumer_api_keys`. -/
structure ApiKey where
  consumerId : Nat
  expiresAt : Option Nat
  revokedAt : Option Nat := none
  deriving DecidableEq

/-- `usableApiKey`. -/
def ApiKey.usable (now : Nat) (key : ApiKey) : Bool := key.revokedAt.isNone && key.expiresAt.all (now < ·)

instance : Credential ApiKey where
  consumerId := ApiKey.consumerId
  revokedAt := ApiKey.revokedAt
  usable := ApiKey.usable
  revoke now key := { key with revokedAt := some now }
  consumerId_revoke _ _ := rfl
  revokedAt_revoke _ _ := rfl
  revokedAt_of_usable h := Option.isNone_iff_eq_none.mp (Bool.and_eq_true_iff.mp h).1

/-- `consumer_signing_keys`. -/
structure SigningKey where
  consumerId : Nat
  kid : Text
  revokedAt : Option Nat := none
  deriving DecidableEq

instance : Credential SigningKey where
  consumerId := SigningKey.consumerId
  revokedAt := SigningKey.revokedAt
  usable _ key := key.revokedAt.isNone
  revoke now key := { key with revokedAt := some now }
  consumerId_revoke _ _ := rfl
  revokedAt_revoke _ _ := rfl
  revokedAt_of_usable h := Option.isNone_iff_eq_none.mp h

structure Db where
  apiKeys : Table ApiKey := .empty
  signingKeys : Table SigningKey := .empty
  /-- `NOW()`, in seconds. -/
  now : Nat := 0
  /-- The `consumer:signing_key_revoked` events. -/
  emitted : List (Nat × Text) := []

/-! ## The guarded update -/

section guarded

variable {α : Type} [Credential α] (t : Table α) (now c : Nat) (named : Nat → α → Bool)

/-- The rows that a revoke is for. -/
def picked (id : Nat) (key : α) : Bool := consumerId key = c && named id key && (revokedAt key).isNone

/-- The rows that the guard counts. -/
def counted (id : Nat) (key : α) : Bool := consumerId key = c && !named id key && usable now key

/-- The update, and whether it changed a row. -/
def revokeUnlessLast : Table α × Bool :=
  if t.any (picked c named) && t.any (counted now c named) then (t.updateAll (picked c named) (revoke now), true)
  else (t, false)

/-- `SELECT revoked_at`, of the first row. -/
def selectRevokedAt : Option (Option Nat) :=
  (t.filter fun id key => consumerId key = c && named id key).head?.map revokedAt

/-- The consumer has a key to use. -/
def holdsKey : Bool := t.any fun _ key => consumerId key = c && usable now key

end guarded

/-! ## Statements -/

/-- The key a revoke is for. -/
inductive Target
  | apiKey (keyId : Nat)
  | signingKey (kid : Text)
  deriving DecidableEq

/-- `'revoked' | 'last_key' | 'not_found'`. -/
inductive Revocation
  | revoked
  | lastKey
  | notFound
  deriving DecidableEq

/-- What an operation returns. -/
inductive Reply
  | apiKey (row : Option ApiKey)
  | signingKey (kid : Option Text)
  | revocation (r : Revocation)
  deriving DecidableEq

inductive Cmd
  | insertApiKey (consumerId : Nat) (expiresInDays : Option Nat)
  | selectApiKey (id : Nat)
  | listSigningKeys (consumerId : Nat)
  /-- Answers whether the kid was free. -/
  | insertSigningKey (consumerId : Nat) (kid : Text)
  /-- Answers whether a row was affected. -/
  | revoke (consumerId : Nat) (target : Target)
  | revokedAt (consumerId : Nat) (target : Target)
  | emitSigningKeyRevoked (consumerId : Nat) (kid : Text)
  | pass (seconds : Nat)
  /-- The operation returns. -/
  | reply (r : Reply)
  deriving DecidableEq

abbrev Cmd.Res : Cmd → Type
  | insertApiKey _ _ => Nat
  | selectApiKey _ => Option ApiKey
  | listSigningKeys _ => List Text
  | insertSigningKey _ _ | revoke _ _ => Bool
  | revokedAt _ _ => Option (Option Nat)
  | emitSigningKeyRevoked _ _ | pass _ | reply _ => Unit

/-- `expiresInDays ? NOW() + INTERVAL ? DAY : NULL`. -/
def expiry (now : Nat) : Option Nat → Option Nat
  | none | some 0 => none
  | some days => some (now + days * 86400)

section

/-! Kids are compared as their column's collation compares them: by what it makes of
a text. -/

variable (collate : Text → Text)

def namesKid (kid : Text) (_ : Nat) (key : SigningKey) : Bool := collate key.kid = collate kid

def namesId (keyId id : Nat) (_ : ApiKey) : Bool := id = keyId

/-- The consumer has the kid; it may be revoked. -/
def Db.kidTaken (db : Db) (consumerId : Nat) (kid : Text) : Bool :=
  db.signingKeys.any fun id key => key.consumerId = consumerId && namesKid collate kid id key

/-- Fails on a kid that is taken. -/
def Db.insertSigningKey (db : Db) (consumerId : Nat) (kid : Text) : Db × Bool :=
  if db.kidTaken collate consumerId kid then (db, false)
  else ({ db with signingKeys := db.signingKeys.insert fun _ => { consumerId, kid } }, true)

def Db.revoke (db : Db) (consumerId : Nat) : Target → Db × Bool
  | .apiKey keyId =>
    let (apiKeys, won) := revokeUnlessLast db.apiKeys db.now consumerId (namesId keyId)
    ({ db with apiKeys }, won)
  | .signingKey kid =>
    let (signingKeys, won) := revokeUnlessLast db.signingKeys db.now consumerId (namesKid collate kid)
    ({ db with signingKeys }, won)

def Db.revokedAt (db : Db) (consumerId : Nat) : Target → Option (Option Nat)
  | .apiKey keyId => selectRevokedAt db.apiKeys consumerId (namesId keyId)
  | .signingKey kid => selectRevokedAt db.signingKeys consumerId (namesKid collate kid)

def exec (cmd : Cmd) (db : Db) : Db × cmd.Res :=
  match cmd with
  | .insertApiKey consumerId expiresInDays =>
    ({ db with apiKeys := db.apiKeys.insert fun _ => { consumerId, expiresAt := expiry db.now expiresInDays } },
      db.apiKeys.nextId)
  | .selectApiKey id => (db, db.apiKeys.get id)
  | .listSigningKeys consumerId =>
    (db, (db.signingKeys.filter fun _ key => key.consumerId = consumerId).map SigningKey.kid)
  | .insertSigningKey consumerId kid => db.insertSigningKey collate consumerId kid
  | .revoke consumerId target => db.revoke collate consumerId target
  | .revokedAt consumerId target => (db, db.revokedAt collate consumerId target)
  | .emitSigningKeyRevoked consumerId kid => ({ db with emitted := (consumerId, kid) :: db.emitted }, ())
  | .pass seconds => ({ db with now := db.now + seconds }, ())
  | .reply _ => (db, ())

end

abbrev Code := Prog Cmd.Res

/-! ## Issuing -/

def issueApiKeyWithExpiry (consumerId : Nat) (expiresInDays : Option Nat) : Code (Option ApiKey) := do
  let insertId ← .cmd (.insertApiKey consumerId expiresInDays)
  .cmd (Cmd.selectApiKey insertId)

/-- `/^k(\d+)$/`, and its group. -/
def kidNumber : Text → Option Text
  | 'k' :: digits => if digits ≠ [] ∧ digits.all Char.isDigit then some digits else none
  | _ => none

/-- `n.length ? Math.max(...n) : 0`. -/
def largest : List Number → Number
  | [] => .fin 0
  | x :: xs => xs.foldl Number.max x

/-- The next free `k<n>`. -/
def nextKid (numberText : Number → Text) (kids : List Text) : Text :=
  'k' :: numberText ((largest ((kids.filterMap kidNumber).map Number.ofText)).plus 1)

/-- A duplicate is caught. -/
def issueSigningKey (consumerId : Nat) (kid : Text) : Code (Option Text) := do
  if ← .cmd (.insertSigningKey consumerId kid) then return some kid else return none

def issueNextSigningKey (numberText : Number → Text) (consumerId : Nat) (kid : Option Text) : Code (Option Text) :=
  match kid with
  | none | some [] => do
    let kids ← .cmd (.listSigningKeys consumerId)
    issueSigningKey consumerId (nextKid numberText kids)
  | some kid => issueSigningKey consumerId kid

/-! ## Revoking -/

/-- `!row || row.revoked_at ? 'not_found' : 'last_key'`. -/
def Revocation.ofRow : Option (Option Nat) → Revocation
  | none | some (some _) => .notFound
  | some none => .lastKey

/-- The guarded update, and a read where it changed nothing. -/
def revokeGuarded (consumerId : Nat) (target : Target) (announce : Code Unit) : Code Revocation := do
  if ← .cmd (.revoke consumerId target) then
    announce
    return .revoked
  else
    let row ← .cmd (.revokedAt consumerId target)
    return .ofRow row

def revokeApiKeyById (consumerId keyId : Nat) : Code Revocation := revokeGuarded consumerId (.apiKey keyId) (pure ())

def revokeSigningKeyGuarded (consumerId : Nat) (kid : Text) : Code Revocation :=
  revokeGuarded consumerId (.signingKey kid) (.cmd (Cmd.emitSigningKeyRevoked consumerId kid))

/-! ## Operations -/

inductive Task
  | issueApiKey (consumerId : Nat) (expiresInDays : Option Nat)
  | issueSigningKey (consumerId : Nat) (kid : Option Text)
  | revoke (consumerId : Nat) (target : Target)
  | pass (seconds : Nat)

def Task.code (numberText : Number → Text) : Task → Code Unit
  | issueApiKey consumerId expiresInDays =>
    issueApiKeyWithExpiry consumerId expiresInDays >>= fun row => .cmd (Cmd.reply (.apiKey row))
  | issueSigningKey consumerId kid =>
    issueNextSigningKey numberText consumerId kid >>= fun kid => .cmd (Cmd.reply (.signingKey kid))
  | revoke consumerId (.apiKey keyId) =>
    revokeApiKeyById consumerId keyId >>= fun r => .cmd (Cmd.reply (.revocation r))
  | revoke consumerId (.signingKey kid) =>
    revokeSigningKeyGuarded consumerId kid >>= fun r => .cmd (Cmd.reply (.revocation r))
  | pass seconds => .cmd (Cmd.pass seconds)

end Callio.ConsumerProvisioning
