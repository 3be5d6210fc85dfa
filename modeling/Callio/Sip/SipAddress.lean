import Callio.Js.Number

/-! Addresses on the SIP channel (`sipAddress.js`): phone numbers, numbers as a
trunk's carrier sends them, and the trunk's inbound source check. A URI's user
part, which `drachtio-srf` reads, is taken as it is. -/

namespace Callio.SipAddress

open Js

/-! ## Phone numbers -/

/-- `^\d{5,15}$`. -/
def isDigits5to15 (s : Text) : Bool := 5 ≤ s.length && s.length ≤ 15 && s.all Char.isDigit

/-- `PHONE`. -/
def isPhone (s : Text) : Bool :=
  match s with
  | '+' :: digits => isDigits5to15 digits
  | s => isDigits5to15 s

/-- `^00\d{5,15}$`. -/
def isPrefixedPhone (s : Text) : Bool :=
  match s with
  | '0' :: '0' :: digits => isDigits5to15 digits
  | _ => false

/-- `replace(/^00/, '')`. -/
def dropInternationalPrefix (s : Text) : Text :=
  match s with
  | '0' :: '0' :: digits => digits
  | s => s

/-- `+961…`, `961…` and `00961…` (the international prefix) are the same number. -/
def toE164 (value : Option Text) : Option Text :=
  match value with
  | none => none
  | some [] => none
  | some value =>
    let s := trim value
    if !isPhone s && !isPrefixedPhone s then none
    else
      let digits := dropInternationalPrefix (s.filter Char.isDigit)
      if 5 ≤ digits.length then some ('+' :: digits) else none

/-- A trunk's `number_rules`. -/
structure NumberRules where
  countryCode : Option Text := none
  nationalPrefix : Option Text := none
  deriving DecidableEq, Repr

/-- A number as a trunk's carrier sends it, in E.164 terms. -/
def applyNumberRules (value : Option Text) (rules : Option NumberRules) : Option Text :=
  match value, rules.bind (·.countryCode) with
  | none, _ => none
  | some value, none => some value
  | some value, some [] => some value
  | some value, some countryCode =>
    let s := trim value
    if ['+'].isPrefixOf s || ['0', '0'].isPrefixOf s || !decide (IsNumeral s) then some s
    else
      let cc := countryCode.filter Char.isDigit
      if cc.isPrefixOf s then some ('+' :: s)
      else
        let nationalPrefix := (rules.bind (·.nationalPrefix)).getD []
        some ('+' :: cc ++
          if nationalPrefix ≠ [] ∧ nationalPrefix.isPrefixOf s = true then s.drop nationalPrefix.length else s)

/-- The number a call was placed to: the user of the Request-URI, else of `To`. -/
def dialledNumber (uriUser toUser : Option Text) (rules : Option NumberRules) : Option Text :=
  (toE164 (applyNumberRules uriUser rules)).or (toE164 (applyNumberRules toUser rules))

inductive CustomerAddressType
  | e164 | sipUri
  deriving DecidableEq, Repr

structure Caller where
  address : Text
  addressType : CustomerAddressType
  name : Option Text
  deriving DecidableEq, Repr

/-- `name.replace(/^"|"$/g, '').trim() || null`. -/
def callerName (name : Text) : Option Text :=
  let opened := if name.head? = some '"' then name.drop 1 else name
  let closed := if opened.getLast? = some '"' then opened.dropLast else opened
  if trim closed = [] then none else some (trim closed)

/-- The caller: a phone number when the `From` user is one, else the SIP URI. -/
def callerOf (fromUri fromUser fromName : Option Text) (rules : Option NumberRules) : Caller :=
  let name := fromName.bind callerName
  match toE164 (applyNumberRules fromUser rules) with
  | some e164 => ⟨e164, .e164, name⟩
  | none => ⟨fromUri.getD "sip:anonymous@anonymous.invalid".toList, .sipUri, name⟩

/-- The user part of a `sip:` or `sips:` URI. -/
def uriUserPart (address : Text) : Option Text :=
  let scheme := (address.takeWhile (· ≠ ':')).map Char.toLower
  if scheme = "sip".toList ∨ scheme = "sips".toList then
    let rest := (address.dropWhile (· ≠ ':')).drop 1
    let user := rest.takeWhile fun c => c ∉ ['@', ';', '>']
    if user ≠ [] ∧ (rest.dropWhile fun c => c ∉ ['@', ';', '>']).head? = some '@' then some user else none
  else none

/-- The user part to put in an outbound Request-URI. -/
def userPart (address : Text) : Text :=
  match toE164 (some address) with
  | some e164 => e164.drop 1
  | none => (uriUserPart address).getD address

/-! ## The source check -/

/-- An integer from 0 to 255. -/
def octet (p : Number) : Option Nat :=
  match p with
  | .fin q => if q.isInt ∧ 0 ≤ q ∧ q ≤ 255 then some q.num.toNat else none
  | _ => none

def ipv4ToInt (ip : Text) : Option (BitVec 32) :=
  match (ip.splitOn '.').map fun part => octet (.ofText part) with
  | [some a, some b, some c, some d] => some (.ofNat 32 ((a <<< 24) + (b <<< 16) + (c <<< 8) + d))
  | _ => none

/-- `bits === 0 ? 0 : (~0 << (32 - bits)) >>> 0`, where a shift takes its count
modulo 32. -/
def mask (bits : Number) : BitVec 32 :=
  if bits = .fin 0 then 0#32 else BitVec.allOnes 32 <<< ((Number.subFrom 32 bits).toUint32 % 32)

/-- `const [base, bitsRaw] = cidr.split('/')`. -/
def baseOf (cidr : Text) : Text := (cidr.splitOn '/').headD []

def bitsOf (cidr : Text) : Number :=
  match (cidr.splitOn '/')[1]? with
  | none => .fin 32
  | some bitsRaw => .ofText bitsRaw

def admits (ip cidr : Text) : Bool :=
  match ipv4ToInt ip, ipv4ToInt (baseOf cidr) with
  | some ipInt, some baseInt => ipInt &&& mask (bitsOf cidr) = baseInt &&& mask (bitsOf cidr)
  | _, _ => ip = baseOf cidr

/-- `replace(/^::ffff:/, '')`. -/
def dropMapped (address : Text) : Text :=
  if "::ffff:".toList.isPrefixOf address then address.drop 7 else address

/-- The INVITE's source address is one of the trunk's inbound CIDRs. None
configured: any source. -/
def sourceAllowed (cidrs : Option (List Text)) (sourceAddress : Option Text) : Bool :=
  match cidrs with
  | none => true
  | some [] => true
  | some cidrs => cidrs.any (admits (dropMapped (sourceAddress.getD [])))

end Callio.SipAddress
