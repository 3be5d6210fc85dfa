import Mathlib
import Callio.Js.Bytes

/-! rtpengine's "ng" control protocol: the bencode codec of `RtpEngineClient.js`.
How a value that is no string becomes a property key is taken from outside. -/

namespace Callio.RtpEngine

open Js

/-! ## Values -/

/-- Numbers are integers, or `NaN`; a dictionary has its own properties in the
order they were added. -/
inductive Value
  | undefined
  | null
  | boolean (b : Bool)
  | nan
  | number (n : Int)
  | string (s : Text)
  | list (vs : List Value)
  | dict (entries : List (Text × Value))

/-- `undefined` or `null`. -/
def Value.isNullish : Value → Bool
  | .undefined | .null => true
  | _ => false

/-! ## bencode -/

/-- `${n}`. -/
def intText (n : Int) : Text :=
  if n < 0 then '-' :: Nat.toDigits 10 n.natAbs else Nat.toDigits 10 n.natAbs

def unsupported (type : String) : Except String Text := .error ("bencode: unsupported value type " ++ type)

def bencodeString (s : Text) : Text := Nat.toDigits 10 (utf8 s).length ++ ':' :: s

/-- `join('')`, or the first error. -/
def joined : List (Except String Text) → Except String Text
  | [] => .ok []
  | t :: ts => do return (← t) ++ (← joined ts)

/-- The order `sort()` gives keys: by their UTF-16 code units. -/
def keyLe {α : Type} (e f : Text × α) : Bool := decide (utf16 e.1 ≤ utf16 f.1)

mutual

def bencode : Value → Except String Text
  | .number n => .ok ('i' :: intText n ++ ['e'])
  | .string s => .ok (bencodeString s)
  | .list vs => do return 'l' :: (← joined (bencodeAll vs)) ++ ['e']
  | .dict entries => do
    let entries := (bencodePresent entries).mergeSort keyLe
    return 'd' :: (← joined (entries.map fun e => e.2.map (bencodeString e.1 ++ ·))) ++ ['e']
  | .undefined => unsupported "undefined"
  | .null => unsupported "object"
  | .boolean _ => unsupported "boolean"
  | .nan => unsupported "number"

def bencodeAll : List Value → List (Except String Text)
  | [] => []
  | v :: vs => bencode v :: bencodeAll vs

/-- The entries that are neither `undefined` nor `null`, their values encoded. -/
def bencodePresent : List (Text × Value) → List (Text × Except String Text)
  | [] => []
  | (key, v) :: entries =>
    if v.isNullish then bencodePresent entries else (key, bencode v) :: bencodePresent entries

end

/-! ## bdecode -/

/-- Where the decoder is, and where it was before, last first. -/
structure Position where
  cursor : Cursor
  past : List Cursor := []

/-- Decoding runs out of steps, fails with the error a property key makes, or gives a value. -/
def Decode (α : Type) : Type := Position → Option (Option α × Position)

namespace Decode

variable {α β : Type}

def pure (a : α) : Decode α := fun pos => some (some a, pos)

def bind (x : Decode α) (f : α → Decode β) : Decode β := fun pos =>
  match x pos with
  | none => none
  | some (none, pos) => some (none, pos)
  | some (some a, pos) => f a pos

instance : Monad Decode where
  pure := pure
  bind := bind

/-- `pos.i`. -/
def here : Decode Cursor := fun pos => some (some pos.cursor, pos)

/-- `pos.i = i`. -/
def moveTo (i : Cursor) : Decode Unit := fun pos => some (some (), ⟨i, pos.cursor :: pos.past⟩)

/-- `pos.i += 1`. -/
def skip : Decode Unit := fun pos => moveTo (pos.cursor.map (· + 1)) pos

/-- `ToPropertyKey` fails. -/
def typeError : Decode α := fun pos => some (none, pos)

def outOfSteps : Decode α := fun _ => none

end Decode

open Decode

local instance lawfulText : LawfulBEq Text := inferInstance

/-- `dict[key] = v`. Setting `__proto__` adds no property. -/
def assign (entries : List (Text × Value)) (key : Text) (v : Value) : List (Text × Value) :=
  if key = "__proto__".toList then entries
  else if key ∈ entries.map Prod.fst then entries.map fun e => if e.1 = key then (key, v) else e
  else entries ++ [(key, v)]

def readNumber (buf : Bytes) : Decode Value := do
  skip
  let start ← here
  let stop := indexOf buf 'e'.toUInt8 start
  moveTo (some (stop + 1))
  match parseInt (decodeAscii (subarray buf start (some stop))) with
  | some n => return .number n
  | none => return .nan

def readString (buf : Bytes) : Decode Value := do
  let first ← here
  let colon := indexOf buf ':'.toUInt8 first
  let stop := (parseInt (decodeAscii (subarray buf first (some colon)))).map (colon + 1 + ·)
  moveTo stop
  return .string (decodeUtf8 (subarray buf (some (colon + 1)) stop))

section

variable (toKey : Value → Option Text) (buf : Bytes)

/-- What `dict[key]` makes of a key: a string is one. -/
def keyText (key : Value) : Option Text :=
  match key with
  | .string s => some s
  | key => toKey key

def propertyKey (key : Value) : Decode Text :=
  match keyText toKey key with
  | some s => return s
  | none => typeError

mutual

/-- `bdecode`, in a number of steps. -/
def bdecode (steps : Nat) : Decode Value :=
  match steps with
  | 0 => outOfSteps
  | steps + 1 => do
    let marker := byteAt buf (← here)
    if marker = 'i'.toUInt8 then readNumber buf
    else if marker = 'l'.toUInt8 then do
      skip
      readItems steps []
    else if marker = 'd'.toUInt8 then do
      skip
      readEntries steps []
    else readString buf

def readItems (steps : Nat) (items : List Value) : Decode Value :=
  match steps with
  | 0 => outOfSteps
  | steps + 1 => do
    if byteAt buf (← here) = 'e'.toUInt8 then do
      skip
      return .list items
    else do
      let v ← bdecode steps
      readItems steps (items ++ [v])

def readEntries (steps : Nat) (entries : List (Text × Value)) : Decode Value :=
  match steps with
  | 0 => outOfSteps
  | steps + 1 => do
    if byteAt buf (← here) = 'e'.toUInt8 then do
      skip
      return .dict entries
    else do
      let key ← bdecode steps
      let v ← bdecode steps
      let key ← propertyKey toKey key
      readEntries steps (assign entries key v)

end

end

end Callio.RtpEngine
