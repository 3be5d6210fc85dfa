import Callio.Js.Number

/-! `sdpLines.js`: a client's further m-lines are taken out of its offer and
answered as rejected. What `sdp-transform` parses and writes is taken from
outside; of a line's attributes there is what the two functions read and write. -/

namespace Callio.SdpLines

open Js

structure Rtp where
  payload : Nat
  codec : Text
  rate : Option Nat
  deriving DecidableEq, Repr

/-- A line's `a=mid:`, which has no spaces. -/
def Mid := { name : Text // ' ' ∉ name }

instance : DecidableEq Mid := inferInstanceAs (DecidableEq { _name : Text // _ })

structure MediaLine where
  type : Text
  port : Nat
  protocol : Text
  payloads : Option Text
  rtp : List Rtp := []
  fmtp : List Text := []
  mid : Option Mid := none
  direction : Option Text := none
  deriving DecidableEq

/-- `a=group:type mids`, the mids behind one another with spaces between. -/
structure Group where
  type : Text
  mids : Text
  deriving DecidableEq, Repr

structure Session where
  media : List MediaLine := []
  groups : Option (List Group) := none
  deriving DecidableEq

/-- A line taken out of an offer. -/
structure Extra where
  type : Text
  protocol : Text
  payloads : Text
  rtp : List Rtp
  mid : Option Mid
  deriving DecidableEq

def audio : Text := "audio".toList

def bundle : Text := "BUNDLE".toList

def inactive : Text := "inactive".toList

/-- `String(mid)`. -/
def midText (mid : Option Mid) : Text := mid.elim "undefined".toList (·.1)

def extraOf (m : MediaLine) : Extra where
  type := m.type
  protocol := m.protocol
  payloads := ((m.payloads.getD []).splitOn ' ').headD []
  rtp := m.rtp.take 1
  mid := m.mid

def regroup (keep : MediaLine) (g : Group) : Group :=
  if g.type = bundle then { g with mids := midText keep.mid } else g

def rejectedLine (e : Extra) : MediaLine where
  type := e.type
  port := 0
  protocol := e.protocol
  payloads := some e.payloads
  rtp := e.rtp
  fmtp := []
  mid := e.mid
  direction := some inactive

/-- The offer with its first line only. -/
def reduce (parsed : Session) (keep : MediaLine) : Session where
  media := [keep]
  groups := parsed.groups.map (·.map (regroup keep))

/-- The answer with the lines taken out behind its own. -/
def expand (parsed : Session) (extra : List Extra) : Session :=
  { parsed with media := parsed.media ++ extra.map rejectedLine }

section

variable {Sdp : Type} (parse : Sdp → Session) (write : Session → Sdp)

def primaryAudioOnly (sdp : Sdp) : Except String (Sdp × List Extra) :=
  let parsed := parse sdp
  match parsed.media.find? (·.type = audio) with
  | none => .ok (sdp, [])
  | some keep =>
    if parsed.media.length ≤ 1 then .ok (sdp, [])
    else if parsed.media.idxOf keep ≠ 0 then .error "The first m-line of the offer must be audio"
    else .ok (write (reduce parsed keep), (parsed.media.drop 1).map extraOf)

def withRejectedLines (answer : Sdp) (extra : List Extra) : Sdp :=
  if extra = [] then answer else write (expand (parse answer) extra)

end

end Callio.SdpLines
