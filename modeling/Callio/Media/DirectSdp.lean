import Callio.Js.Number

/-! SDP adjustments for a direct call (`directSdp.js`). `toLowerCase`, which is
only ever compared, is taken from outside. -/

namespace Callio.DirectSdp

open Js

/-! ## Lines -/

/-- The pieces between `\r?\n`. -/
def pieces (sdp : Text) : List Text :=
  match sdp with
  | [] => [[]]
  | '\n' :: rest => [] :: pieces rest
  | '\r' :: '\n' :: rest => [] :: pieces rest
  | c :: rest =>
    match pieces rest with
    | [] => [[c]]
    | piece :: more => (c :: piece) :: more

def lines (sdp : Text) : List Text := (pieces sdp).filter (· ≠ [])

def join (ls : List Text) : Text := ls.flatMap (· ++ ['\r', '\n'])

/-- What follows a literal that a line begins with, in either case. -/
def after (literal line : Text) : Option Text :=
  if (line.take literal.length).map Char.toLower = literal then some (line.drop literal.length) else none

/-- The digits a text begins with, at least one, and the rest. -/
def leadingDigits (s : Text) : Option (Text × Text) :=
  if s.takeWhile Char.isDigit = [] then none else some (s.takeWhile Char.isDigit, s.dropWhile Char.isDigit)

/-- `([^/\s]+\/\d+)`. -/
def nameAndRate (s : Text) : Option Text :=
  let name := s.takeWhile fun c => c ≠ '/' && !isSpace c
  match s.dropWhile fun c => c ≠ '/' && !isSpace c with
  | '/' :: rest =>
    if name = [] then none else (leadingDigits rest).map fun rate => name ++ '/' :: rate.1
  | _ => none

/-- `/^a=(?:rtpmap|fmtp|rtcp-fb):(\d+)/i`. -/
def attributeOf (l : Text) : Option Text :=
  (((after "a=rtpmap:".toList l).or ((after "a=fmtp:".toList l).or (after "a=rtcp-fb:".toList l))).bind
    leadingDigits).map Prod.fst

/-- `/^m=audio /i`. -/
def isAudio (l : Text) : Bool := (after "m=audio ".toList l).isSome

section

variable (toLowerCase : Text → Text)

/-- `/^a=rtpmap:(\d+)\s+([^/\s]+\/\d+)/i`: the payload type and the codec. -/
def rtpmapOf (l : Text) : Option (Text × Text) :=
  ((after "a=rtpmap:".toList l).bind leadingDigits).bind fun (pt, rest) =>
    if rest.head?.any isSpace then (nameAndRate (trimStart rest)).map fun codec => (pt, toLowerCase codec) else none

/-! ## One payload type per codec -/

/-- The codecs seen and the payload types to drop. -/
structure Scan where
  seen : List Text := []
  drop : List Text := []

def Scan.line (scan : Scan) (l : Text) : Scan :=
  match rtpmapOf toLowerCase l with
  | none => scan
  | some (pt, codec) =>
    if codec ∈ scan.seen then { scan with drop := pt :: scan.drop } else { scan with seen := codec :: scan.seen }

def scan (ls : List Text) : Scan := ls.foldl (Scan.line toLowerCase) {}

/-- An `m=audio` line without the payload types dropped. -/
def withoutPayloads (drop : List Text) (l : Text) : Text :=
  if isAudio l then
    let parts := l.splitOn ' '
    [' '].intercalate (parts.take 3 ++ (parts.drop 3).filter (· ∉ drop))
  else l

/-- Not an attribute of a payload type dropped. -/
def stays (drop : List Text) (l : Text) : Bool := (attributeOf l).all (· ∉ drop)

def dedupeCodecs (sdp : Text) : Text :=
  let ls := lines sdp
  let drop := (scan toLowerCase ls).drop
  if drop = [] then sdp else join ((ls.filter (stays drop)).map (withoutPayloads drop))

end

end Callio.DirectSdp
