import Callio.Media.DirectSdp
import Callio.Media.SdpLines

/-! The answer's lines match the offer's. Taking lines out and answering them as
rejected undo each other; the groups of what is left may name a line it never had. -/

namespace Callio.SdpLines

open Js

/-- What both sides of an m-line agree on. -/
def MediaLine.shape (m : MediaLine) : Text × Text × Option Mid := (m.type, m.protocol, m.mid)

/-- One line that answers the offer's one line. -/
def Answers (answer offer : Session) : Prop := ∃ a o, answer.media = [a] ∧ offer.media = [o] ∧ a.shape = o.shape

/-- A group's mids are of lines the session has. -/
def NamesOwnLines (s : Session) : Prop :=
  ∀ g ∈ s.groups.getD [], g.type = bundle → ∀ name ∈ g.mids.splitOn ' ', ∃ m ∈ s.media, m.mid.map Subtype.val = some name

/-- `reduced`: the session of the reduced offer, `answer`: that of the whole answer. -/
structure Aligned (offer reduced answer : Session) : Prop where
  length : answer.media.length = offer.media.length
  shapes : answer.media.map MediaLine.shape = offer.media.map MediaLine.shape
  rejected : ∀ m ∈ answer.media.tail, m.port = 0 ∧ m.direction = some inactive
  bundle : NamesOwnLines reduced

/-- Nothing is taken out and the groups are the offer's own, or there is no
`BUNDLE` group, or the first line has a mid to name it by. -/
def Nameable (offer : Session) : Prop :=
  if offer.media.length ≤ 1 then NamesOwnLines offer
  else (∃ g ∈ offer.groups.getD [], g.type = SdpLines.bundle) → (offer.media.head?.bind (·.mid)).isSome = true

/-! ## What is left of the offer -/

theorem splitOn_mid (mid : Mid) : mid.1.splitOn ' ' = [mid.1] := by
  have hspace : ∀ name ∈ [mid.1], ' ' ∉ name := by
    intro name hname
    rw [List.mem_singleton.mp hname]
    exact mid.2
  have hsplit := List.splitOn_intercalate ' ' hspace (List.cons_ne_nil _ _)
  rwa [List.intercalate_singleton] at hsplit

/-- Groups of the first line alone name it, if it has a name. -/
theorem namesOwnLines_reduce (offer : Session) (keep : MediaLine) :
    NamesOwnLines (reduce offer keep) ↔
      ((∃ g ∈ offer.groups.getD [], g.type = SdpLines.bundle) → keep.mid.isSome = true) := by
  have hgroups : (reduce offer keep).groups.getD [] = (offer.groups.getD []).map (regroup keep) := by
    rw [reduce]
    cases offer.groups <;> rfl
  constructor
  · rintro h ⟨g, hg, hbundle⟩
    have hregroup : regroup keep g = { g with mids := midText keep.mid } := if_pos hbundle
    have hnames := h (regroup keep g) (hgroups ▸ List.mem_map_of_mem hg) (by rw [hregroup]; exact hbundle)
    cases hmid : keep.mid with
    | some mid => rfl
    | none =>
      rw [hregroup, hmid] at hnames
      have hundefined : "undefined".toList ∈ (midText none).splitOn ' ' := by decide
      obtain ⟨m, hm, hname⟩ := hnames _ hundefined
      rw [List.mem_singleton.mp hm, hmid] at hname
      cases hname
  · intro h g' hg' hbundle name hname
    rw [hgroups] at hg'
    obtain ⟨g, hg, rfl⟩ := List.mem_map.mp hg'
    have htype : g.type = SdpLines.bundle := by
      unfold regroup at hbundle
      split at hbundle <;> assumption
    obtain ⟨mid, hmid⟩ := Option.isSome_iff_exists.mp (h ⟨g, hg, htype⟩)
    have hmids : (regroup keep g).mids = mid.1 := by
      rw [regroup, if_pos htype, hmid]
      rfl
    rw [hmids, splitOn_mid, List.mem_singleton] at hname
    refine ⟨keep, List.mem_singleton_self _, ?_⟩
    rw [hmid, hname]
    rfl

/-! ## The answer -/

theorem shape_rejectedLine (m : MediaLine) : (rejectedLine (extraOf m)).shape = m.shape := rfl

theorem shapes_rejected (lines : List MediaLine) :
    (lines.map fun m => rejectedLine (extraOf m)).map MediaLine.shape = lines.map MediaLine.shape := by
  rw [List.map_map]
  exact List.map_congr_left fun m _ => shape_rejectedLine m

section

variable {Sdp : Type} {parse : Sdp → Session} {write : Session → Sdp}

/-- A text of a session: one read as it, or written of it. -/
def TextOf (parse : Sdp → Session) (write : Session → Sdp) (text : Sdp) (s : Session) : Prop :=
  parse text = s ∨ text = write s

/-- Reading what is written leads back to the same media lines, of what is left of
the offer and of the answer with the lines taken out. -/
structure RoundTrips (parse : Sdp → Session) (write : Session → Sdp) (offer answer : Sdp) : Prop where
  reduced : ∀ keep ∈ (parse offer).media.head?,
    (parse (write (reduce (parse offer) keep))).media = (reduce (parse offer) keep).media
  expanded : (parse (write (expand (parse answer) (((parse offer).media.drop 1).map extraOf)))).media =
    (expand (parse answer) (((parse offer).media.drop 1).map extraOf)).media

/-- An offer of one line stays as it is. -/
theorem primaryAudioOnly_of_one {offer : Sdp} {first : MediaLine} (hmedia : (parse offer).media = [first])
    (haudio : first.type = audio) : primaryAudioOnly parse write offer = .ok (offer, []) := by
  rw [primaryAudioOnly, hmedia]
  simp [haudio]

theorem primaryAudioOnly_of_more {offer : Sdp} {first second : MediaLine} {rest : List MediaLine}
    (hmedia : (parse offer).media = first :: second :: rest) (haudio : first.type = audio) :
    primaryAudioOnly parse write offer =
      .ok (write (reduce (parse offer) first), (second :: rest).map extraOf) := by
  rw [primaryAudioOnly, hmedia]
  simp [haudio]

theorem withRejectedLines_nil (answer : Sdp) : withRejectedLines parse write answer [] = answer := if_pos rfl

/-- The lines taken out come back behind the answer's own, rejected. -/
theorem media_withRejectedLines {offer answer : Sdp} (hround : RoundTrips parse write offer answer)
    {first : MediaLine} {lines : List MediaLine} (hmedia : (parse offer).media = first :: lines) (hne : lines ≠ []) :
    (parse (withRejectedLines parse write answer (lines.map extraOf))).media =
      (parse answer).media ++ lines.map fun m => rejectedLine (extraOf m) := by
  have hexpanded := hround.expanded
  rw [hmedia, List.drop_one, List.tail_cons] at hexpanded
  rw [withRejectedLines, if_neg (by simpa using hne), hexpanded, expand, List.map_map]
  rfl

/-- Whatever is taken out of an offer is answered as rejected, line by line; the
groups of what is left name its line when it has a name. -/
theorem linesAlign (parse : Sdp → Session) (write : Session → Sdp) (offer answer : Sdp)
    (haudio : (parse offer).media.head?.map (·.type) = some audio)
    (hround : 1 < (parse offer).media.length → RoundTrips parse write offer answer) :
    ∃ reduced s extra, primaryAudioOnly parse write offer = .ok (reduced, extra) ∧ TextOf parse write reduced s ∧
      (Answers (parse answer) (parse reduced) →
        (Aligned (parse offer) s (parse (withRejectedLines parse write answer extra)) ↔ Nameable (parse offer))) := by
  match hmedia : (parse offer).media with
  | [] =>
    rw [hmedia] at haudio
    cases haudio
  | [first] =>
    rw [hmedia] at haudio
    refine ⟨offer, parse offer, [], primaryAudioOnly_of_one hmedia (Option.some.inj haudio), .inl rfl, ?_⟩
    rintro ⟨a, o, ha, ho, hshape⟩
    have hnameable : Nameable (parse offer) ↔ NamesOwnLines (parse offer) := by
      rw [Nameable, if_pos (by rw [hmedia]; exact Nat.le_refl 1)]
    rw [withRejectedLines_nil, hnameable]
    constructor
    · exact fun h => h.bundle
    · intro h
      constructor
      · rw [ha, ho]
        rfl
      · rw [ha, ho, List.map_singleton, List.map_singleton, hshape]
      · rw [ha]
        exact nofun
      · exact h
  | first :: second :: rest =>
    rw [hmedia] at haudio
    have hround := hround (by rw [hmedia]; simp)
    refine ⟨_, reduce (parse offer) first, _, primaryAudioOnly_of_more hmedia (Option.some.inj haudio), .inr rfl, ?_⟩
    rintro ⟨a, o, ha, ho, hshape⟩
    rw [hround.reduced first (by rw [hmedia]; rfl)] at ho
    obtain rfl : first = o := List.head_eq_of_cons_eq ho
    have hnameable : Nameable (parse offer) ↔ NamesOwnLines (reduce (parse offer) first) := by
      rw [Nameable, if_neg (by rw [hmedia]; simp), namesOwnLines_reduce, hmedia]
      rfl
    have hlines := media_withRejectedLines hround hmedia (List.cons_ne_nil second rest)
    rw [ha, List.singleton_append] at hlines
    rw [hnameable]
    constructor
    · exact fun h => h.bundle
    · intro h
      constructor
      · rw [hlines, hmedia, List.length_cons, List.length_cons, List.length_map]
      · rw [hlines, hmedia, List.map_cons, hshape, shapes_rejected]
        rfl
      · rw [hlines]
        intro m hm
        obtain ⟨line, -, rfl⟩ := List.mem_map.mp hm
        exact ⟨rfl, rfl⟩
      · exact h

end

/-! ## A supervisor's offer -/

/-- An attribute of the line begun last. -/
def Session.setLast (s : Session) (set : MediaLine → MediaLine) : Session :=
  { s with media := s.media.dropLast ++ s.media.getLast?.toList.map set }

/-- `sdp-transform` on one line of a text that has m-lines, groups, mids and
directions only. -/
def readLine (s : Session) (l : Text) : Session :=
  match DirectSdp.after "m=".toList l, DirectSdp.after "a=group:".toList l, DirectSdp.after "a=mid:".toList l,
    DirectSdp.after "a=".toList l with
  | some line, _, _, _ =>
    match line.splitOn ' ' with
    | type :: port :: protocol :: payloads =>
      let port := ((radixDigits 10 port).getD 0)
      { s with media := s.media ++ [{ type, port, protocol, payloads := some ([' '].intercalate payloads) }] }
    | _ => s
  | _, some group, _, _ =>
    match group.splitOn ' ' with
    | type :: mids => { s with groups := some (s.groups.getD [] ++ [⟨type, [' '].intercalate mids⟩]) }
    | [] => s
  | _, _, some mid, _ => s.setLast fun m => { m with mid := if h : ' ' ∉ mid then some ⟨mid, h⟩ else none }
  | _, _, _, some direction => s.setLast fun m => { m with direction := some direction }
  | _, _, _, _ => s

def readText (text : Text) : Session := (DirectSdp.lines text).foldl readLine {}

def mediaLines (m : MediaLine) : List Text :=
  ("m=".toList ++ [' '].intercalate [m.type, Nat.toDigits 10 m.port, m.protocol, m.payloads.getD []]) ::
    ((m.mid.map fun mid => "a=mid:".toList ++ mid.1).toList ++ (m.direction.map ("a=".toList ++ ·)).toList)

/-- What it writes of a session without codecs. -/
def writeText (s : Session) : Text :=
  DirectSdp.join ("v=0".toList ::
    ((s.groups.getD []).map fun g => "a=group:".toList ++ g.type ++ ' ' :: g.mids) ++ s.media.flatMap mediaLines)

def supervisorLine : MediaLine where
  type := audio
  port := 9
  protocol := "UDP/TLS/RTP/SAVPF".toList
  payloads := some "111".toList

/-- Two audio lines, the second in a `BUNDLE`. -/
def namedText : Text :=
  DirectSdp.join (["v=0", "a=group:BUNDLE 1", "m=audio 9 UDP/TLS/RTP/SAVPF 111", "a=mid:0",
    "m=audio 9 UDP/TLS/RTP/SAVPF 111", "a=mid:1"].map String.toList)

/-- The first of them without a mid. -/
def namelessText : Text :=
  DirectSdp.join (["v=0", "a=group:BUNDLE 1", "m=audio 9 UDP/TLS/RTP/SAVPF 111",
    "m=audio 9 UDP/TLS/RTP/SAVPF 111", "a=mid:1"].map String.toList)

/-- What is left of the first. -/
def leftText : Text :=
  DirectSdp.join (["v=0", "a=group:BUNDLE 0", "m=audio 9 UDP/TLS/RTP/SAVPF 111", "a=mid:0"].map String.toList)

/-- The media server's answers to what is left of them. -/
def answerText (name : List String) : Text :=
  DirectSdp.join ((["v=0", "m=audio 40000 UDP/TLS/RTP/SAVPF 111"] ++ name ++ ["a=sendrecv"]).map String.toList)

/-- Everything lines up. -/
theorem linesAlign_named :
    ∃ reduced s extra, primaryAudioOnly readText writeText namedText = .ok (reduced, extra) ∧
      TextOf readText writeText reduced s ∧
      Aligned (readText namedText) s (readText (withRejectedLines readText writeText (answerText ["a=mid:0"]) extra)) := by
  obtain ⟨reduced, s, extra, hreduced, htext, haligned⟩ :=
    linesAlign readText writeText namedText (answerText ["a=mid:0"]) (by decide +kernel)
      fun _ => ⟨by decide +kernel, by decide +kernel⟩
  have hleft : (primaryAudioOnly readText writeText namedText).toOption.map Prod.fst = some leftText := by
    decide +kernel
  rw [hreduced] at hleft
  obtain rfl : reduced = leftText := Option.some.inj hleft
  refine ⟨_, s, extra, hreduced, htext, (haligned ?_).mpr ?_⟩
  · exact ⟨{ supervisorLine with port := 40000, mid := some ⟨['0'], by decide⟩, direction := some "sendrecv".toList },
      { supervisorLine with mid := some ⟨['0'], by decide⟩ }, by decide +kernel, by decide +kernel, rfl⟩
  · rw [Nameable, if_neg (by decide +kernel)]
    intro _
    decide +kernel

/-- Without a mid on its first line, what is left of the offer groups a line
`undefined`. -/
theorem not_linesAlign_nameless :
    ∃ reduced s extra, primaryAudioOnly readText writeText namelessText = .ok (reduced, extra) ∧
      TextOf readText writeText reduced s ∧ Answers (readText (answerText [])) (readText reduced) ∧
      ¬Aligned (readText namelessText) s (readText (withRejectedLines readText writeText (answerText []) extra)) := by
  obtain ⟨second, hmedia⟩ : ∃ second, (readText namelessText).media = [supervisorLine, second] :=
    ⟨{ supervisorLine with mid := some ⟨['1'], by decide⟩ }, by decide +kernel⟩
  refine ⟨_, reduce (readText namelessText) supervisorLine, _, primaryAudioOnly_of_more hmedia rfl, .inr rfl,
    ⟨{ supervisorLine with port := 40000, direction := some "sendrecv".toList }, supervisorLine, by decide +kernel,
      by decide +kernel, rfl⟩, fun h => ?_⟩
  have hnames := (namesOwnLines_reduce _ _).mp h.bundle ⟨⟨bundle, ['1']⟩, by decide +kernel, rfl⟩
  cases hnames

end Callio.SdpLines
