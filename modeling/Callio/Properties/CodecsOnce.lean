import Mathlib
import Callio.Media.DirectSdp
import Callio.Js.Words

/-! Codec deduplication, section by section. The pass looks at the whole text; it is
right for a section when what it drops anywhere is a repeat there. -/

namespace Callio.DirectSdp

open Js

/-! ## Sections -/

/-- `m=`. -/
def isMedia (l : Text) : Bool := (after "m=".toList l).isSome

/-- A media section: its m-line and the lines up to the next one. -/
structure Section where
  head : Text
  body : List Text
  deriving DecidableEq

def sections (ls : List Text) : List Section :=
  match ls with
  | [] => []
  | l :: rest =>
    if isMedia l then ⟨l, rest.takeWhile (!isMedia ·)⟩ :: sections rest else sections rest

/-- The payload types an m-line lists. -/
def payloads (head : Text) : List Text := (head.splitOn ' ').drop 3

variable (toLowerCase : Text → Text)

/-! ## Mappings -/

/-- Payload types and the codecs they are mapped to, in order. -/
def mappings (ls : List Text) : List (Text × Text) := ls.filterMap (rtpmapOf toLowerCase)

local instance lawfulText : LawfulBEq Text := inferInstance

/-- The mappings to a codec that one before them is to. -/
def again (seen : List Text) (ms : List (Text × Text)) : List (Text × Text) :=
  match ms with
  | [] => []
  | m :: ms => if m.2 ∈ seen then m :: again seen ms else again (m.2 :: seen) ms

/-- The others. -/
def firsts (seen : List Text) (ms : List (Text × Text)) : List (Text × Text) :=
  match ms with
  | [] => []
  | m :: ms => if m.2 ∈ seen then firsts seen ms else m :: firsts (m.2 :: seen) ms

/-- Mapped somewhere to a codec mapped before. -/
def Repeated (ls : List Text) (pt : Text) : Prop := pt ∈ (again [] (mappings toLowerCase ls)).map Prod.fst

instance (ls : List Text) (pt : Text) : Decidable (Repeated toLowerCase ls pt) :=
  inferInstanceAs (Decidable (_ ∈ _))

/-- A payload type whose codec is a repeat within the section. -/
def Section.Repeats (s : Section) (pt : Text) : Prop :=
  Repeated toLowerCase s.body pt ∧ pt ∉ (firsts [] (mappings toLowerCase s.body)).map Prod.fst

instance (s : Section) (pt : Text) : Decidable (s.Repeats toLowerCase pt) :=
  inferInstanceAs (Decidable (_ ∧ _))

/-- The section maps a payload type of its m-line to the codec. -/
def Section.Lists (s : Section) (codec : Text) : Prop :=
  ∃ pt ∈ payloads s.head, (pt, codec) ∈ mappings toLowerCase s.body

instance (s : Section) (codec : Text) : Decidable (s.Lists toLowerCase codec) :=
  inferInstanceAs (Decidable (∃ _ ∈ _, _))

/-! ## What is asked for -/

/-- A section before and after. -/
structure SafeSection (s t : Section) : Prop where
  payloads : isAudio s.head = true → payloads t.head = (payloads s.head).filter (¬s.Repeats toLowerCase ·)
  codecs : ∀ codec, s.Lists toLowerCase codec →
    t.Lists toLowerCase codec ∧ ((mappings toLowerCase t.body).map Prod.snd).count codec = 1
  attributes : ∀ l ∈ t.body, ∀ pt ∈ attributeOf l, pt ∈ DirectSdp.payloads s.head → pt ∈ DirectSdp.payloads t.head

structure Safe (sdp : Text) : Prop where
  idempotent : dedupeCodecs toLowerCase (dedupeCodecs toLowerCase sdp) = dedupeCodecs toLowerCase sdp
  /-- Lines are left in order, but for the attributes of payload types dropped. -/
  keeps : ∃ drop, lines (dedupeCodecs toLowerCase sdp) = ((lines sdp).filter (stays drop)).map (withoutPayloads drop)
  sections : List.Forall₂ (SafeSection toLowerCase) (sections (lines sdp))
    (sections (lines (dedupeCodecs toLowerCase sdp)))

/-- A section the pass is right for, among all lines. -/
structure Sound (ls : List Text) (s : Section) : Prop where
  /-- Each codec listed is mapped to by a payload type of the m-line that is
  nowhere mapped to a codec mapped before. -/
  codecs : ∀ codec, s.Lists toLowerCase codec → ∃ pt ∈ DirectSdp.payloads s.head,
    (pt, codec) ∈ mappings toLowerCase s.body ∧ ¬Repeated toLowerCase ls pt
  /-- So is no payload type that the section does not map. -/
  unmapped : isAudio s.head = true → ∀ pt ∈ DirectSdp.payloads s.head,
    pt ∉ (mappings toLowerCase s.body).map Prod.fst → ¬Repeated toLowerCase ls pt

/-! ## Repeats -/

section mappings

variable {seen : List Text} {ms : List (Text × Text)} {m : Text × Text}

theorem mem_again : m ∈ again seen ms ↔
    ∃ before rest, ms = before ++ m :: rest ∧ (m.2 ∈ seen ∨ m.2 ∈ before.map Prod.snd) := by
  induction ms generalizing seen with
  | nil =>
    constructor
    · exact nofun
    · rintro ⟨before, rest, hms, -⟩
      cases before <;> cases hms
  | cons n ms ih =>
    have hcases : (∃ before rest, n :: ms = before ++ m :: rest ∧ (m.2 ∈ seen ∨ m.2 ∈ before.map Prod.snd)) ↔
        (n = m ∧ m.2 ∈ seen) ∨
          ∃ before rest, ms = before ++ m :: rest ∧ (m.2 ∈ n.2 :: seen ∨ m.2 ∈ before.map Prod.snd) := by
      constructor
      · rintro ⟨before, rest, hms, hseen⟩
        cases before with
        | nil =>
          obtain ⟨rfl, rfl⟩ := List.cons.inj hms
          exact .inl ⟨rfl, hseen.resolve_right nofun⟩
        | cons b before =>
          obtain ⟨rfl, rfl⟩ := List.cons.inj hms
          refine .inr ⟨before, rest, rfl, ?_⟩
          rw [List.mem_cons]
          rw [List.map_cons, List.mem_cons] at hseen
          tauto
      · rintro (⟨rfl, hseen⟩ | ⟨before, rest, rfl, hseen⟩)
        · exact ⟨[], ms, rfl, .inl hseen⟩
        · refine ⟨n :: before, rest, rfl, ?_⟩
          rw [List.mem_cons] at hseen
          rw [List.map_cons, List.mem_cons]
          tauto
    rw [hcases, again]
    by_cases hn : n.2 ∈ seen
    · have hsame : ∀ c, c ∈ n.2 :: seen ↔ c ∈ seen := by
        intro c
        rw [List.mem_cons, or_iff_right_of_imp]
        rintro rfl
        exact hn
      rw [if_pos hn, List.mem_cons, ih]
      simp only [hsame]
      constructor
      · rintro (rfl | h)
        · exact .inl ⟨rfl, hn⟩
        · exact .inr h
      · rintro (⟨rfl, -⟩ | h)
        · exact .inl rfl
        · exact .inr h
    · rw [if_neg hn, ih, or_iff_right]
      rintro ⟨rfl, hm⟩
      exact hn hm

/-- A mapping is the first to its codec or comes again. -/
theorem mem_firsts_or_again (hm : m ∈ ms) (seen : List Text) : m ∈ firsts seen ms ∨ m ∈ again seen ms := by
  induction ms generalizing seen with
  | nil => cases hm
  | cons n ms ih =>
    rw [firsts, again]
    rcases List.mem_cons.mp hm with rfl | hm
    · by_cases hseen : m.2 ∈ seen
      · rw [if_pos hseen, if_pos hseen]
        exact .inr (List.mem_cons_self ..)
      · rw [if_neg hseen, if_neg hseen]
        exact .inl (List.mem_cons_self ..)
    · by_cases hseen : n.2 ∈ seen
      · rw [if_pos hseen, if_pos hseen]
        exact (ih hm seen).imp_right (List.mem_cons_of_mem _)
      · rw [if_neg hseen, if_neg hseen]
        exact (ih hm (n.2 :: seen)).imp_left (List.mem_cons_of_mem _)

theorem mem_of_mem_firsts (h : m ∈ firsts seen ms) : m ∈ ms ∧ m.2 ∉ seen := by
  induction ms generalizing seen with
  | nil => cases h
  | cons n ms ih =>
    rw [firsts] at h
    by_cases hn : n.2 ∈ seen
    · rw [if_pos hn] at h
      exact (ih h).imp_left (List.mem_cons_of_mem _)
    · rw [if_neg hn] at h
      rcases List.mem_cons.mp h with rfl | h
      · exact ⟨List.mem_cons_self .., hn⟩
      · exact ⟨List.mem_cons_of_mem _ (ih h).1, fun hmem => (ih h).2 (List.mem_cons_of_mem _ hmem)⟩

/-- Of two mappings to one codec, one that comes first is the one, or the other
comes again. -/
theorem eq_or_again_of_firsts {n : Text × Text} (hm : m ∈ firsts seen ms) (hn : n ∈ ms) (hcodec : n.2 = m.2) :
    n = m ∨ n ∈ again seen ms := by
  rcases mem_firsts_or_again hn seen with hfirst | hagain
  · left
    induction ms generalizing seen with
    | nil => cases hn
    | cons k ms ih =>
      rw [firsts] at hm hfirst
      by_cases hk : k.2 ∈ seen
      · rw [if_pos hk] at hm hfirst
        exact ih hm (mem_of_mem_firsts hfirst).1 hfirst
      · rw [if_neg hk] at hm hfirst
        rcases List.mem_cons.mp hm with rfl | hm <;> rcases List.mem_cons.mp hfirst with rfl | hfirst
        · rfl
        · exact absurd (hcodec ▸ List.mem_cons_self ..) (mem_of_mem_firsts hfirst).2
        · exact absurd (hcodec ▸ List.mem_cons_self ..) (mem_of_mem_firsts hm).2
        · exact ih hm (mem_of_mem_firsts hfirst).1 hfirst
  · exact .inr hagain

/-- Mappings that come again still do among more. -/
theorem again_append (before after : List (Text × Text)) (h : m ∈ again [] ms) :
    m ∈ again [] (before ++ ms ++ after) := by
  obtain ⟨pre, rest, rfl, hseen⟩ := mem_again.mp h
  refine mem_again.mpr ⟨before ++ pre, rest ++ after, by simp, .inr ?_⟩
  rw [List.map_append, List.mem_append]
  exact .inr (hseen.resolve_left nofun)

end mappings

/-- Where what comes again is dropped, no codec is mapped to twice. -/
theorem nodup_of_dropped {drop : List Text} {seen : List Text} {ms : List (Text × Text)}
    (h : ∀ m ∈ again seen ms, m.1 ∈ drop) :
    ((ms.filter (·.1 ∉ drop)).map Prod.snd).Nodup ∧ ∀ codec ∈ (ms.filter (·.1 ∉ drop)).map Prod.snd, codec ∉ seen := by
  induction ms generalizing seen with
  | nil => exact ⟨List.nodup_nil, nofun⟩
  | cons n ms ih =>
    rw [again] at h
    by_cases hn : n.2 ∈ seen
    · rw [if_pos hn] at h
      have hdropped : n.1 ∈ drop := h n (List.mem_cons_self ..)
      rw [List.filter_cons, if_neg (by simp [hdropped])]
      exact ih fun m hm => h m (List.mem_cons_of_mem _ hm)
    · rw [if_neg hn] at h
      obtain ⟨hnodup, hseen⟩ := ih h
      have hrest : ∀ codec ∈ (ms.filter (·.1 ∉ drop)).map Prod.snd, codec ∉ seen :=
        fun codec hcodec hmem => hseen codec hcodec (List.mem_cons_of_mem _ hmem)
      rw [List.filter_cons]
      split
      · rw [List.map_cons]
        constructor
        · exact List.nodup_cons.mpr ⟨fun hmem => hseen _ hmem (List.mem_cons_self ..), hnodup⟩
        · intro codec hcodec
          rcases List.mem_cons.mp hcodec with rfl | hcodec
          · exact hn
          · exact hrest codec hcodec
      · exact ⟨hnodup, hrest⟩

/-- The scan drops what comes again. -/
theorem mem_drop_scan (ls : List Text) (pt : Text) :
    pt ∈ (scan toLowerCase ls).drop ↔ Repeated toLowerCase ls pt := by
  have hfold : ∀ st : Scan, pt ∈ (ls.foldl (Scan.line toLowerCase) st).drop ↔
      pt ∈ st.drop ∨ pt ∈ (again st.seen (mappings toLowerCase ls)).map Prod.fst := by
    induction ls with
    | nil => exact fun st => (or_iff_left nofun).symm
    | cons l ls ih =>
      intro st
      rw [List.foldl_cons, ih]
      cases hl : rtpmapOf toLowerCase l with
      | none => simp only [Scan.line, mappings, List.filterMap_cons, hl]
      | some m =>
        simp only [Scan.line, mappings, List.filterMap_cons, hl, again]
        by_cases hseen : m.2 ∈ st.seen
        · simp only [hseen, if_true, List.mem_cons, List.map_cons]
          tauto
        · simp only [hseen, if_false]
  rw [scan, hfold, Repeated]
  exact or_iff_right nofun

/-! ## Lines -/

theorem attributeOf_of_rtpmapOf {l : Text} {m : Text × Text} (h : rtpmapOf toLowerCase l = some m) :
    attributeOf l = some m.1 := by
  unfold rtpmapOf at h
  obtain ⟨⟨pt, rest⟩, hdigits, h⟩ := Option.bind_eq_some_iff.mp h
  obtain ⟨tail, hafter, hdigits⟩ := Option.bind_eq_some_iff.mp hdigits
  dsimp only at h
  split at h
  · obtain ⟨codec, -, rfl⟩ := Option.map_eq_some_iff.mp h
    rw [attributeOf, hafter, Option.some_or, Option.bind_some, hdigits]
    rfl
  · cases h

/-- Lines left are mapped as before. -/
theorem mappings_stays (drop ls : List Text) :
    mappings toLowerCase (ls.filter (stays drop)) = (mappings toLowerCase ls).filter (·.1 ∉ drop) := by
  induction ls with
  | nil => rfl
  | cons l ls ih =>
    rw [List.filter_cons]
    cases hl : rtpmapOf toLowerCase l with
    | none =>
      have hcons : ∀ ls, mappings toLowerCase (l :: ls) = mappings toLowerCase ls := by
        intro ls
        rw [mappings, List.filterMap_cons, hl, mappings]
      rw [hcons]
      split
      · rw [hcons, ih]
      · exact ih
    | some m =>
      have hstays : stays drop l = decide (m.1 ∉ drop) := by
        rw [stays, attributeOf_of_rtpmapOf toLowerCase hl]
        rfl
      have hcons : ∀ ls, mappings toLowerCase (l :: ls) = m :: mappings toLowerCase ls := by
        intro ls
        rw [mappings, List.filterMap_cons, hl, mappings]
      rw [hstays, hcons, List.filter_cons]
      by_cases hm : m.1 ∈ drop
      · rw [if_neg (by simp [hm]), if_neg (by simp [hm]), ih]
      · rw [if_pos (by simp [hm]), if_pos (by simp [hm]), hcons, ih]

theorem after_eq_some {literal l rest : Text} (h : after literal l = some rest) :
    (l.take literal.length).map Char.toLower = literal ∧ rest = l.drop literal.length := by
  unfold after at h
  split at h
  · rename_i htake
    exact ⟨htake, (Option.some.inj h).symm⟩
  · cases h

/-- The letter a line begins with tells whose line it is. -/
theorem after_eq_none {literal l : Text} {c d : Char} {rest : Text} (hl : l.head? = some d)
    (hliteral : literal = c :: rest) (hne : d.toLower ≠ c) : after literal l = none := by
  unfold after
  rw [if_neg]
  intro htake
  cases l with
  | nil => cases hl
  | cons e l =>
    obtain rfl := Option.some.inj hl
    rw [hliteral, List.length_cons, List.take_succ_cons, List.map_cons] at htake
    exact hne (List.cons.inj htake).1

theorem eq_space_of_toLower {c : Char} (h : c.toLower = ' ') : c = ' ' := by
  unfold Char.toLower at h
  split at h
  · rename_i hupper
    have hvalue : (c.val + 32).toNat = 32 := congrArg (fun c : Char => c.val.toNat) h
    have hlow : 65 ≤ c.val.toNat := hupper.1
    have hhigh : c.val.toNat ≤ 90 := hupper.2
    rw [UInt32.toNat_add] at hvalue
    have hthirtyTwo : (32 : UInt32).toNat = 32 := rfl
    omega
  · exact h

/-- An audio line: a word, a space and more. -/
theorem exists_of_isAudio {l : Text} (h : isAudio l = true) :
    ∃ word rest, l = word ++ ' ' :: rest ∧ word.map Char.toLower = "m=audio".toList := by
  obtain ⟨rest, hafter⟩ := Option.isSome_iff_exists.mp h
  obtain ⟨htake, rfl⟩ := after_eq_some hafter
  have hlength : 8 ≤ l.length := by
    have hlen := congrArg List.length htake
    simp only [List.length_map, List.length_take] at hlen
    have hliteral : "m=audio ".toList.length = 8 := by decide
    omega
  have hword : (l.take 7).map Char.toLower = "m=audio".toList := by
    have htake7 := congrArg (List.take 7) htake
    rw [← List.map_take, List.take_take] at htake7
    exact htake7
  have hspace : l[7] = ' ' := by
    apply eq_space_of_toLower
    have hget := congrArg (fun s : Text => s[7]?) htake
    simpa [show 7 < l.length by omega] using hget
  refine ⟨l.take 7, l.drop 8, ?_, hword⟩
  rw [← hspace, ← List.drop_eq_getElem_cons, List.take_append_drop]

theorem notMem_of_toLower {word : Text} (h : word.map Char.toLower = "m=audio".toList) : ' ' ∉ word := by
  intro hspace
  have hmem : Char.toLower ' ' ∈ word.map Char.toLower := List.mem_map_of_mem hspace
  rw [h] at hmem
  exact absurd hmem (by decide)

/-- What an audio line begins with is no attribute. -/
theorem audio_word {word rest : Text} (h : word.map Char.toLower = "m=audio".toList) :
    isMedia (word ++ rest) = true ∧ attributeOf (word ++ rest) = none ∧ rtpmapOf toLowerCase (word ++ rest) = none := by
  obtain ⟨m, word, rfl, hm, hword⟩ := List.map_eq_cons_iff.mp h
  obtain ⟨e, word, rfl, he, -⟩ := List.map_eq_cons_iff.mp hword
  have hhead : ((m :: e :: word) ++ rest).head? = some m := rfl
  have hnone : ∀ tail, after ('a' :: tail) ((m :: e :: word) ++ rest) = none :=
    fun tail => after_eq_none hhead rfl (by rw [hm]; decide)
  have hrtpmap : after "a=rtpmap:".toList ((m :: e :: word) ++ rest) = none := hnone _
  have hfmtp : after "a=fmtp:".toList ((m :: e :: word) ++ rest) = none := hnone _
  have hfeedback : after "a=rtcp-fb:".toList ((m :: e :: word) ++ rest) = none := hnone _
  refine ⟨?_, ?_, ?_⟩
  · have hmedia : after "m=".toList ((m :: e :: word) ++ rest) = some (word ++ rest) := by
      have htake : (((m :: e :: word) ++ rest).take 2).map Char.toLower = "m=".toList := by
        show [m.toLower, e.toLower] = _
        rw [hm, he]
        rfl
      exact if_pos htake
    rw [isMedia, hmedia]
    rfl
  · rw [attributeOf, hrtpmap, hfmtp, hfeedback]
    rfl
  · rw [rtpmapOf, hrtpmap]
    rfl

section withoutPayloads

variable (drop : List Text) {l : Text}

theorem withoutPayloads_of_not (h : ¬isAudio l = true) : withoutPayloads drop l = l := if_neg h

theorem withoutPayloads_of_audio (h : isAudio l = true) :
    withoutPayloads drop l =
      [' '].intercalate ((l.splitOn ' ').take 3 ++ ((l.splitOn ' ').drop 3).filter (· ∉ drop)) := if_pos h

theorem take_parts_ne_nil (l : Text) (rest : List Text) : (l.splitOn ' ').take 3 ++ rest ≠ [] := by
  obtain ⟨first, more, hsplit⟩ := List.exists_cons_of_ne_nil (List.splitOn_ne_nil ' ' l)
  rw [hsplit]
  exact nofun

/-- Its payload types are those not dropped. -/
theorem payloads_withoutPayloads (h : isAudio l = true) :
    payloads (withoutPayloads drop l) = (payloads l).filter (· ∉ drop) := by
  have hpieces : ∀ piece ∈ (l.splitOn ' ').take 3 ++ ((l.splitOn ' ').drop 3).filter (· ∉ drop), ' ' ∉ piece := by
    intro piece hpiece
    rcases List.mem_append.mp hpiece with hpiece | hpiece
    · exact notMem_of_mem_splitOn (List.mem_of_mem_take hpiece)
    · exact notMem_of_mem_splitOn (List.mem_of_mem_drop (List.mem_filter.mp hpiece).1)
  rw [payloads, withoutPayloads_of_audio drop h, List.splitOn_intercalate ' ' hpieces (take_parts_ne_nil l _), payloads]
  rcases Nat.lt_or_ge (l.splitOn ' ').length 3 with hshort | hlong
  · rw [List.drop_eq_nil_of_le (by omega : (l.splitOn ' ').length ≤ 3), List.filter_nil, List.append_nil]
    exact List.drop_eq_nil_of_le (by rw [List.length_take]; omega)
  · rw [List.drop_left' (by rw [List.length_take]; omega)]

theorem mem_of_mem_withoutPayloads {c : Char} (hc : c ∈ withoutPayloads drop l) : c ∈ l := by
  by_cases h : isAudio l = true
  · rw [withoutPayloads_of_audio drop h] at hc
    rcases mem_intercalate hc with rfl | ⟨piece, hpiece, hc⟩
    · obtain ⟨word, rest, rfl, -⟩ := exists_of_isAudio h
      exact List.mem_append_right _ (List.mem_cons_self ..)
    · rcases List.mem_append.mp hpiece with hpiece | hpiece
      · exact (mem_of_mem_splitOn (List.mem_of_mem_take hpiece) hc).2
      · exact (mem_of_mem_splitOn (List.mem_of_mem_drop (List.mem_filter.mp hpiece).1) hc).2
  · rwa [withoutPayloads_of_not drop h] at hc

/-- It begins with the same word. -/
theorem exists_withoutPayloads (h : isAudio l = true) : ∃ word rest rest', l = word ++ rest ∧
    withoutPayloads drop l = word ++ rest' ∧ word.map Char.toLower = "m=audio".toList := by
  obtain ⟨word, rest, hl, hword⟩ := exists_of_isAudio h
  have hsplit : l.splitOn ' ' = word :: rest.splitOn ' ' := by
    rw [hl, List.splitOn_append_cons_self_of_not_mem (notMem_of_toLower hword)]
  obtain ⟨first, more, hrest⟩ := List.exists_cons_of_ne_nil (List.splitOn_ne_nil ' ' rest)
  have hwithout := withoutPayloads_of_audio drop h
  rw [hsplit, List.take_succ_cons, List.cons_append, List.intercalate_cons_of_ne_nil (by rw [hrest]; exact nofun),
    List.append_assoc] at hwithout
  exact ⟨word, ' ' :: rest, _, hl, hwithout, hword⟩

theorem isMedia_withoutPayloads (l : Text) : isMedia (withoutPayloads drop l) = isMedia l := by
  by_cases h : isAudio l = true
  · obtain ⟨word, rest, rest', hl, hwithout, hword⟩ := exists_withoutPayloads drop h
    rw [hwithout, hl, (audio_word id hword).1, (audio_word id hword).1]
  · rw [withoutPayloads_of_not drop h]

theorem attributeOf_withoutPayloads (l : Text) : attributeOf (withoutPayloads drop l) = attributeOf l := by
  by_cases h : isAudio l = true
  · obtain ⟨word, rest, rest', hl, hwithout, hword⟩ := exists_withoutPayloads drop h
    rw [hwithout, hl, (audio_word id hword).2.1, (audio_word id hword).2.1]
  · rw [withoutPayloads_of_not drop h]

theorem rtpmapOf_withoutPayloads (l : Text) :
    rtpmapOf toLowerCase (withoutPayloads drop l) = rtpmapOf toLowerCase l := by
  by_cases h : isAudio l = true
  · obtain ⟨word, rest, rest', hl, hwithout, hword⟩ := exists_withoutPayloads drop h
    rw [hwithout, hl, (audio_word toLowerCase hword).2.2, (audio_word toLowerCase hword).2.2]
  · rw [withoutPayloads_of_not drop h]

theorem withoutPayloads_ne_nil (hl : l ≠ []) : withoutPayloads drop l ≠ [] := by
  by_cases h : isAudio l = true
  · obtain ⟨word, rest, rest', -, hwithout, hword⟩ := exists_withoutPayloads drop h
    rw [hwithout]
    rintro hnil
    rw [(List.append_eq_nil_iff.mp hnil).1] at hword
    cases hword
  · rwa [withoutPayloads_of_not drop h]

end withoutPayloads

/-! ## Texts -/

theorem pieces_ne_nil (sdp : Text) : pieces sdp ≠ [] := by
  unfold pieces
  split
  · exact nofun
  · exact nofun
  · exact nofun
  · split <;> exact nofun

/-- A character that ends no line begins the first piece. -/
theorem pieces_cons {c : Char} {rest piece : Text} {more : List Text} (hc : c ≠ '\n')
    (hend : ∀ tail, c = '\r' → rest ≠ '\n' :: tail) (hrest : pieces rest = piece :: more) :
    pieces (c :: rest) = (c :: piece) :: more := by
  rw [pieces, hrest]
  · exact hc
  · exact fun tail h => hend tail h

theorem notMem_of_mem_pieces {sdp piece : Text} (h : piece ∈ pieces sdp) : '\n' ∉ piece := by
  induction sdp using pieces.induct generalizing piece with
  | case1 =>
    rw [pieces, List.mem_singleton] at h
    rw [h]
    exact nofun
  | case2 rest ih =>
    rw [pieces] at h
    rcases List.mem_cons.mp h with rfl | h
    · exact nofun
    · exact ih h
  | case3 rest ih =>
    rw [pieces] at h
    rcases List.mem_cons.mp h with rfl | h
    · exact nofun
    · exact ih h
  | case4 c rest hc hend hnil ih => exact absurd hnil (pieces_ne_nil rest)
  | case5 c rest hc hend first more hrest ih =>
    rw [pieces_cons hc (fun tail h hr => hend tail h hr) hrest] at h
    rw [hrest] at ih
    rcases List.mem_cons.mp h with rfl | h
    · intro hmem
      rcases List.mem_cons.mp hmem with rfl | hmem
      · exact hc rfl
      · exact ih (List.mem_cons_self ..) hmem
    · exact ih (List.mem_cons_of_mem _ h)

theorem pieces_append {l : Text} (hl : '\n' ∉ l) (rest : Text) :
    pieces (l ++ '\r' :: '\n' :: rest) = l :: pieces rest := by
  induction l with
  | nil => rw [List.nil_append, pieces]
  | cons c l ih =>
    have hc : c ≠ '\n' := by
      rintro rfl
      exact hl (List.mem_cons_self ..)
    have hl' : '\n' ∉ l := fun hmem => hl (List.mem_cons_of_mem _ hmem)
    refine pieces_cons hc (fun tail _ htail => ?_) (ih hl')
    cases l with
    | nil => cases htail
    | cons d l =>
      obtain rfl := (List.cons.inj htail).1
      exact hl' (List.mem_cons_self ..)

/-- Lines put together are read back. -/
theorem lines_join {ls : List Text} (h : ∀ l ∈ ls, l ≠ [] ∧ '\n' ∉ l) : lines (join ls) = ls := by
  have hpieces : pieces (join ls) = ls ++ [[]] := by
    induction ls with
    | nil => rfl
    | cons l ls ih =>
      rw [join, List.flatMap_cons, List.append_assoc]
      have hl := pieces_append (h l (List.mem_cons_self ..)).2 (join ls)
      rw [ih fun k hk => h k (List.mem_cons_of_mem _ hk)] at hl
      exact hl
  rw [lines, hpieces, List.filter_append, List.filter_eq_self.mpr fun l hl => decide_eq_true (h l hl).1]
  exact List.append_nil ls

theorem lines_spec {sdp l : Text} (h : l ∈ lines sdp) : l ≠ [] ∧ '\n' ∉ l := by
  obtain ⟨hpiece, hne⟩ := List.mem_filter.mp h
  exact ⟨of_decide_eq_true hne, notMem_of_mem_pieces hpiece⟩

/-! ## What is left -/

/-- The lines without what belongs to the payload types dropped. -/
def left (drop ls : List Text) : List Text := (ls.filter (stays drop)).map (withoutPayloads drop)

def Section.left (drop : List Text) (s : Section) : Section := ⟨withoutPayloads drop s.head, DirectSdp.left drop s.body⟩

theorem mappings_left (drop ls : List Text) :
    mappings toLowerCase (left drop ls) = (mappings toLowerCase ls).filter (·.1 ∉ drop) := by
  have hmap : ∀ ls, mappings toLowerCase (ls.map (withoutPayloads drop)) = mappings toLowerCase ls := by
    intro ls
    rw [mappings, List.filterMap_map, mappings]
    congr 1
    funext l
    exact rtpmapOf_withoutPayloads toLowerCase drop l
  rw [left, hmap, mappings_stays]

theorem left_nil (ls : List Text) : left [] ls = ls := by
  have hstays : ls.filter (stays []) = ls := by
    rw [List.filter_eq_self]
    intro l _
    rw [stays, Option.all_eq_true]
    exact fun pt _ => decide_eq_true List.not_mem_nil
  have hwithout : ∀ l, withoutPayloads [] l = l := by
    intro l
    by_cases h : isAudio l = true
    · have hfilter : ((l.splitOn ' ').drop 3).filter (fun pt => decide (pt ∉ ([] : List Text))) =
          (l.splitOn ' ').drop 3 := by
        rw [List.filter_eq_self]
        exact fun pt _ => decide_eq_true List.not_mem_nil
      rw [withoutPayloads_of_audio [] h, hfilter, List.take_append_drop, List.intercalate_splitOn]
    · exact withoutPayloads_of_not [] h
  rw [left, hstays, funext hwithout, List.map_id']

theorem left_spec {drop ls : List Text} (h : ∀ l ∈ ls, l ≠ [] ∧ '\n' ∉ l) : ∀ l ∈ left drop ls, l ≠ [] ∧ '\n' ∉ l := by
  intro l hl
  obtain ⟨k, hk, rfl⟩ := List.mem_map.mp hl
  have hspec := h k (List.mem_filter.mp hk).1
  exact ⟨withoutPayloads_ne_nil drop hspec.1, fun hmem => hspec.2 (mem_of_mem_withoutPayloads drop hmem)⟩

/-- Deduplicating leaves what does not belong to the payload types scanned out. -/
theorem lines_dedupeCodecs (sdp : Text) :
    lines (dedupeCodecs toLowerCase sdp) = left (scan toLowerCase (lines sdp)).drop (lines sdp) := by
  unfold dedupeCodecs
  dsimp only
  split
  · rename_i hnil
    rw [hnil, left_nil]
  · exact lines_join (left_spec fun l hl => lines_spec hl)

/-- Nothing is left to drop. -/
theorem dedupeCodecs_idempotent (sdp : Text) :
    dedupeCodecs toLowerCase (dedupeCodecs toLowerCase sdp) = dedupeCodecs toLowerCase sdp := by
  have hnone : (scan toLowerCase (lines (dedupeCodecs toLowerCase sdp))).drop = [] := by
    rw [List.eq_nil_iff_forall_not_mem]
    intro pt hpt
    rw [mem_drop_scan, lines_dedupeCodecs, Repeated, mappings_left] at hpt
    obtain ⟨m, hm, -⟩ := List.mem_map.mp hpt
    obtain ⟨before, rest, hms, hbefore⟩ := mem_again.mp hm
    have hdropped : ∀ m ∈ again [] (mappings toLowerCase (lines sdp)), m.1 ∈ (scan toLowerCase (lines sdp)).drop := by
      intro m hm
      rw [mem_drop_scan]
      exact List.mem_map_of_mem hm
    have hnodup := (nodup_of_dropped hdropped).1
    rw [hms, List.map_append, List.map_cons] at hnodup
    have hdisjoint := (List.nodup_append.mp hnodup).2.2
    exact hdisjoint _ (hbefore.resolve_left nofun) _ (List.mem_cons_self ..) rfl
  rw [dedupeCodecs, if_pos hnone]

/-! ## Section by section -/

theorem attributeOf_of_isMedia {l : Text} (h : isMedia l = true) : attributeOf l = none := by
  obtain ⟨rest, hafter⟩ := Option.isSome_iff_exists.mp h
  obtain ⟨htake, -⟩ := after_eq_some hafter
  cases l with
  | nil => cases htake
  | cons m l =>
    have hm : m.toLower = 'm' := (List.cons.inj htake).1
    have hnone : ∀ tail, after ('a' :: tail) (m :: l) = none :=
      fun tail => after_eq_none rfl rfl (by rw [hm]; decide)
    have hrtpmap : after "a=rtpmap:".toList (m :: l) = none := hnone _
    have hfmtp : after "a=fmtp:".toList (m :: l) = none := hnone _
    have hfeedback : after "a=rtcp-fb:".toList (m :: l) = none := hnone _
    rw [attributeOf, hrtpmap, hfmtp, hfeedback]
    rfl

theorem left_cons_of_media (drop : List Text) {l : Text} (h : isMedia l = true) (ls : List Text) :
    left drop (l :: ls) = withoutPayloads drop l :: left drop ls := by
  have hstays : stays drop l = true := by
    rw [stays, attributeOf_of_isMedia h]
    rfl
  rw [left, List.filter_cons, if_pos hstays]
  rfl

theorem takeWhile_left (drop ls : List Text) :
    (left drop ls).takeWhile (!isMedia ·) = left drop (ls.takeWhile (!isMedia ·)) := by
  induction ls with
  | nil => rfl
  | cons l ls ih =>
    cases hl : isMedia l with
    | true =>
      have hwithout : isMedia (withoutPayloads drop l) = true := by rw [isMedia_withoutPayloads, hl]
      rw [left_cons_of_media drop hl, List.takeWhile_cons, List.takeWhile_cons, hl, hwithout]
      rfl
    | false =>
      have hwithout : isMedia (withoutPayloads drop l) = false := by rw [isMedia_withoutPayloads, hl]
      rw [List.takeWhile_cons, hl, left, List.filter_cons, Bool.not_false, if_pos rfl]
      by_cases hstays : stays drop l = true
      · rw [if_pos hstays, List.map_cons, List.takeWhile_cons, hwithout, left, List.filter_cons, if_pos hstays,
          List.map_cons, Bool.not_false, if_pos rfl]
        exact congrArg (_ :: ·) ih
      · rw [if_neg hstays, left, List.filter_cons, if_neg hstays]
        exact ih

/-- The sections of what is left are what is left of the sections. -/
theorem sections_left (drop ls : List Text) : sections (left drop ls) = (sections ls).map (Section.left drop) := by
  induction ls with
  | nil => rfl
  | cons l ls ih =>
    cases hl : isMedia l with
    | true =>
      have hwithout : isMedia (withoutPayloads drop l) = true := by rw [isMedia_withoutPayloads, hl]
      rw [left_cons_of_media drop hl, sections, if_pos hwithout, sections, if_pos hl, List.map_cons, ih,
        takeWhile_left]
      rfl
    | false =>
      have hwithout : isMedia (withoutPayloads drop l) = false := by rw [isMedia_withoutPayloads, hl]
      rw [sections, if_neg (by simp [hl]), ← ih, left, List.filter_cons]
      split
      · rw [List.map_cons, sections, if_neg (by simp [hwithout])]
        rfl
      · rfl

/-- A section's lines stand among all. -/
theorem exists_of_mem_sections {ls : List Text} {s : Section} (h : s ∈ sections ls) :
    ∃ before after, ls = before ++ s.body ++ after := by
  induction ls with
  | nil => cases h
  | cons l ls ih =>
    have hmore : s ∈ sections ls → ∃ before after, l :: ls = before ++ s.body ++ after := by
      intro hs
      obtain ⟨before, after, hls⟩ := ih hs
      exact ⟨l :: before, after, congrArg (l :: ·) hls⟩
    rw [sections] at h
    split at h
    · rcases List.mem_cons.mp h with rfl | h
      · refine ⟨[l], ls.dropWhile (!isMedia ·), ?_⟩
        rw [List.append_assoc, List.takeWhile_append_dropWhile]
        rfl
      · exact hmore h
    · exact hmore h

section

variable {toLowerCase} {drop ls : List Text} {s : Section}

theorem mem_payloads_left {pt : Text} : pt ∈ payloads (s.left drop).head ↔
    pt ∈ payloads s.head ∧ (isAudio s.head = true → pt ∉ drop) := by
  rw [Section.left]
  by_cases h : isAudio s.head = true
  · rw [payloads_withoutPayloads drop h, List.mem_filter, decide_eq_true_eq]
    simp only [h, forall_const]
  · rw [withoutPayloads_of_not drop h]
    exact (and_iff_left fun h' => absurd h' h).symm

theorem lists_left {codec : Text} : (s.left drop).Lists toLowerCase codec ↔
    ∃ pt ∈ payloads s.head, (pt, codec) ∈ mappings toLowerCase s.body ∧ pt ∉ drop := by
  have hbody : ∀ pt, (pt, codec) ∈ mappings toLowerCase (s.left drop).body ↔
      (pt, codec) ∈ mappings toLowerCase s.body ∧ pt ∉ drop := by
    intro pt
    rw [Section.left, mappings_left, List.mem_filter, decide_eq_true_eq]
  constructor
  · rintro ⟨pt, hpt, hmapped⟩
    exact ⟨pt, (mem_payloads_left.mp hpt).1, (hbody pt).mp hmapped⟩
  · rintro ⟨pt, hpt, hmapped, hdrop⟩
    exact ⟨pt, mem_payloads_left.mpr ⟨hpt, fun _ => hdrop⟩, (hbody pt).mpr ⟨hmapped, hdrop⟩⟩

/-- Attributes left are of payload types left. -/
theorem attributes_left {l : Text} (hl : l ∈ (s.left drop).body) {pt : Text} (hpt : pt ∈ attributeOf l)
    (hlisted : pt ∈ payloads s.head) : pt ∈ payloads (s.left drop).head := by
  obtain ⟨k, hk, rfl⟩ := List.mem_map.mp hl
  rw [attributeOf_withoutPayloads] at hpt
  have hstays := (List.mem_filter.mp hk).2
  rw [stays, Option.all_eq_true] at hstays
  exact mem_payloads_left.mpr ⟨hlisted, fun _ => of_decide_eq_true (hstays pt hpt)⟩

/-- Dropping what is repeated among all lines is right for a section if and only
if the section is sound. -/
theorem safeSection_iff (hdrop : ∀ pt, pt ∈ drop ↔ Repeated toLowerCase ls pt) (hs : s ∈ sections ls) :
    SafeSection toLowerCase s (s.left drop) ↔ Sound toLowerCase ls s := by
  have hbody : ∀ m ∈ again [] (mappings toLowerCase s.body), Repeated toLowerCase ls m.1 := by
    intro m hm
    obtain ⟨before, after, hls⟩ := exists_of_mem_sections hs
    have hmappings : mappings toLowerCase ls =
        mappings toLowerCase before ++ mappings toLowerCase s.body ++ mappings toLowerCase after := by
      rw [hls, mappings, List.filterMap_append, List.filterMap_append]
      rfl
    rw [Repeated, hmappings]
    exact List.mem_map_of_mem (again_append _ _ hm)
  have hlists : ∀ codec, (s.left drop).Lists toLowerCase codec ↔ ∃ pt ∈ payloads s.head,
      (pt, codec) ∈ mappings toLowerCase s.body ∧ ¬Repeated toLowerCase ls pt := by
    intro codec
    rw [lists_left]
    simp only [hdrop]
  constructor
  · intro h
    constructor
    · intro codec hlisted
      exact (hlists codec).mp (h.codecs codec hlisted).1
    · intro haudio pt hpt hunmapped hrepeated
      -- not left, so a repeat, so mapped
      have hfilter := h.payloads haudio
      have hkept : pt ∉ payloads (s.left drop).head :=
        fun hmem => (mem_payloads_left.mp hmem).2 haudio ((hdrop pt).mpr hrepeated)
      rw [hfilter, List.mem_filter, decide_eq_true_eq, not_and, not_not] at hkept
      obtain ⟨m, hm, rfl⟩ := List.mem_map.mp (hkept hpt).1
      obtain ⟨before, rest, hms, -⟩ := mem_again.mp hm
      exact hunmapped (List.mem_map_of_mem (hms ▸ List.mem_append_right _ (List.mem_cons_self ..)))
  · intro h
    constructor
    · intro haudio
      rw [Section.left, payloads_withoutPayloads drop haudio]
      apply List.filter_congr
      intro pt hpt
      rw [decide_eq_decide, hdrop, not_iff_not]
      constructor
      · intro hrepeated
        have hnotFirst : pt ∉ (firsts [] (mappings toLowerCase s.body)).map Prod.fst := by
          intro hfirst
          obtain ⟨m, hm, rfl⟩ := List.mem_map.mp hfirst
          obtain ⟨pt, -, hmapped, hnot⟩ := h.codecs m.2 ⟨m.1, hpt, (mem_of_mem_firsts hm).1⟩
          rcases eq_or_again_of_firsts hm hmapped rfl with heq | hagain
          · rw [← heq] at hrepeated
            exact hnot hrepeated
          · exact hnot (hbody _ hagain)
        refine ⟨?_, hnotFirst⟩
        by_contra hnotAgain
        refine h.unmapped haudio pt hpt (fun hmapped => ?_) hrepeated
        obtain ⟨m, hm, rfl⟩ := List.mem_map.mp hmapped
        rcases mem_firsts_or_again hm [] with hfirst | hagain
        · exact hnotFirst (List.mem_map_of_mem hfirst)
        · exact hnotAgain (List.mem_map_of_mem hagain)
      · rintro ⟨hagain, -⟩
        obtain ⟨m, hm, rfl⟩ := List.mem_map.mp hagain
        exact hbody m hm
    · intro codec hlisted
      have hleft := (hlists codec).mpr (h.codecs codec hlisted)
      refine ⟨hleft, ?_⟩
      obtain ⟨pt, -, hmapped⟩ := hleft
      have hnodup : ((mappings toLowerCase (s.left drop).body).map Prod.snd).Nodup := by
        rw [Section.left, mappings_left]
        exact (nodup_of_dropped fun m hm => (hdrop m.1).mpr (hbody m hm)).1
      exact List.count_eq_one_of_mem hnodup (List.mem_map_of_mem hmapped)
    · exact fun l hl pt hpt => attributes_left hl hpt

end

/-- The pass is safe for a text if and only if every section of it is sound: what
it lists is mapped within it to a payload type that is repeated nowhere. -/
theorem codecsOnce (sdp : Text) :
    Safe toLowerCase sdp ↔ ∀ s ∈ sections (lines sdp), Sound toLowerCase (lines sdp) s := by
  have hdrop : ∀ pt, pt ∈ (scan toLowerCase (lines sdp)).drop ↔ Repeated toLowerCase (lines sdp) pt :=
    mem_drop_scan toLowerCase (lines sdp)
  constructor
  · intro h s hs
    have hsections := h.sections
    rw [lines_dedupeCodecs, sections_left, List.forall₂_map_right_iff, List.forall₂_same] at hsections
    exact (safeSection_iff hdrop hs).mp (hsections s hs)
  · intro h
    constructor
    · exact dedupeCodecs_idempotent toLowerCase sdp
    · exact ⟨_, lines_dedupeCodecs toLowerCase sdp⟩
    · rw [lines_dedupeCodecs, sections_left, List.forall₂_map_right_iff, List.forall₂_same]
      exact fun s hs => (safeSection_iff hdrop hs).mpr (h s hs)

/-- Two audio sections with the same codec under two numbers. -/
def twoSections : Text :=
  ("v=0\r\nm=audio 9 RTP/AVP 0\r\na=rtpmap:0 PCMU/8000\r\n" ++
    "m=audio 9 RTP/AVP 8\r\na=rtpmap:8 PCMU/8000\r\n").toList

/-- The second is left without any codec. -/
theorem not_codecsOnce_twoSections : ¬Safe (List.map Char.toLower) twoSections := by
  intro h
  have hpair : (⟨"m=audio 9 RTP/AVP 8".toList, ["a=rtpmap:8 PCMU/8000".toList]⟩, ⟨"m=audio 9 RTP/AVP".toList, []⟩) ∈
      (sections (lines twoSections)).zip (sections (lines (dedupeCodecs (List.map Char.toLower) twoSections))) := by
    decide +kernel
  have hsafe := (List.forall₂_iff_zip.mp h.sections).2 hpair
  exact absurd (hsafe.codecs "pcmu/8000".toList (by decide +kernel)).1 (by decide +kernel)

end Callio.DirectSdp
