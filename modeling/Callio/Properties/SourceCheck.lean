import Callio.Sip.SipAddress

/-! Which sources a trunk's entries admit. A well-written entry admits what it
says; an entry of another form is read all the same, and may admit more. -/

namespace Callio.SipAddress

open Js

/-! ## What an entry says -/

/-- An IPv4 address. -/
structure Quad where
  a : UInt8
  b : UInt8
  c : UInt8
  d : UInt8
  deriving DecidableEq, Repr

def Quad.parts (q : Quad) : List Nat := [q.a.toNat, q.b.toNat, q.c.toNat, q.d.toNat]

/-- As a network stack writes it. -/
def Quad.text (q : Quad) : Text := ['.'].intercalate (q.parts.map (Nat.toDigits 10))

def address (a b c d : Nat) : BitVec 32 := .ofNat 32 ((a <<< 24) + (b <<< 16) + (c <<< 8) + d)

def Quad.address (q : Quad) : BitVec 32 := SipAddress.address q.a.toNat q.b.toNat q.c.toNat q.d.toNat

/-- Plain, or mapped into IPv6. -/
def Quad.source (q : Quad) (mapped : Bool) : Text := if mapped then "::ffff:".toList ++ q.text else q.text

def numeral (s : Text) : Option Nat := if IsNumeral s then some (Nat.ofDigitChars 10 s 0) else none

/-- `a.b.c.d`, four decimal octets. -/
def quadOf (s : Text) : Option (BitVec 32) :=
  match (s.splitOn '.').map numeral with
  | [some a, some b, some c, some d] =>
    if a < 256 ∧ b < 256 ∧ c < 256 ∧ d < 256 then some (address a b c d) else none
  | _ => none

/-- `a.b.c.d`, or `a.b.c.d/n` with `n` from 0 to 32: the address, and how many bits count. -/
def blockOf (entry : Text) : Option (BitVec 32 × Nat) :=
  match entry.splitOn '/' with
  | [base] => (quadOf base).map fun base => (base, 32)
  | [base, n] => (quadOf base).bind fun base => (numeral n).bind fun n => if n ≤ 32 then some (base, n) else none
  | _ => none

/-- The top bits agree. -/
def SameTop (length : Nat) (x y : BitVec 32) : Prop := x >>> (32 - length) = y >>> (32 - length)

instance (length : Nat) (x y : BitVec 32) : Decidable (SameTop length x y) := inferInstanceAs (Decidable (_ = _))

/-- The entry is a block with the address in it, or its base is the address's text. -/
def Permits (q : Quad) (entry : Text) : Prop :=
  (∃ block ∈ blockOf entry, SameTop block.2 q.address block.1) ∨ baseOf entry = q.text

instance (q : Quad) (entry : Text) : Decidable (Permits q entry) := inferInstanceAs (Decidable (_ ∨ _))

/-! ## How it is read -/

/-- How many top bits count for a suffix read as the number `bits`: none for zero,
all for no number at all, and from 1 to 32 else. -/
def lengthOf (bits : Number) : Nat := if bits = .fin 0 then 0 else 32 - (Number.subFrom 32 bits).toUint32 % 32

/-- The base reads as an address that agrees with this one as far as the suffix counts. -/
def ReadsAs (q : Quad) (entry : Text) : Prop :=
  ∃ base ∈ ipv4ToInt (baseOf entry), SameTop (lengthOf (bitsOf entry)) q.address base

theorem SameTop.refl (length : Nat) (x : BitVec 32) : SameTop length x x := Eq.refl _

/-- Masking off the low bits, or shifting them out. -/
theorem and_shiftLeft_eq_iff {s : Nat} (x y : BitVec 32) :
    x &&& (BitVec.allOnes 32 <<< s) = y &&& (BitVec.allOnes 32 <<< s) ↔ x >>> s = y >>> s := by
  constructor
  · intro h
    ext i hi
    have hbit := congrArg (fun z : BitVec 32 => z.getLsbD (s + i)) h
    simp only [BitVec.getLsbD_and, BitVec.getLsbD_shiftLeft, BitVec.getLsbD_allOnes] at hbit
    by_cases hlt : s + i < 32
    · have hback : s + i - s = i := by omega
      have hnot : ¬s + i < s := by omega
      simpa [hlt, hback, hi, hnot, ← BitVec.getLsbD_eq_getElem] using hbit
    · simp [← BitVec.getLsbD_eq_getElem, BitVec.getLsbD_of_ge, Nat.not_lt.mp hlt]
  · intro h
    ext i hi
    by_cases hle : s ≤ i
    · have hbit := congrArg (fun z : BitVec 32 => z.getLsbD (i - s)) h
      simp only [BitVec.getLsbD_ushiftRight] at hbit
      rw [show s + (i - s) = i by omega] at hbit
      simp only [← BitVec.getLsbD_eq_getElem, BitVec.getLsbD_and, hbit]
    · simp [← BitVec.getLsbD_eq_getElem, Nat.not_le.mp hle]

theorem and_mask_eq_iff (bits : Number) (x y : BitVec 32) :
    x &&& mask bits = y &&& mask bits ↔ SameTop (lengthOf bits) x y := by
  unfold mask lengthOf SameTop
  by_cases hbits : bits = .fin 0
  · simp only [hbits, if_true]
    refine iff_of_true (by simp) ?_
    ext i hi
    simp [← BitVec.getLsbD_eq_getElem]
  · have hshift : (Number.subFrom 32 bits).toUint32 % 32 < 32 := Nat.mod_lt _ (by decide)
    simp only [hbits, if_false]
    rw [and_shiftLeft_eq_iff, Nat.sub_sub_self (by omega)]

/-! ## Well-written entries -/

theorem numeral_eq_some {s : Text} {n : Nat} (h : numeral s = some n) :
    IsNumeral s ∧ Nat.ofDigitChars 10 s 0 = n := by
  unfold numeral at h
  split at h
  · rename_i hs
    exact ⟨hs, Option.some.inj h⟩
  · cases h

theorem ofText_of_numeral {s : Text} {n : Nat} (h : numeral s = some n) (hn : n < 256) : Number.ofText s = .fin n := by
  obtain ⟨hs, rfl⟩ := numeral_eq_some h
  rw [Number.ofText_of_isNumeral hs, Number.round_of_lt hn]

theorem numeral_toDigits (n : Nat) : numeral (Nat.toDigits 10 n) = some n := by
  rw [numeral, if_pos (isNumeral_toDigits n), Nat.ofDigitChars_toDigits (by decide) (by decide)]

theorem octet_of_lt {n : Nat} (h : n < 256) : octet (.fin n) = some n := by
  have hall : ∀ n < 256, octet (.fin (n : Nat)) = some n := by decide +kernel
  exact hall n h

theorem octet_of_numeral {s : Text} {n : Nat} (h : numeral s = some n) (hn : n < 256) :
    octet (.ofText s) = some n := by
  rw [ofText_of_numeral h hn, octet_of_lt hn]

/-- Four decimal octets read as the address they write. -/
theorem ipv4ToInt_of_quadOf {s : Text} {base : BitVec 32} (h : quadOf s = some base) : ipv4ToInt s = some base := by
  unfold quadOf at h
  split at h
  · rename_i a b c d hparts
    obtain ⟨sa, rest, hsplit, ha, hparts⟩ := List.map_eq_cons_iff.mp hparts
    obtain ⟨sb, rest, rfl, hb, hparts⟩ := List.map_eq_cons_iff.mp hparts
    obtain ⟨sc, rest, rfl, hc, hparts⟩ := List.map_eq_cons_iff.mp hparts
    obtain ⟨sd, rest, rfl, hd, hparts⟩ := List.map_eq_cons_iff.mp hparts
    obtain rfl := List.map_eq_nil_iff.mp hparts
    split at h
    · rename_i hlt
      rw [ipv4ToInt, hsplit]
      simp only [List.map_cons, List.map_nil, octet_of_numeral ha hlt.1, octet_of_numeral hb hlt.2.1,
        octet_of_numeral hc hlt.2.2.1, octet_of_numeral hd hlt.2.2.2]
      exact h
    · cases h
  · cases h

theorem quadOf_text (q : Quad) : quadOf q.text = some q.address := by
  have hdots : ∀ part ∈ q.parts.map (Nat.toDigits 10), '.' ∉ part := by
    intro part hpart hdot
    obtain ⟨n, -, rfl⟩ := List.mem_map.mp hpart
    exact absurd (Nat.isDigit_of_mem_toDigits (by decide) (by decide) hdot) (by decide)
  rw [quadOf, Quad.text, List.splitOn_intercalate '.' hdots (by simp [Quad.parts])]
  simp only [Quad.parts, List.map_cons, List.map_nil, numeral_toDigits]
  exact if_pos ⟨q.a.toNat_lt, q.b.toNat_lt, q.c.toNat_lt, q.d.toNat_lt⟩

/-- A suffix from 0 to 32 counts as many bits as it says. -/
theorem lengthOf_of_le {n : Nat} (h : n ≤ 32) : lengthOf (.fin n) = n := by
  have hall : ∀ n < 33, lengthOf (.fin (n : Nat)) = n := by decide +kernel
  exact hall n (by omega)

/-- A well-written entry is read as it says. -/
theorem readsAs_of_blockOf {q : Quad} {entry : Text} {block : BitVec 32 × Nat} (h : blockOf entry = some block) :
    ReadsAs q entry ↔ SameTop block.2 q.address block.1 := by
  have hread : ipv4ToInt (baseOf entry) = some block.1 ∧ lengthOf (bitsOf entry) = block.2 := by
    unfold blockOf at h
    unfold baseOf bitsOf
    split at h
    · rename_i base hsplit
      obtain ⟨value, hvalue, rfl⟩ := Option.map_eq_some_iff.mp h
      rw [hsplit]
      exact ⟨ipv4ToInt_of_quadOf hvalue, lengthOf_of_le (Nat.le_refl 32)⟩
    · rename_i base n hsplit
      obtain ⟨value, hvalue, h⟩ := Option.bind_eq_some_iff.mp h
      obtain ⟨length, hlength, h⟩ := Option.bind_eq_some_iff.mp h
      split at h
      · rename_i hle
        cases h
        rw [hsplit]
        refine ⟨ipv4ToInt_of_quadOf hvalue, ?_⟩
        have hnumber : Number.ofText n = .fin length := ofText_of_numeral hlength (by omega)
        simp only [List.getElem?_cons_succ, List.getElem?_cons_zero, hnumber]
        exact lengthOf_of_le hle
      · cases h
    · cases h
  rw [ReadsAs, hread.1, hread.2]
  constructor
  · rintro ⟨base, hbase, hsame⟩
    cases hbase
    exact hsame
  · exact fun hsame => ⟨block.1, rfl, hsame⟩

/-! ## What is admitted -/

theorem admits_iff (q : Quad) (entry : Text) :
    admits q.text entry = true ↔ baseOf entry = q.text ∨ ReadsAs q entry := by
  have hq := ipv4ToInt_of_quadOf (quadOf_text q)
  unfold admits ReadsAs
  rw [hq]
  cases hbase : ipv4ToInt (baseOf entry) with
  | none =>
    simp only [decide_eq_true_eq]
    constructor
    · exact fun h => .inl h.symm
    · rintro (h | ⟨base, hnone, -⟩)
      · exact h.symm
      · cases hnone
  | some base =>
    simp only [decide_eq_true_eq, and_mask_eq_iff]
    constructor
    · exact fun h => .inr ⟨base, rfl, h⟩
    · rintro (h | ⟨base', hsome, hsame⟩)
      · rw [h, hq] at hbase
        cases hbase
        exact SameTop.refl _ _
      · cases hsome
        exact hsame

/-- An address's text starts with a digit. -/
theorem head_text (q : Quad) : ∃ c rest, q.text = c :: rest ∧ c.isDigit = true := by
  obtain ⟨hne, hall⟩ := isNumeral_toDigits q.a.toNat
  obtain ⟨c, rest, hdigits⟩ := List.exists_cons_of_ne_nil hne
  refine ⟨c, rest ++ '.' :: ['.'].intercalate ([q.b.toNat, q.c.toNat, q.d.toNat].map (Nat.toDigits 10)), ?_, ?_⟩
  · rw [Quad.text, Quad.parts, List.map_cons, hdigits]
    rfl
  · exact List.all_eq_true.mp hall c (hdigits ▸ List.mem_cons_self ..)

theorem dropMapped_source (q : Quad) (mapped : Bool) : dropMapped (q.source mapped) = q.text := by
  cases mapped with
  | true =>
    rw [dropMapped, Quad.source, if_pos rfl, if_pos (by simp)]
    rfl
  | false =>
    obtain ⟨c, rest, htext, hc⟩ := head_text q
    have hsource : q.source false = c :: rest := htext
    rw [hsource, htext, dropMapped, if_neg]
    intro hprefix
    have hcolon : ':' = c := by
      have hcons := List.isPrefixOf_iff_prefix.mp hprefix
      exact (List.cons_prefix_cons.mp hcons).1
    rw [← hcolon] at hc
    cases hc

/-- The source is allowed for an entry that permits it, or for one of another form
that reads as an address which agrees with it. -/
theorem sourceAllowed_iff (q : Quad) (mapped : Bool) {entries : List Text} (hne : entries ≠ []) :
    sourceAllowed (some entries) (some (q.source mapped)) = true ↔
      (∃ entry ∈ entries, Permits q entry) ∨ ∃ entry ∈ entries, blockOf entry = none ∧ ReadsAs q entry := by
  have hany : sourceAllowed (some entries) (some (q.source mapped)) = entries.any (admits q.text) := by
    cases entries with
    | nil => exact absurd rfl hne
    | cons entry entries => rw [sourceAllowed, Option.getD_some, dropMapped_source]; exact nofun
  rw [hany, List.any_eq_true]
  constructor
  · rintro ⟨entry, hentry, hadmits⟩
    rcases (admits_iff q entry).mp hadmits with hbase | hreads
    · exact .inl ⟨entry, hentry, .inr hbase⟩
    · cases hblock : blockOf entry with
      | none => exact .inr ⟨entry, hentry, hblock, hreads⟩
      | some block => exact .inl ⟨entry, hentry, .inl ⟨block, hblock, (readsAs_of_blockOf hblock).mp hreads⟩⟩
  · rintro (⟨entry, hentry, ⟨block, hblock, hsame⟩ | hbase⟩ | ⟨entry, hentry, -, hreads⟩)
    · exact ⟨entry, hentry, (admits_iff q entry).mpr (.inr ((readsAs_of_blockOf hblock).mpr hsame))⟩
    · exact ⟨entry, hentry, (admits_iff q entry).mpr (.inl hbase)⟩
    · exact ⟨entry, hentry, (admits_iff q entry).mpr (.inr hreads)⟩

/-- The check is right, unless no entry permits the source and one of another form
reads as if it did. -/
theorem sourceCheck (q : Quad) (mapped : Bool) (entries : List Text) (hne : entries ≠ []) :
    (sourceAllowed (some entries) (some (q.source mapped)) = true ↔ ∃ entry ∈ entries, Permits q entry) ↔
      (∃ entry ∈ entries, Permits q entry) ∨ ¬∃ entry ∈ entries, blockOf entry = none ∧ ReadsAs q entry := by
  rw [sourceAllowed_iff q mapped hne]
  constructor
  · intro h
    by_cases hodd : ∃ entry ∈ entries, blockOf entry = none ∧ ReadsAs q entry
    · exact .inl (h.mp (.inr hodd))
    · exact .inr hodd
  · intro h
    constructor
    · rintro (hpermits | hodd)
      · exact hpermits
      · exact h.resolve_right (not_not_intro hodd)
    · exact .inl

theorem sourceCheck_block :
    (sourceAllowed (some ["10.0.0.0/8".toList]) (some (Quad.source ⟨10, 1, 2, 3⟩ true)) = true ↔
        ∃ entry ∈ ["10.0.0.0/8".toList], Permits ⟨10, 1, 2, 3⟩ entry) ∧ "10.0.0.0/8".toList ≠ [] := by
  refine ⟨(sourceCheck ⟨10, 1, 2, 3⟩ true _ (List.cons_ne_nil _ _)).mpr (.inl ?_), by decide⟩
  exact ⟨_, List.mem_singleton_self _, by decide +kernel⟩

/-- An entry without its suffix's digits opens the trunk. -/
theorem not_sourceCheck_emptySuffix :
    ¬(sourceAllowed (some ["10.0.0.0/".toList]) (some (Quad.source ⟨203, 0, 113, 7⟩ false)) = true ↔
        ∃ entry ∈ ["10.0.0.0/".toList], Permits ⟨203, 0, 113, 7⟩ entry) := by
  have hallowed : sourceAllowed (some ["10.0.0.0/".toList]) (some (Quad.source ⟨203, 0, 113, 7⟩ false)) = true := by
    decide +kernel
  have hnone : ¬∃ entry ∈ ["10.0.0.0/".toList], Permits ⟨203, 0, 113, 7⟩ entry := by
    rintro ⟨entry, hentry, hpermits⟩
    obtain rfl := List.mem_singleton.mp hentry
    exact absurd hpermits (by decide +kernel)
  exact fun h => hnone (h.mp hallowed)

end Callio.SipAddress
