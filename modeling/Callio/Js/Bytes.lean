import Callio.Js.Number
import Mathlib.Data.List.Basic

/-! Node's `Buffer`, as far as a decoder reads it, and strings as bytes. An offset
is an integer or `NaN`; a number no double holds exactly is far outside any buffer,
where only its sign counts. -/

namespace Js

abbrev Bytes := List UInt8

/-! ## UTF-8 -/

/-- `Buffer.from(s, 'utf8')`. -/
def utf8 (s : Text) : Bytes := s.flatMap String.utf8EncodeChar

def isContinuation (b : UInt8) : Bool := 0x80 ≤ b && b ≤ 0xBF

/-- The second byte a three or four byte sequence may have. -/
def secondOk (b₀ b₁ : UInt8) : Bool :=
  if b₀ = 0xE0 then 0xA0 ≤ b₁ && b₁ ≤ 0xBF
  else if b₀ = 0xED then 0x80 ≤ b₁ && b₁ ≤ 0x9F
  else if b₀ = 0xF0 then 0x90 ≤ b₁ && b₁ ≤ 0xBF
  else if b₀ = 0xF4 then 0x80 ≤ b₁ && b₁ ≤ 0x8F
  else 0xE1 ≤ b₀ && b₀ ≤ 0xF3 && isContinuation b₁

/-- How many bytes one replacement character stands for, where no character begins. -/
def brokenLength (bs : Bytes) : Nat :=
  match bs with
  | b₀ :: b₁ :: rest =>
    if secondOk b₀ b₁ then
      if 0xF0 ≤ b₀ ∧ rest.head?.any isContinuation = true then 3 else 2
    else 1
  | _ => 1

theorem brokenLength_pos (bs : Bytes) : 0 < brokenLength bs := by
  unfold brokenLength
  split
  · split
    · split <;> decide
    · decide
  · decide

/-- `toString('utf8')`. -/
def decodeUtf8 (bs : Bytes) : Text :=
  match bs with
  | [] => []
  | b :: bs =>
    match (b :: bs).toByteArray.utf8DecodeChar? 0 with
    | some c => c :: decodeUtf8 ((b :: bs).drop c.utf8Size)
    | none => '\uFFFD' :: decodeUtf8 ((b :: bs).drop (brokenLength (b :: bs)))
  termination_by bs.length
  decreasing_by
    · have hpos := c.utf8Size_pos
      simp only [List.length_drop, List.length_cons]
      omega
    · have hpos := brokenLength_pos (b :: bs)
      simp only [List.length_drop, List.length_cons]
      omega

theorem utf8_cons (c : Char) (s : Text) : utf8 (c :: s) = String.utf8EncodeChar c ++ utf8 s := rfl

theorem utf8_append (s t : Text) : utf8 (s ++ t) = utf8 s ++ utf8 t := List.flatMap_append

/-- What was encoded is decoded. -/
theorem decodeUtf8_utf8 (s : Text) : decodeUtf8 (utf8 s) = s := by
  induction s with
  | nil => rw [utf8, List.flatMap_nil, decodeUtf8]
  | cons c s ih =>
    obtain ⟨b, bs, hbytes⟩ := List.exists_cons_of_ne_nil (@String.utf8EncodeChar_ne_nil c)
    have hfirst : (utf8 (c :: s)).toByteArray.utf8DecodeChar? 0 = some c := by
      rw [utf8_cons, List.toByteArray_append]
      exact ByteArray.utf8DecodeChar?_utf8EncodeChar_append
    have hrest : (utf8 (c :: s)).drop c.utf8Size = utf8 s := by
      rw [utf8_cons, List.drop_left' (String.length_utf8EncodeChar c)]
    have hcons : utf8 (c :: s) = b :: (bs ++ utf8 s) := by rw [utf8_cons, hbytes]; rfl
    rw [hcons] at hfirst hrest ⊢
    rw [decodeUtf8, hfirst]
    simp only [hrest, ih]

/-- An ASCII character is one byte. -/
theorem utf8EncodeChar_of_lt {c : Char} (h : c.toNat < 128) : String.utf8EncodeChar c = [UInt8.ofNat c.toNat] := by
  have hle : c.val.toNat ≤ 0x7f := Nat.le_of_lt_succ h
  simp only [String.utf8EncodeChar, hle, if_true]
  rfl

/-! ## UTF-16 -/

def units (c : Char) : List Nat :=
  if c.toNat < 0x10000 then [c.toNat]
  else [0xD800 + (c.toNat - 0x10000) / 0x400, 0xDC00 + (c.toNat - 0x10000) % 0x400]

def utf16 (s : Text) : List Nat := s.flatMap units

/-! ## Reading -/

abbrev Cursor := Option Int

/-- Where a forward search from an offset begins. -/
def searchFrom (length : Nat) (offset : Cursor) : Option Nat :=
  match offset with
  | none => some 0
  | some offset =>
    if offset < 0 then some (offset + length).toNat
    else if offset < length then some offset.toNat
    else none

/-- `buf.indexOf(byte, offset)`. -/
def indexOf (buf : Bytes) (byte : UInt8) (offset : Cursor) : Int :=
  match searchFrom buf.length offset with
  | none => -1
  | some n =>
    match (buf.drop n).idxOf? byte with
    | some i => n + i
    | none => -1

def adjustOffset (length : Nat) (offset : Cursor) : Nat :=
  match offset with
  | none => 0
  | some offset => if offset < 0 then (offset + length).toNat else min offset.toNat length

/-- `buf.subarray(start, end)`. -/
def subarray (buf : Bytes) (start stop : Cursor) : Bytes :=
  (buf.take (adjustOffset buf.length stop)).drop (adjustOffset buf.length start)

/-- `toString('ascii')`. -/
def decodeAscii (bs : Bytes) : Text := bs.map fun b => Char.ofNat (b.toNat % 128)

/-- The digits a text begins with, in decimal. -/
def leadingNat (s : Text) : Option Nat :=
  if s.takeWhile Char.isDigit = [] then none else some (Nat.ofDigitChars 10 (s.takeWhile Char.isDigit) 0)

/-- `parseInt(s, 10)`. -/
def parseInt (s : Text) : Cursor :=
  match trimStart s with
  | '-' :: s => (leadingNat s).map fun n => -(n : Int)
  | '+' :: s => (leadingNat s).map fun n => (n : Int)
  | s => (leadingNat s).map fun n => (n : Int)

/-- `buf[i]`, where there is none NUL, which `String.fromCharCode` makes of it. -/
def byteAt (buf : Bytes) (i : Cursor) : UInt8 :=
  match i with
  | none => 0
  | some i => if i < 0 then 0 else buf.getD i.toNat 0

/-! ## Bytes in place -/

def IsAscii (s : Text) : Prop := ∀ c ∈ s, c.toNat < 128

theorem utf8_of_isAscii {s : Text} (h : IsAscii s) : utf8 s = s.map fun c => UInt8.ofNat c.toNat := by
  induction s with
  | nil => rfl
  | cons c s ih =>
    rw [utf8_cons, utf8EncodeChar_of_lt (h c (List.mem_cons_self ..)), ih fun d hd => h d (List.mem_cons_of_mem _ hd)]
    rfl

theorem decodeAscii_utf8 {s : Text} (h : IsAscii s) : decodeAscii (utf8 s) = s := by
  have hchar : ∀ c ∈ s, Char.ofNat ((UInt8.ofNat c.toNat).toNat % 128) = c := by
    intro c hc
    have hlt := h c hc
    rw [UInt8.toNat_ofNat', Nat.mod_eq_of_lt (by omega : c.toNat < 2 ^ 8), Nat.mod_eq_of_lt hlt, Char.ofNat_toNat]
  rw [utf8_of_isAscii h, decodeAscii, List.map_map]
  exact (List.map_congr_left hchar).trans (List.map_id s)

theorem isAscii_of_digits {s : Text} (h : s.all Char.isDigit = true) : IsAscii s := by
  intro c hc
  have hdigit := List.all_eq_true.mp h c hc
  simp only [Char.isDigit, Bool.and_eq_true, decide_eq_true_eq] at hdigit
  have hhigh : c.toNat ≤ 57 := hdigit.2
  omega

/-- An ASCII character that a text does not have is none of its bytes. -/
theorem not_mem_utf8 {s : Text} (h : IsAscii s) {c : Char} (hc : c.toNat < 128) (hnot : c ∉ s) : c.toUInt8 ∉ utf8 s := by
  rw [utf8_of_isAscii h]
  intro hmem
  obtain ⟨d, hd, hbyte⟩ := List.mem_map.mp hmem
  have hlt := h d hd
  have hnat : (UInt8.ofNat d.toNat).toNat = c.toUInt8.toNat := congrArg UInt8.toNat hbyte
  have hcnat : c.toUInt8.toNat = c.toNat % 2 ^ 8 := UInt8.toNat_ofNat'
  rw [UInt8.toNat_ofNat', hcnat] at hnat
  obtain rfl : d = c := Char.toNat_inj.mp (by omega)
  exact hnot hd

theorem byteAt_append (before after : Bytes) (byte : UInt8) :
    byteAt (before ++ byte :: after) (some (before.length : Int)) = byte := by
  have hnonneg : ¬(before.length : Int) < 0 := by omega
  simp only [byteAt, hnonneg, if_false, Int.toNat_natCast, List.getD_eq_getElem?_getD]
  rw [List.getElem?_append_right (Nat.le_refl _), Nat.sub_self]
  rfl

theorem idxOf?_append {w : Bytes} {byte : UInt8} (h : byte ∉ w) (after : Bytes) :
    (w ++ byte :: after).idxOf? byte = some w.length := by
  induction w with
  | nil => simp [List.idxOf?_cons]
  | cons b w ih =>
    have hb : ¬b = byte := fun hb => h (hb ▸ List.mem_cons_self ..)
    rw [List.cons_append, List.idxOf?_cons, ih fun hw => h (List.mem_cons_of_mem _ hw)]
    simp [hb]

/-- A byte is found behind bytes that are others. -/
theorem indexOf_append (before : Bytes) {w : Bytes} {byte : UInt8} (h : byte ∉ w) (after : Bytes) :
    indexOf (before ++ (w ++ byte :: after)) byte (some (before.length : Int)) = (before.length + w.length : Nat) := by
  have hsearch : searchFrom (before ++ (w ++ byte :: after)).length (some (before.length : Int)) =
      some before.length := by
    have hnonneg : ¬(before.length : Int) < 0 := by omega
    have hlt : (before.length : Int) < ((before ++ (w ++ byte :: after)).length : Int) := by
      simp only [List.length_append, List.length_cons]
      omega
    simp only [searchFrom, hnonneg, hlt, if_true, if_false, Int.toNat_natCast]
  unfold indexOf
  rw [hsearch]
  simp only [List.drop_left, idxOf?_append h]
  rfl

theorem subarray_append (before w after : Bytes) :
    subarray (before ++ (w ++ after)) (some (before.length : Int)) (some ((before.length + w.length : Nat) : Int)) = w := by
  have hadjust : ∀ n : Nat, n ≤ (before ++ (w ++ after)).length →
      adjustOffset (before ++ (w ++ after)).length (some (n : Int)) = n := by
    intro n hn
    have hnonneg : ¬(n : Int) < 0 := by omega
    simp only [adjustOffset, hnonneg, if_false, Int.toNat_natCast]
    omega
  have hlength : (before ++ (w ++ after)).length = before.length + (w.length + after.length) := by
    rw [List.length_append, List.length_append]
  rw [subarray, hadjust _ (by omega), hadjust _ (by omega), ← List.append_assoc, List.take_left' (by rw [List.length_append]),
    List.drop_left]

/-! ## Numerals -/

theorem not_mem_of_digits {s : Text} (h : s.all Char.isDigit = true) {c : Char} (hc : c.isDigit = false) : c ∉ s := by
  intro hmem
  rw [List.all_eq_true.mp h c hmem] at hc
  cases hc

/-- A numeral begins with a digit's byte. -/
theorem byteAt_numeral {s : Text} (h : IsNumeral s) (before after : Bytes) :
    (byteAt (before ++ (utf8 s ++ after)) (some (before.length : Int))).toNat ≤ 57 := by
  obtain ⟨c, s, rfl⟩ := List.exists_cons_of_ne_nil h.1
  have hdigit := List.all_eq_true.mp h.2 c (List.mem_cons_self ..)
  simp only [Char.isDigit, Bool.and_eq_true, decide_eq_true_eq] at hdigit
  have hhigh : c.toNat ≤ 57 := hdigit.2
  rw [utf8_cons, utf8EncodeChar_of_lt (by omega), List.append_assoc, List.singleton_append, byteAt_append,
    UInt8.toNat_ofNat']
  omega

theorem leadingNat_of_isNumeral {s : Text} (h : IsNumeral s) : leadingNat s = some (Nat.ofDigitChars 10 s 0) := by
  have htake : s.takeWhile Char.isDigit = s := List.takeWhile_eq_self_iff.mpr (List.all_eq_true.mp h.2)
  rw [leadingNat, htake, if_neg h.1]

theorem parseInt_of_isNumeral {s : Text} (h : IsNumeral s) : parseInt s = some (Nat.ofDigitChars 10 s 0 : Int) := by
  rw [parseInt, trimStart_of_digits h.2]
  have hleading := leadingNat_of_isNumeral h
  split
  · cases h.2
  · cases h.2
  · rw [hleading]
    rfl

theorem parseInt_negative {s : Text} (h : IsNumeral s) :
    parseInt ('-' :: s) = some (-(Nat.ofDigitChars 10 s 0 : Int)) := by
  have hspace : trimStart ('-' :: s) = '-' :: s := by
    rw [trimStart, List.dropWhile_cons, if_neg (by decide)]
  rw [parseInt, hspace]
  simp only [leadingNat_of_isNumeral h]
  rfl

end Js
