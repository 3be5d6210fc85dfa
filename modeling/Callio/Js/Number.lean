import Mathlib.Tactic.Common
import Mathlib.Algebra.Order.Ring.Rat
import Mathlib.Data.List.TakeDrop
import Mathlib.Data.List.TakeWhile

/-! What `Number` makes of a string. A finite double is the rational it stands
for; minus zero is zero, which nothing here tells apart. -/

namespace Js

/-- Strings, as far as their characters matter. -/
abbrev Text := List Char

/-! ## White space -/

/-- `WhiteSpace` and `LineTerminator`. -/
def isSpace (c : Char) : Bool :=
  c.toNat ∈ [0x9, 0xA, 0xB, 0xC, 0xD, 0x20, 0xA0, 0x1680, 0x2028, 0x2029, 0x202F, 0x205F, 0x3000, 0xFEFF] ||
    (0x2000 ≤ c.toNat && c.toNat ≤ 0x200A)

def trimStart (s : Text) : Text := s.dropWhile isSpace

def trim (s : Text) : Text := (trimStart (trimStart s).reverse).reverse

/-! ## Doubles -/

inductive Number
  | nan
  | inf (negative : Bool)
  | fin (q : Rat)
  deriving DecidableEq, Repr

/-- Ties to even. -/
def roundHalfEven (q : Rat) : Int :=
  let below := q.floor
  if q - below < 1 / 2 then below
  else if 1 / 2 < q - below then below + 1
  else if below % 2 = 0 then below
  else below + 1

def twoPow (e : Int) : Rat := if 0 ≤ e then ((2 ^ e.toNat : Nat) : Rat) else 1 / ((2 ^ (-e).toNat : Nat) : Rat)

/-- The exponent of the last of 53 significant bits of `q > 0`, at least that of
the smallest double. -/
def lastBit (q : Rat) : Int :=
  let e : Int := q.num.natAbs.log2 - q.den.log2 - 52
  max (if q < twoPow (e + 52) then e - 1 else e) (-1074)

/-- The double nearest to a rational. -/
def Number.round (q : Rat) : Number :=
  if q = 0 then .fin 0
  else
    let unit := twoPow (lastBit |q|)
    let v := roundHalfEven (|q| / unit) * unit
    if twoPow 1024 ≤ v then .inf (q < 0) else .fin (if q < 0 then -v else v)

/-! ## Literals -/

/-- The value of `SignedInteger`, as an exponent. -/
def signedInteger (s : Text) : Option Int :=
  let (negative, ds) := match s with
    | '+' :: ds => (false, ds)
    | '-' :: ds => (true, ds)
    | ds => (false, ds)
  if ds ≠ [] ∧ ds.all Char.isDigit then
    some (if negative then -(Nat.ofDigitChars 10 ds 0 : Int) else Nat.ofDigitChars 10 ds 0)
  else none

def exponentPart (s : Text) : Option Int :=
  match s with
  | [] => some 0
  | c :: s => if c = 'e' ∨ c = 'E' then signedInteger s else none

/-- An optional point and the digits behind it. -/
def fraction (s : Text) : Text × Text :=
  match s with
  | '.' :: s => s.span Char.isDigit
  | s => ([], s)

def tenPow (e : Int) : Rat := if 0 ≤ e then ((10 ^ e.toNat : Nat) : Rat) else 1 / ((10 ^ (-e).toNat : Nat) : Rat)

/-- `StrUnsignedDecimalLiteral`, except `Infinity`. -/
def decimalLiteral (s : Text) : Option Rat :=
  let (whole, s) := s.span Char.isDigit
  let (behind, s) := fraction s
  if whole = [] ∧ behind = [] then none
  else (exponentPart s).map fun e => Nat.ofDigitChars 10 (whole ++ behind) 0 * tenPow (e - behind.length)

def digitOf (c : Char) : Option Nat :=
  if c.isDigit then some (c.toNat - '0'.toNat)
  else if 'a' ≤ c ∧ c ≤ 'f' then some (c.toNat - 'a'.toNat + 10)
  else if 'A' ≤ c ∧ c ≤ 'F' then some (c.toNat - 'A'.toNat + 10)
  else none

/-- The digits of a `0x`, `0o` or `0b` literal. -/
def radixDigits (base : Nat) (s : Text) : Option Nat :=
  if s = [] then none
  else s.foldlM (fun n c => (digitOf c).bind fun d => if d < base then some (base * n + d) else none) 0

def radixOf (c : Char) : Option Nat :=
  if c = 'x' ∨ c = 'X' then some 16
  else if c = 'o' ∨ c = 'O' then some 8
  else if c = 'b' ∨ c = 'B' then some 2
  else none

def unsigned (negative : Bool) (s : Text) : Number :=
  if s = "Infinity".toList then .inf negative
  else
    match decimalLiteral s with
    | some q => .round (if negative then -q else q)
    | none => .nan

/-- A literal without the white space around it. -/
def literal (s : Text) : Number :=
  match s with
  | [] => .fin 0
  | '+' :: s => unsigned false s
  | '-' :: s => unsigned true s
  | '0' :: c :: ds =>
    match radixOf c with
    | some base => ((radixDigits base ds).map fun n : Nat => Number.round n).getD .nan
    | none => unsigned false ('0' :: c :: ds)
  | s => unsigned false s

/-- `Number(s)`. -/
def Number.ofText (s : Text) : Number := literal (trim s)

/-! ## Arithmetic -/

/-- Rounded towards zero. -/
def truncate (q : Rat) : Int := if 0 ≤ q then q.floor else -(-q).floor

/-- `ToUint32`. -/
def Number.toUint32 : Number → Nat
  | .fin q => (truncate q % 4294967296).toNat
  | _ => 0

/-- `n - x`. -/
def Number.subFrom (n : Nat) : Number → Number
  | .nan => .nan
  | .inf negative => .inf (!negative)
  | .fin q => .round (n - q)

/-- `x + n`. -/
def Number.plus (x : Number) (n : Nat) : Number :=
  match x with
  | .fin q => .round (q + n)
  | x => x

/-- `x * n`, for `n > 0`. -/
def Number.times (x : Number) (n : Nat) : Number :=
  match x with
  | .fin q => .round (q * n)
  | x => x

/-- `Boolean(x)`. -/
def Number.isTruthy (x : Number) : Bool := x ≠ .nan && x ≠ .fin 0

/-- The time value of `new Date(x)`; an invalid date has none. -/
def Number.timeClip : Number → Option Int
  | .fin q => if |q| ≤ 8640000000000000 then some (truncate q) else none
  | _ => none

/-- `Math.max(x, y)`. -/
def Number.max : Number → Number → Number
  | .nan, _ | _, .nan => .nan
  | .inf false, _ | _, .inf false => .inf false
  | .inf true, x | x, .inf true => x
  | .fin p, .fin q => .fin (if p ≤ q then q else p)

/-! ## Decimal digits -/

/-- One or more digits, and no more than digits. -/
def IsNumeral (s : Text) : Prop := s ≠ [] ∧ s.all Char.isDigit = true

instance (s : Text) : Decidable (IsNumeral s) := inferInstanceAs (Decidable (_ ∧ _))

theorem isSpace_of_isDigit {c : Char} (h : c.isDigit = true) : isSpace c = false := by
  simp only [Char.isDigit, Bool.and_eq_true, decide_eq_true_eq] at h
  have hlow : 48 ≤ c.toNat := h.1
  have hhigh : c.toNat ≤ 57 := h.2
  simp only [isSpace, List.mem_cons, List.not_mem_nil, or_false, Bool.or_eq_false_iff, decide_eq_false_iff_not,
    Bool.and_eq_false_iff]
  omega

theorem trimStart_of_digits {s : Text} (h : s.all Char.isDigit = true) : trimStart s = s := by
  cases s with
  | nil => rfl
  | cons c s =>
    have hc : isSpace c = false := isSpace_of_isDigit (List.all_eq_true.mp h c (List.mem_cons_self ..))
    rw [trimStart, List.dropWhile_cons, if_neg (by simp [hc])]

theorem trim_of_digits {s : Text} (h : s.all Char.isDigit = true) : trim s = s := by
  have hreverse : s.reverse.all Char.isDigit = true := by rwa [List.all_reverse]
  rw [trim, trimStart_of_digits h, trimStart_of_digits hreverse, List.reverse_reverse]

theorem span_digits {s : Text} (h : s.all Char.isDigit = true) : s.span Char.isDigit = (s, []) := by
  have hall := List.all_eq_true.mp h
  rw [List.span_eq_takeWhile_dropWhile, List.takeWhile_eq_self_iff.mpr hall, List.dropWhile_eq_nil_iff.mpr hall]

theorem decimalLiteral_of_isNumeral {s : Text} (h : IsNumeral s) :
    decimalLiteral s = some (Nat.ofDigitChars 10 s 0 : Rat) := by
  have hfraction : fraction [] = ([], []) := rfl
  have hexponent : exponentPart [] = some 0 := rfl
  have htenPow : tenPow (0 - ([] : Text).length) = 1 := by decide +kernel
  simp only [decimalLiteral, span_digits h.2, hfraction, hexponent, h.1, false_and, if_false, Option.map_some,
    List.append_nil, htenPow, Rat.mul_one]

theorem radixOf_of_isDigit {c : Char} (h : c.isDigit = true) : radixOf c = none := by
  unfold radixOf
  split
  · rename_i hc
    rcases hc with rfl | rfl <;> cases h
  · split
    · rename_i hc
      rcases hc with rfl | rfl <;> cases h
    · split
      · rename_i hc
        rcases hc with rfl | rfl <;> cases h
      · rfl

/-- The number a numeral stands for. -/
theorem Number.ofText_of_isNumeral {s : Text} (h : IsNumeral s) : ofText s = round (Nat.ofDigitChars 10 s 0 : Rat) := by
  have hunsigned : unsigned false s = round (Nat.ofDigitChars 10 s 0 : Rat) := by
    have hword : s ≠ "Infinity".toList := by
      rintro rfl
      exact absurd h (by decide)
    rw [unsigned, if_neg hword, decimalLiteral_of_isNumeral h]
    rfl
  rw [ofText, trim_of_digits h.2, ← hunsigned]
  obtain ⟨hne, hall⟩ := h
  unfold literal
  split
  · exact absurd rfl hne
  · cases hall
  · cases hall
  · rename_i c ds
    have hc : c.isDigit = true := List.all_eq_true.mp hall c (by simp)
    rw [radixOf_of_isDigit hc]
  · rfl

theorem roundHalfEven_intCast (n : Int) : roundHalfEven (n : Rat) = n := by
  have hfloor : (n : Rat).floor = n := Rat.floor_intCast n
  have hhalf : (n : Rat) - (n : Rat) < 1 / 2 := by
    rw [sub_self]
    decide +kernel
  rw [roundHalfEven, hfloor]
  exact if_pos hhalf

theorem lastBit_natCast {n : Nat} (h : n < 2 ^ 53) : lastBit (n : Rat) ≤ 0 := by
  have hlog : n.log2 ≤ 52 := by
    rcases Nat.eq_zero_or_pos n with rfl | hpos
    · decide
    · exact Nat.lt_succ_iff.mp ((Nat.log2_lt (Nat.pos_iff_ne_zero.mp hpos)).mpr h)
  have hnum : (n : Rat).num.natAbs = n := by simp
  have hden : (n : Rat).den.log2 = 0 := by
    rw [Rat.den_natCast]
    decide
  simp only [lastBit, hnum, hden]
  refine max_le ?_ (by decide)
  split <;> omega

/-- Safe integers are doubles. -/
theorem Number.round_natCast {n : Nat} (h : n < 2 ^ 53) : round (n : Rat) = .fin n := by
  rcases Nat.eq_zero_or_pos n with rfl | hpos
  · rfl
  have hq : (0 : Rat) < n := by exact_mod_cast hpos
  obtain ⟨k, hk⟩ : ∃ k : Nat, twoPow (lastBit (n : Rat)) = 1 / ((2 ^ k : Nat) : Rat) := by
    have hle := lastBit_natCast h
    rcases Int.lt_or_eq_of_le hle with hlt | heq
    · exact ⟨_, if_neg (by omega)⟩
    · exact ⟨0, by rw [heq]; decide +kernel⟩
  have hpow : ((2 ^ k : Nat) : Rat) ≠ 0 := by exact_mod_cast (Nat.two_pow_pos k).ne'
  have hdiv : (n : Rat) / (1 / ((2 ^ k : Nat) : Rat)) = ((n * 2 ^ k : Nat) : Int) := by
    rw [div_div_eq_mul_div, div_one]
    push_cast
    rfl
  have hback : (((n * 2 ^ k : Nat) : Int) : Rat) * (1 / ((2 ^ k : Nat) : Rat)) = n := by
    push_cast
    rw [mul_one_div, mul_div_assoc, div_self (by exact_mod_cast hpow), mul_one]
  have hfinite : ¬ twoPow 1024 ≤ (n : Rat) := by
    have hmax : ((2 ^ 53 : Nat) : Rat) ≤ twoPow 1024 := by decide +kernel
    have hn : (n : Rat) < ((2 ^ 53 : Nat) : Rat) := by exact_mod_cast h
    exact not_le.mpr (lt_of_lt_of_le hn hmax)
  have hneg : ¬ (n : Rat) < 0 := not_lt.mpr hq.le
  rw [round, if_neg hq.ne', abs_of_pos hq]
  simp only [hk, hdiv, roundHalfEven_intCast, hback, hfinite, if_false, hneg]

theorem Number.round_of_lt {n : Nat} (h : n < 256) : round (n : Rat) = .fin n := round_natCast (by omega)

theorem isNumeral_toDigits (n : Nat) : IsNumeral (Nat.toDigits 10 n) := by
  constructor
  · exact Nat.toDigits_ne_nil
  · rw [List.all_eq_true]
    exact fun c hc => Nat.isDigit_of_mem_toDigits (by decide) (by decide) hc

example : Number.ofText " 0x1F\t".toList = .fin 31 := by decide +kernel

example : Number.ofText "8.5e-1".toList = Number.round (85 / 100) := by decide +kernel

end Js
