import Callio.Sip.SipAddress

/-! Phone numbers have one stored form. Each way of writing a number comes down to
its digits; what `toE164` stores is read back as itself. -/

namespace Callio.SipAddress

open Js

/-! ## Digits -/

/-- Begins with the international prefix. -/
def StartsInternational (digits : Text) : Prop := ['0', '0'].isPrefixOf digits = true

instance (digits : Text) : Decidable (StartsInternational digits) := inferInstanceAs (Decidable (_ = _))

/-- What `toE164` makes of the digits it finds. -/
def stored (digits : Text) : Option Text := if 5 ≤ digits.length then some ('+' :: digits) else none

theorem filter_digits {digits : Text} (h : digits.all Char.isDigit = true) : digits.filter Char.isDigit = digits :=
  List.filter_eq_self.mpr (List.all_eq_true.mp h)

theorem trim_plus {digits : Text} (h : digits.all Char.isDigit = true) : trim ('+' :: digits) = '+' :: digits := by
  have hspace : isSpace '+' = false := by decide
  have hend : trimStart (digits.reverse ++ ['+']) = digits.reverse ++ ['+'] := by
    cases hreverse : digits.reverse with
    | nil => rfl
    | cons c rest =>
      have hc : c ∈ digits := List.mem_reverse.mp (hreverse ▸ List.mem_cons_self ..)
      rw [List.cons_append, trimStart, List.dropWhile_cons,
        if_neg (by simp [isSpace_of_isDigit (List.all_eq_true.mp h c hc)])]
  have hstart : trimStart ('+' :: digits) = '+' :: digits := by
    rw [trimStart, List.dropWhile_cons, if_neg (by simp [hspace])]
  rw [trim, hstart, List.reverse_cons, hend, List.reverse_append, List.reverse_reverse]
  rfl

theorem dropInternationalPrefix_of_not {digits : Text} (h : ¬StartsInternational digits) :
    dropInternationalPrefix digits = digits := by
  unfold dropInternationalPrefix
  split
  · exact absurd (by simp [StartsInternational]) h
  · rfl

theorem isPhone_of_digits {digits : Text} (h : digits.all Char.isDigit = true) :
    isPhone digits = isDigits5to15 digits := by
  unfold isPhone
  split
  · cases h
  · rfl

theorem stored_eq_none {digits : Text} (h : digits.length < 5) : stored digits = none := if_neg (by omega)

/-- `'+d'`. -/
theorem toE164_plus {digits : Text} (h : digits.all Char.isDigit = true) :
    toE164 (some ('+' :: digits)) =
      if isDigits5to15 digits then stored (dropInternationalPrefix digits) else none := by
  have hfilter : ('+' :: digits).filter Char.isDigit = digits := by
    rw [List.filter_cons_of_neg (by decide), filter_digits h]
  simp only [toE164, trim_plus h, hfilter, isPhone, isPrefixedPhone, stored]
  cases isDigits5to15 digits <;> rfl

/-- `'d'`. -/
theorem toE164_digits {digits : Text} (h : digits.all Char.isDigit = true) :
    toE164 (some digits) =
      if isDigits5to15 digits || isPrefixedPhone digits then stored (dropInternationalPrefix digits) else none := by
  cases digits with
  | nil => rfl
  | cons c rest =>
    simp only [toE164, trim_of_digits h, filter_digits h, isPhone_of_digits h, stored]
    cases isDigits5to15 (c :: rest) <;> cases isPrefixedPhone (c :: rest) <;> rfl

/-- `'00d'`: the same as `'+d'`. -/
theorem toE164_prefixed {digits : Text} (h : digits.all Char.isDigit = true) :
    toE164 (some ('0' :: '0' :: digits)) = if isDigits5to15 digits then stored digits else none := by
  have hall : ('0' :: '0' :: digits).all Char.isDigit = true := h
  rw [toE164_digits hall]
  simp only [isPrefixedPhone, dropInternationalPrefix]
  by_cases hdigits : isDigits5to15 digits = true
  · rw [hdigits, Bool.or_true]
  · have hshort : isDigits5to15 ('0' :: '0' :: digits) = true → digits.length < 5 := by
      intro hlong
      simp only [isDigits5to15, h, hall, Bool.and_true, Bool.and_eq_true, decide_eq_true_eq,
        List.length_cons] at hdigits hlong
      omega
    rw [if_neg hdigits, Bool.eq_false_of_not_eq_true hdigits, Bool.or_false]
    split
    · rename_i hlong
      exact stored_eq_none (hshort hlong)
    · rfl

/-- The three ways of writing digits that do not start with a zero. -/
theorem toE164_forms {digits : Text} (h : digits.all Char.isDigit = true) (hzero : digits.head? ≠ some '0') :
    toE164 (some ('+' :: digits)) = toE164 (some digits) ∧
      toE164 (some ('0' :: '0' :: digits)) = toE164 (some digits) := by
  have hnot : ¬StartsInternational digits := by
    intro hstarts
    obtain ⟨rest, rfl⟩ := List.isPrefixOf_iff_prefix.mp hstarts
    exact hzero rfl
  have hprefixed : isPrefixedPhone digits = false := by
    unfold isPrefixedPhone
    split
    · exact absurd rfl hzero
    · rfl
  rw [toE164_plus h, toE164_digits h, toE164_prefixed h, hprefixed, Bool.or_false,
    dropInternationalPrefix_of_not hnot]
  exact ⟨rfl, rfl⟩

/-! ## Stored numbers -/

theorem dropInternationalPrefix_suffix (digits : Text) : dropInternationalPrefix digits <:+ digits := by
  unfold dropInternationalPrefix
  split
  · rename_i rest
    exact List.suffix_append ['0', '0'] rest
  · exact List.suffix_refl _

/-- A number has at most 15 digits behind the international prefix. -/
theorem length_digits_le {s : Text} (h : isPhone s = true ∨ isPrefixedPhone s = true) :
    (dropInternationalPrefix (s.filter Char.isDigit)).length ≤ 15 := by
  rcases h with h | h
  · have hle : (s.filter Char.isDigit).length ≤ 15 := by
      unfold isPhone at h
      split at h
      · rename_i digits
        simp only [isDigits5to15, Bool.and_eq_true, decide_eq_true_eq] at h
        have hdigits := List.length_filter_le Char.isDigit digits
        rw [List.filter_cons_of_neg (by decide)]
        omega
      · simp only [isDigits5to15, Bool.and_eq_true, decide_eq_true_eq] at h
        have hdigits := List.length_filter_le Char.isDigit s
        omega
    exact (dropInternationalPrefix_suffix _).length_le.trans hle
  · unfold isPrefixedPhone at h
    split at h
    · rename_i digits
      simp only [isDigits5to15, Bool.and_eq_true, decide_eq_true_eq] at h
      have hall : ('0' :: '0' :: digits).all Char.isDigit = true := h.2
      rw [filter_digits hall]
      exact h.1.2
    · cases h

/-- What is stored: a plus and 5 to 15 digits. -/
theorem toE164_spec {value e : Text} (h : toE164 (some value) = some e) :
    ∃ digits, e = '+' :: digits ∧ isDigits5to15 digits = true := by
  cases value with
  | nil => cases h
  | cons c rest =>
    simp only [toE164] at h
    split at h
    · cases h
    · rename_i hphone
      have hphone : isPhone (trim (c :: rest)) = true ∨ isPrefixedPhone (trim (c :: rest)) = true := by
        rw [← Bool.or_eq_true, ← Bool.not_eq_false]
        intro hneither
        rw [← Bool.not_or, hneither] at hphone
        exact hphone rfl
      split at h
      · rename_i hlength
        refine ⟨_, (Option.some.inj h).symm, ?_⟩
        have hall : ((trim (c :: rest)).filter Char.isDigit).all Char.isDigit = true := by
          rw [List.all_eq_true]
          exact fun d hd => (List.mem_filter.mp hd).2
        have hsuffix : ∀ d ∈ dropInternationalPrefix ((trim (c :: rest)).filter Char.isDigit), d.isDigit = true :=
          fun d hd => List.all_eq_true.mp hall d ((dropInternationalPrefix_suffix _).subset hd)
        simp only [isDigits5to15, Bool.and_eq_true, decide_eq_true_eq]
        exact ⟨⟨hlength, length_digits_le hphone⟩, List.all_eq_true.mpr hsuffix⟩
      · cases h

/-- A stored number that does not begin with the prefix is read back as itself. -/
theorem toE164_stored {digits : Text} (h : isDigits5to15 digits = true) (hnot : ¬StartsInternational digits) :
    toE164 (some ('+' :: digits)) = some ('+' :: digits) ∧ toE164 (some digits) = some ('+' :: digits) := by
  have hall : digits.all Char.isDigit = true := by
    simp only [isDigits5to15, Bool.and_eq_true] at h
    exact h.2
  have hlength : 5 ≤ digits.length := by
    simp only [isDigits5to15, Bool.and_eq_true, decide_eq_true_eq] at h
    exact h.1.1
  have hstored : stored digits = some ('+' :: digits) := if_pos hlength
  rw [toE164_plus hall, toE164_digits hall, h, Bool.true_or, dropInternationalPrefix_of_not hnot, hstored]
  exact ⟨rfl, rfl⟩

/-! ## National numbers -/

/-- The digits of a trunk's country code. -/
def NumberRules.code (rules : NumberRules) : Text := (rules.countryCode.getD []).filter Char.isDigit

/-- How a trunk's carrier sends a national number: behind the national prefix, or
bare where it does not begin with it. -/
def NumberRules.Sends (rules : NumberRules) (sent national : Text) : Prop :=
  sent = rules.nationalPrefix.getD [] ++ national ∨
    sent = national ∧ (rules.nationalPrefix.getD []).isPrefixOf national = false

/-- Sent with a plus or the prefix, a number stays as it is. -/
theorem applyNumberRules_international (rules : NumberRules) {s : Text} (htrim : trim s = s)
    (hs : ['+'].isPrefixOf s = true ∨ StartsInternational s) : applyNumberRules (some s) (some rules) = some s := by
  unfold applyNumberRules
  split
  · contradiction
  · rename_i h _
    exact h ▸ rfl
  · rename_i h _
    exact h ▸ rfl
  · rename_i value countryCode _ h _
    obtain rfl := Option.some.inj h
    have hinternational : (['+'].isPrefixOf s || ['0', '0'].isPrefixOf s || !decide (IsNumeral s)) = true := by
      rcases hs with hs | hs
      · rw [hs]
        rfl
      · rw [show ['0', '0'].isPrefixOf s = true from hs, Bool.or_true]
        rfl
    simp only [htrim, hinternational, if_true]

/-- Sent in the national form, it gets the country code. -/
theorem applyNumberRules_national {rules : NumberRules} {sent national : Text} (hsent : IsNumeral sent)
    (hzeros : ¬StartsInternational sent) (hcode : rules.code.isPrefixOf sent = false)
    (hsends : rules.Sends sent national) :
    applyNumberRules (some sent) (some rules) = some ('+' :: rules.code ++ national) := by
  have hplus : ['+'].isPrefixOf sent = false := by
    obtain ⟨-, hall⟩ := hsent
    cases sent with
    | nil => rfl
    | cons c rest =>
      have hc : c.isDigit = true := List.all_eq_true.mp hall c (List.mem_cons_self ..)
      have hne : '+' ≠ c := by
        rintro rfl
        cases hc
      simp [List.isPrefixOf, hne]
  have hinternational : (['+'].isPrefixOf sent || ['0', '0'].isPrefixOf sent || !decide (IsNumeral sent)) = false := by
    rw [hplus, Bool.eq_false_of_not_eq_true hzeros, decide_eq_true hsent]
    rfl
  have hstripped : (if rules.nationalPrefix.getD [] ≠ [] ∧ (rules.nationalPrefix.getD []).isPrefixOf sent = true
      then sent.drop (rules.nationalPrefix.getD []).length else sent) = national := by
    rcases hsends with rfl | ⟨rfl, hbare⟩
    · have hprefix : (rules.nationalPrefix.getD []).isPrefixOf (rules.nationalPrefix.getD [] ++ national) = true :=
        List.isPrefixOf_iff_prefix.mpr (List.prefix_append ..)
      by_cases hnone : rules.nationalPrefix.getD [] = []
      · rw [hnone]
        rfl
      · rw [if_pos ⟨hnone, hprefix⟩, List.drop_left]
    · rw [if_neg (by simp [hbare])]
  cases hcountry : rules.countryCode with
  | none =>
    rw [NumberRules.code, hcountry] at hcode
    cases hcode
  | some countryCode =>
    have hne : countryCode ≠ [] := by
      rintro rfl
      rw [NumberRules.code, hcountry] at hcode
      cases hcode
    have hcodeEq : rules.code = countryCode.filter Char.isDigit := by rw [NumberRules.code, hcountry]; rfl
    obtain ⟨c, cs, rfl⟩ := List.exists_cons_of_ne_nil hne
    rw [hcodeEq] at hcode ⊢
    simp only [applyNumberRules, Option.bind_some, hcountry, trim_of_digits hsent.2, hinternational, hcode,
      Bool.false_eq_true, if_false, hstripped]

/-- A number sent in the national form, with a plus or with the prefix. -/
theorem toE164_national {rules : NumberRules} {sent national : Text} (hsent : IsNumeral sent)
    (hzeros : ¬StartsInternational sent) (hcode : rules.code.isPrefixOf sent = false)
    (hsends : rules.Sends sent national) (hnumber : ¬StartsInternational (rules.code ++ national)) :
    toE164 (applyNumberRules (some ('+' :: rules.code ++ national)) (some rules)) =
        toE164 (applyNumberRules (some sent) (some rules)) ∧
      toE164 (applyNumberRules (some ('0' :: '0' :: rules.code ++ national)) (some rules)) =
        toE164 (applyNumberRules (some sent) (some rules)) := by
  have hcodeDigits : rules.code.all Char.isDigit = true := by
    rw [List.all_eq_true]
    exact fun d hd => (List.mem_filter.mp hd).2
  have hnationalDigits : national.all Char.isDigit = true := by
    obtain ⟨-, hall⟩ := hsent
    rcases hsends with rfl | ⟨rfl, -⟩
    · rw [List.all_append, Bool.and_eq_true] at hall
      exact hall.2
    · exact hall
  have hall : (rules.code ++ national).all Char.isDigit = true := by
    rw [List.all_append, hcodeDigits, hnationalDigits]
    rfl
  have hprefixed : ('0' :: '0' :: (rules.code ++ national)).all Char.isDigit = true := hall
  have hplus := applyNumberRules_international rules (trim_plus hall) (.inl rfl)
  have hzeroZero := applyNumberRules_international rules (trim_of_digits hprefixed) (.inr rfl)
  rw [applyNumberRules_national hsent hzeros hcode hsends, List.cons_append, List.cons_append, List.cons_append, hplus,
    hzeroZero, toE164_plus hall, toE164_prefixed hall, dropInternationalPrefix_of_not hnumber]
  exact ⟨rfl, rfl⟩

/-- Whichever way the carrier sends a number, its caller has one address, and the
call to it is a call to one line. -/
theorem callerOf_national {rules : NumberRules} {sent national : Text} (hsent : IsNumeral sent)
    (hzeros : ¬StartsInternational sent) (hcode : rules.code.isPrefixOf sent = false)
    (hsends : rules.Sends sent national) (hnumber : ¬StartsInternational (rules.code ++ national))
    (hdigits : isDigits5to15 (rules.code ++ national) = true) {s : Text}
    (hs : s = sent ∨ s = '+' :: rules.code ++ national ∨ s = '0' :: '0' :: rules.code ++ national)
    (uri name : Option Text) (toUser : Option Text) :
    callerOf uri (some s) name (some rules) = ⟨'+' :: rules.code ++ national, .e164, name.bind callerName⟩ ∧
      dialledNumber (some s) toUser (some rules) = some ('+' :: rules.code ++ national) := by
  have hnational : toE164 (applyNumberRules (some sent) (some rules)) = some ('+' :: rules.code ++ national) := by
    rw [applyNumberRules_national hsent hzeros hcode hsends]
    exact (toE164_stored hdigits hnumber).1
  have hstored : toE164 (applyNumberRules (some s) (some rules)) = some ('+' :: rules.code ++ national) := by
    obtain ⟨hplus, hprefixed⟩ := toE164_national hsent hzeros hcode hsends hnumber
    rcases hs with rfl | rfl | rfl
    · exact hnational
    · exact hplus.trans hnational
    · exact hprefixed.trans hnational
  constructor
  · simp only [callerOf, hstored]
  · simp only [dialledNumber, hstored, Option.some_or]

/-- One stored form: of digits however they are written, of what is stored, and of
a national number that is not read as an international one. -/
theorem storedForm :
    (∀ digits : Text, digits.all Char.isDigit = true → digits.head? ≠ some '0' →
      toE164 (some ('+' :: digits)) = toE164 (some digits) ∧
        toE164 (some ('0' :: '0' :: digits)) = toE164 (some digits)) ∧
    (∀ value e : Text, toE164 (some value) = some e → ¬StartsInternational (e.drop 1) →
      toE164 (some e) = some e ∧ toE164 (some (userPart e)) = some e) ∧
    (∀ (rules : NumberRules) (sent national : Text), IsNumeral sent → rules.Sends sent national →
      ¬StartsInternational sent → rules.code.isPrefixOf sent = false →
      ¬StartsInternational (rules.code ++ national) →
      toE164 (applyNumberRules (some ('+' :: rules.code ++ national)) (some rules)) =
          toE164 (applyNumberRules (some sent) (some rules)) ∧
        toE164 (applyNumberRules (some ('0' :: '0' :: rules.code ++ national)) (some rules)) =
          toE164 (applyNumberRules (some sent) (some rules))) := by
  refine ⟨fun digits h hzero => toE164_forms h hzero, fun value e h hnot => ?_, ?_⟩
  · obtain ⟨digits, rfl, hdigits⟩ := toE164_spec h
    obtain ⟨hplus, hbare⟩ := toE164_stored hdigits hnot
    have huser : userPart ('+' :: digits) = digits := by
      rw [userPart, hplus]
      rfl
    rw [huser]
    exact ⟨hplus, hbare⟩
  · intro rules sent national hsent hsends hzeros hcode hnumber
    exact toE164_national hsent hzeros hcode hsends hnumber

/-- A Lebanese number, as the carrier sends it at home and from abroad. -/
theorem storedForm_lebanese :
    let rules : NumberRules := { countryCode := some "961".toList, nationalPrefix := some "0".toList }
    toE164 (applyNumberRules (some "+96131234567".toList) (some rules)) =
      toE164 (applyNumberRules (some "031234567".toList) (some rules)) :=
  (storedForm.2.2 { countryCode := some "961".toList, nationalPrefix := some "0".toList } "031234567".toList
    "31234567".toList (by decide) (.inl rfl) (by decide) (by decide) (by decide)).1

/-- A national number that begins with the country code's digits is taken for an
international one. -/
theorem not_storedForm_codeTwice :
    let rules : NumberRules := { countryCode := some "961".toList }
    rules.Sends "9611234".toList "9611234".toList ∧
      toE164 (applyNumberRules (some "9611234".toList) (some rules)) ≠
        toE164 (applyNumberRules (some ('+' :: "961".toList ++ "9611234".toList)) (some rules)) :=
  ⟨.inl rfl, by decide +kernel⟩

end Callio.SipAddress
