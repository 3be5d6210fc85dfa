import Callio.Properties.MalformedReply
import Mathlib.Data.List.Forall2
import Mathlib.Data.List.Nodup

/-! The codec's round trip. What `bencode` writes reads as an item whose value is the
one written, its keys in order. -/

namespace Callio.RtpEngine

open Js Decode

/-! ## Values that are written -/

/-- One value at a time, from its parts. -/
theorem Value.induct {P : Value → Prop} (leaf : ∀ v, (∀ vs, v ≠ .list vs) → (∀ es, v ≠ .dict es) → P v)
    (list : ∀ vs, (∀ v ∈ vs, P v) → P (.list vs)) (dict : ∀ es, (∀ e ∈ es, P e.2) → P (.dict es)) (v : Value) : P v :=
  match v with
  | .undefined | .null | .boolean _ | .nan | .number _ | .string _ => leaf _ nofun nofun
  | .list vs => list vs (all vs)
  | .dict es => dict es (entries es)
where
  all (vs : List Value) : ∀ v ∈ vs, P v :=
    match vs with
    | [] => nofun
    | v :: vs => List.forall_mem_cons.mpr ⟨Value.induct leaf list dict v, all vs⟩
  entries (es : List (Text × Value)) : ∀ e ∈ es, P e.2 :=
    match es with
    | [] => nofun
    | (_, v) :: es => List.forall_mem_cons.mpr ⟨Value.induct leaf list dict v, entries es⟩

/-- Safe integers, strings, lists and dictionaries, no key of which is `__proto__`. -/
inductive Encodable : Value → Prop
  | number {n : Int} : n.natAbs < 2 ^ 53 → Encodable (.number n)
  | string (s : Text) : Encodable (.string s)
  | list {vs : List Value} : (∀ v ∈ vs, Encodable v) → Encodable (.list vs)
  | dict {es : List (Text × Value)} : (es.map Prod.fst).Nodup → (∀ e ∈ es, e.1 ≠ "__proto__".toList) →
      (∀ e ∈ es, Encodable e.2) → Encodable (.dict es)

/-- Equal values; dictionaries have the same keys, in whatever order, and the same
at each. -/
inductive Same : Value → Value → Prop
  | number (n : Int) : Same (.number n) (.number n)
  | string (s : Text) : Same (.string s) (.string s)
  | list {vs ws : List Value} : List.Forall₂ Same vs ws → Same (.list vs) (.list ws)
  | dict {es fs : List (Text × Value)} : (∀ key, key ∈ es.map Prod.fst ↔ key ∈ fs.map Prod.fst) →
      (∀ key v w, (key, v) ∈ es → (key, w) ∈ fs → Same v w) → Same (.dict es) (.dict fs)

mutual

/-- A value with its keys in order. -/
def sorted : Value → Value
  | .list vs => .list (sortedAll vs)
  | .dict es => .dict ((sortedEntries es).mergeSort keyLe)
  | v => v

def sortedAll : List Value → List Value
  | [] => []
  | v :: vs => sorted v :: sortedAll vs

def sortedEntries : List (Text × Value) → List (Text × Value)
  | [] => []
  | (key, v) :: es => (key, sorted v) :: sortedEntries es

end

theorem sortedAll_eq (vs : List Value) : sortedAll vs = vs.map sorted := by
  induction vs with
  | nil => rw [sortedAll, List.map_nil]
  | cons v vs ih => rw [sortedAll, ih, List.map_cons]

theorem sortedEntries_eq (es : List (Text × Value)) : sortedEntries es = es.map fun e => (e.1, sorted e.2) := by
  induction es with
  | nil => rw [sortedEntries, List.map_nil]
  | cons e es ih => rw [sortedEntries, ih, List.map_cons]

theorem bencodeAll_eq (vs : List Value) : bencodeAll vs = vs.map bencode := by
  induction vs with
  | nil => rw [bencodeAll, List.map_nil]
  | cons v vs ih => rw [bencodeAll, ih, List.map_cons]

theorem bencodePresent_eq (es : List (Text × Value)) :
    bencodePresent es = (es.filter (!·.2.isNullish)).map fun e => (e.1, bencode e.2) := by
  induction es with
  | nil => rw [bencodePresent, List.filter_nil, List.map_nil]
  | cons e es ih =>
    rw [bencodePresent, ih, List.filter_cons]
    cases e.2.isNullish <;> rfl

/-! ## Keys in order -/

/-- Code units tell characters apart. -/
theorem units_append {c d : Char} {s t : List Nat} (h : units c ++ s = units d ++ t) : c = d ∧ s = t := by
  have hscalar : ∀ c : Char, c.toNat < 0xD800 ∨ (0xDFFF < c.toNat ∧ c.toNat < 0x110000) := fun c => c.valid
  have hc := hscalar c
  have hd := hscalar d
  unfold units at h
  split at h <;> split at h
  · obtain ⟨hfirst, hrest⟩ := List.cons.inj h
    exact ⟨Char.toNat_inj.mp hfirst, hrest⟩
  · have hfirst := (List.cons.inj h).1
    omega
  · have hfirst := (List.cons.inj h).1
    omega
  · obtain ⟨hfirst, hrest⟩ := List.cons.inj h
    obtain ⟨hsecond, hrest⟩ := List.cons.inj hrest
    exact ⟨Char.toNat_inj.mp (by omega), hrest⟩

theorem utf16_injective {s t : Text} (h : utf16 s = utf16 t) : s = t := by
  induction s generalizing t with
  | nil =>
    cases t with
    | nil => rfl
    | cons d t =>
      have hunits : units d ≠ [] := by
        unfold units
        split <;> exact nofun
      obtain ⟨u, us, hu⟩ := List.exists_cons_of_ne_nil hunits
      rw [utf16, utf16, List.flatMap_cons, hu] at h
      cases h
  | cons c s ih =>
    cases t with
    | nil =>
      have hunits : units c ≠ [] := by
        unfold units
        split <;> exact nofun
      obtain ⟨u, us, hu⟩ := List.exists_cons_of_ne_nil hunits
      rw [utf16, utf16, List.flatMap_cons, hu] at h
      cases h
    | cons d t =>
      rw [utf16, utf16, List.flatMap_cons, List.flatMap_cons] at h
      obtain ⟨rfl, hrest⟩ := units_append h
      rw [ih hrest]

section order

variable {α : Type}

theorem keyLe_trans (e f g : Text × α) (hef : keyLe e f = true) (hfg : keyLe f g = true) : keyLe e g = true :=
  decide_eq_true (le_trans (of_decide_eq_true hef) (of_decide_eq_true hfg))

theorem keyLe_total (e f : Text × α) : (keyLe e f || keyLe f e) = true := by
  rw [Bool.or_eq_true]
  exact (le_total (utf16 e.1) (utf16 f.1)).imp decide_eq_true decide_eq_true

/-- Sorted, entries with unique keys have one order. -/
theorem mergeSort_eq_of_perm {es fs : List (Text × α)} (hnodup : (es.map Prod.fst).Nodup) (hperm : es.Perm fs) :
    es.mergeSort keyLe = fs.mergeSort keyLe := by
  apply @List.Perm.eq_of_pairwise _ fun e f => keyLe e f = true
  · intro e f he hf hef hfe
    have hmem : f ∈ es := hperm.symm.subset (List.mem_mergeSort.mp hf)
    have hkey : e.1 = f.1 :=
      utf16_injective (le_antisymm (of_decide_eq_true hef) (of_decide_eq_true hfe))
    exact List.inj_on_of_nodup_map hnodup (List.mem_mergeSort.mp he) hmem hkey
  · exact List.pairwise_mergeSort keyLe_trans keyLe_total es
  · exact List.pairwise_mergeSort keyLe_trans keyLe_total fs
  · exact (List.mergeSort_perm es keyLe).trans (hperm.trans (List.mergeSort_perm fs keyLe).symm)

/-- Only keys decide the order. -/
theorem mergeSort_values {β : Type} (f : α → β) (es : List (Text × α)) :
    (es.map fun e => (e.1, f e.2)).mergeSort keyLe = (es.mergeSort keyLe).map fun e => (e.1, f e.2) :=
  (List.map_mergeSort (f := fun e : Text × α => (e.1, f e.2)) fun _ _ _ _ => rfl).symm

end order

/-- The order keys were added in does not show. -/
theorem bencode_of_perm {es fs : List (Text × Value)} (hnodup : (es.map Prod.fst).Nodup) (hperm : es.Perm fs) :
    bencode (.dict es) = bencode (.dict fs) := by
  have hpresent : (bencodePresent es).mergeSort keyLe = (bencodePresent fs).mergeSort keyLe := by
    rw [bencodePresent_eq, bencodePresent_eq]
    apply mergeSort_eq_of_perm
    · rw [List.map_map]
      exact (List.filter_sublist.map Prod.fst).nodup hnodup
    · exact (hperm.filter _).map _
  rw [bencode, bencode, hpresent]

/-- Nor do entries that are `undefined` or `null`. -/
theorem bencode_of_filter (es : List (Text × Value)) :
    bencode (.dict (es.filter (!·.2.isNullish))) = bencode (.dict es) := by
  rw [bencode, bencode, bencodePresent_eq, bencodePresent_eq, List.filter_filter]
  simp only [Bool.and_self]

theorem same_sorted {v : Value} (hv : Encodable v) : Same (sorted v) v := by
  induction v using Value.induct with
  | leaf v hlist hdict =>
    cases hv with
    | number => rw [sorted]; exacts [.number _, nofun, nofun]
    | string => rw [sorted]; exacts [.string _, nofun, nofun]
    | list => exact absurd rfl (hlist _)
    | dict => exact absurd rfl (hdict _)
  | list vs ih =>
    cases hv with
    | list hall =>
      rw [sorted, sortedAll_eq]
      refine .list ?_
      rw [List.forall₂_map_left_iff, List.forall₂_same]
      exact fun v hv => ih v hv (hall v hv)
  | dict es ih =>
    cases hv with
    | dict hnodup hproto hall =>
      rw [sorted, sortedEntries_eq]
      refine .dict (fun key => ?_) fun key v w hv hw => ?_
      · have hperm := (List.mergeSort_perm (es.map fun e => (e.1, sorted e.2)) keyLe).map Prod.fst
        rw [hperm.mem_iff, List.map_map]
        rfl
      · obtain ⟨e, he, hpair⟩ := List.mem_map.mp (List.mem_mergeSort.mp hv)
        obtain ⟨rfl, rfl⟩ := Prod.mk.inj hpair
        have hvalue : e.2 = w := congrArg Prod.snd (List.inj_on_of_nodup_map hnodup he hw rfl)
        rw [← hvalue]
        exact ih e he (hall e he)

theorem encodable_sorted {v : Value} (hv : Encodable v) : Encodable (sorted v) := by
  induction v using Value.induct with
  | leaf v hlist hdict =>
    cases hv with
    | number hsafe => rw [sorted]; exacts [.number hsafe, nofun, nofun]
    | string s => rw [sorted]; exacts [.string s, nofun, nofun]
    | list => exact absurd rfl (hlist _)
    | dict => exact absurd rfl (hdict _)
  | list vs ih =>
    cases hv with
    | list hall =>
      rw [sorted, sortedAll_eq]
      exact .list (List.forall_mem_map.mpr fun v hv => ih v hv (hall v hv))
  | dict es ih =>
    cases hv with
    | dict hnodup hproto hall =>
      have hperm := List.mergeSort_perm es keyLe
      rw [sorted, sortedEntries_eq, mergeSort_values sorted es]
      refine .dict ?_ (List.forall_mem_map.mpr fun e he => ?_) (List.forall_mem_map.mpr fun e he => ?_)
      · rw [List.map_map]
        exact (hperm.map Prod.fst).nodup_iff.mpr hnodup
      · exact hproto e (hperm.mem_iff.mp he)
      · exact ih e (hperm.mem_iff.mp he) (hall e (hperm.mem_iff.mp he))

/-! ## Reading what was written -/

section

variable (toKey : Value → Option Text)

/-- Wherever a text's bytes stand, they read as a value, and up to their end. They
do not begin like an end. -/
def Written (t : Text) (v : Value) : Prop :=
  ∀ before after : Bytes,
    byteAt (before ++ (utf8 t ++ after)) (some (before.length : Int)) ≠ 'e'.toUInt8 ∧
      Reads toKey (before ++ (utf8 t ++ after)) before.length (some v) (before.length + (utf8 t).length)

theorem written_string (s : Text) : Written toKey (bencodeString s) (.string s) := by
  intro before after
  have hnumeral := isNumeral_toDigits (utf8 s).length
  have hascii := isAscii_of_digits hnumeral.2
  have hbytes : utf8 (bencodeString s) = utf8 (Nat.toDigits 10 (utf8 s).length) ++ ':'.toUInt8 :: utf8 s := by
    rw [bencodeString, utf8_append, utf8_cons, utf8EncodeChar_of_lt (by decide)]
    rfl
  have hcolon : ':'.toUInt8 ∉ utf8 (Nat.toDigits 10 (utf8 s).length) :=
    not_mem_utf8 hascii (by decide) (not_mem_of_digits hnumeral.2 (by decide))
  rw [hbytes, List.append_assoc, List.cons_append]
  have hvalue : Nat.ofDigitChars 10 (Nat.toDigits 10 (utf8 s).length) 0 = (utf8 s).length := Nat.ofDigitChars_ten_toDigits
  generalize Nat.toDigits 10 (utf8 s).length = digits at *
  have hfirst := byteAt_numeral hnumeral before (':'.toUInt8 :: (utf8 s ++ after))
  have hmarker : ∀ marker : UInt8, 57 < marker.toNat →
      byteAt (before ++ (utf8 digits ++ ':'.toUInt8 :: (utf8 s ++ after))) (some (before.length : Int)) ≠ marker := by
    intro marker hhigh heq
    rw [heq] at hfirst
    omega
  have hfound : colonFrom (before ++ (utf8 digits ++ ':'.toUInt8 :: (utf8 s ++ after))) before.length =
      (before.length + (utf8 digits).length : Nat) := indexOf_append before hcolon (utf8 s ++ after)
  have hlength : lengthAt (before ++ (utf8 digits ++ ':'.toUInt8 :: (utf8 s ++ after))) before.length =
      some ((utf8 s).length : Int) := by
    rw [lengthAt, hfound, subarray_append, decodeAscii_utf8 hascii, parseInt_of_isNumeral hnumeral, hvalue]
  have hend : colonFrom (before ++ (utf8 digits ++ ':'.toUInt8 :: (utf8 s ++ after))) before.length + 1 +
      ((utf8 s).length : Int) = (before.length + (utf8 digits ++ ':'.toUInt8 :: utf8 s).length : Nat) := by
    rw [hfound, List.length_append, List.length_cons]
    omega
  have hstring : stringAt (before ++ (utf8 digits ++ ':'.toUInt8 :: (utf8 s ++ after))) before.length
      (before.length + (utf8 digits ++ ':'.toUInt8 :: utf8 s).length) = .string s := by
    have hplace := subarray_append (before ++ (utf8 digits ++ [':'.toUInt8])) (utf8 s) after
    have hbuf : before ++ (utf8 digits ++ [':'.toUInt8]) ++ (utf8 s ++ after) =
        before ++ (utf8 digits ++ ':'.toUInt8 :: (utf8 s ++ after)) := by
      simp only [List.append_assoc, List.singleton_append]
    have hstart : ((before ++ (utf8 digits ++ [':'.toUInt8])).length : Int) =
        (before.length + (utf8 digits).length : Nat) + 1 := by
      simp only [List.length_append, List.length_singleton]
      omega
    have hstop : (before ++ (utf8 digits ++ [':'.toUInt8])).length + (utf8 s).length =
        before.length + (utf8 digits ++ ':'.toUInt8 :: utf8 s).length := by
      simp only [List.length_append, List.length_cons, List.length_nil]
      omega
    rw [hbuf, hstart, hstop] at hplace
    rw [stringAt, hfound, hplace, decodeUtf8_utf8]
  refine ⟨hmarker _ (by decide), hstring ▸ .string (hmarker _ (by decide)) (hmarker _ (by decide)) (hmarker _ (by decide))
    hlength hend (Nat.le_add_right ..) ?_⟩
  simp only [List.length_append, List.length_cons]
  omega

theorem intText_eq (n : Int) :
    (IsNumeral (intText n) ∧ (Nat.ofDigitChars 10 (intText n) 0 : Int) = n) ∨
      ∃ s, intText n = '-' :: s ∧ IsNumeral s ∧ -(Nat.ofDigitChars 10 s 0 : Int) = n := by
  have hnumeral := isNumeral_toDigits n.natAbs
  have hvalue : Nat.ofDigitChars 10 (Nat.toDigits 10 n.natAbs) 0 = n.natAbs := Nat.ofDigitChars_ten_toDigits
  unfold intText
  split
  · exact .inr ⟨_, rfl, hnumeral, by omega⟩
  · exact .inl ⟨hnumeral, by omega⟩

theorem parseInt_intText (n : Int) : parseInt (intText n) = some n := by
  rcases intText_eq n with ⟨hnumeral, hvalue⟩ | ⟨s, htext, hnumeral, hvalue⟩
  · rw [parseInt_of_isNumeral hnumeral, hvalue]
  · rw [htext, parseInt_negative hnumeral, hvalue]

theorem isAscii_intText (n : Int) : IsAscii (intText n) := by
  rcases intText_eq n with ⟨hnumeral, -⟩ | ⟨s, htext, hnumeral, -⟩
  · exact isAscii_of_digits hnumeral.2
  · rw [htext]
    exact List.forall_mem_cons.mpr ⟨by decide, isAscii_of_digits hnumeral.2⟩

theorem not_mem_intText (n : Int) : 'e' ∉ intText n := by
  rcases intText_eq n with ⟨hnumeral, -⟩ | ⟨s, htext, hnumeral, -⟩
  · exact not_mem_of_digits hnumeral.2 (by decide)
  · rw [htext]
    intro hmem
    rcases List.mem_cons.mp hmem with hsign | hmem
    · exact absurd hsign (by decide)
    · exact not_mem_of_digits hnumeral.2 (by decide) hmem

theorem written_number (n : Int) : Written toKey ('i' :: intText n ++ ['e']) (.number n) := by
  intro before after
  have hascii := isAscii_intText n
  have hbytes : utf8 ('i' :: intText n ++ ['e']) = 'i'.toUInt8 :: (utf8 (intText n) ++ ['e'.toUInt8]) := by
    rw [List.cons_append, utf8_cons, utf8_append, utf8EncodeChar_of_lt (by decide), List.singleton_append]
    rfl
  have hend : 'e'.toUInt8 ∉ utf8 (intText n) := not_mem_utf8 hascii (by decide) (not_mem_intText n)
  have hbuf : before ++ (utf8 ('i' :: intText n ++ ['e']) ++ after) =
      before ++ ['i'.toUInt8] ++ (utf8 (intText n) ++ 'e'.toUInt8 :: after) := by
    rw [hbytes]
    simp only [List.append_assoc, List.cons_append, List.nil_append]
  have hmarker : byteAt (before ++ (utf8 ('i' :: intText n ++ ['e']) ++ after)) (some (before.length : Int)) =
      'i'.toUInt8 := by
    rw [hbytes, List.cons_append, byteAt_append]
  have hstart : (before ++ ['i'.toUInt8]).length = before.length + 1 := List.length_append
  have hindex : indexOf (before ++ (utf8 ('i' :: intText n ++ ['e']) ++ after)) 'e'.toUInt8
      (some ((before.length + 1 : Nat) : Int)) = (before.length + 1 + (utf8 (intText n)).length : Nat) := by
    rw [hbuf, ← hstart, indexOf_append _ hend]
  have hnumber : numberAt (before ++ (utf8 ('i' :: intText n ++ ['e']) ++ after)) before.length
      (before.length + 1 + (utf8 (intText n)).length : Nat) = .number n := by
    rw [numberAt, hbuf, ← hstart, subarray_append, decodeAscii_utf8 hascii, parseInt_intText]
  have hstop : before.length + (utf8 ('i' :: intText n ++ ['e'])).length =
      before.length + 1 + (utf8 (intText n)).length + 1 := by
    rw [hbytes, List.length_cons, List.length_append, List.length_singleton]
    omega
  constructor
  · rw [hmarker]
    decide
  · rw [hstop, ← hnumber]
    exact .number hmarker hindex

/-- The text of a value that is written. -/
def textOf (v : Value) : Text := (bencode v).toOption.getD []

theorem joined_of_ok {α : Type} {text : α → Except String Text} {written : α → Text} {as : List α}
    (h : ∀ a ∈ as, text a = .ok (written a)) : joined (as.map text) = .ok (as.flatMap written) := by
  induction as with
  | nil => rfl
  | cons a as ih =>
    obtain ⟨ha, has⟩ := List.forall_mem_cons.mp h
    rw [List.map_cons, joined, ha, ih has, List.flatMap_cons]
    rfl

/-- Items behind one another, and the end of their list. -/
theorem items_of_written {vs : List Value} (h : ∀ v ∈ vs, Written toKey (textOf v) (sorted v)) (items : List Value)
    (before after : Bytes) : Items toKey (before ++ (utf8 (vs.flatMap textOf) ++ 'e'.toUInt8 :: after)) before.length items
      (some (.list (items ++ vs.map sorted))) (before.length + (utf8 (vs.flatMap textOf)).length + 1) := by
  induction vs generalizing items before with
  | nil =>
    rw [List.map_nil, List.append_nil]
    exact .done (byteAt_append before _ _)
  | cons v vs ih =>
    obtain ⟨hv, hvs⟩ := List.forall_mem_cons.mp h
    obtain ⟨hfirst, hread⟩ := hv before (utf8 (vs.flatMap textOf) ++ 'e'.toUInt8 :: after)
    have hrest := ih hvs (items ++ [sorted v]) (before ++ utf8 (textOf v))
    rw [List.length_append, List.append_assoc, List.append_assoc, List.singleton_append] at hrest
    rw [List.flatMap_cons, utf8_append, List.append_assoc, List.length_append, List.map_cons, ← Nat.add_assoc]
    exact .more hfirst hread hrest

theorem assign_of_new {entries : List (Text × Value)} {key : Text} (v : Value) (hproto : key ≠ "__proto__".toList)
    (hnew : key ∉ entries.map Prod.fst) : assign entries key v = entries ++ [(key, v)] := by
  rw [assign, if_neg hproto, if_neg hnew]

/-- Keys and values behind one another, and the end of their dictionary. -/
theorem entries_of_written {es : List (Text × Value)} (h : ∀ e ∈ es, Written toKey (textOf e.2) (sorted e.2))
    (hproto : ∀ e ∈ es, e.1 ≠ "__proto__".toList) (entries : List (Text × Value))
    (hnodup : (entries.map Prod.fst ++ es.map Prod.fst).Nodup) (before after : Bytes) :
    Entries toKey (before ++ (utf8 (es.flatMap fun e => bencodeString e.1 ++ textOf e.2) ++ 'e'.toUInt8 :: after))
      before.length entries (some (.dict (entries ++ es.map fun e => (e.1, sorted e.2))))
      (before.length + (utf8 (es.flatMap fun e => bencodeString e.1 ++ textOf e.2)).length + 1) := by
  induction es generalizing entries before with
  | nil =>
    rw [List.map_nil, List.append_nil]
    exact .done (byteAt_append before _ _)
  | cons e es ih =>
    obtain ⟨he, hes⟩ := List.forall_mem_cons.mp h
    obtain ⟨heproto, hesproto⟩ := List.forall_mem_cons.mp hproto
    have hnew : e.1 ∉ entries.map Prod.fst := by
      intro hmem
      exact List.disjoint_of_nodup_append hnodup hmem (List.mem_cons_self ..)
    have hassign := assign_of_new (sorted e.2) heproto hnew
    obtain ⟨hfirst, hkey⟩ := written_string toKey e.1 before
      (utf8 (textOf e.2) ++ (utf8 (es.flatMap fun e => bencodeString e.1 ++ textOf e.2) ++ 'e'.toUInt8 :: after))
    have hvalue := (he (before ++ utf8 (bencodeString e.1))
      (utf8 (es.flatMap fun e => bencodeString e.1 ++ textOf e.2) ++ 'e'.toUInt8 :: after)).2
    have hrest := ih hes hesproto (entries ++ [(e.1, sorted e.2)])
      (by simpa only [List.map_append, List.map_cons, List.map_nil, List.append_assoc, List.singleton_append] using hnodup)
      (before ++ utf8 (bencodeString e.1) ++ utf8 (textOf e.2))
    have hdone : entries ++ (e :: es).map (fun e => (e.1, sorted e.2)) =
        entries ++ [(e.1, sorted e.2)] ++ es.map fun e => (e.1, sorted e.2) := by
      rw [List.map_cons, List.append_assoc, List.singleton_append]
    simp only [List.length_append, List.append_assoc, ← Nat.add_assoc] at hvalue hrest
    simp only [hdone, List.flatMap_cons, utf8_append, List.append_assoc, List.length_append, ← Nat.add_assoc]
    refine .more hfirst hkey hvalue rfl ?_
    rw [hassign]
    exact hrest

/-- Items and entries stand between their marker and an end. -/
theorem utf8_between (marker : Char) (hmarker : marker.toNat < 128) (t : Text) :
    utf8 (marker :: t ++ ['e']) = marker.toUInt8 :: (utf8 t ++ ['e'.toUInt8]) := by
  rw [List.cons_append, utf8_cons, utf8_append, utf8EncodeChar_of_lt hmarker, List.singleton_append]
  rfl

theorem written_list {vs : List Value} (h : ∀ v ∈ vs, Written toKey (textOf v) (sorted v)) :
    Written toKey ('l' :: vs.flatMap textOf ++ ['e']) (.list (vs.map sorted)) := by
  intro before after
  have hitems := items_of_written toKey h [] (before ++ ['l'.toUInt8]) after
  rw [utf8_between 'l' (by decide), List.cons_append, List.append_assoc, List.singleton_append]
  rw [List.length_append, List.append_assoc, List.singleton_append, List.nil_append] at hitems
  have hmarker := byteAt_append before (utf8 (vs.flatMap textOf) ++ 'e'.toUInt8 :: after) 'l'.toUInt8
  have hstop : before.length + ('l'.toUInt8 :: (utf8 (vs.flatMap textOf) ++ ['e'.toUInt8])).length =
      before.length + ['l'.toUInt8].length + (utf8 (vs.flatMap textOf)).length + 1 := by
    simp only [List.length_append, List.length_cons, List.length_nil]
    omega
  constructor
  · rw [hmarker]
    decide
  · rw [hstop]
    exact .list hmarker hitems

theorem written_dict {es : List (Text × Value)} (h : ∀ e ∈ es, Written toKey (textOf e.2) (sorted e.2))
    (hproto : ∀ e ∈ es, e.1 ≠ "__proto__".toList) (hnodup : (es.map Prod.fst).Nodup) :
    Written toKey ('d' :: (es.flatMap fun e => bencodeString e.1 ++ textOf e.2) ++ ['e'])
      (.dict (es.map fun e => (e.1, sorted e.2))) := by
  intro before after
  have hentries := entries_of_written toKey h hproto [] hnodup (before ++ ['d'.toUInt8]) after
  rw [utf8_between 'd' (by decide), List.cons_append, List.append_assoc, List.singleton_append]
  rw [List.length_append, List.append_assoc, List.singleton_append, List.nil_append] at hentries
  generalize utf8 (es.flatMap fun e => bencodeString e.1 ++ textOf e.2) = inner at *
  have hmarker := byteAt_append before (inner ++ 'e'.toUInt8 :: after) 'd'.toUInt8
  have hstop : before.length + ('d'.toUInt8 :: (inner ++ ['e'.toUInt8])).length =
      before.length + ['d'.toUInt8].length + inner.length + 1 := by
    simp only [List.length_append, List.length_cons, List.length_nil]
    omega
  constructor
  · rw [hmarker]
    decide
  · rw [hstop]
    exact .dict hmarker hentries

theorem not_nullish_of_encodable {v : Value} (hv : Encodable v) : v.isNullish = false := by
  cases hv <;> rfl

theorem bencode_eq {v : Value} {t : Text} (h : bencode v = .ok t) : textOf v = t := by
  rw [textOf, h]
  rfl

/-- What `bencode` makes of a value reads as the value sorted. -/
theorem written_bencode {v : Value} (hv : Encodable v) :
    bencode v = .ok (textOf v) ∧ Written toKey (textOf v) (sorted v) := by
  have hmain : ∃ t, bencode v = .ok t ∧ Written toKey t (sorted v) := by
    induction v using Value.induct with
    | leaf v hlist hdict =>
      cases hv with
      | number =>
        rw [bencode, sorted]
        exacts [⟨_, rfl, written_number toKey _⟩, nofun, nofun]
      | string =>
        rw [bencode, sorted]
        exacts [⟨_, rfl, written_string toKey _⟩, nofun, nofun]
      | list => exact absurd rfl (hlist _)
      | dict => exact absurd rfl (hdict _)
    | list vs ih =>
      cases hv with
      | list hall =>
        have hvalues : ∀ v ∈ vs, bencode v = .ok (textOf v) ∧ Written toKey (textOf v) (sorted v) := by
          intro v hv
          obtain ⟨t, ht, hwritten⟩ := ih v hv (hall v hv)
          rw [bencode_eq ht]
          exact ⟨ht, hwritten⟩
        rw [bencode, bencodeAll_eq, joined_of_ok fun v hv => (hvalues v hv).1, sorted, sortedAll_eq]
        exact ⟨_, rfl, written_list toKey fun v hv => (hvalues v hv).2⟩
    | dict es ih =>
      cases hv with
      | dict hnodup hproto hall =>
        have hpresent : es.filter (!·.2.isNullish) = es := by
          apply List.filter_eq_self.mpr
          intro e he
          rw [not_nullish_of_encodable (hall e he)]
          rfl
        have hperm := List.mergeSort_perm es keyLe
        have hvalues : ∀ e ∈ es.mergeSort keyLe,
            bencode e.2 = .ok (textOf e.2) ∧ Written toKey (textOf e.2) (sorted e.2) := by
          intro e he
          obtain ⟨t, ht, hwritten⟩ := ih e (hperm.mem_iff.mp he) (hall e (hperm.mem_iff.mp he))
          rw [bencode_eq ht]
          exact ⟨ht, hwritten⟩
        have htexts : (bencodePresent es).mergeSort keyLe = (es.mergeSort keyLe).map fun e => (e.1, bencode e.2) := by
          rw [bencodePresent_eq, hpresent]
          exact mergeSort_values bencode es
        have hjoined : joined ((es.mergeSort keyLe).map fun e => (bencode e.2).map (bencodeString e.1 ++ ·)) =
            .ok ((es.mergeSort keyLe).flatMap fun e => bencodeString e.1 ++ textOf e.2) := by
          apply joined_of_ok
          intro e he
          rw [(hvalues e he).1]
          rfl
        have hwritten := written_dict toKey (fun e he => (hvalues e he).2)
          (fun e he => hproto e (hperm.mem_iff.mp he)) ((hperm.map Prod.fst).nodup_iff.mpr hnodup)
        rw [sorted, sortedEntries_eq, mergeSort_values sorted es]
        refine ⟨_, ?_, hwritten⟩
        rw [bencode, htexts, List.map_map]
        exact congrArg (fun t : Except String Text => t.bind fun t => .ok ('d' :: t ++ ['e'])) hjoined
  obtain ⟨t, ht, hwritten⟩ := hmain
  rw [bencode_eq ht]
  exact ⟨ht, hwritten⟩

/-- What is encoded, between any bytes, is decoded to an equal value, up to where
the bytes behind it begin. Entries without a value and the order of keys do not
show in the text. -/
theorem codecRoundTrips :
    (∀ v, Encodable v → ∃ t w, bencode v = .ok t ∧ Encodable w ∧ Same w v ∧
      ∀ before after : Bytes, ∃ enough, ∀ steps ≥ enough, ∃ pos,
        bdecode toKey (before ++ utf8 t ++ after) steps ⟨some before.length, []⟩ = some (some w, pos) ∧
        pos.cursor = some ((before ++ utf8 t).length : Int)) ∧
    (∀ es, bencode (.dict (es.filter (!·.2.isNullish))) = bencode (.dict es)) ∧
    (∀ es fs : List (Text × Value), (es.map Prod.fst).Nodup → es.Perm fs → bencode (.dict es) = bencode (.dict fs)) := by
  refine ⟨fun v hv => ?_, bencode_of_filter, fun es fs hnodup hperm => bencode_of_perm hnodup hperm⟩
  obtain ⟨htext, hwritten⟩ := written_bencode toKey hv
  refine ⟨textOf v, sorted v, htext, encodable_sorted hv, same_sorted hv, fun before after => ?_⟩
  obtain ⟨-, hread⟩ := hwritten before after
  obtain ⟨enough, hrun⟩ := runs_of_reads hread
  have hstart : Forward (before ++ (utf8 (textOf v) ++ after)).length [some (before.length : Int)] :=
    ⟨[before.length], rfl, List.pairwise_singleton _ _, fun p hp => List.mem_singleton.mp hp ▸ lt_of_reads hread⟩
  refine ⟨enough, fun steps hsteps => ?_⟩
  obtain ⟨pos, hpos, hcursor, -⟩ := hrun steps hsteps [] hstart
  rw [List.append_assoc, List.length_append]
  exact ⟨pos, hpos, hcursor⟩

/-- A list in a dictionary, between other bytes. -/
theorem codecRoundTrips_nested :
    ∃ t w, bencode (.dict [("é".toList, .list [.number (-7), .string "€".toList])]) = .ok t ∧ Encodable w ∧
      Same w (.dict [("é".toList, .list [.number (-7), .string "€".toList])]) ∧
      ∀ before after : Bytes, ∃ enough, ∀ steps ≥ enough, ∃ pos,
        bdecode (fun _ => none) (before ++ utf8 t ++ after) steps ⟨some before.length, []⟩ = some (some w, pos) ∧
        pos.cursor = some ((before ++ utf8 t).length : Int) := by
  have hlist : Encodable (.list [.number (-7), .string "€".toList]) := by
    refine .list (List.forall_mem_cons.mpr ⟨.number (by decide), List.forall_mem_singleton.mpr (.string _)⟩)
  have hdict : Encodable (.dict [("é".toList, .list [.number (-7), .string "€".toList])]) :=
    .dict (List.nodup_singleton _) (List.forall_mem_singleton.mpr (by decide)) (List.forall_mem_singleton.mpr hlist)
  exact (codecRoundTrips fun _ => none).1 _ hdict

end

end Callio.RtpEngine
