import Callio.Media.RtpEngineCodec

/-! What a malformed reply makes of the decoder. It ends, and only moves forward
within the reply, on those bytes that read as an item; on others it loops, goes
back or runs past the end. -/

namespace Callio.RtpEngine

open Js Decode

/-! ## Forward -/

/-- Where the decoder has been, last first. -/
def Position.trail (pos : Position) : List Cursor := pos.cursor :: pos.past

/-- Within the buffer, never going back. -/
def Forward (length : Nat) (trail : List Cursor) : Prop :=
  ∃ ps : List Nat, trail = ps.map (fun p : Nat => some (p : Int)) ∧ ps.Pairwise (· ≥ ·) ∧ ∀ p ∈ ps, p ≤ length

section

variable (toKey : Value → Option Text) (buf : Bytes)

/-- From `start`, decoding comes to an end in some number of steps, with a value
or an error, and forward. -/
def Behaves (start : Nat) : Prop :=
  ∃ steps out pos, bdecode toKey buf steps ⟨some start, []⟩ = some (out, pos) ∧ Forward buf.length pos.trail

/-! ## Items -/

/-- The number between its marker and its end. -/
def numberAt (p : Nat) (stop : Int) : Value :=
  match parseInt (decodeAscii (subarray buf (some (p + 1 : Nat)) (some stop))) with
  | some n => .number n
  | none => .nan

def colonFrom (p : Nat) : Int := indexOf buf ':'.toUInt8 (some p)

/-- The length before the colon. -/
def lengthAt (p : Nat) : Cursor := parseInt (decodeAscii (subarray buf (some p) (some (colonFrom buf p))))

def stringAt (p q : Nat) : Value := .string (decodeUtf8 (subarray buf (some (colonFrom buf p + 1)) (some q)))

mutual

/-- The bytes from `p` to `q` read as an item: its value, or no value where a
property key fails. -/
inductive Reads : Nat → Option Value → Nat → Prop
  | number {p stop : Nat} : byteAt buf (some p) = 'i'.toUInt8 →
      indexOf buf 'e'.toUInt8 (some (p + 1 : Nat)) = stop → Reads p (some (numberAt buf p stop)) (stop + 1)
  | string {p q : Nat} {length : Int} : byteAt buf (some p) ≠ 'i'.toUInt8 → byteAt buf (some p) ≠ 'l'.toUInt8 →
      byteAt buf (some p) ≠ 'd'.toUInt8 → lengthAt buf p = some length → colonFrom buf p + 1 + length = q →
      p ≤ q → q ≤ buf.length → Reads p (some (stringAt buf p q)) q
  | list {p q : Nat} {out : Option Value} : byteAt buf (some p) = 'l'.toUInt8 → Items (p + 1) [] out q → Reads p out q
  | dict {p q : Nat} {out : Option Value} : byteAt buf (some p) = 'd'.toUInt8 → Entries (p + 1) [] out q → Reads p out q

/-- Items up to the end of their list, behind those read. -/
inductive Items : Nat → List Value → Option Value → Nat → Prop
  | done {p : Nat} {items : List Value} : byteAt buf (some p) = 'e'.toUInt8 → Items p items (some (.list items)) (p + 1)
  | more {p q r : Nat} {items : List Value} {v : Value} {out : Option Value} : byteAt buf (some p) ≠ 'e'.toUInt8 →
      Reads p (some v) q → Items q (items ++ [v]) out r → Items p items out r
  | fails {p q : Nat} {items : List Value} : byteAt buf (some p) ≠ 'e'.toUInt8 → Reads p none q → Items p items none q

inductive Entries : Nat → List (Text × Value) → Option Value → Nat → Prop
  | done {p : Nat} {entries : List (Text × Value)} : byteAt buf (some p) = 'e'.toUInt8 →
      Entries p entries (some (.dict entries)) (p + 1)
  | more {p q r t : Nat} {entries : List (Text × Value)} {key v : Value} {name : Text} {out : Option Value} :
      byteAt buf (some p) ≠ 'e'.toUInt8 → Reads p (some key) q → Reads q (some v) r →
      keyText toKey key = some name → Entries r (assign entries name v) out t →
      Entries p entries out t
  | keyFails {p q : Nat} {entries : List (Text × Value)} : byteAt buf (some p) ≠ 'e'.toUInt8 → Reads p none q →
      Entries p entries none q
  | valueFails {p q r : Nat} {entries : List (Text × Value)} {key : Value} : byteAt buf (some p) ≠ 'e'.toUInt8 →
      Reads p (some key) q → Reads q none r → Entries p entries none r
  | noKey {p q r : Nat} {entries : List (Text × Value)} {key v : Value} : byteAt buf (some p) ≠ 'e'.toUInt8 →
      Reads p (some key) q → Reads q (some v) r → keyText toKey key = none →
      Entries p entries none r

end

end

/-! ## Trails -/

theorem Forward.suffix {length : Nat} {before after : List Cursor} (h : Forward length (before ++ after)) :
    Forward length after := by
  obtain ⟨ps, hps, hsorted, hle⟩ := h
  obtain ⟨qs, rs, rfl, -, hafter⟩ := List.map_eq_append_iff.mp hps.symm
  exact ⟨rs, hafter.symm, (List.pairwise_append.mp hsorted).2.1, fun p hp => hle p (List.mem_append_right _ hp)⟩

theorem Forward.cons {length p q : Nat} {past : List Cursor} (h : Forward length (some (p : Int) :: past)) (hle : p ≤ q)
    (hlength : q ≤ length) : Forward length (some (q : Int) :: some (p : Int) :: past) := by
  obtain ⟨ps, hps, hsorted, hall⟩ := h
  cases ps with
  | nil => cases hps
  | cons p' ps =>
    obtain ⟨hp, hpast⟩ := List.cons.inj hps
    obtain rfl : p = p' := by
      have hcast := Option.some.inj hp
      omega
    refine ⟨q :: p :: ps, by rw [hpast]; rfl, List.pairwise_cons.mpr ⟨fun r hr => ?_, hsorted⟩, fun r hr => ?_⟩
    · rcases List.mem_cons.mp hr with rfl | hr
      · exact hle
      · have hrp : p ≥ r := (List.pairwise_cons.mp hsorted).1 r hr
        omega
    · rcases List.mem_cons.mp hr with rfl | hr
      · exact hlength
      · exact hall r hr

/-- Where a step forward leads. -/
theorem Forward.step {length p : Nat} {i : Cursor} {past : List Cursor}
    (h : Forward length (i :: some (p : Int) :: past)) : ∃ q : Nat, i = some (q : Int) ∧ p ≤ q ∧ q ≤ length := by
  obtain ⟨ps, hps, hsorted, hall⟩ := h
  cases ps with
  | nil => cases hps
  | cons q ps =>
    obtain ⟨hq, hrest⟩ := List.cons.inj hps
    cases ps with
    | nil => cases hrest
    | cons p' ps =>
      have hp : p = p' := by
        have hcast := Option.some.inj (List.cons.inj hrest).1
        omega
      refine ⟨q, hq, ?_, hall q (List.mem_cons_self ..)⟩
      rw [hp]
      exact (List.pairwise_cons.mp hsorted).1 p' (List.mem_cons_self ..)

namespace Decode

variable {α β : Type}

@[simp] theorem pure_apply (a : α) (pos : Position) : (Pure.pure a : Decode α) pos = some (some a, pos) := rfl

theorem bind_apply (x : Decode α) (f : α → Decode β) (pos : Position) :
    (x >>= f) pos = match x pos with
      | none => none
      | some (none, pos) => some (none, pos)
      | some (some a, pos) => f a pos := rfl

/-- What a composed decoder ends with comes from its parts. -/
theorem bind_eq_some {x : Decode α} {f : α → Decode β} {pos pos' : Position} {out : Option β}
    (h : (x >>= f) pos = some (out, pos')) :
    (x pos = some (none, pos') ∧ out = none) ∨ ∃ a mid, x pos = some (some a, mid) ∧ f a mid = some (out, pos') := by
  rw [bind_apply] at h
  split at h
  · cases h
  · rename_i mid hx
    cases h
    exact .inl ⟨hx, rfl⟩
  · rename_i a mid hx
    exact .inr ⟨a, mid, hx, h⟩

/-- A decoder that forgets nowhere it has been. -/
def Extends (x : Decode α) : Prop := ∀ pos out pos', x pos = some (out, pos') → pos.trail <:+ pos'.trail

theorem extends_pure (a : α) : Extends (Pure.pure a : Decode α) := by
  intro pos out pos' h
  cases h
  exact List.suffix_refl _

theorem extends_here : Extends here := by
  intro pos out pos' h
  cases h
  exact List.suffix_refl _

theorem extends_moveTo (i : Cursor) : Extends (moveTo i) := by
  intro pos out pos' h
  cases h
  exact List.suffix_cons _ _

theorem extends_skip : Extends skip := fun pos out pos' h => extends_moveTo _ pos out pos' h

theorem extends_typeError : Extends (typeError : Decode α) := by
  intro pos out pos' h
  cases h
  exact List.suffix_refl _

theorem extends_outOfSteps : Extends (outOfSteps : Decode α) := fun _ _ _ h => nomatch h

theorem Extends.bind {x : Decode α} {f : α → Decode β} (hx : Extends x) (hf : ∀ a, Extends (f a)) :
    Extends (x >>= f) := by
  intro pos out pos' h
  rcases bind_eq_some h with ⟨h, -⟩ | ⟨a, mid, hmid, h⟩
  · exact hx pos none pos' h
  · exact (hx pos (some a) mid hmid).trans (hf a mid out pos' h)

end Decode

section

variable {toKey : Value → Option Text} {buf : Bytes}

theorem extends_readNumber : Extends (readNumber buf) := by
  refine extends_skip.bind fun _ => extends_here.bind fun start => (extends_moveTo _).bind fun _ => ?_
  split <;> exact extends_pure _

theorem extends_readString : Extends (readString buf) :=
  extends_here.bind fun _ => (extends_moveTo _).bind fun _ => extends_pure _

theorem extends_propertyKey (key : Value) : Extends (propertyKey toKey key) := by
  unfold propertyKey
  split
  · exact extends_pure _
  · exact extends_typeError

theorem extends_bdecode (steps : Nat) :
    Extends (bdecode toKey buf steps) ∧ (∀ items, Extends (readItems toKey buf steps items)) ∧
      ∀ entries, Extends (readEntries toKey buf steps entries) := by
  induction steps with
  | zero =>
    rw [bdecode]
    refine ⟨extends_outOfSteps, fun items => ?_, fun entries => ?_⟩
    · rw [readItems]
      exact extends_outOfSteps
    · rw [readEntries]
      exact extends_outOfSteps
  | succ steps ih =>
    obtain ⟨hdecode, hitems, hentries⟩ := ih
    refine ⟨?_, fun items => ?_, fun entries => ?_⟩
    · rw [bdecode]
      refine extends_here.bind fun i => ?_
      dsimp only
      split
      · exact extends_readNumber
      · split
        · exact extends_skip.bind fun _ => hitems []
        · split
          · exact extends_skip.bind fun _ => hentries []
          · exact extends_readString
    · rw [readItems]
      refine extends_here.bind fun i => ?_
      split
      · exact extends_skip.bind fun _ => extends_pure _
      · exact hdecode.bind fun v => hitems _
    · rw [readEntries]
      refine extends_here.bind fun i => ?_
      split
      · exact extends_skip.bind fun _ => extends_pure _
      · exact hdecode.bind fun key => hdecode.bind fun v => (extends_propertyKey key).bind fun name => hentries _

/-! ## Leaves -/

theorem readNumber_apply (p : Nat) (past : List Cursor) :
    readNumber buf ⟨some p, past⟩ =
      some (some (numberAt buf p (indexOf buf 'e'.toUInt8 (some (p + 1 : Nat)))),
        ⟨some (indexOf buf 'e'.toUInt8 (some (p + 1 : Nat)) + 1), some (p + 1 : Nat) :: some p :: past⟩) := by
  have hskip : (some (p : Int)).map (· + 1) = some ((p + 1 : Nat) : Int) := rfl
  unfold readNumber numberAt
  simp only [bind_apply, skip, moveTo, here, hskip]
  cases parseInt (decodeAscii (subarray buf (some (p + 1 : Nat)) (some (indexOf buf 'e'.toUInt8 (some (p + 1 : Nat))))))
  · rfl
  · rfl

theorem readString_apply (p : Nat) (past : List Cursor) :
    readString buf ⟨some p, past⟩ =
      some (some (.string (decodeUtf8 (subarray buf (some (colonFrom buf p + 1))
          ((lengthAt buf p).map (colonFrom buf p + 1 + ·))))),
        ⟨(lengthAt buf p).map (colonFrom buf p + 1 + ·), some p :: past⟩) := rfl

theorem propertyKey_apply (key : Value) (pos : Position) :
    propertyKey toKey key pos = some (keyText toKey key, pos) := by
  unfold propertyKey
  cases keyText toKey key
  · rfl
  · rfl

/-- The next place after one. -/
def skipped (p : Nat) (past : List Cursor) : Position := ⟨some (p + 1 : Nat), some p :: past⟩

/-! ## One step -/

section step

variable (toKey) (steps : Nat) {p : Nat} (past : List Cursor)

theorem bdecode_of_number (h : byteAt buf (some p) = 'i'.toUInt8) :
    bdecode toKey buf (steps + 1) ⟨some p, past⟩ = readNumber buf ⟨some p, past⟩ := by
  rw [bdecode, bind_apply]
  simp only [here, h, if_true]

theorem bdecode_of_list (h : byteAt buf (some p) = 'l'.toUInt8) :
    bdecode toKey buf (steps + 1) ⟨some p, past⟩ = readItems toKey buf steps [] (skipped p past) := by
  have hnumber : ¬ 'l'.toUInt8 = 'i'.toUInt8 := by decide
  rw [bdecode, bind_apply]
  simp only [here, h, hnumber, if_true, if_false]
  rfl

theorem bdecode_of_dict (h : byteAt buf (some p) = 'd'.toUInt8) :
    bdecode toKey buf (steps + 1) ⟨some p, past⟩ = readEntries toKey buf steps [] (skipped p past) := by
  have hnumber : ¬ 'd'.toUInt8 = 'i'.toUInt8 := by decide
  have hlist : ¬ 'd'.toUInt8 = 'l'.toUInt8 := by decide
  rw [bdecode, bind_apply]
  simp only [here, h, hnumber, hlist, if_true, if_false]
  rfl

theorem bdecode_of_string (hnumber : byteAt buf (some p) ≠ 'i'.toUInt8) (hlist : byteAt buf (some p) ≠ 'l'.toUInt8)
    (hdict : byteAt buf (some p) ≠ 'd'.toUInt8) :
    bdecode toKey buf (steps + 1) ⟨some p, past⟩ = readString buf ⟨some p, past⟩ := by
  rw [bdecode, bind_apply]
  simp only [here, hnumber, hlist, hdict, if_false]

theorem readItems_of_end (items : List Value) (h : byteAt buf (some p) = 'e'.toUInt8) :
    readItems toKey buf (steps + 1) items ⟨some p, past⟩ = some (some (.list items), skipped p past) := by
  rw [readItems, bind_apply]
  simp only [here, h, if_true]
  rfl

theorem readItems_of_item (items : List Value) (h : byteAt buf (some p) ≠ 'e'.toUInt8) :
    readItems toKey buf (steps + 1) items ⟨some p, past⟩ =
      (bdecode toKey buf steps >>= fun v => readItems toKey buf steps (items ++ [v])) ⟨some p, past⟩ := by
  rw [readItems, bind_apply]
  simp only [here, h, if_false]

theorem readEntries_of_end (entries : List (Text × Value)) (h : byteAt buf (some p) = 'e'.toUInt8) :
    readEntries toKey buf (steps + 1) entries ⟨some p, past⟩ = some (some (.dict entries), skipped p past) := by
  rw [readEntries, bind_apply]
  simp only [here, h, if_true]
  rfl

theorem readEntries_of_entry (entries : List (Text × Value)) (h : byteAt buf (some p) ≠ 'e'.toUInt8) :
    readEntries toKey buf (steps + 1) entries ⟨some p, past⟩ =
      (bdecode toKey buf steps >>= fun key => bdecode toKey buf steps >>= fun v =>
        propertyKey toKey key >>= fun name => readEntries toKey buf steps (assign entries name v)) ⟨some p, past⟩ := by
  rw [readEntries, bind_apply]
  simp only [here, h, if_false]

end step

/-! ## From runs to items -/

theorem reads_of_bdecode (steps : Nat) :
    (∀ (p : Nat) past out pos, bdecode toKey buf steps ⟨some p, past⟩ = some (out, pos) → Forward buf.length pos.trail →
      ∃ q : Nat, pos.cursor = some (q : Int) ∧ Reads toKey buf p out q) ∧
    (∀ (p : Nat) past items out pos, readItems toKey buf steps items ⟨some p, past⟩ = some (out, pos) →
      Forward buf.length pos.trail → ∃ q : Nat, pos.cursor = some (q : Int) ∧ Items toKey buf p items out q) ∧
    (∀ (p : Nat) past entries out pos, readEntries toKey buf steps entries ⟨some p, past⟩ = some (out, pos) →
      Forward buf.length pos.trail → ∃ q : Nat, pos.cursor = some (q : Int) ∧ Entries toKey buf p entries out q) := by
  induction steps with
  | zero =>
    refine ⟨fun p past out pos h => ?_, fun p past items out pos h => ?_, fun p past entries out pos h => ?_⟩
    · rw [bdecode] at h
      cases h
    · rw [readItems] at h
      cases h
    · rw [readEntries] at h
      cases h
  | succ steps ih =>
    obtain ⟨hdecode, hitems, hentries⟩ := ih
    obtain ⟨edecode, eitems, eentries⟩ := @extends_bdecode toKey buf steps
    refine ⟨fun p past out pos h hforward => ?_, fun p past items out pos h hforward => ?_,
      fun p past entries out pos h hforward => ?_⟩
    · by_cases hnumber : byteAt buf (some p) = 'i'.toUInt8
      · rw [bdecode_of_number toKey steps past hnumber, readNumber_apply] at h
        cases h
        obtain ⟨q, hq, hle, -⟩ := hforward.step
        have hstop := Option.some.inj hq
        obtain ⟨stop, rfl⟩ : ∃ stop, q = stop + 1 := ⟨q - 1, by omega⟩
        have hindex : indexOf buf 'e'.toUInt8 (some (p + 1 : Nat)) = stop := by omega
        rw [hindex]
        exact ⟨stop + 1, rfl, .number hnumber hindex⟩
      by_cases hlist : byteAt buf (some p) = 'l'.toUInt8
      · rw [bdecode_of_list toKey steps past hlist] at h
        obtain ⟨q, hq, hread⟩ := hitems (p + 1) (some p :: past) [] out pos h hforward
        exact ⟨q, hq, .list hlist hread⟩
      by_cases hdict : byteAt buf (some p) = 'd'.toUInt8
      · rw [bdecode_of_dict toKey steps past hdict] at h
        obtain ⟨q, hq, hread⟩ := hentries (p + 1) (some p :: past) [] out pos h hforward
        exact ⟨q, hq, .dict hdict hread⟩
      · rw [bdecode_of_string toKey steps past hnumber hlist hdict, readString_apply] at h
        cases h
        obtain ⟨q, hq, hle, hlength⟩ := hforward.step
        obtain ⟨length, hparse, hstop⟩ := Option.map_eq_some_iff.mp hq
        have hcursor : (lengthAt buf p).map (colonFrom buf p + 1 + ·) = some (q : Int) := hq
        rw [hcursor]
        exact ⟨q, rfl, .string hnumber hlist hdict hparse hstop hle hlength⟩
    · by_cases hend : byteAt buf (some p) = 'e'.toUInt8
      · rw [readItems_of_end toKey steps past items hend] at h
        cases h
        exact ⟨p + 1, rfl, .done hend⟩
      · rw [readItems_of_item toKey steps past items hend] at h
        rcases bind_eq_some h with ⟨hfails, rfl⟩ | ⟨v, mid, hmid, h⟩
        · obtain ⟨q, hq, hread⟩ := hdecode p past none pos hfails hforward
          exact ⟨q, hq, .fails hend hread⟩
        · obtain ⟨moves, hmoves⟩ := eitems _ mid out pos h
          obtain ⟨q, hq, hread⟩ := hdecode p past (some v) mid hmid (hmoves ▸ hforward).suffix
          obtain ⟨midCursor, midPast⟩ := mid
          obtain rfl : midCursor = some (q : Int) := hq
          obtain ⟨r, hr, hrest⟩ := hitems q midPast _ out pos h hforward
          exact ⟨r, hr, .more hend hread hrest⟩
    · by_cases hend : byteAt buf (some p) = 'e'.toUInt8
      · rw [readEntries_of_end toKey steps past entries hend] at h
        cases h
        exact ⟨p + 1, rfl, .done hend⟩
      · rw [readEntries_of_entry toKey steps past entries hend] at h
        rcases bind_eq_some h with ⟨hfails, rfl⟩ | ⟨key, keyPos, hkey, h⟩
        · obtain ⟨q, hq, hread⟩ := hdecode p past none pos hfails hforward
          exact ⟨q, hq, .keyFails hend hread⟩
        · have hafterKey := (edecode.bind fun v => (extends_propertyKey key).bind fun name => eentries _) _ out pos h
          obtain ⟨moves, hmoves⟩ := hafterKey
          obtain ⟨q, hq, hreadKey⟩ := hdecode p past (some key) keyPos hkey (hmoves ▸ hforward).suffix
          obtain ⟨keyCursor, keyPast⟩ := keyPos
          obtain rfl : keyCursor = some (q : Int) := hq
          rcases bind_eq_some h with ⟨hfails, rfl⟩ | ⟨v, valuePos, hvalue, h⟩
          · obtain ⟨r, hr, hread⟩ := hdecode q keyPast none pos hfails hforward
            exact ⟨r, hr, .valueFails hend hreadKey hread⟩
          · rw [bind_apply, propertyKey_apply] at h
            cases hname : keyText toKey key with
            | none =>
              rw [hname] at h
              cases h
              obtain ⟨r, hr, hread⟩ := hdecode q keyPast (some v) _ hvalue hforward
              exact ⟨r, hr, .noKey hend hreadKey hread hname⟩
            | some name =>
              rw [hname] at h
              obtain ⟨moves', hmoves'⟩ := eentries _ valuePos out pos h
              obtain ⟨r, hr, hread⟩ := hdecode q keyPast (some v) valuePos hvalue (hmoves' ▸ hforward).suffix
              obtain ⟨valueCursor, valuePast⟩ := valuePos
              obtain rfl : valueCursor = some (r : Int) := hr
              obtain ⟨t, ht, hrest⟩ := hentries r valuePast _ out pos h hforward
              exact ⟨t, ht, .more hend hreadKey hread hname hrest⟩

/-! ## From items to runs -/

theorem lt_of_byteAt {p : Nat} (h : byteAt buf (some p) ≠ 0) : p < buf.length := by
  by_contra hge
  apply h
  have hnone : buf[p]? = none := List.getElem?_eq_none (by omega)
  have hnonneg : ¬(p : Int) < 0 := by omega
  simp only [byteAt, hnonneg, if_false, Int.toNat_natCast, List.getD_eq_getElem?_getD, hnone]
  rfl

/-- Where a byte is found. -/
theorem indexOf_spec {byte : UInt8} {n m : Nat} (h : indexOf buf byte (some n) = m) : n ≤ m ∧ m < buf.length := by
  unfold indexOf at h
  split at h
  · omega
  · rename_i k hsearch
    have hk : k = n ∧ n < buf.length := by
      unfold searchFrom at hsearch
      simp only [show ¬(n : Int) < 0 by omega, if_false] at hsearch
      split at hsearch
      · have hkn := Option.some.inj hsearch
        omega
      · cases hsearch
    split at h
    · rename_i i hidx
      have hi : i < (buf.drop k).length := (List.findIdx?_eq_some_iff_getElem.mp hidx).1
      rw [List.length_drop] at hi
      omega
    · omega

/-- Enough steps take the decoder over an item, forward. -/
def Runs (length : Nat) (x : Nat → Decode Value) (p : Nat) (out : Option Value) (q : Nat) : Prop :=
  ∃ enough, ∀ steps ≥ enough, ∀ past, Forward length (some (p : Int) :: past) →
    ∃ pos, x steps ⟨some p, past⟩ = some (out, pos) ∧ pos.cursor = some (q : Int) ∧ Forward length pos.trail

/-- A marker is skipped. -/
theorem forward_skipped {p : Nat} {past : List Cursor} (hmarker : byteAt buf (some p) ≠ 0)
    (h : Forward buf.length (some (p : Int) :: past)) : Forward buf.length (skipped p past).trail :=
  h.cons (Nat.le_succ p) (lt_of_byteAt hmarker)

mutual

theorem runs_of_reads {p q : Nat} {out : Option Value} (h : Reads toKey buf p out q) :
    Runs buf.length (bdecode toKey buf) p out q :=
  match h with
  | @Reads.number _ _ _ stop hmarker hindex => by
    refine ⟨1, fun steps hsteps past hforward => ?_⟩
    obtain ⟨steps, rfl⟩ : ∃ n, steps = n + 1 := ⟨steps - 1, by omega⟩
    obtain ⟨hle, hlt⟩ := indexOf_spec hindex
    have hskipped := forward_skipped (by rw [hmarker]; decide) hforward
    have hstop : Forward buf.length (some ((stop + 1 : Nat) : Int) :: (skipped p past).trail) :=
      hskipped.cons (by omega) (by omega)
    rw [bdecode_of_number toKey steps past hmarker, readNumber_apply, hindex]
    exact ⟨_, rfl, rfl, hstop⟩
  | .string hnumber hlist hdict hlength hstop hle hend => by
    refine ⟨1, fun steps hsteps past hforward => ?_⟩
    obtain ⟨steps, rfl⟩ : ∃ n, steps = n + 1 := ⟨steps - 1, by omega⟩
    rw [bdecode_of_string toKey steps past hnumber hlist hdict, readString_apply, hlength, Option.map_some, hstop]
    exact ⟨_, rfl, rfl, hforward.cons hle hend⟩
  | .list hmarker hitems => by
    obtain ⟨enough, hrun⟩ := runs_of_items hitems
    refine ⟨enough + 1, fun steps hsteps past hforward => ?_⟩
    obtain ⟨steps, rfl⟩ : ∃ n, steps = n + 1 := ⟨steps - 1, by omega⟩
    have hskipped := forward_skipped (by rw [hmarker]; decide) hforward
    rw [bdecode_of_list toKey steps past hmarker]
    exact hrun steps (by omega) _ hskipped
  | .dict hmarker hentries => by
    obtain ⟨enough, hrun⟩ := runs_of_entries hentries
    refine ⟨enough + 1, fun steps hsteps past hforward => ?_⟩
    obtain ⟨steps, rfl⟩ : ∃ n, steps = n + 1 := ⟨steps - 1, by omega⟩
    have hskipped := forward_skipped (by rw [hmarker]; decide) hforward
    rw [bdecode_of_dict toKey steps past hmarker]
    exact hrun steps (by omega) _ hskipped

theorem runs_of_items {p q : Nat} {items : List Value} {out : Option Value} (h : Items toKey buf p items out q) :
    Runs buf.length (readItems toKey buf · items) p out q :=
  match h with
  | .done hend => by
    refine ⟨1, fun steps hsteps past hforward => ?_⟩
    obtain ⟨steps, rfl⟩ : ∃ n, steps = n + 1 := ⟨steps - 1, by omega⟩
    have hskipped := forward_skipped (by rw [hend]; decide) hforward
    exact ⟨_, readItems_of_end toKey steps past _ hend, rfl, hskipped⟩
  | .more hend hread hitems => by
    obtain ⟨enough, hrun⟩ := runs_of_reads hread
    obtain ⟨enough', hrest⟩ := runs_of_items hitems
    refine ⟨max enough enough' + 1, fun steps hsteps past hforward => ?_⟩
    obtain ⟨steps, rfl⟩ : ∃ n, steps = n + 1 := ⟨steps - 1, by omega⟩
    obtain ⟨⟨_, midPast⟩, hmid, rfl, hmidForward⟩ := hrun steps (by omega) past hforward
    simp only [readItems_of_item toKey steps past _ hend, bind_apply, hmid]
    exact hrest steps (by omega) midPast hmidForward
  | .fails hend hread => by
    obtain ⟨enough, hrun⟩ := runs_of_reads hread
    refine ⟨enough + 1, fun steps hsteps past hforward => ?_⟩
    obtain ⟨steps, rfl⟩ : ∃ n, steps = n + 1 := ⟨steps - 1, by omega⟩
    obtain ⟨mid, hmid, hcursor, hmidForward⟩ := hrun steps (by omega) past hforward
    simp only [readItems_of_item toKey steps past _ hend, bind_apply, hmid]
    exact ⟨mid, rfl, hcursor, hmidForward⟩

theorem runs_of_entries {p q : Nat} {entries : List (Text × Value)} {out : Option Value}
    (h : Entries toKey buf p entries out q) : Runs buf.length (readEntries toKey buf · entries) p out q :=
  match h with
  | .done hend => by
    refine ⟨1, fun steps hsteps past hforward => ?_⟩
    obtain ⟨steps, rfl⟩ : ∃ n, steps = n + 1 := ⟨steps - 1, by omega⟩
    have hskipped := forward_skipped (by rw [hend]; decide) hforward
    exact ⟨_, readEntries_of_end toKey steps past _ hend, rfl, hskipped⟩
  | .more hend hkey hvalue hname hentries => by
    obtain ⟨enough, hrunKey⟩ := runs_of_reads hkey
    obtain ⟨enough', hrunValue⟩ := runs_of_reads hvalue
    obtain ⟨enough'', hrest⟩ := runs_of_entries hentries
    refine ⟨max enough (max enough' enough'') + 1, fun steps hsteps past hforward => ?_⟩
    obtain ⟨steps, rfl⟩ : ∃ n, steps = n + 1 := ⟨steps - 1, by omega⟩
    obtain ⟨⟨_, keyPast⟩, hkeyRun, rfl, hkeyForward⟩ := hrunKey steps (by omega) past hforward
    obtain ⟨⟨_, valuePast⟩, hvalueRun, rfl, hvalueForward⟩ := hrunValue steps (by omega) keyPast hkeyForward
    simp only [readEntries_of_entry toKey steps past _ hend, bind_apply, hkeyRun, hvalueRun, propertyKey_apply, hname]
    exact hrest steps (by omega) valuePast hvalueForward
  | .keyFails hend hkey => by
    obtain ⟨enough, hrun⟩ := runs_of_reads hkey
    refine ⟨enough + 1, fun steps hsteps past hforward => ?_⟩
    obtain ⟨steps, rfl⟩ : ∃ n, steps = n + 1 := ⟨steps - 1, by omega⟩
    obtain ⟨mid, hmid, hcursor, hmidForward⟩ := hrun steps (by omega) past hforward
    simp only [readEntries_of_entry toKey steps past _ hend, bind_apply, hmid]
    exact ⟨mid, rfl, hcursor, hmidForward⟩
  | .valueFails hend hkey hvalue => by
    obtain ⟨enough, hrunKey⟩ := runs_of_reads hkey
    obtain ⟨enough', hrunValue⟩ := runs_of_reads hvalue
    refine ⟨max enough enough' + 1, fun steps hsteps past hforward => ?_⟩
    obtain ⟨steps, rfl⟩ : ∃ n, steps = n + 1 := ⟨steps - 1, by omega⟩
    obtain ⟨⟨_, keyPast⟩, hkeyRun, rfl, hkeyForward⟩ := hrunKey steps (by omega) past hforward
    obtain ⟨mid, hmid, hcursor, hmidForward⟩ := hrunValue steps (by omega) keyPast hkeyForward
    simp only [readEntries_of_entry toKey steps past _ hend, bind_apply, hkeyRun, hmid]
    exact ⟨mid, rfl, hcursor, hmidForward⟩
  | .noKey hend hkey hvalue hname => by
    obtain ⟨enough, hrunKey⟩ := runs_of_reads hkey
    obtain ⟨enough', hrunValue⟩ := runs_of_reads hvalue
    refine ⟨max enough enough' + 1, fun steps hsteps past hforward => ?_⟩
    obtain ⟨steps, rfl⟩ : ∃ n, steps = n + 1 := ⟨steps - 1, by omega⟩
    obtain ⟨⟨_, keyPast⟩, hkeyRun, rfl, hkeyForward⟩ := hrunKey steps (by omega) past hforward
    obtain ⟨mid, hmid, hcursor, hmidForward⟩ := hrunValue steps (by omega) keyPast hkeyForward
    simp only [readEntries_of_entry toKey steps past _ hend, bind_apply, hkeyRun, hmid, propertyKey_apply, hname]
    exact ⟨mid, rfl, hcursor, hmidForward⟩

end

theorem lt_of_reads {p q : Nat} {out : Option Value} (h : Reads toKey buf p out q) : p ≤ buf.length := by
  cases h with
  | number hmarker => exact Nat.le_of_lt (lt_of_byteAt (by rw [hmarker]; decide))
  | string _ _ _ _ _ hle hend => exact Nat.le_trans hle hend
  | list hmarker => exact Nat.le_of_lt (lt_of_byteAt (by rw [hmarker]; decide))
  | dict hmarker => exact Nat.le_of_lt (lt_of_byteAt (by rw [hmarker]; decide))

end

/-- The decoder ends and moves forward if and only if the bytes from its start read
as an item. -/
theorem malformedReply (toKey : Value → Option Text) (buf : Bytes) (start : Nat) :
    Behaves toKey buf start ↔ ∃ out q, Reads toKey buf start out q := by
  constructor
  · rintro ⟨steps, out, pos, hrun, hforward⟩
    obtain ⟨q, -, hread⟩ := (reads_of_bdecode steps).1 start [] out pos hrun hforward
    exact ⟨out, q, hread⟩
  · rintro ⟨out, q, hread⟩
    obtain ⟨enough, hrun⟩ := runs_of_reads hread
    have hstart : Forward buf.length [some (start : Int)] :=
      ⟨[start], rfl, List.pairwise_singleton _ _, fun p hp => List.mem_singleton.mp hp ▸ lt_of_reads hread⟩
    obtain ⟨pos, hpos, -, hforward⟩ := hrun enough (Nat.le_refl _) [] hstart
    exact ⟨enough, out, pos, hpos, hforward⟩

/-- Past the end of a list that is never closed, and from nowhere at all, every
item is an empty string and leads nowhere. -/
theorem readItems_open (toKey : Value → Option Text) (steps : Nat) (items : List Value) (pos : Position)
    (hpos : pos.cursor = some 1 ∨ pos.cursor = none) : readItems toKey ['l'.toUInt8] steps items pos = none := by
  induction steps generalizing items pos with
  | zero => rw [readItems]; rfl
  | succ steps ih =>
    have hbyte : byteAt ['l'.toUInt8] pos.cursor = 0 := by
      rcases hpos with hpos | hpos <;> rw [hpos] <;> decide
    have hend : ¬(0 : UInt8) = 'e'.toUInt8 := by decide
    rw [readItems, bind_apply]
    simp only [here, hbyte, hend, if_false]
    rw [bind_apply]
    cases steps with
    | zero => rw [bdecode]; rfl
    | succ steps =>
      have hread : ∃ v past, bdecode toKey ['l'.toUInt8] (steps + 1) pos = some (some v, ⟨none, past⟩) := by
        have hnumber : ¬(0 : UInt8) = 'i'.toUInt8 := by decide
        have hlist : ¬(0 : UInt8) = 'l'.toUInt8 := by decide
        have hdict : ¬(0 : UInt8) = 'd'.toUInt8 := by decide
        rw [bdecode, bind_apply]
        simp only [here, hbyte, hnumber, hlist, hdict, if_false]
        have hlength : parseInt (decodeAscii (subarray ['l'.toUInt8] pos.cursor
            (some (indexOf ['l'.toUInt8] ':'.toUInt8 pos.cursor)))) = none := by
          rcases hpos with hpos | hpos <;> rw [hpos] <;> decide
        have hstring : readString ['l'.toUInt8] pos = some (some (.string (decodeUtf8 (subarray ['l'.toUInt8]
            (some (indexOf ['l'.toUInt8] ':'.toUInt8 pos.cursor + 1)) none))), ⟨none, pos.cursor :: pos.past⟩) := by
          unfold readString
          simp only [bind_apply, here, moveTo, hlength]
          rfl
        exact ⟨_, _, hstring⟩
      obtain ⟨v, past, hread⟩ := hread
      rw [hread]
      exact ih (items ++ [v]) ⟨none, past⟩ (.inr rfl)

/-- A reply cut off behind the opening of a list: the decoder never ends. -/
theorem not_behaves_openList : ¬Behaves (fun _ => none) ['l'.toUInt8] 0 := by
  rintro ⟨steps, out, pos, hrun, -⟩
  cases steps with
  | zero => cases hrun
  | succ steps =>
    have hlist : bdecode (fun _ => none) ['l'.toUInt8] (steps + 1) ⟨some (0 : Nat), []⟩ =
        readItems (fun _ => none) ['l'.toUInt8] steps [] (skipped 0 []) := bdecode_of_list _ steps [] (by decide)
    have hnone := readItems_open (fun _ => none) steps [] (skipped 0 []) (.inl rfl)
    rw [← hlist] at hnone
    cases hrun.symm.trans hnone

end Callio.RtpEngine
