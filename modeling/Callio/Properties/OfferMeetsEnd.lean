import Callio.Conduct.Arrival
import Callio.Core.Handlers
import Callio.Persistence.Effects
import Mathlib.Data.Fintype.Basic

/-! An inbound offer and the provider's end of the same call. The offer creates
its row and then looks for a tombstone; an end looks for a row and then leaves
a tombstone. They meet unless the tombstone is left after the offer's look. -/

namespace Callio

open Concurrency Code

/-- If the provider's call has a row, its status is TERMINATED or FAILED. -/
def World.Over (w : World) (x : ProviderCall) : Prop :=
  ∀ c row, w.call c = some row → row.channel = x.line.type → row.providerCallId = some x.id →
    row.status = .terminated ∨ row.status = .failed

theorem CallRow.ended_iff (row : CallRow) :
    row.ended = true ↔ row.status = .terminated ∨ row.status = .failed := by
  unfold CallRow.ended
  cases row.status <;> simp [CallStatus.active]

namespace OfferMeetsEnd

open Arrival

/-- Handlers of one provider call, and time passing. -/
def Concerns (x : ProviderCall) : Handler → Prop
  | .inboundCall line offer _ => line = x.line ∧ offer.providerCallId = x.id
  | .callEnded line e => line = x.line ∧ e.providerCallId = x.id
  | .clock _ => True
  | _ => False

def start (x : ProviderCall) : Handler → Phase
  | .inboundCall _ _ _ => .offering x
  | .callEnded _ _ => .looking x
  | _ => .idle

theorem follows {x : ProviderCall} {h : Handler} (hx : Concerns x h) :
    h.code.Follows protocol (start x h) fun _ => Phase.Done := by
  cases h with
  | inboundCall line offer outcome =>
    obtain ⟨rfl, hid⟩ := hx
    exact inboundCall_follows offer hid outcome
  | callEnded line e =>
    obtain ⟨rfl, hid⟩ := hx
    exact callEnded_follows e hid
  | clock ms => exact ⟨.inr trivial, fun _ => trivial⟩
  | _ => cases hx

/-! ## What holds of the call throughout -/

/-- The provider call a handler is about. -/
def call? : Phase → Option ProviderCall
  | .idle | .astray => none
  | .offering x | .duplicate x | .made x _ _ | .recording x _ | .cancelled x _ => some x
  | .looking x | .marked x | .owing x _ | .past x _ => some x

/-- The handler made call `c`, and is to look after it. -/
def Keeps (c : Nat) : Phase → Prop
  | .made _ d _ | .recording _ d => d = c
  | _ => False

/-- The row has the provider's id of the call. -/
def HasKey (x : ProviderCall) (row : CallRow) : Prop :=
  row.channel = x.line.type ∧ row.providerCallId = some x.id

/-- What a phase says of the call. -/
def Bears (x : ProviderCall) (w : World) : Phase → Prop
  | .made _ c _ | .recording _ c | .owing _ c => ∃ row, w.call c = some row ∧ HasKey x row
  | .past _ c | .cancelled _ c => ∃ row, w.call c = some row ∧ HasKey x row ∧ row.ended = true
  | .astray => False
  | _ => True

/-- The provider's end is on record: as a tombstone, or as the call's end. -/
def OnRecord (x : ProviderCall) (w : World) : Prop :=
  (w.tombstones x.key).isSome = true ∨
    ∃ c row, w.call c = some row ∧ HasKey x row ∧ row.ended = true

structure Invariant {ι : Type} (x : ProviderCall) (w : World) (ph : ι → Phase) : Prop where
  same : ∀ i y, call? (ph i) = some y → y = x
  bears : ∀ i, Bears x w (ph i)
  one : ∀ c d row row', w.call c = some row → w.call d = some row' → HasKey x row → HasKey x row' →
    c = d
  line : ∀ c row, w.call c = some row → HasKey x row → row.channelId = x.line.id
  sound : ∀ c row, w.call c = some row → HasKey x row → row.ended = true → row.state ≠ some .ivr
  kept : ∀ c row, w.call c = some row → HasKey x row → row.ended = true ∨ ∃ i, Keeps c (ph i)
  told : ∀ i, ph i = .marked x → OnRecord x w
  /-- An offer that looked in vain has no end that left its tombstone. -/
  met : ∀ i j c, ph i = .marked x → ph j = .made x c true →
    ∀ row, w.call c = some row → row.ended = true

/-- An offer, whose call is live, has looked for a tombstone and found none. -/
def LookedInVain (w : World) : Phase → Bool
  | .made _ c true => (w.call c).any fun row => !row.ended
  | _ => false

/-! ## One move -/

variable {x : ProviderCall} {q q' : Phase} {s : Stmt} {r : s.Res} {w : World} {c : Nat}

theorem call_turn {q' : Phase} {y : ProviderCall} (h : Turn s r q q') (hy : call? q' = some y) :
    call? q = some y := by
  cases h with
  | past x c _ hq u hs hu => rcases hq with rfl | ⟨_, rfl⟩ <;> exact hy
  | strange | missing => cases hy
  | _ => exact hy

theorem HasKey.of_grows {row row' : CallRow} (hg : Grows c s row row') :
    HasKey x row' ↔ HasKey x row := by
  rw [HasKey, HasKey, hg.channel, hg.providerCallId]

theorem hasKey_of_records {row : CallRow} (h : row.Records x) : HasKey x row := ⟨h.1, h.2.1⟩

/-- A tombstone stays unless it is taken away. -/
theorem tombstone_exec (s : Stmt) (w : World) (k : ProviderKey) :
    (s.exec w).1.tombstones k = w.tombstones k ∨ s = .record (.deleteTombstone k) ∨
      ((s.exec w).1.tombstones k).isSome = true := by
  cases s with
  | record op =>
    cases op with
    | setTombstone k' t =>
      by_cases hk : k = k'
      · subst hk
        refine .inr (.inr ?_)
        cases h : w.tombstones k <;> simp [Stmt.exec, RecordOp.run, h]
      · exact .inl (by simp [Stmt.exec, RecordOp.run, hk])
    | deleteTombstone k' =>
      by_cases hk : k = k'
      · subst hk
        exact .inr (.inl rfl)
      · exact .inl (by simp [Stmt.exec, RecordOp.run, hk])
    | _ => exact .inl rfl
  | createCall row =>
    refine .inl ?_
    cases ht : w.taken row with
    | true => rw [Stmt.exec_createCall_of_taken ht]
    | false => rw [Stmt.exec_createCall_of_free ht]
  | claimAgentAndAssignCall a c anyShift =>
    refine .inl ?_
    simp only [Stmt.exec, World.claimAgentAndAssignCall]
    repeat' split
    all_goals rfl
  | _ => exact .inl rfl

namespace Invariant

variable {ι : Type} {ph : ι → Phase} {i : ι}

/-- The call's row stays, and stays over. -/
theorem row_kept (h : Invariant x w ph) (hal : Lawful q s) {row : CallRow}
    (hrow : w.call c = some row) (hk : HasKey x row) :
    ∃ row', (s.exec w).1.call c = some row' ∧ HasKey x row' ∧
      (row.ended = true → row'.ended = true) := by
  cases onRow hal w c with
  | same heq => exact ⟨row, heq.trans hrow, hk, id⟩
  | grown row₀ row' hrow₀ hrow' hg =>
    obtain rfl : row₀ = row := Option.some.inj (hrow₀.symm.trans hrow)
    refine ⟨row', hrow', (HasKey.of_grows hg).mpr hk, fun hended => ?_⟩
    by_contra hlive
    exact h.sound c _ hrow hk hended (hg.revived hended (by simpa using hlive)).2
  | created row₀ hs => exact absurd ((exec_create hs).2.2.1.symm.trans hrow) nofun

theorem row_back (hal : Lawful q s) {row' : CallRow} (hrow' : (s.exec w).1.call c = some row') :
    (∃ row, w.call c = some row ∧ (HasKey x row' → HasKey x row) ∧ row'.channelId = row.channelId ∧
      (row'.ended = true → row'.state = some .ivr → row.ended = true ∧ row.state = some .ivr)) ∨
    ∃ row, Answered s (s.exec w).2 = ⟨.createCall row, some c⟩ ∧
      row' = row.inserted w.now := by
  cases onRow hal w c with
  | same heq => exact .inl ⟨row', heq.symm.trans hrow', id, rfl, fun h h' => ⟨h, h'⟩⟩
  | grown row row₀ hrow hrow₀ hg =>
    obtain rfl : row₀ = row' := Option.some.inj (hrow₀.symm.trans hrow')
    exact .inl ⟨row, hrow, (HasKey.of_grows hg).mp, hg.channelId, hg.state⟩
  | created row hs =>
    obtain ⟨-, -, -, h⟩ := exec_create hs
    exact .inr ⟨row, hs, (Option.some.inj (h.symm.trans hrow')).symm⟩

/-- A new row of the call finds none before it. -/
theorem none_of_created {row : CallRow} (hs : Answered s (s.exec w).2 = ⟨.createCall row, some c⟩)
    (hk : HasKey x row) (d : Nat) (row' : CallRow) (hrow' : w.call d = some row') :
    ¬ HasKey x row' := by
  intro hk'
  obtain ⟨-, ht, -, -⟩ := exec_create hs
  simp only [World.taken, Bool.and_eq_false_iff, Store.Table.any_eq_false] at ht
  rcases ht with ht | ht
  · rw [hk.2] at ht
    cases ht
  · have hne := ht d row' hrow'
    simp [hk.1, hk.2, hk'.1, hk'.2] at hne

theorem records_of_created (h : Invariant x w ph) (hal : Lawful (ph i) s) {row : CallRow}
    (hs : Answered s (s.exec w).2 = ⟨.createCall row, some c⟩) :
    row.Records x ∧ row.status = .ringing := by
  obtain ⟨rfl, -, -, -⟩ := exec_create hs
  obtain ⟨hst, -, y, hy, hq⟩ := hal
  have hyx : y = x := h.same i y (by rcases hq with hq | ⟨hq, -⟩ <;> rw [hq] <;> rfl)
  exact ⟨hyx ▸ hy, hst⟩

/-- What a phase that does not turn says still holds. -/
theorem bears_kept (h : Invariant x w ph) (hal : Lawful q s) {p : Phase} (hb : Bears x w p) :
    Bears x (s.exec w).1 p := by
  cases p with
  | made y c looked | recording y c | owing y c =>
    obtain ⟨row, hrow, hk⟩ := hb
    obtain ⟨row', hrow', hk', -⟩ := h.row_kept hal hrow hk
    exact ⟨row', hrow', hk'⟩
  | past y c | cancelled y c =>
    obtain ⟨row, hrow, hk, hended⟩ := hb
    obtain ⟨row', hrow', hk', hended'⟩ := h.row_kept hal hrow hk
    exact ⟨row', hrow', hk', hended' hended⟩
  | astray => exact hb
  | _ => trivial

/-- A turn says what is so: a row it made, found or ended. -/
theorem bears_turn (h : Invariant x w ph) (hal : Lawful (ph i) s)
    (ht : Turn s (s.exec w).2 (ph i) q') : Bears x (s.exec w).1 q' := by
  have hb := h.bears i
  generalize hq : ph i = q at ht hb
  cases ht with
  | stays => exact h.bears_kept hal hb
  | found | marked => trivial
  | made y row c hs | recording y row c hs =>
    have hk := hasKey_of_records (h.records_of_created hal hs).1
    exact ⟨_, (exec_create hs).2.2.2, hk⟩
  | looked y c => exact h.bears_kept hal hb
  | past y c _ hown u hs hu =>
    subst hs
    have hrow : ∃ row, w.call c = some row ∧ HasKey x row := by
      rcases hown with rfl | ⟨_, rfl⟩ <;> exact hb
    obtain ⟨row, hrow, hk⟩ := hrow
    obtain ⟨row', hrow', hk', -⟩ := h.row_kept hal hrow hk
    obtain ⟨row₁, hrow₁, hended⟩ := exec_ends hu hrow
    exact ⟨row', hrow', hk', by rwa [Option.some.inj (hrow'.symm.trans hrow₁)]⟩
  | cancelled y c u hs hu =>
    subst hs
    obtain ⟨row, hrow, hk⟩ := hb
    obtain ⟨row', hrow', hk', -⟩ := h.row_kept hal hrow hk
    obtain ⟨row₁, hrow₁, hended⟩ := exec_ends hu hrow
    exact ⟨row', hrow', hk', by rwa [Option.some.inj (hrow'.symm.trans hrow₁)]⟩
  | owing y call hread ho =>
    obtain ⟨rfl, hanswer⟩ := Stmt.answer_of_read hread
    obtain rfl : y = x := h.same i y (by rw [hq]; rfl)
    obtain ⟨hrow, hk⟩ := World.findByProviderCallId_eq_some hanswer.symm
    exact ⟨_, hrow, hk⟩
  | strange y call hread ho =>
    obtain ⟨rfl, hanswer⟩ := Stmt.answer_of_read hread
    obtain rfl : y = x := h.same i y (by rw [hq]; rfl)
    obtain ⟨hrow, hk⟩ := World.findByProviderCallId_eq_some hanswer.symm
    have hline := h.line _ _ hrow hk
    simp [Line.owns, hline] at ho
  | missing y c looked call hread hnone =>
    obtain ⟨rfl, hanswer⟩ := Stmt.answer_of_read hread
    obtain ⟨row, hrow, hk⟩ := hb
    obtain rfl : call = some { row with id := c } :=
      hanswer.trans (World.findCall_eq_some.mpr ⟨hrow, rfl⟩)
    simp at hnone

theorem keeps_turn {c : Nat} (h : Invariant x w ph) (hal : Lawful (ph i) s)
    (ht : Turn s (s.exec w).2 (ph i) q') (hk : Keeps c (ph i)) :
    Keeps c q' ∨ ∃ row, (s.exec w).1.call c = some row ∧ row.ended = true := by
  have hb := h.bears_turn hal ht
  generalize hq : ph i = q at ht hk
  cases ht with
  | past y d _ hown u hs hu =>
    have hd : d = c := by
      rcases hown with rfl | ⟨_, rfl⟩
      · cases hk
      · exact hk
    subst hd
    obtain ⟨row, hrow, -, hended⟩ := hb
    exact .inr ⟨row, hrow, hended⟩
  | cancelled y d u hs hu =>
    obtain rfl : d = c := hk
    obtain ⟨row, hrow, -, hended⟩ := hb
    exact .inr ⟨row, hrow, hended⟩
  | strange | missing => exact hb.elim
  | stays | looked => exact .inl hk
  | _ => cases hk

/-- An end on record stays so: a tombstone goes only once the call is over. -/
theorem onRecord_kept (h : Invariant x w ph) (hal : Lawful (ph i) s) (ho : OnRecord x w) :
    OnRecord x (s.exec w).1 := by
  have hended : (∃ c row, w.call c = some row ∧ HasKey x row ∧ row.ended = true) →
      OnRecord x (s.exec w).1 := by
    rintro ⟨c, row, hrow, hk, hended⟩
    obtain ⟨row', hrow', hk', hended'⟩ := h.row_kept hal hrow hk
    exact .inr ⟨c, row', hrow', hk', hended' hended⟩
  rcases ho with ho | ho
  · rcases tombstone_exec s w x.key with heq | rfl | hsome
    · exact .inl (heq ▸ ho)
    · obtain ⟨y, c, hq, -⟩ := hal
      have hb := h.bears i
      rw [hq] at hb
      exact hended ⟨c, hb⟩
    · exact .inl hsome
  · exact hended ho

theorem one_kept (h : Invariant x w ph) (hal : Lawful (ph i) s) (c d : Nat) (row row' : CallRow)
    (hc : (s.exec w).1.call c = some row) (hd : (s.exec w).1.call d = some row')
    (hkc : HasKey x row) (hkd : HasKey x row') : c = d := by
  rcases row_back (x := x) hal hc with ⟨row₁, hrow₁, hk₁, -⟩ | ⟨row₁, hs₁, rfl⟩ <;>
    rcases row_back (x := x) hal hd with ⟨row₂, hrow₂, hk₂, -⟩ | ⟨row₂, hs₂, rfl⟩
  · exact h.one c d row₁ row₂ hrow₁ hrow₂ (hk₁ hkc) (hk₂ hkd)
  · exact absurd (hk₁ hkc) (none_of_created hs₂ hkd c row₁ hrow₁)
  · exact absurd (hk₂ hkd) (none_of_created hs₁ hkc d row₂ hrow₂)
  · have hanswer := hs₁.symm.trans hs₂
    injection hanswer with hs hr
    cases hs
    exact Option.some.inj hr

theorem keeps_of_created (hal : Lawful q s) {row : CallRow}
    (hs : Answered s r = ⟨.createCall row, some c⟩) : Keeps c (next q s r) := by
  cases hs
  obtain ⟨-, -, y, -, rfl | ⟨rfl, -⟩⟩ := hal <;> rfl

variable [DecidableEq ι]

theorem turned {p : Phase} {j : ι} (h : Function.update ph i (next (ph i) s r) j = p) :
    ph j = p ∨ j = i ∧ Turn s r (ph i) p := by
  by_cases hji : j = i
  · subst hji
    rw [Function.update_self] at h
    exact .inr ⟨rfl, h ▸ turn (ph j) s r⟩
  · rw [Function.update_of_ne hji] at h
    exact .inl h

theorem marked_back {j : ι} (h : Function.update ph i (next (ph i) s r) j = .marked x) :
    ph j = .marked x ∨ ∃ t, s = .record (.setTombstone x.key t) := by
  rcases turned h with h | ⟨rfl, ht⟩
  · exact .inl h
  · generalize hq : ph j = q at ht
    cases ht with
    | stays => exact .inl rfl
    | marked y t hs => exact .inr ⟨t, hs⟩

theorem made_back {j : ι} (h : Function.update ph i (next (ph i) s r) j = .made x c true) :
    ph j = .made x c true ∨ ph j = .made x c false ∧
      Answered s r = ⟨.query (.tombstone x.key), none⟩ := by
  rcases turned h with h | ⟨rfl, ht⟩
  · exact .inl h
  · generalize hq : ph j = q at ht
    cases ht with
    | stays => exact .inl rfl
    | looked y d hs => exact .inr ⟨rfl, hs⟩

theorem met_kept (h : Invariant x w ph) (hal : Lawful (ph i) s)
    (hlate : ∀ t, s = .record (.setTombstone x.key t) → ∀ j, LookedInVain w (ph j) = false)
    (j k : ι) (c : Nat)
    (hj : Function.update ph i (next (ph i) s (s.exec w).2) j = .marked x)
    (hk : Function.update ph i (next (ph i) s (s.exec w).2) k = .made x c true)
    (row' : CallRow) (hrow' : (s.exec w).1.call c = some row') : row'.ended = true := by
  have hb : ∃ row, w.call c = some row ∧ HasKey x row := by
    have hbears := h.bears k
    rcases made_back hk with hk | ⟨hk, -⟩ <;> rwa [hk] at hbears
  obtain ⟨row, hrow, hkey⟩ := hb
  have hended : row.ended = true := by
    rcases made_back hk with hk | ⟨hk, hread⟩
    · rcases marked_back hj with hj | ⟨t, hs⟩
      · exact h.met j k c hj hk row hrow
      · have hvain := hlate t hs k
        simpa [hk, LookedInVain, hrow] using hvain
    · obtain ⟨rfl, hnone⟩ := Stmt.answer_of_read hread
      have hmarked : ph j = .marked x := (marked_back hj).resolve_right (by rintro ⟨t, ht⟩; cases ht)
      rcases h.told j hmarked with hsome | ⟨d, row₁, hrow₁, hkey₁, hended₁⟩
      · rw [← show none = w.tombstones x.key from hnone] at hsome
        cases hsome
      · obtain rfl : c = d := h.one c d row row₁ hrow hrow₁ hkey hkey₁
        obtain rfl : row = row₁ := Option.some.inj (hrow.symm.trans hrow₁)
        exact hended₁
  obtain ⟨row₂, hrow₂, -, hkept⟩ := h.row_kept hal hrow hkey
  obtain rfl : row₂ = row' := Option.some.inj (hrow₂.symm.trans hrow')
  exact hkept hended

theorem step (h : Invariant x w ph) (hal : Lawful (ph i) s)
    (hlate : ∀ t, s = .record (.setTombstone x.key t) → ∀ j, LookedInVain w (ph j) = false) :
    Invariant x (s.exec w).1 (Function.update ph i (next (ph i) s (s.exec w).2)) where
  same j y hy := by
    by_cases hji : j = i
    · subst hji
      rw [Function.update_self] at hy
      exact h.same j y (call_turn (turn _ _ _) hy)
    · rw [Function.update_of_ne hji] at hy
      exact h.same j y hy
  bears j := by
    by_cases hji : j = i
    · subst hji
      rw [Function.update_self]
      exact h.bears_turn hal (turn _ _ _)
    · rw [Function.update_of_ne hji]
      exact h.bears_kept hal (h.bears j)
  one := h.one_kept hal
  line c row' hrow' hk := by
    rcases row_back (x := x) hal hrow' with ⟨row, hrow, hback, hline, -⟩ | ⟨row, hs, rfl⟩
    · rw [hline]
      exact h.line c row hrow (hback hk)
    · exact (h.records_of_created hal hs).1.2.2
  sound c row' hrow' hk hended hivr := by
    rcases row_back (x := x) hal hrow' with ⟨row, hrow, hback, -, hstate⟩ | ⟨row, hs, rfl⟩
    · obtain ⟨hended, hivr⟩ := hstate hended hivr
      exact h.sound c row hrow (hback hk) hended hivr
    · have hst := (h.records_of_created hal hs).2
      rw [CallRow.inserted_ended, CallRow.ended, show row.status = .ringing from hst] at hended
      cases hended
  kept c row' hrow' hk := by
    rcases row_back (x := x) hal hrow' with ⟨row, hrow, hback, -, -⟩ | ⟨row, hs, rfl⟩
    · obtain ⟨row₁, hrow₁, -, hended₁⟩ := h.row_kept hal hrow (hback hk)
      obtain rfl : row₁ = row' := Option.some.inj (hrow₁.symm.trans hrow')
      rcases h.kept c row hrow (hback hk) with hended | ⟨j, hj⟩
      · exact .inl (hended₁ hended)
      · by_cases hji : j = i
        · subst hji
          rcases h.keeps_turn hal (turn _ _ _) hj with hkeeps | ⟨row₂, hrow₂, hended₂⟩
          · exact .inr ⟨j, by rwa [Function.update_self]⟩
          · obtain rfl : row₂ = row₁ := Option.some.inj (hrow₂.symm.trans hrow')
            exact .inl hended₂
        · exact .inr ⟨j, by rwa [Function.update_of_ne hji]⟩
    · refine .inr ⟨i, ?_⟩
      rw [Function.update_self]
      exact keeps_of_created hal hs
  told j hj := by
    rcases marked_back hj with hj | ⟨t, rfl⟩
    · exact h.onRecord_kept hal (h.told j hj)
    · refine .inl ?_
      cases ht : w.tombstones x.key <;> simp [Stmt.exec, RecordOp.run, ht]
  met := h.met_kept hal hlate

omit [DecidableEq ι] in
theorem init (w : World) {hs : ι → Handler}
    (h0 : ∀ c row, w.call c = some row → ¬ HasKey x row) : Invariant x w fun i => start x (hs i) := by
  have hstart : ∀ i, start x (hs i) = .offering x ∨ start x (hs i) = .looking x ∨
      start x (hs i) = .idle := by
    intro i
    cases hs i <;> simp [start]
  constructor
  · intro i y hy
    rcases hstart i with hi | hi | hi <;> simp [hi, call?] at hy <;> exact hy.symm
  · intro i
    rcases hstart i with hi | hi | hi <;> rw [hi] <;> trivial
  · exact fun c d row row' hrow _ hk _ => absurd hk (h0 c row hrow)
  · exact fun c row hrow hk => absurd hk (h0 c row hrow)
  · exact fun c row hrow hk _ => absurd hk (h0 c row hrow)
  · exact fun c row hrow hk => absurd hk (h0 c row hrow)
  · intro i hi
    rcases hstart i with h | h | h <;> simp [h] at hi
  · intro i j c hi
    rcases hstart i with h | h | h <;> simp [h] at hi

end Invariant

/-! ## Runs -/

/-- Where an end can be. -/
def Ender : Phase → Prop
  | .looking _ | .owing _ _ | .past _ _ | .marked _ | .astray => True
  | _ => False

theorem ender_phase (x : ProviderCall) (seen : History Stmt.Res) :
    Ender (protocol.phase (.looking x) seen) := by
  induction seen with
  | nil => trivial
  | cons answered seen ih =>
    obtain ⟨s, r⟩ := answered
    have ht := turn (protocol.phase (.looking x) seen) s r
    show Ender (next (protocol.phase (.looking x) seen) s r)
    generalize next (protocol.phase (.looking x) seen) s r = q' at ht
    generalize protocol.phase (.looking x) seen = q at ht ih
    cases ht with
    | stays => exact ih
    | past | owing | marked | strange | missing => trivial
    | _ => cases ih

/-- An end that has finished met the offer, if that has finished too. -/
theorem Invariant.ended_of_done {ι : Type} {ph : ι → Phase} (h : Invariant x w ph) {i j : ι}
    (he : Ender (ph i)) (hi : (ph i).Done) (hj : (ph j).Done) (hk : Keeps c (ph j)) {row : CallRow}
    (hrow : w.call c = some row) (hkey : HasKey x row) : row.ended = true := by
  have hmade : ph j = .made x c true := by
    have hsame := h.same j
    generalize ph j = q at hj hk hsame
    cases q with
    | made y d looked =>
      obtain rfl : y = x := hsame y rfl
      obtain rfl : d = c := hk
      obtain rfl : looked = true := hj
      rfl
    | recording y d => exact False.elim hj
    | _ => cases hk
  have hb := h.bears i
  have hsame := h.same i
  generalize hq : ph i = q at he hi hb hsame
  cases q with
  | marked y =>
    obtain rfl : y = x := hsame y rfl
    exact h.met i j c hq hmade row hrow
  | past y d =>
    obtain ⟨row', hrow', hkey', hended⟩ := hb
    obtain rfl : d = c := h.one d c row' row hrow' hrow hkey' hkey
    rwa [← Option.some.inj (hrow'.symm.trans hrow)]
  | astray => exact hb.elim
  | looking _ | owing _ _ => exact False.elim hi
  | _ => exact False.elim he

section runs

variable {ι : Type}

abbrev phases (x : ProviderCall) (hs : ι → Handler) (s : Service ι) : ι → Phase :=
  protocol.phases (fun i => start x (hs i)) s

def Marks (x : ProviderCall) : Stmt → Bool
  | .record (.setTombstone k _) => k = x.key
  | _ => false

/-- An end leaves its tombstone after the offer, whose call is live, looked for it. -/
def MarksLate (x : ProviderCall) (hs : ι → Handler) (s : Service ι) (i : ι) : Prop :=
  (s.next i).any (Marks x) = true ∧ ∃ j, LookedInVain s.state (phases x hs s j) = true

instance [Fintype ι] (x : ProviderCall) (hs : ι → Handler) (s : Service ι) (i : ι) :
    Decidable (MarksLate x hs s i) := inferInstanceAs (Decidable (_ ∧ ∃ _, _))

variable [DecidableEq ι]

/-- Once an end and whatever else concerns the call have finished, the call is
over, if no end leaves its tombstone after the offer's look. -/
theorem over_of_finished (w : World) (x : ProviderCall) (hs : ι → Handler)
    (hx : ∀ i, Concerns x (hs i)) (h0 : ∀ c row, w.call c = some row → ¬ HasKey x row)
    (schedule : List ι)
    (hok : ∀ m ∈ (Service.spawn w hs).moves schedule, ¬ MarksLate x hs m.1 m.2)
    (hfin : ((Service.spawn w hs).run schedule).Finished)
    (hend : ∃ i line e, hs i = .callEnded line e) :
    ((Service.spawn w hs).run schedule).state.Over x := by
  have hinv := Protocol.invariant Stmt.exec (Invariant x) (fun cfg i => ¬ MarksLate x hs cfg i)
    (fun cfg i s k hp hok hal h => by
      have hn : Service.next cfg i = some s := Service.next_eq_some.mpr ⟨k, hp⟩
      refine h.step (hal.resolve_left fun hq => ?_) fun t hs j => ?_
      · have hb := h.bears i
        rw [hq] at hb
        exact hb
      · by_contra hvain
        exact hok ⟨by simp [hn, hs, Marks], j, by simpa using hvain⟩)
    (Protocol.conforms_spawn (s := w) fun i => follows (hx i)) (Invariant.init w h0) hok
  obtain ⟨i, line, e, hi⟩ := hend
  have hdone := fun j => hinv.1.1.final_of_finished (hfin j)
  intro c row hrow hchannel hid
  rw [← CallRow.ended_iff]
  rcases hinv.1.2.kept c row hrow ⟨hchannel, hid⟩ with hended | ⟨j, hj⟩
  · exact hended
  · refine hinv.1.2.ended_of_done ?_ (hdone i) (hdone j) hj hrow ⟨hchannel, hid⟩
    have hender := ender_phase x (((Service.spawn w hs).run schedule).threads i).seen
    rwa [show Phase.looking x = start x (hs i) by rw [hi]; rfl] at hender

end runs

/-! ## An end that looks before the offer's row exists -/

def line : Line := { id := 1, inboundQueueId := some 1 }

/-- One queue, with nobody in it. -/
def oneQueue : World := { queues := fun q => if q = 1 then some {} else none }

def callOne : ProviderCall := ⟨line, 7⟩

def offerAndEnd : Fin 2 → Handler
  | 0 => .inboundCall line { providerCallId := 7 } {}
  | 1 => .callEnded line { providerCallId := 7 }

theorem concerns_offerAndEnd : ∀ i, Concerns callOne (offerAndEnd i)
  | 0 | 1 => ⟨rfl, rfl⟩

/-- The tombstone is left between the offer's create and its second look. -/
theorem over_of_finished_tombstoneFirst :
    ((Service.spawn oneQueue offerAndEnd).run
      (List.replicate 3 1 ++ List.replicate 8 0 ++ List.replicate 2 1 ++
        List.replicate 20 0)).state.Over callOne :=
  over_of_finished oneQueue callOne offerAndEnd concerns_offerAndEnd (fun _ _ h => nomatch h) _ (by decide)
    (by decide) ⟨1, _, _, rfl⟩

/-- The tombstone is left after the offer's second look, and the call rings on. -/
theorem not_over_of_finished :
    ¬ ∀ (w : World) (x : ProviderCall) (hs : Fin 2 → Handler) (schedule : List (Fin 2)),
      (∀ i, Concerns x (hs i)) → (∀ c row, w.call c = some row → ¬ HasKey x row) →
        ((Service.spawn w hs).run schedule).Finished → (∃ i line e, hs i = .callEnded line e) →
          ((Service.spawn w hs).run schedule).state.Over x := by
  intro h
  have hover := h oneQueue callOne offerAndEnd
    (List.replicate 3 1 ++ List.replicate 20 0 ++ List.replicate 2 1) concerns_offerAndEnd
    (fun _ _ h => nomatch h) (by decide) ⟨1, _, _, rfl⟩
  exact absurd (hover 1 _ rfl rfl rfl) (by decide)

end OfferMeetsEnd

end Callio
