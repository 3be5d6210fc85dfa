import Callio.Concurrency.Exclusion
import Callio.Conduct.Arrival
import Callio.Core.Handlers
import Mathlib.Data.Fintype.Basic

/-! Inbound offers under different provider call ids from one customer. Each
looks for the customer's live call and then creates its own row, RINGING even
where it is only the record of a duplicate, or of a call its customer has given
up. Between the look and the row, nothing holds the other offers back. -/

namespace Callio

open Concurrency Code

/-- A live inbound call of the customer's. -/
def CallRow.livesFor (row : CallRow) (tenantId address : Nat) : Bool :=
  row.tenantId = tenantId && row.customerAddress = some address && row.direction = .inbound &&
    !row.ended

/-- At most one inbound call of the customer's is live. -/
def World.OneInbound (w : World) (tenantId address : Nat) : Prop :=
  ∀ c d row row', w.call c = some row → w.call d = some row' →
    row.livesFor tenantId address = true → row'.livesFor tenantId address = true → c = d

namespace OneInbound

open Arrival

/-- The statement inserts a live row of the customer's. -/
def Inserts (w : World) (tenantId address : Nat) : Stmt → Bool
  | .createCall row => !w.taken row && row.livesFor tenantId address
  | _ => false

/-- The statement inserts a live row of the customer's beside a live one. -/
def Doubles (w : World) (tenantId address : Nat) : Stmt → Bool
  | .createCall row => !w.taken row && row.livesFor tenantId address &&
      w.calls.any fun _ row' => row'.livesFor tenantId address
  | _ => false

/-- A handler that offers a call, or time passing. -/
def Offers : Handler → Prop
  | .inboundCall _ _ _ | .clock _ => True
  | _ => False

def start : Handler → Phase
  | .inboundCall line offer _ => .offering ⟨line, offer.providerCallId⟩
  | _ => .idle

theorem follows {h : Handler} (ho : Offers h) : h.code.Follows protocol (start h) fun _ => Phase.Done := by
  cases h with
  | inboundCall line offer outcome =>
    exact inboundCall_follows (x := ⟨line, offer.providerCallId⟩) offer rfl outcome
  | clock ms => exact ⟨.inr trivial, fun _ => trivial⟩
  | _ => cases ho

/-! ## The look, and what is inserted after it -/

inductive Look
  | unlooked
  /-- The customer had no live call, and the offer's own row is not inserted yet. -/
  | looked (tenantId : Nat) (address : Option Nat)
  /-- The row of a duplicate, or of a call ended before its offer, is in, and not over yet. -/
  | recording (callId : Nat)
  /-- The line already has a row under the offer's provider call id. -/
  | refused
  | past
  deriving DecidableEq

def Look.next : Look → (s : Stmt) → s.Res → Look
  | .unlooked, .query (.findActiveInboundByCustomer t a), call => if call.isSome then .unlooked else .looked t a
  | .unlooked, .createCall _, r => r.elim .refused .recording
  | .looked _ _, .createCall _, r => r.elim .refused fun _ => .past
  | .recording c, .updateCall d u, _ => if d = c ∧ u.ends then .past else .recording c
  | q, _, _ => q

/-- A row inserted after a look is of the customer looked for. -/
def Look.Allows : Look → Stmt → Prop
  | .looked t a, .createCall row => row.tenantId = t ∧ row.customerAddress = a
  | .recording _, .createCall _ | .refused, .createCall _ => False
  | _, _ => True

def looks : Protocol Stmt.Res := ⟨Look, Look.next, Look.Allows⟩

/-- The offer leaves no record open. -/
def Look.Settled (q : Look) : Prop := ∀ c, q ≠ .recording c

section looks

variable {t : Nat} {a : Option Nat} {c : Nat}

theorem follows_past {α : Type} (m : Code α) : m.Follows looks .past fun _ q => q = .past := by
  induction m with
  | ret r => rfl
  | call s k ih =>
    refine ⟨?_, fun r => ?_⟩
    · cases s <;> trivial
    · have hq : looks.next .past s r = .past := by cases s <;> rfl
      rw [hq]
      exact ih r

theorem read_looked (q : Query) : (read q).Stays looks (· = .looked t a) := by
  rintro _ rfl
  exact ⟨trivial, fun r => rfl⟩

theorem route_looked (line : Line) (ivrFlowId : Option Nat) :
    (InboundRouter.route line ivrFlowId).Stays looks (· = .looked t a) := by
  unfold InboundRouter.route
  cases line.ownerAgentId with
  | some ownerId =>
    refine (read_looked (.findAgent ownerId)).bind fun owner => ?_
    cases owner <;> exact Prog.stays_ret _
  | none =>
    refine (QueueRouter.getQueue_stays (fun d => read_looked (.findQueue d)) _).bind fun queue => ?_
    cases ivrFlowId <;> cases queue <;> exact Prog.stays_ret _

/-- An update that ends no call leaves the record open. -/
theorem update_recording {u : CallUpdate} (hu : u.ends = false) :
    (update c u).Stays looks (· = .recording c) := by
  rintro _ rfl
  exact ⟨trivial, fun r => by simp [looks, Look.next, hu]⟩

theorem fillTimes_recording (times : ProviderTimes) : (fillTimes c times).Stays looks (· = .recording c) :=
  (update_recording rfl).bind fun _ => Prog.stays_ret _

/-- Whatever follows the end of the record, it is over. -/
theorem ends_recording {α : Type} {u : CallUpdate} (hu : u.ends = true) (k : Bool → Code α) :
    (update c u >>= k).Takes looks (· = .recording c) (· = .past) := by
  rintro _ rfl
  refine (Prog.follows_cmd_bind _ _ _ _).mpr ⟨trivial, fun r => ?_⟩
  have hq : looks.next (.recording c) (.updateCall c u) r = .past := by simp [looks, Look.next, hu]
  rw [hq]
  exact follows_past _

theorem finalizeFromWebhook_recording {β : Type} (reason : TerminationReason) (who : TerminatedBy)
    (times : ProviderTimes) (k : Bool → Code β) :
    (finalizeFromWebhook c reason who times >>= k).Takes looks (· = .recording c) (· = .past) := by
  unfold finalizeFromWebhook
  simp only [bind_assoc]
  exact (fillTimes_recording times).bind fun _ => ends_recording rfl _

theorem finalizeCallAsFailed_recording {β : Type} (who : TerminatedBy) (times : ProviderTimes)
    (k : Bool → Code β) :
    (finalizeCallAsFailed c who times >>= k).Takes looks (· = .recording c) (· = .past) := by
  unfold finalizeCallAsFailed
  rw [bind_assoc]
  exact (fillTimes_recording times).bind fun _ => ends_recording rfl _

end looks

/-- The offer's row is over, or rings, or was refused. -/
def Look.Handled (q : Look) : Prop := q = .past ∨ q = .refused

theorem handleMissedBeforeOffer_looks (key : ProviderKey) (base : CallRow) (ringingAt : Nat)
    (tombstone : Tombstone) :
    (handleMissedBeforeOffer key base ringingAt tombstone).Follows looks .unlooked fun _ => Look.Handled := by
  refine (Prog.follows_cmd_bind _ _ _ _).mpr ⟨trivial, fun callId => ?_⟩
  cases callId with
  | none => exact .inr rfl
  | some c =>
    have hpast : ∀ q, q = Look.past → q.Handled := fun q hq => .inl hq
    exact Prog.Takes.ite (fun _ => (finalizeCallAsFailed_recording _ _ _).mono hpast)
      (fun _ => (finalizeFromWebhook_recording _ _ _ _).mono hpast) (.recording c) rfl

theorem recordDuplicate_looks (base : CallRow) (ringingAt : Nat) :
    (recordDuplicate base ringingAt).Follows looks .unlooked fun _ => Look.Handled := by
  refine (Prog.follows_cmd_bind _ _ _ _).mpr ⟨trivial, fun callId => ?_⟩
  cases callId with
  | none => exact .inr rfl
  | some c =>
    exact (finalizeFromWebhook_recording _ _ _ _).mono (fun q hq => Or.inl hq) (.recording c) rfl

theorem handleIncomingCall_looks (line : Line) (offer : InboundOffer) (outcome : InboundOutcome) :
    (handleIncomingCall line offer outcome).Follows looks .unlooked fun _ => Look.Handled := by
  unfold handleIncomingCall
  refine (Prog.follows_cmd_bind _ _ _ _).mpr ⟨trivial, fun now => ?_⟩
  refine (Prog.follows_cmd_bind _ _ _ _).mpr ⟨trivial, fun tombstone => ?_⟩
  cases tombstone with
  | some tombstone => exact handleMissedBeforeOffer_looks _ _ _ _
  | none =>
    refine (Prog.follows_cmd_bind _ _ _ _).mpr ⟨trivial, fun active => ?_⟩
    cases active with
    | some active => exact recordDuplicate_looks _ _
    | none =>
      have hcreate : ∀ (base : CallRow) (ringingAt : Nat) (route : Route) (k : Option Nat → Code Unit),
          base = baseRow line offer ringingAt → k none = pure () →
          (Prog.cmd (Stmt.createCall (routedRow base route)) >>= k).Takes looks
            (· = .looked line.tenantId offer.customerAddress) Look.Handled := by
        rintro base ringingAt route k rfl hnone q rfl
        refine (Prog.follows_cmd_bind _ _ _ _).mpr ⟨?_, fun callId => ?_⟩
        · cases route <;> exact ⟨rfl, rfl⟩
        · cases callId with
          | none =>
            rw [hnone]
            exact .inr rfl
          | some c => exact (follows_past _).mono fun _ _ h => .inl h
      show Prog.Follows looks (.looked line.tenantId offer.customerAddress) _ _
      rw [if_neg (by simp)]
      split
      · exact hcreate _ _ .nowhere _ rfl rfl _ rfl
      · exact ((route_looked line _).bind fun route => hcreate _ _ route _ rfl rfl) _ rfl

theorem inboundCall_looks (line : Line) (offer : InboundOffer) (outcome : InboundOutcome) :
    (inboundCall line offer outcome).Follows looks .unlooked fun _ => Look.Settled := by
  refine (Prog.follows_cmd_bind _ _ _ _).mpr ⟨trivial, fun known => ?_⟩
  refine Prog.Takes.ite (P := looks) (Q := (· = Look.unlooked)) (fun _ => ?_) (fun _ => ?_) Look.unlooked rfl
  · rintro _ rfl
    exact nofun
  rintro _ rfl
  refine (Prog.follows_cmd_bind _ _ _ _).mpr ⟨trivial, fun owned => ?_⟩
  refine Prog.Takes.ite (P := looks) (Q := (· = Look.unlooked)) (fun _ => ?_) (fun _ => ?_) Look.unlooked rfl
  · rintro _ rfl
    exact nofun
  rintro _ rfl
  refine (handleIncomingCall_looks line offer outcome).bind ?_
  rintro _ q (rfl | rfl)
  · refine (follows_past _).mono ?_
    rintro _ _ rfl
    exact nofun
  · refine (Prog.follows_cmd_bind _ _ _ _).mpr ⟨trivial, fun latest => ?_⟩
    refine Prog.Takes.ite (P := looks) (Q := (· = Look.refused)) (fun _ => ?_) (fun _ => ?_) Look.refused rfl
    · rintro _ rfl
      exact ⟨trivial, fun _ => nofun⟩
    · rintro _ rfl
      exact nofun

theorem offers_looks {h : Handler} (ho : Offers h) :
    h.code.Follows looks .unlooked fun _ => Look.Settled := by
  cases h with
  | inboundCall line offer outcome => exact inboundCall_looks line offer outcome
  | clock ms => exact ⟨trivial, fun _ => nofun⟩
  | _ => cases ho

/-! ## What holds throughout -/

/-- The call an offer made. -/
def made? : Phase → Option Nat
  | .made _ c _ | .recording _ c | .past _ c | .cancelled _ c => some c
  | _ => none

/-- What a phase says of the call it made. -/
def Bears (w : World) : Phase → Prop
  | .made _ c _ | .past _ c => ∃ row, w.call c = some row ∧ (row.ended = true → row.state ≠ some .ivr)
  | .recording _ c => ∃ row, w.call c = some row ∧ row.ended = false ∧ row.terminationReason = none ∧
      row.state = none
  | .cancelled _ c => ∃ row, w.call c = some row ∧ row.status = .terminated ∧
      row.terminationReason = some .cancelled ∧ row.state = none
  | .looking _ | .owing _ _ | .marked _ | .astray => False
  | _ => True

/-- The offers' own calls, told apart. -/
structure Invariant {ι : Type} (w : World) (ph : ι → Phase) : Prop where
  bears : ∀ i, Bears w (ph i)
  /-- No two offers made the same call. -/
  apart : ∀ c, AtMostOne (made? · = some c) ph

/-- The offer found its customer on a call, and made call `c` to record itself. -/
def records (c : Nat) : Phase → Prop
  | .recording _ d | .cancelled _ d => d = c
  | _ => False

theorem Invariant.cancelled_of_done {ι : Type} {w : World} {ph : ι → Phase} (h : Invariant w ph)
    {i : ι} {c : Nat} (hd : (ph i).Done) (hr : records c (ph i)) :
    ∃ row, w.call c = some row ∧ row.status = .terminated ∧
      row.terminationReason = some .cancelled := by
  have hb := h.bears i
  generalize ph i = q at hr hd hb
  cases q with
  | cancelled x d =>
    obtain rfl : d = c := hr
    obtain ⟨row, hrow, hstatus, hreason, -⟩ := hb
    exact ⟨row, hrow, hstatus, hreason⟩
  | recording x d => exact False.elim hd
  | _ => cases hr

/-! ## One move -/

variable {ι : Type} {ph : ι → Phase} {i : ι} {q p : Phase} {s : Stmt} {w : World} {c : Nat}

/-- A mild write of a call leaves its status, its state and its reason, unless
that is NO_ANSWER. -/
theorem row_of_mild (hs : ∀ u, s = .updateCall c u → u.mild = true) {row : CallRow}
    (hrow : w.call c = some row) :
    ∃ row', (s.exec w).1.call c = some row' ∧ row'.status = row.status ∧ row'.state = row.state ∧
      (row'.terminationReason = row.terminationReason ∨ row.terminationReason = some .noAnswer) := by
  cases Stmt.onCall w c s with
  | same h => exact ⟨row, h.trans hrow, rfl, rfl, .inl rfl⟩
  | updated u row₀ hu hrow₀ hg h =>
    obtain rfl : row₀ = row := Option.some.inj (hrow₀.symm.trans hrow)
    refine ⟨_, h, ?_⟩
    have hmild := hs u hu
    cases u with
    | updateTimestamp field t => cases field <;> exact ⟨rfl, rfl, .inl rfl⟩
    | correctNoAnswerIfAnswered =>
      simp only [CallUpdate.guard, Bool.and_eq_true, decide_eq_true_eq] at hg
      exact ⟨rfl, rfl, .inr hg.1.1.2⟩
    | updateTerminatedByIfFailed _ | fillTimes _ _ _ _ | assignCallToAgentIfUnassigned _ =>
      exact ⟨rfl, rfl, .inl rfl⟩
    | _ => cases hmild
  | created row₀ _ hnone _ => cases hnone.symm.trans hrow
  | filled row₀ duration _ hrow₀ h | claimed agentId anyShift row₀ _ hrow₀ _ _ h =>
    obtain rfl : row₀ = row := Option.some.inj (hrow₀.symm.trans hrow)
    exact ⟨_, h, rfl, rfl, .inl rfl⟩

/-- Whatever is not the end of the call, what a phase says of it still holds. -/
theorem bears_kept
    (hs : ∀ c u, made? p = some c → s = .updateCall c u → u.mild = true ∨
      u = .markIvrAutoAccepted ∧ ∃ x looked, p = .made x c looked) (hb : Bears w p) :
    Bears (s.exec w).1 p := by
  cases p with
  | past x c =>
    obtain ⟨row, hrow, hstate⟩ := hb
    have hmild : ∀ u, s = .updateCall c u → u.mild = true := fun u hu =>
      (hs c u rfl hu).resolve_right (by rintro ⟨-, y, l, h⟩; cases h)
    obtain ⟨row', hrow', hst, hst', -⟩ := row_of_mild hmild hrow
    refine ⟨row', hrow', ?_⟩
    rwa [CallRow.ended, hst, hst']
  | recording x c =>
    obtain ⟨row, hrow, hlive, hreason, hstate⟩ := hb
    have hmild : ∀ u, s = .updateCall c u → u.mild = true := fun u hu =>
      (hs c u rfl hu).resolve_right (by rintro ⟨-, y, l, h⟩; cases h)
    obtain ⟨row', hrow', hst, hst', hr⟩ := row_of_mild hmild hrow
    refine ⟨row', hrow', by rwa [CallRow.ended, hst], ?_, by rwa [hst']⟩
    rw [hr.resolve_right (by rw [hreason]; intro h; cases h), hreason]
  | cancelled x c =>
    obtain ⟨row, hrow, hstatus, hreason, hstate⟩ := hb
    have hmild : ∀ u, s = .updateCall c u → u.mild = true := fun u hu =>
      (hs c u rfl hu).resolve_right (by rintro ⟨-, y, l, h⟩; cases h)
    obtain ⟨row', hrow', hst, hst', hr⟩ := row_of_mild hmild hrow
    refine ⟨row', hrow', by rwa [hst], ?_, by rwa [hst']⟩
    rw [hr.resolve_right (by rw [hreason]; intro h; cases h), hreason]
  | made x c looked =>
    obtain ⟨row, hrow, hstate⟩ := hb
    by_cases hivr : s = .updateCall c .markIvrAutoAccepted
    · subst hivr
      by_cases hg : row.state = some .ivr
      · have hguard : CallUpdate.markIvrAutoAccepted.guard row = true := by simpa [CallUpdate.guard] using hg
        exact ⟨_, Stmt.exec_updateCall hrow hguard, fun h => by cases h⟩
      · refine ⟨row, ?_, hstate⟩
        simp only [World.call] at hrow ⊢
        simp [Stmt.exec, Store.Table.get_updateWhere, hrow, CallUpdate.guard, hg]
    · have hmild : ∀ u, s = .updateCall c u → u.mild = true := fun u hu =>
        (hs c u rfl hu).resolve_right (by rintro ⟨rfl, -⟩; exact hivr hu)
      obtain ⟨row', hrow', hst, hst', -⟩ := row_of_mild hmild hrow
      refine ⟨row', hrow', ?_⟩
      rwa [CallRow.ended, hst, hst']
  | _ => exact hb

/-- An end leaves the call over and out of its IVR. -/
theorem over_of_ends {u : CallUpdate} (hu : u.ends = true)
    (hb : ∃ row, w.call c = some row ∧ (row.ended = true → row.state ≠ some .ivr)) :
    ∃ row, ((Stmt.updateCall c u).exec w).1.call c = some row ∧
      (row.ended = true → row.state ≠ some .ivr) := by
  obtain ⟨row, hrow, hstate⟩ := hb
  cases hg : u.guard row with
  | true =>
    have hstate' := (ended_of_ends hu w.now row).2
    exact ⟨_, Stmt.exec_updateCall hrow hg, fun _ h => absurd (hstate'.symm.trans h) nofun⟩
  | false =>
    refine ⟨row, ?_, hstate⟩
    simp only [World.call] at hrow ⊢
    simp [Stmt.exec, Store.Table.get_updateWhere, hrow, hg]

/-- What a turn says of the call is so. -/
theorem bears_turn (hal : Lawful q s) (hb : Bears w q) (ht : Turn s (s.exec w).2 q p) :
    Bears (s.exec w).1 p := by
  cases ht with
  | stays _ hends =>
    refine bears_kept (fun c u hc hs => ?_) hb
    subst hs
    rcases hal with hu | ⟨hu, hown, -⟩ | ⟨rfl, x, looked, hq⟩
    · exact .inl hu
    · exact absurd hown (hends _ _ rfl hu)
    · refine .inr ⟨rfl, x, looked, ?_⟩
      rw [hq]
  | found x => trivial
  | made x row c hs =>
    obtain ⟨rfl, -, -, hrow⟩ := exec_create hs
    refine ⟨_, hrow, fun h => ?_⟩
    rw [CallRow.inserted_ended, CallRow.ended, show row.status = .ringing from hal.1] at h
    cases h
  | recording x row c hs =>
    obtain ⟨rfl, -, -, hrow⟩ := exec_create hs
    obtain ⟨hst, hreason, y, -, hq⟩ := hal
    refine ⟨_, hrow, ?_, hreason, ?_⟩
    · rw [CallRow.inserted_ended, CallRow.ended, show row.status = .ringing from hst]
      rfl
    · rcases hq with hq | ⟨-, hstate⟩
      · cases hq
      · exact hstate
  | looked x c hread =>
    obtain ⟨rfl, -⟩ := Stmt.answer_of_read hread
    exact hb
  | past x c _ hown u hs hu =>
    subst hs
    refine over_of_ends hu ?_
    rcases hown with rfl | ⟨looked, rfl⟩
    · exact hb.elim
    · exact hb
  | cancelled x c u hs hu =>
    subst hs
    obtain ⟨row, hrow, hlive, hreason, hstate⟩ := hb
    rcases hal with hmild | ⟨-, hown, hwho⟩ | ⟨rfl, y, looked, hq⟩
    · rw [CallUpdate.ends_of_mild hmild] at hu
      cases hu
    · obtain ⟨who, rfl⟩ := hwho x rfl
      have hg : (CallUpdate.finalizeFromWebhook .terminated (some .cancelled) who).guard row = true := by
        simpa [CallUpdate.guard] using hlive
      exact ⟨_, Stmt.exec_updateCall hrow hg, rfl, by simp [CallUpdate.set, hreason], rfl⟩
    · cases hu
  | owing x call | strange x call | marked x => exact hb.elim
  | missing x c looked call hread hnone =>
    obtain ⟨rfl, hanswer⟩ := Stmt.answer_of_read hread
    obtain ⟨row, hrow, -⟩ := hb
    obtain rfl : call = some { row with id := c } :=
      hanswer.trans (World.findCall_eq_some.mpr ⟨hrow, rfl⟩)
    simp at hnone

/-- A call a phase names was made before, or now. -/
theorem made_turn (ht : Turn s (s.exec w).2 q p) (hb : Bears w q) (hc : made? p = some c) :
    made? q = some c ∨ w.call c = none := by
  cases ht with
  | made x row d hs | recording x row d hs =>
    obtain rfl : d = c := Option.some.inj hc
    exact .inr (exec_create hs).2.2.1
  | past x d _ hown u hs hu =>
    rcases hown with rfl | ⟨looked, rfl⟩
    · exact hb.elim
    · exact .inl hc
  | stays | looked | cancelled => exact .inl hc
  | _ => cases hc

theorem row_of_made (hb : Bears w q) (hc : made? q = some c) : ∃ row, w.call c = some row := by
  cases q with
  | made x d looked | past x d | recording x d | cancelled x d =>
    obtain rfl : d = c := Option.some.inj hc
    obtain ⟨row, hrow, -⟩ := hb
    exact ⟨row, hrow⟩
  | _ => cases hc

namespace Invariant

theorem bears_other (h : Invariant w ph) (hal : Lawful (ph i) s) {j : ι} (hji : j ≠ i) :
    Bears (s.exec w).1 (ph j) := by
  refine bears_kept (fun c u hc hs => ?_) (h.bears j)
  subst hs
  rcases hal with hu | ⟨-, hown, -⟩ | ⟨-, x, looked, hq⟩
  · exact .inl hu
  · have hmade : made? (ph i) = some c := by
      have hb := h.bears i
      generalize ph i = q at hown hb
      cases q with
      | made x d looked | recording x d => exact hown
      | owing x d => exact hb.elim
      | _ => cases hown
    exact absurd (h.apart c j i hc hmade) hji
  · exact absurd (h.apart c j i hc (by rw [hq]; rfl)) hji

theorem lawful_of_allows (h : Invariant w ph) (hal : protocol.allows (ph i) s) : Lawful (ph i) s :=
  hal.resolve_left fun hq => by
    have hb := h.bears i
    rw [hq] at hb
    exact hb

theorem init (w : World) (hs : ι → Handler) : Invariant w fun i => start (hs i) := by
  have hstart : ∀ i, Bears w (start (hs i)) ∧ made? (start (hs i)) = none := by
    intro i
    cases hs i <;> exact ⟨trivial, rfl⟩
  exact ⟨fun i => (hstart i).1, fun c => .of_none fun i h => by simp [(hstart i).2] at h⟩

variable [DecidableEq ι]

theorem step (h : Invariant w ph) (hal : Lawful (ph i) s) :
    Invariant (s.exec w).1 (Function.update ph i (next (ph i) s (s.exec w).2)) where
  bears j := by
    by_cases hji : j = i
    · subst hji
      rw [Function.update_self]
      exact bears_turn hal (h.bears j) (turn _ _ _)
    · rw [Function.update_of_ne hji]
      exact h.bears_other hal hji
  apart c := by
    refine (h.apart c).update fun hc => ?_
    rcases made_turn (turn _ _ _) (h.bears i) hc with hq | hnone
    · exact .inl hq
    · refine .inr fun j hj => ?_
      obtain ⟨row, hrow⟩ := row_of_made (h.bears j) hj
      exact absurd (hnone.symm.trans hrow) nofun

end Invariant

/-! ## Live calls -/

theorem livesFor_iff {row : CallRow} {tenantId address : Nat} :
    row.livesFor tenantId address = true ↔ row.tenantId = tenantId ∧
      row.customerAddress = some address ∧ row.direction = .inbound ∧ row.ended = false := by
  simp [CallRow.livesFor, and_assoc]

variable {tenantId address : Nat}

/-- Whoever is live was, or is made now. -/
theorem lives_back (hb : Bears w q) (hal : Lawful q s) {row' : CallRow}
    (hrow' : (s.exec w).1.call c = some row') (hl : row'.livesFor tenantId address = true) :
    (∃ row, w.call c = some row ∧ row.livesFor tenantId address = true) ∨
      ∃ row, Answered s (s.exec w).2 = ⟨.createCall row, some c⟩ ∧
        row.livesFor tenantId address = true := by
  cases onRow hal w c with
  | same h => exact .inl ⟨row', h.symm.trans hrow', hl⟩
  | grown row row₁ hrow hrow₁ hg =>
    obtain rfl : row₁ = row' := Option.some.inj (hrow₁.symm.trans hrow')
    obtain ⟨ht, ha, hd, hlive⟩ := livesFor_iff.mp hl
    refine .inl ⟨row, hrow, livesFor_iff.mpr ⟨hg.tenantId ▸ ht, hg.customerAddress ▸ ha, hg.direction ▸ hd, ?_⟩⟩
    by_contra hended
    rw [Bool.not_eq_false] at hended
    obtain ⟨rfl, hivr⟩ := hg.revived hended hlive
    -- only the offer's own call is auto-accepted, and that has left its IVR when it ends
    rcases hal with hmild | ⟨hends, -, -⟩ | ⟨-, x, looked, hq⟩
    · cases hmild
    · cases hends
    · rw [hq] at hb
      obtain ⟨row₂, hrow₂, hstate⟩ := hb
      obtain rfl : row₂ = row := Option.some.inj (hrow₂.symm.trans hrow)
      exact hstate hended hivr
  | created row hs =>
    obtain ⟨-, -, -, hrow⟩ := exec_create hs
    obtain rfl := Option.some.inj (hrow'.symm.trans hrow)
    exact .inr ⟨row, hs, hl⟩

/-- A move that doubles nobody keeps the customer on one call. -/
theorem oneInbound_exec (hb : Bears w q) (hal : Lawful q s) (hone : w.OneInbound tenantId address)
    (hs : Doubles w tenantId address s = false) : (s.exec w).1.OneInbound tenantId address := by
  have hnew : ∀ c row, Answered s (s.exec w).2 = ⟨.createCall row, some c⟩ →
      row.livesFor tenantId address = true → ∀ d row', w.call d = some row' →
        row'.livesFor tenantId address = false := by
    intro c row hc hl
    obtain ⟨rfl, ht, -, -⟩ := exec_create hc
    simp only [Doubles, ht, hl, Bool.not_false, Bool.true_and] at hs
    exact (Store.Table.any_eq_false _ _).mp hs
  intro c d row row' hc hd hlc hld
  rcases lives_back hb hal hc hlc with ⟨row₁, hrow₁, hl₁⟩ | ⟨row₁, hs₁, hl₁⟩ <;>
    rcases lives_back hb hal hd hld with ⟨row₂, hrow₂, hl₂⟩ | ⟨row₂, hs₂, hl₂⟩
  · exact hone c d row₁ row₂ hrow₁ hrow₂ hl₁ hl₂
  · exact absurd (hl₁.symm.trans (hnew d row₂ hs₂ hl₂ c row₁ hrow₁)) nofun
  · exact absurd (hl₂.symm.trans (hnew c row₁ hs₁ hl₁ d row₂ hrow₂)) nofun
  · have hanswer := hs₁.symm.trans hs₂
    injection hanswer with hst hr
    cases hst
    exact Option.some.inj hr

/-- A move that doubles a live call leaves its customer on two. -/
theorem not_oneInbound_exec (hs : Doubles w tenantId address s = true) :
    ¬ (s.exec w).1.OneInbound tenantId address := by
  intro hone
  cases s with
  | createCall row =>
    simp only [Doubles, Bool.and_eq_true, Bool.not_eq_true', Store.Table.any_eq_true] at hs
    obtain ⟨⟨ht, hl⟩, d, row', hrow', hl'⟩ := hs
    rw [Stmt.exec_createCall_of_free ht] at hone
    have hd : d ≠ w.calls.nextId := Nat.ne_of_lt (Store.Table.lt_nextId hrow')
    refine hd (hone d w.calls.nextId row' (row.inserted w.now) ?_ ?_ hl' hl)
    · simpa [World.call, hd] using hrow'
    · simp [World.call]
  | _ => cases hs

/-! ## One look at a time -/

/-- The offer's own row is not in. -/
def Uninserted : Phase → Prop
  | .offering _ | .duplicate _ => True
  | _ => False

theorem Uninserted.of_turn (ht : Turn s (s.exec w).2 q p) (hp : Uninserted p) : Uninserted q := by
  cases ht with
  | stays => exact hp
  | found x => trivial
  | _ => cases hp

theorem uninserted_of_create {row : CallRow} (hal : Lawful q (.createCall row)) : Uninserted q := by
  obtain ⟨-, -, x, -, rfl | ⟨rfl, -⟩⟩ := hal <;> trivial

theorem not_uninserted_of_created {row : CallRow} (hal : Lawful q (.createCall row)) (c : Nat) :
    ¬ Uninserted (next q (.createCall row) (some c)) := by
  obtain ⟨-, -, x, -, rfl | ⟨rfl, -⟩⟩ := hal <;> exact id

/-- How an offer comes to be between its look and its row. -/
theorem Look.next_looked {l : Look} {r : s.Res} {t : Nat} {a : Option Nat} (h : l.next s r = .looked t a) :
    (l = .looked t a ∧ ∀ row, s ≠ .createCall row) ∨
      Answered s r = ⟨.query (.findActiveInboundByCustomer t a), none⟩ := by
  unfold Look.next at h
  split at h
  · rename_i t' a' call
    cases call with
    | none =>
      cases h
      exact .inr rfl
    | some call => cases h
  · rename_i row r
    cases r <;> cases h
  · rename_i row r
    cases r <;> cases h
  · split at h <;> cases h
  · rename_i hcreate _
    subst h
    exact .inl ⟨rfl, fun row hs => by subst hs; exact hcreate t a row r rfl rfl HEq.rfl⟩

/-- How an offer comes to have a record open. -/
theorem Look.next_recording {l : Look} {r : s.Res} (h : l.next s r = .recording c) :
    l = .recording c ∨ l = .unlooked ∧ ∃ row, Answered s r = ⟨.createCall row, some c⟩ := by
  unfold Look.next at h
  split at h
  · split at h <;> cases h
  · rename_i row r
    cases r with
    | none => cases h
    | some d =>
      cases h
      exact .inr ⟨rfl, row, rfl⟩
  · rename_i row r
    cases r <;> cases h
  · split at h
    · cases h
    · exact .inl h
  · exact .inl h

/-- An open record is closed by the end of its call alone. -/
theorem Look.next_of_recording {r : s.Res} (h : (Look.recording c).next s r ≠ .recording c) :
    ∃ u, s = .updateCall c u ∧ u.ends = true := by
  cases s with
  | updateCall d u =>
    by_cases hu : d = c ∧ u.ends = true
    · obtain ⟨rfl, hu⟩ := hu
      exact ⟨u, rfl, hu⟩
    · exact absurd (by simp [Look.next, hu]) h
  | _ => exact absurd rfl h

/-- How an offer comes to be past its row. -/
theorem Look.next_past {l : Look} {r : s.Res} (h : l.next s r = .past) :
    l = .past ∨ (∃ c, l = .recording c) ∨ ∃ row c, Answered s r = ⟨.createCall row, some c⟩ := by
  unfold Look.next at h
  split at h
  · split at h <;> cases h
  · rename_i row r
    cases r <;> cases h
  · rename_i row r
    cases r with
    | none => cases h
    | some d => exact .inr (.inr ⟨row, d, rfl⟩)
  · exact .inr (.inl ⟨_, rfl⟩)
  · exact .inl h

/-- An offer whose row is in: it rings, is recorded, or is over. -/
def Look.Inserted (l : Look) : Prop := l = .past ∨ ∃ c, l = .recording c

theorem Look.Inserted.of_next {l : Look} (hal : Lawful q s) (h : (l.next s (s.exec w).2).Inserted)
    (hl : l.Inserted → ¬ Uninserted q) : ¬ Uninserted (Arrival.next q s (s.exec w).2) := by
  have hcreated : ∀ row c, Answered s (s.exec w).2 = ⟨.createCall row, some c⟩ →
      ¬ Uninserted (Arrival.next q s (s.exec w).2) := by
    intro row c hc
    obtain rfl : s = .createCall row := congrArg Sigma.fst hc
    rw [eq_of_heq (Sigma.mk.inj hc).2]
    exact not_uninserted_of_created hal c
  rcases h with h | ⟨c, h⟩
  · rcases Look.next_past h with hp | hr | ⟨row, d, hc⟩
    · exact fun hu => hl (.inl hp) (hu.of_turn (turn _ _ _))
    · exact fun hu => hl (.inr hr) (hu.of_turn (turn _ _ _))
    · exact hcreated row d hc
  · rcases Look.next_recording h with hr | ⟨-, row, hc⟩
    · exact fun hu => hl (.inr ⟨c, hr⟩) (hu.of_turn (turn _ _ _))
    · exact hcreated row c hc

/-- The look answers none only if no call of the customer's is live. -/
theorem dead_of_look {call : Option Call}
    (hq : Answered s (s.exec w).2 = ⟨.query (.findActiveInboundByCustomer tenantId (some address)), call⟩)
    (hnone : call = none) (hbegun : ∀ c row, w.call c = some row → row.direction = .inbound →
      row.status ≠ .initiated) {row : CallRow} (hrow : w.call c = some row) :
    row.livesFor tenantId address = false := by
  obtain ⟨rfl, hanswer⟩ := Stmt.answer_of_read hq
  rw [hnone] at hanswer
  rw [Bool.eq_false_iff]
  intro hl
  obtain ⟨ht, ha, hd, hended⟩ := livesFor_iff.mp hl
  have hstatus : row.status = .ringing ∨ row.status = .inProgress := by
    have hne := hbegun c row hrow hd
    unfold CallRow.ended at hended
    cases hst : row.status <;> simp_all [CallStatus.active]
  have hmem : ({ row with id := c } : Call) ∈ w.selectCalls fun c => c.tenantId = tenantId &&
      c.customerAddress = some address && c.direction = .inbound && (c.status = .ringing || c.status = .inProgress) := by
    refine World.mem_selectCalls.mpr ⟨hrow, ?_⟩
    simpa [ht, ha, hd] using hstatus
  have hempty := List.getLast?_eq_none_iff.mp hanswer.symm
  rw [hempty] at hmem
  cases hmem

/-- No inbound row of a lawful run is INITIATED. -/
theorem begun_exec (hal : Lawful q s)
    (hbegun : ∀ c row, w.call c = some row → row.direction = .inbound → row.status ≠ .initiated) :
    ∀ c row, (s.exec w).1.call c = some row → row.direction = .inbound → row.status ≠ .initiated := by
  intro c row' hrow' hin
  cases Stmt.onCall w c s with
  | same h => exact hbegun c row' (h.symm.trans hrow') hin
  | updated u row hs hrow hg h =>
    subst hs
    obtain rfl : u.set w.now row = row' := Option.some.inj (h.symm.trans hrow')
    rcases hal with hmild | ⟨hends, -, -⟩ | ⟨rfl, -⟩
    · have hkept : (u.set w.now row).status = row.status ∧ (u.set w.now row).direction = row.direction := by
        cases u with
        | updateTimestamp field t => cases field <;> exact ⟨rfl, rfl⟩
        | correctNoAnswerIfAnswered | updateTerminatedByIfFailed _ | fillTimes _ _ _ _
        | assignCallToAgentIfUnassigned _ => exact ⟨rfl, rfl⟩
        | _ => cases hmild
      rw [hkept.1]
      exact hbegun c row hrow (hkept.2 ▸ hin)
    · intro hst
      have hended := (ended_of_ends hends w.now row).1
      rw [CallRow.ended, hst] at hended
      cases hended
    · intro hst
      cases hst
  | created row hs hrow h =>
    subst hs
    obtain rfl := Option.some.inj (h.symm.trans hrow')
    have hst : row.status = .ringing := hal.1
    rw [CallRow.inserted_status, hst]
    intro hst
    cases hst
  | filled row duration hs hrow h | claimed agentId anyShift row hs hrow _ _ h =>
    obtain rfl := Option.some.inj (h.symm.trans hrow')
    exact hbegun c row hrow hin

/-- What the looks come to: whoever has looked for the customer's call in vain
still would, and apart from the records open the customer is on one call. -/
structure Watched {ι : Type} (tenantId address : Nat) (w : World) (ph : ι → Phase × Look) : Prop where
  base : Invariant w (Prod.fst ∘ ph)
  placed : ∀ i, (ph i).2.Inserted → ¬ Uninserted (ph i).1
  begun : ∀ c row, w.call c = some row → row.direction = .inbound → row.status ≠ .initiated
  vain : ∀ i, (ph i).2 = .looked tenantId (some address) → ∀ c row, w.call c = some row →
    row.livesFor tenantId address = false
  one : ∀ c d row row', w.call c = some row → w.call d = some row' →
    row.livesFor tenantId address = true → row'.livesFor tenantId address = true →
    (∀ i, (ph i).2 ≠ .recording c) → (∀ i, (ph i).2 ≠ .recording d) → c = d

namespace Watched

variable {ph : ι → Phase × Look}

theorem lawful (h : Watched tenantId address w ph) (hal : protocol.allows (ph i).1 s) : Lawful (ph i).1 s :=
  have hbase : Invariant w (Prod.fst ∘ ph) := h.base
  hbase.lawful_of_allows hal

/-- An offer inserts a row to ring only of a customer it has just looked for in vain. -/
theorem dead_of_insert (h : Watched tenantId address w ph) {row : CallRow}
    (hal : Lawful (ph i).1 (.createCall row)) (hlook : (ph i).2.Allows (.createCall row))
    (hl : row.livesFor tenantId address = true) (hun : (ph i).2 ≠ .unlooked) {row' : CallRow}
    (hrow' : w.call c = some row') : row'.livesFor tenantId address = false := by
  obtain ⟨ht, ha, -, -⟩ := livesFor_iff.mp hl
  cases hp : (ph i).2 with
  | unlooked => exact absurd hp hun
  | looked t a =>
    rw [hp] at hlook
    obtain ⟨rfl, rfl⟩ := hlook
    exact h.vain i (by rw [hp, ht, ha]) c row' hrow'
  | recording d | refused =>
    rw [hp] at hlook
    cases hlook
  | past => exact absurd (uninserted_of_create hal) (h.placed i (.inl hp))

variable [DecidableEq ι]

theorem step (h : Watched tenantId address w ph) (hal : Lawful (ph i).1 s) (hlook : (ph i).2.Allows s)
    (hord : ∀ j, j ≠ i → (ph j).2 = .looked tenantId (some address) → Inserts w tenantId address s = false) :
    Watched tenantId address (s.exec w).1
      (Function.update ph i (next (ph i).1 s (s.exec w).2, (ph i).2.next s (s.exec w).2)) where
  base := by
    rw [Function.comp_update]
    exact h.base.step hal
  placed j := by
    by_cases hji : j = i
    · subst hji
      rw [Function.update_self]
      exact fun hin => hin.of_next hal (h.placed j)
    · rw [Function.update_of_ne hji]
      exact h.placed j
  begun := begun_exec hal h.begun
  vain j hj c row hrow := by
    rw [Bool.eq_false_iff]
    intro hl
    have hnew : (∃ row, Answered s (s.exec w).2 = ⟨.createCall row, some c⟩ ∧
        row.livesFor tenantId address = true) ∨ ∃ row, w.call c = some row ∧ row.livesFor tenantId address = true :=
      (lives_back (h.base.bears i) hal hrow hl).symm
    by_cases hji : j = i
    · subst hji
      rw [Function.update_self] at hj
      rcases Look.next_looked hj with ⟨hp, hcreate⟩ | hquery
      · rcases hnew with ⟨made, hc, -⟩ | ⟨old, hold, hlive⟩
        · exact hcreate made (congrArg Sigma.fst hc)
        · exact absurd ((h.vain j hp c old hold).symm.trans hlive) nofun
      · rcases hnew with ⟨made, hc, -⟩ | ⟨old, hold, hlive⟩
        · have hs := (congrArg Sigma.fst hc).symm.trans (congrArg Sigma.fst hquery)
          cases hs
        · exact absurd ((dead_of_look hquery rfl h.begun hold).symm.trans hlive) nofun
    · rw [Function.update_of_ne hji] at hj
      rcases hnew with ⟨made, hc, hlive⟩ | ⟨old, hold, hlive⟩
      · obtain ⟨rfl, htaken, -, -⟩ := exec_create hc
        have hins := hord j hji hj
        simp [Inserts, htaken, hlive] at hins
      · exact absurd ((h.vain j hj c old hold).symm.trans hlive) nofun
  one c d row row' hrow hrow' hl hl' hc hd := by
    -- a record closed by this move is over, so whoever is not recorded now was not before
    have hopen : ∀ e rowe, (s.exec w).1.call e = some rowe → rowe.livesFor tenantId address = true →
        (∀ j, (Function.update ph i (next (ph i).1 s (s.exec w).2, (ph i).2.next s (s.exec w).2) j).2 ≠
          .recording e) → ∀ j, (ph j).2 ≠ .recording e := by
      intro e rowe hrowe hle he j hj
      have hej := he j
      by_cases hji : j = i
      · subst hji
        rw [Function.update_self, hj] at hej
        obtain ⟨u, rfl, hu⟩ := Look.next_of_recording hej
        cases hold : w.call e with
        | none =>
          have hnone : ((Stmt.updateCall e u).exec w).1.call e = none := by
            simp only [World.call] at hold ⊢
            simp [Stmt.exec, Store.Table.get_updateWhere, hold]
          cases hnone.symm.trans hrowe
        | some old =>
          obtain ⟨after, hafter, hended⟩ := exec_ends hu hold
          obtain rfl := Option.some.inj (hafter.symm.trans hrowe)
          exact absurd ((livesFor_iff.mp hle).2.2.2.symm.trans hended) nofun
      · rw [Function.update_of_ne hji] at hej
        exact hej hj
    -- a row inserted by this move is recorded, or is the only live one
    have hmade : ∀ e rowe made, (s.exec w).1.call e = some rowe →
        Answered s (s.exec w).2 = ⟨.createCall made, some e⟩ → made.livesFor tenantId address = true →
        (∀ j, (Function.update ph i (next (ph i).1 s (s.exec w).2, (ph i).2.next s (s.exec w).2) j).2 ≠
          .recording e) → ∀ e' old, w.call e' = some old → old.livesFor tenantId address = false := by
      intro e rowe made _ hans hlive he e' old hold
      obtain rfl : s = .createCall made := congrArg Sigma.fst hans
      refine h.dead_of_insert hal hlook hlive (fun hun => he i ?_) hold
      rw [Function.update_self, hun, eq_of_heq (Sigma.mk.inj hans).2]
      rfl
    rcases lives_back (h.base.bears i) hal hrow hl with ⟨old, hold, hlive⟩ | ⟨made, hans, hlive⟩ <;>
      rcases lives_back (h.base.bears i) hal hrow' hl' with ⟨old', hold', hlive'⟩ | ⟨made', hans', hlive'⟩
    · exact h.one c d old old' hold hold' hlive hlive' (hopen c row hrow hl hc) (hopen d row' hrow' hl' hd)
    · exact absurd ((hmade d row' made' hrow' hans' hlive' hd c old hold).symm.trans hlive) nofun
    · exact absurd ((hmade c row made hrow hans hlive hc d old' hold').symm.trans hlive') nofun
    · have hanswer := hans.symm.trans hans'
      injection hanswer with hst hr
      cases hst
      exact Option.some.inj hr

end Watched

/-! ## Runs -/

section runs

variable {ι : Type} [DecidableEq ι]

abbrev phases (hs : ι → Handler) (s : Service ι) : ι → Phase :=
  protocol.phases (fun i => start (hs i)) s

/-- The customer is never on two live calls, and every offer that finished as a
duplicate left its call CANCELLED. -/
def Deduplicates (w : World) (hs : ι → Handler) (schedule : List ι) (tenantId address : Nat) : Prop :=
  (∀ n, ((Service.spawn w hs).run (schedule.take n)).state.OneInbound tenantId address) ∧
    ∀ n i c, let s := (Service.spawn w hs).run (schedule.take n)
      (s.threads i).Finished → records c (phases hs s i) →
        ∃ row, s.state.call c = some row ∧ row.status = .terminated ∧
          row.terminationReason = some .cancelled

theorem oneInbound_run (w : World) (hs : ι → Handler) (ho : ∀ i, Offers (hs i))
    (hone : w.OneInbound tenantId address) (schedule : List ι)
    (hok : ∀ m ∈ (Service.spawn w hs).moves schedule,
      (m.1.next m.2).any (Doubles m.1.state tenantId address) = false) :
    ((Service.spawn w hs).run schedule).state.OneInbound tenantId address := by
  have hinv := Protocol.invariant Stmt.exec
    (fun (w : World) (ph : ι → Phase) => Invariant w ph ∧ w.OneInbound tenantId address)
    (fun cfg i => (Service.next cfg i).any (Doubles cfg.state tenantId address) = false)
    (fun cfg i s k hp hok hal h => by
      have hlawful := h.1.lawful_of_allows hal
      rw [Service.next_eq_some.mpr ⟨k, hp⟩] at hok
      exact ⟨h.1.step hlawful, oneInbound_exec (h.1.bears i) hlawful h.2 hok⟩)
    (Protocol.conforms_spawn (s := w) fun i => follows (ho i)) ⟨Invariant.init w hs, hone⟩ hok
  exact hinv.1.2.2

theorem cancelled_of_finished (w : World) (hs : ι → Handler) (ho : ∀ i, Offers (hs i))
    (schedule : List ι) {i : ι} {c : Nat}
    (hfin : (((Service.spawn w hs).run schedule).threads i).Finished)
    (hrec : records c (phases hs ((Service.spawn w hs).run schedule) i)) :
    ∃ row, ((Service.spawn w hs).run schedule).state.call c = some row ∧ row.status = .terminated ∧
      row.terminationReason = some .cancelled := by
  have hinv := Protocol.invariant Stmt.exec Invariant (fun _ _ => True)
    (fun cfg i s k hp _ hal h => h.step (h.lawful_of_allows hal))
    (Protocol.conforms_spawn (s := w) fun i => follows (ho i)) (Invariant.init w hs)
    (fun m (_ : m ∈ (Service.spawn w hs).moves schedule) => trivial)
  exact hinv.1.2.cancelled_of_done (hinv.1.1.final_of_finished hfin) hrec

/-- A run keeps each customer on one live call exactly if no row is inserted
beside a live one. -/
theorem deduplicates_iff (w : World) (hs : ι → Handler) (ho : ∀ i, Offers (hs i))
    (tenantId address : Nat) (hone : w.OneInbound tenantId address) (schedule : List ι) :
    Deduplicates w hs schedule tenantId address ↔
      ∀ m ∈ (Service.spawn w hs).moves schedule,
        (m.1.next m.2).any (Doubles m.1.state tenantId address) = false := by
  constructor
  · rintro ⟨hone, -⟩ m hm
    rw [Bool.eq_false_iff]
    intro hdoubles
    obtain ⟨s, hs, hdoubles⟩ := (Option.any_eq_true _ _).mp hdoubles
    obtain ⟨k, hk⟩ := Service.next_eq_some.mp hs
    obtain ⟨n, hn⟩ := run_of_mem_moves Stmt.exec hm
    have hafter := hone n
    rw [Service.run, hn, step_call Stmt.exec hk] at hafter
    exact not_oneInbound_exec hdoubles hafter
  · intro hok
    exact ⟨fun n => oneInbound_run w hs ho hone _ fun m hm => hok m (mem_moves_of_take Stmt.exec hm),
      fun n i c hfin hrec => cancelled_of_finished w hs ho _ hfin hrec⟩

/-! ## In order -/

abbrev looking (s : Service ι) : ι → Look := looks.phases (fun _ => .unlooked) s

/-- A call some offer still at work inserted as a record, and has not ended yet. -/
def BeingRecorded (s : Service ι) (c : Nat) : Prop :=
  ∃ i, ¬ (s.threads i).Finished ∧ looking s i = .recording c

/-- Apart from the records offers are still writing, the customer is never on
two live calls, and every duplicate an offer has recorded is CANCELLED. -/
structure Settles (w : World) (hs : ι → Handler) (schedule : List ι) (tenantId address : Nat) : Prop where
  one : ∀ n c d row row', let s := (Service.spawn w hs).run (schedule.take n)
    s.state.call c = some row → s.state.call d = some row' → row.livesFor tenantId address = true →
      row'.livesFor tenantId address = true → ¬ BeingRecorded s c → ¬ BeingRecorded s d → c = d
  cancelled : ∀ n i c, let s := (Service.spawn w hs).run (schedule.take n)
    (s.threads i).Finished → records c (phases hs s i) →
      ∃ row, s.state.call c = some row ∧ row.status = .terminated ∧ row.terminationReason = some .cancelled

/-- The two protocols of an offer, side by side. -/
abbrev both : Protocol Stmt.Res := protocol.prod looks

theorem follows_both {h : Handler} (ho : Offers h) :
    h.code.Follows both (start h, .unlooked) fun _ pq => pq.1.Done ∧ pq.2.Settled :=
  (follows ho).prod (offers_looks ho)

variable {w : World} {hs : ι → Handler}

omit [DecidableEq ι] in
theorem watched_init (hone : w.OneInbound tenantId address)
    (hbegun : ∀ c row, w.call c = some row → row.direction = .inbound → row.status ≠ .initiated) :
    Watched tenantId address w fun i => (start (hs i), Look.unlooked) where
  base := Invariant.init w hs
  placed i := by rintro (h | ⟨c, h⟩) <;> cases h
  begun := hbegun
  vain i := nofun
  one c d row row' hc hd hl hl' _ _ := hone c d row row' hc hd hl hl'

omit [DecidableEq ι] in
theorem looking_eq (s : Service ι) (i : ι) :
    (both.phases (fun i => (start (hs i), Look.unlooked)) s i).2 = looking s i :=
  congrArg Prod.snd (Protocol.phase_prod protocol looks (start (hs i), Look.unlooked) (s.threads i).seen)

/-- Throughout a run in which nobody inserts a row of the customer's between
another's look and row, the looks hold good. -/
theorem watched_run (ho : ∀ i, Offers (hs i)) (hone : w.OneInbound tenantId address)
    (hbegun : ∀ c row, w.call c = some row → row.direction = .inbound → row.status ≠ .initiated)
    {schedule : List ι}
    (hord : ∀ m ∈ (Service.spawn w hs).moves schedule, ∀ j, j ≠ m.2 →
      looking m.1 j = .looked tenantId (some address) →
        (m.1.next m.2).any (Inserts m.1.state tenantId address) = false) :
    let init := fun i => (start (hs i), Look.unlooked)
    let s := (Service.spawn w hs).run schedule
    (both.Conforms (fun pq => pq.1.Done ∧ pq.2.Settled) init s ∧
        Watched tenantId address s.state (both.phases init s)) ∧
      ∀ m ∈ (Service.spawn w hs).moves schedule,
        both.Conforms (fun pq => pq.1.Done ∧ pq.2.Settled) init m.1 ∧
          Watched tenantId address m.1.state (both.phases init m.1) := by
  refine Protocol.invariant Stmt.exec (P := both) (fun w ph => Watched tenantId address w ph)
    (fun cfg i => ∀ j, j ≠ i → looking cfg j = .looked tenantId (some address) →
      (Service.next cfg i).any (Inserts cfg.state tenantId address) = false)
    (fun cfg i s k hp hok hal h => ?_)
    (Protocol.conforms_spawn (s := w) fun i => follows_both (ho i)) (watched_init hone hbegun) hord
  refine h.step (h.lawful hal.1) hal.2 fun j hj hlooked => ?_
  have hins := hok j hj ((looking_eq cfg j).symm.trans hlooked)
  rwa [Service.next_eq_some.mpr ⟨k, hp⟩] at hins

/-- If no offer of the customer inserts a row between another's look and row,
the customer is on one call but for the records being written, and on one call
throughout exactly if no record is inserted beside a live call. -/
theorem deduplicates_of_ordered (w : World) (hs : ι → Handler) (ho : ∀ i, Offers (hs i))
    (tenantId address : Nat) (hone : w.OneInbound tenantId address)
    (hbegun : ∀ c row, w.call c = some row → row.direction = .inbound → row.status ≠ .initiated)
    (schedule : List ι)
    (hord : ∀ m ∈ (Service.spawn w hs).moves schedule, ∀ j, j ≠ m.2 →
      looking m.1 j = .looked tenantId (some address) →
        (m.1.next m.2).any (Inserts m.1.state tenantId address) = false) :
    Settles w hs schedule tenantId address ∧
      (Deduplicates w hs schedule tenantId address ↔
        ∀ m ∈ (Service.spawn w hs).moves schedule, looking m.1 m.2 = .unlooked →
          (m.1.next m.2).any (Doubles m.1.state tenantId address) = false) := by
  refine ⟨⟨fun n c d row row' hc hd hl hl' hrc hrd => ?_, fun n i c hfin hrec =>
    cancelled_of_finished w hs ho _ hfin hrec⟩, fun h m hm _ => ?_, fun h => ?_⟩
  · obtain ⟨⟨hconf, hw⟩, -⟩ := watched_run ho hone hbegun fun m hm => hord m (mem_moves_of_take Stmt.exec hm)
    refine hw.one c d row row' hc hd hl hl' (fun i hi => hrc ⟨i, fun hfin => ?_, ?_⟩)
      fun i hi => hrd ⟨i, fun hfin => ?_, ?_⟩
    · exact (hconf.final_of_finished hfin).2 c hi
    · exact (looking_eq _ i).symm.trans hi
    · exact (hconf.final_of_finished hfin).2 d hi
    · exact (looking_eq _ i).symm.trans hi
  · exact (deduplicates_iff w hs ho tenantId address hone schedule).mp h m hm
  · refine (deduplicates_iff w hs ho tenantId address hone schedule).mpr fun m hm => ?_
    rw [Bool.eq_false_iff]
    intro hdoubles
    obtain ⟨s, hs', hd⟩ := (Option.any_eq_true _ _).mp hdoubles
    by_cases hun : looking m.1 m.2 = .unlooked
    · exact absurd (hdoubles.symm.trans (h m hm hun)) nofun
    · obtain ⟨k, hk⟩ := Service.next_eq_some.mp hs'
      obtain ⟨hconf, hw⟩ := (watched_run ho hone hbegun hord).2 m hm
      have hal := hconf.allows hk
      cases s with
      | createCall row =>
        simp only [Doubles, Bool.and_eq_true, Bool.not_eq_true', Store.Table.any_eq_true] at hd
        obtain ⟨⟨-, hl⟩, c, row', hrow', hl'⟩ := hd
        have hdead := hw.dead_of_insert (hw.lawful hal.1) hal.2 hl
          (fun hp => hun ((looking_eq _ _).symm.trans hp)) hrow'
        exact absurd (hdead.symm.trans hl') nofun
      | _ => cases hd

end runs

/-! ## The same caller twice, milliseconds apart -/

/-- One queue, with nobody in it. -/
def idleQueue : World := { queues := fun q => if q = 1 then some {} else none }

def inboundLine : Line := { id := 1, inboundQueueId := some 1 }

/-- The first offer is rejected by the consumer, or not. -/
def retried (rejected : Bool) : Fin 2 → Handler
  | 0 => .inboundCall inboundLine { providerCallId := 7, customerAddress := some 5 }
      { lookupRejects := rejected }
  | 1 => .inboundCall inboundLine { providerCallId := 8, customerAddress := some 5 } {}

theorem offers_retried (rejected : Bool) : ∀ i, Offers (retried rejected i)
  | 0 | 1 => trivial

/-- The second offer comes while the first one's call rings: it is recorded,
beside it. Where the consumer rejected the first, the second rings alone. -/
theorem deduplicates_retried :
    let inOrder := List.replicate 24 (0 : Fin 2) ++ List.replicate 24 1
    (Settles idleQueue (retried false) inOrder 1 5 ∧ ¬ Deduplicates idleQueue (retried false) inOrder 1 5) ∧
      Deduplicates idleQueue (retried true) inOrder 1 5 := by
  have hempty : ∀ c row, idleQueue.call c = some row → row.direction = .inbound → row.status ≠ .initiated :=
    fun _ _ h => nomatch h
  have hrung := deduplicates_of_ordered idleQueue (retried false) (offers_retried false) 1 5
    (fun _ _ _ _ h => nomatch h) hempty (List.replicate 24 (0 : Fin 2) ++ List.replicate 24 1) (by decide)
  have hrejected := deduplicates_of_ordered idleQueue (retried true) (offers_retried true) 1 5
    (fun _ _ _ _ h => nomatch h) hempty (List.replicate 24 (0 : Fin 2) ++ List.replicate 24 1) (by decide)
  exact ⟨⟨hrung.1, fun h => absurd (hrung.2.mp h) (by decide)⟩, hrejected.2.mpr (by decide)⟩

/-- Both offers look before either creates its call: both calls ring on. -/
theorem not_deduplicates :
    ¬ Deduplicates idleQueue (retried false)
      (List.replicate 6 0 ++ List.replicate 24 1 ++ List.replicate 24 0) 1 5 := by
  rintro ⟨hone, -⟩
  exact absurd (hone 54 1 2 _ _ rfl rfl rfl rfl) (by decide)

end OneInbound

end Callio
