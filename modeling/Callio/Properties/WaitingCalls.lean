import Callio.Persistence.CallFinders

/-! Which waiting calls the sweeps reach. Four queries divide the waiting calls
between them, each leaving to another what it excludes; a row is reached if,
left alone, some query selects it from some time on. -/

namespace Callio

open Sql

/-- An inbound call ringing outside the IVR. -/
structure CallRow.Waiting (c : CallRow) : Prop where
  inbound : c.direction = .inbound
  ringing : c.status = .ringing
  state : c.state = none ∨ c.state = some .queue
  rang : c.ringingAt.isSome

/-- One of the four sweeps selects the row. -/
def World.sweeps (w : World) (c : CallRow) : Bool :=
  (findExpiredOffers w c).holds || (findExpiredWaits w c).holds ||
    (findStuckIvrTransferredCalls w c).holds || (findAllStuckCalls w 1 c).holds

/-- Left unchanged, the row is selected from some time on. -/
def World.Reached (w : World) (c : CallRow) : Prop :=
  ∃ t₀, ∀ t ≥ t₀, { w with now := t }.sweeps c = true

def World.hasMaxWait (w : World) (c : CallRow) : Bool :=
  (w.queueOf c).any (·.maxWaitSeconds.isSome)

def World.passesOffersOn (w : World) (c : CallRow) : Bool :=
  (w.queueOf c).any QueueRow.passesOffersOn

/-- The columns on which some sweep's time limit runs, by who has the call:
nobody, an agent it is ringing, or an agent who began to answer. -/
def World.covered (w : World) (c : CallRow) : Bool :=
  if c.agentId.isNone then w.hasMaxWait c || c.state = some .queue
  else if c.offeredAt.isSome then
    w.passesOffersOn c || w.hasMaxWait c || c.ivrFlowId.isNone || c.state = some .queue
  else
    if c.ivrFlowId.isNone then !w.hasMaxWait c
    else c.state = some .queue && !w.passesOffersOn c

section sweeps

variable {w : World} {c : CallRow}

theorem CallRow.Waiting.outsideIvr (h : c.Waiting) : (outsideIvr c).holds = true := by
  rcases h.state with hs | hs <;> simp [Callio.outsideIvr, hs]

theorem CallRow.Waiting.not_ended (h : c.Waiting) : c.ended = false := by
  simp [CallRow.ended, h.ringing, CallStatus.active]

theorem CallRow.Waiting.state_not_ivr (h : c.Waiting) :
    (∃ s, c.state = some s ∧ s ≠ .ivr) ↔ c.state = some .queue := by
  rcases h.state with hs | hs <;> simp [hs]

theorem CallRow.Waiting.state_not_queue (h : c.Waiting) :
    ¬ ∃ s, c.state = some s ∧ s ≠ .queue := by
  rcases h.state with hs | hs <;> simp [hs]

theorem holds_findExpiredOffers (h : c.Waiting) :
    (findExpiredOffers w c).holds = true ↔
      (c.agentId.isSome ∧ w.passesOffersOn c) ∧ ∃ t ∈ c.offeredAt,
        t + (w.queueColumn c (·.ringTimeoutSeconds)).getD 0 * second ≤ sqlNow w.now := by
  cases ho : c.offeredAt <;>
    simp [findExpiredOffers, h.ringing, h.inbound, h.outsideIvr, holds_dueSince,
      World.passesOffersOn, ho]

theorem holds_findExpiredWaits (h : c.Waiting) :
    (findExpiredWaits w c).holds = true ↔
      ((c.agentId = none ∨ c.offeredAt.isSome) ∧ w.hasMaxWait c) ∧
        (c.queuedAt.or (c.ringingAt.or (some c.createdAt))).getD 0 +
          (w.queueColumn c (·.maxWaitSeconds)).getD 0 * second ≤ sqlNow w.now := by
  obtain ⟨t, ht⟩ := Option.isSome_iff_exists.mp h.rang
  cases hq : c.queuedAt <;>
    simp [findExpiredWaits, h.ringing, h.inbound, h.outsideIvr, holds_dueSince,
      World.hasMaxWait, ht, hq]

theorem holds_findStuckIvrTransferredCalls (h : c.Waiting) :
    (findStuckIvrTransferredCalls w c).holds = true ↔
      (c.state = some .queue ∧ c.agentId.isSome ∧ c.ivrFlowId.isSome ∧ w.passesOffersOn c = false) ∧
        c.ringingAt.getD 0 + ((w.flowOf c).bind (·.agentRingTimeout)).getD 60 * second <
          sqlNow w.now := by
  obtain ⟨t, ht⟩ := Option.isSome_iff_exists.mp h.rang
  simp [findStuckIvrTransferredCalls, h.ringing, h.inbound, holds_beforeInterval, ht,
    queueExists_eq_false, World.passesOffersOn]
  tauto

theorem holds_findAllStuckCalls (h : c.Waiting) :
    (findAllStuckCalls w 1 c).holds = true ↔
      ((c.agentId.isSome ∨ c.state = some .queue) ∧ (c.agentId = none ∨ c.ivrFlowId = none) ∧
        w.hasMaxWait c = false) ∧ c.ringingAt.getD 0 + minute < w.now := by
  obtain ⟨t, ht⟩ := Option.isSome_iff_exists.mp h.rang
  have hauto := holds_not_awaitingAutoAccept c
  have hivr := holds_not_ivrTransferred c
  have hmax := holds_not_maxWaitRuns w c
  simp only [h.inbound, h.state_not_ivr, h.state_not_queue, ne_eq, not_true_eq_false, false_or,
    or_false] at hauto hivr hmax
  simp only [findAllStuckCalls, Truth.holds_and, Truth.holds_or, Bool.and_eq_true,
    Bool.or_eq_true, hauto, hivr, hmax]
  simp [h.ringing, h.not_ended, holds_olderThan, ht, endedInProgress, World.hasMaxWait]
  tauto

/-- The latest of the four time limits that may run for the row. -/
def World.lastLimit (w : World) (c : CallRow) : Nat :=
  c.offeredAt.getD 0 + (w.queueColumn c (·.ringTimeoutSeconds)).getD 0 * second +
    (c.queuedAt.or (c.ringingAt.or (some c.createdAt))).getD 0 +
    (w.queueColumn c (·.maxWaitSeconds)).getD 0 * second +
    c.ringingAt.getD 0 + ((w.flowOf c).bind (·.agentRingTimeout)).getD 60 * second + minute

theorem covered_of_sweeps (h : c.Waiting) (hs : w.sweeps c = true) : w.covered c = true := by
  simp only [World.sweeps, Bool.or_eq_true, holds_findExpiredOffers h, holds_findExpiredWaits h,
    holds_findStuckIvrTransferredCalls h, holds_findAllStuckCalls h] at hs
  unfold World.covered
  rcases hs with ((⟨⟨ha, hp⟩, t, ht, _⟩ | ⟨⟨ha, hm⟩, _⟩) | ⟨⟨hq, ha, hi, hp⟩, _⟩) |
    ⟨⟨ha, hi, hm⟩, _⟩
  · cases h1 : c.agentId <;> simp_all
  · cases h1 : c.agentId <;> simp_all
  · cases h1 : c.agentId <;> cases h2 : c.ivrFlowId <;> simp_all
  · cases h1 : c.agentId <;> cases h2 : c.ivrFlowId <;> simp_all

theorem sweeps_of_covered (h : c.Waiting) (hc : w.covered c = true)
    (ht : w.lastLimit c < sqlNow w.now) : w.sweeps c = true := by
  have hnow := sqlNow_le w.now
  simp only [World.sweeps, Bool.or_eq_true, holds_findExpiredOffers h, holds_findExpiredWaits h,
    holds_findStuckIvrTransferredCalls h, holds_findAllStuckCalls h]
  unfold World.lastLimit at ht
  unfold World.covered at hc
  cases ha : c.agentId with
  | none =>
    -- nobody has it: the queue's max wait, or the stuck-call sweep for a call in state QUEUE
    simp only [ha, Option.isNone_none, if_true, Bool.or_eq_true, decide_eq_true_eq] at hc
    by_cases hm : w.hasMaxWait c = true
    · left; left; right
      exact ⟨⟨.inl rfl, hm⟩, by omega⟩
    · right
      refine ⟨⟨.inr (hc.resolve_left hm), .inl rfl, by simpa using hm⟩, by omega⟩
  | some a =>
    simp only [ha, Option.isNone_some, Bool.false_eq_true, if_false] at hc
    cases ho : c.offeredAt with
    | some o =>
      -- it rings an agent: their ring timeout, the max wait, else a sweep by origin
      simp only [ho, Option.isSome_some, if_true, Bool.or_eq_true, decide_eq_true_eq] at hc
      by_cases hp : w.passesOffersOn c = true
      · left; left; left
        exact ⟨⟨by simp, hp⟩, o, rfl, by simp only [ho, Option.getD_some] at ht; omega⟩
      · by_cases hm : w.hasMaxWait c = true
        · left; left; right
          exact ⟨⟨.inr rfl, hm⟩, by omega⟩
        · cases hi : c.ivrFlowId with
          | none =>
            right
            exact ⟨⟨.inl rfl, .inr rfl, by simpa using hm⟩, by omega⟩
          | some i =>
            left; right
            simp only [hp, hm, hi, Option.isNone_some, Bool.false_eq_true, false_or] at hc
            exact ⟨⟨hc, rfl, rfl, by simpa using hp⟩, by omega⟩
    | none =>
      -- an agent began to answer: the stuck-call sweep, or the IVR sweep
      simp only [ho, Option.isSome_none, Bool.false_eq_true, if_false] at hc
      cases hi : c.ivrFlowId with
      | none =>
        right
        exact ⟨⟨.inl rfl, .inr rfl, by simpa [hi] using hc⟩, by omega⟩
      | some i =>
        left; right
        simp only [hi, Option.isNone_some, Bool.false_eq_true, if_false, Bool.and_eq_true,
          decide_eq_true_eq, Bool.not_eq_true'] at hc
        exact ⟨⟨hc.1, rfl, rfl, hc.2⟩, by omega⟩

/-- Exactly the covered rows are reached. -/
theorem reached_iff_covered (w : World) (c : CallRow) (h : c.Waiting) :
    w.Reached c ↔ w.covered c = true := by
  constructor
  · rintro ⟨t₀, ht⟩
    exact covered_of_sweeps (w := { w with now := t₀ }) h (ht t₀ (Nat.le_refl _))
  · intro hc
    refine ⟨w.lastLimit c + second, fun t ht => ?_⟩
    have hnow := lt_sqlNow_add t
    have hlast : w.lastLimit c < sqlNow t := by omega
    exact sweeps_of_covered (w := { w with now := t }) h hc hlast

/-- A covered row: ringing an agent of a queue without a ring timeout. -/
theorem reached_iff_covered_ringing :
    let c : CallRow :=
      { direction := .inbound, status := .ringing, agentId := some 1, ringingAt := some 0,
        offeredAt := some 0 }
    ({} : World).Reached c :=
  (reached_iff_covered {} _ ⟨rfl, rfl, .inl rfl, rfl⟩).mpr (by decide)

/-- A call just arrived in a queue without a max wait, with no agent free. -/
def unassignedCall : CallRow :=
  { direction := .inbound, status := .ringing, queueId := some 1, ringingAt := some 0,
    queuedAt := some 0 }

def unlimitedQueue : World := { queues := fun q => if q = 1 then some {} else none }

theorem unassignedCall_waiting : unassignedCall.Waiting := ⟨rfl, rfl, .inl rfl, rfl⟩

/-- No sweep ever selects it: `NOT (.. AND state = 'IVR')` is unknown of a
NULL state. -/
theorem not_all_waiting_reached :
    ¬ ∀ (w : World) (c : CallRow), c.Waiting → w.Reached c := by
  intro h
  obtain ⟨t₀, ht⟩ := h unlimitedQueue unassignedCall unassignedCall_waiting
  have hc := covered_of_sweeps (w := { unlimitedQueue with now := t₀ }) unassignedCall_waiting
    (ht t₀ (Nat.le_refl _))
  simp [World.covered, World.hasMaxWait, World.queueOf, unassignedCall, unlimitedQueue] at hc

end sweeps

end Callio
