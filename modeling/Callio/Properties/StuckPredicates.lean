import Callio.Core.CallQuery

/-! The three statements of "this call is stuck": the periodic sweep's, the one
scoped to an agent, and the board's. They differ on inbound calls that ring an
agent, where only the periodic sweep leaves a queue's max wait alone. -/

namespace Callio

open Sql

/-! ## The clauses without SQL's unknown -/

section clauses

variable (w : World) (c : CallRow)

/-- The call has been ringing for more than `m` minutes. -/
def World.rung (m : Nat) : Prop :=
  c.status = .ringing ∧ c.ringingAt.any (fun t => t + m * minute < w.now) = true

/-- An inbound call in a queue with its own `max_wait_seconds`. -/
def World.onQueueSchedule : Prop :=
  c.direction = .inbound ∧ (w.queueOf c).any (·.maxWaitSeconds.isSome) = true

def CallRow.EndedInProgress : Prop := c.status = .inProgress ∧ c.terminationReason.isSome

/-- The row is not an IVR transfer for SQL: with an IVR flow and no state it
is neither one nor not one. -/
def CallRow.notIvrTransfer : Prop :=
  c.direction ≠ .inbound ∨ c.ivrFlowId = none ∨ ∃ s, c.state = some s ∧ s ≠ .queue

theorem holds_endedInProgress : (endedInProgress c).holds = true ↔ c.EndedInProgress := by
  simp [endedInProgress, CallRow.EndedInProgress]

theorem holds_not_scopedIvrTransfer :
    (((directionIs c .inbound).and (isNotNull c.ivrFlowId)).and (stateIs c .queue)).not.holds = true
      ↔ c.notIvrTransfer := by
  simp [CallRow.notIvrTransfer, Truth.and_eq_false, stateIs_eq_false, directionIs_eq_false,
    isNotNull_eq_false, or_assoc]

theorem not_ended_of_ringing {c : CallRow} (h : c.status = .ringing) : c.ended = false := by
  simp [CallRow.ended, h, CallStatus.active]

theorem not_ended_of_inProgress {c : CallRow} (h : c.status = .inProgress) : c.ended = false := by
  simp [CallRow.ended, h, CallStatus.active]

theorem holds_findStuckCallsForUser (a m : Nat) :
    (findStuckCallsForUser w a m c).holds = true ↔
      c.agentId = some a ∧ (w.rung c m ∧ c.notIvrTransfer ∨ c.EndedInProgress) := by
  simp only [findStuckCallsForUser, Truth.holds_and, Truth.holds_or, Bool.and_eq_true,
    Bool.or_eq_true, holds_not_scopedIvrTransfer, holds_endedInProgress, holds_statusIs,
    holds_olderThan, holds_notFinal, eq, holds_relate, decide_eq_true_eq, Bool.not_eq_true',
    World.rung]
  constructor
  · rintro ⟨⟨⟨_, hx, _, hy, rfl⟩, h⟩, _⟩
    cases hy
    exact ⟨hx, h⟩
  · rintro ⟨ha, h⟩
    refine ⟨⟨⟨a, ha, a, rfl, rfl⟩, h⟩, ?_⟩
    rcases h with ⟨⟨hs, _⟩, _⟩ | ⟨hs, _⟩
    · exact not_ended_of_ringing hs
    · exact not_ended_of_inProgress hs

/-- With an agent on the row, the sweep's exclusions are the scoped query's
and the queue's schedule. -/
theorem holds_findAllStuckCalls_assigned (m : Nat) (ha : c.agentId.isSome) :
    (findAllStuckCalls w m c).holds = true ↔
      w.rung c m ∧ c.notIvrTransfer ∧ ¬ w.onQueueSchedule c ∨ c.EndedInProgress := by
  have hauto : (awaitingAutoAccept c).not.holds = true :=
    (holds_not_awaitingAutoAccept c).mpr (.inr (.inl ha))
  have hivr : (ivrTransferred c).not.holds = true ↔ c.notIvrTransfer := by
    rw [holds_not_ivrTransferred, CallRow.notIvrTransfer]
    have hne : c.agentId ≠ none := Option.isSome_iff_ne_none.mp ha
    simp only [hne, false_or]
  have hmax : (w.maxWaitRuns c).not.holds = true ↔ ¬ w.onQueueSchedule c := by
    rw [holds_not_maxWaitRuns, World.onQueueSchedule, not_and_or, Bool.not_eq_true]
  simp only [findAllStuckCalls, Truth.holds_and, Truth.holds_or, Bool.and_eq_true,
    Bool.or_eq_true, hauto, hivr, hmax, holds_endedInProgress, holds_statusIs, holds_olderThan,
    holds_notFinal, decide_eq_true_eq, Bool.not_eq_true', World.rung, and_true]
  constructor
  · rintro ⟨⟨⟨hr, hi⟩, hq⟩ | h, _⟩
    · exact .inl ⟨hr, hi, hq⟩
    · exact .inr h
  · rintro (⟨hr, hi, hq⟩ | h)
    · exact ⟨.inl ⟨⟨hr, hi⟩, hq⟩, not_ended_of_ringing hr.1⟩
    · exact ⟨.inr h, not_ended_of_inProgress h.1⟩

theorem holds_findAllStuckCalls_of_endedInProgress (m : Nat) (h : c.EndedInProgress) :
    (findAllStuckCalls w m c).holds = true := by
  simp only [findAllStuckCalls, Truth.holds_and, Truth.holds_or, Bool.and_eq_true,
    Bool.or_eq_true, holds_endedInProgress, holds_notFinal, Bool.not_eq_true']
  exact ⟨.inr h, not_ended_of_inProgress h.1⟩

theorem lazyCleanup_ne_none :
    w.lazyCleanup c ≠ none ↔
      (w.rung c 1 ∧ c.state ≠ some .queue ∧ c.agentId.isSome) ∨ c.EndedInProgress := by
  unfold World.lazyCleanup World.rung CallRow.EndedInProgress
  rw [Nat.one_mul]
  split
  · rename_i h
    simp only [Bool.and_eq_true, decide_eq_true_eq] at h
    simp [h]
  · rename_i h
    simp only [Bool.and_eq_true, decide_eq_true_eq] at h
    split
    · rename_i hs
      simp [hs, Option.isSome_iff_ne_none]
    · rename_i hs
      simp only [hs, ne_eq, not_true_eq_false, false_and, or_false, false_iff]
      rintro ⟨⟨hr, ht⟩, hq, ha⟩
      exact h ⟨⟨⟨hr, by simpa using hq⟩, ha⟩, ht⟩

end clauses

/-! ## Agreement -/

/-- The scoped query finds what the sweep finds of the agent's calls, and the
board enqueues nothing the sweep would leave alone. -/
structure StuckPredicatesAgree (w : World) (c : CallRow) (agentId m : Nat) : Prop where
  forUser : (findStuckCallsForUser w agentId m c).holds = true ↔
    (findAllStuckCalls w m c).holds = true ∧ c.agentId = some agentId
  board : w.lazyCleanup c ≠ none → (findAllStuckCalls w 1 c).holds = true

/-- The queue's schedule is not running for a call the scoped query or the
board picks by its ringing time, and the board's call has a state if it came
from an IVR. -/
structure LeftToItsQueue (w : World) (c : CallRow) (agentId m : Nat) : Prop where
  forUser : c.agentId = some agentId → w.rung c m → w.onQueueSchedule c → ¬ c.notIvrTransfer
  board : c.agentId.isSome → w.rung c 1 → c.state ≠ some .queue →
    ¬ w.onQueueSchedule c ∧ c.notIvrTransfer

theorem stuckPredicatesAgree_iff (w : World) (c : CallRow) (agentId m : Nat) :
    StuckPredicatesAgree w c agentId m ↔ LeftToItsQueue w c agentId m := by
  constructor
  · rintro ⟨hu, hb⟩
    constructor
    · intro ha hr hq hi
      have hs := (hu.mp ((holds_findStuckCallsForUser w c agentId m).mpr ⟨ha, .inl ⟨hr, hi⟩⟩)).1
      rcases (holds_findAllStuckCalls_assigned w c m (by simp [ha])).mp hs with ⟨_, _, hn⟩ | he
      · exact hn hq
      · exact absurd (hr.1.symm.trans he.1) (by decide)
    · intro ha hr hs
      have hall := hb ((lazyCleanup_ne_none w c).mpr (.inl ⟨hr, hs, ha⟩))
      rcases (holds_findAllStuckCalls_assigned w c 1 ha).mp hall with ⟨_, hi, hn⟩ | he
      · exact ⟨hn, hi⟩
      · exact absurd (hr.1.symm.trans he.1) (by decide)
  · rintro ⟨hu, hb⟩
    constructor
    · rw [holds_findStuckCallsForUser]
      constructor
      · rintro ⟨ha, h⟩
        refine ⟨(holds_findAllStuckCalls_assigned w c m (by simp [ha])).mpr ?_, ha⟩
        rcases h with ⟨hr, hi⟩ | he
        · exact .inl ⟨hr, hi, fun hq => hu ha hr hq hi⟩
        · exact .inr he
      · rintro ⟨hs, ha⟩
        refine ⟨ha, ?_⟩
        rcases (holds_findAllStuckCalls_assigned w c m (by simp [ha])).mp hs with ⟨hr, hi, _⟩ | he
        · exact .inl ⟨hr, hi⟩
        · exact .inr he
    · intro hl
      rcases (lazyCleanup_ne_none w c).mp hl with ⟨hr, hs, ha⟩ | he
      · obtain ⟨hq, hi⟩ := hb ha hr hs
        exact (holds_findAllStuckCalls_assigned w c 1 ha).mpr (.inl ⟨hr, hi, hq⟩)
      · exact holds_findAllStuckCalls_of_endedInProgress w c 1 he

/-- A call ringing agent 7 for two minutes in a queue with a max wait. -/
def ringingInLimitedQueue : CallRow :=
  { direction := .inbound, status := .ringing, queueId := some 1, agentId := some 7,
    ringingAt := some 0, queuedAt := some 0, offeredAt := some 0 }

def limitedQueue : World :=
  { now := 2 * minute, queues := fun q => if q = 1 then some { maxWaitSeconds := some 300 } else none }

/-- The scoped query selects it, the sweep leaves it to its queue. -/
theorem stuckPredicates_differ :
    ¬ ∀ (w : World) (c : CallRow) (agentId m : Nat), StuckPredicatesAgree w c agentId m := by
  intro h
  have hu := (h limitedQueue ringingInLimitedQueue 7 1).forUser
  revert hu
  decide

end Callio
