import Callio.Persistence.Statements

/-! `CallParticipantRepository`: who is in a call, and when they joined and left.
A row is open until it says when its participant left. `tenant_id` is its call's,
and `media_node` stays NULL. -/

namespace Callio

inductive ParticipantKind
  | customer | agent | supervisor
  deriving DecidableEq, Repr

inductive LeaveReason
  | ended | transferred | monitorStopped
  deriving DecidableEq, Repr

/-- Whose row it is: a customer's has no agent. -/
structure Participant where
  callId : Nat
  kind : ParticipantKind
  agentId : Option Nat := none
  deriving DecidableEq, Repr

structure ParticipantRow extends Participant where
  deviceId : Option Nat := none
  joinedAt : Nat
  leftAt : Option Nat := none
  leaveReason : Option LeaveReason := none
  deriving DecidableEq, Repr

namespace ParticipantRow

def isOpen (row : ParticipantRow) : Bool := row.leftAt.isNone

/-- The row is open, and the participant's. -/
def opens (row : ParticipantRow) (p : Participant) : Bool := row.isOpen && row.toParticipant = p

/-- The row is open, and of the call. -/
def opensIn (row : ParticipantRow) (callId : Nat) : Bool := row.isOpen && row.callId = callId

def close (reason : LeaveReason) (at_ : Nat) (row : ParticipantRow) : ParticipantRow :=
  { row with leftAt := some at_, leaveReason := some reason }

end ParticipantRow

/-- `call_participants`, in insertion order. -/
abbrev Participants := List ParticipantRow

namespace CallParticipantRepository

variable (rows : Participants)

/-- Opens a row unless this participant already has an open one: one statement,
whose inner SELECT locks what it reads. -/
def join (p : Participant) (deviceId : Option Nat) (at_ : Nat) : Participants :=
  if rows.any (·.opens p) then rows else rows ++ [{ p with deviceId, joinedAt := at_ }]

/-- Closes this participant's open row. -/
def leave (p : Participant) (reason : LeaveReason) (at_ : Nat) : Participants :=
  rows.map fun row => if row.opens p then row.close reason at_ else row

/-- Closes every open row of the call (it ended). -/
def leaveAll (callId : Nat) (reason : LeaveReason) (at_ : Nat) : Participants :=
  rows.map fun row => if row.opensIn callId then row.close reason at_ else row

def setDevice (p : Participant) (deviceId : Option Nat) : Participants :=
  rows.map fun row => if row.opens p then { row with deviceId } else row

/-- The agents of `findByCall`, of rows open or closed. -/
def agentsOf (callId : Nat) : List Nat :=
  (rows.filter fun row => row.callId = callId && row.kind = .agent).filterMap (·.agentId)

end CallParticipantRepository

/-! ## At most one open row each -/

/-- No two open rows are the same participant's. -/
def Participants.OneEach (rows : Participants) : Prop :=
  rows.Pairwise fun row row' => ¬ (row.isOpen = true ∧ row'.isOpen = true ∧ row.toParticipant = row'.toParticipant)

/-- Nobody is in the call. -/
def Participants.NoneIn (rows : Participants) (callId : Nat) : Prop :=
  rows.any (·.opensIn callId) = false

instance (rows : Participants) (callId : Nat) : Decidable (rows.NoneIn callId) :=
  inferInstanceAs (Decidable (_ = _))

namespace Participants

theorem noneIn_iff {rows : Participants} {callId : Nat} :
    rows.NoneIn callId ↔ ∀ row ∈ rows, row.isOpen = true → row.callId ≠ callId := by
  simp [NoneIn, ParticipantRow.opensIn]

/-- The change opens no row, and leaves whose each one is. -/
def Shuts (f : ParticipantRow → ParticipantRow) : Prop :=
  ∀ row, (f row).toParticipant = row.toParticipant ∧ ((f row).isOpen = true → row.isOpen = true)

theorem Shuts.of_ite {p : ParticipantRow → Bool} {g : ParticipantRow → ParticipantRow} (hg : Shuts g) :
    Shuts fun row => if p row then g row else row := by
  intro row
  dsimp only
  split
  · exact hg row
  · exact ⟨rfl, id⟩

theorem shuts_close (reason : LeaveReason) (at_ : Nat) : Shuts (.close reason at_) :=
  fun _ => ⟨rfl, nofun⟩

theorem OneEach.map {rows : Participants} (h : rows.OneEach) {f : ParticipantRow → ParticipantRow} (hf : Shuts f) :
    OneEach (rows.map f) := by
  refine List.pairwise_map.mpr (List.Pairwise.imp ?_ h)
  rintro row row' hne ⟨hopen, hopen', hsame⟩
  rw [(hf row).1, (hf row').1] at hsame
  exact hne ⟨(hf row).2 hopen, (hf row').2 hopen', hsame⟩

theorem NoneIn.map {rows : Participants} {callId : Nat} (h : rows.NoneIn callId)
    {f : ParticipantRow → ParticipantRow} (hf : Shuts f) : NoneIn (rows.map f) callId := by
  rw [noneIn_iff] at h ⊢
  intro row' hrow' hopen
  obtain ⟨row, hrow, rfl⟩ := List.mem_map.mp hrow'
  rw [(hf row).1]
  exact h row hrow ((hf row).2 hopen)

open CallParticipantRepository

variable {rows : Participants} {p : Participant} {deviceId : Option Nat} {callId at_ : Nat} {reason : LeaveReason}

/-- A join opens a row only where the participant has none. -/
theorem OneEach.join (h : rows.OneEach) : (join rows p deviceId at_).OneEach := by
  unfold CallParticipantRepository.join
  split
  · exact h
  · rename_i hnone
    refine List.pairwise_append.mpr ⟨h, List.pairwise_singleton _ _, ?_⟩
    rintro row hrow row' hrow' ⟨hopen, -, hsame⟩
    obtain rfl := List.mem_singleton.mp hrow'
    refine hnone (List.any_eq_true.mpr ⟨row, hrow, ?_⟩)
    simp [ParticipantRow.opens, hopen, hsame]

/-- Who joins another call is not in this one. -/
theorem NoneIn.join (h : rows.NoneIn callId) (hp : p.callId ≠ callId) :
    (join rows p deviceId at_).NoneIn callId := by
  unfold CallParticipantRepository.join
  split
  · exact h
  · rw [noneIn_iff] at h ⊢
    intro row hrow hopen
    rcases List.mem_append.mp hrow with hrow | hrow
    · exact h row hrow hopen
    · obtain rfl := List.mem_singleton.mp hrow
      exact hp

theorem shuts_leave : Shuts fun row => if row.opens p then row.close reason at_ else row :=
  .of_ite (shuts_close reason at_)

theorem shuts_leaveAll : Shuts fun row => if row.opensIn callId then row.close reason at_ else row :=
  .of_ite (shuts_close reason at_)

theorem shuts_setDevice : Shuts fun row => if row.opens p then { row with deviceId } else row :=
  .of_ite fun _ => ⟨rfl, id⟩

/-- The closing sweep leaves nobody in. -/
theorem noneIn_leaveAll : (leaveAll rows callId reason at_).NoneIn callId := by
  rw [noneIn_iff]
  intro row' hrow' hopen hcall
  obtain ⟨row, -, rfl⟩ := List.mem_map.mp hrow'
  split at hopen
  · cases hopen
  · rename_i hout
    refine hout ?_
    rw [if_neg hout] at hcall
    simp [ParticipantRow.opensIn, hopen, hcall]

end Participants

end Callio
