import Callio.Conduct.Handlers
import Callio.Persistence.Effects

/-! Terminal statuses. A write guarded by the status it expects leaves an ended
call alone; two writes are not guarded, and decide from a row read earlier or
from an IVR session: `updateStatus` and the IVR transfer's `updateCallState`. -/

namespace Callio

open Concurrency

/-! ## Updates of an ended row -/

/-- The update gives a live status to a row of any status. -/
def CallUpdate.revives : CallUpdate → Bool
  | updateStatus status => status.active
  | updateCallState _ (some status) => status.active
  | _ => false

/-- The updates the handlers issue: no status is overwritten with a final one
but by the guarded writes of an end, and only a call already in the IVR, or a
new one, is in state IVR. -/
def CallUpdate.Issued : CallUpdate → Prop
  | updateStatus status => status.active
  | transitionStatus expected status => expected.active ∧ status.active
  | updateState state => state = some .active
  | updateCallState state status => state = some .queue ∧ status.any (·.active) ∨ state = none ∧ status = none
  | finalizeFromWebhook status _ _ => status = .terminated
  | _ => True

/-- What may become of an ended call's status. -/
def CallStatus.StaysEnded (before after : CallStatus) : Prop :=
  after = before ∨ before = .terminated ∧ after = .failed

theorem CallStatus.StaysEnded.trans {s t u : CallStatus} (h : s.StaysEnded t) (h' : t.StaysEnded u) :
    s.StaysEnded u := by
  rcases h with rfl | ⟨rfl, rfl⟩
  · exact h'
  · rcases h' with rfl | ⟨h, _⟩
    · exact .inr ⟨rfl, rfl⟩
    · cases h

theorem CallStatus.StaysEnded.ended {row row' : CallRow} (h : row.status.StaysEnded row'.status)
    (he : row.ended = true) : row'.ended = true := by
  rcases h with h | ⟨_, h⟩
  · simpa [CallRow.ended, h] using he
  · simp [CallRow.ended, h, CallStatus.active]

/-- An ended call has left the IVR. -/
def CallRow.LeftIvr (row : CallRow) : Prop := row.ended = true → row.state ≠ some .ivr

section updates

variable {u : CallUpdate} {row : CallRow} {now : Nat}

theorem CallRow.LeftIvr.set (h : row.LeftIvr) (hu : u.Issued) : (u.set now row).LeftIvr := by
  unfold CallRow.LeftIvr CallRow.ended at *
  cases u with
  | updateTimestamp field value => cases field <;> exact h
  | updateCallState state status =>
    rcases hu with ⟨rfl, hs⟩ | ⟨rfl, rfl⟩
    · cases status <;> simp_all [CallUpdate.set]
    · simp [CallUpdate.set]
  | markIvrAutoAccepted => simp [CallUpdate.set, CallStatus.active]
  | _ => simp_all [CallUpdate.set, CallUpdate.Issued]

theorem not_ended_of_active {row : CallRow} (h : row.status.active = true) : row.ended = false := by
  simp [CallRow.ended, h]

theorem staysEnded_set (h : row.LeftIvr) (he : row.ended = true) (hu : u.Issued)
    (hg : u.guard row = true) (hr : u.revives = false) :
    row.status.StaysEnded (u.set now row).status := by
  have hlive : ¬ row.status.active = true := fun ha => by simp [not_ended_of_active ha] at he
  cases u with
  | updateStatus status =>
    have hs : status.active = true := hu
    exact absurd hs (by simpa [CallUpdate.revives] using hr)
  | transitionStatus expected status =>
    have hs : row.status = expected := by simpa [CallUpdate.guard] using hg
    exact absurd (hs ▸ hu.1) hlive
  | markIvrAutoAccepted =>
    have hs : row.state = some .ivr := by simpa [CallUpdate.guard] using hg
    exact absurd hs (h he)
  | updateCallState state status =>
    rcases hu with ⟨_, hs⟩ | ⟨_, rfl⟩
    · cases status with
      | none => cases hs
      | some status => exact absurd hs (by simpa [CallUpdate.revives] using hr)
    · exact .inl rfl
  | updateTimestamp field value => cases field <;> exact .inl rfl
  | returnHandoverToQueue agentId offeredAt =>
    have hs : row.status = .inProgress := by
      simp only [CallUpdate.guard, Bool.and_eq_true, decide_eq_true_eq] at hg
      exact hg.1.2
    exact absurd (by simp [hs, CallStatus.active]) hlive
  | markCallFailedIfNotFinal reason who => simp [CallUpdate.guard, he] at hg
  | terminateCallIfNotTerminated reason who endedAt required => simp [CallUpdate.guard, he] at hg
  | finalizeFromWebhook status reason who => simp [CallUpdate.guard, he] at hg
  | finalizeCallAsFailed who =>
    have hs : row.status ≠ .failed := by simpa [CallUpdate.guard] using hg
    refine .inr ⟨?_, rfl⟩
    cases hst : row.status <;> simp_all [CallStatus.active]
  | _ => exact .inl rfl

theorem guard_of_revives (h : u.revives = true) : u.guard row = true := by
  cases u with
  | updateStatus status => rfl
  | updateCallState state status => rfl
  | _ => cases h

theorem active_set_of_revives (h : u.revives = true) : (u.set now row).status.active = true := by
  cases u with
  | updateStatus status => exact h
  | updateCallState state status =>
    cases status with
    | none => cases h
    | some status => exact h
  | _ => cases h

end updates

/-! ## What the handlers issue -/

def Stmt.Issued : Stmt → Prop
  | updateCall _ u => u.Issued
  | createCall row => row.ended = false
  | _ => True

theorem issued_of_has {v : Vocabulary} {s : Stmt} (h : v.Has s) : s.Issued := by
  cases s with
  | updateCall c u =>
    cases v <;> cases u <;> simp_all [Stmt.Issued, CallUpdate.Issued, CallStatus.active]
    case advancing.updateStatus => rcases h with rfl | rfl <;> rfl
    case leavingIvr.updateCallState =>
      rcases h with ⟨rfl, rfl⟩ | ⟨rfl, rfl⟩
      · exact .inl ⟨rfl, rfl⟩
      · exact .inr ⟨rfl, rfl⟩
  | createCall row =>
    cases v with
    | reporting => simp [Stmt.Issued, CallRow.ended, h.2, CallStatus.active]
    | initiating => simp [Stmt.Issued, CallRow.ended, h.2.1, CallStatus.active]
    | claiming => obtain ⟨_, _, h⟩ := h; cases h
    | finishingIvr | waiting => obtain ⟨_, h⟩ := h; cases h
    | accepting | transferring => simp at h
    | _ => cases h
  | _ => trivial

theorem Handler.issues (h : Handler) :
    h.code.Stays (Protocol.only Stmt.Issued) fun _ => True :=
  h.code_only fun _ _ _ hs => issued_of_has hs

/-! ## Runs -/

/-- If call `c` has ended, it has left the IVR. -/
def World.LeftIvr (w : World) (c : Nat) : Prop := ∀ row, w.call c = some row → row.LeftIvr

theorem World.LeftIvr.exec {w : World} {c : Nat} {s : Stmt} (h : w.LeftIvr c) (hs : s.Issued) :
    (s.exec w).1.LeftIvr c := by
  intro row' hrow'
  rcases Stmt.onCall w c s with hsame | ⟨u, row, rfl, hrow, _, hset⟩ | ⟨row, rfl, _, hset⟩ |
    ⟨row, _, _, hrow, hset⟩ | ⟨_, _, row, _, hrow, _, _, hset⟩
  · exact h row' (hsame ▸ hrow')
  all_goals
    rw [hset] at hrow'
    cases hrow'
  · exact (h row hrow).set hs
  · intro he
    exact absurd (show row.ended = true from he) (by simp [show row.ended = false from hs])
  · exact h row hrow
  · exact h row hrow

def Stmt.revives (c : Nat) : Stmt → Bool
  | updateCall id u => id = c && u.revives
  | _ => false

/-- The handler about to move would write a live status over an ended call's. -/
def Service.Revives {ι : Type} (c : Nat) (s : Service ι) (i : ι) : Prop :=
  (s.state.call c).any CallRow.ended = true ∧ (s.next i).any (·.revives c) = true

instance {ι : Type} (c : Nat) (s : Service ι) (i : ι) : Decidable (s.Revives c i) :=
  inferInstanceAs (Decidable (_ ∧ _))

theorem revives_exec {w : World} {c : Nat} {s : Stmt} {row : CallRow} (hrow : w.call c = some row)
    (h : s.revives c = true) : ((s.exec w).1.call c).any (·.status.active) = true := by
  cases s with
  | updateCall id u =>
    simp only [Stmt.revives, Bool.and_eq_true, decide_eq_true_eq] at h
    obtain ⟨rfl, hu⟩ := h
    simp only [World.call] at hrow
    simp [Stmt.exec, World.call, Store.Table.get_updateWhere, hrow, guard_of_revives hu,
      active_set_of_revives hu]
  | _ => cases h

/-- Between any two points of the run, an ended call only goes from TERMINATED
to FAILED, if anywhere. -/
def Service.TerminalAbsorbing {ι : Type} [DecidableEq ι] (s : Service ι) (schedule : List ι) (c : Nat) :
    Prop :=
  ∀ before after, before ++ after <+: schedule →
    ∀ row, (s.run before).state.call c = some row → row.ended = true →
      ∃ row', (s.run (before ++ after)).state.call c = some row' ∧ row.status.StaysEnded row'.status

section runs

variable {ι : Type} [DecidableEq ι]

/-- Along a part of a run without a reviving write, an ended call stays so. -/
theorem staysEnded_run {s : Service ι} {schedule : List ι} {c : Nat} {row : CallRow}
    (hc : (Protocol.only Stmt.Issued).Conforms (fun _ => True) (fun _ => ()) s)
    (hivr : s.state.LeftIvr c) (hrow : s.state.call c = some row) (he : row.ended = true)
    (hok : ∀ m ∈ s.moves schedule, ¬ m.1.Revives c m.2) :
    ∃ row', (s.run schedule).state.call c = some row' ∧ row.status.StaysEnded row'.status := by
  have hstep : ∀ (w : World) (stmt : Stmt), stmt.Issued →
      ¬ ((w.call c).any CallRow.ended = true ∧ stmt.revives c = true) →
      (w.LeftIvr c ∧ ∃ row', w.call c = some row' ∧ row.status.StaysEnded row'.status) →
      (stmt.exec w).1.LeftIvr c ∧
        ∃ row', (stmt.exec w).1.call c = some row' ∧ row.status.StaysEnded row'.status := by
    rintro w stmt hi hr ⟨hl, row₁, hrow₁, hst⟩
    refine ⟨hl.exec hi, ?_⟩
    have he₁ : row₁.ended = true := hst.ended he
    rcases Stmt.onCall w c stmt with hsame | ⟨u, row₂, rfl, hrow₂, hg, hset⟩ | ⟨_, _, hnone, _⟩ |
      ⟨row₂, _, _, hrow₂, hset⟩ | ⟨_, _, row₂, _, hrow₂, _, _, hset⟩
    · exact ⟨row₁, hsame ▸ hrow₁, hst⟩
    · cases hrow₁.symm.trans hrow₂
      refine ⟨_, hset, hst.trans (staysEnded_set (hl _ hrow₁) he₁ hi hg ?_)⟩
      exact Bool.not_eq_true _ ▸ fun hu => hr ⟨by simp [hrow₁, he₁], by simp [Stmt.revives, hu]⟩
    · cases hrow₁.symm.trans hnone
    · cases hrow₁.symm.trans hrow₂
      exact ⟨_, hset, hst⟩
    · cases hrow₁.symm.trans hrow₂
      exact ⟨_, hset, hst⟩
  have hinv := Protocol.invariant Stmt.exec
    (fun w _ => w.LeftIvr c ∧ ∃ row', w.call c = some row' ∧ row.status.StaysEnded row'.status)
    (fun cfg i => ¬ Service.Revives c cfg i) ?_ hc ⟨hivr, row, hrow, .inl rfl⟩ hok
  · exact hinv.1.2.2
  · intro cfg i stmt k hp hok hi hI
    refine hstep cfg.state stmt hi (fun hr => hok ⟨hr.1, ?_⟩) hI
    rw [Service.next_eq_some.mpr ⟨k, hp⟩]
    exact hr.2

variable (w : World) (hs : ι → Handler) (schedule : List ι) (c : Nat)

omit [DecidableEq ι] in
theorem issued_conforms :
    (Protocol.only Stmt.Issued).Conforms (fun _ => True) (fun _ => ()) (Service.spawn w hs) :=
  Protocol.conforms_spawn fun i => (hs i).issues () trivial

/-- Whatever the run, an ended call is out of the IVR: every end clears the state. -/
theorem leftIvr_run (hw : w.LeftIvr c) :
    (Protocol.only Stmt.Issued).Conforms (fun _ => True) (fun _ => ())
        ((Service.spawn w hs).run schedule) ∧
      ((Service.spawn w hs).run schedule).state.LeftIvr c :=
  (Protocol.invariant Stmt.exec (fun w _ => w.LeftIvr c) (fun _ _ => True)
    (fun _ _ _ _ _ _ hi h => h.exec hi) (issued_conforms w hs) hw fun _ _ => trivial).1

/-- The ended calls that stay ended are those no unguarded write finds. -/
theorem terminalAbsorbing_iff (hw : w.LeftIvr c) :
    (Service.spawn w hs).TerminalAbsorbing schedule c ↔
      ∀ m ∈ (Service.spawn w hs).moves schedule, ¬ m.1.Revives c m.2 := by
  constructor
  · rintro habs ⟨s, i⟩ hm ⟨he, hr⟩
    obtain ⟨before, after, rfl, hrun⟩ := (mem_moves _).mp hm
    change s = (Service.spawn w hs).run before at hrun
    cases hrow : s.state.call c with
    | none => simp [hrow] at he
    | some row =>
    cases hn : s.next i with
    | none => simp [hn] at hr
    | some stmt =>
    obtain ⟨k, hp⟩ := Service.next_eq_some.mp hn
    have hended : row.ended = true := by simpa [hrow] using he
    have hrev : stmt.revives c = true := by simpa [hn] using hr
    obtain ⟨row', hrow', hst⟩ := habs before [i] ⟨after, by simp⟩ row (hrun ▸ hrow) hended
    have hstep : ((Service.spawn w hs).run (before ++ [i])).state = (stmt.exec s.state).1 := by
      simp only [Service.run, run_append, run]
      rw [← Service.run, ← hrun, step_call Stmt.exec hp]
    have hlive := revives_exec hrow hrev
    rw [← hstep, hrow'] at hlive
    simpa [not_ended_of_active (by simpa using hlive)] using hst.ended hended
  · intro hok before after hpre row hrow he
    obtain ⟨rest, rfl⟩ := hpre
    obtain ⟨hconf, hivr⟩ := leftIvr_run w hs before c hw
    have hmoves : ∀ m ∈ ((Service.spawn w hs).run before).moves after, ¬ m.1.Revives c m.2 := by
      intro m hm
      refine hok m ?_
      simp only [Service.moves, Service.run] at hm ⊢
      rw [moves_append, moves_append]
      exact List.mem_append_left _ (List.mem_append_right _ hm)
    have hrun : (Service.spawn w hs).run (before ++ after) =
        ((Service.spawn w hs).run before).run after := run_append ..
    rw [hrun]
    exact staysEnded_run hconf hivr hrow he hmoves

end runs

/-! ## A provider's RINGING after a hang-up -/

/-- An outbound call agent 1 started, dialled and not yet ringing. -/
def dialedCall : CallRow :=
  { direction := .outbound, status := .initiated, agentId := some 1, providerCallId := some 9,
    ringingAt := some 0 }

def dialing : World :=
  { calls := .ofList [fun _ => dialedCall], agents := .ofList [fun _ => { busyCallId := some 1 }] }

theorem dialing_leftIvr : dialing.LeftIvr 1 := by
  rintro row hrow he
  cases hrow
  exact absurd he (by decide)

/-- The provider says it rings (`false`) while the agent hangs up (`true`). -/
def ringingWhileHangingUp : Bool → Handler
  | false => .statusChanged { id := 1 } 9 .ringing (some 5)
  | true => .callTerminated 1 .hangUp false

/-- The report is handled before the hang-up begins. -/
theorem terminalAbsorbing_iff_dialing :
    (Service.spawn dialing ringingWhileHangingUp).TerminalAbsorbing
      [false, false, false, false, true, true] 1 :=
  (terminalAbsorbing_iff dialing ringingWhileHangingUp _ 1 dialing_leftIvr).mpr (by decide)

/-- The row was read before the end committed, so the ended call rings again. -/
theorem not_terminalAbsorbing :
    ¬ ∀ (w : World) (hs : Bool → Handler) (schedule : List Bool) (c : Nat), w.LeftIvr c →
      (Service.spawn w hs).TerminalAbsorbing schedule c := by
  intro h
  obtain ⟨row, hrow, hst⟩ := h dialing ringingWhileHangingUp [false, false, false, true, true, false] 1
    dialing_leftIvr [false, false, false, true, true] [false] (List.prefix_refl _) _ rfl (by decide)
  cases hrow
  rcases hst with hst | ⟨_, hst⟩ <;> revert hst <;> decide

end Callio
