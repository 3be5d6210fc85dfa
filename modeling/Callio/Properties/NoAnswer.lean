import Callio.Properties.TerminalStatus

/-! A call that ended as NO_ANSWER was never answered. Whoever writes `answered_at`,
or finalizes an end the provider reports, corrects the verdict afterwards; whoever
ends a call as NO_ANSWER does not look whether it was answered meanwhile. The
handlers follow a protocol in which a call that may contradict itself is owed a
correction by the handler that made it so. -/

namespace Callio.NoAnswer

open Concurrency Code

/-- TERMINATED as NO_ANSWER, though answered, and not by an IVR. -/
def Contradicts (row : CallRow) : Prop :=
  row.status = .terminated ∧ row.terminationReason = some .noAnswer ∧ row.answeredAt.isSome = true ∧
    row.ivrFlowId.isNone = true

instance (row : CallRow) : Decidable (Contradicts row) :=
  inferInstanceAs (Decidable (_ ∧ _))

/-! ## The protocol -/

/-- The call whose row a handler has yet to correct. -/
abbrev Phase := Option Nat

/-- The write may leave its row contradicting itself, and is followed by a correction. -/
def opens : CallUpdate → Bool
  | .updateTimestamp .answeredAt _ | .fillTimes _ _ _ _ => true
  | _ => false

/-- The second write of a finalizer. -/
def finalizes : CallUpdate → Bool
  | .finalizeFromWebhook _ _ _ | .finalizeCallAsFailed _ => true
  | _ => false

/-- The write leaves no row contradicting itself. -/
def settles : CallUpdate → Bool
  | .correctNoAnswerIfAnswered | .finalizeCallAsFailed _ => true
  | _ => false

def next : Phase → (s : Stmt) → s.Res → Phase
  | none, .updateCall c u, _ => if opens u then some c else none
  | some c, .updateCall _ u, _ => if settles u then none else some c
  | q, _, _ => q

def allows : Phase → Stmt → Prop
  | none, .updateCall _ u => finalizes u = false ∧ u.Issued
  | none, s => s.Issued
  | some c, .updateCall d u => d = c ∧ (finalizes u = true ∨ settles u = true)
  | some _, _ => False

def protocol : Protocol Stmt.Res := ⟨Phase, next, allows⟩

/-- Nothing is owed. -/
def Square (q : protocol.Phase) : Prop := q = none

theorem keeps_square {s : Stmt} (h : s.Issued) (hu : ∀ c u, s = .updateCall c u → opens u = false ∧ finalizes u = false) :
    protocol.Keeps Square s := by
  rintro q rfl
  cases s with
  | updateCall c u =>
    obtain ⟨ho, hf⟩ := hu c u rfl
    exact ⟨⟨hf, h⟩, fun r => by simp [Square, protocol, next, ho]⟩
  | _ => exact ⟨h, fun _ => rfl⟩

/-! ## The handlers follow it -/

theorem keeps_of_has {v : Vocabulary} {s : Stmt} (h : v.Has s) (hr : v ≠ .reporting) (ha : v ≠ .accepting) :
    protocol.Keeps Square s := by
  refine keeps_square (issued_of_has h) ?_
  rintro c u rfl
  cases u with
  | updateTimestamp field value =>
    cases field
    · exact ⟨rfl, rfl⟩
    · cases v <;> simp_all
    · exact ⟨rfl, rfl⟩
  | fillTimes | finalizeFromWebhook | finalizeCallAsFailed => cases v <;> simp_all
  | _ => exact ⟨rfl, rfl⟩

theorem routes : Routes protocol Square :=
  .of_keeps fun _ hs => hs.elim (fun hs => keeps_of_has (v := .routing) hs nofun nofun)
    fun hs => keeps_of_has (v := .offering) hs nofun nofun

theorem keeps_ending (s : Stmt) (hs : s.Ending) : protocol.Keeps Square s :=
  keeps_of_has (v := .ending) hs nofun nofun

/-- Every write of `answered_at` is followed by the correction. -/
theorem updateTimestamp_square (callId : Nat) (field : TimestampField) (value : Nat) :
    (updateTimestamp callId field value).Stays protocol Square := by
  rintro q rfl
  cases field with
  | answeredAt =>
    refine (Prog.follows_cmd_bind _ _ _ _).mpr ⟨⟨rfl, trivial⟩, fun _ => ?_⟩
    exact (Prog.follows_cmd_bind _ _ _ _).mpr ⟨⟨rfl, .inr rfl⟩, fun _ => rfl⟩
  | _ => exact (Prog.follows_cmd_bind _ _ _ _).mpr ⟨⟨rfl, trivial⟩, fun _ => rfl⟩

theorem finalizeFromWebhook_square (callId : Nat) (reason : TerminationReason) (terminatedBy : TerminatedBy)
    (times : ProviderTimes) : (finalizeFromWebhook callId reason terminatedBy times).Stays protocol Square := by
  rintro q rfl
  refine (Prog.follows_cmd_bind _ _ _ _).mpr ⟨⟨rfl, trivial⟩, fun _ => ?_⟩
  refine (Prog.follows_cmd_bind _ _ _ _).mpr ⟨⟨rfl, .inl rfl⟩, fun _ => ?_⟩
  exact (Prog.follows_cmd_bind _ _ _ _).mpr ⟨⟨rfl, .inr rfl⟩, fun _ => rfl⟩

/-- A call finalized as failed is no longer TERMINATED. -/
theorem finalizeCallAsFailed_square (callId : Nat) (terminatedBy : TerminatedBy) (times : ProviderTimes) :
    (finalizeCallAsFailed callId terminatedBy times).Stays protocol Square := by
  rintro q rfl
  refine (Prog.follows_cmd_bind _ _ _ _).mpr ⟨⟨rfl, trivial⟩, fun _ => ?_⟩
  exact (Prog.follows_cmd _ _ _).mpr ⟨⟨rfl, .inr rfl⟩, fun _ => rfl⟩

theorem reports : Reports protocol Square where
  keeps _ hs := by
    refine keeps_square (issued_of_has (v := .reporting) hs.reporting) ?_
    rintro c u rfl
    cases u <;> first | exact ⟨rfl, rfl⟩ | cases hs
  stamp := updateTimestamp_square
  webhook := finalizeFromWebhook_square
  failed := finalizeCallAsFailed_square

theorem agentJoined_square (a : Accept) : (handleAgentJoined a).Stays protocol Square := by
  have hends := Ends.of_keeps routes keeps_ending
  have hkeeps : ∀ s : Stmt, s.Accepting → (∀ c u, s = .updateCall c u → opens u = false ∧ finalizes u = false) →
      protocol.Keeps Square s :=
    fun s hs hu => keeps_square (issued_of_has (v := .accepting) hs) hu
  have hjoining : ∀ s : Stmt, s.Joining → (∀ c u, s = .updateCall c u → opens u = false ∧ finalizes u = false) →
      protocol.Keeps Square s := fun s hs hu => hkeeps s (.inl (.inl hs)) hu
  have hrelease : protocol.Keeps Square (.updateAgent a.userId (.releaseFromCall a.callId)) :=
    hkeeps _ (.inl (.inr trivial)) nofun
  have herror : ∀ text, protocol.Keeps Square (.emit (.callError a.callId text)) :=
    fun text => hkeeps _ (.inl (.inr trivial)) nofun
  have hclaim : (update a.callId (.assignCallToAgentIfEligible a.userId)).Stays protocol Square :=
    hjoining _ trivial fun _ _ hu => by cases hu; exact ⟨rfl, rfl⟩
  have hconnect : ∀ call, (a.connectCall call).Stays protocol Square := by
    intro call
    refine .bind hclaim fun _ => .ite (fun _ => Prog.stays_ret _) fun _ => ?_
    have htransition : (update a.callId (.transitionStatus .ringing .inProgress)).Stays protocol Square :=
      hjoining _ ⟨rfl, rfl⟩ fun _ _ hu => by cases hu; exact ⟨rfl, rfl⟩
    refine .bind htransition fun _ =>
      .ite (fun _ => .bind (routes.read _ trivial) fun _ => Prog.stays_ret _) fun _ => ?_
    have hactive : (update a.callId (.updateState (some .active))).Stays protocol Square :=
      hjoining _ rfl fun _ _ hu => by cases hu; exact ⟨rfl, rfl⟩
    refine .bind hactive fun _ => .ite (fun _ => .bind (routes.read _ trivial) fun now => ?_) fun _ => Prog.stays_ret _
    exact (updateTimestamp_square _ _ _).bind fun _ => Prog.stays_ret _
  have hconnected : a.connected.Stays protocol Square :=
    a.connected_stays (hjoining _ trivial nofun) (hjoining _ trivial nofun) (hjoining _ trivial nofun)
      (routes.resetting _ trivial) (hjoining _ trivial nofun)
  have hjoin := a.joinClaimed_connects hends (hkeeps _ (.inr trivial) nofun) (hkeeps _ (.inr trivial) nofun)
    (hkeeps _ (.inr rfl) nofun) hconnect hconnected fun _ => id
  have hhandover : protocol.Keeps Square (.updateCall a.callId (.claimHandover a.userId)) :=
    hkeeps _ (.inl (.inr trivial)) fun _ _ hu => by cases hu; exact ⟨rfl, rfl⟩
  have hhold : protocol.Keeps Square (.updateAgent a.userId (.holdForOwnCall a.callId)) :=
    hkeeps _ (.inl (.inr trivial)) nofun
  exact a.handleAgentJoined_takes routes (hkeeps _ (.inl (.inr trivial)) nofun)
    (a.join_takes routes (a.claim_stays routes hclaim hhandover hhold) hjoin (fun _ => id) fun _ => id)
    (fun _ => id) hrelease herror

theorem code_square (h : Handler) : h.code.Stays protocol Square := by
  have hcount : ∀ a, protocol.Keeps Square (.incrementMissed a) := fun a => keeps_square trivial nofun
  have hother : .reporting ∉ h.vocabulary → .accepting ∉ h.vocabulary → h.code.Stays protocol Square := by
    intro hr ha
    refine h.code_stays routes keeps_ending (fun _ => hcount) fun v hv s hs => keeps_of_has hs ?_ ?_
    · rintro rfl
      exact hr hv
    · rintro rfl
      exact ha hv
  cases h with
  | inboundCall line offer outcome =>
    exact inboundCall_stays routes keeps_ending reports
      (fun a c => keeps_of_has (v := .claiming) ⟨a, c, rfl⟩ nofun nofun)
      (fun _ hs => keeps_of_has (v := .offering) hs nofun nofun) _ _ _ fun _ _ hs => keeps_of_has (v := .autoAnswering) hs nofun nofun
  | statusChanged line p status t =>
    exact statusChanged_stays routes keeps_ending reports _ _ _ _
      fun _ _ hs => keeps_of_has (v := .advancing) hs nofun nofun
  | callEnded line e => exact callEnded_stays routes keeps_ending reports hcount _ _
  | agentJoined a => exact agentJoined_square a
  | _ => exact hother (by simp [Handler.vocabulary]) (by simp [Handler.vocabulary])

/-! ## What each write does to a row -/

/-- The statement ends a call as NO_ANSWER whose row was answered, not by an IVR. -/
def misjudges (w : World) : Stmt → Bool
  | .updateCall c (.terminateCallIfNotTerminated (some .noAnswer) _ _ required) =>
    (w.call c).any fun row =>
      !row.ended && required.all (row.status = ·) && row.answeredAt.isSome && row.ivrFlowId.isNone
  | _ => false

section rows

variable {w : World} {c now : Nat} {u : CallUpdate} {row : CallRow}

theorem not_contradicts_of_active (h : row.status.active = true) : ¬ Contradicts row := by
  rintro ⟨hs, -⟩
  rw [hs] at h
  cases h

theorem settles_guard (h : settles u = true) (hrow : Contradicts row) : u.guard row = true := by
  obtain ⟨hs, hr, ha, hi⟩ := hrow
  cases u with
  | correctNoAnswerIfAnswered => simp [CallUpdate.guard, hs, hr, ha, hi]
  | finalizeCallAsFailed who => simp [CallUpdate.guard, hs]
  | _ => cases h

theorem settles_set (h : settles u = true) : ¬ Contradicts (u.set now row) := by
  rintro ⟨hs, hr, -⟩
  cases u with
  | correctNoAnswerIfAnswered => cases hr
  | finalizeCallAsFailed who => cases hs
  | _ => cases h

/-- A write no correction follows leaves a contradiction only where it found one. -/
theorem contradicts_of_set (hrow : w.call c = some row) (hg : u.guard row = true) (hi : u.Issued)
    (hf : finalizes u = false) (ho : opens u = false) (hm : misjudges w (.updateCall c u) = false)
    (h : Contradicts (u.set w.now row)) : Contradicts row := by
  cases u with
  | updateStatus status => exact absurd h (not_contradicts_of_active hi)
  | transitionStatus expected status => exact absurd h (not_contradicts_of_active hi.2)
  | updateCallState state status =>
    rcases hi with ⟨-, hs⟩ | ⟨-, rfl⟩
    · cases status with
      | none => cases hs
      | some status => exact absurd h (not_contradicts_of_active hs)
    · exact h
  | updateTimestamp field value =>
    cases field with
    | answeredAt => cases ho
    | _ => exact h
  | fillTimes => cases ho
  | finalizeFromWebhook | finalizeCallAsFailed => cases hf
  | correctNoAnswerIfAnswered => exact absurd h (settles_set rfl)
  | markIvrAutoAccepted | returnHandoverToQueue | markCallFailedIfNotFinal => cases h.1
  | terminateCallIfNotTerminated reason who endedAt required =>
    obtain ⟨-, rfl, ha, hivr⟩ := h
    simp only [misjudges, hrow, Option.any_some] at hm
    rw [show (!row.ended && required.all (row.status = ·)) = true from hg, show row.answeredAt.isSome = true from ha,
      show row.ivrFlowId.isNone = true from hivr] at hm
    cases hm
  | _ => exact h

end rows

/-! ## Runs -/

/-- After a settling write the row does not contradict itself, whether it matched or not. -/
theorem settles_exec {w : World} {c : Nat} {u : CallUpdate} {row : CallRow} (h : settles u = true)
    (hrow : ((Stmt.updateCall c u).exec w).1.call c = some row) : ¬ Contradicts row := by
  intro hbad
  cases Stmt.onCall w c (.updateCall c u) with
  | same hsame =>
    have hbefore : w.call c = some row := hsame ▸ hrow
    have hset := Stmt.exec_updateCall hbefore (settles_guard h hbad)
    have hsame : u.set w.now row = row := Option.some.inj (hset.symm.trans hrow)
    exact settles_set h (hsame.symm ▸ hbad : Contradicts (u.set w.now row))
  | updated u' row' hs _ _ hset =>
    cases hs
    cases hset.symm.trans hrow
    exact settles_set h hbad
  | created _ hs _ _ | filled _ _ hs _ _ | claimed _ _ _ hs _ _ _ _ => cases hs

/-- Every call that contradicts itself is owed a correction. -/
def Owed {ι : Type} (w : World) (phases : ι → Phase) : Prop :=
  ∀ c row, w.call c = some row → Contradicts row → ∃ i, phases i = some c

section runs

variable {ι : Type} [DecidableEq ι]

/-- A handler that owes nothing leaves at most what it owes then. -/
theorem contradicts_of_exec {w : World} {s : Stmt} (ha : allows none s) (hm : misjudges w s = false) {c : Nat}
    {row' : CallRow} (hrow' : (s.exec w).1.call c = some row') (h : Contradicts row') :
    (∃ row, w.call c = some row ∧ Contradicts row) ∨ next none s (s.exec w).2 = some c := by
  cases Stmt.onCall w c s with
  | same hsame => exact .inl ⟨row', hsame ▸ hrow', h⟩
  | updated u row hs hrow hg hset =>
    subst hs
    cases hset.symm.trans hrow'
    cases ho : opens u with
    | true => exact .inr (if_pos ho)
    | false => exact .inl ⟨row, hrow, contradicts_of_set hrow hg ha.2 ha.1 ho hm h⟩
  | created row hs _ hset =>
    subst hs
    cases hset.symm.trans hrow'
    have hlive : row.ended = false := ha
    exact absurd h (not_contradicts_of_active (by simpa [CallRow.ended] using hlive))
  | filled row duration _ hrow hset =>
    cases hset.symm.trans hrow'
    exact .inl ⟨row, hrow, h⟩
  | claimed a anyShift row _ hrow _ _ hset =>
    cases hset.symm.trans hrow'
    exact .inl ⟨row, hrow, h⟩

theorem Owed.step {w : World} {phases : ι → Phase} (h : Owed w phases) {i : ι} {s : Stmt}
    (ha : allows (phases i) s) (hm : misjudges w s = false) :
    Owed (s.exec w).1 (Function.update phases i (next (phases i) s (s.exec w).2)) := by
  intro c row' hrow' hbad
  have hothers : ∀ row, w.call c = some row → Contradicts row → phases i ≠ some c →
      ∃ j, Function.update phases i (next (phases i) s (s.exec w).2) j = some c := by
    intro row hrow hrowbad hi
    obtain ⟨j, hj⟩ := h c row hrow hrowbad
    have hji : j ≠ i := fun hji => hi (hji ▸ hj)
    exact ⟨j, by rw [Function.update_of_ne hji, hj]⟩
  have hself : next (phases i) s (s.exec w).2 = some c →
      ∃ j, Function.update phases i (next (phases i) s (s.exec w).2) j = some c :=
    fun hn => ⟨i, by rw [Function.update_self, hn]⟩
  cases hq : phases i with
  | none =>
    rw [hq] at ha hothers hself
    rcases contradicts_of_exec ha hm hrow' hbad with ⟨row, hrow, hrowbad⟩ | hn
    · exact hothers row hrow hrowbad nofun
    · exact hself hn
  | some d =>
    rw [hq] at ha hothers hself
    cases s with
    | updateCall e u =>
      obtain ⟨rfl, hu⟩ := ha
      by_cases hc : c = e
      · subst hc
        cases hs : settles u with
        | true => exact absurd hbad (settles_exec hs hrow')
        | false => exact hself (if_neg (by rw [hs]; nofun))
      · cases Stmt.onCall w c (.updateCall e u) with
        | same hsame => exact hothers row' (hsame ▸ hrow') hbad fun hd => hc (Option.some.inj hd).symm
        | updated _ _ hs _ _ _ => exact absurd (by cases hs; rfl) hc
        | created _ hs _ _ | filled _ _ hs _ _ | claimed _ _ _ hs _ _ _ _ => cases hs
    | _ => exact absurd ha id

/-- The handler about to move would end an answered call as NO_ANSWER. -/
def Misjudges (s : Service ι) (i : ι) : Prop := (s.next i).any (misjudges s.state) = true

instance (s : Service ι) (i : ι) : Decidable (Misjudges s i) := inferInstanceAs (Decidable (_ = _))

/-- Once every handler has finished, no call contradicts itself, unless one was ended
as NO_ANSWER when its row already had an answer. -/
theorem unanswered_of_noAnswer (w : World) (hs : ι → Handler) (schedule : List ι)
    (hw : ∀ c row, w.call c = some row → ¬ Contradicts row)
    (hok : ∀ m ∈ (Service.spawn w hs).moves schedule, ¬ Misjudges m.1 m.2)
    (hdone : ∀ i, (((Service.spawn w hs).run schedule).threads i).Finished) :
    ∀ c row, ((Service.spawn w hs).run schedule).state.call c = some row → ¬ Contradicts row := by
  have hconforms : protocol.Conforms Square (fun _ => none) (Service.spawn w hs) :=
    Protocol.conforms_spawn fun i => code_square (hs i) none rfl
  have hstart : Owed w (protocol.phases (fun _ => none) (Service.spawn w hs)) :=
    fun c row hrow hbad => absurd hbad (hw c row hrow)
  have hinv := Protocol.invariant Stmt.exec Owed (fun s i => ¬ Misjudges s i) ?_ hconforms hstart hok
  · obtain ⟨⟨hfinal, howed⟩, -⟩ := hinv
    intro c row hrow hbad
    obtain ⟨i, hi⟩ := howed c row hrow hbad
    have hsquare : Square _ := hfinal.final_of_finished (hdone i)
    cases hsquare.symm.trans hi
  · intro s i stmt k hp hm ha hI
    refine hI.step ha ?_
    have hnext : Service.next s i = some stmt := Service.next_eq_some.mpr ⟨k, hp⟩
    simpa [Misjudges, hnext] using hm

end runs

/-! ## A customer who answers while the agent hangs up -/

/-- The provider says it was answered (`false`) while the agent hangs up (`true`). -/
def answeredWhileHangingUp : Bool → Handler
  | false => .statusChanged { id := 1 } 9 .accepted (some 5)
  | true => .callTerminated 1 .hangUp false

theorem dialing_unanswered : ∀ c row, dialing.call c = some row → ¬ Contradicts row := by
  intro c row hrow
  rcases c with _ | _ | c
  · cases hrow
  · cases hrow
    decide
  · cases hrow

/-- The hang-up begins once the answer has been handled. -/
def inTurn : List Bool := List.replicate 7 false ++ List.replicate 12 true

theorem unanswered_of_noAnswer_inTurn :
    ∃ row, ((Service.spawn dialing answeredWhileHangingUp).run inTurn).state.call 1 = some row ∧ ¬ Contradicts row :=
  ⟨_, rfl, unanswered_of_noAnswer dialing answeredWhileHangingUp inTurn dialing_unanswered (by decide)
    (by intro i; cases i <;> rfl) 1 _ rfl⟩

/-- The hang-up has read the row when the answer is handled. -/
def crossed : List Bool := true :: List.replicate 7 false ++ List.replicate 11 true

/-- The call ends as NO_ANSWER though it was answered: nobody corrects it. -/
theorem contradicts_crossed : (∀ i, (((Service.spawn dialing answeredWhileHangingUp).run crossed).threads i).Finished) ∧
    ∃ row, ((Service.spawn dialing answeredWhileHangingUp).run crossed).state.call 1 = some row ∧ Contradicts row := by
  refine ⟨?_, _, rfl, by decide⟩
  intro i
  cases i <;> rfl

end Callio.NoAnswer
