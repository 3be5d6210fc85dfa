import Callio.Conduct.Routing
import Callio.Core.Ivr

/-! What the ways of ending a call do, for any protocol: one end settles or
only closes the media, and everything else that ends calls is built from it. -/

namespace Callio

open Concurrency Code

/-- Statements that commit an end, and settle it. -/
@[simp] def Stmt.Ending : Stmt → Prop
  | updateCall _ (.markCallFailedIfNotFinal _ _) => True
  | updateCall _ (.terminateCallIfNotTerminated _ _ _ _) => True
  | fillQueueDuration _ | record (.endParticipants _) => True
  | emit (.callTerminated _ _ _) | media _ .close => True
  | updateAgent _ (.releaseFromCall _) | updateAgent _ (.updateAgentAvailability _) => True
  | provider _ action => action ≠ .accept ∧ action ≠ .initiate
  | _ => False

/-- Statements that settle an end already committed, its agent's shift apart. -/
@[simp] def Stmt.Settling : Stmt → Prop
  | fillQueueDuration _ | record (.endParticipants _) => True
  | emit (.callTerminated _ _ _) | media _ .close => True
  | updateAgent _ (.releaseFromCall _) => True
  | provider _ action => action ≠ .accept ∧ action ≠ .initiate
  | _ => False

theorem Stmt.Settling.ending {s : Stmt} (h : s.Settling) : s.Ending := by
  cases s with
  | updateAgent a u => cases u <;> first | exact h | cases h
  | record op => cases op <;> exact h
  | emit e => cases e <;> exact h
  | media c op => cases op <;> exact h
  | fillQueueDuration _ | provider _ _ => exact h
  | _ => cases h

variable {P : Protocol Stmt.Res} {Q : P.Phase → Prop}

/-- A provider is never asked to accept a call that is over, or to dial it. -/
theorem CallTerminator.providerAction_ends {call : Call} {provider : TellProvider} {action : ProviderAction}
    (h : CallTerminator.providerAction call provider = some action) : action ≠ .accept ∧ action ≠ .initiate := by
  cases provider with
  | whenUnanswered =>
    unfold CallTerminator.providerAction at h
    dsimp only at h
    split at h <;> cases h <;> exact ⟨nofun, nofun⟩
  | nothing => cases h
  | _ => cases h; exact ⟨nofun, nofun⟩

theorem releaseAgent_stays {agentId callId : Nat} {offline : Bool}
    (hr : P.Keeps Q (.updateAgent agentId (.releaseFromCall callId)))
    (ho : offline → P.Keeps Q (.updateAgent agentId (.updateAgentAvailability .offline))) :
    (releaseAgent agentId callId offline).Stays P Q :=
  .bind hr fun _ => .ite (fun h => .bind (ho h) fun _ => Prog.stays_ret _) fun _ => Prog.stays_ret _

theorem freeAgent_stays (hr : Seeks P Q) (call : Call) (offline : Bool)
    (hrel : ∀ a, P.Keeps Q (.updateAgent a (.releaseFromCall call.id)))
    (ho : offline = true → ∀ a, P.Keeps Q (.updateAgent a (.updateAgentAvailability .offline))) :
    (CallTerminator.freeAgent call offline).Stays P Q := by
  unfold CallTerminator.freeAgent
  split
  · exact Prog.stays_ret _
  · rename_i agentId ha
    refine (releaseAgent_stays (hrel agentId) fun h => ho h agentId).bind fun _ => ?_
    exact .ite (fun _ => hr.assignOldestUnassignedCall _) fun _ => Prog.stays_ret _

/-- An end settled in two parts: what comes before the provider is told stays in
`Q`, and telling the provider leads to `Q'`. -/
theorem settle_takes {Q' : P.Phase → Prop} (hr : Seeks P Q) {call : Call} {reason : TerminationReason}
    {terminatedBy : TerminatedBy} {provider : TellProvider} {agentOffline : Bool}
    (hf : P.Keeps Q (.fillQueueDuration call.id)) (hp : P.Keeps Q (.record (.endParticipants call.id)))
    (he : P.Keeps Q (.emit (.callTerminated call.id (some reason) (some terminatedBy))))
    (hrel : ∀ a, P.Keeps Q (.updateAgent a (.releaseFromCall call.id)))
    (ho : agentOffline = true → ∀ a, P.Keeps Q (.updateAgent a (.updateAgentAvailability .offline)))
    (htell : (CallTerminator.tellProvider call provider).Takes P Q Q')
    (hclose : P.Keeps Q' (.media call.id .close)) :
    (CallTerminator.settle call reason terminatedBy provider agentOffline).Takes P Q Q' :=
  .bind hf fun _ => .bind hp fun _ => .bind he fun _ =>
    (freeAgent_stays hr call agentOffline hrel ho).bind fun _ => htell.bind fun _ => hclose

section settle

variable (hr : Seeks P Q) (he : ∀ s : Stmt, s.Settling → P.Keeps Q s)
include hr he

omit hr in
theorem tellProvider_stays (call : Call) (provider : TellProvider) :
    (CallTerminator.tellProvider call provider).Stays P Q := by
  unfold CallTerminator.tellProvider
  split
  · exact Prog.stays_ret _
  · rename_i action ha
    exact .ite (fun _ => he (.provider call.id action) (CallTerminator.providerAction_ends ha)) fun _ =>
      Prog.stays_ret _

theorem settle_stays (call : Call) (reason : TerminationReason) (terminatedBy : TerminatedBy)
    (provider : TellProvider) (agentOffline : Bool)
    (ho : agentOffline = true → ∀ a, P.Keeps Q (.updateAgent a (.updateAgentAvailability .offline))) :
    (CallTerminator.settle call reason terminatedBy provider agentOffline).Stays P Q :=
  settle_takes hr (he (.fillQueueDuration call.id) trivial) (he (.record (.endParticipants call.id)) trivial)
    (he (.emit (.callTerminated call.id _ _)) trivial)
    (fun a => he (.updateAgent a (.releaseFromCall call.id)) trivial) ho
    (tellProvider_stays he call provider) (he (.media call.id .close) trivial)

end settle

/-- A commit that wins leads from `Q₁` to `Q₂`, from where settling leads to `Q`;
one that loses leads to `Q`. -/
theorem endCall_settles {Q₁ Q₂ : P.Phase → Prop} (hr : Seeks P Q) {call : Call} {opts : EndOptions}
    (hc : ∀ q, Q₁ q → (CallTerminator.commit call.id opts).Follows P q fun won q' =>
      if won = true then Q₂ q' else Q q')
    (hs : (CallTerminator.settle call opts.reason opts.terminatedBy opts.provider opts.agentOffline).Takes P Q₂ Q)
    (hclose : P.Keeps Q (.media call.id .close)) : (CallTerminator.endCall call opts).Takes P Q₁ Q := by
  have hlost : (CallTerminator.closeMedia call.id >>= fun _ => pure false).Stays P Q :=
    .bind hclose fun _ => Prog.stays_ret _
  intro q hq
  refine (hc q hq).bind fun won q' hq' => ?_
  cases won with
  | true => exact (hs.bind fun _ => Prog.stays_ret _) q' hq'
  | false =>
    refine Prog.Takes.ite (fun _ => .bind (hr.read (.getStatus call.id) trivial) fun _ => ?_) (fun _ => hlost) q' hq'
    exact .ite (fun _ => Prog.stays_ret _) fun _ => hlost

/-- The commit leads from `Q₁` to `Q`; what follows it, won or lost, stays. -/
theorem endCall_takes {Q₁ : P.Phase → Prop} (hr : Seeks P Q) (he : ∀ s : Stmt, s.Settling → P.Keeps Q s)
    {call : Call} {opts : EndOptions}
    (ho : opts.agentOffline = true →
      ∀ a, P.Keeps Q (.updateAgent a (.updateAgentAvailability .offline)))
    (hc : (CallTerminator.commit call.id opts).Takes P Q₁ Q) :
    (CallTerminator.endCall call opts).Takes P Q₁ Q := by
  refine endCall_settles hr (fun q hq => (hc q hq).mono fun won q' hq' => ?_)
    (settle_stays hr he call _ _ _ _ ho) (he (.media call.id .close) trivial)
  split <;> exact hq'

theorem endCall_stays (hr : Seeks P Q) (he : ∀ s : Stmt, s.Settling → P.Keeps Q s) {call : Call}
    {opts : EndOptions}
    (ho : opts.agentOffline = true →
      ∀ a, P.Keeps Q (.updateAgent a (.updateAgentAvailability .offline)))
    (hc : (CallTerminator.commit call.id opts).Stays P Q) :
    (CallTerminator.endCall call opts).Stays P Q :=
  endCall_takes hr he ho hc

theorem endCleanupItems_stays {calls : List Call} {items : List (Nat × TerminationReason)}
    (hend : ∀ call ∈ calls, ∀ item ∈ items, call.id = item.1 →
      (CallTerminator.endCall call (cleanupOptions item.2)).Stays P Q) :
    (endCleanupItems calls items).Stays P Q := by
  induction items with
  | nil => exact Prog.stays_ret _
  | cons item rest ih =>
    have hrest := ih fun call hcall item hitem => hend call hcall item (List.mem_cons_of_mem _ hitem)
    unfold endCleanupItems
    split
    · rename_i call hfind
      have hid : call.id = item.1 := by simpa using List.find?_some hfind
      exact (hend call (List.mem_of_find?_eq_some hfind) item List.mem_cons_self hid).bind fun _ => hrest
    · exact hrest

theorem batchCleanupCalls_stays (hr : Seeks P Q) {items : List (Nat × TerminationReason)}
    (hend : ∀ call, ∀ item ∈ items, call.id = item.1 →
      (CallTerminator.endCall call (cleanupOptions item.2)).Stays P Q) :
    (batchCleanupCalls items).Stays P Q :=
  .ite (fun _ => Prog.stays_ret _) fun _ => .bind (hr.read (.findByIds _) trivial) fun _ =>
    endCleanupItems_stays fun call _ => hend call

theorem recordIvrMisses_stays (hr : Routes P Q) (hc : ∀ a, P.Keeps Q (.incrementMissed a))
    (calls : List Call) : (recordIvrMisses calls).Stays P Q := by
  induction calls with
  | nil => exact Prog.stays_ret _
  | cons call rest ih =>
    unfold recordIvrMisses
    split
    · exact (hr.recordMiss hc _ _ _ _ _).bind fun _ => ih
    · exact ih

/-- The phases of `Q` allow a call to be ended. -/
structure Ends (P : Protocol Stmt.Res) (Q : P.Phase → Prop) : Prop extends Routes P Q where
  endCall : ∀ (call : Call) (opts : EndOptions), (CallTerminator.endCall call opts).Stays P Q
  closeMedia : ∀ callId : Nat, P.Keeps Q (.media callId .close)

theorem Ends.of_keeps (hr : Routes P Q) (he : ∀ s : Stmt, s.Ending → P.Keeps Q s) : Ends P Q where
  toRoutes := hr
  closeMedia callId := he (.media callId .close) trivial
  endCall call opts := by
    refine endCall_stays hr.toSeeks (fun s hs => he s hs.ending)
      (fun _ a => he (.updateAgent a (.updateAgentAvailability .offline)) trivial) ?_
    exact .ite (fun _ => he (.updateCall call.id (.markCallFailedIfNotFinal _ _)) trivial)
      fun _ => he (.updateCall call.id (.terminateCallIfNotTerminated _ _ _ _)) trivial

namespace Ends

variable (h : Ends P Q)
include h

theorem endById (callId : Nat) (opts : EndOptions) :
    (CallTerminator.endById callId opts).Stays P Q := by
  refine .bind (h.read _ trivial) fun call => ?_
  cases call with
  | none => exact Prog.stays_ret _
  | some call => exact h.endCall call opts

/-! ## Hanging up, and the sweeps -/

theorem handleCallTerminated (callId : Nat) (reason : HangUp) (byConsumer : Bool) :
    (Callio.handleCallTerminated callId reason byConsumer).Stays P Q := by
  refine .bind (h.read _ trivial) fun call => ?_
  cases call with
  | none => exact Prog.stays_ret _
  | some call =>
    exact .ite (fun _ => h.closeMedia callId) fun _ =>
      (h.endCall call _).bind fun _ => Prog.stays_ret _

theorem reconnectExpired (callId : Nat) : (Callio.reconnectExpired callId).Stays P Q := by
  refine .bind (h.read _ trivial) fun call => ?_
  cases call with
  | none => exact Prog.stays_ret _
  | some call => exact (h.endCall call _).bind fun _ => Prog.stays_ret _

theorem batchCleanupCalls (items : List (Nat × TerminationReason)) :
    (Callio.batchCleanupCalls items).Stays P Q :=
  batchCleanupCalls_stays h.toSeeks fun call _ _ _ => h.endCall call _

theorem releaseStaleCallsForUser (agentId : Nat) :
    (Callio.releaseStaleCallsForUser agentId).Stays P Q :=
  .bind (h.read _ trivial) fun _ => h.batchCleanupCalls _

theorem runPeriodicCleanup : Callio.runPeriodicCleanup.Stays P Q :=
  .bind (h.read _ trivial) fun _ => h.batchCleanupCalls _

theorem expireOutboundIntents : Callio.expireOutboundIntents.Stays P Q := by
  refine .bind (h.read _ trivial) fun calls => ?_
  induction calls with
  | nil => exact Prog.stays_ret _
  | cons call rest ih => exact (h.endById call.id _).bind fun _ => ih

theorem runIvrRingCleanup (hc : ∀ a, P.Keeps Q (.incrementMissed a)) :
    Callio.runIvrRingCleanup.Stays P Q :=
  .bind (h.read _ trivial) fun calls => (recordIvrMisses_stays h.toRoutes hc calls).bind fun _ =>
    h.batchCleanupCalls _

theorem ivrFinished (hs : ∀ c, P.Keeps Q (.updateCall c (.updateCallState none none)))
    (callId : Nat) (action : IvrEnd) : (Callio.ivrFinished callId action).Stays P Q :=
  .bind (.bind (hs callId) fun _ => Prog.stays_ret _) fun _ =>
    (h.endById callId _).bind fun _ => Prog.stays_ret _

end Ends

end Callio
