import Callio.Conduct.Handlers
import Callio.Core.Attendance
import Callio.Properties.DialledLeg

/-! Who is in a call, once it is over. A handler that ends a call closes its
participants' rows before anything else, once; a handler that joins somebody does
not look again whether the call is live. -/

namespace Callio.Attendance

open Concurrency Code DialledLeg

/-! ## What a handler owes the table -/

inductive Phase
  /-- `duplicate`: it has found its customer on another call. -/
  | idle (duplicate : Bool)
  /-- It ended the call, and has not closed the rows yet. -/
  | owes (callId : Nat)
  deriving DecidableEq

/-- A call that has gone, or a row under another id, leaves nothing to close. -/
def next : Phase → (s : Stmt) → s.Res → Phase
  | .idle false, .updateCall c u, won => if won = true ∧ finishes u = true then .owes c else .idle false
  | .idle b, .query (.findActiveInboundByCustomer _ _), call => .idle (b || call.isSome)
  | .owes c, .record (.endParticipants d), _ => if d = c then .idle false else .owes c
  | .owes c, .query (.findById d), call => if d = c ∧ call.all (·.id ≠ c) = true then .idle false else .owes c
  | q, _, _ => q

/-- Nothing is ended while rows are owed, and no call is created over. -/
def allows : Phase → Stmt → Prop
  | .owes _, .updateCall _ u => finishes u = false
  | _, .createCall row => row.ended = false
  | _, _ => True

abbrev settling : Protocol Stmt.Res := ⟨Phase, next, allows⟩

def Idle : Phase → Prop
  | .idle _ => True
  | .owes _ => False

def Owing (c : Nat) (q : Phase) : Prop := q = .owes c ∨ Idle q

/-- Statements that end no call. -/
def Tame : Stmt → Prop
  | .updateCall _ u => finishes u = false
  | .createCall row => row.ended = false
  | _ => True

theorem Tame.allowed {s : Stmt} (h : Tame s) (q : Phase) : allows q s := by
  unfold allows
  split
  · exact h
  · exact h
  · trivial

theorem Tame.next {s : Stmt} (h : Tame s) (q : Phase) (r : s.Res) :
    Attendance.next q s r = q ∨ Idle (Attendance.next q s r) := by
  unfold Attendance.next
  split
  · rename_i u _
    have hno : finishes u = false := h
    simp [hno]
  · exact .inr trivial
  · split
    · exact .inr trivial
    · exact .inl rfl
  · split
    · exact .inr trivial
    · exact .inl rfl
  · exact .inl rfl

theorem keeps_idle {s : Stmt} (h : Tame s) : settling.Keeps Idle s := by
  refine fun q hq => ⟨h.allowed q, fun r => ?_⟩
  rcases h.next q r with hsame | hidle
  · exact Eq.mpr (congrArg Idle hsame) hq
  · exact hidle

theorem keeps_owing {c : Nat} {s : Stmt} (h : Tame s) : settling.Keeps (Owing c) s := by
  refine fun q hq => ⟨h.allowed q, fun r => ?_⟩
  rcases h.next q r with hsame | hidle
  · exact Eq.mpr (congrArg (Owing c) hsame) hq
  · exact .inr hidle

theorem idle_cmd {s : Stmt} (h : Tame s) : (Prog.cmd s : Code s.Res).Stays settling Idle := keeps_idle h

theorem owing_cmd {c : Nat} {s : Stmt} (h : Tame s) : (Prog.cmd s : Code s.Res).Stays settling (Owing c) :=
  keeps_owing h

theorem tame_of_routing {s : Stmt} (h : s.Routing ∨ s.Offering) : Tame s := by
  cases s with
  | updateCall c u => rcases h with h | h <;> cases h
  | createCall row => rcases h with h | h <;> cases h
  | _ => trivial

theorem tame_of_settling {s : Stmt} (h : s.Settling) : Tame s := by
  cases s with
  | updateCall c u => cases h
  | createCall row => cases h
  | _ => trivial

theorem routes_idle : Routes settling Idle := .of_keeps fun _ hs => keeps_idle (tame_of_routing hs)

theorem claims_idle : Claims settling Idle :=
  ⟨routes_idle.toLooks, fun _ _ => keeps_idle (tame_of_routing (.inl trivial))⟩

theorem routes_owing (c : Nat) : Routes settling (Owing c) := .of_keeps fun _ hs => keeps_owing (tame_of_routing hs)

/-! ## Ending a call -/

/-- Settling closes the rows. -/
theorem settle_takes (call : Call) (reason : TerminationReason) (terminatedBy : TerminatedBy)
    (provider : TellProvider) (agentOffline : Bool) :
    (CallTerminator.settle call reason terminatedBy provider agentOffline).Takes settling (Owing call.id) Idle := by
  have hclose : (record (.endParticipants call.id)).Takes settling (Owing call.id) Idle := by
    rintro q (rfl | hq)
    · exact ⟨trivial, fun _ => by simp [next, Idle]⟩
    · exact keeps_idle (s := .record (.endParticipants call.id)) trivial q hq
  refine (owing_cmd (s := .fillQueueDuration call.id) trivial).bind fun _ => hclose.bind fun _ => ?_
  refine (idle_cmd (s := .emit _) trivial).bind fun _ => ?_
  refine (freeAgent_stays routes_idle.toSeeks call agentOffline (fun _ => keeps_idle (s := .updateAgent _ _) trivial)
    fun _ _ => keeps_idle (s := .updateAgent _ _) trivial).bind fun _ => ?_
  exact (tellProvider_stays (fun s hs => keeps_idle (tame_of_settling hs)) call provider).bind fun _ =>
    keeps_idle (s := .media call.id .close) trivial

/-- An update that won by ending the call is owed for. -/
theorem update_follows (c : Nat) (u : CallUpdate) {q : Phase} (hq : Idle q) :
    (update c u).Follows settling q fun won q' => if won = true then Owing c q' else Idle q' := by
  cases q with
  | owes d => exact hq.elim
  | idle b =>
    refine ⟨trivial, fun won => ?_⟩
    cases b with
    | true => cases won <;> first | exact trivial | exact Or.inr trivial
    | false =>
      show if won = true then Owing c (if won = true ∧ finishes u = true then .owes c else .idle false) else
        Idle (if won = true ∧ finishes u = true then .owes c else .idle false)
      cases won with
      | false => simp [Idle]
      | true =>
        by_cases hu : finishes u = true
        · simp [hu, Owing]
        · simp [hu, Owing, Idle]

theorem endCall_stays (call : Call) (opts : EndOptions) : (CallTerminator.endCall call opts).Stays settling Idle := by
  refine endCall_settles routes_idle.toSeeks (fun q hq => ?_) (settle_takes call _ _ _ _)
    (keeps_idle (s := .media call.id .close) trivial)
  unfold CallTerminator.commit
  split
  · exact update_follows call.id _ hq
  · exact update_follows call.id _ hq

theorem ends_idle : Ends settling Idle where
  toRoutes := routes_idle
  closeMedia callId := keeps_idle (s := .media callId .close) trivial
  endCall := endCall_stays

/-! ## The provider's reports -/

section tame

variable {Q : Phase → Prop} (hQ : ∀ s, Tame s → settling.Keeps Q s) (hr : Routes settling Q)
include hQ

theorem updateTimestamp_tame (callId : Nat) (field : TimestampField) (value : Nat) :
    (updateTimestamp callId field value).Stays settling Q :=
  updateTimestamp_stays (hQ (.updateCall callId (.updateTimestamp field value)) rfl)
    (hQ (.updateCall callId .correctNoAnswerIfAnswered) rfl)

theorem reportFailure_tame (call : Call) (e : ProviderEnd) (won : Bool) :
    (reportFailure call e won).Stays settling Q :=
  .ite (fun _ => Prog.stays_ret _) fun _ => .bind (hQ (.emit (.callError _ _)) trivial) fun _ =>
    .ite (fun _ => .bind (hQ (.updateCall call.id (.updateTerminatedByIfFailed _)) rfl) fun _ =>
      Prog.stays_ret _) fun _ => Prog.stays_ret _

include hr in
theorem stampEnd_tame (call : Call) (e : ProviderEnd) : (stampEnd call e).Stays settling Q :=
  .ite (fun _ => .bind (hr.read _ trivial) fun _ => updateTimestamp_tame hQ _ _ _) fun _ => Prog.stays_ret _

end tame

theorem fillTimes_idle (callId : Nat) (times : ProviderTimes) : (fillTimes callId times).Stays settling Idle :=
  (idle_cmd (s := .updateCall callId (.fillTimes _ _ _ _)) rfl).bind fun _ => Prog.stays_ret _

theorem finalizeFromWebhook_follows (c : Nat) (reason : TerminationReason) (terminatedBy : TerminatedBy)
    (times : ProviderTimes) {q : Phase} (hq : Idle q) :
    (finalizeFromWebhook c reason terminatedBy times).Follows settling q fun won q' =>
      if won = true then Owing c q' else Idle q' := by
  refine (fillTimes_idle c times q hq).bind fun _ q' hq' => (update_follows c _ hq').bind fun won q' hq' => ?_
  cases won with
  | true =>
    have hcorrect : (update c .correctNoAnswerIfAnswered >>= fun _ => pure true).Stays settling (Owing c) :=
      (owing_cmd (s := .updateCall c .correctNoAnswerIfAnswered) rfl).bind fun _ => Prog.stays_ret _
    exact hcorrect q' hq'
  | false =>
    have hcorrect : (update c .correctNoAnswerIfAnswered >>= fun _ => pure false).Stays settling Idle :=
      (idle_cmd (s := .updateCall c .correctNoAnswerIfAnswered) rfl).bind fun _ => Prog.stays_ret _
    exact hcorrect q' hq'

theorem finalizeCallAsFailed_follows (c : Nat) (terminatedBy : TerminatedBy) (times : ProviderTimes) {q : Phase}
    (hq : Idle q) :
    (finalizeCallAsFailed c terminatedBy times).Follows settling q fun won q' =>
      if won = true then Owing c q' else Idle q' :=
  (fillTimes_idle c times q hq).bind fun _ _ hq' => update_follows c _ hq'

/-- The result set aside, the call may still be owed for. -/
theorem owing_of_ite {c : Nat} {won : Bool} {q : Phase} (h : if won = true then Owing c q else Idle q) :
    Owing c q := by
  cases won with
  | true => exact h
  | false => exact .inr h

theorem settleById_takes (c : Nat) (reason : TerminationReason) (terminatedBy : TerminatedBy) :
    (CallTerminator.settleById c reason terminatedBy).Takes settling (Owing c) Idle := by
  intro q hq
  refine (Prog.follows_cmd_bind _ _ _ _).mpr ⟨(keeps_owing (s := .query (.findById c)) trivial q hq).1, fun call => ?_⟩
  have howing := (keeps_owing (s := .query (.findById c)) trivial q hq).2 call
  cases call with
  | none =>
    rcases hq with rfl | hq
    · exact (by simp [next, Idle] : Idle (next (.owes c) (.query (.findById c)) none))
    · exact (keeps_idle (s := .query (.findById c)) trivial q hq).2 none
  | some call =>
    by_cases hid : call.id = c
    · subst hid
      exact settle_takes call _ _ _ _ _ howing
    · refine settle_takes call _ _ _ _ _ (.inr ?_)
      rcases hq with rfl | hq
      · exact (by simp [next, Idle, hid] : Idle (next (.owes c) (.query (.findById c)) (some call)))
      · exact (keeps_idle (s := .query (.findById c)) trivial q hq).2 (some call)

/-- What follows a report's end: the rows are closed if it was the end. -/
theorem finishKnownCall_stays (call : Call) (e : ProviderEnd) : (finishKnownCall call e).Stays settling Idle := by
  refine .bind (routes_idle.read _ trivial) fun now => ?_
  intro q hq
  have hcommit : (commitProviderEnd call e now).Follows settling q fun won q' =>
      if won = true then Owing call.id q' else Idle q' := by
    unfold commitProviderEnd
    split
    · exact finalizeCallAsFailed_follows call.id _ _ hq
    · exact finalizeFromWebhook_follows call.id _ _ _ hq
  refine hcommit.bind fun won q' hq' => ?_
  cases won with
  | true =>
    have hrest : (do
        reportFailure call e true
        stampEnd call e
        CallTerminator.settle call (e.reason call now) e.terminatedBy
        customerGaveUp call (e.reason call now) : Code Unit).Takes settling (Owing call.id) Idle :=
      (reportFailure_tame (fun _ => keeps_owing) call e true).bind fun _ =>
        (stampEnd_tame (fun _ => keeps_owing) (routes_owing call.id) call e).bind fun _ =>
          (settle_takes call _ _ _ _).bind fun _ =>
            customerGaveUp_stays routes_idle (fun _ => keeps_idle (s := .incrementMissed _) trivial) call _
    exact hrest q' hq'
  | false =>
    exact ((reportFailure_tame (fun _ => keeps_idle) call e false).bind fun _ =>
      (stampEnd_tame (fun _ => keeps_idle) routes_idle call e).bind fun _ => Prog.stays_ret _) q' hq'

theorem callEnded_stays (line : Line) (e : ProviderEnd) : (callEnded line e).Stays settling Idle := by
  have hfind : ∀ key, (findCallPatiently key).Stays settling Idle := by
    intro key
    refine .bind (routes_idle.read _ trivial) fun call => ?_
    cases call with
    | some call => exact Prog.stays_ret _
    | none =>
      exact (idle_cmd (s := .wait 300) trivial).bind fun _ => routes_idle.read (.findByProviderCallId key) trivial
  have hrelease : (record (.releaseOwnership (line.key e.providerCallId))).Stays settling Idle :=
    keeps_idle (s := .record _) trivial
  refine (hfind _).bind fun call => ?_
  cases call with
  | none => exact (idle_cmd (s := .record (.setTombstone _ _)) trivial).bind fun _ => hrelease
  | some call => exact .ite (fun _ => (finishKnownCall_stays call e).bind fun _ => hrelease) fun _ => hrelease

theorem providerRejected_stays (call : Call) (at_ : Nat) : (providerRejected call at_).Stays settling Idle := by
  refine (updateTimestamp_tame (fun _ => keeps_idle) _ _ _).bind fun _ => ?_
  intro q hq
  refine (update_follows call.id _ hq).bind fun won q' hq' => ?_
  cases won with
  | true => exact settle_takes call _ _ _ _ q' hq'
  | false => exact hq'

theorem providerFailed_stays (call : Call) (at_ : Nat) : (providerFailed call at_).Stays settling Idle := by
  intro q hq
  refine (finalizeCallAsFailed_follows call.id _ _ hq).bind fun won q' hq' => ?_
  cases won with
  | true =>
    exact ((owing_cmd (s := .emit (.callError _ _)) trivial).bind fun _ => settle_takes call _ _ _ _) q' hq'
  | false => exact hq'

theorem handleMissedBeforeOffer_stays (key : ProviderKey) {base : CallRow} (hbase : base.ended = false)
    (ringingAt : Nat) (tombstone : Tombstone) :
    (handleMissedBeforeOffer key base ringingAt tombstone).Stays settling Idle := by
  refine (idle_cmd (s := .createCall base) hbase).bind fun callId => ?_
  cases callId with
  | none => exact Prog.stays_ret _
  | some callId =>
    have hrest : (do
        record (.deleteTombstone key)
        CallTerminator.settleById callId
          (if tombstone.failed then .providerError else .cancelled)
          (if tombstone.failed then .provider else .customer) : Code Unit).Takes settling (Owing callId) Idle :=
      (owing_cmd (s := .record (.deleteTombstone key)) trivial).bind fun _ => settleById_takes callId _ _
    refine .ite (fun _ => ?_) fun _ => ?_
    · intro q hq
      exact (finalizeCallAsFailed_follows callId _ _ hq).bind fun _ q' hq' => hrest q' (owing_of_ite hq')
    · intro q hq
      exact (finalizeFromWebhook_follows callId _ _ _ hq).bind fun _ q' hq' => hrest q' (owing_of_ite hq')

/-- A duplicate is recorded as over, and nothing is settled. -/
theorem recordDuplicate_stays {base : CallRow} (hbase : base.ended = false) (ringingAt : Nat) :
    (recordDuplicate base ringingAt).Stays settling (· = .idle true) := by
  have hkeeps : ∀ s : Stmt, (∀ r, next (.idle true) s r = .idle true) → allows (.idle true) s →
      (Prog.cmd s : Code s.Res).Stays settling (· = .idle true) := by
    rintro s hs ha _ rfl
    exact ⟨ha, hs⟩
  refine (hkeeps (.createCall base) (fun _ => rfl) hbase).bind fun callId => ?_
  cases callId with
  | none => exact Prog.stays_ret _
  | some callId =>
    have hfill : (fillTimes callId (instantaneous ringingAt)).Stays settling (· = .idle true) :=
      (hkeeps (.updateCall callId (.fillTimes _ _ _ _)) (fun _ => rfl) trivial).bind fun _ => Prog.stays_ret _
    have hfinalize : (finalizeFromWebhook callId .cancelled .system (instantaneous ringingAt)).Stays settling
        (· = .idle true) :=
      hfill.bind fun _ => (hkeeps (.updateCall callId _) (fun _ => rfl) trivial).bind fun _ =>
        (hkeeps (.updateCall callId _) (fun _ => rfl) trivial).bind fun _ => Prog.stays_ret _
    exact hfinalize.bind fun _ => Prog.stays_ret _

/-! ## On the register -/

/-- What a handler owes, read off its statements. -/
def attending : Protocol Act.Res where
  Phase := Phase
  next
    | q, .stmt _ s, r => next q s r
    | q, _, _ => q
  allows
    | q, .stmt _ s => allows q s
    | _, _ => True

theorem follows_of {α : Type} {deviceId : Option Nat} {m : Code α} {q : Phase} {post : α → Phase → Prop}
    (h : m.Follows settling q post) : (Attending.of deviceId m).Follows attending q post := by
  induction m generalizing q with
  | ret a => exact h
  | call s k ih => exact ⟨h.1, fun r => ih r (h.2 r)⟩

theorem takes_of {α : Type} {deviceId : Option Nat} {m : Code α} {Q Q' : Phase → Prop}
    (h : m.Takes settling Q Q') : (Attending.of deviceId m).Takes attending Q Q' :=
  fun q hq => follows_of (h q hq)

theorem join_stays {Q : Phase → Prop} (callId : Nat) (kind : ParticipantKind) (agentId at_ : Option Nat) :
    (Attending.join callId kind agentId at_).Stays attending Q :=
  fun _ hq => ⟨trivial, fun _ => hq⟩

theorem agentDevice_stays {Q : Phase → Prop} (callId agentId : Nat) (deviceId : Option Nat) :
    (Attending.agentDevice callId agentId deviceId).Stays attending Q :=
  fun _ hq => ⟨trivial, fun _ => hq⟩

theorem of_cmd {s : Stmt} {deviceId : Option Nat} (h : Tame s) :
    (Attending.of deviceId (Prog.cmd s)).Stays attending Idle :=
  takes_of (idle_cmd h)

theorem of_read {q : Query} {deviceId : Option Nat} : (Attending.of deviceId (read q)).Stays attending Idle :=
  takes_of (idle_cmd trivial)

/-! ## Inbound calls -/

theorem ringIn_stays (line : Line) (outcome : InboundOutcome) (route : Route) (assigned : Option Nat)
    (callId ringingAt : Nat) : (Attending.ringIn line outcome route assigned callId ringingAt).Stays attending Idle := by
  refine (join_stays callId .customer none (some ringingAt)).bind fun _ => ?_
  have hoffer : ∀ route, (Attending.of none (offerOnArrival callId line.tenantId route assigned)).Stays attending Idle :=
    fun route => takes_of (offerOnArrival_takes routes_idle routes_idle.toLooks (fun _ => id)
      (fun _ hs => keeps_idle (tame_of_routing (.inr hs))) _ _ _ _)
  cases route with
  | ivr flowId =>
    have haccept : (ivrAutoAccept callId outcome.providerAccepts).Stays settling Idle :=
      ivrAutoAccept_stays routes_idle.toLooks (keeps_idle (s := .media callId .answerCustomer) trivial)
        (keeps_idle (s := .provider callId .accept) trivial)
        (keeps_idle (s := .updateCall callId .markIvrAutoAccepted) rfl)
        (fun _ => updateTimestamp_tame (fun _ => keeps_idle) _ _ _) _
    exact (takes_of haccept).bind fun _ => of_cmd (s := .emit _) trivial
  | owner ownerId => exact hoffer (.owner ownerId)
  | queue queue => exact hoffer (.queue queue)
  | nowhere => exact hoffer .nowhere

theorem handleRoutedCall_stays (line : Line) (offer : InboundOffer) (outcome : InboundOutcome) (route : Route)
    (callId ringingAt : Nat) :
    (Attending.handleRoutedCall line offer outcome route callId ringingAt).Stays attending Idle := by
  have hend : ∀ opts, (Attending.of none (CallTerminator.endById callId opts) >>= fun _ => pure () :
      Attending Unit).Stays attending Idle :=
    fun opts => (takes_of (ends_idle.endById callId opts)).bind fun _ => Prog.stays_ret _
  have hring := fun route assigned => ringIn_stays line outcome route assigned callId ringingAt
  have howner : ∀ ownerId, settling.Keeps Idle (.claimAgentAndAssignCall ownerId callId true) := fun ownerId =>
    keeps_idle (s := .claimAgentAndAssignCall ownerId callId true) trivial
  refine (takes_of (claimOnArrival_stays claims_idle howner route _)).bind fun ⟨assigned, miss⟩ => ?_
  refine (of_cmd (s := .record _) trivial).bind fun _ => .ite (fun _ => hend _) fun _ => ?_
  refine of_read.bind fun tombstone => .ite (fun _ => ?_) fun _ => ?_
  · have hlate : (do
        Attending.of none (record (.deleteTombstone (line.key offer.providerCallId)))
        Attending.of none (CallTerminator.settleById callId .cancelled .customer)
        pure () : Attending Unit).Takes attending (Owing callId) Idle :=
      (takes_of (owing_cmd (s := .record (.deleteTombstone _)) trivial)).bind fun _ =>
        (takes_of (settleById_takes callId _ _)).bind fun _ => Prog.stays_ret _
    intro q hq
    exact (follows_of (finalizeFromWebhook_follows callId _ _ _ hq)).bind fun _ q' hq' => hlate q' (owing_of_ite hq')
  · cases route with
    | nowhere => exact hend _
    | owner ownerId =>
      cases miss with
      | some why =>
        have hclaim : (update callId (.assignCallToAgentIfUnassigned ownerId)).Stays settling Idle :=
          idle_cmd (s := .updateCall callId _) rfl
        exact takes_of (hclaim.bind fun _ => (ends_idle.endById callId _).bind fun _ => Prog.stays_ret _)
      | none => exact hring _ _
    | ivr flowId => exact hring _ _
    | queue queue => exact hring _ _

theorem baseRow_live (line : Line) (offer : InboundOffer) (ringingAt : Nat) :
    (baseRow line offer ringingAt).ended = false := rfl

theorem routedRow_live {base : CallRow} (h : base.ended = false) (route : Route) :
    (routedRow base route).ended = false := by
  cases route <;> exact h

theorem routed_stays (line : Line) (outcome : InboundOutcome) :
    (Attending.routed line outcome).Stays attending Idle := by
  refine .ite (fun _ => Prog.stays_ret _) fun _ => takes_of ?_
  rw [← bind_pure (InboundRouter.route line outcome.ivrFlowId)]
  exact route_takes routes_idle.toLooks line outcome.ivrFlowId fun _ _ => Prog.stays_ret _

theorem createRouted_stays (line : Line) (offer : InboundOffer) (outcome : InboundOutcome) (ringingAt : Nat)
    (route : Route) : (Attending.createRouted line offer outcome ringingAt route).Stays attending Idle := by
  refine (of_cmd (s := .createCall _) (routedRow_live (baseRow_live _ _ _) route)).bind fun callId => ?_
  cases callId with
  | none => exact Prog.stays_ret _
  | some callId => exact handleRoutedCall_stays _ _ _ _ _ _

theorem handleIncomingCall_stays (line : Line) (offer : InboundOffer) (outcome : InboundOutcome) :
    (Attending.handleIncomingCall line offer outcome).Stays attending Idle := by
  refine of_read.bind fun now => of_read.bind fun tombstone => ?_
  cases tombstone with
  | some tombstone => exact takes_of (handleMissedBeforeOffer_stays _ (baseRow_live _ _ _) _ _)
  | none =>
    intro q hq
    refine (Prog.follows_cmd_bind _ _ _ _).mpr ⟨(keeps_idle (s := .query _) trivial q hq).1, fun active => ?_⟩
    cases active with
    | none =>
      have hq' := (keeps_idle (s := .query (.findActiveInboundByCustomer line.tenantId offer.customerAddress)) trivial
        q hq).2 none
      exact ((routed_stays line outcome).bind fun route => createRouted_stays _ _ _ _ route) _ hq'
    | some call =>
      have hq' : next q (.query (.findActiveInboundByCustomer line.tenantId offer.customerAddress)) (some call) =
          .idle true := by
        cases q with
        | owes c => exact hq.elim
        | idle b => simp [next]
      refine (follows_of (recordDuplicate_stays (baseRow_live _ _ _) _ _ hq')).mono ?_
      rintro _ _ rfl
      trivial

theorem inboundCall_stays (line : Line) (offer : InboundOffer) (outcome : InboundOutcome) :
    (Attending.inboundCall line offer outcome).Stays attending Idle := by
  refine of_read.bind fun known => .ite (fun _ => Prog.stays_ret _) fun _ => ?_
  refine (of_cmd (s := .claimOwnership _) trivial).bind fun _ => .ite (fun _ => Prog.stays_ret _) fun _ => ?_
  refine (handleIncomingCall_stays line offer outcome).bind fun _ => of_read.bind fun latest => ?_
  exact .ite (fun _ => of_cmd (s := .record _) trivial) fun _ => Prog.stays_ret _

/-! ## Statuses -/

theorem customerAnswered_stays (call : Call) : (Attending.customerAnswered call).Stays attending Idle := by
  have hemit : (Attending.of none (emit (.callHandled call.id call.agentId))).Stays attending Idle :=
    of_cmd (s := .emit _) trivial
  exact .ite (fun _ => .ite (fun _ => (join_stays _ _ _ _).bind fun _ => hemit) fun _ => hemit) fun _ => Prog.stays_ret _

theorem providerAccepted_stays (call : Call) (at_ : Nat) :
    (Attending.providerAccepted call at_).Stays attending Idle := by
  have hstamp : ∀ field, (Attending.of none (updateTimestamp call.id field at_)).Stays attending Idle :=
    fun field => takes_of (updateTimestamp_tame (fun _ => keeps_idle) _ _ _)
  have hconnect : ∀ _ : Unit, (do
      Attending.of none (updateTimestamp call.id .answeredAt at_)
      if !call.ended && call.status ≠ .inProgress then
        let _ ← Attending.of none (update call.id (.updateStatus .inProgress))
        let _ ← Attending.of none (update call.id (.updateState (some .active)))
      Attending.customerAnswered call : Attending Unit).Stays attending Idle := by
    intro _
    refine (hstamp _).bind fun _ => .ite (fun _ => ?_) fun _ => customerAnswered_stays call
    refine (of_cmd (s := .updateCall call.id (.updateStatus .inProgress)) rfl).bind fun _ => ?_
    exact (of_cmd (s := .updateCall call.id (.updateState (some .active))) rfl).bind fun _ => customerAnswered_stays call
  exact .ite (fun _ => (hstamp _).bind hconnect) fun _ => hconnect ()

theorem statusChanged_stays (line : Line) (providerCallId : Nat) (status : ProviderStatus) (at_ : Option Nat) :
    (Attending.statusChanged line providerCallId status at_).Stays attending Idle := by
  refine of_read.bind fun call => ?_
  cases call with
  | none => exact Prog.stays_ret _
  | some call =>
    refine .ite (fun _ => Prog.stays_ret _) fun _ => of_read.bind fun now => ?_
    cases status with
    | ringing =>
      refine takes_of ((updateTimestamp_tame (fun _ => keeps_idle) _ _ _).bind fun _ => .ite (fun _ => ?_) fun _ => ?_)
      · exact (idle_cmd (s := .updateCall call.id (.updateStatus .ringing)) rfl).bind fun _ => Prog.stays_ret _
      · exact Prog.stays_ret _
    | accepted => exact providerAccepted_stays _ _
    | rejected => exact takes_of (providerRejected_stays _ _)
    | failed => exact takes_of (providerFailed_stays _ _)

/-! ## Every handler -/

theorem keeps_of_has {v : Vocabulary} (hv : v ≠ .ending ∧ v ≠ .reporting) {s : Stmt} (h : v.Has s) :
    settling.Keeps Idle s := by
  apply keeps_idle
  cases s with
  | updateCall c u =>
    cases v <;> cases u <;> simp_all [Tame, finishes, CallStatus.active]
    case advancing.updateStatus => rcases h with rfl | rfl <;> rfl
    case leavingIvr.updateCallState =>
      rcases h with ⟨rfl, rfl⟩ | ⟨rfl, rfl⟩ <;> rfl
  | createCall row => cases v <;> simp_all [Tame, CallRow.ended, CallStatus.active]
  | _ => trivial

theorem handleAgentReconnected_stays (deviceId : Option Nat) (callId userId tenantId : Nat) (withOffer : Bool) :
    (Attending.handleAgentReconnected deviceId callId userId tenantId withOffer).Stays attending Idle := by
  have hleg : (MediaLegs.answerAgent callId userId).Stays settling Idle :=
    (idle_cmd (s := .media callId (.answerAgent _)) trivial).bind fun _ =>
      (idle_cmd (s := .record (.deleteAgentConnection _)) trivial).bind fun _ =>
        (idle_cmd (s := .record (.createAgentConnection _ _)) trivial).bind fun _ => Prog.stays_ret _
  have hoffer : (MediaLegs.offerAgent callId).Stays settling Idle :=
    MediaLegs.offerAgent_stays (fun _ hs => keeps_idle (tame_of_routing (.inr hs.offering))) callId
  refine of_read.bind fun call => ?_
  cases call with
  | none => exact Prog.stays_ret _
  | some call =>
    refine .ite (fun _ => Prog.stays_ret _) fun _ => .ite (fun _ => ?_) fun _ => ?_
    · refine (takes_of hleg).bind fun _ => (of_cmd (s := .media callId .bridge) trivial).bind fun _ => ?_
      exact (agentDevice_stays _ _ _).bind fun _ => of_cmd (s := .emit _) trivial
    · exact (takes_of hoffer).bind fun _ => of_cmd (s := .emit _) trivial

theorem handleReconnectAnswered_stays (deviceId : Option Nat) (a : Accept) :
    (Attending.handleReconnectAnswered deviceId a).Stays attending Idle := by
  refine of_read.bind fun call => ?_
  cases call with
  | none => exact Prog.stays_ret _
  | some call =>
    refine .ite (fun _ => Prog.stays_ret _) fun _ => of_read.bind fun _ => .ite (fun _ => Prog.stays_ret _) fun _ => ?_
    refine (of_cmd (s := .media a.callId (.agentAccepted a.userId a.sdpAnswer a.audio)) trivial).bind fun accepted => ?_
    cases accepted with
    | ok => exact (of_cmd (s := .media a.callId .bridge) trivial).bind fun _ => agentDevice_stays _ _ _
    | noLeg | noAudio => exact Prog.stays_ret _

theorem handlerCode_stays (deviceId : Option Nat) (h : Handler) :
    (Attendant.handlerCode deviceId h).Stays attending Idle := by
  have hcode : h.reports = false → h.code.Stays settling Idle := by
    intro hreports
    refine h.code_stays_of_ends ends_idle (fun hyes => absurd (hreports.symm.trans hyes) nofun)
      (fun _ _ => keeps_idle trivial) fun v hv s hs => keeps_of_has ?_ hs
    constructor
    · rintro rfl
      cases h <;> simp_all [Handler.vocabulary, Handler.reports]
    · rintro rfl
      cases h <;> simp_all [Handler.vocabulary, Handler.reports]
  cases h with
  | inboundCall line offer outcome => exact inboundCall_stays line offer outcome
  | statusChanged line p status t => exact statusChanged_stays line p status t
  | agentReconnected c u t withOffer => exact handleAgentReconnected_stays deviceId c u t withOffer
  | reconnectAnswered a => exact handleReconnectAnswered_stays deviceId a
  | callEnded line e => exact takes_of (callEnded_stays line e)
  | _ => exact takes_of (hcode rfl)

theorem monitored_stays (tenantId callId : Nat) {f : Option Call → Attending Unit}
    (hf : ∀ call, (f call).Stays attending Idle) :
    (Attending.getInProgressCall tenantId callId >>= f).Stays attending Idle := by
  have hget : (Attending.getInProgressCall tenantId callId).Stays attending Idle :=
    of_read.bind fun _ => Prog.stays_ret _
  exact hget.bind hf

theorem code_stays (a : Attendant) : a.code.Stays attending Idle := by
  cases a with
  | handler h deviceId => exact handlerCode_stays deviceId h
  | monitorStarted m =>
    refine monitored_stays _ _ fun call => ?_
    cases call with
    | none => exact Prog.stays_ret _
    | some call => exact .ite (fun _ => Prog.stays_ret _) fun _ => join_stays _ _ _ _
  | monitorAnswered m =>
    refine monitored_stays _ _ fun call => ?_
    cases call with
    | none => exact Prog.stays_ret _
    | some call => exact .ite (fun _ => Prog.stays_ret _) fun _ => join_stays _ _ _ _
  | monitorStopped c u removed => exact .ite (fun _ => Prog.stays_ret _) fun _ _ hq => ⟨trivial, fun _ => hq⟩

/-! ## The property, and what breaks it -/

/-- The statement opens a row for somebody in call `c`. -/
def joins (c : Nat) : Act → Bool
  | .stmt _ (.record (.joinParticipant d _)) => d = c
  | .join p _ => p.callId = c
  | _ => false

/-- The statement ends call `c`, if it matches. -/
def ends (c : Nat) : Act → Bool
  | .stmt _ (.updateCall d u) => d = c && finishes u
  | _ => false

/-- The handler has found its customer on another call. -/
def foundDuplicate (seen : History Act.Res) : Bool :=
  seen.any fun
    | ⟨.stmt _ (.query (.findActiveInboundByCustomer _ _)), call⟩ => call.isSome
    | _ => false

/-- The handler has ended call `c`. -/
def EndedBy (c : Nat) (seen : History Act.Res) : Prop :=
  ∃ deviceId u, finishes u = true ∧ (⟨.stmt deviceId (.updateCall c u), true⟩ : Sigma Act.Res) ∈ seen

variable {ι : Type} [DecidableEq ι]

/-- The next move does not join somebody to call `c` once it has ended, and a
duplicate's own call is not ended with somebody in it. -/
def Sound (c : Nat) (cfg : Config Act.Res Register ι) (i : ι) : Bool :=
  (cfg.next i).all fun act =>
    !(joins c act && (cfg.state.world.call c).any CallRow.ended) &&
      !(ends c act && foundDuplicate (cfg.threads i).seen && cfg.state.participants.any (·.opensIn c))

/-- Nobody has two open rows, and once call `c` has ended and whoever ended it
has finished, nobody has one in it. -/
def Kept (c : Nat) (cfg : Config Act.Res Register ι) : Prop :=
  cfg.state.participants.OneEach ∧
    ((cfg.state.world.call c).any CallRow.ended = true →
      (∀ i, EndedBy c (cfg.threads i).seen → (cfg.threads i).Finished) → cfg.state.participants.NoneIn c)

/-! ## What a phase remembers -/

/-- A handler that owes has ended the call; one marked has found a duplicate. -/
def Remembers (seen : History Act.Res) : Phase → Prop
  | .idle duplicate => duplicate = true → foundDuplicate seen = true
  | .owes c => EndedBy c seen

theorem Remembers.cons {seen : History Act.Res} {q : Phase} (h : Remembers seen q) (e : Sigma Act.Res) :
    Remembers (e :: seen) q := by
  cases q with
  | idle b =>
    intro hb
    rw [foundDuplicate, List.any_cons, Bool.or_eq_true]
    exact .inr (h hb)
  | owes c =>
    obtain ⟨deviceId, u, hu, hmem⟩ := h
    exact ⟨deviceId, u, hu, List.mem_cons_of_mem _ hmem⟩

theorem Remembers.next {seen : History Act.Res} {q : Phase} (h : Remembers seen q) (deviceId : Option Nat) (s : Stmt)
    (r : s.Res) : Remembers (⟨.stmt deviceId s, r⟩ :: seen) (Attendance.next q s r) := by
  unfold Attendance.next
  split
  · rename_i c u won
    split
    · rename_i hwon
      obtain ⟨rfl, hu⟩ := hwon
      exact ⟨deviceId, u, hu, List.mem_cons_self⟩
    · exact nofun
  · rename_i b tenantId address call
    intro hb
    rw [foundDuplicate, List.any_cons, Bool.or_eq_true]
    rcases Bool.or_eq_true_iff.mp hb with hb | hb
    · exact .inr (h hb)
    · exact .inl hb
  · split
    · exact nofun
    · exact h.cons _
  · split
    · exact nofun
    · exact h.cons _
  · exact h.cons _

theorem remembers_phase (seen : History Act.Res) : Remembers seen (attending.phase (.idle false) seen) := by
  induction seen with
  | nil => exact nofun
  | cons e seen ih =>
    obtain ⟨act, r⟩ := e
    cases act with
    | stmt deviceId s => exact ih.next deviceId s r
    | join p at_ => exact ih.cons _
    | leave p reason => exact ih.cons _
    | setDevice p deviceId => exact ih.cons _

/-! ## One move -/

/-- The end of call `c` is owed for, or nobody is in it. -/
structure Invariant (c : Nat) (reg : Register) (ph : ι → Phase) : Prop where
  one : reg.participants.OneEach
  closed : (reg.world.call c).any CallRow.ended = true → (∃ i, ph i = .owes c) ∨ reg.participants.NoneIn c

theorem oneEach_written {rows : Participants} (h : rows.OneEach) (deviceId : Option Nat) (now : Nat) (s : Stmt) :
    (Act.written deviceId now rows s).OneEach := by
  unfold Act.written
  split
  · exact h.join
  · exact h.map Participants.shuts_leave
  · exact h.map Participants.shuts_leaveAll
  · exact h

theorem noneIn_written {rows : Participants} {c : Nat} (h : rows.NoneIn c) {deviceId : Option Nat} (now : Nat) {s : Stmt}
    (hs : joins c (.stmt deviceId s) = false) : (Act.written deviceId now rows s).NoneIn c := by
  unfold Act.written
  split
  · exact h.join (by simpa [joins] using hs)
  · exact h.map Participants.shuts_leave
  · exact h.map Participants.shuts_leaveAll
  · exact h

/-- What is owed stays owed until the rows are closed; the call was there. -/
theorem next_owes {c : Nat} {s : Stmt} {w : World} {row : CallRow} (hrow : w.call c = some row) {r : s.Res}
    (hr : ∀ d, s = .query (.findById d) → r = (s.exec w).2) :
    next (.owes c) s r = .owes c ∨ s = .record (.endParticipants c) := by
  unfold next
  split
  · rename_i h
    cases h
  · rename_i h
    cases h
  · rename_i c' d r h
    cases h
    by_cases hd : d = c
    · exact .inr (congrArg (fun d => Stmt.record (.endParticipants d)) hd)
    · exact .inl (if_neg hd)
  · rename_i c' d call h
    cases h
    left
    refine if_neg ?_
    rintro ⟨rfl, hgone⟩
    rw [show call = w.findCall d from hr d rfl, World.findCall, hrow] at hgone
    simp at hgone
  · exact .inl rfl

section step

variable {c : Nat} {reg : Register} {ph : ι → Phase} {i : ι} {seen : History Act.Res}

omit [DecidableEq ι] in
/-- Of a live call that ends, the handler that ends it owes the rows, unless
nobody is in it. -/
theorem closed_of_live (hrem : Remembers seen (ph i)) {deviceId : Option Nat} {s : Stmt} (hallowed : allows (ph i) s)
    (hsound : (ends c (.stmt deviceId s) && foundDuplicate seen && reg.participants.any (·.opensIn c)) = false)
    (hlive : (reg.world.call c).any CallRow.ended = false)
    (hended : ((s.exec reg.world).1.call c).any CallRow.ended = true) :
    next (ph i) s (Act.answer reg s) = .owes c ∨
      (Act.written deviceId reg.world.now reg.participants s).NoneIn c := by
  obtain ⟨row', hrow', hended⟩ := (Option.any_eq_true _ _).mp hended
  cases hrow : reg.world.call c with
  | none =>
    rcases Stmt.onCall reg.world c s with hsame | ⟨u, row, -, hsome, -, -⟩ | ⟨row, rfl, -, hset⟩ |
      ⟨row, d, -, hsome, -⟩ | ⟨a, shift, row, -, hsome, -, -, -⟩
    · rw [hsame, hrow] at hrow'
      cases hrow'
    · exact absurd (hrow.symm.trans hsome) nofun
    · obtain rfl := Option.some.inj (hrow'.symm.trans hset)
      have hrowLive : row.ended = false := by
        cases hq : ph i <;> rw [hq] at hallowed <;> exact hallowed
      exact absurd (hrowLive.symm.trans hended) nofun
    · exact absurd (hrow.symm.trans hsome) nofun
    · exact absurd (hrow.symm.trans hsome) nofun
  | some row =>
    rw [hrow] at hlive
    obtain ⟨u, rfl, hu, hg⟩ := ends_iff hrow hrow' hlive hended
    have hwon : Act.answer reg (.updateCall c u) = true :=
      (Store.Table.updateWhere_snd _ _ _ _).mpr ⟨row, hrow, hg⟩
    cases hq : ph i with
    | owes d =>
      rw [hq] at hallowed
      exact absurd (hu.symm.trans hallowed) nofun
    | idle duplicate =>
      cases duplicate with
      | false =>
        left
        rw [hwon]
        exact if_pos ⟨rfl, hu⟩
      | true =>
        right
        rw [hq] at hrem
        rw [hrem rfl, show ends c (.stmt deviceId (.updateCall c u)) = true by simp [ends, hu]] at hsound
        exact hsound

theorem Invariant.stmt (h : Invariant c reg ph) (hrem : Remembers seen (ph i)) {deviceId : Option Nat} {s : Stmt}
    (hallowed : allows (ph i) s)
    (hjoins : (joins c (.stmt deviceId s) && (reg.world.call c).any CallRow.ended) = false)
    (hends : (ends c (.stmt deviceId s) && foundDuplicate seen && reg.participants.any (·.opensIn c)) = false) :
    Invariant c (Act.exec (.stmt deviceId s) reg).1
      (Function.update ph i (next (ph i) s (Act.answer reg s))) where
  one := oneEach_written h.one deviceId _ s
  closed hended := by
    cases hlive : (reg.world.call c).any CallRow.ended with
    | false =>
      rcases closed_of_live hrem hallowed hends hlive hended with howes | hnone
      · exact .inl ⟨i, by simpa using howes⟩
      · exact .inr hnone
    | true =>
      rw [hlive, Bool.and_true] at hjoins
      rcases h.closed hlive with ⟨j, hj⟩ | hnone
      · by_cases hji : j = i
        · subst hji
          obtain ⟨row, hrow, -⟩ := (Option.any_eq_true _ _).mp hlive
          have hanswer : ∀ d, s = .query (.findById d) → Act.answer reg s = (s.exec reg.world).2 := by
            rintro d rfl
            rfl
          rcases next_owes hrow hanswer with hstill | rfl
          · left
            refine ⟨j, ?_⟩
            rw [Function.update_self, hj]
            exact hstill
          · exact .inr Participants.noneIn_leaveAll
        · exact .inl ⟨j, by rw [Function.update_of_ne hji, hj]⟩
      · exact .inr (noneIn_written hnone _ hjoins)

theorem Invariant.step (h : Invariant c reg ph) (hrem : Remembers seen (ph i)) {act : Act}
    (hallowed : attending.allows (ph i) act)
    (hjoins : (joins c act && (reg.world.call c).any CallRow.ended) = false)
    (hends : (ends c act && foundDuplicate seen && reg.participants.any (·.opensIn c)) = false) :
    Invariant c (Act.exec act reg).1 (Function.update ph i (attending.next (ph i) act (Act.exec act reg).2)) := by
  have hshuts : ∀ f : ParticipantRow → ParticipantRow, Participants.Shuts f →
      Invariant c { reg with participants := reg.participants.map f } (Function.update ph i (ph i)) := by
    intro f hf
    rw [Function.update_eq_self]
    exact ⟨h.one.map hf, fun hended => (h.closed hended).imp_right fun hnone => hnone.map hf⟩
  cases act with
  | stmt deviceId s => exact h.stmt hrem hallowed hjoins hends
  | join p at_ =>
    have hsame : Function.update ph i (attending.next (ph i) (.join p at_) ()) = ph := Function.update_eq_self i ph
    refine ⟨h.one.join, fun hended => ?_⟩
    rw [hsame]
    rw [show (reg.world.call c).any CallRow.ended = true from hended, Bool.and_true] at hjoins
    exact (h.closed hended).imp_right fun hnone => hnone.join (by simpa [joins] using hjoins)
  | leave p reason => exact hshuts _ Participants.shuts_leave
  | setDevice p deviceId => exact hshuts _ Participants.shuts_setDevice

end step

/-! ## Runs -/

section runs

variable (as : ι → Attendant) (reg : Register) (schedule : List ι) (c : Nat)

/-- The participants of a call are kept right as long as nobody joins it once it
has ended, and no duplicate's own call ends with somebody in it. -/
theorem kept_of_sound (hone : reg.participants.OneEach)
    (hnone : (reg.world.call c).any CallRow.ended = true → reg.participants.NoneIn c)
    (hok : ∀ m ∈ moves Act.exec (Config.spawn reg fun i => (as i).code) schedule, Sound c m.1 m.2 = true) :
    ∀ k, Kept c (Attendant.after as reg schedule k) := by
  intro k
  have hspawn : attending.Conforms Idle (fun _ => .idle false) (Config.spawn reg fun i => (as i).code) :=
    Protocol.conforms_spawn fun i => code_stays (as i) (.idle false) trivial
  have hbegins : Invariant c reg (attending.phases (fun _ => .idle false) (Config.spawn reg fun i => (as i).code)) :=
    ⟨hone, fun hended => .inr (hnone hended)⟩
  obtain ⟨⟨hconforms, h⟩, -⟩ := Protocol.invariant Act.exec (Invariant c) (fun cfg i => Sound c cfg i = true)
    (fun cfg i act cont hp hsound hallowed h => by
      rw [Sound, Config.next_eq_some.mpr ⟨cont, hp⟩, Option.all_some, Bool.and_eq_true, Bool.not_eq_true',
        Bool.not_eq_true'] at hsound
      exact h.step (remembers_phase (cfg.threads i).seen) hallowed hsound.1 hsound.2)
    hspawn hbegins (fun m hm => hok m (mem_moves_of_take Act.exec (n := k) hm))
  refine ⟨h.one, fun hended hfinished => (h.closed hended).resolve_left ?_⟩
  rintro ⟨i, hi⟩
  have hrem := remembers_phase ((Attendant.after as reg schedule k).threads i).seen
  have howes : attending.phase (.idle false) ((Attendant.after as reg schedule k).threads i).seen = .owes c := hi
  rw [howes] at hrem
  have hidle : Idle (attending.phase (.idle false) ((Attendant.after as reg schedule k).threads i).seen) :=
    hconforms.final_of_finished (hfinished i hrem)
  rw [howes] at hidle
  exact hidle

end runs

/-! ## A supervisor starts to listen as the agent hangs up -/

/-- Call 1, with its customer and agent 1 in it. -/
def talking : Register where
  world := { calls := .ofList [fun _ => { direction := .inbound, status := .inProgress, state := some .active,
                                          agentId := some 1, answeredAt := some 0 }]
             agents := .ofList [fun _ => { busyCallId := some 1 }] }
  participants := [{ callId := 1, kind := .customer, joinedAt := 0 },
    { callId := 1, kind := .agent, agentId := some 1, joinedAt := 0 }]

/-- Supervisor 9 asks to listen; the agent hangs up. -/
def listener : Fin 2 → Attendant
  | 0 => .monitorStarted { callId := 1, userId := 9 }
  | 1 => .handler (.callTerminated 1 .hangUp false) none

/-- The supervisor is in the call before it ends. -/
theorem kept_listenerFirst : Kept 1 (Attendant.after listener talking ([0, 0] ++ List.replicate 14 1) 16) :=
  kept_of_sound listener talking _ 1 (by simp [Participants.OneEach, talking]) nofun (by decide +kernel) 16

/-- The call is read as in progress, ends, and is joined: the row stays open. -/
theorem not_kept_listenerLate :
    ¬ ∀ (as : Fin 2 → Attendant) (reg : Register) (schedule : List (Fin 2)) (c : Nat), reg.participants.OneEach →
      ((reg.world.call c).any CallRow.ended = true → reg.participants.NoneIn c) →
      ∀ k, Kept c (Attendant.after as reg schedule k) := by
  intro h
  have hkept := h listener talking ([0] ++ List.replicate 14 1 ++ [0]) 1 (by simp [Participants.OneEach, talking])
    nofun 16
  have hfinished : ∀ i, ((Attendant.after listener talking ([0] ++ List.replicate 14 1 ++ [0]) 16).threads i).Finished := by
    decide +kernel
  exact absurd (hkept.2 (by decide +kernel) fun i _ => hfinished i) (by decide +kernel)

end Callio.Attendance
