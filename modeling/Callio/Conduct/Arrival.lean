import Callio.Conduct.Ingress
import Callio.Persistence.Effects

/-! An inbound offer and the provider's end of one provider call, each as far
as its own row goes: the row an offer creates is ended by it or looked after
until it has looked for a tombstone, and an end that finds no row leaves one. -/

namespace Callio

open Concurrency Code

/-- A call of a line, under the provider's id. -/
structure ProviderCall where
  line : Line
  id : Nat
  deriving DecidableEq, Repr

def ProviderCall.key (x : ProviderCall) : ProviderKey := x.line.key x.id

/-- The row is this provider call's. -/
def CallRow.Records (row : CallRow) (x : ProviderCall) : Prop :=
  row.channel = x.line.type ∧ row.providerCallId = some x.id ∧ row.channelId = x.line.id

/-- Whatever the update finds, the row is over afterwards. -/
def CallUpdate.ends : CallUpdate → Bool
  | markCallFailedIfNotFinal _ _ | terminateCallIfNotTerminated _ _ _ none => true
  | finalizeFromWebhook .terminated _ _ | finalizeCallAsFailed _ => true
  | _ => false

/-- Updates that neither end a call nor bring one back. -/
def CallUpdate.mild : CallUpdate → Bool
  | updateTimestamp _ _ | correctNoAnswerIfAnswered | updateTerminatedByIfFailed _ => true
  | fillTimes _ _ _ _ | assignCallToAgentIfUnassigned _ => true
  | _ => false

theorem CallUpdate.ends_of_mild {u : CallUpdate} (hu : u.mild = true) : u.ends = false := by
  cases u <;> first | rfl | cases hu

namespace Arrival

inductive Phase
  | idle
  /-- The offer has created nothing. -/
  | offering (x : ProviderCall)
  /-- The offer found its customer on a call. -/
  | duplicate (x : ProviderCall)
  /-- The offer created the call; `looked`: it has read since that there is no tombstone. -/
  | made (x : ProviderCall) (callId : Nat) (looked : Bool)
  /-- The offer created the call as a duplicate. -/
  | recording (x : ProviderCall) (callId : Nat)
  | cancelled (x : ProviderCall) (callId : Nat)
  /-- The end has found no row. -/
  | looking (x : ProviderCall)
  | marked (x : ProviderCall)
  /-- The end found this call, and ends it. -/
  | owing (x : ProviderCall) (callId : Nat)
  | past (x : ProviderCall) (callId : Nat)
  /-- A read said what no database can. -/
  | astray
  deriving DecidableEq

namespace Phase

/-- A handler may finish here. -/
def Done : Phase → Prop
  | made _ _ looked => looked = true
  | recording _ _ | looking _ | owing _ _ => False
  | _ => True

/-- The call whose end is this handler's to commit. -/
def own : Phase → Option Nat
  | made _ c _ | recording _ c | owing _ c => some c
  | _ => none

end Phase

def next : Phase → (s : Stmt) → s.Res → Phase
  | .offering x, .query (.findActiveInboundByCustomer _ _), call =>
      if call.isSome then .duplicate x else .offering x
  | .offering x, .createCall _, some c => .made x c false
  | .duplicate x, .createCall _, some c => .recording x c
  | .made x c looked, .query (.tombstone k), t => .made x c (looked || k = x.key && t.isNone)
  | .made x c looked, .query (.findById d), call =>
      if d = c ∧ call.all (·.id ≠ c) then .astray else .made x c looked
  | .made x c looked, .updateCall d u, _ => if d = c ∧ u.ends then .past x c else .made x c looked
  | .recording x c, .updateCall d u, _ => if d = c ∧ u.ends then .cancelled x c else .recording x c
  | .looking x, .query (.findByProviderCallId k), some call =>
      if k = x.key then if x.line.owns call then .owing x call.id else .astray else .looking x
  | .looking x, .record (.setTombstone k _), _ => if k = x.key then .marked x else .looking x
  | .owing x c, .updateCall d u, _ => if d = c ∧ u.ends then .past x c else .owing x c
  | q, _, _ => q

/-- What a handler may do to calls: make its own, record the provider's report,
and end only its own. -/
def Lawful (q : Phase) : Stmt → Prop
  | .createCall row => row.status = .ringing ∧ row.terminationReason = none ∧
      ∃ x, row.Records x ∧ (q = .offering x ∨ q = .duplicate x ∧ row.state = none)
  | .updateCall c u => u.mild = true ∨
      (u.ends = true ∧ q.own = some c ∧ ∀ x, q = .recording x c →
        ∃ who, u = .finalizeFromWebhook .terminated (some .cancelled) who) ∨
      (u = .markIvrAutoAccepted ∧ ∃ x looked, q = .made x c looked)
  | .record (.setTombstone k _) => ∃ x, q = .looking x ∧ k = x.key
  | .record (.deleteTombstone k) => ∃ x c, q = .past x c ∧ k = x.key
  | _ => True

def protocol : Protocol Stmt.Res := ⟨Phase, next, fun q s => q = .astray ∨ Lawful q s⟩

section next

variable (x : ProviderCall) (c d : Nat) (u : CallUpdate) (looked won : Bool)

@[simp] theorem next_made_updateCall : next (.made x c looked) (.updateCall d u) won =
    if d = c ∧ u.ends then .past x c else .made x c looked := rfl

@[simp] theorem next_recording_updateCall : next (.recording x c) (.updateCall d u) won =
    if d = c ∧ u.ends then .cancelled x c else .recording x c := rfl

@[simp] theorem next_owing_updateCall : next (.owing x c) (.updateCall d u) won =
    if d = c ∧ u.ends then .past x c else .owing x c := rfl

@[simp] theorem next_made_tombstone (k : ProviderKey) (t : Option Tombstone) :
    next (.made x c looked) (.query (.tombstone k)) t = .made x c (looked || k = x.key && t.isNone) := rfl

@[simp] theorem next_made_findById (call : Option Call) : next (.made x c looked) (.query (.findById d)) call =
    if d = c ∧ call.all (·.id ≠ c) then .astray else .made x c looked := rfl

@[simp] theorem next_looking_found (k : ProviderKey) (call : Call) :
    next (.looking x) (.query (.findByProviderCallId k)) (some call) =
      if k = x.key then if x.line.owns call then .owing x call.id else .astray else .looking x := rfl

@[simp] theorem next_looking_setTombstone (k : ProviderKey) (t : Tombstone) (r : Unit) :
    next (.looking x) (.record (.setTombstone k t)) r = if k = x.key then .marked x else .looking x := rfl

@[simp] theorem next_offering_findActive (t : Nat) (a : Option Nat) (call : Option Call) :
    next (.offering x) (.query (.findActiveInboundByCustomer t a)) call =
      if call.isSome then .duplicate x else .offering x := rfl

end next

/-! ## Phases nothing leaves -/

theorem follows_astray {α : Type} (m : Code α) :
    m.Follows protocol .astray fun _ q => q = .astray := by
  induction m with
  | ret a => rfl
  | call c k ih => exact ⟨.inl rfl, fun r => ih r⟩

/-- A statement the protocol does not look at. -/
@[simp] def Quiet : Stmt → Prop
  | .query (.findActiveInboundByCustomer _ _) | .query (.tombstone _) | .query (.findById _) => False
  | .query (.findByProviderCallId _) | .createCall _ | .updateCall _ _ => False
  | .record (.setTombstone _ _) | .record (.deleteTombstone _) => False
  | _ => True

theorem Quiet.next {s : Stmt} (h : Quiet s) (q : Phase) (r : s.Res) : next q s r = q := by
  cases s with
  | query qq => cases qq <;> first | exact False.elim h | (cases q <;> rfl)
  | record op => cases op <;> first | exact False.elim h | (cases q <;> rfl)
  | createCall _ | updateCall _ _ => cases h
  | _ => cases q <;> rfl

theorem Quiet.lawful {s : Stmt} (h : Quiet s) (q : Phase) : Lawful q s := by
  cases s with
  | record op => cases op <;> first | exact False.elim h | trivial
  | createCall _ | updateCall _ _ => cases h
  | _ => trivial

theorem Quiet.keeps {s : Stmt} (h : Quiet s) (Q : Phase → Prop) : protocol.Keeps Q s :=
  fun (q : Phase) hq => ⟨.inr (h.lawful q), fun r => by
    show Q (Arrival.next q s r)
    rwa [h.next]⟩

/-- The handler's call exists and is to be looked after, or a read went
astray; `met`: a tombstone was looked for. -/
def Handling (x : ProviderCall) (c : Nat) (met : Bool) (q : Phase) : Prop :=
  q = .astray ∨ ∃ looked : Bool, (met = true → looked = true) ∧ q = .made x c looked

variable {x : ProviderCall} {c : Nat} {met : Bool}

theorem keeps_query_handling (qq : Query) : protocol.Keeps (Handling x c met) (.query qq) := by
  rintro q (rfl | ⟨looked, hl, rfl⟩)
  · exact ⟨.inl rfl, fun _ => .inl rfl⟩
  · refine ⟨.inr trivial, fun r => ?_⟩
    show Handling x c met (next (.made x c looked) (.query qq) r)
    cases qq with
    | tombstone k => exact .inr ⟨_, fun hm => by rw [hl hm]; rfl, rfl⟩
    | findById d =>
      rw [next_made_findById]
      split
      · exact .inl rfl
      · exact .inr ⟨looked, hl, rfl⟩
    | _ => exact .inr ⟨looked, hl, rfl⟩

theorem update_handling (d : Nat) {u : CallUpdate} (hu : u.mild = true) :
    (update d u).Stays protocol (Handling x c met) := by
  have hends := CallUpdate.ends_of_mild hu
  rintro q (rfl | ⟨looked, hl, rfl⟩)
  · exact ⟨.inl rfl, fun _ => .inl rfl⟩
  · refine ⟨.inr (.inl hu), fun r => .inr ⟨looked, hl, ?_⟩⟩
    simp [protocol, hends]

/-- Routing, offering and settling leave the handler's own call alone. -/
theorem query_or_quiet {s : Stmt} (h : s.Routing ∨ s.Offering ∨ s.Settling) :
    (∃ qq, s = .query qq) ∨ Quiet s := by
  cases s with
  | query qq => exact .inl ⟨qq, rfl⟩
  | record op => cases op <;> first | exact .inr trivial | (rcases h with h | h | h <;> cases h)
  | createCall _ | updateCall _ _ => rcases h with h | h | h <;> cases h
  | _ => exact .inr trivial

theorem keeps_of_queries {Q : Phase → Prop} (hq : ∀ qq, protocol.Keeps Q (.query qq)) {s : Stmt}
    (h : s.Routing ∨ s.Offering ∨ s.Settling) : protocol.Keeps Q s := by
  rcases query_or_quiet h with ⟨qq, rfl⟩ | h
  · exact hq qq
  · exact h.keeps Q

theorem routes_of_queries {Q : Phase → Prop} (hq : ∀ qq, protocol.Keeps Q (.query qq)) :
    Routes protocol Q :=
  .of_keeps fun _ hs => keeps_of_queries hq (or_assoc.mp (.inl hs))

theorem routes_handling : Routes protocol (Handling x c met) :=
  routes_of_queries keeps_query_handling

theorem claims_handling : Claims protocol (Handling x c met) where
  toLooks := routes_handling.toLooks
  claims agentId callId := Quiet.keeps (s := .claimAgentAndAssignCall agentId callId false) trivial _

/-! ## A call that is over -/

theorem keeps_query_over (qq : Query) : protocol.Keeps (· = .past x c) (.query qq) := by
  rintro q rfl
  exact ⟨.inr trivial, fun r => by cases qq <;> rfl⟩

theorem routes_over : Routes protocol (· = .past x c) := routes_of_queries keeps_query_over

theorem settle_over (call : Call) (reason : TerminationReason) (terminatedBy : TerminatedBy)
    (provider : TellProvider) (offline : Bool) :
    (CallTerminator.settle call reason terminatedBy provider offline).Stays protocol
      (· = .past x c) :=
  settle_stays routes_over.toSeeks (fun _ hs => keeps_of_queries keeps_query_over (.inr (.inr hs))) _ _ _ _ _
    fun _ _ => keeps_of_queries keeps_query_over (.inl trivial)

theorem update_over (d : Nat) {u : CallUpdate} (hu : u.mild = true) :
    (update d u).Stays protocol (· = .past x c) := by
  rintro q rfl
  exact ⟨.inr (.inl hu), fun _ => rfl⟩

/-! ## Ending one's own call -/

/-- The call is the handler's, created or found, and its end is not committed. -/
def Holding (x : ProviderCall) (c : Nat) (q : Phase) : Prop :=
  q = .owing x c ∨ ∃ looked, q = .made x c looked

theorem Holding.ends {q : Phase} (hq : Holding x c q) {u : CallUpdate} (hu : u.ends = true) :
    protocol.allows q (.updateCall c u) ∧ ∀ r, protocol.next q (.updateCall c u) r = .past x c := by
  have hlawful : Lawful q (.updateCall c u) := by
    refine .inr (.inl ⟨hu, ?_, ?_⟩)
    · rcases hq with rfl | ⟨looked, rfl⟩ <;> rfl
    · intro y hy
      rcases hq with rfl | ⟨looked, rfl⟩ <;> cases hy
  refine ⟨.inr hlawful, fun r => ?_⟩
  rcases hq with rfl | ⟨looked, rfl⟩ <;> simp [protocol, hu]

theorem update_holding (d : Nat) {u : CallUpdate} (hu : u.mild = true) :
    (update d u).Stays protocol (Holding x c) := by
  have hends := CallUpdate.ends_of_mild hu
  rintro q (rfl | ⟨looked, rfl⟩)
  · exact ⟨.inr (.inl hu), fun r => .inl (by simp [protocol, hends])⟩
  · exact ⟨.inr (.inl hu), fun r => .inr ⟨looked, by simp [protocol, hends]⟩⟩

theorem finalizeFromWebhook_takes (reason : TerminationReason) (who : TerminatedBy)
    (times : ProviderTimes) :
    (finalizeFromWebhook c reason who times).Takes protocol (Holding x c) (· = .past x c) := by
  have hfill : (fillTimes c times).Stays protocol (Holding x c) :=
    (update_holding c rfl).bind fun _ => Prog.stays_ret _
  refine hfill.bind fun _ q hq => ?_
  refine (Prog.follows_cmd_bind _ _ _ _).mpr ⟨(hq.ends rfl).1, fun won => ?_⟩
  rw [(hq.ends rfl).2 won]
  exact ((update_over c rfl).bind fun _ => Prog.stays_ret won) _ rfl

theorem finalizeCallAsFailed_takes (who : TerminatedBy) (times : ProviderTimes) :
    (finalizeCallAsFailed c who times).Takes protocol (Holding x c) (· = .past x c) := by
  have hfill : (fillTimes c times).Stays protocol (Holding x c) :=
    (update_holding c rfl).bind fun _ => Prog.stays_ret _
  exact hfill.bind fun _ q hq => ⟨(hq.ends rfl).1, (hq.ends rfl).2⟩

theorem commit_takes {opts : EndOptions} (ho : opts.onlyIfStatus = none) :
    (CallTerminator.commit c opts).Takes protocol (Holding x c) (· = .past x c) := by
  unfold CallTerminator.commit
  rw [ho]
  exact .ite (fun _ q hq => ⟨(hq.ends rfl).1, (hq.ends rfl).2⟩)
    fun _ q hq => ⟨(hq.ends rfl).1, (hq.ends rfl).2⟩

theorem endCall_takes {call : Call} (hid : call.id = c) {opts : EndOptions}
    (ho : opts.onlyIfStatus = none) :
    (CallTerminator.endCall call opts).Takes protocol (Holding x c) (· = .past x c) := by
  have hclose : (CallTerminator.closeMedia call.id).Stays protocol (· = .past x c) :=
    Quiet.keeps (s := .media call.id .close) trivial _
  unfold CallTerminator.endCall
  rw [hid]
  refine (commit_takes ho).bind fun won => ?_
  refine .ite (fun _ => (settle_over _ _ _ _ _).bind fun _ => Prog.stays_ret _) fun _ => ?_
  rw [ho]
  exact (hid ▸ hclose).bind fun _ => Prog.stays_ret _

/-- The call is over, or a read went astray. -/
def Ended (x : ProviderCall) (c : Nat) (q : Phase) : Prop := q = .astray ∨ q = .past x c

theorem endById_takes {opts : EndOptions} (ho : opts.onlyIfStatus = none) :
    (CallTerminator.endById c opts).Takes protocol (Handling x c met) (Ended x c) := by
  rintro q (rfl | ⟨looked, -, rfl⟩)
  · exact (follows_astray _).mono fun _ _ h => .inl h
  · refine (Prog.follows_cmd_bind _ _ _ _).mpr ⟨.inr trivial, fun call => ?_⟩
    cases call with
    | none =>
      refine .inl ?_
      simp [protocol]
    | some call =>
      by_cases hid : call.id = c
      · have hq : protocol.next (.made x c looked) (.query (.findById c)) (some call) =
            .made x c looked := by simp [protocol, hid]
        rw [hq]
        exact (endCall_takes hid ho _ (.inr ⟨looked, rfl⟩)).mono fun _ _ h => .inr h
      · have hq : protocol.next (.made x c looked) (.query (.findById c)) (some call) =
            .astray := by simp [protocol, hid]
        rw [hq]
        exact (follows_astray _).mono fun _ _ h => .inl h

theorem Ended.done {q : Phase} (h : Ended x c q) : q.Done := by
  rcases h with rfl | rfl <;> trivial

theorem Handling.done {q : Phase} (h : Handling x c true q) : q.Done := by
  rcases h with rfl | ⟨looked, hl, rfl⟩
  · trivial
  · exact hl rfl

/-! ## An offer whose call exists -/

theorem settleById_over (reason : TerminationReason) (who : TerminatedBy) :
    (CallTerminator.settleById c reason who).Stays protocol (· = .past x c) := by
  refine (routes_over.read (.findById c) trivial).bind fun call => ?_
  cases call with
  | none => exact Prog.stays_ret _
  | some call => exact settle_over call _ _ _ _

/-- Once the call is over, its tombstone goes and the end is settled. -/
theorem deleteTombstone_over :
    (record (.deleteTombstone x.key)).Stays protocol (· = .past x c) := by
  rintro q rfl
  exact ⟨.inr ⟨x, c, rfl, rfl⟩, fun _ => rfl⟩

theorem claimOnArrival_handling (route : Route) (reachable : Bool) :
    (claimOnArrival route c reachable).Stays protocol (Handling x c met) :=
  claimOnArrival_stays claims_handling
    (fun ownerId => Quiet.keeps (s := .claimAgentAndAssignCall ownerId c true) trivial _) route reachable

theorem ivrAutoAccept_handling (providerAccepts : Bool) :
    (ivrAutoAccept c providerAccepts).Stays protocol (Handling x c met) := by
  have hmark : protocol.Keeps (Handling x c met) (.updateCall c .markIvrAutoAccepted) := by
    rintro q (rfl | ⟨looked, hl, rfl⟩)
    · exact ⟨.inl rfl, fun _ => .inl rfl⟩
    · exact ⟨.inr (.inr (.inr ⟨rfl, x, looked, rfl⟩)), fun _ => .inr ⟨looked, hl, by simp [protocol, CallUpdate.ends]⟩⟩
  exact ivrAutoAccept_stays routes_handling.toLooks (Quiet.keeps (s := .media c .answerCustomer) trivial _)
    (Quiet.keeps (s := .provider c .accept) trivial _) hmark
    (fun _ => updateTimestamp_stays (update_handling c rfl) (update_handling c rfl)) _

theorem offerOnArrival_handling (tenantId : Nat) (route : Route) (assigned : Option Nat) :
    (offerOnArrival c tenantId route assigned).Stays protocol (Handling x c met) :=
  offerOnArrival_takes routes_handling routes_handling.toLooks (fun _ => id)
    (fun _ hs => keeps_of_queries keeps_query_handling (.inr (.inl hs))) c tenantId route assigned

theorem endById_done {opts : EndOptions} (ho : opts.onlyIfStatus = none) :
    (CallTerminator.endById c opts >>= fun _ => pure ()).Takes protocol (Handling x c met)
      Phase.Done :=
  (endById_takes ho).bind fun _ => Prog.takes_ret (fun _ h => h.done) _

theorem lineMissed_done (ownerId : Nat) (why : LineMiss) :
    (lineMissed c ownerId why).Takes protocol (Handling x c met) Phase.Done := by
  refine (update_handling c rfl).bind fun _ => endById_done ?_
  cases why <;> rfl

/-- The call is ended, or has looked for a tombstone and found none. -/
theorem handleRoutedCall_done (offer : InboundOffer) (hid : offer.providerCallId = x.id)
    (outcome : InboundOutcome) (route : Route) (ringingAt : Nat) :
    (handleRoutedCall x.line offer outcome route c ringingAt).Takes protocol (Handling x c false)
      Phase.Done := by
  have hconn : (record (.createCustomerConnection c true)).Stays protocol (Handling x c false) :=
    Quiet.keeps (s := .record (.createCustomerConnection c true)) trivial _
  refine (claimOnArrival_handling route _).bind fun ⟨assigned, miss⟩ => hconn.bind fun _ => ?_
  refine .ite (fun _ => endById_done rfl) fun _ q hq => ?_
  refine (Prog.follows_cmd_bind _ _ _ _).mpr ⟨(keeps_query_handling (.tombstone _) q hq).1, fun t => ?_⟩
  rw [hid]
  cases t with
  | some t =>
    have hq' := (keeps_query_handling (.tombstone (x.line.key x.id)) q hq).2 (some t)
    revert hq'
    generalize protocol.next q (.query (.tombstone (x.line.key x.id))) (some t) = q'
    rintro (rfl | ⟨looked, -, rfl⟩)
    · exact (follows_astray _).mono fun _ _ h => Ended.done (x := x) (c := c) (.inl h)
    · refine (finalizeFromWebhook_takes _ _ _ _ (.inr ⟨looked, rfl⟩)).bind fun _ q hq => ?_
      refine (deleteTombstone_over.bind fun _ => (settleById_over _ _).bind fun _ => ?_) q hq
      exact Prog.takes_ret (fun _ h => Ended.done (.inr h)) _
  | none =>
    have hq' : Handling x c true (protocol.next q (.query (.tombstone (x.line.key x.id))) none) := by
      rcases hq with rfl | ⟨looked, -, rfl⟩
      · exact .inl rfl
      · refine .inr ⟨true, fun _ => rfl, ?_⟩
        simp [protocol, ProviderCall.key]
    have hoffer : ∀ route, (offerOnArrival c x.line.tenantId route assigned).Takes protocol
        (Handling x c true) Phase.Done :=
      fun route => (offerOnArrival_handling _ route assigned).mono fun _ h => h.done
    cases route with
    | nowhere => exact endById_done rfl _ hq'
    | owner ownerId =>
      cases miss with
      | some why => exact lineMissed_done ownerId why _ hq'
      | none => exact hoffer _ _ hq'
    | ivr flowId =>
      have hemit : (emit (.callIncoming c none [] none)).Takes protocol (Handling x c true) Phase.Done :=
        fun q hq => (Quiet.keeps (s := .emit (.callIncoming c none [] none)) trivial Phase.Done) q hq.done
      exact (ivrAutoAccept_handling _).bind (fun _ => hemit) _ hq'
    | queue queue => exact hoffer _ _ hq'

/-! ## Before the call exists -/

theorem records_baseRow (offer : InboundOffer) (hid : offer.providerCallId = x.id) (ringingAt : Nat) :
    (baseRow x.line offer ringingAt).Records x := ⟨rfl, by rw [← hid]; rfl, rfl⟩

theorem handleMissedBeforeOffer_done {base : CallRow} (hs : base.status = .ringing)
    (hr : base.terminationReason = none) (hx : base.Records x) (ringingAt : Nat)
    (tombstone : Tombstone) :
    (handleMissedBeforeOffer x.key base ringingAt tombstone).Follows protocol (.offering x)
      fun _ => Phase.Done := by
  refine (Prog.follows_cmd_bind _ _ _ _).mpr ⟨.inr ⟨hs, hr, x, hx, .inl rfl⟩, fun callId => ?_⟩
  cases callId with
  | none => trivial
  | some c =>
    have hmeet : ∀ reason who, (record (.deleteTombstone x.key) >>= fun _ =>
        CallTerminator.settleById c reason who).Takes protocol (· = .past x c) Phase.Done :=
      fun reason who => deleteTombstone_over.bind fun _ =>
        (settleById_over _ _).mono fun _ h => Ended.done (.inr h)
    have hmade : Holding x c (.made x c false) := .inr ⟨false, rfl⟩
    exact Prog.Takes.ite (fun _ => (finalizeCallAsFailed_takes _ _).bind fun _ => hmeet _ _)
      (fun _ => (finalizeFromWebhook_takes _ _ _).bind fun _ => hmeet _ _) _ hmade

theorem finalizeDuplicate_takes (times : ProviderTimes) :
    (finalizeFromWebhook c .cancelled .system times).Takes protocol (· = .recording x c)
      (· = .cancelled x c) := by
  have hfill : ∀ u : CallUpdate, u.mild = true → (update c u).Stays protocol (· = .recording x c) := by
    rintro u hu q rfl
    have hends := CallUpdate.ends_of_mild hu
    exact ⟨.inr (.inl hu), fun _ => by simp [protocol, hends]⟩
  have hfinal : (update c (.finalizeFromWebhook .terminated (some .cancelled) (some .system))).Takes
      protocol (· = .recording x c) (· = .cancelled x c) := by
    rintro q rfl
    refine ⟨.inr (.inr (.inl ⟨rfl, rfl, fun _ _ => ⟨_, rfl⟩⟩)), fun _ => ?_⟩
    simp [protocol, CallUpdate.ends]
  have hcorrect : (update c .correctNoAnswerIfAnswered).Stays protocol (· = .cancelled x c) := by
    rintro q rfl
    exact ⟨.inr (.inl rfl), fun _ => rfl⟩
  have htimes : (fillTimes c times).Stays protocol (· = .recording x c) :=
    (hfill _ rfl).bind fun _ => Prog.stays_ret _
  exact htimes.bind fun _ => hfinal.bind fun _ => hcorrect.bind fun _ => Prog.stays_ret _

theorem recordDuplicate_done {base : CallRow} (hs : base.status = .ringing)
    (hr : base.terminationReason = none) (hst : base.state = none) (hx : base.Records x)
    (ringingAt : Nat) :
    (recordDuplicate base ringingAt).Follows protocol (.duplicate x) fun _ => Phase.Done := by
  refine (Prog.follows_cmd_bind _ _ _ _).mpr ⟨.inr ⟨hs, hr, x, hx, .inr ⟨rfl, hst⟩⟩, fun callId => ?_⟩
  cases callId with
  | none => trivial
  | some c =>
    have hdone : ∀ q, q = .cancelled x c → Phase.Done q := by
      rintro q rfl
      trivial
    exact ((finalizeDuplicate_takes _).bind fun _ => Prog.takes_ret hdone _) _ rfl

/-- Every read but the look at the customer's calls leaves the offer where it is. -/
theorem read_offering {q : Query} (h : ∀ t a, q ≠ .findActiveInboundByCustomer t a) :
    (read q).Stays protocol (· = .offering x) := by
  rintro _ rfl
  refine ⟨.inr trivial, fun r => ?_⟩
  cases q with
  | findActiveInboundByCustomer t a => exact absurd rfl (h t a)
  | _ => rfl

theorem route_offering (ivrFlowId : Option Nat) :
    (InboundRouter.route x.line ivrFlowId).Stays protocol (· = .offering x) := by
  unfold InboundRouter.route
  cases x.line.ownerAgentId with
  | some ownerId =>
    refine (read_offering (q := .findAgent ownerId) nofun).bind fun owner => ?_
    cases owner <;> exact Prog.stays_ret _
  | none =>
    refine (QueueRouter.getQueue_stays (fun d => read_offering (q := .findQueue d) nofun) _).bind fun queue => ?_
    cases ivrFlowId <;> cases queue <;> exact Prog.stays_ret _

theorem handleIncomingCall_done (offer : InboundOffer) (hid : offer.providerCallId = x.id)
    (outcome : InboundOutcome) :
    (handleIncomingCall x.line offer outcome).Follows protocol (.offering x) fun _ => Phase.Done := by
  have hkey : x.line.key offer.providerCallId = x.key := by rw [hid]; rfl
  unfold handleIncomingCall
  rw [hkey]
  refine (Prog.follows_cmd_bind _ _ _ _).mpr ⟨.inr trivial, fun now => ?_⟩
  refine (Prog.follows_cmd_bind _ _ _ _).mpr ⟨.inr trivial, fun tombstone => ?_⟩
  cases tombstone with
  | some tombstone => exact handleMissedBeforeOffer_done rfl rfl (records_baseRow offer hid _) _ _
  | none =>
    refine (Prog.follows_cmd_bind _ _ _ _).mpr ⟨.inr trivial, fun active => ?_⟩
    cases active with
    | some active => exact recordDuplicate_done rfl rfl rfl (records_baseRow offer hid _) _
    | none =>
      have hcreate : ∀ (base : CallRow) (ringingAt : Nat) (route : Route) (k : Option Nat → Code Unit),
          base = baseRow x.line offer ringingAt → k none = pure () →
          (∀ callId, k (some callId) = handleRoutedCall x.line offer outcome route callId ringingAt) →
          (Prog.cmd (Stmt.createCall (routedRow base route)) >>= k).Takes
            protocol (· = .offering x) Phase.Done := by
        rintro base ringingAt route k rfl hnone hsome q rfl
        refine (Prog.follows_cmd_bind _ _ _ _).mpr ⟨?_, fun callId => ?_⟩
        · have hx := records_baseRow offer hid ringingAt
          cases route <;> exact .inr ⟨rfl, rfl, x, hx, .inl rfl⟩
        · cases callId with
          | none =>
            rw [hnone]
            trivial
          | some c =>
            rw [hsome]
            exact handleRoutedCall_done offer hid outcome route _ _ (.inr ⟨false, fun h => (by cases h), rfl⟩)
      show Prog.Follows protocol (.offering x) _ _
      rw [if_neg (by simp)]
      split
      · refine hcreate _ _ .nowhere _ rfl ?_ ?_ _ rfl
        · rfl
        · exact fun _ => rfl
      · refine ((route_offering _).bind fun route => hcreate _ _ route _ rfl ?_ ?_) _ rfl
        · rfl
        · exact fun _ => rfl

theorem keeps_query_done (q : Query) : protocol.Keeps Phase.Done (.query q) := by
  rintro p hp
  refine ⟨.inr trivial, fun r => ?_⟩
  cases p with
  | offering x =>
    cases q with
    | findActiveInboundByCustomer t a =>
      simp only [protocol, next_offering_findActive]
      split <;> trivial
    | _ => trivial
  | made x c looked =>
    rw [Phase.Done] at hp
    cases q with
    | tombstone k => simp [protocol, Phase.Done, hp]
    | findById d =>
      simp only [protocol, next_made_findById]
      split
      · trivial
      · exact hp
    | _ => exact hp
  | looking x | recording x c | owing x c => cases hp
  | _ => cases q <;> trivial

/-- An offer ends its call, or has looked for a tombstone since and found none. -/
theorem inboundCall_follows (offer : InboundOffer) (hid : offer.providerCallId = x.id)
    (outcome : InboundOutcome) :
    (inboundCall x.line offer outcome).Follows protocol (.offering x) fun _ => Phase.Done := by
  refine (Prog.follows_cmd_bind _ _ _ _).mpr ⟨.inr trivial, fun known => ?_⟩
  show Prog.Follows protocol (.offering x) _ _
  split
  · trivial
  · refine (Prog.follows_cmd_bind _ _ _ _).mpr ⟨.inr trivial, fun owned => ?_⟩
    show Prog.Follows protocol (.offering x) _ _
    split
    · trivial
    · refine (handleIncomingCall_done offer hid outcome).bind fun _ q hq => ?_
      refine (Prog.follows_cmd_bind _ _ _ _).mpr ⟨.inr trivial, fun latest => ?_⟩
      have hq' := (keeps_query_done (.findByProviderCallId _) q hq).2 latest
      split
      · exact Quiet.keeps (s := .record (.releaseOwnership _)) trivial Phase.Done _ hq'
      · exact hq'

/-! ## The provider's end -/

theorem reportFailure_over (call : Call) (e : ProviderEnd) (won : Bool) :
    (reportFailure call e won).Stays protocol (· = .past x c) := by
  have hemit : (emit (.callError call.id "")).Stays protocol (· = .past x c) :=
    Quiet.keeps (s := .emit (.callError call.id "")) trivial _
  refine .ite (fun _ => Prog.stays_ret _) fun _ => hemit.bind fun _ => ?_
  exact .ite (fun _ => (update_over _ rfl).bind fun _ => Prog.stays_ret _) fun _ => Prog.stays_ret _

theorem stampEnd_over (call : Call) (e : ProviderEnd) :
    (stampEnd call e).Stays protocol (· = .past x c) := by
  refine .ite (fun _ => ?_) fun _ => Prog.stays_ret _
  exact (routes_over.read .now trivial).bind fun _ =>
    updateTimestamp_stays (update_over _ rfl) (update_over _ rfl)

theorem finishKnownCall_done (call : Call) (e : ProviderEnd) :
    (finishKnownCall call e).Takes protocol (· = .owing x call.id) Phase.Done := by
  have hcommit : ∀ now, (commitProviderEnd call e now).Takes protocol (Holding x call.id)
      (· = .past x call.id) := fun now =>
    .ite (fun _ => finalizeCallAsFailed_takes _ _) fun _ => finalizeFromWebhook_takes _ _ _
  have hover : ∀ q, q = .past x call.id → Phase.Done q := by
    rintro q rfl
    trivial
  rintro q rfl
  refine (Prog.follows_cmd_bind _ _ _ _).mpr ⟨.inr trivial, fun now => ?_⟩
  refine (hcommit now _ (.inl rfl)).bind fun won q hq => ?_
  refine ((reportFailure_over call e won).bind fun _ => (stampEnd_over call e).bind fun _ => ?_) q hq
  refine .ite (fun _ => ?_) fun _ => Prog.takes_ret hover _
  exact (settle_over _ _ _ _ _).bind fun _ =>
    (customerGaveUp_stays routes_over (fun a => Quiet.keeps (s := .incrementMissed a) trivial _) _ _).mono hover

/-- The end has found no row, or owes this one its end. -/
def Found (x : ProviderCall) : Option Call → Phase → Prop
  | none, q => q = .looking x
  | some call, q => q = .astray ∨ x.line.owns call = true ∧ q = .owing x call.id

theorem next_found (call : Option Call) :
    Found x call (protocol.next (.looking x) (.query (.findByProviderCallId x.key)) call) := by
  cases call with
  | none => rfl
  | some call =>
    by_cases ho : x.line.owns call = true
    · exact .inr ⟨ho, by simp [protocol, ho]⟩
    · exact .inl (by simp [protocol, ho])

theorem findCallPatiently_follows :
    (findCallPatiently x.key).Follows protocol (.looking x) fun call q => Found x call q := by
  refine (Prog.follows_cmd_bind _ _ _ _).mpr ⟨.inr trivial, fun call => ?_⟩
  have hfound := next_found (x := x) call
  cases call with
  | some call => exact hfound
  | none =>
    have hq : protocol.next (.looking x) (.query (.findByProviderCallId x.key)) none = .looking x :=
      hfound
    rw [hq]
    refine (Prog.follows_cmd_bind _ _ _ _).mpr ⟨.inr trivial, fun _ => ?_⟩
    exact (Prog.follows_cmd _ _ _).mpr ⟨.inr trivial, fun again => next_found again⟩

/-- An end that finds no row leaves a tombstone, and one that finds it ends it. -/
theorem callEnded_follows (e : ProviderEnd) (hid : e.providerCallId = x.id) :
    (callEnded x.line e).Follows protocol (.looking x) fun _ => Phase.Done := by
  have hkey : x.line.key e.providerCallId = x.key := by rw [hid]; rfl
  have hrelease : (record (.releaseOwnership x.key)).Stays protocol Phase.Done :=
    Quiet.keeps (s := .record (.releaseOwnership x.key)) trivial _
  unfold callEnded
  rw [hkey]
  refine findCallPatiently_follows.bind fun call q hq => ?_
  cases call with
  | none =>
    obtain rfl : q = .looking x := hq
    refine (Prog.follows_cmd_bind _ _ _ _).mpr ⟨.inr ⟨x, rfl, rfl⟩, fun _ => ?_⟩
    exact hrelease _ (by simp [protocol, Phase.Done])
  | some call =>
    rcases hq with rfl | ⟨ho, rfl⟩
    · exact (follows_astray _).mono fun _ _ h => Ended.done (x := x) (c := call.id) (.inl h)
    · have hfinish : (finishKnownCall call e >>= fun _ => record (.releaseOwnership x.key)).Takes
          protocol (· = .owing x call.id) Phase.Done :=
        (finishKnownCall_done call e).bind fun _ => hrelease
      simpa [ho] using hfinish _ rfl

/-! ## How a phase turns -/

/-- A statement with its answer. -/
abbrev Answered (s : Stmt) (r : s.Res) : Sigma Stmt.Res := ⟨s, r⟩

inductive Turn (s : Stmt) (r : s.Res) : Phase → Phase → Prop
  | stays (q : Phase) (hq : ∀ c u, s = .updateCall c u → u.ends = true → q.own ≠ some c) : Turn s r q q
  | found (x : ProviderCall) : Turn s r (.offering x) (.duplicate x)
  | made (x : ProviderCall) (row : CallRow) (c : Nat)
      (h : Answered s r = ⟨.createCall row, some c⟩) : Turn s r (.offering x) (.made x c false)
  | recording (x : ProviderCall) (row : CallRow) (c : Nat)
      (h : Answered s r = ⟨.createCall row, some c⟩) : Turn s r (.duplicate x) (.recording x c)
  | looked (x : ProviderCall) (c : Nat) (h : Answered s r = ⟨.query (.tombstone x.key), none⟩) :
      Turn s r (.made x c false) (.made x c true)
  | past (x : ProviderCall) (c : Nat) (q : Phase) (hq : Holding x c q) (u : CallUpdate)
      (hs : s = .updateCall c u) (hu : u.ends = true) : Turn s r q (.past x c)
  | cancelled (x : ProviderCall) (c : Nat) (u : CallUpdate) (hs : s = .updateCall c u)
      (hu : u.ends = true) : Turn s r (.recording x c) (.cancelled x c)
  | owing (x : ProviderCall) (call : Call)
      (h : Answered s r = ⟨.query (.findByProviderCallId x.key), some call⟩)
      (ho : x.line.owns call = true) : Turn s r (.looking x) (.owing x call.id)
  | marked (x : ProviderCall) (t : Tombstone) (hs : s = .record (.setTombstone x.key t)) :
      Turn s r (.looking x) (.marked x)
  | strange (x : ProviderCall) (call : Call)
      (h : Answered s r = ⟨.query (.findByProviderCallId x.key), some call⟩)
      (ho : x.line.owns call = false) : Turn s r (.looking x) .astray
  | missing (x : ProviderCall) (c : Nat) (looked : Bool) (call : Option Call)
      (h : Answered s r = ⟨.query (.findById c), call⟩) (hc : call.all (·.id ≠ c) = true) :
      Turn s r (.made x c looked) .astray

theorem turn_of_ends {q : Phase} {c : Nat} (hq : q.own = some c) {u : CallUpdate}
    (hu : u.ends = true) (r : Bool) : Turn (.updateCall c u) r q (next q (.updateCall c u) r) := by
  cases q with
  | made x d looked =>
    obtain rfl : d = c := Option.some.inj hq
    simpa [hu] using Turn.past x d _ (.inr ⟨looked, rfl⟩) u rfl hu
  | owing x d =>
    obtain rfl : d = c := Option.some.inj hq
    simpa [hu] using Turn.past x d _ (.inl rfl) u rfl hu
  | recording x d =>
    obtain rfl : d = c := Option.some.inj hq
    simpa [hu] using Turn.cancelled x d u rfl hu
  | _ => cases hq

theorem turn (q : Phase) (s : Stmt) (r : s.Res) : Turn s r q (next q s r) := by
  by_cases hends : ∃ c u, s = .updateCall c u ∧ u.ends = true ∧ q.own = some c
  · obtain ⟨c, u, rfl, hu, hq⟩ := hends
    exact turn_of_ends hq hu r
  have hstays : ∀ c u, s = .updateCall c u → u.ends = true → q.own ≠ some c :=
    fun c u hs hu hq => hends ⟨c, u, hs, hu, hq⟩
  unfold next
  split
  · split
    · exact .found _
    · exact .stays _ hstays
  · exact .made _ _ _ rfl
  · exact .recording _ _ _ rfl
  · rename_i x c looked k t
    cases looked with
    | true => exact .stays _ hstays
    | false =>
      by_cases hk : k = x.key
      · subst hk
        cases t with
        | none => simpa using Turn.looked x c rfl
        | some t => simpa using Turn.stays _ hstays
      · simpa [hk] using Turn.stays _ hstays
  · split
    · rename_i h
      obtain ⟨rfl, hc⟩ := h
      exact .missing _ _ _ _ rfl hc
    · exact .stays _ hstays
  · split
    · rename_i h
      exact absurd rfl (h.1 ▸ hstays _ _ rfl h.2)
    · exact .stays _ hstays
  · split
    · rename_i h
      exact absurd rfl (h.1 ▸ hstays _ _ rfl h.2)
    · exact .stays _ hstays
  · split
    · rename_i hk
      subst hk
      split
      · rename_i ho
        exact .owing _ _ rfl ho
      · rename_i ho
        exact .strange _ _ rfl (by simpa using ho)
    · exact .stays _ hstays
  · split
    · rename_i hk
      subst hk
      exact .marked _ _ rfl
    · exact .stays _ hstays
  · split
    · rename_i h
      exact absurd rfl (h.1 ▸ hstays _ _ rfl h.2)
    · exact .stays _ hstays
  · exact .stays _ hstays

/-! ## What a lawful statement does to a call's row -/

/-- A lawful write of call `c`: the columns that say whose call it is stay, and
only the IVR's auto-accept can bring an ended call back. -/
structure Grows (c : Nat) (s : Stmt) (row row' : CallRow) : Prop where
  channel : row'.channel = row.channel
  providerCallId : row'.providerCallId = row.providerCallId
  channelId : row'.channelId = row.channelId
  tenantId : row'.tenantId = row.tenantId
  customerAddress : row'.customerAddress = row.customerAddress
  direction : row'.direction = row.direction
  revived : row.ended = true → row'.ended = false →
    s = .updateCall c .markIvrAutoAccepted ∧ row.state = some .ivr
  state : row'.ended = true → row'.state = some .ivr → row.ended = true ∧ row.state = some .ivr

inductive OnRow (w : World) (c : Nat) (s : Stmt) : Prop
  | same (h : (s.exec w).1.call c = w.call c)
  | grown (row row' : CallRow) (h : w.call c = some row) (h' : (s.exec w).1.call c = some row')
      (hg : Grows c s row row')
  | created (row : CallRow) (hs : Answered s (s.exec w).2 = ⟨.createCall row, some c⟩)

theorem ended_of_ends {u : CallUpdate} (hu : u.ends = true) (now : Nat) (row : CallRow) :
    (u.set now row).ended = true ∧ (u.set now row).state = none := by
  cases u with
  | finalizeFromWebhook status _ _ => cases status <;> first | exact ⟨rfl, rfl⟩ | cases hu
  | markCallFailedIfNotFinal _ _ | terminateCallIfNotTerminated _ _ _ _ | finalizeCallAsFailed _ =>
    exact ⟨rfl, rfl⟩
  | _ => cases hu

/-- An end refused found the call over. -/
theorem ended_of_refused {u : CallUpdate} (hu : u.ends = true) {row : CallRow}
    (hg : u.guard row = false) : row.ended = true := by
  cases u with
  | terminateCallIfNotTerminated reason who endedAt requireStatus =>
    cases requireStatus with
    | none => simpa [CallUpdate.guard] using hg
    | some _ => cases hu
  | finalizeFromWebhook status _ _ => simpa [CallUpdate.guard] using hg
  | markCallFailedIfNotFinal _ _ => simpa [CallUpdate.guard] using hg
  | finalizeCallAsFailed _ =>
    have hs : row.status = .failed := by simpa [CallUpdate.guard] using hg
    simp [CallRow.ended, hs, CallStatus.active]
  | _ => cases hu

/-- An end leaves its call over. -/
theorem exec_ends {u : CallUpdate} (hu : u.ends = true) {w : World} {c : Nat} {row : CallRow}
    (hrow : w.call c = some row) :
    ∃ row', ((Stmt.updateCall c u).exec w).1.call c = some row' ∧ row'.ended = true := by
  cases hg : u.guard row with
  | true => exact ⟨_, Stmt.exec_updateCall hrow hg, (ended_of_ends hu w.now row).1⟩
  | false =>
    refine ⟨row, ?_, ended_of_refused hu hg⟩
    simp only [World.call] at hrow ⊢
    simp [Stmt.exec, Store.Table.get_updateWhere, hrow, hg]

/-- A call made is its row under the next id, and no row has its provider id. -/
theorem exec_create {w : World} {row : CallRow} {s : Stmt} {c : Nat}
    (h : Answered s (s.exec w).2 = ⟨.createCall row, some c⟩) :
    s = .createCall row ∧ w.taken row = false ∧ w.call c = none ∧
      (s.exec w).1.call c = some (row.inserted w.now) := by
  obtain rfl : s = .createCall row := congrArg Sigma.fst h
  have hsnd : ((Stmt.createCall row).exec w).2 = some c := eq_of_heq (Sigma.mk.inj h).2
  cases ht : w.taken row with
  | true =>
    rw [Stmt.exec_createCall_of_taken ht] at hsnd
    cases hsnd
  | false =>
    rw [Stmt.exec_createCall_of_free ht] at hsnd ⊢
    obtain rfl : w.calls.nextId = c := Option.some.inj hsnd
    exact ⟨rfl, rfl, Store.Table.get_nextId _, by simp [World.call]⟩

theorem grows_update {q : Phase} {w : World} {c : Nat} {u : CallUpdate} {row : CallRow}
    (hal : Lawful q (.updateCall c u)) (hg : u.guard row = true) :
    Grows c (.updateCall c u) row (u.set w.now row) := by
  rcases hal with hu | ⟨hu, -, -⟩ | ⟨rfl, -⟩
  · cases u with
    | updateTimestamp field t =>
      cases field <;> exact { channel := rfl, providerCallId := rfl, channelId := rfl, tenantId := rfl,
                              customerAddress := rfl, direction := rfl,
                              revived := fun h h' => absurd (h.symm.trans h') nofun,
                              state := fun h h' => ⟨h, h'⟩ }
    | correctNoAnswerIfAnswered | updateTerminatedByIfFailed _ | fillTimes _ _ _ _
    | assignCallToAgentIfUnassigned _ =>
      exact { channel := rfl, providerCallId := rfl, channelId := rfl, tenantId := rfl,
              customerAddress := rfl, direction := rfl,
              revived := fun h h' => absurd (h.symm.trans h') nofun,
              state := fun h h' => ⟨h, h'⟩ }
    | _ => cases hu
  · have hended := ended_of_ends hu w.now row
    have hrevived : row.ended = true → (u.set w.now row).ended = false →
        Stmt.updateCall c u = .updateCall c .markIvrAutoAccepted ∧ row.state = some .ivr :=
      fun _ h' => absurd (hended.1.symm.trans h') nofun
    have hstate : (u.set w.now row).ended = true → (u.set w.now row).state = some .ivr →
        row.ended = true ∧ row.state = some .ivr :=
      fun _ h' => absurd (hended.2.symm.trans h') nofun
    cases u with
    | markCallFailedIfNotFinal _ _ | terminateCallIfNotTerminated _ _ _ _ | finalizeFromWebhook _ _ _
    | finalizeCallAsFailed _ => exact ⟨rfl, rfl, rfl, rfl, rfl, rfl, hrevived, hstate⟩
    | _ => cases hu
  · have hivr : row.state = some .ivr := by simpa [CallUpdate.guard] using hg
    exact ⟨rfl, rfl, rfl, rfl, rfl, rfl, fun _ _ => ⟨rfl, hivr⟩, fun h _ => absurd h nofun⟩

theorem onRow {q : Phase} {s : Stmt} (hal : Lawful q s) (w : World) (c : Nat) :
    OnRow w c s := by
  cases Stmt.onCall w c s with
  | same h => exact .same h
  | updated u row hs hrow hg h =>
    subst hs
    exact .grown row _ hrow h (grows_update hal hg)
  | created row hs hrow h =>
    subst hs
    refine .created row ?_
    cases ht : w.taken row with
    | true =>
      rw [Stmt.exec_createCall_of_taken ht, hrow] at h
      cases h
    | false =>
      rw [Stmt.exec_createCall_of_free ht] at h ⊢
      have hid : c = w.calls.nextId := by
        by_contra hne
        simp only [World.call, Store.Table.get_insert, if_neg hne] at h hrow
        rw [hrow] at h
        cases h
      rw [hid]
  | filled row duration hs hrow h =>
    exact .grown row _ hrow h ⟨rfl, rfl, rfl, rfl, rfl, rfl, fun h h' => (by cases h.symm.trans h'),
      fun h h' => ⟨h, h'⟩⟩
  | claimed agentId anyShift row hs hrow hc ha h =>
    exact .grown row _ hrow h ⟨rfl, rfl, rfl, rfl, rfl, rfl, fun h h' => (by cases h.symm.trans h'),
      fun h h' => ⟨h, h'⟩⟩

end Arrival

end Callio
