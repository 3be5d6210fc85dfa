import Callio.Conduct.Handlers
import Callio.Persistence.Effects
import Mathlib.Data.Fintype.Basic

/-! One live call for each agent. An accept, a transfer and an outbound intent
each check the agent first, by a read or by the busy lock, and put the agent on
the call some statements later. The rule holds as long as no two such stretches
for one agent overlap, and nothing else puts an agent on a call: not a status
written to a call that has ended or is only offered, nor a decline by an agent
who is on another. -/

namespace Callio

open Concurrency Code

/-- The agent is answering the call, or on it. -/
def CallRow.Engages (row : CallRow) (agentId : Nat) : Prop :=
  row.agentId = some agentId ∧
    (row.status = .inProgress ∨ row.status = .ringing ∧ row.offeredAt = none)

def World.Engaged (w : World) (agentId callId : Nat) : Prop :=
  ∃ row, w.call callId = some row ∧ row.Engages agentId

/-- No agent is on two calls. -/
def World.OneCallEach (w : World) : Prop :=
  ∀ agentId c d, w.Engaged agentId c → w.Engaged agentId d → c = d

/-- The agent bound to a call: answering it, on it, or to dial it. An open offer
binds nobody. -/
def CallRow.bound (row : CallRow) : Option Nat :=
  if row.status = .initiated ∨ row.status = .inProgress ∨ row.status = .ringing ∧ row.offeredAt = none then
    row.agentId
  else none

def World.Bound (w : World) (agentId callId : Nat) : Prop :=
  ∃ row, w.call callId = some row ∧ row.bound = some agentId

/-- No agent is on two calls, those to be dialled included. -/
def World.BoundOnce (w : World) : Prop :=
  ∀ agentId c d, w.Bound agentId c → w.Bound agentId d → c = d

theorem CallRow.Engages.bound {row : CallRow} {a : Nat} (h : row.Engages a) : row.bound = some a := by
  unfold CallRow.bound
  rw [if_pos (.inr h.2)]
  exact h.1

theorem World.BoundOnce.oneCallEach {w : World} (h : w.BoundOnce) : w.OneCallEach := by
  rintro a c d ⟨row, hrow, hc⟩ ⟨row', hrow', hd⟩
  exact h a c d ⟨row, hrow, hc.bound⟩ ⟨row', hrow', hd.bound⟩

theorem CallRow.agentId_of_bound {row : CallRow} {a : Nat} (h : row.bound = some a) :
    row.agentId = some a ∧ row.status.active = true := by
  unfold CallRow.bound at h
  split at h
  · rename_i hs
    refine ⟨h, ?_⟩
    rcases hs with hs | hs | ⟨hs, _⟩ <;> rw [hs] <;> rfl
  · cases h

theorem CallRow.bound_inserted (now : Nat) (row : CallRow) : (row.inserted now).bound = row.bound := by
  simp [CallRow.bound, CallRow.inserted]

theorem not_bound_of_idle {w : World} {a : Nat} {excludeCallId : Option Nat}
    (h : w.hasActiveCall a excludeCallId = false) {d : Nat} (hd : w.Bound a d) :
    excludeCallId = some d := by
  obtain ⟨row, hrow, hb⟩ := hd
  obtain ⟨ha, hactive⟩ := CallRow.agentId_of_bound hb
  have hno := (Store.Table.any_eq_false _ _).mp h d row hrow
  simpa [ha, hactive] using hno

namespace OneLiveCall

/-- How far a handler is with putting an agent on a call. -/
inductive Phase
  /-- The agent has not been checked. -/
  | fresh
  /-- The agent was free of other calls when checked; an intent's call has no
  key yet, which is call 0 to the check. -/
  | bringing (agentId callId : Nat)
  | past
  /-- A decline, which makes no check. -/
  | declining
  | other
  deriving DecidableEq

def start : Handler → Phase
  | .agentJoined _ | .callTransferred .. | .createOutboundIntent _ => .fresh
  | .callRejected .. => .declining
  | _ => .other

/-- The agent is put on the call now, or no more. -/
def lands : (s : Stmt) → s.Res → Bool
  | .updateCall _ (.assignCallToAgentIfEligible _), won => !won
  | .updateCall _ (.updateCallAgentIfCurrent _ _), _ => true
  | .updateCall _ (.assignCallToAgentIfUnassigned _), _ => true
  | .updateCall _ (.transitionStatus _ _), _ => true
  | .createCall _, _ => true
  | .emit (.callHandled _ _), _ | .emit (.callError _ _), _ => true
  | _, _ => false

def next : Phase → (s : Stmt) → s.Res → Phase
  | .fresh, .query (.hasAgentActiveCall a c), active => if active = true then .past else .bringing a c
  | .fresh, .updateAgent a (.claimAgentForCall c), won => if won = true then .bringing a c else .fresh
  | .bringing a c, s, r => if lands s r then .past else .bringing a c
  | q, _, _ => q

/-- An agent is put on a call only after the check, or by a decline. -/
def allows (q : Phase) : Stmt → Prop
  | .updateCall c (.assignCallToAgentIfEligible a) => q = .bringing a c ∨ q = .declining
  | .updateCall c (.updateCallAgentIfCurrent _ a) => q = .bringing a c
  | .updateCall _ (.finalizeFromWebhook status _ _) => status = .terminated
  | .createCall row => row.agentId = none ∨ row.status = .initiated ∧ ∃ a, row.agentId = some a ∧ q = .bringing a 0
  | _ => True

abbrev protocol : Protocol Stmt.Res := ⟨Phase, next, allows⟩

/-! ## What puts an agent on a call -/

/-- The agent and call a statement binds that were not bound before. -/
def puts (w : World) : Stmt → Option (Nat × Nat)
  | .updateCall c u =>
      ((w.call c).filter u.guard).bind fun row =>
        ((u.set w.now row).bound.filter (row.bound ≠ some ·)).map (·, c)
  | .createCall row => if w.taken row then none else row.bound.map (·, w.calls.nextId)
  | _ => none

/-- An agent comes to a call by a statement that puts them there. -/
theorem bound_exec {w : World} {s : Stmt} {a c : Nat} (h : (s.exec w).1.Bound a c) :
    w.Bound a c ∨ puts w s = some (a, c) := by
  obtain ⟨row', hrow', hb⟩ := h
  rcases Stmt.onCall w c s with hsame | ⟨u, row, rfl, hrow, hg, hset⟩ | ⟨row, rfl, hnone, hset⟩ |
    ⟨row, _, _, hrow, hset⟩ | ⟨b, _, row, _, hrow, hc, _, hset⟩
  · exact .inl ⟨row', hsame ▸ hrow', hb⟩
  all_goals
    rw [hset] at hrow'
    cases hrow'
  · by_cases hbefore : row.bound = some a
    · exact .inl ⟨row, hrow, hbefore⟩
    · exact .inr (by simp [puts, hrow, Option.filter_some, hg, hb, hbefore])
  · cases ht : w.taken row with
    | true =>
      rw [Stmt.exec_createCall_of_taken ht] at hset
      rw [hset] at hnone
      cases hnone
    | false =>
      rw [Stmt.exec_createCall_of_free ht] at hset
      have hkey : c = w.calls.nextId := by
        by_contra hne
        simp only [World.call, Store.Table.get_insert, if_neg hne] at hset hnone
        rw [hset] at hnone
        cases hnone
      subst hkey
      rw [CallRow.bound_inserted] at hb
      exact .inr (by simp [puts, ht, hb])
  · exact .inl ⟨row, hrow, hb⟩
  · -- the call is only offered
    have hs : row.status = .ringing := by
      simp only [CallRow.assignable, Bool.and_eq_true, decide_eq_true_eq] at hc
      exact hc.1.1.2
    simp [CallRow.bound, hs] at hb

/-- A status written to a call, whoever its agent is: no check of the agent comes
with it. -/
def writesStatus : Stmt → Bool
  | .updateCall _ (.updateStatus _) | .updateCall _ (.updateCallState _ _)
  | .updateCall _ (.transitionStatus _ _) | .updateCall _ .markIvrAutoAccepted => true
  | _ => false

/-- The agent and call bound without a check of the agent for the call: by a status
written, or by a decline although the agent has another active call. -/
def unasked (w : World) (q : Phase) (s : Stmt) : Option (Nat × Nat) :=
  (puts w s).filter fun p =>
    writesStatus s && q ≠ .bringing p.1 p.2 || q = .declining && w.hasActiveCall p.1 (some p.2)

/-- Whatever else binds an agent was allowed after a check of the agent for the
call, or is a decline. -/
theorem checked_of_puts {w : World} {q : Phase} {s : Stmt} {a c : Nat} (hal : allows q s)
    (hs : writesStatus s = false) (h : puts w s = some (a, c)) :
    q = .bringing a c ∨ q = .declining ∨ q = .bringing a 0 ∧ ∃ row, s = .createCall row := by
  cases s with
  | updateCall id u =>
    simp only [puts, Option.bind_eq_some_iff, Option.map_eq_some_iff, Option.filter_eq_some_iff,
      decide_eq_true_eq] at h
    obtain ⟨row, ⟨-, hg⟩, b, ⟨hb, hbefore⟩, hp⟩ := h
    cases hp
    obtain ⟨ha, hactive⟩ := CallRow.agentId_of_bound hb
    cases u with
    | assignCallToAgentIfEligible b =>
      obtain rfl : b = a := Option.some.inj ha
      exact hal.imp id .inl
    | updateCallAgentIfCurrent old b =>
      obtain rfl : b = a := Option.some.inj ha
      exact .inl hal
    | updateStatus status | updateCallState state status | transitionStatus expected status
    | markIvrAutoAccepted => cases hs
    | updateTimestamp field value => cases field <;> exact absurd hb hbefore
    | finalizeFromWebhook status reason who =>
      obtain rfl : status = .terminated := hal
      cases hactive
    | claimHandover b | markHandoverOffered b =>
      simp only [CallUpdate.guard, Bool.and_eq_true, decide_eq_true_eq] at hg
      have hrow : row.agentId = some a := ha
      exact absurd (by simp [CallRow.bound, hg.2, hrow]) hbefore
    | expireHandover b t =>
      simp only [CallUpdate.guard, Bool.and_eq_true, decide_eq_true_eq] at hg
      have hrow : row.agentId = some a := ha
      exact absurd (by simp [CallRow.bound, hg.1.2, hrow]) hbefore
    | returnHandoverToQueue b t =>
      -- the row rings again, but with the offer open
      cases ho : row.offeredAt with
      | none => simp [CallUpdate.guard, CallRow.offeredBy, ho] at hg
      | some offered => simp [CallUpdate.set, CallRow.bound, ho] at hb
    | assignCallToAgentIfUnassigned b =>
      simp only [CallUpdate.guard, Bool.and_eq_true, decide_eq_true_eq] at hg
      simp [CallUpdate.set, CallRow.bound, hg.1.1.2] at hb
    | withdrawOffer _ _ | overflowToQueue _ _ _ => cases ha
    | markCallFailedIfNotFinal _ _ | terminateCallIfNotTerminated _ _ _ _ | finalizeCallAsFailed _ => cases hactive
    | _ => exact absurd hb hbefore
  | createCall row =>
    simp only [puts] at h
    split at h
    · cases h
    · obtain ⟨b, hb, hp⟩ := Option.map_eq_some_iff.mp h
      cases hp
      have ha := (CallRow.agentId_of_bound hb).1
      rcases hal with hnone | ⟨_, b, hb, hq⟩
      · rw [hnone] at ha
        cases ha
      · obtain rfl : b = a := Option.some.inj (hb.symm.trans ha)
        exact .inr (.inr ⟨hq, row, rfl⟩)
  | _ => cases h

/-! ## Handlers -/

/-- Allowed in every phase. -/
def Free (s : Stmt) : Prop := ∀ q, allows q s

theorem free_of_has {v : Vocabulary} {s : Stmt} (h : v.Has s)
    (hv : v ∉ [.accepting, .transferring, .initiating, .declining]) : Free s := by
  intro q
  cases s with
  | updateCall id u =>
    cases v <;> cases u <;> simp_all [allows]
  | createCall row =>
    cases v with
    | reporting => exact .inl h.1
    | claiming => obtain ⟨_, _, h⟩ := h; cases h
    | finishingIvr | waiting => obtain ⟨_, h⟩ := h; cases h
    | accepting | transferring | initiating | declining => simp at hv
    | _ => cases h
  | _ => trivial

theorem keeps_free {s : Stmt} (h : Free s) : protocol.Keeps (fun _ => True) s :=
  fun q _ => ⟨h q, fun _ => trivial⟩

theorem keeps_fresh {s : Stmt} (h : Free s) (hn : ∀ r, next .fresh s r = .fresh) :
    protocol.Keeps (· = .fresh) s := by
  rintro _ rfl
  exact ⟨h _, hn⟩

theorem keeps_bringing {s : Stmt} {a c : Nat} (h : Free s) (hl : ∀ r, lands s r = false) :
    protocol.Keeps (· = .bringing a c) s := by
  rintro _ rfl
  refine ⟨h _, fun r => ?_⟩
  show next (.bringing a c) s r = .bringing a c
  simp [next, hl r]

theorem free_of_routing {s : Stmt} (h : s.Routing ∨ s.Offering) : Free s :=
  h.elim (fun h => free_of_has (v := .routing) h (by decide))
    fun h => free_of_has (v := .offering) h (by decide)

theorem free_of_ending {s : Stmt} (h : s.Ending) : Free s := free_of_has (v := .ending) h (by decide)

theorem routes : Routes protocol fun _ => True := .of_keeps fun _ h => keeps_free (free_of_routing h)

theorem ends : Ends protocol fun _ => True := .of_keeps routes fun _ h => keeps_free (free_of_ending h)

section accept

variable (a : Accept)

/-- The phase of an accept whose check passed. -/
abbrev Checked (q : Phase) : Prop := q = .bringing a.userId a.callId

theorem checkCapacity_follows :
    a.checkCapacity.Follows protocol .fresh fun checked q => checked.isOk → Checked a q := by
  have hrow : (Code.read (.findById a.callId)).Stays protocol (· = .fresh) :=
    keeps_fresh (fun _ => trivial) fun _ => rfl
  have hqueue := QueueRouter.getQueue_stays (P := protocol) (Q := (· = .fresh))
    fun _ => keeps_fresh (fun _ => trivial) fun _ => rfl
  have hcapacity : ∀ queue, (QueueRouter.isAtCapacity queue a.callId).Stays protocol (· = .fresh) :=
    QueueRouter.isAtCapacity_stays fun _ => keeps_fresh (fun _ => trivial) fun _ => rfl
  refine (hrow _ rfl).bind fun row _ hq => (hqueue _ _ hq).bind fun queue _ hq => ?_
  refine (hcapacity queue _ hq).bind fun full _ hq => ?_
  obtain rfl := hq
  split
  · exact nofun
  · refine (Prog.follows_cmd_bind _ _ _ _).mpr ⟨trivial, fun active => ?_⟩
    cases active with
    | true => exact nofun
    | false => exact fun _ => rfl

theorem claim_follows (status : CallStatus) :
    (a.claim status).Follows protocol (.bringing a.userId a.callId) fun claimed q =>
      claimed.isOk → Checked a q := by
  have hbusy : protocol.Keeps (Checked a) (.query (.busyCallId a.userId)) :=
    keeps_bringing (fun _ => trivial) fun _ => rfl
  have hhold : (holdForOwnCall a.userId a.callId).Stays protocol (Checked a) :=
    holdForOwnCall_stays (keeps_bringing (fun _ => trivial) fun _ => rfl) hbusy
  unfold Accept.claim
  split
  · refine (Prog.follows_cmd_bind _ _ _ _).mpr ⟨.inl rfl, fun won => ?_⟩
    cases won with
    | false => exact nofun
    | true =>
      refine Prog.Follows.bind (Prog.stays_cmd hbusy _ rfl) fun _ _ hq => ?_
      exact (hhold _ hq).bind fun _ _ hq _ => hq
  · refine (Prog.follows_cmd_bind _ _ _ _).mpr ⟨trivial, fun won => ?_⟩
    cases won with
    | false => exact nofun
    | true => exact fun _ => rfl

/-- Once the agent is on the call, the accept puts nobody on any. -/
theorem stays_free {s : Stmt} (h : Free s) : (Prog.cmd s : Code s.Res).Stays protocol fun _ => True :=
  keeps_free h

theorem connectCall_takes (call : Call) :
    (a.connectCall call).Takes protocol (Checked a) fun _ => True := by
  have hstamp : ∀ now, (updateTimestamp a.callId .answeredAt now).Stays protocol fun _ => True :=
    fun _ => updateTimestamp_stays (keeps_free fun _ => trivial) (keeps_free fun _ => trivial)
  rintro _ rfl
  refine (Prog.follows_cmd_bind _ _ _ _).mpr ⟨.inl rfl, fun won => ?_⟩
  split
  · trivial
  refine (Prog.follows_cmd_bind _ _ _ _).mpr ⟨trivial, fun moved => ?_⟩
  split
  · exact ⟨trivial, fun _ => trivial⟩
  refine Prog.Takes.bind (stays_free (s := .updateCall a.callId (.updateState (some .active))) fun _ => trivial)
    (fun _ => ?_) _ trivial
  refine .ite (fun _ => ?_) fun _ => Prog.stays_ret _
  exact .bind (stays_free fun _ => trivial) fun now => (hstamp now).bind fun _ => Prog.stays_ret _

theorem applyAnswer_follows :
    a.applyAnswer.Follows protocol (.bringing a.userId a.callId) fun applied q =>
      applied.isOk → Checked a q := by
  refine (Prog.follows_cmd_bind _ _ _ _).mpr ⟨trivial, fun accepted => ?_⟩
  cases accepted with
  | ok => exact fun _ => rfl
  | noLeg => exact nofun
  | noAudio => exact (a.abortOnMediaFailure_stays ends _ trivial).bind fun _ _ _ => nofun

theorem answerCustomer_stays : a.answerCustomer.Stays protocol (Checked a) := by
  have hbeside : ∀ s, Free s → (∀ r, lands s r = false) →
      (Prog.cmd s : Code s.Res).Stays protocol (Checked a) := fun _ h hl => keeps_bringing h hl
  refine .bind (hbeside (.query _) (fun _ => trivial) fun _ => rfl) fun _ => ?_
  refine .ite (fun _ => Prog.stays_ret _) fun _ => ?_
  refine .bind (hbeside (.media _ .answerCustomer) (fun _ => trivial) fun _ => rfl) fun _ => ?_
  refine .bind (hbeside (.provider _ .accept) (fun _ => trivial) fun _ => rfl) fun _ => ?_
  refine .ite (fun _ => Prog.stays_ret _) fun _ => ?_
  refine .bind (hbeside (.query (.getStatus _)) (fun _ => trivial) fun _ => rfl) fun status => ?_
  rcases status with _ | _ | _ | _ | _ | _ <;> exact Prog.stays_ret _

theorem answerRecord_takes (record : Option Call) :
    (a.answerRecord record).Takes protocol (Checked a) fun _ => True := by
  have hto : ∀ q, Checked a q → True := fun _ _ => trivial
  cases record with
  | none => exact Prog.takes_ret hto _
  | some call =>
    refine .ite (fun _ => .ite (fun _ => ?_) fun _ => connectCall_takes a call) fun _ =>
      Prog.takes_ret hto _
    refine (answerCustomer_stays a).bind fun answered => ?_
    cases answered with
    | error err => exact Prog.takes_ret hto _
    | ok _ => exact connectCall_takes a call

theorem joinClaimed_takes : a.joinClaimed.Takes protocol (Checked a) fun _ => True := by
  have hconnected : a.connected.Stays protocol fun _ => True :=
    a.connected_stays (keeps_free fun _ => trivial) (keeps_free fun _ => trivial)
      (keeps_free fun _ => trivial) (keeps_free fun _ => trivial) (keeps_free fun _ => trivial)
  have hrecord : (Code.read (.findById a.callId)).Stays protocol (Checked a) :=
    keeps_bringing (fun _ => trivial) fun _ => rfl
  rintro _ rfl
  refine (applyAnswer_follows a).bind fun applied q hq => ?_
  cases applied with
  | error err => trivial
  | ok _ =>
    refine (hrecord.bind fun record => (answerRecord_takes a record).bind fun answered => ?_) q (hq rfl)
    cases answered with
    | error err => exact Prog.stays_ret _
    | ok _ => exact hconnected.bind fun _ => Prog.stays_ret _

theorem join_takes : a.join.Takes protocol (· = .fresh) fun _ => True := by
  rintro _ rfl
  refine (checkCapacity_follows a).bind fun checked q hq => ?_
  cases checked with
  | error err => trivial
  | ok _ =>
    obtain rfl : Checked a q := hq rfl
    refine (Prog.follows_cmd_bind _ _ _ _).mpr ⟨trivial, fun status => ?_⟩
    split
    · trivial
    refine (claim_follows a _).bind fun claimed q hq => ?_
    cases claimed with
    | error err => trivial
    | ok _ => exact joinClaimed_takes a q (hq rfl)

theorem handleAgentJoined_follows :
    (handleAgentJoined a).Follows protocol .fresh fun _ _ => True :=
  a.handleAgentJoined_takes routes (keeps_fresh (fun _ => trivial) fun _ => rfl) (join_takes a)
    (fun _ _ => trivial) (keeps_free fun _ => trivial) (fun _ => keeps_free fun _ => trivial) _ rfl

end accept

section transfer

/-- The transfer holds the agent it claimed, if any. -/
def Holds (callId : Nat) (q : Phase) : Option Nat → Prop
  | none => q = .fresh
  | some agentId => q = .bringing agentId callId

theorem claimInOrder_follows {claim : Nat → Code Claim} {callId : Nat}
    (hc : ∀ a, (claim a).Follows protocol .fresh fun claimed q =>
      Holds callId q (if claimed.assigned then some a else none)) (candidates : List Agent) :
    (claimInOrder claim candidates).Follows protocol .fresh fun out q =>
      Holds callId q (out.1.map (·.id)) := by
  induction candidates with
  | nil => rfl
  | cons a rest ih =>
    refine (hc a.id).bind fun claimed q hq => ?_
    by_cases hwon : claimed.assigned = true
    · rw [if_pos hwon] at hq ⊢
      exact hq
    · rw [if_neg hwon] at hq ⊢
      obtain rfl : q = .fresh := hq
      exact ih.bind fun _ _ hout => hout

theorem claimAgentForCall_follows (callId a : Nat) :
    (updateAgent a (.claimAgentForCall callId)).Follows protocol .fresh fun won q =>
      Holds callId q (if won then some a else none) := by
  refine ⟨trivial, fun won => ?_⟩
  cases won <;> rfl

theorem resolveTransferTarget_follows (callId tenantId : Nat) (request : TransferRequest)
    (excludeAgentId : Option Nat) :
    (resolveTransferTarget callId tenantId request excludeAgentId).Follows protocol .fresh
      fun target q => Holds callId q (target.map (·.1)) := by
  cases request with
  | toAgent agentId =>
    refine (Prog.follows_cmd_bind _ _ _ _).mpr ⟨trivial, fun target => ?_⟩
    cases target with
    | none => rfl
    | some target =>
      show Prog.Follows _ _ _ (if _ then _ else _)
      split
      · rfl
      · refine (claimAgentForCall_follows callId agentId).bind fun won q hq => ?_
        cases won <;> exact hq
  | toQueue queueId =>
    refine (Prog.follows_cmd_bind _ _ _ _).mpr ⟨trivial, fun queue => ?_⟩
    cases queue with
    | none => rfl
    | some queue =>
      show Prog.Follows _ _ _ (if _ then _ else _)
      split
      · rfl
      · have hordered (strategy : QueueStrategy) (members : List Agent) :
            (QueueRouter.ordered queue strategy members).Stays protocol (· = .fresh) :=
          QueueRouter.ordered_stays (keeps_fresh (fun _ => trivial) fun _ => rfl)
        have hclaim (a : Nat) : (updateAgent a (.claimAgentForCall callId) >>= fun won =>
            pure ⟨won, won⟩ : Code Claim).Follows protocol .fresh fun claimed q =>
              Holds callId q (if claimed.assigned then some a else none) :=
          (claimAgentForCall_follows callId a).bind fun _ _ hq => hq
        have hmember : (QueueRouter.claimMemberForTransfer queue callId excludeAgentId).Follows protocol
            .fresh fun agent q => Holds callId q (agent.map (·.id)) := by
          refine (Prog.follows_cmd_bind _ _ _ _).mpr ⟨trivial, fun members => ?_⟩
          refine (hordered _ _ _ rfl).bind fun candidates q hq => ?_
          obtain rfl := hq
          exact (claimInOrder_follows hclaim candidates).bind fun _ _ hout => hout
        refine hmember.bind fun agent q hq => ?_
        cases agent <;> exact hq

theorem free_of_handingOver {s : Stmt} (h : s.HandingOver ∨ s.Offering) : Free s := by
  intro q
  cases s with
  | updateCall c u => cases u <;> simp_all [allows]
  | createCall row => simp at h
  | _ => trivial

theorem findAgentIf_follows (agentId : Option Nat) :
    (findAgentIf agentId).Follows protocol .fresh fun _ q => q = .fresh := by
  cases agentId with
  | none => rfl
  | some agentId => exact ⟨trivial, fun _ => rfl⟩

theorem handleCallTransferred_follows (callId tenantId : Nat) (request : TransferRequest) (assignorId : Option Nat) :
    (handleCallTransferred callId tenantId request assignorId).Follows protocol .fresh fun _ _ => True := by
  refine (Prog.follows_cmd_bind _ _ _ _).mpr ⟨trivial, fun call => ?_⟩
  cases call with
  | none => trivial
  | some call =>
  show Prog.Follows _ _ _ (if _ then _ else _)
  split
  · trivial
  refine (findAgentIf_follows _).bind fun _ q hq => ?_
  obtain rfl := hq
  refine (findAgentIf_follows _).bind fun _ q hq => ?_
  obtain rfl := hq
  refine (resolveTransferTarget_follows _ _ _ _).bind fun target q hq => ?_
  rcases target with _ | ⟨newAgentId, queueId⟩
  · trivial
  obtain rfl : q = .bringing newAgentId callId := hq
  show Prog.Follows _ _ _ (if _ then _ else _)
  split
  · trivial
  have hmove : (moveCall callId call.agentId newAgentId).Follows protocol (.bringing newAgentId callId)
      fun _ _ => True := by
    cases call.agentId with
    | none => exact ⟨trivial, fun _ => trivial⟩
    | some old => exact ⟨rfl, fun _ => trivial⟩
  refine hmove.bind fun moved q _ => ?_
  split
  · refine handOver_stays (fun s hs => keeps_free (free_of_handingOver (.inl hs))) _ _ _ _ ?_ q trivial
    exact (MediaLegs.offerAgent_stays (fun s hs => keeps_free (free_of_handingOver (.inr hs.offering))) _).bind
      fun _ => keeps_free fun _ => trivial
  · exact (releaseAgent_stays (P := protocol) (Q := fun _ => True) (keeps_free fun _ => trivial)
      (fun h => absurd h (by decide)) q trivial).bind fun _ _ _ => trivial

end transfer

/-- An outbound intent is recorded only after the check. -/
theorem createOutboundIntent_follows (i : OutboundIntent) :
    (createOutboundIntent i).Follows protocol .fresh fun _ _ => True := by
  unfold createOutboundIntent
  split
  · trivial
  refine (Prog.follows_cmd_bind _ _ _ _).mpr ⟨trivial, fun active => ?_⟩
  cases active with
  | true => trivial
  | false => exact ⟨.inr ⟨rfl, _, rfl, rfl⟩, fun _ => trivial⟩

theorem free_of_starting {s : Stmt} (h : s.Starting) : Free s := by
  intro q
  cases s with
  | updateCall c u => cases u <;> simp_all [allows]
  | createCall row => cases h
  | _ => trivial

/-- A decline puts its agent on the call whenever it likes. -/
theorem keeps_declining {s : Stmt} (h : Free s ∨ ∃ c a, s = .updateCall c (.assignCallToAgentIfEligible a)) :
    protocol.Keeps (· = .declining) s := by
  rintro _ rfl
  refine ⟨?_, fun _ => rfl⟩
  rcases h with h | ⟨c, a, rfl⟩
  · exact h _
  · exact .inr rfl

theorem callRejected_follows (c u : Nat) :
    (Handler.callRejected c u).code.Follows protocol .declining fun _ _ => True := by
  have hfree : ∀ s : Stmt, s.Routing ∨ s.Offering → protocol.Keeps (· = .declining) s :=
    fun s hs => keeps_declining (.inl (free_of_routing hs))
  refine ((Handler.callRejected c u).code_stays (.of_keeps fun s hs => hfree s hs)
    (fun s hs => keeps_declining (.inl (free_of_ending hs)))
    (fun _ a => hfree (.incrementMissed a) (.inl trivial)) (fun v hv s hs => keeps_declining ?_) _ rfl).mono
    fun _ _ _ => trivial
  simp only [Handler.vocabulary, List.mem_cons, List.not_mem_nil, or_false] at hv
  rcases hv with rfl | rfl
  · exact .inl (free_of_has hs (by decide))
  · cases s with
    | updateCall d w =>
      cases w with
      | assignCallToAgentIfEligible a => exact .inr ⟨d, a, rfl⟩
      | _ => cases hs
    | emit e => exact .inl fun _ => trivial
    | _ => cases hs

/-- Every handler follows the protocol. -/
theorem follows (h : Handler) : h.code.Follows protocol (start h) fun _ _ => True := by
  have hother (hv : ∀ v ∈ h.vocabulary, v ∉ [.accepting, .transferring, .initiating, .declining]) :
      h.code.Follows protocol (start h) fun _ _ => True :=
    (h.code_stays (.of_keeps fun s hs => keeps_free (free_of_routing hs))
      (fun s hs => keeps_free (free_of_ending hs))
      (fun _ a => keeps_free (free_of_routing (s := .incrementMissed a) (.inl trivial)))
      (fun v hm s hs => keeps_free (free_of_has hs (hv v hm))) _ trivial).mono fun _ _ _ => trivial
  cases h with
  | agentJoined a => exact handleAgentJoined_follows a
  | callTransferred c t request assignorId => exact handleCallTransferred_follows c t request assignorId
  | createOutboundIntent i => exact createOutboundIntent_follows i
  | callRejected c u => exact callRejected_follows c u
  | callStart c u t =>
    exact (handleCallStart_stays ends (fun s hs => keeps_free (free_of_starting hs)) c u t _ trivial).mono
      fun _ _ _ => trivial
  | inboundCall line offer outcome =>
    refine hother ?_
    simp only [Handler.vocabulary]
    split <;> simp
  | statusChanged line p status t =>
    refine hother ?_
    simp only [Handler.vocabulary]
    split <;> simp
  | _ => exact hother (by simp [Handler.vocabulary])

/-! ## Runs -/

/-- The handler checked the agent for another call than `c`. -/
def Phase.bringsElse (a c : Nat) : Phase → Bool
  | bringing b d => b = a && d ≠ c
  | _ => false

section runs

variable {ι : Type}

abbrev phases (hs : ι → Handler) (s : Service ι) : ι → Phase :=
  protocol.phases (fun i => start (hs i)) s

/-- An agent is put on a call while another handler is between its own check of
the agent and its claim, for another call. -/
def Overlaps (hs : ι → Handler) (s : Service ι) (i : ι) : Prop :=
  ∃ j, j ≠ i ∧ ((s.next i).bind (puts s.state)).any (fun p => (phases hs s j).bringsElse p.1 p.2) = true

/-- An agent is put on a call with no check of theirs for it. -/
def Unasked (hs : ι → Handler) (s : Service ι) (i : ι) : Prop :=
  ((s.next i).bind (unasked s.state (phases hs s i))).isSome = true

structure Invariant (w : World) (ph : ι → Phase) : Prop where
  boundOnce : w.BoundOnce
  checked : ∀ i a c, ph i = .bringing a c → ∀ d, w.Bound a d → d = c

theorem not_bound_zero (w : World) (a : Nat) : ¬ w.Bound a 0 := by
  rintro ⟨row, hrow, _⟩
  exact absurd (hrow.symm.trans w.calls.zero) nofun

/-- Whoever puts an agent on a call has checked the agent for it, or the agent is
free of other calls now. -/
theorem asked_of_puts {hs : ι → Handler} {cfg : Service ι} {i : ι} {s : Stmt} {a c : Nat}
    (hn : cfg.next i = some s) (hasked : ¬ Unasked hs cfg i) (hal : allows (phases hs cfg i) s)
    (hput : puts cfg.state s = some (a, c)) :
    phases hs cfg i = .bringing a c ∨
      phases hs cfg i = .declining ∧ cfg.state.hasActiveCall a (some c) = false ∨
      phases hs cfg i = .bringing a 0 ∧ ∃ row, s = .createCall row := by
  have hno : ¬ (writesStatus s = true ∧ phases hs cfg i ≠ .bringing a c ∨
      phases hs cfg i = .declining ∧ cfg.state.hasActiveCall a (some c) = true) := by
    simpa [Unasked, hn, unasked, hput, Option.filter_some] using hasked
  rw [not_or] at hno
  by_cases hwrites : writesStatus s = true
  · by_contra hne
    exact hno.1 ⟨hwrites, fun hq => hne (.inl hq)⟩
  · rcases checked_of_puts hal (by simpa using hwrites) hput with hq | hq | hq
    · exact .inl hq
    · have hidle : cfg.state.hasActiveCall a (some c) = false := by
        by_contra hactive
        exact hno.2 ⟨hq, by simpa using hactive⟩
      exact .inr (.inl ⟨hq, hidle⟩)
    · exact .inr (.inr hq)

/-- Whoever is put on a call is on no other. -/
theorem free_of_puts {hs : ι → Handler} {cfg : Service ι} {i : ι} {s : Stmt} {a c : Nat}
    (hn : cfg.next i = some s) (hasked : ¬ Unasked hs cfg i) (hal : allows (phases hs cfg i) s)
    (h : Invariant cfg.state (phases hs cfg)) (hput : puts cfg.state s = some (a, c)) :
    ∀ d, cfg.state.Bound a d → d = c := by
  intro d hd
  rcases asked_of_puts hn hasked hal hput with hq | ⟨_, hidle⟩ | ⟨hq, _⟩
  · exact h.checked i a c hq d hd
  · exact (Option.some.inj (not_bound_of_idle hidle hd)).symm
  · -- an intent's check finds the agent on no call at all
    obtain rfl := h.checked i a 0 hq d hd
    exact absurd hd (not_bound_zero _ a)

/-- The check of an agent begins with a read, or with the busy lock. -/
theorem next_bringing {q : Phase} {s : Stmt} {r : s.Res} {a c : Nat}
    (h : next q s r = .bringing a c) :
    q = .bringing a c ∧ lands s r = false ∨
      (⟨s, r⟩ : Sigma Stmt.Res) = ⟨.query (.hasAgentActiveCall a c), false⟩ ∨
      (⟨s, r⟩ : Sigma Stmt.Res) = ⟨.updateAgent a (.claimAgentForCall c), true⟩ := by
  unfold next at h
  split at h
  · split at h
    · cases h
    · rename_i hr
      cases h
      exact .inr (.inl (by rw [Bool.not_eq_true] at hr; rw [hr]))
  · split at h
    · rename_i hr
      cases h
      exact .inr (.inr (by rw [hr]))
    · cases h
  · split at h
    · cases h
    · rename_i hl
      cases h
      exact .inl ⟨rfl, by simpa using hl⟩
  · rename_i hno _ _
    exact (hno a c h).elim

variable [DecidableEq ι]

theorem Invariant.step {cfg : Service ι} {hs : ι → Handler} {i : ι} {s : Stmt}
    {k : s.Res → Prog Stmt.Res Unit} (hp : (cfg.threads i).prog = .call s k)
    (hover : ¬ Overlaps hs cfg i) (hasked : ¬ Unasked hs cfg i)
    (hal : allows (phases hs cfg i) s) (h : Invariant cfg.state (phases hs cfg)) :
    Invariant (s.exec cfg.state).1 (Function.update (phases hs cfg) i
      (next (phases hs cfg i) s (s.exec cfg.state).2)) := by
  have hnext : cfg.next i = some s := Service.next_eq_some.mpr ⟨k, hp⟩
  have hland : ∀ a c d, puts cfg.state s = some (a, c) → cfg.state.Bound a d → d = c :=
    fun a c d hput => free_of_puts hnext hasked hal h hput d
  refine ⟨?_, ?_⟩
  · intro a c d hc hd
    rcases bound_exec hc with hc | hc <;> rcases bound_exec hd with hd | hd
    · exact h.boundOnce a c d hc hd
    · exact hland a d c hd hc
    · exact (hland a c d hc hd).symm
    · exact (Prod.mk.inj (Option.some.inj (hc.symm.trans hd))).2
  · intro j a c hj d hd
    by_cases hji : j = i
    · subst hji
      rw [Function.update_self] at hj
      rcases next_bringing hj with ⟨hq, hl⟩ | hread | hclaim
      · rcases bound_exec hd with hd | hd
        · exact h.checked j a c hq d hd
        · rcases asked_of_puts hnext hasked hal hd with hq' | ⟨hq', _⟩ | ⟨_, row, rfl⟩
          · rw [hq] at hq'
            cases hq'
            rfl
          · rw [hq] at hq'
            cases hq'
          · cases hl
      · obtain ⟨rfl, hr⟩ := Stmt.answer_of_read hread
        exact (Option.some.inj (not_bound_of_idle hr.symm hd)).symm
      · obtain ⟨rfl, row, _, hg, _⟩ := Stmt.agent_of_won hclaim
        simp only [AgentUpdate.guard, Bool.and_eq_true, Bool.not_eq_true'] at hg
        exact absurd (not_bound_of_idle hg.2 hd) nofun
    · rw [Function.update_of_ne hji] at hj
      rcases bound_exec hd with hd | hd
      · exact h.checked j a c hj d hd
      · by_contra hdc
        refine hover ⟨j, hji, ?_⟩
        rw [hnext]
        simp only [Option.bind_some, hd, Option.any_some]
        show (phases hs cfg j).bringsElse a d = true
        rw [hj]
        simpa [Phase.bringsElse] using fun hcd => hdc hcd.symm

instance [Fintype ι] (hs : ι → Handler) (s : Service ι) (i : ι) : Decidable (Overlaps hs s i) :=
  inferInstanceAs (Decidable (∃ _, _))

instance (hs : ι → Handler) (s : Service ι) (i : ι) : Decidable (Unasked hs s i) :=
  inferInstanceAs (Decidable (_ = _))

end runs

/-! ## One agent accepts two calls of a RING_ALL queue -/

def waitingCall : CallRow :=
  { direction := .inbound, status := .ringing, queueId := some 1, ringingAt := some 0,
    queuedAt := some 0 }

/-- Calls 1 and 2 ring everyone in queue 1. -/
def ringingAll : World :=
  { calls := .ofList [fun _ => waitingCall, fun _ => waitingCall], agents := .ofList [fun _ => {}],
    queues := fun q => if q = 1 then some { strategy := .ringAll } else none, members := fun _ => [1],
    customerOffer := fun _ => true, rooms := fun _ => { legSeq := 1, pendingAgent := some 1 } }

def acceptsBoth : Fin 2 → Handler
  | 0 => .agentJoined { callId := 1, userId := 1, sdpAnswer := .answer 1 }
  | 1 => .agentJoined { callId := 2, userId := 1, sdpAnswer := .answer 1 }

theorem call_ringingAll {c : Nat} {row : CallRow} (h : ringingAll.call c = some row) :
    row = waitingCall := by
  simp only [World.call, ringingAll, Store.Table.ofList, List.foldl, Store.Table.get_insert] at h
  repeat' split at h
  · exact (Option.some.inj h).symm
  · exact (Option.some.inj h).symm
  · cases h

theorem boundOnce_ringingAll : ringingAll.BoundOnce := by
  rintro a c d ⟨row, hrow, hb⟩ _
  obtain rfl := call_ringingAll hrow
  cases hb

/-- Agent 1 asks for a call, starts it and is put through, and then accepts call 1. -/
def dialsOut : Fin 5 → Handler
  | 0 => .createOutboundIntent { line := { id := 1 }, agentId := 1, customerAddress := 7 }
  | 1 => .callStart 3 1 1
  | 2 => .customerConnection 3 (some 9)
  | 3 => .statusChanged { id := 1 } 9 .accepted none
  | 4 => .agentJoined { callId := 1, userId := 1, sdpAnswer := .answer 1 }

end OneLiveCall

end Callio
