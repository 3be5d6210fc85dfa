import Callio.Conduct.Handlers
import Callio.Persistence.Effects
import Mathlib.Data.Fintype.Basic

/-! The customer's leg of an outbound call that is ended while it is dialled. The
provider's call id is stored once the provider has answered the dial, and an end
tells the provider only what its own row says: an end whose row was read before
leaves the leg. -/

namespace Callio.DialledLeg

open Concurrency Code

/-! ## What a thread knows of the call -/

inductive Phase
  /-- The customer is yet to be dialled. -/
  | toDial
  | dialled
  /-- On a path that tells the provider, no row of the call read. -/
  | unseen
  /-- Every row read had the provider's call id. -/
  | knows
  /-- A row read had none, or the path tells the provider nothing. -/
  | unaware
  /-- It has ended the call, and the provider is yet to be told. -/
  | owes
  | told
  deriving DecidableEq

/-- The handlers whose ends tell the provider. The others end a call the provider
reports over, a call that never rang, or none. -/
def tells : Handler → Bool
  | .callTerminated _ _ _ | .reconnectExpired _ | .callRejected _ _ | .agentJoined _ => true
  | .batchCleanup _ | .periodicCleanup | .ivrRingCleanup | .releaseStaleCalls _ => true
  | .queueTimeoutTick _ | .lineRingExpired _ | .ivrFinished _ _ | .ivrTransfer _ => true
  | _ => false

def start (c : Nat) : Handler → Phase
  | .customerConnection d _ => if d = c then .toDial else .unaware
  | h => if tells h then .unseen else .unaware

/-- The rows a statement reads that a path may go on to end. -/
def rowsRead : (s : Stmt) → s.Res → List Call
  | .query (.findById _), call => call.toList
  | .query (.findByIds _), calls => calls
  | .query .findExpiredWaits, waits => waits.map (·.1)
  | .query (.findExpiredHandovers _), calls => calls
  | _, _ => []

def see (c : Nat) (p : Phase) (rows : List Call) : Phase :=
  if p ≠ .unseen ∧ p ≠ .knows ∨ rows.all (·.id ≠ c) = true then p
  else if rows.all (fun call => call.id ≠ c || call.providerCallId.isSome) = true then .knows
  else .unaware

/-- The updates that may end a call. -/
def finishes : CallUpdate → Bool
  | .updateStatus status | .transitionStatus _ status | .updateCallState _ (some status) => !status.active
  | .markCallFailedIfNotFinal _ _ | .terminateCallIfNotTerminated _ _ _ _ => true
  | .finalizeFromWebhook _ _ _ | .finalizeCallAsFailed _ => true
  | _ => false

/-- The requests that end a leg. -/
def endsLeg : ProviderAction → Bool
  | .reject | .rejectBusy | .terminate => true
  | .accept | .initiate => false

def next (c : Nat) : Phase → (s : Stmt) → s.Res → Phase
  | .toDial, .provider d .initiate, _ => if d = c then .dialled else .toDial
  | .knows, .updateCall d u, won => if d = c ∧ won = true ∧ finishes u = true then .owes else .knows
  | .owes, .provider d action, _ => if d = c ∧ endsLeg action = true then .told else .owes
  | p, s, r => see c p (rowsRead s r)

/-- Only the dialling dials, and stores the provider's call id; a path ends the
call by a row it has read. -/
def allows (c : Nat) (p : Phase) : Stmt → Prop
  | .provider d .initiate => d = c → p = .toDial
  | .updateCall d (.updateProviderCallId _) => d = c → p = .dialled
  | .updateCall d u => d = c → finishes u = true → p ≠ .unseen
  | _ => True

/-- Where a handler may finish. -/
def Done (p : Phase) : Prop := p ≠ .owes

abbrev protocol (c : Nat) : Protocol Stmt.Res := ⟨Phase, next c, allows c⟩

/-! ## Handlers -/

variable {c : Nat}

/-- The statement neither dials the call, nor stores its provider's id, nor ends it,
nor tells the provider. -/
@[simp] def Plain (c : Nat) : Stmt → Prop
  | .provider d action => d = c → action = .accept
  | .updateCall _ (.updateProviderCallId _) => False
  | .updateCall d u => d = c → finishes u = false
  | _ => True

/-- The statement neither dials the call nor stores its provider's id. -/
@[simp] def NotDialling (c : Nat) : Stmt → Prop
  | .provider d action => d = c → action ≠ .initiate
  | .updateCall _ (.updateProviderCallId _) => False
  | _ => True

theorem Plain.notDialling {s : Stmt} (h : Plain c s) : NotDialling c s := by
  cases s with
  | provider d action =>
    rintro hd rfl
    cases h hd
  | updateCall d u => cases u <;> trivial
  | _ => trivial

theorem see_eq {p : Phase} (h₁ : p ≠ .unseen) (h₂ : p ≠ .knows) (rows : List Call) : see c p rows = p :=
  if_pos (.inl ⟨h₁, h₂⟩)

theorem allows_of_notDialling {p : Phase} (hp : p ≠ .unseen) {s : Stmt} (hs : NotDialling c s) : allows c p s := by
  unfold allows
  split
  · exact fun hd => absurd rfl (hs hd)
  · exact hs.elim
  · exact fun _ _ => hp
  · trivial

/-- The phases that only dialling and ending leave. -/
def Settled (p : Phase) : Prop := p = .dialled ∨ p = .unaware ∨ p = .told

theorem keeps_settled {p : Phase} (hp : Settled p) {s : Stmt} (hs : NotDialling c s) :
    (protocol c).Keeps (· = p) s := by
  rintro _ rfl
  refine ⟨allows_of_notDialling ?_ hs, fun r => ?_⟩
  · rcases hp with rfl | rfl | rfl <;> exact nofun
  · show next c _ s r = _
    rcases hp with rfl | rfl | rfl <;> exact see_eq (by decide) (by decide) _

theorem keeps_owes {s : Stmt} (hs : Plain c s) : (protocol c).Keeps (· = .owes) s := by
  rintro _ rfl
  refine ⟨allows_of_notDialling (by decide) hs.notDialling, fun r => ?_⟩
  show next c .owes s r = .owes
  unfold next
  split
  · contradiction
  · contradiction
  · rw [if_neg]
    rintro ⟨hd, hends⟩
    rw [hs hd] at hends
    cases hends
  · exact see_eq (by decide) (by decide) _

theorem notDialling_of_has {v : Vocabulary} {s : Stmt} (h : v.Has s) (hv : v ≠ .dialling) : NotDialling c s := by
  cases s with
  | provider d action =>
    rintro - rfl
    cases v <;> simp_all
  | updateCall d u =>
    cases u with
    | updateProviderCallId p => cases v <;> simp_all
    | _ => trivial
  | _ => trivial

/-! ### The rows at hand -/

/-- Between a path's ends: a row at hand of the call has been seen, and carries the
provider's id if all rows seen do. -/
def Ready (c : Nat) (calls : List Call) (p : Phase) : Prop :=
  (p = .unseen ∨ p = .knows ∨ p = .unaware ∨ p = .told) ∧
    ∀ call ∈ calls, call.id = c → p ≠ .unseen ∧ (p = .knows → call.providerCallId.isSome = true)

variable {calls : List Call}

theorem Ready.done {p : Phase} (h : Ready c calls p) : Done p := by
  rcases h.1 with rfl | rfl | rfl | rfl <;> exact nofun

theorem Ready.mono {p : Phase} {calls' : List Call} (h : Ready c calls p) (hsub : calls' ⊆ calls) :
    Ready c calls' p :=
  ⟨h.1, fun call hcall => h.2 call (hsub hcall)⟩

theorem ready_of_settled {p : Phase} (hp : p = .unaware ∨ p = .told) : Ready c calls p := by
  rcases hp with rfl | rfl
  · exact ⟨.inr (.inr (.inl rfl)), fun _ _ _ => ⟨nofun, nofun⟩⟩
  · exact ⟨.inr (.inr (.inr rfl)), fun _ _ _ => ⟨nofun, nofun⟩⟩

/-- Rows read are at hand. -/
theorem ready_see {p : Phase} (h : Ready c [] p) (rows : List Call) : Ready c rows (see c p rows) := by
  have hphase := h.1
  unfold see
  split
  · rename_i hsame
    refine ⟨h.1, fun call hcall hid => ?_⟩
    rcases hsame with ⟨hunseen, hknows⟩ | hnone
    · exact ⟨hunseen, fun hp => absurd hp hknows⟩
    · have hother := List.all_eq_true.mp hnone call hcall
      simp only [decide_eq_true_eq] at hother
      exact absurd hid hother
  · split
    · rename_i hall
      refine ⟨.inr (.inl rfl), fun call hcall hid => ⟨nofun, fun _ => ?_⟩⟩
      simpa [hid] using List.all_eq_true.mp hall call hcall
    · exact ready_of_settled (.inl rfl)

/-- Rows at hand stay so as others are read. -/
theorem ready_see_of_ready {p : Phase} (h : Ready c calls p) (rows : List Call) : Ready c calls (see c p rows) := by
  unfold see
  split
  · exact h
  · rename_i hmoved
    split
    · refine ⟨.inr (.inl rfl), fun call hcall hid => ⟨nofun, fun _ => ?_⟩⟩
      obtain ⟨hunseen, hknows⟩ := h.2 call hcall hid
      by_contra hmissing
      exact hmoved (.inl ⟨hunseen, fun hp => hmissing (hknows hp)⟩)
    · exact ready_of_settled (.inl rfl)

theorem keeps_ready {s : Stmt} (hs : Plain c s) : (protocol c).Keeps (Ready c calls) s := by
  intro p hp
  constructor
  · by_cases hunseen : p = .unseen
    · subst hunseen
      show allows c .unseen s
      unfold allows
      split
      · intro hd
        cases hs hd
      · exact hs.elim
      · rename_i d u _
        intro hd hf
        have hno : finishes u = false := by
          cases u <;> first | exact hs hd | exact hs.elim
        rw [hno] at hf
        cases hf
      · trivial
    · exact allows_of_notDialling hunseen hs.notDialling
  · intro r
    show Ready c calls (next c p s r)
    unfold next
    split
    · simp [Ready] at hp
    · rename_i d u won
      rw [if_neg]
      · exact hp
      · rintro ⟨hd, -, hf⟩
        have hno : finishes u = false := by
          cases u <;> first | exact hs hd | exact hs.elim
        rw [hno] at hf
        cases hf
    · simp [Ready] at hp
    · exact ready_see_of_ready hp _

theorem plain_of_routing {s : Stmt} (h : s.Routing ∨ s.Offering) : Plain c s := by
  cases s with
  | provider d action => rcases h with h | h <;> cases h
  | updateCall d u => rcases h with h | h <;> cases h
  | _ => trivial

theorem routes_ready : Routes (protocol c) (Ready c calls) := .of_keeps fun _ hs => keeps_ready (plain_of_routing hs)

theorem claims_ready : Claims (protocol c) (Ready c calls) :=
  ⟨routes_ready.toLooks, fun _ _ => keeps_ready (plain_of_routing (.inl trivial))⟩

theorem routes_owes : Routes (protocol c) (· = .owes) := .of_keeps fun _ hs => keeps_owes (plain_of_routing hs)

theorem ends_settled {p : Phase} (hp : Settled p) : Ends (protocol c) (· = p) := by
  refine .of_keeps (.of_keeps fun s hs => keeps_settled hp (plain_of_routing hs).notDialling) fun s hs => ?_
  exact keeps_settled hp (notDialling_of_has (v := .ending) hs nofun)

/-! ### One end -/

theorem plain_of_ending {s : Stmt} (h : s.Ending) (hp : ∀ action, s ≠ .provider c action)
    (hu : ∀ u, s ≠ .updateCall c u) : Plain c s := by
  cases s with
  | provider d action =>
    rintro rfl
    exact absurd rfl (hp action)
  | updateCall d u =>
    have hd : d ≠ c := by
      rintro rfl
      exact hu u rfl
    cases u with
    | updateProviderCallId p => cases h
    | _ => exact fun hdc => absurd hdc hd
  | _ => trivial

theorem providerAction_of_tells (call : Call) {provider : TellProvider} (h : provider ≠ .nothing) :
    ∃ action, CallTerminator.providerAction call provider = some action ∧ endsLeg action = true := by
  cases provider with
  | nothing => exact absurd rfl h
  | whenUnanswered =>
    unfold CallTerminator.providerAction
    dsimp only
    split
    · exact ⟨_, rfl, rfl⟩
    · exact ⟨_, rfl, rfl⟩
  | _ => exact ⟨_, rfl, rfl⟩

/-- An end of a call whose row had the provider's id tells the provider. -/
theorem settle_takes (call : Call) (hid : call.id = c) (hrow : call.providerCallId.isSome = true) (opts : EndOptions)
    (htells : opts.provider ≠ .nothing) :
    (CallTerminator.settle call opts.reason opts.terminatedBy opts.provider opts.agentOffline).Takes (protocol c)
      (· = .owes) (· = .told) := by
  obtain ⟨action, haction, hends⟩ := providerAction_of_tells call htells
  have htell : (CallTerminator.tellProvider call opts.provider).Takes (protocol c) (· = .owes) (· = .told) := by
    unfold CallTerminator.tellProvider
    rw [haction]
    simp only [hrow, if_true]
    rintro _ rfl
    refine ⟨allows_of_notDialling (by decide) ?_, fun _ => if_pos ⟨hid, hends⟩⟩
    rintro - rfl
    cases hends
  exact Callio.settle_takes routes_owes.toSeeks (keeps_owes (s := .fillQueueDuration _) trivial)
    (keeps_owes (s := .record _) trivial) (keeps_owes (s := .emit _) trivial)
    (fun _ => keeps_owes (s := .updateAgent _ _) trivial) (fun _ _ => keeps_owes (s := .updateAgent _ _) trivial)
    htell (keeps_settled (s := .media _ _) (.inr (.inr rfl)) trivial)

theorem commit_follows (callId : Nat) (opts : EndOptions) (hid : callId = c) :
    (CallTerminator.commit callId opts).Follows (protocol c) .knows fun won p =>
      if won = true then p = .owes else p = .knows := by
  have hcommit : ∀ u, finishes u = true → (∀ p, u ≠ .updateProviderCallId p) →
      (update callId u).Follows (protocol c) .knows fun won p => if won = true then p = .owes else p = .knows := by
    intro u hu hp
    refine ⟨?_, fun won => ?_⟩
    · cases u with
      | updateProviderCallId p => exact absurd rfl (hp p)
      | _ => exact fun _ _ => nofun
    · show if won = true then next c .knows (.updateCall callId u) won = .owes else _
      cases won with
      | true => exact if_pos ⟨hid, rfl, hu⟩
      | false =>
        refine if_neg ?_
        rintro ⟨-, hwon, -⟩
        cases hwon
  unfold CallTerminator.commit
  split
  · exact hcommit _ rfl nofun
  · exact hcommit _ rfl nofun

/-- An end by a row at hand, whatever agent it names. -/
theorem endCall_stays (row : Call) {call : Call} (hrow : row ∈ calls) (hsame : call.id = row.id)
    (hprovider : call.providerCallId = row.providerCallId) {opts : EndOptions} (htells : opts.provider ≠ .nothing) :
    (CallTerminator.endCall call opts).Stays (protocol c) (Ready c calls) := by
  by_cases hid : call.id = c
  · intro p hp
    obtain ⟨hunseen, hknows⟩ := hp.2 row hrow (hsame.symm.trans hid)
    rw [← hprovider] at hknows
    rcases hp.1 with rfl | rfl | rfl | rfl
    · exact absurd rfl hunseen
    · have hsettle := settle_takes call hid (hknows rfl) opts htells
      refine @endCall_settles (protocol c) (Ready c calls) (· = .knows) (· = .owes) routes_ready.toSeeks _ _
        ?_ (hsettle.mono ?_) (keeps_ready (s := .media _ _) trivial) _ rfl
      · rintro _ rfl
        refine (commit_follows call.id opts hid).mono fun won p' hp' => ?_
        cases won with
        | true => exact hp'
        | false =>
          obtain rfl : p' = .knows := hp'
          exact hp
      · rintro _ rfl
        exact ready_of_settled (.inr rfl)
    · refine ((ends_settled (.inr (.inl rfl))).endCall call opts _ rfl).mono ?_
      rintro _ _ rfl
      exact hp
    · refine ((ends_settled (.inr (.inr rfl))).endCall call opts _ rfl).mono ?_
      rintro _ _ rfl
      exact hp
  · have hplain : ∀ s : Stmt, s.Ending → (∀ action, s ≠ .provider c action) → (∀ u, s ≠ .updateCall c u) →
        (protocol c).Keeps (Ready c calls) s := fun s hs hp hu => keeps_ready (plain_of_ending hs hp hu)
    refine @endCall_settles (protocol c) (Ready c calls) _ (Ready c calls) routes_ready.toSeeks _ _ ?_ ?_ (keeps_ready (s := .media _ _) trivial)
    · have hcommit : (CallTerminator.commit call.id opts).Stays (protocol c) (Ready c calls) := by
        refine .ite (fun _ => hplain _ trivial nofun ?_) fun _ => hplain _ trivial nofun ?_
        · rintro u ⟨⟩
          exact hid rfl
        · rintro u ⟨⟩
          exact hid rfl
      refine fun q hq => (hcommit q hq).mono fun won q' hq' => ?_
      split <;> exact hq'
    · have htell : (CallTerminator.tellProvider call opts.provider).Stays (protocol c) (Ready c calls) := by
        unfold CallTerminator.tellProvider
        split
        · exact Prog.stays_ret _
        · exact .ite (fun _ => keeps_ready (s := .provider _ _) fun hd => absurd hd hid) fun _ => Prog.stays_ret _
      exact Callio.settle_takes routes_ready.toSeeks (keeps_ready (s := .fillQueueDuration _) trivial)
        (keeps_ready (s := .record _) trivial) (keeps_ready (s := .emit _) trivial)
        (fun _ => keeps_ready (s := .updateAgent _ _) trivial) (fun _ _ => keeps_ready (s := .updateAgent _ _) trivial)
        htell (keeps_ready (s := .media _ _) trivial)

/-! ### The handlers -/

theorem next_query (p : Phase) (q : Query) (r : q.Res) : next c p (.query q) r = see c p (rowsRead (.query q) r) := by
  unfold next
  split <;> first | contradiction | rfl

/-- A read puts its rows at hand; a program with them at hand may follow. -/
theorem read_takes {α : Type} (q : Query) (rows : q.Res → List Call) (hrows : ∀ r, rowsRead (.query q) r = rows r)
    {f : q.Res → Code α} (hf : ∀ r, (f r).Stays (protocol c) (Ready c (rows r))) :
    (read q >>= f).Stays (protocol c) (Ready c []) := by
  intro p hp
  refine (Prog.follows_cmd_bind _ _ _ _).mpr ⟨((keeps_ready (s := .query q) trivial) p hp).1, fun r => ?_⟩
  have hhand : Ready c (rows r) (next c p (.query q) r) := by
    rw [next_query, hrows]
    exact ready_see hp _
  exact (hf r _ hhand).mono fun _ _ h => h.mono (List.nil_subset _)

theorem endById_stays (callId : Nat) {opts : EndOptions} (htells : opts.provider ≠ .nothing) :
    (CallTerminator.endById callId opts).Stays (protocol c) (Ready c []) := by
  refine read_takes (.findById callId) Option.toList (fun _ => rfl) fun call => ?_
  cases call with
  | none => exact Prog.stays_ret _
  | some call => exact endCall_stays call List.mem_cons_self rfl rfl htells

theorem hangUpOptions_tells (call : Call) (reason : HangUp) (byConsumer : Bool) :
    (hangUpOptions call reason byConsumer).provider ≠ .nothing := by
  cases reason <;> exact nofun

theorem handleCallTerminated_stays (callId : Nat) (reason : HangUp) (byConsumer : Bool) :
    (handleCallTerminated callId reason byConsumer).Stays (protocol c) (Ready c []) := by
  refine read_takes (.findById callId) Option.toList (fun _ => rfl) fun call => ?_
  cases call with
  | none => exact Prog.stays_ret _
  | some call =>
    refine .ite (fun _ => keeps_ready (s := .media callId .close) trivial) fun _ => ?_
    exact (endCall_stays call List.mem_cons_self rfl rfl (hangUpOptions_tells call reason byConsumer)).bind fun _ => Prog.stays_ret _

theorem reconnectExpired_stays (callId : Nat) : (reconnectExpired callId).Stays (protocol c) (Ready c []) := by
  refine read_takes (.findById callId) Option.toList (fun _ => rfl) fun call => ?_
  cases call with
  | none => exact Prog.stays_ret _
  | some call => exact (endCall_stays call List.mem_cons_self rfl rfl (by simp)).bind fun _ => Prog.stays_ret _

theorem ivrFinished_stays (callId : Nat) (action : IvrEnd) :
    (ivrFinished callId action).Stays (protocol c) (Ready c []) := by
  have hstate : (update callId (.updateCallState none none)).Stays (protocol c) (Ready c []) :=
    keeps_ready (s := .updateCall callId (.updateCallState none none)) fun _ => rfl
  have hstop : (stopSession callId false).Stays (protocol c) (Ready c []) := .bind hstate fun _ => Prog.stays_ret _
  exact hstop.bind fun _ => (endById_stays callId (by simp)).bind fun _ => Prog.stays_ret _

theorem batchCleanupCalls_stays (items : List (Nat × TerminationReason)) :
    (batchCleanupCalls items).Stays (protocol c) (Ready c []) := by
  refine .ite (fun _ => Prog.stays_ret _) fun _ => ?_
  refine read_takes (.findByIds _) id (fun _ => rfl) fun calls => ?_
  exact endCleanupItems_stays fun call hcall item _ _ => endCall_stays call hcall rfl rfl (show TellProvider.whenUnanswered ≠ .nothing by decide)

theorem keeps_incrementMissed (calls : List Call) (a : Nat) : (protocol c).Keeps (Ready c calls) (.incrementMissed a) :=
  keeps_ready trivial

theorem passOffer_stays (call : Call) (agentId : Nat) (kind : OfferHistory.Kind) (expiredBefore : Option Nat) :
    (passOffer call agentId kind expiredBefore).Stays (protocol c) (Ready c calls) := by
  refine Callio.passOffer_stays routes_ready (fun _ => keeps_incrementMissed calls) (fun s hs => keeps_ready ?_)
    (keeps_ready (s := .updateCall call.id _) fun _ => rfl)
  cases s with
  | provider d action => cases hs
  | updateCall d u => cases hs
  | _ => trivial

theorem queueTimeoutTick_stays (seconds : Nat) : (queueTimeoutTick seconds).Stays (protocol c) (Ready c []) := by
  have htaking : ∀ {calls : List Call} (s : Stmt), s.TakingBack → (protocol c).Keeps (Ready c calls) s := by
    intro calls s hs
    refine keeps_ready ?_
    cases s with
    | provider d action => cases hs
    | updateCall d u => cases u <;> first | exact fun _ => rfl | cases hs
    | _ => trivial
  have hoffers : expireOffers.Stays (protocol c) (Ready c []) :=
    .bind (routes_ready.read .findExpiredOffers trivial) fun _ => expireOffersOf_stays fun _ _ =>
      expireOffer_stays fun _ _ => passOffer_stays _ _ _ _
  have hwaits : expireWaits.Stays (protocol c) (Ready c []) := by
    refine read_takes Query.findExpiredWaits (List.map (·.1)) (fun _ => rfl) fun waits => ?_
    refine expireWaitsOf_stays fun wait hwait => waitExpired_stays routes_ready.toSeeks htaking _ _ ?_
    exact endCall_stays wait.1 (List.mem_map_of_mem hwait) rfl rfl nofun
  refine hoffers.bind fun _ => hwaits.bind fun _ => ?_
  refine read_takes (.findExpiredHandovers seconds) id (fun _ => rfl) fun calls => ?_
  refine expireHandoversOf_stays fun call hcall => ?_
  exact handoverExpired_stays (fun d a t => htaking (.updateCall d (.returnHandoverToQueue a t)) trivial)
    (fun d a t => htaking (.updateCall d (.expireHandover a t)) trivial) call (fun _ => passOffer_stays _ _ _ _)
    (endCall_stays call hcall rfl rfl nofun)

theorem handleCallRejected_stays (callId userId : Nat) :
    (handleCallRejected callId userId).Stays (protocol c) (Ready c []) := by
  have hread : ∀ p, Ready c [] p → ∀ call : Option Call, Ready c call.toList (next c p (.query (.findById callId)) call) := by
    intro p hp call
    rw [next_query]
    exact ready_see hp _
  refine handleCallRejected_takes (fun call => Ready c [call])
    (fun p hp => ⟨((keeps_ready (s := .query (.findById callId)) trivial) p hp).1, hread p hp none, fun call => hread p hp (some call)⟩)
    (fun _ _ h => h.mono (List.nil_subset _)) (fun _ => routes_ready) (fun call opts htells => ?_)
    (fun _ _ => passOffer_stays _ _ _ _) (fun _ _ _ => keeps_ready (s := .emit _) trivial)
    (fun _ d a => keeps_ready (s := .updateCall d (.assignCallToAgentIfEligible a)) fun _ => rfl)
    (fun _ _ _ => keeps_ready (s := .emit _) trivial) (fun _ _ _ => keeps_ready (s := .emit _) trivial)
  exact endCall_stays call List.mem_cons_self (by rfl) (by rfl) htells

theorem handleAgentJoined_stays (a : Accept) : (handleAgentJoined a).Stays (protocol c) (Ready c []) := by
  have haccepting : ∀ s : Stmt, s.Accepting → (protocol c).Keeps (Ready c []) s := by
    intro s hs
    refine keeps_ready ?_
    cases s with
    | provider d action => exact fun _ => hs.resolve_left fun hs => hs.elim id id
    | updateCall d u =>
      cases u with
      | transitionStatus expected status =>
        obtain ⟨-, rfl⟩ : expected = .ringing ∧ status = .inProgress := by simpa using hs
        exact fun _ => rfl
      | updateProviderCallId p => simp at hs
      | _ => first | exact fun _ => rfl | simp at hs
    | _ => trivial
  have habort : a.abortOnMediaFailure.Stays (protocol c) (Ready c []) := by
    refine read_takes (.findById a.callId) Option.toList (fun _ => rfl) fun call => ?_
    cases call with
    | none => exact Prog.stays_ret _
    | some call => exact (endCall_stays call List.mem_cons_self (by rfl) (by rfl) (by simp)).bind fun _ => Prog.stays_ret _
  exact Callio.handleAgentJoined_stays routes_ready haccepting a habort

theorem triggerCustomerConnection_takes (d : Nat) (providerCallId : Option Nat) :
    (triggerCustomerConnection d providerCallId).Takes (protocol c)
      (· = start c (.customerConnection d providerCallId)) Done := by
  by_cases hd : d = c
  · subst hd
    have hstill : ∀ s : Stmt, NotDialling d s → (∀ e a, s ≠ .provider e a) → (protocol d).Keeps (· = .toDial) s := by
      rintro s hs hp _ rfl
      refine ⟨allows_of_notDialling (by decide) hs, fun r => ?_⟩
      show next d .toDial s r = .toDial
      unfold next
      split
      · exact absurd rfl (hp _ _)
      · contradiction
      · contradiction
      · exact see_eq (by decide) (by decide) _
    have hroutes : Routes (protocol d) (· = .toDial) := .of_keeps fun s hs => by
      refine hstill s (plain_of_routing hs).notDialling ?_
      rintro e a rfl
      rcases hs with hs | hs <;> cases hs
    have hdial : (Code.provider d .initiate).Takes (protocol d) (· = .toDial) (· = .dialled) := by
      rintro _ rfl
      exact ⟨fun _ => rfl, fun _ => if_pos rfl⟩
    have hstore : ∀ p, (protocol d).Keeps (· = .dialled) (.updateCall d (.updateProviderCallId p)) := by
      rintro p _ rfl
      exact ⟨fun _ => rfl, fun r => see_eq (c := d) (p := .dialled) (by decide) (by decide) []⟩
    rw [start, if_pos rfl]
    refine Callio.triggerCustomerConnection_takes hroutes (ends_settled (.inl rfl)) (hstill (.media _ _) trivial nofun)
      hdial hstore (fun _ => keeps_settled (s := .emit _) (.inl rfl) trivial) ?_ ?_
    · rintro _ rfl
      exact nofun
    · rintro _ rfl
      exact nofun
  · have hunaware : Settled .unaware := .inr (.inl rfl)
    have hstore : ∀ p, (protocol c).Keeps (· = .unaware) (.updateCall d (.updateProviderCallId p)) := by
      rintro p _ rfl
      exact ⟨fun hdc => absurd hdc hd, fun r => see_eq (c := c) (p := .unaware) (by decide) (by decide) []⟩
    rw [start, if_neg hd]
    refine Callio.triggerCustomerConnection_takes (ends_settled hunaware).toRoutes (ends_settled hunaware)
      (keeps_settled (s := .media _ _) hunaware trivial)
      (keeps_settled (s := .provider d .initiate) hunaware fun hdc => absurd hdc hd) hstore
      (fun _ => keeps_settled (s := .emit _) hunaware trivial) ?_ ?_
    · rintro _ rfl
      exact nofun
    · rintro _ rfl
      exact nofun

/-- Every handler follows the protocol, and owes the provider nothing when it is
done. -/
theorem follows (c : Nat) (h : Handler) : h.code.Follows (protocol c) (start c h) fun _ => Done := by
  have hready : Ready c [] .unseen := ⟨.inl rfl, fun _ h => absurd h List.not_mem_nil⟩
  have hstays : ∀ {code : Code Unit}, code.Stays (protocol c) (Ready c []) →
      code.Follows (protocol c) .unseen fun _ => Done := fun h => (h _ hready).mono fun _ _ hp => hp.done
  have hother (hv : .dialling ∉ h.vocabulary) : h.code.Follows (protocol c) .unaware fun _ => Done := by
    have hunaware : Settled .unaware := .inr (.inl rfl)
    refine (h.code_stays (Q := (· = Phase.unaware)) (ends_settled hunaware).toRoutes
      (fun s hs => keeps_settled hunaware (notDialling_of_has (v := .ending) hs nofun))
      (fun _ a => keeps_settled (s := .incrementMissed a) hunaware trivial)
      (fun v hm s hs => keeps_settled hunaware (notDialling_of_has hs ?_)) _ rfl).mono ?_
    · rintro rfl
      exact hv hm
    · rintro _ _ rfl
      exact nofun
  cases h with
  | customerConnection d p => exact triggerCustomerConnection_takes d p _ rfl
  | callTerminated d reason byConsumer => exact hstays (handleCallTerminated_stays d reason byConsumer)
  | reconnectExpired d => exact hstays (reconnectExpired_stays d)
  | callRejected d u => exact hstays (handleCallRejected_stays d u)
  | agentJoined a => exact hstays (handleAgentJoined_stays a)
  | batchCleanup items => exact hstays (batchCleanupCalls_stays items)
  | periodicCleanup =>
    exact hstays (.bind (routes_ready.read (.findAllStuckCalls _) trivial) fun _ => batchCleanupCalls_stays _)
  | releaseStaleCalls a =>
    exact hstays (.bind (routes_ready.read (.findStuckCallsForUser _ _) trivial) fun _ => batchCleanupCalls_stays _)
  | ivrRingCleanup =>
    exact hstays (.bind (routes_ready.read .findStuckIvrTransferredCalls trivial) fun calls =>
      (recordIvrMisses_stays routes_ready (keeps_incrementMissed []) calls).bind fun _ => batchCleanupCalls_stays _)
  | queueTimeoutTick seconds => exact hstays (queueTimeoutTick_stays seconds)
  | lineRingExpired d => exact hstays ((endById_stays d (by simp)).bind fun _ => Prog.stays_ret _)
  | ivrFinished d action => exact hstays (ivrFinished_stays d action)
  | ivrTransfer t =>
    refine hstays (t.handle_takes routes_ready.toSeeks claims_ready (fun _ => id) (fun s hs => keeps_ready ?_)
      (ivrFinished_stays _ _))
    cases s with
    | provider d action => rcases hs with hs | hs <;> cases hs
    | updateCall d u =>
      cases u with
      | updateCallState state status =>
        intro _
        have hstatus : status = some .ringing ∨ status = none := by
          simp only [Stmt.LeavingIvr, Stmt.Offering, or_false] at hs
          exact hs.imp And.right And.right
        rcases hstatus with rfl | rfl <;> rfl
      | updateProviderCallId p => rcases hs with hs | hs <;> cases hs
      | _ => first | exact fun _ => rfl | (rcases hs with hs | hs <;> cases hs)
    | _ => trivial
  | inboundCall line offer outcome =>
    refine hother ?_
    simp only [Handler.vocabulary]
    split <;> simp
  | statusChanged line p status t =>
    refine hother ?_
    simp only [Handler.vocabulary]
    split <;> simp
  | _ => exact hother (by simp [Handler.vocabulary])

/-! ## Rows -/

theorem finishes_of_ended {row : CallRow} {u : CallUpdate} {now : Nat} (hlive : row.ended = false)
    (hended : (u.set now row).ended = true) : finishes u = true := by
  cases u with
  | updateStatus status => simpa [CallRow.ended, CallUpdate.set, finishes] using hended
  | transitionStatus expected status => simpa [CallRow.ended, CallUpdate.set, finishes] using hended
  | markIvrAutoAccepted => cases hended
  | returnHandoverToQueue a t => cases hended
  | updateCallState state status =>
    cases status with
    | none =>
      rw [show ((CallUpdate.updateCallState state none).set now row).ended = row.ended from rfl, hlive] at hended
      cases hended
    | some status => simpa [CallRow.ended, CallUpdate.set, finishes] using hended
  | updateTimestamp field value =>
    have hsame : ((CallUpdate.updateTimestamp field value).set now row).ended = row.ended := by cases field <;> rfl
    rw [hsame, hlive] at hended
    cases hended
  | markCallFailedIfNotFinal _ _ | terminateCallIfNotTerminated _ _ _ _ | finalizeFromWebhook _ _ _ => rfl
  | finalizeCallAsFailed _ => rfl
  | _ =>
    rw [← Bool.not_eq_true] at hlive
    exact absurd hended hlive

/-- A live row that ends is ended by an update that matches it. -/
theorem ends_iff {w : World} {row row' : CallRow} {s : Stmt} (hrow : w.call c = some row)
    (hrow' : (s.exec w).1.call c = some row') (hlive : row.ended = false) (hended : row'.ended = true) :
    ∃ u, s = .updateCall c u ∧ finishes u = true ∧ u.guard row = true := by
  rcases Stmt.onCall w c s with hsame | ⟨u, row₁, rfl, hrow₁, hg, hset⟩ | ⟨row₁, -, hnone, -⟩ |
    ⟨row₁, d, rfl, hrow₁, hset⟩ | ⟨a, shift, row₁, rfl, hrow₁, -, -, hset⟩
  · rw [hsame, hrow] at hrow'
    cases hrow'
    rw [hlive] at hended
    cases hended
  · obtain rfl : row = row₁ := Option.some.inj (hrow.symm.trans hrow₁)
    obtain rfl := Option.some.inj (hrow'.symm.trans hset)
    exact ⟨u, rfl, finishes_of_ended hlive hended, hg⟩
  · rw [hnone] at hrow
    cases hrow
  all_goals
    obtain rfl : row = row₁ := Option.some.inj (hrow.symm.trans hrow₁)
    obtain rfl := Option.some.inj (hrow'.symm.trans hset)
    have hsame : row.ended = true := hended
    rw [hlive] at hsame
    cases hsame

/-- Only storing it changes the provider's id. -/
theorem providerCallId_exec {w : World} {row row' : CallRow} {s : Stmt} (hrow : w.call c = some row)
    (hrow' : (s.exec w).1.call c = some row') (hs : ∀ p, s ≠ .updateCall c (.updateProviderCallId p)) :
    row'.providerCallId = row.providerCallId := by
  rcases Stmt.onCall w c s with hsame | ⟨u, row₁, rfl, hrow₁, hg, hset⟩ | ⟨row₁, -, hnone, -⟩ |
    ⟨row₁, d, rfl, hrow₁, hset⟩ | ⟨a, shift, row₁, rfl, hrow₁, -, -, hset⟩
  · rw [hsame, hrow] at hrow'
    cases hrow'
    rfl
  · obtain rfl : row = row₁ := Option.some.inj (hrow.symm.trans hrow₁)
    obtain rfl := Option.some.inj (hrow'.symm.trans hset)
    cases u with
    | updateProviderCallId p => exact absurd rfl (hs p)
    | updateCallState state status => cases status <;> rfl
    | updateTimestamp field value => cases field <;> rfl
    | _ => rfl
  · rw [hnone] at hrow
    cases hrow
  all_goals
    obtain rfl : row = row₁ := Option.some.inj (hrow.symm.trans hrow₁)
    obtain rfl := Option.some.inj (hrow'.symm.trans hset)
    rfl

theorem exists_exec {w : World} {row : CallRow} (hrow : w.call c = some row) (s : Stmt) :
    ∃ row', (s.exec w).1.call c = some row' := by
  rcases Stmt.onCall w c s with hsame | ⟨_, _, _, _, _, hset⟩ | ⟨_, _, _, hset⟩ | ⟨_, _, _, _, hset⟩ |
    ⟨_, _, _, _, _, _, _, hset⟩
  · exact ⟨row, hsame.trans hrow⟩
  all_goals exact ⟨_, hset⟩

/-- The rows a read finds are in the table. -/
theorem mem_rowsRead {w : World} {q : Query} {call : Call} (h : call ∈ rowsRead (.query q) (q.answer w)) :
    w.call call.id = some call.toCallRow := by
  cases q with
  | findById callId =>
    obtain ⟨hrow, rfl⟩ := World.findCall_eq_some.mp (Option.mem_toList.mp h)
    exact hrow
  | findByIds callIds => exact (World.mem_selectCalls.mp h).1
  | findExpiredWaits =>
    obtain ⟨wait, hwait, rfl⟩ := List.mem_map.mp h
    obtain ⟨call, hcall, rfl⟩ := List.mem_map.mp hwait
    exact (World.mem_selectCalls.mp ((List.mem_insertionSort _).mp (List.mem_of_mem_take hcall))).1
  | findExpiredHandovers seconds =>
    exact (World.mem_selectCalls.mp ((List.mem_insertionSort _).mp (List.mem_of_mem_take h))).1
  | _ => cases h

/-! ## Phases -/

/-- How a thread comes to its phase. -/
inductive Turn (c : Nat) (p : Phase) (s : Stmt) (r : s.Res) : Phase → Prop
  | stays : Turn c p s r p
  | dials (hp : p = .toDial) (hs : s = .provider c .initiate) : Turn c p s r .dialled
  | ends (u : CallUpdate) (hp : p = .knows) (hs : s = .updateCall c u) (hu : finishes u = true) : Turn c p s r .owes
  | tells (action : ProviderAction) (hp : p = .owes) (hs : s = .provider c action) (ha : endsLeg action = true) :
      Turn c p s r .told
  | sees (call : Call) (hcall : call ∈ rowsRead s r) (hid : call.id = c) (hp : call.providerCallId.isSome = true) :
      Turn c p s r .knows
  | misses : Turn c p s r .unaware

theorem turn (p : Phase) (s : Stmt) (r : s.Res) : Turn c p s r (next c p s r) := by
  unfold next
  split
  · split
    · rename_i hd
      exact .dials rfl (by rw [hd])
    · exact .stays
  · split
    · rename_i d u won hends
      exact .ends u rfl (by rw [hends.1]) hends.2.2
    · exact .stays
  · split
    · rename_i d action _ htells
      exact .tells action rfl (by rw [htells.1]) htells.2
    · exact .stays
  · unfold see
    split
    · exact .stays
    · rename_i hmoved
      split
      · rename_i hall
        simp only [not_or, List.all_eq_true, not_forall] at hmoved
        obtain ⟨-, call, hcall, hid⟩ := hmoved
        have hid' : call.id = c := by simpa using hid
        exact .sees call hcall hid' (by simpa [hid'] using List.all_eq_true.mp hall call hcall)
      · exact .misses

theorem next_owes_or_told {p : Phase} (hp : p = .owes ∨ p = .told) (s : Stmt) (r : s.Res) :
    next c p s r = .owes ∨ next c p s r = .told := by
  rcases hp with rfl | rfl
  · unfold next
    split
    · contradiction
    · contradiction
    · split
      · exact .inr rfl
      · exact .inl rfl
    · exact .inl (see_eq (by decide) (by decide) _)
  · exact .inr (see_eq (by decide) (by decide) _)

/-! ## Runs -/

/-- The provider has been told to end the leg since it was last asked to dial it. -/
def toldSinceDial (c : Nat) (log : List (Nat × ProviderAction)) : Bool :=
  (log.takeWhile fun entry => entry ≠ (c, .initiate)).any fun entry => entry.1 = c && endsLeg entry.2

theorem toldSinceDial_cons {e : Nat × ProviderAction} (he : e ≠ (c, .initiate)) (log : List (Nat × ProviderAction)) :
    toldSinceDial c (e :: log) = (decide (e.1 = c) && endsLeg e.2 || toldSinceDial c log) := by
  rw [toldSinceDial, List.takeWhile_cons_of_pos (by simpa only [decide_eq_true_eq] using he), List.any_cons, toldSinceDial]

/-- The handler takes the provider's own report that the leg is over. -/
def reportsEnd (key : ProviderKey) : Handler → Bool
  | .callEnded line e => line.key e.providerCallId = key
  | .statusChanged line p status _ => line.key p = key && (status = .rejected || status = .failed)
  | _ => false

/-- The handler dials the call's customer. -/
def dials (c : Nat) : Handler → Bool
  | .customerConnection d _ => d = c
  | _ => false

/-- The leg of the call that the handler's dial creates. -/
def legOf (c : Nat) : Handler → Option Nat
  | .customerConnection d providerCallId => if d = c then providerCallId else none
  | _ => none

section runs

variable {ι : Type} [DecidableEq ι] (hs : ι → Handler) (w : World) (schedule : List ι)

abbrev after (k : Nat) : Service ι := (Service.spawn w hs).after schedule k

abbrev phases (c : Nat) (s : Service ι) : ι → Phase := (protocol c).phases (fun i => start c (hs i)) s

/-- A call whose customer has not been dialled yet. -/
structure Placed (w : World) (c : Nat) (row : CallRow) : Prop where
  exists_row : w.call c = some row
  live : row.ended = false
  undialled : row.providerCallId = none ∧ (c, .initiate) ∉ w.providerLog

/-- The provider reports the leg over itself, in thread `i`. -/
def Reports (c : Nat) (channel : Channel) (i : ι) : Prop :=
  ∃ d, (legOf c (hs d)).any (fun p => reportsEnd ⟨channel, p⟩ (hs i)) = true

instance [Fintype ι] (c : Nat) (channel : Channel) (i : ι) : Decidable (Reports hs c channel i) :=
  inferInstanceAs (Decidable (∃ _, _))

/-- A dial of the call's customer succeeds. -/
def CreatesLeg (c : Nat) : Prop := ∃ d, (legOf c (hs d)).isSome = true

instance [Fintype ι] (c : Nat) : Decidable (CreatesLeg hs c) := inferInstanceAs (Decidable (∃ _, _))

/-- The provider was not asked to dial, or the leg it created was told to end, or
reported its own end. -/
def LegOver (c : Nat) (channel : Channel) (w : World) : Prop :=
  CreatesLeg hs c →
    (c, .initiate) ∉ w.providerLog ∨ toldSinceDial c w.providerLog = true ∨ ∃ i, Reports hs c channel i

/-- Move `k` ends the call. -/
def endsAt (c k : Nat) : Bool :=
  ((after hs w schedule k).state.call c).any (!·.ended) && ((after hs w schedule (k + 1)).state.call c).any (·.ended)

/-- If move `k` ends a call that has a leg, the provider has reported the leg over, or the path
that ends it tells the provider, and has read the call's row with the provider's id
only. -/
def Informed (c : Nat) (channel : Channel) (k : Nat) (i : ι) : Prop :=
  CreatesLeg hs c → endsAt hs w schedule c k = true → Reports hs c channel i ∨
    phases hs c (after hs w schedule k) i = .knows ∨ phases hs c (after hs w schedule k) i = .told

instance [Fintype ι] (c : Nat) (channel : Channel) (k : Nat) (i : ι) :
    Decidable (Informed hs w schedule c channel k i) :=
  inferInstanceAs (Decidable (_ → _ → _))

structure Invariant (c : Nat) (channel : Channel) (k : Nat) : Prop where
  conforms : (protocol c).Conforms Done (fun i => start c (hs i)) (after hs w schedule k)
  dialler : ∀ i, phases hs c (after hs w schedule k) i = .toDial ∨ phases hs c (after hs w schedule k) i = .dialled →
    dials c (hs i) = true
  toDial : ∀ i, phases hs c (after hs w schedule k) i = .toDial →
    (c, .initiate) ∉ (after hs w schedule k).state.providerLog
  dialled : ∀ i, phases hs c (after hs w schedule k) i = .dialled →
    (c, .initiate) ∈ (after hs w schedule k).state.providerLog
  present : ∃ row, (after hs w schedule k).state.call c = some row
  stored : ∀ row, (after hs w schedule k).state.call c = some row → row.providerCallId.isSome = true →
    (c, .initiate) ∈ (after hs w schedule k).state.providerLog
  knows : ∀ i p, phases hs c (after hs w schedule k) i = p → p = .knows ∨ p = .owes ∨ p = .told →
    (c, .initiate) ∈ (after hs w schedule k).state.providerLog
  told : ∀ i, phases hs c (after hs w schedule k) i = .told →
    toldSinceDial c (after hs w schedule k).state.providerLog = true
  ended : ∀ row, (after hs w schedule k).state.call c = some row → row.ended = true →
    ∃ i, Reports hs c channel i ∨ phases hs c (after hs w schedule k) i = .owes ∨
      phases hs c (after hs w schedule k) i = .told

variable {hs w schedule} {c : Nat} {channel : Channel}

/-- What a move comes to. -/
structure Moved (hs : ι → Handler) (w : World) (schedule : List ι) (c k : Nat) (i : ι) (s : Stmt) : Prop where
  allowed : allows c (phases hs c (after hs w schedule k) i) s
  state : (after hs w schedule (k + 1)).state = (s.exec (after hs w schedule k).state).1
  own : phases hs c (after hs w schedule (k + 1)) i =
    next c (phases hs c (after hs w schedule k) i) s (s.exec (after hs w schedule k).state).2
  other : ∀ j, j ≠ i → phases hs c (after hs w schedule (k + 1)) j = phases hs c (after hs w schedule k) j

namespace Invariant

variable {k : Nat} {i : ι} {s : Stmt}

omit [DecidableEq ι] in
theorem only_dials {log : List (Nat × ProviderAction)} {e : Nat × ProviderAction} (h : (c, .initiate) ∈ e :: log)
    (hno : (c, .initiate) ∉ log) : e = (c, .initiate) :=
  ((List.mem_cons.mp h).resolve_right hno).symm

theorem log_mono (hm : Moved hs w schedule c k i s) {e : Nat × ProviderAction}
    (h : e ∈ (after hs w schedule k).state.providerLog) : e ∈ (after hs w schedule (k + 1)).state.providerLog := by
  rw [hm.state]
  rcases s.exec_providerLog (after hs w schedule k).state with hsame | ⟨d, action, -, hlog⟩
  · rwa [hsame]
  · rw [hlog]
    exact List.mem_cons_of_mem _ h

theorem dialler_succ (h : Invariant hs w schedule c channel k) (hm : Moved hs w schedule c k i s) (j : ι)
    (hp : phases hs c (after hs w schedule (k + 1)) j = .toDial ∨ phases hs c (after hs w schedule (k + 1)) j = .dialled) :
    dials c (hs j) = true := by
  by_cases hj : j = i
  · subst hj
    have hturn := turn (c := c) (phases hs c (after hs w schedule k) j) s (s.exec (after hs w schedule k).state).2
    rw [← hm.own] at hturn
    generalize phases hs c (after hs w schedule (k + 1)) j = p' at hp hturn
    cases hturn with
    | stays => exact h.dialler j hp
    | dials hold _ => exact h.dialler j (.inl hold)
    | _ => rcases hp with hp | hp <;> cases hp
  · rw [hm.other j hj] at hp
    exact h.dialler j hp

/-- Dialling happens once. -/
theorem toDial_succ (h : Invariant hs w schedule c channel k) (hm : Moved hs w schedule c k i s)
    (hone : ∀ i j, dials c (hs i) = true → dials c (hs j) = true → i = j) (j : ι)
    (hp : phases hs c (after hs w schedule (k + 1)) j = .toDial) :
    (c, .initiate) ∉ (after hs w schedule (k + 1)).state.providerLog := by
  have hold : phases hs c (after hs w schedule k) j = .toDial := by
    by_cases hj : j = i
    · subst hj
      have hturn := turn (c := c) (phases hs c (after hs w schedule k) j) s (s.exec (after hs w schedule k).state).2
      rw [← hm.own, hp] at hturn
      generalize hq : phases hs c (after hs w schedule k) j = q at hturn
      cases hturn
      rfl
    · rwa [hm.other j hj] at hp
  intro hmem
  rw [hm.state] at hmem
  rcases s.exec_providerLog (after hs w schedule k).state with hsame | ⟨d, action, rfl, hlog⟩
  · rw [hsame] at hmem
    exact h.toDial j hold hmem
  · rw [hlog] at hmem
    obtain ⟨rfl, rfl⟩ := Prod.mk.inj (only_dials hmem (h.toDial j hold))
    have hdials : phases hs d (after hs w schedule k) i = .toDial := hm.allowed rfl
    obtain rfl := hone i j (h.dialler i (.inl hdials)) (h.dialler j (.inl hold))
    rw [hm.own, hdials] at hp
    rw [show next d .toDial (.provider d .initiate) _ = .dialled from if_pos rfl] at hp
    cases hp

theorem dialled_succ (h : Invariant hs w schedule c channel k) (hm : Moved hs w schedule c k i s) (j : ι)
    (hp : phases hs c (after hs w schedule (k + 1)) j = .dialled) :
    (c, .initiate) ∈ (after hs w schedule (k + 1)).state.providerLog := by
  by_cases hj : j = i
  · subst hj
    have hturn := turn (c := c) (phases hs c (after hs w schedule k) j) s (s.exec (after hs w schedule k).state).2
    rw [← hm.own, hp] at hturn
    generalize hq : phases hs c (after hs w schedule k) j = q at hturn
    cases hturn with
    | stays => exact log_mono hm (h.dialled j hq)
    | dials _ hdial =>
      subst hdial
      rw [hm.state]
      exact List.mem_cons_self
  · rw [hm.other j hj] at hp
    exact log_mono hm (h.dialled j hp)

theorem stored_succ (h : Invariant hs w schedule c channel k) (hm : Moved hs w schedule c k i s) (row : CallRow)
    (hrow : (after hs w schedule (k + 1)).state.call c = some row) (hid : row.providerCallId.isSome = true) :
    (c, .initiate) ∈ (after hs w schedule (k + 1)).state.providerLog := by
  by_cases hstore : ∃ p, s = .updateCall c (.updateProviderCallId p)
  · obtain ⟨p, rfl⟩ := hstore
    exact log_mono hm (h.dialled i (hm.allowed rfl))
  · obtain ⟨row₀, hrow₀⟩ := h.present
    rw [hm.state] at hrow
    have hsame := providerCallId_exec hrow₀ hrow fun p hs => hstore ⟨p, hs⟩
    exact log_mono hm (h.stored row₀ hrow₀ (hsame ▸ hid))

theorem knows_succ (h : Invariant hs w schedule c channel k) (hm : Moved hs w schedule c k i s) (j : ι) (p : Phase)
    (hp : phases hs c (after hs w schedule (k + 1)) j = p) (haware : p = .knows ∨ p = .owes ∨ p = .told) :
    (c, .initiate) ∈ (after hs w schedule (k + 1)).state.providerLog := by
  refine log_mono hm ?_
  by_cases hj : j = i
  · subst hj
    have hturn := turn (c := c) (phases hs c (after hs w schedule k) j) s (s.exec (after hs w schedule k).state).2
    rw [← hm.own, hp] at hturn
    generalize hq : phases hs c (after hs w schedule k) j = q at hturn
    cases hturn with
    | stays => exact h.knows j _ hq haware
    | ends u hold _ _ => exact h.knows j _ (hq.trans hold) (.inl rfl)
    | tells action hold _ _ => exact h.knows j _ (hq.trans hold) (.inr (.inl rfl))
    | sees call hcall hid hsome =>
      obtain ⟨q, rfl⟩ : ∃ q, s = .query q := by
        cases s with
        | query q => exact ⟨q, rfl⟩
        | _ => cases hcall
      have hrow := mem_rowsRead hcall
      rw [hid] at hrow
      exact h.stored _ hrow hsome
    | _ => simp at haware
  · rw [hm.other j hj] at hp
    exact h.knows j p hp haware

theorem told_succ (h : Invariant hs w schedule c channel k) (hm : Moved hs w schedule c k i s) (j : ι)
    (hp : phases hs c (after hs w schedule (k + 1)) j = .told) :
    toldSinceDial c (after hs w schedule (k + 1)).state.providerLog = true := by
  have hkept : toldSinceDial c (after hs w schedule k).state.providerLog = true →
      (c, .initiate) ∈ (after hs w schedule k).state.providerLog →
      toldSinceDial c (after hs w schedule (k + 1)).state.providerLog = true := by
    intro htold hmem
    rw [hm.state]
    rcases s.exec_providerLog (after hs w schedule k).state with hsame | ⟨d, action, rfl, hlog⟩
    · rwa [hsame]
    · have hne : (d, action) ≠ (c, .initiate) := by
        rintro ⟨⟩
        exact h.toDial i (hm.allowed rfl) hmem
      rw [hlog, toldSinceDial_cons hne]
      exact Bool.or_eq_true_iff.mpr (.inr htold)
  by_cases hj : j = i
  · subst hj
    have hturn := turn (c := c) (phases hs c (after hs w schedule k) j) s (s.exec (after hs w schedule k).state).2
    rw [← hm.own, hp] at hturn
    generalize hq : phases hs c (after hs w schedule k) j = q at hturn
    cases hturn with
    | stays => exact hkept (h.told j hq) (h.knows j _ hq (.inr (.inr rfl)))
    | tells action _ htells hends =>
      subst htells
      have hne : (c, action) ≠ (c, .initiate) := by
        rintro ⟨⟩
        cases hends
      rw [hm.state]
      show toldSinceDial c ((c, action) :: _) = true
      rw [toldSinceDial_cons hne]
      simp [hends]
  · rw [hm.other j hj] at hp
    exact hkept (h.told j hp) (h.knows j _ hp (.inr (.inr rfl)))

theorem ended_succ (h : Invariant hs w schedule c channel k) (hm : Moved hs w schedule c k i s)
    (hleg : CreatesLeg hs c) (hok : Informed hs w schedule c channel k i) (row : CallRow)
    (hrow : (after hs w schedule (k + 1)).state.call c = some row) (hended : row.ended = true) :
    ∃ j, Reports hs c channel j ∨ phases hs c (after hs w schedule (k + 1)) j = .owes ∨
      phases hs c (after hs w schedule (k + 1)) j = .told := by
  have hkept : ∀ j, phases hs c (after hs w schedule k) j = .owes ∨ phases hs c (after hs w schedule k) j = .told →
      phases hs c (after hs w schedule (k + 1)) j = .owes ∨ phases hs c (after hs w schedule (k + 1)) j = .told := by
    intro j hp
    by_cases hj : j = i
    · subst hj
      rw [hm.own]
      exact next_owes_or_told hp _ _
    · rwa [hm.other j hj]
  obtain ⟨row₀, hrow₀⟩ := h.present
  cases hlive : row₀.ended with
  | true =>
    obtain ⟨j, hj⟩ := h.ended row₀ hrow₀ hlive
    exact ⟨j, hj.imp_right (hkept j)⟩
  | false =>
    have hends : endsAt hs w schedule c k = true := by simp [endsAt, hrow₀, hrow, hlive, hended]
    rcases hok hleg hends with hreports | hknows | htold
    · exact ⟨i, .inl hreports⟩
    · rw [hm.state] at hrow
      obtain ⟨u, rfl, hu, hg⟩ := ends_iff hrow₀ hrow hlive hended
      have hwon := (Stmt.exec_updateCall_snd _ c u).mpr ⟨row₀, hrow₀, hg⟩
      refine ⟨i, .inr (.inl ?_)⟩
      rw [hm.own, hknows]
      exact if_pos ⟨rfl, hwon, hu⟩
    · exact ⟨i, .inr (hkept i (.inr htold))⟩

theorem init {row : CallRow} (h : Placed w c row) : Invariant hs w schedule c channel 0 := by
  have hstart : ∀ j, start c (hs j) ≠ .knows ∧ start c (hs j) ≠ .owes ∧ start c (hs j) ≠ .told ∧
      start c (hs j) ≠ .dialled := by
    intro j
    unfold start
    repeat' split
    all_goals decide
  have hnotaware : ∀ j p, start c (hs j) = p → ¬ (p = .knows ∨ p = .owes ∨ p = .told) := by
    rintro j p rfl (hp | hp | hp)
    · exact (hstart j).1 hp
    · exact (hstart j).2.1 hp
    · exact (hstart j).2.2.1 hp
  have hrow : ∀ row', (after hs w schedule 0).state.call c = some row' → row' = row := fun row' hrow' =>
    (Option.some.inj (h.exists_row.symm.trans hrow')).symm
  refine ⟨Protocol.conforms_spawn fun i => follows c (hs i), ?_, ?_, ?_, ⟨row, h.exists_row⟩, ?_, ?_, ?_, ?_⟩
  · rintro j (hp | hp)
    · have hphase : start c (hs j) = .toDial := hp
      unfold start at hphase
      split at hphase
      · rename_i d p hhandler
        split at hphase
        · rename_i hd
          rw [hhandler]
          exact decide_eq_true hd
        · cases hphase
      · split at hphase <;> cases hphase
    · exact absurd hp (hstart j).2.2.2
  · exact fun j _ => h.undialled.2
  · exact fun j hp => absurd hp (hstart j).2.2.2
  · intro row' hrow' hid
    rw [hrow row' hrow', h.undialled.1] at hid
    cases hid
  · exact fun j p hp haware => absurd haware (hnotaware j p hp)
  · exact fun j hp => absurd hp (hstart j).2.2.1
  · intro row' hrow' hended
    rw [hrow row' hrow', h.live] at hended
    cases hended

theorem idle (h : Invariant hs w schedule c channel k) (hsame : after hs w schedule (k + 1) = after hs w schedule k) :
    Invariant hs w schedule c channel (k + 1) := by
  constructor
  all_goals rw [hsame]
  exacts [h.conforms, h.dialler, h.toDial, h.dialled, h.present, h.stored, h.knows, h.told, h.ended]

theorem succ (h : Invariant hs w schedule c channel k) (hi : schedule[k]? = some i)
    (hone : ∀ i j, dials c (hs i) = true → dials c (hs j) = true → i = j)
    (hleg : CreatesLeg hs c) (hok : Informed hs w schedule c channel k i) : Invariant hs w schedule c channel (k + 1) := by
  obtain ⟨hconforms, ⟨-, hsame⟩ | ⟨s, -, hallows, hstate, hphases⟩⟩ := Service.after_succ hi h.conforms
  · exact h.idle hsame
  · have hm : Moved hs w schedule c k i s := by
      refine ⟨hallows, hstate, ?_, fun j hj => ?_⟩
      · rw [phases, hphases, Function.update_self]
      · rw [phases, hphases, Function.update_of_ne hj]
    have hpresent : ∃ row, (after hs w schedule (k + 1)).state.call c = some row := by
      obtain ⟨row, hrow⟩ := h.present
      rw [hm.state]
      exact exists_exec hrow s
    exact ⟨hconforms, h.dialler_succ hm, h.toDial_succ hm hone, h.dialled_succ hm, hpresent, h.stored_succ hm,
      h.knows_succ hm, h.told_succ hm, h.ended_succ hm hleg hok⟩

theorem run {row : CallRow} (h : Placed w c row)
    (hone : ∀ i j, dials c (hs i) = true → dials c (hs j) = true → i = j)
    (hleg : CreatesLeg hs c)
    (hok : ∀ k, (hk : k < schedule.length) → Informed hs w schedule c channel k schedule[k]) (k : Nat) :
    Invariant hs w schedule c channel k := by
  induction k with
  | zero => exact init h
  | succ k ih =>
    by_cases hk : k < schedule.length
    · exact ih.succ (List.getElem?_eq_getElem hk) hone hleg (hok k hk)
    · have hover : schedule.length ≤ k := by omega
      refine ih.idle ?_
      show (Service.spawn w hs).after schedule (k + 1) = (Service.spawn w hs).after schedule k
      rw [Service.after, Service.after, List.take_of_length_le hover, List.take_of_length_le (by omega)]

end Invariant

/-- Once every handler has finished and the call has ended, the leg its dial created
has been told to end, or has reported its own end, if each end was informed. -/
theorem legOver_of_informed (hs : ι → Handler) (w : World) (schedule : List ι) (c : Nat) (row : CallRow)
    (h : Placed w c row)
    (hone : ∀ i j, dials c (hs i) = true → dials c (hs j) = true → i = j)
    (hok : ∀ k, (hk : k < schedule.length) → Informed hs w schedule c row.channel k schedule[k]) (k : Nat)
    (hfinished : ∀ i, ((after hs w schedule k).threads i).Finished)
    (hended : ∃ row', (after hs w schedule k).state.call c = some row' ∧ row'.ended = true) :
    LegOver hs c row.channel (after hs w schedule k).state := by
  intro hleg
  have hinv := Invariant.run h hone hleg hok k
  obtain ⟨row', hrow', hended⟩ := hended
  obtain ⟨i, hreports | howes | htold⟩ := hinv.ended row' hrow' hended
  · exact .inr (.inr ⟨i, hreports⟩)
  · have hdone : Done (phases hs c (after hs w schedule k) i) := hinv.conforms.final_of_finished (hfinished i)
    exact absurd howes hdone
  · exact .inr (.inl (hinv.told i htold))

end runs

/-! ## A cancel that crosses the dial -/

/-- The row of a call its agent has started. -/
def started : CallRow :=
  { direction := .outbound, status := .initiated, agentId := some 1, ringingAt := some 500 }

def dialling : World :=
  { now := 1000
    calls := .ofList [fun _ => started]
    agents := .ofList [fun _ => { busyCallId := some 1 }]
    rooms := fun _ => { held := true, legSeq := 1, agents := [(1, 1)] } }

theorem placed_dialling : Placed dialling 1 started := ⟨rfl, rfl, rfl, by decide⟩

def dialAndCancel : Fin 2 → Handler
  | 0 => .customerConnection 1 (some 7)
  | 1 => .callTerminated 1 .cancelled false

/-- The cancel follows the dial. -/
def inTurn : List (Fin 2) := List.replicate 5 0 ++ List.replicate 9 1

theorem legOver_inTurn : LegOver dialAndCancel 1 .whatsapp (after dialAndCancel dialling inTurn 14).state :=
  legOver_of_informed dialAndCancel dialling inTurn 1 started placed_dialling (by decide) (by decide) 14 (by decide)
    ⟨_, rfl, by decide⟩

/-- The cancel comes whole before the provider's call id is stored. -/
def crossed : List (Fin 2) := List.replicate 4 0 ++ List.replicate 8 1 ++ [0]

theorem not_legOver : Placed dialling 1 started ∧ (∀ i, ((after dialAndCancel dialling crossed 13).threads i).Finished) ∧
    ((after dialAndCancel dialling crossed 13).state.call 1).any (·.ended) = true ∧
    ¬ LegOver dialAndCancel 1 .whatsapp (after dialAndCancel dialling crossed 13).state :=
  ⟨placed_dialling, by decide, by decide, by unfold LegOver; decide⟩

end Callio.DialledLeg
