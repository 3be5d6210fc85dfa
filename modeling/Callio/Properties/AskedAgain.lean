import Callio.Conduct.Handlers
import Callio.Persistence.Effects
import Mathlib.Data.Fintype.Basic

/-! Who declined a waiting call, or missed it, and whom it is offered to next.
An offer taken back is in the call's history before its handler goes on, but a
RING_ALL offer dismissed is not; and an offer made by someone who has read the
history is made to nobody in it. -/

namespace Callio.AskedAgain

open Concurrency Code

/-! ## Handlers -/

/-- A call's history, as a handler has read it. -/
structure History where
  callId : Nat
  declined : List Nat
  missed : List Nat
  deriving DecidableEq

structure Phase where
  /-- What an offer counts as that this handler takes back. -/
  kind : OfferHistory.Kind
  /-- The offer it has taken back and not recorded. -/
  owes : Option (Nat × Nat) := none
  row : Option Call := none
  members : List Agent := []
  history : Option History := none

def kind : Handler → OfferHistory.Kind
  | .callRejected _ _ => .declined
  | _ => .missed

def History.setMissed (h : History) (callId : Nat) (missed : List Nat) : History :=
  if h.callId = callId then { h with missed } else h

def next (p : Phase) : (s : Stmt) → s.Res → Phase
  | .query (.findById _), call => { p with row := call }
  | .query (.getMembers _), members => { p with members }
  | .query (.declined c), declined => { p with history := some ⟨c, declined, []⟩ }
  | .query (.missed c), missed => { p with history := p.history.map (·.setMissed c missed) }
  | .record (.clearMissed c), _ => { p with history := p.history.map (·.setMissed c []) }
  | .updateCall c (.withdrawOffer a _), won => if won then { p with owes := some (c, a) } else p
  | .record (.recordDeclined _ _), _ | .record (.recordMissed _ _), _ => { p with owes := none }
  | _, _ => p

/-- What is taken back is recorded before anything else. -/
def allows (p : Phase) : Stmt → Prop
  | .record (.recordDeclined c a) => p.owes = some (c, a) ∧ p.kind = .declined
  | .record (.recordMissed c a) => p.owes = some (c, a) ∧ p.kind = .missed
  | _ => p.owes = none

abbrev protocol : Protocol Stmt.Res := ⟨Phase, next, allows⟩

def Settled (κ : OfferHistory.Kind) (p : Phase) : Prop := p.kind = κ ∧ p.owes = none

/-- The statement neither takes an offer back nor records one. -/
@[simp] def Ordinary : Stmt → Prop
  | .updateCall _ (.withdrawOffer _ _) | .record (.recordDeclined _ _) | .record (.recordMissed _ _) => False
  | _ => True

theorem allows_of_ordinary {p : Phase} {s : Stmt} (hs : Ordinary s) (hp : p.owes = none) : allows p s := by
  unfold allows
  split
  · cases hs
  · cases hs
  · exact hp

theorem next_of_ordinary {p : Phase} {s : Stmt} {r : s.Res} (hs : Ordinary s) :
    (next p s r).kind = p.kind ∧ (next p s r).owes = p.owes := by
  unfold next
  split
  · exact ⟨rfl, rfl⟩
  · exact ⟨rfl, rfl⟩
  · exact ⟨rfl, rfl⟩
  · exact ⟨rfl, rfl⟩
  · exact ⟨rfl, rfl⟩
  · cases hs
  · cases hs
  · cases hs
  · exact ⟨rfl, rfl⟩

theorem next_kind (p : Phase) (s : Stmt) (r : s.Res) : (next p s r).kind = p.kind := by
  unfold next
  split <;> first | rfl | (split <;> rfl)

section follows

variable {κ : OfferHistory.Kind}

theorem keeps_settled {s : Stmt} (hs : Ordinary s) : protocol.Keeps (Settled κ) s := by
  rintro p ⟨hkind, howes⟩
  refine ⟨allows_of_ordinary hs howes, fun r => ?_⟩
  obtain ⟨hkind', howes'⟩ := next_of_ordinary (p := p) (r := r) hs
  exact ⟨hkind'.trans hkind, howes'.trans howes⟩

theorem ordinary_of_has {v : Vocabulary} {s : Stmt} (h : v.Has s) (hv : v ≠ .withdrawing) : Ordinary s := by
  cases s with
  | updateCall c u => cases u <;> first | trivial | (cases v <;> simp_all)
  | record op => cases op <;> first | trivial | (cases v <;> simp_all)
  | _ => trivial

theorem routes : Routes protocol (Settled κ) := by
  refine .of_keeps fun s hs => keeps_settled ?_
  rcases hs with hs | hs
  · exact ordinary_of_has (v := .routing) hs nofun
  · exact ordinary_of_has (v := .offering) hs nofun

theorem ends : Ends protocol (Settled κ) :=
  .of_keeps routes fun _ hs => keeps_settled (ordinary_of_has (v := .ending) hs nofun)

/-- An offer is passed on with its record. -/
theorem passOffer_stays (call : Call) (agentId : Nat) (expiredBefore : Option Nat) :
    (passOffer call agentId κ expiredBefore).Stays protocol (Settled κ) := by
  rintro p ⟨rfl, howes⟩
  refine (Prog.follows_cmd_bind _ _ _ _).mpr ⟨howes, fun won => ?_⟩
  cases won with
  | false => exact ⟨rfl, howes⟩
  | true =>
    have hrest : (do
        emit (.offerWithdrawn call.id [agentId])
        let _ ← releaseAgent agentId call.id
        if p.kind = .missed then let _ ← recordMiss call.id call.tenantId call.queueId agentId
        routeWaitingCall call.id call.queueId
        return true : Code Bool).Stays protocol (Settled p.kind) := by
      have hroute : (routeWaitingCall call.id call.queueId >>= fun _ => pure true).Stays protocol (Settled p.kind) :=
        (routes.routeWaitingCall _ _).bind fun _ => Prog.stays_ret _
      have hemit : (emit (.offerWithdrawn call.id [agentId])).Stays protocol (Settled p.kind) :=
        Prog.stays_cmd (keeps_settled trivial)
      refine hemit.bind fun _ => ?_
      refine (releaseAgent_stays (keeps_settled trivial) fun h => absurd h (by decide)).bind fun _ => ?_
      refine .ite (fun _ => ?_) fun _ => hroute
      exact (routes.recordMiss (fun _ => keeps_settled trivial) _ _ _ _ _).bind fun _ => hroute
    cases hkind : p.kind with
    | declined =>
      rw [hkind] at hrest
      exact ⟨⟨rfl, hkind⟩, fun _ => hrest _ ⟨hkind, rfl⟩⟩
    | missed =>
      rw [hkind] at hrest
      exact ⟨⟨rfl, hkind⟩, fun _ => hrest _ ⟨hkind, rfl⟩⟩

theorem ordinary_of_freeing {s : Stmt} (h : s.Freeing) : Ordinary s := by
  cases s with
  | updateCall c u => cases h
  | record op => cases h
  | _ => trivial

theorem queueTimeoutTick_stays (seconds : Nat) :
    (queueTimeoutTick seconds).Stays protocol (Settled .missed) := by
  have hoffers : expireOffers.Stays protocol (Settled .missed) := by
    refine .bind (routes.read .findExpiredOffers trivial) fun calls => expireOffersOf_stays fun call _ => ?_
    exact expireOffer_stays fun agentId _ => passOffer_stays _ _ _
  have hwaits : expireWaits.Stays protocol (Settled .missed) := by
    have hread : (read .findExpiredWaits).Stays protocol (Settled .missed) :=
      Prog.stays_cmd (keeps_settled trivial)
    refine hread.bind fun waits => expireWaitsOf_stays fun wait _ => ?_
    refine waitExpired_takes routes.toSeeks _ _ (fun _ queueId _ toQueueId => ?_) (ends.endCall _ _)
    have hmove : (update wait.1.id (.overflowToQueue queueId toQueueId wait.1.agentId)).Stays protocol
        (Settled .missed) := Prog.stays_cmd (keeps_settled trivial)
    refine hmove.bind fun _ => ?_
    refine .ite (fun _ => ?_) fun _ => Prog.stays_ret _
    exact callOverflowed_stays routes.toSeeks (fun _ hs => keeps_settled (ordinary_of_freeing hs)) _ _
  refine hoffers.bind fun _ => hwaits.bind fun _ => ?_
  refine .bind (routes.read (.findExpiredHandovers seconds) trivial) fun calls =>
    expireHandoversOf_stays fun call _ => ?_
  exact handoverExpired_stays (fun _ _ _ => keeps_settled trivial) (fun _ _ _ => keeps_settled trivial) call
    (fun _ => passOffer_stays _ _ _) (ends.endCall _ _)

end follows

/-- Every handler follows the protocol. -/
theorem follows (h : Handler) : h.code.Follows protocol { kind := kind h } fun _ => Settled (kind h) := by
  have hother (hv : .withdrawing ∉ h.vocabulary) :
      h.code.Follows protocol { kind := kind h } fun _ => Settled (kind h) := by
    refine h.code_stays (P := protocol) (Q := Settled (kind h)) routes
      (fun s hs => keeps_settled (ordinary_of_has (v := .ending) hs nofun))
      (fun _ a => keeps_settled (s := .incrementMissed a) trivial)
      (fun v hm s hs => keeps_settled (ordinary_of_has hs ?_)) _ ⟨rfl, rfl⟩
    rintro rfl
    exact hv hm
  cases h with
  | queueTimeoutTick seconds => exact queueTimeoutTick_stays seconds _ ⟨rfl, rfl⟩
  | callRejected c u =>
    exact handleCallRejected_stays ends (fun _ _ => passOffer_stays _ _ _) (fun _ _ => keeps_settled trivial)
      (fun _ _ => keeps_settled trivial) (fun _ _ => keeps_settled trivial) (fun _ _ => keeps_settled trivial)
      c u _ ⟨rfl, rfl⟩
  | inboundCall line offer outcome =>
    refine hother ?_
    simp only [Handler.vocabulary]
    split <;> simp
  | statusChanged line p status t =>
    refine hother ?_
    simp only [Handler.vocabulary]
    split <;> simp
  | _ => exact hother (by simp [Handler.vocabulary])

/-! ## Declines and offers -/

/-- The statement takes an offer back: the call, and whose offer. -/
def withdrawn (w : World) : Stmt → Option (Nat × Nat)
  | .updateCall c (.withdrawOffer a expiredBefore) =>
      if (w.call c).any (CallUpdate.withdrawOffer a expiredBefore).guard then some (c, a) else none
  | _ => none

/-- The statement settles a decline that no history records: of a RING_ALL offer
nobody has taken, or of a call with no queue to pass it on to. -/
def dismissed (h : Handler) (p : Phase) (w : World) (s : Stmt) : Option (Nat × Nat) :=
  match h, s with
  | .callRejected c u, .query (.findQueue q) =>
      let unclaimed := p.row.any fun call =>
        call.direction = .inbound && call.status = .ringing && call.agentId.isNone
      let ringAll := (w.findQueue q).any fun queue => queue.active && queue.isRingAll
      if unclaimed && ringAll then some (c, u) else none
  | .callRejected c u, .updateCall d (.assignCallToAgentIfEligible a) =>
      if d = c && a = u && (w.call c).any (CallUpdate.assignCallToAgentIfEligible a).guard then some (c, u)
      else none
  | _, _ => none

/-- Whom the statement offers a call to. -/
def offered (h : Handler) (w : World) (s : Stmt) : List (Nat × Nat) :=
  match s with
  | .claimAgentAndAssignCall a c false => if (w.claimAgentAndAssignCall a c false).2.assigned then [(c, a)] else []
  | .emit (.callIncoming c none agentIds _) => agentIds.map (c, ·)
  | .updateAgent a (.claimAgentForCall c) =>
      match h with
      | .callTransferred _ _ (.toQueue _) _ =>
          if (w.agent a).any ((AgentUpdate.claimAgentForCall c).guard w a) then [(c, a)] else []
      | _ => []
  | _ => []

/-- The members a handler has to choose from. -/
def membersFor (h : Handler) (w : World) (c : Nat) : List Agent :=
  match h with
  | .callTransferred _ _ (.toQueue q) _ => (Query.getMembers q).answer w
  | _ => ((w.call c).bind (·.queueId)).elim [] fun q => (Query.getMembers q).answer w

/-- `OfferHistory.eligible`, of what it has read. -/
def eligibleMembers (declined missed : List Nat) (members : List Agent) : List Agent :=
  let notDeclined := members.filter fun a => !declined.contains a.id
  let fresh := notDeclined.filter fun a => !missed.contains a.id
  if missed.isEmpty || fresh.any (·.availability = .available) then fresh else notDeclined

theorem not_declined_of_eligible {declined missed : List Nat} {members : List Agent} {a : Agent}
    (h : a ∈ eligibleMembers declined missed members) : a.id ∉ declined := by
  have hnot : a ∈ members.filter fun a => !declined.contains a.id := by
    unfold eligibleMembers at h
    dsimp only at h
    split at h
    · exact List.mem_of_mem_filter h
    · exact h
  simpa using (List.mem_filter.mp hnot).2

/-- Who has missed the call is eligible only if nobody fresh is available. -/
theorem no_fresh_of_eligible {declined missed : List Nat} {members : List Agent} {a b : Agent}
    (h : a ∈ eligibleMembers declined missed members) (ha : a.id ∈ missed) (hb : b ∈ members)
    (hav : b.availability = .available) : b.id ∈ declined ∨ b.id ∈ missed := by
  unfold eligibleMembers at h
  dsimp only at h
  split at h
  · have hfresh := (List.mem_filter.mp h).2
    simp [ha] at hfresh
  · rename_i hnone
    by_contra hneither
    obtain ⟨hd, hm⟩ := not_or.mp hneither
    apply hnone
    rw [Bool.or_eq_true, List.any_eq_true]
    refine .inr ⟨b, ?_, by simpa using hav⟩
    simp [hb, hd, hm]

/-! ## The paths that heed a history -/

/-- Whom a statement would offer a call to. -/
def asks : Stmt → List (Nat × Nat)
  | .claimAgentAndAssignCall a c false | .updateAgent a (.claimAgentForCall c) => [(c, a)]
  | .emit (.callIncoming c none agentIds _) => agentIds.map (c, ·)
  | _ => []

theorem mem_asks_of_offered {h : Handler} {w : World} {s : Stmt} {e : Nat × Nat} (he : e ∈ offered h w s) :
    e ∈ asks s := by
  unfold offered at he
  split at he
  · split at he
    · exact he
    · cases he
  · exact he
  · split at he
    · split at he
      · exact he
      · cases he
    · cases he
  · cases he

/-- The history, if it has been read, and the members read make the agent eligible. -/
def Heeding (p : Phase) (c a : Nat) : Prop :=
  ∀ declined missed, p.history = some ⟨c, declined, missed⟩ →
    a ∈ (eligibleMembers declined missed p.members).map (·.id)

theorem heeding_of_history {p : Phase} {c a : Nat} {declined missed : List Nat}
    (h : p.history = some ⟨c, declined, missed⟩) (ha : a ∈ (eligibleMembers declined missed p.members).map (·.id)) :
    Heeding p c a := by
  intro declined' missed' h'
  obtain ⟨rfl, rfl⟩ : declined = declined' ∧ missed = missed' := by simpa using h.symm.trans h'
  exact ha

/-- A phase, or none once Redis has answered an order of other agents than given. -/
def heed : Option Phase → (s : Stmt) → s.Res → Option Phase
  | none, _, _ => none
  | some p, .reconcileQueueOrder _ given, ordered => if ordered ⊆ given then some p else none
  | some p, s, r => some (next p s r)

/-- Whoever has read a call's history offers it to agents eligible only. -/
def heeds : Option Phase → Stmt → Prop
  | some p, s => ∀ e ∈ asks s, Heeding p e.1 e.2
  | none, _ => True

abbrev heeding : Protocol Stmt.Res := ⟨Option Phase, heed, heeds⟩

/-- The answer of a real order is of agents given. -/
theorem heed_exec (p : Phase) (s : Stmt) (w : World) :
    heed (some p) s (s.exec w).2 = some (next p s (s.exec w).2) := by
  cases s with
  | reconcileQueueOrder q given =>
    have hsub : ((Stmt.reconcileQueueOrder q given).exec w).2 ⊆ given := by
      intro a ha
      obtain ⟨id, -, hfind⟩ := List.mem_filterMap.mp ha
      exact List.mem_of_find?_eq_some hfind
    exact if_pos hsub
  | _ => rfl

theorem heeds_of_asks {s : Stmt} (hs : asks s = []) (q : heeding.Phase) : heeding.allows q s := by
  cases q with
  | none => trivial
  | some p =>
    intro e he
    rw [hs] at he
    cases he

theorem eligibleMembers_mono {declined missed : List Nat} {members : List Agent} {a : Agent}
    (h : a ∈ eligibleMembers declined missed (members.filter (·.availability = .available))) :
    a ∈ eligibleMembers declined missed members := by
  simp only [eligibleMembers] at h ⊢
  split at h
  · rename_i hany
    rw [if_pos]
    · simp_all
    · simp only [Bool.or_eq_true, List.any_eq_true] at hany ⊢
      refine hany.imp_right ?_
      rintro ⟨b, hb, hav⟩
      exact ⟨b, by simp_all, hav⟩
  · split
    · rename_i hnone hany
      exfalso
      apply hnone
      simp only [Bool.or_eq_true, List.any_eq_true] at hany ⊢
      refine hany.imp_right ?_
      rintro ⟨b, hb, hav⟩
      exact ⟨b, by simp_all, hav⟩
    · simp_all

/-- Everyone `eligible` returns is eligible by what it has read. -/
theorem eligible_follows (callId : Nat) (members : List Agent) (p : Phase) :
    (OfferHistory.eligible callId members).Follows heeding (some p) fun given q =>
      ∃ declined missed, q = some { p with history := some ⟨callId, declined, missed⟩ } ∧
        given ⊆ eligibleMembers declined missed members := by
  refine (Prog.follows_cmd_bind _ _ _ _).mpr ⟨heeds_of_asks rfl _, fun declined => ?_⟩
  refine (Prog.follows_cmd_bind _ _ _ _).mpr ⟨heeds_of_asks rfl _, fun missed => ?_⟩
  have hphase : next (next p (.query (.declined callId)) declined) (.query (.missed callId)) missed =
      { p with history := some ⟨callId, declined, missed⟩ } := by
    simp [next, History.setMissed]
  show Prog.Follows heeding (some (next (next p (.query (.declined callId)) declined)
    (.query (.missed callId)) missed)) _ _
  rw [hphase]
  split
  · rename_i hempty
    simp only [Bool.and_eq_true, List.isEmpty_iff] at hempty
    obtain ⟨rfl, rfl⟩ := hempty
    exact ⟨[], [], rfl, by simp [eligibleMembers]⟩
  · dsimp only
    split
    · rename_i hfresh
      refine ⟨declined, missed, rfl, ?_⟩
      unfold eligibleMembers
      dsimp only
      rw [if_pos hfresh]
      exact List.Subset.refl _
    · rename_i hnone
      split
      · refine ⟨heeds_of_asks rfl _, fun _ => ⟨declined, [], by simp [heed, next, History.setMissed], ?_⟩⟩
        simp [eligibleMembers]
      · refine ⟨declined, missed, rfl, ?_⟩
        unfold eligibleMembers
        dsimp only
        rw [if_neg hnone]
        exact List.Subset.refl _

theorem agentOffer_follows (callId : Nat) (q : Option Phase) :
    (agentOffer callId).Follows heeding q fun _ q' => q' = q := by
  have hkeeps : ∀ s : Stmt, s.MakingLeg → heeding.Keeps (· = q) s := by
    rintro s hs p rfl
    refine ⟨heeds_of_asks ?_ _, fun r => ?_⟩
    · cases s <;> first | rfl | cases hs
    · show heed p s r = p
      cases p with
      | none => rfl
      | some p =>
        cases s with
        | query qq => cases qq <;> first | rfl | cases hs
        | record op => cases op <;> first | rfl | cases hs
        | media c op => rfl
        | _ => cases hs
  exact agentOffer_stays hkeeps callId q rfl

/-- Past such an answer anything goes. -/
theorem follows_none {α : Type} (m : Code α) : m.Follows heeding none fun _ _ => True := by
  induction m with
  | ret a => trivial
  | call s k ih => exact ⟨trivial, fun r => ih r⟩

theorem claimForWaitingCall_follows {queue : Queue} {callId : Nat} {given : List Agent} {p : Phase}
    (h : ∀ a ∈ given, Heeding p callId a.id) :
    (QueueRouter.claimForWaitingCall queue callId given).Follows heeding (some p)
      fun r q => r.1 = none → ∀ p', q = some p' → p' = p := by
  have hclaims : ∀ candidates : List Agent, candidates ⊆ given →
      (claimInOrder (fun agentId => .cmd (Stmt.claimAgentAndAssignCall agentId callId false)) candidates).Follows
        heeding (some p) fun r q => r.1 = none → ∀ p', q = some p' → p' = p := by
    intro candidates hsub
    induction candidates with
    | nil => exact fun _ p' hp' => (Option.some.inj hp').symm
    | cons a rest ih =>
      rw [List.cons_subset] at hsub
      have hheeds : heeds (some p) (.claimAgentAndAssignCall a.id callId false) := by
        intro e he
        rw [List.mem_singleton.mp he]
        exact h a hsub.1
      refine (Prog.follows_cmd_bind _ _ _ _).mpr ⟨hheeds, fun claim => ?_⟩
      split
      · exact nofun
      · exact (ih hsub.2).bind fun r q hr => hr
  have hlost : ∀ candidates : List Agent,
      (claimInOrder (fun agentId => .cmd (Stmt.claimAgentAndAssignCall agentId callId false)) candidates).Follows
        heeding none fun r q => r.1 = none → ∀ p', q = some p' → p' = p := by
    intro candidates
    induction candidates with
    | nil => exact fun _ p' hp' => nomatch hp'
    | cons a rest ih =>
      refine (Prog.follows_cmd_bind _ _ _ _).mpr ⟨trivial, fun claim => ?_⟩
      split
      · exact nofun
      · exact ih.bind fun r q hr => hr
  unfold QueueRouter.claimForWaitingCall QueueRouter.ordered
  dsimp only
  split
  · exact hclaims _ List.filter_sublist.subset
  · refine (Prog.follows_cmd_bind _ _ _ _).mpr ⟨heeds_of_asks rfl _, fun ordered => ?_⟩
    by_cases hsub : ordered ⊆ given
    · have hsome : heed (some p) (.reconcileQueueOrder queue.id given) ordered = some p := if_pos hsub
      show Prog.Follows heeding (heed (some p) (.reconcileQueueOrder queue.id given) ordered) _ _
      rw [hsome]
      exact hclaims ordered hsub
    · have hnone : heed (some p) (.reconcileQueueOrder queue.id given) ordered = none := if_neg hsub
      show Prog.Follows heeding (heed (some p) (.reconcileQueueOrder queue.id given) ordered) _ _
      rw [hnone]
      exact hlost ordered

theorem drainWaiting_follows (queue : Queue) (waiting : List Call) (p : Phase) :
    (drainWaiting queue p.members waiting).Follows heeding (some p) fun _ _ => True := by
  induction waiting generalizing p with
  | nil => trivial
  | cons call rest ih =>
    refine (eligible_follows call.id p.members p).bind ?_
    rintro given _ ⟨declined, missed, rfl, hgiven⟩
    have hheeding : ∀ a ∈ given, Heeding { p with history := some ⟨call.id, declined, missed⟩ } call.id a.id :=
      fun a ha => heeding_of_history rfl (List.mem_map_of_mem (hgiven ha))
    refine (claimForWaitingCall_follows hheeding).bind ?_
    rintro ⟨agent, taken⟩ q hq
    cases agent with
    | some agent =>
      refine Prog.Follows.bind_any ?_ fun _ _ => trivial
      refine (agentOffer_follows call.id q).bind ?_
      intro sdp q' hq'
      exact ⟨heeds_of_asks rfl _, fun _ => trivial⟩
    | none =>
      cases q with
      | none => exact (follows_none _).bind fun _ _ _ => trivial
      | some p' =>
        obtain rfl := hq rfl p' rfl
        exact (ih _).bind fun _ _ _ => trivial

/-- A drain offers a waiting call to whom its history leaves, and no one else. -/
theorem drainQueue_follows (queue : Queue) (attempts : Nat) (q : Option Phase) :
    (drainQueue queue attempts).Follows heeding q fun _ _ => True := by
  induction attempts generalizing q with
  | zero => trivial
  | succ attempts ih =>
    refine (Prog.follows_cmd_bind _ _ _ _).mpr ⟨heeds_of_asks rfl _, fun members => ?_⟩
    split
    · trivial
    · refine (Prog.follows_cmd_bind _ _ _ _).mpr ⟨heeds_of_asks rfl _, fun waiting => ?_⟩
      refine Prog.Follows.bind_any ?_ fun r q' => ?_
      · cases q with
        | none => exact follows_none _
        | some p => exact drainWaiting_follows queue waiting { p with members }
      · obtain ⟨assigned, raceLost⟩ := r
        dsimp only
        split
        · trivial
        · exact ih q'

/-- Neither does an offer to everyone. -/
theorem offerToAll_follows (queue : Queue) (callId : Nat) (q : Option Phase) :
    (offerToAll queue callId).Follows heeding q fun _ _ => True := by
  cases q with
  | none => exact follows_none _
  | some p =>
    refine (Prog.follows_cmd_bind _ _ _ _).mpr ⟨heeds_of_asks rfl _, fun call => ?_⟩
    cases call with
    | none => trivial
    | some call =>
      refine (Prog.follows_cmd_bind _ _ _ _).mpr ⟨heeds_of_asks rfl _, fun members => ?_⟩
      refine (eligible_follows callId _ { p with row := some call, members }).bind ?_
      rintro offered _ ⟨declined, missed, rfl, hoffered⟩
      split
      · trivial
      · refine (agentOffer_follows callId _).bind ?_
        rintro sdp _ rfl
        refine ⟨?_, fun _ => trivial⟩
        intro e he
        obtain ⟨a, ha, rfl⟩ := List.mem_map.mp he
        obtain ⟨agent, hagent, rfl⟩ := List.mem_map.mp ha
        exact heeding_of_history rfl (List.mem_map_of_mem (eligibleMembers_mono (hoffered hagent)))

/-! ## Every handler heeds the histories it reads -/

theorem keeps_any {s : Stmt} (hs : asks s = []) : heeding.Keeps (fun _ => True) s :=
  fun q _ => ⟨heeds_of_asks hs q, fun _ => trivial⟩

theorem asks_of_has {v : Vocabulary} {s : Stmt} (h : v.Has s)
    (hv : v ∉ [Vocabulary.routing, .claiming, .offering, .transferring]) : asks s = [] := by
  cases s with
  | claimAgentAndAssignCall a c anyShift => cases anyShift <;> first | rfl | (cases v <;> simp_all)
  | updateAgent a u => cases u <;> first | rfl | (cases v <;> simp_all)
  | emit e => cases e <;> first | rfl | (cases v <;> simp_all)
  | _ => rfl

theorem asks_of_looking {s : Stmt} (h : s.Looking) : asks s = [] := by
  cases s with
  | claimAgentAndAssignCall _ _ _ | updateAgent _ _ | emit _ => cases h
  | _ => rfl

theorem asks_of_resetting {s : Stmt} (h : s.Resetting) : asks s = [] := by
  cases s with
  | updateAgent a u => cases u <;> first | rfl | cases h
  | claimAgentAndAssignCall _ _ _ | emit _ => cases h
  | _ => rfl

/-- Waiting calls are offered by the history, whatever has been read before. -/
theorem routes_any : Routes heeding fun _ => True where
  looking _ hs := keeps_any (asks_of_looking hs)
  drainQueue queue attempts q _ := drainQueue_follows queue attempts q
  offerToAll queue callId q _ := offerToAll_follows queue callId q
  resetting _ hs := keeps_any (asks_of_resetting hs)

theorem keeps_ending {s : Stmt} (hs : s.Ending) : heeding.Keeps (fun _ => True) s :=
  keeps_any (asks_of_has (v := .ending) hs (by decide))

/-- No history has been read. -/
def Unread (q : Option Phase) : Prop := ∀ p, q = some p → p.history = none

theorem unread_none : Unread none := fun p hp => by cases hp

theorem next_unread {p : Phase} {s : Stmt} (hs : ∀ c, s ≠ .query (.declined c)) (hp : p.history = none) (r : s.Res) :
    (next p s r).history = none := by
  unfold next
  split
  · exact hp
  · exact hp
  · exact absurd rfl (hs _)
  · rw [Option.map_eq_none_iff]
    exact hp
  · rw [Option.map_eq_none_iff]
    exact hp
  · split <;> exact hp
  · exact hp
  · exact hp
  · exact hp

/-- Either Redis has answered an order of others, or the phase goes on. -/
theorem heed_some (p : Phase) (s : Stmt) (r : s.Res) :
    heed (some p) s r = none ∨ heed (some p) s r = some (next p s r) := by
  cases s with
  | reconcileQueueOrder q given =>
    by_cases hsub : r ⊆ given
    · exact .inr (if_pos hsub)
    · exact .inl (if_neg hsub)
  | _ => exact .inr rfl

theorem keeps_unread {s : Stmt} (hs : ∀ c, s ≠ .query (.declined c)) : heeding.Keeps Unread s := by
  intro q hq
  cases q with
  | none => exact ⟨trivial, fun _ => unread_none⟩
  | some p =>
    have hnone : p.history = none := hq p rfl
    refine ⟨fun e _ declined missed h => ?_, fun r => ?_⟩
    · rw [hnone] at h
      cases h
    · show Unread (heed (some p) s r)
      rcases heed_some p s r with h | h
      · rw [h]
        exact unread_none
      · rw [h]
        rintro _ ⟨⟩
        exact next_unread hs hnone r

theorem unread_of_has {v : Vocabulary} {s : Stmt} (h : v.Has s) (hv : v ≠ .routing) (c : Nat) :
    s ≠ .query (.declined c) := by
  rintro rfl
  cases v <;> simp_all

theorem claims_unread : Claims heeding Unread where
  looking s hs := by
    refine keeps_unread fun c => ?_
    rintro rfl
    cases hs
  claims agentId callId := keeps_unread nofun

theorem arrives : Arrives heeding Unread fun _ => True where
  toClaims := claims_unread
  le _ _ := trivial
  reports := .of_keeps fun _ hs => keeps_unread (unread_of_has (v := .reporting) hs nofun)
  offering _ hs := keeps_unread (unread_of_has (v := .offering) hs nofun)

/-- No handler offers a call whose history it has read to whom the history rules out. -/
theorem heeds_code (h : Handler) : h.code.Follows heeding (some { kind := kind h }) fun _ _ => True := by
  have hunread : Unread (some { kind := kind h }) := by
    rintro p ⟨⟩
    rfl
  have hother (hv : ∀ v ∈ h.vocabulary, v ∉ [Vocabulary.routing, .claiming, .offering, .transferring]) :
      h.code.Follows heeding (some { kind := kind h }) fun _ _ => True :=
    h.code_stays routes_any (fun _ => keeps_ending) (fun _ a => keeps_any rfl)
      (fun v hm s hs => keeps_any (asks_of_has hs (hv v hm))) _ trivial
  -- whom the first three offer a call to by no history, they do before they read any
  cases h with
  | inboundCall line offer outcome =>
    exact inboundCall_takes routes_any (fun _ => keeps_ending) arrives
      (.of_keeps fun _ hs => keeps_any (asks_of_has (v := .reporting) hs (by decide))) line offer outcome
      (fun _ _ hs => keeps_unread (unread_of_has (v := .autoAnswering) hs nofun)) _ hunread
  | ivrTransfer t =>
    refine t.handle_takes routes_any.toSeeks claims_unread (fun _ _ => trivial) (fun s hs => ?_) ?_ _ hunread
    · rcases hs with hs | hs
      · exact keeps_unread (unread_of_has (v := .leavingIvr) hs nofun)
      · exact keeps_unread (unread_of_has (v := .offering) hs nofun)
    · exact (Ends.of_keeps routes_any fun _ => keeps_ending).ivrFinished (fun c => keeps_any rfl) _ _
  | callTransferred c t request assignorId =>
    refine (handleCallTransferred_stays claims_unread.toLooks (fun s hs => ?_) c t request assignorId _ hunread).mono
      fun _ _ _ => trivial
    rcases hs with hs | hs
    · exact keeps_unread (unread_of_has (v := .transferring) hs nofun)
    · exact keeps_unread (unread_of_has (v := .offering) hs nofun)
  | statusChanged line p status t =>
    refine hother ?_
    simp only [Handler.vocabulary]
    split <;> decide
  | _ => exact hother (by simp [Handler.vocabulary])

/-! ## Runs -/

section runs

variable {ι : Type} [DecidableEq ι] (hs : ι → Handler) (w : World) (schedule : List ι)

abbrev after (k : Nat) : Service ι := (Service.spawn w hs).after schedule k

abbrev phases (s : Service ι) : ι → Phase := protocol.phases (fun i => { kind := kind (hs i) }) s

/-- What move `k` settles for the history to record: a call, and who declined it. -/
def passesAt (k : Nat) : Option (Nat × Nat) :=
  schedule[k]?.bind fun i => ((after hs w schedule k).next i).bind fun s =>
    if kind (hs i) = .declined then withdrawn (after hs w schedule k).state s else none

def dismissesAt (k : Nat) : Option (Nat × Nat) :=
  schedule[k]?.bind fun i => ((after hs w schedule k).next i).bind
    (dismissed (hs i) (phases hs (after hs w schedule k) i) (after hs w schedule k).state)

/-- The agent has declined the call, before move `k`. -/
def Declined (k c a : Nat) : Prop :=
  a ∈ w.declined c ∨ ∃ m < k, passesAt hs w schedule m = some (c, a) ∨ dismissesAt hs w schedule m = some (c, a)

/-- The agent has missed the call in its current round. -/
def Missed (s : Service ι) (c a : Nat) : Prop :=
  a ∈ s.state.missed c ∨ ∃ i, (phases hs s i).owes = some (c, a) ∧ kind (hs i) = .missed

def offersAt (k : Nat) (i : ι) : List (Nat × Nat) :=
  ((after hs w schedule k).next i).elim [] (offered (hs i) (after hs w schedule k).state)

/-- Who declined a call is not offered it again, and who missed it only once
every other available member has declined or missed it. -/
structure NotAgain : Prop where
  declined : ∀ k i c a, schedule[k]? = some i → (c, a) ∈ offersAt hs w schedule k i → ¬ Declined hs w schedule k c a
  missed : ∀ k i c a, schedule[k]? = some i → (c, a) ∈ offersAt hs w schedule k i →
    Missed hs (after hs w schedule k) c a → ∀ b ∈ membersFor (hs i) (after hs w schedule k).state c,
      b.availability = .available → Declined hs w schedule k c b.id ∨ Missed hs (after hs w schedule k) c b.id

/-- The history tells all that happened to the call, and whoever offers it has read
it, or it has none. -/
structure Heeds (k : Nat) (i : ι) (c : Nat) : Prop where
  /-- Nobody has taken an offer back and not recorded it. -/
  recorded : ∀ j, ((phases hs (after hs w schedule k) j).owes.map Prod.fst) ≠ some c
  /-- Nobody has declined the call where declines are not recorded. -/
  told : ∀ m < k, (dismissesAt hs w schedule m).map Prod.fst ≠ some c
  /-- The history is as it was read, and so is who is available, at least. -/
  heeded : ((after hs w schedule k).state.declined c = [] ∧ (after hs w schedule k).state.missed c = []) ∨
    ((phases hs (after hs w schedule k) i).history =
        some ⟨c, (after hs w schedule k).state.declined c, (after hs w schedule k).state.missed c⟩ ∧
      ∀ b ∈ membersFor (hs i) (after hs w schedule k).state c, b.availability = .available →
        b ∈ (phases hs (after hs w schedule k) i).members)

instance [Fintype ι] (k : Nat) (i : ι) (c : Nat) : Decidable (Heeds hs w schedule k i c) :=
  decidable_of_iff (_ ∧ _ ∧ _) ⟨fun h => ⟨h.1, h.2.1, h.2.2⟩, fun h => ⟨h.1, h.2, h.3⟩⟩

structure Invariant (k : Nat) : Prop where
  conforms : protocol.Conforms (fun _ => True) (fun i => { kind := kind (hs i) }) (after hs w schedule k)
  /-- Whom the history names has declined. -/
  sound : ∀ c a, a ∈ (after hs w schedule k).state.declined c → Declined hs w schedule k c a
  owed : ∀ i c a, (phases hs (after hs w schedule k) i).owes = some (c, a) → kind (hs i) = .declined →
    Declined hs w schedule k c a
  kept : ∀ c, w.declined c ⊆ (after hs w schedule k).state.declined c
  /-- A decline of an offer is recorded, or about to be. -/
  recorded : ∀ m c a, m < k → passesAt hs w schedule m = some (c, a) →
    a ∈ (after hs w schedule k).state.declined c ∨
      ∃ i, (phases hs (after hs w schedule k) i).owes = some (c, a) ∧ kind (hs i) = .declined

variable {hs w schedule} {k : Nat} {i : ι} {s : Stmt}

omit [DecidableEq ι] in
theorem phases_kind (s : Service ι) (i : ι) : (phases hs s i).kind = kind (hs i) := by
  show (protocol.phase { kind := kind (hs i) } (s.threads i).seen).kind = _
  induction (s.threads i).seen with
  | nil => rfl
  | cons answered seen ih => exact (next_kind _ _ _).trans ih

theorem Declined.succ {c a : Nat} (h : Declined hs w schedule k c a) : Declined hs w schedule (k + 1) c a :=
  h.imp_right fun ⟨m, hlt, hm⟩ => ⟨m, by omega, hm⟩

/-- Only the record of a decline changes who has declined. -/
theorem declined_exec {s : Stmt} (hs : ∀ c a, s ≠ .record (.recordDeclined c a)) (w : World) :
    (s.exec w).1.declined = w.declined := by
  cases s with
  | claimAgentAndAssignCall a c anyShift =>
    simp only [Stmt.exec, World.claimAgentAndAssignCall]
    split
    · split <;> rfl
    · rfl
  | createCall row =>
    simp only [Stmt.exec]
    split <;> rfl
  | record op =>
    cases op with
    | recordDeclined c a => exact absurd rfl (hs c a)
    | _ => rfl
  | _ => rfl

/-- What a statement does to the history, and to what its handler owes it. -/
inductive Turn (w : World) (p : Phase) (s : Stmt) : Prop
  | plain (howes : (next p s (s.exec w).2).owes = p.owes) (hdeclined : (s.exec w).1.declined = w.declined)
      (hw : withdrawn w s = none)
  | takesBack (c a : Nat) (howes : (next p s (s.exec w).2).owes = some (c, a))
      (hdeclined : (s.exec w).1.declined = w.declined) (hw : withdrawn w s = some (c, a)) (hbefore : p.owes = none)
  | recordsDecline (c a : Nat) (hbefore : p.owes = some (c, a)) (hkind : p.kind = .declined)
      (howes : (next p s (s.exec w).2).owes = none)
      (hdeclined : (s.exec w).1.declined = Function.update w.declined c (a :: w.declined c))
      (hw : withdrawn w s = none)
  | recordsMiss (c a : Nat) (hbefore : p.owes = some (c, a)) (hkind : p.kind = .missed)
      (howes : (next p s (s.exec w).2).owes = none) (hdeclined : (s.exec w).1.declined = w.declined)
      (hw : withdrawn w s = none)

theorem withdrawn_of_ordinary {s : Stmt} (hs : Ordinary s) (w : World) : withdrawn w s = none := by
  unfold withdrawn
  split
  · cases hs
  · rfl

theorem turn {w : World} {p : Phase} {s : Stmt} (h : allows p s) : Turn w p s := by
  by_cases hs : Ordinary s
  · refine .plain (next_of_ordinary hs).2 (declined_exec ?_ w) (withdrawn_of_ordinary hs w)
    rintro c a rfl
    cases hs
  · unfold Ordinary at hs
    split at hs
    · rename_i c a t
      by_cases hmatched : (w.call c).any (CallUpdate.withdrawOffer a t).guard = true
      · have hwon : ((Stmt.updateCall c (.withdrawOffer a t)).exec w).2 = true := by
          rw [Stmt.exec_updateCall_snd]
          exact (Option.any_eq_true ..).mp hmatched
        refine .takesBack c a ?_ rfl (if_pos hmatched) h
        exact congrArg Phase.owes (if_pos hwon)
      · have hlost : ¬ ((Stmt.updateCall c (.withdrawOffer a t)).exec w).2 = true := by
          rw [Stmt.exec_updateCall_snd]
          exact fun hex => hmatched ((Option.any_eq_true ..).mpr hex)
        refine .plain ?_ rfl (if_neg hmatched)
        exact congrArg Phase.owes (if_neg hlost)
    · rename_i c a
      exact .recordsDecline c a h.1 h.2 rfl rfl rfl
    · rename_i c a
      exact .recordsMiss c a h.1 h.2 rfl rfl rfl
    · exact absurd trivial hs

/-- What a move comes to. -/
structure Moved (hs : ι → Handler) (w : World) (schedule : List ι) (k : Nat) (i : ι) (s : Stmt) : Prop where
  mover : schedule[k]? = some i
  next : (after hs w schedule k).next i = some s
  allowed : allows (phases hs (after hs w schedule k) i) s
  state : (after hs w schedule (k + 1)).state = (s.exec (after hs w schedule k).state).1
  own : phases hs (after hs w schedule (k + 1)) i = AskedAgain.next (phases hs (after hs w schedule k) i) s
    (s.exec (after hs w schedule k).state).2
  other : ∀ j, j ≠ i → phases hs (after hs w schedule (k + 1)) j = phases hs (after hs w schedule k) j

variable (hs w) in
theorem after_of_none (hi : schedule[k]? = none) :
    after hs w schedule (k + 1) = after hs w schedule k := by
  show Concurrency.run _ _ (schedule.take (k + 1)) = Concurrency.run _ _ (schedule.take k)
  rw [List.take_add_one, hi, Option.toList_none, List.append_nil]

/-- The mover is done, or moves. -/
theorem idle_or_moved (hi : schedule[k]? = some i)
    (hc : protocol.Conforms (fun _ => True) (fun i => { kind := kind (hs i) }) (after hs w schedule k)) :
    protocol.Conforms (fun _ => True) (fun i => { kind := kind (hs i) }) (after hs w schedule (k + 1)) ∧
      ((after hs w schedule k).next i = none ∧ after hs w schedule (k + 1) = after hs w schedule k ∨
        ∃ s, Moved hs w schedule k i s) := by
  obtain ⟨hconforms, hidle | ⟨s, hnext, hallows, hstate, hphases⟩⟩ := Service.after_succ hi hc
  · exact ⟨hconforms, .inl hidle⟩
  · refine ⟨hconforms, .inr ⟨s, hi, hnext, hallows, hstate, ?_, fun j hj => ?_⟩⟩
    · rw [phases, hphases, Function.update_self]
    · rw [phases, hphases, Function.update_of_ne hj]

theorem passesAt_eq (hm : Moved hs w schedule k i s) : passesAt hs w schedule k =
    if kind (hs i) = .declined then withdrawn (after hs w schedule k).state s else none := by
  simp [passesAt, hm.mover, hm.next]

namespace Invariant

theorem sound_succ (h : Invariant hs w schedule k) (hm : Moved hs w schedule k i s) (c a : Nat)
    (ha : a ∈ (after hs w schedule (k + 1)).state.declined c) : Declined hs w schedule (k + 1) c a := by
  rw [hm.state] at ha
  rcases turn (w := (after hs w schedule k).state) hm.allowed with ⟨-, hd, -⟩ | ⟨_, _, -, hd, -, -⟩ |
    ⟨d, b, hbefore, hkind, -, hd, -⟩ | ⟨_, _, -, -, -, hd, -⟩
  case recordsDecline =>
    rw [hd, Function.update_apply] at ha
    split at ha
    · rename_i hc
      subst hc
      rcases List.mem_cons.mp ha with rfl | ha
      · exact (h.owed i _ _ hbefore ((phases_kind _ i).symm.trans hkind)).succ
      · exact (h.sound _ _ ha).succ
    · exact (h.sound c a ha).succ
  all_goals
    rw [hd] at ha
    exact (h.sound c a ha).succ

theorem owed_succ (h : Invariant hs w schedule k) (hm : Moved hs w schedule k i s) (j : ι) (c a : Nat)
    (howes : (phases hs (after hs w schedule (k + 1)) j).owes = some (c, a)) (hkind : kind (hs j) = .declined) :
    Declined hs w schedule (k + 1) c a := by
  by_cases hj : j = i
  · subst hj
    rw [hm.own] at howes
    rcases turn (w := (after hs w schedule k).state) hm.allowed with ⟨ho, -, -⟩ | ⟨d, b, ho, -, hw, -⟩ |
      ⟨_, _, -, -, ho, -, -⟩ | ⟨_, _, -, -, ho, -, -⟩
    · exact (h.owed j c a (ho.symm.trans howes) hkind).succ
    · obtain ⟨rfl, rfl⟩ : d = c ∧ b = a := by simpa using ho.symm.trans howes
      refine .inr ⟨k, Nat.lt_succ_self k, .inl ?_⟩
      rw [passesAt_eq hm, if_pos hkind, hw]
    · rw [ho] at howes
      cases howes
    · rw [ho] at howes
      cases howes
  · rw [hm.other j hj] at howes
    exact (h.owed j c a howes hkind).succ

/-- No decline is ever taken out of the history. -/
theorem declined_mono (hm : Moved hs w schedule k i s) (c : Nat) :
    (after hs w schedule k).state.declined c ⊆ (after hs w schedule (k + 1)).state.declined c := by
  rw [hm.state]
  rcases turn (w := (after hs w schedule k).state) hm.allowed with ⟨-, hd, -⟩ | ⟨_, _, -, hd, -, -⟩ |
    ⟨d, b, -, -, -, hd, -⟩ | ⟨_, _, -, -, -, hd, -⟩
  case recordsDecline =>
    rw [hd]
    by_cases hc : c = d
    · subst hc
      simp
    · simp [hc]
  all_goals
    rw [hd]
    exact List.Subset.refl _

theorem recorded_succ (h : Invariant hs w schedule k) (hm : Moved hs w schedule k i s) (m c a : Nat)
    (hlt : m < k + 1) (hpass : passesAt hs w schedule m = some (c, a)) :
    a ∈ (after hs w schedule (k + 1)).state.declined c ∨
      ∃ j, (phases hs (after hs w schedule (k + 1)) j).owes = some (c, a) ∧ kind (hs j) = .declined := by
  by_cases hmk : m = k
  · subst hmk
    rw [passesAt_eq hm] at hpass
    split at hpass
    · rename_i hkind
      rcases turn (w := (after hs w schedule m).state) hm.allowed with ⟨-, -, hw⟩ | ⟨d, b, ho, -, hw, -⟩ |
        ⟨_, _, -, -, -, -, hw⟩ | ⟨_, _, -, -, -, -, hw⟩
      case takesBack =>
        rw [hw] at hpass
        exact .inr ⟨i, by rw [hm.own, ho, hpass], hkind⟩
      all_goals
        rw [hw] at hpass
        cases hpass
    · cases hpass
  · rcases h.recorded m c a (by omega) hpass with hin | ⟨j, howes, hkind⟩
    · exact .inl (declined_mono hm c hin)
    · by_cases hj : j = i
      · subst hj
        rcases turn (w := (after hs w schedule k).state) hm.allowed with ⟨ho, -, -⟩ | ⟨_, _, -, -, -, hbefore⟩ |
          ⟨d, b, hbefore, -, -, hd, -⟩ | ⟨_, _, -, hmissed, -, -, -⟩
        · exact .inr ⟨j, by rw [hm.own, ho, howes], hkind⟩
        · rw [hbefore] at howes
          cases howes
        · obtain ⟨rfl, rfl⟩ : d = c ∧ b = a := by simpa using hbefore.symm.trans howes
          refine .inl ?_
          rw [hm.state, hd]
          simp
        · rw [phases_kind, hkind] at hmissed
          cases hmissed
      · exact .inr ⟨j, by rw [hm.other j hj, howes], hkind⟩

theorem init : Invariant hs w schedule 0 := by
  refine ⟨Protocol.conforms_spawn fun i => (follows (hs i)).mono fun _ _ _ => trivial,
    fun c a ha => .inl ha, ?_, fun c => List.Subset.refl _, nofun⟩
  intro i c a howes
  cases howes

theorem idle (h : Invariant hs w schedule k) (hsame : after hs w schedule (k + 1) = after hs w schedule k)
    (hnone : passesAt hs w schedule k = none) : Invariant hs w schedule (k + 1) := by
  refine ⟨hsame ▸ h.conforms, fun c a ha => (h.sound c a (hsame ▸ ha)).succ, ?_,
    fun c => hsame ▸ h.kept c, ?_⟩
  · exact fun i c a howes hkind => (h.owed i c a (hsame ▸ howes) hkind).succ
  · intro m c a hlt hpass
    rw [hsame]
    by_cases hmk : m = k
    · rw [hmk, hnone] at hpass
      cases hpass
    · exact h.recorded m c a (by omega) hpass

theorem succ (h : Invariant hs w schedule k) : Invariant hs w schedule (k + 1) := by
  cases hi : schedule[k]? with
  | none =>
    exact h.idle (after_of_none hs w hi) (by simp [passesAt, hi])
  | some i =>
    obtain ⟨hconforms, ⟨hnone, hsame⟩ | ⟨s, hm⟩⟩ := idle_or_moved hi h.conforms
    · exact h.idle hsame (by simp [passesAt, hi, hnone])
    · exact ⟨hconforms, h.sound_succ hm, h.owed_succ hm,
        fun c => List.Subset.trans (h.kept c) (declined_mono hm c), h.recorded_succ hm⟩

theorem run (k : Nat) : Invariant hs w schedule k := by
  induction k with
  | zero => exact init
  | succ k ih => exact ih.succ

/-- Whoever has declined a call whose history tells all is in it. -/
theorem mem_declined (h : Invariant hs w schedule k) {c a : Nat}
    (hrecorded : ∀ j, ((phases hs (after hs w schedule k) j).owes.map Prod.fst) ≠ some c)
    (htold : ∀ m < k, (dismissesAt hs w schedule m).map Prod.fst ≠ some c)
    (hd : Declined hs w schedule k c a) : a ∈ (after hs w schedule k).state.declined c := by
  rcases hd with hin | ⟨m, hlt, hpass | hdismiss⟩
  · exact h.kept c hin
  · rcases h.recorded m c a hlt hpass with hin | ⟨j, howes, -⟩
    · exact hin
    · exact absurd (by rw [howes]; rfl) (hrecorded j)
  · exact absurd (by rw [hdismiss]; rfl) (htold m hlt)

end Invariant

/-! ### Whoever has read a history heeds it -/

/-- Every handler heeds what it reads, and what it has read is what the phases say. -/
structure Heedful (hs : ι → Handler) (w : World) (schedule : List ι) (k : Nat) : Prop where
  conforms : heeding.Conforms (fun _ => True) (fun i => some { kind := kind (hs i) }) (after hs w schedule k)
  agree : ∀ i, heeding.phases (fun i => some { kind := kind (hs i) }) (after hs w schedule k) i =
    some (phases hs (after hs w schedule k) i)

namespace Heedful

theorem init : Heedful hs w schedule 0 :=
  ⟨Protocol.conforms_spawn fun i => heeds_code (hs i), fun _ => rfl⟩

theorem idle (h : Heedful hs w schedule k) (hsame : after hs w schedule (k + 1) = after hs w schedule k) :
    Heedful hs w schedule (k + 1) := by
  refine ⟨?_, fun j => ?_⟩
  · rw [hsame]
    exact h.conforms
  · rw [hsame]
    exact h.agree j

theorem succ (h : Heedful hs w schedule k) : Heedful hs w schedule (k + 1) := by
  cases hi : schedule[k]? with
  | none => exact h.idle (after_of_none hs w hi)
  | some i =>
    obtain ⟨-, ⟨-, hsame⟩ | ⟨s, hm⟩⟩ := idle_or_moved hi (Invariant.run k).conforms
    · exact h.idle hsame
    · obtain ⟨hconforms, ⟨hnone, -⟩ | ⟨s', hnext, -, -, hheeding⟩⟩ := Service.after_succ hi h.conforms
      · rw [hm.next] at hnone
        cases hnone
      · obtain rfl : s = s' := Option.some.inj (hm.next.symm.trans hnext)
        refine ⟨hconforms, fun j => ?_⟩
        rw [hheeding]
        by_cases hj : j = i
        · subst hj
          rw [Function.update_self, h.agree, hm.own]
          exact heed_exec _ s _
        · rw [Function.update_of_ne hj, hm.other j hj]
          exact h.agree j

theorem run (k : Nat) : Heedful hs w schedule k := by
  induction k with
  | zero => exact init
  | succ k ih => exact ih.succ

/-- An offer of a call whose history has been read is to an agent it leaves. -/
theorem heeding {c a : Nat} (h : Heedful hs w schedule k) (he : (c, a) ∈ offersAt hs w schedule k i) :
    Heeding (phases hs (after hs w schedule k) i) c a := by
  unfold offersAt at he
  cases hnext : (after hs w schedule k).next i with
  | none =>
    rw [hnext] at he
    cases he
  | some s =>
    rw [hnext] at he
    obtain ⟨next, hprog⟩ := Service.next_eq_some.mp hnext
    have hallows := h.conforms.allows hprog
    rw [h.agree] at hallows
    exact hallows (c, a) (mem_asks_of_offered he)

end Heedful

/-- In every run whose offers are of calls whose histories were read, nobody is asked again. -/
theorem notAgain_of_heeds (hs : ι → Handler) (w : World) (schedule : List ι)
    (hheeds : ∀ k, (hk : k < schedule.length) → ∀ e ∈ offersAt hs w schedule k schedule[k],
      Heeds hs w schedule k schedule[k] e.1) : NotAgain hs w schedule := by
  have hoffer : ∀ k i c a, schedule[k]? = some i → (c, a) ∈ offersAt hs w schedule k i →
      Heeds hs w schedule k i c := by
    intro k i c a hi he
    obtain ⟨hk, rfl⟩ := List.getElem?_eq_some_iff.mp hi
    exact hheeds k hk (c, a) he
  refine ⟨fun k i c a hi he hd => ?_, fun k i c a hi he hmissed b hb hav => ?_⟩
  · obtain ⟨hrecorded, htold, hheeded⟩ := hoffer k i c a hi he
    have hin := (Invariant.run k).mem_declined hrecorded htold hd
    rcases hheeded with ⟨hnone, -⟩ | ⟨hread, -⟩
    · rw [hnone] at hin
      cases hin
    · obtain ⟨b, hb, rfl⟩ := List.mem_map.mp ((Heedful.run k).heeding he _ _ hread)
      exact not_declined_of_eligible hb hin
  · obtain ⟨hrecorded, htold, hheeded⟩ := hoffer k i c a hi he
    have hin : a ∈ (after hs w schedule k).state.missed c := by
      refine hmissed.resolve_right ?_
      rintro ⟨j, howes, -⟩
      exact hrecorded j (by rw [howes]; rfl)
    rcases hheeded with ⟨-, hnone⟩ | ⟨hread, hmembers⟩
    · rw [hnone] at hin
      cases hin
    · obtain ⟨a', ha', rfl⟩ := List.mem_map.mp ((Heedful.run k).heeding he _ _ hread)
      exact (no_fresh_of_eligible ha' hin (hmembers b hb hav) hav).imp ((Invariant.run k).sound c b.id) .inl

end runs

/-! ## A decline nobody records -/

/-- Call 1 rings agents 1 and 2 in queue 1; its wait is over, and it overflows to
queue 2, which rings both as well. -/
def ringing : World :=
  { now := 60000
    calls := .ofList [fun _ => { direction := .inbound, status := .ringing, state := some .queue,
                                 queueId := some 1, ringingAt := some 0, queuedAt := some 0 }]
    agents := .ofList [fun _ => {}, fun _ => {}]
    queues := fun q => match q with
      | 1 => some { strategy := .ringAll, maxWaitSeconds := some 60, overflowQueueId := some 2 }
      | 2 => some { strategy := .ringAll }
      | _ => none
    members := fun _ => [1, 2] }

/-- The same call rings agent 1 alone, in a queue that asks one at a time. -/
def ringingOne : World :=
  { ringing with
    calls := .ofList [fun _ => { direction := .inbound, status := .ringing, state := some .queue, agentId := some 1,
                                 queueId := some 1, ringingAt := some 0, queuedAt := some 0, offeredAt := some 0 }]
    agents := .ofList [fun _ => { busyCallId := some 1 }, fun _ => {}]
    queues := fun q => if q = 1 then some {} else none }

def declineAndOverflow : Fin 2 → Handler
  | 0 => .callRejected 1 1
  | 1 => .queueTimeoutTick 30

/-- A decline is passed on to agent 2, and a scan finds nothing to do. -/
theorem notAgain_ringingOne :
    NotAgain declineAndOverflow ringingOne (List.replicate 24 0 ++ List.replicate 4 1) :=
  notAgain_of_heeds declineAndOverflow ringingOne _ (by decide)

/-- Agent 1 declines the call, and is rung again as it overflows. -/
theorem not_notAgain : ¬ ∀ (hs : Fin 2 → Handler) (w : World) (schedule : List (Fin 2)), NotAgain hs w schedule := by
  intro h
  refine (h declineAndOverflow ringing (List.replicate 2 0 ++ List.replicate 19 1)).declined 19 1 1 1 rfl
    (by decide) ?_
  exact .inr ⟨1, by decide, .inr (by decide)⟩

end Callio.AskedAgain
