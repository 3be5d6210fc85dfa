import Callio.Properties.RoundRobin

/-! Whether a drain, with nothing changing meanwhile, serves the first waiting call somebody may
take. It does, as long as that call is among the 25 oldest: behind 25 calls that nobody may take it
is never looked at. -/

namespace Callio.DrainServes

open Concurrency Code

/-! ## What the law says -/

/-- The calls waiting in a queue, oldest first. -/
def waiting (w : World) (queueId : Nat) : List Call :=
  (w.selectCalls fun c => c.queueId = some queueId && c.waitingInQueue).insertionSort
    fun a b => a.ringingAt.getD 0 ≤ b.ringingAt.getD 0

/-- The member may take the call, and is on no call of their own. -/
structure CanTake (w : World) (members : List Agent) (callId : Nat) (a : Agent) : Prop where
  member : a ∈ members
  available : a.availability = .available
  free : w.hasActiveCall a.id none = false
  notDeclined : a.id ∉ w.declined callId
  /-- Missed this round only if everyone available has. -/
  round : a.id ∈ w.missed callId → ∀ b ∈ members, b.availability = .available →
    b.id ∉ w.declined callId → b.id ∈ w.missed callId

def membersOf (w : World) (queueId : Nat) : List Agent := (Query.getMembers queueId).answer w

def Servable (w : World) (queueId : Nat) (call : Call) : Prop :=
  ∃ a, CanTake w (membersOf w queueId) call.id a

/-- The first of the waiting calls that somebody may take. -/
structure First (w : World) (queueId : Nat) (before : List Call) (call : Call) (rest : List Call) :
    Prop where
  order : waiting w queueId = before ++ call :: rest
  servable : Servable w queueId call
  earlier : ∀ c ∈ before, ¬ Servable w queueId c

/-- A drain with nothing changing meanwhile: its answer, and the world then. -/
def drained (w : World) (queue : Queue) : Bool × World :=
  (drainQueue queue drainAttempts).eval Stmt.exec w

/-- The drain assigns the first call somebody may take, to one who may, and none otherwise. -/
structure Serves (w : World) (queue : Queue) : Prop where
  first : ∀ before call rest, First w queue.id before call rest →
    (drained w queue).1 = true ∧ ∃ a, CanTake w (membersOf w queue.id) call.id a ∧
      (drained w queue).2.calls = w.calls.modify call.id fun c =>
        { c with agentId := some a.id, offeredAt := some (sqlNow w.now) }
  none : (∀ c ∈ waiting w queue.id, ¬ Servable w queue.id c) →
    (drained w queue).1 = false ∧ (drained w queue).2.calls = w.calls

/-- How many calls a drain looks at. -/
def reach : Nat := 25

/-- The first call somebody may take is near enough the head of the queue. -/
def InReach (w : World) (queueId : Nat) : Prop :=
  ∀ before call rest, First w queueId before call rest → before.length < reach

/-! ## One call -/

/-- The world has changed in no way that matters to these calls. -/
structure Alike (w w' : World) (ids : List Nat) : Prop where
  calls : w'.calls = w.calls
  agents : w'.agents = w.agents
  now : w'.now = w.now
  declined : w'.declined = w.declined
  missed : ∀ c ∈ ids, w'.missed c = w.missed c

theorem Alike.refl (w : World) (ids : List Nat) : Alike w w ids := ⟨rfl, rfl, rfl, rfl, fun _ _ => rfl⟩

theorem Alike.mono {w w' : World} {ids ids' : List Nat} (h : Alike w w' ids) (hsub : ids' ⊆ ids) :
    Alike w w' ids' :=
  ⟨h.calls, h.agents, h.now, h.declined, fun c hc => h.missed c (hsub hc)⟩

theorem Alike.trans {w w' w'' : World} {ids : List Nat} (h : Alike w w' ids) (h' : Alike w' w'' ids) :
    Alike w w'' ids :=
  ⟨h'.calls.trans h.calls, h'.agents.trans h.agents, h'.now.trans h.now, h'.declined.trans h.declined,
    fun c hc => (h'.missed c hc).trans (h.missed c hc)⟩

section Call

variable {w : World} {members : List Agent} {callId : Nat} {ids : List Nat}

/-- As far as the history goes, the member may be offered the call. -/
structure Eligible (w : World) (members : List Agent) (callId : Nat) (a : Agent) : Prop where
  member : a ∈ members
  notDeclined : a.id ∉ w.declined callId
  round : a.id ∈ w.missed callId → ∀ b ∈ members, b.availability = .available →
    b.id ∉ w.declined callId → b.id ∈ w.missed callId

variable (w members) in
/-- Whom the history leaves, and what it forgets. -/
theorem eval_eligible (hids : callId ∉ ids) :
    ∃ given w', (OfferHistory.eligible callId members).eval Stmt.exec w = (given, w') ∧
      Alike w w' ids ∧ ∀ a, a.availability = .available → (a ∈ given ↔ Eligible w members callId a) := by
  have hread : (OfferHistory.eligible callId members).eval Stmt.exec w =
      ((if (w.declined callId).isEmpty && (w.missed callId).isEmpty then return members else do
        let notDeclined := members.filter fun a => !(w.declined callId).contains a.id
        let fresh := notDeclined.filter fun a => !(w.missed callId).contains a.id
        if (w.missed callId).isEmpty || fresh.any (·.availability = .available) then return fresh
        if notDeclined.any (·.availability = .available) then Code.record (.clearMissed callId)
        return notDeclined : Code (List Agent))).eval Stmt.exec w := rfl
  rw [hread]
  split
  · rename_i hempty
    simp only [Bool.and_eq_true, List.isEmpty_iff] at hempty
    refine ⟨members, w, rfl, Alike.refl w ids, fun a _ => ⟨fun hmem => ⟨hmem, ?_, ?_⟩, fun h => h.member⟩⟩
    · simp [hempty.1]
    · simp [hempty.2]
  · dsimp only
    split
    · rename_i hfresh
      refine ⟨_, w, rfl, Alike.refl w ids, fun a ha => ?_⟩
      simp only [List.mem_filter, Bool.not_eq_true', List.contains_eq_mem, decide_eq_false_iff_not]
      constructor
      · rintro ⟨⟨hmem, hdeclined⟩, hmissed⟩
        exact ⟨hmem, hdeclined, fun h => absurd h hmissed⟩
      · intro h
        refine ⟨⟨h.member, h.notDeclined⟩, fun hmissed => ?_⟩
        -- Somebody fresh is available, so nobody who missed it may take it.
        rcases Bool.or_eq_true _ _ ▸ hfresh with hnone | hsome
        · rw [List.isEmpty_iff.mp hnone] at hmissed
          cases hmissed
        · obtain ⟨b, hb, hav⟩ := List.any_eq_true.mp hsome
          simp only [List.mem_filter, Bool.not_eq_true', List.contains_eq_mem,
            decide_eq_false_iff_not] at hb
          exact hb.2 (h.round hmissed b hb.1.1 (by simpa using hav) hb.1.2)
    · rename_i hnobody
      obtain ⟨-, hstale⟩ := not_or.mp (Bool.or_eq_true _ _ ▸ hnobody)
      have hgiven (a : Agent) : a ∈ members.filter (fun a => !(w.declined callId).contains a.id) ↔
          Eligible w members callId a := by
        simp only [List.mem_filter, Bool.not_eq_true', List.contains_eq_mem, decide_eq_false_iff_not]
        refine ⟨fun h => ⟨h.1, h.2, fun _ b hb hav hdeclined => ?_⟩, fun h => ⟨h.member, h.notDeclined⟩⟩
        by_contra hmissed
        apply hstale
        rw [List.any_eq_true]
        exact ⟨b, by simp [hb, hdeclined, hmissed], by simpa using hav⟩
      split
      · refine ⟨_, _, rfl, ⟨rfl, rfl, rfl, rfl, fun c hc => ?_⟩, fun a _ => hgiven a⟩
        have hne : c ≠ callId := by
          rintro rfl
          exact hids hc
        exact Function.update_of_ne hne _ _
      · exact ⟨_, w, rfl, Alike.refl w ids, fun a _ => hgiven a⟩

variable (w ids) in
/-- Every member given who is available is tried, and nobody else. -/
theorem eval_ordered (queue : Queue) (given : List Agent) :
    ∃ candidates w', (QueueRouter.ordered queue queue.strategy given).eval Stmt.exec w = (candidates, w') ∧
      Alike w w' ids ∧ (∀ a ∈ candidates, a ∈ given ∧ a.availability = .available) ∧
      ∀ a ∈ given, a.availability = .available → ∃ b ∈ candidates, b.id = a.id := by
  unfold QueueRouter.ordered
  dsimp only
  split
  · refine ⟨_, w, rfl, Alike.refl w ids, fun a ha => ?_, fun a ha hav => ⟨a, ?_, rfl⟩⟩
    · simpa using List.mem_filter.mp ha
    · exact List.mem_filter.mpr ⟨ha, by simpa using hav⟩
  · refine ⟨_, _, rfl, ⟨rfl, rfl, rfl, rfl, fun _ _ => rfl⟩, fun a ha => ?_, fun a ha hav => ?_⟩
    · obtain ⟨id, -, hfind⟩ := List.mem_filterMap.mp ha
      have hcond := List.find?_some hfind
      simp only [Bool.and_eq_true, decide_eq_true_eq] at hcond
      exact ⟨List.mem_of_find?_eq_some hfind, hcond.2⟩
    · have hthere : isAvailable given a.id = true := RoundRobin.isAvailable_iff.mpr ⟨a, ha, rfl, hav⟩
      have hplaced : a.id ∈ (availableInOrder given
          (reconcileOrder w.now given (w.queueOrder queue.id)).order).map (·.id) := by
        rw [RoundRobin.availableInOrder_map_id]
        exact List.mem_filter.mpr ⟨RoundRobin.mem_order_of_available hthere, hthere⟩
      obtain ⟨b, hb, hid⟩ := List.mem_map.mp hplaced
      exact ⟨b, hb, hid⟩

/-- An available member can be claimed unless a call of theirs is still active. -/
theorem claimable_iff {a : Agent} (ha : w.findAgent a.id = some a) (hav : a.availability = .available) :
    (w.agent a.id).any (w.claimable a.id false) = !w.hasActiveCall a.id none := by
  obtain ⟨row, hrow, heq⟩ := Option.map_eq_some_iff.mp ha
  obtain ⟨hagent, hdeleted⟩ := Option.filter_eq_some_iff.mp hrow
  have hreported : row.reportedAvailability = .available := by
    rw [← hav, ← heq]
  unfold AgentRow.reportedAvailability at hreported
  rw [hagent]
  cases hbusy : row.busyCallId with
  | some c => simp [hbusy] at hreported
  | none =>
    have hshift : row.onShift = true := by
      unfold AgentRow.onShift
      cases havail : row.availability <;> simp [hbusy, havail] at hreported ⊢
    have hkept : row.deleted = false := by simpa using hdeleted
    simp [World.claimable, hbusy, hshift, hkept]

/-- The world once the call is the agent's. -/
def assigned (w : World) (callId agentId : Nat) : World :=
  { w with
    agents := w.agents.modify agentId fun a => { a with busyCallId := some callId }
    calls := w.calls.modify callId fun c =>
      { c with agentId := some agentId, offeredAt := some (sqlNow w.now) } }

/-- The first candidate on no call of their own gets it. -/
theorem eval_claimInOrder {candidates : List Agent} (hcall : (w.call callId).any CallRow.assignable = true)
    (hc : ∀ a ∈ candidates, w.findAgent a.id = some a ∧ a.availability = .available) :
    ((∀ a ∈ candidates, w.hasActiveCall a.id none = true) ∧
      (claimInOrder (fun agentId => .cmd (Stmt.claimAgentAndAssignCall agentId callId false))
        candidates).eval Stmt.exec w = ((none, false), w)) ∨
    ∃ a ∈ candidates, w.hasActiveCall a.id none = false ∧
      (claimInOrder (fun agentId => .cmd (Stmt.claimAgentAndAssignCall agentId callId false))
        candidates).eval Stmt.exec w = ((some a, false), assigned w callId a.id) := by
  induction candidates with
  | nil => exact .inl ⟨fun _ h => (by cases h), rfl⟩
  | cons a rest ih =>
    obtain ⟨⟨hfind, hav⟩, hrest⟩ := List.forall_mem_cons.mp hc
    have hclaim := claimable_iff hfind hav
    rw [claimInOrder, Prog.eval_bind, Prog.eval_cmd]
    cases hactive : w.hasActiveCall a.id none with
    | false =>
      refine .inr ⟨a, List.mem_cons_self, hactive, ?_⟩
      have hexec : (Stmt.claimAgentAndAssignCall a.id callId false).exec w =
          (assigned w callId a.id, ⟨true, true⟩) := by
        simp [Stmt.exec, World.claimAgentAndAssignCall, hclaim, hactive, hcall, assigned]
      rw [hexec]
      rfl
    | true =>
      have hexec : (Stmt.claimAgentAndAssignCall a.id callId false).exec w = (w, ⟨false, false⟩) := by
        simp [Stmt.exec, World.claimAgentAndAssignCall, hclaim, hactive]
      rw [hexec]
      have hgoes (r : Option Agent) (w' : World) (h : (claimInOrder (fun agentId =>
          .cmd (Stmt.claimAgentAndAssignCall agentId callId false)) rest).eval Stmt.exec w = ((r, false), w')) :
          (do
            let r ← claimInOrder (fun agentId =>
              .cmd (Stmt.claimAgentAndAssignCall agentId callId false)) rest
            return (r.1, r.2 || false) : Code (Option Agent × Bool)).eval Stmt.exec w = ((r, false), w') := by
        rw [Prog.eval_bind, h]
        rfl
      rcases ih hrest with ⟨hnone, heval⟩ | ⟨b, hb, hfree, heval⟩
      · exact .inl ⟨List.forall_mem_cons.mpr ⟨hactive, hnone⟩, hgoes _ _ heval⟩
      · exact .inr ⟨b, List.mem_cons_of_mem _ hb, hfree, hgoes _ _ heval⟩

/-- A waiting call is offered to those whom its history leaves. -/
theorem eval_offer (queue : Queue) (hids : callId ∉ ids)
    (hcall : (w.call callId).any CallRow.assignable = true)
    (hmembers : ∀ a ∈ members, w.findAgent a.id = some a) :
    ((∀ a, ¬ CanTake w members callId a) ∧ ∃ w', Alike w w' ids ∧
      (OfferHistory.eligible callId members >>= QueueRouter.claimForWaitingCall queue callId).eval Stmt.exec w =
        ((none, false), w')) ∨
    ∃ a w', CanTake w members callId a ∧ (OfferHistory.eligible callId members >>=
        QueueRouter.claimForWaitingCall queue callId).eval Stmt.exec w = ((some a, false), assigned w' callId a.id) ∧
      Alike w w' ids := by
  obtain ⟨given, w₁, heligible, halike₁, hgiven⟩ :=
    eval_eligible w members hids
  obtain ⟨candidates, w₂, hordered, halike₂, hfrom, hto⟩ := eval_ordered w₁ ids queue given
  have halike := halike₁.trans halike₂
  have hactive (a : Nat) : w₂.hasActiveCall a none = w.hasActiveCall a none := by
    unfold World.hasActiveCall
    rw [halike.calls]
  have hassignable : (w₂.call callId).any CallRow.assignable = true := by
    unfold World.call
    rw [halike.calls]
    exact hcall
  have hcandidates : ∀ a ∈ candidates, w₂.findAgent a.id = some a ∧ a.availability = .available := by
    intro a ha
    obtain ⟨hmem, hav⟩ := hfrom a ha
    have hsame : w₂.findAgent a.id = w.findAgent a.id := by
      unfold World.findAgent World.agent
      rw [halike.agents]
    exact ⟨hsame.trans (hmembers a ((hgiven a hav).mp hmem).member), hav⟩
  have heval : (OfferHistory.eligible callId members >>= QueueRouter.claimForWaitingCall queue callId).eval
      Stmt.exec w = (claimInOrder (fun agentId => .cmd (Stmt.claimAgentAndAssignCall agentId callId false))
        candidates).eval Stmt.exec w₂ := by
    rw [Prog.eval_bind, heligible, QueueRouter.claimForWaitingCall, Prog.eval_bind, hordered]
  rw [heval]
  rcases eval_claimInOrder hassignable hcandidates with ⟨hbusy, hnone⟩ | ⟨a, ha, hfree, hsome⟩
  · refine .inl ⟨fun a hcan => ?_, w₂, halike, hnone⟩
    have hmem : a ∈ given := (hgiven a hcan.available).mpr ⟨hcan.member, hcan.notDeclined, hcan.round⟩
    obtain ⟨b, hb, hid⟩ := hto a hmem hcan.available
    have hactive' := hbusy b hb
    rw [hid, hactive, hcan.free] at hactive'
    cases hactive'
  · obtain ⟨hmem, hav⟩ := hfrom a ha
    have helig := (hgiven a hav).mp hmem
    rw [hactive] at hfree
    exact .inr ⟨a, w₂, ⟨helig.member, hav, hfree, helig.notDeclined, helig.round⟩, hsome, halike⟩

end Call

/-! ## The scan -/

theorem eval_deliver (w : World) (callId agentId : Nat) :
    ((deliverAssignedCall callId agentId).eval Stmt.exec w).2.calls = w.calls := by
  have hoffer : ((agentOffer callId).eval Stmt.exec w).2.calls = w.calls := by
    rw [agentOffer, Prog.eval_bind]
    have hread : (Code.read (.storedAgentOffer callId)).eval Stmt.exec w = (w.agentSdp callId, w) := rfl
    rw [hread]
    cases w.agentSdp callId <;> rfl
  rw [deliverAssignedCall, Prog.eval_bind]
  exact hoffer

/-- Nothing that matters to the call has changed, so the same members may take it. -/
theorem Alike.canTake_iff {w w' : World} {ids : List Nat} (h : Alike w w' ids) {callId : Nat}
    (hid : callId ∈ ids) {members : List Agent} {a : Agent} :
    CanTake w' members callId a ↔ CanTake w members callId a := by
  have hactive : w'.hasActiveCall a.id none = w.hasActiveCall a.id none := by
    unfold World.hasActiveCall
    rw [h.calls]
  constructor
  · rintro ⟨hmem, hav, hfree, hdeclined, hround⟩
    rw [h.declined, h.missed callId hid] at *
    exact ⟨hmem, hav, hactive ▸ hfree, hdeclined, hround⟩
  · rintro ⟨hmem, hav, hfree, hdeclined, hround⟩
    refine ⟨hmem, hav, hactive ▸ hfree, ?_, ?_⟩
    · rw [h.declined]
      exact hdeclined
    · rw [h.declined, h.missed callId hid]
      exact hround

/-- What a scan of some waiting calls comes to. -/
inductive Scanned (w : World) (members : List Agent) (calls : List Call) : (Bool × Bool) × World → Prop
  | none (w' : World) (hnone : ∀ c ∈ calls, ∀ a, ¬ CanTake w members c.id a) (hcalls : w'.calls = w.calls) :
      Scanned w members calls ((false, false), w')
  | some (before : List Call) (call : Call) (rest : List Call) (a : Agent) (w' : World)
      (horder : calls = before ++ call :: rest) (hnone : ∀ c ∈ before, ∀ a, ¬ CanTake w members c.id a)
      (hcan : CanTake w members call.id a)
      (hcalls : w'.calls = w.calls.modify call.id fun c =>
        { c with agentId := some a.id, offeredAt := some (sqlNow w.now) }) :
      Scanned w members calls ((true, false), w')

/-- The scan is of the first call somebody may take. -/
theorem eval_drainWaiting (queue : Queue) {w w' : World} {members : List Agent} {calls : List Call}
    (hmembers : ∀ a ∈ members, w.findAgent a.id = some a)
    (hcalls : ∀ c ∈ calls, (w.call c.id).any CallRow.assignable = true)
    (hnodup : (calls.map (·.id)).Nodup) (halike : Alike w w' (calls.map (·.id))) :
    Scanned w members calls ((drainWaiting queue members calls).eval Stmt.exec w') := by
  induction calls generalizing w' with
  | nil => exact .none w' (fun _ h => by cases h) halike.calls
  | cons call rest ih =>
    obtain ⟨hcall, hrest⟩ := List.forall_mem_cons.mp hcalls
    obtain ⟨hid, hnodup⟩ := List.nodup_cons.mp hnodup
    have hmembers' : ∀ a ∈ members, w'.findAgent a.id = some a := by
      intro a ha
      unfold World.findAgent World.agent
      rw [halike.agents]
      exact hmembers a ha
    have hassignable : (w'.call call.id).any CallRow.assignable = true := by
      unfold World.call
      rw [halike.calls]
      exact hcall
    have hcan (a : Agent) : CanTake w' members call.id a ↔ CanTake w members call.id a :=
      halike.canTake_iff List.mem_cons_self
    rw [drainWaiting, ← bind_assoc, Prog.eval_bind]
    rcases eval_offer queue hid hassignable hmembers' with ⟨hnone, w₁, halike₁, heval⟩ | ⟨a, w₁, htake, heval, halike₁⟩
    · rw [heval]
      have hthen := ih hrest hnodup ((halike.mono (List.subset_cons_self _ _)).trans halike₁)
      have hgoes : (drainWaiting queue members rest >>= fun r =>
          (return (r.1, r.2 || false) : Code (Bool × Bool))).eval Stmt.exec w₁ =
          (drainWaiting queue members rest).eval Stmt.exec w₁ := by
        rw [Prog.eval_bind]
        simp
      have hnobody : ∀ a, ¬ CanTake w members call.id a := fun a h => hnone a ((hcan a).mpr h)
      show Scanned w members (call :: rest) ((drainWaiting queue members rest >>= fun r =>
          (return (r.1, r.2 || false) : Code (Bool × Bool))).eval Stmt.exec w₁)
      rw [hgoes]
      generalize (drainWaiting queue members rest).eval Stmt.exec w₁ = r at hthen
      cases hthen with
      | none w₂ hothers hcalls => exact .none w₂ (List.forall_mem_cons.mpr ⟨hnobody, hothers⟩) hcalls
      | some before next rest a w₂ horder hothers hcan hcalls =>
        exact .some (call :: before) next rest a w₂ (by rw [horder, List.cons_append])
          (List.forall_mem_cons.mpr ⟨hnobody, hothers⟩) hcan hcalls
    · rw [heval]
      have hdone : (do
          deliverAssignedCall call.id a.id
          return (true, false) : Code (Bool × Bool)).eval Stmt.exec (assigned w₁ call.id a.id) =
          ((true, false), ((deliverAssignedCall call.id a.id).eval Stmt.exec (assigned w₁ call.id a.id)).2) := by
        rw [Prog.eval_bind]
        rfl
      show Scanned w members (call :: rest) ((do
          deliverAssignedCall call.id a.id
          return (true, false) : Code (Bool × Bool)).eval Stmt.exec (assigned w₁ call.id a.id))
      rw [hdone]
      refine .some [] call rest a _ rfl (fun _ h => by cases h) ((hcan a).mp htake) ?_
      have hsame := (halike.mono (List.subset_cons_self _ _)).trans halike₁
      rw [eval_deliver]
      unfold assigned
      rw [hsame.calls, hsame.now]

/-! ## The drain -/

theorem mem_waiting {w : World} {queueId : Nat} {c : Call} (h : c ∈ waiting w queueId) :
    (w.call c.id).any CallRow.assignable = true := by
  obtain ⟨hrow, hwaits⟩ := World.mem_selectCalls.mp ((List.mem_insertionSort _).mp h)
  rw [hrow]
  simp only [CallRow.waitingInQueue, Bool.and_eq_true, Bool.or_eq_true, decide_eq_true_eq,
    Option.isNone_iff_eq_none] at hwaits
  obtain ⟨-, ⟨⟨hstatus, hagent⟩, hdirection⟩, hstate⟩ := hwaits
  simp only [Option.any_some, CallRow.assignable, hstatus, hagent, hdirection]
  rcases hstate with hnone | hqueue
  · simp [hnone]
  · simp [hqueue]

theorem waiting_nodup (w : World) (queueId : Nat) : ((waiting w queueId).map (·.id)).Nodup :=
  ((List.perm_insertionSort _ _).map _).nodup_iff.mpr (w.selectCalls_nodup _)

theorem mem_membersOf {w : World} {queueId : Nat} {a : Agent} (h : a ∈ membersOf w queueId) :
    w.findAgent a.id = some a := by
  obtain ⟨id, -, hfind⟩ := List.mem_filterMap.mp h
  obtain ⟨row, -, heq⟩ := Option.map_eq_some_iff.mp hfind
  have hid : a.id = id := by rw [← heq]
  rw [hid]
  exact hfind

/-- A drain is one scan of the calls within reach. -/
theorem drained_scanned (w : World) (queue : Queue) : ∃ r : (Bool × Bool) × World,
    Scanned w (membersOf w queue.id) ((waiting w queue.id).take reach) r ∧
      drained w queue = (r.1.1, r.2) := by
  have hmembers : (Code.read (.getMembers queue.id)).eval Stmt.exec w = (membersOf w queue.id, w) := rfl
  have hwaiting : (Code.read (.findOldestUnassignedCalls queue.id 25)).eval Stmt.exec w =
      ((waiting w queue.id).take reach, w) := rfl
  rw [drained, drainAttempts, drainQueue, Prog.eval_bind, hmembers]
  dsimp only
  split
  · rename_i hnobody
    refine ⟨((false, false), w), .none w (fun c _ a hcan => ?_) rfl, rfl⟩
    have hsome : (membersOf w queue.id).any (·.availability = .available) = true :=
      List.any_eq_true.mpr ⟨a, hcan.member, by simpa using hcan.available⟩
    rw [hsome] at hnobody
    cases hnobody
  · have hscan : Scanned w (membersOf w queue.id) ((waiting w queue.id).take reach)
        ((drainWaiting queue (membersOf w queue.id) ((waiting w queue.id).take reach)).eval Stmt.exec w) :=
      eval_drainWaiting queue (fun a ha => mem_membersOf ha) (fun c hc => mem_waiting (List.mem_of_mem_take hc))
        ((waiting_nodup w queue.id).sublist ((List.take_sublist _ _).map _)) (Alike.refl w _)
    refine ⟨_, hscan, ?_⟩
    rw [Prog.eval_bind, hwaiting, Prog.eval_bind]
    generalize (drainWaiting queue (membersOf w queue.id) ((waiting w queue.id).take reach)).eval
      Stmt.exec w = r at hscan ⊢
    cases hscan <;> rfl

/-- A list has one first element with a property. -/
theorem first_unique {α : Type} {P : α → Prop} {before before' rest rest' : List α} {x x' : α}
    (h : before ++ x :: rest = before' ++ x' :: rest') (hx : P x) (hx' : P x')
    (hbefore : ∀ y ∈ before, ¬ P y) (hbefore' : ∀ y ∈ before', ¬ P y) : before = before' ∧ x = x' := by
  induction before generalizing before' with
  | nil =>
    cases before' with
    | nil => exact ⟨rfl, (List.cons.inj h).1⟩
    | cons y before' =>
      obtain ⟨rfl, -⟩ := List.cons.inj h
      exact absurd hx (hbefore' x List.mem_cons_self)
  | cons y before ih =>
    cases before' with
    | nil =>
      obtain ⟨rfl, -⟩ := List.cons.inj h
      exact absurd hx' (hbefore y List.mem_cons_self)
    | cons y' before' =>
      obtain ⟨rfl, htail⟩ := List.cons.inj h
      obtain ⟨rfl, hsame⟩ := ih htail (fun z hz => hbefore z (List.mem_cons_of_mem _ hz))
        fun z hz => hbefore' z (List.mem_cons_of_mem _ hz)
      exact ⟨rfl, hsame⟩

/-- A drain serves whoever can be served exactly if the first of them is within reach. -/
theorem serves_iff (w : World) (queue : Queue) : Serves w queue ↔ InReach w queue.id := by
  obtain ⟨r, hscan, hdrained⟩ := drained_scanned w queue
  have hservable {c : Call} (h : ¬ Servable w queue.id c) (a : Agent) :
      ¬ CanTake w (membersOf w queue.id) c.id a := fun hcan => h ⟨a, hcan⟩
  constructor
  · intro hserves before call rest hfirst
    by_contra hfar
    obtain ⟨hassigned, -⟩ := hserves.first before call rest hfirst
    have hscanned : (waiting w queue.id).take reach = before.take reach := by
      rw [hfirst.order, List.take_append_of_le_length (by omega)]
    rw [hdrained] at hassigned
    cases hscan with
    | none w' hnone hcalls => cases hassigned
    | some before' call' rest' a w' horder hnone hcan hcalls =>
      have hmem : call' ∈ before.take reach := by
        rw [← hscanned, horder]
        exact List.mem_append_right _ List.mem_cons_self
      exact hservable (hfirst.earlier call' (List.mem_of_mem_take hmem)) a hcan
  · intro hreach
    constructor
    · intro before call rest hfirst
      have hnear := hreach before call rest hfirst
      obtain ⟨n, hn⟩ : ∃ n, reach = before.length + (n + 1) := ⟨reach - before.length - 1, by omega⟩
      have hscanned : (waiting w queue.id).take reach = before ++ call :: rest.take n := by
        rw [hfirst.order, hn, List.take_length_add_append, List.take_succ_cons]
      rw [hdrained]
      cases hscan with
      | none w' hnone hcalls =>
        obtain ⟨a, hcan⟩ := hfirst.servable
        refine absurd hcan (hnone call ?_ a)
        rw [hscanned]
        exact List.mem_append_right _ List.mem_cons_self
      | some before' call' rest' a w' horder hnone hcan hcalls =>
        have hservable' : Servable w queue.id call' := ⟨a, hcan⟩
        obtain ⟨-, rfl⟩ := first_unique (P := Servable w queue.id) (hscanned.symm.trans horder)
          hfirst.servable hservable' hfirst.earlier fun c hc ⟨b, hb⟩ => hnone c hc b hb
        exact ⟨rfl, a, hcan, hcalls⟩
    · intro hnobody
      rw [hdrained]
      cases hscan with
      | none w' hnone hcalls => exact ⟨rfl, hcalls⟩
      | some before' call' rest' a w' horder hnone hcan hcalls =>
        refine absurd hcan (hservable (hnobody call' ?_) a)
        have hmem : call' ∈ (waiting w queue.id).take reach := by
          rw [horder]
          exact List.mem_append_right _ List.mem_cons_self
        exact List.mem_of_mem_take hmem

/-- Twenty-six calls wait for one agent, who has declined all but the last. -/
def declinedHead : World where
  calls := .ofList (List.replicate 26 fun _ =>
    { direction := .inbound, status := .ringing, state := some .queue, queueId := some 1 })
  agents := .ofList [fun _ => {}]
  members := fun _ => [1]
  declined := fun callId => if callId ≤ 25 then [1] else []

/-- The agent could take the last call, and the drain gives up before it. -/
theorem not_serves_declinedHead : ¬ Serves declinedHead { id := 1 } := by
  intro h
  let row (id : Nat) : Call :=
    { direction := .inbound, status := .ringing, state := some .queue, queueId := some 1, id }
  let agent : Agent := { id := 1, tenantId := 1, availability := .available, busyCallId := none }
  have horder : waiting declinedHead 1 =
      ((List.range 25).map fun i => row (i + 1)) ++ row 26 :: [] := by decide +kernel
  have hmembers : membersOf declinedHead 1 = [agent] := by decide +kernel
  have hfree : declinedHead.hasActiveCall 1 none = false := by decide +kernel
  have hcan : CanTake declinedHead (membersOf declinedHead 1) 26 agent := by
    rw [hmembers]
    exact ⟨List.mem_singleton_self _, rfl, hfree, by decide, fun hmissed => nomatch hmissed⟩
  have hdeclined : ∀ c ∈ (List.range 25).map fun i => row (i + 1), ¬ Servable declinedHead 1 c := by
    rintro c hc ⟨a, hcan⟩
    obtain ⟨i, hi, rfl⟩ := List.mem_map.mp hc
    have hlt := List.mem_range.mp hi
    have hnot := hcan.notDeclined
    have hwho := hcan.member
    rw [hmembers, List.mem_singleton] at hwho
    have hhead : declinedHead.declined (row (i + 1)).id = [1] := if_pos hlt
    rw [hwho, hhead] at hnot
    exact hnot List.mem_cons_self
  obtain ⟨hassigned, -⟩ := h.first _ _ _ ⟨horder, ⟨agent, hcan⟩, hdeclined⟩
  have hnone : (drained declinedHead { id := 1 }).1 = false := by decide +kernel
  cases hnone.symm.trans hassigned

end Callio.DrainServes
