import Callio.Conduct.Routing
import Callio.Persistence.Effects
import Mathlib.Data.List.Dedup
import Mathlib.Data.Fintype.Basic

/-! The stored order of a round-robin queue, under queue operations taken one
at a time: no member is in it twice, newcomers join at the tail, and two members
who stay keep their order as long as no operation leaves a member out of the
list it brings. -/

namespace Callio.RoundRobin

open Concurrency Code
open scoped List

/-! ## The order -/

section order

variable {now : Nat} {members : List Agent} {previous : QueueOrder} {x y : Nat}

/-- The members placed already who keep their place. -/
def kept (now : Nat) (members : List Agent) (previous : QueueOrder) : List Nat :=
  previous.order.reverse.dedup.reverse.filter (keepsPlace now members previous)

/-- The available members who join. -/
def newcomers (now : Nat) (members : List Agent) (previous : QueueOrder) : List Nat :=
  (((members.filter fun a => a.availability = .available).map (·.id)).dedup.filter
    fun id => !(kept now members previous).contains id).insertionSort (· ≤ ·)

theorem reconcileOrder_order :
    (reconcileOrder now members previous).order = kept now members previous ++ newcomers now members previous := rfl

theorem mem_kept : x ∈ kept now members previous ↔
    x ∈ previous.order ∧ keepsPlace now members previous x = true := by
  simp [kept]

theorem isAvailable_iff : isAvailable members x = true ↔ ∃ a ∈ members, a.id = x ∧ a.availability = .available := by
  simp [isAvailable]

theorem mem_newcomers : x ∈ newcomers now members previous ↔
    isAvailable members x = true ∧ x ∉ previous.order := by
  have hkept : x ∉ kept now members previous ∧ isAvailable members x = true ↔
      x ∉ previous.order ∧ isAvailable members x = true := by
    rw [and_congr_left_iff]
    intro hx
    simp [mem_kept, keepsPlace, hx]
  rw [and_comm, ← hkept, isAvailable_iff]
  simp only [newcomers, List.mem_insertionSort, List.mem_filter, List.mem_dedup, List.mem_map,
    decide_eq_true_eq, Bool.not_eq_true', List.contains_eq_mem, decide_eq_false_iff_not]
  grind

theorem kept_nodup : (kept now members previous).Nodup :=
  (List.nodup_reverse.mpr (List.nodup_dedup _)).filter _

theorem newcomers_nodup : (newcomers now members previous).Nodup :=
  (List.perm_insertionSort _ _).nodup_iff.mpr ((List.nodup_dedup _).filter _)

theorem order_nodup : (reconcileOrder now members previous).order.Nodup := by
  rw [reconcileOrder_order, List.nodup_append]
  refine ⟨kept_nodup, newcomers_nodup, ?_⟩
  rintro x hx _ hy rfl
  exact (mem_newcomers.mp hy).2 (mem_kept.mp hx).1

theorem mem_order_of_available (h : isAvailable members x = true) : x ∈ (reconcileOrder now members previous).order := by
  rw [reconcileOrder_order, List.mem_append]
  by_cases hx : x ∈ previous.order
  · exact .inl (mem_kept.mpr ⟨hx, by simp [keepsPlace, h]⟩)
  · exact .inr (mem_newcomers.mpr ⟨h, hx⟩)

/-- Who was not placed comes after everyone who was. -/
theorem joins_behind (hx : x ∉ previous.order) (hx' : x ∈ (reconcileOrder now members previous).order)
    (hy : y ∈ previous.order) (hy' : y ∈ (reconcileOrder now members previous).order) :
    [y, x] <+ (reconcileOrder now members previous).order := by
  rw [reconcileOrder_order, List.mem_append] at hx' hy'
  have hxnew := hx'.resolve_left fun h => hx (mem_kept.mp h).1
  have hykept := hy'.resolve_right fun h => (mem_newcomers.mp h).2 hy
  exact (List.singleton_sublist.mpr hykept).append (List.singleton_sublist.mpr hxnew)

/-- Two members who keep their places keep their order. -/
theorem keeps_order (hnodup : previous.order.Nodup) (hx : keepsPlace now members previous x = true)
    (hy : keepsPlace now members previous y = true) (h : [x, y] <+ previous.order) :
    [x, y] <+ (reconcileOrder now members previous).order := by
  have hprevious : previous.order.reverse.dedup.reverse = previous.order := by
    rw [List.Nodup.dedup (List.nodup_reverse.mpr hnodup), List.reverse_reverse]
  have hkept : [x, y] <+ kept now members previous := by
    have hfilter := h.filter (keepsPlace now members previous)
    rw [kept, hprevious]
    simpa [hx, hy] using hfilter
  exact hkept.trans (List.sublist_append_left _ _)

/-- The available members given come back once each, in the order stored. -/
theorem availableInOrder_map_id (order : List Nat) :
    (availableInOrder members order).map (·.id) = order.filter (isAvailable members) := by
  induction order with
  | nil => rfl
  | cons x order ih =>
    rw [availableInOrder, List.filterMap_cons] at *
    cases hfind : members.find? fun a => a.id = x && a.availability = .available with
    | none =>
      have hno : isAvailable members x = false := by
        simpa [isAvailable] using hfind
      simpa [hno] using ih
    | some a =>
      have ha := List.find?_some hfind
      have hmem := List.mem_of_find?_eq_some hfind
      simp only [Bool.and_eq_true, decide_eq_true_eq] at ha
      have hyes : isAvailable members x = true := isAvailable_iff.mpr ⟨a, hmem, ha⟩
      simpa [hyes, ha.1] using ih

theorem since_of_kept {t : Nat} (h : (reconcileOrder now members previous).unavailableSince x = some t) :
    reported members x = some .offline ∧ t = (previous.unavailableSince x).getD now := by
  change (if (kept now members previous).contains x && !isAvailable members x
    then some ((previous.unavailableSince x).getD now) else none) = some t at h
  split at h
  · rename_i hcond
    simp only [Bool.and_eq_true, List.contains_iff_mem, Bool.not_eq_true'] at hcond
    have hplace := (mem_kept.mp hcond.1).2
    simp only [keepsPlace, hcond.2, Bool.false_or, Bool.and_eq_true, decide_eq_true_eq] at hplace
    exact ⟨hplace.1, (Option.some.inj h).symm⟩
  · cases h

end order

/-! ## Queue operations -/

inductive QueueOp
  | newCall (callId : Nat)
  | drain
  /-- An IVR's transfer into the queue. -/
  | assignTransferred (callId tenantId : Nat)
  /-- An agent's transfer into the queue. -/
  | transfer (callId : Nat) (excludeAgentId : Option Nat)
  | snapshot

/-- The operation on `queue`, alone. -/
def QueueOp.code (queue : Queue) : QueueOp → Code Unit
  | newCall callId => do
    let _ ← QueueRouter.claimForNewCall queue callId
  | drain => do
    let _ ← drainQueue queue drainAttempts
  | assignTransferred callId tenantId => assignTransferredCall callId tenantId queue.id (.queue queue.id)
  | transfer callId excludeAgentId => do
    let _ ← QueueRouter.claimMemberForTransfer queue callId excludeAgentId
  | snapshot => do
    let _ ← QueueRouter.snapshotOrder queue

/-- Whom the operation itself leaves out. -/
def QueueOp.excluded : QueueOp → Option Nat
  | transfer _ excludeAgentId => excludeAgentId
  | _ => none

inductive Phase
  /-- Nobody is claimed yet. `named` are in the histories read, and `members` is
  the queue's list, if it has been read. -/
  | reading (named : List Nat) (members : Option (Nat × List Agent))
  | claimed

def next : Phase → (s : Stmt) → s.Res → Phase
  | .reading named _, .query (.getMembers q), members => .reading named (some (q, members))
  | .reading named members, .query (.declined _), ids => .reading (ids ++ named) members
  | .reading named members, .query (.missed _), ids => .reading (ids ++ named) members
  | p, .claimAgentAndAssignCall _ _ _, claim => if claim.assigned then .claimed else p
  | p, .updateAgent _ _, won => if won then .claimed else p
  | p, _, _ => p

theorem next_reconcile (p : Phase) (q : Nat) (given ordered : List Agent) :
    next p (.reconcileQueueOrder q given) ordered = p := by
  cases p <;> rfl

theorem next_claim (p : Phase) (a c : Nat) (anyShift : Bool) (claim : Claim) :
    next p (.claimAgentAndAssignCall a c anyShift) claim = if claim.assigned then .claimed else p := by
  cases p <;> rfl

theorem next_updateAgent (p : Phase) (a : Nat) (u : AgentUpdate) (won : Bool) :
    next p (.updateAgent a u) won = if won then .claimed else p := by
  cases p <;> rfl

/-- The list brought is the members' less some that a history names, or that the
operation excludes. -/
def Brought (excluded : Option Nat) (q : Nat) (given : List Agent) (p : Phase) : Prop :=
  ∃ named members, p = .reading named (some (q, members)) ∧ given <+ members ∧
    ∀ a ∈ members, a ∈ given ∨ a.id ∈ named ∨ excluded = some a.id

def allows (excluded : Option Nat) (p : Phase) : Stmt → Prop
  | .reconcileQueueOrder q given => Brought excluded q given p
  | .record (.recordDeclined _ _) | .record (.recordMissed _ _) => False
  | _ => True

abbrev protocol (excluded : Option Nat) : Protocol Stmt.Res := ⟨Phase, next, allows excluded⟩

section follows

variable {excluded : Option Nat}

/-- The order, looked for from a list that may be brought. -/
theorem ordered_follows {queue : Queue} {strategy : QueueStrategy} {given : List Agent} {p : Phase}
    (h : Brought excluded queue.id given p) :
    (QueueRouter.ordered queue strategy given).Follows (protocol excluded) p fun _ p' => p' = p := by
  refine QueueRouter.ordered_stays (P := protocol excluded) (Q := (· = p)) ?_ p rfl
  rintro _ rfl
  exact ⟨h, fun _ => next_reconcile _ _ _ _⟩

/-- As long as no claim is won, nothing has changed. -/
theorem claimInOrder_follows {claim : Nat → Code Claim} {p : Phase}
    (hclaim : ∀ a, (claim a).Follows (protocol excluded) p fun c p' => c.assigned = false → p' = p)
    (candidates : List Agent) :
    (claimInOrder claim candidates).Follows (protocol excluded) p fun r p' => r.1 = none → p' = p := by
  induction candidates with
  | nil => exact fun _ => rfl
  | cons a rest ih =>
    refine (hclaim a.id).bind fun c p' hp => ?_
    cases hwon : c.assigned with
    | true => exact nofun
    | false =>
      obtain rfl := hp hwon
      exact ih.bind fun r p' hr => hr

theorem claimForWaitingCall_follows {queue : Queue} {callId : Nat} {given : List Agent} {p : Phase}
    (h : Brought excluded queue.id given p) :
    (QueueRouter.claimForWaitingCall queue callId given).Follows (protocol excluded) p
      fun r p' => r.1 = none → p' = p := by
  refine (ordered_follows h).bind ?_
  rintro candidates _ rfl
  refine claimInOrder_follows (fun a => (Prog.follows_cmd _ _ _).mpr ⟨trivial, fun claim hlost => ?_⟩) candidates
  exact (next_claim _ _ _ _ _).trans (if_neg (by simp [hlost]))

/-- Every statement but the brought lists' and the histories' is allowed in any phase. -/
theorem keeps_any {s : Stmt} (hs : s.Seeking ∨ s.Offering) (hr : ∀ q given, s ≠ .reconcileQueueOrder q given) :
    (protocol excluded).Keeps (fun _ => True) s := by
  refine fun p _ => ⟨?_, fun _ => trivial⟩
  show allows excluded p s
  unfold allows
  split
  · exact absurd rfl (hr _ _)
  · rcases hs with hs | hs <;> cases hs
  · rcases hs with hs | hs <;> cases hs
  · trivial

theorem offers_follows (callId : Nat) (agentId : Option Nat) (offered : List Nat) (p : Phase) :
    (agentOffer callId >>= fun sdp => emit (.callIncoming callId agentId offered (some sdp))).Follows
      (protocol excluded) p fun _ _ => True := by
  have hkeeps : ∀ s : Stmt, s.Offering → (protocol excluded).Keeps (fun _ => True) s := by
    intro s hs
    refine keeps_any (.inr hs) ?_
    rintro q given rfl
    cases hs
  refine (agentOffer_stays (fun s hs => hkeeps s hs.offering) callId).bind (fun sdp => ?_) p trivial
  exact Prog.stays_cmd (hkeeps (.emit (.callIncoming callId agentId offered (some sdp))) trivial)

/-- Who is eligible: the members less some that the call's history names. -/
theorem eligible_follows (callId : Nat) (members : List Agent) (named : List Nat) (read : Option (Nat × List Agent)) :
    (OfferHistory.eligible callId members).Follows (protocol excluded) (.reading named read) fun given p =>
      ∃ named', p = .reading named' read ∧ given <+ members ∧ ∀ a ∈ members, a ∈ given ∨ a.id ∈ named' := by
  refine (Prog.follows_cmd_bind _ _ _ _).mpr ⟨trivial, fun declined => ?_⟩
  refine (Prog.follows_cmd_bind _ _ _ _).mpr ⟨trivial, fun missed => ?_⟩
  have hphase : ∀ given : List Agent, given <+ members →
      (∀ a ∈ members, a ∈ given ∨ a.id ∈ declined ∨ a.id ∈ missed) →
      ∃ named', Phase.reading (missed ++ (declined ++ named)) read = .reading named' read ∧ given <+ members ∧
        ∀ a ∈ members, a ∈ given ∨ a.id ∈ named' := by
    refine fun given hsub hall => ⟨_, rfl, hsub, fun a ha => ?_⟩
    rcases hall a ha with h | h | h
    · exact .inl h
    · exact .inr (by simp [h])
    · exact .inr (by simp [h])
  have hnotDeclined := List.filter_sublist (p := fun a : Agent => !declined.contains a.id) (l := members)
  split
  · exact hphase members (List.Sublist.refl _) fun a ha => .inl ha
  · dsimp only
    split
    · refine hphase _ (List.filter_sublist.trans hnotDeclined) fun a ha => ?_
      by_cases hd : a.id ∈ declined
      · exact .inr (.inl hd)
      · by_cases hm : a.id ∈ missed
        · exact .inr (.inr hm)
        · exact .inl (by simp [ha, hd, hm])
    · have hrest := hphase _ hnotDeclined fun a ha => by
        by_cases hd : a.id ∈ declined
        · exact .inr (.inl hd)
        · exact .inl (by simp [ha, hd])
      split
      · exact ⟨trivial, fun _ => hrest⟩
      · exact hrest

theorem brought_self (q : Nat) (members : List Agent) (named : List Nat) :
    Brought excluded q members (.reading named (some (q, members))) :=
  ⟨named, members, rfl, List.Sublist.refl _, fun _ ha => .inl ha⟩

theorem drainWaiting_follows (queue : Queue) (members : List Agent) (waiting : List Call) (named : List Nat) :
    (drainWaiting queue members waiting).Follows (protocol excluded) (.reading named (some (queue.id, members)))
      fun r p => r.1 = false → ∃ named', p = .reading named' (some (queue.id, members)) := by
  induction waiting generalizing named with
  | nil => exact fun _ => ⟨named, rfl⟩
  | cons call rest ih =>
    refine (eligible_follows call.id members named _).bind ?_
    rintro given _ ⟨named', rfl, hsub, hall⟩
    have hbrought : Brought excluded queue.id given (.reading named' (some (queue.id, members))) :=
      ⟨named', members, rfl, hsub, fun a ha => (hall a ha).imp_right .inl⟩
    refine (claimForWaitingCall_follows hbrought).bind ?_
    rintro ⟨agent, taken⟩ p hp
    cases agent with
    | some agent =>
      refine Prog.Follows.bind_any ?_ fun _ _ => nofun
      exact offers_follows call.id (some agent.id) [] p
    | none =>
      obtain rfl := hp rfl
      exact (ih named').bind fun r p hr => hr

theorem drainQueue_follows (queue : Queue) (attempts : Nat) (named : List Nat) (read : Option (Nat × List Agent)) :
    (drainQueue queue attempts).Follows (protocol excluded) (.reading named read) fun _ _ => True := by
  induction attempts generalizing named read with
  | zero => trivial
  | succ attempts ih =>
    refine (Prog.follows_cmd_bind _ _ _ _).mpr ⟨trivial, fun members => ?_⟩
    split
    · trivial
    · refine (Prog.follows_cmd_bind _ _ _ _).mpr ⟨trivial, fun waiting => ?_⟩
      refine (drainWaiting_follows queue members waiting named).bind ?_
      rintro ⟨assigned, raceLost⟩ p hp
      cases assigned with
      | true => trivial
      | false =>
        obtain ⟨named', rfl⟩ := hp rfl
        cases raceLost with
        | false => trivial
        | true => exact ih named' _

/-- Every operation follows the protocol. -/
theorem follows (queue : Queue) (op : QueueOp) :
    (op.code queue).Follows (protocol op.excluded) (.reading [] none) fun _ _ => True := by
  have hdone : ∀ {α β : Type} {m : Code α} {post : α → Phase → Prop} {excluded : Option Nat} {p : Phase} {f : α → β},
      m.Follows (protocol excluded) p post →
        (m >>= fun a => pure (f a)).Follows (protocol excluded) p fun _ _ => True :=
    fun hm => hm.bind fun _ _ _ => trivial
  have hany : ∀ {α β : Type} {m : Code α} {excluded : Option Nat} {p : Phase} {f : α → β},
      m.Follows (protocol excluded) p (fun _ _ => True) →
        (m >>= fun a => pure (f a)).Follows (protocol excluded) p fun _ _ => True := hdone
  cases op with
  | newCall callId =>
    refine hany ?_
    unfold QueueRouter.claimForNewCall
    split
    · trivial
    · refine (Prog.follows_cmd_bind _ _ _ _).mpr ⟨trivial, fun older => ?_⟩
      split
      · trivial
      · refine (Prog.follows_cmd_bind _ _ _ _).mpr ⟨trivial, fun members => ?_⟩
        exact hdone (claimForWaitingCall_follows (brought_self queue.id members []))
  | drain => exact hdone (drainQueue_follows queue drainAttempts [] none)
  | assignTransferred callId tenantId =>
    have hqueue := QueueRouter.getQueue_stays (P := protocol none) (Q := (· = Phase.reading [] none))
      (fun _ => by rintro _ rfl; exact ⟨trivial, fun _ => rfl⟩) (some queue.id) _ rfl
    refine Prog.Follows.bind hqueue ?_
    rintro found _ rfl
    cases found with
    | none => trivial
    | some found =>
      dsimp only
      split
      · refine (Prog.follows_cmd_bind _ _ _ _).mpr ⟨trivial, fun call => ?_⟩
        cases call with
        | none => trivial
        | some call =>
          refine (Prog.follows_cmd_bind _ _ _ _).mpr ⟨trivial, fun members => ?_⟩
          refine (eligible_follows callId _ [] _).bind fun given p _ => ?_
          split
          · trivial
          · exact offers_follows callId none _ p
      · refine (Prog.follows_cmd_bind _ _ _ _).mpr ⟨trivial, fun members => ?_⟩
        refine (claimForWaitingCall_follows (brought_self found.id members [])).bind ?_
        rintro ⟨agent, taken⟩ p -
        cases agent with
        | none => trivial
        | some agent => exact offers_follows callId (some agent.id) [] p
  | transfer callId excludeAgentId =>
    refine hany ?_
    refine (Prog.follows_cmd_bind _ _ _ _).mpr ⟨trivial, fun members => ?_⟩
    have hbrought : Brought excludeAgentId queue.id (members.filter fun a => excludeAgentId ≠ some a.id)
        (.reading [] (some (queue.id, members))) := by
      refine ⟨[], members, rfl, List.filter_sublist, fun a ha => ?_⟩
      by_cases hex : excludeAgentId = some a.id
      · exact .inr (.inr hex)
      · exact .inl (List.mem_filter.mpr ⟨ha, by simpa using hex⟩)
    refine (ordered_follows hbrought).bind ?_
    rintro candidates _ rfl
    refine hdone (claimInOrder_follows (fun a => ?_) candidates)
    refine (Prog.follows_cmd_bind _ _ _ _).mpr ⟨trivial, fun won hlost => ?_⟩
    cases won with
    | true => cases hlost
    | false => rfl
  | snapshot =>
    refine hany ?_
    refine (Prog.follows_cmd_bind _ _ _ _).mpr ⟨trivial, fun members => ?_⟩
    split
    · trivial
    · exact ⟨brought_self queue.id members [], fun _ => trivial⟩

end follows

/-! ## What an operation brings -/

/-- No statement changes who is in a queue, and an agent's row only a claim won. -/
theorem members_exec (s : Stmt) (w : World) : (s.exec w).1.members = w.members ∧
    ((s.exec w).1.agents = w.agents ∨ ∀ p, next p s (s.exec w).2 = .claimed) := by
  cases s with
  | updateAgent a u =>
    refine ⟨rfl, ?_⟩
    simp only [next_updateAgent, Stmt.exec, Store.Table.updateWhere]
    cases w.agents.get a with
    | none => exact .inl rfl
    | some row => by_cases hg : u.guard w a row = true <;> simp [hg]
  | claimAgentAndAssignCall a c anyShift =>
    simp only [next_claim, Stmt.exec, World.claimAgentAndAssignCall]
    split
    · split
      · exact ⟨rfl, .inr fun _ => rfl⟩
      · exact ⟨rfl, .inl rfl⟩
    · exact ⟨rfl, .inl rfl⟩
  | createCall row =>
    simp only [Stmt.exec]
    split <;> exact ⟨rfl, .inl rfl⟩
  | record op => cases op <;> exact ⟨rfl, .inl rfl⟩
  | _ => exact ⟨rfl, .inl rfl⟩

theorem histories_exec {excluded : Option Nat} {p : Phase} {s : Stmt} (hs : allows excluded p s) (w : World) :
    (s.exec w).1.declined = w.declined ∧ ∀ c, (s.exec w).1.missed c ⊆ w.missed c := by
  have hsame : ∀ w' : World, w'.declined = w.declined → w'.missed = w.missed →
      w'.declined = w.declined ∧ ∀ c, w'.missed c ⊆ w.missed c :=
    fun w' hd hm => ⟨hd, fun c => hm ▸ List.Subset.refl _⟩
  cases s with
  | claimAgentAndAssignCall a c anyShift =>
    simp only [Stmt.exec, World.claimAgentAndAssignCall]
    split
    · split <;> exact hsame _ rfl rfl
    · exact hsame _ rfl rfl
  | createCall row =>
    simp only [Stmt.exec]
    split <;> exact hsame _ rfl rfl
  | record op =>
    cases op with
    | recordDeclined c a => cases hs
    | recordMissed c a => cases hs
    | clearMissed c =>
      refine ⟨rfl, fun d => ?_⟩
      by_cases hd : d = c
      · subst hd
        simp [Stmt.exec, RecordOp.run]
      · simp [Stmt.exec, RecordOp.run, hd]
    | _ => exact hsame _ rfl rfl
  | _ => exact hsame _ rfl rfl

/-- A history of `w` names the agent. -/
def Named (w : World) (a : Nat) : Prop := ∃ c, a ∈ w.declined c ∨ a ∈ w.missed c

/-- What holds of an operation begun in `w`, taken alone. -/
structure Alone (w s : World) (p : Phase) : Prop where
  members : s.members = w.members
  declined : s.declined = w.declined
  missed : ∀ c, s.missed c ⊆ w.missed c
  reading : ∀ named read, p = .reading named read → (∀ a ∈ named, Named w a) ∧
    ∀ q members, read = some (q, members) → members = (Query.getMembers q).answer s

theorem Alone.step {excluded : Option Nat} {w s : World} {p : Phase} {c : Stmt} (h : Alone w s p)
    (hc : allows excluded p c) : Alone w (c.exec s).1 (next p c (c.exec s).2) := by
  obtain ⟨hdeclined, hmissed⟩ := histories_exec hc s
  obtain ⟨hmembers, hagents⟩ := members_exec c s
  refine ⟨hmembers.trans h.members, hdeclined.trans h.declined,
    fun d => List.Subset.trans (hmissed d) (h.missed d), ?_⟩
  intro named read hnext
  have hagents := hagents.resolve_right fun hclaimed => by
    rw [hclaimed] at hnext
    cases hnext
  have hanswer : ∀ q, (Query.getMembers q).answer (c.exec s).1 = (Query.getMembers q).answer s := by
    intro q
    have hfind : (c.exec s).1.findAgent = s.findAgent := by
      funext a
      unfold World.findAgent World.agent
      rw [hagents]
    simp only [Query.answer, hmembers, hfind]
  simp only [hanswer]
  cases p with
  | claimed =>
    have hclaimed : next .claimed c (c.exec s).2 = .claimed := by
      cases c <;> simp [next]
    rw [hclaimed] at hnext
    cases hnext
  | reading named₀ read₀ =>
    obtain ⟨hnamed, hread⟩ := h.reading _ _ rfl
    have hlater : ∀ ids : List Nat, (∀ a ∈ ids, Named w a) → ∀ a ∈ ids ++ named₀, Named w a :=
      fun ids hids a ha => (List.mem_append.mp ha).elim (hids a) (hnamed a)
    cases c with
    | query q =>
      cases q with
      | getMembers q =>
        cases hnext
        refine ⟨hnamed, ?_⟩
        rintro _ _ ⟨⟩
        rfl
      | declined d =>
        cases hnext
        exact ⟨hlater _ fun a ha => ⟨d, .inl (h.declined ▸ ha)⟩, hread⟩
      | missed d =>
        cases hnext
        exact ⟨hlater _ fun a ha => ⟨d, .inr (h.missed d ha)⟩, hread⟩
      | _ =>
        cases hnext
        exact ⟨hnamed, hread⟩
    | updateAgent a u =>
      rw [next_updateAgent] at hnext
      split at hnext
      · cases hnext
      · cases hnext
        exact ⟨hnamed, hread⟩
    | claimAgentAndAssignCall a d anyShift =>
      rw [next_claim] at hnext
      split at hnext
      · cases hnext
      · cases hnext
        exact ⟨hnamed, hread⟩
    | _ =>
      cases hnext
      exact ⟨hnamed, hread⟩

/-- Whatever an operation brings is what the queue's members are then, less some
that a history names or that it excludes. -/
theorem brings (queue : Queue) (op : QueueOp) (w : World) {s : World} {q : Nat} {given : List Agent}
    (h : (s, Stmt.reconcileQueueOrder q given) ∈ (op.code queue).issued Stmt.exec w) :
    given <+ (Query.getMembers q).answer s ∧ ∀ a ∈ (Query.getMembers q).answer s,
      a.id ∈ w.members q ∧ (a ∈ given ∨ Named w a.id ∨ op.excluded = some a.id) := by
  have hstart : Alone w w (.reading [] none) := by
    refine ⟨rfl, rfl, fun c => List.Subset.refl _, ?_⟩
    rintro _ _ ⟨⟩
    exact ⟨nofun, nofun⟩
  obtain ⟨p, halone, named, members, rfl, hsub, hall⟩ :=
    (follows queue op).of_issued (I := Alone w) (fun _ _ _ h hc => h.step hc) hstart _ h
  obtain ⟨hnamed, hread⟩ := halone.reading _ _ rfl
  obtain rfl := hread q members rfl
  refine ⟨hsub, fun a ha => ⟨?_, (hall a ha).imp_right (.imp_left (hnamed _))⟩⟩
  obtain ⟨id, hid, hfind⟩ := List.mem_filterMap.mp ha
  simp only [World.findAgent, Option.map_eq_some_iff] at hfind
  obtain ⟨row, -, rfl⟩ := hfind
  exact halone.members ▸ hid

/-! ## Runs -/

/-- The order brought up to date once: the queue's members then, and the list the
operation brought. -/
structure Pick where
  now : Nat
  members : List Agent
  given : List Agent

def pickOf (queueId : Nat) : World × Stmt → Option Pick
  | (w, .reconcileQueueOrder q given) =>
      if q = queueId then some ⟨w.now, (Query.getMembers q).answer w, given⟩ else none
  | _ => none

/-- An operation, and the world it finds. -/
abbrev Turn := World × QueueOp

/-- Between two operations anything may have changed but the queue's order. -/
def withOrder (w : World) (queueId : Nat) (o : QueueOrder) : World :=
  { w with queueOrder := Function.update w.queueOrder queueId o }

/-- The picks of operations taken one at a time, the order being `o` at first. -/
def picksFrom (queue : Queue) (o : QueueOrder) : List Turn → List Pick
  | [] => []
  | (w, op) :: rest =>
      let w := withOrder w queue.id o
      ((op.code queue).issued Stmt.exec w).filterMap (pickOf queue.id) ++
        picksFrom queue (((op.code queue).eval Stmt.exec w).2.queueOrder queue.id) rest

/-- The picks of a queue's operations from its first on. -/
def picks (queue : Queue) (turns : List Turn) : List Pick := picksFrom queue {} turns

/-- The order after an operation. -/
def orderFrom (queue : Queue) (o : QueueOrder) : List Turn → QueueOrder
  | [] => o
  | (w, op) :: rest =>
      orderFrom queue (((op.code queue).eval Stmt.exec (withOrder w queue.id o)).2.queueOrder queue.id) rest

def Pick.next (o : QueueOrder) (p : Pick) : QueueOrder := reconcileOrder p.now p.given o

/-- The order stored after the first `k` picks. -/
def stored (ps : List Pick) (k : Nat) : QueueOrder := (ps.take k).foldl Pick.next {}

theorem queueOrder_exec (q : Nat) (s : Stmt) (w : World) :
    (s.exec w).1.queueOrder q = (pickOf q (w, s)).elim (w.queueOrder q) (Pick.next (w.queueOrder q)) := by
  cases s with
  | reconcileQueueOrder q' given =>
    by_cases hq : q' = q
    · subst hq
      simp [Stmt.exec, pickOf, Pick.next]
    · simp [Stmt.exec, pickOf, hq, Ne.symm hq]
  | claimAgentAndAssignCall a c anyShift =>
    simp only [Stmt.exec, World.claimAgentAndAssignCall]
    split
    · split <;> rfl
    · rfl
  | createCall row =>
    simp only [Stmt.exec]
    split <;> rfl
  | record op => cases op <;> rfl
  | _ => rfl

theorem queueOrder_eval {α : Type} (m : Code α) (w : World) (q : Nat) :
    (m.eval Stmt.exec w).2.queueOrder q =
      ((m.issued Stmt.exec w).filterMap (pickOf q)).foldl Pick.next (w.queueOrder q) := by
  rw [List.foldl_filterMap]
  refine Prog.observe_eval Stmt.exec (fun w => w.queueOrder q) _ (fun s w => ?_) m w
  rw [queueOrder_exec]
  cases pickOf q (w, s) <;> rfl

/-- What the operations leave stored is what their picks come to. -/
theorem orderFrom_eq (queue : Queue) (o : QueueOrder) (turns : List Turn) :
    orderFrom queue o turns = (picksFrom queue o turns).foldl Pick.next o := by
  induction turns generalizing o with
  | nil => rfl
  | cons turn rest ih =>
    obtain ⟨w, op⟩ := turn
    have horder : (withOrder w queue.id o).queueOrder queue.id = o := by simp [withOrder]
    rw [orderFrom, picksFrom, List.foldl_append, ih, queueOrder_eval, horder]

/-- A member is there at a pick: available, or offline and no longer away than
the hold, counted from the first pick that found them so. -/
def Stays (ps : List Pick) (x k : Nat) : Prop :=
  ∃ p, ps[k]? = some p ∧ (reported p.members x = some .available ∨
    reported p.members x = some .offline ∧ ∀ m q, m ≤ k → ps[m]? = some q →
      (∀ n r, m ≤ n → n ≤ k → ps[n]? = some r → reported r.members x = some .offline) →
      p.now - q.now ≤ queueReconnectHoldMs)

/-- What is fair of a queue's order, pick after pick. -/
structure Fair (ps : List Pick) : Prop where
  /-- Nobody is in the order twice. -/
  nodup : ∀ k, (stored ps k).order.Nodup
  /-- Who joins comes after everyone already placed. -/
  joins : ∀ k x y, x ∉ (stored ps k).order → x ∈ (stored ps (k + 1)).order → y ∈ (stored ps k).order →
    y ∈ (stored ps (k + 1)).order → [y, x] <+ (stored ps (k + 1)).order
  /-- Every available member given comes back once, in the order stored. -/
  returns : ∀ k p, ps[k]? = some p →
    (availableInOrder p.given (stored ps (k + 1)).order).map (·.id) =
        (stored ps (k + 1)).order.filter (isAvailable p.given) ∧
      ∀ x, isAvailable p.given x = true →
        ((availableInOrder p.given (stored ps (k + 1)).order).map (·.id)).count x = 1
  /-- Two members who stay keep their order. -/
  keeps : ∀ x y j k, j ≤ k → (∀ i, j ≤ i → i < k → Stays ps x i ∧ Stays ps y i) →
    [x, y] <+ (stored ps j).order → [x, y] <+ (stored ps k).order

/-- The list brought has every member who is available or offline. -/
def Whole (p : Pick) : Prop :=
  ∀ a ∈ p.members, a.availability ≠ .onCall → a ∈ p.given

instance (p : Pick) : Decidable (Whole p) := inferInstanceAs (Decidable (∀ _ ∈ _, _ → _))

/-- What every pick of an operation alone is like: part of the queue's members,
who have an id each. -/
structure Pick.Sound (p : Pick) : Prop where
  given : p.given <+ p.members
  unique : ∀ a ∈ p.members, ∀ b ∈ p.members, a.id = b.id → a = b

theorem pickOf_eq_some {q : Nat} {e : World × Stmt} {p : Pick} (h : pickOf q e = some p) :
    ∃ given, e = (e.1, .reconcileQueueOrder q given) ∧ p = ⟨e.1.now, (Query.getMembers q).answer e.1, given⟩ := by
  obtain ⟨w, s⟩ := e
  unfold pickOf at h
  split at h
  · rename_i heq
    cases heq
    split at h
    · rename_i hq
      subst hq
      exact ⟨_, rfl, (Option.some.inj h).symm⟩
    · cases h
  · cases h

theorem answer_unique {w : World} {q : Nat} {a b : Agent} (ha : a ∈ (Query.getMembers q).answer w)
    (hb : b ∈ (Query.getMembers q).answer w) (h : a.id = b.id) : a = b := by
  have hfind : ∀ a ∈ (Query.getMembers q).answer w, w.findAgent a.id = some a := by
    intro a ha
    obtain ⟨id, -, hid⟩ := List.mem_filterMap.mp ha
    have hsame : a.id = id := by
      simp only [World.findAgent, Option.map_eq_some_iff] at hid
      obtain ⟨row, -, rfl⟩ := hid
      rfl
    rwa [hsame]
  have hab := (hfind a ha).symm.trans (h ▸ hfind b hb)
  exact Option.some.inj hab

theorem sound_of_mem {queue : Queue} {o : QueueOrder} {turns : List Turn} {p : Pick}
    (h : p ∈ picksFrom queue o turns) : p.Sound := by
  induction turns generalizing o with
  | nil => cases h
  | cons turn rest ih =>
    obtain ⟨w, op⟩ := turn
    rcases List.mem_append.mp h with h | h
    · obtain ⟨⟨s, c⟩, he, hp⟩ := List.mem_filterMap.mp h
      obtain ⟨given, heq, rfl⟩ := pickOf_eq_some hp
      rw [heq] at he
      exact ⟨(brings queue op _ he).1, fun a ha b hb => answer_unique ha hb⟩
    · exact ih h

section fair

variable {ps : List Pick} {k : Nat} {p : Pick} {x : Nat}

theorem stored_succ (h : ps[k]? = some p) :
    stored ps (k + 1) = reconcileOrder p.now p.given (stored ps k) := by
  rw [stored, List.take_add_one, h, List.foldl_append]
  rfl

theorem stored_of_none (h : ps[k]? = none) : stored ps (k + 1) = stored ps k := by
  rw [stored, List.take_add_one, h, Option.toList_none, List.append_nil]
  rfl

theorem stored_nodup (k : Nat) : (stored ps k).order.Nodup := by
  induction k with
  | zero => exact List.nodup_nil
  | succ k ih =>
    cases hp : ps[k]? with
    | none => rwa [stored_of_none hp]
    | some p =>
      rw [stored_succ hp]
      exact order_nodup

theorem reported_eq_some {members : List Agent} {v : Availability} (h : reported members x = some v) :
    ∃ a ∈ members, a.id = x ∧ a.availability = v := by
  obtain ⟨a, ha, rfl⟩ := Option.map_eq_some_iff.mp h
  exact ⟨a, List.mem_of_find?_eq_some ha, by simpa using List.find?_some ha, rfl⟩

namespace Pick.Sound

/-- One of the members is reported as they are. -/
theorem reported_of_mem (h : p.Sound) {given : List Agent} (hsub : given ⊆ p.members) {a : Agent} (ha : a ∈ given) :
    reported given a.id = some a.availability := by
  have hsome : (given.find? fun b => b.id = a.id).isSome := by
    rw [List.find?_isSome]
    exact ⟨a, ha, by simp⟩
  obtain ⟨b, hb⟩ := Option.isSome_iff_exists.mp hsome
  have hid : b.id = a.id := by simpa using List.find?_some hb
  obtain rfl := h.unique b (hsub (List.mem_of_find?_eq_some hb)) a (hsub ha) hid
  rw [reported, hb]
  rfl

theorem reported_members (h : p.Sound) {v : Availability} (hv : reported p.given x = some v) :
    reported p.members x = some v := by
  obtain ⟨a, ha, rfl, rfl⟩ := reported_eq_some hv
  exact h.reported_of_mem (List.Subset.refl _) (h.given.subset ha)

theorem reported_given (h : p.Sound) (hw : Whole p) {v : Availability} (hv : reported p.members x = some v)
    (hcall : v ≠ .onCall) : reported p.given x = some v := by
  obtain ⟨a, ha, rfl, rfl⟩ := reported_eq_some hv
  exact h.reported_of_mem h.given.subset (hw a ha hcall)

end Pick.Sound

/-- A place held for someone away is held since a pick that found them so, and
every pick since has. -/
theorem away_since (hsound : ∀ p ∈ ps, p.Sound) {t : Nat} (h : (stored ps k).unavailableSince x = some t) :
    ∃ m q, m < k ∧ ps[m]? = some q ∧ q.now = t ∧ ∀ n r, m ≤ n → n < k → ps[n]? = some r →
      reported r.members x = some .offline := by
  induction k with
  | zero => cases h
  | succ k ih =>
    cases hp : ps[k]? with
    | none =>
      rw [stored_of_none hp] at h
      obtain ⟨m, q, hlt, hq, ht, hoff⟩ := ih h
      refine ⟨m, q, by omega, hq, ht, fun n r hmn hnk hr => ?_⟩
      by_cases hn : n = k
      · rw [hn, hp] at hr
        cases hr
      · exact hoff n r hmn (by omega) hr
    | some p =>
      rw [stored_succ hp] at h
      obtain ⟨hoffline, ht⟩ := since_of_kept h
      have hnow := (hsound p (List.mem_of_getElem? hp)).reported_members hoffline
      have hlast : ∀ n r, n = k → ps[n]? = some r → reported r.members x = some .offline := by
        rintro n r rfl hr
        rw [hp] at hr
        cases hr
        exact hnow
      cases hsince : (stored ps k).unavailableSince x with
      | none =>
        rw [hsince, Option.getD_none] at ht
        exact ⟨k, p, by omega, hp, ht.symm, fun n r hkn hnk hr => hlast n r (by omega) hr⟩
      | some t' =>
        rw [hsince, Option.getD_some] at ht
        subst ht
        obtain ⟨m, q, hlt, hq, ht, hoff⟩ := ih hsince
        refine ⟨m, q, by omega, hq, ht, fun n r hmn hnk hr => ?_⟩
        by_cases hn : n = k
        · exact hlast n r hn hr
        · exact hoff n r hmn (by omega) hr

/-- A member who stays, and is not left out, keeps their place. -/
theorem keepsPlace_of_stays (hsound : ∀ p ∈ ps, p.Sound) (hp : ps[k]? = some p) (hw : Whole p)
    (h : Stays ps x k) : keepsPlace p.now p.given (stored ps k) x = true := by
  obtain ⟨p', hp', hstays⟩ := h
  obtain rfl : p = p' := Option.some.inj (hp.symm.trans hp')
  have hs := hsound p (List.mem_of_getElem? hp)
  rcases hstays with havailable | ⟨hoffline, hhold⟩
  · obtain ⟨a, ha, hid, hav⟩ := reported_eq_some (hs.reported_given hw havailable nofun)
    simp [keepsPlace, isAvailable_iff.mpr ⟨a, ha, hid, hav⟩]
  · have hgiven := hs.reported_given hw hoffline nofun
    have hsince : p.now - ((stored ps k).unavailableSince x).getD p.now ≤ queueReconnectHoldMs := by
      cases hsince : (stored ps k).unavailableSince x with
      | none => simp
      | some t =>
        obtain ⟨m, q, hlt, hq, rfl, hoff⟩ := away_since hsound hsince
        refine hhold m q (by omega) hq fun n r hmn hnk hr => ?_
        by_cases hn : n = k
        · rw [hn, hp] at hr
          cases hr
          exact hoffline
        · exact hoff n r hmn (by omega) hr
    simp [keepsPlace, hgiven, hsince]

theorem keeps_of_whole (hsound : ∀ p ∈ ps, p.Sound) (hw : ∀ p ∈ ps, Whole p) {y j : Nat} (hjk : j ≤ k)
    (hstays : ∀ i, j ≤ i → i < k → Stays ps x i ∧ Stays ps y i) (h : [x, y] <+ (stored ps j).order) :
    [x, y] <+ (stored ps k).order := by
  induction k, hjk using Nat.le_induction with
  | base => exact h
  | succ k hjk ih =>
    have hbefore := ih fun i hji hik => hstays i hji (by omega)
    cases hp : ps[k]? with
    | none => rwa [stored_of_none hp]
    | some p =>
      obtain ⟨hx, hy⟩ := hstays k hjk (by omega)
      have hwhole := hw p (List.mem_of_getElem? hp)
      rw [stored_succ hp]
      exact keeps_order (stored_nodup k) (keepsPlace_of_stays hsound hp hwhole hx)
        (keepsPlace_of_stays hsound hp hwhole hy) hbefore

/-- Picks of part of the members each, that leave none out, are fair. -/
theorem fair_of_sound (hsound : ∀ p ∈ ps, p.Sound) (hw : ∀ p ∈ ps, Whole p) : Fair ps := by
  refine ⟨stored_nodup, ?_, ?_, ?_⟩
  · intro k x y hx hx' hy hy'
    cases hp : ps[k]? with
    | none =>
      rw [stored_of_none hp] at hx'
      exact absurd hx' hx
    | some p =>
      rw [stored_succ hp] at hx' hy' ⊢
      exact joins_behind hx hx' hy hy'
  · intro k p hp
    refine ⟨availableInOrder_map_id _, fun x hx => ?_⟩
    rw [availableInOrder_map_id]
    refine List.count_eq_one_of_mem ((stored_nodup _).filter _) (List.mem_filter.mpr ⟨?_, hx⟩)
    rw [stored_succ hp]
    exact mem_order_of_available hx
  · intro x y j k hjk hstays h
    exact keeps_of_whole hsound hw hjk hstays h

end fair

/-- Only a history that names a member, and a transfer that excludes one, leave a
member out. -/
theorem whole_of_unfiltered {queue : Queue} {o : QueueOrder} {turns : List Turn}
    (h : ∀ turn ∈ turns, ∀ a ∈ turn.1.members queue.id, ¬ Named turn.1 a ∧ turn.2.excluded ≠ some a) :
    ∀ p ∈ picksFrom queue o turns, Whole p := by
  intro p hp
  induction turns generalizing o with
  | nil => cases hp
  | cons turn rest ih =>
    obtain ⟨w, op⟩ := turn
    rcases List.mem_append.mp hp with hp | hp
    · obtain ⟨⟨s, c⟩, he, hp⟩ := List.mem_filterMap.mp hp
      obtain ⟨given, heq, rfl⟩ := pickOf_eq_some hp
      rw [heq] at he
      intro a ha _
      obtain ⟨hmember, hgiven⟩ := (brings queue op _ he).2 a ha
      obtain ⟨hnamed, hexcluded⟩ := h (w, op) List.mem_cons_self a.id hmember
      exact hgiven.resolve_right (not_or.mpr ⟨hnamed, hexcluded⟩)
    · exact ih (fun turn ht => h turn (List.mem_cons_of_mem _ ht)) hp

/-- Where no history names a member and no transfer excludes one, the order is fair,
up to the one that the operations leave stored. -/
theorem fair_of_unfiltered (queue : Queue) (turns : List Turn)
    (h : ∀ turn ∈ turns, ∀ a ∈ turn.1.members queue.id, ¬ Named turn.1 a ∧ turn.2.excluded ≠ some a) :
    Fair (picks queue turns) ∧ orderFrom queue {} turns = stored (picks queue turns) (picks queue turns).length := by
  refine ⟨fair_of_sound (fun _ hp => sound_of_mem hp) (whole_of_unfiltered h), ?_⟩
  rw [orderFrom_eq, stored, List.take_length]
  rfl

/-! ## A decline that costs a place -/

/-- Three members of queue 1, all available. -/
def three : World :=
  { agents := .ofList [fun _ => {}, fun _ => {}, fun _ => {}]
    queues := fun q => if q = 1 then some {} else none
    members := fun q => if q = 1 then [1, 2, 3] else [] }

/-- Call 1 waits in the queue, and agent 1 has declined it. -/
def declinedOnce : World :=
  { three with
    calls := .ofList [fun _ => { direction := .inbound, status := .ringing, state := some .queue,
                                 queueId := some 1, ringingAt := some 0, queuedAt := some 0 }]
    declined := fun c => if c = 1 then [1] else [] }

/-- The call rings agent 2. -/
def offeredTwo : World :=
  { three with agents := .ofList [fun _ => {}, fun _ => { busyCallId := some 1 }, fun _ => {}] }

def roundRobin : Queue := { id := 1 }

end Callio.RoundRobin
