import Callio.Conduct.Handlers
import Callio.Persistence.Effects
import Mathlib.Data.Finset.Option
import Mathlib.Data.Fintype.Basic

/-! A queue's `max_active_calls`. An accept counts the queue's calls first and
brings its own to IN_PROGRESS/ACTIVE many statements later. The limit holds as
long as each call is still in the queue its accept counted, and no call is
brought there between another accept's count and that one's end. -/

namespace Callio

open Concurrency Code

/-- The call is talking: IN_PROGRESS and ACTIVE. -/
def CallRow.talking (row : CallRow) : Bool := row.status = .inProgress && row.state = some .active

def World.talks (w : World) (c : Nat) : Bool := (w.call c).any (·.talking)

/-- The call counts toward the limit of queue `q`. -/
def World.countsIn (w : World) (q c : Nat) : Bool :=
  (w.call c).any fun row => row.queueId = some q && row.countsTowardCapacity

def World.inQueue (w : World) (q c : Nat) : Bool := (w.call c).any (·.queueId = some q)

/-- An accept of call `c` counts every call admitted but its own. -/
theorem card_erase_le_count {w : World} {q : Nat} {admitted : Finset Nat}
    (h : ∀ c ∈ admitted, w.countsIn q c = true) (c : Nat) :
    (admitted.erase c).card ≤ (Query.countOtherActiveCallsInQueue q c).answer w := by
  have hsub : admitted.erase c ⊆ ((w.selectCalls fun d => d.queueId = some q && d.id ≠ c &&
      d.countsTowardCapacity).map (·.id)).toFinset := by
    intro d hd
    obtain ⟨hne, hd⟩ := Finset.mem_erase.mp hd
    have hcounts := h d hd
    obtain ⟨row, hrow, hin⟩ := (Option.any_eq_true ..).mp hcounts
    simp only [Bool.and_eq_true, decide_eq_true_eq] at hin
    rw [List.mem_toFinset, List.mem_map]
    refine ⟨{ row with id := d }, World.mem_selectCalls.mpr ⟨hrow, ?_⟩, rfl⟩
    simp [hin.1, hne, hin.2]
  calc (admitted.erase c).card ≤ _ := Finset.card_le_card hsub
    _ ≤ _ := List.toFinset_card_le _
    _ = _ := List.length_map ..

namespace QueueCapacity

/-- How far an accept of a call is. -/
inductive Phase
  /-- The call's row has not been read. -/
  | fresh (callId : Nat)
  /-- The row names the queue. -/
  | queued (callId queueId : Nat)
  /-- The queue has a limit, and its calls have not been counted. -/
  | limited (callId queueId limit : Nat) (queue : Queue)
  /-- The accept may bring the call to IN_PROGRESS/ACTIVE. `counted`: the queue's
  calls were fewer than its limit. -/
  | passed (callId : Nat) (queueId : Option Nat) (counted : Bool)
  | past
  | other
  deriving DecidableEq

def start : Handler → Phase
  | .agentJoined a => .fresh a.callId
  | _ => .other

/-- The limit an accept checks. -/
def limitOf (queue : Option Queue) : Option Nat :=
  ((queue.filter (·.active)).bind (·.maxActiveCalls)).filter (0 < ·)

/-- The accept has brought its call, or given up. -/
def settles : Stmt → Bool
  | .updateCall _ (.updateState state) => state = some .active
  | .emit (.callHandled _ _) | .emit (.callError _ _) => true
  | _ => false

def next : Phase → (s : Stmt) → s.Res → Phase
  | .fresh c, .query (.findById _), row =>
      match row.bind (·.queueId) with
      | none => .passed c none false
      | some q => .queued c q
  | .queued c q, .query (.findQueue p), queue =>
      if p ≠ q then .queued c q
      else match limitOf queue with
        | none => .passed c (some q) false
        | some limit => .limited c q limit (queue.getD ⟨{}, q⟩)
  | .limited c q limit queue, .query (.countOtherActiveCallsInQueue p d), count =>
      if p = queue.id ∧ d = c then if limit ≤ count then .past else .passed c (some q) true
      else .limited c q limit queue
  | .passed c q counted, s, _ => if settles s then .past else .passed c q counted
  | p, _, _ => p

/-- May bring a call to IN_PROGRESS/ACTIVE. -/
def brings : CallUpdate → Bool
  | .updateStatus status | .transitionStatus _ status => status = .inProgress
  | .updateState state | .updateCallState state _ => state = some .active
  | _ => false

/-- An accept brings its own call only, and only past the check. -/
def allows (p : Phase) : Stmt → Prop
  | .updateCall c u => p = .other ∨ (brings u = true → ∃ q counted, p = .passed c q counted)
  | .createCall _ => p = .other
  | _ => True

abbrev protocol : Protocol Stmt.Res := ⟨Phase, next, allows⟩

/-! ## What brings a call -/

theorem talking_set {u : CallUpdate} {row : CallRow} {now : Nat}
    (h : (u.set now row).talking = true) : row.talking = true ∨ brings u = true := by
  cases u with
  | updateTimestamp field value => cases field <;> exact .inl h
  | updateStatus status | transitionStatus _ status =>
    rw [CallRow.talking, Bool.and_eq_true] at h
    exact .inr h.1
  | updateState state =>
    rw [CallRow.talking, Bool.and_eq_true] at h
    exact .inr h.2
  | updateCallState state status =>
    rw [CallRow.talking, Bool.and_eq_true] at h
    cases status <;> exact .inr h.2
  | markIvrAutoAccepted | returnHandoverToQueue _ _ | markCallFailedIfNotFinal _ _
  | terminateCallIfNotTerminated _ _ _ _ | finalizeFromWebhook _ _ _ | finalizeCallAsFailed _ =>
    simp [CallUpdate.set, CallRow.talking] at h
  | _ => exact .inl h

theorem talks_exec {w : World} {s : Stmt} {c : Nat} (h : (s.exec w).1.talks c = true) :
    w.talks c = true ∨ (∃ u, s = .updateCall c u ∧ brings u = true) ∨ ∃ row, s = .createCall row := by
  obtain ⟨row', hrow', ht⟩ := (Option.any_eq_true ..).mp h
  rcases Stmt.onCall w c s with hsame | ⟨u, row, rfl, hrow, -, hset⟩ | ⟨row, hs, -, -⟩ |
    ⟨row, _, -, hrow, hset⟩ | ⟨_, _, row, -, hrow, -, -, hset⟩
  · exact .inl ((Option.any_eq_true ..).mpr ⟨row', hsame ▸ hrow', ht⟩)
  · rw [hset] at hrow'
    cases hrow'
    rcases talking_set ht with ht | hb
    · exact .inl ((Option.any_eq_true ..).mpr ⟨row, hrow, ht⟩)
    · exact .inr (.inl ⟨u, rfl, hb⟩)
  · exact .inr (.inr ⟨row, hs⟩)
  all_goals
    rw [hset] at hrow'
    cases hrow'
    exact .inl ((Option.any_eq_true ..).mpr ⟨row, hrow, ht⟩)

/-! ## Handlers -/

/-- Allowed in every phase. -/
def Free (s : Stmt) : Prop := ∀ p, allows p s

theorem keeps_free {s : Stmt} (h : Free s) : protocol.Keeps (fun _ => True) s :=
  fun p _ => ⟨h p, fun _ => trivial⟩

theorem keeps_other (s : Stmt) : protocol.Keeps (· = .other) s := by
  rintro _ rfl
  refine ⟨?_, fun _ => rfl⟩
  cases s with
  | updateCall => exact .inl rfl
  | createCall => exact rfl
  | _ => trivial

theorem free_of_routing {s : Stmt} (h : s.Routing ∨ s.Offering) : Free s := by
  intro p
  cases s with
  | updateCall c u => simp at h
  | createCall row => simp at h
  | _ => trivial

theorem free_of_ending {s : Stmt} (h : s.Ending) : Free s := by
  intro p
  cases s with
  | updateCall c u => cases u <;> simp_all [allows, brings]
  | createCall row => cases h
  | _ => trivial

theorem routes : Routes protocol fun _ => True := .of_keeps fun _ h => keeps_free (free_of_routing h)

section accept

variable (a : Accept)

/-- The phases of an accept past its check. -/
def Open (p : Phase) : Prop := ∃ q counted, p = .passed a.callId q counted

theorem keeps_open {s : Stmt} (h : Free s) (hs : settles s = false) : protocol.Keeps (Open a) s := by
  rintro _ ⟨q, counted, rfl⟩
  refine ⟨h _, fun r => ⟨q, counted, ?_⟩⟩
  show next (.passed a.callId q counted) s r = _
  simp [next, hs]

theorem settles_of_routing {s : Stmt} (h : s.Routing ∨ s.Offering) : settles s = false := by
  unfold settles
  split <;> simp_all

theorem settles_of_ending {s : Stmt} (h : s.Ending) : settles s = false := by
  unfold settles
  split <;> simp_all

theorem ends_open : Ends protocol (Open a) :=
  .of_keeps (.of_keeps fun _ h => keeps_open a (free_of_routing h) (settles_of_routing h))
    fun _ h => keeps_open a (free_of_ending h) (settles_of_ending h)

theorem keeps_fresh {s : Stmt} (h : Free s) (hn : ∀ r, next (.fresh a.callId) s r = .fresh a.callId) :
    protocol.Keeps (· = .fresh a.callId) s := by
  rintro _ rfl
  exact ⟨h _, hn⟩

/-- What the capacity check comes to, with the queue as read. -/
theorem isAtCapacity_follows (q : Nat) (queue : Option Queue) :
    (QueueRouter.isAtCapacity (queue.filter (·.active)) a.callId).Follows protocol
      (next (.queued a.callId q) (.query (.findQueue q)) queue : Phase) fun full p =>
        full = false → Open a p := by
  have hpassed : Open a (.passed a.callId (some q) false) := ⟨_, _, rfl⟩
  cases hactive : queue.filter (·.active) with
  | none =>
    have hnone : limitOf queue = none := by simp [limitOf, hactive]
    simpa [next, hnone, QueueRouter.isAtCapacity] using hpassed
  | some found =>
    obtain ⟨rfl, -⟩ := Option.filter_eq_some_iff.mp hactive
    cases hmax : found.maxActiveCalls with
    | none =>
      have hnone : limitOf (some found) = none := by simp [limitOf, hactive, hmax]
      simpa [next, hnone, QueueRouter.isAtCapacity, hmax] using hpassed
    | some limit =>
      by_cases hzero : limit = 0
      · have hnone : limitOf (some found) = none := by simp [limitOf, hactive, hmax, hzero]
        simpa [next, hnone, QueueRouter.isAtCapacity, hmax, hzero] using hpassed
      · have hsome : limitOf (some found) = some limit := by
          simp [limitOf, hactive, hmax, Nat.pos_of_ne_zero hzero]
        simp only [next, hsome, QueueRouter.isAtCapacity, Option.bind_some, hmax, Option.map_some,
          Option.getD_some, if_neg hzero]
        refine (Prog.follows_cmd_bind _ _ _ _).mpr ⟨trivial, fun count => ?_⟩
        intro hfull
        have hlt : ¬ limit ≤ count := by simpa using hfull
        exact ⟨some q, true, by simp [next, hlt]⟩

theorem checkCapacity_follows :
    a.checkCapacity.Follows protocol (.fresh a.callId) fun checked p => checked.isOk → Open a p := by
  have hactive : ∀ p, Open a p → (Code.read (.hasAgentActiveCall a.userId a.callId)).Follows protocol p
      fun _ => Open a := keeps_open a (fun _ => trivial) rfl
  refine (Prog.follows_cmd_bind _ _ _ _).mpr ⟨trivial, fun row => ?_⟩
  have hrest : ∀ (queue : Option Queue) (full : Bool) (p : Phase), (full = false → Open a p) →
      (if full = true then (pure (.error .queueAtLimit) : Code (Except AcceptError _)) else do
        if ← read (.hasAgentActiveCall a.userId a.callId) then return .error .agentOnCall
        return .ok (row, queue)).Follows protocol p fun checked p => checked.isOk → Open a p := by
    intro queue full p hp
    cases full with
    | true => exact nofun
    | false =>
      refine (hactive p (hp rfl)).bind fun active p hp => ?_
      cases active with
      | true => exact nofun
      | false => exact fun _ => hp
  cases hq : row.bind (·.queueId) with
  | none =>
    have hpassed : Open a (next (.fresh a.callId) (.query (.findById a.callId)) row) := by
      exact ⟨none, false, by simp [next, hq]⟩
    exact hrest none false _ fun _ => hpassed
  | some q =>
    have hqueued : next (.fresh a.callId) (.query (.findById a.callId)) row = .queued a.callId q := by
      simp [next, hq]
    simp only [hqueued]
    refine (Prog.follows_cmd_bind _ _ _ _).mpr ⟨trivial, fun queue => ?_⟩
    exact (isAtCapacity_follows a q queue).bind fun full p hp => hrest _ full p hp

theorem connectCall_takes (call : Call) :
    (a.connectCall call).Takes protocol (Open a) fun _ => True := by
  have hclaim : (update a.callId (.assignCallToAgentIfEligible a.userId)).Stays protocol (Open a) :=
    keeps_open a (fun _ => .inr nofun) rfl
  have hmove : (update a.callId (.transitionStatus .ringing .inProgress)).Stays protocol (Open a) := by
    rintro _ ⟨q, counted, rfl⟩
    exact ⟨.inr fun _ => ⟨q, counted, rfl⟩, fun _ => ⟨q, counted, rfl⟩⟩
  have hactive : (update a.callId (.updateState (some .active))).Takes protocol (Open a)
      fun _ => True := by
    rintro _ ⟨q, counted, rfl⟩
    exact ⟨.inr fun _ => ⟨q, counted, rfl⟩, fun _ => trivial⟩
  have hstamp : ∀ now, (updateTimestamp a.callId .answeredAt now).Stays protocol fun _ => True :=
    fun _ => updateTimestamp_stays (keeps_free fun _ => .inr nofun) (keeps_free fun _ => .inr nofun)
  have hstatus : (Code.read (.getStatus a.callId)).Takes protocol (Open a) fun _ => True :=
    fun p _ => (Prog.follows_cmd p (.query (.getStatus a.callId)) _).mpr ⟨trivial, fun _ => trivial⟩
  have hnow : (Code.read .now).Stays protocol fun _ => True := keeps_free fun _ => trivial
  have hto : ∀ p, Open a p → True := fun _ _ => trivial
  refine .bind hclaim fun _ => .ite (fun _ => Prog.takes_ret hto _) fun _ => ?_
  refine .bind hmove fun _ => .ite (fun _ => hstatus.bind fun _ => Prog.stays_ret _) fun _ => ?_
  refine hactive.bind fun _ => .ite (fun _ => ?_) fun _ => Prog.stays_ret _
  exact hnow.bind fun now => (hstamp now).bind fun _ => Prog.stays_ret _

theorem joinClaimed_takes : a.joinClaimed.Takes protocol (Open a) fun _ => True := by
  have hconnected : a.connected.Stays protocol fun _ => True :=
    a.connected_stays (keeps_free fun _ => trivial) (keeps_free fun _ => trivial)
      (keeps_free fun _ => trivial) (keeps_free fun _ => trivial) (keeps_free fun _ => trivial)
  exact a.joinClaimed_connects (ends_open a) (keeps_open a (fun _ => trivial) rfl)
    (keeps_open a (fun _ => trivial) rfl) (keeps_open a (fun _ => trivial) rfl)
    (connectCall_takes a) hconnected fun _ _ => trivial

theorem join_takes : a.join.Takes protocol (· = .fresh a.callId) fun _ => True := by
  have hclaim := a.claim_stays (ends_open a).toRoutes (keeps_open a (fun _ => .inr nofun) rfl)
    (keeps_open a (fun _ => .inr nofun) rfl) (keeps_open a (fun _ => trivial) rfl)
  rintro _ rfl
  refine (checkCapacity_follows a).bind fun checked p hp => ?_
  cases checked with
  | error err => trivial
  | ok _ =>
    refine ((ends_open a).read (.getStatus a.callId) trivial p (hp rfl)).bind fun status p hp => ?_
    split
    · trivial
    · refine (hclaim _ p hp).bind fun claimed p hp => ?_
      cases claimed with
      | error err => trivial
      | ok _ => exact joinClaimed_takes a p hp

theorem handleAgentJoined_follows :
    (handleAgentJoined a).Follows protocol (.fresh a.callId) fun _ _ => True :=
  a.handleAgentJoined_takes routes (keeps_fresh a (fun _ => trivial) fun _ => rfl) (join_takes a)
    (fun _ _ => trivial) (keeps_free fun _ => trivial) (fun _ => keeps_free fun _ => trivial) _ rfl

end accept

theorem follows (h : Handler) : h.code.Follows protocol (start h) fun _ _ => True := by
  have hother : h.code.Follows protocol .other fun _ _ => True := by
    refine (h.code_stays (.of_keeps fun s _ => keeps_other s) (fun s _ => keeps_other s)
      (fun _ a => keeps_other (.incrementMissed a)) (fun _ _ s _ => keeps_other s) _ rfl).mono ?_
    exact fun _ _ _ => trivial
  cases h with
  | agentJoined a => exact handleAgentJoined_follows a
  | _ => exact hother

/-! ## One move -/

/-- The queue has the limit `n`. -/
def World.Limits (w : World) (q n : Nat) : Prop :=
  (w.queues q).any fun row => row.active && row.maxActiveCalls = some n

/-- `admitted`: the calls brought to IN_PROGRESS/ACTIVE in queue `q` by an accept.
`done`: the handler has finished. -/
structure Invariant {ι : Type} (q n : Nat) (w : World) (ph : ι → Phase) (done : ι → Prop)
    (admitted : Finset Nat) : Prop where
  limits : World.Limits w q n
  found : ∀ i c p limit queue, ph i = .limited c p limit queue →
    w.findQueue p = some queue ∧ limitOf (some queue) = some limit
  counted : ∀ i c, ph i ≠ .passed c (some q) false
  counts : ∀ c ∈ admitted, w.countsIn q c = true
  le : admitted.card ≤ n
  /-- An accept past its check will not exceed the limit. -/
  room : ∀ i c, ph i = .passed c (some q) true → ¬ done i → (admitted.erase c).card < n

theorem limitOf_of_limits {w : World} {q n : Nat} (h : World.Limits w q n) (hn : 0 < n) :
    limitOf (w.findQueue q) = some n := by
  obtain ⟨row, hrow, hq⟩ := (Option.any_eq_true ..).mp h
  simp only [Bool.and_eq_true, decide_eq_true_eq] at hq
  simp [limitOf, World.findQueue, hrow, Option.filter, hq.1, hq.2, hn]

/-- How an answer moves a phase. -/
inductive Turn (p : Phase) (s : Stmt) (r : s.Res) : Phase → Prop
  | stays : Turn p s r p
  | past : Turn p s r .past
  | unqueued (c : Nat) : Turn p s r (.passed c none false)
  | queued (c q : Nat) : Turn p s r (.queued c q)
  | unlimited (c q : Nat) (queue : Option Queue)
      (hs : (⟨s, r⟩ : Sigma Stmt.Res) = ⟨.query (.findQueue q), queue⟩) (hl : limitOf queue = none) :
      Turn p s r (.passed c (some q) false)
  | limited (c q limit : Nat) (queue : Queue)
      (hs : (⟨s, r⟩ : Sigma Stmt.Res) = ⟨.query (.findQueue q), some queue⟩)
      (hl : limitOf (some queue) = some limit) : Turn p s r (.limited c q limit queue)
  | counted (c q limit : Nat) (queue : Queue) (count : Nat) (hp : p = .limited c q limit queue)
      (hs : (⟨s, r⟩ : Sigma Stmt.Res) = ⟨.query (.countOtherActiveCallsInQueue queue.id c), count⟩)
      (hc : count < limit) : Turn p s r (.passed c (some q) true)

theorem turn (p : Phase) (s : Stmt) (r : s.Res) : Turn p s r (next p s r) := by
  unfold next
  split
  · split
    · exact .unqueued _
    · exact .queued _ _
  · rename_i queue
    split
    · exact .stays
    · rename_i hq
      obtain rfl := not_not.mp hq
      split
      · exact .unlimited _ _ _ rfl ‹_›
      · rename_i limit hl
        cases queue with
        | none => cases hl
        | some queue => exact .limited _ _ _ _ rfl hl
  · split
    · rename_i hids
      obtain ⟨rfl, rfl⟩ := hids
      split
      · exact .past
      · exact .counted _ _ _ _ _ rfl rfl (by omega)
    · exact .stays
  · split
    · exact .past
    · exact .stays
  · exact .stays

section move

variable {ι : Type} {q n : Nat} {w : World} {ph : ι → Phase} {done : ι → Prop} {admitted : Finset Nat}
  {i : ι} {s : Stmt}

/-- An accept of a call other than `c` that has counted the queue's calls. -/
def Phase.counting (q c : Nat) : Phase → Bool
  | passed d p counted => counted && p = some q && d ≠ c
  | _ => false

/-- The accept read that its call is in the queue. -/
def Phase.readIn (q : Nat) : Phase → Bool
  | passed _ p _ => p = some q
  | _ => false

namespace Invariant

theorem limits_exec (h : Invariant q n w ph done admitted) : World.Limits (s.exec w).1 q n := by
  unfold World.Limits
  rw [Stmt.exec_queues]
  exact h.limits

variable [DecidableEq ι]

theorem found_turn (h : Invariant q n w ph done admitted) (j : ι) (c p limit : Nat) (queue : Queue)
    (hj : Function.update ph i (next (ph i) s (s.exec w).2) j = .limited c p limit queue) :
    (s.exec w).1.findQueue p = some queue ∧ limitOf (some queue) = some limit := by
  have hsame : (s.exec w).1.findQueue p = w.findQueue p := by
    simp only [World.findQueue, Stmt.exec_queues]
  rw [hsame]
  by_cases hji : j = i
  · subst hji
    rw [Function.update_self] at hj
    have ht := turn (ph j) s (s.exec w).2
    rw [hj] at ht
    generalize hq : ph j = p₀ at ht
    cases ht with
    | stays => exact h.found j c p limit queue hq
    | limited _ _ _ _ hs hl =>
      obtain ⟨rfl, hanswer⟩ := Stmt.answer_of_read hs
      exact ⟨hanswer.symm, hl⟩
  · rw [Function.update_of_ne hji] at hj
    exact h.found j c p limit queue hj

theorem counted_turn (h : Invariant q n w ph done admitted) (hn : 0 < n) (j : ι) (c : Nat) :
    Function.update ph i (next (ph i) s (s.exec w).2) j ≠ .passed c (some q) false := by
  intro hj
  by_cases hji : j = i
  · subst hji
    rw [Function.update_self] at hj
    have ht := turn (ph j) s (s.exec w).2
    rw [hj] at ht
    generalize hq : ph j = p₀ at ht
    cases ht with
    | stays => exact h.counted j c hq
    | unlimited _ _ queue hs hl =>
      obtain ⟨rfl, rfl⟩ := Stmt.answer_of_read hs
      have hlimit := limitOf_of_limits h.limits hn
      rw [show limitOf (w.findQueue q) = none from hl] at hlimit
      cases hlimit
  · rw [Function.update_of_ne hji] at hj
    exact h.counted j c hj

/-- A move that brings no call in the queue. -/
theorem room_turn (h : Invariant q n w ph done admitted) (hn : 0 < n) {done' : ι → Prop}
    (hdone : ∀ j, done j → done' j) (hi : ¬ done i) (j : ι) (c : Nat)
    (hj : Function.update ph i (next (ph i) s (s.exec w).2) j = .passed c (some q) true)
    (hjd : ¬ done' j) : (admitted.erase c).card < n := by
  by_cases hji : j = i
  · subst hji
    rw [Function.update_self] at hj
    have ht := turn (ph j) s (s.exec w).2
    rw [hj] at ht
    generalize hq : ph j = p₀ at ht
    cases ht with
    | stays => exact h.room j c hq hi
    | counted _ _ limit queue count hp hs hc =>
      obtain ⟨rfl, rfl⟩ := Stmt.answer_of_read hs
      obtain ⟨hfound, hlimit⟩ := h.found j c q limit queue (hq.trans hp)
      have hlimits := limitOf_of_limits h.limits hn
      rw [hfound, hlimit] at hlimits
      obtain rfl := Option.some.inj hlimits
      have hid : queue.id = q := by
        simp only [World.findQueue, Option.map_eq_some_iff] at hfound
        obtain ⟨row, -, rfl⟩ := hfound
        rfl
      rw [hid] at hc
      exact (card_erase_le_count h.counts c).trans_lt hc
  · rw [Function.update_of_ne hji] at hj
    exact h.room j c hj fun hd => hjd (hdone j hd)

/-- The calls admitted after the move that brings the calls of `b`. -/
def letIn (w' : World) (q : Nat) (b : Option Nat) (admitted : Finset Nat) : Finset Nat :=
  (admitted ∪ b.toFinset).filter fun c => w'.countsIn q c = true

/-- An accept past its check that brings its call. -/
theorem step_brought (h : Invariant q n w ph done admitted) (hn : 0 < n) {done' : ι → Prop}
    (hdone : ∀ j, done j → done' j) (hi : ¬ done i) {c : Nat} {p : Option Nat} {counted : Bool}
    (hphase : ph i = .passed c p counted) (hread : (ph i).readIn q = true)
    (halone : ∀ j, j ≠ i → (ph j).counting q c = true → done j) :
    Invariant q n (s.exec w).1 (Function.update ph i (next (ph i) s (s.exec w).2)) done'
      (letIn (s.exec w).1 q (some c) admitted) := by
  obtain rfl : p = some q := by simpa [hphase, Phase.readIn] using hread
  obtain rfl : counted = true := by
    cases counted with
    | true => rfl
    | false => exact absurd hphase (h.counted i c)
  have hroom := h.room i c hphase hi
  have hsub : letIn (s.exec w).1 q (some c) admitted ⊆ insert c (admitted.erase c) := by
    intro d hd
    have hmem := (Finset.mem_filter.mp hd).1
    by_cases hdc : d = c
    · exact hdc ▸ Finset.mem_insert_self d _
    · refine Finset.mem_insert_of_mem (Finset.mem_erase.mpr ⟨hdc, ?_⟩)
      simpa [hdc, Ne.symm hdc] using hmem
  have herase : (letIn (s.exec w).1 q (some c) admitted).erase c ⊆ admitted.erase c := by
    intro d hd
    obtain ⟨hne, hd⟩ := Finset.mem_erase.mp hd
    exact Finset.mem_of_mem_insert_of_ne (hsub hd) hne
  refine ⟨h.limits_exec, h.found_turn, h.counted_turn hn, ?_, ?_, ?_⟩
  · exact fun d hd => (Finset.mem_filter.mp hd).2
  · calc _ ≤ (insert c (admitted.erase c)).card := Finset.card_le_card hsub
      _ ≤ (admitted.erase c).card + 1 := Finset.card_insert_le _ _
      _ ≤ n := hroom
  · intro j d hj hjd
    have hdc : d = c := by
      by_cases hji : j = i
      · subst hji
        rw [Function.update_self] at hj
        have ht := turn (ph j) s (s.exec w).2
        rw [hj, hphase] at ht
        cases ht with
        | stays => rfl
        | counted _ _ _ _ _ hp => cases hp
      · rw [Function.update_of_ne hji] at hj
        by_contra hdc
        exact hjd (hdone j (halone j hji (by simp [hj, Phase.counting, hdc])))
    subst hdc
    exact (Finset.card_le_card herase).trans_lt hroom

theorem step_kept (h : Invariant q n w ph done admitted) (hn : 0 < n) {done' : ι → Prop}
    (hdone : ∀ j, done j → done' j) (hi : ¬ done i) {b : Option Nat}
    (hb : ∀ c ∈ b, (s.exec w).1.countsIn q c = false) :
    Invariant q n (s.exec w).1 (Function.update ph i (next (ph i) s (s.exec w).2)) done'
      (letIn (s.exec w).1 q b admitted) := by
  have hsub : letIn (s.exec w).1 q b admitted ⊆ admitted := by
    intro d hd
    obtain ⟨hmem, hcounts⟩ := Finset.mem_filter.mp hd
    rcases Finset.mem_union.mp hmem with hmem | hmem
    · exact hmem
    · rw [hb d (Option.mem_toFinset.mp hmem)] at hcounts
      cases hcounts
  refine ⟨h.limits_exec, h.found_turn, h.counted_turn hn, ?_, ?_, ?_⟩
  · exact fun d hd => (Finset.mem_filter.mp hd).2
  · exact (Finset.card_le_card hsub).trans h.le
  · intro j d hj hjd
    exact (Finset.card_le_card (Finset.erase_subset_erase d hsub)).trans_lt
      (h.room_turn hn hdone hi j d hj hjd)

end Invariant

end move

/-! ## Runs -/

section runs

variable {ι : Type} [DecidableEq ι]

abbrev phases (hs : ι → Handler) (s : Service ι) : ι → Phase :=
  protocol.phases (fun i => start (hs i)) s

variable (w : World) (hs : ι → Handler) (schedule : List ι) (q : Nat)

abbrev after (k : Nat) : Service ι := (Service.spawn w hs).after schedule k

/-- The call that move `k` brings to IN_PROGRESS/ACTIVE by its accept. -/
def brought (k : Nat) : Option Nat :=
  schedule[k]?.bind fun i =>
    match hs i with
    | .agentJoined a =>
      if !(after w hs schedule k).state.talks a.callId &&
          (after w hs schedule (k + 1)).state.talks a.callId then some a.callId
      else none
    | _ => none

/-- The calls that an accept brought to IN_PROGRESS/ACTIVE in the queue and that
have counted toward it since. -/
def admitted : Nat → Finset Nat
  | 0 => ∅
  | k + 1 => Invariant.letIn (after w hs schedule (k + 1)).state q (brought w hs schedule k) (admitted k)

/-- A call is brought to IN_PROGRESS/ACTIVE in the queue its accept read it in,
and no other accept of the queue is between its count and its end. -/
def Sound (k : Nat) (i : ι) : Prop :=
  ∀ c ∈ brought w hs schedule k, (after w hs schedule k).state.inQueue q c = true →
    (phases hs (after w hs schedule k) i).readIn q = true ∧
      ∀ j, j ≠ i → (phases hs (after w hs schedule k) j).counting q c = true →
        ((after w hs schedule k).threads j).Finished

instance [Fintype ι] (k : Nat) (i : ι) : Decidable (Sound w hs schedule q k i) :=
  inferInstanceAs (Decidable (∀ c ∈ brought w hs schedule k, _ → _ ∧ ∀ _, _ → _ → _))

variable {w hs schedule q}

theorem brought_eq_some {k c : Nat} {i : ι} (hi : schedule[k]? = some i)
    (h : c ∈ brought w hs schedule k) :
    ∃ a, hs i = .agentJoined a ∧ c = a.callId ∧ (after w hs schedule k).state.talks c = false ∧
      (after w hs schedule (k + 1)).state.talks c = true := by
  simp only [brought, hi, Option.bind_some] at h
  split at h
  · rename_i a ha
    split at h
    · rename_i htalks
      obtain rfl : a.callId = c := by simpa using h
      simp only [Bool.and_eq_true, Bool.not_eq_true'] at htalks
      exact ⟨a, ha, rfl, htalks⟩
    · cases h
  · cases h

omit [DecidableEq ι] in
theorem phase_ne_other (c : Nat) (seen : History Stmt.Res) :
    protocol.phase (.fresh c) seen ≠ .other := by
  induction seen with
  | nil => nofun
  | cons answered seen ih =>
    obtain ⟨s, r⟩ := answered
    intro h
    have ht := turn (protocol.phase (.fresh c) seen) s r
    rw [show next (protocol.phase (.fresh c) seen) s r = .other from h] at ht
    generalize hq : protocol.phase (.fresh c) seen = p at ht
    cases ht with
    | stays => exact ih hq

omit [DecidableEq ι] in
theorem inQueue_of_countsIn {s : Stmt} {u : CallUpdate} {c : Nat} (hs : s = .updateCall c u)
    (hu : brings u = true) (h : (s.exec w).1.countsIn q c = true) : w.inQueue q c = true := by
  obtain ⟨row', hrow', hcounts⟩ := (Option.any_eq_true ..).mp h
  have hqueue : row'.queueId = some q := by
    simp only [Bool.and_eq_true, decide_eq_true_eq] at hcounts
    exact hcounts.1
  rcases Stmt.onCall w c s with hsame | ⟨v, row, hv, hrow, -, hset⟩ | ⟨row, hv, -, -⟩ |
    ⟨row, _, hv, -, -⟩ | ⟨_, _, row, hv, -, -, -, -⟩
  · exact (Option.any_eq_true ..).mpr ⟨row', hsame ▸ hrow', by simpa using hqueue⟩
  · rw [hs] at hv
    cases hv
    rw [hset] at hrow'
    cases hrow'
    refine (Option.any_eq_true ..).mpr ⟨row, hrow, decide_eq_true ?_⟩
    cases u with
    | updateCallState state status => cases status <;> exact hqueue
    | updateStatus | transitionStatus | updateState => exact hqueue
    | _ => cases hu
  all_goals
    rw [hs] at hv
    cases hv

/-- An accept that brings its call is past its check, and the call is where it was. -/
theorem passed_of_brought {k c : Nat} {i : ι} {s : Stmt} (hi : schedule[k]? = some i)
    (hal : allows (phases hs (after w hs schedule k) i) s)
    (hstate : (after w hs schedule (k + 1)).state = (s.exec (after w hs schedule k).state).1)
    (hc : c ∈ brought w hs schedule k)
    (hcounts : (after w hs schedule (k + 1)).state.countsIn q c = true) :
    (∃ p counted, phases hs (after w hs schedule k) i = .passed c p counted) ∧
      (after w hs schedule k).state.inQueue q c = true := by
  obtain ⟨a, ha, -, hbefore, hafter⟩ := brought_eq_some hi hc
  have hother : phases hs (after w hs schedule k) i ≠ .other := by
    intro h
    simp only [phases, Protocol.phases, ha, start] at h
    exact phase_ne_other _ _ h
  rw [hstate] at hafter hcounts
  rcases talks_exec hafter with htalks | ⟨u, rfl, hu⟩ | ⟨row, rfl⟩
  · rw [hbefore] at htalks
    cases htalks
  · exact ⟨(hal.resolve_left hother) hu, inQueue_of_countsIn rfl hu hcounts⟩
  · exact absurd hal hother

/-- No accept is past its check when a run begins. -/
theorem init (hlimit : World.Limits w q n) :
    Invariant q n w (fun i => start (hs i)) (fun i => ((after w hs schedule 0).threads i).Finished) ∅ := by
  have hstart : ∀ i, (∃ c, start (hs i) = .fresh c) ∨ start (hs i) = .other := by
    intro i
    cases hs i with
    | agentJoined a => exact .inl ⟨a.callId, rfl⟩
    | _ => exact .inr rfl
  refine ⟨hlimit, fun i c p limit queue h => ?_, fun i c h => ?_, nofun, Nat.zero_le n, fun i c h => ?_⟩
  all_goals
    rcases hstart i with ⟨d, hd⟩ | hd <;> rw [hd] at h <;> cases h

theorem succ {k : Nat} {i : ι} (hn : 0 < n) (hi : schedule[k]? = some i) (hok : Sound w hs schedule q k i)
    (hconforms : protocol.Conforms (fun _ => True) (fun i => start (hs i)) (after w hs schedule k))
    (h : Invariant q n (after w hs schedule k).state (phases hs (after w hs schedule k))
      (fun i => ((after w hs schedule k).threads i).Finished) (admitted w hs schedule q k)) :
    Invariant q n (after w hs schedule (k + 1)).state (phases hs (after w hs schedule (k + 1)))
      (fun i => ((after w hs schedule (k + 1)).threads i).Finished)
      (admitted w hs schedule q (k + 1)) := by
  have hdone : ∀ j, ((after w hs schedule k).threads j).Finished →
      ((after w hs schedule (k + 1)).threads j).Finished := by
    intro j hj
    show ((Concurrency.run Stmt.exec _ (schedule.take (k + 1))).threads j).Finished
    rw [run_take_succ Stmt.exec hi]
    exact hj.step Stmt.exec _
  obtain ⟨-, ⟨hnone, hsame⟩ | ⟨s, hnext, hallows, hstate, hphases⟩⟩ := Service.after_succ hi hconforms
  · have hsame : after w hs schedule (k + 1) = after w hs schedule k := hsame
    have hbrought : brought w hs schedule k = none := by
      cases hb : brought w hs schedule k with
      | none => rfl
      | some c =>
        obtain ⟨_, _, _, hbefore, hafter⟩ := brought_eq_some hi hb
        rw [hsame, hbefore] at hafter
        cases hafter
    have hkept : admitted w hs schedule q (k + 1) = admitted w hs schedule q k := by
      rw [admitted, hbrought, hsame, Invariant.letIn, Option.toFinset_none, Finset.union_empty]
      exact Finset.filter_true_of_mem h.counts
    rwa [hkept, hsame]
  · have hrun : ¬ ((after w hs schedule k).threads i).Finished := by
      intro hf
      rw [Service.next_eq, Config.next_of_finished hf] at hnext
      cases hnext
    rw [phases, hphases, admitted, hstate]
    by_cases hb : ∃ c ∈ brought w hs schedule k,
        (s.exec (after w hs schedule k).state).1.countsIn q c = true
    · obtain ⟨c, hc, hcounts⟩ := hb
      obtain ⟨⟨p, counted, hphase⟩, hwaits⟩ := passed_of_brought hi hallows hstate hc (hstate ▸ hcounts)
      obtain ⟨hread, halone⟩ := hok c hc hwaits
      rw [Option.mem_def.mp hc]
      exact h.step_brought hn hdone hrun hphase hread halone
    · refine h.step_kept hn hdone hrun fun c hc => ?_
      by_contra hcounts
      exact hb ⟨c, hc, by simpa using hcounts⟩

/-- As long as no two accepts of the queue overlap and no call changes queue
under its accept, the limit holds. -/
theorem admitted_card_le (w : World) (hs : ι → Handler) (schedule : List ι) (q n : Nat)
    (hlimit : World.Limits w q n) (hn : 0 < n)
    (hok : ∀ k, (hk : k < schedule.length) → Sound w hs schedule q k schedule[k]) :
    ∀ k ≤ schedule.length, (admitted w hs schedule q k).card ≤ n := by
  have hinv : ∀ k ≤ schedule.length,
      protocol.Conforms (fun _ => True) (fun i => start (hs i)) (after w hs schedule k) ∧
        Invariant q n (after w hs schedule k).state (phases hs (after w hs schedule k))
          (fun i => ((after w hs schedule k).threads i).Finished) (admitted w hs schedule q k) := by
    intro k
    induction k with
    | zero => exact fun _ => ⟨Protocol.conforms_spawn fun i => follows (hs i), init hlimit⟩
    | succ k ih =>
      intro hk
      obtain ⟨hconforms, h⟩ := ih (by omega)
      have hi : schedule[k]? = some schedule[k] := List.getElem?_eq_getElem hk
      exact ⟨(Service.after_succ hi hconforms).1, succ hn hi (hok k hk) hconforms h⟩
  exact fun k hk => (hinv k hk).2.le

end runs

/-! ## Two accepts of a queue for one call -/

def waitingCall : CallRow :=
  { direction := .inbound, status := .ringing, queueId := some 1, ringingAt := some 0,
    queuedAt := some 0 }

/-- Calls 1 and 2 ring everyone in queue 1, which takes one call at a time. -/
def ringingAll : World :=
  { calls := .ofList [fun _ => waitingCall, fun _ => waitingCall],
    agents := .ofList [fun _ => {}, fun _ => {}],
    queues := fun q => if q = 1 then some { strategy := .ringAll, maxActiveCalls := some 1 } else none,
    members := fun _ => [1, 2], customerOffer := fun _ => true,
    rooms := fun _ => { legSeq := 1, pendingAgent := some 1 } }

def twoAccepts : Fin 2 → Handler
  | 0 => .agentJoined { callId := 1, userId := 1, sdpAnswer := .answer 1 }
  | 1 => .agentJoined { callId := 2, userId := 2, sdpAnswer := .answer 1 }

/-- The second accept finds the queue at its limit. -/
theorem admitted_card_le_oneByOne :
    (admitted ringingAll twoAccepts (List.replicate 20 0 ++ List.replicate 8 1) 1 28).card ≤ 1 :=
  admitted_card_le ringingAll twoAccepts _ 1 1 rfl (by decide) (by decide) 28 (by decide)

/-- Both accepts count the queue's calls before either brings its own. -/
theorem not_admitted_card_le :
    ¬ ∀ (w : World) (hs : Fin 2 → Handler) (schedule : List (Fin 2)) (q n : Nat),
      World.Limits w q n → 0 < n → ∀ k ≤ schedule.length, (admitted w hs schedule q k).card ≤ n := by
  intro h
  have hle := h ringingAll twoAccepts
    (List.replicate 4 0 ++ List.replicate 18 1 ++ List.replicate 15 0) 1 1 rfl (by decide) 37 (by decide)
  exact absurd hle (by decide)

end QueueCapacity

end Callio
