import Mathlib
import Callio.Conduct.Handlers
import Callio.Persistence.Effects

/-! The overflow of calls that waited too long. With one scan at a time, the
count a scan read of a call is still the row's when the call's turn comes, so
the hops of a call are bounded over any graph of queues; and each wait a scan
takes up, of a row nobody has changed, moves the call on or ends it. -/

namespace Callio.Overflow

open Concurrency Code

/-! ## The scan as a protocol -/

/-- A call whose wait was over, with its queue's overflow queue. -/
abbrev Wait := Call × Option Nat

inductive Phase
  /-- A scan that has not read the waits. -/
  | ticking
  /-- It has read `scan`, and `pending` are yet to be taken up. -/
  | waits (scan pending : List Wait)
  | other
  deriving DecidableEq

def isTick : Handler → Bool
  | .queueTimeoutTick _ => true
  | _ => false

def start (h : Handler) : Phase := if isTick h then .ticking else .other

/-- The update that takes up a wait: the move, or the end. -/
def takesUp : CallUpdate → Bool
  | .overflowToQueue _ _ _ | .terminateCallIfNotTerminated _ _ _ (some .ringing) => true
  | _ => false

def next : Phase → (s : Stmt) → s.Res → Phase
  | .ticking, .query .findExpiredWaits, waits => .waits waits waits
  | .waits scan (wait :: rest), .updateCall c u, _ =>
      if wait.1.id = c ∧ takesUp u then .waits scan rest else .waits scan (wait :: rest)
  | p, _, _ => p

/-- A call overflows only as its turn comes, from the queue and the offer the
scan read, and with a hop left. -/
def allows (p : Phase) : Stmt → Prop
  | .updateCall c (.overflowToQueue source _ offered) => ∃ scan call overflowQueueId rest,
      p = .waits scan ((call, overflowQueueId) :: rest) ∧ call.id = c ∧ call.queueId = some source ∧
        call.agentId = offered ∧ call.overflowCount < maxOverflows
  | .query .findExpiredWaits => p = .ticking
  | _ => True

/-- Where a handler may finish. -/
def Done : Phase → Prop
  | .ticking => False
  | .waits _ pending => pending = []
  | .other => True

abbrev protocol : Protocol Stmt.Res := ⟨Phase, next, allows⟩

/-! ## Handlers -/

/-- The statement neither reads the waits nor moves a call. -/
def Plain (s : Stmt) : Prop :=
  s ≠ .query .findExpiredWaits ∧ ∀ c source target offered, s ≠ .updateCall c (.overflowToQueue source target offered)

theorem allows_of_plain {p : Phase} {s : Stmt} (hs : Plain s) : allows p s := by
  unfold allows
  split
  · exact absurd rfl (hs.2 _ _ _ _)
  · exact absurd rfl hs.1
  · trivial

/-- Nothing is to be taken up. -/
def Still : Phase → Prop
  | .waits _ (_ :: _) => False
  | _ => True

theorem keeps_still {p : Phase} (hp : Still p) {s : Stmt} (hs : Plain s) : protocol.Keeps (· = p) s := by
  rintro _ rfl
  refine ⟨allows_of_plain hs, fun r => ?_⟩
  show next _ s r = _
  unfold next
  split
  · exact absurd rfl hs.1
  · cases hp
  · rfl

/-- A plain statement that takes up no wait leaves the pending ones. -/
theorem keeps_waits (p : Phase) {s : Stmt} (hs : Plain s)
    (hu : ∀ c u, s = .updateCall c u → takesUp u = false) : protocol.Keeps (· = p) s := by
  rintro _ rfl
  refine ⟨allows_of_plain hs, fun r => ?_⟩
  show next _ s r = _
  unfold next
  split
  · exact absurd rfl hs.1
  · rw [if_neg]
    rintro ⟨-, htakes⟩
    rw [hu _ _ rfl] at htakes
    cases htakes
  · rfl

theorem plain_of_has {v : Vocabulary} {s : Stmt} (h : v.Has s) (hv : v ≠ .withdrawing) : Plain s := by
  constructor
  · rintro rfl
    cases v <;> simp_all
  · rintro c source target offered rfl
    cases v <;> simp_all

theorem plain_of_passingOn {s : Stmt} (h : s.PassingOn) : Plain s := by
  constructor
  · rintro rfl
    cases h
  · rintro c source target offered rfl
    cases h

theorem plain_of_routing {s : Stmt} (h : s.Routing ∨ s.Offering) : Plain s :=
  h.elim (fun h => plain_of_has (v := .routing) h nofun) fun h => plain_of_has (v := .offering) h nofun

section still

variable {p : Phase} (hp : Still p)
include hp

theorem routes_still : Routes protocol (· = p) := .of_keeps fun _ h => keeps_still hp (plain_of_routing h)

theorem ends_still : Ends protocol (· = p) :=
  .of_keeps (routes_still hp) fun _ h => keeps_still hp (plain_of_has (v := .ending) h nofun)

theorem passOffer_stays (call : Call) (agentId : Nat) (kind : OfferHistory.Kind) (expiredBefore : Option Nat) :
    (passOffer call agentId kind expiredBefore).Stays protocol (· = p) :=
  Callio.passOffer_stays (routes_still hp) (fun _ _ => keeps_still hp ⟨nofun, nofun⟩)
    (fun _ hs => keeps_still hp (plain_of_passingOn hs)) (keeps_still hp ⟨nofun, nofun⟩)

end still

/-- Beside the waits' own statements, whatever is pending stays. -/
theorem seeks_waits (p : Phase) : Seeks protocol (· = p) := by
  refine .of_keeps fun s hs => keeps_waits p ?_ ?_
  · exact plain_of_routing (hs.imp_left fun hs => s.routing_iff.mpr (.inl hs))
  · rintro c u rfl
    rcases hs with hs | hs <;> cases hs

theorem keeps_settling (p : Phase) {s : Stmt} (hs : s.Settling) : protocol.Keeps (· = p) s := by
  refine keeps_waits p (plain_of_has (v := .ending) hs.ending nofun) ?_
  rintro c u rfl
  cases hs

/-- One wait, from its turn to the next one's. -/
theorem waitExpired_takes (scan rest : List Wait) (call : Call) (overflowQueueId : Option Nat) :
    (waitExpired call overflowQueueId).Takes protocol
      (· = .waits scan ((call, overflowQueueId) :: rest)) (· = .waits scan rest) := by
  refine Callio.waitExpired_takes (seeks_waits _) call overflowQueueId ?_ ?_
  · intro hcount queueId hqueue toQueueId
    have hmove : (update call.id (.overflowToQueue queueId toQueueId call.agentId)).Takes protocol
        (· = .waits scan ((call, overflowQueueId) :: rest)) (· = .waits scan rest) := by
      rintro _ rfl
      refine ⟨⟨scan, call, overflowQueueId, rest, rfl, rfl, hqueue, rfl, hcount⟩, fun _ => ?_⟩
      exact if_pos ⟨rfl, rfl⟩
    refine hmove.bind fun _ => .ite (fun _ => ?_) fun _ => Prog.stays_ret _
    refine callOverflowed_stays (seeks_waits _) (fun s hs => keeps_waits _ (plain_of_passingOn hs.passingOn) ?_) call toQueueId
    rintro c u rfl
    cases hs
  · refine endCall_takes (seeks_waits _) (fun _ => keeps_settling _) nofun ?_
    rintro _ rfl
    exact ⟨trivial, fun _ => if_pos ⟨rfl, rfl⟩⟩

theorem expireWaitsOf_takes (scan waits : List Wait) :
    (expireWaitsOf waits).Takes protocol (· = .waits scan waits) (· = .waits scan []) := by
  induction waits with
  | nil => exact Prog.stays_ret _
  | cons wait rest ih => exact (waitExpired_takes scan rest wait.1 wait.2).bind fun _ => ih

theorem queueTimeoutTick_takes (seconds : Nat) :
    (queueTimeoutTick seconds).Takes protocol (· = .ticking) fun (p : Phase) => ∃ scan, p = .waits scan [] := by
  have hticking : Still .ticking := trivial
  have hoffers : expireOffers.Stays protocol (· = .ticking) := by
    refine .bind ((routes_still hticking).read .findExpiredOffers trivial) fun calls =>
      expireOffersOf_stays fun call _ => ?_
    exact expireOffer_stays fun agentId _ => passOffer_stays hticking _ _ _ _
  have hwaits : expireWaits.Takes protocol (· = .ticking) fun (p : Phase) => ∃ scan, p = .waits scan [] := by
    rintro _ rfl
    refine (Prog.follows_cmd_bind _ _ _ _).mpr ⟨rfl, fun waits => ?_⟩
    exact (expireWaitsOf_takes waits waits _ rfl).mono fun _ _ hp => ⟨waits, hp⟩
  refine hoffers.bind fun _ => hwaits.bind fun _ => ?_
  rintro _ ⟨scan, rfl⟩
  have hstill : Still (.waits scan []) := trivial
  have hhandovers : (expireHandovers seconds).Stays protocol (· = .waits scan []) := by
    refine .bind ((routes_still hstill).read (.findExpiredHandovers seconds) trivial) fun calls =>
      expireHandoversOf_stays fun call _ => ?_
    exact handoverExpired_stays (fun _ _ _ => keeps_still hstill ⟨nofun, nofun⟩)
      (fun _ _ _ => keeps_still hstill ⟨nofun, nofun⟩) call (fun _ => passOffer_stays hstill _ _ _ _)
      ((ends_still hstill).endCall _ _)
  exact (hhandovers _ rfl).mono fun _ _ hp => ⟨scan, hp⟩

/-- Every handler follows the protocol, and a scan that is done has taken up all
it read. -/
theorem follows (h : Handler) : h.code.Follows protocol (start h) fun _ => Done := by
  have hstill : Still .other := trivial
  have hother (hv : .withdrawing ∉ h.vocabulary) : h.code.Follows protocol .other fun _ => Done := by
    refine (h.code_stays (Q := (· = Phase.other)) (routes_still hstill)
      (fun s hs => keeps_still hstill (plain_of_has (v := .ending) hs nofun))
      (fun _ a => keeps_still (s := .incrementMissed a) hstill ⟨nofun, nofun⟩)
      (fun v hm s hs => keeps_still hstill (plain_of_has hs ?_)) _ rfl).mono ?_
    · rintro rfl
      exact hv hm
    · rintro _ _ rfl
      trivial
  cases h with
  | queueTimeoutTick seconds =>
    refine (queueTimeoutTick_takes seconds _ rfl).mono ?_
    rintro _ _ ⟨scan, rfl⟩
    rfl
  | callRejected c u =>
    refine (handleCallRejected_stays (ends_still hstill) (fun _ _ => passOffer_stays hstill _ _ _ _)
      (fun _ _ => keeps_still hstill ⟨nofun, nofun⟩) (fun _ _ => keeps_still hstill ⟨nofun, nofun⟩)
      (fun _ _ => keeps_still hstill ⟨nofun, nofun⟩) (fun _ _ => keeps_still hstill ⟨nofun, nofun⟩) c u _ rfl).mono ?_
    rintro _ _ rfl
    trivial
  | inboundCall line offer outcome =>
    refine hother ?_
    simp only [Handler.vocabulary]
    split <;> simp
  | statusChanged line p status t =>
    refine hother ?_
    simp only [Handler.vocabulary]
    split <;> simp
  | _ => exact hother (by simp [Handler.vocabulary])

/-! ## Rows -/

/-- Nobody has claimed the call by accepting it. -/
def Unanswered (row : CallRow) : Prop := row.agentId = none ∨ row.offeredAt.isSome

/-- What the scan's clause says of a row. -/
theorem of_findExpiredWaits {w : World} {row : CallRow} (h : (findExpiredWaits w row).holds = true) :
    row.status = .ringing ∧ row.direction = .inbound ∧ Unanswered row := by
  simp only [findExpiredWaits, Sql.Truth.holds_and, Sql.Truth.holds_or, holds_statusIs,
    holds_directionIs, Sql.holds_isNull, Sql.holds_isNotNull, Bool.and_eq_true, Bool.or_eq_true,
    decide_eq_true_eq, Option.isNone_iff_eq_none] at h
  exact ⟨h.1.1.1.1.1, h.1.1.1.1.2, h.1.1.2⟩

/-- The rows a scan reads are in the table, each once. -/
theorem mem_answer {w : World} {wait : Wait} (h : wait ∈ Query.findExpiredWaits.answer w) :
    w.call wait.1.id = some wait.1.toCallRow ∧ (findExpiredWaits w wait.1.toCallRow).holds = true := by
  obtain ⟨call, hcall, rfl⟩ := List.mem_map.mp h
  exact World.mem_selectCalls.mp ((List.mem_insertionSort _).mp (List.mem_of_mem_take hcall))

theorem answer_nodup (w : World) : ((Query.findExpiredWaits.answer w).map (·.1.id)).Nodup := by
  have hsorted := (List.perm_insertionSort (fun a b : Call => (a.queuedAt).getD 0 ≤ (b.queuedAt).getD 0)
    (w.selectCalls fun c => (findExpiredWaits w c.toCallRow).holds)).map (·.id)
  have hnodup := hsorted.nodup_iff.mpr (w.selectCalls_nodup _)
  simp only [Query.answer, List.map_map, World.orderBy]
  exact hnodup.sublist ((List.take_sublist ..).map _)

/-- An expired wait is read, or fifty others are. -/
theorem mem_answer_of_expired {w : World} {c : Nat} {row : CallRow} (hrow : w.call c = some row)
    (h : (findExpiredWaits w row).holds = true) :
    (∃ wait ∈ Query.findExpiredWaits.answer w, wait.1 = { row with id := c }) ∨
      (Query.findExpiredWaits.answer w).length = 50 := by
  have hmem : ({ row with id := c } : Call) ∈ w.selectCalls fun c => (findExpiredWaits w c.toCallRow).holds :=
    World.mem_selectCalls.mpr ⟨hrow, h⟩
  have hsorted := (List.mem_insertionSort fun a b : Call => (a.queuedAt).getD 0 ≤ (b.queuedAt).getD 0).mpr hmem
  simp only [Query.answer, World.orderBy, List.length_map, List.length_take, List.mem_map]
  by_cases hlen : (List.insertionSort (fun a b : Call => (a.queuedAt).getD 0 ≤ (b.queuedAt).getD 0)
      (w.selectCalls fun c => (findExpiredWaits w c.toCallRow).holds)).length ≤ 50
  · rw [List.take_of_length_le hlen]
    exact .inl ⟨_, ⟨_, hsorted, rfl⟩, rfl⟩
  · exact .inr (by omega)

/-- Only an overflow changes the count of a row. -/
theorem overflowCount_set {u : CallUpdate} (hu : ∀ source target offered, u ≠ .overflowToQueue source target offered)
    (now : Nat) (row : CallRow) : (u.set now row).overflowCount = row.overflowCount := by
  cases u with
  | overflowToQueue source target offered => exact absurd rfl (hu source target offered)
  | updateCallState state status => cases status <;> rfl
  | updateTimestamp field value => cases field <;> rfl
  | _ => rfl

/-- The statement moves the call to another queue. -/
def hops (w : World) (c : Nat) : Stmt → Bool
  | .updateCall d (.overflowToQueue source target offered) =>
      d = c && (w.call c).any (CallUpdate.overflowToQueue source target offered).guard
  | _ => false

theorem hops_iff {w : World} {c : Nat} {s : Stmt} :
    hops w c s = true ↔ ∃ source target offered row, s = .updateCall c (.overflowToQueue source target offered) ∧
      w.call c = some row ∧ (CallUpdate.overflowToQueue source target offered).guard row = true := by
  constructor
  · intro h
    unfold hops at h
    split at h
    · rename_i d source target offered
      simp only [Bool.and_eq_true, decide_eq_true_eq] at h
      obtain ⟨rfl, hany⟩ := h
      obtain ⟨row, hrow, hg⟩ := (Option.any_eq_true ..).mp hany
      exact ⟨source, target, offered, row, rfl, hrow, hg⟩
    · cases h
  · rintro ⟨source, target, offered, row, rfl, hrow, hg⟩
    simp [hops, hrow, hg]

/-- A row stays, and its count with it unless the call hops. -/
theorem count_exec {w : World} {c : Nat} {row : CallRow} (hrow : w.call c = some row) (s : Stmt) :
    ∃ row', (s.exec w).1.call c = some row' ∧
      row'.overflowCount = row.overflowCount + if hops w c s = true then 1 else 0 := by
  have hno : ∀ row', (s.exec w).1.call c = some row' → hops w c s = false →
      row'.overflowCount = row.overflowCount → ∃ row', (s.exec w).1.call c = some row' ∧
        row'.overflowCount = row.overflowCount + if hops w c s = true then 1 else 0 := by
    intro row' hrow' hhops hcount
    exact ⟨row', hrow', by simp [hhops, hcount]⟩
  rcases Stmt.onCall w c s with hsame | ⟨u, row₁, rfl, hrow₁, hg, hset⟩ | ⟨row₁, -, hnone, -⟩ |
    ⟨row₁, d, rfl, hrow₁, hset⟩ | ⟨a, shift, row₁, rfl, hrow₁, -, -, hset⟩
  · refine hno row (hsame.trans hrow) ?_ rfl
    rw [← Bool.not_eq_true, hops_iff]
    rintro ⟨source, target, offered, row₁, rfl, hrow₁, hg⟩
    rw [Stmt.exec_updateCall hrow₁ hg, hrow₁] at hsame
    have hcount := congrArg CallRow.overflowCount (Option.some.inj hsame)
    simp [CallUpdate.set] at hcount
  · obtain rfl : row = row₁ := Option.some.inj (hrow.symm.trans hrow₁)
    by_cases hu : ∃ source target offered, u = .overflowToQueue source target offered
    · obtain ⟨source, target, offered, rfl⟩ := hu
      have hhops : hops w c (.updateCall c (.overflowToQueue source target offered)) = true :=
        hops_iff.mpr ⟨_, _, _, row, rfl, hrow, hg⟩
      exact ⟨_, hset, by simp [hhops, CallUpdate.set]⟩
    · refine hno _ hset ?_ (overflowCount_set (fun a b o h => hu ⟨a, b, o, h⟩) _ _)
      rw [← Bool.not_eq_true, hops_iff]
      rintro ⟨source, target, offered, -, hs, -⟩
      exact hu ⟨source, target, offered, by injection hs⟩
  · rw [hnone] at hrow
    cases hrow
  all_goals
    obtain rfl : row = row₁ := Option.some.inj (hrow.symm.trans hrow₁)
    exact hno _ hset rfl rfl

/-! ## Runs -/

section runs

variable {ι : Type} [DecidableEq ι] (hs : ι → Handler) (w : World) (schedule : List ι)

abbrev after (k : Nat) : Service ι := (Service.spawn w hs).after schedule k

abbrev phases (s : Service ι) : ι → Phase := protocol.phases (fun i => start (hs i)) s

/-- While a scan is at work, no other has begun and not finished. -/
def OneScan (k : Nat) (i : ι) : Prop :=
  isTick (hs i) = true → ∀ j, j ≠ i → isTick (hs j) = true →
    ((after hs w schedule k).threads j).seen.isEmpty = true ∨ ((after hs w schedule k).threads j).Finished

instance [Fintype ι] (k : Nat) (i : ι) : Decidable (OneScan hs w schedule k i) :=
  inferInstanceAs (Decidable (_ → ∀ _, _))

/-- Move `k` moves the call to another queue. -/
def hopsAt (c k : Nat) : Bool :=
  (schedule[k]?.bind (after hs w schedule k).next).any (hops (after hs w schedule k).state c)

/-- How often the call has overflowed. -/
def hopCount (c k : Nat) : Nat := ((Finset.range k).filter fun m => hopsAt hs w schedule c m = true).card

/-- What the scan of thread `i` read. -/
def scanned (s : Service ι) (i : ι) : List Wait :=
  match phases hs s i with
  | .waits scan _ => scan
  | _ => []

/-- At move `k` the scan of thread `i` takes up the wait: it moves the call, or
ends it. -/
def TakesUp (k : Nat) (i : ι) (wait : Wait) : Prop :=
  schedule[k]? = some i ∧ (∃ scan rest, phases hs (after hs w schedule k) i = .waits scan (wait :: rest)) ∧
    ∃ u, (after hs w schedule k).next i = some (.updateCall wait.1.id u) ∧ takesUp u = true

/-- A scan takes up an expired wait of the call, whose row is as the scan read
it: nobody has taken the call since. -/
def Expires (c k : Nat) : Prop :=
  ∃ i wait, TakesUp hs w schedule k i wait ∧ wait.1.id = c ∧
    (after hs w schedule k).state.call c = some wait.1.toCallRow

def EndsAt (c k : Nat) : Prop :=
  ∃ row, (after hs w schedule (k + 1)).state.call c = some row ∧ row.ended = true

/-- Overflow, over a whole run. -/
structure Bounded : Prop where
  /-- Each call overflows at most `MAX_OVERFLOWS` times. -/
  hops_le : ∀ c k, hopCount hs w schedule c k ≤ maxOverflows
  /-- A hop is of a call in the queue the scan read, whose agent has not accepted
  it, and restarts its wait in the new queue. -/
  hop : ∀ k i c source target offered row, schedule[k]? = some i →
    (after hs w schedule k).next i = some (.updateCall c (.overflowToQueue source target offered)) →
    (after hs w schedule k).state.call c = some row →
    (CallUpdate.overflowToQueue source target offered).guard row = true →
    (∃ wait ∈ scanned hs (after hs w schedule k) i, wait.1.id = c ∧ row.queueId = wait.1.queueId) ∧
      Unanswered row ∧ ∃ row', (after hs w schedule (k + 1)).state.call c = some row' ∧
        row'.queueId = some target ∧ row'.queuedAt = some (sqlNow (after hs w schedule k).state.now)
  /-- An expired wait is read by the next scan, or fifty others are. -/
  found : ∀ k c row, (after hs w schedule k).state.call c = some row →
    (findExpiredWaits (after hs w schedule k).state row).holds = true →
    (∃ wait ∈ Query.findExpiredWaits.answer (after hs w schedule k).state, wait.1 = { row with id := c }) ∨
      (Query.findExpiredWaits.answer (after hs w schedule k).state).length = 50
  /-- A scan that has finished has taken up every wait it read. -/
  taken : ∀ k i, ((after hs w schedule k).threads i).Finished →
    ∀ wait ∈ scanned hs (after hs w schedule k) i, ∃ m < k, TakesUp hs w schedule m i wait
  /-- An expired wait of a call nobody takes moves it on or ends it. -/
  expires : ∀ c k, Expires hs w schedule c k → EndsAt hs w schedule c k ∨ hopsAt hs w schedule c k = true
  /-- Among `MAX_OVERFLOWS + 1` waits of a call nobody takes, one ends it. -/
  ended : ∀ c (ks : Finset Nat), ks.card = maxOverflows + 1 → (∀ k ∈ ks, Expires hs w schedule c k) →
    ∃ k ∈ ks, EndsAt hs w schedule c k

/-! ### One move -/

structure Invariant (k : Nat) : Prop where
  conforms : protocol.Conforms Done (fun i => start (hs i)) (after hs w schedule k)
  nodup : ∀ i scan pending, phases hs (after hs w schedule k) i = .waits scan pending →
    (pending.map (·.1.id)).Nodup
  /-- The count a scan read of a call is still its row's. -/
  count : ∀ i scan pending, phases hs (after hs w schedule k) i = .waits scan pending →
    ∀ wait ∈ pending, ∃ row, (after hs w schedule k).state.call wait.1.id = some row ∧
      row.overflowCount = wait.1.overflowCount
  read : ∀ i scan pending, phases hs (after hs w schedule k) i = .waits scan pending →
    pending ⊆ scan ∧ ∀ wait ∈ scan, wait.1.status = .ringing ∧ wait.1.direction = .inbound ∧
      Unanswered wait.1.toCallRow
  taken : ∀ i scan pending, phases hs (after hs w schedule k) i = .waits scan pending →
    ∀ wait ∈ scan, wait ∈ pending ∨ ∃ m < k, TakesUp hs w schedule m i wait
  le_row : ∀ c, hopCount hs w schedule c k ≤
    ((after hs w schedule k).state.call c).elim 0 (·.overflowCount)
  le_max : ∀ c, hopCount hs w schedule c k ≤ maxOverflows

/-- How a phase comes to have waits pending. -/
inductive Turn (p : Phase) (s : Stmt) (r : s.Res) (scan pending : List Wait) : Prop
  | stays (hp : p = .waits scan pending)
      (hu : ∀ wait rest, pending = wait :: rest → ∀ u, s = .updateCall wait.1.id u → takesUp u = false)
  | read (hp : p = .ticking) (hs : (⟨s, r⟩ : Sigma Stmt.Res) = ⟨.query .findExpiredWaits, scan⟩)
      (hpending : pending = scan)
  | takes (wait : Wait) (u : CallUpdate) (hp : p = .waits scan (wait :: pending))
      (hs : s = .updateCall wait.1.id u) (hu : takesUp u = true)

theorem turn {p : Phase} {s : Stmt} {r : s.Res} {scan pending : List Wait}
    (h : next p s r = .waits scan pending) : Turn p s r scan pending := by
  unfold next at h
  split at h
  · cases h
    exact .read rfl rfl rfl
  · rename_i scan₀ wait rest c u _
    split at h
    · rename_i htakes
      cases h
      obtain ⟨rfl, hu⟩ := htakes
      exact .takes wait u rfl rfl hu
    · rename_i htakes
      cases h
      refine .stays rfl ?_
      rintro _ _ ⟨⟩ u' ⟨⟩
      by_contra hu
      exact htakes ⟨rfl, by simpa using hu⟩
  · rename_i hread htakes
    subst h
    refine .stays rfl ?_
    rintro wait rest rfl u rfl
    exact (htakes scan wait rest wait.1.id u r rfl rfl HEq.rfl).elim

variable {hs w schedule}

omit [DecidableEq ι] in
/-- Only a scan has waits. -/
theorem isTick_of_waits {s : Service ι} {i : ι} {scan pending : List Wait}
    (h : phases hs s i = .waits scan pending) : isTick (hs i) = true := by
  by_contra htick
  have hother : ∀ seen : History Stmt.Res, protocol.phase (start (hs i)) seen = Phase.other := by
    intro seen
    induction seen with
    | nil => simp [Protocol.phase, start, htick]
    | cons answered seen ih =>
      show next (protocol.phase (start (hs i)) seen) answered.1 answered.2 = .other
      rw [ih]
      rfl
  have hphase : phases hs s i = .other := hother _
  rw [h] at hphase
  cases hphase

/-- What a move comes to. -/
structure Moved (hs : ι → Handler) (w : World) (schedule : List ι) (k : Nat) (i : ι) (s : Stmt) : Prop where
  mover : schedule[k]? = some i
  next : (after hs w schedule k).next i = some s
  allowed : allows (phases hs (after hs w schedule k) i) s
  state : (after hs w schedule (k + 1)).state = (s.exec (after hs w schedule k).state).1
  own : phases hs (after hs w schedule (k + 1)) i = Overflow.next (phases hs (after hs w schedule k) i) s
    (s.exec (after hs w schedule k).state).2
  other : ∀ j, j ≠ i → phases hs (after hs w schedule (k + 1)) j = phases hs (after hs w schedule k) j
  oneScan : OneScan hs w schedule k i

namespace Invariant

variable {k : Nat} {i : ι} {s : Stmt}

/-- A scan at work is the only one with waits to take up. -/
theorem alone (h : Invariant hs w schedule k) (hm : Moved hs w schedule k i s)
    (htick : isTick (hs i) = true) {j : ι} (hj : j ≠ i) {scan pending : List Wait}
    (hp : phases hs (after hs w schedule k) j = .waits scan pending) : pending = [] := by
  rcases hm.oneScan htick j hj (isTick_of_waits hp) with hfresh | hfinished
  · have hseen : ((after hs w schedule k).threads j).seen = [] := by simpa using hfresh
    have hphase : phases hs (after hs w schedule k) j = start (hs j) := by
      show protocol.phase (start (hs j)) _ = _
      rw [hseen]
      rfl
    rw [hp, start, if_pos (isTick_of_waits hp)] at hphase
    cases hphase
  · have hdone : Done (phases hs (after hs w schedule k) j) := h.conforms.final_of_finished hfinished
    rw [hp] at hdone
    exact hdone

/-- What a call that hops is. -/
theorem head_of_hops (hm : Moved hs w schedule k i s) {c : Nat}
    (hhops : hops (after hs w schedule k).state c s = true) :
    ∃ scan wait rest, phases hs (after hs w schedule k) i = .waits scan (wait :: rest) ∧ wait.1.id = c ∧
      wait.1.overflowCount < maxOverflows := by
  obtain ⟨source, target, offered, row, rfl, -, -⟩ := hops_iff.mp hhops
  obtain ⟨scan, call, overflowQueueId, rest, hp, hid, -, -, hcount⟩ := hm.allowed
  exact ⟨scan, (call, overflowQueueId), rest, hp, hid, hcount⟩

theorem hopsAt_eq (hm : Moved hs w schedule k i s) (c : Nat) :
    hopsAt hs w schedule c k = hops (after hs w schedule k).state c s := by
  simp [hopsAt, hm.mover, hm.next]

theorem hopCount_succ (c : Nat) : hopCount hs w schedule c (k + 1) =
    hopCount hs w schedule c k + if hopsAt hs w schedule c k = true then 1 else 0 := by
  unfold hopCount
  rw [Finset.range_add_one, Finset.filter_insert]
  split
  · rw [Finset.card_insert_of_notMem (by simp)]
  · rfl

/-- A row whose call does not hop keeps its count. -/
theorem count_kept (hm : Moved hs w schedule k i s) {c n : Nat}
    (h : ∃ row, (after hs w schedule k).state.call c = some row ∧ row.overflowCount = n)
    (hno : hops (after hs w schedule k).state c s = false) :
    ∃ row, (after hs w schedule (k + 1)).state.call c = some row ∧ row.overflowCount = n := by
  obtain ⟨row, hrow, rfl⟩ := h
  obtain ⟨row', hrow', hcount⟩ := count_exec hrow s
  exact ⟨row', hm.state ▸ hrow', by simpa [hno] using hcount⟩

theorem count_succ (h : Invariant hs w schedule k) (hm : Moved hs w schedule k i s) (j : ι)
    (scan pending : List Wait) (hp : phases hs (after hs w schedule (k + 1)) j = .waits scan pending) :
    (pending.map (·.1.id)).Nodup ∧ ∀ wait ∈ pending,
      ∃ row, (after hs w schedule (k + 1)).state.call wait.1.id = some row ∧
        row.overflowCount = wait.1.overflowCount := by
  by_cases hj : j = i
  · subst hj
    rw [hm.own] at hp
    rcases turn hp with ⟨hold, hu⟩ | ⟨-, hread, rfl⟩ | ⟨wait₀, u, hold, rfl, hu⟩
    · refine ⟨h.nodup j scan pending hold, fun wait hwait => ?_⟩
      refine count_kept hm (h.count j scan pending hold wait hwait) ?_
      rw [← Bool.not_eq_true]
      intro hhops
      obtain ⟨_, wait₁, rest, hp₁, hid, -⟩ := head_of_hops hm hhops
      obtain ⟨rfl, rfl⟩ := Phase.waits.inj (hold.symm.trans hp₁)
      obtain ⟨source, target, offered, row, rfl, -, -⟩ := hops_iff.mp hhops
      have htakes := hu wait₁ rest rfl (.overflowToQueue source target offered) (by rw [hid])
      cases htakes
    · obtain ⟨rfl, rfl⟩ := Stmt.answer_of_read hread
      refine ⟨answer_nodup _, fun wait hwait => ?_⟩
      rw [hm.state]
      exact ⟨_, (mem_answer hwait).1, rfl⟩
    · obtain ⟨hnotin, hnodup⟩ := List.nodup_cons.mp (h.nodup j scan _ hold)
      refine ⟨hnodup, fun wait hwait => ?_⟩
      refine count_kept hm (h.count j scan _ hold wait (List.mem_cons_of_mem _ hwait)) ?_
      rw [← Bool.not_eq_true, hops_iff]
      rintro ⟨source, target, offered, row, hs, -, -⟩
      injection hs with hid
      exact hnotin (List.mem_map.mpr ⟨wait, hwait, hid.symm⟩)
  · rw [hm.other j hj] at hp
    refine ⟨h.nodup j scan pending hp, fun wait hwait => ?_⟩
    refine count_kept hm (h.count j scan pending hp wait hwait) ?_
    rw [← Bool.not_eq_true]
    intro hhops
    obtain ⟨_, _, _, hi, -, -⟩ := head_of_hops hm hhops
    rw [h.alone hm (isTick_of_waits hi) hj hp] at hwait
    cases hwait

theorem read_succ (h : Invariant hs w schedule k) (hm : Moved hs w schedule k i s) (j : ι)
    (scan pending : List Wait) (hp : phases hs (after hs w schedule (k + 1)) j = .waits scan pending) :
    pending ⊆ scan ∧ ∀ wait ∈ scan, wait.1.status = .ringing ∧ wait.1.direction = .inbound ∧
      Unanswered wait.1.toCallRow := by
  by_cases hj : j = i
  · subst hj
    rw [hm.own] at hp
    rcases turn hp with ⟨hold, -⟩ | ⟨-, hread, rfl⟩ | ⟨wait₀, u, hold, rfl, hu⟩
    · exact h.read j scan pending hold
    · obtain ⟨rfl, rfl⟩ := Stmt.answer_of_read hread
      exact ⟨List.Subset.refl _, fun wait hwait => of_findExpiredWaits (mem_answer hwait).2⟩
    · obtain ⟨hsub, hscan⟩ := h.read j scan _ hold
      exact ⟨fun wait hwait => hsub (List.mem_cons_of_mem _ hwait), hscan⟩
  · rw [hm.other j hj] at hp
    exact h.read j scan pending hp

theorem taken_succ (h : Invariant hs w schedule k) (hm : Moved hs w schedule k i s) (j : ι)
    (scan pending : List Wait) (hp : phases hs (after hs w schedule (k + 1)) j = .waits scan pending) :
    ∀ wait ∈ scan, wait ∈ pending ∨ ∃ m < k + 1, TakesUp hs w schedule m j wait := by
  have hlater : ∀ wait, (∃ m < k, TakesUp hs w schedule m j wait) →
      ∃ m < k + 1, TakesUp hs w schedule m j wait :=
    fun wait ⟨m, hlt, ht⟩ => ⟨m, by omega, ht⟩
  by_cases hj : j = i
  · subst hj
    rw [hm.own] at hp
    rcases turn hp with ⟨hold, -⟩ | ⟨-, hread, rfl⟩ | ⟨wait₀, u, hold, rfl, hu⟩
    · exact fun wait hwait => (h.taken j scan pending hold wait hwait).imp_right (hlater wait)
    · exact fun wait hwait => .inl hwait
    · intro wait hwait
      rcases h.taken j scan _ hold wait hwait with hmem | hbefore
      · rcases List.mem_cons.mp hmem with rfl | hmem
        · exact .inr ⟨k, Nat.lt_succ_self k, hm.mover, ⟨scan, pending, hold⟩, u, hm.next, hu⟩
        · exact .inl hmem
      · exact .inr (hlater wait hbefore)
  · rw [hm.other j hj] at hp
    exact fun wait hwait => (h.taken j scan pending hp wait hwait).imp_right (hlater wait)

theorem le_succ (h : Invariant hs w schedule k) (hm : Moved hs w schedule k i s) (c : Nat) :
    hopCount hs w schedule c (k + 1) ≤ ((after hs w schedule (k + 1)).state.call c).elim 0 (·.overflowCount) ∧
      hopCount hs w schedule c (k + 1) ≤ maxOverflows := by
  have hle := h.le_row c
  rw [hopCount_succ, hopsAt_eq hm]
  cases hrow : (after hs w schedule k).state.call c with
  | none =>
    have hno : hops (after hs w schedule k).state c s = false := by
      rw [← Bool.not_eq_true, hops_iff]
      rintro ⟨_, _, _, row, -, hsome, -⟩
      rw [hrow] at hsome
      cases hsome
    have hzero : hopCount hs w schedule c k = 0 := by simpa [hrow] using hle
    simp [hno, hzero]
  | some row =>
    obtain ⟨row', hrow', hcount⟩ := count_exec hrow s
    rw [hm.state, hrow']
    simp only [hrow, Option.elim_some] at hle ⊢
    refine ⟨by omega, ?_⟩
    by_cases hhops : hops (after hs w schedule k).state c s = true
    · obtain ⟨scan, wait, rest, hp, rfl, hlt⟩ := head_of_hops hm hhops
      obtain ⟨row₁, hrow₁, hcount₁⟩ := h.count i scan _ hp wait List.mem_cons_self
      obtain rfl : row = row₁ := Option.some.inj (hrow.symm.trans hrow₁)
      rw [if_pos hhops]
      omega
    · simpa [hhops] using h.le_max c

theorem init : Invariant hs w schedule 0 := by
  have hstart : ∀ i scan pending, phases hs (after hs w schedule 0) i ≠ .waits scan pending := by
    intro i scan pending hp
    have hphase : start (hs i) = .waits scan pending := hp
    unfold start at hphase
    split at hphase <;> cases hphase
  refine ⟨Protocol.conforms_spawn fun i => follows (hs i), ?_, ?_, ?_, ?_, ?_, ?_⟩
  · exact fun i scan pending hp => absurd hp (hstart i scan pending)
  · exact fun i scan pending hp => absurd hp (hstart i scan pending)
  · exact fun i scan pending hp => absurd hp (hstart i scan pending)
  · exact fun i scan pending hp => absurd hp (hstart i scan pending)
  · exact fun c => Nat.zero_le _
  · exact fun c => Nat.zero_le _

theorem idle (h : Invariant hs w schedule k) (hnone : schedule[k]?.bind (after hs w schedule k).next = none)
    (hsame : after hs w schedule (k + 1) = after hs w schedule k) : Invariant hs w schedule (k + 1) := by
  have hcount : ∀ c, hopCount hs w schedule c (k + 1) = hopCount hs w schedule c k := by
    intro c
    rw [hopCount_succ, hopsAt, hnone]
    rfl
  refine ⟨hsame ▸ h.conforms, ?_, ?_, ?_, ?_, ?_, ?_⟩
  · simpa only [hsame] using h.nodup
  · simpa only [hsame] using h.count
  · simpa only [hsame] using h.read
  · intro j scan pending hp wait hwait
    rw [hsame] at hp
    refine (h.taken j scan pending hp wait hwait).imp_right ?_
    rintro ⟨m, hlt, ht⟩
    exact ⟨m, by omega, ht⟩
  · simpa only [hsame, hcount] using h.le_row
  · simpa only [hcount] using h.le_max

/-- A move of the run, and what it comes to. -/
theorem succ (h : Invariant hs w schedule k) (hi : schedule[k]? = some i) (hone : OneScan hs w schedule k i) :
    Invariant hs w schedule (k + 1) ∧
      ((after hs w schedule k).next i = none ∨ ∃ s, Moved hs w schedule k i s) := by
  obtain ⟨hconforms, ⟨hnone, hsame⟩ | ⟨s, hnext, hallows, hstate, hphases⟩⟩ :=
    Service.after_succ hi h.conforms
  · exact ⟨h.idle (by rw [hi, Option.bind_some, hnone]) hsame, .inl hnone⟩
  · have hm : Moved hs w schedule k i s := by
      refine ⟨hi, hnext, hallows, hstate, ?_, fun j hj => ?_, hone⟩
      · rw [phases, hphases, Function.update_self]
      · rw [phases, hphases, Function.update_of_ne hj]
    refine ⟨⟨hconforms, ?_, ?_, h.read_succ hm, h.taken_succ hm, ?_, ?_⟩, .inr ⟨s, hm⟩⟩
    · exact fun j scan pending hp => (h.count_succ hm j scan pending hp).1
    · exact fun j scan pending hp => (h.count_succ hm j scan pending hp).2
    · exact fun c => (h.le_succ hm c).1
    · exact fun c => (h.le_succ hm c).2

theorem run (hone : ∀ k, (hk : k < schedule.length) → OneScan hs w schedule k schedule[k]) (k : Nat) :
    Invariant hs w schedule k := by
  induction k with
  | zero => exact init
  | succ k ih =>
    by_cases hk : k < schedule.length
    · exact (ih.succ (List.getElem?_eq_getElem hk) (hone k hk)).1
    · have hover : schedule.length ≤ k := by omega
      refine ih.idle (by simp [hover]) ?_
      show (Service.spawn w hs).after schedule (k + 1) = (Service.spawn w hs).after schedule k
      rw [Service.after, Service.after, List.take_of_length_le hover, List.take_of_length_le (by omega)]

theorem moved (hone : ∀ k, (hk : k < schedule.length) → OneScan hs w schedule k schedule[k])
    (hi : schedule[k]? = some i) (hnext : (after hs w schedule k).next i = some s) :
    Moved hs w schedule k i s := by
  obtain ⟨hk, hget⟩ := List.getElem?_eq_some_iff.mp hi
  rcases ((run hone k).succ hi (hget ▸ hone k hk)).2 with hnone | ⟨s', hm⟩
  · rw [hnone] at hnext
    cases hnext
  · obtain rfl : s' = s := Option.some.inj (hm.next.symm.trans hnext)
    exact hm

theorem hop (h : Invariant hs w schedule k) {c source target : Nat} {offered : Option Nat} {row : CallRow}
    (hm : Moved hs w schedule k i (.updateCall c (.overflowToQueue source target offered)))
    (hrow : (after hs w schedule k).state.call c = some row)
    (hg : (CallUpdate.overflowToQueue source target offered).guard row = true) :
    (∃ wait ∈ scanned hs (after hs w schedule k) i, wait.1.id = c ∧ row.queueId = wait.1.queueId) ∧
      Unanswered row ∧ ∃ row', (after hs w schedule (k + 1)).state.call c = some row' ∧
        row'.queueId = some target ∧ row'.queuedAt = some (sqlNow (after hs w schedule k).state.now) := by
  obtain ⟨scan, call, overflowQueueId, rest, hp, hid, hqueue, -, -⟩ := hm.allowed
  have hmem := (h.read i scan _ hp).1 List.mem_cons_self
  have hset := Stmt.exec_updateCall hrow hg
  simp only [CallUpdate.guard, Bool.and_eq_true, Bool.or_eq_true, decide_eq_true_eq,
    Option.isNone_iff_eq_none] at hg
  obtain ⟨⟨⟨⟨hin, -⟩, -⟩, -⟩, hunanswered⟩ := hg
  refine ⟨⟨(call, overflowQueueId), ?_, hid, hin.trans hqueue.symm⟩, hunanswered, ?_⟩
  · rw [scanned, hp]
    exact hmem
  · exact ⟨_, by rw [hm.state, hset], rfl, rfl⟩

/-- A wait taken up of a row that is as it was read matches the row. -/
theorem guard_of_takesUp (h : Invariant hs w schedule k) {wait : Wait} {scan rest : List Wait} {u : CallUpdate}
    (hm : Moved hs w schedule k i (.updateCall wait.1.id u))
    (hp : phases hs (after hs w schedule k) i = .waits scan (wait :: rest)) (hu : takesUp u = true) :
    u.guard wait.1.toCallRow = true := by
  obtain ⟨hsub, hscan⟩ := h.read i scan _ hp
  obtain ⟨hstatus, hdirection, hunanswered⟩ := hscan wait (hsub List.mem_cons_self)
  unfold takesUp at hu
  split at hu
  · obtain ⟨_, call, overflowQueueId, _, hp', -, hqueue, hoffered, -⟩ := hm.allowed
    obtain ⟨-, hcons⟩ := Phase.waits.inj (hp.symm.trans hp')
    obtain ⟨rfl, -⟩ := List.cons.inj hcons
    simp only [CallUpdate.guard, Bool.and_eq_true, Bool.or_eq_true, decide_eq_true_eq,
      Option.isNone_iff_eq_none]
    exact ⟨⟨⟨⟨hqueue, hstatus⟩, hdirection⟩, hoffered⟩, hunanswered⟩
  · simp only [CallUpdate.guard, CallRow.ended, hstatus]
    decide
  · cases hu

end Invariant

theorem expires_cases (hone : ∀ k, (hk : k < schedule.length) → OneScan hs w schedule k schedule[k]) {c k : Nat}
    (h : Expires hs w schedule c k) : EndsAt hs w schedule c k ∨ hopsAt hs w schedule c k = true := by
  obtain ⟨i, wait, ⟨hi, ⟨scan, rest, hp⟩, u, hnext, hu⟩, rfl, hrow⟩ := h
  have hm := Invariant.moved hone hi hnext
  have hg := (Invariant.run hone k).guard_of_takesUp hm hp hu
  have hset := Stmt.exec_updateCall hrow hg
  unfold takesUp at hu
  split at hu
  · refine .inr ?_
    rw [Invariant.hopsAt_eq hm, hops_iff]
    exact ⟨_, _, _, _, rfl, hrow, hg⟩
  · exact .inl ⟨_, by rw [hm.state, hset], rfl⟩
  · cases hu

/-- With one scan at a time the overflow of every call is bounded, and takes no
call from an agent who has accepted it. -/
theorem bounded (hs : ι → Handler) (w : World) (schedule : List ι)
    (hone : ∀ k, (hk : k < schedule.length) → OneScan hs w schedule k schedule[k]) : Bounded hs w schedule := by
  have hinv := Invariant.run hone
  refine ⟨fun c k => (hinv k).le_max c, ?_, ?_, ?_, fun c k h => expires_cases hone h, ?_⟩
  · intro k i c source target offered row hi hnext hrow hg
    exact (hinv k).hop (Invariant.moved hone hi hnext) hrow hg
  · exact fun k c row hrow h => mem_answer_of_expired hrow h
  · intro k i hf wait hwait
    have hdone : Done (phases hs (after hs w schedule k) i) := (hinv k).conforms.final_of_finished hf
    unfold scanned at hwait
    split at hwait
    · rename_i scan pending hp
      rw [hp] at hdone
      obtain rfl : pending = [] := hdone
      rcases (hinv k).taken i scan [] hp wait hwait with hmem | htaken
      · cases hmem
      · exact htaken
    · cases hwait
  · intro c ks hcard hexpires
    by_contra hnone
    -- otherwise every one of these waits was a hop
    have hhop : ∀ k ∈ ks, hopsAt hs w schedule c k = true := fun k hk =>
      (expires_cases hone (hexpires k hk)).resolve_left fun hends => hnone ⟨k, hk, hends⟩
    obtain ⟨n, hn⟩ := ks.exists_nat_subset_range
    have hsub : ks ⊆ (Finset.range n).filter fun m => hopsAt hs w schedule c m = true :=
      fun k hk => Finset.mem_filter.mpr ⟨hn hk, hhop k hk⟩
    have hle := (Finset.card_le_card hsub).trans ((hinv n).le_max c)
    omega

end runs

/-! ## A circle of queues -/

/-- Call 1 waits in queue 1, which overflows to queue 2, which overflows back. -/
def circled : World :=
  { now := 60000
    calls := .ofList [fun _ => { direction := .inbound, status := .ringing, state := some .queue,
                                 queueId := some 1, ringingAt := some 0, queuedAt := some 0 }]
    queues := fun q => match q with
      | 1 => some { maxWaitSeconds := some 60, overflowQueueId := some 2 }
      | 2 => some { maxWaitSeconds := some 60, overflowQueueId := some 1 }
      | _ => none }

def twoScans : Fin 3 → Handler
  | 0 => .queueTimeoutTick 30
  | 1 => .clock 60000
  | 2 => .queueTimeoutTick 30

section

local instance neZeroTasks : NeZero 3 := ⟨by decide⟩

/-- A scan, a minute's wait and another scan take the call round. -/
def round : List (Fin 3) := List.replicate 9 0 ++ 1 :: List.replicate 9 2

end

theorem bounded_round : Bounded twoScans circled round ∧ hopCount twoScans circled round 1 19 = 2 :=
  ⟨bounded twoScans circled round (by decide), by decide⟩

end Callio.Overflow
