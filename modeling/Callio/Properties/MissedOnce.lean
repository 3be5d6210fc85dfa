import Callio.Conduct.Handlers
import Callio.Persistence.Effects

/-! An offer that nobody answers counts once against its agent. A queue's
timers and the provider's end count an offer after the write that closes it; the
IVR sweep counts the rings it has read and only then ends their calls. -/

namespace Callio.MissedOnce

open Concurrency Code

variable {ι : Type} [DecidableEq ι]

/-! ## What a thread has found -/

/-- Who counts misses. -/
inductive Role
  | timeouts | sweep | providerEnd | other
  deriving DecidableEq

def role : Handler → Role
  | .queueTimeoutTick _ => .timeouts
  | .ivrRingCleanup => .sweep
  | .callEnded _ _ => .providerEnd
  | _ => .other

/-- What a thread has found missed: the offer of a call to an agent that its
write closed, or the rings that it read. -/
inductive Found
  | nothing
  | closed (c a : Nat)
  | ringing (rings : List (Nat × Nat))
  deriving DecidableEq

@[simp] def Found.Has : Found → Nat → Nat → Prop
  | nothing, _, _ => False
  | closed c a, c', a' => c = c' ∧ a = a'
  | ringing rings, c, a => (c, a) ∈ rings

structure Phase where
  role : Role
  /-- The row the provider's end works on. -/
  heard : Option Call := none
  found : Found := .nothing
  /-- The call and the agent last asked about. -/
  asked : Option (Nat × Nat) := none
  /-- The policy's threshold, as last read. -/
  threshold : Option Nat := none
  /-- The agent counted against just now, and their streak. -/
  tally : Option (Nat × Nat) := none
  /-- The rings counted by a sweep that is still to end their calls. -/
  pending : List (Nat × Nat) := []

/-- The agent who missed the offer that this provider's end closes. -/
def gaveUp (heard : Option Call) (c : Nat) (reason : Option TerminationReason) : Option Nat :=
  (heard.filter fun call => call.id = c && call.direction = .inbound && reason = some .noAnswer).bind
    (·.agentId)

/-- The offer that this update closes as missed, if it matches. -/
def closing (q : Phase) (c : Nat) : CallUpdate → Option (Nat × Nat)
  | .withdrawOffer a _ => if q.role = .timeouts then some (c, a) else none
  | .finalizeFromWebhook .terminated reason _ =>
      if q.role = .providerEnd then (gaveUp q.heard c reason).map (c, ·) else none
  | _ => none

/-- The rings among the rows a sweep read. -/
def rings (calls : List Call) : List (Nat × Nat) :=
  calls.filterMap fun call => call.agentId.map (call.id, ·)

/-- The rings that are left to end once their call's end was tried. -/
def stillPending (pending : List (Nat × Nat)) (c : Nat) : CallUpdate → List (Nat × Nat)
  | .terminateCallIfNotTerminated _ _ _ _ => pending.filter (·.1 ≠ c)
  | _ => pending

def wrote (q : Phase) (c : Nat) (u : CallUpdate) (won : Bool) : Phase :=
  { q with
    found := if won then (closing q c u).elim q.found fun offer => .closed offer.1 offer.2 else q.found
    pending := stillPending q.pending c u
    tally := none }

/-- A sweep may count more of its rings; an offer that was closed is done with. -/
def counted (q : Phase) (a streak : Nat) : Phase :=
  match q.found with
  | .ringing _ => { q with tally := some (a, streak), pending := q.asked.toList ++ q.pending }
  | _ => { q with tally := some (a, streak), found := .nothing }

def next (q : Phase) : (s : Stmt) → s.Res → Phase
  | .query (.findByProviderCallId _), heard => { q with heard, tally := none }
  | .query (.autoOffline _), threshold => { q with threshold, tally := none }
  | .query (.hasAgentActiveCall a c), _ => { q with asked := some (c, a), tally := none }
  | .query .findStuckIvrTransferredCalls, calls =>
      { q with found := if q.role = .sweep then .ringing (rings calls) else q.found, tally := none }
  | .updateCall c u, won => wrote q c u won
  | .incrementMissed a, streak => counted q a streak
  | _, _ => { q with tally := none }

/-- A miss is counted of an offer found missed, and the agent who was counted
against is taken offline at the threshold only. -/
def allows (q : Phase) : Stmt → Prop
  | .incrementMissed a => ∃ c, q.asked = some (c, a) ∧ q.found.Has c a
  | .updateAgent a (.updateAgentAvailability .offline) =>
      ∀ streak, q.tally = some (a, streak) → ∃ threshold, q.threshold = some threshold ∧ threshold ≤ streak
  | _ => True

def protocol : Protocol Stmt.Res := ⟨Phase, next, allows⟩

def start (h : Handler) : Phase := { role := role h }

/-- What `i` has found in its moves among the first `k`. -/
def phases (hs : ι → Handler) (s : Service ι) (schedule : List ι) (k : Nat) (i : ι) : Phase :=
  protocol.phases (fun i => start (hs i)) (s.after schedule k) i

/-! ## Offers over a run -/

/-- Agent `a` is offered the call: it rings them, or is handed over to them. -/
def Offered (w : World) (c a : Nat) : Bool :=
  (w.call c).any fun row => row.agentId = some a &&
    (row.status = .ringing || row.status = .inProgress && row.offeredAt.isSome)

/-- How many offers of the call to the agent began within `k` moves. -/
def offers (s : Service ι) (schedule : List ι) (c a : Nat) : Nat → Nat
  | 0 => if Offered s.state c a then 1 else 0
  | k + 1 => offers s schedule c a k +
      if Offered (s.after schedule (k + 1)).state c a && !Offered (s.after schedule k).state c a then 1
      else 0

/-- The statement finds an offer missed: it closes it, or reads its ring. -/
def finds (q : Phase) (w : World) (c a : Nat) : Stmt → Bool
  | .updateCall c' u => closing q c' u = some (c, a) && (w.call c').any u.guard
  | .query .findStuckIvrTransferredCalls =>
      q.role = .sweep && (rings (Query.findStuckIvrTransferredCalls.answer w)).contains (c, a)
  | _ => false

section run

variable (hs : ι → Handler) (s : Service ι) (schedule : List ι)

/-- The move before `k` at which `i` last found the offer of `c` to `a` missed. -/
def foundAt (i : ι) (c a : Nat) : Nat → Nat
  | 0 => 0
  | k + 1 =>
    if schedule[k]? = some i &&
        ((s.after schedule k).next i).any (finds (phases hs s schedule k i) (s.after schedule k).state c a)
    then k else foundAt i c a k

/-- Move `k` counts the `n`-th offer of `c` against `a`. -/
def Miss (k a c n : Nat) : Prop :=
  ∃ i, schedule[k]? = some i ∧ (s.after schedule k).next i = some (.incrementMissed a) ∧
    (phases hs s schedule k i).asked = some (c, a) ∧ n = offers s schedule c a (foundAt hs s schedule i c a k)

/-- Every count is of an offer that was open when it was found missed, and no
two are of the same offer. -/
def CountedOnce : Prop :=
  (∀ k i a, schedule[k]? = some i → (s.after schedule k).next i = some (.incrementMissed a) →
    ∃ c, (phases hs s schedule k i).asked = some (c, a) ∧
      foundAt hs s schedule i c a k < k ∧
      Offered (s.after schedule (foundAt hs s schedule i c a k)).state c a = true) ∧
  ∀ k k' a c n, Miss hs s schedule k a c n → Miss hs s schedule k' a c n → k = k'

/-- The moves after the last reset of the agent's streak begin here. -/
def sinceReset (a : Nat) : Nat → Nat
  | 0 => 0
  | k + 1 =>
    if (schedule[k]?.bind (s.after schedule k).next).any fun stmt =>
        match stmt with
        | .record (.resetMissedStreak b) => b = a
        | _ => false
    then k + 1 else sinceReset a k

/-- What the streak held when it began: nothing after a reset. -/
def carried (a k : Nat) : Nat := if sinceReset s schedule a k = 0 then s.state.missedStreak a else 0

/-- The policy takes an agent offline for as many misses as its threshold, each
of another offer, since their last accept or reset. -/
def OfflineEarned : Prop :=
  ∀ k i a streak, schedule[k]? = some i →
    (s.after schedule k).next i = some (.updateAgent a (.updateAgentAvailability .offline)) →
    (phases hs s schedule k i).tally = some (a, streak) →
    ∃ (threshold : Nat) (misses : List (Nat × Nat × Nat)),
      (phases hs s schedule k i).threshold = some threshold ∧
      threshold ≤ carried s schedule a k + misses.length ∧ (misses.map (·.2)).Nodup ∧
      ∀ m ∈ misses, sinceReset s schedule a k ≤ m.1 ∧ m.1 < k ∧ Miss hs s schedule m.1 a m.2.1 m.2.2

/-! ## What goes wrong -/

/-- A sweep has counted this ring and is still to end its call. -/
def toEnd (k c a : Nat) : Bool :=
  schedule.any fun j => (phases hs s schedule k j).pending.contains (c, a)

/-- A thread is about to take `a` offline. -/
def aboutToFlip (q : Phase) (a : Nat) : Bool :=
  q.tally.any fun (b, streak) => b = a && q.threshold.any (· ≤ streak)

/-- Move `k` by `i`:
* counts no ring that is over, or counted already by a sweep still to end it;
* closes as missed no ring that a sweep has counted, nor an offer of another agent;
* as the end of a ring already counted, does not leave it offered;
* resets no streak that takes its agent offline. -/
def Sound (k : Nat) (i : ι) : Bool :=
  let q := phases hs s schedule k i
  let w := (s.after schedule k).state
  ((s.after schedule k).next i).all fun stmt =>
    match stmt with
    | .incrementMissed _ => q.role ≠ .sweep || q.asked.all fun (c, a) =>
        Offered w c a && offers s schedule c a k = offers s schedule c a (foundAt hs s schedule i c a k) &&
          !toEnd hs s schedule k c a
    | .updateCall c u =>
        if (w.call c).any u.guard then
          (closing q c u).all fun (c, a) => Offered w c a && !toEnd hs s schedule k c a
        else
          q.pending.all fun (c', a) => (c', a) ∈ stillPending q.pending c u || !Offered w c' a
    | .record (.resetMissedStreak a) => !schedule.any fun j => aboutToFlip (phases hs s schedule k j) a
    | _ => true

end run

/-! ## Handlers -/

theorem next_role (q : Phase) (s : Stmt) (r : s.Res) : (next q s r).role = q.role := by
  cases s with
  | query qq => cases qq <;> rfl
  | incrementMissed a =>
    show (counted q a r).role = q.role
    unfold counted
    split <;> rfl
  | _ => rfl

theorem next_tally (q : Phase) {s : Stmt} (hs : ∀ a, s ≠ .incrementMissed a) (r : s.Res) :
    (next q s r).tally = none := by
  cases s with
  | query qq => cases qq <;> rfl
  | incrementMissed a => exact absurd rfl (hs a)
  | _ => rfl

/-- Statements that neither count a miss nor take an agent offline. -/
def Plain (s : Stmt) : Prop :=
  (∀ a, s ≠ .incrementMissed a) ∧ ∀ a, s ≠ .updateAgent a (.updateAgentAvailability .offline)

theorem allows_of_plain {q : Phase} {s : Stmt} (h : Plain s) : allows q s := by
  unfold allows
  split
  · exact absurd rfl (h.1 _)
  · exact absurd rfl (h.2 _)
  · trivial

/-- A thread that has just counted nobody may take an agent offline. -/
theorem allows_of_tally {q : Phase} {s : Stmt} (hq : q.tally = none) (hs : ∀ a, s ≠ .incrementMissed a) :
    allows q s := by
  unfold allows
  split
  · exact absurd rfl (hs _)
  · intro streak hstreak
    simp [hq] at hstreak
  · trivial

theorem keeps_role {r : Role} {s : Stmt} (h : Plain s) :
    protocol.Keeps (fun (q : Phase) => q.role = r) s := by
  intro q hq
  refine ⟨allows_of_plain h, fun x => ?_⟩
  exact (next_role q s x).trans hq

/-- A handler that counts nothing. -/
theorem keeps_tally {s : Stmt} (hs : ∀ a, s ≠ .incrementMissed a) :
    protocol.Keeps (fun (q : Phase) => q.tally = none) s := by
  intro q hq
  exact ⟨allows_of_tally hq hs, fun x => next_tally q hs x⟩

/-- What a thread of role `r` has found stays `f`. -/
def Holding (r : Role) (f : Found) (q : Phase) : Prop := q.role = r ∧ q.found = f

/-- Statements that close no offer as missed. -/
def Aside (s : Stmt) : Prop :=
  Plain s ∧ (∀ c a t, s ≠ .updateCall c (.withdrawOffer a t)) ∧
    ∀ c status reason who, s ≠ .updateCall c (.finalizeFromWebhook status reason who)

theorem found_of_aside {q : Phase} {s : Stmt} (hq : q.role ≠ .sweep) (hs : Aside s) (r : s.Res) :
    (next q s r).found = q.found := by
  obtain ⟨hplain, hw, hf⟩ := hs
  cases s with
  | query qq =>
    cases qq with
    | findStuckIvrTransferredCalls => exact if_neg hq
    | _ => rfl
  | incrementMissed a => exact absurd rfl (hplain.1 a)
  | updateCall c u =>
    have hnone : closing q c u = none := by
      cases u with
      | withdrawOffer a t => exact absurd rfl (hw c a t)
      | finalizeFromWebhook status reason who => exact absurd rfl (hf c status reason who)
      | _ => rfl
    show (wrote q c u r).found = q.found
    simp [wrote, hnone]
  | _ => rfl

theorem keeps_holding {r : Role} {f : Found} (hr : r ≠ .sweep) {s : Stmt} (hs : Aside s) :
    protocol.Keeps (Holding r f) s := by
  rintro q ⟨hq, hf⟩
  refine ⟨allows_of_plain hs.1, fun x => ⟨(next_role q s x).trans hq, ?_⟩⟩
  exact (found_of_aside (hq ▸ hr) hs x).trans hf

theorem aside_of_seeking {s : Stmt} (h : s.Seeking ∨ s.Offering) : Aside s := by
  refine ⟨⟨?_, ?_⟩, ?_, ?_⟩ <;> intros <;> rintro rfl <;> rcases h with h | h <;> cases h

theorem aside_of_settling {s : Stmt} (h : s.Settling) : Aside s := by
  refine ⟨⟨?_, ?_⟩, ?_, ?_⟩ <;> intros <;> rintro rfl <;> cases h

theorem aside_of_passingOn {s : Stmt} (h : s.PassingOn) : Aside s := by
  refine ⟨⟨?_, ?_⟩, ?_, ?_⟩ <;> intros <;> rintro rfl <;> cases h

theorem plain_of_takingBack {s : Stmt} (h : s.TakingBack) : Plain s := by
  constructor <;> intros <;> rintro rfl <;> cases h

theorem plain_of_reporting {s : Stmt} (h : s.Reporting) : Plain s := by
  constructor <;> intros <;> rintro rfl <;> cases h

theorem seeks_role (r : Role) : Seeks protocol (fun (q : Phase) => q.role = r) :=
  .of_keeps fun _ hs => keeps_role (aside_of_seeking hs).1

theorem counted_tally (q : Phase) (a streak : Nat) : (counted q a streak).tally = some (a, streak) := by
  unfold counted
  split <;> rfl

theorem counted_threshold (q : Phase) (a streak : Nat) : (counted q a streak).threshold = q.threshold := by
  unfold counted
  split <;> rfl

/-- After a miss is recorded a sweep still has the rings it read. -/
def Recorded (r : Role) (f : Found) (q : Phase) : Prop :=
  q.role = r ∧ ∀ rings, f = .ringing rings → q.found = f

theorem recordMiss_takes {r : Role} {f : Found} (callId tenantId : Nat) (queueId : Option Nat)
    (agentId : Nat) (anyQueue : Bool) (hf : f.Has callId agentId) :
    (recordMiss callId tenantId queueId agentId anyQueue).Takes protocol (Holding r f) (Recorded r f) := by
  have hret : ∀ b : Bool, (pure b : Code Bool).Takes protocol (Holding r f) (Recorded r f) := fun b =>
    Prog.takes_ret (fun q hq => ⟨hq.1, fun _ _ => hq.2⟩) b
  have hqueue : (QueueRouter.getQueue queueId).Stays protocol (Holding r f) :=
    QueueRouter.getQueue_stays (fun _ q hq => ⟨trivial, fun _ => hq⟩) queueId
  refine hqueue.bind fun queue => .ite (fun _ => hret _) fun _ => ?_
  intro q hq
  refine (Prog.follows_cmd_bind _ _ _ _).mpr ⟨trivial, fun threshold => ?_⟩
  cases threshold with
  | none => exact hret _ _ hq
  | some threshold =>
    refine (Prog.follows_cmd_bind _ _ _ _).mpr ⟨trivial, fun active => ?_⟩
    cases active with
    | true => exact hret _ _ hq
    | false =>
      refine (Prog.follows_cmd_bind _ _ _ _).mpr ⟨⟨callId, rfl, hq.2 ▸ hf⟩, fun streak => ?_⟩
      have hcounted : ∀ q' : Phase, Holding r f q' → Recorded r f (counted q' agentId streak) := by
        rintro q' ⟨hrole, hfound⟩
        unfold counted
        split
        · exact ⟨hrole, fun _ _ => hfound⟩
        · rename_i hne
          exact ⟨hrole, fun rings hrings => absurd (hfound.trans hrings) (hne rings)⟩
      have hflip : (if streak < threshold then pure false else do
          let flipped ← updateAgent agentId (.updateAgentAvailability .offline)
          Code.record (.resetMissedStreak agentId)
          pure flipped : Code Bool).Takes protocol
            (fun (q : Phase) => Recorded r f q ∧ q.tally = some (agentId, streak) ∧
              q.threshold = some threshold) (Recorded r f) := by
        refine .ite (fun _ => Prog.takes_ret (fun q hq => hq.1) _) fun hlt => ?_
        rintro q ⟨hq, htally, hthreshold⟩
        refine (Prog.follows_cmd_bind _ _ _ _).mpr ⟨?_, fun flipped => ?_⟩
        · intro streak' hstreak
          obtain rfl : streak = streak' := by simpa [htally] using hstreak
          exact ⟨threshold, hthreshold, Nat.le_of_not_lt hlt⟩
        · exact (Prog.follows_cmd_bind _ _ _ _).mpr ⟨trivial, fun _ => hq⟩
      let q' : Phase := { q with threshold := some threshold, asked := some (callId, agentId), tally := none }
      exact hflip (counted q' agentId streak) ⟨hcounted q' hq, counted_tally .., counted_threshold ..⟩

theorem endCall_stays {r : Role} (call : Call) (opts : EndOptions) (ho : opts.agentOffline = false) :
    (CallTerminator.endCall call opts).Stays protocol (fun (q : Phase) => q.role = r) := by
  refine Callio.endCall_stays (seeks_role r) (fun s hs => keeps_role (aside_of_settling hs).1)
    (fun h => absurd h (by simp [ho])) ?_
  exact .ite (fun _ => keeps_role ⟨nofun, nofun⟩) fun _ => keeps_role ⟨nofun, nofun⟩

/-! ### A queue's timers -/

theorem passOffer_stays (call : Call) (agentId : Nat) (expiredBefore : Option Nat) :
    (passOffer call agentId .missed expiredBefore).Stays protocol
      (fun (q : Phase) => q.role = .timeouts) := by
  have hmiss : (recordMiss call.id call.tenantId call.queueId agentId).Takes protocol
      (Holding .timeouts (.closed call.id agentId)) (fun (q : Phase) => q.role = .timeouts) :=
    (recordMiss_takes (f := .closed call.id agentId) call.id _ _ agentId _ ⟨rfl, rfl⟩).mono fun q hq => hq.1
  refine passOffer_takes (Holding .timeouts (.closed call.id agentId)) (fun q hq => ?_)
    (fun s hs => keeps_holding (by decide) (aside_of_passingOn hs)) (fun _ => hmiss)
    (fun hk => absurd rfl hk) (seeks_role .timeouts)
  have hfound : (wrote q call.id (.withdrawOffer agentId expiredBefore) true).found =
      .closed call.id agentId := by
    have hrole : q.role = .timeouts := hq
    simp [wrote, closing, hrole]
  exact ⟨trivial, ⟨hq, hfound⟩, hq⟩

theorem queueTimeoutTick_stays (seconds : Nat) :
    (queueTimeoutTick seconds).Stays protocol (fun (q : Phase) => q.role = .timeouts) := by
  have hseeks := seeks_role .timeouts
  have htaking : ∀ s : Stmt, s.TakingBack → protocol.Keeps (fun (q : Phase) => q.role = .timeouts) s :=
    fun s hs => keeps_role (plain_of_takingBack hs)
  refine .bind (.bind (hseeks.read _ trivial) fun calls => expireOffersOf_stays fun call _ => ?_) fun _ => ?_
  · exact expireOffer_stays fun agentId _ => passOffer_stays call agentId call.offeredAt
  · have hread : (Code.read .findExpiredWaits).Stays protocol (fun (q : Phase) => q.role = .timeouts) :=
      keeps_role (s := .query .findExpiredWaits) (by constructor <;> intros <;> nofun)
    refine .bind (hread.bind fun waits => expireWaitsOf_stays fun wait _ => ?_) fun _ => ?_
    · exact waitExpired_stays hseeks htaking wait.1 wait.2 (endCall_stays _ _ rfl)
    · refine .bind (hseeks.read _ trivial) fun calls => expireHandoversOf_stays fun call _ => ?_
      exact handoverExpired_stays (fun c a t => htaking (.updateCall c (.returnHandoverToQueue a t)) trivial)
        (fun c a t => htaking (.updateCall c (.expireHandover a t)) trivial) call (fun agentId => passOffer_stays _ agentId none)
        (endCall_stays _ _ rfl)

/-! ### The IVR sweep -/

theorem recordIvrMisses_stays {read calls : List Call} (h : ∀ call ∈ calls, call ∈ read) :
    (recordIvrMisses calls).Stays protocol (Holding .sweep (.ringing (rings read))) := by
  induction calls with
  | nil => exact Prog.stays_ret _
  | cons call rest ih =>
    rw [List.forall_mem_cons] at h
    unfold recordIvrMisses
    split
    · rename_i agentId hagent
      have hread : (Found.ringing (rings read)).Has call.id agentId := by
        refine List.mem_filterMap.mpr ⟨call, h.1, ?_⟩
        simp [hagent]
      refine Prog.Takes.bind ((recordMiss_takes call.id _ _ agentId true hread).mono fun q hq => ?_)
        fun _ => ih h.2
      exact ⟨hq.1, hq.2 _ rfl⟩
    · exact ih h.2

theorem runIvrRingCleanup_follows :
    runIvrRingCleanup.Follows protocol { role := .sweep } fun _ (q : Phase) => q.role = .sweep := by
  refine (Prog.follows_cmd_bind _ _ _ _).mpr ⟨trivial, fun calls => ?_⟩
  have hmisses : (recordIvrMisses calls).Stays protocol (Holding .sweep (.ringing (rings calls))) :=
    recordIvrMisses_stays fun _ h => h
  refine (hmisses _ ⟨rfl, rfl⟩).bind fun _ q hq => ?_
  exact batchCleanupCalls_stays (seeks_role .sweep) (fun call item _ _ => endCall_stays call _ rfl) q hq.1

/-! ### The provider's end -/

/-- The end, if it is a miss, has closed the offer of the row it read. -/
def Ended (call : Call) (reason : TerminationReason) (q : Phase) : Prop :=
  q.role = .providerEnd ∧ ∀ agentId, call.agentId = some agentId → call.direction = .inbound →
    reason = .noAnswer → q.found = .closed call.id agentId

theorem keeps_ended (call : Call) (reason : TerminationReason) {s : Stmt} (hs : Aside s) :
    protocol.Keeps (Ended call reason) s := by
  rintro q ⟨hrole, hfound⟩
  refine ⟨allows_of_plain hs.1, fun x => ⟨(next_role q s x).trans hrole, fun a ha hd hr => ?_⟩⟩
  have hsweep : q.role ≠ .sweep := by simp [hrole]
  exact (found_of_aside hsweep hs x).trans (hfound a ha hd hr)

theorem findCallPatiently_follows (key : ProviderKey) :
    (findCallPatiently key).Follows protocol { role := .providerEnd }
      fun call (q : Phase) => q.role = .providerEnd ∧ q.heard = call := by
  refine (Prog.follows_cmd_bind _ _ _ _).mpr ⟨trivial, fun call => ?_⟩
  cases call with
  | some call => exact ⟨rfl, rfl⟩
  | none =>
    refine (Prog.follows_cmd_bind _ _ _ _).mpr ⟨trivial, fun _ => ?_⟩
    exact ⟨trivial, fun _ => ⟨rfl, rfl⟩⟩

/-- The commit leads to a miss only if it wins. -/
theorem commitProviderEnd_follows {call : Call} (e : ProviderEnd) (now : Nat) {q : Phase}
    (hq : q.role = .providerEnd ∧ q.heard = some call) :
    (commitProviderEnd call e now).Follows protocol q
      fun won q => q.role = .providerEnd ∧ (won = true → Ended call (e.reason call now) q) := by
  obtain ⟨hrole, hheard⟩ := hq
  unfold commitProviderEnd
  split
  · rename_i hfailed
    have hreason : e.reason call now ≠ .noAnswer := by simp [ProviderEnd.reason, hfailed]
    have hstays : (finalizeCallAsFailed call.id e.terminatedBy (e.times call now)).Stays protocol
        (fun (q : Phase) => q.role = .providerEnd) :=
      finalizeCallAsFailed_stays (fun s hs => keeps_role (plain_of_reporting hs)) _ _ _
    exact (hstays q hrole).mono fun _ q hq => ⟨hq, fun _ => ⟨hq, fun _ _ _ h => absurd h hreason⟩⟩
  · refine (Prog.follows_cmd_bind _ _ _ _).mpr ⟨trivial, fun _ => ?_⟩
    refine (Prog.follows_cmd_bind _ _ _ _).mpr ⟨trivial, fun won => ?_⟩
    refine (Prog.follows_cmd_bind _ _ _ _).mpr ⟨trivial, fun _ => ⟨hrole, fun hwon => ⟨hrole, ?_⟩⟩⟩
    intro agentId ha hd hr
    have hgave : gaveUp q.heard call.id (some (e.reason call now)) = some agentId := by
      simp [gaveUp, hheard, Option.filter, ha, hd, hr]
    simp [protocol, next, wrote, closing, hwon, hrole, hgave]

section beside

variable {Q : Phase → Prop} (h : ∀ s : Stmt, Aside s → protocol.Keeps Q s)
include h

theorem reportFailure_stays (call : Call) (e : ProviderEnd) (won : Bool) :
    (reportFailure call e won).Stays protocol Q := by
  have hemit := h (.emit (.callError call.id "")) ⟨⟨nofun, nofun⟩, nofun, nofun⟩
  have hblame := h (.updateCall call.id (.updateTerminatedByIfFailed e.failureTerminatedBy))
    ⟨⟨nofun, nofun⟩, nofun, nofun⟩
  refine .ite (fun _ => Prog.stays_ret _) fun _ => .bind (Prog.stays_cmd hemit) fun _ => ?_
  exact .ite (fun _ => .bind (Prog.stays_cmd hblame) fun _ => Prog.stays_ret _) fun _ => Prog.stays_ret _

theorem stampEnd_stays (call : Call) (e : ProviderEnd) : (stampEnd call e).Stays protocol Q := by
  have hread := h (.query .now) ⟨⟨nofun, nofun⟩, nofun, nofun⟩
  have hstamp : ∀ now, (updateTimestamp call.id .endedAt now).Stays protocol Q := fun now =>
    updateTimestamp_stays
      (h (.updateCall call.id (.updateTimestamp .endedAt now)) ⟨⟨nofun, nofun⟩, nofun, nofun⟩)
      (h (.updateCall call.id .correctNoAnswerIfAnswered) ⟨⟨nofun, nofun⟩, nofun, nofun⟩)
  exact .ite (fun _ => .bind (Prog.stays_cmd hread) hstamp) fun _ => Prog.stays_ret _

end beside

theorem customerGaveUp_takes (call : Call) (reason : TerminationReason) :
    (customerGaveUp call reason).Takes protocol (Ended call reason)
      (fun (q : Phase) => q.role = .providerEnd) := by
  have hret : ∀ u : Unit, (pure u : Code Unit).Takes protocol (Ended call reason)
      (fun (q : Phase) => q.role = .providerEnd) := Prog.takes_ret fun q hq => hq.1
  unfold customerGaveUp
  split
  · rename_i agentId ha
    refine .ite (fun hmissed => ?_) fun _ => hret _
    simp only [Bool.and_eq_true, decide_eq_true_eq] at hmissed
    have hmiss : (recordMiss call.id call.tenantId call.queueId agentId).Takes protocol
        (Holding .providerEnd (.closed call.id agentId)) (fun (q : Phase) => q.role = .providerEnd) :=
      (recordMiss_takes (f := .closed call.id agentId) call.id _ _ agentId _ ⟨rfl, rfl⟩).mono fun q hq => hq.1
    intro q hq
    refine (hmiss.bind fun _ => Prog.stays_ret _) q ⟨hq.1, hq.2 agentId ha hmissed.1 hmissed.2⟩
  · exact hret _

theorem finishKnownCall_follows {call : Call} (e : ProviderEnd) {q : Phase}
    (hq : q.role = .providerEnd ∧ q.heard = some call) :
    (finishKnownCall call e).Follows protocol q fun _ (q : Phase) => q.role = .providerEnd := by
  refine (Prog.follows_cmd_bind _ _ _ _).mpr ⟨trivial, fun now => ?_⟩
  refine Prog.Follows.bind (commitProviderEnd_follows e now hq) fun won q hq => ?_
  cases won with
  | false =>
    have hkeeps : ∀ s : Stmt, Aside s → protocol.Keeps (fun (q : Phase) => q.role = .providerEnd) s :=
      fun s hs => keeps_role hs.1
    refine Prog.Takes.bind (reportFailure_stays hkeeps call e false) (fun _ => ?_) q hq.1
    refine (stampEnd_stays hkeeps call e).bind fun _ => .ite (fun h => ?_) fun _ => Prog.stays_ret _
    exact absurd h (by decide)
  | true =>
    have hended := hq.2 rfl
    have hkeeps : ∀ s : Stmt, Aside s → protocol.Keeps (Ended call (e.reason call now)) s :=
      fun s hs => keeps_ended call _ hs
    have hseeks : Seeks protocol (Ended call (e.reason call now)) :=
      .of_keeps fun s hs => hkeeps s (aside_of_seeking hs)
    have hsettle : (CallTerminator.settle call (e.reason call now) e.terminatedBy).Stays protocol
        (Ended call (e.reason call now)) :=
      settle_stays hseeks (fun s hs => hkeeps s (aside_of_settling hs)) _ _ _ _ _ nofun
    refine Prog.Takes.bind (reportFailure_stays hkeeps call e true) (fun _ => ?_) q hended
    refine (stampEnd_stays hkeeps call e).bind fun _ => .ite (fun _ => ?_) fun h => absurd rfl h
    exact hsettle.bind fun _ => customerGaveUp_takes call _

theorem callEnded_follows (line : Line) (e : ProviderEnd) :
    (callEnded line e).Follows protocol { role := .providerEnd }
      fun _ (q : Phase) => q.role = .providerEnd := by
  have hkeeps : ∀ s : Stmt, Plain s → protocol.Keeps (fun (q : Phase) => q.role = .providerEnd) s :=
    fun s hs => keeps_role hs
  have hrelease := hkeeps (.record (.releaseOwnership (line.key e.providerCallId))) ⟨nofun, nofun⟩
  refine Prog.Follows.bind (findCallPatiently_follows (line.key e.providerCallId)) fun call q hq => ?_
  cases call with
  | none =>
    have hset := hkeeps (.record (.setTombstone (line.key e.providerCallId)
      { failed := e.failed, endedAt := e.endedAt })) ⟨nofun, nofun⟩
    exact (Prog.Takes.bind (Prog.stays_cmd hset) fun _ => Prog.stays_cmd hrelease) q hq.1
  | some call =>
    by_cases howns : line.owns call = true
    · simp only [howns, if_true]
      exact (finishKnownCall_follows e hq).bind fun _ q hq => hrelease q hq
    · simp only [howns]
      exact hrelease q hq.1

theorem follows (h : Handler) : h.code.Follows protocol (start h) fun _ _ => True := by
  by_cases hc : h.counts = true
  · cases h with
    | callEnded line e => exact (callEnded_follows line e).mono fun _ _ _ => trivial
    | queueTimeoutTick seconds => exact (queueTimeoutTick_stays seconds _ rfl).mono fun _ _ _ => trivial
    | ivrRingCleanup => exact runIvrRingCleanup_follows.mono fun _ _ _ => trivial
    | _ => simp [Handler.counts] at hc
  · have hkeeps : ∀ v : Vocabulary, v ≠ .routing → ∀ s : Stmt, v.Has s →
        protocol.Keeps (fun (q : Phase) => q.tally = none) s := by
      intro v hv s hs
      refine keeps_tally ?_
      rintro a rfl
      cases v <;> simp_all
    have hroutes : Routes protocol (fun (q : Phase) => q.tally = none) := by
      refine ⟨.of_keeps fun s hs => keeps_tally (aside_of_seeking hs).1.1, fun s hs => keeps_tally ?_⟩
      rintro a rfl
      cases hs
    have hvocabulary : Vocabulary.routing ∉ h.vocabulary := by
      cases h with
      | inboundCall line offer outcome => simp [Handler.vocabulary]
      | statusChanged line p status t => simp [Handler.vocabulary]
      | _ => simp [Handler.vocabulary]
    exact (h.code_stays hroutes (hkeeps .ending fun h => by cases h) (fun hcounts => absurd hcounts hc)
      (fun v hm => hkeeps v (ne_of_mem_of_not_mem hm hvocabulary)) _ rfl).mono fun _ _ _ => trivial

/-! ## Offers step by step -/

/-- An offer that a thread closes is over. -/
theorem not_offered_of_closing {q : Phase} {w : World} {c' c a : Nat} {u : CallUpdate}
    (hclosing : closing q c' u = some (c, a)) (hwon : (w.call c').any u.guard = true) :
    Offered ((Stmt.updateCall c' u).exec w).1 c a = false := by
  obtain ⟨row, hrow, hg⟩ : ∃ row, w.call c' = some row ∧ u.guard row = true := by
    simpa [Option.any_eq_true] using hwon
  have hset := Stmt.exec_updateCall hrow hg
  cases u with
  | withdrawOffer b t =>
    simp only [closing] at hclosing
    split at hclosing
    · cases hclosing
      simp [Offered, hset, CallUpdate.set]
    · cases hclosing
  | finalizeFromWebhook status reason who =>
    cases status with
    | terminated =>
      simp only [closing] at hclosing
      split at hclosing
      · obtain ⟨b, -, hb⟩ := Option.map_eq_some_iff.mp hclosing
        cases hb
        simp [Offered, hset, CallUpdate.set]
      · cases hclosing
    | _ => cases hclosing
  | _ => cases hclosing

/-- A ring whose end was tried, and that is not offered still, is over. -/
theorem not_offered_of_tried {w : World} {c' c a : Nat} {u : CallUpdate} {pending : List (Nat × Nat)}
    (hpending : (c, a) ∈ pending) (htried : (c, a) ∉ stillPending pending c' u)
    (hlost : (w.call c').any u.guard = false → Offered w c a = false) :
    Offered ((Stmt.updateCall c' u).exec w).1 c a = false := by
  cases u with
  | terminateCallIfNotTerminated reason who endedAt required =>
    obtain rfl : c = c' := by
      by_contra hne
      exact htried (List.mem_filter.mpr ⟨hpending, by simpa using hne⟩)
    cases hrow : w.call c with
    | none =>
      have hsame : ((Stmt.updateCall c (.terminateCallIfNotTerminated reason who endedAt required)).exec w).1.call c
          = none := by
        simp only [World.call] at hrow ⊢
        simp [Stmt.exec, Store.Table.get_updateWhere, hrow]
      simp [Offered, hsame]
    | some row =>
      by_cases hg : (CallUpdate.terminateCallIfNotTerminated reason who endedAt required).guard row = true
      · simp [Offered, Stmt.exec_updateCall hrow hg, CallUpdate.set]
      · have hsame : ((Stmt.updateCall c (.terminateCallIfNotTerminated reason who endedAt required)).exec w).1.call c
            = some row := by
          simp only [World.call] at hrow ⊢
          simp [Stmt.exec, Store.Table.get_updateWhere, hrow, hg]
        have hover := hlost (by simpa [hrow] using hg)
        simpa [Offered, hsame, hrow] using hover
  | _ => exact absurd hpending htried

/-- A ring that a sweep reads is offered. -/
theorem offered_of_read {w : World} {c a : Nat}
    (h : (c, a) ∈ rings (Query.findStuckIvrTransferredCalls.answer w)) : Offered w c a = true := by
  obtain ⟨call, hcall, hring⟩ := List.mem_filterMap.mp h
  obtain ⟨b, hagent, hb⟩ := Option.map_eq_some_iff.mp hring
  cases hb
  obtain ⟨hrow, hholds⟩ := World.mem_selectCalls.mp hcall
  have hstatus : call.status = .ringing := by
    simp only [findStuckIvrTransferredCalls, Sql.Truth.holds_and, Bool.and_eq_true, holds_statusIs,
      decide_eq_true_eq] at hholds
    exact hholds.1.1.1.1.1.1.1
  simp [Offered, hrow, hagent, hstatus]

section numbering

variable {s : Service ι} {schedule : List ι} {c a n : Nat}

theorem offers_mono {j k : Nat} (h : j ≤ k) : offers s schedule c a j ≤ offers s schedule c a k :=
  monotone_nat_of_le_succ (fun _ => Nat.le_add_right _ _) h

variable (s schedule c a n) in
/-- The `n`-th offer of the call to the agent is over. -/
def Over (k : Nat) : Prop :=
  n ≤ offers s schedule c a k ∧
    (Offered (s.after schedule k).state c a = true → n < offers s schedule c a k)

theorem over_of_not_offered {k : Nat} (hn : n ≤ offers s schedule c a k)
    (h : Offered (s.after schedule k).state c a = false) : Over s schedule c a n k := by
  refine ⟨hn, fun hopen => ?_⟩
  simp [h] at hopen

/-- What is over stays over: another offer has another number. -/
theorem Over.succ {k : Nat} (h : Over s schedule c a n k) : Over s schedule c a n (k + 1) := by
  obtain ⟨hle, hlt⟩ := h
  have hmono : offers s schedule c a k ≤ offers s schedule c a (k + 1) := offers_mono (Nat.le_succ k)
  refine ⟨hle.trans hmono, fun hopen => ?_⟩
  by_cases hwas : Offered (s.after schedule k).state c a = true
  · have := hlt hwas
    omega
  · have hnext : offers s schedule c a (k + 1) = offers s schedule c a k + 1 := by
      simp [offers, hopen, hwas]
    omega

/-- The offer that is open now is not over. -/
theorem Over.ne {k : Nat} (h : Over s schedule c a n k)
    (hopen : Offered (s.after schedule k).state c a = true) : n ≠ offers s schedule c a k :=
  (h.2 hopen).ne

end numbering

section found

variable {hs : ι → Handler} {s : Service ι} {schedule : List ι} {c a : Nat}

theorem foundAt_le (i : ι) (k : Nat) : foundAt hs s schedule i c a k ≤ k := by
  induction k with
  | zero => exact le_rfl
  | succ k ih =>
    unfold foundAt
    split <;> omega

theorem foundAt_of_ne {i j : ι} {k : Nat} (hi : schedule[k]? = some i) (hne : j ≠ i) :
    foundAt hs s schedule j c a (k + 1) = foundAt hs s schedule j c a k := by
  have hother : ¬ i = j := fun h => hne h.symm
  simp [foundAt, hi, hother]

theorem foundAt_of_idle {i j : ι} {k : Nat} (hi : schedule[k]? = some i)
    (hnone : (s.after schedule k).next i = none) :
    foundAt hs s schedule j c a (k + 1) = foundAt hs s schedule j c a k := by
  by_cases hji : j = i
  · subst hji
    simp [foundAt, hnone]
  · exact foundAt_of_ne hi hji

variable {i : ι} {k : Nat} {stmt : Stmt} (hnext : (s.after schedule k).next i = some stmt)
include hnext

theorem foundAt_of_finds (hi : schedule[k]? = some i)
    (h : finds (phases hs s schedule k i) (s.after schedule k).state c a stmt = true) :
    foundAt hs s schedule i c a (k + 1) = k := by
  simp [foundAt, hi, hnext, h]

theorem foundAt_of_not_finds
    (h : finds (phases hs s schedule k i) (s.after schedule k).state c a stmt = false) :
    foundAt hs s schedule i c a (k + 1) = foundAt hs s schedule i c a k := by
  simp [foundAt, hnext, h]

end found

/-! ### What a statement finds -/

/-- How a statement leaves what its thread has found. -/
inductive Finding (q : Phase) (w : World) (stmt : Stmt) (f : Found) : Prop
  | kept (hf : f = q.found) (hnot : ∀ c a, finds q w c a stmt = false)
      (hcount : ∀ a, stmt ≠ .incrementMissed a)
  | closed (c a c' : Nat) (u : CallUpdate) (hs : stmt = .updateCall c' u)
      (hclosing : closing q c' u = some (c, a)) (hwon : (w.call c').any u.guard = true)
      (hf : f = .closed c a)
  | read (hs : stmt = .query .findStuckIvrTransferredCalls) (hrole : q.role = .sweep)
      (hf : f = .ringing (rings (Query.findStuckIvrTransferredCalls.answer w)))
  | counted (a : Nat) (hs : stmt = .incrementMissed a)
      (hf : (∃ rings, q.found = .ringing rings) ∧ f = q.found ∨ f = .nothing)

theorem won_iff (w : World) (c : Nat) (u : CallUpdate) :
    ((Stmt.updateCall c u).exec w).2 = (w.call c).any u.guard := by
  rw [Bool.eq_iff_iff, Stmt.exec_updateCall_snd]
  simp [Option.any_eq_true]

theorem finding (q : Phase) (w : World) (stmt : Stmt) :
    Finding q w stmt (next q stmt (stmt.exec w).2).found := by
  cases stmt with
  | query qq =>
    cases qq with
    | findStuckIvrTransferredCalls =>
      by_cases hsweep : q.role = .sweep
      · exact .read rfl hsweep (if_pos hsweep)
      · exact .kept (if_neg hsweep) (by simp [finds, hsweep]) nofun
    | _ => exact .kept rfl (fun _ _ => rfl) nofun
  | updateCall c u =>
    show Finding q w _ (wrote q c u ((Stmt.updateCall c u).exec w).2).found
    rw [won_iff]
    cases hwon : (w.call c).any u.guard with
    | false => exact .kept (by simp [wrote]) (by simp [finds, hwon]) nofun
    | true =>
      cases hclosing : closing q c u with
      | none => exact .kept (by simp [wrote, hclosing]) (by simp [finds, hclosing]) nofun
      | some offer => exact .closed offer.1 offer.2 c u rfl hclosing hwon (by simp [wrote, hclosing])
  | incrementMissed a =>
    refine .counted a rfl ?_
    show _ ∧ (counted q a _).found = q.found ∨ (counted q a _).found = .nothing
    unfold counted
    split
    · rename_i rings hfound
      exact .inl ⟨⟨rings, hfound⟩, rfl⟩
    · exact .inr rfl
  | _ => exact .kept rfl (fun _ _ => rfl) nofun

section has

variable {q : Phase} {w : World} {stmt : Stmt} {c a : Nat}

theorem has_next (h : (next q stmt (stmt.exec w).2).found.Has c a) :
    finds q w c a stmt = true ∨ q.found.Has c a ∧ finds q w c a stmt = false := by
  cases finding q w stmt with
  | kept hf hnot _ => exact .inr ⟨hf ▸ h, hnot c a⟩
  | closed c₁ a₁ c' u hs hclosing hwon hf =>
    rw [hf] at h
    obtain ⟨rfl, rfl⟩ := h
    left
    subst hs
    simp [finds, hclosing, hwon]
  | read hs hrole hf =>
    rw [hf] at h
    left
    subst hs
    simpa [finds, hrole] using h
  | counted b hs hf =>
    subst hs
    rcases hf with ⟨_, hf⟩ | hf
    · exact .inr ⟨hf ▸ h, rfl⟩
    · rw [hf] at h
      cases h

theorem closed_next (h : (next q stmt (stmt.exec w).2).found = .closed c a) :
    (∃ c' u, stmt = .updateCall c' u ∧ closing q c' u = some (c, a) ∧ (w.call c').any u.guard = true) ∨
      q.found = .closed c a ∧ finds q w c a stmt = false ∧ ∀ b, stmt ≠ .incrementMissed b := by
  cases finding q w stmt with
  | kept hf hnot hcount => exact .inr ⟨hf.symm.trans h, hnot c a, hcount⟩
  | closed c₁ a₁ c' u hs hclosing hwon hf =>
    obtain ⟨rfl, rfl⟩ : c₁ = c ∧ a₁ = a := by simpa using hf.symm.trans h
    exact .inl ⟨c', u, hs, hclosing, hwon⟩
  | read hs hrole hf => cases hf.symm.trans h
  | counted b hs hf =>
    rcases hf with ⟨⟨rings, hrings⟩, hf⟩ | hf
    · cases (hrings.symm.trans hf.symm).trans h
    · cases hf.symm.trans h

theorem finds_of_closing {c' : Nat} {u : CallUpdate} (hclosing : closing q c' u = some (c, a))
    (hwon : (w.call c').any u.guard = true) : finds q w c a (.updateCall c' u) = true := by
  simp [finds, hclosing, hwon]

/-- A ring stays to be ended until its call's end is tried. -/
theorem pending_next (h : (c, a) ∈ q.pending) :
    (c, a) ∈ (next q stmt (stmt.exec w).2).pending ∨
      ∃ c' u, stmt = .updateCall c' u ∧ (c, a) ∉ stillPending q.pending c' u := by
  cases stmt with
  | query qq => cases qq <;> exact .inl h
  | updateCall c' u =>
    by_cases hstill : (c, a) ∈ stillPending q.pending c' u
    · exact .inl hstill
    · exact .inr ⟨c', u, rfl, hstill⟩
  | incrementMissed b =>
    left
    show (c, a) ∈ (counted q b _).pending
    unfold counted
    split
    · exact List.mem_append_right _ h
    · exact h
  | _ => exact .inl h

/-- A sweep that counts a ring has its call to end. -/
theorem pending_counted {rings : List (Nat × Nat)} (hfound : q.found = .ringing rings)
    (hasked : q.asked = some (c, a)) (streak : Nat) : (c, a) ∈ (counted q a streak).pending := by
  unfold counted
  simp [hfound, hasked]

end has

/-! ## The invariant of a run -/

section invariant

variable (hs : ι → Handler) (s : Service ι) (schedule : List ι)

/-- Before move `k`: a closed offer is over, is nobody else's to count and was
never counted; one that was counted is over, or a sweep is still to end it. -/
structure Invariant (k : Nat) : Prop where
  conforms : protocol.Conforms (fun _ => True) (fun i => start (hs i)) (s.after schedule k)
  swept : ∀ i rings, (phases hs s schedule k i).found = .ringing rings →
    (phases hs s schedule k i).role = .sweep
  found : ∀ i c a, (phases hs s schedule k i).found.Has c a → foundAt hs s schedule i c a k < k ∧
    Offered (s.after schedule (foundAt hs s schedule i c a k)).state c a = true
  closed : ∀ i c a, (phases hs s schedule k i).found = .closed c a →
    Over s schedule c a (offers s schedule c a (foundAt hs s schedule i c a k)) k
  fresh : ∀ i c a m, (phases hs s schedule k i).found = .closed c a → m < k →
    ¬ Miss hs s schedule m a c (offers s schedule c a (foundAt hs s schedule i c a k))
  apart : ∀ i j c a, (phases hs s schedule k i).found = .closed c a →
    (phases hs s schedule k j).found = .closed c a →
    offers s schedule c a (foundAt hs s schedule i c a k) =
      offers s schedule c a (foundAt hs s schedule j c a k) → i = j
  settled : ∀ m a c n, m < k → Miss hs s schedule m a c n →
    Over s schedule c a n k ∨ ∃ j ∈ schedule, (c, a) ∈ (phases hs s schedule k j).pending
  once : ∀ m m' a c n, m < k → m' < k → Miss hs s schedule m a c n → Miss hs s schedule m' a c n → m = m'

/-- Move `k` is a sound one: `i` issues `stmt`. -/
structure Moved (k : Nat) (i : ι) (stmt : Stmt) : Prop where
  mover : schedule[k]? = some i
  next : (s.after schedule k).next i = some stmt
  allows : allows (phases hs s schedule k i) stmt
  state : (s.after schedule (k + 1)).state = (stmt.exec (s.after schedule k).state).1
  own : phases hs s schedule (k + 1) i =
    MissedOnce.next (phases hs s schedule k i) stmt (stmt.exec (s.after schedule k).state).2
  others : ∀ j, j ≠ i → phases hs s schedule (k + 1) j = phases hs s schedule k j
  sound : Sound hs s schedule k i = true

end invariant

variable {hs : ι → Handler} {s : Service ι} {schedule : List ι} {k : Nat} {i : ι} {stmt : Stmt}

theorem toEnd_of_pending {j : ι} {c a : Nat} (hj : j ∈ schedule)
    (h : (c, a) ∈ (phases hs s schedule k j).pending) : toEnd hs s schedule k c a = true := by
  refine List.any_eq_true.mpr ⟨j, hj, ?_⟩
  simpa using h

namespace Moved

variable (hm : Moved hs s schedule k i stmt)
include hm

theorem mem : i ∈ schedule := List.mem_of_getElem? hm.mover

/-- A sound move closes only an offer that is open and that no sweep is still to end. -/
theorem open_of_closing {c' c a : Nat} {u : CallUpdate} (hstmt : stmt = .updateCall c' u)
    (hclosing : closing (phases hs s schedule k i) c' u = some (c, a))
    (hwon : ((s.after schedule k).state.call c').any u.guard = true) :
    Offered (s.after schedule k).state c a = true ∧ toEnd hs s schedule k c a = false := by
  have hsound := hm.sound
  subst hstmt
  simpa [Sound, hm.next, hwon, hclosing] using hsound

theorem open_of_finds {c a : Nat}
    (h : finds (phases hs s schedule k i) (s.after schedule k).state c a stmt = true) :
    Offered (s.after schedule k).state c a = true := by
  cases stmt with
  | updateCall c' u =>
    simp only [finds, Bool.and_eq_true, decide_eq_true_eq] at h
    exact (hm.open_of_closing rfl h.1 h.2).1
  | query qq =>
    cases qq with
    | findStuckIvrTransferredCalls =>
      simp only [finds, Bool.and_eq_true, List.contains_iff_mem] at h
      exact offered_of_read h.2
    | _ => cases h
  | _ => cases h

/-- A sound sweep counts only the ring it read, and one that no sweep is still to end. -/
theorem open_of_counts {c a b : Nat} (hstmt : stmt = .incrementMissed b)
    (hrole : (phases hs s schedule k i).role = .sweep)
    (hasked : (phases hs s schedule k i).asked = some (c, a)) :
    Offered (s.after schedule k).state c a = true ∧
      offers s schedule c a k = offers s schedule c a (foundAt hs s schedule i c a k) ∧
      toEnd hs s schedule k c a = false := by
  have hsound := hm.sound
  subst hstmt
  simpa [Sound, hm.next, hrole, hasked, and_assoc] using hsound

/-- A ring whose end was tried is over after a sound move. -/
theorem over_of_tried {c a c' n : Nat} {u : CallUpdate} (hstmt : stmt = .updateCall c' u)
    (hn : n ≤ offers s schedule c a k) (hpending : (c, a) ∈ (phases hs s schedule k i).pending)
    (htried : (c, a) ∉ stillPending (phases hs s schedule k i).pending c' u) :
    Over s schedule c a n (k + 1) := by
  refine over_of_not_offered (hn.trans (offers_mono (Nat.le_succ k))) ?_
  rw [hm.state]
  subst hstmt
  refine not_offered_of_tried hpending htried fun hlost => ?_
  have hsound := hm.sound
  simp only [Sound, hm.next, Option.all_some, hlost, Bool.false_eq_true, if_false, List.all_eq_true] at hsound
  simpa [htried] using hsound (c, a) hpending

/-- What a thread counts it has found missed. -/
theorem of_miss {a c n : Nat} (h : Miss hs s schedule k a c n) : stmt = .incrementMissed a ∧
    (phases hs s schedule k i).asked = some (c, a) ∧ (phases hs s schedule k i).found.Has c a ∧
    n = offers s schedule c a (foundAt hs s schedule i c a k) := by
  obtain ⟨j, hj, hnext, hasked, hn⟩ := h
  obtain rfl : i = j := Option.some.inj (hm.mover.symm.trans hj)
  obtain rfl : stmt = .incrementMissed a := Option.some.inj (hm.next.symm.trans hnext)
  obtain ⟨c', hasked', hfound⟩ := hm.allows
  obtain ⟨rfl, -⟩ : c = c' ∧ a = a := by simpa using hasked.symm.trans hasked'
  exact ⟨rfl, hasked, hfound, hn⟩

/-- A closed offer was closed by this move, or is the thread's still. -/
theorem closed_cases {j : ι} {c a : Nat} (h : (phases hs s schedule (k + 1) j).found = .closed c a) :
    (j = i ∧ foundAt hs s schedule j c a (k + 1) = k ∧ (∀ b, stmt ≠ .incrementMissed b) ∧
      Offered (s.after schedule k).state c a = true ∧ toEnd hs s schedule k c a = false ∧
      Offered (s.after schedule (k + 1)).state c a = false) ∨
    ((phases hs s schedule k j).found = .closed c a ∧
      foundAt hs s schedule j c a (k + 1) = foundAt hs s schedule j c a k ∧
      (j = i → ∀ b, stmt ≠ .incrementMissed b)) := by
  by_cases hj : j = i
  · subst hj
    rw [hm.own] at h
    rcases closed_next h with ⟨c', u, hstmt, hclosing, hwon⟩ | ⟨hold, hnot, hcount⟩
    · left
      obtain ⟨hopen, hend⟩ := hm.open_of_closing hstmt hclosing hwon
      have hfinds := hstmt ▸ finds_of_closing hclosing hwon
      have hover : Offered (s.after schedule (k + 1)).state c a = false := by
        rw [hm.state, hstmt]
        exact not_offered_of_closing hclosing hwon
      exact ⟨rfl, foundAt_of_finds hm.next hm.mover hfinds, by simp [hstmt], hopen, hend, hover⟩
    · exact .inr ⟨hold, foundAt_of_not_finds hm.next hnot, fun _ => hcount⟩
  · rw [hm.others j hj] at h
    exact .inr ⟨h, foundAt_of_ne hm.mover hj, fun hji => absurd hji hj⟩

end Moved

namespace Invariant

section moved

variable (h : Invariant hs s schedule k) (hm : Moved hs s schedule k i stmt)
include h hm

omit hm in
/-- An offer open now that no sweep is still to end was never counted. -/
theorem not_miss_of_open {c a m : Nat} (hopen : Offered (s.after schedule k).state c a = true)
    (hend : toEnd hs s schedule k c a = false) (hlt : m < k) :
    ¬ Miss hs s schedule m a c (offers s schedule c a k) := by
  intro hmiss
  rcases h.settled m a c _ hlt hmiss with hover | ⟨j, hj, hpending⟩
  · exact hover.ne hopen rfl
  · simp [toEnd_of_pending hj hpending] at hend

/-- What is counted now was not counted before. -/
theorem not_miss_of_miss {c a n m : Nat} (hmiss : Miss hs s schedule k a c n) (hlt : m < k) :
    ¬ Miss hs s schedule m a c n := by
  obtain ⟨hstmt, hasked, hhas, rfl⟩ := hm.of_miss hmiss
  cases hfound : (phases hs s schedule k i).found with
  | nothing =>
    rw [hfound] at hhas
    cases hhas
  | closed c' a' =>
    rw [hfound] at hhas
    obtain ⟨rfl, rfl⟩ := hhas
    exact h.fresh i c' a' m hfound hlt
  | ringing rings =>
    obtain ⟨hopen, hsame, hend⟩ := hm.open_of_counts hstmt (h.swept i rings hfound) hasked
    rw [← hsame]
    exact h.not_miss_of_open hopen hend hlt

theorem swept_succ (j : ι) (rings : List (Nat × Nat))
    (hj : (phases hs s schedule (k + 1) j).found = .ringing rings) :
    (phases hs s schedule (k + 1) j).role = .sweep := by
  by_cases hji : j = i
  · subst hji
    rw [hm.own] at hj ⊢
    rw [next_role]
    cases finding (phases hs s schedule k j) (s.after schedule k).state stmt with
    | kept hf _ _ => exact h.swept j rings (hf.symm.trans hj)
    | closed c a c' u _ _ _ hf => cases hf.symm.trans hj
    | read _ hrole _ => exact hrole
    | counted b _ hf =>
      rcases hf with ⟨_, hf⟩ | hf
      · exact h.swept j rings (hf.symm.trans hj)
      · cases hf.symm.trans hj
  · rw [hm.others j hji] at hj ⊢
    exact h.swept j rings hj

theorem found_succ (j : ι) (c a : Nat) (hj : (phases hs s schedule (k + 1) j).found.Has c a) :
    foundAt hs s schedule j c a (k + 1) < k + 1 ∧
      Offered (s.after schedule (foundAt hs s schedule j c a (k + 1))).state c a = true := by
  by_cases hji : j = i
  · subst hji
    rw [hm.own] at hj
    rcases has_next hj with hfinds | ⟨hhas, hnot⟩
    · rw [foundAt_of_finds hm.next hm.mover hfinds]
      exact ⟨Nat.lt_succ_self k, hm.open_of_finds hfinds⟩
    · rw [foundAt_of_not_finds hm.next hnot]
      exact ⟨(h.found j c a hhas).1.trans (Nat.lt_succ_self k), (h.found j c a hhas).2⟩
  · rw [hm.others j hji] at hj
    rw [foundAt_of_ne hm.mover hji]
    exact ⟨(h.found j c a hj).1.trans (Nat.lt_succ_self k), (h.found j c a hj).2⟩

theorem over_succ (j : ι) (c a : Nat) (hj : (phases hs s schedule (k + 1) j).found = .closed c a) :
    Over s schedule c a (offers s schedule c a (foundAt hs s schedule j c a (k + 1))) (k + 1) := by
  rcases hm.closed_cases hj with ⟨_, hat, _, _, _, hover⟩ | ⟨hold, hat, _⟩
  · rw [hat]
    exact over_of_not_offered (offers_mono (Nat.le_succ k)) hover
  · rw [hat]
    exact (h.closed j c a hold).succ

theorem fresh_succ (j : ι) (c a m : Nat) (hj : (phases hs s schedule (k + 1) j).found = .closed c a)
    (hlt : m < k + 1) :
    ¬ Miss hs s schedule m a c (offers s schedule c a (foundAt hs s schedule j c a (k + 1))) := by
  intro hmiss
  rcases hm.closed_cases hj with ⟨_, hat, hcount, hopen, hend, _⟩ | ⟨hold, hat, hcount⟩
  · rw [hat] at hmiss
    by_cases hmk : m = k
    · subst hmk
      exact hcount a (hm.of_miss hmiss).1
    · exact h.not_miss_of_open hopen hend (by omega) hmiss
  · rw [hat] at hmiss
    by_cases hmk : m = k
    · -- the thread that counts found another offer missed
      subst hmk
      obtain ⟨hstmt, hasked, hhas, hn⟩ := hm.of_miss hmiss
      cases hfound : (phases hs s schedule m i).found with
      | nothing =>
        rw [hfound] at hhas
        cases hhas
      | closed c' a' =>
        rw [hfound] at hhas
        obtain ⟨rfl, rfl⟩ := hhas
        exact hcount (h.apart j i c' a' hold hfound hn) a' hstmt
      | ringing rings =>
        obtain ⟨hopen, hsame, _⟩ := hm.open_of_counts hstmt (h.swept i rings hfound) hasked
        exact (h.closed j c a hold).ne hopen (hn.trans hsame.symm)
    · exact h.fresh j c a m hold (by omega) hmiss

theorem apart_succ (j j' : ι) (c a : Nat) (hj : (phases hs s schedule (k + 1) j).found = .closed c a)
    (hj' : (phases hs s schedule (k + 1) j').found = .closed c a)
    (hn : offers s schedule c a (foundAt hs s schedule j c a (k + 1)) =
      offers s schedule c a (foundAt hs s schedule j' c a (k + 1))) : j = j' := by
  rcases hm.closed_cases hj with ⟨rfl, hat, _, hopen, _, _⟩ | ⟨hold, hat, _⟩ <;>
    rcases hm.closed_cases hj' with ⟨rfl, hat', _, hopen', _, _⟩ | ⟨hold', hat', _⟩
  · rfl
  · rw [hat, hat'] at hn
    exact absurd hn.symm ((h.closed j' c a hold').ne hopen)
  · rw [hat, hat'] at hn
    exact absurd hn ((h.closed j c a hold).ne hopen')
  · rw [hat, hat'] at hn
    exact h.apart j j' c a hold hold' hn

theorem settled_succ (m a c n : Nat) (hlt : m < k + 1) (hmiss : Miss hs s schedule m a c n) :
    Over s schedule c a n (k + 1) ∨ ∃ j ∈ schedule, (c, a) ∈ (phases hs s schedule (k + 1) j).pending := by
  by_cases hmk : m = k
  · subst hmk
    obtain ⟨rfl, hasked, hhas, rfl⟩ := hm.of_miss hmiss
    cases hfound : (phases hs s schedule m i).found with
    | nothing =>
      rw [hfound] at hhas
      cases hhas
    | closed c' a' =>
      rw [hfound] at hhas
      obtain ⟨rfl, rfl⟩ := hhas
      exact .inl (h.closed i c' a' hfound).succ
    | ringing rings =>
      refine .inr ⟨i, hm.mem, ?_⟩
      rw [hm.own]
      exact pending_counted hfound hasked _
  · rcases h.settled m a c n (by omega) hmiss with hover | ⟨j, hj, hpending⟩
    · exact .inl hover.succ
    · by_cases hji : j = i
      · subst hji
        have htry : (c, a) ∈ (next (phases hs s schedule k j) stmt
              (stmt.exec (s.after schedule k).state).2).pending ∨
            ∃ c' u, stmt = .updateCall c' u ∧
              (c, a) ∉ stillPending (phases hs s schedule k j).pending c' u := pending_next hpending
        rcases htry with hstill | ⟨c', u, hstmt, htried⟩
        · exact .inr ⟨j, hj, hm.own ▸ hstill⟩
        · have hn : n ≤ offers s schedule c a k := by
            obtain ⟨i', _, _, _, rfl⟩ := hmiss
            have hle : foundAt hs s schedule i' c a m ≤ m := foundAt_le i' m
            exact offers_mono (by omega)
          exact .inl (hm.over_of_tried hstmt hn hpending htried)
      · exact .inr ⟨j, hj, (hm.others j hji).symm ▸ hpending⟩

theorem once_succ (m m' a c n : Nat) (hlt : m < k + 1) (hlt' : m' < k + 1)
    (hmiss : Miss hs s schedule m a c n) (hmiss' : Miss hs s schedule m' a c n) : m = m' := by
  by_cases hmk : m = k <;> by_cases hmk' : m' = k
  · omega
  · subst hmk
    exact absurd hmiss' (h.not_miss_of_miss hm hmiss (by omega))
  · subst hmk'
    exact absurd hmiss (h.not_miss_of_miss hm hmiss' (by omega))
  · exact h.once m m' a c n (by omega) (by omega) hmiss hmiss'

end moved

theorem idle (h : Invariant hs s schedule k) (hi : schedule[k]? = some i)
    (hnone : (s.after schedule k).next i = none)
    (hsame : s.after schedule (k + 1) = s.after schedule k) : Invariant hs s schedule (k + 1) := by
  have hphases : ∀ j, phases hs s schedule (k + 1) j = phases hs s schedule k j := by
    intro j
    unfold phases
    rw [hsame]
  have hat : ∀ j c a, foundAt hs s schedule j c a (k + 1) = foundAt hs s schedule j c a k :=
    fun j c a => foundAt_of_idle hi hnone
  have hbefore : ∀ {m a c n}, m < k + 1 → Miss hs s schedule m a c n → m < k := by
    rintro m a c n hlt ⟨j, hj, hnext, _⟩
    by_contra hge
    obtain rfl : m = k := by omega
    obtain rfl : i = j := Option.some.inj (hi.symm.trans hj)
    simp [hnone] at hnext
  refine ⟨hsame ▸ h.conforms, ?_, ?_, ?_, ?_, ?_, ?_, ?_⟩
  · simpa only [hphases] using h.swept
  · intro j c a hj
    rw [hphases] at hj
    rw [hat]
    exact ⟨(h.found j c a hj).1.trans (Nat.lt_succ_self k), (h.found j c a hj).2⟩
  · intro j c a hj
    rw [hphases] at hj
    rw [hat]
    exact (h.closed j c a hj).succ
  · intro j c a m hj hlt hmiss
    rw [hphases] at hj
    rw [hat] at hmiss
    exact h.fresh j c a m hj (hbefore hlt hmiss) hmiss
  · simpa only [hphases, hat] using h.apart
  · intro m a c n hlt hmiss
    simp only [hphases]
    exact (h.settled m a c n (hbefore hlt hmiss) hmiss).imp_left Over.succ
  · intro m m' a c n hlt hlt' hmiss hmiss'
    exact h.once m m' a c n (hbefore hlt hmiss) (hbefore hlt' hmiss') hmiss hmiss'

theorem init (w : World) : Invariant hs (Service.spawn w hs) schedule 0 where
  conforms := Protocol.conforms_spawn fun i => follows (hs i)
  swept i rings hi := by cases hi
  found i c a hi := hi.elim
  closed i c a hi := by cases hi
  fresh i c a m hi := by cases hi
  apart i j c a hi := by cases hi
  settled m a c n hlt := absurd hlt (by omega)
  once m m' a c n hlt := absurd hlt (by omega)

/-- A sound move of a thread that is not done. -/
theorem moved (h : Invariant hs s schedule k) (hi : schedule[k]? = some i)
    (hok : Sound hs s schedule k i = true) :
    Invariant hs s schedule (k + 1) ∧
      ((s.after schedule k).next i = none ∧ s.after schedule (k + 1) = s.after schedule k ∨
        ∃ stmt, Moved hs s schedule k i stmt) := by
  obtain ⟨hconforms, ⟨hnone, hsame⟩ | ⟨stmt, hnext, hallows, hstate, hphases⟩⟩ :=
    Service.after_succ hi h.conforms
  · exact ⟨h.idle hi hnone hsame, .inl ⟨hnone, hsame⟩⟩
  · have hm : Moved hs s schedule k i stmt := by
      refine ⟨hi, hnext, hallows, hstate, ?_, fun j hj => ?_, hok⟩
      · unfold phases
        rw [hphases, Function.update_self]
        rfl
      · unfold phases
        rw [hphases, Function.update_of_ne hj]
    exact ⟨⟨hconforms, h.swept_succ hm, h.found_succ hm, h.over_succ hm, h.fresh_succ hm,
      h.apart_succ hm, h.settled_succ hm, h.once_succ hm⟩, .inr ⟨stmt, hm⟩⟩

end Invariant

/-! ## Streaks -/

/-- The moves that counted a miss of the agent since the streak's last reset. -/
def missedAt (s : Service ι) (schedule : List ι) (a : Nat) : Nat → List Nat
  | 0 => []
  | k + 1 =>
    match schedule[k]?.bind (s.after schedule k).next with
    | some (.incrementMissed b) => if b = a then k :: missedAt s schedule a k else missedAt s schedule a k
    | some (.record (.resetMissedStreak b)) => if b = a then [] else missedAt s schedule a k
    | _ => missedAt s schedule a k

/-- The streak is what it held at its last reset and the misses since. -/
structure Streak (s : Service ι) (schedule : List ι) (a k : Nat) : Prop where
  streak : (s.after schedule k).state.missedStreak a =
    carried s schedule a k + (missedAt s schedule a k).length
  nodup : (missedAt s schedule a k).Nodup
  since : ∀ m ∈ missedAt s schedule a k, sinceReset s schedule a k ≤ m ∧ m < k ∧
    ∃ i, schedule[m]? = some i ∧ (s.after schedule m).next i = some (.incrementMissed a)

section streak

variable {a : Nat}

theorem sinceReset_le (k : Nat) : sinceReset s schedule a k ≤ k := by
  induction k with
  | zero => exact le_rfl
  | succ k ih =>
    unfold sinceReset
    split <;> omega

theorem Streak.init : Streak s schedule a 0 :=
  ⟨by simp [carried, sinceReset, missedAt, Service.after, Service.run, Concurrency.run], List.nodup_nil,
    by simp [missedAt]⟩

theorem Streak.idle (h : Streak s schedule a k) (hi : schedule[k]? = some i)
    (hnone : (s.after schedule k).next i = none)
    (hsame : s.after schedule (k + 1) = s.after schedule k) : Streak s schedule a (k + 1) := by
  have hsince : sinceReset s schedule a (k + 1) = sinceReset s schedule a k := by
    simp [sinceReset, hi, hnone]
  have hmissed : missedAt s schedule a (k + 1) = missedAt s schedule a k := by
    simp [missedAt, hi, hnone]
  refine ⟨?_, hmissed ▸ h.nodup, fun m hm => ?_⟩
  · rw [hsame, hmissed, h.streak]
    simp [carried, hsince]
  · rw [hmissed] at hm
    obtain ⟨hle, hlt, hcount⟩ := h.since m hm
    exact ⟨hsince ▸ hle, hlt.trans (Nat.lt_succ_self k), hcount⟩

theorem Streak.moved (h : Streak s schedule a k) (hi : schedule[k]? = some i)
    (hnext : (s.after schedule k).next i = some stmt)
    (hstate : (s.after schedule (k + 1)).state = (stmt.exec (s.after schedule k).state).1) :
    Streak s schedule a (k + 1) := by
  cases Stmt.onStreak (s.after schedule k).state a stmt with
  | counted hs hcount =>
    subst hs
    have hsince : sinceReset s schedule a (k + 1) = sinceReset s schedule a k := by
      simp [sinceReset, hi, hnext]
    have hmissed : missedAt s schedule a (k + 1) = k :: missedAt s schedule a k := by
      simp [missedAt, hi, hnext]
    refine ⟨?_, ?_, fun m hm => ?_⟩
    · rw [hstate, hcount, h.streak, hmissed, List.length_cons]
      simp only [carried, hsince]
      omega
    · rw [hmissed]
      refine List.nodup_cons.mpr ⟨fun hmem => ?_, h.nodup⟩
      exact absurd (h.since k hmem).2.1 (lt_irrefl k)
    · rw [hmissed, List.mem_cons] at hm
      rw [hsince]
      rcases hm with rfl | hm
      · exact ⟨sinceReset_le m, Nat.lt_succ_self m, i, hi, hnext⟩
      · obtain ⟨hle, hlt, hcounted⟩ := h.since m hm
        exact ⟨hle, hlt.trans (Nat.lt_succ_self k), hcounted⟩
  | reset hs hreset =>
    subst hs
    have hsince : sinceReset s schedule a (k + 1) = k + 1 := by simp [sinceReset, hi, hnext]
    have hmissed : missedAt s schedule a (k + 1) = [] := by simp [missedAt, hi, hnext]
    refine ⟨?_, by simp [hmissed], by simp [hmissed]⟩
    rw [hstate, hreset, hmissed]
    simp [carried, hsince]
  | same hc hr hsame =>
    have hsince : sinceReset s schedule a (k + 1) = sinceReset s schedule a k := by
      simp only [sinceReset, hi, hnext, Option.bind_some, Option.any_some]
      split
      · rename_i b
        refine if_neg ?_
        rw [decide_eq_true_eq]
        rintro rfl
        exact hr rfl
      · rfl
    have hmissed : missedAt s schedule a (k + 1) = missedAt s schedule a k := by
      simp only [missedAt, hi, hnext, Option.bind_some]
      split
      · rename_i b hb
        refine if_neg ?_
        rintro rfl
        exact hc (Option.some.inj hb)
      · rename_i b hb
        refine if_neg ?_
        rintro rfl
        exact hr (Option.some.inj hb)
      · rfl
    refine ⟨?_, hmissed ▸ h.nodup, fun m hm => ?_⟩
    · rw [hstate, hsame, h.streak, hmissed]
      simp [carried, hsince]
    · rw [hmissed] at hm
      obtain ⟨hle, hlt, hcount⟩ := h.since m hm
      exact ⟨hsince ▸ hle, hlt.trans (Nat.lt_succ_self k), hcount⟩

end streak

/-- Who is about to take an agent offline has moved, and their streak still is
at the threshold. -/
def Flips (hs : ι → Handler) (s : Service ι) (schedule : List ι) (k : Nat) : Prop :=
  ∀ j a streak, (phases hs s schedule k j).tally = some (a, streak) → j ∈ schedule ∧
    ((phases hs s schedule k j).threshold.any (· ≤ streak) = true →
      streak ≤ (s.after schedule k).state.missedStreak a)

theorem Flips.init (w : World) : Flips hs (Service.spawn w hs) schedule 0 := by
  intro j a streak hj
  cases hj

theorem Flips.idle (h : Flips hs s schedule k)
    (hsame : s.after schedule (k + 1) = s.after schedule k) : Flips hs s schedule (k + 1) := by
  intro j a streak hj
  unfold phases at hj ⊢
  rw [hsame] at hj ⊢
  exact h j a streak hj

theorem Flips.moved (h : Flips hs s schedule k) (hm : Moved hs s schedule k i stmt) :
    Flips hs s schedule (k + 1) := by
  intro j a streak hj
  by_cases hji : j = i
  · subst hji
    refine ⟨hm.mem, fun _ => ?_⟩
    rw [hm.own] at hj
    by_cases hcount : ∃ b, stmt = .incrementMissed b
    · obtain ⟨b, rfl⟩ := hcount
      have htally : some (b, (s.after schedule k).state.missedStreak b + 1) = some (a, streak) :=
        (counted_tally _ _ _).symm.trans hj
      obtain ⟨rfl, rfl⟩ : b = a ∧ (s.after schedule k).state.missedStreak b + 1 = streak := by
        simpa using htally
      rw [hm.state]
      simp [Stmt.exec]
    · rw [next_tally _ fun b hb => hcount ⟨b, hb⟩] at hj
      cases hj
  · rw [hm.others j hji] at hj ⊢
    obtain ⟨hmem, hle⟩ := h j a streak hj
    refine ⟨hmem, fun hthreshold => ?_⟩
    have hbefore := hle hthreshold
    rw [hm.state]
    cases Stmt.onStreak (s.after schedule k).state a stmt with
    | counted _ hcount => omega
    | reset hstmt _ =>
      -- nobody resets a streak that is about to take its agent offline
      have hsound := hm.sound
      subst hstmt
      have hflip : aboutToFlip (phases hs s schedule k j) a = true := by
        simp [aboutToFlip, hj, hthreshold]
      simp [Sound, hm.next] at hsound
      exact absurd (hsound j hmem) (by simp [hflip])
    | same _ _ hsame => omega

/-! ## The rule -/

/-- In a sound run a missed offer is counted once, and the policy takes an
agent offline for misses of as many offers as its threshold says. -/
theorem counted_of_sound (hs : ι → Handler) (w : World) (schedule : List ι)
    (hok : ∀ k, (hk : k < schedule.length) → Sound hs (Service.spawn w hs) schedule k schedule[k] = true) :
    CountedOnce hs (Service.spawn w hs) schedule ∧ OfflineEarned hs (Service.spawn w hs) schedule := by
  have hinv : ∀ k ≤ schedule.length, Invariant hs (Service.spawn w hs) schedule k ∧
      Flips hs (Service.spawn w hs) schedule k ∧ ∀ a, Streak (Service.spawn w hs) schedule a k := by
    intro k
    induction k with
    | zero => exact fun _ => ⟨.init w, .init w, fun _ => .init⟩
    | succ k ih =>
      intro hk
      obtain ⟨h, hflips, hstreak⟩ := ih (by omega)
      have hi := List.getElem?_eq_getElem hk
      obtain ⟨hsucc, ⟨hnone, hsame⟩ | ⟨stmt, hm⟩⟩ := h.moved hi (hok k hk)
      · exact ⟨hsucc, hflips.idle hsame, fun a => (hstreak a).idle hi hnone hsame⟩
      · exact ⟨hsucc, hflips.moved hm, fun a => (hstreak a).moved hi hm.next hm.state⟩
  have hcounts : ∀ k i a, schedule[k]? = some i →
      ((Service.spawn w hs).after schedule k).next i = some (.incrementMissed a) →
      ∃ c, (phases hs (Service.spawn w hs) schedule k i).asked = some (c, a) ∧
        foundAt hs (Service.spawn w hs) schedule i c a k < k ∧
        Offered ((Service.spawn w hs).after schedule
          (foundAt hs (Service.spawn w hs) schedule i c a k)).state c a = true := by
    intro k i a hi hnext
    have h := (hinv k (List.getElem?_eq_some_iff.mp hi).1.le).1
    obtain ⟨cont, hp⟩ := Service.next_eq_some.mp hnext
    obtain ⟨c, hasked, hhas⟩ := h.conforms.allows hp
    exact ⟨c, hasked, h.found i c a hhas⟩
  have honce : ∀ k k' a c n, Miss hs (Service.spawn w hs) schedule k a c n →
      Miss hs (Service.spawn w hs) schedule k' a c n → k = k' := by
    rintro k k' a c n ⟨i, hi, hmiss⟩ ⟨i', hi', hmiss'⟩
    have hk := (List.getElem?_eq_some_iff.mp hi).1
    have hk' := (List.getElem?_eq_some_iff.mp hi').1
    exact (hinv schedule.length le_rfl).1.once k k' a c n hk hk' ⟨i, hi, hmiss⟩ ⟨i', hi', hmiss'⟩
  refine ⟨⟨hcounts, honce⟩, ?_⟩
  intro k i a streak hi hnext htally
  obtain ⟨h, hflips, hstreaks⟩ := hinv k (List.getElem?_eq_some_iff.mp hi).1.le
  have hstreak := hstreaks a
  obtain ⟨cont, hp⟩ := Service.next_eq_some.mp hnext
  obtain ⟨threshold, hthreshold, hle⟩ := h.conforms.allows hp streak htally
  have hat : streak ≤ ((Service.spawn w hs).after schedule k).state.missedStreak a := by
    refine (hflips i a streak htally).2 ?_
    have hread : (phases hs (Service.spawn w hs) schedule k i).threshold = some threshold := hthreshold
    rw [hread]
    simpa using hle
  rw [hstreak.streak] at hat
  -- each move that counted since the reset is a miss of an offer of its own
  have hmisses : ∀ m ∈ missedAt (Service.spawn w hs) schedule a k, ∃ offer : Nat × Nat,
      Miss hs (Service.spawn w hs) schedule m a offer.1 offer.2 := by
    intro m hm
    obtain ⟨_, _, j, hj, hcount⟩ := hstreak.since m hm
    obtain ⟨c, hasked, _⟩ := hcounts m j a hj hcount
    exact ⟨(c, offers _ schedule c a (foundAt hs _ schedule j c a m)), j, hj, hcount, hasked, rfl⟩
  choose! offer hoffer using hmisses
  refine ⟨threshold, (missedAt (Service.spawn w hs) schedule a k).map fun m => (m, offer m), hthreshold,
    ?_, ?_, ?_⟩
  · rw [List.length_map]
    omega
  · rw [List.map_map]
    refine hstreak.nodup.map_on fun m hm m' hm' heq => ?_
    have hsame : offer m = offer m' := heq
    exact honce m m' a _ _ (hoffer m hm) (hsame ▸ hoffer m' hm')
  · intro m hm
    obtain ⟨m', hm', rfl⟩ := List.mem_map.mp hm
    obtain ⟨hsince, hlt, _⟩ := hstreak.since m' hm'
    exact ⟨hsince, hlt, hoffer m' hm'⟩

/-! ## Two sweeps over one ring -/

/-- Call 1, from the IVR, has rung agent 1 for more than a minute; the policy
takes an agent offline for one missed offer. -/
def rung : World :=
  { now := 61000
    calls := .ofList [fun _ => { direction := .inbound, status := .ringing, state := some .queue,
                                 ivrFlowId := some 1, agentId := some 1, ringingAt := some 0,
                                 offeredAt := some 0 }]
    agents := .ofList [fun _ => { busyCallId := some 1 }]
    autoOffline := fun _ => some 1 }

def sweeps : Fin 2 → Handler := fun _ => .ivrRingCleanup

/-- One sweep after the other: the second finds the call ended. -/
theorem counted_inTurn :
    CountedOnce sweeps (Service.spawn rung sweeps) (List.replicate 20 0 ++ List.replicate 4 1) ∧
      OfflineEarned sweeps (Service.spawn rung sweeps) (List.replicate 20 0 ++ List.replicate 4 1) :=
  counted_of_sound sweeps rung _ (by decide)

/-- Both read the ring before either has ended its call: both count it. -/
theorem not_counted :
    ¬ ∀ (hs : Fin 2 → Handler) (w : World) (schedule : List (Fin 2)),
      CountedOnce hs (Service.spawn w hs) schedule := by
  intro h
  have honce := (h sweeps rung [0, 1, 0, 0, 0, 1, 1, 1]).2 4 7 1 1 1
  have hfirst : Miss sweeps (Service.spawn rung sweeps) [0, 1, 0, 0, 0, 1, 1, 1] 4 1 1 1 :=
    ⟨0, rfl, rfl, rfl, by decide⟩
  have hsecond : Miss sweeps (Service.spawn rung sweeps) [0, 1, 0, 0, 0, 1, 1, 1] 7 1 1 1 :=
    ⟨1, rfl, rfl, rfl, by decide⟩
  exact absurd (honce hfirst hsecond) (by decide)

end Callio.MissedOnce
