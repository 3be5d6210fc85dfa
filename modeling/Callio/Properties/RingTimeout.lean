import Mathlib
import Callio.Conduct.Handlers
import Callio.Persistence.Effects

/-! A ring timeout is measured from the offer of the agent it takes the call
from. The scan's guard compares times, so this rests on `offered_at` being the
second of the present agent's offer whenever a call rings. -/

namespace Callio.RingTimeout

open Concurrency Code

variable {ι : Type} [DecidableEq ι]

/-! ## Offers over a run -/

/-- Agent `a` is offered the call: it rings them, or is handed over to them. -/
def OfferedTo (w : World) (c a : Nat) : Bool :=
  (w.call c).any fun row => row.agentId = some a && row.offeredAt.isSome && row.status.active

/-- After `k` moves agent `a` has been offered the call since `t`, without a break. -/
def OfferedSince (s : Service ι) (schedule : List ι) (k c a t : Nat) : Prop :=
  ∃ n ≤ k, (s.after schedule n).state.now ≤ t ∧
    ∀ m, n ≤ m → m ≤ k → OfferedTo (s.after schedule m).state c a = true

/-- The timeout of the queue a scanned row joined. -/
def ringTimeout (w : World) (call : Call) : Nat :=
  (w.queueColumn call.toCallRow (·.ringTimeoutSeconds)).getD 0 * second

/-- The scan of `i` is about to take call `c` back from agent `a`. -/
def Withdraws (s : Service ι) (i : ι) (c a : Nat) : Prop :=
  ∃ e, s.next i = some (.updateCall c (.withdrawOffer a (some e))) ∧
    (s.state.call c).any (CallUpdate.withdrawOffer a (some e)).guard = true

/-- Every offer the scan takes back has rung its agent for the timeout of the
queue it was scanned in. -/
def RingsOut (s : Service ι) (schedule : List ι) : Prop :=
  ∀ k i c a, schedule[k]? = some i → Withdraws (s.after schedule k) i c a →
    ∃ rows call, ⟨.query .findExpiredOffers, rows⟩ ∈ ((s.after schedule k).threads i).seen ∧
      call ∈ rows ∧ call.id = c ∧ call.agentId = some a ∧
      ∃ t, OfferedSince s schedule k c a t ∧
        t + ringTimeout (s.after schedule k).state call ≤ (s.after schedule k).state.now

/-- Move `j` of `i` took an offer back from `a`, and `i` has counted nobody's
miss since. -/
def Uncounted (s : Service ι) (schedule : List ι) (k j : Nat) (i : ι) (a : Nat) : Prop :=
  j < k ∧ schedule[j]? = some i ∧ (∃ c, Withdraws (s.after schedule j) i c a) ∧
    ∀ m b, j < m → m < k → schedule[m]? = some i →
      (s.after schedule m).next i ≠ some (.incrementMissed b)

/-- A miss that the scan counts is of an offer it has just taken back. -/
def CountsRungOut (hs : ι → Handler) (s : Service ι) (schedule : List ι) : Prop :=
  ∀ k i a seconds, hs i = .queueTimeoutTick seconds → schedule[k]? = some i →
    (s.after schedule k).next i = some (.incrementMissed a) →
    (∀ waits, ⟨.query .findExpiredWaits, waits⟩ ∉ ((s.after schedule k).threads i).seen) →
    ∃ j, Uncounted s schedule k j i a

/-! ## When the call was given -/

/-- The statement gives call `c` to an agent: it writes `offered_at`, or puts
another agent in. -/
def gives (w : World) (c : Nat) : Stmt → Bool
  | .updateCall d (.assignCallToAgentIfUnassigned a) =>
      d = c && (w.call c).any (CallUpdate.assignCallToAgentIfUnassigned a).guard
  | .updateCall d (.markHandoverOffered a) => d = c && (w.call c).any (CallUpdate.markHandoverOffered a).guard
  | .updateCall d (.updateCallAgentIfCurrent old new) =>
      d = c && old ≠ some new && (w.call c).any (CallUpdate.updateCallAgentIfCurrent old new).guard
  | .claimAgentAndAssignCall a d anyShift =>
      d = c && (w.agent a).any (w.claimable a anyShift) && (w.call c).any CallRow.assignable
  | _ => false

/-- The number of moves after which the call was last given to anyone, of the
first `k`; the run's start if none of them did. -/
def given (s : Service ι) (schedule : List ι) : Nat → Nat → Nat
  | 0, _ => 0
  | k + 1, c =>
    if (schedule[k]?.bind (s.after schedule k).next).any (gives (s.after schedule k).state c) then k + 1
    else given s schedule k c

/-- The clock when the call was last given to anyone. -/
def givenAt (s : Service ι) (schedule : List ι) (k c : Nat) : Nat :=
  (s.after schedule (given s schedule k c)).state.now

/-! ## What goes wrong -/

/-- A ringing call is transferred: the time of the old agent's offer stays. -/
def movesOffer (w : World) : Stmt → Bool
  | .updateCall c (.updateCallAgentIfCurrent old new) => (w.call c).any fun row =>
      row.agentId = old && row.status = .ringing && row.direction = .inbound && old ≠ some new &&
        row.offeredAt.any (· ≠ sqlNow w.now)
  | _ => false

/-- An ended call comes back with its agent and its old offer, or one that did
not ring is made to, under an offer older than its agent's, who was given the
call at `since`. -/
def ringsAgain (w : World) (since : (c : Nat) → Nat) : Stmt → Bool
  | .updateCall c u => (w.call c).any fun row =>
      u.guard row && row.direction = .inbound && row.agentId.isSome &&
        row.offeredAt.any fun t =>
          row.ended && !(u.set w.now row).ended ||
            row.status ≠ .ringing && (u.set w.now row).status = .ringing && t ≠ sqlNow (since c)
  | _ => false

/-- The scan takes an offer back in the very second it falls due, and sooner in
it than the fraction at which the agent was given the call. -/
def takesEarly (w : World) (seen : History Stmt.Res) (since : (c : Nat) → Nat) : Stmt → Bool
  | .updateCall c (.withdrawOffer _ _) => seen.any fun
      | ⟨.query .findExpiredOffers, rows⟩ => List.any rows fun call => call.id = c &&
          sqlNow w.now = sqlNow (since c) + ringTimeout w call && w.now % second < since c % second
      | _ => false
  | _ => false

/-- Move `k` leaves no call ringing under an offer that is not its agent's, and
takes none back in the second before it is due. -/
def Sound (s : Service ι) (schedule : List ι) (k : Nat) (i : ι) : Prop :=
  ((s.after schedule k).next i).all fun stmt =>
    !movesOffer (s.after schedule k).state stmt &&
      !ringsAgain (s.after schedule k).state (givenAt s schedule k) stmt &&
      !takesEarly (s.after schedule k).state ((s.after schedule k).threads i).seen (givenAt s schedule k) stmt

instance (s : Service ι) (schedule : List ι) (k : Nat) (i : ι) : Decidable (Sound s schedule k i) :=
  inferInstanceAs (Decidable (_ = true))

/-- Every offer open at the start was made in that second. -/
def OffersNew (w : World) : Prop :=
  ∀ c row t, w.call c = some row → row.status = .ringing → row.offeredAt = some t → t = sqlNow w.now

/-! ## The scan as a protocol -/

inductive Stage
  | idle | fresh | scanning | done
  deriving DecidableEq

/-- The rows a scan read, and the agent whose miss it is about to count. -/
structure Phase where
  stage : Stage
  rows : List Call := []
  due : Option Nat := none

def next (q : Phase) : (s : Stmt) → s.Res → Phase
  | .query .findExpiredOffers, rows => if q.stage = .fresh then { stage := .scanning, rows } else q
  | .query .findExpiredWaits, _ => if q.stage = .scanning then { q with stage := .done } else q
  | .updateCall _ (.withdrawOffer a _), won => if won then { q with due := some a } else q
  | .incrementMissed _, _ => { q with due := none }
  | _, _ => q

/-- No scan is going on. -/
def Resting (q : Phase) : Prop := q.stage = .idle ∨ q.stage = .done

def allows (q : Phase) : Stmt → Prop
  | .updateCall c (.withdrawOffer a expiredBefore) =>
      Resting q ∧ expiredBefore = none ∨
        ∃ call ∈ q.rows, call.id = c ∧ call.agentId = some a ∧ call.offeredAt = expiredBefore
  | .incrementMissed a => Resting q ∨ q.due = some a
  | .createCall row => row.agentId = none ∨ row.direction = .outbound
  | _ => True

def protocol : Protocol Stmt.Res := ⟨Phase, next, allows⟩

section next

variable {q : Phase}

theorem next_scan (h : q.stage = .fresh) (rows : Query.findExpiredOffers.Res) :
    next q (.query .findExpiredOffers) rows = { stage := .scanning, rows } := if_pos h

theorem next_scan_of_ne (h : q.stage ≠ .fresh) (rows : Query.findExpiredOffers.Res) :
    next q (.query .findExpiredOffers) rows = q := if_neg h

theorem next_waits (h : q.stage = .scanning) (waits : Query.findExpiredWaits.Res) :
    next q (.query .findExpiredWaits) waits = { q with stage := .done } := if_pos h

theorem next_waits_of_ne (h : q.stage ≠ .scanning) (waits : Query.findExpiredWaits.Res) :
    next q (.query .findExpiredWaits) waits = q := if_neg h

/-- The rows of a phase are those it began with, or just read. -/
theorem rows_next (q : Phase) (s : Stmt) (r : s.Res) : (next q s r).rows = q.rows ∨
    ∃ rows, (⟨s, r⟩ : Sigma Stmt.Res) = ⟨.query .findExpiredOffers, rows⟩ ∧ (next q s r).rows = rows := by
  cases s with
  | query query =>
    cases query with
    | findExpiredOffers =>
      by_cases hfresh : q.stage = .fresh
      · exact .inr ⟨r, rfl, by rw [next_scan hfresh]⟩
      · exact .inl (by rw [next_scan_of_ne hfresh])
    | findExpiredWaits =>
      by_cases hscanning : q.stage = .scanning
      · exact .inl (by rw [next_waits hscanning])
      · exact .inl (by rw [next_waits_of_ne hscanning])
    | _ => exact .inl rfl
  | updateCall c u =>
    cases u with
    | withdrawOffer a t => cases r <;> exact .inl rfl
    | _ => exact .inl rfl
  | _ => exact .inl rfl

/-- Only the read of the waits ends the scan of offers. -/
theorem not_resting_next (hq : ¬ Resting q) {s : Stmt} (hs : s ≠ .query .findExpiredWaits) (r : s.Res) :
    ¬ Resting (next q s r) := by
  cases s with
  | query query =>
    cases query with
    | findExpiredOffers =>
      by_cases hfresh : q.stage = .fresh
      · rw [next_scan hfresh]
        rintro (h | h) <;> cases h
      · rwa [next_scan_of_ne hfresh]
    | findExpiredWaits => exact absurd rfl hs
    | _ => exact hq
  | updateCall c u =>
    cases u with
    | withdrawOffer a t => cases r <;> exact hq
    | _ => exact hq
  | _ => exact hq

end next

/-- Statements beside the scan. -/
def Plain : Stmt → Prop
  | .updateCall _ (.withdrawOffer _ expiredBefore) => expiredBefore = none
  | .createCall row => row.agentId = none ∨ row.direction = .outbound
  | _ => True

/-- Statements that take no offer back and count no miss. -/
def Aside (s : Stmt) : Prop :=
  Plain s ∧ (∀ c a t, s ≠ .updateCall c (.withdrawOffer a t)) ∧ ∀ a, s ≠ .incrementMissed a

theorem allows_of_aside {q : Phase} {s : Stmt} (hs : Aside s) : allows q s := by
  obtain ⟨hplain, hw, hi⟩ := hs
  cases s with
  | updateCall c u =>
    cases u with
    | withdrawOffer a t => exact absurd rfl (hw c a t)
    | _ => trivial
  | createCall row => exact hplain
  | incrementMissed a => exact absurd rfl (hi a)
  | _ => trivial

/-- Beside the scan's own statements only the stage moves. -/
theorem next_of_aside {q : Phase} {s : Stmt} (hs : Aside s) (hq : q.stage ≠ .fresh) (r : s.Res) :
    next q s r = q ∨ q.stage = .scanning ∧ next q s r = { q with stage := .done } := by
  obtain ⟨_, hw, hi⟩ := hs
  cases s with
  | query query =>
    cases query with
    | findExpiredOffers => exact .inl (next_scan_of_ne hq r)
    | findExpiredWaits =>
      by_cases h : q.stage = .scanning
      · exact .inr ⟨h, next_waits h r⟩
      · exact .inl (next_waits_of_ne h r)
    | _ => exact .inl rfl
  | updateCall c u =>
    cases u with
    | withdrawOffer a t => exact absurd rfl (hw c a t)
    | _ => exact .inl rfl
  | incrementMissed a => exact absurd rfl (hi a)
  | _ => exact .inl rfl

/-! ## Handlers -/

theorem keeps_resting {s : Stmt} (hs : Plain s) : protocol.Keeps Resting s := by
  intro q hq
  by_cases haside : Aside s
  · refine ⟨allows_of_aside haside, fun r => ?_⟩
    have hfresh : q.stage ≠ .fresh := by
      rcases hq with h | h <;> simp [h]
    show Resting (next q s r)
    rcases next_of_aside haside hfresh r with h | ⟨_, h⟩
    · rwa [h]
    · rw [h]
      exact .inr rfl
  · cases s with
    | updateCall c u =>
      cases u with
      | withdrawOffer a t =>
        refine ⟨.inl ⟨hq, hs⟩, fun won => ?_⟩
        cases won <;> exact hq
      | _ => exact absurd ⟨hs, nofun, nofun⟩ haside
    | incrementMissed a => exact ⟨.inl hq, fun _ => hq⟩
    | _ => exact absurd ⟨hs, nofun, nofun⟩ haside

/-- The scan works on what it read. -/
def Scanning (rows : List Call) (q : Phase) : Prop :=
  (q.stage = .scanning ∨ q.stage = .done) ∧ q.rows = rows

/-- It has taken an offer back from `a`. -/
def Passing (rows : List Call) (a : Nat) (q : Phase) : Prop := Scanning rows q ∧ q.due = some a

theorem scanning_next {rows : List Call} {q : Phase} {s : Stmt} (hq : Scanning rows q) (hs : Aside s)
    (r : s.Res) : Scanning rows (next q s r) ∧ (next q s r).due = q.due := by
  have hfresh : q.stage ≠ .fresh := by
    rcases hq.1 with h | h <;> simp [h]
  rcases next_of_aside hs hfresh r with h | ⟨_, h⟩
  · rw [h]
    exact ⟨hq, rfl⟩
  · rw [h]
    exact ⟨⟨.inr rfl, hq.2⟩, rfl⟩

theorem keeps_scanning (rows : List Call) {s : Stmt} (hs : Aside s) :
    protocol.Keeps (Scanning rows) s :=
  fun _ hq => ⟨allows_of_aside hs, fun r => (scanning_next hq hs r).1⟩

theorem keeps_passing (rows : List Call) (a : Nat) {s : Stmt} (hs : Aside s) :
    protocol.Keeps (Passing rows a) s := by
  rintro q ⟨hq, hdue⟩
  refine ⟨allows_of_aside hs, fun r => ?_⟩
  obtain ⟨hnext, hsame⟩ := scanning_next hq hs r
  exact ⟨hnext, hsame.trans hdue⟩

theorem plain_of_has {v : Vocabulary} {s : Stmt} (h : v.Has s) (hv : v ≠ .withdrawing) : Plain s := by
  cases s with
  | updateCall c u =>
    cases u with
    | withdrawOffer a expiredBefore => cases v <;> simp_all
    | _ => trivial
  | createCall row => cases v <;> simp_all [Plain]
  | _ => trivial

theorem plain_of_takingBack {s : Stmt} (h : s.TakingBack) : Plain s := by
  cases s with
  | updateCall c u =>
    cases u with
    | withdrawOffer a expiredBefore => exact h
    | _ => trivial
  | createCall row => cases h
  | _ => trivial

theorem aside_of_passingOn {s : Stmt} (h : s.PassingOn) : Aside s := by
  refine ⟨plain_of_takingBack h.takingBack, ?_, ?_⟩
  · rintro c a t rfl
    cases h
  · rintro a rfl
    cases h

theorem aside_of_seeking {s : Stmt} (h : s.Seeking ∨ s.Offering) : Aside s := by
  refine ⟨?_, ?_, ?_⟩
  · rcases h with h | h
    · exact plain_of_has (v := .routing) (s.routing_iff.mpr (.inl h)) nofun
    · exact plain_of_has (v := .offering) h nofun
  · rintro c a t rfl
    rcases h with h | h <;> cases h
  · rintro a rfl
    rcases h with h | h <;> cases h

theorem routes : Routes protocol Resting :=
  .of_keeps fun _ hs => hs.elim (fun h => keeps_resting (plain_of_has (v := .routing) h nofun))
    fun h => keeps_resting (plain_of_has (v := .offering) h nofun)

theorem keeps_ending {s : Stmt} (h : s.Ending) : protocol.Keeps Resting s :=
  keeps_resting (plain_of_has (v := .ending) h nofun)

theorem seeks_scanning (rows : List Call) : Seeks protocol (Scanning rows) :=
  .of_keeps fun _ hs => keeps_scanning rows (aside_of_seeking hs)

theorem seeks_passing (rows : List Call) (a : Nat) : Seeks protocol (Passing rows a) :=
  .of_keeps fun _ hs => keeps_passing rows a (aside_of_seeking hs)

/-- One scanned offer: the agent it is taken from is the one whose miss counts. -/
theorem expireOffer_stays {rows : List Call} {call : Call} (hcall : call ∈ rows) :
    (expireOffer call).Stays protocol (Scanning rows) := by
  refine Callio.expireOffer_stays fun a ha => ?_
  have hmiss : (recordMiss call.id call.tenantId call.queueId a).Takes protocol (Passing rows a)
      (Scanning rows) := by
    refine recordMiss_takes (seeks_passing rows a) (fun q hq => hq.1) ?_
      (keeps_scanning rows ⟨trivial, nofun, nofun⟩) (keeps_scanning rows ⟨trivial, nofun, nofun⟩)
    rintro q ⟨hq, hdue⟩
    exact ⟨.inr hdue, fun _ => hq⟩
  refine passOffer_takes (Passing rows a) (fun q hq => ?_)
    (fun s hs => keeps_passing rows a (aside_of_passingOn hs)) (fun _ => hmiss)
    (fun hk => absurd rfl hk) (seeks_scanning rows)
  refine ⟨.inr ⟨call, ?_, rfl, ha, rfl⟩, ⟨hq, rfl⟩, hq⟩
  rwa [hq.2]

/-- With the calls' waits read, the scan of offers is over. -/
theorem resting_of_waits {rows : List Call} {q : Phase} (hq : Scanning rows q)
    (waits : Query.findExpiredWaits.Res) : Resting (next q (.query .findExpiredWaits) waits) := by
  rcases hq.1 with h | h
  · rw [next_waits h]
    exact .inr rfl
  · rw [next_waits_of_ne (by simp [h])]
    exact .inr h

theorem queueTimeoutTick_follows (seconds : Nat) :
    (queueTimeoutTick seconds).Follows protocol { stage := .fresh } fun _ => Resting := by
  have hends : Ends protocol Resting := .of_keeps routes fun _ => keeps_ending
  have htaking : ∀ s : Stmt, s.TakingBack → protocol.Keeps Resting s :=
    fun s hs => keeps_resting (plain_of_takingBack hs)
  have hrest : (expireWaits >>= fun _ => expireHandovers seconds).Takes protocol
      (fun q => ∃ rows, Scanning rows q) Resting := by
    have hwaits : (Code.read .findExpiredWaits).Takes protocol (fun q => ∃ rows, Scanning rows q) Resting := by
      rintro q ⟨rows, hq⟩
      exact ⟨trivial, resting_of_waits hq⟩
    refine (hwaits.bind fun waits => expireWaitsOf_stays fun wait _ => ?_).bind fun _ => ?_
    · exact waitExpired_stays routes.toSeeks htaking wait.1 wait.2 (hends.endCall _ _)
    · refine .bind (hends.read (.findExpiredHandovers seconds) trivial) fun calls =>
        expireHandoversOf_stays fun call _ => ?_
      exact handoverExpired_stays (fun c a t => htaking (.updateCall c (.returnHandoverToQueue a t)) trivial)
        (fun c a t => htaking (.updateCall c (.expireHandover a t)) trivial) call
        (passHandover_stays routes (fun _ => keeps_resting trivial) htaking call) (hends.endCall _ _)
  show (expireOffers >>= fun _ => expireWaits >>= fun _ => expireHandovers seconds).Follows _ _ _
  refine (Prog.follows_bind _ _ _ _).mpr ⟨trivial, fun rows => ?_⟩
  have hoffers : (expireOffersOf rows).Stays protocol (Scanning rows) :=
    expireOffersOf_stays fun call hcall => expireOffer_stays hcall
  refine (hoffers _ ⟨.inl rfl, rfl⟩).mono fun _ q hq => hrest q ⟨rows, hq⟩

/-- Where a handler begins. -/
def start : Handler → Phase
  | .queueTimeoutTick _ => { stage := .fresh }
  | _ => { stage := .idle }

theorem follows (h : Handler) : h.code.Follows protocol (start h) fun _ => Resting := by
  have hends : Ends protocol Resting := .of_keeps routes fun _ => keeps_ending
  have hidle : Resting { stage := .idle } := .inl rfl
  have hother : Vocabulary.withdrawing ∉ h.vocabulary → h.code.Stays protocol Resting := fun hv =>
    h.code_stays routes (fun _ => keeps_ending) (fun _ _ => keeps_resting trivial) fun v hm s hs =>
      keeps_resting (plain_of_has hs fun heq => hv (heq ▸ hm))
  cases h with
  | queueTimeoutTick seconds => exact queueTimeoutTick_follows seconds
  | callRejected c u =>
    have hpass : ∀ (call : Call) (agentId : Nat), (passOffer call agentId .declined).Stays protocol Resting :=
      fun call agentId => passOffer_stays routes (fun hk => absurd hk (by decide))
        (fun s hs => keeps_resting (plain_of_takingBack hs.takingBack))
        (keeps_resting (s := .updateCall call.id (.withdrawOffer agentId none)) rfl)
    exact handleCallRejected_stays hends hpass (fun _ _ => keeps_resting trivial) (fun _ _ => keeps_resting trivial) (fun _ _ => keeps_resting trivial)
      (fun _ _ => keeps_resting trivial) c u _ hidle
  | inboundCall line offer outcome => exact hother (by simp [Handler.vocabulary]) _ hidle
  | statusChanged line p status t => exact hother (by simp [Handler.vocabulary]) _ hidle
  | _ => exact hother (by simp [Handler.vocabulary]) _ hidle

/-! ## Offers step by step -/

/-- A row that rings agent `a` under an offer made at `t`. -/
def Rings (row : CallRow) (a t : Nat) : Prop :=
  row.status = .ringing ∧ row.direction = .inbound ∧ row.agentId = some a ∧ row.offeredAt = some t

theorem offeredTo_of_held {w : World} {c a t : Nat} {row : CallRow} (hrow : w.call c = some row)
    (hlive : row.ended = false) (hagent : row.agentId = some a) (hoffered : row.offeredAt = some t) :
    OfferedTo w c a = true := by
  have hactive : row.status.active = true := by simpa [CallRow.ended] using hlive
  simp [OfferedTo, hrow, hactive, hagent, hoffered]

theorem Rings.not_ended {row : CallRow} {a t : Nat} (h : Rings row a t) : row.ended = false := by
  simp [CallRow.ended, h.1, CallStatus.active]

/-- A row that the withdrawal of an offer matches. -/
theorem rings_of_withdrawn {row : CallRow} {a e : Nat}
    (hg : (CallUpdate.withdrawOffer a (some e)).guard row = true) : ∃ t, Rings row a t ∧ t ≤ e := by
  simp only [CallUpdate.guard, Bool.and_eq_true, decide_eq_true_eq, Option.all_some] at hg
  obtain ⟨⟨⟨⟨hagent, hstatus⟩, hdirection⟩, _⟩, hby⟩ := hg
  obtain ⟨t, ht, hle⟩ : ∃ t, row.offeredAt = some t ∧ t ≤ e := by
    simpa [CallRow.offeredBy, Option.any_eq_true] using hby
  exact ⟨t, ⟨hstatus, hdirection, hagent, ht⟩, hle⟩

/-- The call was its agent's already, under the same offer. -/
def HeldBefore (w : World) (s : Stmt) (c a t : Nat) (row : CallRow) : Prop :=
  ∃ old, w.call c = some old ∧ old.direction = .inbound ∧ old.agentId = some a ∧ old.offeredAt = some t ∧
    (row.ended = old.ended ∧ row.status = old.status ∨
      ∃ u, s = .updateCall c u ∧ u.guard old = true ∧ row = u.set w.now old)

/-- A statement that gives the call to nobody leaves its agent and its offer as
they were, where it leaves both. -/
theorem held_before {q : Phase} {w : World} {s : Stmt} {c a t : Nat} {row : CallRow} (ha : allows q s)
    (hg : gives w c s = false) (hrow : (s.exec w).1.call c = some row) (hin : row.direction = .inbound)
    (hagent : row.agentId = some a) (hoffered : row.offeredAt = some t) : HeldBefore w s c a t row := by
  cases Stmt.onCall w c s with
  | same hsame => exact ⟨row, hsame ▸ hrow, hin, hagent, hoffered, .inl ⟨rfl, rfl⟩⟩
  | updated u old hs hold hguard hset =>
    subst hs
    obtain rfl : u.set w.now old = row := Option.some.inj (hset.symm.trans hrow)
    have hsame : (u.set w.now old).direction = old.direction → (u.set w.now old).agentId = old.agentId →
        (u.set w.now old).offeredAt = old.offeredAt →
          HeldBefore w (.updateCall c u) c a t (u.set w.now old) := fun hd hid ho =>
      ⟨old, hold, hd ▸ hin, hid ▸ hagent, ho ▸ hoffered, .inr ⟨u, rfl, hguard, rfl⟩⟩
    cases u with
    | assignCallToAgentIfUnassigned b | markHandoverOffered b => simp [gives, hold, hguard] at hg
    | updateCallAgentIfCurrent previous b =>
      have hprevious : old.agentId = previous := by
        simp only [CallUpdate.guard, Bool.and_eq_true, decide_eq_true_eq] at hguard
        exact hguard.1.1
      have hb : previous = some b := by simpa [gives, hold, hguard] using hg
      exact hsame rfl (hprevious.trans hb).symm rfl
    | updateTimestamp field value => cases field <;> exact hsame rfl rfl rfl
    | updateCallState state status => cases status <;> exact hsame rfl rfl rfl
    | claimHandover _ | expireHandover _ _ | assignCallToAgentIfEligible _ | withdrawOffer _ _
    | overflowToQueue _ _ _ | terminateCallIfNotTerminated _ _ _ _ => cases hoffered
    | _ => exact hsame rfl rfl rfl
  | created made hs _ hset =>
    obtain rfl : made.inserted w.now = row := Option.some.inj (hset.symm.trans hrow)
    subst hs
    rcases ha with ha | ha
    · exact absurd (ha.symm.trans hagent) nofun
    · exact absurd (ha.symm.trans hin) nofun
  | filled old duration _ hold hset =>
    obtain rfl : { old with queueDuration := duration } = row := Option.some.inj (hset.symm.trans hrow)
    exact ⟨old, hold, hin, hagent, hoffered, .inl ⟨rfl, rfl⟩⟩
  | claimed agentId anyShift old hs hold hassign hclaim _ =>
    subst hs
    simp [gives, hold, hassign, hclaim] at hg

/-- A statement that gives a call leaves the clock alone, and the second of the
offer is the present one, but for a transfer. -/
theorem offered_of_gives {w : World} {s : Stmt} {c t : Nat} {row : CallRow} (hg : gives w c s = true)
    (hrow : (s.exec w).1.call c = some row) (hringing : row.status = .ringing) (hin : row.direction = .inbound)
    (hoffered : row.offeredAt = some t) (hmoves : movesOffer w s = false) : t = sqlNow w.now := by
  cases s with
  | updateCall d u =>
    cases u with
    | assignCallToAgentIfUnassigned a =>
      simp only [gives, Bool.and_eq_true, decide_eq_true_eq, Option.any_eq_true] at hg
      obtain ⟨rfl, old, hold, hguard⟩ := hg
      obtain rfl := Option.some.inj ((Stmt.exec_updateCall hold hguard).symm.trans hrow)
      exact (Option.some.inj hoffered).symm
    | markHandoverOffered a =>
      simp only [gives, Bool.and_eq_true, decide_eq_true_eq, Option.any_eq_true] at hg
      obtain ⟨rfl, old, hold, hguard⟩ := hg
      obtain rfl := Option.some.inj ((Stmt.exec_updateCall hold hguard).symm.trans hrow)
      exact (Option.some.inj hoffered).symm
    | updateCallAgentIfCurrent old new =>
      simp only [gives, Bool.and_eq_true, decide_eq_true_eq, Option.any_eq_true] at hg
      obtain ⟨⟨rfl, hne⟩, before, hbefore, hguard⟩ := hg
      obtain rfl := Option.some.inj ((Stmt.exec_updateCall hbefore hguard).symm.trans hrow)
      simp only [CallUpdate.guard, Bool.and_eq_true, decide_eq_true_eq] at hguard
      have hstatus : before.status = .ringing := hringing
      have hdirection : before.direction = .inbound := hin
      have htime : before.offeredAt = some t := hoffered
      simpa [movesOffer, hbefore, hguard.1.1, hstatus, hdirection, hne, htime] using hmoves
    | _ => cases hg
  | claimAgentAndAssignCall a d anyShift =>
    simp only [gives, Bool.and_eq_true, decide_eq_true_eq] at hg
    obtain ⟨⟨rfl, hclaim⟩, hassign⟩ := hg
    obtain ⟨old, hold, hold'⟩ := (Option.any_eq_true _ _).mp hassign
    rw [Stmt.exec, World.claimAgentAndAssignCall, if_pos hclaim, if_pos hassign] at hrow
    simp only [World.call, Store.Table.get_modify] at hrow hold
    simp only [hold, Option.map_some, if_true, Option.some.injEq] at hrow
    subst hrow
    exact (Option.some.inj hoffered).symm
  | _ => cases hg

theorem now_of_gives {w : World} {s : Stmt} {c : Nat} (hg : gives w c s = true) : (s.exec w).1.now = w.now := by
  rcases Stmt.exec_now s w with h | ⟨ms, rfl, _⟩
  · exact h
  · cases hg

/-! ## Runs -/

section run

variable {s : Service ι} {schedule : List ι} {k c a t : Nat}

theorem given_le (s : Service ι) (schedule : List ι) (k c : Nat) : given s schedule k c ≤ k := by
  induction k with
  | zero => exact le_rfl
  | succ k ih =>
    unfold given
    split
    · exact le_rfl
    · omega

theorem given_succ {i : ι} {stmt : Stmt} (hi : schedule[k]? = some i)
    (hnext : (s.after schedule k).next i = some stmt) :
    given s schedule (k + 1) c =
      if gives (s.after schedule k).state c stmt = true then k + 1 else given s schedule k c := by
  rw [given, hi, Option.bind_some, hnext, Option.any_some]

theorem given_succ_of_rest {i : ι} (hi : schedule[k]? = some i) (hnext : (s.after schedule k).next i = none) :
    given s schedule (k + 1) c = given s schedule k c := by
  rw [given, hi, Option.bind_some, hnext]
  rfl

theorem Uncounted.succ {j : Nat} {i i' : ι} (h : Uncounted s schedule k j i a)
    (hi : schedule[k]? = some i')
    (hn : i = i' → ∀ b, (s.after schedule k).next i ≠ some (.incrementMissed b)) :
    Uncounted s schedule (k + 1) j i a := by
  obtain ⟨hj, hmove, hw, hall⟩ := h
  refine ⟨by omega, hmove, hw, fun m b hm hk hi' => ?_⟩
  by_cases hlast : m = k
  · subst hlast
    exact hn (Option.some.inj (hi'.symm.trans hi)) b
  · exact hall m b hm (by omega) hi'

end run

variable {begins : ι → protocol.Phase} {s : Service ι} {schedule : List ι}

/-- The phases after `k` moves. -/
def phases (begins : ι → protocol.Phase) (s : Service ι) (schedule : List ι) (k : Nat) : ι → Phase :=
  protocol.phases begins (s.after schedule k)

structure Invariant (begins : ι → protocol.Phase) (s : Service ι) (schedule : List ι) (k : Nat) :
    Prop where
  conforms : protocol.Conforms Resting begins (s.after schedule k)
  aged : ∀ i, ∀ call ∈ (phases begins s schedule k i).rows, ∃ t, call.offeredAt = some t ∧
    t + ringTimeout (s.after schedule k).state call ≤ sqlNow (s.after schedule k).state.now
  /-- Whoever holds an offer has held it since they were given the call. -/
  held : ∀ c a t row, (s.after schedule k).state.call c = some row → row.direction = .inbound →
    row.ended = false → row.agentId = some a → row.offeredAt = some t →
      ∀ m, given s schedule k c ≤ m → m ≤ k → OfferedTo (s.after schedule m).state c a = true
  /-- A ringing call was given to its agent in the second its offer names. -/
  timed : ∀ c a t row, (s.after schedule k).state.call c = some row → Rings row a t →
    t = sqlNow (givenAt s schedule k c)
  due : ∀ i a, ¬ Resting (phases begins s schedule k i) →
    (phases begins s schedule k i).due = some a → ∃ j, Uncounted s schedule k j i a

theorem Invariant.init {hs : ι → Handler} {w : World} (hw : OffersNew w) :
    Invariant (fun i => start (hs i)) (Service.spawn w hs) schedule 0 where
  conforms := Protocol.conforms_spawn fun i => follows (hs i)
  aged i call hcall := by
    have hrows : (start (hs i)).rows = [] := by cases hs i <;> rfl
    have hnone : call ∈ (start (hs i)).rows := hcall
    simp [hrows] at hnone
  held c a t row hrow _ hlive hagent hoffered m _ hm := by
    obtain rfl : m = 0 := by omega
    exact offeredTo_of_held hrow hlive hagent hoffered
  timed c a t row hrow h := hw c row t hrow h.1 h.2.2.2
  due i a _ hdue := by
    have hnone : (start (hs i)).due = none := by cases hs i <;> rfl
    have hsome : (start (hs i)).due = some a := hdue
    simp [hnone] at hsome

/-- The rows a scan reads have rung past their queue's timeout. -/
theorem aged_of_scan {w : World} {call : Call} (h : call ∈ Query.findExpiredOffers.answer w) :
    ∃ t, call.offeredAt = some t ∧ t + ringTimeout w call ≤ sqlNow w.now := by
  have hmem := (List.mem_insertionSort _).mp (List.mem_of_mem_take h)
  obtain ⟨_, hholds⟩ := World.mem_selectCalls.mp hmem
  simp only [findExpiredOffers, Sql.Truth.holds_and, Bool.and_eq_true, holds_dueSince] at hholds
  obtain ⟨_, hdue⟩ := hholds
  obtain ⟨t, ht, hle⟩ : ∃ t, call.offeredAt = some t ∧ t + ringTimeout w call ≤ sqlNow w.now := by
    simpa [Option.any_eq_true, ringTimeout] using hdue
  exact ⟨t, ht, hle⟩

theorem aged_next {q : Phase} {w : World} (s : Stmt)
    (h : ∀ call ∈ q.rows, ∃ t, call.offeredAt = some t ∧ t + ringTimeout w call ≤ sqlNow w.now) :
    ∀ call ∈ (next q s (s.exec w).2).rows, ∃ t, call.offeredAt = some t ∧
      t + ringTimeout w call ≤ sqlNow w.now := by
  rcases rows_next q s (s.exec w).2 with hsame | ⟨rows, hread, hrows⟩
  · rwa [hsame]
  · obtain ⟨_, rfl⟩ := Stmt.answer_of_read hread
    rw [hrows]
    exact fun call hcall => aged_of_scan hcall

theorem ringTimeout_exec (s : Stmt) (w : World) (call : Call) :
    ringTimeout (s.exec w).1 call = ringTimeout w call := by
  simp [ringTimeout, World.queueColumn, World.queueOf, Stmt.exec_queues]

/-- A scan comes to owe the count of a miss by taking an offer back, and a
count clears it. -/
theorem due_next {q : Phase} {w : World} {s : Stmt} {a : Nat} (ha : allows q s)
    (hstage : ¬ Resting (next q s (s.exec w).2)) (hdue : (next q s (s.exec w).2).due = some a) :
    (¬ Resting q ∧ q.due = some a ∧ ∀ b, s ≠ .incrementMissed b) ∨
      ∃ c t, s = .updateCall c (.withdrawOffer a t) ∧ (∃ call ∈ q.rows, call.offeredAt = t) ∧
        (w.call c).any (CallUpdate.withdrawOffer a t).guard = true := by
  cases s with
  | query query =>
    cases query with
    | findExpiredOffers =>
      by_cases hfresh : q.stage = .fresh
      · rw [next_scan hfresh] at hdue
        cases hdue
      · rw [next_scan_of_ne hfresh] at hstage hdue
        exact .inl ⟨hstage, hdue, nofun⟩
    | findExpiredWaits =>
      by_cases hscanning : q.stage = .scanning
      · rw [next_waits hscanning] at hstage
        exact absurd (.inr rfl) hstage
      · rw [next_waits_of_ne hscanning] at hstage hdue
        exact .inl ⟨hstage, hdue, nofun⟩
    | _ => exact .inl ⟨hstage, hdue, nofun⟩
  | updateCall c u =>
    cases u with
    | withdrawOffer b t =>
      have hactive : ¬ Resting q := fun hrest => by
        refine hstage ?_
        show Resting (if _ = true then { q with due := some b } else q)
        split <;> exact hrest
      by_cases hwon : ((Stmt.updateCall c (.withdrawOffer b t)).exec w).2 = true
      · have hnext : next q (.updateCall c (.withdrawOffer b t))
            ((Stmt.updateCall c (.withdrawOffer b t)).exec w).2 = { q with due := some b } := if_pos hwon
        rw [hnext] at hdue
        obtain rfl : b = a := Option.some.inj hdue
        obtain ⟨row, hrow, hg⟩ := (Stmt.exec_updateCall_snd w c _).mp hwon
        rcases ha with ⟨hrest, _⟩ | ⟨call, hcall, _, _, ht⟩
        · exact absurd hrest hactive
        · exact .inr ⟨c, t, rfl, ⟨call, hcall, ht⟩, by simp [hrow, hg]⟩
      · have hnext : next q (.updateCall c (.withdrawOffer b t))
            ((Stmt.updateCall c (.withdrawOffer b t)).exec w).2 = q := if_neg hwon
        rw [hnext] at hdue
        exact .inl ⟨hactive, hdue, nofun⟩
    | _ => exact .inl ⟨hstage, hdue, nofun⟩
  | incrementMissed b => cases hdue
  | _ => exact .inl ⟨hstage, hdue, nofun⟩

theorem Invariant.step {k : Nat} {i : ι} (h : Invariant begins s schedule k)
    (hi : schedule[k]? = some i) (hok : Sound s schedule k i) :
    Invariant begins s schedule (k + 1) := by
  have hafter : s.after schedule (k + 1) = Concurrency.step Stmt.exec (s.after schedule k) i :=
    run_take_succ Stmt.exec hi
  have hconforms := h.conforms.step Stmt.exec i
  rw [← hafter] at hconforms
  cases hp : ((s.after schedule k).threads i).prog with
  | ret u =>
    have hsame : s.after schedule (k + 1) = s.after schedule k := hafter.trans (step_ret _ hp)
    have hphases : phases begins s schedule (k + 1) = phases begins s schedule k :=
      congrArg (protocol.phases _) hsame
    have hgiven : ∀ c, given s schedule (k + 1) c = given s schedule k c := fun c =>
      given_succ_of_rest hi (by rw [Service.next, hp])
    refine ⟨hconforms, ?_, ?_, ?_, ?_⟩
    · rw [hphases, hsame]
      exact h.aged
    · intro c a t row hrow hin hlive hagent hoffered m hm hk
      by_cases hlast : m = k + 1
      · subst hlast
        exact offeredTo_of_held hrow hlive hagent hoffered
      · rw [hsame] at hrow
        exact h.held c a t row hrow hin hlive hagent hoffered m (hgiven c ▸ hm) (by omega)
    · intro c a t row hrow hrings
      rw [hsame] at hrow
      rw [givenAt, hgiven]
      exact h.timed c a t row hrow hrings
    · intro j a hstage hdue
      rw [hphases] at hstage hdue
      obtain ⟨m, hm⟩ := h.due j a hstage hdue
      refine ⟨m, hm.succ hi fun hji b hb => ?_⟩
      subst hji
      obtain ⟨_, hcall⟩ := Service.next_eq_some.mp hb
      exact absurd (hp.symm.trans hcall) nofun
  | call stmt cont =>
    have hstate : (s.after schedule (k + 1)).state = (stmt.exec (s.after schedule k).state).1 := by
      rw [hafter, step_call _ hp]
    have hphases : phases begins s schedule (k + 1) = Function.update (phases begins s schedule k) i
        (next (phases begins s schedule k i) stmt (stmt.exec (s.after schedule k).state).2) := by
      unfold phases
      rw [hafter]
      exact Protocol.phases_step _ _ _ hp
    have hallows : allows (phases begins s schedule k i) stmt := h.conforms.allows hp
    have hnext : (s.after schedule k).next i = some stmt := Service.next_eq_some.mpr ⟨cont, hp⟩
    simp only [Sound, hnext, Option.all_some, Bool.and_eq_true, Bool.not_eq_true'] at hok
    obtain ⟨⟨hmoves, hagain⟩, -⟩ := hok
    have hgiven : ∀ c, given s schedule (k + 1) c =
        if gives (s.after schedule k).state c stmt = true then k + 1 else given s schedule k c :=
      fun c => given_succ hi hnext
    refine ⟨hconforms, ?_, ?_, ?_, ?_⟩
    · intro j call hcall
      rw [hstate, ringTimeout_exec]
      have haged : ∃ t, call.offeredAt = some t ∧
          t + ringTimeout (s.after schedule k).state call ≤ sqlNow (s.after schedule k).state.now := by
        rw [hphases] at hcall
        by_cases hj : j = i
        · subst hj
          rw [Function.update_self] at hcall
          exact aged_next stmt (h.aged j) call hcall
        · rw [Function.update_of_ne hj] at hcall
          exact h.aged j call hcall
      obtain ⟨t, ht, hle⟩ := haged
      exact ⟨t, ht, hle.trans (sqlNow_mono (Stmt.le_exec_now stmt _))⟩
    · intro c a t row hrow hin hlive hagent hoffered m hm hk
      by_cases hlast : m = k + 1
      · subst hlast
        exact offeredTo_of_held hrow hlive hagent hoffered
      · rw [hgiven] at hm
        rw [hstate] at hrow
        split at hm
        · omega
        · rename_i hg
          obtain ⟨old, hold, hin', hagent', hoffered', hfrom⟩ :=
            held_before hallows (by simpa using hg) hrow hin hagent hoffered
          -- an ended call does not come back with an offer
          have hlive' : old.ended = false := by
            rcases hfrom with ⟨hended, -⟩ | ⟨u, rfl, hguard, rfl⟩
            · exact hended ▸ hlive
            · by_contra hended
              simp [ringsAgain, hold, hguard, hin', hagent', hoffered', hlive, hended] at hagain
          exact h.held c a t old hold hin' hlive' hagent' hoffered' m hm (by omega)
    · intro c a t row hrow hrings
      rw [hstate] at hrow
      obtain ⟨hringing, hin, hagent, hoffered⟩ := hrings
      by_cases hg : gives (s.after schedule k).state c stmt = true
      · rw [givenAt, hgiven, if_pos hg, hstate, now_of_gives hg]
        exact offered_of_gives hg hrow hringing hin hoffered hmoves
      · rw [givenAt, hgiven, if_neg hg]
        obtain ⟨old, hold, hin', hagent', hoffered', hfrom⟩ :=
          held_before hallows (by simpa using hg) hrow hin hagent hoffered
        by_cases hrang : old.status = .ringing
        · exact h.timed c a t old hold ⟨hrang, hin', hagent', hoffered'⟩
        · -- it is made to ring in the second its agent was given it
          rcases hfrom with ⟨-, hstatus⟩ | ⟨u, rfl, hguard, rfl⟩
          · exact absurd (hstatus.symm.trans hringing) hrang
          · by_contra hne
            simp [ringsAgain, hold, hguard, hin', hagent', hoffered', hrang, hringing] at hagain
            exact hne hagain.2
    · intro j a hstage hdue
      rw [hphases] at hstage hdue
      by_cases hj : j = i
      · subst hj
        rw [Function.update_self] at hstage hdue
        rcases due_next hallows hstage hdue with ⟨hstage, hdue, hcount⟩ | ⟨c, t, rfl, ⟨call, hcall, ht⟩, hg⟩
        · obtain ⟨m, hm⟩ := h.due j a hstage hdue
          refine ⟨m, hm.succ hi fun _ b hb => ?_⟩
          exact hcount b (Option.some.inj (hnext.symm.trans hb))
        · obtain ⟨e, he, _⟩ := h.aged j call hcall
          obtain rfl : t = some e := ht.symm.trans he
          exact ⟨k, by omega, hi, ⟨c, e, hnext, hg⟩, fun m b hm hk => absurd hk (by omega)⟩
      · rw [Function.update_of_ne hj] at hstage hdue
        obtain ⟨m, hm⟩ := h.due j a hstage hdue
        exact ⟨m, hm.succ hi fun hij => absurd hij hj⟩

/-! ## The rule -/

theorem scanned_of_rows {q : Phase} (hq : q.rows = []) (h : History Stmt.Res) (call : Call)
    (hcall : call ∈ (protocol.phase q h : Phase).rows) :
    ∃ rows, ⟨.query .findExpiredOffers, rows⟩ ∈ h ∧ call ∈ rows := by
  induction h with
  | nil =>
    have hnil : call ∈ q.rows := hcall
    simp [hq] at hnil
  | cons step h ih =>
    obtain ⟨stmt, r⟩ := step
    have hnext : call ∈ (next (protocol.phase q h) stmt r).rows := hcall
    rcases rows_next (protocol.phase q h) stmt r with hsame | ⟨rows, hread, hrows⟩
    · rw [hsame] at hnext
      obtain ⟨rows, hmem, hin⟩ := ih hnext
      exact ⟨rows, List.mem_cons_of_mem _ hmem, hin⟩
    · rw [hrows] at hnext
      exact ⟨rows, hread ▸ List.mem_cons_self, hnext⟩

theorem not_resting_before_waits {q : Phase} (hq : ¬ Resting q) (h : History Stmt.Res)
    (hwaits : ∀ waits, ⟨.query .findExpiredWaits, waits⟩ ∉ h) : ¬ Resting (protocol.phase q h) := by
  induction h with
  | nil => exact hq
  | cons step h ih =>
    obtain ⟨stmt, r⟩ := step
    have hprior := ih fun waits hmem => hwaits waits (List.mem_cons_of_mem _ hmem)
    refine not_resting_next hprior (fun hs => ?_) r
    subst hs
    exact hwaits r List.mem_cons_self

/-- In a run in which no transfer leaves an old offer's time with a new agent,
no call is made to ring under another agent's offer, and no offer is taken back
early in the second it falls due, the ring-timeout scan takes a call only from
an agent it has rung for the whole timeout, and counts only such misses. -/
theorem rungOut_of_sound (hs : ι → Handler) (w : World) (schedule : List ι) (hw : OffersNew w)
    (hok : ∀ k, (hk : k < schedule.length) → Sound (Service.spawn w hs) schedule k schedule[k]) :
    RingsOut (Service.spawn w hs) schedule ∧ CountsRungOut hs (Service.spawn w hs) schedule := by
  have hinv : ∀ k ≤ schedule.length,
      Invariant (fun i => start (hs i)) (Service.spawn w hs) schedule k := by
    intro k
    induction k with
    | zero => exact fun _ => Invariant.init hw
    | succ k ih =>
      intro hk
      exact (ih (by omega)).step (List.getElem?_eq_getElem hk) (hok k hk)
  have hbefore : ∀ {k i}, schedule[k]? = some i →
      Invariant (fun i => start (hs i)) (Service.spawn w hs) schedule k := fun hi =>
    hinv _ (List.getElem?_eq_some_iff.mp hi).1.le
  constructor
  · rintro k i c a hi ⟨e, hnext, hg⟩
    have h := hbefore hi
    obtain ⟨cont, hp⟩ := Service.next_eq_some.mp hnext
    obtain ⟨_, hnone⟩ | ⟨call, hcall, hid, hagent, hoffered⟩ := h.conforms.allows hp
    · cases hnone
    · have hrows : (start (hs i)).rows = [] := by cases hs i <;> rfl
      obtain ⟨rows, hmem, hin⟩ := scanned_of_rows hrows _ call hcall
      obtain ⟨row, hrow, hguard⟩ : ∃ row, ((Service.spawn w hs).after schedule k).state.call c = some row ∧
          (CallUpdate.withdrawOffer a (some e)).guard row = true := by
        simpa [Option.any_eq_true] using hg
      obtain ⟨t, hrings, hle⟩ := rings_of_withdrawn hguard
      obtain ⟨e', he', hdue⟩ := h.aged i call hcall
      obtain rfl : e' = e := Option.some.inj (he'.symm.trans hoffered)
      refine ⟨rows, call, hmem, hin, hid, hagent, givenAt (Service.spawn w hs) schedule k c,
        ⟨_, given_le _ _ k c, le_rfl, h.held c a t row hrow hrings.2.1 hrings.not_ended hrings.2.2.1 hrings.2.2.2⟩, ?_⟩
      -- the timeout is of whole seconds, and so are the times compared
      have ht := h.timed c a t row hrow hrings
      have hsound := hok k (List.getElem?_eq_some_iff.mp hi).1
      rw [(List.getElem?_eq_some_iff.mp hi).2, Sound, hnext, Option.all_some] at hsound
      simp only [Bool.and_eq_true, Bool.not_eq_true', takesEarly, List.any_eq_false] at hsound
      have hpunctual := hsound.2 _ hmem
      simp only [List.any_eq_true, Bool.and_eq_true, decide_eq_true_eq, not_exists, not_and, not_lt] at hpunctual
      have hsecond : sqlNow (givenAt (Service.spawn w hs) schedule k c) +
          ringTimeout ((Service.spawn w hs).after schedule k).state call ≤
            sqlNow ((Service.spawn w hs).after schedule k).state.now := by omega
      unfold ringTimeout at hsecond hpunctual ⊢
      exact due_of_sqlNow hsecond fun heq => hpunctual call hin ⟨hid, heq⟩
  · intro k i a seconds htick hi hnext hwaits
    have h := hbefore hi
    obtain ⟨cont, hp⟩ := Service.next_eq_some.mp hnext
    have hfresh : ¬ Resting (start (hs i)) := by
      rw [htick]
      rintro (h | h) <;> cases h
    have hactive : ¬ Resting (phases (fun i => start (hs i)) (Service.spawn w hs) schedule k i) :=
      not_resting_before_waits hfresh _ hwaits
    obtain hrest | hdue := h.conforms.allows hp
    · exact absurd hrest hactive
    · exact h.due i a hactive hdue

/-! ## A call transferred as its ring runs out -/

/-- Call 1 rings agent 1 in a queue that passes offers on after 20 s; three
missed offers take an agent offline. -/
def ringing : World :=
  { calls := .ofList [fun _ => { direction := .inbound, status := .ringing, state := some .queue,
                                 queueId := some 1, agentId := some 1, ringingAt := some 0,
                                 offeredAt := some 0 }]
    agents := .ofList [fun _ => { busyCallId := some 1 }, fun _ => {}]
    queues := fun q => if q = 1 then some { ringTimeoutSeconds := some 20 } else none
    autoOffline := fun _ => some 3 }

theorem offersNew_ringing : OffersNew ringing := by
  intro c row t hrow _ ht
  match c with
  | 1 =>
    obtain rfl := Option.some.inj hrow
    exact (Option.some.inj ht).symm
  | 0 | n + 2 => cases hrow

/-- 20 s pass, a supervisor transfers the call to agent 2, the scan ticks. -/
def transferred : Fin 3 → Handler
  | 0 => .clock 20000
  | 1 => .callTransferred 1 1 (.toAgent 2)
  | 2 => .queueTimeoutTick 30

/-- The scan comes first: it takes the call from agent 1, who had it all along. -/
theorem rungOut_scannedFirst :
    RingsOut (Service.spawn ringing transferred)
        (0 :: List.replicate 30 2 ++ List.replicate 11 1) ∧
      CountsRungOut transferred (Service.spawn ringing transferred)
        (0 :: List.replicate 30 2 ++ List.replicate 11 1) :=
  rungOut_of_sound transferred ringing _ offersNew_ringing (by decide)

section

local instance neZeroTasks : NeZero 3 := ⟨by decide⟩

def transferredFirst : List (Fin 3) := 0 :: List.replicate 12 1 ++ List.replicate 30 2

end

/-- Agent 2 has the call only since the transfer. -/
theorem offeredSince_transferred {t : Nat}
    (h : OfferedSince (Service.spawn ringing transferred) transferredFirst 14 1 2 t) : 20000 ≤ t := by
  obtain ⟨n, hn, ht, hall⟩ := h
  refine le_trans ?_ ht
  have hto := hall n le_rfl hn
  clear ht hall
  revert n
  decide

theorem ringTimeout_scanned : ∀ call ∈ Query.findExpiredOffers.answer
    ((Service.spawn ringing transferred).after transferredFirst 13).state,
    ringTimeout ((Service.spawn ringing transferred).after transferredFirst 14).state call = 20000 := by
  decide

/-- The transfer comes first: the scan takes the call from agent 2 at once. -/
theorem not_rungOut :
    ¬ ∀ (hs : Fin 3 → Handler) (w : World) (schedule : List (Fin 3)), OffersNew w →
      RingsOut (Service.spawn w hs) schedule := by
  intro h
  obtain ⟨rows, call, hmem, hcall, -, -, t, hsince, hle⟩ :=
    h transferred ringing transferredFirst offersNew_ringing 14 2 1 2 rfl
      ⟨0, rfl, by decide⟩
  have hseen : (((Service.spawn ringing transferred).after transferredFirst 14).threads 2).seen =
      [⟨.query .findExpiredOffers, Query.findExpiredOffers.answer
        ((Service.spawn ringing transferred).after transferredFirst 13).state⟩] := rfl
  rw [hseen, List.mem_singleton] at hmem
  obtain rfl := eq_of_heq (Sigma.mk.inj hmem).2
  have hnow : ((Service.spawn ringing transferred).after transferredFirst 14).state.now = 20000 := rfl
  have ht := offeredSince_transferred hsince
  rw [ringTimeout_scanned call hcall, hnow] at hle
  omega

end Callio.RingTimeout
