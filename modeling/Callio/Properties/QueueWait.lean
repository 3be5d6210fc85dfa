import Callio.Conduct.Handlers
import Callio.Persistence.Effects

/-! A call that enters a queue is left the queue's waiting time. Calls enter by
four ways, and each sweep counts from a column of the row: the wait's own timer
from `queued_at`, the others from `ringing_at`, which not every entry writes.
What a sweep has selected it ends without looking again. -/

namespace Callio.QueueWait

open Concurrency Code

variable {ι : Type} [DecidableEq ι]

/-! ## Waiting times -/

/-- How long the row's queue lets it wait: its `max_wait_seconds`, else a minute. -/
def waitingTime (w : World) (row : CallRow) : Nat :=
  (w.queueColumn row (·.maxWaitSeconds)).elim minute (· * second)

/-- The sweeps. -/
def sweeps : Handler → Bool
  | .queueTimeoutTick _ | .periodicCleanup | .ivrRingCleanup | .releaseStaleCalls _
  | .expireOutboundIntents => true
  | _ => false

/-- The update would end this row, which rings. -/
def EndsRinging (w : World) (u : CallUpdate) (row : CallRow) : Bool :=
  u.guard row && row.status = .ringing && (u.set w.now row).ended

/-- Call `c` enters a queue by the statement: it arrives, the IVR transfers it,
it overflows, or nobody answered its handover. -/
def enters (w : World) (c : Nat) : Stmt → Bool
  | .createCall row => !w.taken row && c = w.calls.nextId && row.direction = .inbound &&
      row.status = .ringing && row.queueId.isSome && row.state ≠ some .ivr
  -- the IVR session ends, and then the queue is entered
  | .updateCall d (.updateCallState (some .queue) (some .ringing)) | .updateCall d (.enterQueue _) =>
      d = c && (w.call c).isSome
  | .updateCall d (.overflowToQueue source target offered) =>
      d = c && (w.call c).any (CallUpdate.overflowToQueue source target offered).guard
  | .updateCall d (.returnHandoverToQueue agentId offeredAt) =>
      d = c && (w.call c).any (CallUpdate.returnHandoverToQueue agentId offeredAt).guard
  | _ => false

/-- The clock when call `c` last entered a queue within the first `k` moves. -/
def enteredAt (s : Service ι) (schedule : List ι) : Nat → Nat → Option Nat
  | 0, _ => none
  | k + 1, c =>
    if (schedule[k]?.bind (s.after schedule k).next).any (enters (s.after schedule k).state c)
    then some (s.after schedule k).state.now else enteredAt s schedule k c

/-- No sweep ends a ringing call before it has waited its queue's time since
it entered the queue. -/
def Patient (hs : ι → Handler) (s : Service ι) (schedule : List ι) : Prop :=
  ∀ k i c u row t, sweeps (hs i) = true → schedule[k]? = some i →
    (s.after schedule k).next i = some (.updateCall c u) →
    (s.after schedule k).state.call c = some row →
    EndsRinging (s.after schedule k).state u row = true → enteredAt s schedule k c = some t →
    t + waitingTime (s.after schedule k).state row ≤ (s.after schedule k).state.now

/-! ## What a sweep selects -/

/-- What a sweep selects a call by: how long it has rung, or waited. -/
inductive Clock
  | ringing (minutes : Nat)
  | ringingAgent
  | waiting
  deriving DecidableEq

structure Selection where
  call : Call
  clock : Clock

/-- The rows a sweep's read selected. -/
def selections : Sigma Stmt.Res → List Selection
  | ⟨.query (.findAllStuckCalls minutes), rows⟩ => rows.map fun call => ⟨call, .ringing minutes⟩
  | ⟨.query (.findStuckCallsForUser _ minutes), rows⟩ =>
      rows.map fun call => ⟨call, .ringing minutes⟩
  | ⟨.query .findStuckIvrTransferredCalls, rows⟩ => rows.map fun call => ⟨call, .ringingAgent⟩
  | ⟨.query .findExpiredWaits, rows⟩ => rows.map fun wait => ⟨wait.1, .waiting⟩
  | _ => []

/-- Every row thread `i` has selected. -/
def selected (s : Service ι) (i : ι) : List Selection := (s.threads i).seen.flatMap selections

/-- When the sweep takes the call it has selected: a limit after the column it counts from. -/
def Selection.deadline (w : World) (sel : Selection) : Option Nat :=
  match sel.clock with
  | .ringing minutes => sel.call.ringingAt.map (· + minutes * minute)
  | .ringingAgent =>
      sel.call.ringingAt.map (· + ((w.flowOf sel.call.toCallRow).bind (·.agentRingTimeout)).getD 60 * second)
  | .waiting =>
      some ((sel.call.queuedAt.or sel.call.ringingAt).getD sel.call.createdAt +
        (w.queueColumn sel.call.toCallRow (·.maxWaitSeconds)).getD 0 * second)

/-- The row rang when it was selected, and the deadline leaves it its waiting
time from the second of `t`. -/
def Selection.fair (w : World) (sel : Selection) (row : CallRow) (t : Nat) : Bool :=
  sel.call.status = .ringing && (sel.deadline w).all (sqlNow t + waitingTime w row ≤ ·)

/-- It is the very second in which the waiting time since `t` is over, and not
yet the fraction of it. -/
def early (w : World) (row : CallRow) (t : Nat) : Bool :=
  sqlNow w.now = sqlNow t + waitingTime w row && w.now % second < t % second

/-- If thread `i` is about to end a ringing call that has entered a queue, it
selected it fairly, and does not end it in the second before its time. -/
def Sound (s : Service ι) (schedule : List ι) (k : Nat) (i : ι) : Bool :=
  ((s.after schedule k).next i).all fun
    | .updateCall c u => ((s.after schedule k).state.call c).all fun row =>
        !EndsRinging (s.after schedule k).state u row || (enteredAt s schedule k c).all fun t =>
          !early (s.after schedule k).state row t && (selected (s.after schedule k) i).all fun sel =>
            sel.call.id ≠ c || sel.fair (s.after schedule k).state row t
    | _ => true

/-! ## What is due stays due -/

/-- What its clause says of a selected row that rings. -/
def Selection.Due (w : World) (sel : Selection) : Prop :=
  sel.call.status = .ringing → ∃ d, sel.deadline w = some d ∧ d ≤ w.now

theorem waitingTime_seconds (w : World) (row : CallRow) : ∃ n, waitingTime w row = n * second := by
  unfold waitingTime
  cases w.queueColumn row (·.maxWaitSeconds) with
  | none => exact ⟨60, rfl⟩
  | some n => exact ⟨n, rfl⟩

theorem deadline_exec (s : Stmt) (w : World) (sel : Selection) :
    sel.deadline (s.exec w).1 = sel.deadline w := by
  simp [Selection.deadline, World.flowOf, World.queueColumn, World.queueOf, Stmt.exec_flows, Stmt.exec_queues]

theorem due_exec {w : World} {sel : Selection} (h : sel.Due w) (s : Stmt) : sel.Due (s.exec w).1 := by
  intro hstatus
  obtain ⟨d, hd, hle⟩ := h hstatus
  exact ⟨d, (deadline_exec s w sel).trans hd, hle.trans (Stmt.le_exec_now s w)⟩

/-- A fair selection that is due has waited. -/
theorem waited_of_due {w : World} {sel : Selection} {row : CallRow} {t : Nat} (hdue : sel.Due w)
    (hfair : sel.fair w row t = true) (hearly : early w row t = false) : t + waitingTime w row ≤ w.now := by
  simp only [Selection.fair, Bool.and_eq_true, decide_eq_true_eq] at hfair
  obtain ⟨d, hd, hle⟩ := hdue hfair.1
  have hbefore : sqlNow t + waitingTime w row ≤ d := by simpa [hd] using hfair.2
  obtain ⟨n, hn⟩ := waitingTime_seconds w row
  simp only [early, Bool.and_eq_false_iff, decide_eq_false_iff_not, not_lt, hn] at hearly
  rw [hn] at hbefore ⊢
  refine due_of_sqlNow ?_ fun heq => hearly.resolve_left fun h => h heq
  rw [← sqlNow_add]
  refine sqlNow_le_sqlNow ?_
  rw [sqlNow_add]
  exact hbefore.trans hle

/-! ## The clauses -/

/-- A clause that compares `ringing_at` with the clock, or with `NOW()`. -/
theorem due_of_ringingAt {w : World} {call : Call} {clock : Clock} {limit now : Nat}
    (hclock : Selection.deadline w ⟨call, clock⟩ = call.ringingAt.map (· + limit)) (hnow : now ≤ w.now)
    (h : call.status = .ringing → (call.ringingAt.any fun r => r + limit < now) = true) :
    Selection.Due w ⟨call, clock⟩ := by
  intro hstatus
  obtain ⟨r, hr, hlt⟩ := (Option.any_eq_true _ _).mp (h hstatus)
  refine ⟨r + limit, by rw [hclock, hr, Option.map_some], ?_⟩
  have hbefore : r + limit < now := by simpa using hlt
  omega

theorem due_of_findAllStuckCalls {w : World} {minutes : Nat} {call : Call}
    (h : (findAllStuckCalls w minutes call.toCallRow).holds = true) :
    Selection.Due w ⟨call, .ringing minutes⟩ := by
  refine due_of_ringingAt rfl le_rfl fun hstatus => ?_
  simp only [findAllStuckCalls, endedInProgress, Sql.Truth.holds_and, Sql.Truth.holds_or,
    holds_statusIs, hstatus, holds_olderThan, Bool.and_eq_true, Bool.or_eq_true] at h
  rcases h.1 with h | h
  · exact h.1.1.1.2
  · simp at h

theorem due_of_findStuckCallsForUser {w : World} {agentId minutes : Nat} {call : Call}
    (h : (findStuckCallsForUser w agentId minutes call.toCallRow).holds = true) :
    Selection.Due w ⟨call, .ringing minutes⟩ := by
  refine due_of_ringingAt rfl le_rfl fun hstatus => ?_
  simp only [findStuckCallsForUser, endedInProgress, Sql.Truth.holds_and, Sql.Truth.holds_or,
    holds_statusIs, hstatus, holds_olderThan, Bool.and_eq_true, Bool.or_eq_true] at h
  rcases h.1.2 with h | h
  · exact h.1.2
  · simp at h

theorem due_of_findStuckIvrTransferredCalls {w : World} {call : Call}
    (h : (findStuckIvrTransferredCalls w call.toCallRow).holds = true) :
    Selection.Due w ⟨call, .ringingAgent⟩ := by
  refine due_of_ringingAt rfl (sqlNow_le w.now) fun _ => ?_
  simp only [findStuckIvrTransferredCalls, Sql.Truth.holds_and, holds_beforeInterval, Bool.and_eq_true] at h
  exact h.1.2

theorem due_of_findExpiredWaits {w : World} {call : Call}
    (h : (findExpiredWaits w call.toCallRow).holds = true) : Selection.Due w ⟨call, .waiting⟩ := by
  intro _
  refine ⟨_, rfl, ?_⟩
  simp only [findExpiredWaits, Sql.Truth.holds_and, Bool.and_eq_true, holds_dueSince] at h
  have hnow := sqlNow_le w.now
  have hdue := h.2
  cases hq : call.queuedAt <;> cases hr : call.ringingAt <;> simp [hq, hr] at hdue ⊢ <;> omega

/-- Whatever a sweep selects is due. -/
theorem due_of_read {w : World} {s : Stmt} {sel : Selection}
    (h : sel ∈ selections ⟨s, (s.exec w).2⟩) : sel.Due w := by
  cases s with
  | query q =>
    cases q with
    | findAllStuckCalls minutes =>
      obtain ⟨call, hcall, rfl⟩ := List.mem_map.mp h
      exact due_of_findAllStuckCalls (World.mem_selectCalls.mp hcall).2
    | findStuckCallsForUser agentId minutes =>
      obtain ⟨call, hcall, rfl⟩ := List.mem_map.mp h
      exact due_of_findStuckCallsForUser (World.mem_selectCalls.mp hcall).2
    | findStuckIvrTransferredCalls =>
      obtain ⟨call, hcall, rfl⟩ := List.mem_map.mp h
      exact due_of_findStuckIvrTransferredCalls (World.mem_selectCalls.mp hcall).2
    | findExpiredWaits =>
      obtain ⟨wait, hwait, rfl⟩ := List.mem_map.mp h
      obtain ⟨call, hcall, rfl⟩ := List.mem_map.mp hwait
      have hmem := (List.mem_insertionSort _).mp (List.mem_of_mem_take hcall)
      exact due_of_findExpiredWaits (World.mem_selectCalls.mp hmem).2
    | _ => cases h
  | _ => cases h

/-! ## Sweeps as a protocol -/

/-- The update ends no ringing call, whatever it finds. -/
def Sparing (u : CallUpdate) : Prop :=
  ∀ (row : CallRow) (now : Nat), u.guard row = true → row.status = .ringing →
    (u.set now row).ended = false

/-- What a sweep has selected; handlers that are none keep no account. -/
inductive Phase
  | idle
  | sweeping (sels : List Selection)

def next : Phase → (s : Stmt) → s.Res → Phase
  | .idle, _, _ => .idle
  | .sweeping sels, s, r => .sweeping (selections ⟨s, r⟩ ++ sels)

def allows : Phase → Stmt → Prop
  | .sweeping sels, .updateCall c u => Sparing u ∨ ∃ sel ∈ sels, sel.call.id = c
  | _, _ => True

def protocol : Protocol Stmt.Res := ⟨Phase, next, allows⟩

/-- The sweep has selected these at least. -/
def Selected (sels : List Selection) (q : Phase) : Prop := ∃ l, q = .sweeping l ∧ sels ⊆ l

theorem selected_next {sels : List Selection} {q : Phase} (h : Selected sels q) (s : Stmt)
    (r : s.Res) : Selected sels (next q s r) := by
  obtain ⟨l, rfl, hsub⟩ := h
  exact ⟨_, rfl, fun sel hsel => List.mem_append_right _ (hsub hsel)⟩

section sweeping

variable {sels : List Selection}

theorem keeps_sparing {s : Stmt} (hs : ∀ c u, s = .updateCall c u → Sparing u) :
    protocol.Keeps (Selected sels) s := by
  rintro _ ⟨l, rfl, hsub⟩
  refine ⟨?_, selected_next ⟨l, rfl, hsub⟩ s⟩
  cases s with
  | updateCall c u => exact .inl (hs c u rfl)
  | _ => trivial

theorem keeps_end {sel : Selection} (hsel : sel ∈ sels) (u : CallUpdate) :
    protocol.Keeps (Selected sels) (.updateCall sel.call.id u) := by
  rintro _ ⟨l, rfl, hsub⟩
  exact ⟨.inr ⟨sel, hsub hsel, rfl⟩, selected_next ⟨l, rfl, hsub⟩ _⟩

theorem sparing_of_takingBack {s : Stmt} (h : s.TakingBack) (c : Nat) (u : CallUpdate)
    (hs : s = .updateCall c u) : Sparing u := by
  subst hs
  intro row now _ hstatus
  cases u with
  | withdrawOffer a t => simp [CallUpdate.set, CallRow.ended, hstatus, CallStatus.active]
  | overflowToQueue source target offered => simp [CallUpdate.set, CallRow.ended, hstatus, CallStatus.active]
  | returnHandoverToQueue a t => rfl
  | expireHandover a t => simp [CallUpdate.set, CallRow.ended, hstatus, CallStatus.active]
  | _ => cases h

theorem routes : Routes protocol (Selected sels) := by
  refine .of_keeps fun s hs => keeps_sparing ?_
  rintro c u rfl
  rcases hs with hs | hs <;> cases hs

theorem keeps_counting (a : Nat) : protocol.Keeps (Selected sels) (.incrementMissed a) :=
  keeps_sparing nofun

theorem keeps_settling {s : Stmt} (h : s.Settling) : protocol.Keeps (Selected sels) s := by
  refine keeps_sparing ?_
  rintro c u rfl
  cases h

theorem endCall_stays {call : Call} {opts : EndOptions}
    (h : (∃ sel ∈ sels, sel.call.id = call.id) ∨
      opts.failure = false ∧ ∃ status, opts.onlyIfStatus = some status ∧ status ≠ .ringing) :
    (CallTerminator.endCall call opts).Stays protocol (Selected sels) := by
  refine Callio.endCall_stays routes.toSeeks (fun s => keeps_settling) (fun _ _ => keeps_sparing nofun) ?_
  rcases h with ⟨sel, hsel, hid⟩ | ⟨hfailure, status, honly, hstatus⟩
  · unfold CallTerminator.commit
    rw [← hid]
    exact .ite (fun _ => keeps_end hsel _) fun _ => keeps_end hsel _
  · unfold CallTerminator.commit
    rw [hfailure, honly]
    refine keeps_sparing (s := .updateCall call.id (.terminateCallIfNotTerminated _ _ _ (some status))) ?_
    rintro c u ⟨⟩ row now hg hrings
    simp [CallUpdate.guard, hrings, hstatus.symm] at hg

end sweeping

/-! ## Handlers -/

/-- A read of calls, and what is done with them: they are selected first. -/
theorem read_follows {q : Query} {f : q.Res → Code Unit} (sels : q.Res → List Selection)
    (hsels : ∀ rows, sels rows ⊆ selections ⟨.query q, rows⟩)
    (hf : ∀ rows, (f rows).Stays protocol (Selected (sels rows))) :
    (Code.read q >>= f).Takes protocol (Selected []) (Selected []) := by
  rintro _ ⟨l, rfl, _⟩
  refine ⟨trivial, fun rows => ?_⟩
  have hsub : sels rows ⊆ selections ⟨.query q, rows⟩ ++ l :=
    fun sel hsel => List.mem_append_left _ (hsels rows hsel)
  refine (hf rows _ ⟨_, rfl, hsub⟩).mono ?_
  rintro _ _ ⟨l, rfl, _⟩
  exact ⟨l, rfl, List.nil_subset _⟩

theorem batchCleanupCalls_stays {sels : List Selection} {items : List (Nat × TerminationReason)}
    (h : ∀ item ∈ items, ∃ sel ∈ sels, sel.call.id = item.1) :
    (batchCleanupCalls items).Stays protocol (Selected sels) :=
  Callio.batchCleanupCalls_stays routes.toSeeks fun _ item hitem hid =>
    endCall_stays (.inl (hid ▸ h item hitem))

theorem mem_of_item {calls : List Call} {clock : Clock} {reason : Call → TerminationReason} :
    ∀ item ∈ calls.map fun call => (call.id, reason call),
      ∃ sel ∈ calls.map fun call => (⟨call, clock⟩ : Selection), sel.call.id = item.1 := by
  intro item hitem
  obtain ⟨call, hcall, rfl⟩ := List.mem_map.mp hitem
  exact ⟨⟨call, clock⟩, List.mem_map_of_mem hcall, rfl⟩

theorem expireOffers_stays : expireOffers.Stays protocol (Selected []) := by
  have htaking : ∀ s : Stmt, s.TakingBack → protocol.Keeps (Selected []) s :=
    fun s hs => keeps_sparing (sparing_of_takingBack hs)
  refine .bind (routes.read .findExpiredOffers trivial) fun calls => expireOffersOf_stays fun call _ => ?_
  refine expireOffer_stays fun a _ => passOffer_stays routes (fun _ => keeps_counting) (fun s hs => htaking s hs.takingBack) ?_
  refine keeps_sparing ?_
  rintro c u ⟨⟩ row now _ hrings
  simp [CallUpdate.set, CallRow.ended, hrings, CallStatus.active]

theorem queueTimeoutTick_stays (seconds : Nat) :
    (queueTimeoutTick seconds).Stays protocol (Selected []) := by
  have htaking : ∀ sels, ∀ s : Stmt, s.TakingBack → protocol.Keeps (Selected sels) s :=
    fun _ s hs => keeps_sparing (sparing_of_takingBack hs)
  have hwaits : expireWaits.Stays protocol (Selected []) := by
    refine read_follows (fun waits => waits.map fun wait => ⟨wait.1, .waiting⟩)
      (fun _ => List.Subset.refl _) fun waits => expireWaitsOf_stays fun wait hwait => ?_
    refine waitExpired_stays routes.toSeeks (htaking _) _ _ (endCall_stays (.inl ?_))
    exact ⟨_, List.mem_map_of_mem hwait, rfl⟩
  have hhandovers : (expireHandovers seconds).Stays protocol (Selected []) := by
    refine .bind (routes.read (.findExpiredHandovers seconds) trivial) fun calls =>
      expireHandoversOf_stays fun call _ => ?_
    exact handoverExpired_stays (fun c a t => htaking _ (.updateCall c (.returnHandoverToQueue a t)) trivial)
      (fun c a t => htaking _ (.updateCall c (.expireHandover a t)) trivial) call (passHandover_stays routes keeps_counting (htaking _) call)
      (endCall_stays (.inr ⟨rfl, .inProgress, rfl, nofun⟩))
  exact expireOffers_stays.bind fun _ => hwaits.bind fun _ => hhandovers

theorem expireOutboundIntents_stays : expireOutboundIntents.Stays protocol (Selected []) := by
  refine .bind (routes.read (.findExpiredOutboundIntents _) trivial) fun calls => ?_
  induction calls with
  | nil => exact Prog.stays_ret _
  | cons call rest ih =>
    refine .bind (.bind (routes.read (.findById call.id) trivial) fun found => ?_) fun _ => ih
    cases found with
    | none => exact Prog.stays_ret _
    | some call => exact endCall_stays (.inr ⟨rfl, .initiated, rfl, nofun⟩)

/-- Where a handler begins. -/
def start (h : Handler) : Phase := if sweeps h then .sweeping [] else .idle

theorem sweep_follows {h : Handler} (hs : sweeps h = true) :
    h.code.Stays protocol (Selected []) := by
  cases h with
  | queueTimeoutTick seconds => exact queueTimeoutTick_stays seconds
  | periodicCleanup =>
    exact read_follows (fun rows => rows.map fun call => ⟨call, .ringing 1⟩)
      (fun _ => List.Subset.refl _) fun rows => batchCleanupCalls_stays mem_of_item
  | ivrRingCleanup =>
    exact read_follows (fun rows => rows.map fun call => ⟨call, .ringingAgent⟩)
      (fun _ => List.Subset.refl _) fun rows => (recordIvrMisses_stays routes keeps_counting rows).bind fun _ =>
        batchCleanupCalls_stays mem_of_item
  | releaseStaleCalls agentId =>
    exact read_follows (fun rows => rows.map fun call => ⟨call, .ringing 1⟩)
      (fun _ => List.Subset.refl _) fun rows => batchCleanupCalls_stays mem_of_item
  | expireOutboundIntents => exact expireOutboundIntents_stays
  | _ => cases hs

theorem other_follows (h : Handler) : h.code.Stays protocol fun (q : Phase) => q = .idle := by
  have hkeeps : ∀ s : Stmt, protocol.Keeps (fun (q : Phase) => q = .idle) s := by
    rintro s _ rfl
    exact ⟨trivial, fun _ => rfl⟩
  exact h.code_stays (.of_keeps fun s _ => hkeeps s) (fun s _ => hkeeps s) (fun _ _ => hkeeps _)
    fun _ _ s _ => hkeeps s

theorem follows (h : Handler) : h.code.Follows protocol (start h) fun _ _ => True := by
  unfold start
  split
  · rename_i hs
    exact (sweep_follows hs _ ⟨[], rfl, List.nil_subset _⟩).mono fun _ _ _ => trivial
  · exact (other_follows h _ rfl).mono fun _ _ _ => trivial

/-! ## Runs -/

theorem phase_selected (h : History Stmt.Res) :
    protocol.phase (.sweeping [] : Phase) h = Phase.sweeping (h.flatMap selections) := by
  induction h with
  | nil => rfl
  | cons step h ih =>
    show next (protocol.phase (.sweeping [] : Phase) h) step.1 step.2 = _
    rw [ih, List.flatMap_cons]
    rfl

/-- What every sweep has selected is due. -/
def Invariant (w : World) (ph : ι → Phase) : Prop :=
  ∀ i l, ph i = .sweeping l → ∀ sel ∈ l, sel.Due w

theorem Invariant.step {w : World} {ph : ι → Phase} (h : Invariant w ph) (i : ι) (s : Stmt) :
    Invariant (s.exec w).1 (Function.update ph i (next (ph i) s (s.exec w).2)) := by
  intro j l hl sel hsel
  by_cases hj : j = i
  · subst hj
    rw [Function.update_self] at hl
    cases hph : ph j with
    | idle =>
      rw [hph] at hl
      cases hl
    | sweeping before =>
      rw [hph] at hl
      obtain rfl : selections ⟨s, (s.exec w).2⟩ ++ before = l := Phase.sweeping.inj hl
      rcases List.mem_append.mp hsel with hsel | hsel
      · exact due_exec (due_of_read hsel) s
      · exact due_exec (h j before hph sel hsel) s
  · rw [Function.update_of_ne hj] at hl
    exact due_exec (h j l hl sel hsel) s

omit [DecidableEq ι] in
theorem Invariant.init (w : World) (hs : ι → Handler) : Invariant w fun i => start (hs i) := by
  intro i l hl sel hsel
  have hempty : ∀ h : Handler, start h = .sweeping l → l = [] := by
    intro h hl
    unfold start at hl
    split at hl
    · exact (Phase.sweeping.inj hl).symm
    · cases hl
  simp [hempty (hs i) hl] at hsel

/-- Call 1 was answered long ago and has been handed over to agent 1, in a
queue without a limit, and nobody has accepted it for half a minute. -/
def handedOver : World :=
  { now := 300000
    calls := .ofList [fun _ => { direction := .inbound, status := .inProgress, state := some .active,
                                 queueId := some 1, agentId := some 1, ringingAt := some 0,
                                 queuedAt := some 0, answeredAt := some 9000,
                                 offeredAt := some 270000 }]
    agents := .ofList [fun _ => { busyCallId := some 1 }]
    queues := fun q => if q = 1 then some {} else none }

/-- A tick returns the call to its queue, and the cleanup runs. -/
def returned : Fin 2 → Handler
  | 0 => .queueTimeoutTick 30
  | 1 => .periodicCleanup

/-- A queue that lets a call wait for a minute, with nobody in it. -/
def minuteQueue : World := { queues := fun q => if q = 1 then some { maxWaitSeconds := some 60 } else none }

/-- A call arrives, a minute passes, the queue's timers run. -/
def arriving : Fin 3 → Handler
  | 0 => .inboundCall { id := 1, inboundQueueId := some 1 } { providerCallId := 7, customerAddress := some 5 } {}
  | 1 => .queueTimeoutTick 30
  | 2 => .clock 60000

end Callio.QueueWait
