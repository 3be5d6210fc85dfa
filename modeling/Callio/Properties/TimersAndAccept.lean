import Mathlib
import Callio.Conduct.Handlers
import Callio.Persistence.Effects

/-! Timers and an accept. The claim of an accept clears `offered_at`, and that
keeps every withdrawal off the call; the timers' ends are guarded on the status
alone, so they are the ones that can end a call while it is being answered. -/

namespace Callio

open Concurrency Code

/-- The handlers a timer runs. -/
def Handler.timer : Handler → Bool
  | queueTimeoutTick _ | lineRingExpired _ | periodicCleanup | ivrRingCleanup | batchCleanup _
  | expireOutboundIntents => true
  | _ => false

namespace TimersAndAccept

inductive Phase
  /-- An accept that has not claimed the call. -/
  | asking (providerAccepts : Bool)
  /-- Between the claim and IN_PROGRESS, or a failure. -/
  | answering (agentId : Nat) (providerAccepts : Bool)
  | timer
  | other
  deriving DecidableEq

def Phase.answers : Phase → Bool
  | answering _ _ => true
  | _ => false

def start : Handler → Phase
  | .agentJoined a => .asking a.providerAccepts
  | h => if h.timer then .timer else .other

/-- An accept of call `c` is over when it has moved the call, or an answer
told it that it cannot. -/
def isOver (c : Nat) (providerAccepts : Bool) : (s : Stmt) → s.Res → Bool
  | .updateCall id (.assignCallToAgentIfEligible _), won => id = c && !won
  | .updateCall id (.transitionStatus _ _), _ => id = c
  | .media id (.agentAccepted _ _ _), accepted => id = c && accepted ≠ .ok
  | .query (.findById id), call => id = c && !call.any (·.status = .ringing)
  | .query (.customerOffer id), stored => id = c && !stored
  | .query (.getStatus id), status => id = c && !status.all (·.active)
  | .provider id .accept, _ => id = c && !providerAccepts
  | _, _ => false

def next (c : Nat) : Phase → (s : Stmt) → s.Res → Phase
  | .asking b, .updateCall id (.assignCallToAgentIfEligible a), won =>
      if id = c ∧ won = true then .answering a b else .asking b
  | .answering a b, s, r => if isOver c b s r then .other else .answering a b
  | q, _, _ => q

/-- The statements that give a call with an agent to another, or offer it again. -/
def reassigns : Stmt → Bool
  | .updateCall _ (.updateCallAgentIfCurrent _ _) | .updateCall _ (.markHandoverOffered _) => true
  | _ => false

/-- Statements of a timer. -/
def Timed (s : Stmt) : Prop := s.Routing ∨ s.Offering ∨ s.Ending ∨ s.Withdrawing

def allows (q : Phase) (s : Stmt) : Prop := reassigns s = false ∧ (q = .timer → Timed s)

abbrev protocol (c : Nat) : Protocol Stmt.Res := ⟨Phase, next c, allows⟩

variable {c : Nat}

/-! ## Handlers -/

theorem reassigns_of_has {v : Vocabulary} {s : Stmt} (h : v.Has s) (hv : v ≠ .transferring) :
    reassigns s = false := by
  cases s with
  | updateCall id u =>
    cases v <;> cases u <;> simp_all [reassigns]
  | _ => rfl

theorem reassigns_of_timed {s : Stmt} (h : Timed s) : reassigns s = false := by
  rcases h with h | h | h | h
  · exact reassigns_of_has (v := .routing) h nofun
  · exact reassigns_of_has (v := .offering) h nofun
  · exact reassigns_of_has (v := .ending) h nofun
  · exact reassigns_of_has (v := .withdrawing) h nofun

theorem keeps_timer {s : Stmt} (h : Timed s) : (protocol c).Keeps (· = .timer) s := by
  rintro _ rfl
  exact ⟨⟨reassigns_of_timed h, fun _ => h⟩, fun _ => rfl⟩

theorem keeps_other {s : Stmt} (h : reassigns s = false) : (protocol c).Keeps (· ≠ .timer) s := by
  refine fun q hq => ⟨⟨h, fun hq' => absurd hq' hq⟩, fun r => ?_⟩
  show next c q s r ≠ .timer
  unfold next
  split
  · split <;> nofun
  · split <;> nofun
  · exact hq

theorem timer_follows (h : Handler) (ht : h.timer = true) :
    h.code.Follows (protocol c) .timer fun _ _ => True := by
  have hvoc : ∀ v ∈ h.vocabulary, v = .withdrawing := by
    cases h <;> simp_all [Handler.timer, Handler.vocabulary]
  refine (h.code_stays (.of_keeps fun s hs => keeps_timer (hs.elim .inl fun ho => .inr (.inl ho)))
    (fun s hs => keeps_timer (.inr (.inr (.inl hs)))) (fun _ a => keeps_timer (.inl trivial))
    (fun v hm s hs => keeps_timer ?_) .timer rfl).mono fun _ _ _ => trivial
  obtain rfl := hvoc v hm
  exact .inr (.inr (.inr hs))

theorem other_follows (h : Handler) (hv : .transferring ∉ h.vocabulary) {q : Phase} (hq : q ≠ .timer) :
    h.code.Follows (protocol c) q fun _ _ => True := by
  have hkeeps : ∀ v : Vocabulary, v ≠ .transferring → ∀ s : Stmt, v.Has s → (protocol c).Keeps (· ≠ .timer) s :=
    fun v hv s hs => keeps_other (reassigns_of_has hs hv)
  refine (h.code_stays (.of_keeps fun s hs => ?_) (hkeeps .ending nofun)
    (fun _ a => hkeeps .routing nofun (.incrementMissed a) trivial)
    (fun v hm => hkeeps v (ne_of_mem_of_not_mem hm hv)) q hq).mono fun _ _ _ => trivial
  exact hs.elim (hkeeps .routing nofun s) (hkeeps .offering nofun s)

theorem follows (h : Handler) (hv : .transferring ∉ h.vocabulary) :
    h.code.Follows (protocol c) (start h) fun _ _ => True := by
  by_cases ht : h.timer = true
  · have hs : start h = .timer := by cases h <;> simp_all [start, Handler.timer]
    rw [hs]
    exact timer_follows h ht
  · refine other_follows h hv ?_
    cases h <;> simp_all [start, Handler.timer]

/-! ## A call being answered -/

/-- The call is the agent's, and no offer of it is open. -/
def Answered (agentId : Nat) (row : CallRow) : Prop := row.agentId = some agentId ∧ row.offeredAt = none

/-- Nothing but a transfer takes the call from an agent answering it, or offers it again. -/
theorem Answered.set {u : CallUpdate} {row : CallRow} {agentId id now : Nat} (h : Answered agentId row)
    (hg : u.guard row = true) (hr : reassigns (.updateCall id u) = false) :
    Answered agentId (u.set now row) := by
  obtain ⟨ha, ho⟩ := h
  cases u with
  | updateTimestamp field value => cases field <;> exact ⟨ha, ho⟩
  | updateCallState state status => cases status <;> exact ⟨ha, ho⟩
  | updateCallAgentIfCurrent _ _ => cases hr
  | markHandoverOffered _ => cases hr
  | assignCallToAgentIfUnassigned b => simp [CallUpdate.guard, ha] at hg
  | assignCallToAgentIfEligible b =>
    simp only [CallUpdate.guard, ha, Option.isNone_some, Bool.false_or, Bool.and_eq_true,
      decide_eq_true_eq] at hg
    exact ⟨hg.1.2.symm, rfl⟩
  | withdrawOffer b expiredBefore => simp [CallUpdate.guard, ho] at hg
  | overflowToQueue source target offered => simp [CallUpdate.guard, ha, ho] at hg
  | claimHandover _ | expireHandover _ _ => exact ⟨ha, rfl⟩
  | terminateCallIfNotTerminated _ _ _ _ => exact ⟨ha, rfl⟩
  | _ => exact ⟨ha, ho⟩

theorem Answered.not_assignable {row : CallRow} {agentId : Nat} (h : Answered agentId row) :
    row.assignable = false := by
  simp [CallRow.assignable, h.1]

/-- The columns that say who has the call, where it waits and whether it goes on. -/
def SameCourse (row row' : CallRow) : Prop :=
  row'.status = row.status ∧ row'.agentId = row.agentId ∧ row'.queueId = row.queueId

/-- The write of an end. -/
def commits : CallUpdate → Bool
  | .markCallFailedIfNotFinal _ _ | .terminateCallIfNotTerminated _ _ _ _ => true
  | _ => false

theorem Answered.sameCourse {u : CallUpdate} {row : CallRow} {agentId id now : Nat}
    (h : Answered agentId row) (ht : Timed (.updateCall id u)) (hg : u.guard row = true)
    (hc : commits u = false) : SameCourse row (u.set now row) := by
  obtain ⟨ha, ho⟩ := h
  cases u with
  | withdrawOffer b expiredBefore => simp [CallUpdate.guard, ho] at hg
  | overflowToQueue source target offered => simp [CallUpdate.guard, ha, ho] at hg
  | returnHandoverToQueue b t | expireHandover b t => simp [CallUpdate.guard, CallRow.offeredBy, ho] at hg
  | _ => simp_all [Timed, commits]

theorem not_sameCourse_of_commits {u : CallUpdate} {row : CallRow} {now : Nat}
    (hg : u.guard row = true) (hc : commits u = true) : ¬ SameCourse row (u.set now row) := by
  rintro ⟨hs, -⟩
  cases u with
  | markCallFailedIfNotFinal reason who | terminateCallIfNotTerminated reason who endedAt required =>
    simp only [CallUpdate.set] at hs
    simp [CallUpdate.guard, CallRow.ended, ← hs, CallStatus.active] at hg
  | _ => cases hc

/-! ## Runs -/

section runs

variable {ι : Type}

abbrev phases (c : Nat) (hs : ι → Handler) (s : Service ι) : ι → Phase :=
  (protocol c).phases (fun i => start (hs i)) s

/-- A timer's move while an accept of call `c` is under way. -/
def TimerDuringAccept (c : Nat) (hs : ι → Handler) (s : Service ι) (i : ι) : Prop :=
  (hs i).timer = true ∧ ∃ j, (phases c hs s j).answers = true

def Ends (c : Nat) (w : World) : Stmt → Bool
  | .updateCall id u => id = c && commits u && (w.call c).any u.guard
  | _ => false

instance [Fintype ι] (c : Nat) (hs : ι → Handler) (s : Service ι) (i : ι) :
    Decidable (TimerDuringAccept c hs s i) :=
  inferInstanceAs (Decidable (_ ∧ _))

variable [DecidableEq ι]

/-- No timer withdraws, moves or ends the call while an accept is under way. -/
def LeftAlone (c : Nat) (hs : ι → Handler) (s : Service ι) (schedule : List ι) : Prop :=
  ∀ m ∈ s.moves schedule, TimerDuringAccept c hs m.1 m.2 →
    ∃ row row', m.1.state.call c = some row ∧ (m.1.run [m.2]).state.call c = some row' ∧ SameCourse row row'

/-- The call is held by whoever is answering it. -/
def Held (c : Nat) (w : World) (ph : ι → Phase) : Prop :=
  ∀ i a b, ph i = .answering a b → ∃ row, w.call c = some row ∧ Answered a row

theorem held_exec {c : Nat} {w : World} {s : Stmt} {a : Nat} (hr : reassigns s = false)
    (h : ∃ row, w.call c = some row ∧ Answered a row) :
    ∃ row, (s.exec w).1.call c = some row ∧ Answered a row := by
  obtain ⟨row, hrow, ha⟩ := h
  rcases Stmt.onCall w c s with hsame | ⟨u, row', rfl, hrow', hg, hset⟩ | ⟨_, _, hnone, _⟩ |
    ⟨row', _, _, hrow', hset⟩ | ⟨_, _, row', _, hrow', hc, _, _⟩
  · exact ⟨row, hsame ▸ hrow, ha⟩
  · cases hrow.symm.trans hrow'
    exact ⟨_, hset, ha.set hg hr⟩
  · cases hrow.symm.trans hnone
  · cases hrow.symm.trans hrow'
    exact ⟨_, hset, ha⟩
  · cases hrow.symm.trans hrow'
    rw [ha.not_assignable] at hc
    cases hc

/-- An accept comes under way with its claim. -/
theorem answering_next {q : Phase} {s : Stmt} {r : s.Res} {a : Nat} {b : Bool}
    (h : next c q s r = .answering a b) :
    q = .answering a b ∨
      (⟨s, r⟩ : Sigma Stmt.Res) = ⟨.updateCall c (.assignCallToAgentIfEligible a), true⟩ := by
  unfold next at h
  split at h
  · split at h
    · rename_i hw
      obtain ⟨rfl, rfl⟩ := hw
      cases h
      exact .inr rfl
    · cases h
  · split at h
    · cases h
    · exact .inl h
  · exact .inl h

theorem held_step {cfg : Service ι} {ph : ι → Phase} {i : ι} {s : Stmt} (hal : allows (ph i) s)
    (h : Held c cfg.state ph) : Held c (s.exec cfg.state).1
      (Function.update ph i (next c (ph i) s (s.exec cfg.state).2)) := by
  intro j a b hj
  by_cases hji : j = i
  · subst hji
    rw [Function.update_self] at hj
    rcases answering_next hj with hq | hclaim
    · exact held_exec hal.1 (h j a b hq)
    · obtain ⟨_, row, _, _, hset⟩ := Stmt.row_of_won hclaim
      exact ⟨_, hset, rfl, rfl⟩
  · rw [Function.update_of_ne hji] at hj
    exact held_exec hal.1 (h j a b hj)

omit [DecidableEq ι] in
theorem phases_of_timer {hs : ι → Handler} {s : Service ι} {i : ι} (ht : (hs i).timer = true) :
    phases c hs s i = .timer := by
  have hstart : start (hs i) = .timer := by
    cases h : hs i <;> simp_all [start, Handler.timer]
  show (protocol c).phase (start (hs i)) _ = .timer
  rw [hstart]
  induction (s.threads i).seen with
  | nil => rfl
  | cons x rest ih =>
    show next c ((protocol c).phase .timer rest) _ _ = .timer
    rw [ih]
    rfl

theorem start_ne_answering (h : Handler) (a : Nat) (b : Bool) : start h ≠ .answering a b := by
  cases h <;> simp [start, Handler.timer]

omit [DecidableEq ι] in
/-- What a timer does to a call being answered shows in what it is about to issue. -/
theorem sameCourse_iff {w : World} {s : Stmt} {a : Nat} (ht : Timed s)
    (h : ∃ row, w.call c = some row ∧ Answered a row) :
    (∃ row row', w.call c = some row ∧ (s.exec w).1.call c = some row' ∧ SameCourse row row') ↔
      Ends c w s = false := by
  obtain ⟨row, hrow, ha⟩ := h
  constructor
  · rintro ⟨_, row', hrow₁, hrow', hsame⟩
    cases hrow.symm.trans hrow₁
    refine Bool.eq_false_iff.mpr fun hends => ?_
    cases s with
    | updateCall id u =>
      simp only [Ends, hrow, Option.any_some, Bool.and_eq_true, decide_eq_true_eq] at hends
      obtain ⟨⟨rfl, hc⟩, hg⟩ := hends
      cases hrow'.symm.trans (Stmt.exec_updateCall hrow hg)
      exact not_sameCourse_of_commits hg hc hsame
    | _ => cases hends
  · intro hends
    rcases Stmt.onCall w c s with hsame | ⟨u, row', rfl, hrow', hg, hset⟩ | ⟨_, _, hnone, _⟩ |
      ⟨row', _, _, hrow', hset⟩ | ⟨_, _, row', _, hrow', hc, _, _⟩
    · exact ⟨row, row, hrow, hsame ▸ hrow, rfl, rfl, rfl⟩
    · cases hrow.symm.trans hrow'
      have hc : commits u = false := by simpa [Ends, hrow, hg] using hends
      exact ⟨row, _, hrow, hset, ha.sameCourse ht hg hc⟩
    · cases hrow.symm.trans hnone
    · cases hrow.symm.trans hrow'
      exact ⟨row, _, hrow, hset, rfl, rfl, rfl⟩
    · cases hrow.symm.trans hrow'
      rw [ha.not_assignable] at hc
      cases hc

/-- A timer's end is all that can come between an accept's claim and IN_PROGRESS. -/
theorem leftAlone_iff (w : World) (hs : ι → Handler) (hv : ∀ i, .transferring ∉ (hs i).vocabulary)
    (schedule : List ι) (c : Nat) :
    LeftAlone c hs (Service.spawn w hs) schedule ↔
      ∀ m ∈ (Service.spawn w hs).moves schedule, TimerDuringAccept c hs m.1 m.2 →
        (m.1.next m.2).any (Ends c m.1.state) = false := by
  have hinv := (Protocol.invariant Stmt.exec (Held c) (fun _ _ => True)
    (fun cfg i s k _ _ hal h => held_step hal h)
    (Protocol.conforms_spawn (s := w) fun i => follows (c := c) (hs i) (hv i))
    (fun i a b hi => absurd hi (start_ne_answering _ a b))
    (fun _ _ => trivial : ∀ m ∈ (Service.spawn w hs).moves schedule, True)).2
  refine forall₂_congr fun ⟨s, i⟩ hm => forall_congr' fun hduring => ?_
  obtain ⟨hconf, hheld⟩ : (protocol c).Conforms _ _ s ∧ Held c s.state (phases c hs s) := hinv _ hm
  obtain ⟨ht, j, hj⟩ := hduring
  obtain ⟨a, hrow⟩ : ∃ a, ∃ row, s.state.call c = some row ∧ Answered a row := by
    cases hp : phases c hs s j with
    | answering a b => exact ⟨a, hheld j a b hp⟩
    | _ => simp [hp, Phase.answers] at hj
  cases hn : s.next i with
  | none =>
    have hrun : s.run [i] = s := by
      cases hp : (s.threads i).prog with
      | ret a => simp only [Service.run, run, step_ret Stmt.exec hp]
      | call stmt k => rw [Service.next_eq_some.mpr ⟨k, hp⟩] at hn; cases hn
    obtain ⟨row, hrow, _⟩ := hrow
    dsimp only
    rw [hrun]
    exact ⟨fun _ => rfl, fun _ => ⟨row, row, hrow, hrow, rfl, rfl, rfl⟩⟩
  | some stmt =>
    obtain ⟨k, hp⟩ := Service.next_eq_some.mp hn
    have htimed : Timed stmt := (hconf.allows hp).2 (phases_of_timer ht)
    have hrun : (s.run [i]).state = (stmt.exec s.state).1 := by
      simp only [Service.run, run, step_call Stmt.exec hp]
    dsimp only
    rw [hrun]
    exact sameCourse_iff htimed hrow

end runs

/-! ## A queue's offer runs out while the agent answers -/

/-- Call 1 rings agent 1 in a queue that passes offers on after 20 s. -/
def waiting : World :=
  { calls := .ofList [fun _ => { direction := .inbound, status := .ringing, state := some .queue, queueId := some 1,
                                 agentId := some 1, ringingAt := some 0, offeredAt := some 0 }]
    agents := .ofList [fun _ => { busyCallId := some 1 }]
    queues := fun q => if q = 1 then some { ringTimeoutSeconds := some 20 } else none
    customerOffer := fun c => c = 1, rooms := fun _ => { legSeq := 1, pendingAgent := some 1 } }

/-- 20 s pass, agent 1 accepts, the scan ticks. -/
def acceptAtTimeout : Fin 3 → Handler
  | 0 => .clock 20000
  | 1 => .agentJoined { callId := 1, userId := 1, sdpAnswer := .answer 1 }
  | 2 => .queueTimeoutTick 30

section

local instance neZeroTasks : NeZero 3 := ⟨by decide⟩

/-- The scan reads the offer before the accept claims it. -/
def scannedBefore : List (Fin 3) :=
  0 :: 2 :: List.replicate 8 1 ++ List.replicate 5 2 ++ List.replicate 20 1 ++ List.replicate 20 2

end

/-- It would pass the offer on while the accept is under way, and finds none to take. -/
theorem leftAlone_scannedBefore :
    LeftAlone 1 acceptAtTimeout (Service.spawn waiting acceptAtTimeout) scannedBefore ∧
      ∃ m ∈ (Service.spawn waiting acceptAtTimeout).moves scannedBefore, TimerDuringAccept 1 acceptAtTimeout m.1 m.2 :=
  ⟨(leftAlone_iff waiting acceptAtTimeout (by decide) _ 1).mpr (by decide), by decide⟩

/-! ## A personal line rings out while its owner answers -/

def ringingCall : CallRow :=
  { direction := .inbound, status := .ringing, agentId := some 1, ringingAt := some 0,
    offeredAt := some 0 }

def ringing : World :=
  { calls := .ofList [fun _ => ringingCall], agents := .ofList [fun _ => { busyCallId := some 1 }],
    customerOffer := fun c => c = 1, rooms := fun _ => { legSeq := 1, pendingAgent := some 1 } }

/-- The owner accepts (`false`), the line's ring deadline passes (`true`). -/
def acceptAtDeadline : Bool → Handler
  | false => .agentJoined { callId := 1, userId := 1, sdpAnswer := .answer 1 }
  | true => .lineRingExpired 1

/-- The deadline passes after the claim, before IN_PROGRESS: the call ends. -/
theorem not_leftAlone :
    ¬ ∀ (w : World) (hs : Bool → Handler) (schedule : List Bool) (c : Nat),
      (∀ i, .transferring ∉ (hs i).vocabulary) → LeftAlone c hs (Service.spawn w hs) schedule := by
  intro h
  obtain ⟨row, row', hrow, hrow', hstatus, -⟩ := h ringing acceptAtDeadline
    (List.replicate 8 false ++ [true, true]) 1 (by decide)
    ((Service.spawn ringing acceptAtDeadline).run (List.replicate 8 false ++ [true]), true)
    ((mem_moves _).mpr ⟨_, [], rfl, rfl⟩) (by decide)
  have hbefore : (((Service.spawn ringing acceptAtDeadline).run
      (List.replicate 8 false ++ [true])).state.call 1).map (·.status) = some .ringing := by decide
  have hafter : ((((Service.spawn ringing acceptAtDeadline).run
      (List.replicate 8 false ++ [true])).run [true]).state.call 1).map (·.status) =
        some .terminated := by
    decide
  rw [hrow] at hbefore
  rw [hrow'] at hafter
  simp_all

end TimersAndAccept

end Callio
