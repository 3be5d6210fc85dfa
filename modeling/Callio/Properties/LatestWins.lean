import Callio.Outbox.Publisher
import Callio.Persistence.Effects

/-! Whether the event of a call with the latest `occurred_at` tells how the call ended.
An event carries the row as its publication read it, and is stamped later. So a
publication that reads the row too early has to be followed by another, that reads
it late enough and is stamped later. -/

namespace Callio.Publisher

open Concurrency

/-! ## What the rule is about -/

/-- What a consumer goes by once the call is over. -/
structure Outcome where
  status : CallStatus
  terminationReason : Option TerminationReason
  terminatedBy : Option TerminatedBy
  agentId : Option Nat
  durations : Durations
  deriving DecidableEq, Repr

def outcome (row : CallRow) : Outcome where
  status := row.status
  terminationReason := row.terminationReason
  terminatedBy := row.terminatedBy
  agentId := row.agentId
  durations := ⟨row.ringingDuration, row.callDuration, row.queueDuration⟩

def CallView.outcome (v : CallView) : Outcome := ⟨v.status, v.terminationReason, v.terminatedBy, v.agentId, v.durations⟩

theorem outcome_view (call : Call) : (toConsumerCallView call).outcome = outcome call.toCallRow := rfl

/-- The event is one of call `c`, and none of its events has a later `occurred_at`. -/
def Station.Latest (σ : Station) (c : Nat) (e : Event) : Prop :=
  e ∈ σ.outbox ∧ e.callId = c ∧ ∀ e' ∈ σ.outbox, e'.callId = c → e'.occurredAt ≤ e.occurredAt

/-- "Latest `occurred_at` wins". -/
def Station.LatestWins (σ : Station) (c : Nat) : Prop :=
  ∀ e, σ.Latest c e → ∀ row, σ.world.call c = some row → e.call.outcome = outcome row

/-! ## The protocol -/

/-- How far a publication has come: before its read, holding the row it read, or with
the time it took too. -/
inductive Phase
  | handler
  | fresh (p : Publication)
  | held (p : Publication) (call : Call)
  | stamped (p : Publication) (call : Call) (occurredAt : Nat)
  | gone

namespace Phase

def next : Phase → (op : Op) → op.Res → Phase
  | fresh p, .core (.query (.findById _)), some call => held p call
  | fresh _, .core (.query (.findById _)), none => gone
  | held p call, .core (.query .now), now => stamped p call now
  | q, _, _ => q

def allows : Phase → Op → Prop
  | handler, .core _ => True
  | fresh p, .core (.query (.findById c)) => c = p.callId
  | fresh _, .existsByDedupeKey _ => True
  | held _ _, .core (.query (.findAgent _)) | held _ _, .core (.query .now) => True
  | held _ _, .tenantContext _ | held _ _, .subscribed _ _ => True
  | stamped _ _ _, .core (.wait _) => True
  | stamped p call occurredAt, .enqueue e =>
    e.callId = p.callId ∧ e.occurredAt = occurredAt ∧ e.call = toConsumerCallView call
  | _, _ => False

/-- The row a publication holds. -/
def Holds : Phase → Publication → Call → Prop
  | held p' call', p, call | stamped p' call' _, p, call => p' = p ∧ call' = call
  | _, _, _ => False

end Phase

def protocol : Protocol Op.Res := ⟨Phase, Phase.next, Phase.allows⟩

def Task.start : Task → Phase
  | handler _ => .handler
  | publish p => .fresh p

theorem core_follows {α : Type} (m : Code α) : (core m).Follows protocol .handler fun _ _ => True := by
  induction m with
  | ret a => trivial
  | call s k ih => exact ⟨trivial, fun r => ih r⟩

section

variable {p : Publication} {call : Call} {e : Event}

/-- Every attempt writes the same event. -/
theorem enqueue_follows (hc : e.callId = p.callId) (hv : e.call = toConsumerCallView call) (delays : List Nat)
    (failures : List Bool) :
    (enqueue e delays failures).Follows protocol (.stamped p call e.occurredAt) fun _ q =>
      q = .stamped p call e.occurredAt := by
  have hwrite : protocol.allows (.stamped p call e.occurredAt) (.enqueue e) := ⟨hc, rfl, hv⟩
  have hfailed : ∀ written, (failedAttempt e written).Follows protocol (.stamped p call e.occurredAt) fun _ q =>
      q = .stamped p call e.occurredAt := by
    intro written
    cases written with
    | false => exact (Prog.follows_pure _ _ _).mpr rfl
    | true => exact (Prog.follows_cmd_bind _ _ _ _).mpr ⟨hwrite, fun _ => rfl⟩
  induction failures generalizing delays with
  | nil =>
    rw [enqueue]
    exact (Prog.follows_cmd_bind _ _ _ _).mpr ⟨hwrite, fun _ => rfl⟩
  | cons written failures ih =>
    cases delays with
    | nil => exact hfailed written
    | cons delay delays =>
      rw [enqueue]
      refine (hfailed written).bind fun _ q hq => ?_
      subst hq
      exact (Prog.follows_cmd_bind _ _ _ _).mpr ⟨trivial, fun _ => ih delays⟩

end

theorem publishRead_follows (p : Publication) (call : Call) :
    (p.publishRead call).Follows protocol (.held p call) fun _ _ => True := by
  refine (Prog.follows_cmd_bind _ _ _ _).mpr ⟨trivial, fun consumer => ?_⟩
  cases consumer with
  | none => trivial
  | some consumerId =>
    refine (Prog.follows_cmd_bind _ _ _ _).mpr ⟨trivial, fun subscribed => ?_⟩
    have hwrite : (stmt (.query .now) >>= fun occurredAt =>
        enqueue (p.event call consumerId occurredAt) writeRetryDelaysMs p.failures : Job Unit).Follows protocol
          (.held p call) fun _ _ => True := by
      refine (Prog.follows_cmd_bind _ _ _ _).mpr ⟨trivial, fun now => ?_⟩
      exact (enqueue_follows (e := p.event call consumerId now) rfl rfl _ _).mono fun _ _ _ => trivial
    cases subscribed with
    | false => trivial
    | true =>
      cases hagent : call.agentId with
      | none => exact hwrite
      | some agentId => exact (Prog.follows_cmd_bind _ _ _ _).mpr ⟨trivial, fun _ => hwrite⟩

theorem publishForCall_follows (p : Publication) :
    p.publishForCall.Follows protocol (.fresh p) fun _ _ => True := by
  have hread : ∀ k : Option Call → Job Unit, k none = pure () → (∀ call, k (some call) = p.publishRead call) →
      (stmt (.query (.findById p.callId)) >>= k).Follows protocol (.fresh p) fun _ _ => True := by
    intro k hnone hsome
    refine (Prog.follows_cmd_bind _ _ _ _).mpr ⟨rfl, fun call => ?_⟩
    cases call with
    | none =>
      rw [hnone]
      trivial
    | some call =>
      rw [hsome]
      exact publishRead_follows p call
  unfold Publication.publishForCall
  cases p.eventType.oncePerCall with
  | false =>
    refine hread _ ?_ ?_
    · rfl
    · exact fun _ => rfl
  | true =>
    refine (Prog.follows_cmd_bind _ _ _ _).mpr ⟨trivial, fun known => ?_⟩
    cases known with
    | true => trivial
    | false =>
      refine hread _ ?_ ?_
      · rfl
      · exact fun _ => rfl

theorem code_follows (t : Task) : t.code.Follows protocol t.start fun _ _ => True := by
  cases t with
  | handler h => exact core_follows h.code
  | publish p => exact publishForCall_follows p

/-! ## What a move does to a phase -/

/-- The phase a publication's read leads to. -/
def Publication.afterRead (p : Publication) : Option Call → Phase
  | some call => .held p call
  | none => .gone

/-- A move leaves the phase, or is the publication's read, or takes its time. -/
inductive Turn (q : Phase) (op : Op) (r : op.Res) : Prop
  | stays (h : q.next op r = q)
  | reads (p : Publication) (found : Option Call) (hq : q = .fresh p)
      (hop : (⟨op, r⟩ : Sigma Op.Res) = ⟨.core (.query (.findById p.callId)), found⟩)
      (h : q.next op r = p.afterRead found)
  | times (p : Publication) (call : Call) (now : Nat) (hq : q = .held p call)
      (hop : (⟨op, r⟩ : Sigma Op.Res) = ⟨.core (.query .now), now⟩) (h : q.next op r = .stamped p call now)

theorem turn {q : Phase} {op : Op} (ha : q.allows op) (r : op.Res) : Turn q op r := by
  cases q with
  | fresh p =>
    rcases op with s | _ | _ | _ | _
    · rcases s with q | _
      · cases q with
        | findById c =>
          obtain rfl : c = p.callId := ha
          cases r with
          | none => exact .reads p none rfl rfl rfl
          | some call => exact .reads p (some call) rfl rfl rfl
        | _ => cases ha
      all_goals cases ha
    all_goals exact .stays rfl
  | held p call =>
    rcases op with s | _ | _ | _ | _
    · rcases s with q | _
      · cases q with
        | now => exact .times p call r rfl rfl rfl
        | _ => exact .stays rfl
      all_goals exact .stays rfl
    all_goals exact .stays rfl
  | _ => exact .stays rfl

theorem Phase.Holds.next {q : Phase} {p : Publication} {call : Call} (h : q.Holds p call) {op : Op}
    (ha : q.allows op) (r : op.Res) : (q.next op r).Holds p call := by
  cases turn ha r with
  | stays hn =>
    rw [hn]
    exact h
  | reads p' found hq _ _ =>
    subst hq
    cases h
  | times p' call' now hq _ hn =>
    subst hq
    rw [hn]
    exact h

/-- A publication comes to hold a row by reading it. -/
theorem Phase.Holds.of_next {q : Phase} {op : Op} {r : op.Res} {p : Publication} {call : Call} (ha : q.allows op)
    (h : (q.next op r).Holds p call) : q.Holds p call ∨
      q = .fresh p ∧ (⟨op, r⟩ : Sigma Op.Res) = ⟨.core (.query (.findById p.callId)), some call⟩ := by
  cases turn ha r with
  | stays hn => exact .inl (hn ▸ h)
  | reads p' found hq hop hn =>
    rw [hn] at h
    cases found with
    | none => cases h
    | some call' =>
      obtain ⟨rfl, rfl⟩ := h
      exact .inr ⟨hq, hop⟩
  | times p' call' now hq _ hn =>
    rw [hn] at h
    subst hq
    exact .inl h

/-- A publication comes to have a time by taking it. -/
theorem Phase.stamped_of_next {q : Phase} {op : Op} {r : op.Res} {p : Publication} {call : Call} {t : Nat}
    (ha : q.allows op) (h : q.next op r = .stamped p call t) :
    q = .stamped p call t ∨ (⟨op, r⟩ : Sigma Op.Res) = ⟨.core (.query .now), t⟩ := by
  cases turn ha r with
  | stays hn => exact .inl (hn ▸ h)
  | reads p' found _ _ hn =>
    rw [hn] at h
    cases found <;> cases h
  | times p' call' now _ hop hn =>
    rw [hn] at h
    cases h
    exact .inr hop

/-- A handler is no publication, whatever it does. -/
theorem phase_handler (h : History Op.Res) : protocol.phase .handler h = .handler := by
  induction h with
  | nil => rfl
  | cons entry h ih =>
    show Phase.next (protocol.phase .handler h) entry.1 entry.2 = .handler
    rw [ih]
    rfl

/-- Only a handler asks for the time and is not stamped with it. -/
theorem Phase.next_now {q : Phase} (ha : q.allows (.core (.query .now))) (now : Nat) :
    q = .handler ∨ ∃ p call, q.next (.core (.query .now)) now = .stamped p call now := by
  cases q with
  | handler => exact .inl rfl
  | held p call => exact .inr ⟨p, call, rfl⟩
  | fresh | stamped | gone => cases ha

/-! ## Runs -/

section runs

variable {ι : Type} [DecidableEq ι] (σ : Station) (ts : ι → Task) (schedule : List ι)

/-- Move `j`, by thread `i`, reads call `c`. -/
def Reads (j : Nat) (i : ι) (c : Nat) : Prop :=
  schedule[j]? = some i ∧ ((Service.spawn σ ts).after schedule j).next i = some (.core (.query (.findById c)))

/-- Move `j`, by thread `i`, takes the time. -/
def Stamps (j : Nat) (i : ι) : Prop :=
  schedule[j]? = some i ∧ ((Service.spawn σ ts).after schedule j).next i = some (.core (.query .now))

/-- Move `j`, by thread `i`, writes event `e`. -/
def Writes (j : Nat) (i : ι) (e : Event) : Prop :=
  schedule[j]? = some i ∧ ((Service.spawn σ ts).after schedule j).next i = some (.enqueue e) ∧
    (Op.exec (.enqueue e) ((Service.spawn σ ts).after schedule j).state).2 = true

/-- The clock when move `j` is made. -/
abbrev clock (j : Nat) : Nat := ((Service.spawn σ ts).after schedule j).state.world.now

/-- How far thread `i` has come after `k` moves. -/
abbrev phaseAt (k : Nat) (i : ι) : Phase :=
  protocol.phases (fun i => (ts i).start) ((Service.spawn σ ts).after schedule k) i

/-- Where the events, and the rows and times that publications hold, come from. -/
structure Invariant (k : Nat) : Prop where
  conforms : protocol.Conforms (fun _ => True) (fun i => (ts i).start) ((Service.spawn σ ts).after schedule k)
  held : ∀ i p call, (phaseAt σ ts schedule k i).Holds p call → ∃ j < k, Reads σ ts schedule j i p.callId ∧
    ((Service.spawn σ ts).after schedule j).state.world.findCall p.callId = some call
  stamped : ∀ i p call t, phaseAt σ ts schedule k i = .stamped p call t →
    ∃ j < k, Stamps σ ts schedule j i ∧ clock σ ts schedule j = t
  stamps : ∀ i j, j < k → Stamps σ ts schedule j i → phaseAt σ ts schedule k i = .handler ∨
    ∃ p call, phaseAt σ ts schedule k i = .stamped p call (clock σ ts schedule j)
  writes : ∀ i j e, j < k → Writes σ ts schedule j i e → ∃ p call,
    phaseAt σ ts schedule k i = .stamped p call e.occurredAt ∧ e.callId = p.callId ∧ e.call = toConsumerCallView call
  written : ∀ e ∈ ((Service.spawn σ ts).after schedule k).state.outbox, e ∈ σ.outbox ∨
    ∃ i, ∃ j < k, Writes σ ts schedule j i e
  kept : ∀ i j e, j < k → Writes σ ts schedule j i e → e ∈ ((Service.spawn σ ts).after schedule k).state.outbox

variable {σ ts schedule}

theorem invariant_zero : Invariant σ ts schedule 0 where
  conforms := Protocol.conforms_spawn fun i => code_follows (ts i)
  held i p call h := by
    have hphase : (ts i).start.Holds p call := h
    cases ht : ts i <;> rw [ht] at hphase <;> cases hphase
  stamped i p call t h := by
    have hphase : (ts i).start = .stamped p call t := h
    cases ht : ts i <;> rw [ht] at hphase <;> cases hphase
  stamps _ j hj := absurd hj (Nat.not_lt_zero j)
  writes _ j _ hj := absurd hj (Nat.not_lt_zero j)
  written _ he := .inl he
  kept _ j _ hj := absurd hj (Nat.not_lt_zero j)

/-- What move `k` does, to each thread's phase and to the outbox. -/
structure Moved (σ : Station) (ts : ι → Task) (schedule : List ι) (k : Nat) : Prop where
  conforms : protocol.Conforms (fun _ => True) (fun i => (ts i).start) ((Service.spawn σ ts).after schedule (k + 1))
  mover : ∀ i op, schedule[k]? = some i → ((Service.spawn σ ts).after schedule k).next i = some op →
    (phaseAt σ ts schedule k i).allows op ∧ phaseAt σ ts schedule (k + 1) i =
      (phaseAt σ ts schedule k i).next op (op.exec ((Service.spawn σ ts).after schedule k).state).2
  phase : ∀ i, phaseAt σ ts schedule (k + 1) i = phaseAt σ ts schedule k i ∨
    ∃ op, schedule[k]? = some i ∧ ((Service.spawn σ ts).after schedule k).next i = some op
  outbox : ∀ e, e ∈ ((Service.spawn σ ts).after schedule (k + 1)).state.outbox ↔
    e ∈ ((Service.spawn σ ts).after schedule k).state.outbox ∨ ∃ i, Writes σ ts schedule k i e

theorem Op.mem_outbox_exec {op : Op} {σ : Station} {e : Event} :
    e ∈ (op.exec σ).1.outbox ↔ e ∈ σ.outbox ∨ op = .enqueue e ∧ (Op.exec (.enqueue e) σ).2 = true := by
  cases op with
  | enqueue e' =>
    simp only [exec, enqueue.injEq]
    by_cases hknown : e'.dedupeKey.any σ.existsByDedupeKey = true
    · rw [if_pos hknown]
      refine ⟨.inl, ?_⟩
      rintro (h | ⟨rfl, hwritten⟩)
      · exact h
      · rw [if_pos hknown] at hwritten
        cases hwritten
    · rw [if_neg hknown, List.mem_cons]
      constructor
      · rintro (rfl | h)
        · exact .inr ⟨rfl, by rw [if_neg hknown]⟩
        · exact .inl h
      · rintro (h | ⟨rfl, _⟩)
        · exact .inr h
        · exact .inl rfl
  | _ => exact ⟨.inl, fun h => h.elim id fun h => nomatch h.1⟩

theorem moved {k : Nat} (hk : k < schedule.length)
    (hc : protocol.Conforms (fun _ => True) (fun i => (ts i).start) ((Service.spawn σ ts).after schedule k)) :
    Moved σ ts schedule k := by
  have hi := List.getElem?_eq_getElem hk
  obtain ⟨hc', ⟨hn, hsame⟩ | ⟨op, hn, hallows, hstate, hphases⟩⟩ := Protocol.Conforms.run_take_succ hk hc
  · have hafter : (Service.spawn σ ts).after schedule (k + 1) = (Service.spawn σ ts).after schedule k := hsame
    refine ⟨hc', ?_, fun i => .inl ?_, fun e => ?_⟩
    · intro i op hi' hop
      cases hi.symm.trans hi'
      cases hn.symm.trans hop
    · unfold phaseAt
      rw [hafter]
    · rw [hafter]
      refine ⟨.inl, fun h => h.elim id ?_⟩
      rintro ⟨i, hi', hop, _⟩
      cases hi.symm.trans hi'
      cases hn.symm.trans hop
  · have hphase : ∀ i, phaseAt σ ts schedule (k + 1) i = Function.update (phaseAt σ ts schedule k) schedule[k]
        ((phaseAt σ ts schedule k schedule[k]).next op (op.exec ((Service.spawn σ ts).after schedule k).state).2) i :=
      fun i => congrFun hphases i
    refine ⟨hc', ?_, ?_, ?_⟩
    · intro i op' hi' hop
      cases hi.symm.trans hi'
      cases hn.symm.trans hop
      refine ⟨hallows, ?_⟩
      rw [hphase, Function.update_self]
    · intro i
      by_cases hik : i = schedule[k]
      · exact .inr ⟨op, hik ▸ hi, hik ▸ hn⟩
      · refine .inl ?_
        rw [hphase, Function.update_of_ne hik]
    · intro e
      have hstate' : ((Service.spawn σ ts).after schedule (k + 1)).state =
          (op.exec ((Service.spawn σ ts).after schedule k).state).1 := hstate
      rw [hstate', Op.mem_outbox_exec]
      refine or_congr_right ⟨?_, ?_⟩
      · rintro ⟨rfl, hwritten⟩
        exact ⟨schedule[k], hi, hn, hwritten⟩
      · rintro ⟨i, hi', hop, hwritten⟩
        cases hi.symm.trans hi'
        exact ⟨Option.some.inj (hn.symm.trans hop), hwritten⟩

theorem Invariant.succ {k : Nat} (hk : k < schedule.length) (h : Invariant σ ts schedule k) :
    Invariant σ ts schedule (k + 1) := by
  have hm := moved hk h.conforms
  -- what has its time keeps it
  have hkeeps : ∀ i p call t, phaseAt σ ts schedule k i = .stamped p call t →
      phaseAt σ ts schedule (k + 1) i = .stamped p call t := by
    intro i p call t hq
    rcases hm.phase i with hsame | ⟨op, hi, hop⟩
    · exact hsame.trans hq
    · obtain ⟨_, hnext⟩ := hm.mover i op hi hop
      rw [hq] at hnext
      exact hnext
  have hlast : ∀ j, j < k + 1 → j < k ∨ j = k := fun j hj => by omega
  refine ⟨hm.conforms, ?_, ?_, ?_, ?_, ?_, ?_⟩
  · intro i p call hold
    have hearlier : (phaseAt σ ts schedule k i).Holds p call → ∃ j < k + 1, Reads σ ts schedule j i p.callId ∧
        ((Service.spawn σ ts).after schedule j).state.world.findCall p.callId = some call := by
      intro hold
      obtain ⟨j, hj, hread⟩ := h.held i p call hold
      exact ⟨j, by omega, hread⟩
    rcases hm.phase i with hsame | ⟨op, hi, hop⟩
    · exact hearlier (hsame ▸ hold)
    · obtain ⟨hallows, hnext⟩ := hm.mover i op hi hop
      rw [hnext] at hold
      rcases hold.of_next hallows with hold | ⟨_, heq⟩
      · exact hearlier hold
      · obtain rfl : op = .core (.query (.findById p.callId)) := congrArg Sigma.fst heq
        exact ⟨k, by omega, ⟨hi, hop⟩, eq_of_heq (Sigma.mk.inj heq).2⟩
  · intro i p call t hq
    have hearlier : phaseAt σ ts schedule k i = .stamped p call t →
        ∃ j < k + 1, Stamps σ ts schedule j i ∧ clock σ ts schedule j = t := by
      intro hq
      obtain ⟨j, hj, hstamp⟩ := h.stamped i p call t hq
      exact ⟨j, by omega, hstamp⟩
    rcases hm.phase i with hsame | ⟨op, hi, hop⟩
    · exact hearlier (hsame.symm.trans hq)
    · obtain ⟨hallows, hnext⟩ := hm.mover i op hi hop
      rcases Phase.stamped_of_next hallows (hnext.symm.trans hq) with hq | heq
      · exact hearlier hq
      · obtain rfl : op = .core (.query .now) := congrArg Sigma.fst heq
        exact ⟨k, by omega, ⟨hi, hop⟩, eq_of_heq (Sigma.mk.inj heq).2⟩
  · intro i j hj hstamp
    rcases hlast j hj with hj | rfl
    · rcases h.stamps i j hj hstamp with hhandler | ⟨p, call, hq⟩
      · left
        rcases hm.phase i with hsame | ⟨op, hi, hop⟩
        · exact hsame.trans hhandler
        · obtain ⟨_, hnext⟩ := hm.mover i op hi hop
          rw [hhandler] at hnext
          exact hnext
      · exact .inr ⟨p, call, hkeeps i p call _ hq⟩
    · obtain ⟨hallows, hnext⟩ := hm.mover i _ hstamp.1 hstamp.2
      rcases Phase.next_now hallows (clock σ ts schedule j) with hhandler | ⟨p, call, hq⟩
      · rw [hhandler] at hnext
        exact .inl hnext
      · exact .inr ⟨p, call, hnext.trans hq⟩
  · intro i j e hj hwrite
    rcases hlast j hj with hj | rfl
    · obtain ⟨p, call, hq, he⟩ := h.writes i j e hj hwrite
      exact ⟨p, call, hkeeps i p call _ hq, he⟩
    · have hallows := (hm.mover i _ hwrite.1 hwrite.2.1).1
      cases hq : phaseAt σ ts schedule j i with
      | stamped p call t =>
        rw [hq] at hallows
        obtain ⟨hcall, rfl, hview⟩ := hallows
        exact ⟨p, call, hkeeps i p call _ hq, hcall, hview⟩
      | handler | fresh | held | gone =>
        rw [hq] at hallows
        cases hallows
  · intro e he
    rcases (hm.outbox e).mp he with he | ⟨i, hw⟩
    · exact (h.written e he).imp_right fun ⟨i, j, hj, hw⟩ => ⟨i, j, by omega, hw⟩
    · exact .inr ⟨i, k, by omega, hw⟩
  · intro i j e hj hwrite
    rcases hlast j hj with hj | rfl
    · exact (hm.outbox e).mpr (.inl (h.kept i j e hj hwrite))
    · exact (hm.outbox e).mpr (.inr ⟨i, hwrite⟩)

theorem invariant (k : Nat) (hk : k ≤ schedule.length) : Invariant σ ts schedule k := by
  induction k with
  | zero => exact invariant_zero
  | succ k ih => exact (ih (by omega)).succ (by omega)

/-! ## When the rule holds -/

variable (σ ts schedule)

/-- What the rule is about, of call `c` after `k` moves. -/
def outcomeAt (k c : Nat) : Option Outcome := (((Service.spawn σ ts).after schedule k).state.world.call c).map outcome

/-- Move `k` changes something of it. -/
def Changes (k c : Nat) : Prop := outcomeAt σ ts schedule (k + 1) c ≠ outcomeAt σ ts schedule k c

instance (k c : Nat) : Decidable (Changes σ ts schedule k c) := inferInstanceAs (Decidable (¬ _))

/-- What is read by move `j` is changed then or later. -/
def Early (j c : Nat) : Prop := ∃ k < schedule.length, j ≤ k ∧ Changes σ ts schedule k c

/-- A publication about call `c`: the moves that read the row, take the time and
write the event. -/
structure Publishes (i : ι) (c read stamp write : Nat) : Prop where
  task : ∃ p, ts i = .publish p
  reads : Reads σ ts schedule read i c
  stamps : stamp < schedule.length ∧ Stamps σ ts schedule stamp i
  writes : write < schedule.length ∧ ∃ e, e.callId = c ∧ Writes σ ts schedule write i e

/-- A publication that read the row early is followed by one that did not and that
takes its time at a later tick of the clock. -/
def FollowedUp (c : Nat) : Prop :=
  ∀ i read stamp write, Publishes σ ts schedule i c read stamp write → Early σ ts schedule read c →
    ∃ i' read' stamp' write', Publishes σ ts schedule i' c read' stamp' write' ∧ ¬ Early σ ts schedule read' c ∧
      clock σ ts schedule stamp < clock σ ts schedule stamp'

variable {σ ts schedule}

theorem outcome_final {j c : Nat} (hj : j ≤ schedule.length) (hlate : ¬ Early σ ts schedule j c) :
    outcomeAt σ ts schedule schedule.length c = outcomeAt σ ts schedule j c := by
  have hfrom : ∀ k, j ≤ k → k ≤ schedule.length → outcomeAt σ ts schedule k c = outcomeAt σ ts schedule j c := by
    intro k hjk
    induction k, hjk using Nat.le_induction with
    | base => exact fun _ => rfl
    | succ k hjk ih =>
      intro hk
      have hsame : outcomeAt σ ts schedule (k + 1) c = outcomeAt σ ts schedule k c := by
        by_contra hchange
        exact hlate ⟨k, by omega, hjk, hchange⟩
      exact hsame.trans (ih (by omega))
  exact hfrom _ hj le_rfl

/-- The publication of an event, if the call had none at the start: the event tells
the row it read and the time it took. -/
theorem published (hnew : ∀ e ∈ σ.outbox, e.callId ≠ c) {e : Event}
    (he : e ∈ ((Service.spawn σ ts).after schedule schedule.length).state.outbox) (hc : e.callId = c) :
    ∃ i read stamp write, Publishes σ ts schedule i c read stamp write ∧ read < schedule.length ∧
      e.occurredAt = clock σ ts schedule stamp ∧ outcomeAt σ ts schedule read c = some e.call.outcome := by
  have h : Invariant σ ts schedule schedule.length := invariant _ le_rfl
  rcases h.written e he with hold | ⟨i, write, hwrite, hw⟩
  · exact absurd hc (hnew e hold)
  obtain ⟨p, call, hq, hp, hview⟩ := h.writes i write e hwrite hw
  obtain ⟨stamp, hstamp, hs, hclock⟩ := h.stamped i p call _ hq
  obtain ⟨read, hread, hr, hfound⟩ := h.held i p call (by rw [hq]; exact ⟨rfl, rfl⟩)
  rw [← hp, hc] at hr hfound
  have htask : ∃ p, ts i = .publish p := by
    cases ht : ts i with
    | publish p => exact ⟨p, rfl⟩
    | handler handler =>
      have hstart : (ts i).start = .handler := by
        rw [ht]
        rfl
      have hphase : phaseAt σ ts schedule schedule.length i = .handler :=
        (congrArg (fun q => protocol.phase q _) hstart).trans (phase_handler _)
      rw [hphase] at hq
      cases hq
  refine ⟨i, read, stamp, write, ⟨htask, hr, ⟨hstamp, hs⟩, hwrite, e, hc, hw⟩, hread, hclock.symm, ?_⟩
  rw [outcomeAt, (World.findCall_eq_some.mp hfound).1, hview, outcome_view]
  rfl

/-- "Latest `occurred_at` wins" holds of a call whose early publications are all
followed up. -/
theorem latestWins_of_followedUp (c : Nat) (hnew : ∀ e ∈ σ.outbox, e.callId ≠ c)
    (hfollowed : FollowedUp σ ts schedule c) :
    ((Service.spawn σ ts).after schedule schedule.length).state.LatestWins c := by
  have h : Invariant σ ts schedule schedule.length := invariant _ le_rfl
  rintro e ⟨he, hc, hlatest⟩ row hrow
  obtain ⟨i, read, stamp, write, hpublishes, hread, htime, hseen⟩ := published hnew he hc
  have hlate : ¬ Early σ ts schedule read c := by
    intro hearly
    obtain ⟨i', read', stamp', write', ⟨_, _, ⟨hstamp', hs'⟩, hwrite', e', hc', hw'⟩, _, hlater⟩ :=
      hfollowed i read stamp write hpublishes hearly
    -- the one that follows it up has written a later event
    have hafter := hlatest e' (h.kept i' write' e' hwrite' hw') hc'
    obtain ⟨p', call', hq', _⟩ := h.writes i' write' e' hwrite' hw'
    rcases h.stamps i' stamp' hstamp' hs' with hhandler | ⟨p'', call'', hq''⟩
    · rw [hhandler] at hq'
      cases hq'
    · have hphase := hq'.symm.trans hq''
      simp only [Phase.stamped.injEq] at hphase
      omega
  have hfinal := outcome_final hread.le hlate
  rw [hseen, outcomeAt, hrow] at hfinal
  exact (Option.some.inj hfinal).symm

end runs

/-! ## An end reported after the call was over -/

/-- Agent 1 talks to a customer who answered at the start. -/
def talking : Station :=
  { world :=
      { now := 30000
        calls := .ofList [fun _ => { direction := .outbound, status := .inProgress, state := some .active, agentId := some 1,
                                     providerCallId := some 9, ringingAt := some 0, answeredAt := some 0 }]
        agents := .ofList [fun _ => { busyCallId := some 1 }] }
    consumerOf := fun _ => some 1 }

inductive Worker
  | hangUp | publisher | providerEnd
  deriving DecidableEq

/-- The agent hangs up, the end is published, and the provider reports the end. -/
def tasks : Worker → Task
  | .hangUp => .handler (.callTerminated 1 .hangUp false)
  | .publisher => .publish { callId := 1, eventType := .ended }
  | .providerEnd => .handler (.callEnded { id := 1 } { providerCallId := 9 })

/-- The event is published once the provider has reported too. -/
def publishedLast : List Worker :=
  List.replicate 12 .hangUp ++ List.replicate 12 .providerEnd ++ List.replicate 8 .publisher

/-- The event is published as soon as the call has ended. -/
def publishedFirst : List Worker :=
  List.replicate 12 .hangUp ++ List.replicate 8 .publisher ++ List.replicate 12 .providerEnd

/-- The publication reads the row when everything has been written. -/
theorem latestWins_publishedLast :
    ((Service.spawn talking tasks).after publishedLast publishedLast.length).state.LatestWins 1 := by
  refine latestWins_of_followedUp 1 (fun _ he => absurd he List.not_mem_nil) ?_
  rintro i read stamp write ⟨⟨p, hp⟩, ⟨hi, _⟩, _, _⟩ ⟨k, hk, hread, hchange⟩
  cases i with
  | hangUp | providerEnd => cases hp
  | publisher =>
    have hlate : ∀ j < publishedLast.length, publishedLast[j]? = some .publisher → 24 ≤ j := by decide
    have hquiet : ∀ k < publishedLast.length, 24 ≤ k → ¬ Changes talking tasks publishedLast k 1 := by decide
    exact absurd hchange (hquiet k hk ((hlate read (List.getElem?_eq_some_iff.mp hi).1 hi).trans hread))

/-- Every task has finished and the call is over; its one event says it took no time,
its row half a minute. -/
theorem not_latestWins_publishedFirst :
    let final := (Service.spawn talking tasks).after publishedFirst publishedFirst.length
    (∀ i, (final.threads i).Finished) ∧ (final.state.world.call 1).any CallRow.ended = true ∧
      ¬ final.state.LatestWins 1 := by
  refine ⟨?_, by decide, ?_⟩
  · intro i
    cases i <;> rfl
  · intro h
    have hevent := h _ ⟨List.mem_singleton.mpr rfl, rfl, fun e he _ => le_of_eq (by rw [List.mem_singleton.mp he])⟩ _ rfl
    revert hevent
    decide

end Callio.Publisher
