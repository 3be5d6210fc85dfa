import Callio.Conduct.Ingress
import Callio.Persistence.Effects

/-! What `ringing_duration` and `call_duration` come to once everything the
provider reports of a call has been handled. The columns are NOT NULL and start
at 0, so only the end event writes them, from the times it finds and, to the
millisecond, those it brings; the row keeps whole seconds, and later reports may
still move them. -/

namespace Callio.Durations

open Concurrency Code

/-! ## The times reported, and the durations due on them -/

/-- The moment, and the times of a call known then. -/
structure Times where
  now : Nat
  ringingAt : Option Nat := none
  answeredAt : Option Nat := none
  endedAt : Option Nat := none
  deriving DecidableEq, Repr

namespace Times

/-- From ringing to the answer, or to the end of a call never answered. -/
def Ringing (t : Times) (P : Nat → Nat → Prop) : Prop :=
  ∀ ringing ∈ t.ringingAt, ∀ closed ∈ t.answeredAt.or t.endedAt, P ringing closed

/-- From the answer to the end. -/
def Talking (t : Times) (P : Nat → Nat → Prop) : Prop :=
  ∀ answered ∈ t.answeredAt, ∀ ended ∈ t.endedAt, P answered ended

def ringingDue (t : Times) : Nat :=
  match t.ringingAt, t.answeredAt.or t.endedAt with
  | some ringing, some closed => secondsBetween ringing closed
  | _, _ => 0

def callDue (t : Times) : Nat :=
  match t.answeredAt, t.endedAt with
  | some answered, some ended => secondsBetween answered ended
  | _, _ => 0

/-- The times a row keeps. -/
def columns (t : Times) : Option Nat × Option Nat × Option Nat := (t.ringingAt, t.answeredAt, t.endedAt)

/-- The columns hold whole seconds. -/
structure Whole (t : Times) : Prop where
  ringingAt : t.ringingAt.map timestamp = t.ringingAt
  answeredAt : t.answeredAt.map timestamp = t.answeredAt
  endedAt : t.endedAt.map timestamp = t.endedAt

end Times

/-- Less than a second. -/
def Brief (start stop : Nat) : Prop := stop < start + second

/-- Rounding the two times to the second leaves the whole seconds between them:
both are rounded the same way, and the later fraction is no smaller, or the start
is rounded up and the stop down. -/
def RoundsAlike (start stop : Nat) : Prop :=
  start ≤ stop →
    (start % second < 500 ↔ stop % second < 500) ∧ start % second ≤ stop % second ∨
      500 ≤ start % second ∧ stop % second < 500

instance (start stop : Nat) : Decidable (RoundsAlike start stop) :=
  inferInstanceAs (Decidable (_ → _))

theorem secondsBetween_eq_zero (start stop : Nat) : secondsBetween start stop = 0 ↔ Brief start stop := by
  unfold secondsBetween Brief second
  omega

theorem secondsBetween_timestamp (start stop : Nat) :
    secondsBetween start stop = secondsBetween (timestamp start) (timestamp stop) ↔ RoundsAlike start stop := by
  unfold secondsBetween timestamp RoundsAlike second
  omega

/-- What the provider reports of a call: a status, or the end without a duration
of its own. -/
inductive Delivery
  | status (s : ProviderStatus) (at_ : Option Nat)
  | ended (e : ProviderEnd)
  deriving DecidableEq, Repr

/-- The end event of the call, as its provider sends it. -/
def endOf (providerCallId : Nat) (e : ProviderEnd) : ProviderEnd := { e with providerCallId, durationSec := none }

def Delivery.code (line : Line) (providerCallId : Nat) : Delivery → Code Unit
  | .status s at_ => statusChanged line providerCallId s at_
  | .ended e => callEnded line (endOf providerCallId e)

/-- A delivery, handled some milliseconds after the one before. -/
abbrev Report := Nat × Delivery

def deliver (line : Line) (providerCallId : Nat) (w : World) (r : Report) : World :=
  ((r.2.code line providerCallId).eval Stmt.exec ((Stmt.wait r.1).exec w).1).2

/-- The times a row has once a report has been handled. -/
def Times.after (t : Times) (r : Report) : Times :=
  let now := t.now + r.1
  match r.2 with
  | .status .ringing at_ => { t with now, ringingAt := some (timestamp (at_.getD now)) }
  | .status .accepted at_ =>
    { t with now, ringingAt := t.ringingAt.or (some (timestamp (at_.getD now))),
             answeredAt := some (timestamp (at_.getD now)) }
  | .status _ at_ => { t with now, endedAt := some (timestamp (at_.getD now)) }
  | .ended e =>
    { t with now, answeredAt := (e.answeredAt.map timestamp).or t.answeredAt,
             endedAt := some (((e.endedAt.map timestamp).or t.endedAt).getD (timestamp now)) }

/-- The reports before the last end event, that event, and those after it. -/
def splitAtEnd : List Report → Option (List Report × (Nat × ProviderEnd) × List Report)
  | [] => none
  | r :: rest =>
    match splitAtEnd rest, r with
    | some (before, e, later), r => some (r :: before, e, later)
    | none, (ms, .ended e) => some ([], (ms, e), rest)
    | none, _ => none

/-- The times an end event measures a call's length with: its own, else the row's. -/
def Times.measured (t : Times) (ms : Nat) (e : ProviderEnd) : Times :=
  { t with
    now := t.now + ms
    answeredAt := e.answeredAt.or t.answeredAt
    endedAt := some ((e.endedAt.or t.endedAt).getD (t.now + ms)) }

/-- The times it measures the ringing with: an unanswered call's ends with the end
the event itself reports, or else at the moment. -/
def Times.ringingUntil (t : Times) (ms : Nat) (e : ProviderEnd) : Times :=
  { t.measured ms e with endedAt := some (e.endedAt.getD (t.now + ms)) }

/-- The call rang unanswered to an end on its row that the end event does not name. -/
def Times.EndedBefore (t : Times) (ms : Nat) (e : ProviderEnd) : Prop :=
  t.ringingAt.isSome ∧ e.answeredAt.or t.answeredAt = none ∧ e.endedAt = none ∧
    ∃ ended, t.endedAt = some ended ∧ ended ≠ timestamp (t.now + ms)

/-- No report after the end event moves a time of the row, and the end event does
not find an unanswered call ended before. -/
def Unmoved (t : Times) (reports : List Report) : Prop :=
  match splitAtEnd reports with
  | none => True
  | some (before, (ms, e), later) =>
    let known := before.foldl Times.after t
    let atEnd := known.after (ms, .ended e)
    (later.foldl Times.after atEnd).columns = atEnd.columns ∧ ¬ known.EndedBefore ms e

/-- Without an end event, the times reported are less than a second apart; with
one, those it measures with may be rounded. -/
def Punctual (t : Times) (reports : List Report) : Prop :=
  match splitAtEnd reports with
  | none => (reports.foldl Times.after t).Ringing Brief ∧ (reports.foldl Times.after t).Talking Brief
  | some (before, (ms, e), _) =>
    let known := before.foldl Times.after t
    (known.ringingUntil ms e).Ringing RoundsAlike ∧ (known.measured ms e).Talking RoundsAlike

/-! ## What the reports of a call look at -/

/-- A call's times and durations. -/
structure Clocks extends Times where
  ringingDuration : Nat
  callDuration : Nat

/-- What a row says of its times, at `now`. -/
def clocks (now : Nat) (c : CallRow) : Clocks where
  now
  ringingAt := c.ringingAt
  answeredAt := c.answeredAt
  endedAt := c.endedAt
  ringingDuration := c.ringingDuration
  callDuration := c.callDuration

/-- What finds a row by its provider's id, and says whose line it is on. -/
def rowKey (c : CallRow) : Nat × Channel × Option Nat := (c.channelId, c.channel, c.providerCallId)

/-- The two worlds agree on the moment, on which rows there are, and on what
identifies each. -/
structure SameRows (w w' : World) : Prop where
  nextId : w'.calls.nextId = w.calls.nextId
  keys : ∀ c, (w'.call c).map rowKey = (w.call c).map rowKey

/-- Statements that leave the times of every row, and the rows there are. -/
def Untimed : Stmt → Prop
  | .updateCall _ u => ∀ now row, clocks now (u.set now row) = clocks now row ∧ rowKey (u.set now row) = rowKey row
  | .createCall _ | .wait _ => False
  | _ => True

theorem SameRows.of_exec {s : Stmt} (hc : ∀ row, s ≠ .createCall row)
    (hu : ∀ c u, s = .updateCall c u → ∀ now row, rowKey (u.set now row) = rowKey row) (w : World) :
    SameRows w (s.exec w).1 where
  nextId := by
    cases s with
    | createCall row => exact absurd rfl (hc row)
    | updateCall c u => exact Store.Table.updateWhere_nextId ..
    | claimAgentAndAssignCall a c anyShift =>
      simp only [Stmt.exec, World.claimAgentAndAssignCall]
      repeat' split
      all_goals rfl
    | record op => cases op <;> rfl
    | _ => rfl
  keys c := by
    cases Stmt.onCall w c s with
    | same h => rw [h]
    | updated u row hs hrow _ h =>
      rw [h, hrow]
      exact congrArg some (hu c u hs w.now row)
    | created row hs _ _ => exact absurd hs (hc row)
    | filled row duration _ hrow h =>
      rw [h, hrow]
      rfl
    | claimed a anyShift row _ hrow _ _ h =>
      rw [h, hrow]
      rfl

/-- The id of the row a provider's report is about depends on what identifies the
rows. -/
theorem SameRows.lookup {w w' : World} (h : SameRows w w') (key : ProviderKey) :
    ((Query.findByProviderCallId key).answer w').map (·.id) =
      ((Query.findByProviderCallId key).answer w).map (·.id) := by
  have hids : ∀ w : World, ((Query.findByProviderCallId key).answer w).map (·.id) =
      ((List.range w.calls.nextId).filter fun id => ((w.call id).map rowKey).any fun i =>
        i.2.1 = key.channel && i.2.2 = some key.providerCallId).head? := by
    intro w
    simp only [Query.answer, World.selectCalls, ← List.head?_map, List.map_filterMap]
    congr 1
    rw [← List.filterMap_eq_filter]
    congr 1
    funext id
    cases h : w.call id <;> simp [World.findCall, h, rowKey, Option.filter, Option.guard]
  rw [hids, hids, h.nextId]
  congr 2
  funext id
  rw [h.keys id]

/-- The provider's reports are about call `c`, on their own line, whose clocks are
`k`. -/
structure At (line : Line) (key : ProviderKey) (c : Nat) (k : Clocks) (w : World) : Prop where
  found : ((Query.findByProviderCallId key).answer w).map (·.id) = some c
  row : ∃ row, w.call c = some row ∧ row.channelId = line.id ∧ clocks w.now row = k

section reports

variable {line : Line} {key : ProviderKey} {c : Nat} {k k' : Clocks} {w : World}

theorem At.now (h : At line key c k w) : w.now = k.now := by
  obtain ⟨row, -, -, rfl⟩ := h.row
  rfl

theorem At.exec_untimed {s : Stmt} (hs : Untimed s) (h : At line key c k w) : At line key c k (s.exec w).1 := by
  have hrows : SameRows w (s.exec w).1 := by
    refine .of_exec ?_ ?_ w
    · rintro row rfl
      exact hs
    · rintro c u rfl now row
      exact (hs now row).2
  have hnow : (s.exec w).1.now = w.now := by
    rcases Stmt.exec_now s w with hn | ⟨ms, rfl, -⟩
    · exact hn
    · exact absurd hs id
  obtain ⟨row, hrow, hline, hclocks⟩ := h.row
  refine ⟨(hrows.lookup key).trans h.found, ?_⟩
  rw [hnow]
  cases Stmt.onCall w c s with
  | same hsame => exact ⟨row, hsame.trans hrow, hline, hclocks⟩
  | updated u row' hu hrow' _ hset =>
    subst hu
    cases hrow.symm.trans hrow'
    have hchannel : (u.set w.now row).channelId = row.channelId := congrArg Prod.fst (hs w.now row).2
    exact ⟨_, hset, hchannel.trans hline, (hs w.now row).1.trans hclocks⟩
  | created row' hc _ _ =>
    subst hc
    exact absurd hs id
  | filled row' duration _ hrow' hset =>
    cases hrow.symm.trans hrow'
    exact ⟨_, hset, hline, hclocks⟩
  | claimed a anyShift row' _ hrow' _ _ hset =>
    cases hrow.symm.trans hrow'
    exact ⟨_, hset, hline, hclocks⟩

/-- What a program of such statements leaves. -/
theorem At.of_stays {α : Type} {m : Code α} (hm : m.Stays (.only Untimed) fun _ => True)
    (h : At line key c k w) : At line key c k (m.eval Stmt.exec w).2 := by
  have hf := hm () trivial
  clear hm
  induction m generalizing w with
  | ret a => exact h
  | call s f ih => exact ih _ (h.exec_untimed hf.1) (hf.2 _)

/-- An update of the call's times. -/
theorem At.update {u : CallUpdate} (h : At line key c k w)
    (hset : ∀ row, w.call c = some row → clocks w.now row = k →
      clocks w.now (if u.guard row then u.set w.now row else row) = k')
    (hkey : ∀ now row, rowKey (u.set now row) = rowKey row) :
    At line key c k' ((Stmt.updateCall c u).exec w).1 := by
  have hrows : SameRows w ((Stmt.updateCall c u).exec w).1 := by
    refine .of_exec ?_ ?_ w
    · intro row hc
      cases hc
    · intro c' u' hu
      cases hu
      exact hkey
  obtain ⟨row, hrow, hline, hclocks⟩ := h.row
  refine ⟨(hrows.lookup key).trans h.found, _, ?_, ?_, hset row hrow hclocks⟩
  · simp only [World.call] at hrow ⊢
    simp [Stmt.exec, Store.Table.get_updateWhere, hrow]
  · split
    · exact (congrArg Prod.fst (hkey w.now row)).trans hline
    · exact hline

/-! ## What each statement writes -/

/-- The clocks with one time set. -/
def Clocks.stamp (k : Clocks) (value : Nat) : TimestampField → Clocks
  | .ringingAt => { k with ringingAt := some (timestamp value) }
  | .answeredAt => { k with answeredAt := some (timestamp value) }
  | .endedAt => { k with endedAt := some (timestamp value) }

theorem At.updateTimestamp (h : At line key c k w) (field : TimestampField) (value : Nat) :
    At line key c (k.stamp value field) ((updateTimestamp c field value).eval Stmt.exec w).2 := by
  have hstamped : At line key c (k.stamp value field)
      ((Stmt.updateCall c (.updateTimestamp field value)).exec w).1 := by
    apply h.update
    · rintro row - rfl
      cases field <;> rfl
    · intro now row
      cases field <;> rfl
  cases field with
  | answeredAt => exact hstamped.exec_untimed fun _ _ => ⟨rfl, rfl⟩
  | _ => exact hstamped

/-- An end already stamped with `t` is not stamped anew. -/
theorem At.terminate (h : At line key c k w) {t : Nat} (hk : k.endedAt = some (timestamp t)) (reason : Option TerminationReason)
    (terminatedBy : TerminatedBy) : At line key c k
      ((Stmt.updateCall c (.terminateCallIfNotTerminated reason terminatedBy (some t) none)).exec w).1 := by
  refine h.update ?_ fun _ _ => rfl
  rintro row - rfl
  have hend : row.endedAt = some (timestamp t) := hk
  split
  · simp [clocks, CallUpdate.set, hend]
  · rfl

/-- The guarded half of a finalizer. -/
theorem At.finalize {u : CallUpdate} (h : At line key c k w)
    (hset : ∀ now row, clocks now (u.set now row) = { clocks now row with endedAt := row.endedAt.or (some (sqlNow now)) })
    (hkey : ∀ now row, rowKey (u.set now row) = rowKey row) :
    At line key c k ((Stmt.updateCall c u).exec w).1 ∨
      At line key c { k with endedAt := k.endedAt.or (some (sqlNow w.now)) } ((Stmt.updateCall c u).exec w).1 := by
  obtain ⟨row, hrow, -, rfl⟩ := h.row
  by_cases hg : u.guard row = true
  · refine .inr (h.update (fun row' hrow' _ => ?_) hkey)
    cases hrow.symm.trans hrow'
    rw [if_pos hg, hset]
    rfl
  · refine .inl (h.update (fun row' hrow' _ => ?_) hkey)
    cases hrow.symm.trans hrow'
    rw [if_neg hg]

/-- The clocks when the end of the call is finalized with the times `t`. -/
def Clocks.fill (k : Clocks) (t : ProviderTimes) : Clocks :=
  { k with
    endedAt := (t.endedAt.map timestamp).or k.endedAt
    answeredAt := (t.answeredAt.map timestamp).or k.answeredAt
    callDuration := t.callDuration.getD k.callDuration
    ringingDuration := t.ringingDuration.getD k.ringingDuration }

/-- Both finalizers write the times they are given. -/
theorem At.fillTimes (h : At line key c k w) (t : ProviderTimes) :
    At line key c (k.fill t) ((Callio.fillTimes c t).eval Stmt.exec w).2 := by
  refine h.update ?_ fun _ _ => rfl
  rintro row - rfl
  rfl

theorem At.finalizeCallAsFailed (h : At line key c k w) (terminatedBy : TerminatedBy) (t : ProviderTimes) :
    At line key c (k.fill t) ((Callio.finalizeCallAsFailed c terminatedBy t).eval Stmt.exec w).2 ∨
      At line key c { k.fill t with endedAt := (k.fill t).endedAt.or (some (sqlNow w.now)) }
        ((Callio.finalizeCallAsFailed c terminatedBy t).eval Stmt.exec w).2 :=
  (h.fillTimes t).finalize (fun _ _ => rfl) fun _ _ => rfl

theorem At.finalizeFromWebhook (h : At line key c k w) (reason : TerminationReason) (terminatedBy : TerminatedBy)
    (t : ProviderTimes) :
    At line key c (k.fill t) ((Callio.finalizeFromWebhook c reason terminatedBy t).eval Stmt.exec w).2 ∨
      At line key c { k.fill t with endedAt := (k.fill t).endedAt.or (some (sqlNow w.now)) }
        ((Callio.finalizeFromWebhook c reason terminatedBy t).eval Stmt.exec w).2 := by
  have hcorrect : Untimed (.updateCall c .correctNoAnswerIfAnswered) := fun _ _ => ⟨rfl, rfl⟩
  rcases (h.fillTimes t).finalize (u := .finalizeFromWebhook .terminated (some reason) (some terminatedBy))
    (fun _ _ => rfl) (fun _ _ => rfl) with h | h
  · exact .inl (h.exec_untimed hcorrect)
  · exact .inr (h.exec_untimed hcorrect)

/-! ## What each report leaves -/

theorem keeps_untimed (s : Stmt) (hs : Untimed s) :
    (Protocol.only Untimed : Protocol Stmt.Res).Keeps (fun _ => True) s :=
  Protocol.keeps_only hs

theorem update_untimed {u : CallUpdate} (hu : Untimed (.updateCall c u)) :
    (update c u).Stays (.only Untimed) fun _ => True :=
  Protocol.keeps_only hu

theorem emit_untimed (e : Event) : (emit e).Stays (.only Untimed) fun _ => True := keeps_untimed (.emit e) trivial

theorem settle_untimed (call : Call) (reason : TerminationReason) (terminatedBy : TerminatedBy) :
    (CallTerminator.settle call reason terminatedBy).Stays (.only Untimed) fun _ => True := by
  refine settle_stays (.of_keeps fun s hs => ?_) (fun s hs => ?_) call reason terminatedBy _ _ nofun
  · apply keeps_untimed
    cases s <;> first | trivial | simp at hs
  · apply keeps_untimed
    cases s <;> trivial

variable {call : Call}

theorem providerRinging_leaves (h : At line key call.id k w) (t : Nat) :
    At line key call.id { k with ringingAt := some (timestamp t) } ((providerRinging call t).eval Stmt.exec w).2 := by
  unfold providerRinging
  rw [Prog.eval_bind]
  refine (h.updateTimestamp .ringingAt t).of_stays (.ite (fun _ => ?_) fun _ => Prog.stays_ret _)
  exact (update_untimed fun _ _ => ⟨rfl, rfl⟩).bind fun _ => Prog.stays_ret _

theorem providerAccepted_leaves (h : At line key call.id k w) (hr : call.ringingAt = k.ringingAt) (t : Nat) :
    At line key call.id { k with ringingAt := k.ringingAt.or (some (timestamp t)), answeredAt := some (timestamp t) }
      ((providerAccepted call t).eval Stmt.exec w).2 := by
  have hanswered : ∀ {k : Clocks} {w : World}, At line key call.id k w →
      At line key call.id { k with answeredAt := some (timestamp t) } ((do
        updateTimestamp call.id .answeredAt t
        if !call.ended && call.status ≠ .inProgress then
          let _ ← update call.id (.updateStatus .inProgress)
          let _ ← update call.id (.updateState (some .active))
        if call.direction = .outbound then emit (.callHandled call.id call.agentId) : Code Unit).eval Stmt.exec w).2 := by
    intro k w h
    rw [Prog.eval_bind]
    refine (h.updateTimestamp .answeredAt t).of_stays ?_
    have hemit : (if call.direction = .outbound then emit (.callHandled call.id call.agentId)
        else pure () : Code Unit).Stays (.only Untimed) fun _ => True :=
      .ite (fun _ => emit_untimed _) fun _ => Prog.stays_ret _
    refine .ite (fun _ => ?_) fun _ => hemit
    refine (update_untimed fun _ _ => ⟨rfl, rfl⟩).bind fun _ => ?_
    exact (update_untimed fun _ _ => ⟨rfl, rfl⟩).bind fun _ => hemit
  unfold providerAccepted
  cases hk : k.ringingAt with
  | none =>
    rw [if_pos (by rw [hr, hk]; rfl), Prog.eval_bind]
    exact hanswered (h.updateTimestamp .ringingAt t)
  | some ringing =>
    rw [if_neg (by rw [hr, hk]; nofun)]
    have hsame : { k with ringingAt := some ringing, answeredAt := some (timestamp t) } = { k with answeredAt := some (timestamp t) } := by
      rw [← hk]
    exact hsame ▸ hanswered h

theorem providerRejected_leaves (h : At line key call.id k w) (t : Nat) :
    At line key call.id { k with endedAt := some (timestamp t) } ((providerRejected call t).eval Stmt.exec w).2 := by
  unfold providerRejected
  rw [Prog.eval_bind, Prog.eval_bind]
  have hended := (h.updateTimestamp .endedAt t).terminate rfl (some .rejected) .customer
  exact hended.of_stays (.ite (fun _ => settle_untimed _ _ _) fun _ => Prog.stays_ret _)

theorem providerFailed_leaves (h : At line key call.id k w) (t : Nat) :
    At line key call.id { k with endedAt := some (timestamp t) } ((providerFailed call t).eval Stmt.exec w).2 := by
  unfold providerFailed
  rw [Prog.eval_bind]
  have hended : At line key call.id { k with endedAt := some (timestamp t) }
      ((finalizeCallAsFailed call.id .provider { endedAt := some t }).eval Stmt.exec w).2 :=
    (h.finalizeCallAsFailed .provider { endedAt := some t }).elim id id
  refine hended.of_stays (.ite (fun _ => ?_) fun _ => Prog.stays_ret _)
  exact (emit_untimed _).bind fun _ => settle_untimed _ _ _

theorem customerGaveUp_untimed (call : Call) (reason : TerminationReason) :
    (customerGaveUp call reason).Stays (.only Untimed) fun _ => True := by
  refine customerGaveUp_stays (.of_keeps fun s hs => ?_) (fun a => keeps_untimed (.incrementMissed a) trivial) _ _
  apply keeps_untimed
  cases s <;> first | trivial | simp at hs

theorem reportFailure_untimed (call : Call) (e : ProviderEnd) (won : Bool) :
    (reportFailure call e won).Stays (.only Untimed) fun _ => True := by
  refine .ite (fun _ => Prog.stays_ret _) fun _ => (emit_untimed _).bind fun _ => ?_
  refine .ite (fun _ => ?_) fun _ => Prog.stays_ret _
  exact (update_untimed fun _ _ => ⟨rfl, rfl⟩).bind fun _ => Prog.stays_ret _

/-- The clocks once the end `e` has been handled. -/
def Clocks.ended (k : Clocks) (e : ProviderEnd) (t : ProviderTimes) : Clocks :=
  { k.fill t with endedAt := some (((e.endedAt.map timestamp).or k.endedAt).getD (timestamp k.now)) }

/-- An end leaves `ended_at` set, whichever of its writes did it. -/
theorem stampEnd_leaves {e : ProviderEnd} {t : ProviderTimes} (ht : t.endedAt = e.endedAt)
    (hk : k.endedAt = call.endedAt)
    (h : At line key call.id (k.fill t) w ∨
      At line key call.id { k.fill t with endedAt := (k.fill t).endedAt.or (some (sqlNow k.now)) } w) :
    At line key call.id (k.ended e t) ((stampEnd call e).eval Stmt.exec w).2 := by
  have hnow : w.now = k.now := h.elim At.now At.now
  unfold stampEnd
  cases hend : (e.endedAt.map timestamp).or call.endedAt with
  | none =>
    obtain ⟨he, hc⟩ := Option.or_eq_none_iff.mp hend
    rw [Option.map_eq_none_iff] at he
    rw [if_pos (by simp [he, hc])]
    have hstamped : At line key call.id (k.ended e t)
        ((updateTimestamp call.id .endedAt w.now).eval Stmt.exec w).2 := by
      have hended : k.ended e t = { k.fill t with endedAt := some (timestamp w.now) } := by
        simp [Clocks.ended, hk, he, hc, hnow]
      rw [hended]
      exact h.elim (fun h => h.updateTimestamp .endedAt w.now) fun h => h.updateTimestamp .endedAt w.now
    exact hstamped
  | some ended =>
    have hfill : (k.fill t).endedAt = some ended := by
      rw [← hend, ← ht, ← hk]
      rfl
    have hended : k.ended e t = k.fill t := by
      unfold Clocks.ended
      rw [hk, hend, Option.getD_some, ← hfill]
    rw [if_neg (by
      intro hnone
      simp only [Bool.and_eq_true, Option.isNone_iff_eq_none] at hnone
      simp [hnone.1, hnone.2] at hend), hended]
    refine h.elim id fun h => ?_
    rwa [hfill, Option.some_or, ← hfill] at h

theorem finishKnownCall_leaves (h : At line key call.id (clocks w.now call.toCallRow) w) (e : ProviderEnd) :
    At line key call.id ((clocks w.now call.toCallRow).ended e (e.times call w.now))
      ((finishKnownCall call e).eval Stmt.exec w).2 := by
  have hcommit : ∀ k : Clocks, At line key call.id k w →
      At line key call.id (k.fill (e.times call w.now)) ((commitProviderEnd call e w.now).eval Stmt.exec w).2 ∨
      At line key call.id
        { k.fill (e.times call w.now) with endedAt := (k.fill (e.times call w.now)).endedAt.or (some (sqlNow w.now)) }
        ((commitProviderEnd call e w.now).eval Stmt.exec w).2 := by
    intro k h
    unfold commitProviderEnd
    split
    · exact h.finalizeCallAsFailed _ _
    · exact h.finalizeFromWebhook _ _ _
  unfold finishKnownCall
  rw [Prog.eval_bind, Prog.eval_bind, Prog.eval_bind, Prog.eval_bind]
  have hreported := fun won => (hcommit _ h).imp (fun h => h.of_stays (reportFailure_untimed call e won))
    fun h => h.of_stays (reportFailure_untimed call e won)
  refine (stampEnd_leaves rfl rfl (hreported _)).of_stays (.ite (fun _ => ?_) fun _ => Prog.stays_ret _)
  exact (settle_untimed _ _ _).bind fun _ => customerGaveUp_untimed _ _

/-- The row the report finds. -/
theorem At.lookup (h : At line key c k w) : ∃ call, (Query.findByProviderCallId key).answer w = some call ∧
    call.id = c ∧ line.owns call = true ∧ clocks w.now call.toCallRow = k := by
  obtain ⟨call, hfind, rfl⟩ := Option.map_eq_some_iff.mp h.found
  obtain ⟨row, hrow, hline, hclocks⟩ := h.row
  cases hrow.symm.trans (World.findByProviderCallId_eq_some hfind).1
  exact ⟨call, hfind, rfl, by simpa [Line.owns] using hline, hclocks⟩

theorem At.wait (h : At line key c k w) (ms : Nat) :
    At line key c { k with now := k.now + ms } ((Stmt.wait ms).exec w).1 := by
  obtain ⟨row, hrow, hline, rfl⟩ := h.row
  exact ⟨h.found, row, hrow, hline, rfl⟩

end reports

/-- The clocks once a report has been handled. -/
def Clocks.after (k : Clocks) (r : Report) : Clocks :=
  match r.2 with
  | .status _ _ => { k with toTimes := k.toTimes.after r }
  | .ended e =>
    { toTimes := k.toTimes.after r
      ringingDuration := (k.toTimes.ringingUntil r.1 e).ringingDue
      callDuration := (k.toTimes.measured r.1 e).callDue }

/-- A call that has not rung has no ringing duration. -/
def Clocks.Fresh (k : Clocks) : Prop := k.ringingAt = none → k.ringingDuration = 0

theorem Clocks.Fresh.after {k : Clocks} (hf : k.Fresh) (r : Report) : (k.after r).Fresh := by
  intro hr
  obtain ⟨ms, d⟩ := r
  cases d with
  | status s at_ =>
    apply hf
    cases s with
    | ringing => cases hr
    | accepted => exact (Option.or_eq_none_iff.mp hr).1
    | _ => exact hr
  | ended e =>
    have hnone : k.ringingAt = none := hr
    simp [Clocks.after, Times.ringingUntil, Times.measured, Times.ringingDue, hnone]

/-- The end event writes the durations due on the times it finds. -/
theorem Clocks.ended_eq {k : Clocks} (hf : k.Fresh) (ms p : Nat) (e : ProviderEnd) {call : Call}
    (hk : clocks (k.now + ms) call.toCallRow = { k with now := k.now + ms }) :
    Clocks.ended { k with now := k.now + ms } (endOf p e) ((endOf p e).times call (k.now + ms)) =
      k.after (ms, .ended e) := by
  have hr : call.ringingAt = k.ringingAt := congrArg (fun k : Clocks => k.ringingAt) hk
  have ha : call.answeredAt = k.answeredAt := congrArg (fun k : Clocks => k.answeredAt) hk
  have he : call.endedAt = k.endedAt := congrArg (fun k : Clocks => k.endedAt) hk
  simp only [Clocks.ended, Clocks.fill, Clocks.after, Times.after, Times.ringingUntil, Times.measured, Times.callDue,
    Times.ringingDue, ProviderEnd.times, endOf, hr, ha, he, Option.getD_none, Option.getD_some]
  cases hringing : k.ringingAt with
  | none => 
    have hzero := hf hringing
    cases e.answeredAt.or k.answeredAt <;> simp <;> grind
  | some ringing => cases e.answeredAt.or k.answeredAt <;> simp

variable {line : Line} {c p : Nat} {k : Clocks} {w : World}

theorem eval_read {α : Type} (q : Query) (f : q.Res → Code α) (w : World) :
    (read q >>= f).eval Stmt.exec w = (f (q.answer w)).eval Stmt.exec w := rfl

theorem deliver_at (hf : k.Fresh) (h : At line (line.key p) c k w) (r : Report) :
    At line (line.key p) c (k.after r) (deliver line p w r) := by
  obtain ⟨ms, d⟩ := r
  have hw := h.wait ms
  unfold deliver
  generalize ((Stmt.wait (ms, d).1).exec w).1 = w at hw ⊢
  obtain ⟨call, hfind, rfl, howns, hclocks⟩ := hw.lookup
  cases d with
  | status s at_ =>
    show At _ _ _ _ ((statusChanged line p s at_).eval Stmt.exec w).2
    have hnow : at_.getD (Query.now.answer w) = at_.getD (k.now + ms) := congrArg at_.getD hw.now
    unfold statusChanged
    rw [eval_read, hfind]
    dsimp only
    rw [howns, if_neg (by nofun), eval_read, hnow]
    cases s with
    | ringing => exact providerRinging_leaves hw _
    | accepted =>
      have hr : call.ringingAt = k.ringingAt := congrArg (fun k : Clocks => k.ringingAt) hclocks
      exact providerAccepted_leaves hw hr _
    | rejected => exact providerRejected_leaves hw _
    | failed => exact providerFailed_leaves hw _
  | ended e =>
    show At _ _ _ _ ((callEnded line (endOf p e)).eval Stmt.exec w).2
    have hended : At line (line.key p) call.id (k.after (ms, .ended e))
        ((finishKnownCall call (endOf p e)).eval Stmt.exec w).2 := by
      have hleft := finishKnownCall_leaves (hclocks.symm ▸ hw) (endOf p e)
      rw [hclocks, hw.now] at hleft
      rwa [← Clocks.ended_eq hf ms p e (hw.now ▸ hclocks)]
    unfold callEnded findCallPatiently
    rw [bind_assoc, eval_read]
    have hkey : line.key (endOf p e).providerCallId = line.key p := rfl
    rw [hkey, hfind]
    show At _ _ _ _ ((if line.owns call = true then finishKnownCall call (endOf p e) >>= fun _ =>
      record (.releaseOwnership (line.key p)) else record (.releaseOwnership (line.key p)) : Code Unit).eval Stmt.exec w).2
    rw [howns, if_pos rfl, Prog.eval_bind]
    exact hended.exec_untimed (s := .record (.releaseOwnership (line.key p))) trivial

/-! ## Every order -/

theorem deliverAll_at (reports : List Report) (hf : k.Fresh) (h : At line (line.key p) c k w) :
    At line (line.key p) c (reports.foldl Clocks.after k) (reports.foldl (deliver line p) w) := by
  induction reports generalizing k w with
  | nil => exact h
  | cons r rest ih => exact ih (hf.after r) (deliver_at hf h r)

theorem Clocks.toTimes_after (k : Clocks) (r : Report) : (k.after r).toTimes = k.toTimes.after r := by
  obtain ⟨ms, s | e⟩ := r <;> rfl

theorem Clocks.toTimes_foldl (k : Clocks) (reports : List Report) :
    (reports.foldl Clocks.after k).toTimes = reports.foldl Times.after k.toTimes := by
  induction reports generalizing k with
  | nil => rfl
  | cons r rest ih =>
    rw [List.foldl_cons, List.foldl_cons, ih, k.toTimes_after]

/-- The durations are those of the last end event, or of the row at first. -/
theorem Clocks.durations_foldl (k : Clocks) (reports : List Report) :
    let final := reports.foldl Clocks.after k
    match splitAtEnd reports with
    | none => final.ringingDuration = k.ringingDuration ∧ final.callDuration = k.callDuration
    | some (before, (ms, e), _) =>
      let known := before.foldl Times.after k.toTimes
      final.ringingDuration = (known.ringingUntil ms e).ringingDue ∧
        final.callDuration = (known.measured ms e).callDue := by
  induction reports generalizing k with
  | nil => exact ⟨rfl, rfl⟩
  | cons r rest ih =>
    have hrest := ih (k.after r)
    unfold splitAtEnd
    cases hsplit : splitAtEnd rest with
    | some split =>
      rw [hsplit] at hrest
      rw [k.toTimes_after] at hrest
      exact hrest
    | none =>
      rw [hsplit] at hrest
      obtain ⟨ms, s | e⟩ := r
      · exact hrest
      · exact hrest

/-- Whether `ringing_duration` and `call_duration` are the ones due on the times
the row has in the end. -/
def Sound (c : CallRow) : Prop :=
  let times : Times := ⟨0, c.ringingAt, c.answeredAt, c.endedAt⟩
  c.ringingDuration = times.ringingDue ∧ c.callDuration = times.callDue

theorem Times.Whole.after {t : Times} (h : t.Whole) (r : Report) : (t.after r).Whole := by
  obtain ⟨ms, d⟩ := r
  have hor : ∀ a b : Option Nat, b.map timestamp = b →
      ((a.map timestamp).or b).map timestamp = (a.map timestamp).or b := by
    rintro (_ | a) b hb
    · simpa using hb
    · simp
  cases d with
  | status s at_ =>
    cases s with
    | ringing => exact ⟨by simp [Times.after], h.answeredAt, h.endedAt⟩
    | accepted =>
      refine ⟨?_, by simp [Times.after], h.endedAt⟩
      cases hr : t.ringingAt with
      | none => simp [Times.after, hr]
      | some ringing =>
        have hwhole := h.ringingAt
        rw [hr] at hwhole
        simpa [Times.after, hr] using hwhole
    | rejected | failed => exact ⟨h.ringingAt, h.answeredAt, by simp [Times.after]⟩
  | ended e =>
    refine ⟨h.ringingAt, hor _ _ h.answeredAt, ?_⟩
    cases he : (e.endedAt.map timestamp).or t.endedAt with
    | none => simp [Times.after, he]
    | some ended =>
      have hwhole := hor e.endedAt t.endedAt h.endedAt
      rw [he] at hwhole
      simpa [Times.after, he] using hwhole

theorem Times.Whole.foldl {t : Times} (h : t.Whole) (reports : List Report) : (reports.foldl Times.after t).Whole := by
  induction reports generalizing t with
  | nil => exact h
  | cons r rest ih => exact ih (h.after r)

/-- The row rounds the times an end event measures with. -/
theorem Times.Whole.columns_after {t : Times} (h : t.Whole) (ms : Nat) (e : ProviderEnd) :
    (t.after (ms, .ended e)).columns =
      (t.ringingAt, ((t.measured ms e).answeredAt).map timestamp, ((t.measured ms e).endedAt).map timestamp) := by
  have hanswered : (e.answeredAt.map timestamp).or t.answeredAt = (e.answeredAt.or t.answeredAt).map timestamp := by
    cases e.answeredAt with
    | none => simpa using h.answeredAt.symm
    | some answered => rfl
  have hended : some (((e.endedAt.map timestamp).or t.endedAt).getD (timestamp (t.now + ms))) =
      (some ((e.endedAt.or t.endedAt).getD (t.now + ms))).map timestamp := by
    cases e.endedAt with
    | some ended => rfl
    | none =>
      cases ht : t.endedAt with
      | none => rfl
      | some ended =>
        have hwhole := h.endedAt
        rw [ht] at hwhole
        simpa using hwhole.symm
  simp only [Times.columns, Times.after, hanswered, hended]
  rfl

/-- What is due on rounded times is due on the times themselves, if they may be rounded. -/
theorem Times.ringingDue_eq_iff {t t' : Times} (hr : t'.ringingAt = t.ringingAt.map timestamp)
    (hc : t.ringingAt.isSome → t'.answeredAt.or t'.endedAt = (t.answeredAt.or t.endedAt).map timestamp) :
    t.ringingDue = t'.ringingDue ↔ t.Ringing RoundsAlike := by
  unfold Times.ringingDue Times.Ringing
  cases hringing : t.ringingAt with
  | none => simp [hr, hringing]
  | some ringing =>
    rw [hr, hc (by simp [hringing]), hringing]
    cases t.answeredAt.or t.endedAt with
    | none => simp
    | some closed => simpa using secondsBetween_timestamp ringing closed

theorem Times.callDue_eq_iff {t t' : Times} (ha : t'.answeredAt = t.answeredAt.map timestamp)
    (he : t'.endedAt = t.endedAt.map timestamp) : t.callDue = t'.callDue ↔ t.Talking RoundsAlike := by
  unfold Times.callDue Times.Talking
  rw [ha, he]
  cases t.answeredAt with
  | none => simp
  | some answered =>
    cases t.endedAt with
    | none => simp
    | some ended => simpa using secondsBetween_timestamp answered ended

theorem Times.ringingDue_eq_zero (t : Times) : t.ringingDue = 0 ↔ t.Ringing Brief := by
  unfold Times.ringingDue Times.Ringing
  cases t.ringingAt with
  | none => simp
  | some ringing =>
    cases t.answeredAt.or t.endedAt with
    | none => simp
    | some closed => simpa using secondsBetween_eq_zero ringing closed

theorem Times.callDue_eq_zero (t : Times) : t.callDue = 0 ↔ t.Talking Brief := by
  unfold Times.callDue Times.Talking
  cases t.answeredAt with
  | none => simp
  | some answered =>
    cases t.endedAt with
    | none => simp
    | some ended => simpa using secondsBetween_eq_zero answered ended

theorem splitAtEnd_eq {reports before later : List Report} {ms : Nat} {e : ProviderEnd}
    (h : splitAtEnd reports = some (before, (ms, e), later)) : reports = before ++ (ms, .ended e) :: later := by
  induction reports generalizing before with
  | nil => cases h
  | cons r rest ih =>
    unfold splitAtEnd at h
    cases hsplit : splitAtEnd rest with
    | some split =>
      obtain ⟨before', e', later'⟩ := split
      rw [hsplit] at h
      cases h
      rw [ih hsplit]
      rfl
    | none =>
      rw [hsplit] at h
      obtain ⟨ms', s | e'⟩ := r
      · cases h
      · cases h
        rfl

/-- The end that closes an unanswered call's ringing is rounded on the row, unless
the row had another. -/
theorem closed_after {t : Times} (h : t.Whole) {ms : Nat} {e : ProviderEnd} (hend : ¬ t.EndedBefore ms e)
    (hr : t.ringingAt.isSome) :
    (t.after (ms, .ended e)).answeredAt.or (t.after (ms, .ended e)).endedAt =
      ((t.ringingUntil ms e).answeredAt.or (t.ringingUntil ms e).endedAt).map timestamp := by
  have hcolumns := h.columns_after ms e
  simp only [Times.columns, Prod.mk.injEq] at hcolumns
  rw [hcolumns.2.1, hcolumns.2.2]
  cases ha : e.answeredAt.or t.answeredAt with
  | some answered => simp [Times.ringingUntil, Times.measured, ha]
  | none =>
    cases he : e.endedAt with
    | some ended => simp [Times.ringingUntil, Times.measured, ha, he]
    | none =>
      cases ht : t.endedAt with
      | none => simp [Times.ringingUntil, Times.measured, ha, he, ht]
      | some ended =>
        have hsame : ended = timestamp (t.now + ms) := by
          by_contra hne
          exact hend ⟨hr, ha, he, ended, ht, hne⟩
        simp [Times.ringingUntil, Times.measured, ha, he, ht, hsame]

/-- Handled in any order, the reports of a call, none of which moves its times
after the end event, leave the durations due on its final times exactly if the
times measured may be rounded, or without an end event are within a second. -/
theorem sound_iff_of_unmoved (line : Line) (p : Nat) (w : World) (call : Call) (reports : List Report)
    (hfind : (Query.findByProviderCallId (line.key p)).answer w = some call) (howns : line.owns call = true)
    (hr : call.ringingDuration = 0) (hc : call.callDuration = 0)
    (hwhole : Times.Whole ⟨w.now, call.ringingAt, call.answeredAt, call.endedAt⟩)
    (hunmoved : Unmoved ⟨w.now, call.ringingAt, call.answeredAt, call.endedAt⟩ reports) :
    ∃ row, (reports.foldl (deliver line p) w).call call.id = some row ∧
      (Sound row ↔ Punctual ⟨w.now, call.ringingAt, call.answeredAt, call.endedAt⟩ reports) := by
  have hrow := World.findByProviderCallId_eq_some hfind
  have hline : call.channelId = line.id := by simpa [Line.owns] using howns
  have hat : At line (line.key p) call.id (clocks w.now call.toCallRow) w :=
    ⟨by rw [hfind]; rfl, call.toCallRow, hrow.1, hline, rfl⟩
  obtain ⟨row, hfinal, -, hclocks⟩ := (deliverAll_at reports (fun _ => hr) hat).row
  refine ⟨row, hfinal, ?_⟩
  have htimes := (clocks w.now call.toCallRow).toTimes_foldl reports
  have hdurations := (clocks w.now call.toCallRow).durations_foldl reports
  have hsound : Sound row ↔
      (clocks (reports.foldl (deliver line p) w).now row).ringingDuration =
        (clocks (reports.foldl (deliver line p) w).now row).ringingDue ∧
      (clocks (reports.foldl (deliver line p) w).now row).callDuration =
        (clocks (reports.foldl (deliver line p) w).now row).callDue := Iff.rfl
  rw [hsound, hclocks, htimes]
  unfold Punctual
  unfold Unmoved at hunmoved
  dsimp only at hdurations hunmoved ⊢
  cases hsplit : splitAtEnd reports with
  | none =>
    simp only [hsplit] at hdurations ⊢
    rw [hdurations.1, hdurations.2, ← Times.ringingDue_eq_zero, ← Times.callDue_eq_zero]
    show call.ringingDuration = _ ∧ call.callDuration = _ ↔ _
    rw [hr, hc]
    exact and_congr eq_comm eq_comm
  | some split =>
    obtain ⟨before, ⟨ms, e⟩, later⟩ := split
    simp only [hsplit] at hdurations hunmoved ⊢
    obtain ⟨hcolumns, hend⟩ := hunmoved
    rw [hdurations.1, hdurations.2]
    have hknown := hwhole.foldl before
    rw [splitAtEnd_eq hsplit, List.foldl_append, List.foldl_cons]
    -- the times in the end are those at the end event, rounded
    have hafter := hknown.columns_after ms e
    have hclosed := closed_after hknown hend
    simp only [Times.columns, Prod.mk.injEq] at hcolumns hafter
    refine and_congr (Times.ringingDue_eq_iff ?_ fun hr => ?_) (Times.callDue_eq_iff ?_ ?_)
    · exact (hcolumns.1.trans hafter.1).trans hknown.ringingAt.symm
    · exact (congrArg₂ Option.or hcolumns.2.1 hcolumns.2.2).trans (hclosed hr)
    · exact hcolumns.2.1.trans hafter.2.1
    · exact hcolumns.2.2.trans hafter.2.2

/-- An outbound call just dialled, on line 1. -/
def dialled : Call := { id := 1, direction := .outbound, providerCallId := some 7 }

def dialledWorld : World := { calls := .ofList [fun _ => dialled.toCallRow] }

def firstLine : Line := { id := 1 }

/-- Rings after a second, is answered ten seconds later, ends twenty after that. -/
def answered : List Report :=
  [(1000, .status .ringing none), (10000, .status .accepted none), (20000, .ended { providerCallId := 7 })]

theorem sound_answered : ∃ row, (answered.foldl (deliver firstLine 7) dialledWorld).call 1 = some row ∧ Sound row := by
  obtain ⟨row, hrow, hiff⟩ := sound_iff_of_unmoved firstLine 7 dialledWorld dialled answered (by decide) (by decide)
    rfl rfl ⟨rfl, rfl, rfl⟩ ⟨rfl, by rintro ⟨-, h, -⟩; cases h⟩
  refine ⟨row, hrow, hiff.mpr ⟨?_, ?_⟩⟩
  · rintro ringing ⟨⟩ closed ⟨⟩
    decide
  · rintro answered ⟨⟩ ended ⟨⟩
    decide

/-- Rings after a second, and the customer declines ten seconds later. -/
def declined : List Report := [(1000, .status .ringing none), (10000, .status .rejected none)]

/-- The ten seconds a declined call rang are not recorded. -/
theorem unsound_declined : ∃ row, (declined.foldl (deliver firstLine 7) dialledWorld).call 1 = some row ∧
    row.ringingAt = some 1000 ∧ row.endedAt = some 11000 ∧ row.ringingDuration = 0 ∧ ¬ Sound row := by
  refine ⟨_, rfl, by decide, by decide, by decide, ?_⟩
  unfold Sound
  decide

end Callio.Durations
