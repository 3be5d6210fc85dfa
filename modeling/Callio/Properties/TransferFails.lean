import Callio.Concurrency.Faults
import Callio.Core.AgentEvents
import Callio.Persistence.Effects

/-! A transfer whose reads and writes may fail, and whose guarded move may lose. The
target is claimed, the call moved, the old agent released: the claim is undone
where the move is lost, not where a statement throws. -/

namespace Callio

open Concurrency Code

/-- The agent the call's row names. -/
def World.agentOf (w : World) (callId : Nat) : Option Nat := (w.call callId).bind (·.agentId)

namespace Transfer

/-! ## An attempt -/

/-- Others leave the busy locks as they are; the call's row is theirs to change. -/
def Others (w w' : World) : Prop := w'.busy = w.busy

/-- `callParticipants.leave` logs its own failure. -/
def caught : (s : Stmt) → Option s.Res
  | .record (.leaveParticipant _ _) => some ()
  | _ => none

abbrev Attempted {α : Type} (m : Code α) (w : World) (log : List (World × Stmt)) (out : Except Stmt α) (w' : World) :
    Prop :=
  m.Attempt Stmt.exec Others caught w log out w'

/-- The guarded move. -/
def isMove : CallUpdate → Bool
  | .assignCallToAgentIfUnassigned _ | .updateCallAgentIfCurrent _ _ => true
  | _ => false

/-- The statement moves the call. -/
def Moves (callId : Nat) (e : World × Stmt) : Prop :=
  ∃ u, e.2 = .updateCall callId u ∧ isMove u = true ∧ (e.1.call callId).any u.guard = true

/-- The statement claims the agent for the call. -/
def Claims (callId agentId : Nat) (e : World × Stmt) : Prop :=
  e.2 = .updateAgent agentId (.claimAgentForCall callId) ∧
    (e.1.agent agentId).any (AgentUpdate.guard e.1 agentId (.claimAgentForCall callId)) = true

/-- Without the move the busy locks and the call's agent are as they were; with it, the
agent before is released and the new one held. -/
structure Atomic (callId : Nat) (w : World) (log : List (World × Stmt)) (w' : World) : Prop where
  unmoved : (∀ e ∈ log, ¬Moves callId e) →
    w'.busy = w.busy ∧ ∀ e ∈ log, (e.2.exec e.1).1.agentOf callId = e.1.agentOf callId
  moved : ∀ e ∈ log, Moves callId e →
    (∀ old, e.1.agentOf callId = some old → w'.busy old ≠ some callId) ∧
      ∀ new, (e.2.exec e.1).1.agentOf callId = some new → w'.busy new = some callId

/-- No claim takes the agent whom the call was read to be with, and nothing throws that
leaves an agent held: not the move, no release of an agent the call holds, and none of
the updates between the two while it holds the one it was read to be with. -/
structure Spared (callId : Nat) (log : List (World × Stmt)) (out : Except Stmt Unit) (w' : World) : Prop where
  claim : ∀ e ∈ log, ∀ a, Claims callId a e → ∀ s, (s, .query (.findById callId)) ∈ log → s.agentOf callId ≠ some a
  update : ∀ u, out = .error (.updateCall callId u) → isMove u = false ∧
    ∀ s a, (s, .query (.findById callId)) ∈ log → s.agentOf callId = some a → w'.busy a ≠ some callId
  release : ∀ a, out = .error (.updateAgent a (.releaseFromCall callId)) → w'.busy a ≠ some callId

/-! ## What the statements do -/

/-- Before the claim: it looks, and changes no call and no agent. -/
def Looks : Stmt → Prop
  | .query (.findById _) => False
  | .query _ | .reconcileQueueOrder _ _ => True
  | _ => False

/-- Between the move and the release. -/
def Adjusts (callId : Nat) (s : Stmt) : Prop :=
  (∃ q, s = .updateCall callId (.updateQueue q)) ∨ ∃ a, s = .updateCall callId (.markHandoverOffered a)

/-- After the release. -/
def Trails : Stmt → Prop
  | .record _ | .media _ _ | .emit _ => True
  | _ => False

/-- After the move, beside the release. -/
def Settles (callId : Nat) (s : Stmt) : Prop := Adjusts callId s ∨ Trails s

theorem busy_of_agent {w w' : World} (h : ∀ a, w'.agent a = w.agent a) : w'.busy = w.busy := by
  funext a
  simp only [World.busy, h a]

theorem Looks.busy {s : Stmt} (h : Looks s) (w : World) : (s.exec w).1.busy = w.busy := by
  cases s with
  | query q => rfl
  | reconcileQueueOrder q members => rfl
  | _ => cases h

theorem Looks.agentOf {s : Stmt} (h : Looks s) (w : World) (c : Nat) : (s.exec w).1.agentOf c = w.agentOf c := by
  cases s with
  | query q => rfl
  | reconcileQueueOrder q members => rfl
  | _ => cases h

theorem Looks.not_moves {c : Nat} {e : World × Stmt} (h : Looks e.2) : ¬Moves c e := by
  rintro ⟨u, hs, -⟩
  rw [hs] at h
  exact h

theorem Looks.not_claims {c a : Nat} {e : World × Stmt} (h : Looks e.2) : ¬Claims c a e := by
  rintro ⟨hs, -⟩
  rw [hs] at h
  exact h

theorem Settles.busy {c : Nat} {s : Stmt} (h : Settles c s) (w : World) : (s.exec w).1.busy = w.busy := by
  apply busy_of_agent
  intro a
  rcases s.onAgent w a with hsame | ⟨_, _, rfl, -, -, -⟩ | ⟨_, _, _, rfl, -, -, -, -⟩
  · exact hsame
  · rcases h with (⟨q, hs⟩ | ⟨b, hs⟩) | h
    · cases hs
    · cases hs
    · cases h
  · rcases h with (⟨q, hs⟩ | ⟨b, hs⟩) | h
    · cases hs
    · cases hs
    · cases h

theorem Settles.agentOf {c : Nat} {s : Stmt} (h : Settles c s) (w : World) (callId : Nat) :
    (s.exec w).1.agentOf callId = w.agentOf callId := by
  unfold World.agentOf
  rcases s.onCall w callId with hsame | ⟨u, row, hs, hrow, -, h'⟩ | ⟨_, hs, -, -⟩ | ⟨_, _, hs, -, -⟩ |
    ⟨_, _, _, hs, -, -, -, -⟩
  · rw [hsame]
  · rw [hrow, h']
    subst hs
    rcases h with (⟨q, hs⟩ | ⟨a, hs⟩) | h
    · cases hs
      rfl
    · cases hs
      rfl
    · cases h
  all_goals
    subst hs
    rcases h with (⟨q, hs⟩ | ⟨a, hs⟩) | h
    · cases hs
    · cases hs
    · cases h

theorem Settles.not_moves {c : Nat} {e : World × Stmt} (h : Settles c e.2) : ¬Moves c e := by
  rintro ⟨u, hs, hm, -⟩
  rw [hs] at h
  rcases h with (⟨q, hu⟩ | ⟨a, hu⟩) | h
  · cases hu
    cases hm
  · cases hu
    cases hm
  · cases h

theorem Settles.later {c : Nat} {e : World × Stmt} (h : Settles c e.2) :
    e.2 ≠ .query (.findById c) ∧ ∀ a, ¬Claims c a e := by
  constructor
  · intro hs
    rw [hs] at h
    rcases h with (⟨q, hu⟩ | ⟨a, hu⟩) | h
    · cases hu
    · cases hu
    · cases h
  · rintro a ⟨hs, -⟩
    rw [hs] at h
    rcases h with (⟨q, hu⟩ | ⟨a, hu⟩) | h
    · cases hu
    · cases hu
    · cases h

theorem busy_updateAgent {w : World} {a : Nat} {u : AgentUpdate} (b : Nat) (hb : b ≠ a) :
    ((Stmt.updateAgent a u).exec w).1.busy b = w.busy b := by
  simp only [World.busy, World.agent, Stmt.exec, Store.Table.get_updateWhere, if_neg hb]

theorem busy_claim {w : World} {a c : Nat} (h : ((Stmt.updateAgent a (.claimAgentForCall c)).exec w).2 = true) :
    w.busy a = none ∧
      ((Stmt.updateAgent a (.claimAgentForCall c)).exec w).1.busy = Function.update w.busy a (some c) := by
  obtain ⟨row, hrow, hg⟩ := (Stmt.exec_updateAgent_snd ..).mp h
  have hrow' : w.agents.get a = some row := hrow
  have hfree : row.busyCallId = none := by
    simp only [AgentUpdate.guard, Bool.and_eq_true, Option.isNone_iff_eq_none] at hg
    exact hg.1.1.1
  constructor
  · rw [World.busy, hrow, Option.bind_some, hfree]
  · funext b
    by_cases hb : b = a
    · subst hb
      rw [Function.update_self]
      simp [World.busy, World.agent, Stmt.exec, Store.Table.get_updateWhere, hrow', hg, AgentUpdate.set]
    · rw [Function.update_of_ne hb]
      exact busy_updateAgent b hb

theorem claims_iff {w : World} {a c : Nat} : Claims c a (w, .updateAgent a (.claimAgentForCall c)) ↔
    ((Stmt.updateAgent a (.claimAgentForCall c)).exec w).2 = true := by
  rw [Stmt.exec_updateAgent_snd]
  constructor
  · rintro ⟨-, h⟩
    cases hrow : w.agent a with
    | none =>
      rw [hrow] at h
      cases h
    | some row =>
      rw [hrow] at h
      exact ⟨row, rfl, h⟩
  · rintro ⟨row, hrow, hg⟩
    exact ⟨rfl, by rw [hrow]; exact hg⟩

theorem busy_lost {w : World} {a c : Nat} (h : ((Stmt.updateAgent a (.claimAgentForCall c)).exec w).2 ≠ true) :
    ((Stmt.updateAgent a (.claimAgentForCall c)).exec w).1.busy = w.busy := by
  apply busy_of_agent
  intro b
  rcases Stmt.onAgent w b (.updateAgent a (.claimAgentForCall c)) with hsame | ⟨u, row, hs, hrow, hg, -⟩ |
    ⟨_, _, _, hs, -, -, -, -⟩
  · exact hsame
  · cases hs
    exact absurd ((Stmt.exec_updateAgent_snd ..).mpr ⟨row, hrow, hg⟩) h
  · cases hs

/-- A release takes the agent from the call, and nobody else. -/
theorem busy_release (w : World) (a c : Nat) :
    ((Stmt.updateAgent a (.releaseFromCall c)).exec w).1.busy =
      if w.busy a = some c then Function.update w.busy a none else w.busy := by
  split
  · rename_i hheld
    obtain ⟨row, hrow, hbusy⟩ := Option.bind_eq_some_iff.mp hheld
    have hrow' : w.agents.get a = some row := hrow
    funext b
    by_cases hb : b = a
    · subst hb
      rw [Function.update_self]
      simp [World.busy, World.agent, Stmt.exec, Store.Table.get_updateWhere, hrow', AgentUpdate.guard,
        AgentUpdate.set, hbusy]
    · rw [Function.update_of_ne hb]
      exact busy_updateAgent b hb
  · rename_i hfree
    apply busy_of_agent
    intro b
    rcases Stmt.onAgent w b (.updateAgent a (.releaseFromCall c)) with hsame | ⟨u, row, hs, hrow, hg, -⟩ |
      ⟨_, _, _, hs, -, -, -, -⟩
    · exact hsame
    · cases hs
      have hheld : row.busyCallId = some c := by simpa [AgentUpdate.guard] using hg
      exact absurd (by rw [World.busy, hrow, Option.bind_some, hheld]) hfree
    · cases hs

/-! ## The claim -/

/-- Looking for an agent and claiming one. -/
def Seeks (callId : Nat) (s : Stmt) : Prop := Looks s ∨ ∃ a, s = .updateAgent a (.claimAgentForCall callId)

/-- One agent is claimed, the one picked, or none is. -/
structure Sought {α : Type} (callId : Nat) (pick : α → Option Nat) (w : World) (log : List (World × Stmt))
    (out : Except Stmt α) (w' : World) : Prop where
  steps : ∀ e ∈ log, Seeks callId e.2
  thrown : ∀ s, out = .error s → Seeks callId s
  outcome : (∃ r a, out = .ok r ∧ pick r = some a ∧ w.busy a = none ∧
      w'.busy = Function.update w.busy a (some callId) ∧ (∃ e ∈ log, Claims callId a e) ∧
      ∀ e ∈ log, ∀ b, Claims callId b e → b = a) ∨
    (∀ r, out = .ok r → pick r = none) ∧ w'.busy = w.busy ∧ ∀ e ∈ log, ∀ b, ¬Claims callId b e

section seeking

variable {α β : Type} {callId : Nat} {pick : α → Option Nat} {w w₁ w' : World} {log log₁ : List (World × Stmt)}
  {out : Except Stmt α}

namespace Sought

/-- First steps that claim nobody. -/
theorem prepend (hsteps : ∀ e ∈ log₁, Seeks callId e.2) (hno : ∀ e ∈ log₁, ∀ b, ¬Claims callId b e)
    (hb : w₁.busy = w.busy) (h : Sought callId pick w₁ log out w') : Sought callId pick w (log₁ ++ log) out w' where
  steps e he := (List.mem_append.mp he).elim (hsteps e) (h.steps e)
  thrown := h.thrown
  outcome := by
    rcases h.outcome with ⟨r, a, hout, hpick, hfree, hheld, ⟨e, he, hclaim⟩, honly⟩ | ⟨hout, hkeep, hno'⟩
    · refine .inl ⟨r, a, hout, hpick, hb ▸ hfree, hb ▸ hheld, ⟨e, List.mem_append_right _ he, hclaim⟩,
        fun e he b hc => ?_⟩
      rcases List.mem_append.mp he with he | he
      · exact absurd hc (hno e he b)
      · exact honly e he b hc
    · refine .inr ⟨hout, hkeep.trans hb, fun e he b => ?_⟩
      rcases List.mem_append.mp he with he | he
      · exact hno e he b
      · exact hno' e he b

theorem ret {a : α} (ha : pick a = none) : Sought callId pick w [] (.ok a) w :=
  ⟨fun _ he => absurd he List.not_mem_nil, fun _ hs => (nomatch hs),
    .inr ⟨fun r hr => by cases hr; exact ha, rfl, fun _ he => absurd he List.not_mem_nil⟩⟩

/-- The result made into another that picks the same. -/
theorem bind_pure {m : Code α} {g : α → β} {pick' : β → Option Nat} {out' : Except Stmt β}
    (hm : ∀ w log out w', Attempted m w log out w' → Sought callId pick w log out w')
    (hpick : ∀ r, pick' (g r) = pick r) (h : Attempted (m >>= fun r => .ret (g r)) w log out' w') :
    Sought callId pick' w log out' w' := by
  rcases Prog.Attempt.of_bind h with ⟨s, h', rfl⟩ | ⟨r, w₁, log₁, log₂, h₁, h₂, rfl⟩
  · have hs := hm _ _ _ _ h'
    refine ⟨hs.steps, fun s' hs' => hs.thrown s' (by cases hs'; rfl), .inr ⟨fun _ hr => (nomatch hr), ?_⟩⟩
    rcases hs.outcome with ⟨_, _, hout, -⟩ | ⟨-, hkeep⟩
    · cases hout
    · exact hkeep
  · have hs := hm _ _ _ _ h₁
    obtain ⟨rfl, rfl, rfl⟩ := h₂.of_ret
    rw [List.append_nil]
    refine ⟨hs.steps, fun _ hs' => (nomatch hs'), ?_⟩
    rcases hs.outcome with ⟨r', a, hout, hp, hrest⟩ | ⟨hout, hrest⟩
    · cases hout
      exact .inl ⟨g r, a, rfl, (hpick r).trans hp, hrest⟩
    · refine .inr ⟨fun r' hr' => ?_, hrest⟩
      cases hr'
      exact (hpick r).trans (hout r rfl)

end Sought

theorem looked {m : Code α} (hm : m.Uses Looks) (h : Attempted m w log out w') :
    (∀ e ∈ log, Looks e.2) ∧ (∀ s, out = .error s → Looks s) ∧ w'.busy = w.busy :=
  ⟨(h.uses hm).1, (h.uses hm).2, h.keeps (fun _ _ hr => hr) (fun _ w hs => hs.busy w) hm⟩

/-- After a look around. -/
theorem sought_of_looked {m : Code α} {f : α → Code β} {pick' : β → Option Nat} {out' : Except Stmt β}
    (hm : m.Uses Looks)
    (hf : ∀ r w log out w', Attempted (f r) w log out w' → Sought callId pick' w log out w')
    (h : Attempted (m >>= f) w log out' w') : Sought callId pick' w log out' w' := by
  rcases Prog.Attempt.of_bind h with ⟨s, h', rfl⟩ | ⟨r, w₁, log₁, log₂, h₁, h₂, rfl⟩
  · obtain ⟨hsteps, hthrown, hb⟩ := looked hm h'
    refine ⟨fun e he => .inl (hsteps e he), fun s' hs' => ?_,
      .inr ⟨fun _ hr => (nomatch hr), hb, fun e he b => (hsteps e he).not_claims⟩⟩
    cases hs'
    exact .inl (hthrown s rfl)
  · obtain ⟨hsteps, -, hb⟩ := looked hm h₁
    exact (hf r _ _ _ _ h₂).prepend (fun e he => .inl (hsteps e he)) (fun e he b => (hsteps e he).not_claims) hb

/-- One claim, and what follows from its answer. -/
theorem sought_of_claim {a : Nat} {f : Bool → Code β} {pick' : β → Option Nat} {out' : Except Stmt β} {r : β}
    (hwon : f true = .ret r) (hpick : pick' r = some a)
    (hlost : ∀ w log out w', Attempted (f false) w log out w' → Sought callId pick' w log out w')
    (h : Attempted (updateAgent a (.claimAgentForCall callId) >>= f) w log out' w') :
    Sought callId pick' w log out' w' := by
  have hseeks : Seeks callId (.updateAgent a (.claimAgentForCall callId)) := .inr ⟨a, rfl⟩
  obtain ⟨w₁, hr, ⟨log', h', hlog⟩ | ⟨hlog, hout, hw'⟩⟩ := Prog.Attempt.of_uncaught rfl h
  · have hr : w₁.busy = w.busy := hr
    cases hans : ((Stmt.updateAgent a (.claimAgentForCall callId)).exec w₁).2 with
    | true =>
      obtain ⟨hfree, hheld⟩ := busy_claim hans
      rw [hans, hwon] at h'
      obtain ⟨rfl, rfl, rfl⟩ := h'.of_ret
      subst hlog
      refine ⟨?_, fun _ hs => (nomatch hs), .inl ⟨r, a, rfl, hpick, ?_, ?_, ⟨_, List.mem_singleton.mpr rfl, ?_⟩, ?_⟩⟩
      · intro e he
        rw [List.mem_singleton.mp he]
        exact hseeks
      · rw [← hr]
        exact hfree
      · rw [← hr]
        exact hheld
      · exact claims_iff.mpr hans
      · rintro e he b ⟨hs, -⟩
        rw [List.mem_singleton.mp he] at hs
        cases hs
        rfl
    | false =>
      rw [hans] at h'
      have hne : ((Stmt.updateAgent a (.claimAgentForCall callId)).exec w₁).2 ≠ true := by
        rw [hans]
        exact Bool.false_ne_true
      rw [hlog, ← List.singleton_append]
      apply (hlost _ _ _ _ h').prepend
      · intro e he
        rw [List.mem_singleton.mp he]
        exact hseeks
      · intro e he b hclaim
        rw [List.mem_singleton.mp he] at hclaim
        have hb : b = a := by
          have hs := hclaim.1
          cases hs
          rfl
        subst hb
        exact hne (claims_iff.mp hclaim)
      · exact (busy_lost hne).trans hr
  · subst hlog hout hw'
    refine ⟨fun _ he => absurd he List.not_mem_nil, fun s hs => ?_,
      .inr ⟨fun _ hr => (nomatch hr), hr, fun _ he => absurd he List.not_mem_nil⟩⟩
    cases hs
    exact hseeks

theorem claimInOrder_sought (candidates : List Agent) {out : Except Stmt (Option Agent × Bool)}
    (h : Attempted (claimInOrder (fun a => do
      let won ← updateAgent a (.claimAgentForCall callId)
      return ⟨won, won⟩) candidates) w log out w') :
    Sought callId (fun r => r.1.map (·.id)) w log out w' := by
  induction candidates generalizing w log out w' with
  | nil =>
    obtain ⟨rfl, rfl, rfl⟩ := h.of_ret
    exact .ret rfl
  | cons agent rest ih =>
    rw [claimInOrder, bind_assoc] at h
    refine sought_of_claim (r := (some agent, false)) rfl rfl (fun w log out w' h => ?_) h
    change Attempted (claimInOrder _ rest >>= fun r => .ret (r.1, r.2 || false)) w log out w' at h
    exact Sought.bind_pure (g := fun r => (r.1, r.2 || false)) (fun w log out w' h => ih h) (fun _ => rfl) h

theorem ordered_looks (queue : Queue) (strategy : QueueStrategy) (members : List Agent) :
    (QueueRouter.ordered queue strategy members).Uses Looks := by
  unfold QueueRouter.ordered
  dsimp only
  split
  · exact Prog.uses_ret _
  · exact Prog.uses_cmd trivial

theorem claimMember_sought (queue : Queue) (excludeAgentId : Option Nat) {out : Except Stmt (Option Agent)}
    (h : Attempted (QueueRouter.claimMemberForTransfer queue callId excludeAgentId) w log out w') :
    Sought callId (Option.map (·.id)) w log out w' := by
  refine sought_of_looked (m := read (.getMembers queue.id)) (Prog.uses_cmd trivial) (fun members w log out w' h => ?_) h
  refine sought_of_looked (ordered_looks _ _ _) (fun candidates w log out w' h => ?_) h
  exact Sought.bind_pure (fun w log out w' h => claimInOrder_sought candidates h) (fun _ => rfl) h

theorem resolve_sought (tenantId : Nat) (request : TransferRequest) (excludeAgentId : Option Nat)
    {out : Except Stmt (Option (Nat × Option Nat))}
    (h : Attempted (resolveTransferTarget callId tenantId request excludeAgentId) w log out w') :
    Sought callId (Option.map Prod.fst) w log out w' := by
  have hnone : ∀ w log out w', Attempted (.ret none) w log out w' →
      Sought callId (Option.map fun r : Nat × Option Nat => r.1) w log out w' := by
    intro w log out w' h
    obtain ⟨rfl, rfl, rfl⟩ := h.of_ret
    exact .ret rfl
  cases request with
  | toQueue queueId =>
    refine sought_of_looked (m := read (.findQueue queueId)) (Prog.uses_cmd trivial) (fun queue w log out w' h => ?_) h
    cases queue with
    | none => exact hnone _ _ _ _ h
    | some queue =>
      dsimp only at h
      split at h
      · exact hnone _ _ _ _ h
      · refine Sought.bind_pure (fun w log out w' h => claimMember_sought queue _ h) (fun agent => ?_) h
        cases agent <;> rfl
  | toAgent agentId =>
    refine sought_of_looked (m := read (.findAgent agentId)) (Prog.uses_cmd trivial) (fun target w log out w' h => ?_) h
    cases target with
    | none => exact hnone _ _ _ _ h
    | some target =>
      dsimp only at h
      split at h
      · exact hnone _ _ _ _ h
      · exact sought_of_claim (r := some (agentId, none)) rfl rfl (fun w log out w' h => hnone _ _ _ _ h) h

end seeking

/-! ## Up to the claim -/

theorem Seeks.ne_findById {c : Nat} {s : Stmt} (h : Seeks c s) : s ≠ .query (.findById c) := by
  rintro rfl
  rcases h with h | ⟨a, h⟩
  · exact h
  · cases h

theorem Seeks.not_moves {c : Nat} {e : World × Stmt} (h : Seeks c e.2) : ¬Moves c e := by
  rcases h with h | ⟨a, h⟩
  · exact h.not_moves
  · rintro ⟨u, hs, -⟩
    rw [h] at hs
    cases hs

theorem Seeks.agentOf {c : Nat} {s : Stmt} (h : Seeks c s) (w : World) (callId : Nat) :
    (s.exec w).1.agentOf callId = w.agentOf callId := by
  rcases h with h | ⟨a, rfl⟩
  · exact h.agentOf w callId
  · rfl

/-- What was run when one agent, the target, has been claimed. -/
structure Claimed (callId : Nat) (read : World) (target : Nat) (log : List (World × Stmt)) : Prop where
  mem : (read, Stmt.query (.findById callId)) ∈ log
  only : ∀ s, (s, Stmt.query (.findById callId)) ∈ log → s = read
  claim : ∃ e ∈ log, Claims callId target e
  claims : ∀ e ∈ log, ∀ b, Claims callId b e → b = target

theorem Claimed.append {callId : Nat} {read : World} {target : Nat} {log log' : List (World × Stmt)}
    (h : Claimed callId read target log)
    (h' : ∀ e ∈ log', e.2 ≠ .query (.findById callId) ∧ ∀ a, ¬Claims callId a e) :
    Claimed callId read target (log ++ log') where
  mem := List.mem_append_left _ h.mem
  only s hs := by
    rcases List.mem_append.mp hs with hs | hs
    · exact h.only s hs
    · exact absurd rfl (h' _ hs).1
  claim := by
    obtain ⟨e, he, hc⟩ := h.claim
    exact ⟨e, List.mem_append_left _ he, hc⟩
  claims e he b hc := by
    rcases List.mem_append.mp he with he | he
    · exact h.claims e he b hc
    · exact absurd hc ((h' e he).2 b)

/-- Steps that move nothing. -/
def Still (callId : Nat) (log : List (World × Stmt)) : Prop :=
  ∀ e ∈ log, ¬Moves callId e ∧ (e.2.exec e.1).1.agentOf callId = e.1.agentOf callId

theorem Still.append {callId : Nat} {log log' : List (World × Stmt)} (h : Still callId log) (h' : Still callId log') :
    Still callId (log ++ log') :=
  fun e he => (List.mem_append.mp he).elim (h e) (h' e)

theorem still_nil (callId : Nat) : Still callId [] := fun _ he => absurd he List.not_mem_nil

theorem Still.atomic {callId : Nat} {w w' : World} {log : List (World × Stmt)} (h : Still callId log)
    (hb : w'.busy = w.busy) : Atomic callId w log w' :=
  ⟨fun _ => ⟨hb, fun e he => (h e he).2⟩, fun e he hm => absurd hm (h e he).1⟩

/-- After the claim of a target and the reads before. -/
def afterClaim (callId : Nat) (call : Call) (newAgentId : Nat) (queueId : Option Nat) : Code Unit := do
  if call.agentId = some newAgentId then return ()
  if ← moveCall callId call.agentId newAgentId then handOver callId call newAgentId queueId
  else
    let _ ← releaseAgent newAgentId callId
    return ()

theorem findAgentIf_looks (agentId : Option Nat) : (findAgentIf agentId).Uses Looks := by
  cases agentId with
  | none => exact Prog.uses_ret _
  | some agentId => exact Prog.uses_cmd (c := Stmt.query (.findAgent agentId)) trivial

/-- The agents' rows are read, then a target claimed. -/
def search (callId tenantId : Nat) (request : TransferRequest) (assignorId : Option Nat) (call : Call) :
    Code (Option (Nat × Option Nat)) := do
  let _ ← findAgentIf call.agentId
  let _ ← findAgentIf assignorId
  resolveTransferTarget callId tenantId request call.agentId

theorem search_sought {callId tenantId : Nat} {request : TransferRequest} {assignorId : Option Nat} {call : Call}
    {w w' : World} {log : List (World × Stmt)} {out : Except Stmt (Option (Nat × Option Nat))}
    (h : Attempted (search callId tenantId request assignorId call) w log out w') :
    Sought callId (Option.map Prod.fst) w log out w' := by
  refine sought_of_looked (findAgentIf_looks _) (fun _ w log out w' h => ?_) h
  refine sought_of_looked (findAgentIf_looks _) (fun _ w log out w' h => ?_) h
  exact resolve_sought _ _ _ h

def afterSearch (callId : Nat) (call : Call) : Option (Nat × Option Nat) → Code Unit
  | none => return ()
  | some (newAgentId, queueId) => afterClaim callId call newAgentId queueId

def afterRead (callId tenantId : Nat) (request : TransferRequest) (assignorId : Option Nat) : Option Call → Code Unit
  | none => return ()
  | some call =>
    if call.tenantId ≠ tenantId then return ()
    else search callId tenantId request assignorId call >>= afterSearch callId call

theorem handleCallTransferred_eq (callId tenantId : Nat) (request : TransferRequest) (assignorId : Option Nat) :
    handleCallTransferred callId tenantId request assignorId =
      read (.findById callId) >>= afterRead callId tenantId request assignorId := by
  unfold handleCallTransferred
  congr 1
  funext found
  cases found with
  | none => rfl
  | some call =>
    unfold afterRead search
    dsimp only
    split
    · rfl
    · simp only [bind_assoc]
      rfl

/-- Nobody was claimed, and what threw is harmless. -/
theorem spared_of_unclaimed {callId : Nat} {w' : World} {log : List (World × Stmt)} {out : Except Stmt Unit}
    (hlog : ∀ e ∈ log, ∀ b, ¬Claims callId b e)
    (hout : ∀ s, out = .error s → s = .query (.findById callId) ∨ Seeks callId s) : Spared callId log out w' where
  claim e he a hc := absurd hc (hlog e he a)
  update u hs := by
    rcases hout _ hs with hs' | (hs' | ⟨a, hs'⟩)
    · cases hs'
    · cases hs'
    · cases hs'
  release a hs := by
    rcases hout _ hs with hs' | (hs' | ⟨a, hs'⟩)
    · cases hs'
    · cases hs'
    · cases hs'

theorem agentOf_of_findCall {w : World} {callId : Nat} {call : Call} (h : w.findCall callId = some call) :
    w.agentOf callId = call.agentId := by
  obtain ⟨row, hrow, rfl⟩ := Option.map_eq_some_iff.mp h
  rw [World.agentOf, hrow, Option.bind_some]

/-- Nothing comes of it, or a target is claimed. -/
theorem upToClaim {callId tenantId : Nat} {request : TransferRequest} {assignorId : Option Nat} {w w' : World}
    {log : List (World × Stmt)} {out : Except Stmt Unit}
    (h : Attempted (handleCallTransferred callId tenantId request assignorId) w log out w') :
    Atomic callId w log w' ∧ Spared callId log out w' ∨
    ∃ read call target queueId w₁ log₁ log₂, Claimed callId read target log₁ ∧ Still callId log₁ ∧
      read.agentOf callId = call.agentId ∧ w.busy target = none ∧
      w₁.busy = Function.update w.busy target (some callId) ∧
      Attempted (afterClaim callId call target queueId) w₁ log₂ out w' ∧ log = log₁ ++ log₂ := by
  rw [handleCallTransferred_eq] at h
  obtain ⟨w₀, hr, ⟨log', h', hlog⟩ | ⟨hlog, hout, hw'⟩⟩ := Prog.Attempt.of_uncaught rfl h
  · have hr : w₀.busy = w.busy := hr
    -- the row as read, then the steps up to a claim
    have hread : Still callId [(w₀, .query (.findById callId))] := by
      intro e he
      rw [List.mem_singleton.mp he]
      exact ⟨fun ⟨_, hs, _⟩ => (nomatch hs), rfl⟩
    have hunclaimed : ∀ b, ¬Claims callId b (w₀, .query (.findById callId)) := fun b ⟨hs, _⟩ => nomatch hs
    have hret : ∀ {log' : List (World × Stmt)}, Attempted (.ret ()) w₀ log' out w' →
        log = (w₀, .query (.findById callId)) :: log' → Atomic callId w log w' ∧ Spared callId log out w' := by
      intro log' h' hlog
      obtain ⟨rfl, rfl, rfl⟩ := h'.of_ret
      rw [hlog]
      refine ⟨hread.atomic hr, spared_of_unclaimed (fun e he => ?_) fun _ hs => nomatch hs⟩
      rw [List.mem_singleton.mp he]
      exact hunclaimed
    have h' : Attempted (afterRead callId tenantId request assignorId (w₀.findCall callId)) w₀ log' out w' := h'
    cases hcall : w₀.findCall callId with
    | none =>
      rw [hcall] at h'
      exact .inl (hret h' hlog)
    | some call =>
      rw [hcall] at h'
      unfold afterRead at h'
      dsimp only at h'
      split at h'
      · exact .inl (hret h' hlog)
      · have hcons : ∀ {log₁ : List (World × Stmt)}, (∀ e ∈ log₁, Seeks callId e.2) →
            Still callId ((w₀, .query (.findById callId)) :: log₁) := fun hsteps =>
          hread.append fun e he => ⟨(hsteps e he).not_moves, (hsteps e he).agentOf _ _⟩
        have hquiet : ∀ {log₁ : List (World × Stmt)}, (∀ e ∈ log₁, ∀ b, ¬Claims callId b e) →
            ∀ e ∈ (w₀, .query (.findById callId)) :: log₁, ∀ b, ¬Claims callId b e := by
          intro log₁ hno e he
          rcases List.mem_cons.mp he with rfl | he
          · exact hunclaimed
          · exact hno e he
        rcases Prog.Attempt.of_bind h' with ⟨s, hs, hout⟩ | ⟨found, w₁, log₁, log₂, hs, h₂, hlog'⟩
        · have hsought := search_sought hs
          rcases hsought.outcome with ⟨_, _, hok, -⟩ | ⟨-, hkeep, hno⟩
          · cases hok
          · rw [hlog, hout]
            refine .inl ⟨(hcons hsought.steps).atomic (hkeep.trans hr), spared_of_unclaimed (hquiet hno) ?_⟩
            intro s' hs'
            cases hs'
            exact .inr (hsought.thrown s rfl)
        · have hsought := search_sought hs
          rcases hsought.outcome with ⟨_, target, hok, hpick, hfree, hheld, ⟨e, he, hclaim⟩, honly⟩ | ⟨hpick, hkeep, hno⟩
          · cases hok
            obtain ⟨⟨_, queueId⟩, rfl, rfl⟩ := Option.map_eq_some_iff.mp hpick
            refine .inr ⟨w₀, call, _, queueId, w₁, _, log₂, ?_, hcons hsought.steps, ?_, ?_, ?_, h₂, ?_⟩
            · refine ⟨List.mem_cons_self, fun s hs' => ?_, ⟨e, List.mem_cons_of_mem _ he, hclaim⟩,
                fun e' he' b hb => ?_⟩
              · rcases List.mem_cons.mp hs' with heq | hs'
                · cases heq
                  rfl
                · exact absurd rfl (hsought.steps _ hs').ne_findById
              · rcases List.mem_cons.mp he' with rfl | he'
                · exact absurd hb (hunclaimed b)
                · exact honly e' he' b hb
            · exact agentOf_of_findCall hcall
            · rw [← hr]
              exact hfree
            · rw [← hr]
              exact hheld
            · rw [hlog, hlog']
              rfl
          · have hnone : found = none := by
              have hp := hpick found rfl
              cases found with
              | none => rfl
              | some x => cases hp
            subst hnone
            obtain ⟨rfl, hout, hw'⟩ := h₂.of_ret
            rw [List.append_nil] at hlog'
            rw [hlog, hlog', hout, hw']
            exact .inl ⟨(hcons hsought.steps).atomic (hkeep.trans hr),
              spared_of_unclaimed (hquiet hno) fun _ hs => nomatch hs⟩
  · subst hlog hout hw'
    refine .inl ⟨(still_nil callId).atomic hr, spared_of_unclaimed (fun _ he => absurd he List.not_mem_nil) ?_⟩
    intro s hs
    cases hs
    exact .inl rfl

/-! ## After the claim -/

section claimed

variable {callId target : Nat} {queueId : Option Nat} {call : Call} {read w w₁ w' : World}
  {log₁ log₂ : List (World × Stmt)} {out : Except Stmt Unit}

/-- The target stays held with the call unmoved. -/
theorem not_atomic_of_held (hst : Still callId (log₁ ++ log₂)) (hfree : w.busy target = none)
    (hheld : w'.busy target = some callId) : ¬Atomic callId w (log₁ ++ log₂) w' := by
  intro h
  obtain ⟨hb, -⟩ := h.unmoved fun e he => (hst e he).1
  rw [hb, hfree] at hheld
  cases hheld

/-- Who was claimed is not the one the call was with. -/
theorem Claimed.spared {log : List (World × Stmt)} (h : Claimed callId read target log)
    (hne : read.agentOf callId ≠ some target)
    (hupdate : ∀ u, out = .error (.updateCall callId u) → isMove u = false ∧
      ∀ a, read.agentOf callId = some a → w'.busy a ≠ some callId)
    (hrelease : ∀ a, out = .error (.updateAgent a (.releaseFromCall callId)) → w'.busy a ≠ some callId) :
    Spared callId log out w' where
  claim e he a hclaim s hs := by
    rw [h.only s hs, h.claims e he a hclaim]
    exact hne
  update u hu := by
    refine ⟨(hupdate u hu).1, fun s a hs ha => ?_⟩
    rw [h.only s hs] at ha
    exact (hupdate u hu).2 a ha
  release := hrelease

theorem releaseAgent_eq (agentId : Nat) : releaseAgent agentId callId = updateAgent agentId (.releaseFromCall callId) := rfl

/-- A release. -/
theorem of_release {agentId : Nat} {f : Bool → Code Unit}
    (h : Attempted (releaseAgent agentId callId >>= f) w₁ log₂ out w') : ∃ w₂ : World, w₂.busy = w₁.busy ∧
      ((∃ won log', Attempted (f won) ((Stmt.updateAgent agentId (.releaseFromCall callId)).exec w₂).1 log' out w' ∧
          log₂ = (w₂, .updateAgent agentId (.releaseFromCall callId)) :: log') ∨
        log₂ = [] ∧ out = .error (.updateAgent agentId (.releaseFromCall callId)) ∧ w' = w₂) := by
  rw [releaseAgent_eq] at h
  obtain ⟨w₂, hr, ⟨log', h', hlog⟩ | hthrows⟩ := Prog.Attempt.of_uncaught rfl h
  · exact ⟨w₂, hr, .inl ⟨_, log', h', hlog⟩⟩
  · exact ⟨w₂, hr, .inr hthrows⟩

theorem release_later (w₂ : World) (agentId : Nat) :
    Stmt.updateAgent agentId (.releaseFromCall callId) ≠ .query (.findById callId) ∧
      ∀ a, ¬Claims callId a (w₂, .updateAgent agentId (.releaseFromCall callId)) := by
  constructor
  · nofun
  · rintro a ⟨hs, -⟩
    cases hs

theorem release_still (w₂ : World) (agentId : Nat) :
    Still callId [(w₂, .updateAgent agentId (.releaseFromCall callId))] := by
  intro e he
  rw [List.mem_singleton.mp he]
  exact ⟨fun ⟨_, hs, _⟩ => (nomatch hs), rfl⟩

/-- The claim undone, or not. -/
theorem undo_iff (hc : Claimed callId read target log₁) (hst : Still callId log₁)
    (hne : read.agentOf callId ≠ some target) (hfree : w.busy target = none)
    (hheld : w₁.busy = Function.update w.busy target (some callId))
    (h : Attempted (releaseAgent target callId >>= fun _ => .ret ()) w₁ log₂ out w') :
    Atomic callId w (log₁ ++ log₂) w' ↔ Spared callId (log₁ ++ log₂) out w' := by
  obtain ⟨w₂, hr, ⟨won, log', h', rfl⟩ | ⟨rfl, rfl, rfl⟩⟩ := of_release h
  · obtain ⟨rfl, rfl, rfl⟩ := h'.of_ret
    have hback : ((Stmt.updateAgent target (.releaseFromCall callId)).exec w₂).1.busy = w.busy := by
      rw [busy_release, hr, hheld, Function.update_self, if_pos rfl, Function.update_idem]
      exact Function.update_eq_self_iff.mpr hfree.symm
    have hlater : ∀ e ∈ [(w₂, Stmt.updateAgent target (.releaseFromCall callId))],
        e.2 ≠ .query (.findById callId) ∧ ∀ a, ¬Claims callId a e := by
      intro e he
      rw [List.mem_singleton.mp he]
      exact release_later w₂ target
    exact iff_of_true ((hst.append (release_still w₂ target)).atomic hback)
      ((hc.append hlater).spared hne (fun _ hu => nomatch hu) fun _ ha => nomatch ha)
  · have hleak : w'.busy target = some callId := by rw [hr, hheld, Function.update_self]
    refine iff_of_false (not_atomic_of_held (hst.append (still_nil callId)) hfree hleak) fun hs => ?_
    exact hs.release target rfl hleak

/-! ### After the move -/

theorem moveToQueueOf_adjusts (fromQueueId queueId : Option Nat) :
    (moveToQueueOf callId fromQueueId queueId).Uses (Adjusts callId) := by
  cases queueId with
  | none => exact Prog.uses_ret _
  | some queueId =>
    show Prog.Uses _ (if _ then _ else _)
    split
    · exact (Prog.uses_cmd (c := Stmt.updateCall callId (.updateQueue queueId)) (.inl ⟨queueId, rfl⟩)).bind
        fun _ => Prog.uses_ret _
    · exact Prog.uses_ret _

theorem startHandover_adjusts (status : CallStatus) (newAgentId : Nat) :
    (startHandover callId status newAgentId).Uses (Adjusts callId) := by
  unfold startHandover
  split
  · exact (Prog.uses_cmd (c := Stmt.updateCall callId (.markHandoverOffered newAgentId)) (.inr ⟨newAgentId, rfl⟩)).bind
      fun _ => Prog.uses_ret _
  · exact Prog.uses_ret _

/-- A fresh leg is offered to the new agent. -/
def offer (callId newAgentId : Nat) : Code Unit := do
  let sdpOffer ← MediaLegs.offerAgent callId
  emit (.callIncoming callId (some newAgentId) [] (some sdpOffer))

theorem offer_trails (newAgentId : Nat) : (offer callId newAgentId).Uses Trails :=
  ⟨trivial, fun _ => ⟨trivial, fun _ => ⟨trivial, fun _ => ⟨trivial, fun _ => trivial⟩⟩⟩⟩

/-- The updates between the move and the release. -/
def adjust (callId : Nat) (call : Call) (newAgentId : Nat) (queueId : Option Nat) : Code Unit := do
  moveToQueueOf callId call.queueId queueId
  startHandover callId call.status newAgentId

theorem adjust_adjusts (newAgentId : Nat) : (adjust callId call newAgentId queueId).Uses (Adjusts callId) :=
  (moveToQueueOf_adjusts _ _).bind fun _ => startHandover_adjusts _ _

theorem handOver_eq (newAgentId : Nat) : handOver callId call newAgentId queueId = (do
    adjust callId call newAgentId queueId
    dropOldAgent callId call.agentId
    offer callId newAgentId) := by
  unfold handOver adjust offer
  simp only [bind_assoc]

theorem settled {α : Type} {m : Code α} {out : Except Stmt α} (hm : m.Uses (Settles callId))
    (h : Attempted m w₁ log₂ out w') :
    (∀ e ∈ log₂, Settles callId e.2) ∧ (∀ s, out = .error s → Settles callId s) ∧ w'.busy = w₁.busy :=
  ⟨(h.uses hm).1, (h.uses hm).2, h.keeps (fun _ _ hr => hr) (fun _ w hs => hs.busy w) hm⟩

theorem still_of_settles (h : ∀ e ∈ log₂, Settles callId e.2) : Still callId log₂ :=
  fun e he => ⟨(h e he).not_moves, (h e he).agentOf _ _⟩

/-- The run of a transfer whose move was won: `move` is that step, from the state it found. -/
structure Won (callId target : Nat) (call : Call) (read : World) (log₁ : List (World × Stmt)) (move : World × Stmt) :
    Prop where
  claimed : Claimed callId read target log₁
  still : Still callId log₁
  read : read.agentOf callId = call.agentId
  ne : call.agentId ≠ some target
  moves : Moves callId move
  before : move.1.agentOf callId = call.agentId
  after : (move.2.exec move.1).1.agentOf callId = some target

section won

variable {move : World × Stmt} (h : Won callId target call read log₁ move)
include h

/-- A won transfer is atomic where the agent before does not stay held. -/
theorem Won.undone_iff (hst : Still callId log₂) (hheld : w'.busy target = some callId) :
    Atomic callId w (log₁ ++ move :: log₂) w' ↔ ∀ old, call.agentId = some old → w'.busy old ≠ some callId := by
  have hmem : move ∈ log₁ ++ move :: log₂ := List.mem_append_right _ List.mem_cons_self
  constructor
  · intro ha old hold
    exact (ha.moved move hmem h.moves).1 old (h.before.trans hold)
  · intro hold
    refine ⟨fun hno => absurd h.moves (hno move hmem), fun e he hm => ?_⟩
    have hemove : e = move := by
      rcases List.mem_append.mp he with he | he
      · exact absurd hm (h.still e he).1
      · rcases List.mem_cons.mp he with rfl | he
        · rfl
        · exact absurd hm (hst e he).1
    subst hemove
    refine ⟨fun old ho => hold old (h.before.symm.trans ho), fun new hnew => ?_⟩
    rw [h.after] at hnew
    cases hnew
    exact hheld

theorem Won.claimed_append (hlater : ∀ e ∈ log₂, e.2 ≠ .query (.findById callId) ∧ ∀ a, ¬Claims callId a e) :
    Claimed callId read target (log₁ ++ move :: log₂) := by
  refine h.claimed.append fun e he => ?_
  rcases List.mem_cons.mp he with rfl | he
  · obtain ⟨u, hs, -⟩ := h.moves
    constructor
    · rw [hs]
      nofun
    · rintro a ⟨hs', -⟩
      rw [hs] at hs'
      cases hs'
  · exact hlater e he

/-- What threw is after the release, if anything did. -/
theorem Won.spared (hlater : ∀ e ∈ log₂, e.2 ≠ .query (.findById callId) ∧ ∀ a, ¬Claims callId a e)
    (hupdate : ∀ u, out = .error (.updateCall callId u) → isMove u = false ∧
      ∀ a, call.agentId = some a → w'.busy a ≠ some callId)
    (hrelease : ∀ a, out = .error (.updateAgent a (.releaseFromCall callId)) → w'.busy a ≠ some callId) :
    Spared callId (log₁ ++ move :: log₂) out w' := by
  refine (h.claimed_append hlater).spared (h.read.symm ▸ h.ne) (fun u hu => ?_) hrelease
  rw [h.read]
  exact hupdate u hu

/-- Everything settled, with nobody to release or the release behind it. -/
theorem Won.iff_of_settles (hsettles : ∀ e ∈ log₂, Settles callId e.2) (hheld : w'.busy target = some callId)
    (hold : ∀ old, call.agentId = some old → w'.busy old ≠ some callId)
    (hout : ∀ u, out = .error (.updateCall callId u) → isMove u = false)
    (hrelease : ∀ a, out ≠ .error (.updateAgent a (.releaseFromCall callId))) :
    Atomic callId w (log₁ ++ move :: log₂) w' ↔ Spared callId (log₁ ++ move :: log₂) out w' :=
  iff_of_true ((h.undone_iff (still_of_settles hsettles) hheld).mpr hold)
    (h.spared (fun e he => (hsettles e he).later) (fun u hu => ⟨hout u hu, hold⟩) fun a ha => absurd ha (hrelease a))

end won

theorem Adjusts.of_thrown {u : CallUpdate} (h : Settles callId (.updateCall callId u)) : isMove u = false := by
  rcases h with (⟨q, hu⟩ | ⟨a, hu⟩) | h
  · cases hu
    rfl
  · cases hu
    rfl
  · cases h

theorem Trails.ne_updateCall {u : CallUpdate} : ¬Trails (.updateCall callId u) := id

/-- The release of the agent before, and then the rest. -/
theorem releaseOld_iff {move : World × Stmt} {old : Nat} {log₃ : List (World × Stmt)}
    (h : Won callId target call read log₁ move) (hold : call.agentId = some old)
    (hsettles : ∀ e ∈ log₂, Settles callId e.2) (hheld : w₁.busy target = some callId)
    (hrun : Attempted (releaseAgent old callId >>= fun _ => media callId (.dropAgent old) >>= fun _ => offer callId target)
      w₁ log₃ out w') :
    Atomic callId w (log₁ ++ move :: (log₂ ++ log₃)) w' ↔ Spared callId (log₁ ++ move :: (log₂ ++ log₃)) out w' := by
  have hne : target ≠ old := by
    rintro rfl
    exact h.ne hold
  obtain ⟨w₂, hr, ⟨won, log', h', rfl⟩ | ⟨rfl, rfl, rfl⟩⟩ := of_release hrun
  · have hrest : (media callId (.dropAgent old) >>= fun _ => offer callId target).Uses Trails :=
      (Prog.uses_cmd (c := Stmt.media callId (.dropAgent old)) trivial).bind fun _ => offer_trails target
    obtain ⟨hsteps, -, hb⟩ := settled (hrest.mono fun _ ht => .inr ht) h'
    have hthrown : ∀ s, out = .error s → Trails s := (h'.uses hrest).2
    rw [busy_release] at hb
    have hfree : w'.busy old ≠ some callId := by
      rw [hb]
      split
      · rw [Function.update_self]
        nofun
      · assumption
    have hkept : w'.busy target = some callId := by
      rw [hb]
      split
      · rw [Function.update_of_ne hne, hr]
        exact hheld
      · rw [hr]
        exact hheld
    have hstill : Still callId (log₂ ++ (w₂, .updateAgent old (.releaseFromCall callId)) :: log') :=
      (still_of_settles hsettles).append ((release_still w₂ old).append (still_of_settles hsteps))
    have hlater : ∀ e ∈ log₂ ++ (w₂, Stmt.updateAgent old (.releaseFromCall callId)) :: log',
        e.2 ≠ .query (.findById callId) ∧ ∀ a, ¬Claims callId a e := by
      intro e he
      rcases List.mem_append.mp he with he | he
      · exact (hsettles e he).later
      · rcases List.mem_cons.mp he with rfl | he
        · exact release_later w₂ old
        · exact (hsteps e he).later
    refine iff_of_true ((h.undone_iff hstill hkept).mpr fun a ha => ?_) (h.spared hlater (fun u hu => ?_) fun a ha => ?_)
    · rw [hold] at ha
      cases ha
      exact hfree
    · exact absurd (hthrown _ hu) Trails.ne_updateCall
    · exact absurd (hthrown _ ha) id
  · rw [List.append_nil]
    have hkept : w'.busy target = some callId := by
      rw [hr]
      exact hheld
    rw [h.undone_iff (still_of_settles hsettles) hkept]
    constructor
    · intro hfree
      refine h.spared (fun e he => (hsettles e he).later) (fun u hu => nomatch hu) fun a ha => ?_
      cases ha
      exact hfree old hold
    · intro hs a ha
      rw [hold] at ha
      cases ha
      exact hs.release old rfl

/-- The agent before leaves, and then the rest. -/
theorem dropOldAgent_iff {move : World × Stmt} {old : Nat} {log₃ : List (World × Stmt)}
    (h : Won callId target call read log₁ move) (hold : call.agentId = some old)
    (hsettles : ∀ e ∈ log₂, Settles callId e.2)
    (hheld : w₁.busy target = some callId)
    (hrun : Attempted (dropOldAgent callId (some old) >>= fun _ => offer callId target) w₁ log₃ out w') :
    Atomic callId w (log₁ ++ move :: (log₂ ++ log₃)) w' ↔ Spared callId (log₁ ++ move :: (log₂ ++ log₃)) out w' := by
  have hrun : Attempted (record (.leaveParticipant callId old) >>= fun _ => releaseAgent old callId >>= fun _ =>
      media callId (.dropAgent old) >>= fun _ => offer callId target) w₁ log₃ out w' := hrun
  obtain ⟨w₂, hr, ⟨log', h', rfl⟩ | ⟨_, -, h'⟩ | ⟨hc, -⟩⟩ := Prog.Attempt.of_cmd_bind hrun
  · have hsettles' : ∀ e ∈ log₂ ++ [(w₂, Stmt.record (.leaveParticipant callId old))], Settles callId e.2 := by
      intro e he
      rcases List.mem_append.mp he with he | he
      · exact hsettles e he
      · rw [List.mem_singleton.mp he]
        exact .inr trivial
    rw [List.append_cons log₂]
    refine releaseOld_iff h hold hsettles' ?_ h'
    exact (congrFun hr target).trans hheld
  · refine releaseOld_iff h hold hsettles ?_ h'
    exact (congrFun hr target).trans hheld
  · cases hc

/-- The call is the target's: the agent before is released, or stays held. -/
theorem handOver_iff {move : World × Stmt} (h : Won callId target call read log₁ move)
    (hheld : w₁.busy target = some callId)
    (hrun : Attempted (handOver callId call target queueId) w₁ log₂ out w') :
    Atomic callId w (log₁ ++ move :: log₂) w' ↔ Spared callId (log₁ ++ move :: log₂) out w' := by
  rw [handOver_eq] at hrun
  have hadjusts : (adjust callId call target queueId).Uses (Settles callId) :=
    (adjust_adjusts target).mono fun _ ha => .inl ha
  rcases Prog.Attempt.of_bind hrun with ⟨s, hadjust, hout⟩ | ⟨_, w₂, log₃, log₄, hadjust, hdrop, hlog⟩
  · obtain ⟨hsteps, -, hb⟩ := settled hadjusts hadjust
    have hs : Adjusts callId s := (hadjust.uses (adjust_adjusts target)).2 s rfl
    obtain ⟨u, hu⟩ : ∃ u, s = .updateCall callId u := by
      rcases hs with ⟨q, hs⟩ | ⟨a, hs⟩
      · exact ⟨_, hs⟩
      · exact ⟨_, hs⟩
    rw [h.undone_iff (still_of_settles hsteps) (hb.symm ▸ hheld), hout, hu]
    rw [hu] at hs
    have hlater : ∀ e ∈ log₂, e.2 ≠ .query (.findById callId) ∧ ∀ a, ¬Claims callId a e :=
      fun e he => (hsteps e he).later
    constructor
    · intro hfree
      refine h.spared hlater (fun u' hu' => ?_) fun a ha => nomatch ha
      cases hu'
      exact ⟨Adjusts.of_thrown (.inl hs), hfree⟩
    · intro hspared old hold
      exact (hspared.update u rfl).2 read old (h.claimed_append hlater).mem (h.read.trans hold)
  · obtain ⟨hsteps, -, hb⟩ := settled hadjusts hadjust
    rw [hlog]
    cases hold : call.agentId with
    | none =>
      rw [hold] at hdrop
      have hdrop : Attempted (offer callId target) w₂ log₄ out w' := hdrop
      obtain ⟨hsteps', -, hb'⟩ := settled ((offer_trails target).mono fun _ ht => .inr ht) hdrop
      have hthrown : ∀ s, out = .error s → Trails s := (hdrop.uses (offer_trails target)).2
      refine h.iff_of_settles (fun e he => (List.mem_append.mp he).elim (hsteps e) (hsteps' e)) ?_ ?_ ?_ ?_
      · rw [hb', hb]
        exact hheld
      · rw [hold]
        nofun
      · exact fun u hu => absurd (hthrown _ hu) Trails.ne_updateCall
      · exact fun a ha => absurd (hthrown _ ha) id
    | some old =>
      rw [hold] at hdrop
      exact dropOldAgent_iff h hold hsteps (hb.symm ▸ hheld) hdrop

/-! ### The move -/

def moveOf : Option Nat → Nat → CallUpdate
  | none, newAgentId => .assignCallToAgentIfUnassigned newAgentId
  | some oldAgentId, newAgentId => .updateCallAgentIfCurrent (some oldAgentId) newAgentId

theorem moveCall_eq (oldAgentId : Option Nat) (newAgentId : Nat) :
    moveCall callId oldAgentId newAgentId = update callId (moveOf oldAgentId newAgentId) := by
  cases oldAgentId <;> rfl

theorem isMove_moveOf (oldAgentId : Option Nat) (newAgentId : Nat) : isMove (moveOf oldAgentId newAgentId) = true := by
  cases oldAgentId <;> rfl

/-- The move finds the agent it was read with, and leaves the new one. -/
theorem moveOf_row {oldAgentId : Option Nat} {newAgentId : Nat} {row : CallRow}
    (hg : (moveOf oldAgentId newAgentId).guard row = true) (now : Nat) :
    row.agentId = oldAgentId ∧ ((moveOf oldAgentId newAgentId).set now row).agentId = some newAgentId := by
  cases oldAgentId with
  | none =>
    simp only [moveOf, CallUpdate.guard, Bool.and_eq_true, Option.isNone_iff_eq_none] at hg
    exact ⟨hg.1.1.1, rfl⟩
  | some old =>
    simp only [moveOf, CallUpdate.guard, Bool.and_eq_true, decide_eq_true_eq] at hg
    exact ⟨hg.1.1, rfl⟩

theorem won_of_matched {w₂ : World} (hc : Claimed callId read target log₁) (hst : Still callId log₁)
    (hread : read.agentOf callId = call.agentId) (hown : call.agentId ≠ some target)
    (hans : ((Stmt.updateCall callId (moveOf call.agentId target)).exec w₂).2 = true) :
    Won callId target call read log₁ (w₂, .updateCall callId (moveOf call.agentId target)) := by
  obtain ⟨row, hrow, hg⟩ := (Stmt.exec_updateCall_snd ..).mp hans
  obtain ⟨hbefore, hafter⟩ := moveOf_row hg w₂.now
  refine ⟨hc, hst, hread, hown, ⟨_, rfl, isMove_moveOf _ _, ?_⟩, ?_, ?_⟩
  · rw [hrow]
    exact hg
  · rw [World.agentOf, hrow, Option.bind_some, hbefore]
  · rw [World.agentOf, Stmt.exec_updateCall hrow hg, Option.bind_some, hafter]

theorem move_lost {w₂ : World} (hans : ((Stmt.updateCall callId (moveOf call.agentId target)).exec w₂).2 = false) :
    Still callId [(w₂, .updateCall callId (moveOf call.agentId target))] ∧
      ∀ e ∈ [(w₂, Stmt.updateCall callId (moveOf call.agentId target))],
        e.2 ≠ .query (.findById callId) ∧ ∀ a, ¬Claims callId a e := by
  have hlost : ∀ row, w₂.call callId = some row → (moveOf call.agentId target).guard row ≠ true := by
    intro row hrow hg
    rw [(Stmt.exec_updateCall_snd ..).mpr ⟨row, hrow, hg⟩] at hans
    cases hans
  constructor
  · intro e he
    rw [List.mem_singleton.mp he]
    constructor
    · rintro ⟨u, hs, -, hg⟩
      cases hs
      cases hrow : w₂.call callId with
      | none =>
        rw [hrow] at hg
        cases hg
      | some row =>
        rw [hrow] at hg
        exact hlost row hrow hg
    · unfold World.agentOf
      rcases Stmt.onCall w₂ callId (.updateCall callId (moveOf call.agentId target)) with hsame |
        ⟨u, row, hs, hrow, hg, -⟩ | ⟨_, hs, -, -⟩ | ⟨_, _, hs, -, -⟩ | ⟨_, _, _, hs, -, -, -, -⟩
      · rw [hsame]
      · cases hs
        exact absurd hg (hlost row hrow)
      all_goals cases hs
  · intro e he
    rw [List.mem_singleton.mp he]
    exact ⟨nofun, fun a ⟨hs, _⟩ => nomatch hs⟩

/-- The claim undone, or the call handed over. -/
theorem afterClaim_iff (hc : Claimed callId read target log₁) (hst : Still callId log₁)
    (hread : read.agentOf callId = call.agentId) (hfree : w.busy target = none)
    (hheld : w₁.busy = Function.update w.busy target (some callId))
    (h : Attempted (afterClaim callId call target queueId) w₁ log₂ out w') :
    Atomic callId w (log₁ ++ log₂) w' ↔ Spared callId (log₁ ++ log₂) out w' := by
  unfold afterClaim at h
  have hbusy : w₁.busy target = some callId := by rw [hheld, Function.update_self]
  by_cases hown : call.agentId = some target
  · -- the call is the target's already: it throws with the claim made
    rw [if_pos hown] at h
    obtain ⟨rfl, rfl, rfl⟩ := h.of_ret
    refine iff_of_false (not_atomic_of_held (hst.append (still_nil callId)) hfree hbusy) fun hs => ?_
    obtain ⟨e, he, hclaim⟩ := hc.claim
    exact hs.claim e (List.mem_append_left _ he) target hclaim read (List.mem_append_left _ hc.mem)
      (hread.trans hown)
  · rw [if_neg hown, moveCall_eq] at h
    have hne : read.agentOf callId ≠ some target := hread.symm ▸ hown
    obtain ⟨w₂, hr, ⟨log', h', rfl⟩ | ⟨rfl, rfl, rfl⟩⟩ := Prog.Attempt.of_uncaught rfl h
    · have hr : w₂.busy = w₁.busy := hr
      have hb : ((Stmt.updateCall callId (moveOf call.agentId target)).exec w₂).1.busy = w₂.busy := rfl
      cases hans : ((Stmt.updateCall callId (moveOf call.agentId target)).exec w₂).2 with
      | true =>
        rw [hans] at h'
        have hwon : Won callId target call read log₁ (w₂, .updateCall callId (moveOf call.agentId target)) :=
          won_of_matched hc hst hread hown hans
        refine handOver_iff hwon ?_ h'
        rw [hb, hr]
        exact hbusy
      | false =>
        rw [hans] at h'
        obtain ⟨hstill, hlater⟩ := move_lost hans
        rw [List.append_cons]
        exact undo_iff (hc.append hlater) (hst.append hstill) hne hfree (hb.trans (hr.trans hheld)) h'
    · refine iff_of_false (not_atomic_of_held (hst.append (still_nil callId)) hfree ?_) fun hs => ?_
      · exact (congrFun hr target).trans hbusy
      · have hmove := (hs.update _ rfl).1
        rw [isMove_moveOf] at hmove
        cases hmove

end claimed

/-- Under whatever failures, and whatever others do to the call meanwhile: a transfer
is atomic exactly where nobody is left held by what threw. -/
theorem atomic_iff {callId tenantId : Nat} {request : TransferRequest} {assignorId : Option Nat} {w w' : World}
    {log : List (World × Stmt)} {out : Except Stmt Unit}
    (h : Attempted (handleCallTransferred callId tenantId request assignorId) w log out w') :
    Atomic callId w log w' ↔ Spared callId log out w' := by
  rcases upToClaim h with ⟨ha, hs⟩ | ⟨read, call, target, queueId, w₁, log₁, log₂, hc, hst, hread, hfree, hheld, h₂, rfl⟩
  · exact iff_of_true ha hs
  · exact afterClaim_iff hc hst hread hfree hheld h₂

/-- Call 1 rings agent 1; agent 2 is free. -/
def office : World :=
  { calls := .ofList [fun _ => { tenantId := 1, direction := .inbound, status := .ringing, agentId := some 1 }]
    agents := .ofList [fun _ => { tenantId := 1, availability := .available, busyCallId := some 1 },
      fun _ => { tenantId := 1, availability := .available }] }

/-- The transfer to agent 2 goes through. -/
theorem atomic_iff_handed : ∃ log w', Attempted (handleCallTransferred 1 1 (.toAgent 2)) office log (.ok ()) w' ∧
    w'.busy 2 = some 1 ∧ (Atomic 1 office log w' ↔ Spared 1 log (.ok ()) w') := by
  have h : Attempted (handleCallTransferred 1 1 (.toAgent 2)) office _ _ _ :=
    Prog.attempt_of_eval (fun _ => rfl : ∀ w, Others w w) (handleCallTransferred 1 1 (.toAgent 2)) office
  exact ⟨_, _, h, by decide, atomic_iff h⟩

/-- The move throws: agent 2 stays held by a call they were never given. -/
theorem not_atomic_thrown : ∃ log out w', Attempted (handleCallTransferred 1 1 (.toAgent 2)) office log out w' ∧
    ¬Atomic 1 office log w' := by
  refine ⟨_, _, _, .goes (rfl : Others office office) (.goes (rfl : Others office office)
    (.goes (rfl : Others office office) (.goes (rfl : Others office office) (.throws rfl rfl)))), fun h => ?_⟩
  obtain ⟨hb, -⟩ := h.unmoved (by
    rintro e he ⟨u, hs, -⟩
    simp only [List.mem_cons, List.not_mem_nil, or_false] at he
    rcases he with rfl | rfl | rfl | rfl <;> cases hs)
  exact absurd (congrFun hb 2) (by decide)

end Transfer

end Callio
