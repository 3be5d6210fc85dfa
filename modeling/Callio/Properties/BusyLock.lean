import Callio.Persistence.Effects
import Callio.Persistence.Repositories
import Callio.Persistence.Transactions
import Callio.Concurrency.Protocol

/-! The busy lock. `busy_call_id` goes from NULL to a call that claims or holds the
agent, and back by that call's release, whoever claims, holds and releases in
whatever order. -/

namespace Callio.BusyLock

open Concurrency

/-! ## The callers -/

/-- One step on the database: a transaction or a statement. -/
inductive Op
  | transaction (agentId callId : Nat) (anyShift : Bool) (fails : TransactionStep → Bool)
  | stmt (s : Stmt)

namespace Op

abbrev Res : Op → Type
  | transaction _ _ _ _ => Except TransactionStep Claim
  | stmt s => s.Res

def exec : (op : Op) → World → World × op.Res
  | transaction agentId callId anyShift fails, w =>
      Transaction.runOn w (Transaction.claimAgentAndAssignCall fails agentId callId anyShift)
  | stmt s, w => s.exec w

end Op

inductive Caller
  | claimAgentAndAssignCall (agentId callId : Nat) (anyShift : Bool) (fails : TransactionStep → Bool)
  | claimAgentForCall (agentId callId : Nat)
  | holdForOwnCall (agentId callId : Nat)
  | releaseFromCall (agentId callId : Nat)

namespace Caller

/-- A statement of the repositories, on a connection of the pool. -/
def execute (s : Stmt) : Prog Op.Res s.Res := .cmd (Op.stmt s)

def code : Caller → Prog Op.Res Unit
  | claimAgentAndAssignCall agentId callId anyShift fails => do
      let _ ← .cmd (Op.transaction agentId callId anyShift fails)
  | claimAgentForCall agentId callId => do
      let _ ← execute (.updateAgent agentId (.claimAgentForCall callId))
  | holdForOwnCall agentId callId => do
      let matched : Bool ← execute (.updateAgent agentId (.holdForOwnCall callId))
      if !matched then let _ ← execute (.query (.busyCallId agentId))
  | releaseFromCall agentId callId => do
      let _ ← execute (.updateAgent agentId (.releaseFromCall callId))

/-- What a caller may issue. -/
def Issues : Caller → Op → Prop
  | claimAgentAndAssignCall agentId callId anyShift fails, op => op = .transaction agentId callId anyShift fails
  | claimAgentForCall agentId callId, op => op = .stmt (.updateAgent agentId (.claimAgentForCall callId))
  | holdForOwnCall agentId callId, op =>
      op = .stmt (.updateAgent agentId (.holdForOwnCall callId)) ∨ op = .stmt (.query (.busyCallId agentId))
  | releaseFromCall agentId callId, op => op = .stmt (.updateAgent agentId (.releaseFromCall callId))

/-- It claims or holds the agent for the call. -/
def Takes : Caller → Nat → Nat → Prop
  | claimAgentAndAssignCall a c _ _, agentId, callId | claimAgentForCall a c, agentId, callId
  | holdForOwnCall a c, agentId, callId => a = agentId ∧ c = callId
  | releaseFromCall _ _, _, _ => False

end Caller

/-- A caller issues the same whatever it was answered. -/
def protocol : Protocol Op.Res := ⟨Caller, fun q _ _ => q, Caller.Issues⟩

theorem follows (q : Caller) : q.code.Follows protocol q fun _ _ => True := by
  cases q with
  | claimAgentAndAssignCall a c anyShift fails => exact ⟨rfl, fun _ => trivial⟩
  | claimAgentForCall a c => exact ⟨rfl, fun _ => trivial⟩
  | holdForOwnCall a c =>
    refine ⟨.inl rfl, fun r => ?_⟩
    cases r with
    | true => trivial
    | false => exact ⟨.inr rfl, fun _ => trivial⟩
  | releaseFromCall a c => exact ⟨rfl, fun _ => trivial⟩

/-! ## Runs -/

section run

variable {ι : Type} [DecidableEq ι] (callers : ι → Caller) (w : World) (schedule : List ι)

/-- The database after the schedule's first `k` moves, with the callers. -/
def after (k : Nat) : Config Op.Res World ι :=
  Concurrency.run Op.exec (Config.spawn w fun i => (callers i).code) (schedule.take k)

abbrev state (k : Nat) : World := (after callers w schedule k).state

/-- Move `k` by `i` issues `op`. -/
structure Moved (k : Nat) (i : ι) (op : Op) : Prop where
  mover : schedule[k]? = some i
  next : (after callers w schedule k).next i = some op

/-- Caller `i` gets agent `a` for call `c` by move `k`: what it is answered there
makes it return so. -/
inductive Gets (k : Nat) (i : ι) (a c : Nat) : Prop
  | assigned {anyShift : Bool} {fails : TransactionStep → Bool}
      (hm : Moved callers w schedule k i (.transaction a c anyShift fails))
      (h : ((Op.transaction a c anyShift fails).exec (state callers w schedule k)).2 = .ok ⟨true, true⟩)
  | claimed (hm : Moved callers w schedule k i (.stmt (.updateAgent a (.claimAgentForCall c))))
      (h : ((Stmt.updateAgent a (.claimAgentForCall c)).exec (state callers w schedule k)).2 = true)
  | held (hm : Moved callers w schedule k i (.stmt (.updateAgent a (.holdForOwnCall c))))
      (h : ((Stmt.updateAgent a (.holdForOwnCall c)).exec (state callers w schedule k)).2 = true)
  | holds (hm : Moved callers w schedule k i (.stmt (.query (.busyCallId a)))) (hi : (callers i) = .holdForOwnCall a c)
      (h : (state callers w schedule k).busy a = some c)

/-- `busy_call_id` changes from NULL to a call by a claim or hold for it, and from
a call to NULL by a release for it. -/
def Changes : Prop :=
  ∀ k a, (state callers w schedule (k + 1)).busy a ≠ (state callers w schedule k).busy a →
    ∃ i c, schedule[k]? = some i ∧
      ((state callers w schedule k).busy a = none ∧ (state callers w schedule (k + 1)).busy a = some c ∧
          (callers i).Takes a c ∨
        (state callers w schedule k).busy a = some c ∧ (state callers w schedule (k + 1)).busy a = none ∧
          callers i = .releaseFromCall a c)

/-- Who gets an agent for a call keeps everyone else's call off, until a release for the call. -/
def Exclusive : Prop :=
  ∀ j k i i' a c c', j < k → c ≠ c' → Gets callers w schedule j i a c → Gets callers w schedule k i' a c' →
    (state callers w schedule (j + 1)).busy a = some c ∧
      ∃ t l, j < t ∧ t < k ∧ schedule[t]? = some l ∧ callers l = .releaseFromCall a c

/-- One claim gets the call assigned. -/
def AssignedOnce : Prop :=
  ∀ j k i i' a a' c anyShift anyShift' fails fails', j < k →
    Moved callers w schedule j i (.transaction a c anyShift fails) →
    Moved callers w schedule k i' (.transaction a' c anyShift' fails') →
    ((Op.transaction a c anyShift fails).exec (state callers w schedule j)).2 = .ok ⟨true, true⟩ →
    ((Op.transaction a' c anyShift' fails').exec (state callers w schedule k)).2 ≠ .ok ⟨true, true⟩

/-- A claim with its call ends with both rows written, or both as they were. -/
def AllOrNothing : Prop :=
  ∀ k i a c anyShift fails, Moved callers w schedule k i (.transaction a c anyShift fails) →
    ((Op.transaction a c anyShift fails).exec (state callers w schedule k)).2 = .ok ⟨true, true⟩ ∧
        (state callers w schedule (k + 1)).busy a = some c ∧
        (∃ row, (state callers w schedule (k + 1)).call c = some row ∧ row.agentId = some a ∧ row.offeredAt.isSome) ∨
      ((Op.transaction a c anyShift fails).exec (state callers w schedule k)).2 ≠ .ok ⟨true, true⟩ ∧
        (state callers w schedule (k + 1)).agent a = (state callers w schedule k).agent a ∧
        (state callers w schedule (k + 1)).call c = (state callers w schedule k).call c

end run

/-! ## One step -/

section step

variable {w : World} {a c : Nat}

/-- Seen from outside, a transaction throws and changes nothing, or is the statement of the model. -/
theorem transaction_exec (agentId callId : Nat) (anyShift : Bool) (fails : TransactionStep → Bool) (w : World) :
    (∃ step, (Op.transaction agentId callId anyShift fails).exec w = (w, .error step)) ∨
      (Op.transaction agentId callId anyShift fails).exec w =
        (((Stmt.claimAgentAndAssignCall agentId callId anyShift).exec w).1,
          .ok ((Stmt.claimAgentAndAssignCall agentId callId anyShift).exec w).2) := by
  obtain ⟨step, _, h⟩ | h := Transaction.runOn_claimAgentAndAssignCall fails agentId callId anyShift w
  · exact .inl ⟨step, h⟩
  · exact .inr h

theorem busy_eq {row : AgentRow} (h : w.agent a = some row) : w.busy a = row.busyCallId := by
  unfold World.busy
  rw [h]
  rfl

theorem busy_congr {w' : World} (h : w'.agent a = w.agent a) : w'.busy a = w.busy a := by
  unfold World.busy
  rw [h]

/-- The statement of a claim with its call that is won. -/
theorem assigned_exec {agentId callId : Nat} {anyShift : Bool}
    (h : ((Stmt.claimAgentAndAssignCall agentId callId anyShift).exec w).2 = ⟨true, true⟩) :
    (w.agent agentId).any (w.claimable agentId anyShift) = true ∧ (w.call callId).any CallRow.assignable = true := by
  simp only [Stmt.exec, World.claimAgentAndAssignCall] at h
  split at h
  · rename_i ha
    split at h
    · rename_i hc
      exact ⟨ha, hc⟩
    · cases h
  · cases h

theorem updateAgent_exec {u : AgentUpdate} (h : ((Stmt.updateAgent a u).exec w).2 = true) :
    ∃ row, w.agent a = some row ∧ u.guard w a row = true ∧
      ((Stmt.updateAgent a u).exec w).1.agent a = some (u.set row) := by
  obtain ⟨row, hrow, hg⟩ := (Store.Table.updateWhere_snd w.agents a (u.guard w a) u.set).mp h
  refine ⟨row, hrow, hg, ?_⟩
  simp [Stmt.exec, World.agent, Store.Table.get_updateWhere, hrow, hg]

/-- A change of `busy_call_id` is a claim or hold of a free agent, or a release by the call. -/
theorem busy_exec {q : Caller} {op : Op} (hop : q.Issues op) (h : (op.exec w).1.busy a ≠ w.busy a) :
    ∃ c, w.busy a = none ∧ (op.exec w).1.busy a = some c ∧ q.Takes a c ∨
      w.busy a = some c ∧ (op.exec w).1.busy a = none ∧ q = .releaseFromCall a c := by
  cases q with
  | claimAgentAndAssignCall a' c anyShift fails =>
    obtain rfl : op = _ := hop
    obtain ⟨step, hexec⟩ | hexec := transaction_exec a' c anyShift fails w
    · rw [hexec] at h
      exact absurd rfl h
    rw [hexec] at h ⊢
    cases Stmt.onAgent w a (.claimAgentAndAssignCall a' c anyShift) with
    | same hsame => exact absurd (busy_congr hsame) h
    | updated u row hs => cases hs
    | claimed callId shift row hs hrow ha hc hset =>
      cases hs
      have hfree : row.busyCallId = none := by
        simp only [World.claimable, Bool.and_eq_true, Option.isNone_iff_eq_none] at ha
        exact ha.1.1.1
      exact ⟨c, .inl ⟨(busy_eq hrow).trans hfree, busy_eq hset, rfl, rfl⟩⟩
  | claimAgentForCall a' c =>
    obtain rfl : op = _ := hop
    cases Stmt.onAgent w a (.updateAgent a' (.claimAgentForCall c)) with
    | same hsame => exact absurd (busy_congr hsame) h
    | updated u row hs hrow hg hset =>
      cases hs
      have hfree : row.busyCallId = none := by
        simp only [AgentUpdate.guard, Bool.and_eq_true, Option.isNone_iff_eq_none] at hg
        exact hg.1.1.1
      exact ⟨c, .inl ⟨(busy_eq hrow).trans hfree, busy_eq hset, rfl, rfl⟩⟩
    | claimed callId shift row hs => cases hs
  | holdForOwnCall a' c =>
    obtain rfl | rfl : op = _ ∨ op = _ := hop
    · cases Stmt.onAgent w a (.updateAgent a' (.holdForOwnCall c)) with
      | same hsame => exact absurd (busy_congr hsame) h
      | updated u row hs hrow hg hset =>
        cases hs
        cases hbusy : row.busyCallId with
        | none => exact ⟨c, .inl ⟨(busy_eq hrow).trans hbusy, busy_eq hset, rfl, rfl⟩⟩
        | some held =>
          -- the call held the agent before, and holds them still
          simp only [AgentUpdate.guard, hbusy, Option.all_some, Bool.and_eq_true, decide_eq_true_eq] at hg
          obtain rfl : held = c := hg.1.1.1
          exact absurd ((busy_eq hset).trans ((busy_eq hrow).trans hbusy).symm) h
      | claimed callId shift row hs => cases hs
    · exact absurd rfl h
  | releaseFromCall a' c =>
    obtain rfl : op = _ := hop
    cases Stmt.onAgent w a (.updateAgent a' (.releaseFromCall c)) with
    | same hsame => exact absurd (busy_congr hsame) h
    | updated u row hs hrow hg hset =>
      cases hs
      have hheld : row.busyCallId = some c := by simpa [AgentUpdate.guard] using hg
      exact ⟨c, .inr ⟨(busy_eq hrow).trans hheld, busy_eq hset, rfl⟩⟩
    | claimed callId shift row hs => cases hs

/-- Nothing that a caller issues takes a call from its agent. -/
theorem agentId_exec {q : Caller} {op : Op} (hop : q.Issues op)
    (h : (w.call c).any (·.agentId.isSome) = true) : ((op.exec w).1.call c).any (·.agentId.isSome) = true := by
  have hkept : ∀ s : Stmt, (∀ u, s ≠ .updateCall c u) → ((s.exec w).1.call c).any (·.agentId.isSome) = true := by
    intro s hs
    cases Stmt.onCall w c s with
    | same hsame => rwa [hsame]
    | updated u row heq => exact absurd heq (hs u)
    | created row _ hnone _ =>
      rw [show w.call c = none from hnone] at h
      cases h
    | filled row d _ hrow hset =>
      rw [hrow] at h
      rw [hset]
      exact h
    | claimed agentId anyShift row _ _ _ _ hset =>
      rw [hset]
      rfl
  cases q with
  | claimAgentAndAssignCall a' c' anyShift fails =>
    obtain rfl : op = _ := hop
    obtain ⟨step, hexec⟩ | hexec := transaction_exec a' c' anyShift fails w
    · rw [hexec]
      exact h
    · rw [hexec]
      exact hkept _ fun _ hs => by cases hs
  | claimAgentForCall a' c' =>
    obtain rfl : op = _ := hop
    exact hkept _ fun _ hs => by cases hs
  | holdForOwnCall a' c' =>
    obtain rfl | rfl : op = _ ∨ op = _ := hop
    · exact hkept _ fun _ hs => by cases hs
    · exact h
  | releaseFromCall a' c' =>
    obtain rfl : op = _ := hop
    exact hkept _ fun _ hs => by cases hs

/-- A claim with its call leaves both rows written, or both as they were. -/
theorem rows_exec (a c : Nat) (anyShift : Bool) (fails : TransactionStep → Bool) (w : World) :
    ((Op.transaction a c anyShift fails).exec w).2 = .ok ⟨true, true⟩ ∧
        ((Op.transaction a c anyShift fails).exec w).1.busy a = some c ∧
        (∃ row, ((Op.transaction a c anyShift fails).exec w).1.call c = some row ∧ row.agentId = some a ∧
          row.offeredAt.isSome) ∨
      ((Op.transaction a c anyShift fails).exec w).2 ≠ .ok ⟨true, true⟩ ∧
        ((Op.transaction a c anyShift fails).exec w).1 = w := by
  obtain ⟨step, hexec⟩ | hexec := transaction_exec a c anyShift fails w
  · right
    rw [hexec]
    exact ⟨by simp, rfl⟩
  rw [hexec]
  by_cases ha : (w.agent a).any (w.claimable a anyShift) = true
  · by_cases hc : (w.call c).any CallRow.assignable = true
    · left
      cases hagent : w.agents.get a with
      | none => simp [World.agent, hagent] at ha
      | some agent =>
        cases hcall : w.calls.get c with
        | none => simp [World.call, hcall] at hc
        | some row =>
          simp only [Stmt.exec, World.claimAgentAndAssignCall, ha, hc, if_true]
          refine ⟨trivial, ?_, { row with agentId := some a, offeredAt := some (sqlNow w.now) }, ?_, rfl, rfl⟩
          · simp [World.busy, World.agent, hagent]
          · simp [World.call, hcall]
    · right
      simp [Stmt.exec, World.claimAgentAndAssignCall, ha, hc]
  · right
    simp [Stmt.exec, World.claimAgentAndAssignCall, ha]

end step

/-! ## Runs of callers -/

section runs

variable {ι : Type} [DecidableEq ι] {callers : ι → Caller} {w : World} {schedule : List ι} {k : Nat}
  {i : ι} {op : Op}

theorem phase_eq (q : Caller) (h : History Op.Res) : protocol.phase q h = q := by
  induction h with
  | nil => rfl
  | cons step h ih => exact ih

theorem after_succ (hi : schedule[k]? = some i) :
    after callers w schedule (k + 1) = step Op.exec (after callers w schedule k) i :=
  run_take_succ Op.exec hi

theorem after_of_none (hk : schedule[k]? = none) : after callers w schedule (k + 1) = after callers w schedule k := by
  unfold after
  rw [List.take_add_one, hk]
  simp

theorem conforms (k : Nat) : protocol.Conforms (fun _ => True) callers (after callers w schedule k) := by
  induction k with
  | zero => exact Protocol.conforms_spawn fun i => follows (callers i)
  | succ k ih =>
    cases hi : schedule[k]? with
    | some i => exact (after_succ hi).symm ▸ ih.step Op.exec i
    | none => exact (after_of_none hi).symm ▸ ih

namespace Moved

theorem issues (hm : Moved callers w schedule k i op) : (callers i).Issues op := by
  obtain ⟨cont, hp⟩ := Config.next_eq_some.mp hm.next
  have hallows := (conforms k).allows hp
  rwa [show protocol.phases callers (after callers w schedule k) i = callers i from phase_eq _ _] at hallows

theorem state (hm : Moved callers w schedule k i op) :
    BusyLock.state callers w schedule (k + 1) = (op.exec (BusyLock.state callers w schedule k)).1 := by
  obtain ⟨cont, hp⟩ := Config.next_eq_some.mp hm.next
  show (after callers w schedule (k + 1)).state = _
  rw [after_succ hm.mover, step_call Op.exec hp]

end Moved

/-- A step of a run leaves the database as it is, or is a caller's. -/
theorem state_succ (callers : ι → Caller) (w : World) (schedule : List ι) (k : Nat) :
    state callers w schedule (k + 1) = state callers w schedule k ∨
      ∃ i op, Moved callers w schedule k i op := by
  cases hi : schedule[k]? with
  | none =>
    left
    unfold state
    rw [after_of_none hi]
  | some i =>
    cases hnext : (after callers w schedule k).next i with
    | some op => exact .inr ⟨i, op, hi, hnext⟩
    | none =>
      left
      unfold state
      rw [after_succ hi]
      cases hp : ((after callers w schedule k).threads i).prog with
      | ret u => rw [step_ret Op.exec hp]
      | call op cont =>
        rw [Config.next_eq_some.mpr ⟨cont, hp⟩] at hnext
        cases hnext

theorem changes (callers : ι → Caller) (w : World) (schedule : List ι) : Changes callers w schedule := by
  intro k a h
  obtain hsame | ⟨i, op, hm⟩ := state_succ callers w schedule k
  · exact absurd (congrArg (·.busy a) hsame) h
  · rw [hm.state] at h ⊢
    obtain ⟨c, hc⟩ := busy_exec hm.issues h
    exact ⟨i, c, hm.mover, hc⟩

/-- Who is held by a call and later is not has been released by it in between. -/
theorem released {a c j d : Nat} (hheld : (state callers w schedule j).busy a = some c)
    (hlost : (state callers w schedule (j + d)).busy a ≠ some c) :
    ∃ t l, j ≤ t ∧ t < j + d ∧ schedule[t]? = some l ∧ callers l = .releaseFromCall a c := by
  induction d with
  | zero => exact absurd hheld hlost
  | succ d ih =>
    by_cases hstill : (state callers w schedule (j + d)).busy a = some c
    · have hchange : (state callers w schedule (j + d + 1)).busy a ≠ (state callers w schedule (j + d)).busy a := by
        rw [hstill]
        exact hlost
      obtain ⟨l, c', hl, ⟨hnone, _⟩ | ⟨hsome, _, hrelease⟩⟩ := changes callers w schedule (j + d) a hchange
      · rw [hstill] at hnone
        cases hnone
      · obtain rfl : c = c' := Option.some.inj (hstill.symm.trans hsome)
        exact ⟨j + d, l, by omega, by omega, hl, hrelease⟩
    · obtain ⟨t, l, hjt, htd, hl, hrelease⟩ := ih hstill
      exact ⟨t, l, hjt, by omega, hl, hrelease⟩

/-- Who gets an agent for a call finds them free or held by it, and leaves them held by it. -/
theorem Gets.busy {a c : Nat} (h : Gets callers w schedule k i a c) :
    (∀ c', (state callers w schedule k).busy a = some c' → c' = c) ∧
      (state callers w schedule (k + 1)).busy a = some c := by
  cases h with
  | @assigned anyShift fails hm h =>
    constructor
    · intro c' hbusy
      obtain ⟨step, hexec⟩ | hexec := transaction_exec a c anyShift fails (state callers w schedule k)
      · rw [hexec] at h
        cases h
      · rw [hexec] at h
        have hfree := (assigned_exec (Except.ok.inj h)).1
        cases hrow : (state callers w schedule k).agent a with
        | none => simp [hrow] at hfree
        | some row =>
          simp only [hrow, Option.any_some, World.claimable, Bool.and_eq_true, Option.isNone_iff_eq_none] at hfree
          rw [busy_eq hrow, hfree.1.1.1] at hbusy
          cases hbusy
    · rw [hm.state]
      obtain ⟨_, hbusy, _⟩ | ⟨hlost, _⟩ := rows_exec a c anyShift fails (state callers w schedule k)
      · exact hbusy
      · exact absurd h hlost
  | claimed hm h =>
    obtain ⟨row, hrow, hg, hset⟩ := updateAgent_exec h
    rw [hm.state]
    refine ⟨fun c' hbusy => ?_, busy_eq hset⟩
    simp only [AgentUpdate.guard, Bool.and_eq_true, Option.isNone_iff_eq_none] at hg
    rw [busy_eq hrow, hg.1.1.1] at hbusy
    cases hbusy
  | held hm h =>
    obtain ⟨row, hrow, hg, hset⟩ := updateAgent_exec h
    rw [hm.state]
    refine ⟨fun c' hbusy => ?_, busy_eq hset⟩
    rw [busy_eq hrow] at hbusy
    simp only [AgentUpdate.guard, hbusy, Option.all_some, Bool.and_eq_true, decide_eq_true_eq] at hg
    exact hg.1.1.1
  | holds hm _ h =>
    rw [hm.state]
    exact ⟨fun c' hbusy => Option.some.inj (hbusy.symm.trans h), h⟩

theorem exclusive (callers : ι → Caller) (w : World) (schedule : List ι) : Exclusive callers w schedule := by
  intro j k i i' a c c' hjk hne hfirst hsecond
  have hheld := hfirst.busy.2
  obtain ⟨d, rfl⟩ : ∃ d, k = j + 1 + d := ⟨k - (j + 1), by omega⟩
  have hlost : (state callers w schedule (j + 1 + d)).busy a ≠ some c :=
    fun h => hne (hsecond.busy.1 c h)
  obtain ⟨t, l, hjt, htd, hl, hrelease⟩ := released hheld hlost
  exact ⟨hheld, t, l, by omega, by omega, hl, hrelease⟩

/-- A call that has an agent keeps one. -/
theorem assigned_stays {c j d : Nat} (h : ((state callers w schedule j).call c).any (·.agentId.isSome) = true) :
    ((state callers w schedule (j + d)).call c).any (·.agentId.isSome) = true := by
  induction d with
  | zero => exact h
  | succ d ih =>
    show ((state callers w schedule (j + d + 1)).call c).any (·.agentId.isSome) = true
    obtain hsame | ⟨i, op, hm⟩ := state_succ callers w schedule (j + d)
    · rwa [hsame]
    · rw [hm.state]
      exact agentId_exec hm.issues ih

theorem assignedOnce (callers : ι → Caller) (w : World) (schedule : List ι) : AssignedOnce callers w schedule := by
  intro j k i i' a a' c anyShift anyShift' fails fails' hjk hm hm' h h'
  have hassigned : ((state callers w schedule (j + 1)).call c).any (·.agentId.isSome) = true := by
    rw [hm.state]
    obtain ⟨_, _, row, hrow, hagent, _⟩ | ⟨hlost, _⟩ := rows_exec a c anyShift fails (state callers w schedule j)
    · simp [hrow, hagent]
    · exact absurd h hlost
  obtain ⟨d, rfl⟩ : ∃ d, k = j + 1 + d := ⟨k - (j + 1), by omega⟩
  have hstill := assigned_stays (d := d) hassigned
  obtain ⟨step, hexec⟩ | hexec := transaction_exec a' c anyShift' fails' (state callers w schedule (j + 1 + d))
  · rw [hexec] at h'
    cases h'
  · rw [hexec] at h'
    have hfree := (assigned_exec (Except.ok.inj h')).2
    cases hrow : (state callers w schedule (j + 1 + d)).call c with
    | none => simp [hrow] at hfree
    | some row =>
      simp only [hrow, Option.any_some, CallRow.assignable, Bool.and_eq_true, Option.isNone_iff_eq_none] at hfree
      simp [hrow, hfree.1.1.1] at hstill

theorem allOrNothing (callers : ι → Caller) (w : World) (schedule : List ι) : AllOrNothing callers w schedule := by
  intro k i a c anyShift fails hm
  rw [hm.state]
  obtain hwon | ⟨hlost, hsame⟩ := rows_exec a c anyShift fails (state callers w schedule k)
  · exact .inl hwon
  · exact .inr ⟨hlost, congrArg (·.agent a) hsame, congrArg (·.call c) hsame⟩

end runs

/-- Whoever claims, holds and releases agents in whatever order: the busy lock
holds. -/
theorem busy_lock {ι : Type} [DecidableEq ι] (callers : ι → Caller) (w : World) (schedule : List ι) :
    Changes callers w schedule ∧ Exclusive callers w schedule ∧ AssignedOnce callers w schedule ∧
      AllOrNothing callers w schedule :=
  ⟨changes callers w schedule, exclusive callers w schedule, assignedOnce callers w schedule,
    allOrNothing callers w schedule⟩

end Callio.BusyLock
