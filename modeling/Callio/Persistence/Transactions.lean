import Callio.Persistence.AgentUpdates

/-! `claimAgentAndAssignCall` as the transaction it is: statements that see their
own writes on one connection, and a rollback, early or after an error, that
undoes them. Seen from outside it is one step, and nothing or all of it. -/

namespace Callio

/-- What the others see, and what the connection sees in its transaction. -/
structure Connection where
  committed : World
  working : World

/-- The awaits of a transaction; any of them may throw. -/
inductive TransactionStep
  | beginTransaction | updateAgent | updateCall | commit
  deriving DecidableEq, Repr

abbrev Transaction := ExceptT TransactionStep (StateM Connection)

namespace Transaction

variable (fails : TransactionStep → Bool)

def attempt (step : TransactionStep) : Transaction Unit :=
  if fails step then throw step else pure ()

def beginTransaction : Transaction Unit := do
  attempt fails .beginTransaction
  modify fun conn => { conn with working := conn.committed }

/-- An UPDATE, and whether it affected a row. -/
def execute (step : TransactionStep) (update : World → World × Bool) : Transaction Bool := do
  attempt fails step
  modifyGet fun conn => ((update conn.working).2, { conn with working := (update conn.working).1 })

def rollback : Transaction Unit := modify fun conn => { conn with working := conn.committed }

def commit : Transaction Unit := do
  attempt fails .commit
  modify fun conn => { conn with committed := conn.working }

/-- `UPDATE agents SET busy_call_id = ?` -/
def holdAgent (agentId callId : Nat) (anyShift : Bool) (w : World) : World × Bool :=
  let (agents, matched) := w.agents.updateWhere agentId (w.claimable agentId anyShift)
    fun a => { a with busyCallId := some callId }
  ({ w with agents }, matched)

/-- `UPDATE calls SET agent_id = ?, offered_at = NOW()` -/
def assignCall (agentId callId : Nat) (w : World) : World × Bool :=
  let (calls, matched) := w.calls.updateWhere callId CallRow.assignable
    fun c => { c with agentId := some agentId, offeredAt := some (sqlNow w.now) }
  ({ w with calls }, matched)

/-- What stands in the `try`. -/
def claim (agentId callId : Nat) (anyShift : Bool) : Transaction Claim := do
  beginTransaction fails
  let agentResult ← execute fails .updateAgent (holdAgent agentId callId anyShift)
  if agentResult then
    let callResult ← execute fails .updateCall (assignCall agentId callId)
    if callResult then
      commit fails
      return ⟨true, true⟩
    else
      rollback
      return ⟨true, false⟩
  else
    rollback
    return ⟨false, false⟩

def claimAgentAndAssignCall (agentId callId : Nat) (anyShift : Bool) : Transaction Claim := do
  try
    claim fails agentId callId anyShift
  catch error =>
    rollback
    throw error

/-- The transaction on a connection of its own: what it returns or throws, and
what the others see then. -/
def runOn (w : World) {α : Type} (t : Transaction α) : World × Except TransactionStep α :=
  let out := t.run.run ⟨w, w⟩
  (out.2.committed, out.1)

/-! ## Seen from outside -/

theorem holdAgent_eq (agentId callId : Nat) (anyShift : Bool) (w : World) :
    holdAgent agentId callId anyShift w =
      if (w.agent agentId).any (w.claimable agentId anyShift) = true then
        ({ w with agents := w.agents.modify agentId fun a => { a with busyCallId := some callId } }, true)
      else (w, false) := by
  unfold holdAgent Store.Table.updateWhere World.agent
  cases w.agents.get agentId with
  | none => rfl
  | some row => by_cases h : w.claimable agentId anyShift row = true <;> simp [h]

theorem assignCall_eq (agentId callId : Nat) (w : World) :
    assignCall agentId callId w =
      if (w.call callId).any CallRow.assignable = true then
        ({ w with calls := w.calls.modify callId fun c =>
            { c with agentId := some agentId, offeredAt := some (sqlNow w.now) } }, true)
      else (w, false) := by
  unfold assignCall Store.Table.updateWhere World.call
  cases w.calls.get callId with
  | none => rfl
  | some row => by_cases h : row.assignable = true <;> simp [h]

section steps

variable {α β : Type} (conn : Connection)

/-- The transaction from a given state of its connection. -/
def from_ (conn : Connection) (t : Transaction α) : Except TransactionStep α × Connection := t.run.run conn

@[simp] theorem from_pure (a : α) : from_ conn (pure a : Transaction α) = (.ok a, conn) := rfl

@[simp] theorem from_throw (step : TransactionStep) :
    from_ conn (throw step : Transaction α) = (.error step, conn) := rfl

@[simp] theorem from_bind (t : Transaction α) (f : α → Transaction β) :
    from_ conn (t >>= f) =
      match from_ conn t with
      | (.ok a, conn') => from_ conn' (f a)
      | (.error step, conn') => (.error step, conn') := by
  unfold from_
  rw [ExceptT.run_bind, StateT.run_bind]
  rcases t.run.run conn with ⟨_ | _, _⟩ <;> rfl

@[simp] theorem from_map (f : α → β) (t : Transaction α) :
    from_ conn (f <$> t) =
      match from_ conn t with
      | (.ok a, conn') => (.ok (f a), conn')
      | (.error step, conn') => (.error step, conn') := by
  rw [map_eq_pure_bind, from_bind]
  rcases from_ conn t with ⟨_ | _, _⟩ <;> rfl

@[simp] theorem from_tryCatch (t : Transaction α) (f : TransactionStep → Transaction α) :
    from_ conn (tryCatch t f) =
      match from_ conn t with
      | (.ok a, conn') => (.ok a, conn')
      | (.error step, conn') => from_ conn' (f step) := by
  unfold from_
  rw [ExceptT.run_tryCatch, StateT.run_bind]
  rcases t.run.run conn with ⟨_ | _, _⟩ <;> rfl

@[simp] theorem from_attempt (fails : TransactionStep → Bool) (step : TransactionStep) :
    from_ conn (attempt fails step) = (if fails step = true then .error step else .ok (), conn) := by
  unfold attempt
  split <;> rfl

@[simp] theorem from_rollback : from_ conn rollback = (.ok (), { conn with working := conn.committed }) := rfl

@[simp] theorem from_modify (f : Connection → Connection) :
    from_ conn (modify f : Transaction Unit) = (.ok (), f conn) := rfl

@[simp] theorem from_modifyGet (f : Connection → α × Connection) :
    from_ conn (modifyGet f : Transaction α) = (.ok (f conn).1, (f conn).2) := rfl

end steps

/-- The transaction is one step: it throws and leaves everything as it was, or
does what `World.claimAgentAndAssignCall` says. -/
theorem runOn_claimAgentAndAssignCall (fails : TransactionStep → Bool) (agentId callId : Nat) (anyShift : Bool)
    (w : World) :
    (∃ step, fails step = true ∧ runOn w (claimAgentAndAssignCall fails agentId callId anyShift) = (w, .error step)) ∨
      runOn w (claimAgentAndAssignCall fails agentId callId anyShift) =
        ((w.claimAgentAndAssignCall agentId callId anyShift).1,
          .ok (w.claimAgentAndAssignCall agentId callId anyShift).2) := by
  have hrun : ∀ t : Transaction Claim, runOn w t = ((from_ ⟨w, w⟩ t).2.committed, (from_ ⟨w, w⟩ t).1) := fun _ => rfl
  rw [hrun]
  unfold claimAgentAndAssignCall claim
  by_cases hbegin : fails .beginTransaction = true
  · left
    refine ⟨_, hbegin, ?_⟩
    simp [beginTransaction, hbegin]
  by_cases hupdate : fails .updateAgent = true
  · left
    refine ⟨_, hupdate, ?_⟩
    simp [beginTransaction, execute, hbegin, hupdate]
  by_cases hagent : (w.agent agentId).any (w.claimable agentId anyShift) = true
  · have hheld := holdAgent_eq agentId callId anyShift w
    rw [if_pos hagent] at hheld
    by_cases hassign : fails .updateCall = true
    · left
      refine ⟨_, hassign, ?_⟩
      simp [beginTransaction, execute, hheld, hbegin, hupdate, hassign]
    have hassigned := assignCall_eq agentId callId (holdAgent agentId callId anyShift w).1
    rw [show (holdAgent agentId callId anyShift w).1.call callId = w.call callId from rfl, hheld] at hassigned
    dsimp only at hassigned
    by_cases hcall : (w.call callId).any CallRow.assignable = true
    · rw [if_pos hcall] at hassigned
      by_cases hcommit : fails .commit = true
      · left
        refine ⟨_, hcommit, ?_⟩
        simp [beginTransaction, execute, commit, hheld, hassigned, hbegin, hupdate, hassign, hcommit]
      · right
        simp [beginTransaction, execute, commit, hheld, hassigned, hbegin, hupdate, hassign, hcommit,
          World.claimAgentAndAssignCall, hagent, hcall]
    · right
      rw [if_neg hcall] at hassigned
      simp [beginTransaction, execute, hheld, hassigned, hbegin, hupdate, hassign, World.claimAgentAndAssignCall, hagent,
        hcall]
  · right
    simp [beginTransaction, execute, holdAgent_eq, hbegin, hupdate, hagent, World.claimAgentAndAssignCall]

end Transaction

end Callio
