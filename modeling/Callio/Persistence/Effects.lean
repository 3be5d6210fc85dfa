import Callio.Persistence.Statements
import Mathlib.Data.List.Nodup

/-! What one statement can do to a row: the whole of it, guards included. A
call's row is created, updated, or assigned together with an agent; an agent's
row is updated, or claimed together with a call. -/

namespace Callio

namespace World

theorem findCall_eq_some {w : World} {c : Nat} {call : Call} :
    w.findCall c = some call ↔ w.call c = some call.toCallRow ∧ call.id = c := by
  simp only [findCall, Option.map_eq_some_iff]
  constructor
  · rintro ⟨row, hrow, rfl⟩
    exact ⟨hrow, rfl⟩
  · rintro ⟨hrow, rfl⟩
    exact ⟨_, hrow, rfl⟩

/-- A row a SELECT returns is in the table, and its clause is true of it. -/
theorem mem_selectCalls {w : World} {p : Call → Bool} {call : Call} :
    call ∈ w.selectCalls p ↔ w.call call.id = some call.toCallRow ∧ p call = true := by
  simp only [selectCalls, List.mem_filterMap, List.mem_range, Option.filter_eq_some_iff,
    findCall_eq_some]
  constructor
  · rintro ⟨c, _, ⟨hrow, rfl⟩, hp⟩
    exact ⟨hrow, hp⟩
  · rintro ⟨hrow, hp⟩
    exact ⟨call.id, Store.Table.lt_nextId hrow, ⟨hrow, rfl⟩, hp⟩

theorem selectCalls_nodup (w : World) (p : Call → Bool) : ((w.selectCalls p).map (·.id)).Nodup := by
  rw [selectCalls, List.map_filterMap]
  refine List.Nodup.filterMap ?_ List.nodup_range
  intro a b id ha hb
  have hid : ∀ c, id ∈ ((w.findCall c).filter p).map (·.id) → c = id := by
    intro c hc
    obtain ⟨call, hcall, rfl⟩ := Option.map_eq_some_iff.mp hc
    exact (findCall_eq_some.mp (Option.filter_eq_some_iff.mp hcall).1).2.symm
  exact (hid a ha).trans (hid b hb).symm

theorem findByProviderCallId_eq_some {w : World} {key : ProviderKey} {call : Call}
    (h : (Query.findByProviderCallId key).answer w = some call) :
    w.call call.id = some call.toCallRow ∧ call.channel = key.channel ∧
      call.providerCallId = some key.providerCallId := by
  have hmem := mem_selectCalls.mp (List.mem_of_head? h)
  simpa using hmem

end World

/-- The channel already has a row for the provider call id. -/
def World.taken (w : World) (row : CallRow) : Bool :=
  row.providerCallId.isSome && w.calls.any fun _ c =>
    c.channel = row.channel && c.providerCallId = row.providerCallId

namespace Stmt

variable {w : World} {c a : Nat}

/-- How statement `s` leaves the row of call `c`. -/
inductive OnCall (w : World) (c : Nat) (s : Stmt) (w' : World) : Prop
  | same (h : w'.call c = w.call c)
  | updated (u : CallUpdate) (row : CallRow) (hs : s = .updateCall c u) (hrow : w.call c = some row)
      (hg : u.guard row = true) (h : w'.call c = some (u.set w.now row))
  | created (row : CallRow) (hs : s = .createCall row) (hrow : w.call c = none)
      (h : w'.call c = some (row.inserted w.now))
  | filled (row : CallRow) (duration : Nat) (hs : s = .fillQueueDuration c) (hrow : w.call c = some row)
      (h : w'.call c = some { row with queueDuration := duration })
  | claimed (agentId : Nat) (anyShift : Bool) (row : CallRow)
      (hs : s = .claimAgentAndAssignCall agentId c anyShift) (hrow : w.call c = some row)
      (hc : row.assignable = true) (ha : (w.agent agentId).any (w.claimable agentId anyShift) = true)
      (h : w'.call c = some { row with agentId := some agentId, offeredAt := some (sqlNow w.now) })

theorem onCall (w : World) (c : Nat) (s : Stmt) : OnCall w c s (s.exec w).1 := by
  cases s with
  | updateCall id u =>
    by_cases hid : c = id
    · subst hid
      cases hrow : w.calls.get c with
      | none => exact .same (by simp [exec, World.call, Store.Table.get_updateWhere, hrow])
      | some row =>
        by_cases hg : u.guard row = true
        · exact .updated u row rfl hrow hg
            (by simp [exec, World.call, Store.Table.get_updateWhere, hrow, hg])
        · exact .same (by simp [exec, World.call, Store.Table.get_updateWhere, hrow, hg])
    · exact .same (by simp [exec, World.call, Store.Table.get_updateWhere, hid])
  | createCall row =>
    simp only [exec]
    split
    · exact .same rfl
    · by_cases hid : c = w.calls.nextId
      · subst hid
        exact .created row rfl (Store.Table.get_nextId _) (by simp [World.call])
      · exact .same (by simp [World.call, hid])
  | fillQueueDuration id =>
    by_cases hid : c = id
    · subst hid
      cases hrow : w.calls.get c with
      | none => exact .same (by simp [exec, World.call, hrow])
      | some row => exact .filled row _ rfl hrow (by simp [exec, World.call, hrow]; rfl)
    · exact .same (by simp [exec, World.call, hid])
  | claimAgentAndAssignCall agentId id anyShift =>
    simp only [exec, World.claimAgentAndAssignCall]
    split
    · rename_i ha
      split
      · rename_i hc
        by_cases hid : c = id
        · subst hid
          cases hrow : w.call c with
          | none => simp [hrow] at hc
          | some row =>
            rw [hrow] at hc
            refine .claimed agentId anyShift row rfl hrow hc ha ?_
            simp only [World.call] at hrow
            simp [World.call, hrow]
        · exact .same (by simp [World.call, hid])
      · exact .same rfl
    · exact .same rfl
  | record op => cases op <;> exact .same rfl
  | _ => exact .same rfl

/-- How statement `s` leaves the row of agent `a`. -/
inductive OnAgent (w : World) (a : Nat) (s : Stmt) (w' : World) : Prop
  | same (h : w'.agent a = w.agent a)
  | updated (u : AgentUpdate) (row : AgentRow) (hs : s = .updateAgent a u) (hrow : w.agent a = some row)
      (hg : u.guard w a row = true) (h : w'.agent a = some (u.set row))
  | claimed (callId : Nat) (anyShift : Bool) (row : AgentRow)
      (hs : s = .claimAgentAndAssignCall a callId anyShift) (hrow : w.agent a = some row)
      (ha : w.claimable a anyShift row = true) (hc : (w.call callId).any CallRow.assignable = true)
      (h : w'.agent a = some { row with busyCallId := some callId })

theorem onAgent (w : World) (a : Nat) (s : Stmt) : OnAgent w a s (s.exec w).1 := by
  cases s with
  | updateAgent id u =>
    by_cases hid : a = id
    · subst hid
      cases hrow : w.agents.get a with
      | none => exact .same (by simp [exec, World.agent, Store.Table.get_updateWhere, hrow])
      | some row =>
        by_cases hg : u.guard w a row = true
        · exact .updated u row rfl hrow hg
            (by simp [exec, World.agent, Store.Table.get_updateWhere, hrow, hg])
        · exact .same (by simp [exec, World.agent, Store.Table.get_updateWhere, hrow, hg])
    · exact .same (by simp [exec, World.agent, Store.Table.get_updateWhere, hid])
  | createCall row =>
    simp only [exec]
    split <;> exact .same rfl
  | claimAgentAndAssignCall id callId anyShift =>
    simp only [exec, World.claimAgentAndAssignCall]
    split
    · rename_i ha
      split
      · rename_i hc
        by_cases hid : a = id
        · subst hid
          cases hrow : w.agent a with
          | none => simp [hrow] at ha
          | some row =>
            rw [hrow] at ha
            refine .claimed callId anyShift row rfl hrow ha hc ?_
            simp only [World.agent] at hrow
            simp [World.agent, hrow]
        · exact .same (by simp [World.agent, hid])
      · exact .same rfl
    · exact .same rfl
  | record op => cases op <;> exact .same rfl
  | _ => exact .same rfl

theorem exec_providerLog (s : Stmt) (w : World) :
    (s.exec w).1.providerLog = w.providerLog ∨
      ∃ c action, s = .provider c action ∧ (s.exec w).1.providerLog = (c, action) :: w.providerLog := by
  cases s with
  | provider c action => exact .inr ⟨c, action, rfl, rfl⟩
  | createCall row =>
    simp only [exec]
    split <;> exact .inl rfl
  | claimAgentAndAssignCall a c anyShift =>
    simp only [exec, World.claimAgentAndAssignCall]
    repeat' split
    all_goals exact .inl rfl
  | record op => cases op <;> exact .inl rfl
  | _ => exact .inl rfl

/-- No statement changes the queues. -/
theorem exec_queues (s : Stmt) (w : World) : (s.exec w).1.queues = w.queues := by
  cases s with
  | createCall row =>
    simp only [exec]
    split <;> rfl
  | claimAgentAndAssignCall a c anyShift =>
    simp only [exec, World.claimAgentAndAssignCall]
    repeat' split
    all_goals rfl
  | record op => cases op <;> rfl
  | _ => rfl

/-- Nor the IVR flows. -/
theorem exec_flows (s : Stmt) (w : World) : (s.exec w).1.flows = w.flows := by
  cases s with
  | createCall row =>
    simp only [exec]
    split <;> rfl
  | claimAgentAndAssignCall a c anyShift =>
    simp only [exec, World.claimAgentAndAssignCall]
    repeat' split
    all_goals rfl
  | record op => cases op <;> rfl
  | _ => rfl

/-- Time passes only while a handler waits. -/
theorem exec_now (s : Stmt) (w : World) :
    (s.exec w).1.now = w.now ∨ ∃ ms, s = .wait ms ∧ (s.exec w).1.now = w.now + ms := by
  cases s with
  | wait ms => exact .inr ⟨ms, rfl, rfl⟩
  | createCall row =>
    simp only [exec]
    split <;> exact .inl rfl
  | claimAgentAndAssignCall a c anyShift =>
    simp only [exec, World.claimAgentAndAssignCall]
    repeat' split
    all_goals exact .inl rfl
  | record op => cases op <;> exact .inl rfl
  | _ => exact .inl rfl

theorem le_exec_now (s : Stmt) (w : World) : w.now ≤ (s.exec w).1.now := by
  rcases exec_now s w with h | ⟨ms, _, h⟩ <;> omega

/-- Only a miss counted and a reset change an agent's streak. -/
inductive OnStreak (w : World) (a : Nat) (s : Stmt) (w' : World) : Prop
  | counted (hs : s = .incrementMissed a) (h : w'.missedStreak a = w.missedStreak a + 1)
  | reset (hs : s = .record (.resetMissedStreak a)) (h : w'.missedStreak a = 0)
  | same (hc : s ≠ .incrementMissed a) (hr : s ≠ .record (.resetMissedStreak a))
      (h : w'.missedStreak a = w.missedStreak a)

theorem onStreak (w : World) (a : Nat) (s : Stmt) : OnStreak w a s (s.exec w).1 := by
  cases s with
  | incrementMissed b =>
    by_cases hb : a = b
    · subst hb
      exact .counted rfl (by simp [exec])
    · exact .same (by simpa using Ne.symm hb) nofun (by simp [exec, hb])
  | record op =>
    cases op with
    | resetMissedStreak b =>
      by_cases hb : a = b
      · subst hb
        exact .reset rfl (by simp [exec, RecordOp.run])
      · exact .same nofun (by simpa using Ne.symm hb) (by simp [exec, RecordOp.run, hb])
    | _ => exact .same nofun nofun rfl
  | createCall row =>
    refine .same nofun nofun ?_
    simp only [exec]
    split <;> rfl
  | claimAgentAndAssignCall b c anyShift =>
    refine .same nofun nofun ?_
    simp only [exec, World.claimAgentAndAssignCall]
    repeat' split
    all_goals rfl
  | _ => exact .same nofun nofun rfl

/-! ## Answers -/

/-- A read, once answered, was answered from the world it was made in. -/
theorem answer_of_read {s : Stmt} {w : World} {q : Query} {r : q.Res}
    (h : (⟨s, (s.exec w).2⟩ : Sigma Stmt.Res) = ⟨.query q, r⟩) : s = .query q ∧ r = q.answer w := by
  obtain rfl : s = .query q := congrArg Sigma.fst h
  exact ⟨rfl, (eq_of_heq (Sigma.mk.inj h).2).symm⟩

theorem exec_updateCall {w : World} {c : Nat} {u : CallUpdate} {row : CallRow}
    (hrow : w.call c = some row) (hg : u.guard row = true) :
    ((Stmt.updateCall c u).exec w).1.call c = some (u.set w.now row) := by
  simp only [World.call] at hrow ⊢
  simp [exec, Store.Table.get_updateWhere, hrow, hg]

/-- A won update of a call found its row, and left it set. -/
theorem row_of_won {s : Stmt} {w : World} {c : Nat} {u : CallUpdate}
    (h : (⟨s, (s.exec w).2⟩ : Sigma Stmt.Res) = ⟨.updateCall c u, true⟩) :
    s = .updateCall c u ∧ ∃ row, w.call c = some row ∧ u.guard row = true ∧
      (s.exec w).1.call c = some (u.set w.now row) := by
  obtain rfl : s = .updateCall c u := congrArg Sigma.fst h
  have hwon : ((Stmt.updateCall c u).exec w).2 = true := eq_of_heq (Sigma.mk.inj h).2
  obtain ⟨row, hrow, hg⟩ := (Store.Table.updateWhere_snd ..).mp hwon
  exact ⟨rfl, row, hrow, hg, exec_updateCall hrow hg⟩

/-- A won update of an agent found their row, and left it set. -/
theorem agent_of_won {s : Stmt} {w : World} {a : Nat} {u : AgentUpdate}
    (h : (⟨s, (s.exec w).2⟩ : Sigma Stmt.Res) = ⟨.updateAgent a u, true⟩) :
    s = .updateAgent a u ∧ ∃ row, w.agent a = some row ∧ u.guard w a row = true ∧
      (s.exec w).1.agent a = some (u.set row) := by
  obtain rfl : s = .updateAgent a u := congrArg Sigma.fst h
  have hwon : ((Stmt.updateAgent a u).exec w).2 = true := eq_of_heq (Sigma.mk.inj h).2
  obtain ⟨row, hrow, hg⟩ := (Store.Table.updateWhere_snd ..).mp hwon
  refine ⟨rfl, row, hrow, hg, ?_⟩
  simp [exec, World.agent, Store.Table.get_updateWhere, hrow, hg]

/-- A create that finds the provider call id taken changes nothing. -/
theorem exec_createCall_of_taken {w : World} {row : CallRow} (h : w.taken row = true) :
    (createCall row).exec w = (w, none) := if_pos h

theorem exec_createCall_of_free {w : World} {row : CallRow} (h : w.taken row = false) :
    (createCall row).exec w =
      ({ w with calls := w.calls.insert fun _ => row.inserted w.now },
        some w.calls.nextId) := if_neg (by simpa [World.taken] using h)

/-- A guarded update of a call says whether it matched. -/
theorem exec_updateCall_snd (w : World) (c : Nat) (u : CallUpdate) :
    ((Stmt.updateCall c u).exec w).2 = true ↔ ∃ row, w.call c = some row ∧ u.guard row = true :=
  Store.Table.updateWhere_snd ..

theorem exec_updateAgent_snd (w : World) (a : Nat) (u : AgentUpdate) :
    ((Stmt.updateAgent a u).exec w).2 = true ↔ ∃ row, w.agent a = some row ∧ u.guard w a row = true :=
  Store.Table.updateWhere_snd ..

end Stmt

end Callio
