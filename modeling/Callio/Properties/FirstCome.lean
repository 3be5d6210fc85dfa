import Callio.Conduct.Routing
import Callio.Core.Handlers
import Callio.Persistence.Effects
import Mathlib.Data.Fintype.Basic

/-! First come, first served. `claimForNewCall` reads that no older call waits
in the queue, and claims an agent for the new one some statements later. It
never passes over an older call as long as none comes to wait in between. -/

namespace Callio

open Concurrency Code

/-- A regular call waits unassigned in queue `q`. -/
def World.waitsIn (w : World) (q c : Nat) : Bool :=
  (w.call c).any fun row => row.queueId = some q && row.unassignedRegular

theorem waitsIn_eq_false_of_guard {w : World} {q c d : Nat}
    (h : (Query.hasUnassignedCalls q c).answer w = false) (hd : d < c) : w.waitsIn q d = false := by
  have hempty : (w.selectCalls fun call => call.queueId = some q && call.id < c &&
      call.unassignedRegular) = [] := by
    simpa [Query.answer] using h
  rw [World.waitsIn, ← Bool.not_eq_true, Option.any_eq_true]
  rintro ⟨row, hrow, hwaits⟩
  simp only [Bool.and_eq_true, decide_eq_true_eq] at hwaits
  have hmem : ({ row with id := d } : Call) ∈ w.selectCalls fun call =>
      call.queueId = some q && call.id < c && call.unassignedRegular :=
    World.mem_selectCalls.mpr ⟨hrow, by simp [hwaits.1, hd, hwaits.2]⟩
  rw [hempty] at hmem
  cases hmem

namespace FirstCome

/-- Where a handler is in `claimForNewCall`. -/
inductive Phase
  | outside
  /-- It has read that no call older than `callId` waits in the queue. -/
  | cleared (queueId callId : Nat)
  deriving DecidableEq

/-- Past the guard the members are read and ordered, and claimed until one is
the call's. -/
def next : Phase → (s : Stmt) → s.Res → Phase
  | _, .query (.hasUnassignedCalls q c), older => if older then .outside else .cleared q c
  | .cleared q c, .query (.getMembers _), _ | .cleared q c, .reconcileQueueOrder _ _, _ => .cleared q c
  | .cleared q c, .claimAgentAndAssignCall _ _ _, claim => if claim.assigned then .outside else .cleared q c
  | _, _, _ => .outside

/-- `claimForNewCall` claims past its guard only, and only for its call. -/
def guarded (queueId callId : Nat) : Protocol Stmt.Res where
  Phase := Phase
  next := next
  allows p s := ∀ a c anyShift, s = .claimAgentAndAssignCall a c anyShift →
    p = .cleared queueId callId ∧ c = callId

theorem claimInOrder_follows (q c : Nat) (candidates : List Agent) :
    (claimInOrder (fun a => .cmd (Stmt.claimAgentAndAssignCall a c false)) candidates).Follows
      (guarded q c) (.cleared q c) fun _ _ => True := by
  induction candidates with
  | nil => trivial
  | cons a rest ih =>
    refine (Prog.follows_cmd_bind _ _ _ _).mpr ⟨?_, fun claim => ?_⟩
    · rintro _ _ _ ⟨⟩
      exact ⟨rfl, rfl⟩
    · by_cases hwon : claim.assigned = true
      · rw [if_pos hwon]
        trivial
      · have hkept : next (.cleared q c) (.claimAgentAndAssignCall a.id c false) claim = .cleared q c :=
          if_neg hwon
        rw [if_neg hwon]
        exact Prog.Follows.bind (hkept ▸ ih) fun _ _ _ => trivial

theorem claimForNewCall_follows (queue : Queue) (c : Nat) :
    (QueueRouter.claimForNewCall queue c).Follows (guarded queue.id c) .outside fun _ _ => True := by
  unfold QueueRouter.claimForNewCall
  split
  · trivial
  refine (Prog.follows_cmd_bind _ _ _ _).mpr ⟨nofun, fun older => ?_⟩
  cases older with
  | true => trivial
  | false =>
    refine (Prog.follows_cmd_bind _ _ _ _).mpr ⟨nofun, fun members => ?_⟩
    have hordered : (QueueRouter.ordered queue queue.strategy members).Follows (guarded queue.id c)
        (.cleared queue.id c) fun _ p => p = .cleared queue.id c := by
      refine QueueRouter.ordered_stays (P := guarded queue.id c) (Q := (· = Phase.cleared queue.id c))
        ?_ _ rfl
      rintro _ rfl
      exact ⟨nofun, fun _ => rfl⟩
    have hclaims := hordered.bind fun candidates p hp => hp ▸ claimInOrder_follows queue.id c candidates
    exact hclaims.bind fun _ _ _ => trivial

/-! ## Alone -/

theorem next_cleared {p : Phase} {s : Stmt} {r : s.Res} {q c : Nat} (h : next p s r = .cleared q c) :
    p = .cleared q c ∨ (⟨s, r⟩ : Sigma Stmt.Res) = ⟨.query (.hasUnassignedCalls q c), false⟩ := by
  unfold next at h
  split at h
  · split at h
    · cases h
    · rename_i older hguard
      cases h
      rw [Bool.not_eq_true] at hguard
      exact .inr (hguard ▸ rfl)
  · exact .inl h
  · exact .inl h
  · split at h
    · cases h
    · exact .inl h
  · cases h

/-- The statement wins an agent for call `c`. -/
def wins (w : World) (c : Nat) : Stmt → Bool
  | .claimAgentAndAssignCall a d anyShift => d = c && (w.claimAgentAndAssignCall a d anyShift).2.assigned
  | _ => false

/-- A statement that leaves the guard standing leaves the calls as they are. -/
theorem call_of_next_cleared {p : Phase} {s : Stmt} {w : World} {q c : Nat}
    (h : next p s (s.exec w).2 = .cleared q c) (d : Nat) : (s.exec w).1.call d = w.call d := by
  cases s with
  | claimAgentAndAssignCall a e anyShift =>
    have hlost : (w.claimAgentAndAssignCall a e anyShift).2.assigned ≠ true := by
      intro hwon
      cases p with
      | outside => cases h
      | cleared q' c' =>
        have hgone : next (.cleared q' c') (.claimAgentAndAssignCall a e anyShift)
            (w.claimAgentAndAssignCall a e anyShift).2 = .outside := if_pos hwon
        cases hgone.symm.trans h
    simp only [Stmt.exec, World.claimAgentAndAssignCall] at hlost ⊢
    split
    · split
      · rename_i hclaimed hassigned
        rw [if_pos hclaimed, if_pos hassigned] at hlost
        exact absurd rfl hlost
      · rfl
    · rfl
  | query _ | reconcileQueueOrder _ _ => rfl
  | _ => cases p <;> cases h

/-- What the guard read is so still. -/
def Standing (w : World) (p : Phase) : Prop := ∀ q c, p = .cleared q c → ∀ d < c, w.waitsIn q d = false

/-- Alone, `claimForNewCall` wins an agent for its own call only, and none while an
older call waits. -/
theorem claimForNewCall_alone (queue : Queue) (c : Nat) (w : World) :
    ∀ e ∈ (QueueRouter.claimForNewCall queue c).issued Stmt.exec w, ∀ d, wins e.1 d e.2 = true →
      d = c ∧ ∀ older < c, e.1.waitsIn queue.id older = false := by
  have hstep : ∀ w p s, Standing w p → (guarded queue.id c).allows p s →
      Standing (s.exec w).1 (next p s (s.exec w).2) := by
    intro w p s hstanding _ q d hp older hlt
    rw [World.waitsIn, call_of_next_cleared hp older, ← World.waitsIn]
    rcases next_cleared hp with hp | hread
    · exact hstanding q d hp older hlt
    · obtain ⟨rfl, hanswer⟩ := Stmt.answer_of_read hread
      exact waitsIn_eq_false_of_guard hanswer.symm hlt
  have hissued := (claimForNewCall_follows queue c).of_issued hstep (s := w) nofun
  rintro ⟨w, s⟩ he d hwins
  obtain ⟨p, hstanding, hallows⟩ := hissued _ he
  cases s with
  | claimAgentAndAssignCall a e anyShift =>
    obtain ⟨hp, rfl⟩ := hallows a e anyShift rfl
    simp only [wins, Bool.and_eq_true, decide_eq_true_eq] at hwins
    exact ⟨hwins.1.symm, hstanding queue.id e hp⟩
  | _ => cases hwins

/-! ## Runs -/

/-- Any statement, in any phase. -/
abbrev protocol : Protocol Stmt.Res := ⟨Phase, next, fun _ _ => True⟩

theorem follows {α : Type} (m : Code α) (p : Phase) : m.Follows protocol p fun _ _ => True := by
  induction m generalizing p with
  | ret a => trivial
  | call s k ih => exact ⟨trivial, fun r => ih r _⟩

/-- No call older than `c` comes to wait in queue `q` as `w` becomes `w'`. -/
def World.noneJoins (w w' : World) (q c : Nat) : Bool :=
  (List.range c).all fun d => w.waitsIn q d || !w'.waitsIn q d

section runs

variable {ι : Type}

abbrev phases (s : Service ι) : ι → Phase := protocol.phases (fun _ => .outside) s

/-- The move is `claimForNewCall`'s for call `c` of queue `q`, and wins an agent. -/
def Assigns (s : Service ι) (i : ι) (q c : Nat) : Prop :=
  phases s i = .cleared q c ∧ (s.next i).any (wins s.state c) = true

instance (s : Service ι) (i : ι) (q c : Nat) : Decidable (Assigns s i q c) :=
  inferInstanceAs (Decidable (_ ∧ _))

/-- The move lets no older call come to wait past the guard of a new one. -/
def Phase.keptBy (w w' : World) : Phase → Bool
  | outside => true
  | cleared q c => World.noneJoins w w' q c

variable [DecidableEq ι]

def Sound (s : Service ι) (i : ι) : Prop :=
  ∀ j, (phases s j).keptBy s.state (Concurrency.step Stmt.exec s i).state = true

instance [Fintype ι] (s : Service ι) (i : ι) : Decidable (Sound s i) :=
  inferInstanceAs (Decidable (∀ _, _))

/-- What a guard read stays true. -/
def Cleared (w : World) (ph : ι → Phase) : Prop := ∀ j, Standing w (ph j)

theorem Cleared.step {s : Service ι} {i : ι} {stmt : Stmt} {k : stmt.Res → Code Unit}
    (hp : (s.threads i).prog = .call stmt k) (hok : Sound s i) (h : Cleared s.state (phases s)) :
    Cleared (stmt.exec s.state).1 (Function.update (phases s) i
      (next (phases s i) stmt (stmt.exec s.state).2)) := by
  have hkeep : ∀ j q c, phases s j = .cleared q c → ∀ d < c,
      (stmt.exec s.state).1.waitsIn q d = false := by
    intro j q c hj d hd
    have hkept := hok j
    rw [hj, step_call Stmt.exec hp] at hkept
    have hnone := List.all_eq_true.mp hkept d (List.mem_range.mpr hd)
    simpa [h j q c hj d hd] using hnone
  intro j q c hj d hd
  by_cases hji : j = i
  · subst hji
    rw [Function.update_self] at hj
    rcases next_cleared hj with hj | hread
    · exact hkeep j q c hj d hd
    · obtain ⟨rfl, hanswer⟩ := Stmt.answer_of_read hread
      exact waitsIn_eq_false_of_guard hanswer.symm hd
  · rw [Function.update_of_ne hji] at hj
    exact hkeep j q c hj d hd

end runs

/-! ## A call declined past the guard of a new one -/

def line : Line := { id := 1, inboundQueueId := some 1 }

def offeredCall : CallRow :=
  { direction := .inbound, status := .ringing, agentId := some 1, queueId := some 1,
    ringingAt := some 0, queuedAt := some 0, offeredAt := some 0 }

/-- Call 1 is offered to agent 1; agent 2 is free. -/
def offered : World :=
  { calls := .ofList [fun _ => offeredCall],
    agents := .ofList [fun _ => { busyCallId := some 1 }, fun _ => {}],
    queues := fun q => if q = 1 then some {} else none, members := fun _ => [1, 2] }

def arrivalAndDecline : Fin 2 → Handler
  | 0 => .inboundCall line { providerCallId := 7 } {}
  | 1 => .callRejected 1 1

end FirstCome

end Callio
