import Callio.Concurrency.Exclusion
import Callio.Conduct.Agents
import Callio.Core.Handlers
import Callio.Persistence.Effects
import Mathlib.Data.Fintype.Option

/-! An agent's accept against the offer being taken back. Each is two
statements: the accept claims the call and then holds its agent; a withdrawal
takes the call away and then releases them. The lock is right in the end if
the release never comes after the hold, and the hold finds the agent free. -/

namespace Callio

open Concurrency Code

/-- The agent is held by the call exactly if the call is theirs. -/
def World.LockRight (w : World) (agentId callId : Nat) : Prop :=
  w.isOwnCall agentId callId = true ↔ w.busy agentId = some callId

instance (w : World) (agentId callId : Nat) : Decidable (w.LockRight agentId callId) :=
  inferInstanceAs (Decidable (_ ↔ _))

namespace OfferWithdrawal

/-- What takes an offer back, each from a row read before: a decline or an
offer that rang out, an overflow, and a handover nobody answered. -/
inductive TakeBack
  | passOffer (call : Call) (agentId : Nat) (kind : OfferHistory.Kind) (expiredBefore : Option Nat)
  | overflowWaiting (call : Call) (queueId toQueueId : Nat)
  | returnHandover (call : Call) (agentId offeredAt : Nat)

def TakeBack.code : TakeBack → Code Unit
  | passOffer call agentId kind expiredBefore => do
    let _ ← Callio.passOffer call agentId kind expiredBefore
  | overflowWaiting call queueId toQueueId => Callio.overflowWaiting call queueId toQueueId
  | returnHandover call agentId offeredAt => Callio.returnHandover call agentId offeredAt

/-- How far a taker or the accept is. -/
inductive Phase
  | idle
  /-- The call was taken from the agent, who is not released yet. -/
  | owes
  /-- The accept has claimed nothing. -/
  | free
  /-- The call is claimed; the agent is held next. -/
  | claimed
  /-- The row, when last read, named this agent. -/
  | held (known : Nat)
  /-- The accept ended the call, and releases this agent. -/
  | settling (known : Nat)
  /-- The call has ended. -/
  | past
  deriving DecidableEq

namespace Phase

def accepting : Phase → Bool
  | idle | owes => false
  | _ => true

/-- The accept has claimed the call, which is not over. -/
def answers : Phase → Bool
  | claimed | held _ => true
  | _ => false

/-- The agent is held next. -/
def claims : Phase → Bool
  | claimed => true
  | _ => false

/-- A taker is to release the agent. -/
def owing : Phase → Bool
  | owes => true
  | _ => false

/-- The agent is to be released. -/
def releases : Phase → Bool
  | owes | settling _ => true
  | _ => false

def ended : Phase → Bool
  | past | settling _ => true
  | _ => false

def known : Phase → Option Nat
  | held k | settling k => some k
  | _ => none

def Rests (q : Phase) : Prop := q = .free ∨ q = .past ∨ ∃ known, q = .held known

/-- Nothing is left to be held or released. -/
def Settled (q : Phase) : Prop := q = .idle ∨ q.Rests

end Phase

variable (a : Accept)

def next : Phase → (s : Stmt) → s.Res → Phase
  | .idle, .updateCall c (.withdrawOffer b _), won =>
      if c = a.callId ∧ b = a.userId ∧ won = true then .owes else .idle
  | .idle, .updateCall c (.overflowToQueue _ _ offered), won =>
      if c = a.callId ∧ offered = some a.userId ∧ won = true then .owes else .idle
  | .owes, .updateAgent b (.releaseFromCall c), _ =>
      if b = a.userId ∧ c = a.callId then .idle else .owes
  | .free, .updateCall c (.assignCallToAgentIfEligible _), won =>
      if c = a.callId ∧ won = true then .claimed else .free
  | .free, .updateCall c (.claimHandover _), won =>
      if c = a.callId ∧ won = true then .held a.userId else .free
  | .claimed, .updateAgent b (.holdForOwnCall _), _ => if b = a.userId then .held a.userId else .claimed
  | .free, .query (.findById c), call =>
      if c = a.callId ∧ call.any (fun call => call.ended) then .past else .free
  | .held known, .query (.findById c), some call =>
      if c = a.callId then
        if call.id ≠ a.callId ∨ call.ended = true then .past else .held (call.agentId.getD a.userId)
      else .held known
  | .held known, .updateCall c (.markCallFailedIfNotFinal _ _), won =>
      if c = a.callId ∧ won = true then .settling known else .held known
  | .settling known, .updateAgent b (.releaseFromCall c), _ =>
      if b = known ∧ c = a.callId then .past else .settling known
  | q, _, _ => q

/-- What a taker and the accept do to the accept's call and agent. -/
def allows (q : Phase) : Stmt → Prop
  | .updateCall c u => c = a.callId →
      match u with
      | .assignCallToAgentIfEligible b => b = a.userId ∧ q.Rests
      | .claimHandover b => b = a.userId ∧ (q = .free ∨ q = .past)
      | .transitionStatus expected status => expected = .ringing ∧ status = .inProgress
      | .updateState _ | .updateTimestamp _ _ | .correctNoAnswerIfAnswered => True
      | .markCallFailedIfNotFinal _ _ => (∃ known, q = .held known) ∨ q = .past
      | .terminateCallIfNotTerminated _ _ _ _ => q = .past
      | .withdrawOffer _ _ | .overflowToQueue _ _ _ | .returnHandoverToQueue _ _ => q = .idle
      | _ => False
  | .updateAgent b (.claimAgentForCall _) => b ≠ a.userId
  | .updateAgent b (.holdForOwnCall c) => b = a.userId → c = a.callId ∧ (q = .claimed ∨ q = .past)
  | .updateAgent b (.releaseFromCall c) =>
      b = a.userId → c = a.callId → q = .owes ∨ q = .past ∨ ∃ known, q = .settling known
  | .createCall _ => False
  | _ => True

abbrev protocol : Protocol Stmt.Res := ⟨Phase, next a, allows a⟩

/-! ## The call and its agent -/

/-- The accept's claim stands: nobody can take the call back. -/
def Answering (w : World) : Prop :=
  ∃ row, w.call a.callId = some row ∧ row.agentId = some a.userId ∧ row.offeredAt = none ∧
    row.status.active = true

def Over (w : World) : Prop := ∃ row, w.call a.callId = some row ∧ row.ended = true

variable {a}

theorem Answering.isOwnCall {w : World} (h : Answering a w) : w.isOwnCall a.userId a.callId = true := by
  obtain ⟨row, hrow, ha, _, hs⟩ := h
  simp [World.isOwnCall, hrow, ha, hs]

theorem Over.not_isOwnCall {w : World} (h : Over a w) : ¬ w.isOwnCall a.userId a.callId = true := by
  obtain ⟨row, hrow, he⟩ := h
  simp only [CallRow.ended, Bool.not_eq_true'] at he
  simp [World.isOwnCall, hrow, he]

theorem isOwnCall_iff {w : World} : w.isOwnCall a.userId a.callId = true ↔
    ∃ row, w.call a.callId = some row ∧ row.agentId = some a.userId ∧ row.status.active = true := by
  simp [World.isOwnCall, Option.any_eq_true]

/-- The step leaves the call as it was, as far as the lock is concerned. -/
structure Kept (a : Accept) (w w' : World) : Prop where
  own : w'.isOwnCall a.userId a.callId = true ↔ w.isOwnCall a.userId a.callId = true
  answering : Answering a w → Answering a w'
  past : Over a w → Over a w'

/-- The hold would find the agent held by the call already, or free for it. -/
def HoldsWell (a : Accept) (w : World) : Prop :=
  (w.agent a.userId).any (fun row => row.busyCallId = some a.callId ||
    (AgentUpdate.holdForOwnCall a.callId).guard w a.userId row) = true

instance (w : World) : Decidable (HoldsWell a w) := inferInstanceAs (Decidable (_ = true))

/-- How a phase changes beside a call and an agent that stay as they are. -/
inductive Drifts (a : Accept) (w w' : World) : Phase → Phase → Prop
  | same (q : Phase) : Drifts a w w' q q
  | foundOver {q : Phase} (hq : q.Rests) (h : Over a w) : Drifts a w w' q .past
  | found {known known' : Nat} (h : Answering a w → known' = a.userId) :
      Drifts a w w' (.held known) (.held known')
  | takesOver (h : Answering a w') : Drifts a w w' .free (.held a.userId)
  | releasesAnother {known : Nat} {q : Phase} (h : known ≠ a.userId) : Drifts a w w' (.settling known) q

/-- What one statement does to the call, its agent's lock and the phase. -/
inductive Moves (a : Accept) (w w' : World) (s : Stmt) : Phase → Phase → Prop
  | quiet {q q' : Phase} (hc : Kept a w w')
      (hb : w'.busy a.userId = some a.callId ↔ w.busy a.userId = some a.callId)
      (hq : Drifts a w w' q q') : Moves a w w' s q q'
  | claims {q : Phase} (hq : q.Rests) (hover : ¬ Over a w) (hans : Answering a w')
      (hb : w'.busy a.userId = w.busy a.userId) :
      Moves a w w' s q (if q = .free then .claimed else q)
  | offers {q : Phase} (hb : w.busy a.userId = none) (hb' : w'.busy a.userId = some a.callId)
      (hown : ¬ w.isOwnCall a.userId a.callId = true) (hown' : w'.isOwnCall a.userId a.callId = true)
      (hover : ¬ Over a w) : Moves a w w' s q q
  | takes (hown : w.isOwnCall a.userId a.callId = true) (hans : ¬ Answering a w)
      (hown' : ¬ w'.isOwnCall a.userId a.callId = true) (hb : w'.busy a.userId = w.busy a.userId) :
      Moves a w w' s .idle .owes
  | ends {known : Nat} (hover : Over a w') (hb : w'.busy a.userId = w.busy a.userId) :
      Moves a w w' s (.held known) (.settling known)
  | holds (hs : s = .updateAgent a.userId (.holdForOwnCall a.callId)) (hc : Kept a w w')
      (hb : w'.busy a.userId = some a.callId →
        w.busy a.userId = some a.callId ∨ w.isOwnCall a.userId a.callId = true)
      (hb' : HoldsWell a w → w'.busy a.userId = some a.callId) :
      Moves a w w' s .claimed (.held a.userId)
  | releases {q q' : Phase} (hs : s = .updateAgent a.userId (.releaseFromCall a.callId))
      (hc : Kept a w w') (hb : w'.busy a.userId ≠ some a.callId)
      (hq : q = .owes ∧ q' = .idle ∨ q = .past ∧ q' = .past ∨
        ∃ known, q = .settling known ∧ (known = a.userId → q' = .past)) : Moves a w w' s q q'
  /-- What matches no call that is over. -/
  | never {q' : Phase} (h : ¬ Over a w) : Moves a w w' s .past q'

theorem Kept.of_call {w w' : World} (h : w'.call a.callId = w.call a.callId) : Kept a w w' where
  own := by simp [World.isOwnCall, h]
  answering := by simp [Answering, h]
  past := by simp [Over, h]

theorem Kept.of_row {w w' : World} {row row' : CallRow} (hrow : w.call a.callId = some row)
    (hrow' : w'.call a.callId = some row') (ha : row'.agentId = row.agentId)
    (hs : row'.status.active = row.status.active) (ho : row.offeredAt = none → row'.offeredAt = none) :
    Kept a w w' where
  own := by simp [World.isOwnCall, hrow, hrow', ha, hs]
  answering := by
    rintro ⟨_, hr, hans⟩
    cases hrow.symm.trans hr
    exact ⟨row', hrow', ha.trans hans.1, ho hans.2.1, hs.trans hans.2.2⟩
  past := by
    rintro ⟨_, hr, he⟩
    cases hrow.symm.trans hr
    refine ⟨row', hrow', ?_⟩
    rwa [CallRow.ended, hs]

theorem Moves.rest {w w' : World} {s : Stmt} {q q' : Phase} (hc : w'.call a.callId = w.call a.callId)
    (hb : w'.agent a.userId = w.agent a.userId) (hq : q' = q) : Moves a w w' s q q' :=
  .quiet (.of_call hc) (by simp [World.busy, hb]) (by rw [hq]; exact .same q)

theorem not_over_of_active {w : World} {row : CallRow} (hrow : w.call a.callId = some row)
    (hs : row.status.active = true) : ¬ Over a w := by
  rintro ⟨_, hr, he⟩
  cases hrow.symm.trans hr
  simp [CallRow.ended, hs] at he

/-- The statement that releases the agent from the call. -/
def Releases (a : Accept) : Stmt → Bool
  | .updateAgent b (.releaseFromCall c) => b = a.userId && c = a.callId
  | _ => false

def Holds (a : Accept) : Stmt → Bool
  | .updateAgent b (.holdForOwnCall c) => b = a.userId && c = a.callId
  | _ => false

theorem not_answering_of_offered {w : World} {row : CallRow} (hrow : w.call a.callId = some row)
    (ho : row.offeredAt.isSome = true) : ¬ Answering a w := by
  rintro ⟨_, hr, _, hn, _⟩
  cases hrow.symm.trans hr
  simp [hn] at ho

theorem Kept.of_not_own {w w' : World} (h : ¬ w.isOwnCall a.userId a.callId = true)
    (h' : ¬ w'.isOwnCall a.userId a.callId = true) (hover : ¬ Over a w) : Kept a w w' where
  own := ⟨fun ho => absurd ho h', fun ho => absurd ho h⟩
  answering ha := absurd ha.isOwnCall h
  past ho := absurd ho hover

theorem not_own_of_agent {w : World} {row : CallRow} (hrow : w.call a.callId = some row)
    (ha : row.agentId ≠ some a.userId) : ¬ w.isOwnCall a.userId a.callId = true := by
  simp [World.isOwnCall, hrow, ha]

/-- A guarded update that matched the accept's call. -/
theorem moves_set {w w' : World} {q : Phase} {u : CallUpdate} {row : CallRow}
    (hal : allows a q (.updateCall a.callId u)) (hrow : w.call a.callId = some row)
    (hg : u.guard row = true) (hrow' : w'.call a.callId = some (u.set w.now row))
    (hb : w'.agent a.userId = w.agent a.userId) :
    Moves a w w' (.updateCall a.callId u) q (next a q (.updateCall a.callId u) true) := by
  have hbusy : w'.busy a.userId = w.busy a.userId := by simp [World.busy, hb]
  have hiff : w'.busy a.userId = some a.callId ↔ w.busy a.userId = some a.callId := by rw [hbusy]
  cases u with
  | assignCallToAgentIfEligible b =>
    obtain ⟨rfl, hq⟩ := hal rfl
    simp only [CallUpdate.guard, Bool.and_eq_true] at hg
    have hover := not_over_of_active hrow hg.1.1
    have hclaims := Moves.claims (s := .updateCall a.callId (.assignCallToAgentIfEligible a.userId)) hq
      hover ⟨_, hrow', rfl, rfl, hg.1.1⟩ hbusy
    rcases hq with rfl | rfl | ⟨known, rfl⟩
    · simpa [next] using hclaims
    · exact .never hover
    · exact hclaims
  | claimHandover b =>
    obtain ⟨rfl, hq⟩ := hal rfl
    simp only [CallUpdate.guard, Bool.and_eq_true, decide_eq_true_eq] at hg
    have hactive : row.status.active = true := by rw [hg.2]; rfl
    rcases hq with rfl | rfl
    · refine .quiet (.of_row hrow hrow' rfl rfl fun _ => rfl) hiff ?_
      simp only [next, and_self, if_true]
      exact .takesOver ⟨_, hrow', hg.1, rfl, hactive⟩
    · exact .never (not_over_of_active hrow hactive)
  | transitionStatus expected status =>
    obtain ⟨rfl, rfl⟩ := hal rfl
    have hs : row.status = .ringing := by simpa [CallUpdate.guard] using hg
    have hsame : next a q (.updateCall a.callId (.transitionStatus .ringing .inProgress)) true = q := by
      cases q <;> rfl
    rw [hsame]
    exact .quiet (.of_row hrow hrow' rfl (by rw [hs]; rfl) id) hiff (.same q)
  | updateTimestamp field value =>
    have hsame : next a q (.updateCall a.callId (.updateTimestamp field value)) true = q := by
      cases q <;> rfl
    rw [hsame]
    cases field <;> exact .quiet (.of_row hrow hrow' rfl rfl id) hiff (.same q)
  | updateState state =>
    have hsame : next a q (.updateCall a.callId (.updateState state)) true = q := by cases q <;> rfl
    rw [hsame]
    exact .quiet (.of_row hrow hrow' rfl rfl id) hiff (.same q)
  | correctNoAnswerIfAnswered =>
    have hsame : next a q (.updateCall a.callId .correctNoAnswerIfAnswered) true = q := by
      cases q <;> rfl
    rw [hsame]
    exact .quiet (.of_row hrow hrow' rfl rfl id) hiff (.same q)
  | markCallFailedIfNotFinal reason who =>
    rcases hal rfl with ⟨known, rfl⟩ | rfl
    · simp only [next, and_self, if_true]
      exact .ends ⟨_, hrow', rfl⟩ hbusy
    · exact .never (not_over_of_active hrow (by simpa [CallUpdate.guard, CallRow.ended] using hg))
  | terminateCallIfNotTerminated reason who endedAt requireStatus =>
    obtain rfl : q = .past := hal rfl
    simp only [CallUpdate.guard, CallRow.ended, Bool.not_not, Bool.and_eq_true] at hg
    exact .never (not_over_of_active hrow hg.1)
  | withdrawOffer b expiredBefore =>
    obtain rfl : q = .idle := hal rfl
    simp only [CallUpdate.guard, Bool.and_eq_true, decide_eq_true_eq] at hg
    obtain ⟨⟨⟨⟨hb', hs⟩, _⟩, ho⟩, _⟩ := hg
    have hactive : row.status.active = true := by rw [hs]; rfl
    have hgone := not_own_of_agent (a := a) hrow' nofun
    by_cases hX : b = a.userId
    · subst hX
      simp only [next, and_self, if_true]
      exact .takes (isOwnCall_iff.mpr ⟨row, hrow, hb', hactive⟩) (not_answering_of_offered hrow ho) hgone hbusy
    · have hnot := not_own_of_agent (a := a) hrow (by rw [hb']; simpa using hX)
      simp only [next, hX, false_and, and_false, if_false]
      exact .quiet (.of_not_own hnot hgone (not_over_of_active hrow hactive)) hiff (.same _)
  | overflowToQueue source target offered =>
    obtain rfl : q = .idle := hal rfl
    simp only [CallUpdate.guard, Bool.and_eq_true, Bool.or_eq_true, decide_eq_true_eq] at hg
    obtain ⟨⟨⟨⟨_, hs⟩, _⟩, hb'⟩, ho⟩ := hg
    have hactive : row.status.active = true := by rw [hs]; rfl
    have hgone := not_own_of_agent (a := a) hrow' nofun
    by_cases hX : offered = some a.userId
    · subst hX
      have ho : row.offeredAt.isSome = true := ho.resolve_left (by simp [hb'])
      simp only [next, and_self, if_true]
      exact .takes (isOwnCall_iff.mpr ⟨row, hrow, hb', hactive⟩) (not_answering_of_offered hrow ho) hgone hbusy
    · have hnot := not_own_of_agent (a := a) hrow (by rwa [hb'])
      simp only [next, hX, false_and, and_false, if_false]
      exact .quiet (.of_not_own hnot hgone (not_over_of_active hrow hactive)) hiff (.same _)
  | returnHandoverToQueue b t =>
    obtain rfl : q = .idle := hal rfl
    simp only [CallUpdate.guard, Bool.and_eq_true, decide_eq_true_eq] at hg
    exact .quiet (.of_row hrow hrow' rfl (by rw [hg.1.2]; rfl) id) hiff (.same _)
  | _ => exact (hal rfl).elim

theorem next_lost (q : Phase) (c : Nat) (u : CallUpdate) : next a q (.updateCall c u) false = q := by
  unfold next
  split <;> simp_all

theorem next_elsewhere (q : Phase) {c : Nat} (u : CallUpdate) (r : Bool) (hc : c ≠ a.callId) :
    next a q (.updateCall c u) r = q := by
  unfold next
  split <;> simp_all

theorem moves_updateCall {w : World} {q : Phase} {c : Nat} {u : CallUpdate}
    (hal : allows a q (.updateCall c u)) :
    Moves a w ((Stmt.updateCall c u).exec w).1 (.updateCall c u) q
      (next a q (.updateCall c u) ((Stmt.updateCall c u).exec w).2) := by
  by_cases hc : c = a.callId
  · subst hc
    by_cases hwon : ((Stmt.updateCall a.callId u).exec w).2 = true
    · obtain ⟨row, hrow, hg⟩ := (Stmt.exec_updateCall_snd ..).mp hwon
      rw [hwon]
      exact moves_set hal hrow hg (Stmt.exec_updateCall hrow hg) rfl
    · rw [Bool.not_eq_true] at hwon
      refine .rest ?_ rfl (by rw [hwon, next_lost])
      rcases Stmt.onCall w a.callId (.updateCall a.callId u) with hsame | ⟨_, row, hs, hrow, hg, _⟩ |
        ⟨_, hs, _⟩ | ⟨_, _, hs, _⟩ | ⟨_, _, _, hs, _⟩
      · exact hsame
      · cases hs
        rw [(Stmt.exec_updateCall_snd ..).mpr ⟨row, hrow, hg⟩] at hwon
        cases hwon
      all_goals cases hs
  · refine .rest ?_ rfl (next_elsewhere q u _ hc)
    rcases Stmt.onCall w a.callId (.updateCall c u) with hsame | ⟨_, _, hs, _⟩ | ⟨_, hs, _⟩ |
      ⟨_, _, hs, _⟩ | ⟨_, _, _, hs, _⟩
    · exact hsame
    all_goals
      cases hs
      try exact absurd rfl hc

theorem moves_query {w : World} {q : Phase} (qq : Query) :
    Moves a w w (.query qq) q (next a q (.query qq) (qq.answer w)) := by
  refine .quiet (.of_call rfl) Iff.rfl ?_
  cases qq with
  | findById c =>
    cases hcall : w.findCall c with
    | none =>
      have hsame : next a q (.query (.findById c)) none = q := by cases q <;> simp [next]
      rw [show (Query.findById c).answer w = none from hcall, hsame]
      exact .same q
    | some call =>
      rw [show (Query.findById c).answer w = some call from hcall]
      obtain ⟨row, hrow, rfl⟩ := Option.map_eq_some_iff.mp hcall
      cases q with
      | free =>
        simp only [next, Option.any_some]
        split
        · rename_i h
          obtain ⟨rfl, he⟩ := h
          exact .foundOver (.inl rfl) ⟨row, hrow, he⟩
        · exact .same _
      | held known =>
        simp only [next]
        split
        · rename_i hc
          subst hc
          split
          · rename_i he
            exact .foundOver (.inr (.inr ⟨known, rfl⟩)) ⟨row, hrow, he.resolve_left (absurd rfl)⟩
          · refine .found fun hans => ?_
            obtain ⟨_, hr, ha, _⟩ := hans
            cases hrow.symm.trans hr
            simp [ha]
        · exact .same _
      | _ => exact .same _
  | _ => cases q <;> exact .same _

theorem busy_exec (w : World) (s : Stmt) :
    (s.exec w).1.busy a.userId = w.busy a.userId ∨
      (∃ u row, s = .updateAgent a.userId u ∧ w.agent a.userId = some row ∧ u.guard w a.userId row = true ∧
        (s.exec w).1.busy a.userId = (u.set row).busyCallId) ∨
      (∃ c anyShift, s = .claimAgentAndAssignCall a.userId c anyShift ∧ w.busy a.userId = none ∧
        ¬ w.hasActiveCall a.userId none = true ∧ (w.call c).any CallRow.assignable = true ∧
        (s.exec w).1.busy a.userId = some c) := by
  rcases Stmt.onAgent w a.userId s with hsame | ⟨u, row, hs, hrow, hg, hset⟩ |
    ⟨c, anyShift, row, hs, hrow, ha, hc, hset⟩
  · exact .inl (by simp [World.busy, hsame])
  · exact .inr (.inl ⟨u, row, hs, hrow, hg, by simp [World.busy, hset]⟩)
  · simp only [World.claimable, Bool.and_eq_true, Option.isNone_iff_eq_none, Bool.not_eq_true'] at ha
    refine .inr (.inr ⟨c, anyShift, hs, ?_, ?_, hc, by simp [World.busy, hset]⟩)
    · simp [World.busy, hrow, ha.1.1.1]
    · simp [ha.2]

theorem isOwnCall_of_hold {w : World} {row : AgentRow}
    (hg : (AgentUpdate.holdForOwnCall a.callId).guard w a.userId row = true) :
    w.isOwnCall a.userId a.callId = true := by
  simp only [AgentUpdate.guard, Bool.and_eq_true] at hg
  exact hg.2

theorem exec_hold {w : World} (h : HoldsWell a w) :
    ((Stmt.updateAgent a.userId (.holdForOwnCall a.callId)).exec w).1.busy a.userId = some a.callId := by
  obtain ⟨row, hrow, hr⟩ := (Option.any_eq_true ..).mp h
  simp only [World.agent] at hrow
  by_cases hg : (AgentUpdate.holdForOwnCall a.callId).guard w a.userId row = true
  · simp [Stmt.exec, World.busy, World.agent, Store.Table.get_updateWhere, hrow, hg, AgentUpdate.set]
  · have hbusy : row.busyCallId = some a.callId := by simpa [hg] using hr
    simp [Stmt.exec, World.busy, World.agent, Store.Table.get_updateWhere, hrow, hg, hbusy]

theorem exec_release {w : World} :
    ((Stmt.updateAgent a.userId (.releaseFromCall a.callId)).exec w).1.busy a.userId ≠ some a.callId := by
  simp only [Stmt.exec, World.busy, World.agent, Store.Table.get_updateWhere, if_true]
  cases hrow : w.agents.get a.userId with
  | none => simp
  | some row =>
    by_cases hbusy : row.busyCallId = some a.callId
    · simp [AgentUpdate.guard, AgentUpdate.set, hbusy]
    · simp [AgentUpdate.guard, hbusy]

theorem moves_updateAgent {w : World} {q : Phase} {b : Nat} {u : AgentUpdate}
    (hal : allows a q (.updateAgent b u)) :
    Moves a w ((Stmt.updateAgent b u).exec w).1 (.updateAgent b u) q
      (next a q (.updateAgent b u) ((Stmt.updateAgent b u).exec w).2) := by
  have hkept : Kept a w ((Stmt.updateAgent b u).exec w).1 := .of_call rfl
  by_cases hb : b = a.userId
  · subst hb
    cases u with
    | claimAgentForCall c => exact absurd rfl hal
    | holdForOwnCall c =>
      obtain ⟨rfl, hq⟩ := hal rfl
      rcases hq with rfl | rfl
      · simp only [next, if_true]
        refine .holds rfl hkept (fun h => ?_) exec_hold
        rcases busy_exec (a := a) w (.updateAgent a.userId (.holdForOwnCall a.callId)) with
          hsame | ⟨_, _, hs, _, hg, _⟩ | ⟨_, _, hs, _⟩
        · exact .inl (hsame ▸ h)
        · cases hs
          exact .inr (isOwnCall_of_hold hg)
        · cases hs
      · rcases busy_exec (a := a) w (.updateAgent a.userId (.holdForOwnCall a.callId)) with
          hsame | ⟨_, _, hs, _, hg, _⟩ | ⟨_, _, hs, _⟩
        · exact .quiet hkept (by rw [hsame]) (.same _)
        · cases hs
          exact .never fun hover => hover.not_isOwnCall (isOwnCall_of_hold hg)
        · cases hs
    | releaseFromCall c =>
      by_cases hc : c = a.callId
      · subst hc
        refine .releases rfl hkept exec_release ?_
        rcases hal rfl rfl with rfl | rfl | ⟨known, rfl⟩
        · exact .inl ⟨rfl, by simp [next]⟩
        · exact .inr (.inl ⟨rfl, rfl⟩)
        · exact .inr (.inr ⟨known, rfl, fun hk => by simp [next, hk]⟩)
      · have hsame : next a q (.updateAgent a.userId (.releaseFromCall c))
            ((Stmt.updateAgent a.userId (.releaseFromCall c)).exec w).2 = q := by
          cases q <;> simp [next, hc]
        rw [hsame]
        refine .quiet hkept ?_ (.same q)
        rcases busy_exec (a := a) w (.updateAgent a.userId (.releaseFromCall c)) with
          hsame | ⟨_, row, hs, hrow, hg, hset⟩ | ⟨_, _, hs, _⟩
        · rw [hsame]
        · cases hs
          have hbusy : row.busyCallId = some c := by simpa [AgentUpdate.guard] using hg
          rw [hset]
          simp [World.busy, hrow, hbusy, hc, AgentUpdate.set]
        · cases hs
    | updateAgentAvailability availability =>
      have hsame : next a q (.updateAgent a.userId (.updateAgentAvailability availability))
          ((Stmt.updateAgent a.userId (.updateAgentAvailability availability)).exec w).2 = q := by
        cases q <;> rfl
      rw [hsame]
      refine .quiet hkept ?_ (.same q)
      rcases busy_exec (a := a) w (.updateAgent a.userId (.updateAgentAvailability availability)) with
        hsame | ⟨_, row, hs, hrow, _, hset⟩ | ⟨_, _, hs, _⟩
      · rw [hsame]
      · cases hs
        rw [hset]
        simp [World.busy, hrow, AgentUpdate.set]
      · cases hs
  · have hbusy : ((Stmt.updateAgent b u).exec w).1.busy a.userId = w.busy a.userId := by
      rcases busy_exec (a := a) w (.updateAgent b u) with h | ⟨_, _, hs, _⟩ | ⟨_, _, hs, _⟩
      · exact h
      · cases hs
        exact absurd rfl hb
      · cases hs
    refine .quiet hkept (by rw [hbusy]) ?_
    cases q with
    | settling known =>
      by_cases hk : known = a.userId
      · have hbk : b ≠ known := hk ▸ hb
        cases u <;> simp only [next, hbk, false_and, if_false] <;> exact .same _
      · exact .releasesAnother hk
    | _ => cases u <;> simp only [next, hb, false_and, if_false] <;> exact .same _

theorem moves_claim {w : World} {q : Phase} (b c : Nat) (anyShift : Bool) :
    Moves a w ((Stmt.claimAgentAndAssignCall b c anyShift).exec w).1 (.claimAgentAndAssignCall b c anyShift)
      q q := by
  simp only [Stmt.exec, World.claimAgentAndAssignCall]
  split
  swap
  · exact .rest rfl rfl rfl
  rename_i ha
  split
  swap
  · exact .rest rfl rfl rfl
  rename_i hc
  obtain ⟨agent, hagent, hfree⟩ := (Option.any_eq_true ..).mp ha
  obtain ⟨row, hrow, hassign⟩ := (Option.any_eq_true ..).mp hc
  simp only [World.claimable, Bool.and_eq_true, Option.isNone_iff_eq_none] at hfree
  simp only [CallRow.assignable, Bool.and_eq_true, Option.isNone_iff_eq_none, decide_eq_true_eq] at hassign
  have hnone : row.agentId = none := hassign.1.1.1
  have hactive : row.status.active = true := by rw [hassign.1.1.2]; rfl
  have hidle : w.busy b = none := by simp [World.busy, hagent, hfree.1.1.1]
  simp only [World.agent] at hagent
  simp only [World.call] at hrow
  by_cases hX : b = a.userId <;> by_cases hC : c = a.callId
  · subst hX hC
    refine .offers hidle ?_ (not_own_of_agent hrow (by simp [hnone])) ?_ (not_over_of_active hrow hactive)
    · simp [World.busy, World.agent, hagent]
    · simp [World.isOwnCall, World.call, hrow, hactive]
  · subst hX
    refine .quiet (.of_call (by simp [World.call, Ne.symm hC])) ?_ (.same q)
    rw [hidle]
    simp [World.busy, World.agent, hagent, hC]
  · subst hC
    refine .quiet (.of_not_own (not_own_of_agent hrow (by simp [hnone])) ?_ (not_over_of_active hrow hactive))
      ?_ (.same q)
    · simp [World.isOwnCall, World.call, hrow, hX]
    · simp [World.busy, World.agent, Ne.symm hX]
  · exact .rest (by simp [World.call, Ne.symm hC]) (by simp [World.agent, Ne.symm hX]) rfl

theorem moves {w : World} {q : Phase} {s : Stmt} (hal : allows a q s) :
    Moves a w (s.exec w).1 s q (next a q s (s.exec w).2) := by
  cases s with
  | updateCall c u => exact moves_updateCall hal
  | updateAgent b u => exact moves_updateAgent hal
  | query qq => exact moves_query qq
  | createCall row => exact hal.elim
  | fillQueueDuration c =>
    have hsame : next a q (.fillQueueDuration c) () = q := by cases q <;> rfl
    show Moves a w _ _ q (next a q (.fillQueueDuration c) ())
    rw [hsame]
    rcases Stmt.onCall w a.callId (.fillQueueDuration c) with hsame | ⟨_, _, hs, _⟩ | ⟨_, hs, _⟩ |
      ⟨row, _, _, hrow, hset⟩ | ⟨_, _, _, hs, _⟩
    · exact .rest hsame rfl rfl
    · cases hs
    · cases hs
    · exact .quiet (.of_row hrow hset rfl rfl id) Iff.rfl (.same q)
    · cases hs
  | claimAgentAndAssignCall b c anyShift =>
    have hsame (claim : Claim) : next a q (.claimAgentAndAssignCall b c anyShift) claim = q := by
      cases q <;> rfl
    rw [hsame]
    exact moves_claim b c anyShift
  | record op => cases op <;> exact .rest rfl rfl (by cases q <;> rfl)
  | _ => exact .rest rfl rfl (by cases q <;> rfl)

/-! ## The invariant -/

/-- What a phase says of the call, and of the agent its row named. -/
structure Bears (a : Accept) (w : World) (q : Phase) : Prop where
  answering : q.answers = true → Answering a w
  past : q.ended = true → Over a w
  known : ∀ k, q.known = some k → k = a.userId

theorem Kept.bears {w w' : World} {q : Phase} (hc : Kept a w w') (h : Bears a w q) : Bears a w' q :=
  ⟨fun hq => hc.answering (h.answering hq), fun hq => hc.past (h.past hq), h.known⟩

theorem Bears.of_over {w : World} {q : Phase} (hover : Over a w) (hq : q.answers = false)
    (hk : ∀ k, q.known = some k → k = a.userId) : Bears a w q :=
  ⟨fun h => absurd h (by simp [hq]), fun _ => hover, hk⟩

/-- The accept was about to hold the agent, or someone to release them,
whenever the lock is not right. -/
structure Invariant {ι : Type} (a : Accept) (w : World) (ph : ι → Phase) : Prop where
  own : w.isOwnCall a.userId a.callId = true →
    w.busy a.userId = some a.callId ∨ ∃ i, (ph i).claims = true
  busy : w.busy a.userId = some a.callId →
    w.isOwnCall a.userId a.callId = true ∨ ∃ i, (ph i).releases = true
  bears : ∀ i, Bears a w (ph i)
  owing : ∀ i, (ph i).owing = true →
    w.busy a.userId = some a.callId ∧ ¬ w.isOwnCall a.userId a.callId = true ∨
      (∃ j, (ph j).answers = true) ∨ Over a w
  oneTaker : AtMostOne (fun q : Phase => q.owing = true) ph
  oneAccept : AtMostOne (fun q : Phase => q.accepting = true) ph

namespace Invariant

variable {ι : Type} {w w' : World} {ph : ι → Phase}

theorem kept (h : Invariant a w ph) (hc : Kept a w w')
    (hb : w'.busy a.userId = some a.callId ↔ w.busy a.userId = some a.callId) : Invariant a w' ph where
  own ho := (h.own (hc.own.mp ho)).imp_left hb.mpr
  busy hb' := (h.busy (hb.mp hb')).imp_left hc.own.mpr
  bears i := hc.bears (h.bears i)
  owing i hi := by
    rcases h.owing i hi with ⟨hbusy, hown⟩ | hans | hover
    · exact .inl ⟨hb.mpr hbusy, fun ho => hown (hc.own.mp ho)⟩
    · exact .inr (.inl hans)
    · exact .inr (.inr (hc.past hover))
  oneTaker := h.oneTaker
  oneAccept := h.oneAccept

/-- A queue offers the call to the agent. -/
theorem offers (h : Invariant a w ph) (hb : w.busy a.userId = none)
    (hb' : w'.busy a.userId = some a.callId) (hown : ¬ w.isOwnCall a.userId a.callId = true)
    (hown' : w'.isOwnCall a.userId a.callId = true) (hover : ¬ Over a w) : Invariant a w' ph where
  own _ := .inl hb'
  busy _ := .inl hown'
  bears j := ⟨fun hj => absurd ((h.bears j).answering hj).isOwnCall hown,
    fun hj => absurd ((h.bears j).past hj) hover, (h.bears j).known⟩
  owing j hj := by
    rcases h.owing j hj with ⟨hbusy, _⟩ | ⟨j', hj'⟩ | ho
    · rw [hb] at hbusy
      cases hbusy
    · exact absurd ((h.bears j').answering hj').isOwnCall hown
    · exact absurd ho hover
  oneTaker := h.oneTaker
  oneAccept := h.oneAccept

variable [DecidableEq ι] {i : ι} {q q' : Phase}

omit [DecidableEq ι] in
theorem bears_of (h : Invariant a w ph) (hi : ph i = q) : Bears a w q := hi ▸ h.bears i

theorem bears_update (hq : Bears a w q') (h : ∀ j, j ≠ i → Bears a w (ph j)) :
    ∀ j, Bears a w (Function.update ph i q' j) :=
  (Function.forall_update_iff ph (p := fun _ q => Bears a w q)).mpr ⟨hq, h⟩

/-- The mover was in no phase of this kind, so whoever is in one still is. -/
theorem still {g : Phase → Bool} (hi : ph i = q) (hg : g q = false) (h : ∃ j, g (ph j) = true) :
    ∃ j, g (Function.update ph i q' j) = true :=
  exists_update h fun hgi => absurd hg (by rw [← hi, hgi]; nofun)

/-- A phase at rest becomes another that the world bears out. -/
theorem rests (h : Invariant a w ph) (hi : ph i = q) (hq : q.Rests) (hq' : q'.Rests)
    (hbears : Bears a w q') (hfree : q.answers = true → q' ≠ .free) :
    Invariant a w (Function.update ph i q') := by
  have hclaims : q.claims = false := by rcases hq with rfl | rfl | ⟨_, rfl⟩ <;> rfl
  have hreleases : q.releases = false := by rcases hq with rfl | rfl | ⟨_, rfl⟩ <;> rfl
  have howing : q'.owing = false := by rcases hq' with rfl | rfl | ⟨_, rfl⟩ <;> rfl
  refine ⟨fun ho => (h.own ho).imp_right (still hi hclaims), fun hb => (h.busy hb).imp_right
    (still hi hreleases), bears_update hbears fun j _ => h.bears j, ?_,
    h.oneTaker.update fun hq'' => absurd hq'' (by simp [howing]), h.oneAccept.update fun _ => .inl ?_⟩
  · intro j hj
    rcases of_update hj with ⟨hj, _⟩ | ⟨hj, _⟩
    · exact absurd hj (by simp [howing])
    · rcases h.owing j hj with hheld | hans | hover
      · exact .inl hheld
      · rcases hq' with rfl | rfl | ⟨k, rfl⟩
        · exact .inr (.inl (exists_update hans fun hi' => absurd rfl (hfree (hi ▸ hi'))))
        · exact .inr (.inr (hbears.past rfl))
        · exact .inr (.inl (exists_update hans fun _ => rfl))
      · exact .inr (.inr hover)
  · rw [hi]
    rcases hq with rfl | rfl | ⟨_, rfl⟩ <;> rfl

theorem drifts (h : Invariant a w' ph) (hi : ph i = q) (hc : Kept a w w') (hb : Bears a w q)
    (hq : Drifts a w w' q q') : Invariant a w' (Function.update ph i q') := by
  cases hq with
  | same =>
    rw [← hi, Function.update_eq_self]
    exact h
  | foundOver hq hov =>
    exact h.rests hi hq (.inr (.inl rfl)) (.of_over (hc.past hov) rfl nofun) fun _ => nofun
  | found hk =>
    have hans := hb.answering rfl
    refine h.rests hi (.inr (.inr ⟨_, rfl⟩)) (.inr (.inr ⟨_, rfl⟩))
      ⟨fun _ => hc.answering hans, nofun, ?_⟩ fun _ => nofun
    rintro k ⟨⟩
    exact hk hans
  | takesOver hans =>
    refine h.rests hi (.inl rfl) (.inr (.inr ⟨_, rfl⟩)) ⟨fun _ => hans, nofun, ?_⟩ nofun
    rintro k ⟨⟩
    rfl
  | releasesAnother hk => exact absurd (hb.known _ rfl) hk

/-- An accept claims the call. -/
theorem claims (h : Invariant a w ph) (hi : ph i = q) (hq : q.Rests) (hover : ¬ Over a w)
    (hans : Answering a w') (hb : w'.busy a.userId = w.busy a.userId) :
    Invariant a w' (Function.update ph i (if q = .free then .claimed else q)) := by
  rcases hq with rfl | rfl | ⟨known, rfl⟩
  · rw [if_pos rfl]
    refine ⟨fun _ => .inr ⟨i, by rw [Function.update_self]; rfl⟩, fun _ => .inl hans.isOwnCall,
      bears_update ⟨fun _ => hans, nofun, nofun⟩ fun j _ => ⟨fun _ => hans,
        fun hj => absurd ((h.bears j).past hj) hover, (h.bears j).known⟩,
      fun _ _ => .inr (.inl ⟨i, by rw [Function.update_self]; rfl⟩),
      h.oneTaker.update nofun, h.oneAccept.update fun _ => .inl (by rw [hi]; rfl)⟩
  · exact absurd ((h.bears_of hi).past rfl) hover
  · have hans₀ : Answering a w := (h.bears_of hi).answering rfl
    rw [if_neg nofun, ← hi, Function.update_eq_self]
    refine h.kept ⟨?_, fun _ => hans, fun ho => absurd ho hover⟩ (by rw [hb])
    simp [hans.isOwnCall, hans₀.isOwnCall]

/-- A taker takes the call from the agent. -/
theorem takes (h : Invariant a w ph) (hown : w.isOwnCall a.userId a.callId = true)
    (hans : ¬ Answering a w) (hown' : ¬ w'.isOwnCall a.userId a.callId = true)
    (hb : w'.busy a.userId = w.busy a.userId) : Invariant a w' (Function.update ph i .owes) := by
  have hbusy : w.busy a.userId = some a.callId := by
    refine (h.own hown).resolve_right ?_
    rintro ⟨j, hj⟩
    refine hans ((h.bears j).answering ?_)
    cases hq : ph j <;> simp_all [Phase.claims, Phase.answers]
  have hnone : ∀ j, ¬ (ph j).owing = true := by
    intro j hj
    rcases h.owing j hj with ⟨_, hnot⟩ | ⟨j', hj'⟩ | ho
    · exact hnot hown
    · exact hans ((h.bears j').answering hj')
    · exact ho.not_isOwnCall hown
  exact ⟨fun ho => absurd ho hown', fun _ => .inr ⟨i, by rw [Function.update_self]; rfl⟩,
    bears_update ⟨nofun, nofun, nofun⟩ fun j _ => ⟨fun hj => absurd ((h.bears j).answering hj) hans,
      fun hj => absurd hown ((h.bears j).past hj).not_isOwnCall, (h.bears j).known⟩,
    fun _ _ => .inl ⟨hb.trans hbusy, hown'⟩, h.oneTaker.update fun _ => .inr hnone,
    h.oneAccept.update nofun⟩

/-- The accept ends the call. -/
theorem ends {known : Nat} (h : Invariant a w ph) (hi : ph i = .held known) (hover : Over a w') :
    Invariant a w' (Function.update ph i (.settling known)) := by
  refine ⟨fun ho => absurd ho hover.not_isOwnCall, fun _ => .inr ⟨i, by rw [Function.update_self]; rfl⟩,
    bears_update (.of_over hover rfl (h.bears_of hi).known) fun j hji => ?_, fun _ _ => .inr (.inr hover),
    h.oneTaker.update nofun, h.oneAccept.update fun _ => .inl (by rw [hi]; rfl)⟩
  -- nobody else is answering the call
  refine .of_over hover (Bool.eq_false_iff.mpr fun hj => hji (h.oneAccept j i ?_ (by rw [hi]; rfl)))
    (h.bears j).known
  show (ph j).accepting = true
  cases hq : ph j <;> simp_all [Phase.answers, Phase.accepting]

/-- The accept holds the agent. -/
theorem holds (h : Invariant a w ph) (hi : ph i = .claimed) (hc : Kept a w w')
    (hb : w'.busy a.userId = some a.callId) : Invariant a w' (Function.update ph i (.held a.userId)) := by
  have hans : Answering a w' := hc.answering ((h.bears_of hi).answering rfl)
  refine ⟨fun _ => .inl hb, fun _ => .inl hans.isOwnCall,
    bears_update ⟨fun _ => hans, nofun, ?_⟩ fun j _ => hc.bears (h.bears j),
    fun _ _ => .inr (.inl ⟨i, by rw [Function.update_self]; rfl⟩), h.oneTaker.update nofun,
    h.oneAccept.update fun _ => .inl (by rw [hi]; rfl)⟩
  rintro k ⟨⟩
  rfl

/-- A taker releases the agent, before the accept holds them. -/
theorem takerReleases (h : Invariant a w ph) (hi : ph i = .owes) (hc : Kept a w w')
    (hb : w'.busy a.userId ≠ some a.callId) (hlate : ∀ j, (ph j).answers = true → (ph j).claims = true) :
    Invariant a w' (Function.update ph i .idle) := by
  have howing := h.owing i (by rw [hi]; rfl)
  refine ⟨fun ho => .inr (still (g := Phase.claims) hi rfl ?_), fun ho => absurd ho hb,
    bears_update ⟨nofun, nofun, nofun⟩ fun j _ => hc.bears (h.bears j), ?_, h.oneTaker.update nofun,
    h.oneAccept.update nofun⟩
  · rcases howing with ⟨_, hnot⟩ | ⟨j, hj⟩ | hover
    · exact absurd (hc.own.mp ho) hnot
    · exact ⟨j, hlate j hj⟩
    · exact absurd (hc.own.mp ho) hover.not_isOwnCall
  · intro j hj
    rcases of_update hj with ⟨hj, _⟩ | ⟨hj, hji⟩
    · cases hj
    · exact absurd (h.oneTaker j i hj (by rw [hi]; rfl)) hji

/-- The accept releases the agent once the call is over. -/
theorem acceptReleases (h : Invariant a w ph) (hi : (ph i).ended = true) (hc : Kept a w w')
    (hb : w'.busy a.userId ≠ some a.callId) : Invariant a w' (Function.update ph i .past) := by
  have hover : Over a w' := hc.past ((h.bears i).past hi)
  refine ⟨fun ho => absurd ho hover.not_isOwnCall, fun ho => absurd ho hb,
    bears_update (.of_over hover rfl nofun) fun j _ => hc.bears (h.bears j),
    fun _ _ => .inr (.inr hover), h.oneTaker.update nofun, h.oneAccept.update fun _ => .inl ?_⟩
  show (ph i).accepting = true
  cases hq : ph i <;> simp_all [Phase.ended, Phase.accepting]

/-- Any statement, if a release does not come after the hold, and the hold
finds the agent free. -/
theorem move {s : Stmt} (h : Invariant a w ph) (hm : Moves a w w' s (ph i) q')
    (hlate : ph i = .owes → s = .updateAgent a.userId (.releaseFromCall a.callId) →
      ∀ j, (ph j).answers = true → (ph j).claims = true)
    (hhold : ph i = .claimed → s = .updateAgent a.userId (.holdForOwnCall a.callId) → HoldsWell a w) :
    Invariant a w' (Function.update ph i q') := by
  generalize hi : ph i = q at hm hlate hhold
  cases hm with
  | quiet hc hb hq => exact (h.kept hc hb).drifts hi hc (h.bears_of hi) hq
  | claims hq hover hans hb => exact h.claims hi hq hover hans hb
  | offers hb hb' hown hown' hover =>
    rw [← hi, Function.update_eq_self]
    exact h.offers hb hb' hown hown' hover
  | takes hown hans hown' hb => exact h.takes hown hans hown' hb
  | ends hover _ => exact h.ends hi hover
  | holds hs hc _ hb' => exact h.holds hi hc (hb' (hhold rfl hs))
  | releases hs hc hb hq =>
    rcases hq with ⟨rfl, rfl⟩ | ⟨rfl, rfl⟩ | ⟨known, rfl, hk⟩
    · exact h.takerReleases hi hc hb (hlate rfl hs)
    · exact h.acceptReleases (by rw [hi]; rfl) hc hb
    · obtain rfl := hk ((h.bears_of hi).known known rfl)
      exact h.acceptReleases (by rw [hi]; rfl) hc hb
  | never hover => exact absurd ((h.bears_of hi).past rfl) hover

end Invariant

/-! ## The programs -/

theorem allows_routing {s : Stmt} (hs : s.Routing ∨ s.Offering) (q : Phase) : allows a q s := by
  cases s with
  | updateAgent b u => cases u <;> simp_all [allows]
  | updateCall c u => simp at hs
  | createCall row => simp at hs
  | _ => trivial

/-- Looking for an agent leaves the phase, unless the call's row is read. -/
theorem next_routing {s : Stmt} (hs : s.Routing ∨ s.Offering) (q : Phase) (r : s.Res) :
    next a q s r = q ∨ q.Rests ∧ next a q s r = .past ∨
      ∃ k k', q = .held k ∧ next a q s r = .held k' := by
  cases s with
  | query qq =>
    cases qq with
    | findById c =>
      cases q with
      | free =>
        simp only [next]
        split
        · exact .inr (.inl ⟨.inl rfl, rfl⟩)
        · exact .inl rfl
      | held k =>
        cases r with
        | none => exact .inl rfl
        | some call =>
          simp only [next]
          split
          · split
            · exact .inr (.inl ⟨.inr (.inr ⟨k, rfl⟩), rfl⟩)
            · exact .inr (.inr ⟨k, _, rfl, rfl⟩)
          · exact .inl rfl
      | _ => exact .inl rfl
    | _ => cases q <;> exact .inl rfl
  | updateCall c u => simp at hs
  | updateAgent b u =>
    cases u with
    | updateAgentAvailability availability => cases q <;> exact .inl rfl
    | _ => simp at hs
  | _ => cases q <;> exact .inl rfl

theorem keeps_routing {Q : Phase → Prop} (hrest : ∀ q : Phase, q.Rests → Q q → Q .past)
    (hheld : ∀ k k', Q (.held k) → Q (.held k')) {s : Stmt} (hs : s.Routing ∨ s.Offering) :
    (protocol a).Keeps Q s := by
  refine fun q hq => ⟨allows_routing hs q, fun r => ?_⟩
  show Q (next a q s r)
  rcases next_routing (a := a) hs q r with h | ⟨hr, h⟩ | ⟨k, k', rfl, h⟩ <;> rw [h]
  · exact hq
  · exact hrest q hr hq
  · exact hheld k k' hq

/-- Before the claim. -/
def Before (q : Phase) : Prop := q = .free ∨ q = .past

/-- The accept has its agent on the call, or the call is over. -/
def Joined (q : Phase) : Prop := q = .past ∨ ∃ k, q = .held k

theorem routes_before : Routes (protocol a) Before :=
  .of_keeps fun _ hs => keeps_routing (fun _ _ _ => .inr rfl) (fun _ _ h => absurd h (by simp [Before])) hs

theorem routes_joined : Routes (protocol a) Joined :=
  .of_keeps fun _ hs => keeps_routing (fun _ _ _ => .inl rfl) (fun _ k' _ => .inr ⟨k', rfl⟩) hs

theorem routes_rests : Routes (protocol a) Phase.Rests :=
  .of_keeps fun _ hs => keeps_routing (fun _ _ _ => .inr (.inl rfl)) (fun _ k' _ => .inr (.inr ⟨k', rfl⟩)) hs

/-- A phase in which no row is read. -/
theorem routes_still {q : Phase} (hq : ¬ q.Rests ∨ q = .past) : Routes (protocol a) (· = q) := by
  refine .of_keeps fun _ hs => keeps_routing (fun q' hr hq' => ?_) (fun k k' hk => ?_) hs
  · subst hq'
    rcases hq with hq | rfl
    · exact absurd hr hq
    · rfl
  · subst hk
    rcases hq with hq | hq
    · exact absurd (.inr (.inr ⟨k, rfl⟩)) hq
    · cases hq

theorem next_over (s : Stmt) (r : s.Res) : next a .past s r = .past := by
  unfold next
  split <;> simp_all

theorem ending_over {s : Stmt} (hs : s.Ending) : (protocol a).Keeps (· = .past) s := by
  rintro _ rfl
  refine ⟨?_, next_over (a := a) s⟩
  show allows a .past s
  cases s with
  | updateCall c u => cases u <;> simp_all [allows]
  | updateAgent b u => cases u <;> simp_all [allows]
  | createCall row => simp at hs
  | _ => trivial

theorem routes_over : Routes (protocol a) (· = .past) := routes_still (.inr rfl)

theorem ends_over : Ends (protocol a) (· = .past) := .of_keeps routes_over fun _ => ending_over

/-! ### Taking the offer back -/

/-- What a taker of this agent's offer owes. -/
def owed (a : Accept) (agentId callId : Nat) : Phase :=
  if callId = a.callId ∧ agentId = a.userId then .owes else .idle

theorem owed_not_rests (agentId callId : Nat) : ¬ (owed a agentId callId).Rests := by
  unfold owed
  split <;> simp [Phase.Rests]

theorem releaseAgent_follows (agentId callId : Nat) :
    (releaseAgent agentId callId).Follows (protocol a) (owed a agentId callId) fun _ q => q = .idle := by
  refine (Prog.follows_cmd_bind _ _ _ _).mpr ⟨?_, fun released => ?_⟩
  · intro hb hc
    exact .inl (by simp [owed, hb, hc])
  · show next a (owed a agentId callId) _ _ = .idle
    unfold owed
    split
    · rename_i h
      simp [next, h]
    · rfl

theorem keeps_owed {agentId callId : Nat} {s : Stmt} (hal : ∀ q, allows a q s)
    (hs : ∀ q r, next a q s r = q) : (protocol a).Keeps (· = owed a agentId callId) s := by
  rintro _ rfl
  exact ⟨hal _, hs _⟩

theorem routes_idle : Routes (protocol a) (· = .idle) := routes_still (.inl (by simp [Phase.Rests]))

theorem keeps_counting (agentId : Nat) : (protocol a).Keeps (· = .idle) (.incrementMissed agentId) := by
  rintro _ rfl
  exact ⟨trivial, fun _ => rfl⟩

theorem passOffer_follows (call : Call) (agentId : Nat) (kind : OfferHistory.Kind)
    (expiredBefore : Option Nat) :
    (passOffer call agentId kind expiredBefore).Follows (protocol a) .idle fun _ q => q = .idle := by
  refine (Prog.follows_cmd_bind _ _ _ _).mpr ⟨fun _ => rfl, fun won => ?_⟩
  cases won with
  | false =>
    show next a .idle (.updateCall call.id (.withdrawOffer agentId expiredBefore)) false = .idle
    exact next_lost _ _ _
  | true =>
    have howed : next a .idle (.updateCall call.id (.withdrawOffer agentId expiredBefore)) true =
        owed a agentId call.id := by simp [next, owed]
    show Prog.Follows (protocol a)
      (next a .idle (.updateCall call.id (.withdrawOffer agentId expiredBefore)) true) _ _
    rw [howed]
    have hrecord : (OfferHistory.record call.id agentId kind).Stays (protocol a)
        (· = owed a agentId call.id) := by
      cases kind <;> exact keeps_owed (fun _ => trivial) fun q _ => by cases q <;> rfl
    have hemit : (Code.emit (.offerWithdrawn call.id [agentId])).Stays (protocol a)
        (· = owed a agentId call.id) := keeps_owed (fun _ => trivial) fun q _ => by cases q <;> rfl
    have hroute : (routeWaitingCall call.id call.queueId >>= fun _ => pure true).Stays (protocol a)
        (· = .idle) := (routes_idle.routeWaitingCall _ _).bind fun _ => Prog.stays_ret _
    refine (hrecord _ rfl).bind fun _ q hq => (hemit q hq).bind fun _ q hq => ?_
    obtain rfl := hq
    refine (releaseAgent_follows agentId call.id).bind fun _ q hq => ?_
    have hmiss : (recordMiss call.id call.tenantId call.queueId agentId).Stays (protocol a) (· = .idle) :=
      routes_idle.recordMiss keeps_counting _ _ _ _ _
    exact Prog.Takes.ite (fun _ => hmiss.bind fun _ => hroute) (fun _ => hroute) q hq

theorem callOverflowed_follows (call : Call) (toQueueId : Nat) {q : Phase}
    (hq : q = call.agentId.elim .idle (owed a · call.id)) :
    (callOverflowed call toQueueId).Follows (protocol a) q fun _ q => q = .idle := by
  have hrests : ¬ q.Rests ∨ q = .past := by
    subst hq
    cases call.agentId with
    | none => exact .inl (by simp [Phase.Rests])
    | some b => exact .inl (owed_not_rests b call.id)
  have hroutes := routes_still (a := a) hrests
  have hemit : ∀ agents, (Code.emit (.offerWithdrawn call.id agents)).Stays (protocol a) (· = q) :=
    fun agents q' hq' => ⟨trivial, fun _ => by subst hq'; cases q' <;> rfl⟩
  have hclear : (record (.clearMissed call.id)).Stays (protocol a) (· = .idle) :=
    routes_idle.looking (.record (.clearMissed call.id)) trivial
  have hroute := hclear.bind fun _ => routes_idle.routeWaitingCall call.id (some toQueueId)
  unfold callOverflowed
  refine ((waitingIn_stays hroutes.toSeeks call).bind fun queue => (ringingAgents_stays hroutes.toSeeks call queue).bind
    fun agents => .ite (fun _ => (hemit agents).bind fun _ => ?_) fun _ => ?_) q rfl
  all_goals
    rintro _ rfl
    cases ha : call.agentId with
    | none =>
      rw [ha] at hq
      exact hroute _ hq
    | some b =>
      rw [ha] at hq
      subst hq
      exact (releaseAgent_follows b call.id).bind fun _ q hq => hroute q hq

theorem overflowWaiting_follows (call : Call) (queueId toQueueId : Nat) :
    (overflowWaiting call queueId toQueueId).Follows (protocol a) .idle fun _ q => q = .idle := by
  refine (Prog.follows_cmd_bind _ _ _ _).mpr ⟨fun _ => rfl, fun won => ?_⟩
  cases won with
  | false =>
    show next a .idle (.updateCall call.id (.overflowToQueue queueId toQueueId call.agentId)) false = .idle
    exact next_lost _ _ _
  | true =>
    refine callOverflowed_follows call toQueueId ?_
    cases ha : call.agentId with
    | none => simp [next]
    | some b => simp [next, owed]

theorem takeBack_follows (t : TakeBack) : t.code.Follows (protocol a) .idle fun _ => Phase.Settled := by
  cases t with
  | passOffer call b kind expiredBefore =>
    exact (passOffer_follows call b kind expiredBefore).bind fun _ _ hq => .inl hq
  | overflowWaiting call queueId toQueueId =>
    exact (overflowWaiting_follows call queueId toQueueId).mono fun _ _ hq => .inl hq
  | returnHandover call b offeredAt =>
    refine (Prog.follows_cmd_bind _ _ _ _).mpr ⟨fun _ => rfl, fun won => ?_⟩
    split
    · exact (passOffer_follows _ _ _ _).bind fun _ _ hq => .inl hq
    · exact .inl rfl

/-! ### Accepting -/

/-- Where the claim leaves the accept. -/
def Claimed : Except AcceptError Unit → Phase → Prop
  | .ok _, q => Joined q
  | .error _, q => Before q

theorem claim_follows {q : Phase} (hq : Before q) (status : CallStatus) :
    (a.claim status).Follows (protocol a) q Claimed := by
  have hlost (u : CallUpdate) : next a q (.updateCall a.callId u) false = q := next_lost _ _ _
  unfold Accept.claim
  split
  · refine (Prog.follows_cmd_bind _ _ _ _).mpr ⟨fun _ => ⟨rfl, hq.elim .inl (.inr ∘ .inl)⟩, fun won => ?_⟩
    cases won with
    | false =>
      show Before (next a q (.updateCall a.callId (.assignCallToAgentIfEligible a.userId)) false)
      rwa [hlost]
    | true =>
      -- the agent is held next, unless the call was over
      have hclaimed : next a q (.updateCall a.callId (.assignCallToAgentIfEligible a.userId)) true =
          .claimed ∨ next a q (.updateCall a.callId (.assignCallToAgentIfEligible a.userId)) true = .past := by
        rcases hq with rfl | rfl
        · exact .inl (by simp [next])
        · exact .inr rfl
      have hheld : ∀ q : Phase, q = .claimed ∨ q = .past →
          (holdForOwnCall a.userId a.callId).Follows (protocol a) q fun _ => Joined := by
        intro q hq
        have hjoined : ∀ r, Joined (next a q (.updateAgent a.userId (.holdForOwnCall a.callId)) r) := by
          rcases hq with rfl | rfl
          · exact fun r => .inr ⟨a.userId, by simp [next]⟩
          · exact fun r => .inl rfl
        refine (Prog.follows_cmd_bind _ _ _ _).mpr ⟨fun _ => ⟨rfl, hq⟩, fun held => ?_⟩
        split
        · exact hjoined held
        · exact (routes_joined.read (.busyCallId a.userId) trivial _ (hjoined held)).bind fun _ _ hq => hq
      refine (Prog.follows_cmd_bind _ _ _ _).mpr ⟨trivial, fun busy => ?_⟩
      refine (hheld _ ?_).bind fun _ _ hq => hq
      refine hclaimed.imp (fun h => ?_) fun h => ?_
      all_goals
        show next a (next a q (.updateCall a.callId (.assignCallToAgentIfEligible a.userId)) true)
          (.query (.busyCallId a.userId)) busy = _
        rw [h]
        rfl
  · refine (Prog.follows_cmd_bind _ _ _ _).mpr ⟨fun _ => ⟨rfl, hq⟩, fun won => ?_⟩
    cases won with
    | false =>
      show Before (next a q (.updateCall a.callId (.claimHandover a.userId)) false)
      rwa [hlost]
    | true =>
      rcases hq with rfl | rfl
      · exact .inr ⟨a.userId, by simp [next]⟩
      · exact .inl rfl

theorem keeps_joined {s : Stmt} (hal : ∀ q : Phase, Joined q → allows a q s)
    (hs : ∀ q r, Joined q → next a q s r = q) : (protocol a).Keeps Joined s := by
  refine fun q hq => ⟨hal q hq, fun r => ?_⟩
  show Joined (next a q s r)
  rwa [hs q r hq]

/-- What settles the call releases the agent its row named. -/
theorem settle_follows {call : Call} {known : Nat} (hid : call.id = a.callId)
    (ha : call.agentId = some known) (reason : TerminationReason) (who : TerminatedBy)
    (provider : TellProvider) (offline : Bool) :
    (CallTerminator.settle call reason who provider offline).Follows (protocol a) (.settling known)
      fun _ q => q = .past := by
  have hoffline : (updateAgent known (.updateAgentAvailability .offline)).Stays (protocol a) (· = .past) :=
    ending_over trivial
  have hrelease : (releaseAgent known a.callId offline).Follows (protocol a) (.settling known)
      fun _ q => q = .past := by
    refine (Prog.follows_cmd_bind _ _ _ _).mpr ⟨fun _ _ => .inr (.inr ⟨known, rfl⟩), fun released => ?_⟩
    have hover : next a (.settling known) (.updateAgent known (.releaseFromCall a.callId)) released = .past := by
      simp [next]
    show Prog.Follows (protocol a)
      (next a (.settling known) (.updateAgent known (.releaseFromCall a.callId)) released) _ _
    rw [hover]
    exact Prog.Takes.ite (fun _ => hoffline.bind fun _ => Prog.stays_ret _) (fun _ => Prog.stays_ret _) _ rfl
  have hfree : (CallTerminator.freeAgent call offline).Follows (protocol a) (.settling known)
      fun _ q => q = .past := by
    unfold CallTerminator.freeAgent
    rw [ha, hid]
    refine hrelease.bind fun _ q hq => ?_
    exact Prog.Takes.ite (fun _ => routes_over.assignOldestUnassignedCall _) (fun _ => Prog.stays_ret _) q hq
  refine (Prog.follows_cmd_bind _ _ _ _).mpr ⟨trivial, fun _ => ?_⟩
  refine (Prog.follows_cmd_bind _ _ _ _).mpr ⟨trivial, fun _ => ?_⟩
  refine (Prog.follows_cmd_bind _ _ _ _).mpr ⟨trivial, fun _ => ?_⟩
  refine hfree.bind fun _ q hq => (tellProvider_stays (fun _ hs => ending_over hs.ending) call provider q hq).bind
    fun _ q hq => ?_
  exact ends_over.closeMedia call.id q hq

theorem endCall_follows {call : Call} {known : Nat} (hid : call.id = a.callId)
    (ha : call.agentId = some known) {opts : EndOptions} (hfail : opts.failure = true)
    (hstatus : opts.onlyIfStatus = none) :
    (CallTerminator.endCall call opts).Follows (protocol a) (.held known) fun _ => Joined := by
  unfold CallTerminator.endCall CallTerminator.commit
  rw [if_pos hfail, hid, hstatus]
  refine (Prog.follows_cmd_bind _ _ _ _).mpr ⟨fun _ => .inl ⟨known, rfl⟩, fun won => ?_⟩
  cases won with
  | true =>
    have hsettling : next a (.held known)
        (.updateCall a.callId (.markCallFailedIfNotFinal opts.reason opts.terminatedBy)) true =
        .settling known := by simp [next]
    show Prog.Follows (protocol a) (next a (.held known) (.updateCall a.callId
      (.markCallFailedIfNotFinal opts.reason opts.terminatedBy)) true) _ _
    rw [hsettling]
    exact (settle_follows hid ha _ _ _ _).bind fun _ _ hq => .inl hq
  | false =>
    refine (Prog.follows_cmd_bind _ _ _ _).mpr ⟨trivial, fun _ => .inr ⟨known, ?_⟩⟩
    simp [next]

/-- The row named the accept's agent, so it is they who are released. -/
theorem abortOnMediaFailure_stays : a.abortOnMediaFailure.Stays (protocol a) Joined := by
  intro q hq
  refine (Prog.follows_cmd_bind _ _ _ _).mpr ⟨trivial, fun call => ?_⟩
  cases call with
  | none => exact hq.imp (fun h => by rw [h]; rfl) fun ⟨k, h⟩ => ⟨k, by rw [h]; rfl⟩
  | some call =>
    have hread : next a q (.query (.findById a.callId)) (some call) = .past ∨
        call.id = a.callId ∧
          next a q (.query (.findById a.callId)) (some call) = .held (call.agentId.getD a.userId) := by
      rcases hq with rfl | ⟨k, rfl⟩
      · exact .inl rfl
      · simp only [next, if_true]
        split
        · exact .inl rfl
        · rename_i h
          rw [not_or, not_not] at h
          exact .inr ⟨h.1, rfl⟩
    show Prog.Follows (protocol a) (next a q (.query (.findById a.callId)) (some call)) _ _
    rcases hread with h | ⟨hid, h⟩ <;> rw [h]
    · exact (ends_over.endCall _ _ _ rfl).bind fun _ _ hq => .inl hq
    · have hknown : call.agentId.or (some a.userId) = some (call.agentId.getD a.userId) := by
        cases call.agentId <;> rfl
      have hends : (CallTerminator.endCall { call with agentId := call.agentId.or (some a.userId) }
          ⟨.agentMediaNotReady, .system, true, none, .terminate, false⟩).Follows (protocol a)
          (.held (call.agentId.getD a.userId)) fun _ => Joined :=
        @endCall_follows a { call with agentId := call.agentId.or (some a.userId) } _ hid hknown _
          rfl rfl
      exact hends.bind fun _ _ hq => hq

theorem joinClaimed_stays : a.joinClaimed.Stays (protocol a) Joined := by
  have hjoining : ∀ s : Stmt, s.JoiningFor a → (protocol a).Keeps Joined s := by
    rintro s ⟨hs, hassign⟩
    refine keeps_joined (fun q hq => ?_) fun q r hq => ?_
    · cases s with
      | updateCall c u =>
        cases u with
        | assignCallToAgentIfEligible b => exact fun _ => ⟨(hassign c b rfl).2, .inr hq⟩
        | transitionStatus expected status => exact fun _ => hs
        | updateState _ | updateTimestamp _ _ | correctNoAnswerIfAnswered => exact fun _ => trivial
        | _ => cases hs
      | updateAgent b u => cases hs
      | createCall row => cases hs
      | _ => trivial
    · rcases hq with rfl | ⟨k, rfl⟩
      · exact next_over s r
      · cases s with
        | updateCall c u => cases u <;> first | rfl | cases hs
        | query qq => cases hs
        | _ => rfl
  have hmedia : ∀ op, (media a.callId op).Stays (protocol a) Joined :=
    fun op => keeps_joined (fun _ _ => trivial) fun q _ hq => by rcases hq with rfl | ⟨_, rfl⟩ <;> rfl
  have haccept : (protocol a).Keeps Joined (.provider a.callId .accept) :=
    keeps_joined (fun _ _ => trivial) fun q _ hq => by rcases hq with rfl | ⟨_, rfl⟩ <;> rfl
  refine a.joinClaimed_takes routes_joined hjoining (hmedia _) haccept ?_
  refine .bind (hmedia (.agentAccepted a.userId a.sdpAnswer a.audio)) fun accepted => ?_
  cases accepted with
  | noAudio => exact abortOnMediaFailure_stays.bind fun _ => Prog.stays_ret _
  | _ => exact Prog.stays_ret _

theorem join_takes : a.join.Takes (protocol a) Before Phase.Rests := by
  have hrests : ∀ q : Phase, Before q → q.Rests := fun q hq => hq.elim .inl (.inr ∘ .inl)
  have hjoined : ∀ q : Phase, Joined q → q.Rests := fun q hq => .inr hq
  refine (a.checkCapacity_stays routes_before).bind fun checked => ?_
  cases checked with
  | error err => exact Prog.takes_ret hrests _
  | ok _ =>
    refine .bind (routes_before.read _ trivial) fun status => .ite (fun _ => Prog.takes_ret hrests _) fun _ => ?_
    refine fun q hq => (claim_follows hq _).bind fun claimed q hq => ?_
    cases claimed with
    | error err => exact hrests q hq
    | ok _ => exact (joinClaimed_stays q hq).mono fun _ => hjoined

theorem next_emit (q : Phase) (e : Event) : next a q (.emit e) () = q := by cases q <;> rfl

theorem cleanUp_stays (err : AcceptError) : (a.cleanUp err).Stays (protocol a) Phase.Rests := by
  have hemit : ∀ text, (Code.emit (.callError a.callId text)).Stays (protocol a) Phase.Rests :=
    fun text q hq => ⟨trivial, fun _ => by
      show Phase.Rests (next a q (.emit (.callError a.callId text)) ())
      rwa [next_emit]⟩
  have hrelease : (releaseAgent a.userId a.callId).Stays (protocol a) (· = .past) :=
    releaseAgent_stays (ending_over trivial) fun _ => ending_over trivial
  intro q hq
  refine (Prog.follows_cmd_bind _ _ _ _).mpr ⟨trivial, fun call => ?_⟩
  have hrests : Phase.Rests (next a q (.query (.findById a.callId)) call) :=
    (routes_rests.read (.findById a.callId) trivial q hq).2 call
  cases call with
  | none => exact hemit _ _ hrests
  | some call =>
    show Prog.Follows _ _ _ (if call.ended = true then _ else _)
    split
    · rename_i hended
      have hover : next a q (.query (.findById a.callId)) (some call) = .past := by
        rcases hq with rfl | rfl | ⟨k, rfl⟩ <;> simp [next, hended]
      refine (hrelease _ hover).bind fun _ q hq => ?_
      refine (routes_over.assignOldestUnassignedCall _ q hq).bind fun _ q hq => hemit _ q (.inr (.inl hq))
    · exact hemit _ _ hrests

theorem handleAgentJoined_follows :
    (handleAgentJoined a).Follows (protocol a) .free fun _ => Phase.Settled := by
  refine (Prog.follows_cmd_bind _ _ _ _).mpr ⟨trivial, fun offered => ?_⟩
  split
  · exact .inr (.inl rfl)
  refine (join_takes _ (.inl rfl)).bind fun joined q hq => ?_
  have hemit : ∀ text, (Code.emit (.callError a.callId text)).Follows (protocol a) q fun _ => Phase.Settled :=
    fun text => ⟨trivial, fun _ => by
      show Phase.Settled (next a q (.emit (.callError a.callId text)) ())
      rw [next_emit]
      exact .inr hq⟩
  rcases joined with err | _
  · cases err with
    | agentOnCall | ownershipChanged | transferNotYours => exact hemit _
    | _ => exact (cleanUp_stays _ q hq).mono fun _ _ hq => .inr hq
  · exact .inr hq

/-! ## Runs -/

section runs

variable {κ : Type}

/-- The accept, and whoever takes its offer back. -/
def progs (a : Accept) (ts : κ → TakeBack) : Option κ → Code Unit
  | none => handleAgentJoined a
  | some k => (ts k).code

def spawn (w : World) (a : Accept) (ts : κ → TakeBack) : Service (Option κ) :=
  Config.spawn w (progs a ts)

def init : Option κ → Phase
  | none => .free
  | some _ => .idle

abbrev phases (a : Accept) (s : Service (Option κ)) : Option κ → Phase := (protocol a).phases init s

/-- A taker releases the agent once the accept holds them. -/
def ReleasesLate (a : Accept) (s : Service (Option κ)) (i : Option κ) : Prop :=
  phases a s i = .owes ∧ (s.next i).any (Releases a) = true ∧
    ∃ j, (phases a s j).answers = true ∧ (phases a s j).claims = false

/-- The accept's hold finds its agent deleted, held by another call or on one. -/
def HoldRefused (a : Accept) (s : Service (Option κ)) (i : Option κ) : Prop :=
  phases a s i = .claimed ∧ (s.next i).any (Holds a) = true ∧ ¬ HoldsWell a s.state

variable [DecidableEq κ]

theorem Phase.Settled.claims {q : Phase} (h : q.Settled) : q.claims = false := by
  rcases h with rfl | rfl | rfl | ⟨_, rfl⟩ <;> rfl

theorem Phase.Settled.releases {q : Phase} (h : q.Settled) : q.releases = false := by
  rcases h with rfl | rfl | rfl | ⟨_, rfl⟩ <;> rfl

omit [DecidableEq κ] in
theorem Invariant.init (w : World) (h : w.LockRight a.userId a.callId) :
    Invariant a w (init : Option κ → Phase) where
  own ho := .inl (h.mp ho)
  busy hb := .inl (h.mpr hb)
  bears i := by cases i <;> exact ⟨nofun, nofun, nofun⟩
  owing i hi := by cases i <;> cases hi
  oneTaker i _ hi := by cases i <;> cases hi
  oneAccept i j hi hj := by
    cases i with
    | some k => cases hi
    | none =>
      cases j with
      | some k => cases hj
      | none => rfl

/-- An accept and whoever takes its offer back leave the lock right, if no
release of the agent comes after the hold and the hold finds them free. -/
theorem lockRight_of_finished (w : World) (a : Accept) (ts : κ → TakeBack)
    (h0 : w.LockRight a.userId a.callId) (schedule : List (Option κ))
    (hok : ∀ m ∈ (spawn w a ts).moves schedule, ¬ ReleasesLate a m.1 m.2 ∧ ¬ HoldRefused a m.1 m.2)
    (hfin : ((spawn w a ts).run schedule).Finished) :
    ((spawn w a ts).run schedule).state.LockRight a.userId a.callId := by
  have hprogs : ∀ i, (progs a ts i).Follows (protocol a) (init i) fun _ => Phase.Settled := by
    intro i
    cases i with
    | none => exact handleAgentJoined_follows
    | some k => exact takeBack_follows (ts k)
  have hinv := Protocol.invariant Stmt.exec (Invariant a)
    (fun cfg i => ¬ ReleasesLate a cfg i ∧ ¬ HoldRefused a cfg i) (fun cfg i s k hp hok hal h => by
      have hn : Service.next cfg i = some s := Service.next_eq_some.mpr ⟨k, hp⟩
      refine h.move (moves hal) (fun hq hs j hans => ?_) fun hq hs => ?_
      · by_contra hclaims
        rw [Bool.not_eq_true] at hclaims
        exact hok.1 ⟨hq, by simp [hn, hs, Releases], j, hans, hclaims⟩
      · by_contra hwell
        exact hok.2 ⟨hq, by simp [hn, hs, Holds], hwell⟩)
    (Protocol.conforms_spawn (s := w) hprogs) (Invariant.init w h0) hok
  have hsettled : ∀ i, (phases a ((spawn w a ts).run schedule) i).Settled :=
    fun i => hinv.1.1.final_of_finished (hfin i)
  constructor
  · intro hown
    refine (hinv.1.2.own hown).resolve_right ?_
    rintro ⟨i, hi⟩
    exact absurd ((hsettled i).claims.symm.trans hi) nofun
  · intro hbusy
    refine (hinv.1.2.busy hbusy).resolve_right ?_
    rintro ⟨i, hi⟩
    exact absurd ((hsettled i).releases.symm.trans hi) nofun

instance [Fintype κ] (a : Accept) (s : Service (Option κ)) (i : Option κ) :
    Decidable (ReleasesLate a s i) := inferInstanceAs (Decidable (_ ∧ _ ∧ ∃ _, _))

instance (a : Accept) (s : Service (Option κ)) (i : Option κ) : Decidable (HoldRefused a s i) :=
  inferInstanceAs (Decidable (_ ∧ _))

end runs

/-! ## An offer rings out as its agent accepts -/

def offeredCall : CallRow :=
  { direction := .inbound, status := .ringing, agentId := some 1, ringingAt := some 0,
    offeredAt := some 0 }

/-- Call 1 rings agent 1, who is held for it. -/
def offered : World :=
  { calls := .ofList [fun _ => offeredCall], agents := .ofList [fun _ => { busyCallId := some 1 }],
    customerOffer := fun _ => true, rooms := fun _ => { legSeq := 1, pendingAgent := some 1 } }

def accept : Accept := { callId := 1, userId := 1, sdpAnswer := .answer 1 }

/-- The sweep read the call's row while the offer was open. -/
def rungOut : Fin 1 → TakeBack := fun _ => .passOffer { offeredCall with id := 1 } 1 .missed (some 0)

/-- The offer is withdrawn and its agent released before the accept claims the call. -/
theorem lockRight_withdrawnFirst :
    ((spawn offered accept rungOut).run
      (List.replicate 12 (some 0) ++ List.replicate 26 none)).state.LockRight 1 1 :=
  lockRight_of_finished offered accept rungOut (by decide) _ (by decide) (by decide)

/-- The accept claims the call and holds its agent between the withdrawal and the release. -/
theorem not_lockRight :
    ¬ ∀ (w : World) (a : Accept) (ts : Fin 1 → TakeBack) (schedule : List (Option (Fin 1))),
      w.LockRight a.userId a.callId → ((spawn w a ts).run schedule).Finished →
        ((spawn w a ts).run schedule).state.LockRight a.userId a.callId := by
  intro h
  have hright := h offered accept rungOut (some 0 :: List.replicate 8 none ++
    List.replicate 12 (some 0) ++ List.replicate 26 none) (by decide) (by decide)
  revert hright
  decide

end OfferWithdrawal

end Callio
