import Callio.Cluster.Effects
import Mathlib.Control.Lawful

/-! A worker that takes a call over, step by step: the row, the room, the bridge,
the position in the IVR, the channel and its leg. Any of these may throw; when
`_take` is done, the worker hears the call, or has no lease for it. -/

namespace Callio.Adoption

open Concurrency Inbox CallInbox

/-! ## `_take` -/

/-- The steps of `_take` that may throw. `read` is none of them: it throws nothing
once the handler is set. -/
inductive Step
  | findById | adoptRoom | bridge | loadIvr | forCall | adoptLeg
  deriving DecidableEq, Repr

/-- What a run of `_take` meets outside the inbox. -/
structure Steps where
  throws : Step → Bool
  /-- `callMedia.adopt` found the room's snapshot. -/
  hasRoom : Bool
  /-- The row's status is IN_PROGRESS. -/
  inProgress : Bool

/-- Code that may throw. -/
abbrev Fallible := ExceptT Step Code

def attempt (steps : Steps) (step : Step) : Fallible Unit :=
  if steps.throws step then throw step else return ()

/-- `CallAdoption._take`. -/
def take (n c : Nat) (steps : Steps) : Fallible Unit := do
  attempt steps .findById
  let ended : Bool ← (Prog.cmd (Op.isEnded c) : Code Bool)
  if ended then
    forget n c
  else
    let claimed ← claim n c
    if claimed then
      try
        attempt steps .adoptRoom
      catch step =>
        release n c
        throw step
      if steps.hasRoom then
        if steps.inProgress then
          try attempt steps .bridge catch _ => pure ()
        attempt steps .loadIvr
        attempt steps .forCall
        try attempt steps .adoptLeg catch _ => pure ()
        let _ ← read n c
      else
        release n c
        forget n c

/-- What is left of the call when `_take` is done. -/
def taken (n c : Nat) (steps : Steps) (w : Cluster) : Cluster := ((take n c steps).run.eval Op.exec w).2

/-- The worker reads the call's inbox with its handler, or has no lease for it. -/
def Heard (w : Cluster) (n c : Nat) : Prop :=
  (∃ own, w.own n c = some own ∧ own.handler = true) ∨ w.lease c ≠ some n

/-- The worker wins the claim of a live call, gets its room, and throws before it
reads the inbox. -/
def Abandons (n c : Nat) (steps : Steps) (w : Cluster) : Prop :=
  (steps.throws .findById = false ∧ w.ended c = false) ∧
    (w.own n c = none ∧ (w.flush n).lease c = none) ∧
    (steps.throws .adoptRoom = false ∧ steps.hasRoom = true) ∧
    (steps.throws .loadIvr = true ∨ steps.throws .forCall = true)

instance (n c : Nat) (steps : Steps) (w : Cluster) : Decidable (Abandons n c steps w) :=
  inferInstanceAs (Decidable (_ ∧ _ ∧ _ ∧ _))

/-! ## The inbox, alone -/

variable {w : Cluster} {n c : Nat}

theorem lease_flush_ne (h : w.lease c ≠ some n) : (w.flush n).lease c ≠ some n := by
  intro hlease
  obtain hop | ⟨hbefore, _⟩ := (Op.flush n).lease_exec w hlease
  · cases hop
  · exact h hbefore

theorem lease_flush_of_release (h : .releaseLease c ∈ (w.nodes n).sent) : (w.flush n).lease c ≠ some n := by
  intro hlease
  obtain hop | ⟨_, hstays⟩ := (Op.flush n).lease_exec w hlease
  · cases hop
  · have hmem : .releaseLease c ∈ ((w.flush n).nodes n).sent := hstays h
    rw [Cluster.sent_flush] at hmem
    cases hmem

theorem flush_of_nil (h : (w.nodes n).sent = []) : w.flush n = w := by
  unfold Cluster.flush
  rw [h]
  rfl

@[simp] theorem flush_flush (w : Cluster) (n : Nat) : (w.flush n).flush n = w.flush n :=
  flush_of_nil (w.sent_flush n)

theorem eval_await {n : Nat} (op : Op) (w : Cluster) :
    (await n op).eval Op.exec w = ((op.exec (w.flush n)).2, (op.exec (w.flush n)).1) := rfl

/-- A release leaves the worker without the call and without its lease. -/
theorem release_heard (h : (w.own n c).isSome = true ∨ w.lease c ≠ some n) :
    ((release n c).eval Op.exec w).2.lease c ≠ some n := by
  unfold release
  rw [Prog.eval_bind, Prog.eval_cmd]
  by_cases hown : (w.own n c).isSome = true
  · have hexec : (Op.unregister n c).exec w =
        ((w.setOwned n ((w.nodes n).owned.erase c)).send n (.releaseLease c), true) := if_pos hown
    rw [hexec]
    apply lease_flush_of_release
    simp [Cluster.sent_send]
  · have hexec : (Op.unregister n c).exec w = (w, false) := if_neg hown
    rw [hexec]
    exact h.resolve_left hown

theorem forget_heard (h : w.lease c ≠ some n) : ((forget n c).eval Op.exec w).2.lease c ≠ some n :=
  lease_flush_ne h

/-- What `enter` makes of a worker with nothing under way. -/
def entered (w : Cluster) (n c : Nat) : Cluster :=
  { w.setOwned n ((w.nodes n).owned.insert c ⟨(w.cursor c).getD 0, false⟩) with
    leased := Function.update w.leased c true }

theorem enter_eval (h : (w.nodes n).sent = []) : (enter n c).eval Op.exec w = (true, entered w n c) := by
  have hflush : w.flush n = w := flush_of_nil h
  have hflush' : (w.setOwned n ((w.nodes n).owned.insert c ⟨(w.cursor c).getD 0, false⟩)).flush n =
      w.setOwned n ((w.nodes n).owned.insert c ⟨(w.cursor c).getD 0, false⟩) := by
    apply flush_of_nil
    rwa [Cluster.sent_setOwned]
  unfold enter
  rw [Prog.eval_bind, eval_await, hflush]
  show (true, ((Op.addLeased c).exec ((w.setOwned n ((w.nodes n).owned.insert c
    ⟨(w.cursor c).getD 0, false⟩)).flush n)).1) = _
  rw [hflush']
  rfl

theorem claim_eval : (claim n c).eval Op.exec w =
    if (w.own n c).isSome = true then (true, w)
    else if (w.flush n).lease c = none then
      (true, entered { w.flush n with lease := Function.update (w.flush n).lease c (some n) } n c)
    else if (w.flush n).lease c = some n then (true, entered (w.flush n) n c)
    else (false, w.flush n) := by
  have hsent := w.sent_flush n
  unfold claim
  rw [Prog.eval_bind, Prog.eval_cmd, show (Op.owns n c).exec w = (w, (w.own n c).isSome) from rfl]
  by_cases hown : (w.own n c).isSome = true
  · simp only [if_pos hown]
    rfl
  simp only [if_neg hown]
  rw [Prog.eval_bind, eval_await]
  by_cases hfree : (w.flush n).lease c = none
  · have htaken : (Op.setLease n c).exec (w.flush n) =
        ({ w.flush n with lease := Function.update (w.flush n).lease c (some n) }, true) := by
      simp [Op.exec, hfree]
    rw [htaken, if_pos hfree]
    exact enter_eval hsent
  · have hrefused : (Op.setLease n c).exec (w.flush n) = (w.flush n, false) :=
      if_pos (Option.isSome_iff_ne_none.mpr hfree)
    rw [hrefused, if_neg hfree]
    show Prog.eval Op.exec (await n (.getLease c) >>= _) (w.flush n) = _
    rw [Prog.eval_bind, eval_await, flush_flush]
    show Prog.eval Op.exec (if (w.flush n).lease c = some n then enter n c else pure false) (w.flush n) = _
    by_cases hheld : (w.flush n).lease c = some n
    · rw [if_pos hheld, if_pos hheld]
      exact enter_eval hsent
    · rw [if_neg hheld, if_neg hheld]
      rfl

/-! ## `_take`, alone -/

section fallible

variable {α β : Type}

theorem run_tryCatch_eval (x : Fallible α) (f : Step → Fallible α) (w : Cluster) :
    (tryCatch x f).run.eval Op.exec w =
      match (x.run.eval Op.exec w).1 with
      | .ok a => (.ok a, (x.run.eval Op.exec w).2)
      | .error step => (f step).run.eval Op.exec (x.run.eval Op.exec w).2 := by
  show (x.run >>= _).eval Op.exec w = _
  rw [Prog.eval_bind]
  cases (x.run.eval Op.exec w).1 <;> rfl

theorem run_attempt (steps : Steps) (step : Step) :
    (attempt steps step).run = Prog.ret (if steps.throws step = true then .error step else .ok ()) := by
  unfold attempt
  split <;> rfl

theorem run_tried (steps : Steps) {step : Step} (h : ¬ steps.throws step = true) (f : Step → Fallible Unit)
    (w : Cluster) : (tryCatch (attempt steps step) f).run.eval Op.exec w = (.ok (), w) := by
  rw [run_tryCatch_eval, run_attempt, if_neg h]
  rfl

/-- A step whose failure is caught makes no difference. -/
theorem run_caught (steps : Steps) (step : Step) (w : Cluster) :
    (tryCatch (attempt steps step) fun _ => pure () : Fallible Unit).run.eval Op.exec w = (.ok (), w) := by
  rw [run_tryCatch_eval, run_attempt]
  split <;> rfl

end fallible

theorem taken_eq (n c : Nat) (steps : Steps) (w : Cluster) :
    taken n c steps w =
      if steps.throws .findById = true then w
      else if w.ended c = true then ((forget n c).eval Op.exec w).2
      else if ((claim n c).eval Op.exec w).1 = false then ((claim n c).eval Op.exec w).2
      else if steps.throws .adoptRoom = true then
        ((release n c).eval Op.exec ((claim n c).eval Op.exec w).2).2
      else if steps.hasRoom = false then
        ((forget n c).eval Op.exec ((release n c).eval Op.exec ((claim n c).eval Op.exec w).2).2).2
      else if steps.throws .loadIvr = true ∨ steps.throws .forCall = true then ((claim n c).eval Op.exec w).2
      else ((read n c).eval Op.exec ((claim n c).eval Op.exec w).2).2 := by
  unfold taken take
  by_cases hfind : steps.throws .findById = true
  · simp [hfind, run_attempt]
  by_cases hended : w.ended c = true
  · simp [hfind, hended, run_attempt, Prog.eval_bind, Op.exec]
  by_cases hclaim : ((claim n c).eval Op.exec w).1 = false
  · simp [hfind, hended, hclaim, run_attempt, Prog.eval_bind, Op.exec]
  by_cases hadopt : steps.throws .adoptRoom = true
  · simp [hfind, hended, hclaim, hadopt, run_tryCatch_eval, run_attempt, Prog.eval_bind, Op.exec]
  have htried := run_tried steps hadopt
  by_cases hroom : steps.hasRoom = false
  · simp [hfind, hended, hclaim, hadopt, hroom, htried, run_attempt, Prog.eval_bind, Op.exec]
  have hcaught := run_caught steps
  by_cases hivr : steps.throws .loadIvr = true
  · by_cases hprogress : steps.inProgress = true <;>
      simp [hfind, hended, hclaim, hadopt, hroom, hivr, hprogress, htried, hcaught, run_attempt,
        Prog.eval_bind, Op.exec]
  by_cases hchannel : steps.throws .forCall = true <;> by_cases hprogress : steps.inProgress = true <;>
    simp [hfind, hended, hclaim, hadopt, hroom, hivr, hchannel, hprogress, htried, hcaught, run_attempt,
      Prog.eval_bind, Op.exec]

/-- How `callMedia.adopt` ends. -/
def Steps.room (steps : Steps) : RoomAdoption :=
  if steps.throws .adoptRoom = true then .failed else if steps.hasRoom = false then .noRoom else .adopted

/-- The `_take` of the task pool is this one, with nothing but the room failing. -/
theorem taken_eq_take (n c : Nat) (steps : Steps) (w : Cluster) (hfind : steps.throws .findById = false)
    (hivr : steps.throws .loadIvr = false) (hchannel : steps.throws .forCall = false) :
    taken n c steps w = ((Inbox.take n c steps.room).eval Op.exec w).2 := by
  rw [taken_eq]
  unfold Inbox.take Steps.room
  by_cases hended : w.ended c = true
  · simp [hfind, hended, Prog.eval_bind, Op.exec]
  by_cases hclaim : ((claim n c).eval Op.exec w).1 = false
  · simp [hfind, hended, hclaim, Prog.eval_bind, Op.exec]
  by_cases hadopt : steps.throws .adoptRoom = true
  · simp [hfind, hended, hclaim, hadopt, Prog.eval_bind, Op.exec]
  by_cases hroom : steps.hasRoom = false
  · simp [hfind, hended, hclaim, hadopt, hroom, Prog.eval_bind, Op.exec]
  simp [hfind, hended, hclaim, hadopt, hroom, hivr, hchannel, Prog.eval_bind, Op.exec]

/-! ## The rule -/

theorem read_heard {lastId : Nat} {handler : Bool} (h : w.own n c = some ⟨lastId, handler⟩) :
    Heard ((read n c).eval Op.exec w).2 n c := by
  have hexec : (Op.setHandler n c).exec w =
      (w.setOwned n ((w.nodes n).owned.insert c ⟨lastId, true⟩), true) := by
    simp [Op.exec, h]
  left
  refine ⟨⟨lastId, true⟩, ?_, rfl⟩
  show ((Op.setHandler n c).exec w).1.own n c = _
  rw [hexec, w.own_insert, if_pos ⟨rfl, rfl⟩]

/-- A claim of a call that is heard: the worker has the call, or enters it
without a handler, or another worker has the lease. -/
theorem claim_cases (h : Heard w n c) :
    ((w.own n c).isSome = true ∧ (claim n c).eval Op.exec w = (true, w)) ∨
      (w.own n c = none ∧ (w.flush n).lease c = none ∧ ((claim n c).eval Op.exec w).1 = true ∧
        ((claim n c).eval Op.exec w).2.lease c = some n ∧
        ∃ lastId, ((claim n c).eval Op.exec w).2.own n c = some ⟨lastId, false⟩) ∨
      ((w.flush n).lease c ≠ none ∧ ((claim n c).eval Op.exec w).1 = false ∧
        ((claim n c).eval Op.exec w).2.lease c ≠ some n) := by
  rw [claim_eval]
  cases hown : w.own n c with
  | some own => exact .inl ⟨rfl, if_pos rfl⟩
  | none =>
    have hne : (w.flush n).lease c ≠ some n := by
      obtain ⟨own, hsome, _⟩ | hlease := h
      · rw [hown] at hsome
        cases hsome
      · exact lease_flush_ne hlease
    right
    rw [if_neg (by simp)]
    by_cases hfree : (w.flush n).lease c = none
    · left
      rw [if_pos hfree]
      refine ⟨rfl, hfree, rfl, Function.update_self .., ?_⟩
      refine ⟨((w.flush n).cursor c).getD 0, ?_⟩
      show (Cluster.setOwned _ n _).own n c = _
      rw [Cluster.own_insert, if_pos ⟨rfl, rfl⟩]
    · right
      rw [if_neg hfree, if_neg hne]
      exact ⟨hfree, rfl, hne⟩

/-- Unless the worker abandons the call, it hears the call when `_take` is done, or
has no lease for it, as it was before. -/
theorem taken_heard_iff (n c : Nat) (steps : Steps) (w : Cluster) (h : Heard w n c) :
    Heard (taken n c steps w) n c ↔ ¬ Abandons n c steps w := by
  unfold Abandons
  rw [taken_eq]
  by_cases hfind : steps.throws .findById = true
  · simp [hfind, h]
  by_cases hended : w.ended c = true
  · have hforget : Heard ((forget n c).eval Op.exec w).2 n c := by
      obtain ⟨own, hown, hhandler⟩ | hlease := h
      · exact .inl ⟨own, (w.own_flush n n c).trans hown, hhandler⟩
      · exact .inr (forget_heard hlease)
    simp [hfind, hended, hforget]
  simp only [if_neg hfind, if_neg hended]
  obtain ⟨hown, hclaim⟩ | ⟨hown, hfree, hclaim, hlease, lastId, hentered⟩ | ⟨hheld, hclaim, hlease⟩ := claim_cases h
  · -- the worker has the call already
    have hnot : ¬ w.own n c = none := Option.isSome_iff_ne_none.mp hown
    have hrelease := release_heard (.inl hown)
    rw [hclaim]
    simp only [hnot, false_and, and_false, not_false_eq_true, iff_true, Bool.true_eq_false, if_false]
    split
    · exact .inr hrelease
    split
    · exact .inr (forget_heard hrelease)
    split
    · exact h
    · obtain ⟨own, hsome⟩ := Option.isSome_iff_exists.mp hown
      exact read_heard hsome
  · -- it enters the call: what it hears is decided by what throws next
    have hrelease := release_heard (.inl (Option.isSome_iff_exists.mpr ⟨_, hentered⟩))
    have hdeaf : ¬ Heard ((claim n c).eval Op.exec w).2 n c := by
      rintro (⟨own, hsome, hhandler⟩ | hne)
      · rw [hentered] at hsome
        cases hsome
        cases hhandler
      · exact hne hlease
    rw [hclaim]
    simp only [Bool.true_eq_false, if_false, hown, hfree, true_and]
    split
    · rename_i hadopt
      simp only [hadopt, Bool.true_eq_false, false_and, and_false, not_false_eq_true, iff_true]
      exact .inr hrelease
    rename_i hadopt
    split
    · rename_i hroom
      simp only [hroom, Bool.false_eq_true, false_and, and_false, not_false_eq_true, iff_true]
      exact .inr (forget_heard hrelease)
    rename_i hroom
    split
    · rename_i hthrows
      simp [hdeaf, hfind, hended, hadopt, hroom, hthrows]
    · rename_i hthrows
      simp only [hthrows, and_false, not_false_eq_true, iff_true]
      exact read_heard hentered
  · -- another worker has it
    rw [if_pos hclaim]
    simp only [hheld, and_false, false_and, not_false_eq_true, iff_true]
    exact .inr hlease

/-! ## A position that cannot be loaded -/

/-- Call 1 is live, and nobody has its lease. -/
def orphaned : Cluster := { leased := fun c => c = 1 }

def allGoesWell : Steps := { throws := fun _ => false, hasRoom := true, inProgress := true }

theorem heard_allGoesWell : Heard (taken 2 1 allGoesWell orphaned) 2 1 :=
  (taken_heard_iff 2 1 allGoesWell orphaned (.inr (by decide))).mpr (by decide)

/-- Redis fails when the position in the IVR is read: the worker has the lease
and renews it, and no handler is set. -/
theorem not_heard :
    ¬ ∀ (n c : Nat) (steps : Steps) (w : Cluster), Heard w n c → Heard (taken n c steps w) n c := by
  intro h
  let steps : Steps := { allGoesWell with throws := fun step => step = .loadIvr }
  have hown : (taken 2 1 steps orphaned).own 2 1 = some ⟨0, false⟩ := by decide
  obtain ⟨own, hsome, hhandler⟩ | hlease := h 2 1 steps orphaned (.inr (by decide))
  · rw [hown] at hsome
    cases hsome
    cases hhandler
  · exact hlease (by decide)

end Callio.Adoption
