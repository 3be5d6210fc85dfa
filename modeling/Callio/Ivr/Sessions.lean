import Mathlib.Data.List.Induction
import Callio.Ivr.Coordinator
import Callio.Ivr.Listening

/-! What holds of the IVR coordinator whatever comes: whose a run is, that nothing is
registered for a run that was not, and that a setup has its guard. -/

namespace Callio.IvrCoordinator

open Ivr

variable {ι : Type}

/-! ## Listeners -/

section counts

variable {α : Type} [DecidableEq α]

@[simp] theorem count_off (l : List α) (x y : α) : (off l x).count y = l.count y - if x = y then 1 else 0 := by
  simp [off, List.count_erase, beq_eq_decide]

end counts

/-- The constructor's listener is there once, before all others. -/
def Headed (listeners : List Listener) : Prop := ∃ rest, listeners = .clearLatch :: rest ∧ .clearLatch ∉ rest

theorem Headed.append {listeners : List Listener} (h : Headed listeners) {listener : Listener} (hl : listener ≠ .clearLatch) :
    Headed (listeners ++ [listener]) := by
  obtain ⟨rest, rfl, hrest⟩ := h
  refine ⟨rest ++ [listener], rfl, fun hmem => ?_⟩
  rcases List.mem_append.mp hmem with hmem | hmem
  · exact hrest hmem
  · exact hl (List.mem_singleton.mp hmem).symm

theorem Headed.off {listeners : List Listener} (h : Headed listeners) {listener : Listener} (hl : listener ≠ .clearLatch) :
    Headed (off listeners listener) := by
  obtain ⟨rest, rfl, hrest⟩ := h
  refine ⟨IvrCoordinator.off rest listener, ?_, fun hmem => hrest ?_⟩
  · have hhead : ([.clearLatch] : List Listener).erase listener = [.clearLatch] :=
      List.erase_of_not_mem fun hmem => hl (List.mem_singleton.mp hmem)
    by_cases hmem : listener ∈ rest
    · simp [IvrCoordinator.off, List.erase_append, hmem]
    · simp [IvrCoordinator.off, List.erase_append, hmem, hhead, List.erase_of_not_mem]
  · exact List.mem_reverse.mp (List.mem_of_mem_erase (List.mem_reverse.mp hmem))

/-! ## What holds of every run -/

/-- What holds whatever comes. -/
structure Wf (st : State ι) : Prop where
  own : ∀ c run, st.sessions c = some (.session run) → st.callOf run = c ∧ run < st.started
  clearLatch : Headed st.onTerminated
  fresh : ∀ run, st.started ≤ run → st.onTerminated.count (.earlyGuard run) = 0 ∧
    st.onTerminated.count (.termination run) = 0 ∧ st.onComplete.count run = 0 ∧ st.settingUp.count run = 0 ∧
      (st.runs run).engine = none

theorem wf_init : Wf ({} : State ι) where
  own _ _ h := by cases h
  clearLatch := ⟨[], rfl, List.not_mem_nil⟩
  fresh run _ := ⟨by simp, by simp, rfl, rfl, rfl⟩

/-- Runs stay whose they are, nothing is registered for a run that was not, and no engine
begins to listen. -/
structure Keeps (st st' : State ι) : Prop where
  callOf : ∀ run, st'.callOf run = st.callOf run
  started : st'.started = st.started
  sessions : ∀ c run, st'.sessions c = some (.session run) → st.sessions c = some (.session run)
  clearLatch : Headed st.onTerminated → Headed st'.onTerminated
  guard : ∀ run, st'.onTerminated.count (.earlyGuard run) = st.onTerminated.count (.earlyGuard run)
  termination : ∀ run, st'.onTerminated.count (.termination run) ≤ st.onTerminated.count (.termination run)
  complete : ∀ run, st'.onComplete.count run ≤ st.onComplete.count run
  setUp : st'.settingUp = st.settingUp
  engine : ∀ run flow' engine', (st'.runs run).engine = some (flow', engine') →
    ∃ flow engine, (st.runs run).engine = some (flow, engine) ∧ Engine.Muted engine engine'

namespace Keeps

theorem refl (st : State ι) : Keeps st st :=
  ⟨fun _ => rfl, rfl, fun _ _ h => h, id, fun _ => rfl, fun _ => Nat.le_refl _, fun _ => Nat.le_refl _, rfl,
    fun _ _ _ h => ⟨_, _, h, .refl _⟩⟩

theorem trans {st st' st'' : State ι} (h : Keeps st st') (h' : Keeps st' st'') : Keeps st st'' where
  callOf run := (h'.callOf run).trans (h.callOf run)
  started := h'.started.trans h.started
  sessions c run hs := h.sessions c run (h'.sessions c run hs)
  clearLatch hh := h'.clearLatch (h.clearLatch hh)
  guard run := (h'.guard run).trans (h.guard run)
  termination run := Nat.le_trans (h'.termination run) (h.termination run)
  complete run := Nat.le_trans (h'.complete run) (h.complete run)
  setUp := h'.setUp.trans h.setUp
  engine run flow'' engine'' he := by
    obtain ⟨flow', engine', he', hmuted'⟩ := h'.engine run flow'' engine'' he
    obtain ⟨flow, engine, he, hmuted⟩ := h.engine run flow' engine' he'
    exact ⟨flow, engine, he, hmuted.trans hmuted'⟩

theorem engine_none {st st' : State ι} (h : Keeps st st') {run : Nat} (he : (st.runs run).engine = none) :
    (st'.runs run).engine = none := by
  cases he' : (st'.runs run).engine with
  | none => rfl
  | some e =>
    obtain ⟨flow, engine, hold, -⟩ := h.engine run e.1 e.2 he'
    rw [he] at hold
    cases hold

theorem wf {st st' : State ι} (h : Keeps st st') (hw : Wf st) : Wf st' where
  own c run hs := by
    rw [h.callOf, h.started]
    exact hw.own c run (h.sessions c run hs)
  clearLatch := h.clearLatch hw.clearLatch
  fresh run hrun := by
    obtain ⟨hguard, htermination, hcomplete, hsetUp, hengine⟩ := hw.fresh run (h.started ▸ hrun)
    exact ⟨(h.guard run).trans hguard, Nat.le_zero.mp (htermination ▸ h.termination run),
      Nat.le_zero.mp (hcomplete ▸ h.complete run), h.setUp ▸ hsetUp, h.engine_none hengine⟩

end Keeps

theorem keeps_setEngine {st : State ι} {run : Nat} {flow flow' : Flow ι} {before after : Engine ι}
    (hbefore : (st.runs run).engine = some (flow', before)) (hmuted : Engine.Muted before after) :
    Keeps st (st.setEngine run flow after) where
  callOf run' := by
    unfold State.setEngine State.setRun State.callOf
    by_cases hrun : run' = run
    · subst hrun
      simp
    · simp [hrun]
  started := rfl
  sessions _ _ h := h
  clearLatch h := h
  guard _ := rfl
  termination _ := Nat.le_refl _
  complete _ := Nat.le_refl _
  setUp := rfl
  engine run' flow'' engine he := by
    unfold State.setEngine State.setRun at he
    by_cases hrun : run' = run
    · subst hrun
      simp only [Function.update_self, Option.some.injEq, Prod.mk.injEq] at he
      exact ⟨flow', before, hbefore, he.2 ▸ hmuted⟩
    · simp only [Function.update_of_ne hrun] at he
      exact ⟨_, _, he, .refl _⟩

/-- The listeners of a run go. -/
theorem keeps_off (st : State ι) (run : Nat) (completed : Nat → Bool) (transfers stops : List Nat) :
    Keeps st { st with
      completedCallIds := completed
      onComplete := off st.onComplete run
      onTerminated := off st.onTerminated (.termination run)
      transfers := transfers
      stops := stops } :=
  ⟨fun _ => rfl, rfl, fun _ _ h => h, fun h => h.off nofun, fun _ => by simp, fun _ => by simp, fun _ => by simp, rfl,
    fun _ _ _ h => ⟨_, _, h, .refl _⟩⟩

theorem keeps_stopEngine (run : Nat) (st : State ι) : Keeps st (stopEngine run st) := by
  unfold stopEngine
  split
  · exact keeps_setEngine ‹_› (Engine.muted_stop _)
  · exact Keeps.refl st

theorem keeps_stopSession (callId : Nat) (st : State ι) : Keeps st (stopSession callId st) := by
  unfold stopSession
  split
  · exact (keeps_off st _ _ st.transfers _).trans (keeps_stopEngine _ _)
  · exact Keeps.refl st

theorem keeps_onComplete (callId : Nat) (action : Action ι) (st : State ι) : Keeps st (onComplete callId action st) := by
  cases action with
  | transferred data =>
    exact ⟨fun _ => rfl, rfl, fun _ _ h => h, id, fun _ => rfl, fun _ => Nat.le_refl _, fun _ => Nat.le_refl _, rfl,
      fun _ _ _ h => ⟨_, _, h, .refl _⟩⟩
  | hungUp | timeout | error => exact keeps_stopSession callId st

theorem keeps_heardComplete (callId : Nat) (action : Action ι) (st : State ι) (run : Nat) :
    Keeps st (heardComplete callId action st run) := by
  unfold heardComplete
  split
  · refine Keeps.trans ?_ (keeps_onComplete callId action _)
    exact ⟨fun _ => rfl, rfl, fun _ _ h => h, id, fun _ => rfl, fun _ => Nat.le_refl _, fun _ => by simp, rfl,
      fun _ _ _ h => ⟨_, _, h, .refl _⟩⟩
  · exact Keeps.refl st

theorem keeps_ivrComplete (callId : Nat) (action : Action ι) (st : State ι) : Keeps st (ivrComplete callId action st) := by
  unfold ivrComplete
  generalize st.onComplete = heard
  induction heard generalizing st with
  | nil => exact Keeps.refl st
  | cons run heard ih => exact (keeps_heardComplete callId action st run).trans (ih _)

theorem keeps_heardTerminated (callId : Nat) (st : State ι) (listener : Listener) :
    Keeps st (heardTerminated callId st listener) := by
  cases listener with
  | clearLatch =>
    exact ⟨fun _ => rfl, rfl, fun _ _ h => h, id, fun _ => rfl, fun _ => Nat.le_refl _, fun _ => Nat.le_refl _, rfl,
      fun _ _ _ h => ⟨_, _, h, .refl _⟩⟩
  | earlyGuard run =>
    rw [heardTerminated]
    split
    · refine ⟨fun run' => ?_, rfl, fun _ _ h => h, id, fun _ => rfl, fun _ => Nat.le_refl _,
        fun _ => Nat.le_refl _, rfl, fun run' flow engine he => ?_⟩
      all_goals by_cases hrun : run' = run
      · subst hrun
        simp [State.setRun, State.callOf]
      · simp [State.setRun, State.callOf, hrun]
      · subst hrun
        exact ⟨flow, engine, by simpa [State.setRun] using he, .refl engine⟩
      · exact ⟨flow, engine, by simpa [State.setRun, hrun] using he, .refl engine⟩
    · exact Keeps.refl st
  | termination run =>
    rw [heardTerminated]
    split
    · exact (keeps_off st run st.completedCallIds st.transfers st.stops).trans (keeps_stopSession callId _)
    · exact Keeps.refl st

theorem keeps_terminated (callId : Nat) (order : List Listener) (st : State ι) :
    Keeps st (order.foldl (heardTerminated callId) st) := by
  induction order generalizing st with
  | nil => exact Keeps.refl st
  | cons listener order ih => exact (keeps_heardTerminated callId st listener).trans (ih _)

theorem keeps_suspend (st : State ι) (run : Nat) : Keeps st (suspend st run) := by
  unfold suspend
  split
  · exact (keeps_off st run st.completedCallIds st.transfers st.stops).trans (keeps_stopEngine run _)
  · exact Keeps.refl st

theorem keeps_suspends (runs : List Nat) (st : State ι) : Keeps st (runs.foldl suspend st) := by
  induction runs generalizing st with
  | nil => exact Keeps.refl st
  | cons run runs ih => exact (keeps_suspend st run).trans (ih _)

theorem keeps_suspendAll (st : State ι) : Keeps st (suspendAll st) := by
  refine (keeps_suspends (List.range st.started) st).trans ?_
  exact ⟨fun _ => rfl, rfl, nofun, id, fun _ => rfl, fun _ => Nat.le_refl _, fun _ => Nat.le_refl _, rfl,
    fun _ _ _ h => ⟨_, _, h, .refl _⟩⟩

/-! ## Steps -/

section wf

variable {st : State ι}

theorem Wf.lt_started (h : Wf st) {run : Nat} (hrun : run ∈ st.settingUp) : run < st.started := by
  by_contra hge
  have hcount := (h.fresh run (Nat.le_of_not_lt hge)).2.2.2.1
  exact List.count_eq_zero.mp hcount hrun

theorem Wf.lt_started_of_engine (h : Wf st) {run : Nat} {e : Flow ι × Engine ι} (hrun : (st.runs run).engine = some e) :
    run < st.started := by
  by_contra hge
  rw [(h.fresh run (Nat.le_of_not_lt hge)).2.2.2.2] at hrun
  cases hrun

theorem Wf.setEngine (h : Wf st) {run : Nat} (hrun : run < st.started) (flow : Flow ι) (engine : Engine ι) :
    Wf (st.setEngine run flow engine) where
  own c run' hs := by
    obtain ⟨hown, hlt⟩ := h.own c run' hs
    refine ⟨?_, hlt⟩
    by_cases hrun' : run' = run
    · subst hrun'
      simpa [State.setEngine, State.setRun, State.callOf] using hown
    · simpa [State.setEngine, State.setRun, State.callOf, hrun'] using hown
  clearLatch := h.clearLatch
  fresh run' hle := by
    have hne : run' ≠ run := fun heq => absurd hrun (Nat.not_lt.mpr (heq ▸ hle))
    simpa [State.setEngine, State.setRun, hne] using h.fresh run' hle

theorem Wf.engineMoved (h : Wf st) {run : Nat} (hrun : run < st.started) (flow : Flow ι) (before after : Engine ι) :
    Wf (engineMoved run flow before after st) := by
  unfold IvrCoordinator.engineMoved
  dsimp only
  split
  · exact (keeps_ivrComplete _ _ _).wf (h.setEngine hrun flow after)
  · exact h.setEngine hrun flow after

theorem Wf.registered (h : Wf st) {run : Nat} (hrun : run < st.started) : Wf (registered run st) where
  own c run' hs := by
    by_cases hc : c = st.callOf run
    · subst hc
      simp only [IvrCoordinator.registered, Function.update_self, Option.some.injEq, Entry.session.injEq] at hs
      exact hs ▸ ⟨rfl, hrun⟩
    · exact h.own c run' (by simpa [IvrCoordinator.registered, hc] using hs)
  clearLatch := h.clearLatch.append nofun
  fresh run' hle := by
    have hne : run ≠ run' := fun heq => absurd hrun (Nat.not_lt.mpr (heq ▸ hle))
    simpa [IvrCoordinator.registered, hne] using h.fresh run' hle

theorem Wf.guardOff (h : Wf st) (run : Nat) : Wf { st with onTerminated := off st.onTerminated (.earlyGuard run) } where
  own := h.own
  clearLatch := h.clearLatch.off nofun
  fresh run' hle := by
    refine ⟨by simp [(h.fresh run' hle).1], ?_⟩
    simpa using (h.fresh run' hle).2

theorem Wf.setUpOver (h : Wf st) (run : Nat) : Wf { st with settingUp := st.settingUp.erase run } where
  own := h.own
  clearLatch := h.clearLatch
  fresh run' hle := by
    obtain ⟨hguard, htermination, hcomplete, hsetUp, hengine⟩ := h.fresh run' hle
    exact ⟨hguard, htermination, hcomplete, by simp [List.count_erase, hsetUp], hengine⟩

theorem Wf.released (h : Wf st) (run : Nat) : Wf (released run st) where
  own c run' hs := by
    have hc : c ≠ st.callOf run := by
      rintro rfl
      simp [IvrCoordinator.released] at hs
    exact h.own c run' (by simpa [IvrCoordinator.released, hc] using hs)
  clearLatch := (h.guardOff run).clearLatch
  fresh := (h.guardOff run).fresh

theorem Wf.startSession (h : Wf st) (callId : Nat) (resume : Option ι) : Wf (startSession callId resume st) := by
  unfold IvrCoordinator.startSession
  split
  · exact h
  · refine ⟨fun c run hs => ?_, ?_, fun run hle => ?_⟩
    · have hc : c ≠ callId := by
        rintro rfl
        simp at hs
      obtain ⟨hown, hlt⟩ := h.own c run (by simpa [hc] using hs)
      refine ⟨?_, Nat.lt_succ_of_lt hlt⟩
      simpa [State.callOf, Nat.ne_of_lt hlt] using hown
    · exact h.clearLatch.append nofun
    · have hne : st.started ≠ run := Nat.ne_of_lt (Nat.lt_of_succ_le hle)
      simpa [hne, hne.symm] using h.fresh run (Nat.le_of_succ_le hle)

theorem Wf.transfers (h : Wf st) (transfers : List Nat) : Wf { st with transfers := transfers } :=
  ⟨h.own, h.clearLatch, h.fresh⟩

theorem Wf.unheard (h : Wf st) (run : Nat) : Wf { st with onComplete := off st.onComplete run } := by
  refine ⟨h.own, h.clearLatch, fun run' hle => ?_⟩
  obtain ⟨hguard, htermination, hcomplete, hrest⟩ := h.fresh run' hle
  exact ⟨hguard, htermination, by simp [hcomplete], hrest⟩

theorem Wf.watched (h : Wf st) {run : Nat} (hrun : run < st.started) : Wf { st with onComplete := st.onComplete ++ [run] } := by
  refine ⟨h.own, h.clearLatch, fun run' hle => ?_⟩
  have hne : run ≠ run' := fun heq => absurd hrun (Nat.not_lt.mpr (heq ▸ hle))
  simpa [hne] using h.fresh run' hle

variable [DecidableEq ι]

theorem tidy_begun (flow : Flow ι) (resume : Option ι) : (begun flow resume).Tidy := by
  cases resume with
  | some nodeId => exact Engine.tidy_startAt .new rfl rfl nodeId
  | none => exact Engine.tidy_start .new rfl rfl

theorem Wf.established (h : Wf st) {run : Nat} (hrun : run < st.started) (flow : Flow ι) :
    Wf (established run flow st) :=
  ((h.registered hrun).engineMoved hrun flow {} _).guardOff run

theorem Wf.setUp (h : Wf st) {run : Nat} (hrun : run ∈ st.settingUp) (outcome : SetUp ι) : Wf (setUp run outcome st) := by
  have hlt := h.lt_started hrun
  have hw := h.setUpOver run
  cases outcome with
  | failed => exact hw.released run
  | ready flow =>
    rw [IvrCoordinator.setUp]
    dsimp only
    split
    · exact (hw.setEngine hlt flow (Engine.stop {})).released run
    · exact hw.established hlt flow

theorem Wf.replay (h : Wf st) (callId : Nat) : Wf (replay callId st) := by
  unfold IvrCoordinator.replay
  split
  · rename_i run hs
    obtain ⟨_, hlt⟩ := h.own callId run hs
    have hw := h.watched hlt
    dsimp only
    split
    · exact hw.engineMoved hlt _ _ _
    · exact hw
  · exact h

variable [Truthy ι]

theorem Wf.step (h : Wf st) (event : Event ι) : Wf (step st event) := by
  cases event with
  | startSession callId resume => exact h.startSession callId resume
  | setUp run outcome =>
    rw [IvrCoordinator.step]
    split
    · exact h.setUp ‹_› outcome
    · exact h
  | engine run event =>
    rw [IvrCoordinator.step]
    split
    · rename_i flow engine he
      exact h.engineMoved (h.lt_started_of_engine he) flow engine _
    · exact h
  | terminated callId order => exact (keeps_terminated callId order st).wf h
  | transferStops callId =>
    rw [IvrCoordinator.step]
    split
    · exact (keeps_stopSession callId _).wf (h.transfers _)
    · exact h
  | transferReplays callId =>
    rw [IvrCoordinator.step]
    split
    · exact (h.transfers _).replay callId
    · exact h
  | transferFails callId => exact h.transfers _
  | stopSettles callId =>
    rw [IvrCoordinator.step]
    split
    · refine ⟨fun c run hs => ?_, h.clearLatch, h.fresh⟩
      have hc : c ≠ callId := by
        rintro rfl
        simp [stopSettled] at hs
      exact h.own c run (by simpa [stopSettled, hc] using hs)
    · exact h
  | suspendAll => exact (keeps_suspendAll st).wf h

theorem wf_run (events : List (Event ι)) : Wf (run events) := by
  induction events using List.reverseRecOn with
  | nil => exact wf_init
  | append_singleton events event ih =>
    rw [run, List.foldl_append]
    exact ih.step event

/-! ## A setup has its guard -/

/-- A setup listens for `call:terminated` for as long as it goes on. -/
def Guarded (st : State ι) : Prop := ∀ run, st.onTerminated.count (.earlyGuard run) = st.settingUp.count run

omit [DecidableEq ι] [Truthy ι] in
theorem Keeps.guarded {st' : State ι} (h : Keeps st st') (hg : Guarded st) : Guarded st' := by
  intro run
  rw [h.guard, h.setUp]
  exact hg run

omit [DecidableEq ι] [Truthy ι] in
theorem keeps_engineMoved (run : Nat) (flow : Flow ι) (before after : Engine ι) (st : State ι) :
    Keeps (st.setEngine run flow after) (engineMoved run flow before after st) := by
  unfold engineMoved
  dsimp only
  split
  · exact keeps_ivrComplete _ _ _
  · exact Keeps.refl _

omit [Truthy ι] in
theorem guarded_setUp (h : Guarded st) (run : Nat) (outcome : SetUp ι) : Guarded (setUp run outcome st) := by
  have hreleased : ∀ st' : State ι, st'.onTerminated = st.onTerminated → st'.settingUp = st.settingUp.erase run →
      Guarded (released run st') := by
    intro st' honTerminated hsettingUp run'
    simp [released, honTerminated, hsettingUp, List.count_erase, h run']
  cases outcome with
  | failed => exact hreleased _ rfl rfl
  | ready flow =>
    rw [setUp]
    dsimp only
    split
    · exact hreleased _ rfl rfl
    · intro run'
      simp only [established, count_off, (keeps_engineMoved _ _ _ _ _).guard, (keeps_engineMoved _ _ _ _ _).setUp]
      simp [State.setEngine, State.setRun, registered, List.count_erase, h run']

theorem guarded_step (h : Guarded st) (event : Event ι) : Guarded (step st event) := by
  cases event with
  | startSession callId resume =>
    rw [step, startSession]
    split
    · exact h
    · intro run
      by_cases hrun : st.started = run
      · simp [hrun, h run]
      · simp [hrun, h run]
  | setUp run outcome =>
    rw [step]
    split
    · exact guarded_setUp h run outcome
    · exact h
  | engine run event =>
    rw [step]
    split
    · exact (keeps_engineMoved _ _ _ _ st).guarded h
    · exact h
  | terminated callId order => exact (keeps_terminated callId order st).guarded h
  | transferStops callId =>
    rw [step]
    split
    · exact (keeps_stopSession callId _).guarded h
    · exact h
  | transferReplays callId =>
    rw [step]
    split
    · unfold replay
      split
      · dsimp only
        split
        · exact (keeps_engineMoved _ _ _ _ _).guarded h
        · exact h
      · exact h
    · exact h
  | transferFails callId => exact h
  | stopSettles callId =>
    rw [step]
    split
    · exact h
    · exact h
  | suspendAll => exact (keeps_suspendAll st).guarded h

theorem guarded_run (events : List (Event ι)) : Guarded (run events) := by
  induction events using List.reverseRecOn with
  | nil => exact fun _ => rfl
  | append_singleton events event ih =>
    rw [run, List.foldl_append]
    exact guarded_step ih event

end wf

end Callio.IvrCoordinator
