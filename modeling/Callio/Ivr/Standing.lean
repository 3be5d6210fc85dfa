import Callio.Ivr.Runs
import Callio.Ivr.Sessions

/-! Where a call stands with the IVR coordinator. What comes for other calls does not
matter to it, and what comes for the call itself moves it from one standing to the next. -/

namespace Callio.IvrCoordinator

open Ivr

variable {ι : Type}

inductive Standing
  | idle
  /-- It is being set up; `terminated` is what its guard has heard. -/
  | settingUp (run : Nat) (terminated : Bool)
  | running (run : Nat)
  | stopping (run : Nat)

namespace Standing

def run? : Standing → Option Nat
  | idle => none
  | settingUp run _ | running run | stopping run => some run

def entry : Standing → Option Entry
  | idle => none
  | settingUp _ _ => some .pending
  | running run | stopping run => some (.session run)

def setUps : Standing → Nat → Nat
  | settingUp run _, run' => if run = run' then 1 else 0
  | _, _ => 0

def terminations : Standing → Nat → Nat
  | running run, run' => if run = run' then 1 else 0
  | _, _ => 0

def stops : Standing → Nat
  | stopping _ => 1
  | _ => 0

/-- Nothing of it will come to run again. -/
def Over : Standing → Prop
  | running _ => False
  | settingUp _ terminated => terminated = true
  | idle | stopping _ => True

end Standing

/-- How many times the run's engine is on `call:dtmf`. -/
def keySubscriptions (st : State ι) (run : Nat) : Nat := (st.runs run).engine.elim 0 (·.2.subscriptions)

theorem keySubscriptions_of_engine {st : State ι} {run : Nat} {flow : Flow ι} {engine : Engine ι}
    (he : (st.runs run).engine = some (flow, engine)) : keySubscriptions st run = engine.subscriptions := by
  rw [keySubscriptions, he]
  rfl

/-- How the engine of one of the call's runs is, where the call stands so: it works for the session
that runs only, and hears keys only for as long as its completion is waited for. -/
structure Attended (st : State ι) (standing : Standing) (run : Nat) (engine : Engine ι) : Prop where
  tidy : engine.Tidy
  live : engine.stopped = false → standing = .running run
  watched : 0 < engine.subscriptions → 0 < st.onComplete.count run

namespace Attended

variable {st st' : State ι} {standing standing' : Standing} {run : Nat} {engine : Engine ι}

theorem of_stopped (htidy : engine.Tidy) (hstopped : engine.stopped = true) : Attended st standing run engine where
  tidy := htidy
  live hlive := absurd (hstopped.symm.trans hlive) (by decide)
  watched hpos := absurd hpos (by rw [htidy.silent hstopped]; exact Nat.lt_irrefl 0)

theorem stopped (h : Attended st standing run engine) (hrun : standing ≠ .running run) : engine.stopped = true := by
  cases hstopped : engine.stopped with
  | true => rfl
  | false => exact absurd (h.live hstopped) hrun

theorem mono (h : Attended st standing run engine) (hle : st.onComplete.count run ≤ st'.onComplete.count run) :
    Attended st' standing run engine :=
  ⟨h.tidy, h.live, fun hpos => Nat.lt_of_lt_of_le (h.watched hpos) hle⟩

/-- An engine that did not run is as it was wherever the call stands now. -/
theorem off (h : Attended st standing run engine) (hrun : standing ≠ .running run) : Attended st' standing' run engine :=
  of_stopped h.tidy (h.stopped hrun)

end Attended

/-- The call stands so. Once it is late for it, its entry may be gone and a transfer may be left. -/
structure Stands (late : Prop) (st : State ι) (c : Nat) (standing : Standing) : Prop where
  entry : st.sessions c = standing.entry ∨ late ∧ (∀ run, standing ≠ .running run) ∧ st.sessions c = none
  own : ∀ run ∈ standing.run?, st.callOf run = c ∧ run < st.started
  termination : ∀ run, st.callOf run = c → st.onTerminated.count (.termination run) = standing.terminations run
  complete : ∀ run, st.callOf run = c → 0 < st.onComplete.count run → standing = .running run
  once : ∀ run, standing = .running run → st.onComplete.count run + st.transfers.count c ≤ 1
  engines : ∀ run flow engine, st.callOf run = c → (st.runs run).engine = some (flow, engine) → Attended st standing run engine
  setUp : ∀ run, st.callOf run = c → st.settingUp.count run = standing.setUps run
  heard : ∀ run terminated, standing = .settingUp run terminated → (st.runs run).terminated = terminated
  stops : st.stops.count c = standing.stops
  spare : ¬ late → (∀ run, standing ≠ .running run) → st.transfers.count c = 0
  begun : ∀ run terminated, standing = .settingUp run terminated → st.transfers.count c = 0

theorem stands_init (late : Prop) (c : Nat) : Stands late ({} : State ι) c .idle :=
  ⟨.inl rfl, nofun, fun _ _ => by simp [Standing.terminations], nofun, nofun, (fun _ _ _ _ he => by cases he),
    fun _ _ => rfl, nofun, rfl, fun _ _ => rfl,
    nofun⟩

/-! ## What comes for other calls -/

/-- Nothing of the call has moved. -/
structure Unmoved (c : Nat) (st st' : State ι) : Prop where
  sessions : st'.sessions c = st.sessions c
  latch : st'.completedCallIds c = st.completedCallIds c
  started : st.started ≤ st'.started
  callOf : ∀ run < st.started, st'.callOf run = st.callOf run
  runs : ∀ run, st'.callOf run = c → st'.runs run = st.runs run
  termination : ∀ run, st'.callOf run = c → st'.onTerminated.count (.termination run) = st.onTerminated.count (.termination run)
  complete : ∀ run, st'.callOf run = c → st'.onComplete.count run = st.onComplete.count run
  setUp : ∀ run, st'.callOf run = c → st'.settingUp.count run = st.settingUp.count run
  transfers : st'.transfers.count c = st.transfers.count c
  stops : st'.stops.count c = st.stops.count c

namespace Unmoved

variable {c : Nat} {st st' st'' : State ι}

theorem was (h : Unmoved c st st') {run : Nat} (hrun : st'.callOf run = c) : st.callOf run = c := by
  rw [State.callOf, ← h.runs run hrun]
  exact hrun

theorem refl (c : Nat) (st : State ι) : Unmoved c st st :=
  ⟨rfl, rfl, Nat.le_refl _, fun _ _ => rfl, fun _ _ => rfl, fun _ _ => rfl, fun _ _ => rfl, fun _ _ => rfl, rfl, rfl⟩

theorem trans (h : Unmoved c st st') (h' : Unmoved c st' st'') : Unmoved c st st'' where
  sessions := h'.sessions.trans h.sessions
  latch := h'.latch.trans h.latch
  started := Nat.le_trans h.started h'.started
  callOf run hrun := (h'.callOf run (Nat.lt_of_lt_of_le hrun h.started)).trans (h.callOf run hrun)
  runs run hrun := (h'.runs run hrun).trans (h.runs run (h'.was hrun))
  termination run hrun := (h'.termination run hrun).trans (h.termination run (h'.was hrun))
  complete run hrun := (h'.complete run hrun).trans (h.complete run (h'.was hrun))
  setUp run hrun := (h'.setUp run hrun).trans (h.setUp run (h'.was hrun))
  transfers := h'.transfers.trans h.transfers
  stops := h'.stops.trans h.stops

theorem stands {late : Prop} {standing : Standing} (h : Unmoved c st st') (hs : Stands late st c standing) :
    Stands late st' c standing where
  entry := h.sessions ▸ hs.entry
  own run hrun := by
    obtain ⟨hown, hlt⟩ := hs.own run hrun
    exact ⟨(h.callOf run hlt).trans hown, Nat.lt_of_lt_of_le hlt h.started⟩
  termination run hrun := (h.termination run hrun).trans (hs.termination run (h.was hrun))
  complete run hrun hpos := hs.complete run (h.was hrun) (h.complete run hrun ▸ hpos)
  once run hrun := by
    obtain ⟨hown, hlt⟩ := hs.own run (by rw [hrun]; rfl)
    rw [h.complete run ((h.callOf run hlt).trans hown), h.transfers]
    exact hs.once run hrun
  engines run flow engine hrun he := by
    rw [h.runs run hrun] at he
    exact (hs.engines run flow engine (h.was hrun) he).mono (Nat.le_of_eq (h.complete run hrun).symm)
  setUp run hrun := (h.setUp run hrun).trans (hs.setUp run (h.was hrun))
  heard run terminated hrun := by
    obtain ⟨hown, hlt⟩ := hs.own run (by rw [hrun]; rfl)
    rw [h.runs run ((h.callOf run hlt).trans hown)]
    exact hs.heard run terminated hrun
  stops := h.stops.trans hs.stops
  spare hlate hrunning := h.transfers.trans (hs.spare hlate hrunning)
  begun run terminated hrun := h.transfers.trans (hs.begun run terminated hrun)

/-- Where no run has changed. -/
theorem of_runs (hruns : st'.runs = st.runs) (hstarted : st'.started = st.started) (hsessions : st'.sessions c = st.sessions c)
    (hlatch : st'.completedCallIds c = st.completedCallIds c) (htransfers : st'.transfers.count c = st.transfers.count c)
    (hstops : st'.stops.count c = st.stops.count c)
    (hcounts : ∀ run, st.callOf run = c → st'.onTerminated.count (.termination run) = st.onTerminated.count (.termination run) ∧
      st'.onComplete.count run = st.onComplete.count run ∧ st'.settingUp.count run = st.settingUp.count run) :
    Unmoved c st st' := by
  have hcallOf : ∀ run, st'.callOf run = st.callOf run := fun run => congrArg (fun runs => (runs run).callId) hruns
  exact ⟨hsessions, hlatch, Nat.le_of_eq hstarted.symm, fun run _ => hcallOf run, fun run _ => congrFun hruns run,
    fun run hrun => (hcounts run (hcallOf run ▸ hrun)).1, fun run hrun => (hcounts run (hcallOf run ▸ hrun)).2.1,
    fun run hrun => (hcounts run (hcallOf run ▸ hrun)).2.2, htransfers, hstops⟩

end Unmoved

section unmoved

variable {c : Nat} {st : State ι}

theorem unmoved_setRun {run : Nat} (hrun : st.callOf run ≠ c) (f : Run ι → Run ι) (hf : ∀ r, (f r).callId = r.callId) :
    Unmoved c st (st.setRun run f) := by
  have hcallOf : ∀ run', (st.setRun run f).callOf run' = st.callOf run' := by
    intro run'
    by_cases heq : run' = run
    · subst heq
      simp [State.setRun, State.callOf, hf]
    · simp [State.setRun, State.callOf, heq]
  refine ⟨rfl, rfl, Nat.le_refl _, fun run' _ => hcallOf run', fun run' hrun' => ?_, fun _ _ => rfl, fun _ _ => rfl,
    fun _ _ => rfl, rfl, rfl⟩
  have hne : run' ≠ run := by
    rintro rfl
    exact hrun (hcallOf run' ▸ hrun')
  simp [State.setRun, hne]

theorem unmoved_setEngine {run : Nat} (hrun : st.callOf run ≠ c) (flow : Flow ι) (engine : Engine ι) :
    Unmoved c st (st.setEngine run flow engine) :=
  unmoved_setRun hrun _ fun _ => rfl

theorem unmoved_stopEngine {run : Nat} (hrun : st.callOf run ≠ c) : Unmoved c st (stopEngine run st) := by
  unfold stopEngine
  split
  · exact unmoved_setEngine hrun _ _
  · exact Unmoved.refl c st

/-- The listeners of another call's run go. -/
theorem unmoved_off {run : Nat} (hrun : st.callOf run ≠ c) (completed : Nat → Bool) (hcompleted : completed c = st.completedCallIds c)
    (stops : List Nat) (hstops : stops.count c = st.stops.count c) :
    Unmoved c st { st with
      completedCallIds := completed
      onComplete := off st.onComplete run
      onTerminated := off st.onTerminated (.termination run)
      stops := stops } := by
  refine Unmoved.of_runs rfl rfl rfl hcompleted rfl hstops fun run' hrun' => ?_
  have hne : run ≠ run' := by
    rintro rfl
    exact hrun hrun'
  simp [hne]

theorem unmoved_stopSession (hw : Wf st) {d : Nat} (hd : d ≠ c) : Unmoved c st (stopSession d st) := by
  unfold stopSession
  split
  · rename_i run hs
    have hrun : st.callOf run ≠ c := by
      rw [(hw.own d run hs).1]
      exact hd
    exact (unmoved_off hrun _ (Function.update_of_ne hd.symm _ _) _ (by simp [hd])).trans (unmoved_stopEngine hrun)
  · exact Unmoved.refl c st

theorem unmoved_transfers {transfers : List Nat} (htransfers : transfers.count c = st.transfers.count c) :
    Unmoved c st { st with transfers := transfers } :=
  Unmoved.of_runs rfl rfl rfl rfl htransfers rfl fun _ _ => ⟨rfl, rfl, rfl⟩

theorem unmoved_heardComplete (hw : Wf st) {d : Nat} (hd : d ≠ c) (action : Action ι) (run : Nat) :
    Unmoved c st (heardComplete d action st run) := by
  unfold heardComplete
  split
  · rename_i hrun
    have hoff : Unmoved c st { st with onComplete := off st.onComplete run } := by
      refine Unmoved.of_runs rfl rfl rfl rfl rfl rfl fun run' hrun' => ⟨rfl, ?_, rfl⟩
      have hne : run ≠ run' := by
        rintro rfl
        exact hd (hrun.symm.trans hrun')
      simp [hne]
    refine hoff.trans ?_
    cases action with
    | transferred data => exact unmoved_transfers (by simp [hd])
    | hungUp | timeout | error => exact unmoved_stopSession (hw.unheard run) hd
  · exact Unmoved.refl c st

theorem unmoved_ivrComplete (hw : Wf st) {d : Nat} (hd : d ≠ c) (action : Action ι) : Unmoved c st (ivrComplete d action st) := by
  unfold ivrComplete
  generalize st.onComplete = heard
  induction heard generalizing st with
  | nil => exact Unmoved.refl c st
  | cons run heard ih =>
    exact (unmoved_heardComplete hw hd action run).trans (ih ((keeps_heardComplete d action st run).wf hw))

theorem unmoved_engineMoved (hw : Wf st) {run : Nat} (hlt : run < st.started) (hrun : st.callOf run ≠ c) (flow : Flow ι)
    (before after : Engine ι) : Unmoved c st (engineMoved run flow before after st) := by
  have hset := unmoved_setEngine hrun flow after
  unfold engineMoved
  dsimp only
  split
  · refine hset.trans (unmoved_ivrComplete (hw.setEngine hlt flow after) ?_ _)
    simpa [State.setEngine, State.setRun, State.callOf] using hrun
  · exact hset

theorem unmoved_startSession {d : Nat} (hd : d ≠ c) (resume : Option ι) : Unmoved c st (startSession d resume st) := by
  unfold startSession
  split
  · exact Unmoved.refl c st
  · have hnew : ∀ run, (Function.update st.runs st.started { callId := d, resume } run).callId = c → st.started ≠ run := by
      rintro run hrun rfl
      exact hd (by simpa using hrun)
    refine ⟨Function.update_of_ne hd.symm _ _, rfl, Nat.le_succ _, fun run hlt => ?_, fun run hrun => ?_, fun run hrun => ?_,
      fun _ _ => rfl, fun run hrun => ?_, rfl, rfl⟩
    · simp [State.callOf, Nat.ne_of_lt hlt]
    · exact Function.update_of_ne (hnew run hrun).symm _ _
    · simp
    · simp [hnew run hrun]

theorem unmoved_released {run : Nat} (hrun : st.callOf run ≠ c) : Unmoved c st (released run st) := by
  refine Unmoved.of_runs rfl rfl (Function.update_of_ne hrun.symm _ _) rfl rfl rfl fun run' _ => ⟨?_, rfl, rfl⟩
  simp [released]

theorem unmoved_heardTerminated (hw : Wf st) {d : Nat} (hd : d ≠ c) (listener : Listener) :
    Unmoved c st (heardTerminated d st listener) := by
  cases listener with
  | clearLatch =>
    exact Unmoved.of_runs rfl rfl rfl (Function.update_of_ne hd.symm _ _) rfl rfl fun _ _ => ⟨rfl, rfl, rfl⟩
  | earlyGuard run =>
    rw [heardTerminated]
    split
    · rename_i hrun
      exact unmoved_setRun (hrun ▸ hd) _ fun _ => rfl
    · exact Unmoved.refl c st
  | termination run =>
    rw [heardTerminated]
    split
    · rename_i hrun
      have hw' := (keeps_off st run st.completedCallIds st.transfers st.stops).wf hw
      exact (unmoved_off (hrun ▸ hd) st.completedCallIds rfl st.stops rfl).trans (unmoved_stopSession hw' hd)
    · exact Unmoved.refl c st

theorem unmoved_terminated (hw : Wf st) {d : Nat} (hd : d ≠ c) (order : List Listener) :
    Unmoved c st (order.foldl (heardTerminated d) st) := by
  induction order generalizing st with
  | nil => exact Unmoved.refl c st
  | cons listener order ih =>
    exact (unmoved_heardTerminated hw hd listener).trans (ih ((keeps_heardTerminated d st listener).wf hw))

theorem unmoved_stopSettled {d : Nat} (hd : d ≠ c) : Unmoved c st (stopSettled d st) :=
  Unmoved.of_runs rfl rfl (Function.update_of_ne hd.symm _ _) rfl rfl (List.count_erase_of_ne hd.symm) fun _ _ => ⟨rfl, rfl, rfl⟩

variable [DecidableEq ι]

theorem unmoved_replay (hw : Wf st) {d : Nat} (hd : d ≠ c) : Unmoved c st (replay d st) := by
  unfold replay
  split
  · rename_i run hs
    obtain ⟨hown, hlt⟩ := hw.own d run hs
    have hrun : st.callOf run ≠ c := hown ▸ hd
    have hwatch : Unmoved c st { st with onComplete := st.onComplete ++ [run] } := by
      refine Unmoved.of_runs rfl rfl rfl rfl rfl rfl fun run' hrun' => ⟨rfl, ?_, rfl⟩
      have hne : run ≠ run' := by
        rintro rfl
        exact hrun hrun'
      simp [hne]
    dsimp only
    split
    · exact hwatch.trans (unmoved_engineMoved (hw.watched hlt) hlt hrun _ _ _)
    · exact hwatch
  · exact Unmoved.refl c st

theorem unmoved_established (hw : Wf st) {run : Nat} (hlt : run < st.started) (hrun : st.callOf run ≠ c) (flow : Flow ι) :
    Unmoved c st (established run flow st) := by
  have hregistered : Unmoved c st (registered run st) := by
    refine Unmoved.of_runs rfl rfl (Function.update_of_ne hrun.symm _ _) rfl rfl rfl fun run' hrun' => ?_
    have hne : run ≠ run' := by
      rintro rfl
      exact hrun hrun'
    simp [registered, hne]
  have hmoved := unmoved_engineMoved (hw.registered hlt) hlt hrun flow {} (begun flow (st.runs run).resume)
  refine (hregistered.trans hmoved).trans (Unmoved.of_runs rfl rfl rfl rfl rfl rfl fun run' _ => ⟨?_, rfl, rfl⟩)
  exact (count_off _ _ _).trans (by simp)

theorem unmoved_setUp (hw : Wf st) {run : Nat} (hlt : run < st.started) (hrun : st.callOf run ≠ c) (outcome : SetUp ι) :
    Unmoved c st (setUp run outcome st) := by
  have hover : Unmoved c st { st with settingUp := st.settingUp.erase run } := by
    refine Unmoved.of_runs rfl rfl rfl rfl rfl rfl fun run' hrun' => ⟨rfl, rfl, ?_⟩
    have hne : run' ≠ run := by
      rintro rfl
      exact hrun hrun'
    exact List.count_erase_of_ne hne
  cases outcome with
  | failed => exact hover.trans (unmoved_released hrun)
  | ready flow =>
    rw [setUp]
    dsimp only
    split
    · have hrun' : State.callOf { st with settingUp := st.settingUp.erase run } run ≠ c := hrun
      have hset := hover.trans (unmoved_setEngine hrun' flow (Engine.stop {}))
      refine hset.trans (unmoved_released ?_)
      simpa [State.setEngine, State.setRun, State.callOf] using hrun
    · exact hover.trans (unmoved_established (hw.setUpOver run) hlt hrun flow)

end unmoved

/-! ## What comes for the call -/

@[simp] theorem State.callOf_setEngine (st : State ι) (run run' : Nat) (flow : Flow ι) (engine : Engine ι) :
    (st.setEngine run flow engine).callOf run' = st.callOf run' := by
  by_cases hrun : run' = run
  · subst hrun
    simp [State.setEngine, State.setRun, State.callOf]
  · simp [State.setEngine, State.setRun, State.callOf, hrun]

@[simp] theorem State.terminated_setEngine (st : State ι) (run run' : Nat) (flow : Flow ι) (engine : Engine ι) :
    ((st.setEngine run flow engine).runs run').terminated = (st.runs run').terminated := by
  by_cases hrun : run' = run
  · subst hrun
    simp [State.setEngine, State.setRun]
  · simp [State.setEngine, State.setRun, hrun]

theorem engine_setEngine {st : State ι} {run run' : Nat} {flow flow' : Flow ι} {engine engine' : Engine ι}
    (h : ((st.setEngine run flow engine).runs run').engine = some (flow', engine')) :
    (run' = run ∧ engine' = engine) ∨ (run' ≠ run ∧ (st.runs run').engine = some (flow', engine')) := by
  by_cases hrun : run' = run
  · subst hrun
    simp only [State.setEngine, State.setRun, Function.update_self, Option.some.injEq, Prod.mk.injEq] at h
    exact .inl ⟨rfl, h.2.symm⟩
  · exact .inr ⟨hrun, by simpa [State.setEngine, State.setRun, hrun] using h⟩

theorem stopped_stopEngine {st : State ι} {run : Nat} {flow : Flow ι} {engine : Engine ι}
    (h : ((stopEngine run st).runs run).engine = some (flow, engine)) : engine.stopped = true := by
  unfold stopEngine at h
  split at h
  · rcases engine_setEngine h with ⟨-, rfl⟩ | ⟨hne, -⟩
    · exact Engine.stopped_stop _
    · exact absurd rfl hne
  · rename_i hnone
    rw [hnone] at h
    cases h

section stands

variable {late : Prop} {c : Nat} {st : State ι} {standing : Standing}

namespace Stands

/-- It may get late. -/
theorem mono {late' : Prop} (h : Stands late st c standing) (hlate : late → late') : Stands late' st c standing :=
  ⟨h.entry.imp id fun ⟨hl, hrest⟩ => ⟨hlate hl, hrest⟩, h.own, h.termination, h.complete, h.once, h.engines, h.setUp, h.heard,
    h.stops, fun hnot => h.spare fun hl => hnot (hlate hl), h.begun⟩

/-- An engine that hears keys is the running session's. -/
theorem hears {run : Nat} (h : Stands late st c standing) (hrun : st.callOf run = c) (hl : 0 < keySubscriptions st run) :
    standing = .running run := by
  cases he : (st.runs run).engine with
  | none =>
    rw [keySubscriptions, he] at hl
    cases hl
  | some e =>
    rw [keySubscriptions_of_engine he] at hl
    exact h.complete run hrun ((h.engines run _ _ hrun he).watched hl)

theorem hears_once {run : Nat} (h : Stands late st c standing) (hrun : st.callOf run = c) : keySubscriptions st run ≤ 1 := by
  cases he : (st.runs run).engine with
  | none =>
    rw [keySubscriptions, he]
    exact Nat.zero_le 1
  | some e =>
    rw [keySubscriptions_of_engine he]
    exact (h.engines run _ _ hrun he).tidy.once

theorem session {run : Nat} (h : Stands late st c (.running run)) : st.sessions c = some (.session run) := by
  rcases h.entry with hs | ⟨_, hnot, _⟩
  · exact hs
  · exact absurd rfl (hnot run)

/-- Otherwise there is no session to stop or to replay, unless it is being stopped. -/
theorem no_session (h : Stands late st c standing) (hrunning : ∀ run, standing ≠ .running run)
    (hstops : c ∉ st.stops) (run : Nat) : st.sessions c ≠ some (.session run) := by
  intro hs
  have hstopped := h.stops
  rw [List.count_eq_zero.mpr hstops] at hstopped
  rcases h.entry with he | ⟨_, _, he⟩
  · rw [he] at hs
    cases standing with
    | running run' => exact hrunning run' rfl
    | stopping run' => cases hstopped
    | idle | settingUp run' terminated => cases hs
  · rw [he] at hs
    cases hs

theorem setEngine (h : Stands late st c standing) {run : Nat} (flow : Flow ι) {engine : Engine ι}
    (hengine : st.callOf run = c → Attended st standing run engine) :
    Stands late (st.setEngine run flow engine) c standing where
  entry := h.entry
  own run' hrun' := by
    rw [State.callOf_setEngine]
    exact h.own run' hrun'
  termination run' hrun' := h.termination run' (by simpa using hrun')
  complete run' hrun' := h.complete run' (by simpa using hrun')
  once := h.once
  engines run' flow' engine' hrun' he := by
    rw [State.callOf_setEngine] at hrun'
    rcases engine_setEngine he with ⟨rfl, rfl⟩ | ⟨-, hold⟩
    · exact (hengine hrun').mono (Nat.le_refl _)
    · exact (h.engines run' flow' engine' hrun' hold).mono (Nat.le_refl _)
  setUp run' hrun' := h.setUp run' (by simpa using hrun')
  heard run' terminated hstanding := by
    rw [State.terminated_setEngine]
    exact h.heard run' terminated hstanding
  stops := h.stops
  spare := h.spare
  begun := h.begun

theorem stopEngine {run : Nat} (h : Stands late st c (.running run)) : Stands late (stopEngine run st) c (.running run) := by
  unfold IvrCoordinator.stopEngine
  split
  · rename_i he
    have hattended := h.engines run _ _ (h.own run rfl).1 he
    exact h.setEngine _ fun _ => .of_stopped ((Engine.muted_stop _).tidy hattended.tidy) (Engine.stopped_stop _)
  · exact h

/-- A session whose engine is stopped is only to be taken off the bus. -/
theorem off {run : Nat} (h : Stands late st c (.running run))
    (hstopped : ∀ flow engine, (st.runs run).engine = some (flow, engine) → engine.stopped = true)
    (hspare : ¬ late → st.transfers.count c = 0) (completed : Nat → Bool) {watching : List Nat} {listening : List Listener}
    (hwatching : ∀ run', watching.count run' ≤ st.onComplete.count run' - if run = run' then 1 else 0)
    (hlistening : ∀ run', listening.count (.termination run') ≤
      st.onTerminated.count (.termination run') - if run = run' then 1 else 0) :
    Stands late { st with
      completedCallIds := completed
      onComplete := watching
      onTerminated := listening
      stops := st.stops ++ [c] } c (.stopping run) where
  entry := .inl h.session
  own := h.own
  termination run' hrun' := by
    have hle := hlistening run'
    rw [h.termination run' hrun', Standing.terminations, Nat.sub_self] at hle
    exact Nat.le_zero.mp hle
  complete run' hrun' hpos := by
    have hle := hwatching run'
    change 0 < watching.count run' at hpos
    have hrun := h.complete run' hrun' (Nat.lt_of_lt_of_le hpos (Nat.le_trans hle (Nat.sub_le _ _)))
    have honce := h.once run' hrun
    cases hrun
    rw [if_pos rfl] at hle
    omega
  once := nofun
  engines run' flow engine hrun' he := by
    have hattended := h.engines run' flow engine hrun' he
    by_cases heq : run' = run
    · subst heq
      exact .of_stopped hattended.tidy (hstopped flow engine he)
    · exact hattended.off fun hrunning => heq (by cases hrunning; rfl)
  setUp run' hrun' := h.setUp run' hrun'
  heard := nofun
  stops := by
    rw [List.count_append, h.stops]
    simp [Standing.stops]
  spare hlate _ := hspare hlate
  begun := nofun

/-- `stopSession`, whatever of its listeners went before. -/
theorem stopped {run : Nat} (h : Stands late st c (.running run)) (hspare : ¬ late → st.transfers.count c = 0)
    {watching : List Nat} {listening : List Listener} (hwatching : ∀ run', watching.count run' ≤ st.onComplete.count run')
    (hlistening : ∀ run', listening.count (.termination run') ≤ st.onTerminated.count (.termination run')) :
    Stands late (stopSession c { st with onComplete := watching, onTerminated := listening }) c (.stopping run) := by
  have hengine := h.stopEngine
  have hstopped : ∀ flow engine, ((IvrCoordinator.stopEngine run st).runs run).engine = some (flow, engine) →
      engine.stopped = true := fun _ _ => stopped_stopEngine
  rw [stopSession, h.session]
  dsimp only
  unfold IvrCoordinator.stopEngine at hengine ⊢
  split at hengine
  all_goals
    rename_i he
    simp only [he]
    refine hengine.off (fun flow engine hsome => ?_) hspare _ (fun run' => ?_) fun run' => ?_
    · refine hstopped flow engine ?_
      rw [IvrCoordinator.stopEngine, he]
      exact hsome
    · rw [count_off]
      exact Nat.sub_le_sub_right (hwatching run') _
    · rw [count_off]
      simp only [Listener.termination.injEq]
      exact Nat.sub_le_sub_right (hlistening run') _

theorem stopSession {run : Nat} (h : Stands late st c (.running run)) (hspare : ¬ late → st.transfers.count c = 0) :
    Stands late (stopSession c st) c (.stopping run) :=
  h.stopped hspare (fun _ => Nat.le_refl _) fun _ => Nat.le_refl _

/-- The running session's `completeHandler` goes, its engine having completed. -/
theorem unheard {run : Nat} (h : Stands late st c (.running run)) (hsilent : keySubscriptions st run = 0) :
    Stands late { st with onComplete := IvrCoordinator.off st.onComplete run } c (.running run) where
  entry := h.entry
  own := h.own
  termination := h.termination
  complete run' hrun' hpos := by
    rw [count_off] at hpos
    exact h.complete run' hrun' (Nat.lt_of_lt_of_le hpos (Nat.sub_le _ _))
  once run' hrun' := by
    rw [count_off]
    exact Nat.le_trans (Nat.add_le_add_right (Nat.sub_le _ _) _) (h.once run' hrun')
  engines run' flow engine hrun' he := by
    have hattended := h.engines run' flow engine hrun' he
    refine ⟨hattended.tidy, hattended.live, fun hpos => ?_⟩
    have hrunning := h.complete run' hrun' (hattended.watched hpos)
    cases hrunning
    exact absurd hpos (by rw [← keySubscriptions_of_engine he]; exact Nat.not_lt.mpr (Nat.le_of_eq hsilent))
  setUp := h.setUp
  heard := nofun
  stops := h.stops
  spare _ hrunning := absurd rfl (hrunning run)
  begun := nofun

end Stands

/-- An engine that completed on its way said so. -/
theorem completed_of_completedIn {before after : Engine ι} {action : Action ι} (h : completedIn before after = some action) :
    .completed action ∈ after.log := by
  obtain ⟨output, hmem, houtput⟩ := List.exists_of_findSome?_eq_some h
  cases output with
  | completed action' =>
    cases houtput
    exact List.mem_of_mem_drop hmem
  | _ => cases houtput

/-- The call stays where it stands, or its session begins to be stopped. -/
def Stays (late : Prop) (c : Nat) (standing : Standing) (st st' : State ι) : Prop :=
  (Stands late st' c standing ∧ st'.completedCallIds c = st.completedCallIds c) ∨
    ∃ run, standing = .running run ∧ Stands late st' c (.stopping run)

theorem foldl_heardComplete_of_deaf {heard : List Nat} (hdeaf : ∀ run ∈ heard, st.callOf run ≠ c) (action : Action ι) :
    heard.foldl (heardComplete c action) st = st := by
  induction heard with
  | nil => rfl
  | cons run heard ih =>
    rw [List.foldl_cons, heardComplete, if_neg (hdeaf run (List.mem_cons_self ..))]
    exact ih fun run' hrun' => hdeaf run' (List.mem_cons_of_mem _ hrun')

namespace Stands

theorem heardComplete {run : Nat} (h : Stands late st c (.running run)) (hone : st.onComplete.count run = 1)
    (hsilent : keySubscriptions st run = 0) (action : Action ι) : Stays late c (.running run) st (heardComplete c action st run) := by
  have hown := (h.own run rfl).1
  have hnone : st.transfers.count c = 0 := by
    have := h.once run rfl
    omega
  rw [IvrCoordinator.heardComplete, if_pos hown]
  cases action with
  | transferred data =>
    have hunheard := h.unheard hsilent
    refine .inl ⟨⟨h.entry, h.own, h.termination, hunheard.complete, fun run' hrun' => ?_,
      fun run' flow engine hrun' he => (hunheard.engines run' flow engine hrun' he).mono (Nat.le_refl _), h.setUp, nofun, h.stops,
      fun _ hrunning => absurd rfl (hrunning run), nofun⟩, rfl⟩
    cases hrun'
    simp [onComplete, hone, hnone]
  | hungUp | timeout | error =>
    exact .inr ⟨run, rfl, (h.unheard hsilent).stopSession fun _ => hnone⟩

theorem ivrComplete (h : Stands late st c standing)
    (hsilent : ∀ run, st.callOf run = c → keySubscriptions st run = 0) (action : Action ι) :
    Stays late c standing st (ivrComplete c action st) := by
  by_cases hdeaf : ∀ run ∈ st.onComplete, st.callOf run ≠ c
  · rw [IvrCoordinator.ivrComplete, foldl_heardComplete_of_deaf hdeaf]
    exact .inl ⟨h, rfl⟩
  · push Not at hdeaf
    obtain ⟨run, hmem, hrun⟩ := hdeaf
    have hstanding := h.complete run hrun (List.count_pos_iff.mpr hmem)
    subst hstanding
    have hone : st.onComplete.count run = 1 := by
      have := h.once run rfl
      have := List.count_pos_iff.mpr hmem
      omega
    obtain ⟨before, after, hsplit⟩ := List.append_of_mem hmem
    have hothers : ∀ run' ∈ before ++ after, st.callOf run' ≠ c := by
      intro run' hmem' hrun'
      have hpos : 0 < st.onComplete.count run' := by
        rw [hsplit]
        refine List.count_pos_iff.mpr ?_
        rcases List.mem_append.mp hmem' with hb | ha
        · exact List.mem_append_left _ hb
        · exact List.mem_append_right _ (List.mem_cons_of_mem _ ha)
      cases h.complete run' hrun' hpos
      rw [hsplit, List.count_append, List.count_cons_self] at hone
      have := List.count_pos_iff.mpr hmem'
      rw [List.count_append] at this
      omega
    have hheard := h.heardComplete hone (hsilent run hrun) action
    have hkeeps := keeps_heardComplete c action st run
    rw [IvrCoordinator.ivrComplete, hsplit, List.foldl_append, List.foldl_cons,
      foldl_heardComplete_of_deaf fun run' hrun' => hothers run' (List.mem_append_left _ hrun'),
      foldl_heardComplete_of_deaf fun run' hrun' => hkeeps.callOf run' ▸ hothers run' (List.mem_append_right _ hrun')]
    exact hheard

/-- The engine of the running session moves on, or one that has stopped is asked in vain. -/
theorem engineMoved {run : Nat} (h : Stands late st c standing) (flow : Flow ι) (before : Engine ι) {after : Engine ι}
    (hrun : st.callOf run = c) (hattended : Attended st standing run after)
    (hmoves : standing = .running run ∨ completedIn before after = none) :
    Stays late c standing st (engineMoved run flow before after st) := by
  have hset : Stands late (st.setEngine run flow after) c standing := h.setEngine flow fun _ => hattended
  unfold IvrCoordinator.engineMoved
  dsimp only
  split
  · rename_i action hcompleted
    have hrunning : standing = .running run := by
      rcases hmoves with hrunning | hnone
      · exact hrunning
      · rw [hcompleted] at hnone
        cases hnone
    have hsilent : keySubscriptions (st.setEngine run flow after) run = 0 := by
      have hafter : ((st.setEngine run flow after).runs run).engine = some (flow, after) := by
        simp [State.setEngine, State.setRun]
      rw [keySubscriptions_of_engine hafter]
      exact hattended.tidy.silent_of_completed (completed_of_completedIn hcompleted)
    rw [State.callOf_setEngine, hrun]
    refine hset.ivrComplete (fun run' hrun' => Nat.eq_zero_of_not_pos fun hpos => ?_) _
    -- Whatever hears keys is the session that has just completed.
    have hother := hset.hears hrun' hpos
    rw [hrunning] at hother
    cases hother
    exact absurd hpos (by rw [hsilent]; exact Nat.lt_irrefl 0)
  · exact .inl ⟨hset, rfl⟩

theorem startSession (hw : Wf st) (h : Stands late st c standing) (hlate : ¬ late) (resume : Option ι) :
    (Stands late (startSession c resume st) c standing ∧ (startSession c resume st).completedCallIds c = st.completedCallIds c) ∨
      Stands late (startSession c resume st) c (.settingUp st.started false) := by
  unfold IvrCoordinator.startSession
  split
  · exact .inl ⟨h, rfl⟩
  · rename_i hfree
    right
    have hstanding : standing = .idle := by
      rcases h.entry with he | ⟨hl, _, _⟩
      · rw [he] at hfree
        cases standing with
        | idle => rfl
        | settingUp run terminated | running run | stopping run => simp [Standing.entry] at hfree
      · exact absurd hl hlate
    subst hstanding
    obtain ⟨_, htermination, hcomplete, hsetUp, _⟩ := hw.fresh st.started (Nat.le_refl _)
    have hold : ∀ run, run ≠ st.started → (Function.update st.runs st.started { callId := c, resume } run).callId = c →
        st.callOf run = c := by
      intro run hne hrun
      simpa [hne, State.callOf] using hrun
    refine ⟨.inl (Function.update_self ..), fun run hrun => ?_, fun run hrun => ?_, fun run hrun hpos => ?_,
      (fun _ hrun => by cases hrun), fun run flow engine hrun he => ?_, fun run hrun => ?_, fun run terminated hrun => ?_, h.stops,
      (fun _ _ => h.spare hlate fun _ => by simp),
      fun _ _ _ => h.spare hlate fun _ => by simp⟩
    · cases hrun
      exact ⟨by simp [State.callOf], Nat.lt_succ_self _⟩
    · by_cases hne : run = st.started
      · subst hne
        simp [htermination, Standing.terminations]
      · simp [h.termination run (hold run hne hrun), Standing.terminations]
    · by_cases hne : run = st.started
      · subst hne
        rw [hcomplete] at hpos
        cases hpos
      · cases h.complete run (hold run hne hrun) hpos
    · by_cases hne : run = st.started
      · subst hne
        simp at he
      · exact (h.engines run flow engine (hold run hne hrun) (by simpa [hne] using he)).off fun hr => by cases hr
    · by_cases hne : run = st.started
      · subst hne
        simp [hsetUp, Standing.setUps]
      · simp [h.setUp run (hold run hne hrun), Standing.setUps, Ne.symm hne]
    · cases hrun
      simp

theorem released {run : Nat} {terminated : Bool} (h : Stands late st c (.settingUp run terminated)) :
    Stands late (released run { st with settingUp := st.settingUp.erase run }) c .idle where
  entry := by
    have hrun : State.callOf { st with settingUp := st.settingUp.erase run } run = c := (h.own run rfl).1
    rw [IvrCoordinator.released, hrun]
    exact .inl (Function.update_self ..)
  own := nofun
  termination run' hrun' := (count_off _ _ _).trans (by simp [h.termination run' hrun', Standing.terminations])
  complete run' hrun' hpos := by cases h.complete run' hrun' hpos
  once := nofun
  engines run' flow engine hrun' he := (h.engines run' flow engine hrun' he).off nofun
  setUp run' hrun' := by
    have hcount := h.setUp run' hrun'
    simp only [Standing.setUps] at hcount
    simp [IvrCoordinator.released, List.count_erase, hcount, Standing.setUps]
  heard := nofun
  stops := h.stops
  spare _ _ := h.begun run terminated rfl
  begun := nofun

theorem registered {run : Nat} {terminated : Bool} (h : Stands late st c (.settingUp run terminated)) :
    Stands late (registered run { st with settingUp := st.settingUp.erase run }) c (.running run) where
  entry := by
    have hrun : State.callOf { st with settingUp := st.settingUp.erase run } run = c := (h.own run rfl).1
    rw [IvrCoordinator.registered, hrun]
    exact .inl (Function.update_self ..)
  own := h.own
  termination run' hrun' := by
    have hcount := h.termination run' hrun'
    simp only [Standing.terminations] at hcount
    by_cases heq : run = run'
    · subst heq
      simp [IvrCoordinator.registered, hcount, Standing.terminations]
    · simp [IvrCoordinator.registered, hcount, Standing.terminations, heq]
  complete run' hrun' hpos := by
    by_cases heq : run = run'
    · rw [heq]
    · have hold : 0 < st.onComplete.count run' := by simpa [IvrCoordinator.registered, heq] using hpos
      cases h.complete run' hrun' hold
  once run' hrun' := by
    cases hrun'
    have hnone : st.onComplete.count run = 0 := by
      by_contra hpos
      cases h.complete run (h.own run rfl).1 (Nat.pos_of_ne_zero hpos)
    simp [IvrCoordinator.registered, hnone, h.begun run terminated rfl]
  engines run' flow engine hrun' he := (h.engines run' flow engine hrun' he).off nofun
  setUp run' hrun' := by
    have hcount := h.setUp run' hrun'
    simp only [Standing.setUps] at hcount
    simp [IvrCoordinator.registered, List.count_erase, hcount, Standing.setUps]
  heard := nofun
  stops := h.stops
  spare _ hrunning := absurd rfl (hrunning run)
  begun := nofun

theorem guardOff (h : Stands late st c standing) (run : Nat) :
    Stands late { st with onTerminated := IvrCoordinator.off st.onTerminated (.earlyGuard run) } c standing :=
  ⟨h.entry, h.own, fun run' hrun' => (count_off _ _ _).trans (by simp [h.termination run' hrun']), h.complete, h.once,
    fun run' flow engine hrun' he => (h.engines run' flow engine hrun' he).mono (Nat.le_refl _), h.setUp, h.heard, h.stops, h.spare, h.begun⟩

theorem stopSettled {run : Nat} (h : Stands late st c (.stopping run)) : Stands late (stopSettled c st) c .idle where
  entry := .inl (Function.update_self ..)
  own := nofun
  termination := h.termination
  complete run' hrun' hpos := by cases h.complete run' hrun' hpos
  once := nofun
  engines run' flow engine hrun' he := (h.engines run' flow engine hrun' he).off nofun
  setUp := h.setUp
  heard := nofun
  stops := by simp [IvrCoordinator.stopSettled, h.stops, Standing.stops]
  spare hlate _ := h.spare hlate fun _ => by simp
  begun := nofun

/-- A transfer is worked on no longer. -/
theorem transferOver (h : Stands late st c standing) : Stands late { st with transfers := st.transfers.erase c } c standing where
  entry := h.entry
  own := h.own
  termination := h.termination
  complete := h.complete
  once run hrun := Nat.le_trans (Nat.add_le_add_left (by simp) _) (h.once run hrun)
  engines run flow engine hrun he := (h.engines run flow engine hrun he).mono (Nat.le_refl _)
  setUp := h.setUp
  heard := h.heard
  stops := h.stops
  spare hlate hrunning := by simp [h.spare hlate hrunning]
  begun run terminated hrun := by simp [h.begun run terminated hrun]

end Stands

variable [DecidableEq ι]

theorem stands_setUp {run : Nat} {terminated : Bool} (h : Stands late st c (.settingUp run terminated)) (outcome : SetUp ι) :
    (Stands late (setUp run outcome st) c .idle ∧ (setUp run outcome st).completedCallIds c = st.completedCallIds c) ∨
      terminated = false ∧ ∃ standing, Stands late (setUp run outcome st) c standing := by
  have hown := (h.own run rfl).1
  cases outcome with
  | failed => exact .inl ⟨h.released, rfl⟩
  | ready flow =>
    rw [IvrCoordinator.setUp]
    dsimp only
    split
    · have hset : Stands late (st.setEngine run flow (Engine.stop {})) c (.settingUp run terminated) :=
        h.setEngine flow fun _ => .of_stopped ((Engine.muted_stop _).tidy .new) (Engine.stopped_stop _)
      exact .inl ⟨hset.released, rfl⟩
    · rename_i hheard
      rw [h.heard run terminated rfl] at hheard
      refine .inr ⟨Bool.eq_false_iff.mpr hheard, ?_⟩
      have hattended : Attended (registered run { st with settingUp := st.settingUp.erase run }) (.running run) run
          (begun flow (st.runs run).resume) := by
        refine ⟨tidy_begun flow _, fun _ => rfl, fun _ => ?_⟩
        rw [registered, List.count_append, List.count_singleton_self]
        exact Nat.succ_pos _
      have hmoved := h.registered.engineMoved flow {} hown hattended (.inl rfl)
      rcases hmoved with ⟨hstands, _⟩ | ⟨run', _, hstands⟩
      · exact ⟨_, hstands.guardOff run⟩
      · exact ⟨_, hstands.guardOff run⟩

/-- The session that completed is waited for again, and its engine restarted. -/
theorem stands_replay {run : Nat} (h : Stands late st c (.running run)) (hquiet : st.onComplete.count run = 0)
    (hnone : st.transfers.count c = 0) : Stays late c (.running run) st (replay c st) := by
  have hown := (h.own run rfl).1
  have hwatched : Stands late { st with onComplete := st.onComplete ++ [run] } c (.running run) := by
    refine ⟨h.entry, h.own, h.termination, fun run' hrun' hpos => ?_, fun run' hrun' => ?_,
      fun run' flow engine hrun' he => ?_, h.setUp, nofun, h.stops, fun _ hrunning => absurd rfl (hrunning run), nofun⟩
    · by_cases heq : run = run'
      · rw [heq]
      · exact h.complete run' hrun' (by simpa [heq] using hpos)
    · cases hrun'
      simp [hquiet, hnone]
    · refine (h.engines run' flow engine hrun' he).mono ?_
      rw [List.count_append]
      exact Nat.le_add_right _ _
  unfold IvrCoordinator.replay
  rw [h.session]
  dsimp only
  split
  · rename_i flow engine he
    have hattended := h.engines run flow engine hown he
    have hsilent : engine.subscriptions = 0 := Nat.eq_zero_of_not_pos fun hpos => by
      have hcount := hattended.watched hpos
      omega
    refine hwatched.engineMoved flow engine hown ⟨Engine.tidy_restart hattended.tidy hsilent, fun _ => rfl, fun _ => ?_⟩ (.inl rfl)
    rw [List.count_append, List.count_singleton_self]
    exact Nat.succ_pos _
  · exact .inl ⟨hwatched, rfl⟩

end stands

/-! ## Its end -/

/-- The standing once these listeners have heard that the call ended. -/
def Standing.terminated (order : List Listener) : Standing → Standing
  | idle => idle
  | settingUp run terminated => settingUp run (terminated || order.contains (.earlyGuard run))
  | running run => if .termination run ∈ order then stopping run else running run
  | stopping run => stopping run

theorem Standing.terminated_cons (listener : Listener) (order : List Listener) (standing : Standing) :
    standing.terminated (listener :: order) = (standing.terminated [listener]).terminated order := by
  cases standing with
  | idle | stopping run => rfl
  | settingUp run terminated => simp [Standing.terminated, Bool.or_assoc]
  | running run =>
    by_cases hl : .termination run = listener
    · simp [Standing.terminated, hl]
    · simp [Standing.terminated, hl]

section terminated

variable {late : Prop} {c : Nat} {st : State ι} {standing : Standing}

theorem Stands.terminations_le (h : Stands late st c standing) {listener : Listener} {order : List Listener}
    (horder : ∀ run, st.callOf run = c → (listener :: order).count (.termination run) ≤ standing.terminations run) :
    ∀ run, st.callOf run = c → order.count (.termination run) ≤ (standing.terminated [listener]).terminations run := by
  intro run hrun
  have hle := horder run hrun
  rw [List.count_cons] at hle
  cases standing with
  | idle | settingUp run' terminated | stopping run' => exact Nat.le_trans (Nat.le_add_right _ _) hle
  | running run' =>
    by_cases hl : .termination run' = listener
    · subst hl
      by_cases heq : run' = run
      · subst heq
        simp [Standing.terminations] at hle
        simp [Standing.terminated, Standing.terminations, hle]
      · simpa [Standing.terminated, Standing.terminations, heq] using hle
    · simpa [Standing.terminated, hl] using Nat.le_trans (Nat.le_add_right _ _) hle

/-- The guard of a setup notes that the call ended. -/
theorem Stands.guarded (h : Stands late st c standing) (run : Nat) :
    Stands late (st.setRun run fun r => { r with terminated := true }) c (standing.terminated [.earlyGuard run]) := by
  have hcallOf : ∀ run', (st.setRun run fun r => { r with terminated := true }).callOf run' = st.callOf run' := by
    intro run'
    by_cases heq : run' = run
    · subst heq
      simp [State.setRun, State.callOf]
    · simp [State.setRun, State.callOf, heq]
  have hengine : ∀ run', ((st.setRun run fun r => { r with terminated := true }).runs run').engine = (st.runs run').engine := by
    intro run'
    by_cases heq : run' = run
    · subst heq
      simp [State.setRun]
    · simp [State.setRun, heq]
  cases standing with
  | settingUp run' terminated =>
    refine ⟨h.entry.imp id fun hs => ⟨hs.1, fun _ hr => (by cases hr), hs.2.2⟩, fun r hr => hcallOf r ▸ h.own r hr,
      fun r hr => h.termination r (hcallOf r ▸ hr), fun r hr hpos => ?_, fun r hr => (by cases hr),
      fun r flow engine hr he => (h.engines r flow engine (hcallOf r ▸ hr) (hengine r ▸ he)).off fun hr => (by cases hr),
      fun r hr => h.setUp r (hcallOf r ▸ hr), fun r t hr => ?_, h.stops,
      fun hlate _ => h.spare hlate fun _ hr => (by cases hr),
      fun _ _ _ => h.begun run' terminated rfl⟩
    · cases h.complete r (hcallOf r ▸ hr) hpos
    · cases hr
      by_cases heq : run' = run
      · subst heq
        simp [State.setRun]
      · simp [State.setRun, heq, h.heard run' terminated rfl]
  | idle | running run' | stopping run' =>
    exact ⟨h.entry, fun r hr => hcallOf r ▸ h.own r hr, fun r hr => h.termination r (hcallOf r ▸ hr),
      fun r hr => h.complete r (hcallOf r ▸ hr), h.once,
      fun r flow engine hr he => (h.engines r flow engine (hcallOf r ▸ hr) (hengine r ▸ he)).mono (Nat.le_refl _),
      fun r hr => h.setUp r (hcallOf r ▸ hr), fun r t hr => (by cases hr), h.stops, h.spare,
      fun r t hr => by cases hr⟩

theorem Stands.heardTerminated (h : Stands late st c standing) (hlate : late) (listener : Listener)
    (hlistener : ∀ run, st.callOf run = c → listener = .termination run → standing = .running run) :
    Stands late (heardTerminated c st listener) c (standing.terminated [listener]) := by
  cases listener with
  | clearLatch =>
    have hsame : standing.terminated [.clearLatch] = standing := by
      cases standing with
      | settingUp run terminated => simp [Standing.terminated]
      | idle | running run | stopping run => rfl
    rw [hsame]
    exact ⟨h.entry, h.own, h.termination, h.complete, h.once,
      fun run flow engine hrun he => (h.engines run flow engine hrun he).mono (Nat.le_refl _), h.setUp, h.heard, h.stops, h.spare,
      h.begun⟩
  | earlyGuard run =>
    rw [IvrCoordinator.heardTerminated]
    split
    · exact h.guarded run
    · rename_i hrun
      have hsame : standing.terminated [.earlyGuard run] = standing := by
        cases standing with
        | settingUp run' terminated =>
          have hne : run' ≠ run := fun heq => hrun (heq ▸ (h.own run' rfl).1)
          simp [Standing.terminated, hne]
        | idle | running run' | stopping run' => rfl
      rw [hsame]
      exact h
  | termination run =>
    rw [IvrCoordinator.heardTerminated]
    split
    · rename_i hrun
      have hstanding := hlistener run hrun rfl
      subst hstanding
      simp only [Standing.terminated, List.mem_singleton, if_true]
      refine h.stopped (fun hnot => absurd hlate hnot) (fun run' => ?_) fun run' => ?_
      all_goals
        rw [count_off]
        exact Nat.sub_le _ _
    · rename_i hrun
      have hsame : standing.terminated [.termination run] = standing := by
        cases standing with
        | running run' =>
          have hne : run' ≠ run := fun heq => hrun (heq ▸ (h.own run' rfl).1)
          simp [Standing.terminated, hne]
        | settingUp run' terminated => simp [Standing.terminated]
        | idle | stopping run' => rfl
      rw [hsame]
      exact h

theorem stands_terminated {order : List Listener} (h : Stands late st c standing) (hlate : late)
    (horder : ∀ run, st.callOf run = c → order.count (.termination run) ≤ standing.terminations run) :
    Stands late (order.foldl (heardTerminated c) st) c (standing.terminated order) := by
  induction order generalizing st standing with
  | nil =>
    cases standing with
    | settingUp run terminated => simpa [Standing.terminated] using h
    | idle | running run | stopping run => exact h
  | cons listener order ih =>
    have hkeeps := keeps_heardTerminated c st listener
    rw [List.foldl_cons, Standing.terminated_cons]
    refine ih (h.heardTerminated hlate listener fun run hrun hl => ?_) fun run hrun => ?_
    · have hle := horder run hrun
      rw [hl, List.count_cons_self] at hle
      cases standing with
      | running run' =>
        by_cases heq : run' = run
        · rw [heq]
        · simp [Standing.terminations, heq] at hle
      | idle | settingUp run' terminated | stopping run' => simp [Standing.terminations] at hle
    · rw [hkeeps.callOf] at hrun
      exact h.terminations_le horder run hrun

/-- Once cleared, the latch stays so if no session of the call is left to hear it. -/
theorem unlatched_terminated {order : List Listener} (hlatch : st.completedCallIds c = false)
    (horder : ∀ run, st.callOf run = c → .termination run ∉ order) :
    (order.foldl (heardTerminated c) st).completedCallIds c = false := by
  induction order generalizing st with
  | nil => exact hlatch
  | cons listener order ih =>
    rw [List.foldl_cons]
    refine ih ?_ fun run hrun hmem => ?_
    · cases listener with
      | clearLatch => exact Function.update_self ..
      | earlyGuard run =>
        rw [IvrCoordinator.heardTerminated]
        split
        · exact hlatch
        · exact hlatch
      | termination run =>
        rw [IvrCoordinator.heardTerminated, if_neg]
        · exact hlatch
        · exact fun hrun => horder run hrun (List.mem_cons_self ..)
    · rw [(keeps_heardTerminated c st listener).callOf] at hrun
      exact horder run hrun (List.mem_cons_of_mem _ hmem)

end terminated

/-! ## Suspending -/

/-- What a suspension leaves untouched. -/
structure Hushed (st st' : State ι) : Prop where
  sessions : st'.sessions = st.sessions
  latch : st'.completedCallIds = st.completedCallIds
  transfers : st'.transfers = st.transfers
  stops : st'.stops = st.stops
  heard : ∀ run, (st'.runs run).terminated = (st.runs run).terminated

section suspended

variable {late : Prop} {c : Nat} {st : State ι} {standing : Standing}

theorem hushed_suspend (st : State ι) (run : Nat) : Hushed st (suspend st run) := by
  unfold suspend
  split
  · unfold stopEngine
    dsimp only
    split
    · exact ⟨rfl, rfl, rfl, rfl, fun run' => by simp⟩
    · exact ⟨rfl, rfl, rfl, rfl, fun _ => rfl⟩
  · exact ⟨rfl, rfl, rfl, rfl, fun _ => rfl⟩

theorem hushed_suspends (st : State ι) (runs : List Nat) : Hushed st (runs.foldl suspend st) := by
  induction runs generalizing st with
  | nil => exact ⟨rfl, rfl, rfl, rfl, fun _ => rfl⟩
  | cons run runs ih =>
    have h := hushed_suspend st run
    have h' := ih (suspend st run)
    exact ⟨h'.sessions.trans h.sessions, h'.latch.trans h.latch, h'.transfers.trans h.transfers, h'.stops.trans h.stops,
      fun run' => (h'.heard run').trans (h.heard run')⟩

/-- The suspended session of a call is off the bus, and its engine has stopped. -/
theorem suspends_off {runs : List Nat} {run : Nat} (hrun : run ∈ runs)
    (hs : st.sessions (st.callOf run) = some (.session run)) (htermination : st.onTerminated.count (.termination run) ≤ 1)
    (hcomplete : st.onComplete.count run ≤ 1) :
    (runs.foldl suspend st).onTerminated.count (.termination run) = 0 ∧ (runs.foldl suspend st).onComplete.count run = 0 ∧
      ∀ flow engine, ((runs.foldl suspend st).runs run).engine = some (flow, engine) → engine.stopped = true := by
  induction runs generalizing st with
  | nil => cases hrun
  | cons run' runs ih =>
    have hkeeps := keeps_suspend st run'
    have hhushed := hushed_suspend st run'
    rw [List.foldl_cons]
    by_cases heq : run' = run
    · subst heq
      have hrest := keeps_suspends runs (suspend st run')
      have hoff : (suspend st run').onTerminated.count (.termination run') = 0 ∧ (suspend st run').onComplete.count run' = 0 ∧
          ∀ flow engine, ((suspend st run').runs run').engine = some (flow, engine) → engine.stopped = true := by
        rw [suspend, if_pos hs]
        refine ⟨Nat.le_zero.mp (Nat.le_trans ((keeps_stopEngine run' _).termination run') ?_),
          Nat.le_zero.mp (Nat.le_trans ((keeps_stopEngine run' _).complete run') ?_), fun _ _ => stopped_stopEngine⟩
        · rw [count_off, if_pos rfl]
          omega
        · rw [count_off, if_pos rfl]
          omega
      obtain ⟨ht, hc, hstopped⟩ := hoff
      refine ⟨Nat.le_zero.mp (ht ▸ hrest.termination run'), Nat.le_zero.mp (hc ▸ hrest.complete run'), fun flow engine he => ?_⟩
      obtain ⟨flow', engine', he', hmuted⟩ := hrest.engine run' flow engine he
      exact hmuted.stopped (hstopped flow' engine' he')
    · have hmem : run ∈ runs := by
        rcases List.mem_cons.mp hrun with h | h
        · exact absurd h.symm heq
        · exact h
      refine ih hmem ?_ (Nat.le_trans (hkeeps.termination run) htermination) (Nat.le_trans (hkeeps.complete run) hcomplete)
      rw [hhushed.sessions, hkeeps.callOf]
      exact hs

/-- The standing once the sessions are suspended. -/
def Standing.suspended : Standing → Standing
  | running _ => idle
  | standing => standing

theorem stands_suspendAll (h : Stands late st c standing) :
    Stands True (suspendAll st) c standing.suspended ∧ (suspendAll st).completedCallIds c = st.completedCallIds c := by
  have hkeeps := keeps_suspends (List.range st.started) st
  have hhushed := hushed_suspends st (List.range st.started)
  refine ⟨?_, congrFun hhushed.latch c⟩
  have hown : ∀ run ∈ standing.run?, (suspendAll st).callOf run = c ∧ run < (suspendAll st).started := by
    intro run hrun
    obtain ⟨hrun, hlt⟩ := h.own run hrun
    exact ⟨(hkeeps.callOf run).trans hrun, Nat.lt_of_lt_of_eq hlt hkeeps.started.symm⟩
  have hwas : ∀ run, (suspendAll st).callOf run = c → st.callOf run = c := fun run hrun => (hkeeps.callOf run).symm.trans hrun
  have hsetUp : ∀ run, (suspendAll st).callOf run = c → (suspendAll st).settingUp.count run = standing.setUps run := by
    intro run hrun
    rw [← h.setUp run (hwas run hrun)]
    exact congrArg (List.count run) hkeeps.setUp
  have hcomplete : ∀ run, (suspendAll st).callOf run = c → 0 < (suspendAll st).onComplete.count run → standing = .running run :=
    fun run hrun hpos => h.complete run (hwas run hrun) (Nat.lt_of_lt_of_le hpos (hkeeps.complete run))
  -- An engine that had stopped is untouched, and the running one stops now.
  have hengines : ∀ run flow engine, (suspendAll st).callOf run = c → ((suspendAll st).runs run).engine = some (flow, engine) →
      standing ≠ .running run → Attended (suspendAll st) standing.suspended run engine := by
    intro run flow engine hrun he hrunning
    obtain ⟨flow', engine', he', hmuted⟩ := hkeeps.engine run flow engine he
    have hattended := h.engines run flow' engine' (hwas run hrun) he'
    exact .of_stopped (hmuted.tidy hattended.tidy) (hmuted.stopped (hattended.stopped hrunning))
  have htermination : ∀ run, (suspendAll st).callOf run = c →
      (suspendAll st).onTerminated.count (.termination run) ≤ standing.terminations run :=
    fun run hrun => h.termination run (hwas run hrun) ▸ hkeeps.termination run
  have hstops : (suspendAll st).stops.count c = standing.stops := (congrArg (List.count c) hhushed.stops).trans h.stops
  cases standing with
  | running run =>
    obtain ⟨hrun, hlt⟩ := h.own run rfl
    have hcount : st.onTerminated.count (.termination run) ≤ 1 := by
      rw [h.termination run hrun]
      simp [Standing.terminations]
    obtain ⟨ht, hc, hstopped⟩ := suspends_off (List.mem_range.mpr hlt) (hrun ▸ h.session) hcount
      (Nat.le_trans (Nat.le_add_right _ _) (h.once run rfl))
    refine ⟨.inl rfl, nofun, fun run' hrun' => ?_, fun run' hrun' hpos => ?_, nofun,
      fun run' flow engine hrun' he => ?_, hsetUp, nofun, hstops, fun hnot => absurd trivial hnot, nofun⟩
    · by_cases heq : run = run'
      · exact heq ▸ ht
      · have hle := htermination run' hrun'
        rw [Standing.terminations, if_neg heq] at hle
        exact Nat.le_zero.mp hle
    · cases hcomplete run' hrun' hpos
      exact absurd hpos (Nat.not_lt.mpr (Nat.le_of_eq hc))
    · by_cases heq : run' = run
      · subst heq
        obtain ⟨flow', engine', he', hmuted⟩ := hkeeps.engine run' flow engine he
        exact .of_stopped (hmuted.tidy (h.engines run' flow' engine' hrun he').tidy) (hstopped flow engine he)
      · exact hengines run' flow engine hrun' he fun hrunning => heq (by cases hrunning; rfl)
  | idle | stopping run =>
    exact ⟨.inr ⟨trivial, fun _ => nofun, rfl⟩, hown, fun run' hrun' => Nat.le_zero.mp (htermination run' hrun'), hcomplete, nofun,
      fun run' flow engine hrun' he => hengines run' flow engine hrun' he nofun, hsetUp, nofun, hstops, fun hnot => absurd trivial hnot, nofun⟩
  | settingUp run terminated =>
    refine ⟨.inr ⟨trivial, fun _ => nofun, rfl⟩, hown, fun run' hrun' => Nat.le_zero.mp (htermination run' hrun'), hcomplete,
      nofun, fun run' flow engine hrun' he => hengines run' flow engine hrun' he nofun, hsetUp, fun run' terminated' hrun' => ?_, hstops, fun hnot => absurd trivial hnot,
      fun run' terminated' hrun' => ?_⟩
    · exact (hhushed.heard run').trans (h.heard run' terminated' hrun')
    · exact (congrArg (List.count c) hhushed.transfers).trans (h.begun run' terminated' hrun')

end suspended


end Callio.IvrCoordinator
