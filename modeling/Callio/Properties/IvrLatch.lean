import Callio.Ivr.Standing

/-! What the IVR coordinator keeps of a call that has ended. Where `call:terminated` meets a
session that runs, the session's own listener sets the latch again that the constructor's
has just cleared; where it does not, nothing is left once all is settled. -/

namespace Callio.IvrLatch

open Ivr IvrCoordinator

variable {ι : Type}

/-! ## The property -/

section property

variable (st : State ι) (c : Nat)

/-- The coordinator keeps nothing for the call. -/
structure Clean : Prop where
  session : st.sessions c = none
  latch : st.completedCallIds c = false
  guard : ∀ run, st.callOf run = c → .earlyGuard run ∉ st.onTerminated
  termination : ∀ run, st.callOf run = c → .termination run ∉ st.onTerminated
  complete : ∀ run, st.callOf run = c → run ∉ st.onComplete
  dtmf : ∀ run, st.callOf run = c → keySubscriptions st run = 0

/-- Nothing that was begun for the call is still waited for. -/
structure Settled : Prop where
  setUp : ∀ run ∈ st.settingUp, st.callOf run ≠ c
  stop : c ∉ st.stops

/-- The latch is cleared after the call's sessions have heard of its end. -/
def ClearsLast (order : List Listener) : Prop :=
  ∃ before after, order = before ++ .clearLatch :: after ∧ ∀ run, st.callOf run = c → .termination run ∉ after

end property

/-- Every event is fine after those before it. -/
def Along (fine : List (Event ι) → Event ι → Prop) (events : List (Event ι)) : Prop :=
  ∀ before event after, events = before ++ event :: after → fine before event

/-- The call's `call:terminated` was emitted. -/
def Ended (events : List (Event ι)) (c : Nat) : Prop := ∃ order, .terminated c order ∈ events

section events

variable [DecidableEq ι] [Truthy ι]

/-- `call:terminated` comes at the listeners that there are, in some order. -/
def Delivered (before : List (Event ι)) : Event ι → Prop
  | .terminated _ order => order.Perm (run before).onTerminated
  | _ => True

/-- No session is started for the call once it ended, or once all were suspended; no session
of it hears of the end after the latch was cleared; and no transfer decides while the
session is being stopped. -/
def Orderly (c : Nat) (before : List (Event ι)) : Event ι → Prop
  | .startSession callId _ => callId = c → ¬ Ended before c ∧ .suspendAll ∉ before
  | .terminated callId order => callId = c → ClearsLast (run before) c order
  | .transferStops callId => callId = c → c ∉ (run before).stops
  | .transferReplays callId => callId = c → c ∉ (run before).stops
  | _ => True

end events

/-! ## Runs of events -/

section along

variable {fine : List (Event ι) → Event ι → Prop} {events : List (Event ι)} {event : Event ι}

theorem along_of_get (h : ∀ i (hi : i < events.length), fine (events.take i) events[i]) : Along fine events := by
  rintro before event after rfl
  simpa using h before.length (by simp)

theorem along_snoc : Along fine (events ++ [event]) ↔ Along fine events ∧ fine events event := by
  constructor
  · intro h
    refine ⟨fun before e after heq => h before e (after ++ [event]) ?_, h events event [] rfl⟩
    rw [heq, List.append_assoc, List.cons_append]
  · rintro ⟨h, hlast⟩ before e after heq
    induction after using List.reverseRecOn with
    | nil =>
      obtain ⟨rfl, hsame⟩ := List.append_inj' heq rfl
      cases hsame
      exact hlast
    | append_singleton after last _ =>
      rw [← List.cons_append, ← List.append_assoc] at heq
      exact h before e after (List.append_inj' heq rfl).1

/-- It is late for the call: it has ended, or all sessions were suspended. -/
def Late (events : List (Event ι)) (c : Nat) : Prop := Ended events c ∨ .suspendAll ∈ events

theorem ended_snoc {c : Nat} : Ended (events ++ [event]) c ↔ Ended events c ∨ ∃ order, event = .terminated c order := by
  simp [Ended, exists_or, eq_comm]

theorem late_snoc {c : Nat} (h : Late events c) : Late (events ++ [event]) c := by
  rcases h with hended | hsuspended
  · exact .inl (ended_snoc.mpr (.inl hended))
  · exact .inr (List.mem_append_left _ hsuspended)

end along

/-! ## What an event does to a call -/

section moves

variable {late : Prop} {c : Nat} {st st' : State ι} {standing : Standing}

/-- Nothing of the call runs, or will, and its latch is open. -/
def Calm (st : State ι) (c : Nat) (standing : Standing) : Prop := standing.Over ∧ st.completedCallIds c = false

/-- The call stands somewhere again; if it was calm it still is. -/
def Moves (late : Prop) (c : Nat) (standing : Standing) (st st' : State ι) : Prop :=
  ∃ standing', Stands late st' c standing' ∧ (Calm st c standing → Calm st' c standing')

theorem moves_of_unmoved (h : Unmoved c st st') (hs : Stands late st c standing) : Moves late c standing st st' :=
  ⟨standing, h.stands hs, fun hcalm => ⟨hcalm.1, h.latch.trans hcalm.2⟩⟩

theorem moves_of_stays (h : Stays late c standing st st') : Moves late c standing st st' := by
  rcases h with ⟨hs, hlatch⟩ | ⟨run, rfl, hs⟩
  · exact ⟨standing, hs, fun hcalm => ⟨hcalm.1, hlatch.trans hcalm.2⟩⟩
  · exact ⟨_, hs, fun hcalm => hcalm.1.elim⟩

theorem stopSession_of_none (h : ∀ run, st.sessions c ≠ some (.session run)) : stopSession c st = st := by
  unfold stopSession
  split
  · exact absurd ‹_› (h _)
  · rfl

/-- What a transfer finds when it decides. -/
theorem quiet_of_transfer {run : Nat} (hs : Stands late st c (.running run)) (hmem : c ∈ st.transfers) :
    st.onComplete.count run = 0 ∧ (st.transfers.erase c).count c = 0 := by
  have honce := hs.once run rfl
  have hpos := List.count_pos_iff.mpr hmem
  rw [List.count_erase_self]
  omega

theorem moves_transferStops (hs : Stands late st c standing) (hmem : c ∈ st.transfers) (hstops : c ∉ st.stops) :
    Moves late c standing st (stopSession c { st with transfers := st.transfers.erase c }) := by
  have hover := hs.transferOver
  by_cases hrunning : ∃ run, standing = .running run
  · obtain ⟨run, rfl⟩ := hrunning
    exact ⟨_, hover.stopSession fun _ => (quiet_of_transfer hs hmem).2, fun hcalm => hcalm.1.elim⟩
  · rw [stopSession_of_none (hover.no_session (fun run heq => hrunning ⟨run, heq⟩) hstops)]
    exact ⟨standing, hover, fun hcalm => hcalm⟩

theorem moves_stopSettled (hs : Stands late st c standing) (hmem : c ∈ st.stops) :
    Moves late c standing st (stopSettled c st) := by
  have hpos := List.count_pos_iff.mpr hmem
  rw [hs.stops] at hpos
  cases standing with
  | idle | running run | settingUp run terminated => exact absurd hpos (Nat.lt_irrefl 0)
  | stopping run => exact ⟨_, hs.stopSettled, fun hcalm => ⟨trivial, hcalm.2⟩⟩

variable [DecidableEq ι]

theorem moves_setUp (hw : Wf st) (hs : Stands late st c standing) {run : Nat} (hrun : run ∈ st.settingUp) (outcome : SetUp ι) :
    Moves late c standing st (setUp run outcome st) := by
  by_cases hcall : st.callOf run = c
  · have hcount := hs.setUp run hcall
    have hpos := List.count_pos_iff.mpr hrun
    rw [hcount] at hpos
    cases standing with
    | idle | running run' | stopping run' => exact absurd hpos (Nat.lt_irrefl 0)
    | settingUp run' terminated =>
      have heq : run' = run := by
        by_contra hne
        simp [Standing.setUps, hne] at hpos
      subst heq
      rcases stands_setUp hs outcome with ⟨hidle, hlatch⟩ | ⟨hterminated, standing', hs'⟩
      · exact ⟨_, hidle, fun hcalm => ⟨trivial, hlatch.trans hcalm.2⟩⟩
      · exact ⟨standing', hs', fun hcalm => absurd (hcalm.1.symm.trans hterminated) (by decide)⟩
  · exact moves_of_unmoved (unmoved_setUp hw (hw.lt_started hrun) hcall outcome) hs

theorem moves_transferReplays (hs : Stands late st c standing) (hmem : c ∈ st.transfers) (hstops : c ∉ st.stops) :
    Moves late c standing st (replay c { st with transfers := st.transfers.erase c }) := by
  have hover := hs.transferOver
  by_cases hrunning : ∃ run, standing = .running run
  · obtain ⟨run, rfl⟩ := hrunning
    obtain ⟨hquiet, hnone⟩ := quiet_of_transfer hs hmem
    obtain ⟨standing', hs', _⟩ := moves_of_stays (stands_replay hover hquiet hnone)
    exact ⟨standing', hs', fun hcalm => hcalm.1.elim⟩
  · have hnone := hover.no_session (fun run heq => hrunning ⟨run, heq⟩) hstops
    have hsame : replay c { st with transfers := st.transfers.erase c } = { st with transfers := st.transfers.erase c } := by
      unfold replay
      split
      · exact absurd ‹_› (hnone _)
      · rfl
    rw [hsame]
    exact ⟨standing, hover, fun hcalm => hcalm⟩

variable [Truthy ι]

theorem moves_engine (hw : Wf st) (hs : Stands late st c standing) {run : Nat} {flow : Flow ι} {engine : Engine ι}
    (he : (st.runs run).engine = some (flow, engine)) (event : Ivr.Event) :
    Moves late c standing st (engineMoved run flow engine (engine.step flow event) st) := by
  have hlt := hw.lt_started_of_engine he
  by_cases hcall : st.callOf run = c
  · have hattended := hs.engines run flow engine hcall he
    have hmuted := Engine.muted_step flow engine event
    cases hstopped : engine.stopped with
    | true =>
      have hrests := Engine.step_of_stopped flow hstopped event
      refine moves_of_stays (hs.engineMoved flow engine hcall (.of_stopped (hmuted.tidy hattended.tidy) hrests.stopped) (.inr ?_))
      rw [completedIn, hrests.log, List.drop_length]
      rfl
    | false =>
      have hrunning := hattended.live hstopped
      refine moves_of_stays (hs.engineMoved flow engine hcall ⟨hmuted.tidy hattended.tidy, fun _ => hrunning, fun hpos => ?_⟩
        (.inl hrunning))
      exact hattended.watched (Nat.lt_of_lt_of_le hpos hmuted.subscriptions)
  · exact moves_of_unmoved (unmoved_engineMoved hw hlt hcall flow engine _) hs

end moves

/-! ## The end of a call -/

section ends

variable {c : Nat} {st : State ι} {standing : Standing}

/-- Once all its listeners have heard of the end, nothing of the call will run. -/
theorem over_terminated {late : Prop} (hg : Guarded st) (hs : Stands late st c standing) {order : List Listener}
    (hperm : order.Perm st.onTerminated) : (standing.terminated order).Over := by
  cases standing with
  | idle | stopping run => trivial
  | running run =>
    have hcount := hs.termination run (hs.own run rfl).1
    simp only [Standing.terminations, if_true] at hcount
    have hmem : .termination run ∈ order := hperm.mem_iff.mpr (List.count_pos_iff.mp (hcount ▸ Nat.zero_lt_one))
    rw [Standing.terminated, if_pos hmem]
    trivial
  | settingUp run terminated =>
    have hcount := hs.setUp run (hs.own run rfl).1
    simp only [Standing.setUps, if_true] at hcount
    rw [← hg run] at hcount
    have hmem : .earlyGuard run ∈ order := hperm.mem_iff.mpr (List.count_pos_iff.mp (hcount ▸ Nat.zero_lt_one))
    simp [Standing.terminated, Standing.Over, hmem]

theorem unlatched_of_clearsLast {order : List Listener} (h : ClearsLast st c order) :
    (order.foldl (heardTerminated c) st).completedCallIds c = false := by
  obtain ⟨before, after, rfl, hafter⟩ := h
  rw [List.foldl_append, List.foldl_cons]
  refine unlatched_terminated (Function.update_self ..) fun run hrun => hafter run ?_
  rw [← (keeps_terminated c before st).callOf]
  exact hrun

theorem latched_of_session {run : Nat} (h : st.sessions c = some (.session run)) :
    (stopSession c st).completedCallIds c = true := by
  rw [stopSession, h]
  dsimp only
  unfold stopEngine
  split
  · exact Function.update_self ..
  · exact Function.update_self ..

theorem latched_stopSession (h : st.completedCallIds c = true) : (stopSession c st).completedCallIds c = true := by
  by_cases hsession : ∃ run, st.sessions c = some (.session run)
  · obtain ⟨run, hs⟩ := hsession
    exact latched_of_session hs
  · rw [stopSession_of_none fun run hs => hsession ⟨run, hs⟩]
    exact h

/-- A latch that is set stays so until the constructor's listener hears. -/
theorem latched_stays {order : List Listener} (hlatch : st.completedCallIds c = true) (hclear : .clearLatch ∉ order) :
    (order.foldl (heardTerminated c) st).completedCallIds c = true := by
  induction order generalizing st with
  | nil => exact hlatch
  | cons listener order ih =>
    rw [List.foldl_cons]
    refine ih ?_ fun hmem => hclear (List.mem_cons_of_mem _ hmem)
    cases listener with
    | clearLatch => exact absurd (List.mem_cons_self ..) hclear
    | earlyGuard run =>
      rw [heardTerminated]
      split
      · exact hlatch
      · exact hlatch
    | termination run =>
      rw [heardTerminated]
      split
      · exact latched_stopSession hlatch
      · exact hlatch

/-- A session that runs sets the latch when it hears of the end. -/
theorem latched_terminated {run : Nat} {order : List Listener} (hs : Stands True st c (.running run))
    (hmem : .termination run ∈ order) (hclear : .clearLatch ∉ order)
    (honly : ∀ run', st.callOf run' = c → .termination run' ∈ order → run' = run) :
    (order.foldl (heardTerminated c) st).completedCallIds c = true := by
  induction order generalizing st with
  | nil => cases hmem
  | cons listener order ih =>
    have hrest : .clearLatch ∉ order := fun h => hclear (List.mem_cons_of_mem _ h)
    rw [List.foldl_cons]
    by_cases hl : .termination run = listener
    · subst hl
      refine latched_stays ?_ hrest
      rw [heardTerminated, if_pos (hs.own run rfl).1]
      exact latched_of_session hs.session
    · have hlater : .termination run ∈ order := by
        rcases List.mem_cons.mp hmem with h | h
        · exact absurd h hl
        · exact h
      have hkeeps := keeps_heardTerminated c st listener
      have hstands := hs.heardTerminated trivial listener fun run' hown heq => by
        rw [honly run' hown (heq ▸ List.mem_cons_self ..)]
      rw [Standing.terminated, if_neg (by simpa using hl)] at hstands
      refine ih hstands hlater hrest fun run' hown hmem' => ?_
      rw [hkeeps.callOf] at hown
      exact honly run' hown (List.mem_cons_of_mem _ hmem')

end ends

section run

variable [DecidableEq ι] [Truthy ι] {events : List (Event ι)} {event : Event ι} {c : Nat} {standing : Standing}

theorem run_snoc : run (events ++ [event]) = step (run events) event := by
  rw [run, List.foldl_append]
  rfl

/-- An event that does not end the call. -/
theorem moves_step (ho : Orderly c events event) (hs : Stands (Late events c) (run events) c standing)
    (hstarts : ∀ resume, event ≠ .startSession c resume) (hends : ∀ order, event ≠ .terminated c order)
    (hsuspends : event ≠ .suspendAll) : Moves (Late events c) c standing (run events) (step (run events) event) := by
  have hw := wf_run events
  have hstays : Moves (Late events c) c standing (run events) (run events) := moves_of_unmoved (Unmoved.refl c _) hs
  cases event with
  | startSession callId resume =>
    have hne : callId ≠ c := fun heq => hstarts resume (heq ▸ rfl)
    exact moves_of_unmoved (unmoved_startSession hne resume) hs
  | setUp run outcome =>
    rw [step]
    split
    · exact moves_setUp hw hs ‹_› outcome
    · exact hstays
  | engine run event =>
    rw [step]
    split
    · exact moves_engine hw hs ‹_› event
    · exact hstays
  | terminated callId order =>
    have hne : callId ≠ c := fun heq => hends order (heq ▸ rfl)
    exact moves_of_unmoved (unmoved_terminated hw hne order) hs
  | transferStops callId =>
    rw [step]
    split
    · by_cases heq : callId = c
      · subst heq
        exact moves_transferStops hs ‹_› (ho rfl)
      · have hother : Unmoved c (run events) { run events with transfers := (run events).transfers.erase callId } :=
          unmoved_transfers (List.count_erase_of_ne (Ne.symm heq))
        exact moves_of_unmoved (hother.trans (unmoved_stopSession (hw.transfers _) heq)) hs
    · exact hstays
  | transferReplays callId =>
    rw [step]
    split
    · by_cases heq : callId = c
      · subst heq
        exact moves_transferReplays hs ‹_› (ho rfl)
      · have hother : Unmoved c (run events) { run events with transfers := (run events).transfers.erase callId } :=
          unmoved_transfers (List.count_erase_of_ne (Ne.symm heq))
        exact moves_of_unmoved (hother.trans (unmoved_replay (hw.transfers _) heq)) hs
    · exact hstays
  | transferFails callId =>
    by_cases heq : callId = c
    · subst heq
      exact ⟨standing, hs.transferOver, fun hcalm => hcalm⟩
    · exact moves_of_unmoved (unmoved_transfers (List.count_erase_of_ne (Ne.symm heq))) hs
  | stopSettles callId =>
    rw [step]
    split
    · by_cases heq : callId = c
      · subst heq
        exact moves_stopSettled hs ‹_›
      · exact moves_of_unmoved (unmoved_stopSettled heq) hs
    · exact hstays
  | suspendAll => exact absurd rfl hsuspends

theorem stands_run (hdelivered : Along Delivered events) (horderly : Along (Orderly c) events) :
    ∃ standing, Stands (Late events c) (run events) c standing ∧ (Ended events c → Calm (run events) c standing) := by
  induction events using List.reverseRecOn with
  | nil => exact ⟨.idle, stands_init _ c, fun ⟨_, hmem⟩ => by cases hmem⟩
  | append_singleton events event ih =>
    rw [along_snoc] at hdelivered horderly
    obtain ⟨standing, hs, hcalm⟩ := ih hdelivered.1 horderly.1
    have hd := hdelivered.2
    have ho := horderly.2
    have hw := wf_run events
    rw [run_snoc]
    have hstill : (∀ order, event ≠ .terminated c order) → Ended (events ++ [event]) c → Ended events c := by
      intro hends hended
      rcases ended_snoc.mp hended with h | ⟨order, h⟩
      · exact h
      · exact absurd h (hends order)
    by_cases hends : ∃ order, event = .terminated c order
    · obtain ⟨order, rfl⟩ := hends
      have hlate : Late (events ++ [.terminated c order]) c := .inl (ended_snoc.mpr (.inr ⟨order, rfl⟩))
      refine ⟨standing.terminated order, stands_terminated (hs.mono late_snoc) hlate fun run hrun => ?_,
        fun _ => ⟨over_terminated (guarded_run events) hs hd, unlatched_of_clearsLast (ho rfl)⟩⟩
      exact Nat.le_of_eq ((hd.count_eq _).trans (hs.termination run hrun))
    · push Not at hends
      by_cases hstarts : ∃ resume, event = .startSession c resume
      · obtain ⟨resume, rfl⟩ := hstarts
        obtain ⟨hnever, hrunning⟩ := ho rfl
        have hearly : ¬ Late events c := fun h => h.elim hnever hrunning
        rcases hs.startSession hw hearly resume with ⟨hs', _⟩ | hs'
        · exact ⟨_, hs'.mono late_snoc, fun hended => absurd (hstill hends hended) hnever⟩
        · exact ⟨_, hs'.mono late_snoc, fun hended => absurd (hstill hends hended) hnever⟩
      · push Not at hstarts
        by_cases hsuspends : event = .suspendAll
        · subst hsuspends
          obtain ⟨hs', hlatch⟩ := stands_suspendAll hs
          refine ⟨_, hs'.mono fun _ => .inr (List.mem_append_right _ (List.mem_singleton_self _)), fun hended => ?_⟩
          obtain ⟨hover, hopen⟩ := hcalm (hstill hends hended)
          refine ⟨?_, hlatch.trans hopen⟩
          cases standing with
          | running run => exact hover.elim
          | idle | settingUp run terminated | stopping run => exact hover
        · obtain ⟨standing', hs', hkept⟩ := moves_step ho hs hstarts hends hsuspends
          exact ⟨standing', hs'.mono late_snoc, fun hended => hkept (hcalm (hstill hends hended))⟩

/-- The IVR's end of a call leaves nothing behind, unless a session of the call hears of it
after the latch was cleared. -/
theorem clean_of_settled (hdelivered : Along Delivered events) (horderly : Along (Orderly c) events) (hended : Ended events c)
    (hsettled : Settled (run events) c) : Clean (run events) c := by
  obtain ⟨standing, hs, hcalm⟩ := stands_run hdelivered horderly
  obtain ⟨hover, hlatch⟩ := hcalm hended
  have hidle : standing = .idle := by
    cases standing with
    | idle => rfl
    | settingUp run terminated =>
      have hown := (hs.own run rfl).1
      have hcount := hs.setUp run hown
      simp only [Standing.setUps, if_true] at hcount
      exact absurd hown (hsettled.setUp run (List.count_pos_iff.mp (hcount ▸ Nat.zero_lt_one)))
    | running run => exact hover.elim
    | stopping run => exact absurd (List.count_pos_iff.mp (hs.stops ▸ Nat.zero_lt_one)) hsettled.stop
  subst hidle
  refine ⟨?_, hlatch, fun run hrun hmem => ?_, fun run hrun => ?_, fun run hrun hmem => ?_, fun run hrun => ?_⟩
  · rcases hs.entry with h | ⟨_, _, h⟩
    · exact h
    · exact h
  · have hpos := List.count_pos_iff.mpr hmem
    rw [guarded_run events run, hs.setUp run hrun] at hpos
    exact Nat.lt_irrefl 0 hpos
  · exact List.count_eq_zero.mp (hs.termination run hrun)
  · cases hs.complete run hrun (List.count_pos_iff.mpr hmem)
  · by_contra hl
    cases hs.hears hrun (Nat.pos_of_ne_zero hl)

/-- A session of the call runs and is not being stopped. -/
def Running (st : State ι) (c : Nat) : Prop := ∃ run, st.callOf run = c ∧ .termination run ∈ st.onTerminated

/-- The bus asks its listeners in the order in which they came, the constructor's first. -/
theorem clearsLast_own : ClearsLast (run events) c (run events).onTerminated ↔ ¬ Running (run events) c := by
  obtain ⟨rest, hbus, hrest⟩ := (wf_run events).clearLatch
  constructor
  · rintro ⟨before, after, hsplit, hafter⟩ ⟨run', hown, hmem⟩
    rw [hbus] at hsplit hmem
    cases before with
    | nil =>
      cases hsplit
      exact hafter run' hown (by simpa using hmem)
    | cons listener before =>
      rw [List.cons_append, List.cons.injEq] at hsplit
      exact hrest (hsplit.2 ▸ List.mem_append_right _ (List.mem_cons_self ..))
  · intro hnone
    refine ⟨[], rest, hbus, fun run' hown hmem => hnone ⟨run', hown, ?_⟩⟩
    rw [hbus]
    exact List.mem_cons_of_mem _ hmem

/-- In that order, a session that runs always leaves its latch. -/
theorem latched_of_running (hdelivered : Along Delivered events) (horderly : Along (Orderly c) events)
    (hrunning : Running (run events) c) :
    (run (events ++ [.terminated c (run events).onTerminated])).completedCallIds c = true := by
  obtain ⟨standing, hs, _⟩ := stands_run hdelivered horderly
  obtain ⟨run', hown, hmem⟩ := hrunning
  obtain ⟨rest, hbus, hrest⟩ := (wf_run events).clearLatch
  have hruns : ∀ other, (run events).callOf other = c → .termination other ∈ (run events).onTerminated →
      standing = .running other := by
    intro other hother hlisten
    have hpos := List.count_pos_iff.mpr hlisten
    rw [hs.termination other hother] at hpos
    cases standing with
    | running run =>
      by_cases heq : run = other
      · rw [heq]
      · simp [Standing.terminations, heq] at hpos
    | idle | settingUp run terminated | stopping run => exact absurd hpos (Nat.lt_irrefl 0)
  have hstanding := hruns run' hown hmem
  subst hstanding
  have hcleared := (hs.mono fun _ => trivial).heardTerminated trivial .clearLatch fun _ _ h => by cases h
  rw [run_snoc, step, hbus, List.foldl_cons]
  refine latched_terminated hcleared ?_ hrest fun other hother hlisten => ?_
  · rw [hbus] at hmem
    simpa using hmem
  · have heq := hruns other hother (hbus ▸ List.mem_cons_of_mem _ hlisten)
    cases heq
    rfl

/-- So the latch that the end of a call leaves behind is that of a session it found running. -/
theorem latched_iff_running (hdelivered : Along Delivered events) (horderly : Along (Orderly c) events) :
    (run (events ++ [.terminated c (run events).onTerminated])).completedCallIds c = true ↔ Running (run events) c := by
  constructor
  · intro hlatch
    by_contra hnone
    have hopen := unlatched_of_clearsLast (clearsLast_own.mpr hnone)
    rw [run_snoc, step, hopen] at hlatch
    cases hlatch
  · exact latched_of_running hdelivered horderly

/-! ## One session at a time -/

/-- `Orderly`, whatever the order in which the listeners hear of the end. -/
def Decided (c : Nat) (before : List (Event ι)) : Event ι → Prop
  | .terminated _ _ => True
  | event => Orderly c before event

theorem orderly_of_decided (h : Decided c events event) (hends : ∀ order, event ≠ .terminated c order) :
    Orderly c events event := by
  cases event with
  | terminated callId order => exact fun heq => absurd (heq ▸ rfl) (hends order)
  | _ => exact h

theorem stands_of_decided (hdelivered : Along Delivered events) (hdecided : Along (Decided c) events) :
    ∃ standing, Stands (Late events c) (run events) c standing := by
  induction events using List.reverseRecOn with
  | nil => exact ⟨.idle, stands_init _ c⟩
  | append_singleton events event ih =>
    rw [along_snoc] at hdelivered hdecided
    obtain ⟨standing, hs⟩ := ih hdelivered.1 hdecided.1
    have hw := wf_run events
    rw [run_snoc]
    by_cases hends : ∃ order, event = .terminated c order
    · obtain ⟨order, rfl⟩ := hends
      have hlate : Late (events ++ [.terminated c order]) c := .inl (ended_snoc.mpr (.inr ⟨order, rfl⟩))
      refine ⟨standing.terminated order, stands_terminated (hs.mono late_snoc) hlate fun r hr => ?_⟩
      exact Nat.le_of_eq ((hdelivered.2.count_eq _).trans (hs.termination r hr))
    · push Not at hends
      have ho := orderly_of_decided hdecided.2 hends
      by_cases hstarts : ∃ resume, event = .startSession c resume
      · obtain ⟨resume, rfl⟩ := hstarts
        obtain ⟨hnever, hrunning⟩ := ho rfl
        have hearly : ¬ Late events c := fun h => h.elim hnever hrunning
        rcases hs.startSession hw hearly resume with ⟨hs', _⟩ | hs'
        · exact ⟨_, hs'.mono late_snoc⟩
        · exact ⟨_, hs'.mono late_snoc⟩
      · push Not at hstarts
        by_cases hsuspends : event = .suspendAll
        · subst hsuspends
          obtain ⟨hs', -⟩ := stands_suspendAll hs
          exact ⟨_, hs'.mono fun _ => .inr (List.mem_append_right _ (List.mem_singleton_self _))⟩
        · obtain ⟨standing', hs', -⟩ := moves_step ho hs hstarts hends hsuspends
          exact ⟨standing', hs'.mono late_snoc⟩

/-- Of a call's runs at most the current one takes keys or hears of the call, by one subscription each,
and it is the call's session. -/
def OneSession (st : State ι) (c : Nat) : Prop :=
  ∃ current : Option Nat, (∀ r ∈ current, st.sessions c = some (.session r)) ∧
    ∀ r, st.callOf r = c →
      (0 < keySubscriptions st r ∨ .termination r ∈ st.onTerminated ∨ r ∈ st.onComplete → r ∈ current) ∧
        keySubscriptions st r ≤ 1 ∧ st.onTerminated.count (.termination r) ≤ 1 ∧ st.onComplete.count r ≤ 1

theorem oneSession_of_stands {late : Prop} (hs : Stands late st c standing) : OneSession st c := by
  have hquiet : (∀ r, standing ≠ .running r) → ∀ r, st.callOf r = c →
      ¬ (0 < keySubscriptions st r ∨ .termination r ∈ st.onTerminated ∨ r ∈ st.onComplete) ∧
        keySubscriptions st r ≤ 1 ∧ st.onTerminated.count (.termination r) ≤ 1 ∧ st.onComplete.count r ≤ 1 := by
    intro hidle r hr
    have hterminations : standing.terminations r = 0 := by
      cases standing with
      | running r' => exact absurd rfl (hidle r')
      | _ => rfl
    have htermination := hs.termination r hr
    rw [hterminations] at htermination
    have hcomplete : st.onComplete.count r = 0 := by
      by_contra hne
      exact hidle r (hs.complete r hr (Nat.pos_of_ne_zero hne))
    refine ⟨?_, hs.hears_once hr, htermination ▸ Nat.zero_le 1, hcomplete ▸ Nat.zero_le 1⟩
    rintro (h | h | h)
    · exact hidle r (hs.hears hr h)
    · exact List.count_eq_zero.mp htermination h
    · exact List.count_eq_zero.mp hcomplete h
  by_cases hrunning : ∃ r, standing = .running r
  · obtain ⟨current, rfl⟩ := hrunning
    refine ⟨some current, fun r hr => ?_, fun r hr => ⟨fun h => ?_, hs.hears_once hr, ?_, ?_⟩⟩
    · cases hr
      rcases hs.entry with h | ⟨-, h, -⟩
      · exact h
      · exact absurd rfl (h current)
    · have heq : Standing.running current = .running r := by
        rcases h with h | h | h
        · exact hs.hears hr h
        · have hpos := List.count_pos_iff.mpr h
          rw [hs.termination r hr] at hpos
          by_cases heq : current = r
          · rw [heq]
          · simp [Standing.terminations, heq] at hpos
        · exact hs.complete r hr (List.count_pos_iff.mpr h)
      cases heq
      rfl
    · rw [hs.termination r hr, Standing.terminations]
      split <;> omega
    · rcases Nat.eq_zero_or_pos (st.onComplete.count r) with hzero | hpos
      · omega
      · have honce := hs.once r (hs.complete r hr hpos)
        omega
  · push Not at hrunning
    exact ⟨none, fun r hr => (by cases hr), fun r hr => ⟨fun h => absurd h (hquiet hrunning r hr).1, (hquiet hrunning r hr).2⟩⟩

/-- At every time at most one session of a call is at work. -/
theorem oneSession_run (hdelivered : Along Delivered events) (hdecided : Along (Decided c) events) :
    OneSession (run events) c := by
  obtain ⟨standing, hs⟩ := stands_of_decided hdelivered hdecided
  exact oneSession_of_stands hs

end run

/-! ## Runs of one call -/

/-- The caller hears a prompt. -/
def prompt : Flow Nat where
  nodes := [{ id := 1, type := .start }, { id := 2, type := .play }]
  edges := [{ source := 1, target := 2 }]
  audioPathMap := [(2, "welcome")]

/-- The prompt plays out, and the call ends. -/
def playedOut : List (IvrCoordinator.Event Nat) :=
  [.startSession 0 none, .setUp 0 (.ready prompt), .engine 0 (.settle 0 .finished), .stopSettles 0, .terminated 0 [.clearLatch]]

theorem playedOut_clean : Clean (run playedOut) 0 := by
  have hnone : (run playedOut).settingUp = [] := by decide
  refine clean_of_settled (along_of_get fun i hi => ?_) (along_of_get fun i hi => ?_) ⟨[.clearLatch], by simp [playedOut]⟩ ⟨?_, ?_⟩
  · match i, hi with
    | 0, _ | 1, _ | 2, _ | 3, _ => trivial
    | 4, _ => exact List.Perm.refl [Listener.clearLatch]
  · match i, hi with
    | 0, _ => exact fun _ => ⟨fun ⟨_, hmem⟩ => absurd hmem List.not_mem_nil, List.not_mem_nil⟩
    | 1, _ | 2, _ | 3, _ => trivial
    | 4, _ => exact fun _ => ⟨[], [], rfl, fun _ _ => List.not_mem_nil⟩
  · intro run' hmem
    rw [hnone] at hmem
    cases hmem
  · decide

/-- The caller hangs up while the prompt plays. -/
def hungUp : List (IvrCoordinator.Event Nat) :=
  [.startSession 0 none, .setUp 0 (.ready prompt), .terminated 0 [.clearLatch, .termination 0], .stopSettles 0]

theorem hungUp_oneSession : OneSession (run hungUp) 0 := by
  refine oneSession_run (along_of_get fun i hi => ?_) (along_of_get fun i hi => ?_)
  · match i, hi with
    | 0, _ | 1, _ | 3, _ => trivial
    | 2, _ => exact List.Perm.refl [Listener.clearLatch, Listener.termination 0]
  · match i, hi with
    | 0, _ => exact fun _ => ⟨fun ⟨_, hmem⟩ => absurd hmem List.not_mem_nil, List.not_mem_nil⟩
    | 1, _ | 2, _ | 3, _ => trivial

theorem not_clean_of_settled :
    ¬ ∀ (events : List (IvrCoordinator.Event Nat)) (c : Nat), Along Delivered events → Ended events c →
      Settled (run events) c → Clean (run events) c := by
  intro h
  have hdelivered : Along Delivered hungUp := by
    refine along_of_get fun i hi => ?_
    match i, hi with
    | 0, _ | 1, _ | 3, _ => trivial
    | 2, _ => exact List.Perm.refl [Listener.clearLatch, Listener.termination 0]
  have hended : Ended hungUp 0 := ⟨[.clearLatch, .termination 0], by simp [hungUp]⟩
  have hnone : (run hungUp).settingUp = [] := by decide
  have hsettled : Settled (run hungUp) 0 := by
    refine ⟨fun run' hmem => ?_, by decide⟩
    rw [hnone] at hmem
    cases hmem
  exact absurd (h hungUp 0 hdelivered hended hsettled).latch (by decide)

end Callio.IvrLatch
