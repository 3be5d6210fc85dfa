import Callio.Ivr.Engine

/-! An engine's subscriptions to `call:dtmf`. One comes with the flow's start and goes with
whatever ends the engine; no callback brings it back. -/

namespace Callio.Ivr.Engine

variable {ι : Type}

/-- The engine is subscribed once at most, and only while it runs and can take it back. -/
structure Tidy (engine : Engine ι) : Prop where
  subscribed : engine.subscriptions ≤ (engine.dtmfHandler && !engine.stopped).toNat
  completed : ∀ action, .completed action ∈ engine.log → engine.dtmfHandler = false

theorem Tidy.new : ({} : Engine ι).Tidy := ⟨Nat.zero_le _, nofun⟩

theorem Tidy.once {engine : Engine ι} (h : engine.Tidy) : engine.subscriptions ≤ 1 :=
  Nat.le_trans h.subscribed (Bool.toNat_le _)

theorem Tidy.silent {engine : Engine ι} (h : engine.Tidy) (hstopped : engine.stopped = true) : engine.subscriptions = 0 := by
  have hsubscribed := h.subscribed
  simpa [hstopped] using hsubscribed

/-- An engine that completed hears no key. -/
theorem Tidy.silent_of_completed {engine : Engine ι} (h : engine.Tidy) {action : Action ι}
    (hmem : .completed action ∈ engine.log) : engine.subscriptions = 0 := by
  have hsubscribed := h.subscribed
  simpa [h.completed action hmem] using hsubscribed

/-- From one to the other, the engine does not begin to listen. -/
structure Muted (engine engine' : Engine ι) : Prop where
  tidy : engine.Tidy → engine'.Tidy
  subscriptions : engine'.subscriptions ≤ engine.subscriptions
  stopped : engine.stopped = true → engine'.stopped = true

namespace Muted

theorem trans {engine engine₁ engine₂ : Engine ι} (h : Muted engine engine₁) (h' : Muted engine₁ engine₂) :
    Muted engine engine₂ :=
  ⟨fun ht => h'.tidy (h.tidy ht), Nat.le_trans h'.subscriptions h.subscriptions, fun hs => h'.stopped (h.stopped hs)⟩

/-- The subscriptions stay, and nothing that comes out is a completion. -/
theorem of_same {engine engine' : Engine ι} (hsubscriptions : engine'.subscriptions = engine.subscriptions)
    (hhandler : engine'.dtmfHandler = engine.dtmfHandler) (hstopped : engine'.stopped = engine.stopped)
    (hlog : ∀ action, .completed action ∈ engine'.log → .completed action ∈ engine.log) : Muted engine engine' where
  tidy h := by
    refine ⟨?_, fun action hmem => ?_⟩
    · rw [hsubscriptions, hhandler, hstopped]
      exact h.subscribed
    · rw [hhandler]
      exact h.completed action (hlog action hmem)
  subscriptions := Nat.le_of_eq hsubscriptions
  stopped hs := hstopped.trans hs

theorem refl (engine : Engine ι) : Muted engine engine := of_same rfl rfl rfl fun _ h => h

end Muted

theorem stopsPlayer_uncompleted (engine : Engine ι) (action : Action ι) : .completed action ∉ engine.stopsPlayer := by
  simp [stopsPlayer]

/-- Whatever takes the listener off leaves none. -/
theorem silent_cleared {engine : Engine ι} (h : engine.Tidy) : engine.cleared.subscriptions = 0 := by
  have hsubscribed := h.subscribed
  rw [cleared_eq]
  cases hhandler : engine.dtmfHandler with
  | false => simpa [hhandler] using hsubscribed
  | true =>
    have honce := h.once
    simp only [Bool.toNat_true]
    omega

theorem tidy_of_silent {engine : Engine ι} (hsubscriptions : engine.subscriptions = 0)
    (hcompleted : ∀ action, .completed action ∈ engine.log → engine.dtmfHandler = false) : engine.Tidy := by
  refine ⟨?_, hcompleted⟩
  rw [hsubscriptions]
  exact Nat.zero_le _

theorem muted_cleared (engine : Engine ι) : Muted engine engine.cleared where
  tidy h := tidy_of_silent (silent_cleared h) fun _ _ => by rw [cleared_eq]
  subscriptions := by
    rw [cleared_eq]
    exact Nat.sub_le _ _
  stopped hs := by
    rw [cleared_eq]
    exact hs

/-- The way out of a running engine. -/
theorem muted_ended (engine : Engine ι) (last : Output ι) :
    Muted engine (({ engine with stopped := true } : Engine ι).cleared.emit last) := by
  have hcleared := muted_cleared engine
  have hsilent : engine.Tidy → engine.cleared.subscriptions = 0 := silent_cleared
  rw [cleared_eq] at hcleared hsilent ⊢
  exact ⟨fun h => tidy_of_silent (hsilent h) fun _ _ => rfl, hcleared.subscriptions, fun _ => rfl⟩

theorem muted_complete (engine : Engine ι) (action : Action ι) : Muted engine (engine.complete action) := by
  unfold complete
  split
  · exact Muted.refl engine
  · exact muted_ended engine _

theorem muted_stop (engine : Engine ι) : Muted engine engine.stop := by
  unfold stop
  split
  · exact Muted.refl engine
  · exact muted_ended engine _

theorem stopped_stop (engine : Engine ι) : engine.stop.stopped = true := by
  unfold stop
  split
  · assumption
  · rw [cleared_eq]
    rfl

theorem muted_play (engine : Engine ι) (prompt : Prompt ι) (audioPath : String) : Muted engine (engine.play prompt audioPath) :=
  .of_same rfl rfl rfl fun action hmem => by simpa [play] using hmem

theorem muted_playErrorAndHangup (flow : Flow ι) (engine : Engine ι) : Muted engine (engine.playErrorAndHangup flow) := by
  unfold playErrorAndHangup
  split
  · exact (muted_cleared engine).trans (muted_complete _ _)
  · exact (muted_cleared engine).trans (muted_play _ _ _)

variable [DecidableEq ι] (flow : Flow ι)

theorem muted_enter (engine : Engine ι) (node : Node ι) : Muted engine (engine.enter node) := by
  rw [enter, clearTimer_eq, clearPlayer_eq]
  exact .of_same rfl rfl rfl fun action hmem => by simpa [stopsPlayer_uncompleted] using hmem

theorem muted_act (engine : Engine ι) (node : Node ι) : Muted engine (engine.act flow node) := by
  unfold act
  split
  · unfold enterMenu
    split
    · exact muted_playErrorAndHangup flow engine
    · refine Muted.trans ?_ (muted_play _ _ _)
      exact .of_same rfl rfl rfl fun _ h => h
  · unfold enterPlay
    split
    · exact muted_playErrorAndHangup flow engine
    · refine Muted.trans ?_ (muted_play _ _ _)
      exact .of_same rfl rfl rfl fun _ h => h
  all_goals exact muted_complete _ _

theorem muted_navigateTo (engine : Engine ι) (nodeId : ι) : Muted engine (engine.navigateTo flow nodeId) := by
  unfold navigateTo
  split
  · exact .refl engine
  · split
    · exact muted_complete _ _
    · exact (muted_enter engine _).trans (muted_act flow _ _)

theorem muted_executeTimeout (engine : Engine ι) (node : Node ι) : Muted engine (engine.executeTimeout flow node) := by
  unfold executeTimeout
  split
  · exact .refl engine
  · split
    · have hcounted : Muted engine { engine with replayCount := engine.replayCount + 1 } :=
        .of_same rfl rfl rfl fun _ h => h
      dsimp only
      split
      · exact hcounted.trans (muted_complete _ _)
      · exact hcounted.trans (muted_navigateTo flow _ _)
    · have hreset : Muted engine { engine with replayCount := 0 } := .of_same rfl rfl rfl fun _ h => h
      dsimp only
      split
      · exact hreset.trans (muted_navigateTo flow _ _)
      · exact hreset.trans (muted_complete _ _)

theorem muted_timedOut (engine : Engine ι) (timer : Timer ι) : Muted engine (engine.timedOut flow timer) := by
  cases timer with
  | noInput node ms =>
    rw [timedOut]
    split
    · exact .refl engine
    · exact .of_same rfl rfl rfl fun _ h => h
  | grace node =>
    have hcleared : Muted engine { engine with timer := none } := .of_same rfl rfl rfl fun _ h => h
    exact hcleared.trans (muted_executeTimeout flow _ _)

theorem muted_settled (engine : Engine ι) (player : Nat) (prompt : Prompt ι) (outcome : Outcome) :
    Muted engine (engine.settled flow player prompt outcome) := by
  cases prompt with
  | menu node =>
    cases outcome with
    | finished =>
      rw [settled]
      split
      · exact .refl engine
      · split
        · exact .refl engine
        · exact .of_same rfl rfl rfl fun _ h => h
    | failed =>
      rw [settled]
      split
      · exact .refl engine
      · exact muted_playErrorAndHangup flow engine
  | play node =>
    cases outcome with
    | finished =>
      rw [settled]
      split
      · exact .refl engine
      · unfold playedOut
        split
        · exact muted_navigateTo flow _ _
        · exact muted_complete _ _
    | failed =>
      rw [settled]
      split
      · exact .refl engine
      · exact muted_playErrorAndHangup flow engine
  | error =>
    rw [settled]
    split
    · exact .refl engine
    · exact muted_complete _ _

section start

variable {flow} {engine : Engine ι}

omit [DecidableEq ι] in
/-- An engine that is not subscribed yet is so once. -/
theorem Tidy.listen (h : engine.Tidy) (hnone : engine.subscriptions = 0) (hhandler : engine.dtmfHandler = true)
    (hstopped : engine.stopped = false) : engine.listen.Tidy :=
  ⟨by simp [Engine.listen, hnone, hhandler, hstopped], h.completed⟩

theorem tidy_start (h : engine.Tidy) (hnone : engine.subscriptions = 0) (hstopped : engine.stopped = false) :
    (engine.start flow).1.Tidy := by
  unfold start
  split
  · exact (muted_complete engine .error).tidy h
  · split
    · exact (muted_navigateTo flow _ _).tidy (h.listen hnone ‹_› hstopped)
    · exact h

theorem tidy_startAt (h : engine.Tidy) (hnone : engine.subscriptions = 0) (hstopped : engine.stopped = false) (nodeId : ι) :
    (engine.startAt flow nodeId).1.Tidy := by
  unfold startAt
  split
  · exact tidy_start h hnone hstopped
  · have hreset : ({ engine with stopped := false } : Engine ι).Tidy := tidy_of_silent hnone h.completed
    dsimp only
    split
    · exact (muted_navigateTo flow _ _).tidy (hreset.listen hnone ‹_› rfl)
    · exact hreset

theorem tidy_restart (h : engine.Tidy) (hnone : engine.subscriptions = 0) : (engine.restart flow).1.Tidy :=
  tidy_start (tidy_of_silent hnone h.completed) hnone rfl

end start

theorem muted_onBusDigit [Truthy ι] (engine : Engine ι) (digit : String) : Muted engine (engine.onBusDigit flow digit) := by
  unfold onBusDigit
  split
  · exact .refl engine
  · split
    · exact .refl engine
    · unfold onDtmf
      split
      · exact .refl engine
      · dsimp only
        split
        · exact .of_same rfl rfl rfl fun action hmem => by simpa [emit] using hmem
        · refine Muted.trans ?_ (muted_navigateTo flow _ _)
          exact .of_same rfl rfl rfl fun action hmem => by simpa [emit] using hmem

theorem muted_onBusDigits [Truthy ι] (engine : Engine ι) (digit : String) (times : Nat) :
    Muted engine ((fun engine => engine.onBusDigit flow digit)^[times] engine) := by
  induction times generalizing engine with
  | zero => exact .refl engine
  | succ times ih => exact (muted_onBusDigit flow engine digit).trans (ih _)

theorem muted_step [Truthy ι] (engine : Engine ι) (event : Event) : Muted engine (engine.step flow event) := by
  cases event with
  | settle player outcome =>
    rw [step]
    split
    · exact .refl engine
    · refine Muted.trans ?_ (muted_settled flow _ _ _ _)
      exact .of_same rfl rfl rfl fun _ h => h
  | digit digit => exact muted_onBusDigits flow engine digit engine.subscriptions
  | fire timer =>
    rw [step]
    split
    · exact .refl engine
    · refine Muted.trans ?_ (muted_timedOut flow _ _)
      exact .of_same rfl rfl rfl fun _ h => h
  | stop => exact muted_stop engine

end Callio.Ivr.Engine
