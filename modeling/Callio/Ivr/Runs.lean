import Callio.Ivr.Engine

/-! What holds of every engine whatever comes at it: it ends at most once, and once it ended
nothing comes out of it. -/

namespace Callio.Ivr

variable {ι : Type}

namespace Output

/-- The engine completed or was stopped. -/
def isEnd : Output ι → Bool
  | .completed _ | .stopped => true
  | _ => false

/-- The engine entered a node or started audio. -/
def isProgress : Output ι → Bool
  | .entered _ | .played _ _ => true
  | _ => false

def isEntered : Output ι → Bool
  | .entered _ => true
  | _ => false

end Output

namespace Engine

/-- The engine runs. -/
structure Open (engine : Engine ι) : Prop where
  live : engine.stopped = false
  unended : ∀ output ∈ engine.log, output.isEnd = false

/-- The engine ended, and its end is the last that came out of it. -/
structure Ended (engine : Engine ι) : Prop where
  stopped : engine.stopped = true
  player : engine.player = none
  dtmfHandler : engine.dtmfHandler = false
  log : ∃ before last, engine.log = before ++ [last] ∧ last.isEnd = true ∧
    ∀ output ∈ before, output.isEnd = false

def Sound (engine : Engine ι) : Prop := engine.Open ∨ engine.Ended

theorem stopsPlayer_unended (engine : Engine ι) {output : Output ι}
    (h : output ∈ engine.stopsPlayer) : output.isEnd = false := by
  obtain ⟨player, -, rfl⟩ := List.mem_map.mp h
  rfl

/-! ## One function after the other -/

section Open

variable {engine : Engine ι}

/-- Anything but an end may come out of an open engine. -/
theorem Open.grow {engine' : Engine ι} (h : engine.Open) (hstopped : engine'.stopped = engine.stopped)
    {more : List (Output ι)} (hlog : engine'.log = engine.log ++ more)
    (hmore : ∀ output ∈ more, output.isEnd = false) : engine'.Open := by
  constructor
  · rw [hstopped, h.live]
  · intro output hmem
    rw [hlog, List.mem_append] at hmem
    exact hmem.elim (h.unended output) (hmore output)

theorem Open.withoutPlay (h : engine.Open) (player : Nat) : (engine.withoutPlay player).Open :=
  ⟨h.live, h.unended⟩

theorem Open.withoutTimer (h : engine.Open) (timer : Nat) : (engine.withoutTimer timer).Open :=
  ⟨h.live, h.unended⟩

theorem Open.listen (h : engine.Open) : engine.listen.Open := ⟨h.live, h.unended⟩

theorem Open.emit (h : engine.Open) {output : Output ι} (he : output.isEnd = false) :
    (engine.emit output).Open :=
  h.grow rfl rfl (by simpa using he)

theorem Open.play (h : engine.Open) (prompt : Prompt ι) (audioPath : String) :
    (engine.play prompt audioPath).Open :=
  h.grow rfl rfl (by simp [Output.isEnd])

theorem Open.cleared (h : engine.Open) : engine.cleared.Open := by
  rw [cleared_eq]
  exact h.grow rfl rfl fun output ho => stopsPlayer_unended engine ho

/-- An open engine that ends tidies up, and its end is the last it says. -/
theorem Open.ended (h : engine.Open) {last : Output ι} (hlast : last.isEnd = true) :
    (({ engine with stopped := true } : Engine ι).cleared.emit last).Ended := by
  rw [cleared_eq]
  constructor
  · rfl
  · rfl
  · rfl
  · refine ⟨engine.log ++ engine.stopsPlayer, last, rfl, hlast, fun output ho => ?_⟩
    exact (List.mem_append.mp ho).elim (h.unended output) (stopsPlayer_unended engine)

theorem Open.complete (h : engine.Open) (action : Action ι) : (engine.complete action).Ended := by
  rw [complete_of_live engine action h.live]
  exact h.ended rfl

theorem Open.stop (h : engine.Open) : engine.stop.Ended := by
  rw [Engine.stop, if_neg (by simp [h.live])]
  exact h.ended rfl

end Open

variable [DecidableEq ι] [Truthy ι]

section Steps

variable {flow : Flow ι} {engine : Engine ι}

omit [Truthy ι] in
theorem Open.enter (h : engine.Open) (node : Node ι) : (engine.enter node).Open := by
  have hlog : (engine.enter node).log = engine.log ++ (engine.stopsPlayer ++ [.entered node]) := by
    rw [Engine.enter, clearTimer_eq, clearPlayer_eq]
    exact List.append_assoc _ _ _
  have hstopped : (engine.enter node).stopped = engine.stopped := by
    rw [Engine.enter, clearTimer_eq, clearPlayer_eq]
  apply h.grow hstopped hlog
  intro output ho
  rcases List.mem_append.mp ho with ho | ho
  · exact stopsPlayer_unended engine ho
  · rw [List.mem_singleton.mp ho]
    rfl

omit [DecidableEq ι] [Truthy ι] in
theorem Open.playErrorAndHangup (h : engine.Open) : (engine.playErrorAndHangup flow).Sound := by
  unfold Engine.playErrorAndHangup
  split
  · exact .inr (h.cleared.complete _)
  · exact .inl (h.cleared.play _ _)

omit [Truthy ι] in
theorem Open.enterMenu (h : engine.Open) (node : Node ι) : (engine.enterMenu flow node).Sound := by
  unfold Engine.enterMenu
  split
  · exact h.playErrorAndHangup
  · exact .inl (h.grow rfl rfl (by simp [Output.isEnd]))

omit [Truthy ι] in
theorem Open.enterPlay (h : engine.Open) (node : Node ι) : (engine.enterPlay flow node).Sound := by
  unfold Engine.enterPlay
  split
  · exact h.playErrorAndHangup
  · exact .inl (h.grow rfl rfl (by simp [Output.isEnd]))

omit [Truthy ι] in
theorem Open.act (h : engine.Open) (node : Node ι) : (engine.act flow node).Sound := by
  unfold Engine.act
  split
  · exact h.enterMenu node
  · exact h.enterPlay node
  all_goals exact .inr (h.complete _)

omit [Truthy ι] in
theorem Open.navigateTo (h : engine.Open) (nodeId : ι) : (engine.navigateTo flow nodeId).Sound := by
  unfold Engine.navigateTo
  rw [if_neg (by simp [h.live])]
  split
  · exact .inr (h.complete _)
  · exact (h.enter _).act _

theorem Open.onDtmf (h : engine.Open) (node : Node ι) (digit : String) :
    (engine.onDtmf flow node digit).Sound := by
  unfold Engine.onDtmf
  rw [if_neg (by simp [h.live])]
  have hreceived : (engine.emit (.dtmfReceived digit node)).Open := h.emit rfl
  split
  · exact .inl (hreceived.emit rfl)
  · exact ((hreceived.emit rfl).emit rfl).navigateTo _

theorem Open.onBusDigit (h : engine.Open) (digit : String) :
    (engine.onBusDigit flow digit).Sound := by
  unfold Engine.onBusDigit
  split
  · exact .inl h
  · rw [if_neg (by simp [h.live])]
    exact h.onDtmf _ _

omit [Truthy ι] in
theorem Open.executeTimeout (h : engine.Open) (node : Node ι) :
    (engine.executeTimeout flow node).Sound := by
  unfold Engine.executeTimeout
  rw [if_neg (by simp [h.live])]
  split
  · dsimp only
    have hcounted : ({ engine with replayCount := engine.replayCount + 1 } : Engine ι).Open :=
      ⟨h.live, h.unended⟩
    split
    · exact .inr (hcounted.complete _)
    · exact hcounted.navigateTo _
  · dsimp only
    have hreset : ({ engine with replayCount := 0 } : Engine ι).Open := ⟨h.live, h.unended⟩
    split
    · exact hreset.navigateTo _
    · exact .inr (hreset.complete _)

omit [Truthy ι] in
theorem Open.timedOut (h : engine.Open) (timer : Timer ι) : (engine.timedOut flow timer).Sound := by
  cases timer with
  | noInput node ms =>
    rw [Engine.timedOut, if_neg (by simp [h.live])]
    exact .inl ⟨h.live, h.unended⟩
  | grace node =>
    have hcleared : ({ engine with timer := none } : Engine ι).Open := ⟨h.live, h.unended⟩
    exact hcleared.executeTimeout node

omit [Truthy ι] in
theorem Open.playedOut (h : engine.Open) (node : Node ι) : (engine.playedOut flow node).Sound := by
  unfold Engine.playedOut
  split
  · exact h.navigateTo _
  · exact .inr (h.complete _)

omit [Truthy ι] in
theorem Open.settled (h : engine.Open) (player : Nat) (prompt : Prompt ι) (outcome : Outcome) :
    (engine.settled flow player prompt outcome).Sound := by
  have hlive : ¬ engine.stopped = true := by simp [h.live]
  cases prompt with
  | menu node =>
    cases outcome with
    | finished =>
      rw [Engine.settled, if_neg hlive]
      split
      · exact .inl h
      · exact .inl ⟨h.live, h.unended⟩
    | failed =>
      rw [Engine.settled, if_neg hlive]
      exact h.playErrorAndHangup
  | play node =>
    cases outcome with
    | finished =>
      rw [Engine.settled, if_neg hlive]
      exact h.playedOut node
    | failed =>
      rw [Engine.settled, if_neg hlive]
      exact h.playErrorAndHangup
  | error =>
    rw [Engine.settled, if_neg hlive]
    exact .inr (h.complete _)

theorem onBusDigit_of_stopped (h : engine.stopped = true) (digit : String) :
    engine.onBusDigit flow digit = engine := by
  unfold onBusDigit
  split
  · rfl
  · exact if_pos h

/-- The handler runs once for each of its subscriptions. -/
theorem Sound.onBusDigits (h : engine.Sound) (digit : String) (times : Nat) :
    ((fun engine => engine.onBusDigit flow digit)^[times] engine).Sound := by
  induction times generalizing engine with
  | zero => exact h
  | succ times ih =>
    have hfirst : (engine.onBusDigit flow digit).Sound := by
      rcases h with hopen | hended
      · exact hopen.onBusDigit digit
      · rw [onBusDigit_of_stopped hended.stopped]
        exact .inr hended
    exact ih hfirst

theorem Open.step (h : engine.Open) (event : Event) : (engine.step flow event).Sound := by
  cases event with
  | settle player outcome =>
    rw [Engine.step]
    split
    · exact .inl h
    · exact (h.withoutPlay player).settled _ _ _
  | digit digit => exact Sound.onBusDigits (.inl h) digit engine.subscriptions
  | fire timer =>
    rw [Engine.step]
    split
    · exact .inl h
    · exact (h.withoutTimer timer).timedOut _
  | stop => exact .inr h.stop

/-! ## What came out stays said -/

/-- Nothing is taken back, and no node is entered. -/
def Calm (engine engine' : Engine ι) : Prop :=
  ∃ more, engine'.log = engine.log ++ more ∧ ∀ output ∈ more, output.isEntered = false

omit [DecidableEq ι] [Truthy ι]

theorem Calm.of_log {engine' : Engine ι} (h : engine'.log = engine.log) : engine.Calm engine' :=
  ⟨[], by rw [h, List.append_nil], by simp⟩

theorem Calm.trans {engine₁ engine₂ : Engine ι} (h : engine.Calm engine₁)
    (h' : engine₁.Calm engine₂) : engine.Calm engine₂ := by
  obtain ⟨more, hlog, hmore⟩ := h
  obtain ⟨more', hlog', hmore'⟩ := h'
  refine ⟨more ++ more', by rw [hlog', hlog, List.append_assoc], fun output ho => ?_⟩
  exact (List.mem_append.mp ho).elim (hmore output) (hmore' output)

theorem calm_emit (engine : Engine ι) {output : Output ι} (h : output.isEntered = false) :
    engine.Calm (engine.emit output) :=
  ⟨[output], rfl, by simpa using h⟩

theorem calm_play (engine : Engine ι) (prompt : Prompt ι) (audioPath : String) :
    engine.Calm (engine.play prompt audioPath) :=
  ⟨[_], rfl, by simp [Output.isEntered]⟩

theorem stopsPlayer_calm (engine : Engine ι) {output : Output ι}
    (h : output ∈ engine.stopsPlayer) : output.isEntered = false := by
  obtain ⟨player, -, rfl⟩ := List.mem_map.mp h
  rfl

theorem calm_cleared (engine : Engine ι) : engine.Calm engine.cleared := by
  rw [cleared_eq]
  exact ⟨engine.stopsPlayer, rfl, fun output ho => stopsPlayer_calm engine ho⟩

theorem calm_complete (engine : Engine ι) (action : Action ι) :
    engine.Calm (engine.complete action) := by
  unfold complete
  split
  · exact .of_log rfl
  · have hcleared : engine.Calm ({ engine with stopped := true } : Engine ι).cleared :=
      calm_cleared { engine with stopped := true }
    exact hcleared.trans (calm_emit _ rfl)

theorem calm_stop (engine : Engine ι) : engine.Calm engine.stop := by
  unfold stop
  split
  · exact .of_log rfl
  · have hcleared : engine.Calm ({ engine with stopped := true } : Engine ι).cleared :=
      calm_cleared { engine with stopped := true }
    exact hcleared.trans (calm_emit _ rfl)

theorem calm_playErrorAndHangup (engine : Engine ι) :
    engine.Calm (engine.playErrorAndHangup flow) := by
  unfold playErrorAndHangup
  split
  · exact (calm_cleared _).trans (calm_complete _ _)
  · exact (calm_cleared _).trans (calm_play _ _ _)

variable [DecidableEq ι]

theorem enter_log (engine : Engine ι) (node : Node ι) :
    (engine.enter node).log = engine.log ++ engine.stopsPlayer ++ [.entered node] := by
  rw [enter, clearTimer_eq, clearPlayer_eq]

variable (flow) in
theorem calm_act (engine : Engine ι) (node : Node ι) : engine.Calm (engine.act flow node) := by
  unfold act
  split
  · unfold enterMenu
    split
    · exact calm_playErrorAndHangup _
    · exact ⟨[_], rfl, by simp [Output.isEntered]⟩
  · unfold enterPlay
    split
    · exact calm_playErrorAndHangup _
    · exact ⟨[_], rfl, by simp [Output.isEntered]⟩
  all_goals exact calm_complete _ _

/-! ## After the end -/

/-- What a stopped engine is left with by the callbacks still to come. -/
structure Rests (engine engine' : Engine ι) : Prop where
  stopped : engine'.stopped = true
  player : engine'.player = engine.player
  dtmfHandler : engine'.dtmfHandler = engine.dtmfHandler
  log : engine'.log = engine.log

omit [DecidableEq ι] in
theorem Rests.refl (h : engine.stopped = true) : engine.Rests engine := ⟨h, rfl, rfl, rfl⟩

omit [DecidableEq ι] in
theorem Rests.trans {engine₁ engine₂ : Engine ι} (h : engine.Rests engine₁)
    (h' : engine₁.Rests engine₂) : engine.Rests engine₂ :=
  ⟨h'.stopped, h'.player.trans h.player, h'.dtmfHandler.trans h.dtmfHandler, h'.log.trans h.log⟩

theorem settled_of_stopped (h : engine.stopped = true) (player : Nat) (prompt : Prompt ι)
    (outcome : Outcome) : engine.settled flow player prompt outcome = engine := by
  cases prompt <;> cases outcome <;> exact if_pos h

theorem timedOut_of_stopped (h : engine.stopped = true) (timer : Timer ι) :
    engine.Rests (engine.timedOut flow timer) := by
  cases timer with
  | noInput node ms =>
    rw [timedOut, if_pos h]
    exact .refl h
  | grace node =>
    rw [timedOut, executeTimeout, if_pos (by exact h)]
    exact ⟨h, rfl, rfl, rfl⟩

variable [Truthy ι]

variable (flow) in
/-- The callbacks still to come find the engine stopped. -/
theorem step_of_stopped (h : engine.stopped = true) (event : Event) :
    engine.Rests (engine.step flow event) := by
  cases event with
  | settle player outcome =>
    rw [step]
    split
    · exact .refl h
    · rw [settled_of_stopped (show (engine.withoutPlay player).stopped = true from h)]
      exact ⟨h, rfl, rfl, rfl⟩
  | digit digit =>
    rw [step, Function.iterate_fixed (onBusDigit_of_stopped h digit)]
    exact .refl h
  | fire timer =>
    rw [step]
    split
    · exact .refl h
    · have hwithout : engine.Rests (engine.withoutTimer timer) := ⟨h, rfl, rfl, rfl⟩
      exact hwithout.trans (timedOut_of_stopped hwithout.stopped _)
  | stop =>
    rw [step, stop, if_pos h]
    exact .refl h

theorem run_of_stopped (h : engine.stopped = true) (events : List Event) :
    engine.Rests (engine.run flow events) := by
  induction events generalizing engine with
  | nil => exact .refl h
  | cons event events ih =>
    have hstep := step_of_stopped flow h event
    exact hstep.trans (ih hstep.stopped)

omit [DecidableEq ι] [Truthy ι] in
theorem Ended.rests {engine' : Engine ι} (h : engine.Ended) (hr : engine.Rests engine') :
    engine'.Ended :=
  ⟨hr.stopped, hr.player.trans h.player, hr.dtmfHandler.trans h.dtmfHandler, hr.log ▸ h.log⟩

/-! ## Whole runs -/

theorem Sound.step (h : engine.Sound) (event : Event) : (engine.step flow event).Sound :=
  h.elim (fun ho => ho.step event) fun he => .inr (he.rests (step_of_stopped flow he.stopped event))

variable (flow) in
theorem Sound.run (h : engine.Sound) (events : List Event) : (engine.run flow events).Sound := by
  induction events generalizing engine with
  | nil => exact h
  | cons event events ih => exact ih (h.step event)

omit [Truthy ι] in
theorem Open.start (h : engine.Open) : (engine.start flow).1.Sound := by
  unfold Engine.start
  split
  · exact .inr (h.complete _)
  · split
    · exact h.listen.navigateTo _
    · exact .inl h

omit [Truthy ι] in
theorem Open.startAt (h : engine.Open) (nodeId : ι) : (engine.startAt flow nodeId).1.Sound := by
  unfold Engine.startAt
  split
  · exact h.start
  · dsimp only
    have hopen : ({ engine with stopped := false } : Engine ι).Open := ⟨rfl, h.unended⟩
    split
    · exact hopen.listen.navigateTo nodeId
    · exact .inl hopen

end Steps

end Engine

theorem Begin.sound (flow : Flow ι) [DecidableEq ι] (origin : Begin ι) :
    (origin.engine flow).Sound := by
  have hnew : ({} : Engine ι).Open := ⟨rfl, fun _ h => absurd h List.not_mem_nil⟩
  cases origin with
  | start => exact hnew.start
  | startAt nodeId => exact hnew.startAt nodeId

theorem ran_sound [DecidableEq ι] [Truthy ι] (flow : Flow ι) (origin : Begin ι)
    (events : List Event) : (ran flow origin events).Sound :=
  (origin.sound flow).run flow events

end Callio.Ivr
