import Callio.Ivr.Runs

/-! Whether `call:ivr_replay` runs the flow as a newly built engine would. Completing takes the
engine's handler of digits away for good (`_removeDtmfListener`), and `start` hands it to the bus
again: the bus throws, and the caller is left with an engine that is in no node. -/

namespace Callio.Ivr

variable {ι : Type} [DecidableEq ι] [Truthy ι]

/-- The run reached its end by itself. -/
def Engine.Completed (engine : Engine ι) : Prop := ∃ action, .completed action ∈ engine.log

omit [DecidableEq ι] [Truthy ι] in
/-- Built now, its players and timers numbered on from the old engine's. -/
def Engine.newlyBuilt (engine : Engine ι) : Engine ι :=
  { players := engine.players, timersSet := engine.timersSet }

/-- The last node entered is this menu, and its prompt was started. -/
def Engine.AtMenu (flow : Flow ι) (engine : Engine ι) (node : Node ι) : Prop :=
  ∃ before after player audioPath, engine.log = before ++ .entered node :: after ∧
    (∀ other, .entered other ∉ after) ∧ node.type = .menu ∧
    flow.audioPath node.id = some audioPath ∧ .played player audioPath ∈ after

/-- The restarted engine does what a newly built one does with the same later events, and a digit
pressed in a menu reaches it. -/
structure FreshRun (flow : Flow ι) (completed : Engine ι) : Prop where
  asNewlyBuilt : ∀ later,
    ((completed.restart flow).1.run flow later).log =
      completed.log ++ ((completed.newlyBuilt.start flow).1.run flow later).log
  heard : ∀ later node digit,
    let engine := (completed.restart flow).1.run flow later
    engine.stopped = false → engine.AtMenu flow node →
      ∃ more, (engine.step flow (.digit digit)).log =
        engine.log ++ .dtmfReceived digit node :: more

namespace Engine

variable {flow : Flow ι} {engine : Engine ι}

omit [DecidableEq ι] [Truthy ι] in
theorem Sound.ended_of_completed (h : engine.Sound) (hc : engine.Completed) : engine.Ended := by
  rcases h with hopen | hended
  · obtain ⟨action, hmem⟩ := hc
    cases hopen.unended _ hmem
  · exact hended

/-- The fields `restart` sets before it starts. -/
def reset (engine : Engine ι) : Engine ι :=
  { engine with stopped := false, currentNodeId := none, replayCount := 0 }

omit [Truthy ι] in
/-- A flow that can't start completes, restarted or new. -/
theorem start_of_no_edge (engine : Engine ι) (h : flow.startEdge = none) :
    (engine.start flow).1 = engine.complete .error := by
  rw [start, h]

omit [DecidableEq ι] [Truthy ι] in
/-- An engine without a player says only that it completed. -/
theorem complete_log (engine : Engine ι) (action : Action ι) (hs : engine.stopped = false)
    (hp : engine.player = none) :
    (engine.complete action).log = engine.log ++ [.completed action] := by
  rw [complete_of_live engine action hs, cleared_eq]
  simp [emit, stopsPlayer, hp]

omit [DecidableEq ι] [Truthy ι] in
theorem complete_stopped (engine : Engine ι) (action : Action ι) :
    (engine.complete action).stopped = true := by
  by_cases h : engine.stopped = true
  · rw [complete_of_stopped engine action h, h]
  · rw [complete_of_live engine action (by simpa using h), cleared_eq]
    rfl

omit [Truthy ι] in
variable (flow) in
/-- An engine that goes anywhere has something to show for it. -/
theorem navigateTo_log_ne (engine : Engine ι) (nodeId : ι) (h : engine.stopped = false) :
    (engine.navigateTo flow nodeId).log ≠ engine.log := by
  rw [navigateTo, if_neg (by simp [h])]
  split
  · rw [complete_of_live engine _ h, cleared_eq]
    simp [emit]
  · rename_i node _
    obtain ⟨more, hmore, -⟩ := calm_act flow (engine.enter node) node
    rw [hmore, enter_log]
    simp

end Engine

open Engine in
/-- A replay is a fresh run exactly where there is nothing to run: the flow has no start node, or
no edge leaves it. -/
theorem freshRun_iff (flow : Flow ι) (origin : Begin ι) (events : List Event)
    (h : (ran flow origin events).Completed) :
    FreshRun flow (ran flow origin events) ↔ flow.startEdge = none := by
  have hended : (ran flow origin events).Ended := (ran_sound flow origin events).ended_of_completed h
  generalize ran flow origin events = engine at hended
  constructor
  · intro hfresh
    by_contra hne
    obtain ⟨firstEdge, hedge⟩ := Option.ne_none_iff_exists'.mp hne
    -- The bus throws before the restarted engine is anywhere.
    have hrestart : (engine.restart flow).1.log = engine.log := by
      rw [restart, start, hedge]
      simp [hended.dtmfHandler]
    have hnew : (engine.newlyBuilt.start flow).1 =
        engine.newlyBuilt.listen.navigateTo flow firstEdge.target := by
      rw [start, hedge]
      rfl
    have hsame := hfresh.asNewlyBuilt []
    change (engine.restart flow).1.log = engine.log ++ (engine.newlyBuilt.start flow).1.log at hsame
    rw [hrestart, hnew] at hsame
    apply navigateTo_log_ne flow engine.newlyBuilt.listen firstEdge.target rfl
    exact List.append_right_eq_self.mp hsame.symm
  · intro hedge
    have hrestart : (engine.restart flow).1 = engine.reset.complete .error :=
      start_of_no_edge engine.reset hedge
    have hnew : (engine.newlyBuilt.start flow).1 = engine.newlyBuilt.complete .error :=
      start_of_no_edge engine.newlyBuilt hedge
    constructor
    · intro later
      rw [hrestart, hnew, (run_of_stopped (complete_stopped engine.reset .error) later).log,
        (run_of_stopped (complete_stopped engine.newlyBuilt .error) later).log,
        complete_log engine.reset .error rfl hended.player,
        complete_log engine.newlyBuilt .error rfl rfl]
      rfl
    · intro later node digit after hlive
      have hstopped : after.stopped = true := by
        simp only [after, hrestart]
        exact (run_of_stopped (complete_stopped engine.reset .error) later).stopped
      rw [hstopped] at hlive
      cases hlive

/-! ## A menu that sends its caller back -/

/-- One menu; its digit 1 leads to a transfer. -/
def menuFlow : Flow Nat where
  nodes := [⟨1, .start, {}⟩, ⟨2, .menu, {}⟩, ⟨3, .transfer, {}⟩]
  edges := [⟨1, "undefined", 2⟩, ⟨2, "1", 3⟩]
  audioPathMap := [(2, "menu.wav")]

/-- The flow begins at a transfer that nothing leads to. -/
def transferFlow : Flow Nat where
  nodes := [⟨3, .transfer, {}⟩]
  edges := []

theorem freshRun_resumed :
    FreshRun transferFlow (ran transferFlow (.startAt 3) []) ↔ transferFlow.startEdge = none :=
  freshRun_iff transferFlow (.startAt 3) [] ⟨.transferred {}, by decide⟩

/-- The caller who pressed 1 comes back to silence, where a new engine plays the menu. -/
theorem replay_not_freshRun :
    ¬ ∀ events, (ran menuFlow .start events).Completed →
      FreshRun menuFlow (ran menuFlow .start events) := by
  intro hfresh
  have hcompleted : (ran menuFlow .start [.digit "1"]).Completed := ⟨.transferred {}, by decide⟩
  have hsame := (hfresh _ hcompleted).asNewlyBuilt []
  revert hsame
  decide

end Callio.Ivr
