import Callio.Ivr.Runs
import Mathlib.Data.List.TakeWhile

/-! Whether a run of the engine follows its flow's graph, whatever order prompts, digits and timers
come in. It does, but for a menu's prompt that fails once its menu was left: the failure
(`_enterMenu`'s `catch`) does not ask whose player it was, and gives the caller up. -/

namespace Callio.Ivr

variable {ι : Type} [DecidableEq ι] [Truthy ι]

/-! ## What the law says -/

section Law

omit [DecidableEq ι] [Truthy ι]

/-- The nodes entered, in order. -/
def entries (log : List (Output ι)) : List (Node ι) :=
  log.filterMap fun
    | .entered node => some node
    | _ => none

def Output.isPlayed (player : Nat) : Output ι → Bool
  | .played started _ => started == player
  | _ => false

def Output.isCompleted : Output ι → Bool
  | .completed _ => true
  | _ => false

/-- A node was entered since the player began: the one it played for was left. -/
def leftBehind (log : List (Output ι)) (player : Nat) : Bool :=
  (log.dropWhile fun output => !output.isPlayed player).any Output.isEntered

end Law

/-- No key was pressed in the menu, and its grace ran out. -/
def NoInput (engine : Engine ι) (event : Event) (node : Node ι) : Prop :=
  ∃ timer, event = .fire timer ∧ engine.timers.lookup timer = some (.grace node)

/-- What takes the caller from one node to the next. -/
inductive Leads (flow : Flow ι) (engine : Engine ι) (event : Event) (left : Node ι) :
    Node ι → Prop
  | edge {entered : Node ι} (edge : Edge ι) (mem : edge ∈ flow.edges)
      (source : edge.source = left.id) (target : edge.target = entered.id) :
      Leads flow engine event left entered
  | dtmfMap {entered : Node ι} (digit : String) (mem : (digit, entered.id) ∈ left.data.dtmfMap) :
      Leads flow engine event left entered
  | replay (type : left.type = .menu) (noInput : NoInput engine event left) :
      Leads flow engine event left left
  | hangUp {entered : Node ι} (type : entered.type = .hangup) (noInput : NoInput engine event left) :
      Leads flow engine event left entered

/-- The event sends the caller through the same menu again. -/
def isReplay (flow : Flow ι) (engine : Engine ι) : Event → Bool
  | .fire timer =>
    match engine.timers.lookup timer with
    | some (.grace node) =>
      decide (entries (engine.step flow (.fire timer)).log = entries engine.log ++ [node])
    | _ => false
  | _ => false

/-- How many replays there were since another entry, after `count` of them. -/
def replaysInARow (flow : Flow ι) (engine : Engine ι) (count : Nat) : List Event → Nat
  | [] => count
  | event :: events =>
    let after := engine.step flow event
    replaysInARow flow after
      (if isReplay flow engine event then count + 1
        else if entries after.log = entries engine.log then count else 0) events

/-- The run from an engine that set out. -/
structure FollowsGraph (flow : Flow ι) (engine : Engine ι) (events : List Event) : Prop where
  completesOnce : (engine.run flow events).log.countP Output.isCompleted ≤ 1
  endsThere : ∀ before last after, (engine.run flow events).log = before ++ last :: after →
    last.isEnd = true → ∀ output ∈ after, output.isProgress = false
  setsOut : (entries engine.log).length ≤ 1
  along : ∀ before event after, events = before ++ event :: after →
    let now := engine.run flow before
    let next := now.step flow event
    entries next.log = entries now.log ∨
      ∃ left entered, (entries now.log).getLast? = some left ∧
        entries next.log = entries now.log ++ [entered] ∧ Leads flow now event left entered
  replays : replaysInARow flow engine 0 events ≤ 3
  leftPrompts : ∀ before player outcome after, events = before ++ .settle player outcome :: after →
    let now := engine.run flow before
    leftBehind now.log player = true →
      now.step flow (.settle player outcome) = now.withoutPlay player

/-- No prompt fails while the run goes on once its node was left. -/
def Attended (flow : Flow ι) (engine : Engine ι) (events : List Event) : Prop :=
  ∀ before player after, events = before ++ .settle player .failed :: after →
    let now := engine.run flow before
    leftBehind now.log player = true → (now.plays.lookup player).isSome = true →
      now.stopped = true

/-! ## The log -/

section Log

omit [DecidableEq ι] [Truthy ι]

theorem entries_append (log more : List (Output ι)) :
    entries (log ++ more) = entries log ++ entries more := List.filterMap_append

theorem entries_calm {more : List (Output ι)} (h : ∀ output ∈ more, output.isEntered = false) :
    entries more = [] := by
  apply List.filterMap_eq_nil_iff.mpr
  intro output ho
  cases output with
  | entered node => cases h _ ho
  | _ => rfl

theorem Engine.Calm.entries {engine engine' : Engine ι} (h : engine.Calm engine') :
    entries engine'.log = entries engine.log := by
  obtain ⟨more, hlog, hmore⟩ := h
  rw [hlog, entries_append, entries_calm hmore, List.append_nil]

/-- A player is left behind for good. -/
theorem leftBehind_append {log : List (Output ι)} {player : Nat} (more : List (Output ι))
    (h : leftBehind log player = true) : leftBehind (log ++ more) player = true := by
  unfold leftBehind at *
  rw [List.dropWhile_append]
  split
  · rename_i hempty
    rw [List.isEmpty_iff.mp hempty] at h
    cases h
  · rw [List.any_append, h, Bool.true_or]

theorem leftBehind_append_calm {log more : List (Output ι)} {player : Nat}
    (h : ∀ output ∈ more, output.isEntered = false) (hleft : leftBehind log player = false) :
    leftBehind (log ++ more) player = false := by
  have hmore (p : Output ι → Bool) : (more.dropWhile p).any Output.isEntered = false := by
    rw [List.any_eq_false]
    intro output ho
    simp [h output ((List.dropWhile_sublist p).subset ho)]
  unfold leftBehind at *
  rw [List.dropWhile_append]
  split
  · exact hmore _
  · rw [List.any_append, hleft, Bool.false_or]
    simpa using h

theorem leftBehind_entered {log : List (Output ι)} {player : Nat} {audioPath : String}
    (h : .played player audioPath ∈ log) (node : Node ι) :
    leftBehind (log ++ [.entered node]) player = true := by
  unfold leftBehind
  rw [List.dropWhile_append]
  split
  · rename_i hempty
    have hnone := List.dropWhile_eq_nil_iff.mp (List.isEmpty_iff.mp hempty) _ h
    simp [Output.isPlayed] at hnone
  · simp [Output.isEntered]

theorem leftBehind_of_unplayed {log : List (Output ι)} {player : Nat}
    (h : ∀ audioPath, .played player audioPath ∉ log) : leftBehind log player = false := by
  have hnone : (log.dropWhile fun output => !output.isPlayed player) = [] := by
    apply List.dropWhile_eq_nil_iff.mpr
    intro output ho
    cases output with
    | played started audioPath =>
      have hne : started ≠ player := by
        rintro rfl
        exact h audioPath ho
      simp [Output.isPlayed, hne]
    | _ => rfl
  rw [leftBehind, hnone]
  rfl

theorem Engine.Calm.leftBehind {engine engine' : Engine ι} (h : engine.Calm engine') {player : Nat}
    (hleft : leftBehind engine.log player = true) : leftBehind engine'.log player = true := by
  obtain ⟨more, hlog, -⟩ := h
  rw [hlog]
  exact leftBehind_append more hleft

end Log

namespace Engine

/-! ## Between two events -/

/-- What holds of an engine that runs, wherever it is. -/
structure Going (engine : Engine ι) : Prop where
  isOpen : engine.Open
  bound : engine.subscriptions ≤ engine.dtmfHandler.toNat
  heard : ∀ play ∈ engine.plays, ∃ audioPath, .played play.1 audioPath ∈ engine.log
  numbered : ∀ player audioPath, .played player audioPath ∈ engine.log → player < engine.players
  armed : ∀ timer ∈ engine.timers, engine.timer = some timer.1
  counted : engine.replayCount ≤ 3

/-- The last node entered, which the engine's fields know. -/
structure In (flow : Flow ι) (engine : Engine ι) (node : Node ι) : Prop extends Going engine where
  last : (entries engine.log).getLast? = some node
  current : engine.currentNodeId = some node.id
  indexed : flow.getNode node.id = some node

/-- The prompt of a menu that was left plays on unheard. -/
def Stale (engine : Engine ι) (play : Nat × Prompt ι) : Prop :=
  (∃ menu, play.2 = .menu menu) ∧ leftBehind engine.log play.1 = true

/-- The one prompt that is not a left menu's. -/
def OnlyPlays (engine : Engine ι) (player : Nat) (prompt : Prompt ι) : Prop :=
  leftBehind engine.log player = false ∧
    ∀ play ∈ engine.plays, play = (player, prompt) ∨ engine.Stale play

/-- What the engine waits for. -/
inductive Awaits (engine : Engine ι) (node : Node ι) : Prop
  | menuPrompt (type : node.type = .menu) (player : Nat) (isPlayer : engine.player = some player)
      (menu : engine.currentMenuNode = some node) (timers : engine.timers = [])
      (plays : engine.OnlyPlays player (.menu node))
  | digit (type : node.type = .menu) (noPlayer : engine.player = none)
      (menu : engine.currentMenuNode = some node) (timer : Nat) (callback : Timer ι)
      (timers : engine.timers = [(timer, callback)])
      (mine : callback = .grace node ∨ ∃ ms, callback = .noInput node ms)
      (plays : ∀ play ∈ engine.plays, engine.Stale play)
  | playPrompt (player : Nat) (isPlayer : engine.player = some player)
      (noMenu : engine.currentMenuNode = none) (timers : engine.timers = [])
      (plays : engine.OnlyPlays player (.play node))
  | errorPrompt (player : Nat) (noPlayer : engine.player = none) (timers : engine.timers = [])
      (deaf : engine.subscriptions = 0) (plays : engine.OnlyPlays player .error)

def Live (flow : Flow ι) (engine : Engine ι) : Prop :=
  ∃ node, engine.In flow node ∧ engine.Awaits node

def Kept (flow : Flow ι) (engine : Engine ι) : Prop := engine.Ended ∨ engine.Live flow

/-- The engine may go to another node: what plays are menus' prompts. -/
structure Ready (engine : Engine ι) : Prop extends Going engine where
  menus : ∀ play ∈ engine.plays, ∃ menu, play.2 = .menu menu

/-- The engine has entered a node and done nothing there. -/
structure Arrived (flow : Flow ι) (engine : Engine ι) (node : Node ι) : Prop
    extends In flow engine node where
  noPlayer : engine.player = none
  noMenu : engine.currentMenuNode = none
  timers : engine.timers = []
  plays : ∀ play ∈ engine.plays, engine.Stale play

section Parts

variable {flow : Flow ι} {engine : Engine ι} {node : Node ι}

omit [DecidableEq ι] [Truthy ι]

theorem Stale.calm {engine' : Engine ι} {play : Nat × Prompt ι} (h : engine.Stale play)
    (hcalm : engine.Calm engine') : engine'.Stale play :=
  ⟨h.1, hcalm.leftBehind h.2⟩

theorem OnlyPlays.calm {engine' : Engine ι} {player : Nat} {prompt : Prompt ι}
    (h : engine.OnlyPlays player prompt) (hcalm : engine.Calm engine')
    (hplays : engine'.plays.Sublist engine.plays) : engine'.OnlyPlays player prompt := by
  constructor
  · obtain ⟨more, hlog, hmore⟩ := hcalm
    rw [hlog]
    exact leftBehind_append_calm hmore h.1
  · intro play hplay
    exact (h.2 play (hplays.subset hplay)).imp id fun hstale => hstale.calm hcalm

/-- A player made now is the only one of its kind. -/
theorem onlyPlays_play (h : engine.Going) (hplays : ∀ play ∈ engine.plays, engine.Stale play)
    (prompt : Prompt ι) (audioPath : String) :
    (engine.play prompt audioPath).OnlyPlays engine.players prompt := by
  constructor
  · have hunplayed : leftBehind engine.log engine.players = false :=
      leftBehind_of_unplayed fun path hpath => absurd (h.numbered _ path hpath) (lt_irrefl _)
    exact leftBehind_append_calm (by simp [Output.isEntered]) hunplayed
  · intro play hplay
    rcases List.mem_append.mp hplay with hplay | hplay
    · exact .inr ((hplays play hplay).calm (calm_play engine prompt audioPath))
    · exact .inl (List.mem_singleton.mp hplay)

/-! ### What keeps an engine going -/

theorem Going.emit (h : engine.Going) {output : Output ι} (hend : output.isEnd = false)
    (hplayed : ∀ player audioPath, output ≠ .played player audioPath) :
    (engine.emit output).Going where
  isOpen := h.isOpen.emit hend
  bound := h.bound
  heard play hplay := by
    obtain ⟨audioPath, hmem⟩ := h.heard play hplay
    exact ⟨audioPath, List.mem_append_left _ hmem⟩
  numbered player audioPath hmem := by
    rcases List.mem_append.mp hmem with hmem | hmem
    · exact h.numbered player audioPath hmem
    · exact absurd (List.mem_singleton.mp hmem).symm (hplayed player audioPath)
  armed := h.armed
  counted := h.counted

theorem Going.play (h : engine.Going) (prompt : Prompt ι) (audioPath : String) :
    (engine.play prompt audioPath).Going where
  isOpen := h.isOpen.play prompt audioPath
  bound := h.bound
  heard play hplay := by
    rcases List.mem_append.mp hplay with hplay | hplay
    · obtain ⟨path, hmem⟩ := h.heard play hplay
      exact ⟨path, List.mem_append_left _ hmem⟩
    · rw [List.mem_singleton.mp hplay]
      exact ⟨audioPath, List.mem_append_right _ (List.mem_singleton.mpr rfl)⟩
  numbered player path hmem := by
    rcases List.mem_append.mp hmem with hmem | hmem
    · exact Nat.lt_succ_of_lt (h.numbered player path hmem)
    · have hplayer : player = engine.players := by
        have heq := List.mem_singleton.mp hmem
        injection heq
      rw [hplayer]
      exact Nat.lt_succ_self _
  armed := h.armed
  counted := h.counted

theorem stopsPlayer_unplayed (engine : Engine ι) (player : Nat) (audioPath : String) :
    .played player audioPath ∉ engine.stopsPlayer := by
  intro hmem
  obtain ⟨_, -, heq⟩ := List.mem_map.mp hmem
  cases heq

theorem Going.cleared (h : engine.Going) :
    engine.cleared.Going ∧ engine.cleared.timers = [] ∧ engine.cleared.subscriptions = 0 := by
  have hopen := h.isOpen.cleared
  have htimers : engine.cleared.timers = [] := by
    rw [cleared_eq]
    apply List.filter_eq_nil_iff.mpr
    intro timer htimer
    simp [h.armed timer htimer]
  have hdeaf : engine.cleared.subscriptions = 0 := by
    rw [cleared_eq]
    exact Nat.sub_eq_zero_of_le h.bound
  refine ⟨⟨hopen, ?_, ?_, ?_, ?_, ?_⟩, htimers, hdeaf⟩
  · rw [hdeaf]
    exact Nat.zero_le _
  · intro play hplay
    rw [cleared_eq] at hplay ⊢
    obtain ⟨audioPath, hmem⟩ := h.heard play hplay
    exact ⟨audioPath, List.mem_append_left _ hmem⟩
  · intro player audioPath hmem
    rw [cleared_eq] at hmem ⊢
    rcases List.mem_append.mp hmem with hmem | hmem
    · exact h.numbered player audioPath hmem
    · exact absurd hmem (stopsPlayer_unplayed engine player audioPath)
  · rw [htimers]
    exact fun _ hmem => absurd hmem List.not_mem_nil
  · rw [cleared_eq]
    exact h.counted

theorem Going.withoutPlay (h : engine.Going) (player : Nat) : (engine.withoutPlay player).Going where
  isOpen := h.isOpen.withoutPlay player
  bound := h.bound
  heard play hplay := h.heard play (List.mem_of_mem_filter hplay)
  numbered := h.numbered
  armed := h.armed
  counted := h.counted

theorem Going.withoutTimer (h : engine.Going) (timer : Nat) : (engine.withoutTimer timer).Going where
  isOpen := h.isOpen.withoutTimer timer
  bound := h.bound
  heard := h.heard
  numbered := h.numbered
  armed callback hmem := h.armed callback (List.mem_of_mem_filter hmem)
  counted := h.counted

theorem Going.setTimer (h : engine.Going) (htimers : engine.timers = []) (callback : Timer ι) :
    (engine.setTimer callback).Going where
  isOpen := ⟨h.isOpen.live, h.isOpen.unended⟩
  bound := h.bound
  heard := h.heard
  numbered := h.numbered
  armed timer hmem := by
    have hone : timer = (engine.timersSet, callback) := by
      simpa [Engine.setTimer, htimers] using hmem
    rw [hone]
    rfl
  counted := h.counted

theorem In.calm {engine' : Engine ι} [DecidableEq ι] (h : engine.In flow node)
    (hgoing : engine'.Going) (hcalm : engine.Calm engine')
    (hcurrent : engine'.currentNodeId = engine.currentNodeId) : engine'.In flow node :=
  { hgoing with
    last := by rw [hcalm.entries, h.last]
    current := hcurrent.trans h.current
    indexed := h.indexed }

end Parts

/-! ## Going to a node -/

section Navigation

variable {flow : Flow ι} {engine : Engine ι} {node : Node ι}

omit [Truthy ι]

/-- What a move leaves behind: an engine kept, and its count of replays if it still runs. -/
structure Leaves (flow : Flow ι) (count : Nat) (engine : Engine ι) : Prop where
  kept : engine.Kept flow
  count : engine.stopped = false → engine.replayCount = count

theorem Open.leaves (h : engine.Open) (action : Action ι) (count : Nat) :
    (engine.complete action).Leaves flow count where
  kept := .inl (h.complete action)
  count hlive := by
    rw [(h.complete action).stopped] at hlive
    cases hlive

/-- The caller is given up: the error prompt is all that counts now. -/
theorem In.playErrorAndHangup (h : engine.In flow node)
    (hplays : ∀ play ∈ engine.plays, engine.Stale play) :
    (engine.playErrorAndHangup flow).Leaves flow engine.replayCount := by
  obtain ⟨hcleared, htimers, hdeaf⟩ := h.toGoing.cleared
  unfold Engine.playErrorAndHangup
  split
  · exact hcleared.isOpen.leaves _ _
  · rename_i audioPath _
    have hstale : ∀ play ∈ engine.cleared.plays, engine.cleared.Stale play := by
      intro play hplay
      have hold : play ∈ engine.plays := by
        rw [cleared_eq] at hplay
        exact hplay
      exact (hplays play hold).calm (calm_cleared engine)
    have hin : (engine.cleared.play .error audioPath).In flow node := by
      apply h.calm (hcleared.play _ _) ((calm_cleared engine).trans (calm_play _ _ _))
      rw [cleared_eq]
      rfl
    have hnoPlayer : (engine.cleared.play .error audioPath).player = none := by
      rw [cleared_eq]
      rfl
    constructor
    · exact .inr ⟨node, hin, .errorPrompt engine.cleared.players hnoPlayer htimers hdeaf
        (onlyPlays_play hcleared hstale _ _)⟩
    · intro _
      rw [cleared_eq]
      rfl

theorem Arrived.enterMenu (h : engine.Arrived flow node) (htype : node.type = .menu) :
    (engine.enterMenu flow node).Leaves flow engine.replayCount := by
  unfold Engine.enterMenu
  split
  · exact h.toIn.playErrorAndHangup h.plays
  · rename_i audioPath _
    let entered : Engine ι :=
      { engine with currentMenuNode := some node, player := some engine.players }
    have hgoing : entered.Going := ⟨⟨h.isOpen.live, h.isOpen.unended⟩, h.bound, h.heard,
      h.numbered, h.armed, h.counted⟩
    have hin : (entered.play (.menu node) audioPath).In flow node :=
      h.toIn.calm (hgoing.play _ _) (calm_play entered _ _) rfl
    constructor
    · exact .inr ⟨node, hin, .menuPrompt htype engine.players rfl rfl h.timers
        (onlyPlays_play hgoing h.plays _ _)⟩
    · exact fun _ => rfl

theorem Arrived.enterPlay (h : engine.Arrived flow node) :
    (engine.enterPlay flow node).Leaves flow engine.replayCount := by
  unfold Engine.enterPlay
  split
  · exact h.toIn.playErrorAndHangup h.plays
  · rename_i audioPath _
    let entered : Engine ι := { engine with player := some engine.players }
    have hgoing : entered.Going := ⟨⟨h.isOpen.live, h.isOpen.unended⟩, h.bound, h.heard,
      h.numbered, h.armed, h.counted⟩
    have hin : (entered.play (.play node) audioPath).In flow node :=
      h.toIn.calm (hgoing.play _ _) (calm_play entered _ _) rfl
    constructor
    · exact .inr ⟨node, hin, .playPrompt engine.players rfl h.noMenu h.timers
        (onlyPlays_play hgoing h.plays _ _)⟩
    · exact fun _ => rfl

theorem Arrived.act (h : engine.Arrived flow node) :
    (engine.act flow node).Leaves flow engine.replayCount := by
  unfold Engine.act
  split
  · rename_i htype
    exact h.enterMenu htype
  · exact h.enterPlay
  all_goals exact h.isOpen.leaves _ _

/-- The engine leaves whatever menu it was in. -/
theorem Ready.enter (h : engine.Ready) (hnode : flow.getNode node.id = some node) :
    (engine.enter node).Arrived flow node ∧
      (engine.enter node).replayCount =
        if engine.currentNodeId = some node.id then engine.replayCount else 0 := by
  have hlog := enter_log engine node
  have hcount : (engine.enter node).replayCount =
      if engine.currentNodeId = some node.id then engine.replayCount else 0 := by
    rw [Engine.enter, clearTimer_eq, clearPlayer_eq]
  have hplays : (engine.enter node).plays = engine.plays := by
    rw [Engine.enter, clearTimer_eq, clearPlayer_eq]
  have htimers : (engine.enter node).timers = [] := by
    rw [Engine.enter, clearTimer_eq, clearPlayer_eq]
    apply List.filter_eq_nil_iff.mpr
    intro timer htimer
    simp [h.armed timer htimer]
  refine ⟨⟨⟨⟨h.isOpen.enter node, ?_, ?_, ?_, ?_, ?_⟩, ?_, rfl, hnode⟩, ?_, rfl, htimers, ?_⟩, hcount⟩
  · rw [Engine.enter, clearTimer_eq, clearPlayer_eq]
    exact h.bound
  · intro play hplay
    rw [hplays] at hplay
    obtain ⟨audioPath, hmem⟩ := h.heard play hplay
    rw [hlog, List.append_assoc]
    exact ⟨audioPath, List.mem_append_left _ hmem⟩
  · intro player audioPath hmem
    rw [hlog, List.append_assoc] at hmem
    have hplayers : (engine.enter node).players = engine.players := by
      rw [Engine.enter, clearTimer_eq, clearPlayer_eq]
    rw [hplayers]
    rcases List.mem_append.mp hmem with hmem | hmem
    · exact h.numbered player audioPath hmem
    · rcases List.mem_append.mp hmem with hmem | hmem
      · exact absurd hmem (stopsPlayer_unplayed engine player audioPath)
      · cases List.mem_singleton.mp hmem
  · rw [htimers]
    exact fun _ hmem => absurd hmem List.not_mem_nil
  · rw [hcount]
    have hcounted := h.counted
    split <;> omega
  · rw [hlog, entries_append]
    exact List.getLast?_concat
  · rw [Engine.enter, clearTimer_eq, clearPlayer_eq]
  · intro play hplay
    rw [hplays] at hplay
    obtain ⟨audioPath, hmem⟩ := h.heard play hplay
    refine ⟨h.menus play hplay, ?_⟩
    rw [hlog]
    exact leftBehind_entered (List.mem_append_left _ hmem) node

variable (flow) in
/-- The engine goes to a node its flow has, or ends where the flow has none. -/
theorem Ready.navigateTo (h : engine.Ready) (nodeId : ι) :
    (engine.navigateTo flow nodeId).Leaves flow
        (if engine.currentNodeId = some nodeId then engine.replayCount else 0) ∧
      entries (engine.navigateTo flow nodeId).log =
        entries engine.log ++ (flow.getNode nodeId).toList := by
  have hlive : ¬ engine.stopped = true := by simp [h.isOpen.live]
  rw [Engine.navigateTo, if_neg hlive]
  cases hnode : flow.getNode nodeId with
  | none =>
    refine ⟨h.isOpen.leaves _ _, ?_⟩
    rw [(calm_complete engine _).entries, Option.toList_none, List.append_nil]
  | some node =>
    have hid := Flow.getNode_id hnode
    subst hid
    obtain ⟨harrived, hcount⟩ := h.enter hnode
    constructor
    · rw [← hcount]
      exact harrived.act
    · rw [(calm_act _ _ _).entries, enter_log, List.append_assoc, entries_append]
      congr 1
      rw [entries_append, entries_calm fun output ho => stopsPlayer_calm engine ho]
      rfl

end Navigation

/-! ## One event -/

/-- What an event makes of an engine: it stays where it is, or it is led to one other node. -/
structure Turn (flow : Flow ι) (engine : Engine ι) (event : Event) (next : Engine ι) : Prop where
  kept : next.Kept flow
  moved : (entries next.log = entries engine.log ∧
      (next.stopped = false → next.replayCount = engine.replayCount)) ∨
    ∃ left entered, (entries engine.log).getLast? = some left ∧
      entries next.log = entries engine.log ++ [entered] ∧ Leads flow engine event left entered ∧
      (isReplay flow engine event = true → engine.replayCount < 3 ∧
        (next.stopped = false → next.replayCount = engine.replayCount + 1))

section Events

variable {flow : Flow ι} {engine : Engine ι} {node : Node ι}

theorem Leaves.turn {event : Event} {next : Engine ι} (h : next.Leaves flow engine.replayCount)
    (hcalm : engine.Calm next) : engine.Turn flow event next :=
  ⟨h.kept, .inl ⟨hcalm.entries, h.count⟩⟩

theorem Live.stays {event : Event} {next : Engine ι} (h : next.Live flow)
    (hcalm : engine.Calm next) (hcount : next.replayCount = engine.replayCount) :
    engine.Turn flow event next :=
  ⟨.inr h, .inl ⟨hcalm.entries, fun _ => hcount⟩⟩

/-- A move that the graph backs. -/
theorem Ready.turn {moving : Engine ι} {event : Event} {left : Node ι} {target : ι}
    (h : moving.Ready) (hcalm : engine.Calm moving)
    (hlast : (entries engine.log).getLast? = some left)
    (hleads : ∀ entered, flow.getNode target = some entered →
      Leads flow engine event left entered)
    (hreplay : isReplay flow engine event = true → engine.replayCount < 3 ∧
      (if moving.currentNodeId = some target then moving.replayCount else 0) =
        engine.replayCount + 1) :
    engine.Turn flow event (moving.navigateTo flow target) := by
  obtain ⟨hleaves, hentries⟩ := h.navigateTo flow target
  rw [hcalm.entries] at hentries
  refine ⟨hleaves.kept, ?_⟩
  cases htarget : flow.getNode target with
  | none =>
    rw [htarget, Option.toList_none, List.append_nil] at hentries
    refine .inl ⟨hentries, fun hlive => ?_⟩
    rw [Engine.navigateTo, if_neg (by simp [h.isOpen.live]), htarget] at hlive
    cases (h.isOpen.complete .error).stopped.symm.trans hlive
  | some entered =>
    rw [htarget] at hentries
    refine .inr ⟨left, entered, hlast, hentries, hleads entered htarget, fun hr => ?_⟩
    obtain ⟨hfew, hnext⟩ := hreplay hr
    exact ⟨hfew, fun hlive => (hleaves.count hlive).trans hnext⟩

omit [DecidableEq ι] [Truthy ι]

theorem mem_of_lookup {α : Type} {table : List (Nat × α)} {key : Nat} {value : α}
    (h : table.lookup key = some value) : (key, value) ∈ table := by
  obtain ⟨before, after, rfl, -⟩ := List.lookup_eq_some_iff.mp h
  exact List.mem_append_right _ (List.mem_cons_self ..)

theorem OnlyPlays.rest {player : Nat} {prompt : Prompt ι} (h : engine.OnlyPlays player prompt) :
    ∀ play ∈ (engine.withoutPlay player).plays, (engine.withoutPlay player).Stale play := by
  intro play hplay
  obtain ⟨hmem, hne⟩ := List.mem_filter.mp hplay
  rcases h.2 play hmem with rfl | hstale
  · simp at hne
  · exact hstale

theorem OnlyPlays.withoutPlay {player : Nat} {prompt : Prompt ι}
    (h : engine.OnlyPlays player prompt) (settled : Nat) :
    (engine.withoutPlay settled).OnlyPlays player prompt :=
  h.calm (.of_log rfl) List.filter_sublist

theorem Awaits.withoutPlay (h : engine.Awaits node) (player : Nat) :
    (engine.withoutPlay player).Awaits node := by
  cases h with
  | menuPrompt type current isPlayer menu timers plays =>
    exact .menuPrompt type current isPlayer menu timers (plays.withoutPlay player)
  | digit type noPlayer menu timer callback timers mine plays =>
    exact .digit type noPlayer menu timer callback timers mine fun play hplay =>
      plays play (List.mem_of_mem_filter hplay)
  | playPrompt current isPlayer noMenu timers plays =>
    exact .playPrompt current isPlayer noMenu timers (plays.withoutPlay player)
  | errorPrompt current noPlayer timers deaf plays =>
    exact .errorPrompt current noPlayer timers deaf (plays.withoutPlay player)

/-- A prompt left behind is a menu's, and its player isn't the engine's. -/
theorem Awaits.stale (h : engine.Awaits node) {player : Nat} {prompt : Prompt ι}
    (hmem : (player, prompt) ∈ engine.plays) (hleft : leftBehind engine.log player = true) :
    (∃ menu, prompt = .menu menu) ∧ engine.player ≠ some player := by
  have honly {current : Nat} {own : Prompt ι} (hplays : engine.OnlyPlays current own) :
      (∃ menu, prompt = .menu menu) ∧ current ≠ player := by
    have hne : current ≠ player := by
      rintro rfl
      exact absurd hleft (by simp [hplays.1])
    rcases hplays.2 _ hmem with heq | hstale
    · exact absurd (congrArg Prod.fst heq).symm hne
    · exact ⟨hstale.1, hne⟩
  cases h with
  | menuPrompt type current isPlayer menu timers plays =>
    obtain ⟨hmenu, hne⟩ := honly plays
    exact ⟨hmenu, by simpa [isPlayer] using hne⟩
  | digit type noPlayer menu timer callback timers mine plays =>
    exact ⟨(plays _ hmem).1, by simp [noPlayer]⟩
  | playPrompt current isPlayer noMenu timers plays =>
    obtain ⟨hmenu, hne⟩ := honly plays
    exact ⟨hmenu, by simpa [isPlayer] using hne⟩
  | errorPrompt current noPlayer timers deaf plays =>
    exact ⟨(honly plays).1, by simp [noPlayer]⟩

theorem withoutPlay_of_lookup {player : Nat} (h : engine.plays.lookup player = none) :
    engine.withoutPlay player = engine := by
  have hnone := List.lookup_eq_none_iff.mp h
  have hfilter : engine.plays.filter (·.1 ≠ player) = engine.plays := by
    apply List.filter_eq_self.mpr
    intro play hplay
    have hne := hnone play hplay
    simp only [bne_iff_ne, ne_eq] at hne
    simpa using fun heq : play.1 = player => hne heq.symm
  rw [Engine.withoutPlay, hfilter]

variable [DecidableEq ι]

theorem In.withoutPlay (h : engine.In flow node) (player : Nat) :
    (engine.withoutPlay player).In flow node :=
  h.calm (h.toGoing.withoutPlay player) (.of_log rfl) rfl

variable [Truthy ι]

/-- The outcome of a left prompt is dropped, unless it is a failure. -/
theorem Kept.settle_left (h : engine.Kept flow) {player : Nat} {outcome : Outcome}
    (hleft : leftBehind engine.log player = true)
    (hattended : outcome = .failed → (engine.plays.lookup player).isSome = true →
      engine.stopped = true) :
    engine.step flow (.settle player outcome) = engine.withoutPlay player := by
  rw [Engine.step]
  cases hlookup : engine.plays.lookup player with
  | none => exact (withoutPlay_of_lookup hlookup).symm
  | some prompt =>
    rcases h with hended | ⟨node, hin, hawaits⟩
    · exact settled_of_stopped (show (engine.withoutPlay player).stopped = true from hended.stopped) _ _ _
    · have hlive := hin.isOpen.live
      obtain ⟨⟨menu, rfl⟩, hplayer⟩ := hawaits.stale (mem_of_lookup hlookup) hleft
      have hlive' : ¬ (engine.withoutPlay player).stopped = true := by
        show ¬ engine.stopped = true
        simp [hlive]
      cases outcome with
      | finished =>
        show (engine.withoutPlay player).settled flow player _ _ = _
        rw [settled, if_neg hlive', if_pos (by exact hplayer)]
      | failed =>
        have hstopped := hattended rfl (by rw [hlookup]; rfl)
        rw [hlive] at hstopped
        cases hstopped

/-- The caller is given up for the prompt that failed. -/
theorem In.fails (h : engine.In flow node) {player : Nat}
    (hplays : ∀ play ∈ (engine.withoutPlay player).plays, (engine.withoutPlay player).Stale play)
    {event : Event} :
    engine.Turn flow event ((engine.withoutPlay player).playErrorAndHangup flow) := by
  have hleaves := (h.withoutPlay player).playErrorAndHangup hplays
  exact Leaves.turn hleaves (calm_playErrorAndHangup (engine.withoutPlay player))

/-- A menu's prompt ends, and its wait for a digit begins. -/
theorem In.prompted (h : engine.In flow node) {player : Nat} {event : Event}
    (type : node.type = .menu) (menu : engine.currentMenuNode = some node)
    (timers : engine.timers = []) (plays : engine.OnlyPlays player (.menu node)) (ms : Nat) :
    engine.Turn flow event (({ engine.withoutPlay player with player := none } : Engine ι).setTimer
      (.noInput node ms)) := by
  let waiting : Engine ι := { engine.withoutPlay player with player := none }
  have hgoing : waiting.Going := ⟨⟨h.isOpen.live, h.isOpen.unended⟩, h.bound,
    (h.withoutPlay player).heard, h.numbered, h.armed, h.counted⟩
  have hcalm : engine.Calm (waiting.setTimer (.noInput node ms)) := .of_log rfl
  have htimers : (waiting.setTimer (.noInput node ms)).timers =
      [(engine.timersSet, .noInput node ms)] := by
    simp [waiting, Engine.setTimer, Engine.withoutPlay, timers]
  have hin := h.calm (hgoing.setTimer timers (.noInput node ms)) hcalm rfl
  exact Live.stays ⟨node, hin, .digit type rfl menu engine.timersSet _ htimers (.inr ⟨ms, rfl⟩)
    plays.rest⟩ hcalm rfl

/-- A play node's prompt ends, and its first edge is taken. -/
theorem In.playedOut (h : engine.In flow node) {player : Nat} {event : Event}
    (plays : engine.OnlyPlays player (.play node))
    (hevent : isReplay flow engine event = false) :
    engine.Turn flow event ((engine.withoutPlay player).playedOut flow node) := by
  have hready : (engine.withoutPlay player).Ready :=
    { h.toGoing.withoutPlay player with menus := fun play hplay => (plays.rest play hplay).1 }
  unfold Engine.playedOut
  split
  · rename_i nextEdge hedge
    have hmem : nextEdge ∈ flow.edges := List.mem_of_find?_eq_some hedge
    have hsource : nextEdge.source = node.id := by simpa using List.find?_some hedge
    have hcalm : engine.Calm (engine.withoutPlay player) := .of_log rfl
    apply hready.turn hcalm h.last
    · intro entered hentered
      exact .edge nextEdge hmem hsource (Flow.getNode_id hentered).symm
    · intro hr
      rw [hevent] at hr
      cases hr
  · exact Leaves.turn (hready.isOpen.leaves _ _) (calm_complete _ _)

theorem Live.settle (h : engine.Live flow) (player : Nat) (outcome : Outcome)
    (hattended : outcome = .failed → leftBehind engine.log player = true →
      (engine.plays.lookup player).isSome = true → engine.stopped = true) :
    engine.Turn flow (.settle player outcome) (engine.step flow (.settle player outcome)) := by
  obtain ⟨node, hin, hawaits⟩ := h
  cases hleft : leftBehind engine.log player with
  | true =>
    have hkept : engine.Kept flow := .inr ⟨node, hin, hawaits⟩
    rw [hkept.settle_left hleft fun hfailed => hattended hfailed hleft]
    exact Live.stays ⟨node, hin.withoutPlay player, hawaits.withoutPlay player⟩ (.of_log rfl) rfl
  | false =>
    rw [step]
    cases hlookup : engine.plays.lookup player with
    | none => exact Live.stays ⟨node, hin, hawaits⟩ (.of_log rfl) rfl
    | some prompt =>
      have hmem := mem_of_lookup hlookup
      have hlive : ¬ (engine.withoutPlay player).stopped = true := by
        show ¬ engine.stopped = true
        simp [hin.isOpen.live]
      -- Its node was not left, so it is the one prompt that counts.
      have hown {current : Nat} {own : Prompt ι} (hplays : engine.OnlyPlays current own) :
          player = current ∧ prompt = own := by
        rcases hplays.2 _ hmem with heq | hstale
        · exact Prod.mk.inj heq
        · exact absurd hstale.2 (by simp [hleft])
      cases hawaits with
      | menuPrompt type current isPlayer menu timers plays =>
        obtain ⟨rfl, rfl⟩ := hown plays
        cases outcome with
        | finished =>
          show Turn _ _ _ ((engine.withoutPlay player).settled flow player _ _)
          rw [settled, if_neg hlive, if_neg (by exact not_not.mpr isPlayer)]
          exact hin.prompted type menu timers plays _
        | failed =>
          show Turn _ _ _ ((engine.withoutPlay player).settled flow player _ _)
          rw [settled, if_neg hlive]
          exact hin.fails plays.rest
      | digit type noPlayer menu timer callback timers mine plays =>
        exact absurd (plays _ hmem).2 (by simp [hleft])
      | playPrompt current isPlayer noMenu timers plays =>
        obtain ⟨rfl, rfl⟩ := hown plays
        cases outcome with
        | finished =>
          show Turn _ _ _ ((engine.withoutPlay player).settled flow player _ _)
          rw [settled, if_neg hlive]
          exact hin.playedOut plays rfl
        | failed =>
          show Turn _ _ _ ((engine.withoutPlay player).settled flow player _ _)
          rw [settled, if_neg hlive]
          exact hin.fails plays.rest
      | errorPrompt current noPlayer timers deaf plays =>
        obtain ⟨rfl, rfl⟩ := hown plays
        show Turn _ _ _ ((engine.withoutPlay player).settled flow player _ _)
        rw [settled, if_neg hlive]
        exact Leaves.turn ((hin.withoutPlay player).isOpen.leaves _ _) (calm_complete _ _)

/-- Where a digit leads is an edge's target or an older route's. -/
theorem route_leads {digit : String} {method : RouteMethod} {target : ι} {event : Event}
    (h : route flow node digit = some (method, target)) {entered : Node ι}
    (hid : entered.id = target) : Leads flow engine event node entered := by
  unfold route at h
  dsimp only at h
  split at h
  · rename_i found hfound
    obtain ⟨-, rfl⟩ := Prod.mk.inj (Option.some.inj h)
    obtain ⟨edge, hedge, rfl⟩ := Option.map_eq_some_iff.mp (Option.filter_eq_some_iff.mp hfound).1
    have hsource := List.find?_some hedge
    simp only [decide_eq_true_eq] at hsource
    exact .edge edge (List.mem_of_find?_eq_some hedge) hsource.1 hid.symm
  · split at h
    · cases h
    · rename_i legacy hlegacy
      split at h
      · obtain ⟨-, rfl⟩ := Prod.mk.inj (Option.some.inj h)
        have hentry := (Option.filter_eq_some_iff.mp hlegacy).1
        obtain ⟨before, after, heq, -⟩ := List.lookup_eq_some_iff.mp hentry
        refine .dtmfMap digit ?_
        rw [hid, heq]
        exact List.mem_append_right _ (List.mem_cons_self ..)
      · cases h

omit [Truthy ι] in
/-- Other output than an entry or a prompt changes nothing else. -/
theorem Live.emit (h : engine.Live flow) {output : Output ι} (hend : output.isEnd = false)
    (hprogress : output.isProgress = false) : (engine.emit output).Live flow := by
  obtain ⟨node, hin, hawaits⟩ := h
  have hplayed : ∀ player audioPath, output ≠ .played player audioPath := by
    rintro player audioPath rfl
    cases hprogress
  have hcalm : engine.Calm (engine.emit output) := by
    apply calm_emit
    cases output with
    | entered node => cases hprogress
    | _ => rfl
  refine ⟨node, hin.calm (hin.toGoing.emit hend hplayed) hcalm rfl, ?_⟩
  cases hawaits with
  | menuPrompt type current isPlayer menu timers plays =>
    exact .menuPrompt type current isPlayer menu timers (plays.calm hcalm (List.Sublist.refl _))
  | digit type noPlayer menu timer callback timers mine plays =>
    exact .digit type noPlayer menu timer callback timers mine fun play hplay =>
      (plays play hplay).calm hcalm
  | playPrompt current isPlayer noMenu timers plays =>
    exact .playPrompt current isPlayer noMenu timers (plays.calm hcalm (List.Sublist.refl _))
  | errorPrompt current noPlayer timers deaf plays =>
    exact .errorPrompt current noPlayer timers deaf (plays.calm hcalm (List.Sublist.refl _))

/-- A digit pressed in a menu goes where the menu routes it. -/
theorem In.onDtmf (h : engine.In flow node) (hawaits : engine.Awaits node)
    (hmenus : ∀ play ∈ engine.plays, ∃ menu, play.2 = .menu menu) (digit : String) :
    engine.Turn flow (.digit digit) (engine.onDtmf flow node digit) := by
  have hlive : ¬ engine.stopped = true := by simp [h.isOpen.live]
  have hreceived : (engine.emit (.dtmfReceived digit node)).Live flow :=
    Live.emit ⟨node, h, hawaits⟩ rfl rfl
  have hcalm : engine.Calm (engine.emit (.dtmfReceived digit node)) := calm_emit engine rfl
  unfold Engine.onDtmf
  rw [if_neg hlive]
  cases hroute : route flow node digit with
  | none =>
    dsimp only
    exact Live.stays (hreceived.emit rfl rfl) (hcalm.trans (calm_emit _ rfl)) rfl
  | some routed =>
    obtain ⟨method, target⟩ := routed
    dsimp only
    have hgoing : (((engine.emit (.dtmfReceived digit node)).emit
        (.routeSelected digit node (some (method, target)))).emit (.recordedInput digit node.id)).Going :=
      ((h.toGoing.emit rfl (by simp)).emit rfl (by simp)).emit rfl (by simp)
    have hready := Ready.mk hgoing hmenus
    apply hready.turn ((hcalm.trans (calm_emit _ rfl)).trans (calm_emit _ rfl)) h.last
    · intro entered hentered
      exact route_leads hroute (Flow.getNode_id hentered)
    · intro hr
      cases hr

theorem Live.digit (h : engine.Live flow) (digit : String) :
    engine.Turn flow (.digit digit) (engine.step flow (.digit digit)) := by
  have hstays : engine.Turn flow (.digit digit) engine := h.stays (.of_log rfl) rfl
  obtain ⟨node, hin, hawaits⟩ := h
  have hlive : ¬ engine.stopped = true := by simp [hin.isOpen.live]
  have honce : engine.subscriptions ≤ 1 := Nat.le_trans hin.bound (Bool.toNat_le _)
  rw [step]
  cases hsubscriptions : engine.subscriptions with
  | zero => exact hstays
  | succ more =>
    obtain rfl : more = 0 := by omega
    change engine.Turn flow (.digit digit) (engine.onBusDigit flow digit)
    unfold onBusDigit
    cases hmenu : engine.currentMenuNode with
    | none => exact hstays
    | some menu =>
      dsimp only
      rw [if_neg hlive]
      have haw := hawaits
      cases hawaits with
      | menuPrompt type current isPlayer currentMenu timers plays =>
        obtain rfl := Option.some.inj (hmenu.symm.trans currentMenu)
        refine hin.onDtmf haw (fun play hplay => ?_) digit
        rcases plays.2 play hplay with rfl | hstale
        · exact ⟨_, rfl⟩
        · exact hstale.1
      | digit type noPlayer currentMenu timer callback timers mine plays =>
        obtain rfl := Option.some.inj (hmenu.symm.trans currentMenu)
        exact hin.onDtmf haw (fun play hplay => (plays play hplay).1) digit
      | playPrompt current isPlayer noMenu timers plays =>
        rw [noMenu] at hmenu
        cases hmenu
      | errorPrompt current noPlayer timers deaf plays =>
        rw [deaf] at hsubscriptions
        cases hsubscriptions

/-- No key came: the menu plays again three times, or the caller goes to a hang-up node. -/
theorem In.graceOver (h : engine.In flow node) (type : node.type = .menu) {timer : Nat}
    (timers : engine.timers = [(timer, .grace node)])
    (plays : ∀ play ∈ engine.plays, engine.Stale play)
    (hnext : engine.step flow (.fire timer) =
      ({ engine.withoutTimer timer with timer := none } : Engine ι).executeTimeout flow node) :
    engine.Turn flow (.fire timer)
      (({ engine.withoutTimer timer with timer := none } : Engine ι).executeTimeout flow node) := by
  have hnoInput : NoInput engine (.fire timer) node := ⟨timer, rfl, by simp [timers]⟩
  have htimers : (engine.withoutTimer timer).timers = [] := by simp [Engine.withoutTimer, timers]
  have hready (count : Nat) (hcount : count ≤ 3) :
      ({ engine.withoutTimer timer with timer := none, replayCount := count } : Engine ι).Ready :=
    { isOpen := ⟨h.isOpen.live, h.isOpen.unended⟩
      bound := h.bound
      heard := h.heard
      numbered := h.numbered
      armed := fun _ hmem => absurd (htimers ▸ hmem) List.not_mem_nil
      counted := hcount
      menus := fun play hplay => (plays play hplay).1 }
  have hreplay : isReplay flow engine (.fire timer) = true →
      entries (engine.step flow (.fire timer)).log = entries engine.log ++ [node] := by
    intro hr
    simpa [isReplay, timers] using hr
  have hopen (count : Nat) :
      ({ engine.withoutTimer timer with timer := none, replayCount := count } : Engine ι).Open :=
    ⟨h.isOpen.live, h.isOpen.unended⟩
  have hcalm (count : Nat) : engine.Calm
      ({ engine.withoutTimer timer with timer := none, replayCount := count } : Engine ι) :=
    .of_log rfl
  rw [hnext] at hreplay
  revert hreplay
  unfold executeTimeout
  rw [if_neg (by simp [Engine.withoutTimer, h.isOpen.live])]
  split
  · dsimp only
    split
    · exact fun _ => Leaves.turn ((hopen _).leaves _ _) (calm_complete _ _)
    · rename_i hfew
      intro _
      have hcount : engine.replayCount + 1 ≤ 3 := Nat.le_of_not_lt hfew
      apply (hready (engine.replayCount + 1) hcount).turn (hcalm _) h.last
      · intro entered hentered
        obtain rfl : node = entered := Option.some.inj (h.indexed.symm.trans hentered)
        exact .replay type hnoInput
      · intro _
        exact ⟨hcount, if_pos h.current⟩
  · dsimp only
    split
    · rename_i hangupNode hhangup
      obtain ⟨htype, hget⟩ := Flow.getNode_of_findNodeByType hhangup
      intro hreplay
      apply (hready 0 (Nat.zero_le _)).turn (hcalm 0) h.last
      · intro entered hentered
        obtain rfl : hangupNode = entered := Option.some.inj (hget.symm.trans hentered)
        exact .hangUp htype hnoInput
      · intro hr
        -- A hang-up node is no menu, so this was no replay of one.
        obtain ⟨-, hentries⟩ := (hready 0 (Nat.zero_le _)).navigateTo flow hangupNode.id
        rw [hget] at hentries
        have hsame := List.append_cancel_left (hentries.symm.trans (hreplay hr))
        obtain rfl : hangupNode = node := by simpa using hsame
        rw [htype] at type
        cases type
    · exact fun _ => Leaves.turn ((hopen _).leaves _ _) (calm_complete _ _)

theorem Live.fire (h : engine.Live flow) (timer : Nat) :
    engine.Turn flow (.fire timer) (engine.step flow (.fire timer)) := by
  have hstays : engine.Turn flow (.fire timer) engine := h.stays (.of_log rfl) rfl
  obtain ⟨node, hin, hawaits⟩ := h
  have hstep := Engine.step.eq_3 flow engine timer
  cases hlookup : engine.timers.lookup timer with
  | none =>
    rw [hstep, hlookup]
    exact hstays
  | some callback =>
    rw [hlookup] at hstep
    have hmem := mem_of_lookup hlookup
    cases hawaits with
    | menuPrompt type current isPlayer menu timers plays =>
      rw [timers] at hmem
      cases hmem
    | playPrompt current isPlayer noMenu timers plays =>
      rw [timers] at hmem
      cases hmem
    | errorPrompt current noPlayer timers deaf plays =>
      rw [timers] at hmem
      cases hmem
    | digit type noPlayer menu armed pending timers mine plays =>
      rw [timers] at hmem
      obtain ⟨rfl, rfl⟩ := Prod.mk.inj (List.mem_singleton.mp hmem)
      rcases mine with rfl | ⟨ms, rfl⟩
      · rw [hstep]
        exact hin.graceOver type timers plays hstep
      · have hlive : ¬ (engine.withoutTimer timer).stopped = true := by
          show ¬ engine.stopped = true
          simp [hin.isOpen.live]
        have hnone : (engine.withoutTimer timer).timers = [] := by
          simp [Engine.withoutTimer, timers]
        rw [hstep]
        dsimp only
        rw [timedOut, if_neg hlive]
        have hcalm : engine.Calm ((engine.withoutTimer timer).setTimer (.grace node)) := .of_log rfl
        have hin' := hin.calm ((hin.toGoing.withoutTimer timer).setTimer hnone (.grace node)) hcalm rfl
        have htimers : ((engine.withoutTimer timer).setTimer (.grace node)).timers =
            [(engine.timersSet, .grace node)] := by
          show (engine.withoutTimer timer).timers ++ _ = _
          rw [hnone]
          rfl
        exact Live.stays ⟨node, hin', .digit type noPlayer menu _ _ htimers (.inl rfl) plays⟩ hcalm rfl

/-- Whatever comes at a running engine, if it is no left prompt's failure. -/
theorem Live.step (h : engine.Live flow) (event : Event)
    (hattended : ∀ player, event = .settle player .failed → leftBehind engine.log player = true →
      (engine.plays.lookup player).isSome = true → engine.stopped = true) :
    engine.Turn flow event (engine.step flow event) := by
  cases event with
  | settle player outcome =>
    exact h.settle player outcome fun hfailed => hattended player (by rw [hfailed])
  | digit digit => exact h.digit digit
  | fire timer => exact h.fire timer
  | stop =>
    obtain ⟨node, hin, -⟩ := h
    have hended : (engine.step flow .stop).Ended := hin.isOpen.stop
    refine Leaves.turn ⟨.inl hended, fun hlive => ?_⟩ (calm_stop engine)
    rw [hended.stopped] at hlive
    cases hlive

end Events

/-! ## Whole runs -/

section Runs

variable {flow : Flow ι} {engine : Engine ι}

/-- A stopped engine stays where it is; a running one turns. -/
theorem Kept.step (h : engine.Kept flow) (event : Event)
    (hattended : ∀ player, event = .settle player .failed → leftBehind engine.log player = true →
      (engine.plays.lookup player).isSome = true → engine.stopped = true) :
    engine.Turn flow event (engine.step flow event) := by
  rcases h with hended | hlive
  · have hrests := step_of_stopped flow hended.stopped event
    refine ⟨.inl (hended.rests hrests), .inl ⟨by rw [hrests.log], fun hrun => ?_⟩⟩
    rw [hrests.stopped] at hrun
    cases hrun
  · exact hlive.step event hattended

end Runs

end Engine

section Runs

variable {flow : Flow ι} {engine : Engine ι}

theorem Attended.head {event : Event} {events : List Event}
    (h : Attended flow engine (event :: events)) :
    ∀ player, event = .settle player .failed → leftBehind engine.log player = true →
      (engine.plays.lookup player).isSome = true → engine.stopped = true := by
  rintro player rfl
  exact h [] player events rfl

theorem Attended.tail {event : Event} {events : List Event}
    (h : Attended flow engine (event :: events)) :
    Attended flow (engine.step flow event) events := by
  intro before player after heq
  exact h (event :: before) player after (by rw [heq, List.cons_append])

theorem Engine.Kept.run (h : engine.Kept flow) (before : List Event) {after : List Event}
    (hattended : Attended flow engine (before ++ after)) :
    (engine.run flow before).Kept flow ∧ Attended flow (engine.run flow before) after := by
  induction before generalizing engine with
  | nil => exact ⟨h, hattended⟩
  | cons event before ih => exact ih (h.step event hattended.head).kept hattended.tail

/-- A replay enters its menu again. -/
theorem entries_of_isReplay {event : Event} (h : isReplay flow engine event = true) :
    entries (engine.step flow event).log ≠ entries engine.log := by
  unfold isReplay at h
  split at h
  · split at h
    · rw [of_decide_eq_true h]
      simp
    · cases h
  · cases h

theorem Engine.Kept.replays (h : engine.Kept flow) {count : Nat} {events : List Event}
    (hfew : count ≤ 3) (hcount : engine.stopped = false → count ≤ engine.replayCount)
    (hattended : Attended flow engine events) : replaysInARow flow engine count events ≤ 3 := by
  induction events generalizing engine count with
  | nil => exact hfew
  | cons event events ih =>
    have hturn := h.step event hattended.head
    rw [replaysInARow]
    rcases hturn.moved with ⟨hsame, hkeeps⟩ | ⟨left, entered, hlast, hentries, hleads, hreplay⟩
    · have hnot : isReplay flow engine event = false := by
        cases hr : isReplay flow engine event with
        | false => rfl
        | true => exact absurd hsame (entries_of_isReplay hr)
      rw [hnot, if_neg Bool.false_ne_true, if_pos hsame]
      refine ih hturn.kept hfew (fun hlive => ?_) hattended.tail
      have hbefore : engine.stopped = false := by
        cases hs : engine.stopped with
        | false => rfl
        | true => exact absurd (Engine.step_of_stopped flow hs event).stopped (by simp [hlive])
      rw [hkeeps hlive]
      exact hcount hbefore
    · have hother : entries (engine.step flow event).log ≠ entries engine.log := by
        rw [hentries]
        simp
      have hbefore : engine.stopped = false := by
        cases hs : engine.stopped with
        | false => rfl
        | true =>
          have hlog := (Engine.step_of_stopped flow hs event).log
          exact absurd (by rw [hlog]) hother
      have hcounted := hcount hbefore
      rw [if_neg hother]
      split
      · rename_i hr
        obtain ⟨hless, hnext⟩ := hreplay hr
        refine ih hturn.kept (by omega) (fun hlive => ?_) hattended.tail
        rw [hnext hlive]
        omega
      · exact ih hturn.kept (Nat.zero_le _) (fun _ => Nat.zero_le _) hattended.tail

/-! ## The beginning -/

omit [Truthy ι] in
theorem Begin.kept (flow : Flow ι) (origin : Begin ι) :
    (origin.engine flow).Kept flow ∧ (entries (origin.engine flow).log).length ≤ 1 := by
  have hopen : ({} : Engine ι).Open := ⟨rfl, fun _ h => absurd h List.not_mem_nil⟩
  have hready : (({} : Engine ι).listen).Ready :=
    { isOpen := hopen.listen
      bound := Nat.le_refl _
      heard := fun _ h => absurd h List.not_mem_nil
      numbered := fun _ _ h => absurd h List.not_mem_nil
      armed := fun _ h => absurd h List.not_mem_nil
      counted := Nat.zero_le _
      menus := fun _ h => absurd h List.not_mem_nil }
  have hgoes (nodeId : ι) : (({} : Engine ι).listen.navigateTo flow nodeId).Kept flow ∧
      (entries (({} : Engine ι).listen.navigateTo flow nodeId).log).length ≤ 1 := by
    obtain ⟨hleaves, hentries⟩ := hready.navigateTo flow nodeId
    refine ⟨hleaves.kept, ?_⟩
    have hempty : entries ({} : Engine ι).listen.log = [] := rfl
    rw [hentries, hempty, List.nil_append]
    cases flow.getNode nodeId <;> simp
  have hstart : (({} : Engine ι).start flow).1.Kept flow ∧
      (entries (({} : Engine ι).start flow).1.log).length ≤ 1 := by
    unfold Engine.start
    split
    · refine ⟨.inl (hopen.complete _), ?_⟩
      rw [(Engine.calm_complete _ _).entries]
      exact Nat.zero_le _
    · exact hgoes _
  cases origin with
  | start => exact hstart
  | startAt nodeId =>
    show (({} : Engine ι).startAt flow nodeId).1.Kept flow ∧
      (entries (({} : Engine ι).startAt flow nodeId).1.log).length ≤ 1
    unfold Engine.startAt
    split
    · exact hstart
    · exact hgoes nodeId

/-! ## The law -/

omit [DecidableEq ι] [Truthy ι] in
theorem Output.isEnd_of_isCompleted {output : Output ι} (h : output.isCompleted = true) :
    output.isEnd = true := by
  cases output with
  | completed action => rfl
  | _ => cases h

omit [DecidableEq ι] [Truthy ι] in
theorem Engine.Sound.completesOnce (h : engine.Sound) :
    engine.log.countP Output.isCompleted ≤ 1 := by
  have hnone {log : List (Output ι)} (hlog : ∀ output ∈ log, output.isEnd = false) :
      log.countP Output.isCompleted = 0 := by
    rw [List.countP_eq_zero]
    intro output ho hcompleted
    have hend := Output.isEnd_of_isCompleted hcompleted
    rw [hlog output ho] at hend
    cases hend
  rcases h with hopen | hended
  · rw [hnone hopen.unended]
    exact Nat.zero_le _
  · obtain ⟨before, last, hlog, -, hbefore⟩ := hended.log
    rw [hlog, List.countP_append, hnone hbefore, Nat.zero_add]
    exact List.countP_le_length

omit [DecidableEq ι] [Truthy ι] in
theorem Engine.Sound.endsThere (h : engine.Sound) {before after : List (Output ι)}
    {last : Output ι} (hlog : engine.log = before ++ last :: after) (hlast : last.isEnd = true) :
    after = [] := by
  have hmem : last ∈ engine.log := by
    rw [hlog]
    exact List.mem_append_right _ (List.mem_cons_self ..)
  rcases h with hopen | hended
  · rw [hopen.unended last hmem] at hlast
    cases hlast
  · obtain ⟨said, final, hsaid, -, hearlier⟩ := hended.log
    rcases List.eq_nil_or_concat after with hnil | ⟨rest, final', hconcat⟩
    · exact hnil
    · -- Something came out after an end: the end is among what was said before.
      have heq : said ++ [final] = (before ++ last :: rest) ++ [final'] := by
        rw [← hsaid, hlog, hconcat, List.concat_eq_append, List.append_assoc, List.cons_append]
      have hsame : said = before ++ last :: rest := (List.append_inj' heq rfl).1
      have hearly := hearlier last (by
        rw [hsame]
        exact List.mem_append_right _ (List.mem_cons_self ..))
      rw [hearly] at hlast
      cases hlast

omit [Truthy ι] in
/-- A failure always gives the caller up. -/
theorem Engine.settled_failed_ne (h : engine.stopped = false) (player : Nat) (prompt : Prompt ι) :
    engine.settled flow player prompt .failed ≠ engine := by
  have hlive : ¬ engine.stopped = true := by simp [h]
  have hcompleted (action : Action ι) (other : Engine ι) (ho : other.stopped = false) :
      (other.complete action).stopped = true := by
    rw [Engine.complete_of_live other action ho, Engine.cleared_eq]
    rfl
  have hcleared : engine.cleared.stopped = false := by rw [Engine.cleared_eq, h]
  have herror : engine.playErrorAndHangup flow ≠ engine := by
    unfold Engine.playErrorAndHangup
    split
    · intro heq
      have hstopped := hcompleted .hungUp engine.cleared hcleared
      rw [heq, h] at hstopped
      cases hstopped
    · intro heq
      have hplayers := congrArg Engine.players heq
      rw [Engine.cleared_eq] at hplayers
      exact Nat.succ_ne_self _ hplayers
  cases prompt with
  | menu node =>
    rw [Engine.settled, if_neg hlive]
    exact herror
  | play node =>
    rw [Engine.settled, if_neg hlive]
    exact herror
  | error =>
    rw [Engine.settled, if_neg hlive]
    intro heq
    have hstopped := hcompleted .hungUp engine h
    rw [heq, h] at hstopped
    cases hstopped

end Runs

/-- A run follows its graph exactly when no prompt fails, while it goes on, whose node was left. -/
theorem followsGraph_iff (flow : Flow ι) (origin : Begin ι) (events : List Event) :
    FollowsGraph flow (origin.engine flow) events ↔ Attended flow (origin.engine flow) events := by
  obtain ⟨hkept, hfirst⟩ := origin.kept flow
  have hsound := (origin.sound flow).run flow events
  constructor
  · intro hfollows before player after heq now hleft hplays
    by_contra hstopped
    obtain ⟨prompt, hprompt⟩ := Option.isSome_iff_exists.mp hplays
    have hdropped := hfollows.leftPrompts before player .failed after heq hleft
    change now.step flow (.settle player .failed) = now.withoutPlay player at hdropped
    rw [Engine.step, hprompt] at hdropped
    have hlive : (now.withoutPlay player).stopped = false := Bool.eq_false_iff.mpr hstopped
    exact Engine.settled_failed_ne hlive player prompt hdropped
  · intro hattended
    constructor
    · exact hsound.completesOnce
    · intro before last after hlog hlast output ho
      rw [hsound.endsThere hlog hlast] at ho
      cases ho
    · exact hfirst
    · intro before event after heq
      obtain ⟨hnow, hrest⟩ := hkept.run before (heq ▸ hattended)
      rcases (hnow.step event hrest.head).moved with ⟨hsame, -⟩ | ⟨left, entered, hlast, hentries, hleads, -⟩
      · exact .inl hsame
      · exact .inr ⟨left, entered, hlast, hentries, hleads⟩
    · exact hkept.replays (Nat.zero_le _) (fun _ => Nat.zero_le _) hattended
    · intro before player outcome after heq now hleft
      obtain ⟨hnow, hrest⟩ := hkept.run before (heq ▸ hattended)
      apply hnow.settle_left hleft
      rintro rfl hplays
      exact hrest.head player rfl hleft hplays

/-! ## A prompt that fails late -/

/-- Two menus; digit 1 leads from the first to the second. -/
def twoMenus : Flow Nat where
  nodes := [⟨1, .start, {}⟩, ⟨2, .menu, {}⟩, ⟨3, .menu, {}⟩]
  edges := [⟨1, "undefined", 2⟩, ⟨2, "1", 3⟩]
  audioPathMap := [(2, "first.wav"), (3, "second.wav")]

/-- The caller is in the second menu when the first one's prompt fails, and is hung up on. -/
theorem not_followsGraph_lateFailure :
    ¬ ∀ events, FollowsGraph twoMenus (Begin.start.engine twoMenus) events := by
  intro hfollows
  have hdropped := (hfollows [.digit "1", .settle 0 .failed]).leftPrompts [.digit "1"] 0 .failed []
    rfl (by decide)
  revert hdropped
  decide

end Callio.Ivr
