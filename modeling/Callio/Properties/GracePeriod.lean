import Callio.Cluster.Deadlines

/-! A stored deadline: its handler acts on a call only after somebody set the
deadline so long ago, and nobody has taken it back since. No deadline is claimed
more often than it was set, and one that is due does not wait for long. -/

namespace Callio.Deadlines

open Concurrency Js Store SortedSet

/-- How long after its setting a deadline of this kind is due; `rings`: how long a
call rings its line's owner. -/
def Delay (rings : CallId → Nat → Prop) (kind : Text) (callId : CallId) (inMs : Nat) : Prop :=
  kind = warnKind ∧ inMs = warnAfterMs ∨ kind = endKind ∧ inMs = endAfterMs ∨
    kind = reconnect ∧ inMs = reconnectTimeoutMs ∨ kind = lineRing ∧ rings callId inMs

/-- Some task rings the line's owner for so long. -/
def Rings {ι : Type} (tasks : ι → Task) (callId : CallId) (ringTimeoutMs : Nat) : Prop :=
  ∃ i n, tasks i = .ringOwner n callId ringTimeoutMs

section rings

variable {rings : CallId → Nat → Prop}

theorem Delay.no_bar {kind : Text} {callId : CallId} {inMs : Nat} (h : Delay rings kind callId inMs) :
    '|' ∉ kind := by
  rcases h with ⟨rfl, -⟩ | ⟨rfl, -⟩ | ⟨rfl, -⟩ | ⟨rfl, -⟩ <;> decide

/-- The score and the member of a deadline that was set at one of these readings of a clock. -/
def SetAt (rings : CallId → Nat → Prop) (readings : List Nat) (score : Nat) (m : Text) : Prop :=
  ∃ now ∈ readings, ∃ kind callId inMs, score = now + inMs ∧ m = member kind callId ∧ Delay rings kind callId inMs

theorem SetAt.mono {readings readings' : List Nat} {score : Nat} {m : Text} (h : SetAt rings readings score m)
    (hsub : readings ⊆ readings') : SetAt rings readings' score m := by
  obtain ⟨now, hnow, rest⟩ := h
  exact ⟨now, hsub hnow, rest⟩

/-! ## What a thread does next -/

structure Phase where
  /-- What it has read of clocks. -/
  readings : List Nat := []
  /-- What it claimed last. -/
  due : List Text := []
  /-- The job it has taken. -/
  job : Option (Text × Number) := none

variable (rings) in
abbrev protocol : Protocol Op.Res where
  Phase := Phase
  next
    | q, .now _, time => { q with readings := time :: q.readings }
    | q, .claim _, due => { q with due }
    | q, .takeJob _, job => { q with job }
    | q, _, _ => q
  allows
    | q, .zadd score m => SetAt rings q.readings score m
    | q, .claim time => time ∈ q.readings
    | q, .hand _ due => due = q.due
    | q, .expire kind callId => ∃ x, q.job = some (kind, x) ∧ idOf x = some callId
    | _, _ => True

theorem set_follows {kind : Text} {callId : CallId} {inMs : Nat} (h : Delay rings kind callId inMs) (n : Nat) (q : Phase) :
    (set n kind callId inMs).Follows (protocol rings) q fun _ _ => True :=
  ⟨trivial, fun now => ⟨⟨now, List.mem_cons_self, kind, callId, inMs, rfl, rfl, h⟩, fun _ => trivial⟩⟩

theorem cancel_follows (callId : CallId) (q : Phase) : (cancel callId).Follows (protocol rings) q fun _ _ => True :=
  ⟨trivial, fun _ => ⟨trivial, fun _ => trivial⟩⟩

theorem clearCall_follows (n : Nat) (callId : CallId) (q : Phase) :
    (clearCall n callId).Follows (protocol rings) q fun _ _ => True := by
  unfold clearCall
  rw [Prog.follows_cmd_bind]
  refine ⟨trivial, fun kinds => ?_⟩
  dsimp only
  split
  · exact ⟨trivial, fun _ => trivial⟩
  · exact trivial

theorem tick_follows (n : Nat) (q : Phase) : (tick n).Follows (protocol rings) q fun _ _ => True := by
  refine (Prog.follows_cmd_bind _ _ _ _).mpr ⟨trivial, fun entered => ?_⟩
  cases entered with
  | false => exact trivial
  | true => exact ⟨trivial, fun now => ⟨List.mem_cons_self, fun due => ⟨rfl, fun _ => ⟨trivial, fun _ => trivial⟩⟩⟩⟩

theorem handle_follows (n : Nat) (q : Phase) : (handle n).Follows (protocol rings) q fun _ _ => True := by
  refine (Prog.follows_cmd_bind _ _ _ _).mpr ⟨trivial, fun job => ?_⟩
  cases job with
  | none => exact trivial
  | some job =>
    obtain ⟨kind, x⟩ := job
    cases hid : idOf x with
    | none => simp [hid]
    | some callId =>
      simp only [hid]
      refine (Prog.follows_cmd_bind _ _ _ _).mpr ⟨trivial, fun row => ?_⟩
      cases row with
      | none => exact trivial
      | some row =>
        by_cases hacts : acts kind row
        · simp only [hacts, if_true]
          exact ⟨⟨x, rfl, hid⟩, fun _ => trivial⟩
        · simp only [hacts]
          exact trivial

theorem onMediaState_follows (n : Nat) (callId : CallId) (state : MediaState) (logged : Bool) (q : Phase) :
    (onMediaState n callId state logged).Follows (protocol rings) q fun _ _ => True := by
  refine (Prog.follows_cmd_bind _ _ _ _).mpr ⟨trivial, fun row => ?_⟩
  cases row with
  | none => exact trivial
  | some row =>
    cases state with
    | active => exact cancel_follows callId _
    | drop =>
      cases logged with
      | false => exact trivial
      | true =>
        have hwarn : ∀ warnNow endNow : Nat, SetAt rings (endNow :: warnNow :: q.readings) (warnNow + warnAfterMs)
            (member warnKind callId) :=
          fun warnNow _ => ⟨warnNow, by simp, _, _, _, rfl, rfl, .inl ⟨rfl, rfl⟩⟩
        have hend : ∀ warnNow endNow : Nat, SetAt rings (endNow :: warnNow :: q.readings) (endNow + endAfterMs)
            (member endKind callId) :=
          fun _ endNow => ⟨endNow, by simp, _, _, _, rfl, rfl, .inr (.inl ⟨rfl, rfl⟩)⟩
        exact ⟨trivial, fun warnNow => ⟨trivial, fun endNow =>
          ⟨hwarn warnNow endNow, fun _ => ⟨hend warnNow endNow, fun _ => trivial⟩⟩⟩⟩

theorem handleFrontendDisconnected_follows (n : Nat) (callId : CallId) (userId : Option Nat) (q : Phase) :
    (handleFrontendDisconnected n callId userId).Follows (protocol rings) q fun _ _ => True := by
  have hdelay : Delay rings reconnect callId reconnectTimeoutMs := .inr (.inr (.inl ⟨rfl, rfl⟩))
  have hset := set_follows hdelay n
  cases userId with
  | none => exact hset q
  | some user =>
    refine (Prog.follows_cmd_bind _ _ _ _).mpr ⟨trivial, fun row => ?_⟩
    cases row with
    | none => exact trivial
    | some row =>
      by_cases hagent : row.agentId = some user
      · simp only [hagent, if_true]
        exact hset _
      · simp only [hagent, if_false]
        exact trivial

theorem Task.follows (t : Task) (hrings : ∀ n callId ms, t = .ringOwner n callId ms → rings callId ms) (q : Phase) :
    t.code.Follows (protocol rings) q fun _ _ => True := by
  cases t with
  | tick n => exact tick_follows n q
  | handle n => exact handle_follows n q
  | mediaState n callId state logged => exact onMediaState_follows n callId state logged q
  | terminated callId => exact cancel_follows callId q
  | frontendDisconnected n callId userId => exact handleFrontendDisconnected_follows n callId userId q
  | reconnected callId => exact ⟨trivial, fun _ => trivial⟩
  | ringOwner n callId ringTimeoutMs =>
    exact set_follows (.inr (.inr (.inr ⟨rfl, hrings n callId ringTimeoutMs rfl⟩))) n q
  | settled n callId => exact clearCall_follows n callId q
  | setCall callId row => exact ⟨trivial, fun _ => trivial⟩
  | pass n ms => exact ⟨trivial, fun _ => trivial⟩

/-! ## What every command keeps -/

def Claimed (log : List (Event Text)) (m : Text) : Prop := ∃ time due, .claimed time due ∈ log ∧ m ∈ due

theorem Claimed.cons {log : List (Event Text)} {m : Text} (h : Claimed log m) (e : Event Text) :
    Claimed (e :: log) m := by
  obtain ⟨time, due, hlog, hm⟩ := h
  exact ⟨time, due, List.mem_cons_of_mem _ hlog, hm⟩

/-- A job comes from a member that a claim took. -/
def Called (log : List (Event Text)) (job : Text × Number) : Prop := ∃ m, parse m = job ∧ Claimed log m

theorem Called.cons {log : List (Event Text)} {job : Text × Number} (h : Called log job) (e : Event Text) :
    Called (e :: log) job := by
  obtain ⟨m, hm, hclaimed⟩ := h
  exact ⟨m, hm, hclaimed.cons e⟩

/-- What is known of the log and of what was read of clocks. -/
structure Sound (rings : CallId → Nat → Prop) (log : List (Event Text)) (readings : List Nat) : Prop where
  served : Served before batch log
  added : ∀ m score, .added m score ∈ log → SetAt rings readings score m
  claimed : ∀ time due, .claimed time due ∈ log → time ∈ readings

structure Kept (rings : CallId → Nat → Prop) {ι : Type} (s : Cluster) (q : ι → Phase) : Prop where
  stored : s.deadlines = replay before s.log
  sound : Sound rings s.log s.readings
  readings : ∀ i, (q i).readings ⊆ s.readings
  due : ∀ i, ∀ m ∈ (q i).due, Claimed s.log m
  jobs : ∀ n, ∀ job ∈ (s.workers n).jobs, Called s.log job
  job : ∀ i job, (q i).job = some job → Called s.log job
  expired : ∀ e ∈ s.expired, e.log <:+ s.log ∧ ∃ x, idOf x = some e.callId ∧ Called e.log (e.kind, x)

theorem Sound.cons_removed {log : List (Event Text)} {readings : List Nat} (h : Sound rings log readings) (ms : List Text) :
    Sound rings (.removed ms :: log) readings where
  served := h.served
  added m score hin := h.added m score ((List.mem_cons.mp hin).resolve_left nofun)
  claimed time due hin := h.claimed time due ((List.mem_cons.mp hin).resolve_left nofun)

theorem Sound.cons_added {log : List (Event Text)} {readings : List Nat} {m : Text} {score : Nat}
    (h : Sound rings log readings) (hset : SetAt rings readings score m) : Sound rings (.added m score :: log) readings where
  served := h.served
  added m' score' hin := by
    rcases List.mem_cons.mp hin with heq | hin
    · cases heq
      exact hset
    · exact h.added m' score' hin
  claimed time due hin := h.claimed time due ((List.mem_cons.mp hin).resolve_left nofun)

theorem Sound.cons_claimed {log : List (Event Text)} {readings : List Nat} {time : Nat} (h : Sound rings log readings)
    (htime : time ∈ readings) :
    Sound rings (.claimed time (SortedSet.due batch time (replay before log)) :: log) readings where
  served := ⟨rfl, h.served⟩
  added m score hin := h.added m score ((List.mem_cons.mp hin).resolve_left nofun)
  claimed time' due hin := by
    rcases List.mem_cons.mp hin with heq | hin
    · cases heq
      exact htime
    · exact h.claimed time' due hin

theorem Sound.mono {log : List (Event Text)} {readings readings' : List Nat} (h : Sound rings log readings)
    (hsub : readings ⊆ readings') : Sound rings log readings' where
  served := h.served
  added m score hin := (h.added m score hin).mono hsub
  claimed time due hin := hsub (h.claimed time due hin)

namespace Kept

variable {ι : Type} {s : Cluster} {q : ι → Phase}

/-- A worker changes, with no jobs but those called. -/
theorem setWorker {w : Worker} (h : Kept rings s q) (n : Nat) (hw : ∀ job ∈ w.jobs, Called s.log job) :
    Kept rings (s.setWorker n w) q where
  stored := h.stored
  sound := h.sound
  readings := h.readings
  due := h.due
  jobs k job hjob := by
    by_cases hk : k = n
    · rw [hk, show (s.setWorker n w).workers n = w from Function.update_self ..] at hjob
      exact hw job hjob
    · rw [show (s.setWorker n w).workers k = s.workers k from Function.update_of_ne hk ..] at hjob
      exact h.jobs k job hjob
  job := h.job
  expired := h.expired

/-- Redis did something, and its log grew by it. -/
theorem of_redis (h : Kept rings s q) (e : Event Text) (deadlines : List (Scored Text))
    (hstored : deadlines = replay before (e :: s.log)) (hsound : Sound rings (e :: s.log) s.readings) :
    Kept rings { s with deadlines, log := e :: s.log } q where
  stored := hstored
  sound := hsound
  readings := h.readings
  due i m hm := (h.due i m hm).cons e
  jobs n job hjob := (h.jobs n job hjob).cons e
  job i job hjob := (h.job i job hjob).cons e
  expired x hx := by
    obtain ⟨hsuffix, hcalled⟩ := h.expired x hx
    exact ⟨hsuffix.trans (List.suffix_cons e s.log), hcalled⟩

variable [DecidableEq ι] {i : ι}

/-- A thread goes on, knowing only what is known anyway. -/
theorem of_phase {p : Phase} (h : Kept rings s q) (hreadings : p.readings ⊆ s.readings)
    (hdue : ∀ m ∈ p.due, Claimed s.log m) (hjob : ∀ job, p.job = some job → Called s.log job) :
    Kept rings s (Function.update q i p) where
  stored := h.stored
  sound := h.sound
  readings j := by
    by_cases hj : j = i
    · subst hj
      rwa [Function.update_self]
    · rw [Function.update_of_ne hj]
      exact h.readings j
  due j := by
    by_cases hj : j = i
    · subst hj
      rwa [Function.update_self]
    · rw [Function.update_of_ne hj]
      exact h.due j
  jobs := h.jobs
  job j := by
    by_cases hj : j = i
    · subst hj
      rwa [Function.update_self]
    · rw [Function.update_of_ne hj]
      exact h.job j
  expired := h.expired

theorem of_same_phase (h : Kept rings s q) : Kept rings s (Function.update q i (q i)) := by rwa [Function.update_eq_self]

theorem step (h : Kept rings s q) (c : Op) (hallowed : (protocol rings).allows (q i) c) :
    Kept rings (c.exec s).1 (Function.update q i ((protocol rings).next (q i) c (c.exec s).2)) := by
  cases c with
  | now n =>
    have hsub : s.readings ⊆ (s.workers n).clock :: s.readings := List.subset_cons_self _ _
    have hmore : Kept rings { s with readings := (s.workers n).clock :: s.readings } q :=
      { h with sound := h.sound.mono hsub, readings := fun j => List.Subset.trans (h.readings j) hsub }
    exact hmore.of_phase (List.cons_subset_cons _ (h.readings i)) (h.due i) (h.job i)
  | zadd score m =>
    have hset : SetAt rings s.readings score m := SetAt.mono hallowed (h.readings i)
    have hstored : add before m score s.deadlines = replay before (.added m score :: s.log) := by
      rw [h.stored, replay]
    exact (h.of_redis _ _ hstored (h.sound.cons_added hset)).of_same_phase
  | zrem ms =>
    have hstored : remove ms s.deadlines = replay before (.removed ms :: s.log) := by rw [h.stored, replay]
    exact (h.of_redis _ _ hstored (h.sound.cons_removed ms)).of_same_phase
  | claim time =>
    have htime : time ∈ s.readings := h.readings i hallowed
    have hstored : remove (SortedSet.due batch time s.deadlines) s.deadlines =
        replay before (.claimed time (SortedSet.due batch time s.deadlines) :: s.log) := by
      rw [h.stored, replay]
    have hsound : Sound rings (.claimed time (SortedSet.due batch time s.deadlines) :: s.log) s.readings := by
      rw [h.stored]
      exact h.sound.cons_claimed htime
    have hclaimed := h.of_redis _ _ hstored hsound
    refine hclaimed.of_phase (h.readings i) (fun m hm => ?_) (hclaimed.job i)
    exact ⟨time, _, List.mem_cons_self, hm⟩
  | kinds n => exact h.of_same_phase
  | enter n =>
    simp only [Op.exec]
    split
    · exact h.of_same_phase
    · exact (h.setWorker n (w := { s.workers n with running := true }) (h.jobs n)).of_same_phase
  | leave n => exact (h.setWorker n (w := { s.workers n with running := false }) (h.jobs n)).of_same_phase
  | hand n due =>
    refine (h.setWorker n fun job hjob => ?_).of_same_phase
    rcases List.mem_append.mp hjob with hjob | hjob
    · exact h.jobs n job hjob
    · obtain ⟨m, hm, rfl⟩ := List.mem_map.mp (List.mem_filter.mp hjob).1
      rw [show due = (q i).due from hallowed] at hm
      exact ⟨m, rfl, h.due i m hm⟩
  | takeJob n =>
    cases hjobs : (s.workers n).jobs with
    | nil =>
      simp only [Op.exec, hjobs]
      exact h.of_phase (h.readings i) (h.due i) fun job' hjob' => by cases hjob'
    | cons job jobs =>
      simp only [Op.exec, hjobs]
      have hcalled : ∀ job' ∈ job :: jobs, Called s.log job' := hjobs ▸ h.jobs n
      have hkept : Kept rings (s.setWorker n { s.workers n with jobs }) q :=
        h.setWorker n fun job' hjob' => hcalled job' (List.mem_cons_of_mem _ hjob')
      refine hkept.of_phase (h.readings i) (h.due i) fun job' hjob' => ?_
      cases hjob'
      exact hcalled job List.mem_cons_self
  | expire kind callId =>
    obtain ⟨x, hjob, hid⟩ := hallowed
    have hcalled := h.job i _ hjob
    have hmore : Kept rings { s with expired := ⟨kind, callId, s.log⟩ :: s.expired } q :=
      { h with
        expired := List.forall_mem_cons.mpr ⟨⟨List.suffix_refl _, x, hid, hcalled⟩, h.expired⟩ }
    exact hmore.of_same_phase
  | findCall callId => exact h.of_same_phase
  | setCall callId row =>
    have hmore : Kept rings { s with calls := Function.update s.calls callId row } q := { h with }
    exact hmore.of_same_phase
  | pass n ms =>
    have hclock := h.setWorker n (w := { s.workers n with clock := (s.workers n).clock + ms }) (h.jobs n)
    exact hclock.of_same_phase

end Kept

theorem kept_boot {ι : Type} (kinds : Nat → List Text) (clocks : Nat → Nat) (calls : CallId → Option CallRow) :
    Kept rings (boot kinds clocks calls) fun _ : ι => {} where
  stored := rfl
  sound := ⟨trivial, nofun, nofun⟩
  readings _ := List.Subset.refl _
  due _ := nofun
  jobs _ := nofun
  job _ := nofun
  expired := nofun

end rings

/-! ## Runs -/

section runs

variable {ι : Type} [DecidableEq ι] (kinds : Nat → List Text) (clocks : Nat → Nat) (calls : CallId → Option CallRow)
  (tasks : ι → Task) (schedule : List ι)

/-- Workers' tasks side by side, in the order of `schedule`. -/
def after : Cluster := (run Op.exec (Config.spawn (boot kinds clocks calls) fun i => (tasks i).code) schedule).state

theorem kept_after : ∃ q : ι → Phase, Kept (Rings tasks) (after kinds clocks calls tasks schedule) q := by
  have hconforms : (protocol (Rings tasks)).Conforms (fun _ => True) (fun _ : ι => {})
      (Config.spawn (boot kinds clocks calls) fun i => (tasks i).code) :=
    Protocol.conforms_spawn fun i => (tasks i).follows (fun n callId ms ht => ⟨i, n, ht⟩) _
  obtain ⟨⟨-, hkept⟩, -⟩ := Protocol.invariant Op.exec (Kept (Rings tasks)) (fun _ _ => True)
    (fun cfg i c k _ _ hallowed hkept => hkept.step c hallowed) hconforms (kept_boot kinds clocks calls)
    fun m (_ : m ∈ moves Op.exec (Config.spawn (boot kinds clocks calls) fun i => (tasks i).code) schedule) =>
      trivial
  exact ⟨_, hkept⟩

/-- When a handler acts on a call, its deadline was set at least the kind's delay ago, by the clocks that
were read, and nothing has set it anew, cleared or claimed it between that and the claim. -/
theorem acted_after_delay :
    ∀ e ∈ (after kinds clocks calls tasks schedule).expired, e.log <:+ (after kinds clocks calls tasks schedule).log ∧
      ∃ later time due between sooner now inMs,
        e.log = later ++ .claimed time due :: (between ++ .added (member e.kind e.callId) (now + inMs) :: sooner) ∧
        member e.kind e.callId ∈ due ∧ Delay (Rings tasks) e.kind e.callId inMs ∧ now + inMs ≤ time ∧
        now ∈ (after kinds clocks calls tasks schedule).readings ∧
        time ∈ (after kinds clocks calls tasks schedule).readings ∧
        ∀ b ∈ between, ¬ b.Touches (member e.kind e.callId) := by
  intro e he
  obtain ⟨q, hkept⟩ := kept_after kinds clocks calls tasks schedule
  obtain ⟨⟨prior, hprior⟩, x, hid, m, hparse, time, due, hclaimed, hm⟩ := hkept.expired e he
  have hsound := hkept.sound
  rw [← hprior] at hsound
  obtain ⟨later, earlier, hlog⟩ := List.append_of_mem hclaimed
  obtain ⟨between, sooner, score, hearlier, hdue, huntouched⟩ :=
    added_of_claimed before (Served.of_append before hsound.served) hlog hm
  have hadded : .added m score ∈ prior ++ e.log := by simp [hlog, hearlier]
  obtain ⟨now, hnow, kind, callId, inMs, rfl, rfl, hdelay⟩ := hsound.added m score hadded
  -- The member reads back as what it was written from.
  rw [parse_member hdelay.no_bar callId] at hparse
  obtain ⟨rfl, rfl⟩ := Prod.mk.inj hparse
  obtain rfl : callId = e.callId := Option.some.inj ((idOf_fin callId).symm.trans hid)
  have htime : time ∈ (after kinds clocks calls tasks schedule).readings :=
    hsound.claimed time due (List.mem_append_right _ hclaimed)
  subst hearlier
  exact ⟨⟨prior, hprior⟩, later, time, due, between, sooner, now, inMs, hlog, hm, hdelay, hdue, hnow, htime,
    huntouched⟩

def seven : CallId := ⟨7, by decide⟩

def inProgress (callId : CallId) : Option CallRow :=
  if callId = seven then some { direction := .inbound, status := .inProgress } else none

/-- The customer is not heard any more; fifteen seconds later a worker looks at the
deadlines, and its handler warns. -/
def silenced : Nat → Task
  | 0 => .mediaState 0 seven .drop true
  | 1 => .pass 0 warnAfterMs
  | 2 => .tick 0
  | _ => .handle 0

def afterSilence : Cluster :=
  after (fun _ => [warnKind, endKind]) (fun _ => 0) inProgress silenced [0, 0, 0, 0, 0, 1, 2, 2, 2, 2, 2, 3, 3, 3]

theorem silenced_acted_after_delay : ∃ e ∈ afterSilence.expired, e.log <:+ afterSilence.log ∧
    ∃ later time due between sooner now inMs,
      e.log = later ++ .claimed time due :: (between ++ .added (member e.kind e.callId) (now + inMs) :: sooner) ∧
      member e.kind e.callId ∈ due ∧ Delay (Rings silenced) e.kind e.callId inMs ∧ now + inMs ≤ time ∧
      now ∈ afterSilence.readings ∧ time ∈ afterSilence.readings ∧
      ∀ b ∈ between, ¬ b.Touches (member e.kind e.callId) := by
  have hpos : 0 < afterSilence.expired.length := by decide +kernel
  obtain ⟨e, he⟩ := List.exists_mem_of_length_pos hpos
  exact ⟨e, he, acted_after_delay (fun _ => [warnKind, endKind]) (fun _ => 0) inProgress silenced
    [0, 0, 0, 0, 0, 1, 2, 2, 2, 2, 2, 3, 3, 3] e he⟩

/-- Whichever workers look at the deadlines, none is claimed more often than it was set, and one that
stands less often than that. -/
theorem claimed_once (m : Text) :
    let s := after kinds clocks calls tasks schedule
    s.log.countP (Event.Claims m) + (if m ∈ s.deadlines.map (·.member) then 1 else 0) ≤
      s.log.countP (Event.Adds m) := by
  intro s
  obtain ⟨q, hkept⟩ := kept_after kinds clocks calls tasks schedule
  have hclaims := claims_le_adds before hkept.sound.served m
  split
  · rename_i hstands
    obtain ⟨⟨_, score⟩, hmem, rfl⟩ := List.mem_map.mp hstands
    rw [hkept.stored, mem_replay] at hmem
    rwa [hmem] at hclaims
  · exact Nat.le_trans (Nat.le_add_right _ _) hclaims

theorem log_suffix_exec (c : Op) (s : Cluster) : s.log <:+ (c.exec s).1.log := by
  cases c with
  | zadd score m => exact List.suffix_cons _ _
  | zrem ms => exact List.suffix_cons _ _
  | claim time => exact List.suffix_cons _ _
  | enter n =>
    simp only [Op.exec]
    split <;> exact List.suffix_refl _
  | takeJob n =>
    simp only [Op.exec]
    split <;> exact List.suffix_refl _
  | _ => exact List.suffix_refl _

theorem log_suffix_run (cfg : Config Op.Res Cluster ι) :
    cfg.state.log <:+ (run Op.exec cfg schedule).state.log := by
  induction schedule generalizing cfg with
  | nil => exact List.suffix_refl _
  | cons i schedule ih =>
    refine List.IsSuffix.trans ?_ (ih (step Op.exec cfg i))
    unfold step
    split
    · exact List.suffix_refl _
    · exact log_suffix_exec _ _

/-- A deadline that stands untouched is passed over by few of the claims to which it is due: each took 50
others, due no later or set since. -/
theorem passed_over_le (rest : List ι) :
    let s := after kinds clocks calls tasks schedule
    ∃ later, (after kinds clocks calls tasks (schedule ++ rest)).log = later ++ s.log ∧
      ∀ x ∈ s.deadlines, (∀ e ∈ later, ¬ e.Touches x.member) →
        50 * later.countP (Event.IsClaimAt x.score) ≤ ahead x.member x.score s.deadlines + later.countP Event.IsAdd := by
  intro s
  obtain ⟨_, hkept⟩ := kept_after kinds clocks calls tasks (schedule ++ rest)
  obtain ⟨_, hnow⟩ := kept_after kinds clocks calls tasks schedule
  obtain ⟨later, hlater⟩ : s.log <:+ (after kinds clocks calls tasks (schedule ++ rest)).log := by
    unfold after
    rw [run_append]
    exact log_suffix_run rest _
  refine ⟨later, hlater.symm, fun x hx huntouched => ?_⟩
  have hserved := hkept.sound.served
  rw [← hlater] at hserved
  rw [hnow.stored] at hx ⊢
  have hclaims := claims_ahead before hserved ((mem_replay before).mp hx) huntouched
  exact Nat.le_trans (Nat.le_add_left _ _) hclaims

end runs

end Callio.Deadlines
