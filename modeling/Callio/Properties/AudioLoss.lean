import Callio.Media.CustomerLegMonitor
import Mathlib.Data.List.Induction

/-! The customer's audio stops and comes back. The monitor keeps only what its
next windows can start from; it must see what one that keeps every sample sees. -/

namespace Callio.CustomerLegMonitor

variable {Quality : Type}

/-! ## The plain detector -/

/-- The newest sample at least a window old, or the first one of all. -/
def windowStart (now : Nat) (all : List Sample) : Option Sample :=
  (all.reverse.find? (·.old now)).or all.head?

/-- A poll of a monitor that keeps every sample. -/
def Monitor.pollAll (m : Monitor) (p : Poll Quality) : Monitor × List (Emitted Quality) :=
  let samples := m.samples ++ [p.toSample]
  let (state, changed) := judge m.state m.samples.getLast? (windowStart p.at_ samples) p.toSample
  let (m, reported) := reportQuality { m with samples, state } p
  (m, changed ++ reported)

def runAll (polls : List (Poll Quality)) : Monitor × List (Emitted Quality) :=
  polls.foldl (fun (m, emitted) p => ((m.pollAll p).1, emitted ++ (m.pollAll p).2)) ({}, [])

/-! ## The window -/

/-- Of all samples, `kept` suffice for a window that ends at `now` or later. -/
structure Window (now : Nat) (all kept : List Sample) : Prop where
  suffix : ∃ dropped, all = dropped ++ kept ∧ (dropped ≠ [] → kept.head?.any (·.old now) = true)
  young : ∀ s ∈ kept.tail, s.old now = false

theorem Sample.old_mono {now now' : Nat} (h : now ≤ now') {s : Sample} (hs : s.old now = true) :
    s.old now' = true := by
  simp only [old, decide_eq_true_eq] at hs ⊢
  omega

theorem Sample.young_of_le {now : Nat} {s t : Sample} (h : s.at_ ≤ t.at_) (hs : s.old now = false) :
    t.old now = false := by
  simp only [old, decide_eq_false_iff_not] at hs ⊢
  omega

/-- Trimming leaves a window of what it trims, if the newest sample is of now. -/
theorem window_trim {now : Nat} {samples : List Sample} (hsorted : samples.Pairwise fun s t => s.at_ ≤ t.at_)
    (hlast : ∀ s ∈ samples.getLast?, s.old now = false) : Window now samples (trim now samples) := by
  induction samples using trim.induct now with
  | case1 s₀ s₁ s₂ rest hold ih =>
    rw [trim, if_pos hold]
    obtain ⟨⟨dropped, hall, hhead⟩, hyoung⟩ := ih (List.pairwise_cons.mp hsorted).2 (by simpa using hlast)
    refine ⟨⟨s₀ :: dropped, congrArg (s₀ :: ·) hall, fun _ => ?_⟩, hyoung⟩
    cases dropped with
    | nil =>
      rw [← List.nil_append (trim now _), ← hall]
      exact hold
    | cons d ds => exact hhead nofun
  | case2 s₀ s₁ s₂ rest hold =>
    rw [trim, if_neg hold]
    refine ⟨⟨[], rfl, nofun⟩, fun s hs => ?_⟩
    have hfirst : s₁.old now = false := by simpa using hold
    rcases List.mem_cons.mp hs with rfl | hs
    · exact hfirst
    · have hle := (List.pairwise_cons.mp (List.pairwise_cons.mp hsorted).2).1 s hs
      exact Sample.young_of_le hle hfirst
  | case3 samples hshort =>
    match samples, hshort with
    | [], _ => exact ⟨⟨[], rfl, nofun⟩, nofun⟩
    | [s], _ => exact ⟨⟨[], rfl, nofun⟩, nofun⟩
    | [s, t], _ =>
      refine ⟨⟨[], rfl, nofun⟩, fun u hu => ?_⟩
      obtain rfl := List.mem_singleton.mp hu
      exact hlast u rfl
    | s₀ :: s₁ :: s₂ :: rest, h => exact absurd rfl (h s₀ s₁ s₂ rest)

/-- Trimming keeps the last two samples. -/
theorem previous_trim (now : Nat) (samples : List Sample) : previous (trim now samples) = previous samples := by
  induction samples using trim.induct now with
  | case1 s₀ s₁ s₂ rest hold ih =>
    rw [trim, if_pos hold, ih]
    simp [previous]
  | case2 s₀ s₁ s₂ rest hold => rw [trim, if_neg hold]
  | case3 samples hshort =>
    match samples, hshort with
    | [], _ => rfl
    | [s], _ => rfl
    | [s, t], _ => rfl
    | s₀ :: s₁ :: s₂ :: rest, h => exact absurd rfl (h s₀ s₁ s₂ rest)

namespace Window

variable {now : Nat} {all kept : List Sample}

theorem nil : Window now [] [] := ⟨⟨[], rfl, nofun⟩, nofun⟩

/-- What is kept ends as all samples do. -/
theorem getLast? (h : Window now all kept) : kept.getLast? = all.getLast? := by
  obtain ⟨⟨dropped, rfl, hhead⟩, -⟩ := h
  cases kept with
  | nil =>
    cases dropped with
    | nil => rfl
    | cons d ds => exact absurd (hhead nofun) nofun
  | cons s rest =>
    rw [List.getLast?_append, List.getLast?_cons]
    rfl

/-- The next poll's window. -/
theorem poll (h : Window now all kept) {s : Sample} (hnow : now ≤ s.at_)
    (hsorted : (all ++ [s]).Pairwise fun s t => s.at_ ≤ t.at_) :
    Window s.at_ (all ++ [s]) (trim s.at_ (kept ++ [s])) := by
  obtain ⟨⟨dropped, rfl, hhead⟩, -⟩ := h
  rw [List.append_assoc] at hsorted ⊢
  have hnew : ∀ t ∈ (kept ++ [s]).getLast?, t.old s.at_ = false := by
    intro t ht
    have hts : s = t := by simpa using ht
    simp [← hts, Sample.old, dropWindowMs]
  obtain ⟨⟨dropped', hall, hhead'⟩, hyoung⟩ := window_trim (List.pairwise_append.mp hsorted).2.1 hnew
  refine ⟨⟨dropped ++ dropped', ?_, fun hne => ?_⟩, hyoung⟩
  · rw [List.append_assoc, ← hall]
  · cases dropped' with
    | cons d ds => exact hhead' nofun
    | nil =>
      rw [List.append_nil] at hne
      rw [← List.nil_append (trim _ _), ← hall]
      cases kept with
      | nil => exact absurd (hhead hne) nofun
      | cons k ks => exact Sample.old_mono hnow (hhead hne)

/-- The oldest sample kept starts the window. -/
theorem head? (h : Window now all kept) (hne : kept ≠ []) : kept.head? = windowStart now all := by
  obtain ⟨⟨dropped, rfl, hhead⟩, hyoung⟩ := h
  cases kept with
  | nil => exact absurd rfl hne
  | cons k rest =>
    have hrest : rest.reverse.find? (·.old now) = none := by
      rw [List.find?_eq_none]
      intro s hs
      rw [hyoung s (List.mem_reverse.mp hs)]
      exact nofun
    rw [windowStart, List.reverse_append, List.reverse_cons, List.append_assoc, List.find?_append, hrest,
      Option.none_or]
    cases hk : k.old now with
    | true => simp [hk]
    | false =>
      have hdropped : dropped = [] := by
        by_contra hdropped
        have hold : k.old now = true := hhead hdropped
        rw [hk] at hold
        cases hold
      simp [hdropped, hk]

/-- At most one sample kept is older than the window. -/
theorem length_le (h : Window now all kept) :
    kept.length ≤ (all.filter fun s => !s.old now).length + 1 := by
  obtain ⟨⟨dropped, rfl, -⟩, hyoung⟩ := h
  have htail : kept.tail.filter (fun s => !s.old now) = kept.tail := by
    rw [List.filter_eq_self]
    intro s hs
    rw [hyoung s hs]
    rfl
  have hsub : (kept.tail.filter fun s => !s.old now).length ≤ ((dropped ++ kept).filter fun s => !s.old now).length :=
    (((List.tail_sublist kept).trans (List.sublist_append_right dropped kept)).filter _).length_le
  rw [htail, List.length_tail] at hsub
  omega

end Window

/-! ## One poll -/

theorem reportQuality_samples (m : Monitor) (p : Poll Quality) : (reportQuality m p).1.samples = m.samples := by
  unfold reportQuality
  split
  · split <;> rfl
  · rfl

theorem reportQuality_state (m : Monitor) (p : Poll Quality) : (reportQuality m p).1.state = m.state := by
  unfold reportQuality
  split
  · split <;> rfl
  · rfl

theorem reportQuality_stopped (m : Monitor) (p : Poll Quality) : (reportQuality m p).1.stopped = m.stopped := by
  unfold reportQuality
  split
  · split <;> rfl
  · rfl

/-- Reports say nothing of the audio's state. -/
theorem state_notMem_reportQuality (m : Monitor) (p : Poll Quality) (s : AudioState) :
    .state s ∉ (reportQuality m p).2 := by
  unfold reportQuality
  split
  · split <;> simp
  · exact nofun

/-- Reports depend on the state and on when the last one was. -/
theorem reportQuality_congr {m m' : Monitor} (hstate : m.state = m'.state) (hquality : m.qualityAt = m'.qualityAt)
    (p : Poll Quality) :
    (reportQuality m p).2 = (reportQuality m' p).2 ∧
      (reportQuality m p).1.qualityAt = (reportQuality m' p).1.qualityAt := by
  unfold reportQuality Monitor.qualityDue
  rw [hstate, hquality]
  split
  · split
    · exact ⟨rfl, rfl⟩
    · exact ⟨rfl, hquality⟩
  · exact ⟨rfl, hquality⟩

/-- The monitor `kept` sees what `all` sees, which keeps every sample. -/
structure Sees (now : Nat) (kept all : Monitor) : Prop where
  window : Window now all.samples kept.samples
  state : kept.state = all.state
  qualityAt : kept.qualityAt = all.qualityAt
  stopped : kept.stopped = false

/-- What a poll keeps, and where its window starts. -/
theorem Sees.samples_poll {now : Nat} {kept all : Monitor} (h : Sees now kept all) {s : Sample} (hnow : now ≤ s.at_)
    (hsorted : (all.samples ++ [s]).Pairwise fun s t => s.at_ ≤ t.at_) :
    Window s.at_ (all.samples ++ [s]) (trim s.at_ (kept.samples ++ [s])) ∧
      previous (trim s.at_ (kept.samples ++ [s])) = all.samples.getLast? ∧
      (trim s.at_ (kept.samples ++ [s])).head? = windowStart s.at_ (all.samples ++ [s]) := by
  have hwindow := h.window.poll hnow hsorted
  have hprevious : previous (trim s.at_ (kept.samples ++ [s])) = all.samples.getLast? := by
    rw [previous_trim, previous, List.dropLast_concat, h.window.getLast?]
  refine ⟨hwindow, hprevious, hwindow.head? fun hnil => ?_⟩
  have hlast := hwindow.getLast?
  rw [hnil, List.getLast?_concat] at hlast
  cases hlast

theorem Monitor.poll_of_running {m : Monitor} (hm : m.stopped = false) (p : Poll Quality) :
    let samples := trim p.at_ (m.samples ++ [p.toSample])
    let judged := judge m.state (previous samples) samples.head? p.toSample
    m.poll p = ((reportQuality { m with samples, state := judged.1 } p).1,
      judged.2 ++ (reportQuality { m with samples, state := judged.1 } p).2) := by
  simp [poll, hm]

theorem Sees.poll {now : Nat} {kept all : Monitor} (h : Sees now kept all) {p : Poll Quality} (hnow : now ≤ p.at_)
    (hsorted : (all.samples ++ [p.toSample]).Pairwise fun s t => s.at_ ≤ t.at_) :
    Sees p.at_ (kept.poll p).1 (all.pollAll p).1 ∧ (kept.poll p).2 = (all.pollAll p).2 := by
  obtain ⟨hwindow, hprevious, hhead⟩ := h.samples_poll hnow hsorted
  rw [Monitor.poll_of_running h.stopped, hprevious, hhead, h.state]
  constructor
  · constructor
    · simp only [Monitor.pollAll, reportQuality_samples]
      exact hwindow
    · simp only [Monitor.pollAll, reportQuality_state]
    · simp only [Monitor.pollAll]
      apply (reportQuality_congr _ _ p).2
      · rfl
      · exact h.qualityAt
    · rw [reportQuality_stopped]
      exact h.stopped
  · simp only [Monitor.pollAll]
    congr 1
    apply (reportQuality_congr _ _ p).1
    · rfl
    · exact h.qualityAt

/-! ## Runs -/

def sampled (polls : List (Poll Quality)) : List Sample := polls.map (·.toSample)

/-- The audio states announced, in order. -/
def states (emitted : List (Emitted Quality)) : List AudioState :=
  emitted.filterMap fun
    | .state s => some s
    | .quality _ => none

theorem sampled_concat (polls : List (Poll Quality)) (p : Poll Quality) :
    sampled (polls ++ [p]) = sampled polls ++ [p.toSample] := List.map_append

theorem run_concat (polls : List (Poll Quality)) (p : Poll Quality) :
    run (polls ++ [p]) = (((run polls).1.poll p).1, (run polls).2 ++ ((run polls).1.poll p).2) := by
  rw [run, List.foldl_append]
  rfl

theorem runAll_concat (polls : List (Poll Quality)) (p : Poll Quality) :
    runAll (polls ++ [p]) = (((runAll polls).1.pollAll p).1, (runAll polls).2 ++ ((runAll polls).1.pollAll p).2) := by
  rw [runAll, List.foldl_append]
  rfl

theorem runAll_samples (polls : List (Poll Quality)) : (runAll polls).1.samples = sampled polls := by
  induction polls using List.reverseRecOn with
  | nil => rfl
  | append_singleton polls p ih =>
    rw [runAll_concat, sampled_concat, ← ih]
    exact reportQuality_samples _ _

/-- When the newest poll was answered. -/
def lastAt (polls : List (Poll Quality)) : Nat := polls.getLast?.elim 0 (·.at_)

theorem lastAt_le {polls : List (Poll Quality)} {p : Poll Quality}
    (htimes : (polls ++ [p]).Pairwise fun p q => p.at_ ≤ q.at_) : lastAt polls ≤ p.at_ := by
  rw [lastAt]
  cases hlast : polls.getLast? with
  | none => exact Nat.zero_le _
  | some q =>
    have hmem : q ∈ polls := List.mem_of_getLast? hlast
    exact (List.pairwise_append.mp htimes).2.2 q hmem p (List.mem_singleton_self p)

theorem sampled_sorted {polls : List (Poll Quality)} (htimes : polls.Pairwise fun p q => p.at_ ≤ q.at_) :
    (sampled polls).Pairwise fun s t => s.at_ ≤ t.at_ :=
  List.pairwise_map.mpr htimes

/-- Along a run the monitor sees what one that keeps every sample sees. -/
theorem sees_run {polls : List (Poll Quality)} (htimes : polls.Pairwise fun p q => p.at_ ≤ q.at_) :
    Sees (lastAt polls) (run polls).1 (runAll polls).1 ∧ (run polls).2 = (runAll polls).2 := by
  induction polls using List.reverseRecOn with
  | nil => exact ⟨⟨Window.nil, rfl, rfl, rfl⟩, rfl⟩
  | append_singleton polls p ih =>
    obtain ⟨hsees, hemitted⟩ := ih (List.pairwise_append.mp htimes).1
    have hsorted : ((runAll polls).1.samples ++ [p.toSample]).Pairwise fun s t => s.at_ ≤ t.at_ := by
      rw [runAll_samples, ← sampled_concat]
      exact sampled_sorted htimes
    obtain ⟨hpoll, hsame⟩ := hsees.poll (lastAt_le htimes) hsorted
    have hlast : lastAt (polls ++ [p]) = p.at_ := by rw [lastAt, List.getLast?_concat]; rfl
    rw [run_concat, runAll_concat, hlast, hemitted, hsame]
    exact ⟨hpoll, rfl⟩

/-- The window of a poll: what is kept for it, and where it starts. -/
theorem window_run {before : List (Poll Quality)} {p : Poll Quality}
    (htimes : (before ++ [p]).Pairwise fun p q => p.at_ ≤ q.at_) :
    Window p.at_ (sampled (before ++ [p])) (trim p.at_ ((run before).1.samples ++ [p.toSample])) ∧
      (trim p.at_ ((run before).1.samples ++ [p.toSample])).head? = windowStart p.at_ (sampled (before ++ [p])) := by
  have hsorted := sampled_sorted htimes
  obtain ⟨hsees, -⟩ := sees_run (List.pairwise_append.mp htimes).1
  rw [sampled_concat, ← runAll_samples] at hsorted ⊢
  obtain ⟨hwindow, -, hhead⟩ := hsees.samples_poll (lastAt_le htimes) hsorted
  exact ⟨hwindow, hhead⟩

theorem poll_samples {m : Monitor} (hm : m.stopped = false) (p : Poll Quality) :
    (m.poll p).1.samples = trim p.at_ (m.samples ++ [p.toSample]) := by
  rw [Monitor.poll_of_running hm]
  exact reportQuality_samples _ _

/-! ## Drops and resumptions -/

/-- What a sample changes: nothing that is said, or it resumes a drop, or it is one. -/
theorem judge_cases (state : AudioState) (prev first : Option Sample) (s : Sample) :
    ((@judge Quality state prev first s).2 = [] ∧
        ((@judge Quality state prev first s).1 = .drop ↔ state = .drop) ∧
        ¬(state = .active ∧ stops first s = true)) ∨
      (state = .drop ∧ @judge Quality state prev first s = (.active, [.state .active])) ∨
      (state = .active ∧ stops first s = true ∧
        @judge Quality state prev first s = (.drop, [.state .drop])) := by
  rw [judge]
  by_cases hresume : state ≠ .active ∧ resumes prev s = true
  · rw [if_pos hresume]
    by_cases hdrop : state = .drop
    · rw [if_pos hdrop]
      exact .inr (.inl ⟨hdrop, rfl⟩)
    · rw [if_neg hdrop]
      exact .inl ⟨rfl, iff_of_false nofun hdrop, fun h => hresume.1 h.1⟩
  · rw [if_neg hresume]
    by_cases hstop : state = .active ∧ stops first s = true
    · rw [if_pos hstop]
      exact .inr (.inr ⟨hstop.1, hstop.2, rfl⟩)
    · rw [if_neg hstop]
      exact .inl ⟨rfl, Iff.rfl, hstop⟩

theorem drop_mem_judge {state : AudioState} {prev first : Option Sample} {s : Sample} :
    .state .drop ∈ (@judge Quality state prev first s).2 ↔ state = .active ∧ stops first s = true := by
  obtain ⟨hsaid, -, hnot⟩ | ⟨rfl, hsaid⟩ | ⟨hactive, hstops, hsaid⟩ :=
    @judge_cases Quality state prev first s
  · rw [hsaid]
    exact iff_of_false nofun hnot
  · rw [hsaid]
    exact iff_of_false (by simp) nofun
  · rw [hsaid]
    exact iff_of_true (List.mem_singleton_self _) ⟨hactive, hstops⟩

/-- A poll announces a drop when its window says so. -/
theorem drop_mem_poll {m : Monitor} (hm : m.stopped = false) (p : Poll Quality) :
    .state .drop ∈ (m.poll p).2 ↔
      m.state = .active ∧ stops (trim p.at_ (m.samples ++ [p.toSample])).head? p.toSample = true := by
  rw [Monitor.poll_of_running hm, List.mem_append, or_iff_left (state_notMem_reportQuality _ _ _)]
  exact drop_mem_judge

theorem states_append (xs ys : List (Emitted Quality)) : states (xs ++ ys) = states xs ++ states ys :=
  List.filterMap_append

theorem states_state (s : AudioState) : states [(.state s : Emitted Quality)] = [s] := rfl

theorem states_reportQuality (m : Monitor) (p : Poll Quality) : states (reportQuality m p).2 = [] := by
  unfold reportQuality
  split
  · split <;> rfl
  · rfl

/-- A drop first, and by turns. -/
def Alternate (said : List AudioState) : Prop :=
  ∀ i s, said[i]? = some s → s = if i % 2 = 0 then .drop else .active

theorem Alternate.concat {said : List AudioState} (h : Alternate said) {s : AudioState}
    (hs : s = if said.length % 2 = 0 then .drop else .active) : Alternate (said ++ [s]) := by
  intro i t ht
  rcases Nat.lt_or_ge i said.length with hi | hi
  · rw [List.getElem?_append_left hi] at ht
    exact h i t ht
  · rw [List.getElem?_append_right hi, List.getElem?_singleton] at ht
    split at ht
    · have hlength : i = said.length := by omega
      cases ht
      rw [hlength]
      exact hs
    · cases ht

/-- The state is a drop after each one said and until it is called back. -/
structure InTurn (m : Monitor) (emitted : List (Emitted Quality)) : Prop where
  alternate : Alternate (states emitted)
  drop : m.state = .drop ↔ (states emitted).length % 2 = 1
  stopped : m.stopped = false

theorem InTurn.poll {m : Monitor} {emitted : List (Emitted Quality)} (h : InTurn m emitted) (p : Poll Quality) :
    InTurn (m.poll p).1 (emitted ++ (m.poll p).2) := by
  rw [Monitor.poll_of_running h.stopped]
  obtain ⟨hsaid, hdrop, -⟩ | ⟨hdrop, hsaid⟩ | ⟨hactive, -, hsaid⟩ := @judge_cases Quality
    m.state (previous (trim p.at_ (m.samples ++ [p.toSample]))) (trim p.at_ (m.samples ++ [p.toSample])).head? p.toSample
  · constructor
    · simp only [states_append, states_reportQuality, hsaid]
      exact (List.append_nil _).symm ▸ h.alternate
    · simp only [states_append, states_reportQuality, hsaid, reportQuality_state, hdrop]
      exact (List.append_nil _).symm ▸ h.drop
    · rw [reportQuality_stopped]
      exact h.stopped
  · have hodd := h.drop.mp hdrop
    rw [hsaid]
    constructor
    · simp only [states_append, states_reportQuality]
      exact h.alternate.concat (by rw [if_neg (by omega)])
    · simp only [states_append, states_state, states_reportQuality, reportQuality_state, List.length_append,
        List.length_singleton, List.length_nil]
      exact iff_of_false nofun (by omega)
    · rw [reportQuality_stopped]
      exact h.stopped
  · have heven : (states emitted).length % 2 = 0 := by
      have hnot : ¬(states emitted).length % 2 = 1 := fun hodd => by
        have hdrop := h.drop.mpr hodd
        rw [hactive] at hdrop
        cases hdrop
      omega
    rw [hsaid]
    constructor
    · simp only [states_append, states_reportQuality]
      exact h.alternate.concat (by rw [if_pos heven])
    · simp only [states_append, states_state, states_reportQuality, reportQuality_state, List.length_append,
        List.length_singleton, List.length_nil]
      exact iff_of_true trivial (by omega)
    · rw [reportQuality_stopped]
      exact h.stopped

theorem inTurn_run (polls : List (Poll Quality)) : InTurn (run polls).1 (run polls).2 := by
  induction polls using List.reverseRecOn with
  | nil => exact ⟨nofun, ⟨nofun, nofun⟩, rfl⟩
  | append_singleton polls p ih =>
    rw [run_concat]
    exact ih.poll p

/-- For polls in order of time, the monitor says what one that keeps every sample
says; a drop is said of an active customer whose window is full and nearly empty
of packets; drops and resumptions take turns; and little is kept. -/
theorem audioLoss (polls : List (Poll Quality)) (htimes : polls.Pairwise fun p q => p.at_ ≤ q.at_) :
    (run polls).2 = (runAll polls).2 ∧
      (run polls).1.state = (runAll polls).1.state ∧
      (∀ before p after, polls = before ++ p :: after →
        (run (before ++ [p])).1.samples.head? = windowStart p.at_ (sampled (before ++ [p])) ∧
        (.state .drop ∈ ((run before).1.poll p).2 ↔
          (run before).1.state = .active ∧
            ∃ first ∈ windowStart p.at_ (sampled (before ++ [p])),
              dropWindowMs ≤ p.at_ - first.at_ ∧ p.packets - first.packets < dropBelowPackets) ∧
        (run (before ++ [p])).1.samples.length ≤
          ((sampled (before ++ [p])).filter fun s => p.at_ - s.at_ < dropWindowMs).length + 2) ∧
      Alternate (states (run polls).2) := by
  obtain ⟨hsees, hemitted⟩ := sees_run htimes
  refine ⟨hemitted, hsees.state, fun before p after hpolls => ?_, (inTurn_run polls).alternate⟩
  rw [hpolls, List.append_cons] at htimes
  have hbefore := (List.pairwise_append.mp htimes).1
  obtain ⟨hwindow, hhead⟩ := window_run hbefore
  have hrunning := (inTurn_run before).stopped
  have hkept : (run (before ++ [p])).1.samples = trim p.at_ ((run before).1.samples ++ [p.toSample]) := by
    rw [run_concat]
    exact poll_samples hrunning p
  refine ⟨by rw [hkept, hhead], ?_, ?_⟩
  · rw [drop_mem_poll hrunning, hhead, stops, Option.any_eq_true]
    simp only [Sample.old, Bool.and_eq_true, decide_eq_true_eq, Option.mem_def]
  · rw [hkept]
    have hfilter : ((sampled (before ++ [p])).filter fun s => !s.old p.at_) =
        (sampled (before ++ [p])).filter fun s => p.at_ - s.at_ < dropWindowMs := by
      apply List.filter_congr
      intro s _
      rw [Sample.old, ← decide_not, decide_eq_decide]
      exact Nat.not_le
    have hlength := hwindow.length_le
    rw [hfilter] at hlength
    omega

/-- The customer speaks, stops and speaks again. -/
theorem audioLoss_example :
    (@run Unit [⟨⟨1000, 0⟩, none⟩, ⟨⟨2000, 50⟩, none⟩, ⟨⟨6000, 51⟩, none⟩, ⟨⟨7000, 90⟩, none⟩]).2 =
        [.state .drop, .state .active] ∧
      Alternate (states (@run Unit
        [⟨⟨1000, 0⟩, none⟩, ⟨⟨2000, 50⟩, none⟩, ⟨⟨6000, 51⟩, none⟩, ⟨⟨7000, 90⟩, none⟩]).2) :=
  ⟨by decide, (audioLoss _ (by decide)).2.2.2⟩

end Callio.CustomerLegMonitor
