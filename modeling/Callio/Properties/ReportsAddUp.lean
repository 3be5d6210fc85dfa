import Mathlib
import Callio.Reports.CallReports

/-! Reports add up: every row of the window has one bucket, so the totals are
what the buckets come to. -/

namespace Callio.CallReports

open Store

/-! ## Bucket starts -/

namespace Request

variable (r : Request)

/-- The starts are those between `t` and the end, a step apart. -/
theorem mem_startsFrom {t s : Int} :
    s ∈ r.startsFrom t ↔ t ≤ s ∧ s < r.to_ ∧ r.interval.step ∣ s - t := by
  have hstep := r.interval.step_pos
  induction t using startsFrom.induct r with
  | case1 t ht ih =>
    have hrest : s ∈ r.startsFrom (t + r.interval.step) ↔
        t + r.interval.step ≤ s ∧ s < r.to_ ∧ r.interval.step ∣ s - (t + r.interval.step) := ih
    rw [startsFrom, if_pos ht, List.mem_cons, hrest]
    constructor
    · rintro (rfl | ⟨hle, hlt, hdvd⟩)
      · exact ⟨Int.le_refl s, ht, by simp⟩
      · have hsub : s - t = s - (t + r.interval.step) + r.interval.step := by omega
        refine ⟨by omega, hlt, ?_⟩
        rw [hsub]
        exact Int.dvd_add hdvd (Int.dvd_refl _)
    · rintro ⟨hle, hlt, hdvd⟩
      by_cases hs : s = t
      · exact .inl hs
      · have hsub : s - (t + r.interval.step) = s - t - r.interval.step := by omega
        have hstepLe : r.interval.step ≤ s - t := Int.le_of_dvd (by omega) hdvd
        refine .inr ⟨by omega, hlt, ?_⟩
        rw [hsub]
        exact Int.dvd_sub hdvd (Int.dvd_refl _)
  | case2 t ht =>
    rw [startsFrom, if_neg ht]
    constructor
    · exact nofun
    · rintro ⟨hle, hlt, -⟩
      omega

theorem startsFrom_nodup (t : Int) : (r.startsFrom t).Nodup := by
  have hstep := r.interval.step_pos
  induction t using startsFrom.induct r with
  | case1 t ht ih =>
    rw [startsFrom, if_pos ht, List.nodup_cons]
    refine ⟨fun hmem => ?_, ih⟩
    have hle := (r.mem_startsFrom.mp hmem).1
    omega
  | case2 t ht =>
    rw [startsFrom, if_neg ht]
    exact List.nodup_nil

theorem starts_nodup : r.starts.Nodup := r.startsFrom_nodup _

theorem bucketStart_le (t : Int) : r.bucketStart t ≤ t := by
  have hmul := Int.mul_le_of_le_ediv r.interval.step_pos (Int.le_refl ((t + r.offset) / r.interval.step))
  rw [bucketStart]
  omega

theorem lt_bucketStart_add (t : Int) : t < r.bucketStart t + r.interval.step := by
  have hlt := Int.lt_ediv_add_one_mul_self (t + r.offset) r.interval.step_pos
  rw [Int.add_mul, Int.one_mul] at hlt
  rw [bucketStart]
  omega

theorem bucketStart_mono {t t' : Int} (h : t ≤ t') : r.bucketStart t ≤ r.bucketStart t' := by
  have hdiv : (t + r.offset) / r.interval.step ≤ (t' + r.offset) / r.interval.step :=
    Int.ediv_le_ediv r.interval.step_pos (by omega)
  have hmul := Int.mul_le_mul_of_nonneg_right hdiv (Int.le_of_lt r.interval.step_pos)
  rw [bucketStart, bucketStart]
  omega

theorem dvd_bucketStart_sub (t t' : Int) : r.interval.step ∣ r.bucketStart t - r.bucketStart t' := by
  have hsub : r.bucketStart t - r.bucketStart t' =
      ((t + r.offset) / r.interval.step - (t' + r.offset) / r.interval.step) * r.interval.step := by
    rw [Int.sub_mul, bucketStart, bucketStart]
    omega
  rw [hsub]
  exact Int.dvd_mul_left _ _

/-- The bucket of a moment in the window. -/
theorem bucketStart_mem_starts {t : Int} (hfrom : r.from_ ≤ t) (hto : t < r.to_) : r.bucketStart t ∈ r.starts := by
  have hle := r.bucketStart_le t
  exact r.mem_startsFrom.mpr ⟨r.bucketStart_mono hfrom, by omega, r.dvd_bucketStart_sub _ _⟩

/-- The only one that spans it. -/
theorem eq_bucketStart {t s : Int} (hs : s ∈ r.starts) (hle : s ≤ t) (hlt : t < s + r.interval.step) :
    s = r.bucketStart t := by
  have hstep := r.interval.step_pos
  have hdvd : r.interval.step ∣ s - r.bucketStart t := by
    have hsub : s - r.bucketStart t = s - r.bucketStart r.from_ + (r.bucketStart r.from_ - r.bucketStart t) := by omega
    rw [hsub]
    exact Int.dvd_add (r.mem_startsFrom.mp hs).2.2 (r.dvd_bucketStart_sub _ _)
  have hbelow := r.bucketStart_le t
  have habove := r.lt_bucketStart_add t
  have hzero : s - r.bucketStart t = 0 := Int.eq_zero_of_dvd_of_natAbs_lt_natAbs hdvd (by omega)
  omega

end Request

/-! ## Counting -/

/-- Two buckets' calls together. -/
def Bucket.merge (a b : Bucket) : Bucket where
  inbound := a.inbound + b.inbound
  answered := a.answered + b.answered
  abandoned := a.abandoned + b.abandoned
  missed := a.missed + b.missed
  inProgress := a.inProgress + b.inProgress
  outbound := a.outbound + b.outbound
  outboundConnected := a.outboundConnected + b.outboundConnected
  serviceLevel := ⟨a.serviceLevel.within + b.serviceLevel.within, a.serviceLevel.of + b.serviceLevel.of⟩
  wait := ⟨a.wait.sum + b.wait.sum, a.wait.n + b.wait.n, max a.wait.max b.wait.max⟩
  talk := ⟨a.talk.sum + b.talk.sum, a.talk.n + b.talk.n⟩

instance : Std.Commutative Bucket.merge where
  comm a b := by simp [Bucket.merge, Nat.add_comm, Nat.max_comm]

instance : Std.Associative Bucket.merge where
  assoc a b c := by simp [Bucket.merge, Nat.add_assoc, Nat.max_assoc]

theorem Bucket.merge_empty (b : Bucket) : b.merge emptyBucket = b := by
  simp [merge, emptyBucket]

theorem addTalk_merge (a b : Bucket) (call : ReportRow) : addTalk (a.merge b) call = a.merge (addTalk b call) := by
  unfold addTalk
  split
  · simp [Bucket.merge, Nat.add_assoc]
  · rfl

theorem addWait_merge (a b : Bucket) (call : ReportRow) (answeredAt : Nat) :
    addWait (a.merge b) call answeredAt = a.merge (addWait b call answeredAt) := by
  unfold addWait
  split
  · simp [Bucket.merge, Nat.add_assoc, Nat.max_assoc]
  · rfl

theorem addOutbound_merge (a b : Bucket) (call : ReportRow) :
    addOutbound (a.merge b) call = a.merge (addOutbound b call) := by
  unfold addOutbound
  split
  · rw [← addTalk_merge]
    simp [Bucket.merge, Nat.add_assoc]
  · simp [Bucket.merge, Nat.add_assoc]

theorem addOutcome_merge (a b : Bucket) (call : ReportRow) :
    addOutcome (a.merge b) call = a.merge (addOutcome b call) := by
  unfold addOutcome
  split
  · rw [← addWait_merge, ← addTalk_merge]
    simp [Bucket.merge, Nat.add_assoc]
  · split
    · simp [Bucket.merge, Nat.add_assoc]
    · split <;> simp [Bucket.merge, Nat.add_assoc]

theorem addServiceLevel_merge (a b : Bucket) (call : ReportRow) (slSeconds : Nat) :
    addServiceLevel (a.merge b) call slSeconds = a.merge (addServiceLevel b call slSeconds) := by
  unfold addServiceLevel
  split
  · split
    · split <;> simp [Bucket.merge, Nat.add_assoc]
    · rfl
  · rfl

theorem add_merge (slSeconds : Nat) (a b : Bucket) (call : ReportRow) :
    add slSeconds (a.merge b) call = a.merge (add slSeconds b call) := by
  unfold add
  split
  · exact addOutbound_merge a b call
  · rw [← addServiceLevel_merge, ← addOutcome_merge]
    simp [Bucket.merge, Nat.add_assoc]

/-- A call adds the same to every bucket. -/
theorem add_eq_merge (slSeconds : Nat) (b : Bucket) (call : ReportRow) :
    add slSeconds b call = b.merge (add slSeconds emptyBucket call) := by
  rw [← add_merge, Bucket.merge_empty]

/-- What an inbound call can have become. -/
def Bucket.outcomes (b : Bucket) : Nat := b.answered + b.abandoned + b.missed + b.inProgress

/-- Every inbound call has one outcome, and one within the service level is
among those it is measured over. -/
structure Bucket.Balanced (b : Bucket) : Prop where
  inbound : b.inbound = b.outcomes
  serviceLevel : b.serviceLevel.within ≤ b.serviceLevel.of

/-- Talk time is no outcome. -/
theorem balanced_addTalk {b : Bucket} (h : b.Balanced) (call : ReportRow) : (addTalk b call).Balanced := by
  unfold addTalk
  split
  · exact ⟨h.inbound, h.serviceLevel⟩
  · exact h

theorem balanced_addWait {b : Bucket} (h : b.Balanced) (call : ReportRow) (answeredAt : Nat) :
    (addWait b call answeredAt).Balanced := by
  unfold addWait
  split
  · exact ⟨h.inbound, h.serviceLevel⟩
  · exact h

theorem balanced_addOutbound {b : Bucket} (h : b.Balanced) (call : ReportRow) : (addOutbound b call).Balanced := by
  unfold addOutbound
  split
  · apply balanced_addTalk
    exact ⟨h.inbound, h.serviceLevel⟩
  · exact ⟨h.inbound, h.serviceLevel⟩

/-- A call that came in gets its outcome. -/
theorem balanced_addOutcome {b : Bucket} (h : b.Balanced) (call : ReportRow) :
    (addOutcome { b with inbound := b.inbound + 1 } call).Balanced := by
  obtain ⟨hinbound, hlevel⟩ := h
  rw [Bucket.outcomes] at hinbound
  unfold addOutcome
  split
  · apply balanced_addWait
    apply balanced_addTalk
    constructor
    · simp only [Bucket.outcomes]
      omega
    · exact hlevel
  · split
    · constructor
      · simp only [Bucket.outcomes]
        omega
      · exact hlevel
    · split
      · constructor
        · simp only [Bucket.outcomes]
          omega
        · exact hlevel
      · constructor
        · simp only [Bucket.outcomes]
          omega
        · exact hlevel

theorem balanced_addServiceLevel {b : Bucket} (h : b.Balanced) (call : ReportRow) (slSeconds : Nat) :
    (addServiceLevel b call slSeconds).Balanced := by
  obtain ⟨hinbound, hlevel⟩ := h
  unfold addServiceLevel
  split
  · split
    · constructor
      · exact hinbound
      · simp only
        split <;> omega
    · exact ⟨hinbound, hlevel⟩
  · exact ⟨hinbound, hlevel⟩

theorem Bucket.Balanced.add {b : Bucket} (h : b.Balanced) (slSeconds : Nat) (call : ReportRow) :
    (add slSeconds b call).Balanced := by
  unfold CallReports.add
  split
  · exact balanced_addOutbound h call
  · exact balanced_addServiceLevel (balanced_addOutcome h call) call slSeconds

/-- Counting rows from nothing. -/
def counting (slSeconds : Nat) (rows : List ReportRow) : Bucket := rows.foldl (add slSeconds) emptyBucket

theorem balanced_counting (slSeconds : Nat) (rows : List ReportRow) : (counting slSeconds rows).Balanced := by
  apply List.foldlRecOn rows (add slSeconds)
  · exact ⟨rfl, Nat.le_refl _⟩
  · intro b h call _
    exact h.add slSeconds call

/-! ## The totals -/

/-- The totals are the buckets' sums, and the longest wait the longest of theirs. -/
structure AddUp (totals : Bucket) (buckets : List (Int × Bucket)) : Prop where
  inbound : totals.inbound = (buckets.map (·.2.inbound)).sum
  answered : totals.answered = (buckets.map (·.2.answered)).sum
  abandoned : totals.abandoned = (buckets.map (·.2.abandoned)).sum
  missed : totals.missed = (buckets.map (·.2.missed)).sum
  inProgress : totals.inProgress = (buckets.map (·.2.inProgress)).sum
  outbound : totals.outbound = (buckets.map (·.2.outbound)).sum
  outboundConnected : totals.outboundConnected = (buckets.map (·.2.outboundConnected)).sum
  within : totals.serviceLevel.within = (buckets.map (·.2.serviceLevel.within)).sum
  of : totals.serviceLevel.of = (buckets.map (·.2.serviceLevel.of)).sum
  waitSum : totals.wait.sum = (buckets.map (·.2.wait.sum)).sum
  waits : totals.wait.n = (buckets.map (·.2.wait.n)).sum
  waitMax : totals.wait.max = (buckets.map (·.2.wait.max)).foldr max 0
  talkSum : totals.talk.sum = (buckets.map (·.2.talk.sum)).sum
  talks : totals.talk.n = (buckets.map (·.2.talk.n)).sum

/-- A counter that adds up over the merged buckets. -/
theorem sum_whole (read : Bucket → Nat) (hempty : read emptyBucket = 0)
    (hmerge : ∀ a b, read (a.merge b) = read a + read b) (buckets : List (Int × Bucket)) :
    read (Buckets.whole Bucket.merge emptyBucket buckets) = (buckets.map fun b => read b.2).sum :=
  Buckets.read_whole _ _ (· + ·) 0 read hempty hmerge buckets

theorem addUp_whole (buckets : List (Int × Bucket)) :
    AddUp (Buckets.whole Bucket.merge emptyBucket buckets) buckets where
  inbound := sum_whole (·.inbound) rfl (fun _ _ => rfl) buckets
  answered := sum_whole (·.answered) rfl (fun _ _ => rfl) buckets
  abandoned := sum_whole (·.abandoned) rfl (fun _ _ => rfl) buckets
  missed := sum_whole (·.missed) rfl (fun _ _ => rfl) buckets
  inProgress := sum_whole (·.inProgress) rfl (fun _ _ => rfl) buckets
  outbound := sum_whole (·.outbound) rfl (fun _ _ => rfl) buckets
  outboundConnected := sum_whole (·.outboundConnected) rfl (fun _ _ => rfl) buckets
  within := sum_whole (·.serviceLevel.within) rfl (fun _ _ => rfl) buckets
  of := sum_whole (·.serviceLevel.of) rfl (fun _ _ => rfl) buckets
  waitSum := sum_whole (·.wait.sum) rfl (fun _ _ => rfl) buckets
  waits := sum_whole (·.wait.n) rfl (fun _ _ => rfl) buckets
  waitMax := Buckets.read_whole _ _ max 0 (·.wait.max) rfl (fun _ _ => rfl) buckets
  talkSum := sum_whole (·.talk.sum) rfl (fun _ _ => rfl) buckets
  talks := sum_whole (·.talk.n) rfl (fun _ _ => rfl) buckets

theorem whole_empty (starts : List Int) :
    Buckets.whole Bucket.merge emptyBucket (starts.map fun t => (t, emptyBucket)) = emptyBucket := by
  induction starts with
  | nil => rfl
  | cons t starts ih =>
    have hcons : Buckets.whole Bucket.merge emptyBucket ((t :: starts).map fun t => (t, emptyBucket)) =
        emptyBucket.merge (Buckets.whole Bucket.merge emptyBucket (starts.map fun t => (t, emptyBucket))) := rfl
    rw [hcons, ih, Bucket.merge_empty]

theorem keys_starts (starts : List Int) : (starts.map fun t => (t, emptyBucket)).map Prod.fst = starts := by
  rw [List.map_map]
  exact List.map_id _

/-- What `callsInRange` selects was created in the window. -/
theorem created_of_mem {allCalls : List Call} {events : List LifecycleEvent} {tenantId : Nat} {r : Request}
    {row : ReportRow} (h : row ∈ callsInRange allCalls events tenantId r) :
    r.from_ ≤ row.createdAt ∧ row.createdAt < r.to_ := by
  obtain ⟨c, hc, rfl⟩ := List.mem_map.mp h
  have hwhere := of_decide_eq_true (List.mem_filter.mp hc).2
  exact ⟨hwhere.2.1, hwhere.2.2.1⟩

/-- Rows of the window add up. -/
theorem addUp_tally {r : Request} {rows : List ReportRow}
    (hrows : ∀ row ∈ rows, r.from_ ≤ row.createdAt ∧ (row.createdAt : Int) < r.to_) :
    AddUp (tally r rows).totals (tally r rows).buckets := by
  have hwhole : Buckets.whole Bucket.merge emptyBucket (tally r rows).buckets = (tally r rows).totals := by
    rw [tally, Buckets.whole_sort Bucket.merge emptyBucket (add_eq_merge r.serviceLevelSeconds), whole_empty]
    · rw [keys_starts]
      exact r.starts_nodup
    · rw [keys_starts]
      intro row hrow
      exact r.bucketStart_mem_starts (hrows row hrow).1 (hrows row hrow).2
  rw [← hwhole]
  exact addUp_whole _

/-- A bucket counts the rows created in its span. -/
theorem counting_of_mem {r : Request} {rows : List ReportRow} {start : Int} {b : Bucket}
    (h : (start, b) ∈ (tally r rows).buckets) :
    b = counting r.serviceLevelSeconds
      (rows.filter fun row => start ≤ row.createdAt ∧ row.createdAt < start + r.interval.step) := by
  obtain ⟨b₀, hb₀, hb⟩ := Buckets.mem_sort h
  obtain ⟨t, ht, hpair⟩ := List.mem_map.mp hb₀
  obtain ⟨rfl, rfl⟩ := Prod.mk.inj hpair
  rw [hb, counting]
  congr 1
  apply List.filter_congr
  intro row _
  rw [decide_eq_decide]
  constructor
  · rintro rfl
    exact ⟨r.bucketStart_le _, r.lt_bucketStart_add _⟩
  · rintro ⟨hle, hlt⟩
    exact (r.eq_bucketStart ht hle hlt).symm

/-! ## What is shown -/

/-- The waits of a count: none above the longest, which is zero if there was none. -/
structure Wait.Sound (w : Wait) : Prop where
  bounded : w.sum ≤ w.n * w.max
  none : w.n = 0 → w.max = 0

theorem sound_addSeconds {w : Wait} (h : w.Sound) (seconds : Nat) :
    Wait.Sound ⟨w.sum + seconds, w.n + 1, max w.max seconds⟩ := by
  refine ⟨?_, nofun⟩
  have hsum : w.sum ≤ w.n * max w.max seconds :=
    h.bounded.trans (Nat.mul_le_mul_left _ (Nat.le_max_left ..))
  have hseconds : seconds ≤ max w.max seconds := Nat.le_max_right ..
  calc w.sum + seconds ≤ w.n * max w.max seconds + max w.max seconds := Nat.add_le_add hsum hseconds
    _ = (w.n + 1) * max w.max seconds := (Nat.succ_mul ..).symm

@[simp] theorem wait_addTalk (b : Bucket) (call : ReportRow) : (addTalk b call).wait = b.wait := by
  unfold addTalk
  split <;> rfl

@[simp] theorem wait_addOutbound (b : Bucket) (call : ReportRow) : (addOutbound b call).wait = b.wait := by
  unfold addOutbound
  split <;> simp

@[simp] theorem wait_addServiceLevel (b : Bucket) (call : ReportRow) (slSeconds : Nat) :
    (addServiceLevel b call slSeconds).wait = b.wait := by
  unfold addServiceLevel
  split
  · split <;> rfl
  · rfl

theorem sound_addWait {b : Bucket} (h : b.wait.Sound) (call : ReportRow) (answeredAt : Nat) :
    (addWait b call answeredAt).wait.Sound := by
  unfold addWait
  split
  · exact sound_addSeconds h _
  · exact h

theorem sound_addOutcome {b : Bucket} (h : b.wait.Sound) (call : ReportRow) :
    (addOutcome b call).wait.Sound := by
  unfold addOutcome
  split
  · apply sound_addWait
    simpa using h
  · split
    · exact h
    · split <;> exact h

theorem sound_add {b : Bucket} (h : b.wait.Sound) (slSeconds : Nat) (call : ReportRow) :
    (add slSeconds b call).wait.Sound := by
  unfold add
  split
  · simpa using h
  · simpa using sound_addOutcome (b := { b with inbound := b.inbound + 1 }) h call

theorem sound_counting (slSeconds : Nat) (rows : List ReportRow) : (counting slSeconds rows).wait.Sound := by
  apply List.foldlRecOn (motive := fun b : Bucket => b.wait.Sound) rows (add slSeconds)
  · exact ⟨Nat.le_refl _, fun _ => rfl⟩
  · intro b h call _
    exact sound_add h slSeconds call

/-- A mean is rounded to no more than the greatest. -/
theorem roundQuotient_le {sum n m : Nat} (hn : n ≠ 0) (h : sum ≤ n * m) : roundQuotient sum n ≤ m := by
  have hlt : 2 * sum + n < 2 * n * (m + 1) := by
    have hdouble : 2 * n * (m + 1) = 2 * (n * m) + 2 * n := by ring
    omega
  exact Nat.le_of_lt_succ (Nat.div_lt_of_lt_mul hlt)

/-- What a view says of its own calls. -/
structure View.Sound (v : View) : Prop where
  inbound : v.inbound = v.answered + v.abandoned + v.missed + v.inProgress
  serviceLevelPercent : ∀ p, v.serviceLevelPercent = some p → 0 ≤ p ∧ p ≤ 100
  waits : v.avgWaitSeconds.isSome = v.maxWaitSeconds.isSome
  avgWaitSeconds : ∀ a m, v.avgWaitSeconds = some a → v.maxWaitSeconds = some m → a ≤ m

theorem sound_view {b : Bucket} (h : b.Balanced) (hw : b.wait.Sound) : (view b).Sound where
  inbound := h.inbound
  serviceLevelPercent := by
    intro p hp
    simp only [view] at hp
    split at hp
    · rename_i hof
      obtain rfl := Option.some.inj hp
      have hle : roundQuotient (1000 * b.serviceLevel.within) b.serviceLevel.of ≤ 1000 := by
        refine roundQuotient_le hof ?_
        have hlevel := h.serviceLevel
        omega
      have hcast : (roundQuotient (1000 * b.serviceLevel.within) b.serviceLevel.of : Rat) ≤ 1000 := by
        exact_mod_cast hle
      exact ⟨by positivity, by linarith⟩
    · cases hp
  waits := by
    simp only [view, avg]
    split <;> rfl
  avgWaitSeconds := by
    intro a m ha hm
    simp only [view, avg] at ha hm
    split at ha
    · rename_i hn
      rw [if_pos hn] at hm
      obtain rfl := Option.some.inj ha
      obtain rfl := Option.some.inj hm
      exact roundQuotient_le hn hw.bounded
    · cases ha

theorem longest_of_none {buckets : List (Int × Bucket)} (h : ∀ b ∈ buckets, b.2.wait.Sound)
    (hnone : (buckets.map (·.2.wait.n)).sum = 0) : (buckets.map (·.2.wait.max)).foldr max 0 = 0 := by
  induction buckets with
  | nil => rfl
  | cons b buckets ih =>
    simp only [List.map_cons, List.sum_cons, Nat.add_eq_zero_iff] at hnone
    have hb := (h b (List.mem_cons_self ..)).none hnone.1
    have hrest := ih (fun b' hb' => h b' (List.mem_cons_of_mem _ hb')) hnone.2
    simp only [List.map_cons, List.foldr_cons, hb, hrest, Nat.max_self]

/-- The longest of the longest waits, of those buckets that have one. -/
theorem maxWait_whole {buckets : List (Int × Bucket)} (h : ∀ b ∈ buckets, b.2.wait.Sound) :
    (if (buckets.map (·.2.wait.n)).sum ≠ 0 then some ((buckets.map (·.2.wait.max)).foldr max 0) else none) =
      (buckets.map fun b => (view b.2).maxWaitSeconds).foldr max none := by
  induction buckets with
  | nil => rfl
  | cons b buckets ih =>
    have hbuckets : ∀ b' ∈ buckets, b'.2.wait.Sound := fun b' hb' => h b' (List.mem_cons_of_mem _ hb')
    have ih := ih hbuckets
    have hb := (h b (List.mem_cons_self ..)).none
    simp only [List.map_cons, List.sum_cons, List.foldr_cons, ← ih]
    by_cases hn : b.2.wait.n = 0
    · simp only [view, hn, hb hn, Nat.zero_add, Nat.zero_max, ne_eq, not_true_eq_false, if_false]
      split <;> rfl
    · by_cases hrest : (buckets.map (·.2.wait.n)).sum = 0
      · simp [view, hn, hrest, longest_of_none hbuckets hrest]
      · simp [view, hn, hrest]

/-- What a report shows of the whole is what its buckets show, added up. -/
structure Report.AddsUp (report : Report) : Prop where
  inbound : report.totals.inbound = (report.buckets.map (·.2.inbound)).sum
  answered : report.totals.answered = (report.buckets.map (·.2.answered)).sum
  abandoned : report.totals.abandoned = (report.buckets.map (·.2.abandoned)).sum
  missed : report.totals.missed = (report.buckets.map (·.2.missed)).sum
  inProgress : report.totals.inProgress = (report.buckets.map (·.2.inProgress)).sum
  outbound : report.totals.outbound = (report.buckets.map (·.2.outbound)).sum
  outboundConnected : report.totals.outboundConnected = (report.buckets.map (·.2.outboundConnected)).sum
  maxWaitSeconds : report.totals.maxWaitSeconds = (report.buckets.map (·.2.maxWaitSeconds)).foldr max none
  talkSeconds : report.totals.talkSeconds = (report.buckets.map (·.2.talkSeconds)).sum

/-- The report that is returned adds up, and each line of it is sound. -/
theorem calls_addsUp (allCalls : List Call) (events : List LifecycleEvent) (tenantId : Nat) (r : Request) :
    (calls allCalls events tenantId r).AddsUp ∧ (calls allCalls events tenantId r).totals.Sound ∧
      ∀ b ∈ (calls allCalls events tenantId r).buckets, b.2.Sound := by
  have hbucket : ∀ b ∈ (count allCalls events tenantId r).buckets, b.2.Balanced ∧ b.2.wait.Sound := by
    rintro ⟨start, b⟩ hb
    rw [counting_of_mem hb]
    exact ⟨balanced_counting _ _, sound_counting _ _⟩
  have htally : AddUp (count allCalls events tenantId r).totals (count allCalls events tenantId r).buckets :=
    addUp_tally fun _ hrow => created_of_mem hrow
  refine ⟨?_, sound_view (balanced_counting _ _) (sound_counting _ _), ?_⟩
  · constructor <;> simp only [calls, List.map_map]
    case maxWaitSeconds =>
      refine Eq.trans ?_ (maxWait_whole fun b hb => (hbucket b hb).2)
      rw [← htally.waits, ← htally.waitMax]
      rfl
    · exact htally.inbound
    · exact htally.answered
    · exact htally.abandoned
    · exact htally.missed
    · exact htally.inProgress
    · exact htally.outbound
    · exact htally.outboundConnected
    · exact htally.talkSum
  · intro b hb
    obtain ⟨counted, hcounted, rfl⟩ := List.mem_map.mp hb
    exact sound_view (hbucket counted hcounted).1 (hbucket counted hcounted).2

/-- Every call of the window falls into one bucket, a bucket counts the calls of
its span, the totals are the sums, and each bucket is balanced. -/
theorem reportsAddUp (allCalls : List Call) (events : List LifecycleEvent) (tenantId : Nat) (r : Request) :
    (count allCalls events tenantId r).buckets.map Prod.fst = r.starts ∧ r.starts.Nodup ∧
      (∀ row ∈ callsInRange allCalls events tenantId r,
        ∃! start, start ∈ r.starts ∧ start ≤ row.createdAt ∧ row.createdAt < start + r.interval.step) ∧
      (∀ start b, (start, b) ∈ (count allCalls events tenantId r).buckets →
        b = counting r.serviceLevelSeconds ((callsInRange allCalls events tenantId r).filter fun row =>
          start ≤ row.createdAt ∧ row.createdAt < start + r.interval.step) ∧ b.Balanced) ∧
      AddUp (count allCalls events tenantId r).totals (count allCalls events tenantId r).buckets := by
  have hcreated : ∀ row ∈ callsInRange allCalls events tenantId r,
      r.from_ ≤ row.createdAt ∧ (row.createdAt : Int) < r.to_ := fun row hrow => created_of_mem hrow
  refine ⟨?_, r.starts_nodup, fun row hrow => ?_, fun start b hb => ?_, addUp_tally hcreated⟩
  · rw [count, tally, Buckets.keys_sort, keys_starts]
  · obtain ⟨hfrom, hto⟩ := hcreated row hrow
    refine ⟨r.bucketStart row.createdAt, ⟨r.bucketStart_mem_starts hfrom hto, r.bucketStart_le _,
      r.lt_bucketStart_add _⟩, ?_⟩
    rintro start ⟨hstart, hle, hlt⟩
    exact r.eq_bucketStart hstart hle hlt
  · have hcounting := counting_of_mem hb
    exact ⟨hcounting, hcounting ▸ balanced_counting _ _⟩

end Callio.CallReports
