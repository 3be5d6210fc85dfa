import Mathlib
import Callio.Core.Retention
import Callio.Store.Scan

/-! The purge of expired recordings. A sweep that stays in time comes to an end and marks
no recording that it should not; it marks all that it can as long as fewer than a
hundred that it cannot delete stand before them, and nothing makes it leave the
tenants' loop early. -/

namespace Callio.RecordingPurge

open Js Store Retention

/-! ## The property -/

section property

variable (env : Env) (w : Retention.World)

/-- The sweep is never out of time. -/
def InBudget : Prop := ∀ n, env.clock (.test n) < env.clock .start + budgetMs

/-- The tenant's recordings that are past its cutoff. -/
def due (tenant : Tenant) : List (Nat × Recording) :=
  match retentionDays env tenant with
  | some days => if days.isTruthy then expired env w tenant.id (cutoffOf env tenant.id days) else []
  | none => []

/-- It has no object in storage, or one that can be deleted. -/
def removable (row : Recording) : Bool := (storedKey row).all fun key => env.isInitialized && env.deletes key

/-- The recording is marked purged. -/
def isPurged (id : Nat) : Bool := (w.recordings.get id).any (·.status = .purged)

/-- A sweep comes to an end, all that can go is marked then, and nothing else is. -/
def PurgesAll : Prop :=
  ∃ fuel, (sweep env fuel w).Ended ∧
    (∀ tenant ∈ w.tenants, ∀ e ∈ due env w tenant, removable env e.2 = true →
      isPurged (sweep env fuel w).world e.1 = true) ∧
    ∀ id row, w.recordings.get id = some row → row.status ≠ .purged → isPurged (sweep env fuel w).world id = true →
      (∃ tenant ∈ w.tenants, (id, row) ∈ due env w tenant) ∧
        ∀ key, storedKey row = some key → (sweep env fuel w).world.objects key = false

/-- Its settings can be read, and the sweep does not meet an object of it without storage. -/
def passes (tenant : Tenant) : Bool :=
  (retentionDays env tenant).isSome && (env.isInitialized || (due env w tenant).all fun e => removable env e.2)

/-- How many rows that stay a scan of a tenant has room for. -/
def room : Nat := if env.isInitialized then recordingBatch else 1

/-- The tenant's rows before `id` that stay. -/
def stuckBefore (tenant : Tenant) (id : Nat) : Nat :=
  (due env w tenant).countP fun e => e.1 < id && !removable env e.2

/-- Each recording that can go is reached. -/
def Unstarved : Prop :=
  ∀ tenant ∈ w.tenants, ∀ e ∈ due env w tenant, removable env e.2 = true →
    (∀ earlier ∈ w.tenants.takeWhile (·.id ≠ tenant.id), passes env w earlier = true) ∧
      stuckBefore env w tenant e.1 < room env

instance : Decidable (Unstarved env w) := inferInstanceAs (Decidable (∀ tenant ∈ w.tenants, ∀ e ∈ due env w tenant, _))

end property

/-! ## Running -/

section running

variable {α β : Type}

/-- What holds when a part returns, when it throws, and when its loops may go on. -/
def Meets (post : α → Retention.World → Prop) (failed : Retention.World → Prop) (unfinished : Prop) : Outcome α → Prop
  | .done a w => post a w
  | .thrown w => failed w
  | .unfinished _ => unfinished

variable {post : α → Retention.World → Prop} {failed : Retention.World → Prop} {unfinished : Prop}

theorem Meets.bind {mid : β → Retention.World → Prop} {m : M β} {f : β → M α} {w : Retention.World}
    (hm : Meets mid failed unfinished (m w))
    (hf : ∀ b w', mid b w' → Meets post failed unfinished (f b w')) : Meets post failed unfinished ((m >>= f) w) := by
  change Meets post failed unfinished
    (match m w with | .done b w => f b w | .thrown w => .thrown w | .unfinished w => .unfinished w)
  cases h : m w with
  | done b w' =>
    rw [h] at hm
    exact hf b w' hm
  | thrown w' =>
    rw [h] at hm
    exact hm
  | unfinished w' =>
    rw [h] at hm
    exact hm

theorem Meets.mono {post' : α → Retention.World → Prop} {failed' : Retention.World → Prop} {unfinished' : Prop} {o : Outcome α}
    (h : Meets post failed unfinished o) (hpost : ∀ a w, post a w → post' a w) (hfailed : ∀ w, failed w → failed' w)
    (hunfinished : unfinished → unfinished') : Meets post' failed' unfinished' o := by
  cases o with
  | done a w => exact hpost a w h
  | thrown w => exact hfailed w h
  | unfinished w => exact hunfinished h

end running

/-! ## Marking -/

theorem purge_purge (now : Int) (row : Recording) : (row.purge now).purge now = row.purge now := by
  unfold Recording.purge
  split <;> rfl

theorem completed_purge (now : Int) (row : Recording) : (row.purge now).status ≠ .completed := by
  unfold Recording.purge
  split
  · exact nofun
  · assumption

/-- The recordings `ids` are marked; others, calls and tenants are as they were. -/
structure Marked (env : Env) (w w' : Retention.World) (ids : List Nat) : Prop where
  tenants : w'.tenants = w.tenants
  calls : w'.calls = w.calls
  nextId : w'.recordings.nextId = w.recordings.nextId
  recordings : ∀ id, w'.recordings.get id =
    if id ∈ ids then (w.recordings.get id).map (Recording.purge (env.sqlNow id)) else w.recordings.get id
  /-- No object comes back. -/
  objects : ∀ key, w.objects key = false → w'.objects key = false

namespace Marked

variable {env : Env} {w w' w'' : Retention.World} {ids ids' : List Nat}

theorem refl (env : Env) (w : Retention.World) : Marked env w w [] := ⟨rfl, rfl, rfl, fun _ => rfl, fun _ h => h⟩

theorem trans (h : Marked env w w' ids) (h' : Marked env w' w'' ids') : Marked env w w'' (ids ++ ids') where
  tenants := h'.tenants.trans h.tenants
  calls := h'.calls.trans h.calls
  nextId := h'.nextId.trans h.nextId
  recordings id := by
    rw [h'.recordings, h.recordings]
    by_cases hid : id ∈ ids <;> by_cases hid' : id ∈ ids' <;> simp [hid, hid', Function.comp_def, purge_purge]
  objects key hgone := h'.objects key (h.objects key hgone)

/-- What is marked is not due any more. -/
theorem expired_eq (h : Marked env w w' ids) (tenantId : Nat) (cutoff : Option Int) :
    expired env w' tenantId cutoff = (expired env w tenantId cutoff).filter fun e => e.1 ∉ ids := by
  unfold expired Table.entries
  rw [List.filter_filterMap, h.nextId, h.calls]
  refine List.filterMap_congr fun id _ => ?_
  rw [h.recordings]
  cases w.recordings.get id with
  | none => simp
  | some row =>
    by_cases hid : id ∈ ids
    · rw [if_pos hid]
      cases hdue : (w.calls.get row.callId).any (·.tenantId = tenantId) && row.status = .completed &&
          env.older cutoff row.startedAt <;> simp [hid, hdue, completed_purge, Option.filter]
    · cases hdue : (w.calls.get row.callId).any (·.tenantId = tenantId) && row.status = .completed &&
          env.older cutoff row.startedAt <;> simp [hid, hdue, Option.filter]

theorem objectDeleted (env : Env) (w : Retention.World) (key : Text) :
    Marked env w { w with objects := fun k => k ≠ key && w.objects k } [] :=
  ⟨rfl, rfl, rfl, fun _ => rfl, fun k h => by simp [h]⟩

theorem one (env : Env) (w : Retention.World) (id : Nat) :
    Marked env w { w with recordings := w.recordings.modify id (Recording.purge (env.sqlNow id)) } [id] where
  tenants := rfl
  calls := rfl
  nextId := rfl
  recordings id' := by
    by_cases hid : id' = id
    · subst hid
      simp
    · simp [hid]
  objects _ h := h

end Marked

/-! ## One batch -/

section batch

variable (env : Env)

/-- The rows of a batch that are marked. -/
def freed (rows : List (Nat × Recording)) : List (Nat × Recording) :=
  if env.isInitialized then rows.filter (removable env ·.2) else rows.takeWhile (removable env ·.2)

theorem freed_cons_of_pos {e : Nat × Recording} (rows : List (Nat × Recording)) (he : removable env e.2 = true) :
    freed env (e :: rows) = e :: freed env rows := by
  unfold freed
  split
  · exact List.filter_cons_of_pos he
  · exact List.takeWhile_cons_of_pos he

theorem mem_freed {rows : List (Nat × Recording)} {e : Nat × Recording} (h : e ∈ freed env rows) :
    e ∈ rows ∧ removable env e.2 = true := by
  unfold freed at h
  split at h
  · exact List.mem_filter.mp h
  · exact ⟨(List.takeWhile_sublist _).subset h, List.mem_takeWhile_imp (p := fun e : Nat × Recording => removable env e.2) h⟩

/-- The objects of the rows are gone. -/
def Gone (rows : List (Nat × Recording)) (w : Retention.World) : Prop :=
  ∀ e ∈ rows, ∀ key, storedKey e.2 = some key → w.objects key = false

/-- What a batch comes to. -/
def Batched (rows : List (Nat × Recording)) (w : Retention.World) (r : Nat × Bool) (w' : Retention.World) : Prop :=
  Marked env w w' ((freed env rows).map Prod.fst) ∧ Gone (freed env rows) w' ∧
    r = ((freed env rows).length, env.isInitialized || rows.all (removable env ·.2))

/-- A row that can go is marked. -/
theorem batched_marked {e : Nat × Recording} {rows : List (Nat × Recording)} {w w₁ : Retention.World}
    (he : removable env e.2 = true) (hw : Marked env w w₁ [])
    (hgone : ∀ key, storedKey e.2 = some key → w₁.objects key = false)
    (ih : ∀ w, Meets (Batched env rows w) (fun _ => False) False (purgeBatch env rows w)) :
    Meets (Batched env (e :: rows) w) (fun _ => False) False
      ((do
        markRecordingPurged env e.1
        let (n, through) ← purgeBatch env rows
        return (n + 1, through) : M (Nat × Bool)) w₁) := by
  change Meets _ _ _ ((purgeBatch env rows >>= fun r => pure (r.1 + 1, r.2))
    { w₁ with recordings := w₁.recordings.modify e.1 (Recording.purge (env.sqlNow e.1)) })
  refine Meets.bind (ih _) ?_
  rintro r w' ⟨hmarked, hgone', rfl⟩
  refine ⟨?_, ?_, ?_⟩
  · rw [freed_cons_of_pos env rows he]
    exact (hw.trans (Marked.one env w₁ e.1)).trans hmarked
  · rw [freed_cons_of_pos env rows he]
    intro e' he' key hkey
    rcases List.mem_cons.mp he' with rfl | he'
    · exact hmarked.objects key (hgone key hkey)
    · exact hgone' e' he' key hkey
  · rw [freed_cons_of_pos env rows he, List.length_cons, List.all_cons, he, Bool.true_and]

/-- A row that stays is left out, or ends the batch. -/
theorem batched_kept {e : Nat × Recording} {rows : List (Nat × Recording)} {w w' : Retention.World} {r : Nat × Bool}
    (he : removable env e.2 = false) (hinit : env.isInitialized = true) (h : Batched env rows w r w') :
    Batched env (e :: rows) w r w' := by
  have hfreed : freed env (e :: rows) = freed env rows := by
    rw [freed, if_pos hinit, freed, if_pos hinit]
    exact List.filter_cons_of_neg (by simp [he])
  obtain ⟨hmarked, hgone, hr⟩ := h
  refine ⟨hfreed ▸ hmarked, hfreed ▸ hgone, ?_⟩
  rw [hr, hfreed, hinit, Bool.true_or, Bool.true_or]

theorem purgeBatch_meets (rows : List (Nat × Recording)) (w : Retention.World) :
    Meets (Batched env rows w) (fun _ => False) False (purgeBatch env rows w) := by
  induction rows generalizing w with
  | nil =>
    have hnone : freed env [] = [] := by
      unfold freed
      split <;> rfl
    refine ⟨?_, ?_, ?_⟩
    · rw [hnone]
      exact Marked.refl env w
    · rw [hnone]
      exact nofun
    · rw [hnone]
      simp
  | cons e rows ih =>
    unfold purgeBatch
    cases hkey : storedKey e.2 with
    | none =>
      have he : removable env e.2 = true := by
        rw [removable, hkey]
        rfl
      exact batched_marked env he (Marked.refl env w) (by simp [hkey]) ih
    | some key =>
      have he : removable env e.2 = (env.isInitialized && env.deletes key) := by
        rw [removable, hkey]
        rfl
      cases hinit : env.isInitialized with
      | false =>
        have hnone : freed env (e :: rows) = [] := by
          rw [freed, if_neg (by simp [hinit])]
          exact List.takeWhile_cons_of_neg (by simp [he, hinit])
        refine ⟨?_, ?_, ?_⟩
        · rw [hnone]
          exact Marked.refl env w
        · rw [hnone]
          exact nofun
        · rw [hnone, hinit, Bool.false_or, List.all_cons, he, hinit]
          rfl
      | true =>
        cases hdel : env.deletes key with
        | true =>
          rw [hinit, hdel] at he
          have hafter := batched_marked env he (Marked.objectDeleted env w key)
            (fun key' h => by simp [Option.some.inj (hkey.symm.trans h)]) ih
          simpa [deleteFile, hdel, bind] using hafter
        | false =>
          rw [hinit, hdel] at he
          have hafter := (ih w).mono (fun r w' h => batched_kept env he hinit h) (fun _ h => h) id
          simpa [deleteFile, hdel, bind] using hafter

end batch

/-! ## One tenant -/

section tenant

variable {env : Env} {tenantId : Nat} {cutoff : Option Int}

theorem expired_pairwise (env : Env) (w : Retention.World) (tenantId : Nat) (cutoff : Option Int) :
    (expired env w tenantId cutoff).Pairwise (·.1 < ·.1) := Table.entries_pairwise _ _

theorem expired_nodup (env : Env) (w : Retention.World) (tenantId : Nat) (cutoff : Option Int) :
    ((expired env w tenantId cutoff).map Prod.fst).Nodup :=
  List.pairwise_map.mpr ((expired_pairwise env w tenantId cutoff).imp Nat.ne_of_lt)

section pass

variable {xs : List (Nat × Recording)} (hnodup : (xs.map Prod.fst).Nodup)

/-- The rows of a batch, what it marked and what it did not. -/
def rest (env : Env) (xs : List (Nat × Recording)) : List (Nat × Recording) :=
  if env.isInitialized then (xs.take recordingBatch).filter (!removable env ·.2) ++ xs.drop recordingBatch
  else (xs.take recordingBatch).dropWhile (removable env ·.2) ++ xs.drop recordingBatch

include hnodup in
theorem filter_freed (env : Env) :
    (xs.filter fun e => e.1 ∉ (freed env (xs.take recordingBatch)).map Prod.fst) = rest env xs := by
  unfold freed rest
  cases env.isInitialized with
  | true =>
    rw [if_pos rfl, if_pos rfl]
    rw [← List.take_append_drop recordingBatch xs] at hnodup
    conv_lhs =>
      arg 2
      rw [← List.take_append_drop recordingBatch xs]
    exact filter_key_filter_append hnodup _
  | false =>
    rw [if_neg Bool.false_ne_true, if_neg Bool.false_ne_true]
    have hsplit : xs = (xs.take recordingBatch).takeWhile (removable env ·.2) ++
        ((xs.take recordingBatch).dropWhile (removable env ·.2) ++ xs.drop recordingBatch) := by
      rw [← List.append_assoc, List.takeWhile_append_dropWhile, List.take_append_drop]
    rw [hsplit] at hnodup
    conv_lhs =>
      arg 2
      rw [hsplit]
    exact filter_key_append hnodup

theorem leftBy_rest (env : Env) (xs : List (Nat × Recording)) :
    leftBy (removable env ·.2) (room env) (rest env xs) = leftBy (removable env ·.2) (room env) xs := by
  unfold rest room
  cases env.isInitialized with
  | true => exact leftBy_pass (Nat.le_refl _)
  | false =>
    have hfront : ∀ e ∈ (xs.take recordingBatch).takeWhile (removable env ·.2), removable env e.2 = true := fun e he =>
      List.mem_takeWhile_imp (p := fun e : Nat × Recording => removable env e.2) he
    have happend : leftBy (removable env ·.2) (0 + 1) (_ ++ ((xs.take recordingBatch).dropWhile (removable env ·.2) ++
        xs.drop recordingBatch)) = leftBy (removable env ·.2) (0 + 1) _ := leftBy_append hfront
    rw [← List.append_assoc, List.takeWhile_append_dropWhile, List.take_append_drop] at happend
    exact happend.symm

/-- A batch without progress, or left early, was the last. -/
theorem rest_of_last {env : Env} {xs : List (Nat × Recording)}
    (h : (freed env (xs.take recordingBatch)).length = 0 ∨
      (env.isInitialized || (xs.take recordingBatch).all (removable env ·.2)) = false) :
    leftBy (removable env ·.2) (room env) (rest env xs) = rest env xs := by
  refine leftBy_of_stuck ?_
  unfold rest room
  unfold freed at h
  cases hinit : env.isInitialized with
  | true =>
    rw [hinit, Bool.true_or, or_iff_left Bool.noConfusion, if_pos rfl, List.length_eq_zero_iff, List.filter_eq_nil_iff] at h
    have hstay : (xs.take recordingBatch).filter (!removable env ·.2) = xs.take recordingBatch :=
      List.filter_eq_self.mpr fun e he => by simpa using h e he
    rw [if_pos rfl, if_pos rfl, hstay, List.take_append_drop]
    exact fun e he => by simpa using h e he
  | false =>
    rw [if_neg Bool.false_ne_true, if_neg Bool.false_ne_true]
    rw [hinit, if_neg Bool.false_ne_true, Bool.false_or, List.length_eq_zero_iff] at h
    cases hback : (xs.take recordingBatch).dropWhile (removable env ·.2) with
    | nil =>
      have hall : (xs.take recordingBatch).all (removable env ·.2) = true :=
        List.all_eq_true.mpr (List.dropWhile_eq_nil_iff.mp hback)
      have hfront : (xs.take recordingBatch).takeWhile (removable env ·.2) = [] :=
        h.resolve_right (by rw [hall]; exact Bool.noConfusion)
      have hnone : xs.take recordingBatch = [] := by
        rw [← List.takeWhile_append_dropWhile (p := fun e : Nat × Recording => removable env e.2)
          (l := xs.take recordingBatch), hfront, hback]
        rfl
      have hxs : xs = [] := (List.take_eq_nil_iff.mp hnone).resolve_left (by decide)
      rw [hxs]
      exact nofun
    | cons e es =>
      intro e' he'
      obtain rfl : e' = e := by simpa using he'
      have hhead := List.head_dropWhile_not (fun e : Nat × Recording => removable env e.2) (l := xs.take recordingBatch)
        (by rw [hback]; exact List.cons_ne_nil _ _)
      simpa [hback] using hhead

theorem takeWhile_of_all {p : Nat × Recording → Bool} (h : xs.all p = true) : xs.takeWhile p = xs :=
  List.takeWhile_eq_self_iff.mpr fun e he => List.all_eq_true.mp h e he

theorem all_split (xs : List (Nat × Recording)) (p : Nat × Recording → Bool) :
    xs.all p = ((xs.take recordingBatch).all p && (xs.drop recordingBatch).all p) := by
  rw [← List.all_append, List.take_append_drop]

end pass

/-- What a tenant's purge comes to. -/
structure Purged (env : Env) (tenantId : Nat) (cutoff : Option Int) (w : Retention.World) (r : Nat × Bool) (w' : Retention.World)
    (rows : List (Nat × Recording)) : Prop where
  marked : Marked env w w' (rows.map Prod.fst)
  mem : ∀ e ∈ rows, e ∈ expired env w tenantId cutoff ∧ removable env e.2 = true
  gone : Gone rows w'
  left : expired env w' tenantId cutoff =
    leftBy (removable env ·.2) (room env) (expired env w tenantId cutoff)
  through : r.2 = (env.isInitialized || (expired env w tenantId cutoff).all (removable env ·.2))

theorem Purged.tested {w w' : Retention.World} {n : Nat} {r : Nat × Bool} {rows : List (Nat × Recording)}
    (h : Purged env tenantId cutoff { w with tests := n } r w' rows) : Purged env tenantId cutoff w r w' rows where
  marked := ⟨h.marked.tenants, h.marked.calls, h.marked.nextId, h.marked.recordings, h.marked.objects⟩
  mem := h.mem
  gone := h.gone
  left := h.left
  through := h.through

/-- The last batch. -/
theorem Purged.last {w w' : Retention.World} {r : Nat × Bool}
    (h : Batched env ((expired env w tenantId cutoff).take recordingBatch) w r w')
    (hlast : r.1 = 0 ∨ r.2 = false) :
    Purged env tenantId cutoff w r w' (freed env ((expired env w tenantId cutoff).take recordingBatch)) := by
  obtain ⟨hmarked, hgone, rfl⟩ := h
  have hleft : expired env w' tenantId cutoff = rest env (expired env w tenantId cutoff) := by
    rw [hmarked.expired_eq, filter_freed (expired_nodup env w tenantId cutoff)]
  refine ⟨hmarked, fun e he => ?_, hgone, ?_, ?_⟩
  · exact ⟨List.mem_of_mem_take (mem_freed env he).1, (mem_freed env he).2⟩
  · rw [hleft, ← leftBy_rest, rest_of_last hlast]
  · cases hinit : env.isInitialized with
    | true => rfl
    | false =>
      rw [Bool.false_or, Bool.false_or]
      cases hall : ((expired env w tenantId cutoff).take recordingBatch).all (removable env ·.2) with
      | false => rw [all_split, hall, Bool.false_and]
      | true =>
        have hnone : (freed env ((expired env w tenantId cutoff).take recordingBatch)).length = 0 :=
          hlast.resolve_right (by rw [hall, Bool.or_true]; exact Bool.noConfusion)
        rw [freed, if_neg (by simp [hinit]), takeWhile_of_all hall, List.length_eq_zero_iff, List.take_eq_nil_iff] at hnone
        rw [hnone.resolve_left (by decide)]
        rfl

/-- A batch with more to come, and what comes after it. -/
theorem Purged.more {w w' w'' : Retention.World} {r r' : Nat × Bool} {rows : List (Nat × Recording)}
    (h : Batched env ((expired env w tenantId cutoff).take recordingBatch) w r w') (hmore : r.2 = true)
    (h' : Purged env tenantId cutoff w' r' w'' rows) (n : Nat) :
    Purged env tenantId cutoff w (n, r'.2) w''
      (freed env ((expired env w tenantId cutoff).take recordingBatch) ++ rows) := by
  obtain ⟨hmarked, hgone, rfl⟩ := h
  have hrest : expired env w' tenantId cutoff = rest env (expired env w tenantId cutoff) := by
    rw [hmarked.expired_eq, filter_freed (expired_nodup env w tenantId cutoff)]
  refine ⟨?_, fun e he => ?_, fun e he key hkey => ?_, ?_, ?_⟩
  · rw [List.map_append]
    exact hmarked.trans h'.marked
  · rcases List.mem_append.mp he with he | he
    · exact ⟨List.mem_of_mem_take (mem_freed env he).1, (mem_freed env he).2⟩
    · have hmem := (h'.mem e he).1
      rw [hmarked.expired_eq] at hmem
      exact ⟨List.mem_of_mem_filter hmem, (h'.mem e he).2⟩
  · rcases List.mem_append.mp he with he | he
    · exact h'.marked.objects key (hgone e he key hkey)
    · exact h'.gone e he key hkey
  · rw [h'.left, hrest, leftBy_rest]
  · rw [h'.through, hrest]
    cases hinit : env.isInitialized with
    | true => rfl
    | false =>
      have hall : ((expired env w tenantId cutoff).take recordingBatch).all (removable env ·.2) = true := by
        simpa [hinit] using hmore
      rw [rest, if_neg (by simp [hinit]), List.dropWhile_eq_nil_iff.mpr (List.all_eq_true.mp hall), List.nil_append,
        all_split (expired env w tenantId cutoff), hall, Bool.true_and]

/-- Progress leaves fewer rows. -/
theorem length_lt_of_batched {w w' : Retention.World} {r : Nat × Bool}
    (h : Batched env ((expired env w tenantId cutoff).take recordingBatch) w r w') (hprogress : r.1 ≠ 0) :
    (expired env w' tenantId cutoff).length < (expired env w tenantId cutoff).length := by
  obtain ⟨hmarked, _, rfl⟩ := h
  rw [hmarked.expired_eq]
  obtain ⟨e, he⟩ := List.exists_mem_of_length_pos (Nat.pos_of_ne_zero hprogress)
  refine List.length_filter_lt_length_iff_exists.mpr ⟨e, List.mem_of_mem_take (mem_freed env he).1, ?_⟩
  simpa using ⟨e.2, he⟩

theorem purgeTenant_meets (hbudget : InBudget env) (fuel : Nat) (w : Retention.World) :
    Meets (fun r w' => ∃ rows, Purged env tenantId cutoff w r w' rows) (fun _ => False)
      (fuel ≤ (expired env w tenantId cutoff).length) (purgeTenant env tenantId cutoff fuel w) := by
  induction fuel generalizing w with
  | zero => exact Nat.zero_le _
  | succ fuel ih =>
    unfold purgeTenant
    have hin : Meets (fun b w' => b = true ∧ w' = { w with tests := w.tests + 1 }) (fun _ => False)
        (fuel + 1 ≤ (expired env w tenantId cutoff).length) (inTime env w) :=
      ⟨decide_eq_true (hbudget w.tests), rfl⟩
    refine hin.bind ?_
    rintro b w₁ ⟨rfl, rfl⟩
    rw [if_pos rfl]
    suffices h : Meets (fun r w' => ∃ rows, Purged env tenantId cutoff { w with tests := w.tests + 1 } r w' rows)
        (fun _ => False) (fuel + 1 ≤ (expired env w tenantId cutoff).length) _ from
      h.mono (fun r w' ⟨rows, hr⟩ => ⟨rows, hr.tested⟩) (fun _ h => h) id
    refine ((purgeBatch_meets env _ _).mono (fun _ _ h => h) (fun _ h => h) False.elim).bind ?_
    rintro ⟨progress, through⟩ w₂ hbatch
    dsimp only
    cases hstop : (progress = 0 || !through : Bool) with
    | true =>
      rw [if_pos rfl]
      refine ⟨_, Purged.last hbatch ?_⟩
      simpa using hstop
    | false =>
      rw [if_neg Bool.false_ne_true]
      obtain ⟨hprogress, hthrough⟩ : progress ≠ 0 ∧ through = true := by simpa using hstop
      have hless := length_lt_of_batched hbatch hprogress
      refine ((ih w₂).mono (fun _ _ h => h) (fun _ h => h) fun h => Nat.succ_le_of_lt (Nat.lt_of_le_of_lt h hless)).bind ?_
      rintro r' w₃ ⟨rows, h⟩
      exact ⟨_, Purged.more hbatch hthrough h _⟩

/-- The rows that a tenant's purge marks: those that it reaches. -/
theorem Purged.mem_iff {w w' : Retention.World} {r : Nat × Bool} {rows : List (Nat × Recording)}
    (h : Purged env tenantId cutoff w r w' rows) (e : Nat × Recording) :
    e ∈ rows ↔ e ∈ expired env w tenantId cutoff ∧ removable env e.2 = true ∧
      (expired env w tenantId cutoff).countP (fun e' => e'.1 < e.1 && !removable env e'.2) < room env := by
  have hkey := List.inj_on_of_nodup_map (expired_nodup env w tenantId cutoff)
  have hleft : ∀ e ∈ expired env w tenantId cutoff, e ∈ expired env w' tenantId cutoff ↔ e ∉ rows := by
    intro e he
    rw [h.marked.expired_eq, List.mem_filter, decide_eq_true_eq]
    refine ⟨fun hmem hrow => hmem.2 (List.mem_map_of_mem hrow), fun hrow => ⟨he, fun hmem => hrow ?_⟩⟩
    obtain ⟨e', he', heq⟩ := List.mem_map.mp hmem
    exact hkey (h.mem e' he').1 he heq ▸ he'
  have hreach : ∀ e ∈ expired env w tenantId cutoff, removable env e.2 = true →
      (e ∈ rows ↔ (expired env w tenantId cutoff).countP (fun e' => e'.1 < e.1 && !removable env e'.2) < room env) := by
    intro e he hgo
    rw [← not_iff_not, ← hleft e he, h.left, mem_leftBy_iff (expired_pairwise env w tenantId cutoff) he hgo,
      Nat.not_lt]
  constructor
  · intro he
    obtain ⟨hmem, hgo⟩ := h.mem e he
    exact ⟨hmem, hgo, (hreach e hmem hgo).mp he⟩
  · rintro ⟨hmem, hgo, hroom⟩
    exact (hreach e hmem hgo).mpr hroom

theorem mem_expired {w : Retention.World} {e : Nat × Recording} (h : e ∈ expired env w tenantId cutoff) :
    w.recordings.get e.1 = some e.2 ∧ e.2.status = .completed ∧
      ∃ call, w.calls.get e.2.callId = some call ∧ call.tenantId = tenantId := by
  obtain ⟨hget, hp⟩ := Table.mem_entries.mp h
  simp only [Bool.and_eq_true, decide_eq_true_eq, Option.any_eq_true] at hp
  obtain ⟨⟨⟨call, hcall, htenant⟩, hstatus⟩, _⟩ := hp
  exact ⟨hget, hstatus, call, hcall, htenant⟩

/-- One tenant's purge leaves what another has to remove. -/
theorem Purged.other {w w' : Retention.World} {r : Nat × Bool} {rows : List (Nat × Recording)}
    (h : Purged env tenantId cutoff w r w' rows) {other : Nat} (hne : other ≠ tenantId) (cutoff' : Option Int) :
    expired env w' other cutoff' = expired env w other cutoff' := by
  rw [h.marked.expired_eq, List.filter_eq_self]
  refine fun e he => decide_eq_true fun hmem => hne ?_
  obtain ⟨e', he', heq⟩ := List.mem_map.mp hmem
  obtain ⟨hget, _, call, hcall, htenant⟩ := mem_expired he
  obtain ⟨hget', _, call', hcall', htenant'⟩ := mem_expired (h.mem e' he').1
  rw [heq, hget] at hget'
  rw [← Option.some.inj hget', hcall] at hcall'
  rw [← htenant, ← htenant', Option.some.inj hcall']

theorem length_expired_le (w : Retention.World) : (expired env w tenantId cutoff).length ≤ w.recordings.nextId :=
  (List.length_filterMap_le _ _).trans (List.length_range).le

end tenant

/-! ## All tenants -/

section tenants

variable {env : Env}

/-- The purge reaches the row when it goes through these tenants. -/
def Reaches (env : Env) (w : Retention.World) (tenants : List Tenant) (e : Nat × Recording) : Prop :=
  ∃ tenant ∈ tenants, e ∈ due env w tenant ∧ removable env e.2 = true ∧
    (∀ earlier ∈ tenants.takeWhile (·.id ≠ tenant.id), passes env w earlier = true) ∧
      stuckBefore env w tenant e.1 < room env

theorem reaches_cons (w : Retention.World) {tenant : Tenant} {tenants : List Tenant}
    (hdistinct : tenant.id ∉ tenants.map Tenant.id) (e : Nat × Recording) :
    Reaches env w (tenant :: tenants) e ↔
      (e ∈ due env w tenant ∧ removable env e.2 = true ∧ stuckBefore env w tenant e.1 < room env) ∨
        passes env w tenant = true ∧ Reaches env w tenants e := by
  have hlater : ∀ later ∈ tenants, (tenant :: tenants).takeWhile (·.id ≠ later.id) =
      tenant :: tenants.takeWhile (·.id ≠ later.id) := by
    intro later hlater
    have hne : tenant.id ≠ later.id := fun heq => hdistinct (heq ▸ List.mem_map_of_mem hlater)
    exact List.takeWhile_cons_of_pos (decide_eq_true hne)
  constructor
  · rintro ⟨t, ht, hdue, hgo, hpass, hroom⟩
    rcases List.mem_cons.mp ht with rfl | ht
    · exact .inl ⟨hdue, hgo, hroom⟩
    · rw [hlater t ht, List.forall_mem_cons] at hpass
      exact .inr ⟨hpass.1, t, ht, hdue, hgo, hpass.2, hroom⟩
  · rintro (⟨hdue, hgo, hroom⟩ | ⟨hpass, t, ht, hdue, hgo, hpasses, hroom⟩)
    · refine ⟨tenant, List.mem_cons_self, hdue, hgo, ?_, hroom⟩
      rw [List.takeWhile_cons_of_neg (by simp)]
      exact nofun
    · refine ⟨t, List.mem_cons_of_mem _ ht, hdue, hgo, ?_, hroom⟩
      rw [hlater t ht, List.forall_mem_cons]
      exact ⟨hpass, hpasses⟩

theorem reaches_congr {w w' : Retention.World} {tenants : List Tenant} (h : ∀ t ∈ tenants, due env w t = due env w' t)
    {e : Nat × Recording} : Reaches env w tenants e ↔ Reaches env w' tenants e := by
  refine exists_congr fun t => and_congr_right fun ht => ?_
  have hpasses : ∀ earlier ∈ tenants.takeWhile (·.id ≠ t.id), passes env w earlier = passes env w' earlier := by
    intro earlier hearlier
    rw [passes, passes, h earlier ((List.takeWhile_sublist _).subset hearlier)]
  rw [stuckBefore, stuckBefore, h t ht]
  refine and_congr_right fun _ => and_congr_right fun _ => and_congr_left fun _ => ?_
  exact forall₂_congr fun earlier hearlier => by rw [hpasses earlier hearlier]

/-- What the purge comes to. -/
def PurgedAll (env : Env) (tenants : List Tenant) (w w' : Retention.World) : Prop :=
  ∃ rows, Marked env w w' (rows.map Prod.fst) ∧ Gone rows w' ∧ ∀ e, e ∈ rows ↔ Reaches env w tenants e

theorem purgeTenants_meets (hbudget : InBudget env) (fuel : Nat) (tenants : List Tenant)
    (hdistinct : (tenants.map Tenant.id).Nodup) (w : Retention.World) :
    Meets (fun _ w' => PurgedAll env tenants w w') (PurgedAll env tenants w) (fuel ≤ w.recordings.nextId)
      (purgeTenants env fuel tenants w) := by
  induction tenants generalizing w with
  | nil =>
    refine ⟨[], Marked.refl env w, nofun, fun e => iff_of_false List.not_mem_nil ?_⟩
    rintro ⟨t, ht, _⟩
    cases ht
  | cons tenant tenants ih =>
    rw [List.map_cons, List.nodup_cons] at hdistinct
    have hcons := @reaches_cons env w _ _ hdistinct.1
    unfold purgeTenants
    cases hdays : retentionDays env tenant with
    | none =>
      -- The sweep throws: no later tenant is reached.
      refine ⟨[], Marked.refl env w, nofun, fun e => iff_of_false List.not_mem_nil ?_⟩
      rw [hcons]
      simp [due, passes, hdays]
    | some days =>
      cases htruthy : days.isTruthy with
      | false =>
        dsimp only
        rw [htruthy, Bool.not_false, if_pos rfl]
        have hnone : due env w tenant = [] := by simp [due, hdays, htruthy]
        refine (ih hdistinct.2 w).mono (fun _ _ h => ?_) (fun _ h => ?_) id
        all_goals
          obtain ⟨rows, hmarked, hgone, hrows⟩ := h
          refine ⟨rows, hmarked, hgone, fun e => (hrows e).trans ?_⟩
          rw [hcons, hnone]
          simp [passes, hdays, hnone]
      | true =>
        dsimp only
        rw [htruthy, Bool.not_true, if_neg Bool.false_ne_true]
        have hdue : due env w tenant = expired env w tenant.id (cutoffOf env tenant.id days) := by
          simp [due, hdays, htruthy]
        have hpasses : passes env w tenant =
            (env.isInitialized || (expired env w tenant.id (cutoffOf env tenant.id days)).all (removable env ·.2)) := by
          simp [passes, hdays, hdue]
        refine ((purgeTenant_meets hbudget fuel w).mono (fun _ _ h => h) (fun _ h => h.elim) fun h =>
          h.trans (length_expired_le w)).bind ?_
        rintro ⟨n, through⟩ w₁ ⟨rows, h⟩
        dsimp only
        have hfirst : ∀ e, e ∈ rows ↔
            e ∈ due env w tenant ∧ removable env e.2 = true ∧ stuckBefore env w tenant e.1 < room env := by
          intro e
          rw [h.mem_iff, stuckBefore, hdue]
        cases through with
        | false =>
          rw [if_neg Bool.false_ne_true]
          refine ⟨rows, h.marked, h.gone, fun e => ?_⟩
          rw [hcons, hpasses, ← h.through, hfirst]
          simp
        | true =>
          rw [if_pos rfl]
          have hsame : ∀ later ∈ tenants, due env w₁ later = due env w later := by
            intro later hlater
            have hne : later.id ≠ tenant.id := fun heq => hdistinct.1 (heq ▸ List.mem_map_of_mem hlater)
            unfold due
            split
            · rw [h.other hne]
            · rfl
          have hpass : passes env w tenant = true := hpasses.trans h.through.symm
          have hall : ∀ w', PurgedAll env tenants w₁ w' → PurgedAll env (tenant :: tenants) w w' := by
            rintro w' ⟨rows', hmarked, hgone, hrows⟩
            refine ⟨rows ++ rows', ?_, fun e he key hkey => ?_, fun e => ?_⟩
            · rw [List.map_append]
              exact h.marked.trans hmarked
            · rcases List.mem_append.mp he with he | he
              · exact hmarked.objects key (h.gone e he key hkey)
              · exact hgone e he key hkey
            · rw [List.mem_append, hfirst, hrows, hcons, hpass, reaches_congr hsame]
              simp
          refine Meets.bind ((ih hdistinct.2 w₁).mono (fun _ _ h => h) hall fun h' => h.marked.nextId ▸ h') ?_
          exact fun _ w' h' => hall w' h'

end tenants

/-! ## The other parts -/

section parts

variable {env : Env}

/-- Recordings, calls, tenants and objects are as they were, and no table has grown. -/
structure Untouched (w w' : Retention.World) : Prop where
  tenants : w'.tenants = w.tenants
  calls : w'.calls = w.calls
  recordings : w'.recordings = w.recordings
  objects : w'.objects = w.objects
  detail : ∀ table, (w'.detail table).nextId = (w.detail table).nextId
  deliveries : w'.deliveries.nextId = w.deliveries.nextId

namespace Untouched

theorem refl (w : Retention.World) : Untouched w w := ⟨rfl, rfl, rfl, rfl, fun _ => rfl, rfl⟩

theorem trans {w w' w'' : Retention.World} (h : Untouched w w') (h' : Untouched w' w'') : Untouched w w'' where
  tenants := h'.tenants.trans h.tenants
  calls := h'.calls.trans h.calls
  recordings := h'.recordings.trans h.recordings
  objects := h'.objects.trans h.objects
  detail table := (h'.detail table).trans (h.detail table)
  deliveries := h'.deliveries.trans h.deliveries

theorem detailUpdated (w : Retention.World) (table : DetailTable) {rows : Table Detail}
    (hrows : rows.nextId = (w.detail table).nextId) :
    Untouched w { w with detail := Function.update w.detail table rows } where
  tenants := rfl
  calls := rfl
  recordings := rfl
  objects := rfl
  detail other := by
    by_cases hother : other = table
    · subst hother
      simpa using hrows
    · simp [hother]
  deliveries := rfl

end Untouched

/-- A step of a loop touches no recording, and each that finds something leaves less to find. -/
def Shrinks (step : M Nat) (size : Retention.World → Nat) : Prop :=
  ∀ w, Meets (fun n w' => Untouched w w' ∧ (n ≠ 0 → size w' < size w)) (fun _ => False) False (step w)

theorem loop_meets {step : M Nat} {size : Retention.World → Nat} (hstep : Shrinks step size)
    (htests : ∀ w n, size { w with tests := n } = size w) (fuel : Nat) (w : Retention.World) :
    Meets (fun _ w' => Untouched w w') (fun _ => False) (fuel ≤ size w) (loop env step fuel w) := by
  induction fuel generalizing w with
  | zero => exact Nat.zero_le _
  | succ fuel ih =>
    unfold loop
    have hin : Meets (fun _ w' => w' = { w with tests := w.tests + 1 }) (fun _ => False) (fuel + 1 ≤ size w)
        (inTime env w) := rfl
    refine hin.bind ?_
    rintro b w₁ rfl
    have htested : Untouched w { w with tests := w.tests + 1 } := ⟨rfl, rfl, rfl, rfl, fun _ => rfl, rfl⟩
    split
    · refine ((hstep _).mono (fun _ _ h => h) (fun _ h => h) False.elim).bind ?_
      rintro n w₂ ⟨huntouched, hless⟩
      split
      · exact htested.trans huntouched
      · rename_i hn
        refine Meets.bind ((ih w₂).mono (fun _ _ h => h) (fun _ h => h) fun h => ?_) ?_
        · exact Nat.succ_le_of_lt (Nat.lt_of_le_of_lt h (htests w _ ▸ hless hn))
        · exact fun _ w₃ h => htested.trans (huntouched.trans h)
    · exact htested

/-- Deleting rows leaves fewer. -/
theorem count_removeAll_lt {α : Type} {t : Table α} {p : Nat → α → Bool} {id : Nat} {row : α} (hget : t.get id = some row)
    (hp : p id row = true) : (t.removeAll p).count (fun _ _ => true) < t.count fun _ _ => true := by
  have hheld : (t.get id).any (fun _ => true) = true := by simp [hget]
  refine Table.count_lt rfl (fun id' h => ?_) hheld (by simp [Table.removeAll, hget, hp])
  obtain ⟨row', hrow', _⟩ := (Option.any_eq_true _ _).mp h
  exact (Option.any_eq_true _ _).mpr ⟨row', (Option.filter_eq_some_iff.mp hrow').1, rfl⟩

theorem shrinks_deliveries (cutoff : Retention.World → Option Int) (limit : Nat) :
    Shrinks (fun w => deleteFinishedDeliveries env (cutoff w) limit w) fun w => w.deliveries.count fun _ _ => true := by
  refine fun w => ⟨⟨rfl, rfl, rfl, rfl, fun _ => rfl, rfl⟩, fun hn => ?_⟩
  obtain ⟨id, hid⟩ := List.exists_mem_of_length_pos (Nat.pos_of_ne_zero hn)
  obtain ⟨e, he, rfl⟩ := List.mem_map.mp hid
  exact count_removeAll_lt (Table.mem_entries.mp (List.mem_of_mem_take he)).1 (decide_eq_true hid)

theorem shrinks_callDetail (table : DetailTable) (cutoff : Option Int) (limit : Nat) :
    Shrinks (deleteCallDetail env table cutoff limit) fun w => (w.detail table).count fun _ _ => true := by
  refine fun w => ⟨Untouched.detailUpdated w table rfl, fun hn => ?_⟩
  obtain ⟨row, hrow⟩ := List.exists_mem_of_length_pos (Nat.pos_of_ne_zero hn)
  obtain ⟨id, hget, hp⟩ := (Table.mem_filter _ _ _).mp hrow
  dsimp only
  rw [Function.update_self]
  exact count_removeAll_lt hget hp

theorem shrinks_sdp (cutoff : Retention.World → Option Int) (limit : Nat) :
    Shrinks (fun w => scrubConnectionSdp env (cutoff w) limit w) fun w =>
      (w.detail .callConnections).count fun _ row => row.described := by
  refine fun w => ⟨Untouched.detailUpdated w _ rfl, fun hn => ?_⟩
  obtain ⟨id, hid⟩ := List.exists_mem_of_length_pos (Nat.pos_of_ne_zero hn)
  obtain ⟨e, he, rfl⟩ := List.mem_map.mp hid
  obtain ⟨hget, hp⟩ := Table.mem_entries.mp (List.mem_of_mem_take he)
  rw [Bool.and_eq_true] at hp
  dsimp only
  rw [Function.update_self]
  have hheld : ((w.detail .callConnections).get e.1).any (fun row => row.described) = true := by simp [hget, hp.2]
  refine Table.count_lt rfl (fun id' h => ?_) hheld ?_
  · obtain ⟨row', hrow', hdescribed⟩ := (Option.any_eq_true _ _).mp h
    obtain ⟨row, hrow, rfl⟩ := Option.map_eq_some_iff.mp hrow'
    split at hdescribed
    · cases hdescribed
    · exact (Option.any_eq_true _ _).mpr ⟨row, hrow, hdescribed⟩
  · rw [Table.get_updateAll, hget, Option.map_some, if_pos (decide_eq_true hid)]
    rfl

/-- All keys that the tables have given. -/
def span (w : Retention.World) : Nat :=
  (detailTables.map fun table => (w.detail table).nextId).sum + w.deliveries.nextId + w.recordings.nextId

theorem nextId_le_span (w : Retention.World) (table : DetailTable) : (w.detail table).nextId ≤ span w := by
  cases table <;> simp only [span, detailTables, List.map_cons, List.map_nil, List.sum_cons, List.sum_nil] <;> omega

theorem Untouched.span_eq {w w' : Retention.World} (h : Untouched w w') : span w' = span w := by
  have hdetail : (fun table => (w'.detail table).nextId) = fun table => (w.detail table).nextId := funext h.detail
  rw [span, hdetail, h.deliveries, h.recordings, span]

/-- A part of the sweep before the recordings. -/
def Quiet (fuel : Nat) (m : M Nat) : Prop :=
  ∀ w, Meets (fun _ w' => Untouched w w') (fun _ => False) (fuel ≤ span w) (m w)

theorem quiet_callDetail (fuel : Nat) (cutoff : Option Int) (tables : List DetailTable) :
    Quiet fuel (callDetail env fuel cutoff tables) := by
  induction tables with
  | nil => exact fun w => Untouched.refl w
  | cons table tables ih =>
    intro w
    refine ((loop_meets (shrinks_callDetail table cutoff 200) (fun _ _ => rfl) fuel w).mono (fun _ _ h => h)
      (fun _ h => h) fun h => ?_).bind ?_
    · exact (h.trans (Table.count_le _ _)).trans (nextId_le_span w table)
    · intro n w₁ h₁
      refine Meets.bind ((ih w₁).mono (fun _ _ h => h) (fun _ h => h) fun h => h₁.span_eq ▸ h) ?_
      exact fun _ w₂ h₂ => h₁.trans h₂

theorem Quiet.part {fuel : Nat} {m : M Nat} (h : Quiet fuel m) (setting : Number) : Quiet fuel (part setting m) := by
  unfold Retention.part
  split
  · exact h
  · exact fun w => Untouched.refl w

end parts

/-! ## The sweep -/

section sweep

variable {env : Env}

theorem PurgedAll.of_untouched {tenants : List Tenant} {w w₁ w' : Retention.World} (h : Untouched w w₁)
    (hpurged : PurgedAll env tenants w₁ w') : PurgedAll env tenants w w' := by
  obtain ⟨rows, hmarked, hgone, hrows⟩ := hpurged
  refine ⟨rows, ?_, hgone, fun e => (hrows e).trans (reaches_congr fun t _ => ?_)⟩
  · refine ⟨hmarked.tenants.trans h.tenants, hmarked.calls.trans h.calls, ?_, fun id => ?_, ?_⟩
    · rw [hmarked.nextId, h.recordings]
    · rw [hmarked.recordings, h.recordings]
    · rw [← h.objects]
      exact hmarked.objects
  · simp only [due, expired, h.calls, h.recordings]

theorem sweep_meets (hbudget : InBudget env) (fuel : Nat) (w : Retention.World) :
    Meets (fun _ w' => PurgedAll env w.tenants w w') (PurgedAll env w.tenants w) (fuel ≤ span w)
      (sweep env fuel w) := by
  have hsdp : Quiet fuel (loop env (fun w =>
      scrubConnectionSdp env (ago env (stepReading w) (env.sdpHours.times 3600000)) batchSize w) fuel) := fun w =>
    (loop_meets (shrinks_sdp _ _) (fun _ _ => rfl) fuel w).mono (fun _ _ h => h) (fun _ h => h) fun h =>
      (h.trans (Table.count_le _ _)).trans (nextId_le_span w _)
  have hdeliveries : Quiet fuel (loop env (fun w =>
      deleteFinishedDeliveries env (ago env (stepReading w) (env.webhookDeliveryDays.times dayMs)) batchSize w) fuel) :=
    fun w => (loop_meets (shrinks_deliveries _ _) (fun _ _ => rfl) fuel w).mono (fun _ _ h => h) (fun _ h => h) fun h =>
      (h.trans (Table.count_le _ _)).trans (by unfold span; omega)
  unfold sweep
  refine ((hsdp.part env.sdpHours w).mono (fun _ _ h => h) (fun _ h => h.elim) id).bind fun _ w₁ h₁ => ?_
  refine (((quiet_callDetail fuel _ detailTables).part env.callDetailDays w₁).mono (fun _ _ h => h) (fun _ h => h.elim)
    fun h => h₁.span_eq ▸ h).bind fun _ w₂ h₂ => ?_
  refine ((hdeliveries.part env.webhookDeliveryDays w₂).mono (fun _ _ h => h) (fun _ h => h.elim)
    fun h => (h₁.trans h₂).span_eq ▸ h).bind fun _ w₃ h₃ => ?_
  have h := (h₁.trans h₂).trans h₃
  refine Meets.bind ((purgeTenants_meets hbudget fuel w₃.tenants w₃.distinct w₃).mono (fun _ _ hp => ?_) (fun _ hp => ?_)
    fun hp => ?_) fun _ _ hp => hp
  · exact (h.tenants ▸ hp).of_untouched h
  · exact (h.tenants ▸ hp).of_untouched h
  · rw [← h.span_eq]
    exact hp.trans (by unfold span; omega)

/-- With fuel for all rows the sweep ends. -/
theorem ended_of_span_lt (hbudget : InBudget env) {fuel : Nat} {w : Retention.World} (hfuel : span w < fuel) :
    (sweep env fuel w).Ended := by
  have h := sweep_meets hbudget fuel w
  cases ho : sweep env fuel w with
  | done a w' => trivial
  | thrown w' => trivial
  | unfinished w' =>
    rw [ho] at h
    exact absurd hfuel (Nat.not_lt.mpr h)

theorem purgedAll_of_ended (hbudget : InBudget env) {fuel : Nat} {w : Retention.World} (h : (sweep env fuel w).Ended) :
    PurgedAll env w.tenants w (sweep env fuel w).world := by
  have hmeets := sweep_meets hbudget fuel w
  cases ho : sweep env fuel w with
  | done a w' =>
    rw [ho] at hmeets
    exact hmeets
  | thrown w' =>
    rw [ho] at hmeets
    exact hmeets
  | unfinished w' =>
    rw [ho] at h
    exact h.elim

theorem mem_due {w : Retention.World} {tenant : Tenant} {e : Nat × Recording} (h : e ∈ due env w tenant) :
    w.recordings.get e.1 = some e.2 ∧ e.2.status = .completed ∧
      ∃ call, w.calls.get e.2.callId = some call ∧ call.tenantId = tenant.id := by
  unfold due at h
  split at h
  · split at h
    · exact mem_expired h
    · cases h
  · cases h

/-- A recording is purged afterwards if it was before, or if the sweep marks it. -/
theorem isPurged_marked {w w' : Retention.World} {ids : List Nat} (h : Marked env w w' ids) {id : Nat} {row : Recording}
    (hget : w.recordings.get id = some row) (hstatus : row.status = .completed) :
    isPurged w' id = true ↔ id ∈ ids := by
  unfold isPurged
  rw [h.recordings, hget]
  by_cases hid : id ∈ ids <;> simp [hid, Recording.purge, hstatus]

theorem unstarved_of_purgesAll (hbudget : InBudget env) {w : Retention.World} (h : PurgesAll env w) : Unstarved env w := by
  obtain ⟨fuel, hended, hall, _⟩ := h
  intro tenant htenant e he hgo
  obtain ⟨rows, hmarked, _, hrows⟩ := purgedAll_of_ended hbudget hended
  obtain ⟨hget, hstatus, call, hcall, hid⟩ := mem_due he
  have hmem := (isPurged_marked hmarked hget hstatus).mp (hall tenant htenant e he hgo)
  obtain ⟨e', he', hkey⟩ := List.mem_map.mp hmem
  obtain ⟨tenant', htenant', hdue', -, hpass, hroom⟩ := (hrows e').mp he'
  obtain ⟨hget', _, call', hcall', hid'⟩ := mem_due hdue'
  rw [hkey, hget] at hget'
  obtain rfl : e' = e := Prod.ext hkey (Option.some.inj hget').symm
  rw [hcall] at hcall'
  have hsame : tenant' = tenant := List.inj_on_of_nodup_map w.distinct htenant' htenant
    (hid'.symm.trans ((congrArg Call.tenantId (Option.some.inj hcall').symm).trans hid))
  exact hsame ▸ ⟨hpass, hroom⟩

theorem purgesAll_of_unstarved (hbudget : InBudget env) {w : Retention.World} (h : Unstarved env w) : PurgesAll env w := by
  have hended := ended_of_span_lt hbudget (Nat.lt_succ_self (span w))
  obtain ⟨rows, hmarked, hgone, hrows⟩ := purgedAll_of_ended hbudget hended
  refine ⟨span w + 1, hended, fun tenant htenant e he hgo => ?_, fun id row hget hnot hpurged => ?_⟩
  · obtain ⟨hget, hstatus, _⟩ := mem_due he
    refine (isPurged_marked hmarked hget hstatus).mpr (List.mem_map_of_mem ((hrows e).mpr ?_))
    exact ⟨tenant, htenant, he, hgo, h tenant htenant e he hgo⟩
  · have hmem : id ∈ rows.map Prod.fst := by
      by_contra hid
      rw [isPurged, hmarked.recordings, if_neg hid, hget] at hpurged
      exact hnot (by simpa using hpurged)
    obtain ⟨e, he, rfl⟩ := List.mem_map.mp hmem
    obtain ⟨tenant, htenant, hdue, _⟩ := (hrows e).mp he
    obtain rfl : e.2 = row := Option.some.inj ((mem_due hdue).1.symm.trans hget)
    exact ⟨⟨tenant, htenant, hdue⟩, hgone e he⟩

end sweep

/-- In a sweep that stays in time, all that can go is marked exactly if none of it is starved. -/
theorem purgesAll_iff (env : Env) (w : Retention.World) (hbudget : InBudget env) : PurgesAll env w ↔ Unstarved env w :=
  ⟨unstarved_of_purgesAll hbudget, purgesAll_of_unstarved hbudget⟩

/-- Recordings are kept ten days, and storage deletes what `deletes` says. -/
def tenDays (deletes : Text → Bool) : Env where
  sdpHours := .fin 24
  callDetailDays := .fin 180
  webhookDeliveryDays := .fin 30
  recordingDays := .fin 10
  numberText _ := []
  clock _ := 2000000000
  sqlNow _ := 2000000000
  older date t := date.any (t < ·)
  isInitialized := true
  deletes := deletes

/-- One call of one tenant, with recordings from long ago. -/
def oneTenant (recordings : Table Recording) : Retention.World where
  tenants := [⟨1, none⟩]
  distinct := List.nodup_singleton 1
  calls := Table.empty.insert fun _ => ⟨1, true, some 0⟩
  recordings := recordings
  objects _ := true

def inStorage : Recording := ⟨1, "s3".toList, some "recording.ogg".toList, .completed, 0, none⟩
def onDisk : Recording := ⟨1, "local".toList, some "recording.ogg".toList, .completed, 0, none⟩

theorem tenDays_inBudget (deletes : Text → Bool) : InBudget (tenDays deletes) := fun _ => by
  change 2000000000 < 2000000000 + budgetMs
  decide

/-- An object that cannot be deleted, and a recording behind it. -/
theorem purgesAll_behind_one :
    PurgesAll (tenDays fun _ => false) (oneTenant ((Table.empty.insert fun _ => inStorage).insert fun _ => onDisk)) := by
  refine (purgesAll_iff _ _ (tenDays_inBudget _)).mpr ?_
  decide +kernel

/-- A hundred of them. -/
def hundredStuck : Table Recording where
  get id := if id = 0 ∨ 101 < id then none else some (if id = 101 then onDisk else inStorage)
  nextId := 102
  pos := Nat.succ_pos _
  zero := rfl
  absent _ h := if_pos (.inr (Nat.lt_of_lt_of_le (Nat.lt_succ_self 101) h))

theorem not_purgesAll : ¬ ∀ env w, InBudget env → PurgesAll env w := by
  intro h
  have hreach := unstarved_of_purgesAll (tenDays_inBudget _) (h _ (oneTenant hundredStuck) (tenDays_inBudget fun _ => false))
  have hroom := (hreach ⟨1, none⟩ (List.mem_singleton_self _) (101, onDisk) (by decide +kernel) (by decide)).2
  exact absurd hroom (by decide +kernel)

end Callio.RecordingPurge
