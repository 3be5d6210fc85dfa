import Mathlib.Data.List.Basic
import Mathlib.Tactic.Common

/-! Sorted sets: members with scores, lowest score first. Commands put a member in
or anew, take members out, or claim the first few that are due. What they did is
a log, latest first, and the set is what the log leaves. -/

namespace Store

structure Scored (α : Type) where
  member : α
  score : Nat
  deriving DecidableEq, Repr

namespace SortedSet

variable {α : Type} (before : α → α → Bool)

/-- Members of one score stand in the order `before`. -/
def precedes (x y : Scored α) : Bool :=
  x.score < y.score || (x.score == y.score && before x.member y.member)

def insert (x : Scored α) : List (Scored α) → List (Scored α)
  | [] => [x]
  | y :: ys => if precedes before x y then x :: y :: ys else y :: insert x ys

theorem mem_insert {x y : Scored α} {xs : List (Scored α)} : y ∈ insert before x xs ↔ y = x ∨ y ∈ xs := by
  induction xs with
  | nil => simp [insert]
  | cons z xs ih =>
    unfold insert
    split
    · exact List.mem_cons
    · rw [List.mem_cons, ih, List.mem_cons]
      exact or_left_comm

theorem length_filter_insert (p : Scored α → Bool) (x : Scored α) (xs : List (Scored α)) :
    ((insert before x xs).filter p).length ≤ (xs.filter p).length + 1 := by
  induction xs with
  | nil =>
    cases hp : p x with
    | true => simp [insert, hp]
    | false => simp [insert, hp]
  | cons y xs ih =>
    unfold insert
    split
    · cases hp : p x with
      | true => simp [List.filter_cons_of_pos, hp]
      | false => simp [List.filter_cons_of_neg, hp]
    · cases hp : p y with
      | true =>
        rw [List.filter_cons_of_pos hp, List.filter_cons_of_pos hp, List.length_cons, List.length_cons]
        exact Nat.succ_le_succ ih
      | false =>
        have hneg : ¬ p y = true := by simp [hp]
        rwa [List.filter_cons_of_neg hneg, List.filter_cons_of_neg hneg]

abbrev Ordered (xs : List (Scored α)) : Prop := xs.Pairwise (·.score ≤ ·.score)

theorem ordered_insert {x : Scored α} {xs : List (Scored α)} (h : Ordered xs) : Ordered (insert before x xs) := by
  induction xs with
  | nil => exact List.pairwise_singleton _ _
  | cons y xs ih =>
    obtain ⟨hy, hxs⟩ := List.pairwise_cons.mp h
    unfold insert
    split
    · rename_i hxy
      have hle : x.score ≤ y.score := by
        rcases Bool.or_eq_true _ _ ▸ hxy with hlt | heq
        · exact Nat.le_of_lt (of_decide_eq_true hlt)
        · exact Nat.le_of_eq (beq_iff_eq.mp (Bool.and_eq_true _ _ ▸ heq).1)
      refine List.pairwise_cons.mpr ⟨fun z hz => ?_, h⟩
      rcases List.mem_cons.mp hz with rfl | hz
      · exact hle
      · exact Nat.le_trans hle (hy z hz)
    · rename_i hxy
      have hle : y.score ≤ x.score := by
        by_contra hlt
        exact hxy (by simp [precedes, Nat.lt_of_not_le hlt])
      refine List.pairwise_cons.mpr ⟨fun z hz => ?_, ih hxs⟩
      rcases (mem_insert before).mp hz with rfl | hz
      · exact hle
      · exact hy z hz

variable [DecidableEq α]

def remove (ms : List α) (xs : List (Scored α)) : List (Scored α) := xs.filter (·.member ∉ ms)

def add (m : α) (score : Nat) (xs : List (Scored α)) : List (Scored α) := insert before ⟨m, score⟩ (remove [m] xs)

/-- The members of the first `limit` entries that are due at `now`. -/
def due (limit now : Nat) (xs : List (Scored α)) : List α := ((xs.filter (·.score ≤ now)).take limit).map (·.member)

/-! ## Logs -/

inductive Event (α : Type)
  | added (m : α) (score : Nat)
  | removed (ms : List α)
  | claimed (now : Nat) (batch : List α)
  deriving DecidableEq, Repr

def Event.Touches (m : α) : Event α → Prop
  | added m' _ => m = m'
  | removed ms => m ∈ ms
  | claimed _ batch => m ∈ batch

def Event.IsAdd : Event α → Bool
  | added _ _ => true
  | _ => false

/-- A claim to which the score `s` is due. -/
def Event.IsClaimAt (s : Nat) : Event α → Bool
  | claimed now _ => s ≤ now
  | _ => false

def Event.Claims (m : α) : Event α → Bool
  | claimed _ batch => m ∈ batch
  | _ => false

def Event.Adds (m : α) : Event α → Bool
  | added m' _ => m = m'
  | _ => false

/-- What the log leaves in the set. -/
def replay : List (Event α) → List (Scored α)
  | [] => []
  | .added m score :: log => add before m score (replay log)
  | .removed ms :: log => remove ms (replay log)
  | .claimed _ batch :: log => remove batch (replay log)

/-- Each claim took what it found due. -/
def Served (limit : Nat) : List (Event α) → Prop
  | [] => True
  | .claimed now batch :: log => batch = due limit now (replay before log) ∧ Served limit log
  | _ :: log => Served limit log

/-- The score with which a member stands in the set. -/
def standing (m : α) : List (Event α) → Option Nat
  | [] => none
  | .added m' score :: log => if m = m' then some score else standing m log
  | .removed ms :: log => if m ∈ ms then none else standing m log
  | .claimed _ batch :: log => if m ∈ batch then none else standing m log

/-! ## What commands do to the set -/

theorem mem_remove {ms : List α} {x : Scored α} {xs : List (Scored α)} :
    x ∈ remove ms xs ↔ x ∈ xs ∧ x.member ∉ ms := by
  simp [remove]

theorem mem_add {m : α} {score : Nat} {x : Scored α} {xs : List (Scored α)} :
    x ∈ add before m score xs ↔ x = ⟨m, score⟩ ∨ x ∈ xs ∧ x.member ≠ m := by
  rw [add, mem_insert, mem_remove, List.mem_singleton]

theorem ordered_remove {ms : List α} {xs : List (Scored α)} (h : Ordered xs) : Ordered (remove ms xs) := h.filter _

theorem ordered_replay (log : List (Event α)) : Ordered (replay before log) := by
  induction log with
  | nil => exact List.Pairwise.nil
  | cons e log ih =>
    cases e with
    | added m score => exact ordered_insert before (ordered_remove ih)
    | removed ms => exact ordered_remove ih
    | claimed now batch => exact ordered_remove ih

/-- The set holds each member with the score it stands with, and no other. -/
theorem mem_replay {m : α} {s : Nat} {log : List (Event α)} :
    ⟨m, s⟩ ∈ replay before log ↔ standing m log = some s := by
  induction log with
  | nil => simp [replay, standing]
  | cons e log ih =>
    cases e with
    | added m' score =>
      rw [replay, mem_add, ih, standing]
      by_cases hm : m = m'
      · subst hm
        simp [eq_comm]
      · simp [hm]
    | removed ms =>
      rw [replay, mem_remove, ih, standing]
      by_cases hm : m ∈ ms <;> simp [hm]
    | claimed now batch =>
      rw [replay, mem_remove, ih, standing]
      by_cases hm : m ∈ batch <;> simp [hm]

/-! ## Claims -/

omit [DecidableEq α] in
theorem mem_due {limit now : Nat} {xs : List (Scored α)} {m : α} (h : m ∈ due limit now xs) :
    ∃ s ≤ now, ⟨m, s⟩ ∈ xs := by
  obtain ⟨⟨m', s⟩, hx, rfl⟩ := List.mem_map.mp h
  obtain ⟨hmem, hscore⟩ := List.mem_filter.mp (List.mem_of_mem_take hx)
  exact ⟨s, of_decide_eq_true hscore, hmem⟩

/-- A member stands with the score of the last addition, which nothing has touched since. -/
theorem standing_eq_some {m : α} {s : Nat} {log : List (Event α)} (h : standing m log = some s) :
    ∃ later earlier, log = later ++ .added m s :: earlier ∧ ∀ e ∈ later, ¬ e.Touches m := by
  induction log with
  | nil => cases h
  | cons e log ih =>
    have hpast : ¬ e.Touches m → standing m log = some s →
        ∃ later earlier, e :: log = later ++ .added m s :: earlier ∧ ∀ e ∈ later, ¬ e.Touches m := by
      intro he hlog
      obtain ⟨later, earlier, rfl, hlater⟩ := ih hlog
      exact ⟨e :: later, earlier, rfl, List.forall_mem_cons.mpr ⟨he, hlater⟩⟩
    cases e with
    | added m' score =>
      rw [standing] at h
      split at h
      · rename_i hm
        subst hm
        cases h
        exact ⟨[], log, rfl, nofun⟩
      · exact hpast ‹_› h
    | removed ms =>
      rw [standing] at h
      split at h
      · cases h
      · exact hpast ‹_› h
    | claimed now batch =>
      rw [standing] at h
      split at h
      · cases h
      · exact hpast ‹_› h

/-- What nothing touches goes on standing. -/
theorem standing_append {m : α} {s : Nat} {later earlier : List (Event α)} (h : standing m earlier = some s)
    (hlater : ∀ e ∈ later, ¬ e.Touches m) : standing m (later ++ earlier) = some s := by
  induction later with
  | nil => exact h
  | cons e later ih =>
    obtain ⟨he, hrest⟩ := List.forall_mem_cons.mp hlater
    cases e with
    | added _ _ => exact (if_neg he).trans (ih hrest)
    | removed _ => exact (if_neg he).trans (ih hrest)
    | claimed _ _ => exact (if_neg he).trans (ih hrest)

theorem Served.of_append {limit : Nat} {later earlier : List (Event α)} (h : Served before limit (later ++ earlier)) :
    Served before limit earlier := by
  induction later with
  | nil => exact h
  | cons e later ih =>
    cases e with
    | added _ _ => exact ih h
    | removed _ => exact ih h
    | claimed _ _ => exact ih h.2

/-- Whatever is claimed was added before, is due, and was left alone in between. -/
theorem added_of_claimed {limit now : Nat} {log later earlier : List (Event α)} {batch : List α} {m : α}
    (h : Served before limit log) (hlog : log = later ++ .claimed now batch :: earlier) (hm : m ∈ batch) :
    ∃ between sooner score, earlier = between ++ .added m score :: sooner ∧ score ≤ now ∧
      ∀ e ∈ between, ¬ e.Touches m := by
  subst hlog
  obtain ⟨hbatch, -⟩ := Served.of_append before h
  rw [hbatch] at hm
  obtain ⟨s, hs, hmem⟩ := mem_due hm
  obtain ⟨between, sooner, hearlier, hbetween⟩ := standing_eq_some ((mem_replay before).mp hmem)
  exact ⟨between, sooner, s, hearlier, hs, hbetween⟩

/-- No member is claimed more often than it was added, one that stands less often. -/
theorem claims_le_adds {limit : Nat} {log : List (Event α)} (h : Served before limit log) (m : α) :
    log.countP (Event.Claims m) + (standing m log).toList.length ≤ log.countP (Event.Adds m) := by
  induction log with
  | nil => exact Nat.le_refl _
  | cons e log ih =>
    cases e with
    | added m' score =>
      have hclaims : (Event.added m' score :: log).countP (Event.Claims m) = log.countP (Event.Claims m) :=
        List.countP_cons_of_neg Bool.false_ne_true
      have hlog := ih h
      rw [hclaims, standing]
      by_cases hm : m = m'
      · rw [if_pos hm, List.countP_cons_of_pos (p := Event.Adds m) (by simpa [Event.Adds] using hm), Option.toList_some,
          List.length_singleton]
        omega
      · rw [if_neg hm, List.countP_cons_of_neg (by simpa [Event.Adds] using hm)]
        exact hlog
    | removed ms =>
      have hclaims : (Event.removed ms :: log).countP (Event.Claims m) = log.countP (Event.Claims m) :=
        List.countP_cons_of_neg Bool.false_ne_true
      have hadds : (Event.removed ms :: log).countP (Event.Adds m) = log.countP (Event.Adds m) :=
        List.countP_cons_of_neg Bool.false_ne_true
      have hlog := ih h
      rw [hclaims, hadds, standing]
      by_cases hm : m ∈ ms
      · rw [if_pos hm, Option.toList_none, List.length_nil]
        omega
      · rwa [if_neg hm]
    | claimed now batch =>
      have hadds : (Event.claimed now batch :: log).countP (Event.Adds m) = log.countP (Event.Adds m) :=
        List.countP_cons_of_neg Bool.false_ne_true
      have hlog := ih h.2
      rw [hadds, standing]
      by_cases hm : m ∈ batch
      · -- It stood in the set, or the claim would not have found it.
        have hdue : m ∈ due limit now (replay before log) := h.1 ▸ hm
        obtain ⟨s, -, hmem⟩ := mem_due hdue
        rw [(mem_replay before).mp hmem] at hlog
        rw [if_pos hm, List.countP_cons_of_pos (p := Event.Claims m) (by simpa [Event.Claims] using hm)]
        exact hlog
      · rw [if_neg hm, List.countP_cons_of_neg (by simpa [Event.Claims] using hm)]
        exact hlog

/-! ## Waiting for a claim -/

/-- The other entries that are due no later than `s`. -/
def ahead (m : α) (s : Nat) (xs : List (Scored α)) : Nat :=
  (xs.filter fun x => x.score ≤ s && x.member ≠ m).length

theorem ahead_add (m m' : α) (s score : Nat) (xs : List (Scored α)) :
    ahead m s (add before m' score xs) ≤ ahead m s xs + 1 := by
  refine Nat.le_trans (length_filter_insert before _ _ _) (Nat.succ_le_succ ?_)
  exact (List.filter_sublist.filter _).length_le

theorem ahead_remove (m : α) (s : Nat) (ms : List α) (xs : List (Scored α)) :
    ahead m s (remove ms xs) ≤ ahead m s xs :=
  (List.filter_sublist.filter _).length_le

/-- A claim that passes over a due member takes as many as it may, and all of them stood ahead of it. -/
theorem ahead_claim {limit now s : Nat} {m : α} {xs : List (Scored α)} (h : Ordered xs) (hmem : ⟨m, s⟩ ∈ xs)
    (hs : s ≤ now) (hm : m ∉ due limit now xs) :
    ahead m s (remove (due limit now xs) xs) + limit ≤ ahead m s xs := by
  have hdue : (⟨m, s⟩ : Scored α) ∈ xs.filter (·.score ≤ now) := List.mem_filter.mpr ⟨hmem, decide_eq_true hs⟩
  have htake : (⟨m, s⟩ : Scored α) ∉ (xs.filter (·.score ≤ now)).take limit :=
    fun hin => hm (List.mem_map.mpr ⟨_, hin, rfl⟩)
  have hordered : Ordered (xs.filter (·.score ≤ now)) := h.filter _
  rw [← List.take_append_drop limit (xs.filter (·.score ≤ now))] at hdue hordered
  have hdrop := (List.mem_append.mp hdue).resolve_left htake
  have hfull : ((xs.filter (·.score ≤ now)).take limit).length = limit := by
    have hpos := List.length_pos_of_mem hdrop
    rw [List.length_drop] at hpos
    rw [List.length_take]
    omega
  -- Everything the claim takes is due no later than `m`.
  have hahead : ∀ x ∈ (xs.filter (·.score ≤ now)).take limit,
      (decide (x.score ≤ s) && decide (x.member ≠ m) && decide (x.member ∈ due limit now xs)) = true := by
    intro x hx
    have hin : x.member ∈ due limit now xs := List.mem_map.mpr ⟨x, hx, rfl⟩
    have hne : x.member ≠ m := fun heq => hm (heq ▸ hin)
    have hle : x.score ≤ s := (List.pairwise_append.mp hordered).2.2 x hx _ hdrop
    simp [hle, hne, hin]
  have hsublist := ((List.take_sublist limit _).trans (List.filter_sublist (l := xs) (p := (·.score ≤ now)))).filter
    fun x => decide (x.score ≤ s) && decide (x.member ≠ m) && decide (x.member ∈ due limit now xs)
  rw [List.filter_eq_self.mpr hahead] at hsublist
  have htaken := hsublist.length_le
  rw [hfull] at htaken
  have hparts := List.length_eq_length_filter_add (l := xs.filter fun x => x.score ≤ s && x.member ≠ m)
    fun x => decide (x.member ∈ due limit now xs)
  rw [List.filter_filter, List.filter_filter] at hparts
  unfold ahead remove
  rw [List.filter_filter, hparts]
  have htook : (xs.filter fun x =>
        decide (x.score ≤ s) && decide (x.member ≠ m) && decide (x.member ∈ due limit now xs)) =
      xs.filter fun x => decide (x.member ∈ due limit now xs) && (decide (x.score ≤ s) && decide (x.member ≠ m)) :=
    List.filter_congr fun _ _ => Bool.and_comm _ _
  have hleft : (xs.filter fun x =>
        decide (x.score ≤ s) && decide (x.member ≠ m) && decide (x.member ∉ due limit now xs)) =
      xs.filter fun x => (!decide (x.member ∈ due limit now xs)) && (decide (x.score ≤ s) && decide (x.member ≠ m)) :=
    List.filter_congr fun x _ => (Bool.and_comm _ _).trans (by rw [decide_not])
  rw [htook] at htaken
  rw [hleft]
  omega

/-- As long as a member stands untouched, each claim to which it is due takes `limit` others that stood
ahead of it or came since. -/
theorem claims_ahead {limit s : Nat} {m : α} {later earlier : List (Event α)}
    (h : Served before limit (later ++ earlier)) (hm : standing m earlier = some s)
    (hlater : ∀ e ∈ later, ¬ e.Touches m) :
    ahead m s (replay before (later ++ earlier)) + limit * later.countP (Event.IsClaimAt s) ≤
      ahead m s (replay before earlier) + later.countP Event.IsAdd := by
  induction later with
  | nil => exact Nat.le_refl _
  | cons e later ih =>
    obtain ⟨he, hrest⟩ := List.forall_mem_cons.mp hlater
    have hstands := standing_append hm hrest
    cases e with
    | added m' score =>
      have hlog := ih h hrest
      have hstep := ahead_add before m m' s score (replay before (later ++ earlier))
      rw [List.countP_cons_of_neg Bool.false_ne_true, List.countP_cons_of_pos rfl, List.cons_append, replay]
      omega
    | removed ms =>
      have hlog := ih h hrest
      have hstep := ahead_remove m s ms (replay before (later ++ earlier))
      rw [List.countP_cons_of_neg Bool.false_ne_true, List.countP_cons_of_neg Bool.false_ne_true, List.cons_append,
        replay]
      omega
    | claimed now batch =>
      have hlog := ih h.2 hrest
      have hbatch : batch = due limit now (replay before (later ++ earlier)) := h.1
      have hadds : (Event.claimed now batch :: later).countP Event.IsAdd = later.countP Event.IsAdd :=
        List.countP_cons_of_neg Bool.false_ne_true
      rw [hadds, List.cons_append, replay]
      by_cases hs : s ≤ now
      · have hstep := ahead_claim (ordered_replay before _) ((mem_replay before).mpr hstands) hs (hbatch ▸ he)
        rw [← hbatch] at hstep
        rw [List.countP_cons_of_pos (p := Event.IsClaimAt s) (by simpa [Event.IsClaimAt] using hs), Nat.mul_add, Nat.mul_one]
        omega
      · have hstep := ahead_remove m s batch (replay before (later ++ earlier))
        rw [List.countP_cons_of_neg (by simpa [Event.IsClaimAt] using hs)]
        omega

example : replay (fun a b : Nat => a < b) [.claimed 5 [2], .added 1 9, .added 2 4, .added 3 9] =
    [⟨1, 9⟩, ⟨3, 9⟩] := by decide

end SortedSet

end Store
