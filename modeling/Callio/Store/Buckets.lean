import Mathlib.Data.List.Basic
import Mathlib.Tactic.Common

/-! Rows sorted into buckets by a key, each bucket summed on its own. What is put
into some bucket is in the sum of all. -/

namespace Store.Buckets

variable {κ β ρ : Type}

section change

variable [DecidableEq κ]

/-- Changes the bucket of a key, if there is one. -/
def change (key : κ) (g : β → β) (buckets : List (κ × β)) : List (κ × β) :=
  buckets.map fun b => if b.1 = key then (b.1, g b.2) else b

theorem keys_change (key : κ) (g : β → β) (buckets : List (κ × β)) :
    (change key g buckets).map Prod.fst = buckets.map Prod.fst := by
  rw [change, List.map_map]
  apply List.map_congr_left
  intro b _
  simp only [Function.comp_apply]
  split <;> rfl

theorem change_of_notMem {key : κ} {buckets : List (κ × β)} (h : key ∉ buckets.map Prod.fst) (g : β → β) :
    change key g buckets = buckets := by
  have hsame : ∀ b ∈ buckets, (if b.1 = key then (b.1, g b.2) else b) = id b := by
    intro b hb
    rw [if_neg]
    · rfl
    · rintro rfl
      exact h (List.mem_map_of_mem hb)
  rw [change, List.map_congr_left hsame, List.map_id]

/-- One row after another, each into the bucket of its key. -/
def sort (keyOf : ρ → κ) (add : β → ρ → β) (rows : List ρ) (buckets : List (κ × β)) : List (κ × β) :=
  rows.foldl (fun buckets row => change (keyOf row) (add · row) buckets) buckets

theorem keys_sort (keyOf : ρ → κ) (add : β → ρ → β) (rows : List ρ) (buckets : List (κ × β)) :
    (sort keyOf add rows buckets).map Prod.fst = buckets.map Prod.fst := by
  induction rows generalizing buckets with
  | nil => rfl
  | cons row rows ih => exact (ih _).trans (keys_change ..)

/-- A bucket after sorting has the rows of its key. -/
theorem mem_sort {keyOf : ρ → κ} {add : β → ρ → β} {rows : List ρ} {buckets : List (κ × β)} {key : κ} {b : β}
    (h : (key, b) ∈ sort keyOf add rows buckets) :
    ∃ b₀, (key, b₀) ∈ buckets ∧ b = (rows.filter fun row => keyOf row = key).foldl add b₀ := by
  induction rows generalizing buckets with
  | nil => exact ⟨b, h, rfl⟩
  | cons row rows ih =>
    obtain ⟨b₁, hb₁, hb⟩ := ih h
    obtain ⟨⟨key₀, b₀⟩, hb₀, hchanged⟩ := List.mem_map.mp hb₁
    by_cases hrow : keyOf row = key
    · have hkey : key₀ = keyOf row := by
        rw [hrow]
        split at hchanged <;> exact congrArg Prod.fst hchanged
      rw [if_pos hkey] at hchanged
      obtain ⟨rfl, rfl⟩ := Prod.mk.inj hchanged
      refine ⟨b₀, hb₀, ?_⟩
      rw [hb, List.filter_cons, if_pos (by simpa using hrow), List.foldl_cons]
    · have hkey : key₀ ≠ keyOf row := by
        rintro rfl
        rw [if_pos rfl] at hchanged
        exact hrow (congrArg Prod.fst hchanged)
      rw [if_neg hkey] at hchanged
      obtain ⟨rfl, rfl⟩ := Prod.mk.inj hchanged
      refine ⟨b₀, hb₀, ?_⟩
      rw [hb, List.filter_cons, if_neg (by simpa using hrow)]

end change

section whole

variable (op : β → β → β) (unit : β)

/-- The buckets taken together. -/
def whole (buckets : List (κ × β)) : β := (buckets.map Prod.snd).foldr op unit

/-- What is read of the whole, if reading commutes with adding. -/
theorem read_whole {M : Type} (opM : M → M → M) (unitM : M) (read : β → M) (hunit : read unit = unitM)
    (hop : ∀ a b, read (op a b) = opM (read a) (read b)) (buckets : List (κ × β)) :
    read (whole op unit buckets) = (buckets.map fun b => read b.2).foldr opM unitM := by
  induction buckets with
  | nil => exact hunit
  | cons b buckets ih =>
    rw [List.map_cons, List.foldr_cons, ← ih]
    exact hop b.2 _

variable [DecidableEq κ] [Std.Commutative op] [Std.Associative op]

theorem whole_change {key : κ} {buckets : List (κ × β)} (hnodup : (buckets.map Prod.fst).Nodup)
    (hkey : key ∈ buckets.map Prod.fst) (x : β) :
    whole op unit (change key (op · x) buckets) = op (whole op unit buckets) x := by
  have hassoc (a b c : β) : op (op a b) c = op a (op b c) := Std.Associative.assoc a b c
  have hcomm (a b : β) : op a b = op b a := Std.Commutative.comm a b
  induction buckets with
  | nil => cases hkey
  | cons b buckets ih =>
    obtain ⟨hnot, hnodup⟩ := List.nodup_cons.mp hnodup
    by_cases hb : b.1 = key
    · have hrest : change key (op · x) buckets = buckets := change_of_notMem (hb ▸ hnot) _
      have hchange : change key (op · x) (b :: buckets) = (b.1, op b.2 x) :: change key (op · x) buckets := by
        rw [change, List.map_cons, if_pos hb]
        rfl
      rw [hchange, hrest]
      simp only [whole, List.map_cons, List.foldr_cons]
      rw [hassoc, hcomm x, ← hassoc]
    · have hchange : change key (op · x) (b :: buckets) = b :: change key (op · x) buckets := by
        rw [change, List.map_cons, if_neg hb]
        rfl
      have hmem : key ∈ buckets.map Prod.fst := (List.mem_cons.mp hkey).resolve_left (Ne.symm hb)
      have hwhole := ih hnodup hmem
      rw [hchange]
      simp only [whole, List.map_cons, List.foldr_cons] at hwhole ⊢
      rw [hwhole, hassoc]

/-- If every row has a bucket, the buckets together are the rows added up. -/
theorem whole_sort {keyOf : ρ → κ} {add : β → ρ → β} {one : ρ → β} (hadd : ∀ b row, add b row = op b (one row))
    {rows : List ρ} {buckets : List (κ × β)} (hnodup : (buckets.map Prod.fst).Nodup)
    (hrows : ∀ row ∈ rows, keyOf row ∈ buckets.map Prod.fst) :
    whole op unit (sort keyOf add rows buckets) = rows.foldl add (whole op unit buckets) := by
  induction rows generalizing buckets with
  | nil => rfl
  | cons row rows ih =>
    have hkey := hrows row (List.mem_cons_self ..)
    have hchange : change (keyOf row) (add · row) buckets = change (keyOf row) (op · (one row)) buckets := by
      congr 1
      funext b
      exact hadd b row
    have hrest : whole op unit (sort keyOf add rows (change (keyOf row) (add · row) buckets)) =
        rows.foldl add (whole op unit (change (keyOf row) (add · row) buckets)) :=
      ih (by rwa [keys_change]) (by rw [keys_change]; exact fun r hr => hrows r (List.mem_cons_of_mem _ hr))
    rw [sort, List.foldl_cons, List.foldl_cons, hadd, ← whole_change op unit hnodup hkey, ← hchange]
    exact hrest

end whole

end Store.Buckets
