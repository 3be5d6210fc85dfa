import Mathlib.Data.List.Basic
import Callio.Store.Table

/-! Tables on their way to what they are to become: each row is still as it was or already as it
will be. -/

namespace Store.Table

variable {α : Type} {t u v goal : Table α}

/-- Each row of `u` is as in `t` or as in `goal`. -/
def Between (t goal u : Table α) : Prop := ∀ id, u.get id = t.get id ∨ u.get id = goal.get id

theorem Between.refl (t goal : Table α) : Between t goal t := fun _ => .inl rfl

theorem Between.trans (h : Between t goal u) (h' : Between u goal v) : Between t goal v := fun id =>
  (h' id).elim (fun heq => (h id).imp heq.trans heq.trans) .inr

theorem eq_of_get (hget : ∀ id, t.get id = u.get id) (hnext : t.nextId = u.nextId) : t = u := by
  obtain ⟨get, nextId, pos, zero, absent⟩ := t
  obtain ⟨get', nextId', pos', zero', absent'⟩ := u
  obtain rfl : get = get' := funext hget
  obtain rfl : nextId = nextId' := hnext
  rfl

section removeAll

variable {p q : Nat → α → Bool}

@[simp] theorem get_removeAll (t : Table α) (p : Nat → α → Bool) (id : Nat) :
    (t.removeAll p).get id = (t.get id).filter fun row => !p id row := rfl

/-- Some of the rows to be deleted are. -/
theorem between_removeAll (h : ∀ id row, t.get id = some row → p id row = true → q id row = true) :
    Between t (t.removeAll q) (t.removeAll p) := by
  intro id
  rw [get_removeAll, get_removeAll]
  cases hrow : t.get id with
  | none => exact .inl rfl
  | some row =>
    cases hp : p id row with
    | false => simp [Option.filter_some, hp]
    | true => simp [Option.filter_some, hp, h id row hrow hp]

theorem removeAll_removeAll (h : ∀ id row, t.get id = some row → p id row = true → q id row = true) :
    (t.removeAll p).removeAll q = t.removeAll q := by
  refine eq_of_get (fun id => ?_) rfl
  rw [get_removeAll, get_removeAll, get_removeAll]
  cases hrow : t.get id with
  | none => rfl
  | some row =>
    cases hp : p id row with
    | false => simp [Option.filter_some, hp]
    | true => simp [Option.filter_some, hp, h id row hrow hp]

theorem removeAll_congr (h : ∀ id row, t.get id = some row → p id row = q id row) :
    t.removeAll p = t.removeAll q := by
  refine eq_of_get (fun id => ?_) rfl
  rw [get_removeAll, get_removeAll]
  cases hrow : t.get id with
  | none => rfl
  | some row => simp [Option.filter_some, h id row hrow]

theorem any_congr (h : ∀ id row, t.get id = some row → p id row = q id row) : t.any p = t.any q := by
  rw [Bool.eq_iff_iff, any_eq_true, any_eq_true]
  constructor
  · rintro ⟨id, row, hrow, hp⟩
    exact ⟨id, row, hrow, (h id row hrow) ▸ hp⟩
  · rintro ⟨id, row, hrow, hq⟩
    exact ⟨id, row, hrow, (h id row hrow).trans hq⟩

theorem removeAll_of_none (h : ∀ id row, t.get id = some row → p id row = false) : t.removeAll p = t := by
  refine eq_of_get (fun id => ?_) rfl
  rw [get_removeAll]
  cases hrow : t.get id with
  | none => rfl
  | some row => simp [h id row hrow]

/-- A scan after deletions. -/
theorem entries_removeAll (t : Table α) (p q : Nat → α → Bool) :
    (t.removeAll p).entries q = (t.entries q).filter fun e => !p e.1 e.2 := by
  unfold entries
  rw [List.filter_filterMap]
  refine List.filterMap_congr fun id _ => ?_
  rw [get_removeAll]
  cases t.get id with
  | none => rfl
  | some row => cases hp : p id row <;> cases hq : q id row <;> simp [Option.filter_some, hp, hq]

theorem entries_and (t : Table α) (p q : Nat → α → Bool) :
    (t.entries fun id row => p id row && q id row) = (t.entries p).filter fun e => q e.1 e.2 := by
  unfold entries
  rw [List.filter_filterMap]
  refine List.filterMap_congr fun id _ => ?_
  cases t.get id with
  | none => rfl
  | some row => cases hp : p id row <;> cases hq : q id row <;> simp [Option.filter_some, hp, hq]

theorem entries_congr (h : ∀ id row, t.get id = some row → p id row = q id row) : t.entries p = t.entries q := by
  unfold entries
  refine List.filterMap_congr fun id _ => ?_
  cases hrow : t.get id with
  | none => rfl
  | some row => simp [Option.filter_some, h id row hrow]

end removeAll

section updateAll

variable {p q : Nat → α → Bool} {set : α → α}

theorem updateAll_of_none (h : ∀ id row, t.get id = some row → p id row = true → set row = row) :
    t.updateAll p set = t := by
  refine eq_of_get (fun id => ?_) rfl
  rw [get_updateAll]
  cases hrow : t.get id with
  | none => rfl
  | some row =>
    cases hp : p id row with
    | false => simp [hp]
    | true => simp [hp, h id row hrow hp]

/-- Some of the rows to be updated are. -/
theorem between_updateAll (h : ∀ id row, t.get id = some row → p id row = true → q id row = true) :
    Between t (t.updateAll q set) (t.updateAll p set) := by
  intro id
  rw [get_updateAll, get_updateAll]
  cases hrow : t.get id with
  | none => exact .inl rfl
  | some row =>
    cases hp : p id row with
    | false => simp [hp]
    | true => simp [hp, h id row hrow hp]

theorem updateAll_congr (h : ∀ id row, t.get id = some row → p id row = q id row ∨ set row = row) :
    t.updateAll p set = t.updateAll q set := by
  refine eq_of_get (fun id => ?_) rfl
  rw [get_updateAll, get_updateAll]
  cases hrow : t.get id with
  | none => rfl
  | some row =>
    rcases h id row hrow with heq | heq
    · simp [heq]
    · simp [heq]

theorem updateAll_updateAll (h : ∀ id row, t.get id = some row → p id row = true → q id row = true)
    (hset : ∀ row, set (set row) = set row) :
    (t.updateAll p set).updateAll q set = t.updateAll q set := by
  refine eq_of_get (fun id => ?_) rfl
  rw [get_updateAll, get_updateAll, get_updateAll]
  cases hrow : t.get id with
  | none => rfl
  | some row =>
    cases hp : p id row with
    | false => simp [hp]
    | true => cases hq : q id (set row) <;> simp [hp, hq, hset, h id row hrow hp]

/-- A scan after an update that takes its rows out of it. -/
theorem entries_updateAll (t : Table α) (p q : Nat → α → Bool) (set : α → α)
    (hset : ∀ id row, p id row = true → q id (set row) = false) :
    (t.updateAll p set).entries q = (t.entries q).filter fun e => !p e.1 e.2 := by
  unfold entries
  rw [List.filter_filterMap]
  refine List.filterMap_congr fun id _ => ?_
  rw [get_updateAll]
  cases t.get id with
  | none => rfl
  | some row =>
    cases hp : p id row with
    | true => cases hq : q id row <;> simp [Option.filter_some, hp, hq, hset id row hp]
    | false => cases hq : q id row <;> simp [Option.filter_some, hp, hq]

/-- A scan for other rows. -/
theorem filter_updateAll (t : Table α) (h : ∀ id row, p id row = true → q id row = false ∧ q id (set row) = false) :
    (t.updateAll p set).filter q = t.filter q := by
  unfold filter
  refine List.filterMap_congr fun id _ => ?_
  rw [get_updateAll]
  cases t.get id with
  | none => rfl
  | some row =>
    cases hp : p id row with
    | true => simp [Option.filter_some, hp, h id row hp]
    | false => simp [hp]

end updateAll

end Store.Table
