import Mathlib.Tactic.Common

/-! Tables with an auto-increment key. No row has key 0, and every row's key lies
below the next key to be given, so a scan of the table is a scan of finitely many
keys. -/

namespace Store

structure Table (α : Type) where
  get : Nat → Option α
  nextId : Nat
  pos : 0 < nextId
  zero : get 0 = none
  absent : ∀ id, nextId ≤ id → get id = none

namespace Table

variable {α : Type}

/-- The first key is 1. -/
def empty : Table α := ⟨fun _ => none, 1, Nat.one_pos, rfl, fun _ _ => rfl⟩

/-- Adds a row under the next key; the row is built from its key. -/
def insert (t : Table α) (row : Nat → α) : Table α where
  get id := if id = t.nextId then some (row t.nextId) else t.get id
  nextId := t.nextId + 1
  pos := Nat.succ_pos _
  zero := by simpa [Nat.ne_of_lt t.pos] using t.zero
  absent id h := by
    have hne : id ≠ t.nextId := by omega
    simpa [hne] using t.absent id (by omega)

/-- The rows of a list, under the keys 1, 2, … -/
def ofList (rows : List (Nat → α)) : Table α := rows.foldl insert empty

def modify (t : Table α) (id : Nat) (f : α → α) : Table α where
  get j := if j = id then (t.get id).map f else t.get j
  nextId := t.nextId
  pos := t.pos
  zero := by
    by_cases h : 0 = id
    · subst h
      simp [t.zero]
    · simpa [h] using t.zero
  absent j h := by
    by_cases hj : j = id
    · subst hj
      simp [t.absent j h]
    · simpa [hj] using t.absent j h

def remove (t : Table α) (id : Nat) : Table α where
  get j := if j = id then none else t.get j
  nextId := t.nextId
  pos := t.pos
  zero := by
    by_cases h : 0 = id
    · simp [h]
    · simpa [h] using t.zero
  absent j h := by
    by_cases hj : j = id
    · simp [hj]
    · simpa [hj] using t.absent j h

/-- An update of every row. -/
def map (t : Table α) (f : α → α) : Table α where
  get j := (t.get j).map f
  nextId := t.nextId
  pos := t.pos
  zero := by simp [t.zero]
  absent j h := by simp [t.absent j h]

/-- An update of the rows that satisfy the test. -/
def updateAll (t : Table α) (p : Nat → α → Bool) (set : α → α) : Table α where
  get j := (t.get j).map fun row => if p j row then set row else row
  nextId := t.nextId
  pos := t.pos
  zero := by simp [t.zero]
  absent j h := by simp [t.absent j h]

/-- A guarded update of one row, and whether it matched. -/
def updateWhere (t : Table α) (id : Nat) (guard : α → Bool) (set : α → α) : Table α × Bool :=
  match t.get id with
  | some row => if guard row then (t.modify id set, true) else (t, false)
  | none => (t, false)

/-- Some row satisfies the test, which may look at the key. -/
def any (t : Table α) (p : Nat → α → Bool) : Bool :=
  (List.range t.nextId).any fun id => (t.get id).any (p id)

/-- The first row that satisfies the test. -/
def findId (t : Table α) (p : α → Bool) : Option Nat := (List.range t.nextId).find? fun id => (t.get id).any p

def filter (t : Table α) (p : Nat → α → Bool) : List α :=
  (List.range t.nextId).filterMap fun id => (t.get id).filter (p id)

/-- The rows that satisfy the test with their keys, in their order. -/
def entries (t : Table α) (p : Nat → α → Bool) : List (Nat × α) :=
  (List.range t.nextId).filterMap fun id => ((t.get id).filter (p id)).map (id, ·)

/-- Deletes the rows that satisfy the test. -/
def removeAll (t : Table α) (p : Nat → α → Bool) : Table α where
  get id := (t.get id).filter fun row => !p id row
  nextId := t.nextId
  pos := t.pos
  zero := by simp [t.zero]
  absent id h := by simp [t.absent id h]

@[simp] theorem get_insert (t : Table α) (row : Nat → α) (id : Nat) :
    (t.insert row).get id = if id = t.nextId then some (row t.nextId) else t.get id := rfl

@[simp] theorem get_modify (t : Table α) (id j : Nat) (f : α → α) :
    (t.modify id f).get j = if j = id then (t.get id).map f else t.get j := rfl

@[simp] theorem get_remove (t : Table α) (id j : Nat) :
    (t.remove id).get j = if j = id then none else t.get j := rfl

@[simp] theorem get_map (t : Table α) (f : α → α) (j : Nat) : (t.map f).get j = (t.get j).map f := rfl

@[simp] theorem get_updateAll (t : Table α) (p : Nat → α → Bool) (set : α → α) (j : Nat) :
    (t.updateAll p set).get j = (t.get j).map fun row => if p j row then set row else row := rfl

theorem get_nextId (t : Table α) : t.get t.nextId = none := t.absent _ (Nat.le_refl _)

theorem lt_nextId {t : Table α} {id : Nat} {row : α} (h : t.get id = some row) :
    id < t.nextId := by
  by_contra hlt
  rw [t.absent id (by omega)] at h
  cases h

theorem any_eq_true (t : Table α) (p : Nat → α → Bool) :
    t.any p = true ↔ ∃ id row, t.get id = some row ∧ p id row = true := by
  simp only [any, List.any_eq_true, List.mem_range, Option.any_eq_true_iff_get]
  constructor
  · rintro ⟨id, _, hs, hp⟩
    exact ⟨id, (t.get id).get hs, by simp, hp⟩
  · rintro ⟨id, row, hr, hp⟩
    exact ⟨id, lt_nextId hr, by simp [hr], by simpa [hr] using hp⟩

theorem any_eq_false (t : Table α) (p : Nat → α → Bool) :
    t.any p = false ↔ ∀ id row, t.get id = some row → p id row = false := by
  rw [← Bool.not_eq_true, any_eq_true]
  simp

@[simp] theorem any_insert (t : Table α) (row : Nat → α) (p : Nat → α → Bool) :
    (t.insert row).any p = (t.any p || p t.nextId (row t.nextId)) := by
  rw [Bool.eq_iff_iff, Bool.or_eq_true, any_eq_true, any_eq_true]
  constructor
  · rintro ⟨id, key, hget, hp⟩
    by_cases hid : id = t.nextId
    · subst hid
      have hkey : some (row t.nextId) = some key := (if_pos rfl).symm.trans hget
      cases hkey
      exact .inr hp
    · exact .inl ⟨id, key, (if_neg hid).symm.trans hget, hp⟩
  · rintro (⟨id, key, hget, hp⟩ | hp)
    · exact ⟨id, key, (if_neg (Nat.ne_of_lt (lt_nextId hget))).trans hget, hp⟩
    · exact ⟨t.nextId, row t.nextId, if_pos rfl, hp⟩

theorem mem_filter (t : Table α) (p : Nat → α → Bool) (row : α) :
    row ∈ t.filter p ↔ ∃ id, t.get id = some row ∧ p id row = true := by
  simp only [filter, List.mem_filterMap, List.mem_range, Option.filter_eq_some_iff]
  constructor
  · rintro ⟨id, _, hr, hp⟩
    exact ⟨id, hr, hp⟩
  · rintro ⟨id, hr, hp⟩
    exact ⟨id, lt_nextId hr, hr, hp⟩

theorem mem_entries {t : Table α} {p : Nat → α → Bool} {e : Nat × α} :
    e ∈ t.entries p ↔ t.get e.1 = some e.2 ∧ p e.1 e.2 = true := by
  simp only [entries, List.mem_filterMap, List.mem_range, Option.map_eq_some_iff, Option.filter_eq_some_iff]
  constructor
  · rintro ⟨id, _, row, ⟨hr, hp⟩, rfl⟩
    exact ⟨hr, hp⟩
  · rintro ⟨hr, hp⟩
    exact ⟨e.1, lt_nextId hr, e.2, ⟨hr, hp⟩, rfl⟩

/-- A scan comes by no key twice. -/
theorem entries_pairwise (t : Table α) (p : Nat → α → Bool) : (t.entries p).Pairwise (·.1 < ·.1) := by
  refine List.Pairwise.filterMap _ ?_ List.pairwise_lt_range
  intro i j hij a ha b hb
  obtain ⟨_, _, rfl⟩ := Option.map_eq_some_iff.mp ha
  obtain ⟨_, _, rfl⟩ := Option.map_eq_some_iff.mp hb
  exact hij

section updateWhere

variable (t : Table α) (id : Nat) (guard : α → Bool) (set : α → α)

theorem updateWhere_snd :
    (t.updateWhere id guard set).2 = true ↔ ∃ row, t.get id = some row ∧ guard row = true := by
  unfold updateWhere
  cases h : t.get id with
  | none => simp
  | some row => by_cases hg : guard row <;> simp [hg]

@[simp] theorem updateWhere_nextId : (t.updateWhere id guard set).1.nextId = t.nextId := by
  unfold updateWhere
  split
  · split <;> rfl
  · rfl

/-- The row afterwards: changed when the guard held, else as it was. -/
theorem get_updateWhere (j : Nat) :
    (t.updateWhere id guard set).1.get j =
      if j = id then (t.get id).map fun row => if guard row then set row else row
      else t.get j := by
  unfold updateWhere
  cases h : t.get id with
  | none =>
    by_cases hj : j = id
    · subst hj; simp [h]
    · simp [hj]
  | some row =>
    by_cases hg : guard row <;> by_cases hj : j = id <;> simp [hg, hj, h]

end updateWhere

end Table

end Store
