import Mathlib.Data.Finset.Card
import Mathlib.Data.Finset.Range
import Mathlib.Order.Basic
import Callio.Store.Table

/-! Ordered scans with a limit, made again and again. Each takes the first rows and
removes those that it can; the others stay in its way, and once as many as the limit
stand first, nothing behind them is ever seen. -/

namespace Store

section scan

variable {α : Type} (removable : α → Bool)

/-- What scans leave that look past `room` rows at most. -/
def leftBy : Nat → List α → List α
  | 0, xs => xs
  | _ + 1, [] => []
  | room + 1, x :: xs => if removable x then leftBy (room + 1) xs else x :: leftBy room xs

variable {removable}

@[simp] theorem leftBy_zero (xs : List α) : leftBy removable 0 xs = xs := by
  cases xs <;> rfl

@[simp] theorem leftBy_nil (room : Nat) : leftBy removable room [] = [] := by
  cases room <;> rfl

theorem leftBy_cons (room : Nat) (x : α) (xs : List α) :
    leftBy removable (room + 1) (x :: xs) =
      if removable x then leftBy removable (room + 1) xs else x :: leftBy removable room xs := rfl

theorem leftBy_sublist (room : Nat) (xs : List α) : (leftBy removable room xs).Sublist xs := by
  induction xs generalizing room with
  | nil => rw [leftBy_nil]
  | cons x xs ih =>
    cases room with
    | zero => exact List.Sublist.refl _
    | succ room =>
      rw [leftBy_cons]
      split
      · exact (ih (room + 1)).cons x
      · exact (ih room).cons_cons x

/-- One scan does not change what is left in the end. -/
theorem leftBy_pass {xs : List α} {limit room : Nat} (h : limit ≤ room) :
    leftBy removable room ((xs.take limit).filter (!removable ·) ++ xs.drop limit) = leftBy removable room xs := by
  induction xs generalizing limit room with
  | nil => simp
  | cons x xs ih =>
    cases limit with
    | zero => rfl
    | succ limit =>
      obtain ⟨room, rfl⟩ : ∃ r, room = r + 1 := ⟨room - 1, by omega⟩
      have hle : limit ≤ room := Nat.le_of_succ_le_succ h
      cases hx : removable x with
      | true =>
        simp only [List.take_succ_cons, List.drop_succ_cons, List.filter_cons, hx, Bool.not_true, Bool.false_eq_true,
          if_false, leftBy_cons, if_true]
        exact ih (Nat.le_succ_of_le hle)
      | false =>
        simp only [List.take_succ_cons, List.drop_succ_cons, List.filter_cons, hx, Bool.not_false, if_true,
          List.cons_append, leftBy_cons, Bool.false_eq_true, if_false]
        rw [ih hle]

/-- When no row of the scan can be removed, all are left. -/
theorem leftBy_of_stuck {xs : List α} {room : Nat} (h : ∀ x ∈ xs.take room, removable x = false) :
    leftBy removable room xs = xs := by
  induction xs generalizing room with
  | nil => exact leftBy_nil room
  | cons x xs ih =>
    cases room with
    | zero => rfl
    | succ room =>
      rw [List.take_succ_cons, List.forall_mem_cons] at h
      rw [leftBy_cons, if_neg (by simp [h.1]), ih h.2]

/-- Rows before the first that stays are removed. -/
theorem leftBy_append {xs ys : List α} {room : Nat} (h : ∀ x ∈ xs, removable x = true) :
    leftBy removable (room + 1) (xs ++ ys) = leftBy removable (room + 1) ys := by
  induction xs with
  | nil => rfl
  | cons x xs ih =>
    rw [List.forall_mem_cons] at h
    rw [List.cons_append, leftBy_cons, if_pos h.1]
    exact ih h.2

/-- A removable row is left if `room` rows that stay come before it. -/
theorem mem_leftBy_iff {κ : Type} [LinearOrder κ] {key : α → κ} {xs : List α} (hxs : xs.Pairwise (key · < key ·))
    {x : α} (hx : x ∈ xs) (hremovable : removable x = true) (room : Nat) :
    x ∈ leftBy removable room xs ↔ room ≤ xs.countP fun y => key y < key x && !removable y := by
  induction xs generalizing room with
  | nil => cases hx
  | cons y ys ih =>
    rw [List.pairwise_cons] at hxs
    cases room with
    | zero => exact iff_of_true hx (Nat.zero_le _)
    | succ room =>
      rcases List.mem_cons.mp hx with rfl | hmem
      · have hnone : (x :: ys).countP (fun y => key y < key x && !removable y) = 0 := by
          rw [List.countP_eq_zero]
          intro z hz
          rcases List.mem_cons.mp hz with rfl | hz
          · simp
          · simp [not_lt_of_gt (hxs.1 z hz)]
        rw [hnone, leftBy_cons, if_pos hremovable]
        refine iff_of_false (fun hleft => ?_) (by omega)
        exact lt_irrefl _ (hxs.1 x ((leftBy_sublist _ _).subset hleft))
      · have hlt : key y < key x := hxs.1 x hmem
        cases hy : removable y with
        | true =>
          rw [leftBy_cons, if_pos hy, ih hxs.2 hmem, List.countP_cons_of_neg (by simp [hy])]
        | false =>
          have hne : x ≠ y := by
            rintro rfl
            rw [hremovable] at hy
            cases hy
          rw [leftBy_cons, if_neg (by simp [hy]), List.mem_cons, or_iff_right hne, ih hxs.2 hmem,
            List.countP_cons_of_pos (by simp [hy, hlt]), Nat.add_le_add_iff_right]

section keys

variable {κ : Type} [DecidableEq κ] {key : α → κ} {xs ys : List α}

/-- Rows told apart by their keys: those in front, taken away. -/
theorem filter_key_append (h : ((xs ++ ys).map key).Nodup) :
    ((xs ++ ys).filter fun x => key x ∉ xs.map key) = ys := by
  rw [List.map_append, List.nodup_append] at h
  rw [List.filter_append, List.filter_eq_nil_iff.mpr, List.filter_eq_self.mpr, List.nil_append]
  · intro y hy
    refine decide_eq_true fun hmem => ?_
    exact h.2.2 _ hmem _ (List.mem_map_of_mem hy) rfl
  · intro x hx
    simp only [List.mem_map_of_mem hx, not_true_eq_false, decide_false, Bool.false_eq_true, not_false_eq_true]

/-- Some of those in front, taken away. -/
theorem filter_key_filter_append (h : ((xs ++ ys).map key).Nodup) (p : α → Bool) :
    ((xs ++ ys).filter fun x => key x ∉ (xs.filter p).map key) = xs.filter (!p ·) ++ ys := by
  have hinj := List.inj_on_of_nodup_map h
  rw [List.map_append, List.nodup_append] at h
  have hfront : (xs.filter fun x => key x ∉ (xs.filter p).map key) = xs.filter (!p ·) := by
    refine List.filter_congr fun x hx => ?_
    cases hp : p x with
    | true => exact decide_eq_false (not_not_intro (List.mem_map_of_mem (List.mem_filter.mpr ⟨hx, hp⟩)))
    | false =>
      refine decide_eq_true fun hmem => ?_
      obtain ⟨y, hy, heq⟩ := List.mem_map.mp hmem
      rw [List.mem_filter] at hy
      rw [hinj (List.mem_append_left _ hy.1) (List.mem_append_left _ hx) heq, hp] at hy
      exact Bool.noConfusion hy.2
  have hback : (ys.filter fun x => key x ∉ (xs.filter p).map key) = ys := by
    refine List.filter_eq_self.mpr fun y hy => decide_eq_true fun hmem => ?_
    obtain ⟨x, hx, heq⟩ := List.mem_map.mp hmem
    exact h.2.2 _ (List.mem_map_of_mem (List.mem_of_mem_filter hx)) _ (List.mem_map_of_mem hy) heq
  rw [List.filter_append, hfront, hback]

end keys

end scan

/-! ## How many rows a table has -/

section count

variable {α : Type}

def Table.count (t : Table α) (p : Nat → α → Bool) : Nat :=
  ((Finset.range t.nextId).filter fun id => (t.get id).any (p id)).card

theorem Table.count_le (t : Table α) (p : Nat → α → Bool) : t.count p ≤ t.nextId :=
  (Finset.card_filter_le _ _).trans (Finset.card_range _).le

/-- Rows only stop satisfying the test, and one does. -/
theorem Table.count_lt {t u : Table α} {p : Nat → α → Bool} (hnext : u.nextId = t.nextId)
    (hsub : ∀ id, (u.get id).any (p id) = true → (t.get id).any (p id) = true) {id : Nat}
    (hid : (t.get id).any (p id) = true) (hgone : (u.get id).any (p id) = false) : u.count p < t.count p := by
  have hlt : id < t.nextId := by
    obtain ⟨row, hrow, _⟩ := (Option.any_eq_true _ _).mp hid
    exact Table.lt_nextId hrow
  refine Finset.card_lt_card (Finset.ssubset_iff_of_subset ?_ |>.mpr ⟨id, ?_, ?_⟩)
  · intro j hj
    rw [Finset.mem_filter, Finset.mem_range] at hj ⊢
    exact ⟨hnext ▸ hj.1, hsub j hj.2⟩
  · rw [Finset.mem_filter, Finset.mem_range]
    exact ⟨hlt, hid⟩
  · rw [Finset.mem_filter, hgone]
    exact fun h => Bool.noConfusion h.2

end count

end Store
