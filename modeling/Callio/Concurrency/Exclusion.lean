import Mathlib.Logic.Function.Basic
import Mathlib.Tactic.Common

/-! Exclusion: at most one thread is in a kind of phase. It survives a move if
whoever comes to such a phase was in one, or finds nobody in one. -/

namespace Concurrency

variable {ι α : Type} {p : α → Prop} {f : ι → α}

def AtMostOne (p : α → Prop) (f : ι → α) : Prop := ∀ i j, p (f i) → p (f j) → i = j

theorem AtMostOne.of_none (h : ∀ i, ¬ p (f i)) : AtMostOne p f := fun i _ hi => absurd hi (h i)

theorem AtMostOne.eq (h : AtMostOne p f) {i j : ι} (hi : p (f i)) (hj : p (f j)) : f j = f i := by
  rw [h i j hi hj]

variable [DecidableEq ι]

section update

variable {β : Type} {g : α → β} {b : β} {i : ι} {a : α}

/-- Someone is in such a phase still, if the mover stays in one. -/
theorem exists_update (h : ∃ j, g (f j) = b) (ha : g (f i) = b → g a = b) :
    ∃ j, g (Function.update f i a j) = b := by
  obtain ⟨j, hj⟩ := h
  refine ⟨j, ?_⟩
  by_cases hji : j = i
  · subst hji
    rw [Function.update_self]
    exact ha hj
  · rwa [Function.update_of_ne hji]

/-- Whoever is in such a phase came to it now, or was in one. -/
theorem of_update {j : ι} (h : g (Function.update f i a j) = b) :
    g a = b ∧ j = i ∨ g (f j) = b ∧ j ≠ i := by
  by_cases hji : j = i
  · subst hji
    rw [Function.update_self] at h
    exact .inl ⟨h, rfl⟩
  · rw [Function.update_of_ne hji] at h
    exact .inr ⟨h, hji⟩

end update

theorem AtMostOne.update (h : AtMostOne p f) {i : ι} {a : α}
    (ha : p a → p (f i) ∨ ∀ j, ¬ p (f j)) : AtMostOne p (Function.update f i a) := by
  have hone : ∀ j, p (Function.update f i a j) → p a → j = i := by
    intro j hj hpa
    by_contra hji
    rw [Function.update_of_ne hji] at hj
    rcases ha hpa with hi | hnone
    · exact hji (h j i hj hi)
    · exact hnone j hj
  intro j k hj hk
  by_cases hji : j = i
  · subst hji
    rw [Function.update_self] at hj
    exact (hone k hk hj).symm
  · by_cases hki : k = i
    · subst hki
      rw [Function.update_self] at hk
      exact hone j hj hk
    · rw [Function.update_of_ne hji] at hj
      rw [Function.update_of_ne hki] at hk
      exact h j k hj hk

end Concurrency
