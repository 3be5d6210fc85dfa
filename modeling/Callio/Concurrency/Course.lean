import Callio.Concurrency.Fallible

/-! Programs that go part of the way to what a state is to become. One that is stopped there leaves a state
from where the next goes on to the same. -/

namespace Concurrency

/-- What a state is to become, and what lies between. -/
structure Course (σ : Type) where
  goal : σ → σ
  Between : σ → σ → σ → Prop
  refl : ∀ s g, Between s g s
  trans : ∀ {s g s' s''}, Between s g s' → Between s' g s'' → Between s g s''

namespace Course

variable {σ α β : Type} {c : Course σ}

structure Partway (c : Course σ) (s s' : σ) : Prop where
  between : c.Between s (c.goal s) s'
  same : c.goal s' = c.goal s

theorem Partway.refl (c : Course σ) (s : σ) : c.Partway s s := ⟨c.refl _ _, rfl⟩

theorem Partway.trans {s s' s'' : σ} (h : c.Partway s s') (h' : c.Partway s' s'') : c.Partway s s'' :=
  ⟨c.trans h.between (h.same ▸ h'.between), h'.same.trans h.same⟩

/-- A run went part of the way; the faults that are left are still to come. -/
structure Advances (c : Course σ) (w w' : Faulty σ) : Prop where
  partway : c.Partway w.state w'.state
  faults : w'.faults <:+ w.faults

namespace Advances

variable {w w' w'' : Faulty σ}

theorem refl (c : Course σ) (w : Faulty σ) : c.Advances w w := ⟨.refl c _, List.suffix_refl _⟩

theorem trans (h : c.Advances w w') (h' : c.Advances w' w'') : c.Advances w w'' :=
  ⟨h.partway.trans h'.partway, h'.faults.trans h.faults⟩

theorem failed (h : c.Advances w w') (hfault : true ∈ w'.faults) : true ∈ w.faults := h.faults.subset hfault

end Advances

theorem mem_of_headD {faults : List Bool} (h : faults.headD false = true) : true ∈ faults := by
  cases faults with
  | nil => cases h
  | cons fault faults => exact List.mem_cons.mpr (.inl h.symm)

/-- The program goes on its course, and returns as `R` says or is stopped by a fault. -/
def Heads (c : Course σ) (m : Fallible σ α) (w : Faulty σ) (R : α → σ → Prop) : Prop :=
  m.Ends w (fun a w' => c.Advances w w' ∧ R a w'.state) fun w' => c.Advances w w' ∧ true ∈ w.faults

namespace Heads

variable {m : Fallible σ α} {w : Faulty σ} {R R' : α → σ → Prop}

theorem mono (h : c.Heads m w R) (hR : ∀ a s, R a s → R' a s) : c.Heads m w R' :=
  Fallible.Ends.mono h (fun a w' hw' => ⟨hw'.1, hR a w'.state hw'.2⟩) fun _ hw' => hw'

theorem pure {a : α} (h : R a w.state) : c.Heads (Pure.pure a) w R := ⟨.refl c w, h⟩

theorem bind {f : α → Fallible σ β} {R' : β → σ → Prop} (h : c.Heads m w R)
    (hf : ∀ a w', c.Advances w w' → R a w'.state → c.Heads (f a) w' R') : c.Heads (m >>= f) w R' := by
  refine (Fallible.ends_bind f).mpr (Fallible.Ends.mono h (fun a w' hw' => ?_) fun _ hw' => hw')
  refine Fallible.Ends.mono (hf a w' hw'.1 hw'.2) (fun _ _ hw'' => ?_) fun _ hw'' => ?_
  · exact ⟨hw'.1.trans hw''.1, hw''.2⟩
  · exact ⟨hw'.1.trans hw''.1, hw'.1.failed hw''.2⟩

theorem command {effect : σ → σ × α} (h : c.Partway w.state (effect w.state).1) :
    c.Heads (Fallible.command effect) w fun a s => a = (effect w.state).2 ∧ s = (effect w.state).1 :=
  (Fallible.ends_command effect).mpr ⟨fun hfault => ⟨⟨.refl c _, List.tail_suffix _⟩, mem_of_headD hfault⟩,
    fun _ => ⟨⟨h, List.tail_suffix _⟩, rfl, rfl⟩⟩

end Heads

/-- Where a run leaves the state, whether it returns or not. -/
def leaves (m : Fallible σ α) (w : Faulty σ) : σ :=
  match m w with
  | .ok _ w' => w'.state
  | .error _ w' => w'.state

/-- The same of runs one after the other, each with its own faults. -/
def after (s : σ) : List (Fallible σ α × List Bool) → σ
  | [] => s
  | run :: runs => after (leaves run.1 ⟨s, run.2⟩) runs

theorem Heads.partway {m : Fallible σ α} {w : Faulty σ} {R : α → σ → Prop} (h : c.Heads m w R) :
    c.Partway w.state (leaves m w) := by
  unfold Heads Fallible.Ends at h
  unfold leaves
  cases heq : m w with
  | ok a w' =>
    rw [heq] at h
    exact h.1.partway
  | error e w' =>
    rw [heq] at h
    exact h.1.partway

theorem partway_after {runs : List (Fallible σ α × List Bool)}
    (h : ∀ run ∈ runs, ∀ w, ∃ R, c.Heads run.1 w R) (s : σ) : c.Partway s (after s runs) := by
  induction runs generalizing s with
  | nil => exact .refl c s
  | cons run runs ih =>
    rw [List.forall_mem_cons] at h
    obtain ⟨R, hrun⟩ := h.1 ⟨s, run.2⟩
    exact hrun.partway.trans (ih h.2 _)

end Course

end Concurrency
