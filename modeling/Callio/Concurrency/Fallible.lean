import Mathlib.Logic.Basic

/-! Sequential programs over a state whose commands may fail. A failed command does nothing and
throws; what was done before it stays done. Which of the commands to come fail is a list of its
own, so that a run is a function of it. -/

namespace Concurrency

/-- The state, and for each command to come whether it fails; none does after the list's end. -/
structure Faulty (σ : Type) where
  state : σ
  faults : List Bool := []

abbrev Fallible (σ α : Type) := EStateM Unit (Faulty σ) α

namespace Fallible

variable {σ α β : Type}

def command (effect : σ → σ × α) : Fallible σ α := fun w =>
  if w.faults.headD false then .error () ⟨w.state, w.faults.tail⟩
  else .ok (effect w.state).2 ⟨(effect w.state).1, w.faults.tail⟩

def read (f : σ → α) : Fallible σ α := fun w => .ok (f w.state) w

def change (f : σ → σ) : Fallible σ Unit := fun w => .ok () ⟨f w.state, w.faults⟩

/-- The failure is noted and the program goes on. -/
def caught (m : Fallible σ Unit) : Fallible σ Unit := fun w =>
  match m w with
  | .ok a w' => .ok a w'
  | .error _ w' => .ok () w'

/-- Whether it went through. -/
def tried (m : Fallible σ Unit) : Fallible σ Bool := fun w =>
  match m w with
  | .ok _ w' => .ok true w'
  | .error _ w' => .ok false w'

/-- The failure is thrown on once `cleanup` is through. -/
def onFailure (m : Fallible σ α) (cleanup : Fallible σ Unit) : Fallible σ α := fun w =>
  match m w with
  | .ok a w' => .ok a w'
  | .error _ w' =>
    match cleanup w' with
    | .ok _ w'' | .error _ w'' => .error () w''

/-! ## What a program does -/

/-- It returns as `Q` says or throws as `E` says. -/
def Ends (m : Fallible σ α) (w : Faulty σ) (Q : α → Faulty σ → Prop) (E : Faulty σ → Prop) : Prop :=
  match m w with
  | .ok a w' => Q a w'
  | .error _ w' => E w'

variable {m : Fallible σ α} {w : Faulty σ} {Q Q' : α → Faulty σ → Prop} {E E' : Faulty σ → Prop}

theorem Ends.mono (h : m.Ends w Q E) (hQ : ∀ a w', Q a w' → Q' a w') (hE : ∀ w', E w' → E' w') :
    m.Ends w Q' E' := by
  unfold Ends at *
  split at h
  · exact hQ _ _ h
  · exact hE _ h

/-- What is known of one run in two ways is known of it in one. -/
theorem Ends.and (h : m.Ends w Q E) (h' : m.Ends w Q' E') :
    m.Ends w (fun a w' => Q a w' ∧ Q' a w') fun w' => E w' ∧ E' w' := by
  unfold Ends at *
  split at h
  · rename_i heq
    rw [heq] at h'
    exact ⟨h, h'⟩
  · rename_i heq
    rw [heq] at h'
    exact ⟨h, h'⟩

/-- It ends in one way or the other. -/
theorem Ends.elim {P : Prop} (h : m.Ends w Q E) (hQ : ∀ a w', Q a w' → P) (hE : ∀ w', E w' → P) : P := by
  unfold Ends at h
  split at h
  · exact hQ _ _ h
  · exact hE _ h

@[simp] theorem ends_pure (a : α) : Ends (pure a) w Q E ↔ Q a w := Iff.rfl

@[simp] theorem ends_bind (f : α → Fallible σ β) {Q : β → Faulty σ → Prop} :
    Ends (m >>= f) w Q E ↔ m.Ends w (fun a w' => (f a).Ends w' Q E) E := by
  show (match (EStateM.bind m f) w with | .ok a w' => Q a w' | .error _ w' => E w') ↔ _
  unfold EStateM.bind Ends
  cases m w <;> rfl

theorem Ends.bind_return {b : β} {Q' : β → Faulty σ → Prop} (h : m.Ends w Q E)
    (hQ : ∀ a w', Q a w' → Q' b w') (hE : ∀ w', E w' → E' w') :
    Ends (do let _ ← m; return b) w Q' E' :=
  (ends_bind _).mpr (h.mono hQ hE)

@[simp] theorem ends_read (f : σ → α) : Ends (read f) w Q E ↔ Q (f w.state) w := Iff.rfl

@[simp] theorem ends_change (f : σ → σ) {Q : Unit → Faulty σ → Prop} :
    Ends (change f) w Q E ↔ Q () ⟨f w.state, w.faults⟩ := Iff.rfl

theorem ends_command (effect : σ → σ × α) :
    Ends (command effect) w Q E ↔
      (w.faults.headD false = true → E ⟨w.state, w.faults.tail⟩) ∧
      (w.faults.headD false = false → Q (effect w.state).2 ⟨(effect w.state).1, w.faults.tail⟩) := by
  unfold Ends command
  cases h : w.faults.headD false <;> simp

/-- No command is left to fail. -/
@[simp] theorem ends_command_nil (effect : σ → σ × α) (s : σ) :
    Ends (command effect) ⟨s, []⟩ Q E ↔ Q (effect s).2 ⟨(effect s).1, []⟩ := Iff.rfl

theorem ends_caught {m : Fallible σ Unit} {Q : Unit → Faulty σ → Prop} :
    Ends (caught m) w Q E ↔ m.Ends w Q (Q ()) := by
  unfold Ends caught
  cases m w <;> rfl

theorem ends_tried {m : Fallible σ Unit} {Q : Bool → Faulty σ → Prop} :
    Ends (tried m) w Q E ↔ m.Ends w (fun _ => Q true) (Q false) := by
  unfold Ends tried
  cases m w <;> rfl

theorem ends_onFailure (cleanup : Fallible σ Unit) :
    Ends (onFailure m cleanup) w Q E ↔
      m.Ends w Q fun w' => cleanup.Ends w' (fun _ => E) E := by
  unfold Ends onFailure
  cases m w with
  | ok a w' => rfl
  | error e w' => cases h : cleanup w' <;> simp [h]

/-! ## What a program leaves alone -/

section Keeps

variable {τ : Type} {f : σ → τ}

/-- However it ends, it leaves `f` of the state as it was. -/
def Keeps (f : σ → τ) (m : Fallible σ α) : Prop :=
  ∀ w, m.Ends w (fun _ w' => f w'.state = f w.state) fun w' => f w'.state = f w.state

theorem keeps_pure (a : α) : Keeps f (pure a : Fallible σ α) := fun _ => rfl

theorem keeps_throw : Keeps f (throw () : Fallible σ α) := fun _ => rfl

theorem keeps_read {g : σ → α} : Keeps f (read g) := fun _ => rfl

theorem keeps_change {g : σ → σ} (h : ∀ s, f (g s) = f s) : Keeps f (change g) :=
  fun w => h w.state

theorem Keeps.bind {g : α → Fallible σ β} (hm : Keeps f m) (hg : ∀ a, Keeps f (g a)) :
    Keeps f (m >>= g) := by
  intro w
  rw [ends_bind]
  refine (hm w).mono (fun a w' h => ?_) fun w' h => h
  exact (hg a w').mono (fun _ _ h' => h'.trans h) fun _ h' => h'.trans h

/-- What is told by what it leaves alone, it leaves alone. -/
theorem Keeps.through {υ : Type} (g : τ → υ) (hm : Keeps f m) : Keeps (fun s => g (f s)) m :=
  fun w => (hm w).mono (fun _ _ => congrArg g) fun _ => congrArg g

theorem Keeps.caught {m : Fallible σ Unit} (hm : Keeps f m) : Keeps f (caught m) :=
  fun w => ends_caught.mpr (hm w)

theorem Keeps.onFailure {cleanup : Fallible σ Unit} (hm : Keeps f m) (hc : Keeps f cleanup) :
    Keeps f (onFailure m cleanup) := by
  intro w
  rw [ends_onFailure]
  refine (hm w).mono (fun _ _ h => h) fun w' h => ?_
  exact (hc w').mono (fun _ _ h' => h'.trans h) fun _ h' => h'.trans h

theorem keeps_ite {c : Prop} [Decidable c] {m m' : Fallible σ α} (hm : Keeps f m)
    (hm' : Keeps f m') : Keeps f (if c then m else m') := by
  split
  · exact hm
  · exact hm'

/-- What follows a program that keeps `f` finds it as it was. -/
theorem Keeps.then_ends {g : α → Fallible σ β} {Q : β → Faulty σ → Prop} (hm : Keeps f m)
    (hg : ∀ a w', f w'.state = f w.state → (g a).Ends w' Q E)
    (hE : ∀ w', f w'.state = f w.state → E w') : Ends (m >>= g) w Q E :=
  (ends_bind g).mpr ((hm w).mono hg hE)

end Keeps

/-! ## What holds throughout -/

section Preserves

variable {P : σ → Prop}

/-- However it ends, what held of the state it found holds of the one it leaves. -/
def Preserves (P : σ → Prop) (m : Fallible σ α) : Prop :=
  ∀ w, P w.state → m.Ends w (fun _ w' => P w'.state) fun w' => P w'.state

theorem preserves_pure (a : α) : Preserves P (pure a : Fallible σ α) := fun _ h => h

theorem preserves_throw : Preserves P (throw () : Fallible σ α) := fun _ h => h

theorem preserves_read {g : σ → α} : Preserves P (read g) := fun _ h => h

theorem preserves_change {g : σ → σ} (hg : ∀ s, P s → P (g s)) : Preserves P (change g) :=
  fun w h => hg w.state h

theorem Preserves.bind {g : α → Fallible σ β} (hm : Preserves P m) (hg : ∀ a, Preserves P (g a)) : Preserves P (m >>= g) := by
  intro w h
  rw [ends_bind]
  exact (hm w h).mono (fun a w' h' => hg a w' h') fun _ h' => h'

theorem Preserves.caught {m : Fallible σ Unit} (hm : Preserves P m) : Preserves P (caught m) :=
  fun w h => ends_caught.mpr (hm w h)

theorem Preserves.onFailure {cleanup : Fallible σ Unit} (hm : Preserves P m) (hc : Preserves P cleanup) :
    Preserves P (onFailure m cleanup) := by
  intro w h
  rw [ends_onFailure]
  exact (hm w h).mono (fun _ _ h' => h') fun w' h' => hc w' h'

theorem preserves_ite {c : Prop} [Decidable c] {m m' : Fallible σ α} (hm : Preserves P m) (hm' : Preserves P m') :
    Preserves P (if c then m else m') := by
  split
  · exact hm
  · exact hm'

end Preserves

/-! ## How many commands it takes -/

section Issues

variable {τ : Type} {f : σ → τ} {n k : Nat}

/-- It leaves `f` alone, and throws exactly if one of the next `n` commands fails. -/
def Issues (f : σ → τ) (n : Nat) (m : Fallible σ α) : Prop :=
  ∀ w : Faulty σ,
    (true ∉ w.faults.take n →
      m.Ends w (fun _ w' => f w'.state = f w.state ∧ w'.faults = w.faults.drop n) fun _ => False) ∧
    (true ∈ w.faults.take n → m.Ends w (fun _ _ => False) fun w' => f w'.state = f w.state)

/-- It takes `n` commands, whatever becomes of them. -/
def Passes (f : σ → τ) (n : Nat) (m : Fallible σ α) : Prop :=
  ∀ w : Faulty σ,
    m.Ends w (fun _ w' => f w'.state = f w.state ∧ w'.faults = w.faults.drop n) fun _ => False

theorem passes_pure (a : α) : Passes f 0 (pure a : Fallible σ α) := fun _ => ⟨rfl, rfl⟩

theorem passes_read {g : σ → α} : Passes f 0 (read g) := fun _ => ⟨rfl, rfl⟩

theorem passes_change {g : σ → σ} (h : ∀ s, f (g s) = f s) : Passes f 0 (change g) :=
  fun w => ⟨h w.state, rfl⟩

theorem passes_caught_command {effect : σ → σ × Unit} (h : ∀ s, f (effect s).1 = f s) :
    Passes f 1 (caught (command effect)) := by
  intro w
  rw [ends_caught, ends_command, List.drop_one]
  exact ⟨fun _ => ⟨rfl, rfl⟩, fun _ => ⟨h w.state, rfl⟩⟩

theorem Passes.bind {g : α → Fallible σ β} (hm : Passes f n m) (hg : ∀ a, Passes f k (g a)) :
    Passes f (n + k) (m >>= g) := by
  intro w
  rw [ends_bind]
  refine (hm w).mono (fun a w' h => ?_) fun _ h => h
  refine (hg a w').mono (fun _ w'' h' => ⟨h'.1.trans h.1, ?_⟩) fun _ h' => h'
  rw [h'.2, h.2, List.drop_drop]

theorem Passes.keeps (hm : Passes f n m) : Keeps f m :=
  fun w => (hm w).mono (fun _ _ h => h.1) fun _ h => h.elim

theorem Passes.issues (hm : Passes f 0 m) : Issues f 0 m :=
  fun w => ⟨fun _ => hm w, fun h => absurd h List.not_mem_nil⟩

theorem issues_command {effect : σ → σ × α} (h : ∀ s, f (effect s).1 = f s) :
    Issues f 1 (command effect) := by
  intro w
  have hhead : true ∈ w.faults.take 1 ↔ w.faults.headD false = true := by
    cases w.faults with
    | nil => simp
    | cons fault faults => simp [eq_comm]
  rw [ends_command, ends_command, hhead, List.drop_one]
  exact ⟨fun hgoes => ⟨fun hfails => hgoes hfails, fun _ => ⟨h w.state, rfl⟩⟩,
    fun hfails => ⟨fun _ => rfl, fun hgoes => by rw [hfails] at hgoes; cases hgoes⟩⟩

theorem true_mem_take_add (faults : List Bool) (n k : Nat) :
    true ∈ faults.take (n + k) ↔ true ∈ faults.take n ∨ true ∈ (faults.drop n).take k := by
  rw [List.take_add, List.mem_append]

theorem Issues.bind {g : α → Fallible σ β} (hm : Issues f n m) (hg : ∀ a, Issues f k (g a)) :
    Issues f (n + k) (m >>= g) := by
  intro w
  rw [ends_bind, ends_bind, true_mem_take_add]
  constructor
  · intro hnone
    obtain ⟨hfirst, hrest⟩ := not_or.mp hnone
    refine ((hm w).1 hfirst).mono (fun a w' h => ?_) fun _ h => h
    refine (((hg a) w').1 (by rwa [h.2])).mono (fun _ w'' h' => ⟨h'.1.trans h.1, ?_⟩) fun _ h' => h'
    rw [h'.2, h.2, List.drop_drop]
  · intro hsome
    by_cases hfirst : true ∈ w.faults.take n
    · exact ((hm w).2 hfirst).mono (fun _ _ h => h.elim) fun _ h => h
    · have hrest := hsome.resolve_left hfirst
      refine ((hm w).1 hfirst).mono (fun a w' h => ?_) fun _ h => h.elim
      exact (((hg a) w').2 (by rwa [h.2])).mono (fun _ _ h' => h'.elim) fun _ h' => h'.trans h.1

theorem Issues.keeps (hm : Issues f n m) : Keeps f m := by
  intro w
  by_cases h : true ∈ w.faults.take n
  · exact ((hm w).2 h).mono (fun _ _ h' => h'.elim) fun _ h' => h'
  · exact ((hm w).1 h).mono (fun _ _ h' => h'.1) fun _ h' => h'.elim

theorem Issues.onFailure {cleanup : Fallible σ Unit} (hm : Issues f n m) (hc : Keeps f cleanup) :
    Issues f n (onFailure m cleanup) := by
  intro w
  rw [ends_onFailure, ends_onFailure]
  refine ⟨fun hnone => ?_, fun hsome => ?_⟩
  · exact ((hm w).1 hnone).mono (fun _ _ h => h) fun _ h => h.elim
  · refine ((hm w).2 hsome).mono (fun _ _ h => h.elim) fun w' h => ?_
    exact (hc w').mono (fun _ _ h' => h'.trans h) fun _ h' => h'.trans h

end Issues

/-! ## Where nothing fails -/

section Goes

variable {s : σ} {R R' : α → σ → Prop}

/-- As long as no command fails it returns, as `R` says. -/
def Goes (m : Fallible σ α) (s : σ) (R : α → σ → Prop) : Prop :=
  m.Ends ⟨s, []⟩ (fun a w => w.faults = [] ∧ R a w.state) fun _ => False

theorem Goes.mono (h : m.Goes s R) (hR : ∀ a s', R a s' → R' a s') : m.Goes s R' :=
  Ends.mono h (fun a w hw => ⟨hw.1, hR a w.state hw.2⟩) fun _ h => h

theorem Goes.bind {f : α → Fallible σ β} {R : β → σ → Prop} (h : m.Goes s fun a s' => (f a).Goes s' R) :
    (m >>= f).Goes s R := by
  refine (ends_bind f).mpr (Ends.mono h (fun a w hw => ?_) fun _ h => h)
  obtain ⟨state, faults⟩ := w
  obtain ⟨rfl, hw⟩ := hw
  exact hw

@[simp] theorem goes_pure (a : α) : Goes (pure a : Fallible σ α) s R ↔ R a s := by
  simp [Goes]

@[simp] theorem goes_read (f : σ → α) : Goes (read f) s R ↔ R (f s) s := by
  simp [Goes]

@[simp] theorem goes_change (f : σ → σ) {R : Unit → σ → Prop} : Goes (change f) s R ↔ R () (f s) := by
  simp [Goes]

@[simp] theorem goes_command (effect : σ → σ × α) : Goes (command effect) s R ↔ R (effect s).2 (effect s).1 := by
  simp [Goes]

theorem Goes.caught {m : Fallible σ Unit} {R : Unit → σ → Prop} (h : m.Goes s R) : (caught m).Goes s R :=
  ends_caught.mpr (Ends.mono h (fun _ _ h => h) fun _ h => h.elim)

theorem Goes.onFailure {cleanup : Fallible σ Unit} (h : m.Goes s R) : (onFailure m cleanup).Goes s R :=
  (ends_onFailure cleanup).mpr (Ends.mono h (fun _ _ h => h) fun _ h => h.elim)

end Goes

end Fallible

end Concurrency
