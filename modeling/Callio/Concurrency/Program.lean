import Mathlib.Tactic.Common

/-! Programs that reach a shared state only through commands. A program is
either done or issues one command and goes on with its answer, so every point
where another program can run is visible in the term. -/

namespace Concurrency

/-- A program over commands `Cmd`; command `c` is answered by a `Res c`. -/
inductive Prog {Cmd : Type} (Res : Cmd → Type) (α : Type) : Type
  | ret (a : α)
  | call (c : Cmd) (k : Res c → Prog Res α)

namespace Prog

variable {Cmd : Type} {Res : Cmd → Type} {α β γ : Type}

def bind : Prog Res α → (α → Prog Res β) → Prog Res β
  | .ret a, f => f a
  | .call c k, f => .call c fun r => (k r).bind f

instance : Monad (Prog Res) where
  pure := .ret
  bind := bind

/-- One command, answered. -/
def cmd (c : Cmd) : Prog Res (Res c) := .call c .ret

@[simp] theorem pure_eq (a : α) : (pure a : Prog Res α) = .ret a := rfl

@[simp] theorem ret_bind (a : α) (f : α → Prog Res β) : Prog.ret a >>= f = f a := rfl

@[simp] theorem call_bind (c : Cmd) (k : Res c → Prog Res α) (f : α → Prog Res β) :
    Prog.call c k >>= f = .call c fun r => k r >>= f := rfl

theorem bind_ret (m : Prog Res α) : m >>= Prog.ret = m := by
  induction m with
  | ret a => rfl
  | call c k ih =>
    rw [call_bind]
    congr 1
    funext r
    exact ih r

theorem bind_assoc (m : Prog Res α) (f : α → Prog Res β) (g : β → Prog Res γ) :
    m >>= f >>= g = m >>= fun a => f a >>= g := by
  induction m with
  | ret a => rfl
  | call c k ih =>
    simp only [call_bind]
    congr 1
    funext r
    exact ih r

instance : LawfulMonad (Prog Res) :=
  LawfulMonad.mk' (Prog Res) bind_ret (fun _ _ => rfl) bind_assoc

/-! ## Alone -/

section eval

variable {σ : Type} (exec : (c : Cmd) → σ → σ × Res c)

/-- The program alone, from state `s`: what it returns, and the state then. -/
def eval : Prog Res α → σ → α × σ
  | .ret a, s => (a, s)
  | .call c k, s => (k (exec c s).2).eval (exec c s).1

@[simp] theorem eval_ret (a : α) (s : σ) : (Prog.ret a : Prog Res α).eval exec s = (a, s) := rfl

@[simp] theorem eval_cmd (c : Cmd) (s : σ) :
    (cmd c : Prog Res (Res c)).eval exec s = ((exec c s).2, (exec c s).1) := rfl

theorem eval_bind (m : Prog Res α) (f : α → Prog Res β) (s : σ) :
    (m >>= f).eval exec s = (f (m.eval exec s).1).eval exec (m.eval exec s).2 := by
  induction m generalizing s with
  | ret a => rfl
  | call c k ih => exact ih _ _

@[simp] theorem eval_map (f : α → β) (m : Prog Res α) (s : σ) :
    (f <$> m).eval exec s = (f (m.eval exec s).1, (m.eval exec s).2) := by
  rw [map_eq_pure_bind, eval_bind]
  rfl

/-- The commands the program issues alone, each with the state it finds. -/
def issued : Prog Res α → σ → List (σ × Cmd)
  | .ret _, _ => []
  | .call c k, s => (s, c) :: (k (exec c s).2).issued (exec c s).1

/-- From state `s` the program keeps `I` after each of its commands, and ends in `post`. -/
def Always (I : σ → Prop) : Prog Res α → σ → (α → σ → Prop) → Prop
  | .ret a, s, post => post a s
  | .call c k, s, post => I (exec c s).1 ∧ (k (exec c s).2).Always I (exec c s).1 post

section always

variable {exec} {I : σ → Prop}

@[simp] theorem always_ret (a : α) (s : σ) (post : α → σ → Prop) :
    (Prog.ret a : Prog Res α).Always exec I s post ↔ post a s := Iff.rfl

theorem always_bind (m : Prog Res α) (f : α → Prog Res β) (s : σ) (post : β → σ → Prop) :
    (m >>= f).Always exec I s post ↔ m.Always exec I s fun a s' => (f a).Always exec I s' post := by
  induction m generalizing s with
  | ret a => rfl
  | call c k ih => exact and_congr_right fun _ => ih _ _

theorem Always.mono {m : Prog Res α} {s : σ} {post post' : α → σ → Prop} (h : m.Always exec I s post)
    (hp : ∀ a s', post a s' → post' a s') : m.Always exec I s post' := by
  induction m generalizing s with
  | ret a => exact hp a s h
  | call c k ih => exact ⟨h.1, ih _ h.2⟩

theorem Always.bind {m : Prog Res α} {f : α → Prog Res β} {s : σ} {post : α → σ → Prop} {post' : β → σ → Prop}
    (hm : m.Always exec I s post) (hf : ∀ a s', post a s' → (f a).Always exec I s' post') :
    (m >>= f).Always exec I s post' :=
  (always_bind m f s post').mpr (hm.mono hf)

theorem Always.eval {m : Prog Res α} {s : σ} {post : α → σ → Prop} (h : m.Always exec I s post) :
    post (m.eval exec s).1 (m.eval exec s).2 := by
  induction m generalizing s with
  | ret a => exact h
  | call c k ih => exact ih _ h.2

theorem Always.issued {m : Prog Res α} {s : σ} {post : α → σ → Prop} (h : m.Always exec I s post) :
    ∀ e ∈ m.issued exec s, I (exec e.2 e.1).1 := by
  induction m generalizing s with
  | ret a => exact nofun
  | call c k ih =>
    intro e he
    rcases List.mem_cons.mp he with rfl | he
    · exact h.1
    · exact ih _ h.2 e he

end always

/-- What a program alone leaves of an observation that each command takes on by
itself. -/
theorem observe_eval {τ : Type} (f : σ → τ) (g : τ → σ × Cmd → τ)
    (h : ∀ c s, f (exec c s).1 = g (f s) (s, c)) (m : Prog Res α) (s : σ) :
    f (m.eval exec s).2 = (m.issued exec s).foldl g (f s) := by
  induction m generalizing s with
  | ret a => rfl
  | call c k ih =>
    rw [issued, List.foldl_cons, ← h]
    exact ih _ _

end eval

end Prog

end Concurrency
