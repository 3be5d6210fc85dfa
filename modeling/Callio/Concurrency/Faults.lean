import Callio.Concurrency.Program

/-! A program whose commands may fail, with others changing the state between
them. A failed command leaves the state as it is; the program stops there, or goes
on where it catches the failure. -/

namespace Concurrency.Prog

variable {Cmd : Type} {Res : Cmd → Type} {α β σ : Type}

/-- All its commands are of the kind. -/
def Uses (p : Cmd → Prop) : Prog Res α → Prop
  | .ret _ => True
  | .call c k => p c ∧ ∀ r, (k r).Uses p

theorem uses_ret {p : Cmd → Prop} (a : α) : (Prog.ret a : Prog Res α).Uses p := trivial

theorem uses_cmd {p : Cmd → Prop} {c : Cmd} (h : p c) : (cmd c : Prog Res (Res c)).Uses p := ⟨h, fun _ => trivial⟩

theorem Uses.bind {p : Cmd → Prop} {m : Prog Res α} {f : α → Prog Res β} (hm : m.Uses p) (hf : ∀ a, (f a).Uses p) :
    (m >>= f).Uses p := by
  induction m with
  | ret a => exact hf a
  | call c k ih => exact ⟨hm.1, fun r => ih r (hm.2 r)⟩

theorem Uses.mono {p p' : Cmd → Prop} {m : Prog Res α} (hm : m.Uses p) (h : ∀ c, p c → p' c) : m.Uses p' := by
  induction m with
  | ret a => trivial
  | call c k ih => exact ⟨h c hm.1, fun r => ih r (hm.2 r)⟩

section

variable (exec : (c : Cmd) → σ → σ × Res c) (rely : σ → σ → Prop) (caught : (c : Cmd) → Option (Res c))

/-- From state `s` the program runs the commands of the log, each from the state it
finds, and ends with a value, or thrown out by a command, in state `t`. Others take
`rely` steps before each command; a failure of `c` is caught where `caught c` says
with what answer. -/
inductive Attempt : Prog Res α → σ → List (σ × Cmd) → Except Cmd α → σ → Prop
  | ret (a : α) (s : σ) : Attempt (.ret a) s [] (.ok a) s
  | goes {c : Cmd} {k : Res c → Prog Res α} {s s' t : σ} {log : List (σ × Cmd)} {out : Except Cmd α} (hr : rely s s')
      (h : Attempt (k (exec c s').2) (exec c s').1 log out t) : Attempt (.call c k) s ((s', c) :: log) out t
  | caught {c : Cmd} {k : Res c → Prog Res α} {s s' t : σ} {log : List (σ × Cmd)} {out : Except Cmd α} {r : Res c}
      (hr : rely s s') (hc : caught c = some r) (h : Attempt (k r) s' log out t) : Attempt (.call c k) s log out t
  | throws {c : Cmd} {k : Res c → Prog Res α} {s s' : σ} (hr : rely s s') (hc : caught c = none) :
      Attempt (.call c k) s [] (.error c) s'

variable {exec rely caught} {m : Prog Res α} {s t : σ} {log : List (σ × Cmd)}

theorem Attempt.of_ret {a : α} {out : Except Cmd α} (h : Attempt exec rely caught (.ret a) s log out t) :
    log = [] ∧ out = .ok a ∧ t = s := by
  cases h
  exact ⟨rfl, rfl, rfl⟩

/-- Nothing fails, and nobody comes between. -/
theorem attempt_of_eval (hrefl : ∀ s, rely s s) (m : Prog Res α) (s : σ) :
    m.Attempt exec rely caught s (m.issued exec s) (.ok (m.eval exec s).1) (m.eval exec s).2 := by
  induction m generalizing s with
  | ret a => exact .ret a s
  | call c k ih => exact .goes (hrefl s) (ih _ _)

/-- A command and what follows it. -/
theorem Attempt.of_cmd_bind {c : Cmd} {f : Res c → Prog Res α} {out : Except Cmd α}
    (h : Attempt exec rely caught (cmd c >>= f) s log out t) : ∃ s', rely s s' ∧
      ((∃ log', Attempt exec rely caught (f (exec c s').2) (exec c s').1 log' out t ∧ log = (s', c) :: log') ∨
        (∃ r, caught c = some r ∧ Attempt exec rely caught (f r) s' log out t) ∨
        caught c = none ∧ log = [] ∧ out = .error c ∧ t = s') := by
  cases h with
  | goes hr h => exact ⟨_, hr, .inl ⟨_, h, rfl⟩⟩
  | caught hr hc h => exact ⟨_, hr, .inr (.inl ⟨_, hc, h⟩)⟩
  | throws hr hc => exact ⟨_, hr, .inr (.inr ⟨hc, rfl, rfl, rfl⟩)⟩

/-- A command whose failure nobody catches. -/
theorem Attempt.of_uncaught {c : Cmd} {f : Res c → Prog Res α} {out : Except Cmd α} (hc : caught c = none)
    (h : Attempt exec rely caught (cmd c >>= f) s log out t) : ∃ s', rely s s' ∧
      ((∃ log', Attempt exec rely caught (f (exec c s').2) (exec c s').1 log' out t ∧ log = (s', c) :: log') ∨
        log = [] ∧ out = .error c ∧ t = s') := by
  obtain ⟨s', hr, hgoes | ⟨r, hr', -⟩ | ⟨-, hthrows⟩⟩ := h.of_cmd_bind
  · exact ⟨s', hr, .inl hgoes⟩
  · rw [hc] at hr'
    cases hr'
  · exact ⟨s', hr, .inr hthrows⟩

theorem Attempt.of_bind {f : α → Prog Res β} {out : Except Cmd β}
    (h : Attempt exec rely caught (m >>= f) s log out t) :
    (∃ c, Attempt exec rely caught m s log (.error c) t ∧ out = .error c) ∨
    ∃ a s' log₁ log₂, Attempt exec rely caught m s log₁ (.ok a) s' ∧
      Attempt exec rely caught (f a) s' log₂ out t ∧ log = log₁ ++ log₂ := by
  induction m generalizing s log with
  | ret a => exact .inr ⟨a, s, [], log, .ret a s, h, rfl⟩
  | call c k ih =>
    rw [call_bind] at h
    cases h with
    | goes hr h =>
      rcases ih _ h with ⟨c', h', rfl⟩ | ⟨a, s', log₁, log₂, h₁, h₂, rfl⟩
      · exact .inl ⟨c', .goes hr h', rfl⟩
      · exact .inr ⟨a, s', _, log₂, .goes hr h₁, h₂, rfl⟩
    | caught hr hc h =>
      rcases ih _ h with ⟨c', h', rfl⟩ | ⟨a, s', log₁, log₂, h₁, h₂, rfl⟩
      · exact .inl ⟨c', .caught hr hc h', rfl⟩
      · exact .inr ⟨a, s', log₁, log₂, .caught hr hc h₁, h₂, rfl⟩
    | throws hr hc => exact .inl ⟨c, .throws hr hc, rfl⟩

/-- The commands run, and the one that threw, are of the kind the program uses. -/
theorem Attempt.uses {p : Cmd → Prop} (hm : m.Uses p) {out : Except Cmd α}
    (h : Attempt exec rely caught m s log out t) : (∀ e ∈ log, p e.2) ∧ ∀ c, out = .error c → p c := by
  induction h with
  | ret a s => exact ⟨nofun, nofun⟩
  | goes hr h ih =>
    obtain ⟨hlog, hout⟩ := ih (hm.2 _)
    refine ⟨fun e he => ?_, hout⟩
    rcases List.mem_cons.mp he with rfl | he
    · exact hm.1
    · exact hlog e he
  | caught hr hc h ih => exact ih (hm.2 _)
  | throws hr hc =>
    refine ⟨nofun, fun c' hc' => ?_⟩
    cases hc'
    exact hm.1

/-- What neither others nor the program's commands change. -/
theorem Attempt.keeps {τ : Type} {f : σ → τ} {p : Cmd → Prop} (hrely : ∀ s s', rely s s' → f s' = f s)
    (hexec : ∀ c s, p c → f (exec c s).1 = f s) (hm : m.Uses p) {out : Except Cmd α}
    (h : Attempt exec rely caught m s log out t) : f t = f s := by
  induction h with
  | ret a s => rfl
  | goes hr h ih => exact (ih (hm.2 _)).trans ((hexec _ _ hm.1).trans (hrely _ _ hr))
  | caught hr hc h ih => exact (ih (hm.2 _)).trans (hrely _ _ hr)
  | throws hr hc => exact hrely _ _ hr

end

end Concurrency.Prog
