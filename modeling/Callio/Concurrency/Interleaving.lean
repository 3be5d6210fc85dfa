import Mathlib.Data.Fintype.Defs
import Mathlib.Logic.Function.Basic
import Callio.Concurrency.Program

/-! Programs running side by side over one state. A schedule is the list of
who moves next; one move issues one command, and nothing else happens in
between. A thread keeps the answers it was given, so that a property of a run
can speak of what a thread has read. -/

namespace Concurrency

variable {Cmd : Type} {Res : Cmd → Type} {σ ι : Type}

/-- The commands a thread has issued with their answers, latest first. -/
abbrev History (Res : Cmd → Type) := List (Sigma Res)

structure Thread (Res : Cmd → Type) where
  seen : History Res
  prog : Prog Res Unit

def Thread.start (p : Prog Res Unit) : Thread Res := ⟨[], p⟩

def Thread.Finished (t : Thread Res) : Prop := t.prog = .ret ()

instance (t : Thread Res) : Decidable t.Finished :=
  match h : t.prog with
  | .ret () => isTrue h
  | .call _ _ => isFalse fun hf => by rw [Thread.Finished, h] at hf; cases hf

structure Config (Res : Cmd → Type) (σ ι : Type) where
  state : σ
  threads : ι → Thread Res

/-- Every thread at its beginning. -/
def Config.spawn (s : σ) (progs : ι → Prog Res Unit) : Config Res σ ι :=
  ⟨s, fun i => .start (progs i)⟩

def Config.Finished (cfg : Config Res σ ι) : Prop := ∀ i, (cfg.threads i).Finished

instance [Fintype ι] (cfg : Config Res σ ι) : Decidable cfg.Finished :=
  inferInstanceAs (Decidable (∀ _, _))

/-- The command a thread issues next. -/
def Config.next (cfg : Config Res σ ι) (i : ι) : Option Cmd :=
  match (cfg.threads i).prog with
  | .ret _ => none
  | .call c _ => some c

theorem Config.next_eq_some {cfg : Config Res σ ι} {i : ι} {c : Cmd} :
    cfg.next i = some c ↔ ∃ k, (cfg.threads i).prog = .call c k := by
  unfold Config.next
  cases h : (cfg.threads i).prog with
  | ret a => simp
  | call c' k =>
    simp only [Option.some.injEq, Prog.call.injEq]
    constructor
    · rintro rfl
      exact ⟨k, rfl, HEq.rfl⟩
    · rintro ⟨_, rfl, _⟩
      rfl

variable [DecidableEq ι] (exec : (c : Cmd) → σ → σ × Res c)

/-- Thread `i` issues its next command; a finished thread does nothing. -/
def step (cfg : Config Res σ ι) (i : ι) : Config Res σ ι :=
  match (cfg.threads i).prog with
  | .ret _ => cfg
  | .call c k =>
    let out := exec c cfg.state
    ⟨out.1, Function.update cfg.threads i ⟨⟨c, out.2⟩ :: (cfg.threads i).seen, k out.2⟩⟩

def run (cfg : Config Res σ ι) : List ι → Config Res σ ι
  | [] => cfg
  | i :: is => run (step exec cfg i) is

/-- Each move of a run: the configuration it starts from and who moves. -/
def moves (cfg : Config Res σ ι) : List ι → List (Config Res σ ι × ι)
  | [] => []
  | i :: is => (cfg, i) :: moves (step exec cfg i) is

theorem step_ret {cfg : Config Res σ ι} {i : ι} {a : Unit}
    (h : (cfg.threads i).prog = .ret a) : step exec cfg i = cfg := by
  simp [step, h]

theorem step_call {cfg : Config Res σ ι} {i : ι} {c : Cmd} {k : Res c → Prog Res Unit}
    (h : (cfg.threads i).prog = .call c k) :
    step exec cfg i = ⟨(exec c cfg.state).1, Function.update cfg.threads i
      ⟨⟨c, (exec c cfg.state).2⟩ :: (cfg.threads i).seen, k (exec c cfg.state).2⟩⟩ := by
  simp [step, h]

theorem Thread.Finished.step {cfg : Config Res σ ι} {j : ι} (h : (cfg.threads j).Finished) (i : ι) :
    ((Concurrency.step exec cfg i).threads j).Finished := by
  by_cases hj : j = i
  · subst hj
    rwa [step_ret exec h]
  · unfold Concurrency.step
    split
    · exact h
    · simpa [hj] using h

theorem Config.next_of_finished {cfg : Config Res σ ι} {i : ι} (h : (cfg.threads i).Finished) :
    cfg.next i = none := by
  unfold Config.next
  rw [h]

theorem run_append (cfg : Config Res σ ι) (is js : List ι) :
    run exec cfg (is ++ js) = run exec (run exec cfg is) js := by
  induction is generalizing cfg with
  | nil => rfl
  | cons i is ih => exact ih _

theorem moves_append (cfg : Config Res σ ι) (is js : List ι) :
    moves exec cfg (is ++ js) = moves exec cfg is ++ moves exec (run exec cfg is) js := by
  induction is generalizing cfg with
  | nil => rfl
  | cons i is ih => simp [moves, run, ih]

theorem mem_moves {cfg : Config Res σ ι} {is : List ι} {m : Config Res σ ι × ι} :
    m ∈ moves exec cfg is ↔
      ∃ before after, is = before ++ m.2 :: after ∧ m.1 = run exec cfg before := by
  induction is generalizing cfg with
  | nil => simp [moves]
  | cons i is ih =>
    rw [moves, List.mem_cons, ih]
    constructor
    · rintro (rfl | ⟨before, after, rfl, hm⟩)
      · exact ⟨[], is, rfl, rfl⟩
      · exact ⟨i :: before, after, rfl, hm⟩
    · rintro ⟨_ | ⟨j, before⟩, after, his, hm⟩
      · cases his
        exact .inl (Prod.ext hm rfl)
      · cases his
        exact .inr ⟨before, after, rfl, hm⟩

theorem mem_moves_of_take {cfg : Config Res σ ι} {is : List ι} {n : Nat} {m : Config Res σ ι × ι}
    (h : m ∈ moves exec cfg (is.take n)) : m ∈ moves exec cfg is := by
  rw [← List.take_append_drop n is, moves_append]
  exact List.mem_append_left _ h

/-- A move leads to the run one longer. -/
theorem run_of_mem_moves {cfg : Config Res σ ι} {is : List ι} {m : Config Res σ ι × ι}
    (h : m ∈ moves exec cfg is) : ∃ n, run exec cfg (is.take n) = step exec m.1 m.2 := by
  obtain ⟨before, after, rfl, hm⟩ := (mem_moves exec).mp h
  refine ⟨before.length + 1, ?_⟩
  rw [List.take_append, List.take_of_length_le (by omega), Nat.add_sub_cancel_left, run_append, hm]
  rfl

theorem run_take_succ {cfg : Config Res σ ι} {is : List ι} {k : Nat} {i : ι} (h : is[k]? = some i) :
    run exec cfg (is.take (k + 1)) = step exec (run exec cfg (is.take k)) i := by
  rw [List.take_add_one, h, run_append]
  rfl

/-- The move a schedule makes at `k`. -/
theorem mem_moves_of_getElem? {cfg : Config Res σ ι} {is : List ι} {k : Nat} {i : ι}
    (h : is[k]? = some i) : (run exec cfg (is.take k), i) ∈ moves exec cfg is := by
  obtain ⟨hk, rfl⟩ := List.getElem?_eq_some_iff.mp h
  refine (mem_moves exec).mpr ⟨is.take k, is.drop (k + 1), ?_, rfl⟩
  rw [List.getElem_cons_drop, List.take_append_drop]

/-- What every allowed move preserves holds before each move of an allowed
run and at its end. -/
theorem invariant_run (I : Config Res σ ι → Prop) (ok : Config Res σ ι → ι → Prop)
    (hstep : ∀ cfg i, I cfg → ok cfg i → I (step exec cfg i))
    {cfg : Config Res σ ι} {is : List ι} (h0 : I cfg)
    (hok : ∀ m ∈ moves exec cfg is, ok m.1 m.2) :
    I (run exec cfg is) ∧ ∀ m ∈ moves exec cfg is, I m.1 := by
  induction is generalizing cfg with
  | nil => exact ⟨h0, by simp [moves]⟩
  | cons i is ih =>
    simp only [moves, List.forall_mem_cons] at hok ⊢
    obtain ⟨hr, hm⟩ := ih (hstep cfg i h0 hok.1) hok.2
    exact ⟨hr, h0, hm⟩

end Concurrency
