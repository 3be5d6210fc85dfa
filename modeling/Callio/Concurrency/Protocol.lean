import Callio.Concurrency.Interleaving

/-! Protocols: what a thread may do next, as far as an argument needs to know.
The phase of a thread moves with each answer it is given. A program that
follows a protocol lets an invariant be proved about the state and the phases
alone, whatever the program's text (`Protocol.invariant`). Where only the
commands matter and not their order, `Prog.Stays` composes. -/

namespace Concurrency

structure Protocol {Cmd : Type} (Res : Cmd → Type) where
  Phase : Type
  next : Phase → (c : Cmd) → Res c → Phase
  allows : Phase → Cmd → Prop

variable {Cmd : Type} {Res : Cmd → Type} {σ ι α β : Type}

/-- From phase `q` the program issues allowed commands only, and returns
values and phases that `post` accepts. -/
def Prog.Follows (P : Protocol Res) : P.Phase → (α → P.Phase → Prop) → Prog Res α → Prop
  | q, post, .ret a => post a q
  | q, post, .call c k => P.allows q c ∧ ∀ r, (k r).Follows P (P.next q c r) post

namespace Prog

variable {P : Protocol Res}

@[simp] theorem follows_ret (q : P.Phase) (post : α → P.Phase → Prop) (a : α) :
    (Prog.ret a : Prog Res α).Follows P q post ↔ post a q := Iff.rfl

@[simp] theorem follows_call (q : P.Phase) (post : α → P.Phase → Prop) (c : Cmd)
    (k : Res c → Prog Res α) :
    (Prog.call c k).Follows P q post ↔
      P.allows q c ∧ ∀ r, (k r).Follows P (P.next q c r) post := Iff.rfl

@[simp] theorem follows_bind (q : P.Phase) (post : β → P.Phase → Prop) (m : Prog Res α)
    (f : α → Prog Res β) :
    (m >>= f).Follows P q post ↔ m.Follows P q fun a q' => (f a).Follows P q' post := by
  induction m generalizing q with
  | ret a => rfl
  | call c k ih =>
    simp only [call_bind, follows_call]
    exact and_congr_right fun _ => forall_congr' fun r => ih r _

@[simp] theorem follows_pure (q : P.Phase) (post : α → P.Phase → Prop) (a : α) :
    (pure a : Prog Res α).Follows P q post ↔ post a q := Iff.rfl

theorem Follows.mono {q : P.Phase} {post post' : α → P.Phase → Prop} {m : Prog Res α}
    (h : m.Follows P q post) (hp : ∀ a q', post a q' → post' a q') : m.Follows P q post' := by
  induction m generalizing q with
  | ret a => exact hp a q h
  | call c k ih => exact ⟨h.1, fun r => ih r (h.2 r)⟩

theorem Follows.bind {q : P.Phase} {post : α → P.Phase → Prop} {post' : β → P.Phase → Prop}
    {m : Prog Res α} {f : α → Prog Res β} (hm : m.Follows P q post)
    (hf : ∀ a q', post a q' → (f a).Follows P q' post') : (m >>= f).Follows P q post' :=
  (follows_bind _ _ _ _).mpr (hm.mono hf)

/-- What follows goes on from wherever the first program leads. -/
theorem Follows.bind_any {q : P.Phase} {post : β → P.Phase → Prop} {m : Prog Res α} {f : α → Prog Res β}
    (hm : m.Follows P q fun _ _ => True) (hf : ∀ a q', (f a).Follows P q' post) : (m >>= f).Follows P q post :=
  hm.bind fun a q' _ => hf a q'

theorem follows_cmd (q : P.Phase) (c : Cmd) (post : Res c → P.Phase → Prop) :
    (Prog.cmd c : Prog Res (Res c)).Follows P q post ↔
      P.allows q c ∧ ∀ r, post r (P.next q c r) := Iff.rfl

theorem follows_cmd_bind (q : P.Phase) (c : Cmd) (f : Res c → Prog Res β)
    (post : β → P.Phase → Prop) :
    ((Prog.cmd c : Prog Res (Res c)) >>= f).Follows P q post ↔
      P.allows q c ∧ ∀ r, (f r).Follows P (P.next q c r) post := Iff.rfl

end Prog

/-- Alone, a program that follows a protocol issues each command in a phase that
allows it, and in which what every allowed command keeps holds of the state. -/
theorem Prog.Follows.of_issued {P : Protocol Res} {exec : (c : Cmd) → σ → σ × Res c} {I : σ → P.Phase → Prop}
    (hstep : ∀ s q c, I s q → P.allows q c → I (exec c s).1 (P.next q c (exec c s).2))
    {q : P.Phase} {post : α → P.Phase → Prop} {m : Prog Res α} (h : m.Follows P q post) {s : σ} (hI : I s q) :
    ∀ e ∈ m.issued exec s, ∃ q', I e.1 q' ∧ P.allows q' e.2 := by
  induction m generalizing q s with
  | ret a => exact nofun
  | call c k ih =>
    intro e he
    rcases List.mem_cons.mp he with rfl | he
    · exact ⟨q, hI, h.1⟩
    · exact ih _ (h.2 _) (hstep s q c hI h.1) e he

/-! ## Two protocols at once -/

/-- Each protocol goes on by itself, and a command must suit both. -/
def Protocol.prod (P Q : Protocol Res) : Protocol Res :=
  ⟨P.Phase × Q.Phase, fun q c r => (P.next q.1 c r, Q.next q.2 c r),
    fun q c => P.allows q.1 c ∧ Q.allows q.2 c⟩

/-- A program that follows both follows them at once. -/
theorem Prog.Follows.prod {P Q : Protocol Res} {p : P.Phase} {q : Q.Phase} {post : α → P.Phase → Prop}
    {post' : α → Q.Phase → Prop} {m : Prog Res α} (hp : m.Follows P p post) (hq : m.Follows Q q post') :
    m.Follows (P.prod Q) (p, q) fun a pq => post a pq.1 ∧ post' a pq.2 := by
  induction m generalizing p q with
  | ret a => exact ⟨hp, hq⟩
  | call c k ih => exact ⟨⟨hp.1, hq.1⟩, fun r => ih r (hp.2 r) (hq.2 r)⟩

/-- One phase: the commands of `S`, in any order. -/
def Protocol.only (S : Cmd → Prop) : Protocol Res := ⟨Unit, fun _ _ _ => (), fun _ c => S c⟩

/-! ## Programs that stay among some phases -/

/-- In every phase of `Q` the command is allowed, and any answer keeps the
thread in `Q`. -/
def Protocol.Keeps (P : Protocol Res) (Q : P.Phase → Prop) (c : Cmd) : Prop :=
  ∀ q, Q q → P.allows q c ∧ ∀ r, Q (P.next q c r)

/-- Started in a phase of `Q`, the program follows the protocol and ends in
one of `Q'`. -/
def Prog.Takes (P : Protocol Res) (Q Q' : P.Phase → Prop) (m : Prog Res α) : Prop :=
  ∀ q, Q q → m.Follows P q fun _ => Q'

/-- Started in a phase of `Q`, the program follows the protocol and ends in one. -/
abbrev Prog.Stays (P : Protocol Res) (Q : P.Phase → Prop) (m : Prog Res α) : Prop := m.Takes P Q Q

theorem Protocol.keeps_only {S : Cmd → Prop} {c : Cmd} (h : S c) :
    (Protocol.only S : Protocol Res).Keeps (fun _ => True) c :=
  fun _ _ => ⟨h, fun _ => trivial⟩

namespace Prog

variable {P : Protocol Res} {Q Q' Q'' : P.Phase → Prop}

theorem takes_ret (h : ∀ q, Q q → Q' q) (a : α) : (Prog.ret a : Prog Res α).Takes P Q Q' := h

theorem stays_ret (a : α) : (Prog.ret a : Prog Res α).Stays P Q := fun _ hq => hq

theorem stays_cmd {c : Cmd} (h : P.Keeps Q c) : (Prog.cmd c : Prog Res (Res c)).Stays P Q := h

theorem Takes.call {c : Cmd} {k : Res c → Prog Res α} (hc : P.Keeps Q c)
    (hk : ∀ r, (k r).Takes P Q Q') : (Prog.call c k).Takes P Q Q' :=
  fun q hq => ⟨(hc q hq).1, fun r => hk r _ ((hc q hq).2 r)⟩

theorem Takes.bind {m : Prog Res α} {f : α → Prog Res β} (hm : m.Takes P Q Q')
    (hf : ∀ a, (f a).Takes P Q' Q'') : (m >>= f).Takes P Q Q'' := by
  intro q hq
  rw [follows_bind]
  exact (hm q hq).mono fun a q' hq' => hf a q' hq'

theorem Takes.map {m : Prog Res α} (hm : m.Takes P Q Q') (f : α → β) : (f <$> m).Takes P Q Q' := by
  rw [map_eq_pure_bind]
  exact hm.bind fun _ => stays_ret _

theorem Takes.ite {p : Prop} [Decidable p] {m n : Prog Res α} (hm : p → m.Takes P Q Q')
    (hn : ¬ p → n.Takes P Q Q') : (if p then m else n).Takes P Q Q' := by
  split
  · exact hm ‹_›
  · exact hn ‹_›

theorem Takes.mono {m : Prog Res α} (hm : m.Takes P Q Q') (h : ∀ q, Q' q → Q'' q) :
    m.Takes P Q Q'' :=
  fun q hq => (hm q hq).mono fun _ => h

theorem Takes.of_le {m : Prog Res α} (hm : m.Takes P Q' Q'') (h : ∀ q, Q q → Q' q) : m.Takes P Q Q'' :=
  fun q hq => hm q (h q hq)

end Prog

namespace Protocol

/-- The phase a thread has reached, from where it began. -/
def phase (P : Protocol Res) (q : P.Phase) : History Res → P.Phase
  | [] => q
  | ⟨c, r⟩ :: h => P.next (phase P q h) c r

theorem phase_prod (P Q : Protocol Res) (pq : (P.prod Q).Phase) (h : History Res) :
    (P.prod Q).phase pq h = (P.phase pq.1 h, Q.phase pq.2 h) := by
  induction h with
  | nil => rfl
  | cons e h ih => exact congrArg (fun pq => (P.next pq.1 e.1 e.2, Q.next pq.2 e.1 e.2)) ih

/-- Every thread's remaining program follows the protocol from its phase. -/
def Conforms (P : Protocol Res) (final : P.Phase → Prop) (init : ι → P.Phase) (cfg : Config Res σ ι) : Prop :=
  ∀ i, (cfg.threads i).prog.Follows P (P.phase (init i) (cfg.threads i).seen) fun _ => final

variable {P : Protocol Res} {final : P.Phase → Prop} {init : ι → P.Phase}

theorem conforms_spawn {s : σ} {progs : ι → Prog Res Unit}
    (h : ∀ i, (progs i).Follows P (init i) fun _ => final) :
    P.Conforms final init (Config.spawn s progs) := h

/-- The abstract system: the state and one phase for each thread. -/
def phases (P : Protocol Res) (init : ι → P.Phase) (cfg : Config Res σ ι) (i : ι) : P.Phase :=
  P.phase (init i) (cfg.threads i).seen

theorem phases_spawn (s : σ) (progs : ι → Prog Res Unit) :
    P.phases init (Config.spawn s progs) = init := rfl

theorem Conforms.final_of_finished {cfg : Config Res σ ι} (h : P.Conforms final init cfg)
    {i : ι} (hi : (cfg.threads i).Finished) : final (P.phases init cfg i) := by
  have hf := h i
  rw [hi] at hf
  exact hf

theorem Conforms.allows {cfg : Config Res σ ι} (h : P.Conforms final init cfg) {i : ι} {c : Cmd}
    {k : Res c → Prog Res Unit} (hp : (cfg.threads i).prog = .call c k) :
    P.allows (P.phases init cfg i) c := by
  have hf := h i
  rw [hp] at hf
  exact hf.1

variable [DecidableEq ι] {exec : (c : Cmd) → σ → σ × Res c}

variable (exec) in
theorem Conforms.step {cfg : Config Res σ ι} (h : P.Conforms final init cfg) (i : ι) :
    P.Conforms final init (Concurrency.step exec cfg i) := by
  cases hp : (cfg.threads i).prog with
  | ret a => rwa [step_ret exec hp]
  | call c k =>
    rw [step_call exec hp]
    intro j
    have hi := h i
    rw [hp, Prog.follows_call] at hi
    by_cases hj : j = i
    · subst hj
      simpa [phase] using hi.2 _
    · simpa [hj] using h j

variable (P init exec) in
theorem phases_step {cfg : Config Res σ ι} {i : ι} {c : Cmd} {k : Res c → Prog Res Unit}
    (hp : (cfg.threads i).prog = .call c k) :
    P.phases init (Concurrency.step exec cfg i) = Function.update (P.phases init cfg) i
      (P.next (P.phases init cfg i) c (exec c cfg.state).2) := by
  rw [step_call exec hp]
  funext j
  by_cases hj : j = i
  · subst hj
    simp [phases, phase]
  · simp [phases, hj]

/-- What a move does, as threads that follow a protocol see it. -/
theorem Conforms.move {cfg : Config Res σ ι} (h : P.Conforms final init cfg) (i : ι) :
    cfg.next i = none ∧ Concurrency.step exec cfg i = cfg ∨
      ∃ c, cfg.next i = some c ∧ P.allows (P.phases init cfg i) c ∧
        (Concurrency.step exec cfg i).state = (exec c cfg.state).1 ∧
        P.phases init (Concurrency.step exec cfg i) = Function.update (P.phases init cfg) i
          (P.next (P.phases init cfg i) c (exec c cfg.state).2) := by
  cases hp : (cfg.threads i).prog with
  | ret u =>
    have hnone : cfg.next i = none := by
      unfold Config.next
      rw [hp]
    exact .inl ⟨hnone, step_ret exec hp⟩
  | call c k =>
    refine .inr ⟨c, Config.next_eq_some.mpr ⟨k, hp⟩, h.allows hp, ?_, P.phases_step init exec hp⟩
    rw [step_call exec hp]

/-- Move `k` of a run, as threads that follow a protocol see it. -/
theorem Conforms.run_take_succ {cfg : Config Res σ ι} {schedule : List ι} {k : Nat} (hk : k < schedule.length)
    (hc : P.Conforms final init (run exec cfg (schedule.take k))) :
    P.Conforms final init (run exec cfg (schedule.take (k + 1))) ∧
      ((run exec cfg (schedule.take k)).next schedule[k] = none ∧
          run exec cfg (schedule.take (k + 1)) = run exec cfg (schedule.take k) ∨
        ∃ c, (run exec cfg (schedule.take k)).next schedule[k] = some c ∧
          P.allows (P.phases init (run exec cfg (schedule.take k)) schedule[k]) c ∧
          (run exec cfg (schedule.take (k + 1))).state = (exec c (run exec cfg (schedule.take k)).state).1 ∧
          P.phases init (run exec cfg (schedule.take (k + 1))) =
            Function.update (P.phases init (run exec cfg (schedule.take k))) schedule[k]
              (P.next (P.phases init (run exec cfg (schedule.take k)) schedule[k]) c
                (exec c (run exec cfg (schedule.take k)).state).2)) := by
  rw [Concurrency.run_take_succ exec (List.getElem?_eq_getElem hk)]
  exact ⟨hc.step exec schedule[k], hc.move schedule[k]⟩

/-- An invariant of the state and the phases that every allowed command keeps
holds throughout an allowed run of programs that follow the protocol. -/
theorem invariant (exec : (c : Cmd) → σ → σ × Res c) (I : σ → (ι → P.Phase) → Prop)
    (ok : Config Res σ ι → ι → Prop)
    (hstep : ∀ cfg i c k, (cfg.threads i).prog = .call c k → ok cfg i →
      P.allows (P.phases init cfg i) c → I cfg.state (P.phases init cfg) →
      I (exec c cfg.state).1 (Function.update (P.phases init cfg) i
        (P.next (P.phases init cfg i) c (exec c cfg.state).2)))
    {cfg : Config Res σ ι} {is : List ι} (hc : P.Conforms final init cfg)
    (h0 : I cfg.state (P.phases init cfg))
    (hok : ∀ m ∈ moves exec cfg is, ok m.1 m.2) :
    let cfg' := run exec cfg is
    (P.Conforms final init cfg' ∧ I cfg'.state (P.phases init cfg')) ∧
      ∀ m ∈ moves exec cfg is, P.Conforms final init m.1 ∧ I m.1.state (P.phases init m.1) := by
  refine invariant_run exec
    (fun cfg => P.Conforms final init cfg ∧ I cfg.state (P.phases init cfg)) ok ?_ ⟨hc, h0⟩ hok
  rintro cfg i ⟨hc, hI⟩ hi
  refine ⟨hc.step exec i, ?_⟩
  cases hp : (cfg.threads i).prog with
  | ret a => rwa [step_ret exec hp]
  | call c k =>
    have hf := hc i
    rw [hp, Prog.follows_call] at hf
    rw [P.phases_step init exec hp, step_call exec hp]
    exact hstep cfg i c k hp hi hf.1 hI

end Protocol

end Concurrency
