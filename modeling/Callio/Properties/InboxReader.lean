import Callio.Cluster.Conduct
import Callio.Cluster.Effects

/-! A read loop hands entries to a handler that is set, and goes on. A read asks
only for calls whose handler is set, and a call enters `owned` without one: it may
not while a read of its stream is under way. -/

namespace Callio.InboxReader

open Concurrency Inbox

variable {ι : Type} [DecidableEq ι]

/-! ## The property, and what breaks it -/

section run

variable (tasks : ι → Inbox.Task) (w : Cluster) (schedule : List ι)

/-- Every delivery finds the handler set and goes through, and a read loop that
is done has made all its rounds. -/
def ReaderLives : Prop :=
  (∀ k i n c entries, schedule[k]? = some i →
    (after tasks w schedule k).next i = some (.deliver n c entries) →
    (∀ own, (after tasks w schedule k).state.own n c = some own → own.handler = true) ∧
      ((after tasks w schedule k).state.deliver n c entries).2 = true) ∧
  ∀ k ≤ schedule.length, ∀ i n rounds, tasks i = .readLoop n rounds →
    ((after tasks w schedule k).threads i).Finished → (phases tasks w schedule k i).reading.made = rounds

/-- Move `k` by `i` registers no call of which a read is under way for the worker. -/
def Sound (k : Nat) (i : ι) : Bool :=
  ((after tasks w schedule k).next i).all fun op =>
    match op with
    | .register n c _ => !schedule.any fun j => reads (phases tasks w schedule k j) n c
    | _ => true

end run

/-! ## The invariant -/

variable (tasks : ι → Inbox.Task) (w : Cluster) (schedule : List ι) in
structure Invariant (k : Nat) : Prop where
  lives : ∀ j, (phases tasks w schedule k j).reading.stopped = false
  handled : ∀ j n c own, reads (phases tasks w schedule k j) n c = true →
    (after tasks w schedule k).state.own n c = some own → own.handler = true

namespace Invariant

variable {tasks : ι → Inbox.Task} {w : Cluster} {schedule : List ι} {k : Nat} {i : ι} {op : Op}

theorem init : Invariant tasks w schedule 0 where
  lives j := rfl
  handled j n c own h := by cases h

/-- What is about to be delivered finds its handler. -/
theorem deliver_handled (h : Invariant tasks w schedule k) {n c : Nat} {entries : List Entry}
    (hnext : (after tasks w schedule k).next i = some (.deliver n c entries)) (own : Own)
    (hown : (after tasks w schedule k).state.own n c = some own) : own.handler = true := by
  obtain ⟨cont, hp⟩ := Config.next_eq_some.mp hnext
  obtain ⟨_, _, hhead⟩ := (conforms tasks w schedule k).allows hp
  exact h.handled i n c own (reads_iff.mpr (.inr ⟨entries, List.mem_of_mem_head? hhead⟩)) hown

theorem lives_succ (h : Invariant tasks w schedule k) (hm : Moved tasks w schedule k i op) (j : ι) :
    (phases tasks w schedule (k + 1) j).reading.stopped = false := by
  by_cases hj : j = i
  · subst hj
    rw [hm.own]
    have hlives := h.lives j
    cases op with
    | deliver n c entries =>
      have hgood := Cluster.deliver_ok entries (h.deliver_handled hm.next)
      show (_ || !((after tasks w schedule k).state.deliver n c entries).2) = false
      rw [hlives, hgood]
      rfl
    | _ => exact hlives
  · rw [hm.others j hj]
    exact h.lives j

/-- A read was under way before, or begins now and asks for calls with a handler. -/
theorem reads_before (hm : Moved tasks w schedule k i op) {j : ι} {n c : Nat}
    (h : reads (phases tasks w schedule (k + 1) j) n c = true) :
    reads (phases tasks w schedule k j) n c = true ∨
      op = .streams n ∧ ∃ own, (after tasks w schedule k).state.own n c = some own ∧ own.handler = true := by
  rcases reads_iff.mp h with ⟨from_, v, hasked, hmem⟩ | ⟨entries, hbatch⟩
  · rcases hm.asked hasked with hbefore | ⟨_, hop, rfl⟩
    · exact .inl (reads_iff.mpr (.inl ⟨from_, v, hbefore, hmem⟩))
    · obtain ⟨own, hown, hhandler, _⟩ := Cluster.mem_streams.mp hmem
      exact .inr ⟨hop, own, hown, hhandler⟩
  · rcases hm.mem_batch hbatch with hbefore | ⟨rfl, from_, rfl, hstream⟩
    · exact .inl (reads_iff.mpr (.inr ⟨entries, hbefore⟩))
    · obtain ⟨v, hmem, _, _⟩ := Cluster.mem_xread.mp hstream
      exact .inl (reads_iff.mpr (.inl ⟨from_, v, hm.allows.2.1, hmem⟩))

/-- A call that is read keeps its handler. -/
theorem handled_succ (h : Invariant tasks w schedule k) (hm : Moved tasks w schedule k i op)
    (hok : Sound tasks w schedule k i = true) (j : ι) (n c : Nat) (own : Own)
    (hreads : reads (phases tasks w schedule (k + 1) j) n c = true)
    (hown : (after tasks w schedule (k + 1)).state.own n c = some own) : own.handler = true := by
  rw [hm.state] at hown
  cases onOwn (after tasks w schedule k).state n c op with
  | same heq =>
    rw [heq] at hown
    rcases reads_before hm hreads with hbefore | ⟨_, own', hown', hhandler⟩
    · exact h.handled j n c own hbefore hown
    · obtain rfl : own' = own := Option.some.inj (hown'.symm.trans hown)
      exact hhandler
  | registered lastId hop heq =>
    subst hop
    rcases reads_before hm hreads with hbefore | ⟨hop, _⟩
    · simp only [Sound, hm.next, Option.all_some] at hok
      exact absurd hbefore (not_reads hok j)
    · cases hop
  | handled own' hop hown' heq =>
    rw [heq] at hown
    cases hown
    rfl
  | dropped hop heq =>
    rw [heq] at hown
    cases hown
  | took own' entries' last hop hown' hhandler hlast heq =>
    rw [heq] at hown
    cases hown
    exact hhandler
  | threw own' entries' lastId hop hown' hhandler heq =>
    subst hop
    have hset := h.deliver_handled hm.next own' hown'
    rw [hhandler] at hset
    cases hset

theorem succ (h : Invariant tasks w schedule k) (hi : schedule[k]? = some i)
    (hok : Sound tasks w schedule k i = true) : Invariant tasks w schedule (k + 1) := by
  obtain ⟨_, hsame⟩ | ⟨op, hm⟩ := Inbox.moved tasks w schedule hi
  · refine ⟨?_, ?_⟩
    · simpa only [phases_eq hsame] using h.lives
    · simpa only [phases_eq hsame, hsame] using h.handled
  · exact ⟨h.lives_succ hm, h.handled_succ hm hok⟩

end Invariant

/-! ## The rule -/

/-- In a sound run read loops deliver to handlers only, and go on. -/
theorem lives_of_sound (tasks : ι → Inbox.Task) (w : Cluster) (schedule : List ι)
    (hok : ∀ k, (hk : k < schedule.length) → Sound tasks w schedule k schedule[k] = true) :
    ReaderLives tasks w schedule := by
  have hinv : ∀ k ≤ schedule.length, Invariant tasks w schedule k := by
    intro k
    induction k with
    | zero => exact fun _ => .init
    | succ k ih => exact fun hk => (ih (by omega)).succ (List.getElem?_eq_getElem hk) (hok k hk)
  constructor
  · intro k i n c entries hi hnext
    have h := hinv k (List.getElem?_eq_some_iff.mp hi).1.le
    have hhandled := h.deliver_handled hnext
    exact ⟨hhandled, Cluster.deliver_ok _ hhandled⟩
  · intro k hk i n rounds ht hfinished
    obtain ⟨hmade, _⟩ := (conforms tasks w schedule k).final_of_finished hfinished
    rcases hmade with hstopped | hmade
    · exact absurd (((hinv k hk).lives i).symm.trans hstopped) Bool.false_ne_true
    · have hrounds : (phases tasks w schedule k i).rounds = rounds := by
        rw [phases_rounds, ht]
        rfl
      exact hmade.trans hrounds

/-! ## A lease lost and taken back -/

/-- Worker 1 runs call 1. -/
def held : Cluster :=
  { lease := fun c => if c = 1 then some 1 else none
    leased := fun c => c = 1
    nodes := fun n => if n = 1 then { owned := (∅ : AList fun _ => Own).insert 1 ⟨0, true⟩ } else {} }

/-- The worker loses the lease and adopts the call again; an input is posted. -/
def retaken (rounds : Nat) : Fin 5 → Inbox.Task
  | 0 => .readLoop 1 rounds
  | 1 => .lapse 1
  | 2 => .renew 1
  | 3 => .adopt 1 1 .adopted
  | 4 => .post 2 1 (.other 0)

/-- The first read returns before the adoption, the second after it. -/
theorem lives_inTurn :
    ReaderLives (retaken 2) held
      ([0, 0, 1, 2, 2, 2, 2] ++ List.replicate 15 3 ++ [4, 4, 0, 0, 0]) :=
  lives_of_sound (retaken 2) held _ (by decide)

/-- The read begun under the lost lease returns when the call is claimed and its
handler is not set yet. -/
theorem not_lives :
    ¬ ∀ (tasks : Fin 5 → Inbox.Task) (w : Cluster) (schedule : List (Fin 5)),
      ReaderLives tasks w schedule := by
  intro h
  have hdeliver := (h (retaken 1) held ([0, 1, 2, 2, 2, 2] ++ List.replicate 12 3 ++ [4, 4, 0, 0])).1
    21 0 1 1 [⟨1, .other 0⟩] rfl rfl
  exact absurd (hdeliver.1 ⟨0, false⟩ rfl) (by decide)

end Callio.InboxReader
