import Mathlib.Data.Finset.Card
import Mathlib.Data.List.TakeWhile
import Callio.Outbox.Deliveries

/-! Whether one consumer's events can hold up another's. A dispatch cycle goes
through the due deliveries in one order and ends at the first whose configuration or
payload cannot be read, which stays where it is. A delivery is attempted in finitely
many cycles exactly if nothing unreadable is ahead of it. -/

namespace Callio.ConsumerIsolation

open Concurrency Outbox Store

/-! ## The property -/

section property

variable (lib : Primitives)

/-- The consumer's webhook and the payload can be read. -/
def readable (w : Outbox.World Unit) (d : Delivery) : Bool :=
  match getWebhookConfig lib (w.consumers d.consumerId) with
  | some (some _) => (readPayload lib d.payload).isSome
  | _ => false

/-- The consumer was asked. -/
def attempted (id : Nat) (w : Outbox.World Unit) : Bool :=
  w.history.any fun e =>
    match e with
    | .answered _ id' _ => id' = id
    | _ => false

/-- What runs, one after the other: the outcomes of a cycle are written, and nothing is
redelivered. -/
def Plain : Task → Prop
  | .tick _ fates => ∀ id, (fates id).write = .done
  | .redeliver _ _ => False
  | _ => True

/-- The worker's tick gets to dispatch. -/
def dispatches (w : Outbox.World Unit) : Task → Bool
  | .tick n _ => !w.running n && !w.stopped n && (w.lease.isNone || w.lease = some n)
  | _ => false

def perform (w : Outbox.World Unit) (task : Task) : Outbox.World Unit := ((task.code lib ()).eval (Op.exec lib) w).2

def performAll (w : Outbox.World Unit) (tasks : List Task) : Outbox.World Unit := tasks.foldl (perform lib) w

/-- How many cycles there are among the tasks. -/
def cycles (w : Outbox.World Unit) : List Task → Nat
  | [] => 0
  | task :: tasks => (if dispatches w task then 1 else 0) + cycles (perform lib w task) tasks

/-- Between cycles, at the beginning: nothing is recorded yet, and some worker is up. -/
structure Between (w : Outbox.World Unit) : Prop where
  running : ∀ n, w.running n = false
  up : ∃ n, w.stopped n = false ∧ (w.lease.isNone ∨ w.lease = some n)
  history : w.history = []

/-- After so many cycles the delivery was attempted, whatever the others do. -/
def SoonAttempted (w : Outbox.World Unit) (id : Nat) : Prop :=
  ∃ enough, ∀ tasks, (∀ task ∈ tasks, Plain task) → enough ≤ cycles lib w tasks →
    attempted id (performAll lib w tasks) = true

/-- The deliveries that `findDue` has before this one, now or once they are due. -/
def ahead (w : Outbox.World Unit) (id : Nat) (d : Delivery) : Finset Nat :=
  (Finset.range w.deliveries.nextId).filter fun id' => id' ≠ id ∧
    (w.deliveries.get id').any fun d' => w.awaits d' && decide (Precedes (id', d') (id, d))

end property

/-! ## Order -/

section order

theorem precedes_total : Std.Total Precedes := by
  constructor
  intro a b
  unfold Precedes
  omega

theorem precedes_trans : IsTrans (Nat × Delivery) Precedes := by
  constructor
  intro a b c
  unfold Precedes
  omega

theorem precedes_antisymm {a b : Nat × Delivery} (hab : Precedes a b) (hba : Precedes b a) : a.1 = b.1 := by
  unfold Precedes at hab hba
  omega

theorem findDue_sorted (w : Outbox.World Unit) (limit : Nat) : (w.findDue limit).Pairwise Precedes := by
  have := precedes_total
  have := precedes_trans
  exact (List.pairwise_insertionSort Precedes _).sublist (List.take_sublist _ _)

variable {α : Type} {R : α → α → Prop} {l : List α} {a b : α}

/-- What is not after a taken element of a sorted list is taken too. -/
theorem mem_takeWhile_of_before (hl : l.Pairwise R) {p : α → Bool} (ha : a ∈ l.takeWhile p) (hb : b ∈ l)
    (hab : ¬ R a b) : b ∈ l.takeWhile p := by
  rw [← List.takeWhile_append_dropWhile (p := p) (l := l)] at hb hl
  rcases List.mem_append.mp hb with h | h
  · exact h
  · exact absurd ((List.pairwise_append.mp hl).2.2 a ha b h) hab

/-- What passes, with all before it, is taken. -/
theorem mem_takeWhile_of_clear (hl : l.Pairwise R) {p : α → Bool} (ha : a ∈ l) (hp : p a = true)
    (hbefore : ∀ b ∈ l, b ≠ a → R b a → p b = true) : a ∈ l.takeWhile p := by
  induction l with
  | nil => cases ha
  | cons x l ih =>
    rw [List.pairwise_cons] at hl
    by_cases hx : x = a
    · subst hx
      rw [List.takeWhile_cons, hp]
      exact List.mem_cons_self
    · have hmem : a ∈ l := by
        rcases List.mem_cons.mp ha with h | h
        · exact absurd h.symm hx
        · exact h
      have hpx := hbefore x List.mem_cons_self hx (hl.1 a hmem)
      rw [List.takeWhile_cons, hpx]
      exact List.mem_cons_of_mem _ (ih hl.2 hmem fun b hb => hbefore b (List.mem_cons_of_mem _ hb))

theorem mem_take_of_before (hl : l.Pairwise R) {k : Nat} (ha : a ∈ l.take k) (hb : b ∈ l) (hab : ¬ R a b) :
    b ∈ l.take k := by
  rw [← List.take_append_drop k l] at hb hl
  rcases List.mem_append.mp hb with h | h
  · exact h
  · exact absurd ((List.pairwise_append.mp hl).2.2 a ha b h) hab

end order

/-! ## A cycle -/

section cycle

variable {lib : Primitives} {fates : Nat → Fate} {w : Outbox.World Unit} {n : Nat}

/-- What an attempt leaves: the answer, and the row with its outcome. -/
def outcome (lib : Primitives) (fates : Nat → Fate) (w : Outbox.World Unit) (r : Nat × Delivery) : Outbox.World Unit :=
  let answered := (Op.exec lib (.post () r.1 ⟨"", "", none, ""⟩ (fates r.1).answer) w).1
  match (fates r.1).answer with
  | .status code =>
    if (Answer.status code).ok then (Op.exec lib (.markDelivered () r.1 code .done) answered).1
    else (Op.exec lib (.markAttemptFailed () r.1 (some code) s!"HTTP {code}" (nextAttemptIn r.2) .done) answered).1
  | .error message =>
    (Op.exec lib (.markAttemptFailed () r.1 none message (nextAttemptIn r.2) .done) answered).1

theorem deliver_eval (r : Nat × Delivery) (webhook : Webhook) (hpayload : (readPayload lib r.2.payload).isSome)
    (hwrite : (fates r.1).write = .done) :
    (deliver lib () r.1 r.2 (some webhook) (fates r.1)).eval (Op.exec lib) w = (true, outcome lib fates w r) := by
  obtain ⟨body, hbody⟩ := Option.isSome_iff_exists.mp hpayload
  unfold deliver outcome
  simp only [hbody, Prog.eval_bind, Prog.eval_cmd, hwrite]
  cases (fates r.1).answer with
  | error message => rfl
  | status code =>
    simp only [recordAnswer, Prog.eval_bind, Op.exec]
    by_cases hok : (Answer.status code).ok
    · simp only [hok, if_true, Prog.eval_cmd]
      rfl
    · simp only [hok, if_false, failed, Prog.eval_cmd, Bool.false_eq_true]
      rfl

theorem deliver_unreadable {r : Nat × Delivery} {webhook : Option Webhook}
    (hpayload : readPayload lib r.2.payload = none) (hurl : webhook.isSome) :
    (deliver lib () r.1 r.2 webhook (fates r.1)).eval (Op.exec lib) w = (false, w) := by
  obtain ⟨webhook, rfl⟩ := Option.isSome_iff_exists.mp hurl
  unfold deliver
  simp [hpayload]

/-- What an attempt does not touch. -/
structure Attempts (w w' : Outbox.World Unit) : Prop where
  consumers : w'.consumers = w.consumers
  now : w'.now = w.now
  lease : w'.lease = w.lease
  running : w'.running = w.running
  stopped : w'.stopped = w.stopped
  nextId : w'.deliveries.nextId = w.deliveries.nextId

theorem Attempts.refl : Attempts w w := ⟨rfl, rfl, rfl, rfl, rfl, rfl⟩

theorem Attempts.trans {w₁ w₂ : Outbox.World Unit} (h : Attempts w w₁) (h' : Attempts w₁ w₂) : Attempts w w₂ :=
  ⟨h'.consumers.trans h.consumers, h'.now.trans h.now, h'.lease.trans h.lease, h'.running.trans h.running,
    h'.stopped.trans h.stopped, h'.nextId.trans h.nextId⟩

theorem failed_attempts (id : Nat) (status next : Option Nat) (error : String) :
    Attempts w (Op.exec lib (.markAttemptFailed () id status error next .done) w).1 := by
  cases h : Write.done.applies && (w.deliveries.get id).isSome with
  | false =>
    simp only [Op.exec, h, Bool.false_eq_true, if_false]
    exact .refl
  | true =>
    simp only [Op.exec, h, if_true]
    exact ⟨rfl, rfl, rfl, rfl, rfl, rfl⟩

theorem outcome_attempts (r : Nat × Delivery) : Attempts w (outcome lib fates w r) := by
  have hpost : Attempts w (Op.exec lib (.post () r.1 ⟨"", "", none, ""⟩ (fates r.1).answer) w).1 :=
    ⟨rfl, rfl, rfl, rfl, rfl, rfl⟩
  unfold outcome
  split
  · split
    · exact hpost.trans ⟨rfl, rfl, rfl, rfl, rfl, rfl⟩
    · exact hpost.trans (failed_attempts _ _ _ _)
  · exact hpost.trans (failed_attempts _ _ _ _)

theorem outcomes_attempts (due : List (Nat × Delivery)) : Attempts w (due.foldl (outcome lib fates) w) := by
  induction due generalizing w with
  | nil => exact .refl
  | cons r due ih => exact (outcome_attempts r).trans ih

theorem readable_congr {w' : Outbox.World Unit} (h : Attempts w w') : readable lib w' = readable lib w := by
  funext d
  rw [readable, readable, h.consumers]

/-- The cycle attempts the batch's deliveries up to the first unreadable one. -/
theorem deliverAll_eval (hwrite : ∀ id, (fates id).write = .done) (due : List (Nat × Delivery))
    (configs : List (Nat × Option Webhook)) (hstopped : w.stopped n = false)
    (hurl : ∀ r ∈ due, w.awaits r.2 = true)
    (hconfigs : ∀ c webhook, configs.lookup c = some webhook →
      getWebhookConfig lib (w.consumers c) = some webhook) :
    ((deliverAll lib () n fates due configs).eval (Op.exec lib) w).2 =
      (due.takeWhile fun r => readable lib w r.2).foldl (outcome lib fates) w := by
  induction due generalizing w configs with
  | nil => rfl
  | cons r due ih =>
    obtain ⟨id, d⟩ := r
    have hawaits := hurl (id, d) List.mem_cons_self
    have hsome : ∀ webhook, getWebhookConfig lib (w.consumers d.consumerId) = some webhook → webhook.isSome := by
      intro webhook hwebhook
      simp only [World.awaits, Bool.and_eq_true, Option.any_eq_true] at hawaits
      obtain ⟨_, consumer, hconsumer, hactive, _⟩ := hawaits
      obtain ⟨url, hurl⟩ := Option.isSome_iff_exists.mp hactive
      rw [hconsumer] at hwebhook
      simp only [getWebhookConfig, hurl] at hwebhook
      split at hwebhook
      · cases hwebhook
        rfl
      · obtain ⟨_, _, rfl⟩ := Option.map_eq_some_iff.mp hwebhook
        rfl
    -- with its configuration at hand, the delivery is attempted and the rest follow, or it throws
    have hone : ∀ webhook configs, getWebhookConfig lib (w.consumers d.consumerId) = some webhook →
        (∀ c webhook, configs.lookup c = some webhook → getWebhookConfig lib (w.consumers c) = some webhook) →
        ((do if ← deliver lib () id d webhook (fates id) then deliverAll lib () n fates due configs
             else return ()).eval (Op.exec lib) w).2 =
          (((id, d) :: due).takeWhile fun r => readable lib w r.2).foldl (outcome lib fates) w := by
      intro webhook configs hwebhook hconfigs
      obtain ⟨webhook, rfl⟩ := Option.isSome_iff_exists.mp (hsome webhook hwebhook)
      cases hpayload : readPayload lib d.payload with
      | none =>
        have hunread : readable lib w d = false := by simp [readable, hwebhook, hpayload]
        rw [Prog.eval_bind, deliver_unreadable (r := (id, d)) hpayload rfl]
        simp [hunread]
      | some body =>
        have hread : readable lib w d = true := by simp [readable, hwebhook, hpayload]
        have hrest : Attempts w (outcome lib fates w (id, d)) := outcome_attempts _
        rw [Prog.eval_bind, deliver_eval (id, d) webhook (by simp [hpayload]) (hwrite id)]
        simp only [if_true]
        rw [ih configs (hrest.stopped ▸ hstopped) ?_ (hrest.consumers ▸ hconfigs)]
        · rw [List.takeWhile_cons, hread, readable_congr hrest]
          rfl
        · intro r hr
          have := hurl r (List.mem_cons_of_mem _ hr)
          rwa [World.awaits, hrest.consumers]
    unfold deliverAll
    rw [Prog.eval_bind, Prog.eval_cmd]
    simp only [Op.exec, hstopped, Bool.false_eq_true, if_false]
    cases hlookup : configs.lookup d.consumerId with
    | some webhook => exact hone webhook configs (hconfigs _ _ hlookup) hconfigs
    | none =>
      simp only [Prog.eval_bind, Prog.eval_cmd, Op.exec]
      cases hwebhook : getWebhookConfig lib (w.consumers d.consumerId) with
      | none =>
        have hunread : readable lib w d = false := by simp [readable, hwebhook]
        simp [hunread]
      | some webhook =>
        refine hone webhook ((d.consumerId, webhook) :: configs) hwebhook ?_
        intro c webhook' hc
        rw [List.lookup_cons] at hc
        split at hc
        · rename_i heq
          cases hc
          rwa [eq_of_beq heq]
        · exact hconfigs c webhook' hc

/-- The row is not up before the next second. -/
def Late (now : Nat) (d : Delivery) : Prop := d.status ≠ .pending ∨ now < d.nextAttemptAt

theorem late_attemptFailed (now : Nat) (status : Option Nat) (error : String) (d d' : Delivery) :
    Late now (Op.attemptFailed now status error (nextAttemptIn d) d') := by
  cases h : nextAttemptIn d with
  | none => exact .inl (by simp [Op.attemptFailed])
  | some seconds =>
    have hpos : 0 < seconds := by
      unfold nextAttemptIn at h
      split at h
      · cases h
      · have hall : ∀ s ∈ backoffSeconds, 0 < s := by decide
        exact hall seconds (List.mem_of_getElem? h)
    right
    simp only [Op.attemptFailed]
    omega

theorem failed_get (id id' : Nat) (status next : Option Nat) (error : String) :
    (Op.exec lib (.markAttemptFailed () id status error next .done) w).1.deliveries.get id' =
      if id' = id then (w.deliveries.get id).map (Op.attemptFailed w.now status error next)
      else w.deliveries.get id' := by
  cases h : w.deliveries.get id with
  | none =>
    by_cases hid : id' = id
    · subst hid
      simp [Op.exec, h]
    · simp [Op.exec, h, hid]
  | some d => simp [Op.exec, h, Write.applies]

variable (lib fates w) in
/-- The row's own attempt changes it, and puts it off. -/
theorem outcome_get (r : Nat × Delivery) (id : Nat) : ∃ change : Delivery → Delivery,
    (∀ d, Late w.now (change d)) ∧ (outcome lib fates w r).deliveries.get id =
      if id = r.1 then (w.deliveries.get id).map change else w.deliveries.get id := by
  have hmap : ∀ f : Delivery → Delivery,
      (if id = r.1 then (w.deliveries.get r.1).map f else w.deliveries.get id) =
        if id = r.1 then (w.deliveries.get id).map f else w.deliveries.get id := by
    intro f
    by_cases h : id = r.1
    · rw [h]
    · rw [if_neg h, if_neg h]
  unfold outcome
  split
  · rename_i code _
    split
    · refine ⟨Op.delivered w.now code, fun d => .inl (by simp [Op.delivered]), ?_⟩
      simpa [Op.exec, Write.applies] using hmap _
    · refine ⟨_, fun d => late_attemptFailed w.now (some code) s!"HTTP {code}" r.2 d, ?_⟩
      rw [failed_get]
      exact hmap _
  · rename_i message _
    refine ⟨_, fun d => late_attemptFailed w.now none message r.2 d, ?_⟩
    rw [failed_get]
    exact hmap _

theorem outcome_attempted (r : Nat × Delivery) (id : Nat) :
    attempted id (outcome lib fates w r) = (decide (r.1 = id) || attempted id w) := by
  have hfailed : ∀ (w : Outbox.World Unit) status next error, attempted id
      (Op.exec lib (.markAttemptFailed () r.1 status error next .done) w).1 = attempted id w := by
    intro w status next error
    cases h : w.deliveries.get r.1 with
    | none => simp [Op.exec, h]
    | some d => simp [Op.exec, h, Write.applies, attempted]
  unfold outcome
  split
  · split
    · simp [Op.exec, attempted, Write.applies]
    · rw [hfailed]
      simp [Op.exec, attempted]
  · rw [hfailed]
    simp [Op.exec, attempted]

theorem outcomes_attempted (due : List (Nat × Delivery)) (id : Nat) :
    attempted id (due.foldl (outcome lib fates) w) = (decide (id ∈ due.map Prod.fst) || attempted id w) := by
  induction due generalizing w with
  | nil => simp
  | cons r due ih =>
    rw [List.foldl_cons, ih, outcome_attempted]
    by_cases h : r.1 = id
    · simp [h]
    · simp only [List.map_cons, List.mem_cons, Ne.symm h, h, false_or, decide_false, Bool.false_or]

theorem outcomes_get_of_not_mem {due : List (Nat × Delivery)} {id : Nat} (h : id ∉ due.map Prod.fst) :
    (due.foldl (outcome lib fates) w).deliveries.get id = w.deliveries.get id := by
  induction due generalizing w with
  | nil => rfl
  | cons r due ih =>
    simp only [List.map_cons, List.mem_cons, not_or] at h
    obtain ⟨change, _, hget⟩ := outcome_get lib fates w r id
    rw [List.foldl_cons, ih h.2, hget, if_neg h.1]

/-- A row put off stays so. -/
theorem outcomes_late {due : List (Nat × Delivery)} {id : Nat}
    (h : ∀ d, w.deliveries.get id = some d → Late w.now d) :
    ∀ d, (due.foldl (outcome lib fates) w).deliveries.get id = some d → Late w.now d := by
  induction due generalizing w with
  | nil => exact h
  | cons r due ih =>
    obtain ⟨change, hlate, hget⟩ := outcome_get lib fates w r id
    have hnow : (outcome lib fates w r).now = w.now := (outcome_attempts r).now
    rw [List.foldl_cons, ← hnow]
    refine ih ?_
    rw [hnow, hget]
    intro d hd
    split at hd
    · obtain ⟨d', _, rfl⟩ := Option.map_eq_some_iff.mp hd
      exact hlate d'
    · exact h d hd

theorem outcomes_late_of_mem {due : List (Nat × Delivery)} {id : Nat} (h : id ∈ due.map Prod.fst) :
    ∀ d, (due.foldl (outcome lib fates) w).deliveries.get id = some d → Late w.now d := by
  induction due generalizing w with
  | nil => cases h
  | cons r due ih =>
    have hnow : (outcome lib fates w r).now = w.now := (outcome_attempts r).now
    rw [List.foldl_cons, ← hnow]
    by_cases hid : id ∈ due.map Prod.fst
    · exact ih hid
    · obtain rfl : id = r.1 := by
        rcases List.mem_cons.mp h with h | h
        · exact h
        · exact absurd h hid
      obtain ⟨change, hlate, hget⟩ := outcome_get lib fates w r r.1
      refine outcomes_late ?_
      rw [hnow, hget, if_pos rfl]
      intro d hd
      obtain ⟨d', _, rfl⟩ := Option.map_eq_some_iff.mp hd
      exact hlate d'

end cycle

/-! ## A task -/

section task

variable {lib : Primitives} {w : Outbox.World Unit} {id : Nat} {d : Delivery}

/-- What the tasks leave that attempt nothing. -/
structure Keeps (w w' : Outbox.World Unit) : Prop where
  consumers : w'.consumers = w.consumers
  now : w.now ≤ w'.now
  running : (∀ n, w.running n = false) → ∀ n, w'.running n = false
  rows : ∀ id, id < w.deliveries.nextId → w'.deliveries.get id = w.deliveries.get id
  fresh : ∀ id d, w.deliveries.get id = none → w'.deliveries.get id = some d → w.now ≤ d.nextAttemptAt
  attempted : ∀ id, attempted id w' = attempted id w

theorem Keeps.of_rows {w' : Outbox.World Unit} (hconsumers : w'.consumers = w.consumers) (hnow : w.now ≤ w'.now)
    (hrunning : (∀ n, w.running n = false) → ∀ n, w'.running n = false)
    (hrows : w'.deliveries = w.deliveries) (hhistory : w'.history = w.history) : Keeps w w' where
  consumers := hconsumers
  now := hnow
  running := hrunning
  rows := fun _ _ => by rw [hrows]
  fresh := by
    intro id d hnone hd
    rw [hrows, hnone] at hd
    cases hd
  attempted := fun id => by rw [ConsumerIsolation.attempted, hhistory, ConsumerIsolation.attempted]

variable (lib) in
theorem perform_keeps {task : Task} (hplain : Plain task) (hno : dispatches w task = false) :
    Keeps w (perform lib w task) := by
  cases task with
  | redeliver => exact hplain.elim
  | enqueue consumerId eventType payload dedupeKey =>
    simp only [perform, Task.code, Prog.eval_bind, Prog.eval_cmd, Op.exec]
    split
    · exact .of_rows rfl (Nat.le_refl _) (fun h => h) rfl rfl
    · refine ⟨rfl, Nat.le_refl _, fun h => h, fun id hid => ?_, fun id d hnone hd => ?_, fun _ => rfl⟩
      · simp [hid.ne]
      · by_cases hid : id = w.deliveries.nextId
        · simp only [hid, Prog.pure_eq, Prog.eval_ret, Table.get_insert, if_true, Option.some.injEq] at hd
          subst hd
          exact Nat.le_refl _
        · simp [hid, hnone] at hd
  | stop n =>
    simp only [perform, Task.code, Prog.eval_bind, Prog.eval_cmd, Op.exec]
    split
    · exact .of_rows rfl (Nat.le_refl _) (fun h => h) rfl rfl
    · exact .of_rows rfl (Nat.le_refl _) (fun h => h) rfl rfl
  | lapse => exact .of_rows rfl (Nat.le_refl _) (fun h => h) rfl rfl
  | pass seconds => exact .of_rows rfl (Nat.le_add_right _ _) (fun h => h) rfl rfl
  | tick n fates =>
    have hleave : ∀ lease, Keeps w { w with
        lease
        running := Function.update (Function.update w.running n true) n false } := by
      intro lease
      refine .of_rows rfl (Nat.le_refl _) (fun h m => ?_) rfl rfl
      by_cases hm : m = n
      · simp [hm]
      · simp [hm, h m]
    simp only [perform, Task.code, tick, Prog.eval_bind, Prog.eval_cmd, Op.exec]
    by_cases henter : (w.running n || w.stopped n) = true
    · simp only [henter, if_true]
      exact .of_rows rfl (Nat.le_refl _) (fun h => h) rfl rfl
    · simp only [henter, if_false, if_true, Bool.false_eq_true]
      have hlease : w.lease.isNone = false ∧ ¬ w.lease = some n := by
        simp only [Bool.or_eq_true, not_or, Bool.not_eq_true] at henter
        simpa [dispatches, henter.1, henter.2] using hno
      simp only [holdLease, Prog.eval_bind, Prog.eval_cmd, Op.exec, hlease.2, hlease.1, decide_false,
        Bool.false_eq_true, if_false]
      exact hleave w.lease

variable (lib) in
/-- A cycle attempts the due deliveries up to the first unreadable one. -/
theorem perform_tick {n : Nat} {fates : Nat → Fate} (hwrite : ∀ id, (fates id).write = .done)
    (hyes : dispatches w (.tick n fates) = true) : ∃ w₁ : Outbox.World Unit,
      w₁.deliveries = w.deliveries ∧ w₁.consumers = w.consumers ∧ w₁.now = w.now ∧ w₁.stopped = w.stopped ∧
        w₁.lease = some n ∧ w₁.running = Function.update w.running n true ∧
        (∀ id, attempted id w₁ = attempted id w) ∧
        perform lib w (.tick n fates) = (Op.exec lib (.leave n)
          (((w.findDue batchSize).takeWhile fun r => readable lib w r.2).foldl (outcome lib fates) w₁)).1 := by
  simp only [dispatches, Bool.and_eq_true, Bool.not_eq_true', Bool.or_eq_true, decide_eq_true_eq] at hyes
  obtain ⟨⟨hrunning, hstopped⟩, hlease⟩ := hyes
  refine ⟨{ w with
    running := Function.update w.running n true
    lease := some n
    history := .read () ((w.findDue batchSize).map Prod.fst) :: w.history },
    rfl, rfl, rfl, rfl, rfl, rfl, fun _ => rfl, ?_⟩
  -- the lease is the worker's, renewed or taken
  have hheld : (holdLease n : Outbox.Code Unit Bool).eval (Op.exec lib)
      { w with running := Function.update w.running n true } =
        (true, { w with running := Function.update w.running n true, lease := some n }) := by
    unfold holdLease
    rcases hlease with hnone | hheld
    · have hne : ¬ w.lease = some n := by
        rw [Option.isNone_iff_eq_none.mp hnone]
        exact nofun
      simp [Prog.eval_bind, Op.exec, hnone, hne]
    · simp [Prog.eval_bind, Op.exec, hheld]
  simp only [perform, Task.code, tick, Prog.eval_bind, Prog.eval_cmd, Op.exec, hrunning, hstopped,
    Bool.or_self, Bool.false_eq_true, if_false, if_true]
  rw [hheld]
  simp only [if_true, Prog.eval_bind, Prog.eval_cmd, Op.exec]
  rw [deliverAll_eval hwrite]
  · rfl
  · exact hstopped
  · intro r hr
    have hdue := (World.of_mem_findDue hr).2
    rw [World.due, Bool.and_eq_true] at hdue
    exact hdue.1
  · intro c webhook hc
    cases hc

/-- The deliveries a cycle attempts. -/
def taken (lib : Primitives) (w : Outbox.World Unit) : List (Nat × Delivery) :=
  (w.findDue batchSize).takeWhile fun r => readable lib w r.2

/-- What a cycle leaves. -/
structure Cycled (lib : Primitives) (w w' : Outbox.World Unit) (n : Nat) : Prop where
  consumers : w'.consumers = w.consumers
  now : w'.now = w.now
  stopped : w'.stopped = w.stopped
  lease : w'.lease = some n
  running : (∀ m, w.running m = false) → ∀ m, w'.running m = false
  rest : ∀ id, id ∉ (taken lib w).map Prod.fst → w'.deliveries.get id = w.deliveries.get id
  late : ∀ id ∈ (taken lib w).map Prod.fst, ∀ d, w'.deliveries.get id = some d → Late w.now d
  attempted : ∀ id, attempted id w' = (decide (id ∈ (taken lib w).map Prod.fst) || attempted id w)

theorem perform_cycled {n : Nat} {fates : Nat → Fate} (hwrite : ∀ id, (fates id).write = .done)
    (hyes : dispatches w (.tick n fates) = true) : Cycled lib w (perform lib w (.tick n fates)) n := by
  obtain ⟨w₁, hrows, hconsumers, hnow, hstopped, hlease, hrunning, hattempted, heq⟩ :=
    perform_tick lib hwrite hyes
  have hkeep : Attempts w₁ ((taken lib w).foldl (outcome lib fates) w₁) := outcomes_attempts _
  rw [heq]
  constructor
  · exact hkeep.consumers.trans hconsumers
  · exact hkeep.now.trans hnow
  · exact hkeep.stopped.trans hstopped
  · exact hkeep.lease.trans hlease
  · intro h m
    have hrun : ((taken lib w).foldl (outcome lib fates) w₁).running = Function.update w.running n true :=
      hkeep.running.trans hrunning
    by_cases hm : m = n
    · simp [Op.exec, hm]
    · simp only [Op.exec, Function.update_of_ne hm]
      rw [taken] at hrun
      rw [hrun, Function.update_of_ne hm, h m]
  · intro id hid
    exact (outcomes_get_of_not_mem hid).trans (by rw [hrows])
  · intro id hid d hd
    exact hnow ▸ outcomes_late_of_mem hid d hd
  · intro id
    rw [← hattempted id]
    exact outcomes_attempted _ id

theorem mem_ahead {id' : Nat} : id' ∈ ahead w id d ↔
    id' ≠ id ∧ ∃ d', w.deliveries.get id' = some d' ∧ w.awaits d' = true ∧ Precedes (id', d') (id, d) := by
  simp only [ahead, Finset.mem_filter, Finset.mem_range, Option.any_eq_true, Bool.and_eq_true, decide_eq_true_eq]
  constructor
  · rintro ⟨_, hne, d', hd', h⟩
    exact ⟨hne, d', hd', h⟩
  · rintro ⟨hne, d', hd', h⟩
    exact ⟨Table.lt_nextId hd', hne, d', hd', h⟩

/-- A due delivery that can be read, with nothing unreadable ahead of it. -/
structure Waiting (lib : Primitives) (w : Outbox.World Unit) (id : Nat) (d : Delivery) : Prop where
  row : w.deliveries.get id = some d
  due : w.due d = true
  self : readable lib w d = true
  free : ∀ n, w.running n = false
  clear : ∀ id' ∈ ahead w id d, ∀ d', w.deliveries.get id' = some d' → readable lib w d' = true

theorem due_le (h : w.due d = true) : w.awaits d = true ∧ d.nextAttemptAt ≤ w.now := by
  simpa [World.due] using h

/-- What a delivery waits with only gets less, if rows ahead of it are those that were. -/
theorem Waiting.less {w' : Outbox.World Unit} (h : Waiting lib w id d) (hconsumers : w'.consumers = w.consumers)
    (hnow : w.now ≤ w'.now) (hfree : ∀ n, w'.running n = false) (hrow : w'.deliveries.get id = some d)
    (hahead : ∀ id' d', id' ≠ id → w'.deliveries.get id' = some d' → w.awaits d' = true →
      Precedes (id', d') (id, d) → w.deliveries.get id' = some d') :
    Waiting lib w' id d ∧ ahead w' id d ⊆ ahead w id d := by
  have hawaits : w'.awaits = w.awaits := by
    funext d'
    rw [World.awaits, World.awaits, hconsumers]
  have hreadable : readable lib w' = readable lib w := by
    funext d'
    rw [readable, readable, hconsumers]
  have hsub : ∀ id' d', id' ∈ ahead w' id d → w'.deliveries.get id' = some d' →
      w.deliveries.get id' = some d' ∧ id' ∈ ahead w id d := by
    intro id' d' hmem hd'
    obtain ⟨hne, d₁, hd₁, hwaits, hbefore⟩ := mem_ahead.mp hmem
    cases hd'.symm.trans hd₁
    rw [hawaits] at hwaits
    have hget := hahead id' d' hne hd' hwaits hbefore
    exact ⟨hget, mem_ahead.mpr ⟨hne, d', hget, hwaits, hbefore⟩⟩
  refine ⟨⟨hrow, ?_, hreadable ▸ h.self, hfree, ?_⟩, ?_⟩
  · obtain ⟨hwaits, hle⟩ := due_le h.due
    rw [World.due, hawaits, hwaits]
    simpa using hle.trans hnow
  · intro id' hmem d' hd'
    obtain ⟨hget, hbefore⟩ := hsub id' d' hmem hd'
    rw [hreadable]
    exact h.clear id' hbefore d' hget
  · intro id' hmem
    obtain ⟨_, d', hd', _⟩ := mem_ahead.mp hmem
    exact (hsub id' d' hmem hd').2

theorem Waiting.keeps {w' : Outbox.World Unit} (h : Waiting lib w id d) (hkeeps : Keeps w w') :
    Waiting lib w' id d ∧ ahead w' id d ⊆ ahead w id d := by
  have hid := Table.lt_nextId h.row
  refine h.less hkeeps.consumers hkeeps.now (hkeeps.running h.free) ((hkeeps.rows id hid).trans h.row) ?_
  intro id' d' _ hd' _ hbefore
  by_cases hold : id' < w.deliveries.nextId
  · rwa [hkeeps.rows id' hold] at hd'
  · have hnone := w.deliveries.absent id' (Nat.le_of_not_lt hold)
    have hfresh := hkeeps.fresh id' d' hnone hd'
    have hdue := (due_le h.due).2
    simp only [Precedes] at hbefore
    omega

/-- Whatever is sorted before a readable delivery that has nothing unreadable ahead
of it is readable. -/
theorem Waiting.readable_of_before (h : Waiting lib w id d) {r : Nat × Delivery} (hr : r ∈ w.findDue batchSize)
    (hne : r.1 ≠ id) (hbefore : Precedes r (id, d)) : r.1 ∈ ahead w id d ∧ readable lib w r.2 = true := by
  obtain ⟨hget, hdue⟩ := World.of_mem_findDue hr
  have hmem : r.1 ∈ ahead w id d := mem_ahead.mpr ⟨hne, r.2, hget, (due_le hdue).1, hbefore⟩
  exact ⟨hmem, h.clear r.1 hmem r.2 hget⟩

/-- A batch without it is of deliveries before it, and full. -/
theorem Waiting.full (h : Waiting lib w id d) (hout : (id, d) ∉ w.findDue batchSize) :
    w.findDue batchSize ≠ [] ∧ ∀ r ∈ w.findDue batchSize, Precedes r (id, d) := by
  have := precedes_total
  have := precedes_trans
  have hdue : (id, d) ∈ (w.rows.filter fun r => w.due r.2).insertionSort Precedes := by
    rw [List.mem_insertionSort, List.mem_filter, World.mem_rows]
    exact ⟨h.row, h.due⟩
  have hsorted := List.pairwise_insertionSort Precedes (w.rows.filter fun r => w.due r.2)
  rw [← List.take_append_drop (safeLimit batchSize) (List.insertionSort _ _)] at hdue hsorted
  rcases List.mem_append.mp hdue with hmem | hmem
  · exact absurd hmem hout
  · refine ⟨?_, fun r hr => (List.pairwise_append.mp hsorted).2.2 r hr _ hmem⟩
    have hlong := List.length_pos_of_mem hmem
    rw [List.length_drop] at hlong
    apply List.ne_nil_of_length_pos
    rw [World.findDue, List.length_take]
    have : safeLimit batchSize = 50 := rfl
    omega

/-- A cycle attempts it, or takes up the first fifty deliveries ahead of it. -/
theorem Waiting.cycled {w' : Outbox.World Unit} {n : Nat} (h : Waiting lib w id d) (hcycled : Cycled lib w w' n) :
    attempted id w' = true ∨ Waiting lib w' id d ∧ ahead w' id d ⊂ ahead w id d := by
  by_cases htaken : id ∈ (taken lib w).map Prod.fst
  · left
    rw [hcycled.attempted, decide_eq_true htaken]
    rfl
  right
  have hrow : w'.deliveries.get id = some d := (hcycled.rest id htaken).trans h.row
  obtain ⟨hless, hsub⟩ := h.less hcycled.consumers hcycled.now.ge (hcycled.running h.free) hrow (by
    intro id' d' _ hd' hwaits hbefore
    by_cases hmem : id' ∈ (taken lib w).map Prod.fst
    · have hdue := (due_le h.due).2
      simp only [World.awaits, Bool.and_eq_true, decide_eq_true_eq] at hwaits
      simp only [Precedes] at hbefore
      rcases hcycled.late id' hmem d' hd' with hstatus | hlate
      · exact absurd hwaits.1 hstatus
      · omega
    · rwa [hcycled.rest id' hmem] at hd')
  refine ⟨hless, hsub, ?_⟩
  have hsorted := findDue_sorted w batchSize
  have hne_of : ∀ r ∈ w.findDue batchSize, r ≠ (id, d) → r.1 ≠ id := by
    intro r hr hne hid
    obtain ⟨hget, _⟩ := World.of_mem_findDue hr
    rw [hid, h.row] at hget
    cases hget
    exact hne (Prod.ext hid rfl)
  have hout : (id, d) ∉ w.findDue batchSize := by
    intro hmem
    refine htaken (List.mem_map_of_mem (f := Prod.fst) (mem_takeWhile_of_clear hsorted hmem h.self ?_))
    intro r hr hne hbefore
    exact (h.readable_of_before hr (hne_of r hr hne) hbefore).2
  obtain ⟨hnonempty, hbefore⟩ := h.full hout
  have hall : ∀ r ∈ w.findDue batchSize, r.1 ∈ ahead w id d ∧ readable lib w r.2 = true := by
    intro r hr
    have hne : r ≠ (id, d) := by
      rintro rfl
      exact hout hr
    exact h.readable_of_before hr (hne_of r hr hne) (hbefore r hr)
  have htake : taken lib w = w.findDue batchSize := List.takeWhile_eq_self_iff.mpr fun r hr => (hall r hr).2
  -- a row of the batch was ahead, and is so no more
  obtain ⟨r, hr⟩ := List.exists_mem_of_ne_nil _ hnonempty
  intro hback
  obtain ⟨_, d', hd', hwaits, hprecedes⟩ := mem_ahead.mp (hback (hall r hr).1)
  have hlate := hcycled.late r.1 (htake ▸ List.mem_map_of_mem hr) d' hd'
  have hle := (due_le h.due).2
  simp only [World.awaits, Bool.and_eq_true, decide_eq_true_eq] at hwaits
  simp only [Precedes] at hprecedes
  rcases hlate with hstatus | hlate
  · exact hstatus hwaits.1
  · omega

/-- The step: it is attempted, or waits behind no more than before, and behind fewer
after a cycle. -/
theorem Waiting.step (h : Waiting lib w id d) {task : Task} (hplain : Plain task) :
    attempted id (perform lib w task) = true ∨ Waiting lib (perform lib w task) id d ∧
      (ahead (perform lib w task) id d).card + (if dispatches w task then 1 else 0) ≤ (ahead w id d).card := by
  cases hdispatch : dispatches w task with
  | false =>
    obtain ⟨hwaiting, hsub⟩ := h.keeps (perform_keeps lib hplain hdispatch)
    exact .inr ⟨hwaiting, by simpa using Finset.card_le_card hsub⟩
  | true =>
    cases task with
    | tick n fates =>
      rcases h.cycled (perform_cycled hplain hdispatch) with hdone | ⟨hwaiting, hsub⟩
      · exact .inl hdone
      · refine .inr ⟨hwaiting, ?_⟩
        rw [if_pos rfl]
        exact Finset.card_lt_card hsub
    | _ => cases hdispatch

theorem attempted_perform {task : Task} (hplain : Plain task) (h : attempted id w = true) :
    attempted id (perform lib w task) = true := by
  cases hdispatch : dispatches w task with
  | false => rwa [(perform_keeps lib hplain hdispatch).attempted]
  | true =>
    cases task with
    | tick n fates =>
      rw [(perform_cycled hplain hdispatch).attempted, h, Bool.or_true]
    | _ => cases hdispatch

theorem attempted_performAll {tasks : List Task} (hplain : ∀ task ∈ tasks, Plain task) (h : attempted id w = true) :
    attempted id (performAll lib w tasks) = true := by
  induction tasks generalizing w with
  | nil => exact h
  | cons task tasks ih =>
    rw [List.forall_mem_cons] at hplain
    exact ih hplain.2 (attempted_perform hplain.1 h)

/-- One cycle more than there are deliveries ahead is enough. -/
theorem Waiting.run {tasks : List Task} (h : Waiting lib w id d) (hplain : ∀ task ∈ tasks, Plain task)
    (henough : (ahead w id d).card < cycles lib w tasks) : attempted id (performAll lib w tasks) = true := by
  induction tasks generalizing w with
  | nil => cases henough
  | cons task tasks ih =>
    rw [List.forall_mem_cons] at hplain
    rcases h.step hplain.1 with hdone | ⟨hwaiting, hless⟩
    · have hrest : attempted id (performAll lib (perform lib w task) tasks) = true :=
        attempted_performAll hplain.2 hdone
      exact hrest
    · refine ih hwaiting hplain.2 ?_
      rw [cycles] at henough
      omega

/-! ## What is behind an unreadable delivery -/

/-- Worker `n` may dispatch, and an unreadable delivery is before the one that is due. -/
structure Blocked (lib : Primitives) (w : Outbox.World Unit) (n : Nat) (id : Nat) (d : Delivery) (bad : Nat × Delivery) :
    Prop where
  due : w.due d = true
  row : w.deliveries.get bad.1 = some bad.2
  waits : w.awaits bad.2 = true
  other : bad.1 ≠ id
  before : Precedes bad (id, d)
  unread : readable lib w bad.2 = false
  free : ∀ m, w.running m = false
  up : w.stopped n = false
  lease : w.lease.isNone ∨ w.lease = some n
  behind : w.deliveries.get id = some d
  untouched : attempted id w = false

theorem Blocked.dispatches {n : Nat} {bad : Nat × Delivery} (h : Blocked lib w n id d bad) (fates : Nat → Fate) :
    dispatches w (.tick n fates) = true := by
  rcases h.lease with hnone | hheld
  · simp [ConsumerIsolation.dispatches, h.free n, h.up, hnone]
  · simp [ConsumerIsolation.dispatches, h.free n, h.up, hheld]

/-- No cycle gets past it. -/
theorem Blocked.cycled {w' : Outbox.World Unit} {n : Nat} {bad : Nat × Delivery} (h : Blocked lib w n id d bad)
    (hcycled : Cycled lib w w' n) : Blocked lib w' n id d bad := by
  have hsorted := findDue_sorted w batchSize
  have hback : ¬ Precedes (id, d) bad := fun hback => h.other (precedes_antisymm h.before hback)
  have hbad : bad ∉ taken lib w := by
    intro hmem
    have hread := List.mem_takeWhile_imp hmem
    rw [h.unread] at hread
    cases hread
  have hbadDue : bad ∈ (w.rows.filter fun r => w.due r.2).insertionSort Precedes := by
    rw [List.mem_insertionSort, List.mem_filter, World.mem_rows]
    refine ⟨h.row, ?_⟩
    have hle := (due_le h.due).2
    have hbefore := h.before
    simp only [Precedes] at hbefore
    rw [World.due, h.waits]
    simp only [Bool.true_and, decide_eq_true_eq]
    omega
  have hid : id ∉ (taken lib w).map Prod.fst := by
    intro hmem
    obtain ⟨r, hr, hrid⟩ := List.mem_map.mp hmem
    have hrow := (World.of_mem_findDue (List.takeWhile_subset _ hr)).1
    rw [hrid, h.behind] at hrow
    cases hrow
    have hr : (id, r.2) ∈ taken lib w := by rwa [← hrid]
    have := precedes_total
    have := precedes_trans
    exact hbad (mem_takeWhile_of_before hsorted hr (mem_take_of_before (List.pairwise_insertionSort Precedes _)
      (List.takeWhile_subset _ hr) hbadDue hback) hback)
  have hbadId : bad.1 ∉ (taken lib w).map Prod.fst := by
    intro hmem
    obtain ⟨r, hr, hrid⟩ := List.mem_map.mp hmem
    have hrow := (World.of_mem_findDue (List.takeWhile_subset _ hr)).1
    rw [hrid, h.row] at hrow
    refine hbad ?_
    have : bad = r := Prod.ext hrid.symm (Option.some.inj hrow)
    rwa [this]
  have hawaits : w'.awaits = w.awaits := by
    funext d'
    rw [World.awaits, World.awaits, hcycled.consumers]
  constructor
  · rw [World.due, hawaits, hcycled.now]
    exact h.due
  · exact (hcycled.rest _ hbadId).trans h.row
  · rw [hawaits]
    exact h.waits
  · exact h.other
  · exact h.before
  · rw [readable, hcycled.consumers]
    exact h.unread
  · exact hcycled.running h.free
  · rw [hcycled.stopped]
    exact h.up
  · exact .inr hcycled.lease
  · exact (hcycled.rest _ hid).trans h.behind
  · rw [hcycled.attempted, h.untouched, decide_eq_false hid]
    rfl

/-- Every delivery is answered 200. -/
def allOk (_ : Nat) : Fate := ⟨.status 200, .done, .done⟩

theorem Blocked.run {n : Nat} {bad : Nat × Delivery} (h : Blocked lib w n id d bad) (k : Nat) :
    k ≤ cycles lib w (List.replicate k (.tick n allOk)) ∧
      attempted id (performAll lib w (List.replicate k (.tick n allOk))) = false := by
  induction k generalizing w with
  | zero => exact ⟨Nat.le_refl _, h.untouched⟩
  | succ k ih =>
    have hdispatch := h.dispatches allOk
    obtain ⟨hcycles, huntouched⟩ := ih (h.cycled (perform_cycled (fun _ => rfl) hdispatch))
    refine ⟨?_, huntouched⟩
    rw [List.replicate_succ, cycles, hdispatch, if_pos rfl]
    omega

/-- A due delivery that can be read is attempted in finitely many cycles, whatever the
others do, if and only if every delivery sorted before it can be read. -/
theorem soonAttempted_iff (hw : Between w) (hrow : w.deliveries.get id = some d) (hdue : w.due d = true)
    (hread : readable lib w d = true) :
    SoonAttempted lib w id ↔
      ∀ id' ∈ ahead w id d, ∀ d', w.deliveries.get id' = some d' → readable lib w d' = true := by
  constructor
  · rintro ⟨enough, hsoon⟩ id' hmem d' hd'
    by_contra hunread
    obtain ⟨hne, d₁, hd₁, hwaits, hbefore⟩ := mem_ahead.mp hmem
    cases hd'.symm.trans hd₁
    obtain ⟨n, hup, hlease⟩ := hw.up
    have huntouched : attempted id w = false := by
      rw [attempted, hw.history]
      rfl
    have hblocked : Blocked lib w n id d (id', d') :=
      ⟨hdue, hd', hwaits, hne, hbefore, Bool.eq_false_iff.mpr hunread, hw.running, hup, hlease, hrow, huntouched⟩
    obtain ⟨hcycles, hnever⟩ := hblocked.run enough
    have hplain : ∀ task ∈ List.replicate enough (Task.tick n allOk), Plain task := by
      intro task htask
      rw [List.eq_of_mem_replicate htask]
      exact fun _ => rfl
    have := hsoon _ hplain hcycles
    rw [hnever] at this
    cases this
  · intro hclear
    have hwaiting : Waiting lib w id d := ⟨hrow, hdue, hread, hw.running, hclear⟩
    exact ⟨(ahead w id d).card + 1, fun tasks hplain henough => hwaiting.run hplain henough⟩

end task

/-! ## One consumer's secret -/

section twoConsumers

def noKeys : Primitives := ⟨fun _ _ _ => none, some⟩

def event (consumerId : Nat) (_ : Nat) : Delivery :=
  { consumerId, eventType := "call.ended", payload := .parsed "null", nextAttemptAt := 0 }

/-- An event of a consumer whose secret is no ciphertext, and one of a consumer without
a secret; `first` has the earlier row. -/
def twoConsumers (first second : Nat) : Outbox.World Unit where
  deliveries := .ofList [event first, event second]
  consumers id :=
    if id = 1 then some ⟨some "https://crm.example/events", some ["secret"], true⟩
    else if id = 2 then some ⟨some "https://shop.example/events", none, true⟩ else none
  now := 0

theorem between_twoConsumers (first second : Nat) : Between (twoConsumers first second) :=
  ⟨fun _ => rfl, ⟨1, rfl, .inl rfl⟩, rfl⟩

/-- Its own event comes first. -/
theorem soonAttempted_first : SoonAttempted noKeys (twoConsumers 2 1) 1 := by
  refine (soonAttempted_iff (between_twoConsumers 2 1) (d := event 2 1) rfl (by decide) (by decide)).mpr ?_
  have hnone : ahead (twoConsumers 2 1) 1 (event 2 1) = ∅ := by decide
  simp [hnone]

/-- An unreadable secret of one consumer holds up the other's event for good. -/
theorem not_soonAttempted_second :
    (twoConsumers 1 2).due (event 2 2) = true ∧ readable noKeys (twoConsumers 1 2) (event 2 2) = true ∧
      ¬ SoonAttempted noKeys (twoConsumers 1 2) 2 := by
  refine ⟨by decide, by decide, ?_⟩
  rintro ⟨enough, hsoon⟩
  have hblocked : Blocked noKeys (twoConsumers 1 2) 1 2 (event 2 2) (1, event 1 1) :=
    ⟨by decide, rfl, by decide, by decide, by decide, by decide, fun _ => rfl, rfl, .inl rfl, rfl, rfl⟩
  obtain ⟨hcycles, hnever⟩ := hblocked.run enough
  have hplain : ∀ task ∈ List.replicate enough (Task.tick 1 allOk), Plain task := by
    intro task htask
    rw [List.eq_of_mem_replicate htask]
    exact fun _ => rfl
  have := hsoon _ hplain hcycles
  rw [hnever] at this
  cases this

end twoConsumers

end Callio.ConsumerIsolation
