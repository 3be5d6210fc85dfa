import Callio.Outbox.Deliveries

/-! An event's delivery state. Attempts are counted from a row read before the
request and written back after it: a batch may overlap another dispatcher's, and a
redeliver may come in between. As long as no outcome is written that an overlap has
made stale, an event that was answered stays delivered, and one that was not has
its twelve attempts before it is given up. -/

namespace Callio.DeliveryStates

open Concurrency Outbox Store

/-! ## The record of an event since its last redeliver -/

section record

variable {ι : Type}

/-- Somebody's attempt was answered 2xx. -/
def answeredOk (id : Nat) : List (Happening ι) → Bool
  | [] => false
  | .redelivered id' :: h => id' ≠ id && answeredOk id h
  | .answered _ id' a :: h => (id' = id && a.ok) || answeredOk id h
  | _ :: h => answeredOk id h

/-- The ticks whose failures were counted. -/
def countedSince (id : Nat) : List (Happening ι) → List ι
  | [] => []
  | .redelivered id' :: h => if id' = id then [] else countedSince id h
  | .counted i id' :: h => if id' = id then i :: countedSince id h else countedSince id h
  | _ :: h => countedSince id h

variable [DecidableEq ι]

/-- Tick `i` read the row. -/
def readSince (i : ι) (id : Nat) : List (Happening ι) → Bool
  | [] => false
  | .redelivered id' :: h => id' ≠ id && readSince i id h
  | .read i' ids :: h => (i' = i && ids.contains id) || readSince i id h
  | _ :: h => readSince i id h

/-- The ticks whose attempts failed, of those that read the row. -/
def failedAttempts (id : Nat) : List (Happening ι) → List ι
  | [] => []
  | .redelivered id' :: h => if id' = id then [] else failedAttempts id h
  | .answered i id' a :: h =>
      if id' = id && !a.ok && readSince i id h then i :: failedAttempts id h else failedAttempts id h
  | _ :: h => failedAttempts id h

end record

/-! ## The property, and what breaks it -/

section property

variable {ι : Type} [DecidableEq ι]

/-- What is written by tick `i` is not stale: it marks delivered what was answered
since the last redeliver, and it counts a failure once, of an attempt begun since
then, and gives up only what nobody had answered. -/
def clean (i : ι) (w : Outbox.World ι) : Op ι → Bool
  | .markDelivered _ id _ write => !write.applies || answeredOk id w.history
  | .markAttemptFailed _ id _ _ nextAttemptInSeconds write =>
      !write.applies ||
        (readSince i id w.history && !(countedSince id w.history).contains i &&
          (nextAttemptInSeconds.isSome || !answeredOk id w.history))
  | _ => true

/-- Events just written, and nothing that happened to them. -/
structure Fresh (w : Outbox.World ι) : Prop where
  history : w.history = []
  rows : ∀ id d, w.deliveries.get id = some d →
    d.status = .pending ∧ d.attempts = 0 ∧ d.nextAttemptAt ≤ w.now

/-- An event that nobody answered has its schedule: after fewer than twelve failed
attempts it waits for another, with no more of them counted than there were. -/
def Scheduled (w : Outbox.World ι) (id : Nat) : Prop :=
  ∀ d, w.deliveries.get id = some d → answeredOk id w.history = false →
    (failedAttempts id w.history).length < maxAttempts →
      d.status = .pending ∧ d.attempts ≤ (failedAttempts id w.history).length ∧
        d.nextAttemptAt ≤ w.now + 3600

/-- An event that was given up has had its twelve failed attempts. -/
def GivenUp (w : Outbox.World ι) (id : Nat) : Prop :=
  ∀ d, w.deliveries.get id = some d → d.status = .failed →
    maxAttempts ≤ (failedAttempts id w.history).length

/-- A move from `w` to `w'` takes an event that was answered no further, but for a
redeliver. -/
def StaysAnswered (w w' : Outbox.World ι) (id : Nat) : Prop :=
  answeredOk id w.history = true → ∀ d d', w.deliveries.get id = some d → w'.deliveries.get id = some d' →
    (d'.status = .failed → d.status = .failed) ∧
      (d'.status = .pending → d.status = .pending ∨ w'.history = .redelivered id :: w.history)

variable (lib : Primitives) (tasks : ι → Task) (w : Outbox.World ι) (schedule : List ι)

/-- After the schedule's first `k` moves. -/
def after (k : Nat) : Config (@Op.Res ι) (Outbox.World ι) ι :=
  run (Op.exec lib) (Config.spawn w fun i => (tasks i).code lib i) (schedule.take k)

def Sound : Prop :=
  (∀ d, giveUp d = false → attemptsMade d - 1 < backoffSeconds.length) ∧
    (∀ k ≤ schedule.length, ∀ id,
      Scheduled (after lib tasks w schedule k).state id ∧ GivenUp (after lib tasks w schedule k).state id) ∧
    ∀ k < schedule.length, ∀ id,
      StaysAnswered (after lib tasks w schedule k).state (after lib tasks w schedule (k + 1)).state id

/-- No move of the run writes what is stale. -/
def CleanRun : Prop :=
  ∀ k (hk : k < schedule.length),
    ((after lib tasks w schedule k).next schedule[k]).all
      (clean schedule[k] (after lib tasks w schedule k).state) = true

instance : Decidable (CleanRun lib tasks w schedule) :=
  decidable_of_iff (∀ k : Fin schedule.length, ((after lib tasks w schedule k).next schedule[k]).all
    (clean schedule[k] (after lib tasks w schedule k).state) = true) Fin.forall_iff

end property

/-! ## What a tick does to one event -/

inductive Attempt
  | out
  | reading (d : Delivery)
  | answered (d : Delivery) (answer : Answer)

/-- The row the attempt goes by. -/
def Attempt.row : Attempt → Option Delivery
  | out => none
  | reading d | answered d _ => some d

section protocol

variable {ι : Type}

def next (id : Nat) (p : ι × Attempt) : (op : Op ι) → op.Res → ι × Attempt
  | .findDue _ _, batch =>
      match batch.rows.find? (·.1 = id) with
      | some (_, d) => (p.1, .reading d)
      | none => p
  | .post _ id' _ _, answer =>
      if id' = id then
        match p.2 with
        | .reading d => (p.1, .answered d answer)
        | _ => p
      else p
  | _, _ => p

def allows (id : Nat) (p : ι × Attempt) : Op ι → Prop
  | .findDue i _ => i = p.1 ∧ p.2 = .out
  | .post i id' _ _ => i = p.1 ∧ (id' = id → ∃ d, p.2 = .reading d)
  | .markDelivered i id' _ _ => i = p.1 ∧ (id' = id → ∃ d a, p.2 = .answered d a)
  | .markAttemptFailed i id' _ _ next _ =>
      i = p.1 ∧ (id' = id → ∃ d a, p.2 = .answered d a ∧ next = nextAttemptIn d)
  | _ => True

/-- A tick under its name reads an event once, asks its consumer once, and writes
what came of it. -/
def protocol (id : Nat) : Protocol (@Op.Res ι) := ⟨ι × Attempt, next id, allows id⟩

variable (lib : Primitives) {id : Nat} {i : ι}

variable (i) in
theorem failed_follows {id' : Nat} {d : Delivery} {q : Attempt} (hq : id' = id → ∃ a, q = .answered d a)
    (status : Option Nat) (error : String) (write : Write) :
    (failed i id' d status error write).Follows (protocol id) (i, q) fun _ p => p = (i, q) := by
  refine ⟨⟨rfl, fun h => ?_⟩, fun _ => rfl⟩
  obtain ⟨a, ha⟩ := hq h
  exact ⟨d, a, ha, rfl⟩

theorem deliver_follows {id' : Nat} {d : Delivery} {q : Attempt} (hq : id' = id → q = .reading d)
    (webhook : Option Webhook) (fate : Fate) :
    (deliver lib i id' d webhook fate).Follows (protocol id) (i, q)
      fun _ p => p.1 = i ∧ (id' ≠ id → p = (i, q)) := by
  have hkeep : ∀ q' : Attempt, (id' ≠ id → q' = q) → ∀ p : ι × Attempt, p = (i, q') →
      p.1 = i ∧ (id' ≠ id → p = (i, q)) := by
    rintro q' hq' p rfl
    exact ⟨rfl, fun h => by rw [hq' h]⟩
  unfold deliver
  split
  · exact ⟨rfl, fun _ => rfl⟩
  rename_i webhook
  split
  · exact ⟨rfl, fun _ => rfl⟩
  rename_i body _
  refine (Prog.follows_cmd_bind _ _ _ _).mpr ⟨⟨rfl, fun h => ⟨d, hq h⟩⟩, fun answer => ?_⟩
  obtain ⟨q', hnext, hq', hans⟩ : ∃ q', (protocol id).next (i, q)
      (.post i id' ⟨webhook.url, d.eventType, webhook.secret, body⟩ fate.answer) answer = (i, q') ∧
      (id' ≠ id → q' = q) ∧ (id' = id → ∃ a, q' = .answered d a) := by
    by_cases h : id' = id
    · exact ⟨.answered d answer, by simp [protocol, next, h, hq h], fun hne => absurd h hne, fun _ => ⟨answer, rfl⟩⟩
    · exact ⟨q, by simp [protocol, next, h], fun _ => rfl, fun h' => absurd h' h⟩
  rw [hnext]
  have hfailed := fun status error write =>
    (failed_follows i hans status error write).mono fun _ => hkeep q' hq'
  cases answer with
  | status code =>
    have hwrite : (recordAnswer i id' d code fate.write).Follows
        (protocol id) (i, q') fun _ p => p = (i, q') := by
      unfold recordAnswer
      split
      · refine ⟨⟨rfl, fun h => ?_⟩, fun _ => rfl⟩
        obtain ⟨a, ha⟩ := hans h
        exact ⟨d, a, ha⟩
      · exact failed_follows i hans _ _ _
    refine hwrite.bind ?_
    rintro thrown p rfl
    cases thrown with
    | none => exact hkeep q' hq' _ rfl
    | some error =>
      refine (hfailed (some code) error fate.rewrite).bind ?_
      intro thrown p hp
      exact hp
  | error message =>
    refine (hfailed none message fate.write).bind ?_
    intro thrown p hp
    exact hp

theorem deliverAll_follows (n : Nat) (fates : Nat → Fate) (due : List (Nat × Delivery))
    (hdue : (due.map Prod.fst).Nodup) (configs : List (Nat × Option Webhook)) {q : Attempt}
    (hq : ∀ d, (id, d) ∈ due → q = .reading d) :
    (deliverAll lib i n fates due configs).Follows (protocol id) (i, q) fun _ p => p.1 = i := by
  induction due generalizing configs q with
  | nil => rfl
  | cons r due ih =>
    obtain ⟨id', d⟩ := r
    rw [List.map_cons, List.nodup_cons] at hdue
    have hread : id' = id → q = .reading d := by
      rintro rfl
      exact hq d List.mem_cons_self
    -- after this row the event is among the rows to come only if it was not this one
    have hrest : ∀ configs p, p.1 = i ∧ (id' ≠ id → p = (i, q)) →
        (deliverAll lib i n fates due configs).Follows (protocol id) p fun _ p => p.1 = i := by
      rintro configs ⟨_, q'⟩ ⟨rfl, hp⟩
      refine ih hdue.2 configs ?_
      intro d' hd'
      have hne : id' ≠ id := by
        rintro rfl
        exact hdue.1 (List.mem_map_of_mem hd' : Prod.fst (id', d') ∈ due.map Prod.fst)
      have hsame := hp hne
      cases hsame
      exact hq d' (List.mem_cons_of_mem _ hd')
    have hdeliver : ∀ webhook configs, (do
        if ← deliver lib i id' d webhook (fates id') then deliverAll lib i n fates due configs
        else return ()).Follows (protocol id) (i, q) fun _ p => p.1 = i := by
      intro webhook configs
      refine (deliver_follows lib hread webhook (fates id')).bind ?_
      intro goesOn p hp
      cases goesOn with
      | false => exact hp.1
      | true => exact hrest configs p hp
    unfold deliverAll
    refine (Prog.follows_cmd_bind _ _ _ _).mpr ⟨trivial, fun stopped => ?_⟩
    cases stopped with
    | true => rfl
    | false =>
      simp only [Bool.false_eq_true, if_false]
      split
      · exact hdeliver _ _
      · refine (Prog.follows_cmd_bind _ _ _ _).mpr ⟨trivial, fun webhook => ?_⟩
        cases webhook with
        | none => rfl
        | some webhook => exact hdeliver webhook _

variable (id) in
/-- Whose batch has the event goes by the batch's row. -/
theorem next_findDue (i : ι) (limit : Nat) (batch : Batch) :
    ∃ q, next id (i, .out) (.findDue i limit) batch = (i, q) ∧ ∀ d, (id, d) ∈ batch.rows → q = .reading d := by
  cases hfind : batch.rows.find? (·.1 = id) with
  | none =>
    refine ⟨.out, by simp [next, hfind], fun d hd => ?_⟩
    exact absurd hd (by simpa using List.find?_eq_none.mp hfind (id, d))
  | some r =>
    refine ⟨.reading r.2, by simp [next, hfind], fun d hd => ?_⟩
    have hr : r.1 = id := by simpa using List.find?_some hfind
    have heq := List.inj_on_of_nodup_map batch.nodup (List.mem_of_find?_eq_some hfind) hd hr
    rw [heq]

theorem holdLease_follows (n : Nat) :
    (holdLease n : Outbox.Code ι Bool).Follows (protocol id) (i, .out) fun _ p => p = (i, .out) := by
  refine (Prog.follows_cmd_bind _ _ _ _).mpr ⟨trivial, fun renewed => ?_⟩
  cases renewed with
  | true => rfl
  | false => exact ⟨trivial, fun _ => rfl⟩

theorem code_follows (task : Task) :
    (task.code lib i).Follows (protocol id) (i, .out) fun _ p => p.1 = i := by
  cases task with
  | tick n fates =>
    refine (Prog.follows_cmd_bind _ _ _ _).mpr ⟨trivial, fun entered => ?_⟩
    cases entered with
    | false => rfl
    | true =>
      have hleave : ∀ p : ι × Attempt, p.1 = i →
          (.cmd (Op.leave n) : Outbox.Code ι Unit).Follows (protocol id) p fun _ p => p.1 = i :=
        fun _ hp => ⟨trivial, fun _ => hp⟩
      refine (holdLease_follows n).bind ?_
      rintro held p rfl
      cases held with
      | false => exact hleave _ rfl
      | true =>
        refine (Prog.follows_cmd_bind _ _ _ _).mpr ⟨⟨rfl, rfl⟩, fun batch => ?_⟩
        obtain ⟨q, hnext, hq⟩ := next_findDue id i batchSize batch
        have hphase : (protocol id).next (i, .out) (.findDue i batchSize) batch = (i, q) := hnext
        rw [hphase]
        exact (deliverAll_follows lib n fates batch.rows batch.nodup [] hq).bind fun _ => hleave
  | enqueue consumerId eventType payload dedupeKey => exact ⟨trivial, fun _ => rfl⟩
  | redeliver consumerId id => exact ⟨trivial, fun _ => rfl⟩
  | stop n =>
    refine (Prog.follows_cmd_bind _ _ _ _).mpr ⟨trivial, fun _ => ?_⟩
    exact ⟨trivial, fun _ => rfl⟩
  | lapse => exact ⟨trivial, fun _ => rfl⟩
  | pass seconds => exact ⟨trivial, fun _ => rfl⟩

end protocol

/-! ## What is counted -/

section record

variable {ι : Type} {id id' : Nat} {i j : ι} {ids : List Nat} {a : Answer} {h : List (Happening ι)}

@[simp] theorem answeredOk_read : answeredOk id (.read i ids :: h) = answeredOk id h := rfl
@[simp] theorem answeredOk_counted : answeredOk id (.counted i id' :: h) = answeredOk id h := rfl
@[simp] theorem answeredOk_answered :
    answeredOk id (.answered i id' a :: h) = ((id' = id && a.ok) || answeredOk id h) := rfl
@[simp] theorem answeredOk_redelivered :
    answeredOk id (.redelivered id' :: h) = (id' ≠ id && answeredOk id h) := rfl

@[simp] theorem countedSince_read : countedSince id (.read i ids :: h) = countedSince id h := rfl
@[simp] theorem countedSince_counted :
    countedSince id (.counted i id' :: h) = if id' = id then i :: countedSince id h else countedSince id h := rfl
@[simp] theorem countedSince_answered : countedSince id (.answered i id' a :: h) = countedSince id h := rfl
@[simp] theorem countedSince_redelivered :
    countedSince id (.redelivered id' :: h) = if id' = id then [] else countedSince id h := rfl

variable [DecidableEq ι]

@[simp] theorem readSince_read :
    readSince j id (.read i ids :: h) = ((i = j && ids.contains id) || readSince j id h) := rfl
@[simp] theorem readSince_counted : readSince j id (.counted i id' :: h) = readSince j id h := rfl
@[simp] theorem readSince_answered : readSince j id (.answered i id' a :: h) = readSince j id h := rfl
@[simp] theorem readSince_redelivered :
    readSince j id (.redelivered id' :: h) = (id' ≠ id && readSince j id h) := rfl

@[simp] theorem failedAttempts_read : failedAttempts id (.read i ids :: h) = failedAttempts id h := rfl
@[simp] theorem failedAttempts_counted : failedAttempts id (.counted i id' :: h) = failedAttempts id h := rfl
@[simp] theorem failedAttempts_answered :
    failedAttempts id (.answered i id' a :: h) =
      if id' = id && !a.ok && readSince i id h then i :: failedAttempts id h else failedAttempts id h := rfl
@[simp] theorem failedAttempts_redelivered :
    failedAttempts id (.redelivered id' :: h) = if id' = id then [] else failedAttempts id h := rfl

end record

section counted

variable {ι : Type} [DecidableEq ι]

/-- An event's row, by its record and by where the ticks are with it. -/
structure Counted (id : Nat) (w : Outbox.World ι) (q : ι → ι × Attempt) : Prop where
  name : ∀ i, (q i).1 = i
  attempts : ∀ d, w.deliveries.get id = some d → d.status ≠ .delivered →
    d.attempts = (countedSince id w.history).length
  delivered : ∀ d, w.deliveries.get id = some d → d.status = .delivered → answeredOk id w.history = true
  failed : ∀ d, w.deliveries.get id = some d → d.status = .failed →
    maxAttempts ≤ (failedAttempts id w.history).length
  absent : w.deliveries.get id = none → countedSince id w.history = []
  soon : ∀ d, w.deliveries.get id = some d → d.nextAttemptAt ≤ w.now + 3600
  nodup : (countedSince id w.history).Nodup
  /-- While nobody was answered, only failed attempts are counted. -/
  sub : answeredOk id w.history = false → countedSince id w.history ⊆ failedAttempts id w.history
  read : ∀ i d, (q i).2.row = some d → readSince i id w.history = true →
    d.attempts ≤ (countedSince id w.history).length
  answered : ∀ i d a, (q i).2 = .answered d a → readSince i id w.history = true →
    if a.ok then answeredOk id w.history = true else i ∈ failedAttempts id w.history

variable {lib : Primitives} {id : Nat} {w w' : Outbox.World ι} {q : ι → ι × Attempt} {i : ι}

/-- What is not about the event leaves it as it was. -/
theorem Counted.frame (hI : Counted id w q) (hrow : w'.deliveries.get id = w.deliveries.get id)
    (hok : answeredOk id w'.history = answeredOk id w.history)
    (hread : ∀ i, readSince i id w'.history = readSince i id w.history)
    (hcounted : countedSince id w'.history = countedSince id w.history)
    (hfailed : failedAttempts id w'.history = failedAttempts id w.history) (hnow : w.now ≤ w'.now) :
    Counted id w' q where
  name := hI.name
  attempts := by
    rw [hrow, hcounted]
    exact hI.attempts
  delivered := by
    rw [hrow, hok]
    exact hI.delivered
  failed := by
    rw [hrow, hfailed]
    exact hI.failed
  absent := by
    rw [hrow, hcounted]
    exact hI.absent
  soon := by
    intro d hd
    have := hI.soon d (hrow ▸ hd)
    omega
  nodup := hcounted ▸ hI.nodup
  sub := by
    rw [hok, hcounted, hfailed]
    exact hI.sub
  read := by
    intro i
    rw [hread, hcounted]
    exact hI.read i
  answered := by
    intro i
    rw [hread, hok, hfailed]
    exact hI.answered i

theorem Counted.same (hI : Counted id w q) (hrow : w'.deliveries = w.deliveries)
    (hhistory : w'.history = w.history) (hnow : w.now ≤ w'.now) : Counted id w' q :=
  hI.frame (by rw [hrow]) (by rw [hhistory]) (fun _ => by rw [hhistory]) (by rw [hhistory])
    (by rw [hhistory]) hnow

theorem Counted.findDue (hI : Counted id w q) (limit : Nat) (hout : (q i).2 = .out) :
    Counted id (Op.exec lib (.findDue i limit) w).1
      (Function.update q i (next id (q i) (.findDue i limit) (Op.exec lib (.findDue i limit) w).2)) := by
  have hother : ∀ j, j ≠ i → readSince j id (Op.exec lib (.findDue i limit) w).1.history =
      readSince j id w.history := by
    intro j hj
    simp [Op.exec, Ne.symm hj]
  -- the tick has the table's row, which was pending, or none still
  have hphase : (next id (q i) (.findDue i limit) (Op.exec lib (.findDue i limit) w).2 = q i ∨
      ∃ d, next id (q i) (.findDue i limit) (Op.exec lib (.findDue i limit) w).2 = ((q i).1, .reading d) ∧
        w.deliveries.get id = some d ∧ d.status = .pending) := by
    cases hfind : (w.findDue limit).find? (·.1 = id) with
    | none => exact .inl (by simp [next, Op.exec, hfind])
    | some r =>
      have hr : r.1 = id := by simpa using List.find?_some hfind
      obtain ⟨hget, hdue⟩ := World.of_mem_findDue (List.mem_of_find?_eq_some hfind)
      exact .inr ⟨r.2, by simp [next, Op.exec, hfind], hr ▸ hget, World.status_of_due hdue⟩
  constructor
  · intro j
    by_cases hj : j = i
    · subst hj
      rw [Function.update_self]
      obtain h | ⟨d, h, _⟩ := hphase
      · rw [h, hI.name j]
      · rw [h, hI.name j]
    · simpa [hj] using hI.name j
  · exact hI.attempts
  · exact hI.delivered
  · exact hI.failed
  · exact hI.absent
  · exact hI.soon
  · exact hI.nodup
  · exact hI.sub
  · intro j d hd hread
    by_cases hj : j = i
    · subst hj
      rw [Function.update_self] at hd
      obtain h | ⟨d', h, hget, hpending⟩ := hphase
      · rw [h, hout] at hd
        cases hd
      · rw [h] at hd
        cases hd
        exact (hI.attempts d hget (by simp [hpending])).le
    · rw [Function.update_of_ne hj] at hd
      exact hI.read j d hd (hother j hj ▸ hread)
  · intro j d a hq hread
    by_cases hj : j = i
    · subst hj
      rw [Function.update_self] at hq
      obtain h | ⟨d', h, _⟩ := hphase
      · rw [h, hout] at hq
        cases hq
      · rw [h] at hq
        cases hq
    · rw [Function.update_of_ne hj] at hq
      exact hI.answered j d a hq (hother j hj ▸ hread)

theorem Counted.post (hI : Counted id w q) {id' : Nat} (request : Request) (answer : Answer)
    (hreading : id' = id → ∃ d, (q i).2 = .reading d) :
    Counted id (Op.exec lib (.post i id' request answer) w).1
      (Function.update q i (next id (q i) (.post i id' request answer)
        (Op.exec lib (.post i id' request answer) w).2)) := by
  by_cases hid : id' = id
  · subst hid
    obtain ⟨d, hd⟩ := hreading rfl
    have hnext : next id' (q i) (.post i id' request answer) (Op.exec lib (.post i id' request answer) w).2 =
        ((q i).1, .answered d answer) := by
      simp [next, hd, Op.exec]
    have hmore : failedAttempts id' w.history ⊆
        failedAttempts id' (Op.exec lib (.post i id' request answer) w).1.history := by
      simp only [Op.exec, failedAttempts_answered]
      split
      · exact List.subset_cons_self _ _
      · exact List.Subset.refl _
    rw [hnext]
    constructor
    · intro j
      by_cases hj : j = i
      · subst hj
        simpa using hI.name j
      · simpa [hj] using hI.name j
    · exact hI.attempts
    · intro d' hd' hstatus
      have := hI.delivered d' hd' hstatus
      simp [Op.exec, this]
    · intro d' hd' hstatus
      have := hI.failed d' hd' hstatus
      simp only [Op.exec, failedAttempts_answered]
      split
      · exact this.trans (by simp)
      · exact this
    · exact hI.absent
    · exact hI.soon
    · exact hI.nodup
    · intro hok
      simp only [Op.exec, answeredOk_answered, Bool.or_eq_false_iff] at hok
      exact List.Subset.trans (hI.sub hok.2) hmore
    · intro j d' hd' hread
      by_cases hj : j = i
      · subst hj
        rw [Function.update_self] at hd'
        cases hd'
        exact hI.read j d (by rw [hd]; rfl) hread
      · rw [Function.update_of_ne hj] at hd'
        exact hI.read j d' hd' hread
    · intro j d' a hq hread
      by_cases hj : j = i
      · subst hj
        rw [Function.update_self] at hq
        cases hq
        have hread : readSince j id' w.history = true := hread
        by_cases hok : answer.ok = true
        · simp [Op.exec, hok]
        · simp [Op.exec, hok, hread]
      · rw [Function.update_of_ne hj] at hq
        have := hI.answered j d' a hq hread
        split at this
        · rename_i hok
          simp [Op.exec, hok, this]
        · rename_i hok
          rw [if_neg hok]
          exact hmore this
  · have hnext : next id (q i) (.post i id' request answer) (Op.exec lib (.post i id' request answer) w).2 = q i := by
      simp [next, hid]
    rw [hnext, Function.update_eq_self]
    exact hI.frame rfl (by simp [Op.exec, hid]) (fun _ => rfl) rfl (by simp [Op.exec, hid]) (Nat.le_refl _)

theorem Counted.markDelivered (hI : Counted id w q) {id' responseStatus : Nat} {write : Write}
    (hclean : clean i w (.markDelivered i id' responseStatus write) = true) :
    Counted id (Op.exec lib (.markDelivered i id' responseStatus write) w).1 q := by
  cases happlies : write.applies with
  | false => exact hI.same (by simp [Op.exec, happlies]) (by simp [Op.exec, happlies]) (by simp [Op.exec, happlies])
  | true =>
    by_cases hid : id = id'
    · subst hid
      have hok : answeredOk id w.history = true := by simpa [clean, happlies] using hclean
      simp only [Op.exec, happlies, if_true]
      constructor
      · exact hI.name
      · intro d hd hstatus
        simp only [Table.get_modify, if_true, Option.map_eq_some_iff] at hd
        obtain ⟨d, _, rfl⟩ := hd
        exact absurd rfl hstatus
      · exact fun _ _ _ => hok
      · intro d hd hstatus
        simp only [Table.get_modify, if_true, Option.map_eq_some_iff] at hd
        obtain ⟨d, _, rfl⟩ := hd
        cases hstatus
      · intro hnone
        simp only [Table.get_modify, if_true, Option.map_eq_none_iff] at hnone
        exact hI.absent hnone
      · intro d hd
        simp only [Table.get_modify, if_true, Option.map_eq_some_iff] at hd
        obtain ⟨d, hd, rfl⟩ := hd
        exact hI.soon d hd
      · exact hI.nodup
      · exact hI.sub
      · exact hI.read
      · exact hI.answered
    · refine hI.frame ?_ ?_ ?_ ?_ ?_ ?_ <;> simp [Op.exec, happlies, hid]

theorem backoff_le {d : Delivery} {seconds : Nat} (h : nextAttemptIn d = some seconds) : seconds ≤ 3600 := by
  unfold nextAttemptIn at h
  split at h
  · cases h
  · have hall : ∀ s ∈ backoffSeconds, s ≤ 3600 := by decide
    exact hall seconds (List.mem_of_getElem? h)

theorem inRange {d : Delivery} (h : giveUp d = false) : attemptsMade d - 1 < backoffSeconds.length := by
  have hne := (Bool.eq_false_iff.mp h : giveUp d ≠ true)
  rw [ne_eq, giveUp_iff, attemptsMade, maxAttempts] at hne
  rw [attemptsMade]
  omega

theorem giveUp_of_none {d : Delivery} (h : nextAttemptIn d = none) : giveUp d = true := by
  by_contra hne
  have hrange := inRange (Bool.eq_false_iff.mpr hne)
  rw [nextAttemptIn, if_neg hne, List.getElem?_eq_getElem hrange] at h
  cases h

theorem Counted.markAttemptFailed (hI : Counted id w q) {id' : Nat} {responseStatus : Option Nat} {error : String}
    {nextIn : Option Nat} {write : Write}
    (hq : id' = id → ∃ d a, (q i).2 = .answered d a ∧ nextIn = nextAttemptIn d)
    (hclean : clean i w (.markAttemptFailed i id' responseStatus error nextIn write) = true) :
    Counted id (Op.exec lib (.markAttemptFailed i id' responseStatus error nextIn write) w).1 q := by
  cases happlies : write.applies && (w.deliveries.get id').isSome with
  | false => exact hI.same (by simp [Op.exec, happlies]) (by simp [Op.exec, happlies]) (by simp [Op.exec, happlies])
  | true =>
    by_cases hid : id' = id
    · subst hid
      obtain ⟨d, a, hphase, rfl⟩ := hq rfl
      rw [Bool.and_eq_true] at happlies
      simp only [clean, happlies.1, Bool.not_true, Bool.false_or, Bool.and_eq_true, Bool.not_eq_true',
        Bool.or_eq_true] at hclean
      obtain ⟨⟨hread, hnew⟩, hgive⟩ := hclean
      have hnew : i ∉ countedSince id' w.history := by simpa using hnew
      have hattempts := hI.read i d (by rw [hphase]; rfl) hread
      have hfailed := hI.answered i d a hphase hread
      obtain ⟨d₀, hd₀⟩ := Option.isSome_iff_exists.mp happlies.2
      have hrow : ∀ d', (w.deliveries.modify id'
          (Op.attemptFailed w.now responseStatus error (nextAttemptIn d))).get id' = some d' →
          d' = Op.attemptFailed w.now responseStatus error (nextAttemptIn d) d₀ := by
        intro d' hd'
        simpa [hd₀] using hd'.symm
      -- who gives up has counted eleven failures of others, and none was answered
      have hgiven : nextAttemptIn d = none → answeredOk id' w.history = false ∧
          maxAttempts ≤ (failedAttempts id' w.history).length := by
        intro hnone
        have hok : answeredOk id' w.history = false := by simpa [hnone] using hgive
        have hmem : i ∈ failedAttempts id' w.history := by
          split at hfailed
          · rw [hok] at hfailed
            cases hfailed
          · exact hfailed
        have hsub : i :: countedSince id' w.history ⊆ failedAttempts id' w.history :=
          List.cons_subset.mpr ⟨hmem, hI.sub hok⟩
        have hlen := (List.subperm_of_subset (List.nodup_cons.mpr ⟨hnew, hI.nodup⟩) hsub).length_le
        have hup := giveUp_iff.mp (giveUp_of_none hnone)
        rw [attemptsMade] at hup
        simp only [List.length_cons] at hlen
        exact ⟨hok, by omega⟩
      simp only [Op.exec, happlies.1, happlies.2, Bool.and_self, if_true]
      constructor
      · exact hI.name
      · intro d' hd' hstatus
        obtain rfl := hrow d' hd'
        simp only [countedSince_counted, if_true, List.length_cons]
        cases hnext : nextAttemptIn d with
        | none =>
          have hlive : d₀.status ≠ .delivered := by
            intro hdelivered
            have := hI.delivered d₀ hd₀ hdelivered
            rw [(hgiven hnext).1] at this
            cases this
          simp [Op.attemptFailed, hI.attempts d₀ hd₀ hlive]
        | some seconds =>
          rw [hnext] at hstatus
          simp [Op.attemptFailed, hI.attempts d₀ hd₀ hstatus]
      · intro d' hd' hstatus
        obtain rfl := hrow d' hd'
        cases hnext : nextAttemptIn d with
        | none => simp [hnext, Op.attemptFailed] at hstatus
        | some seconds =>
          rw [hnext] at hstatus
          exact hI.delivered d₀ hd₀ hstatus
      · intro d' hd' hstatus
        obtain rfl := hrow d' hd'
        cases hnext : nextAttemptIn d with
        | none => exact (hgiven hnext).2
        | some seconds =>
          rw [hnext] at hstatus
          exact hI.failed d₀ hd₀ hstatus
      · intro hnone
        simp [hd₀] at hnone
      · intro d' hd'
        obtain rfl := hrow d' hd'
        have hsoon := hI.soon d₀ hd₀
        cases hnext : nextAttemptIn d with
        | none => exact hsoon
        | some seconds =>
          have := backoff_le hnext
          simp only [Op.attemptFailed]
          omega
      · simpa using List.nodup_cons.mpr ⟨hnew, hI.nodup⟩
      · intro hok
        have hok : answeredOk id' w.history = false := hok
        have hmem : i ∈ failedAttempts id' w.history := by
          split at hfailed
          · rw [hok] at hfailed
            cases hfailed
          · exact hfailed
        simpa using ⟨hmem, hI.sub hok⟩
      · intro j d' hd' hread'
        have := hI.read j d' hd' hread'
        simp only [countedSince_counted, if_true, List.length_cons]
        omega
      · exact hI.answered
    · refine hI.frame ?_ ?_ ?_ ?_ ?_ ?_ <;> simp [Op.exec, happlies, hid, Ne.symm hid]

theorem Counted.enqueue (hI : Counted id w q) {consumerId : Nat} {eventType : String} {payload : Payload}
    {dedupeKey : Option String} :
    Counted id (Op.exec lib (.enqueue consumerId eventType payload dedupeKey) w).1 q := by
  simp only [Op.exec]
  split
  · exact hI
  by_cases hid : id = w.deliveries.nextId
  · subst hid
    have hempty := hI.absent w.deliveries.get_nextId
    constructor
    · exact hI.name
    · intro d hd _
      simp only [Table.get_insert, if_true, Option.some.injEq] at hd
      subst hd
      simp [hempty]
    · intro d hd hstatus
      simp only [Table.get_insert, if_true, Option.some.injEq] at hd
      subst hd
      cases hstatus
    · intro d hd hstatus
      simp only [Table.get_insert, if_true, Option.some.injEq] at hd
      subst hd
      cases hstatus
    · exact fun _ => hempty
    · intro d hd
      simp only [Table.get_insert, if_true, Option.some.injEq] at hd
      subst hd
      exact Nat.le_add_right _ _
    · exact hI.nodup
    · exact hI.sub
    · exact hI.read
    · exact hI.answered
  · exact hI.frame (by simp [hid]) rfl (fun _ => rfl) rfl rfl (Nat.le_refl _)

theorem Counted.redeliver (hI : Counted id w q) {consumerId id' : Nat} :
    Counted id (Op.exec lib (.redeliver consumerId id') w).1 q := by
  cases hfound : (w.deliveries.get id').any (·.consumerId = consumerId) with
  | false => exact hI.same (by simp [Op.exec, hfound]) (by simp [Op.exec, hfound]) (by simp [Op.exec, hfound])
  | true =>
    by_cases hid : id' = id
    · subst hid
      simp only [Op.exec, hfound, if_true]
      constructor
      · exact hI.name
      · intro d hd _
        simp only [Table.get_modify, if_true, Option.map_eq_some_iff] at hd
        obtain ⟨d, _, rfl⟩ := hd
        simp [Op.restarted]
      · intro d hd hstatus
        simp only [Table.get_modify, if_true, Option.map_eq_some_iff] at hd
        obtain ⟨d, _, rfl⟩ := hd
        cases hstatus
      · intro d hd hstatus
        simp only [Table.get_modify, if_true, Option.map_eq_some_iff] at hd
        obtain ⟨d, _, rfl⟩ := hd
        cases hstatus
      · simp
      · intro d hd
        simp only [Table.get_modify, if_true, Option.map_eq_some_iff] at hd
        obtain ⟨d, _, rfl⟩ := hd
        exact Nat.le_add_right _ _
      · simp
      · simp
      · simp
      · simp
    · refine hI.frame ?_ ?_ ?_ ?_ ?_ ?_ <;> simp [Op.exec, hfound, hid, Ne.symm hid]

/-- What one command keeps. -/
theorem Counted.step (hI : Counted id w q) {op : Op ι} (hallows : allows id (q i) op)
    (hclean : clean i w op = true) :
    Counted id (op.exec lib w).1 (Function.update q i (next id (q i) op (op.exec lib w).2)) := by
  have hname := hI.name i
  have hsame : ∀ {w' : Outbox.World ι}, Counted id w' q → Counted id w' (Function.update q i (q i)) := by
    intro w' h
    rwa [Function.update_eq_self]
  cases op with
  | findDue j limit =>
    obtain rfl : j = i := hallows.1.trans hname
    exact hI.findDue limit hallows.2
  | post j id' request answer =>
    obtain rfl : j = i := hallows.1.trans hname
    exact hI.post request answer hallows.2
  | markDelivered j id' responseStatus write =>
    obtain rfl : j = i := hallows.1.trans hname
    exact hsame (hI.markDelivered hclean)
  | markAttemptFailed j id' responseStatus error nextIn write =>
    obtain rfl : j = i := hallows.1.trans hname
    exact hsame (hI.markAttemptFailed hallows.2 hclean)
  | enqueue => exact hsame hI.enqueue
  | redeliver => exact hsame hI.redeliver
  | pass seconds => exact hsame (hI.same rfl rfl (Nat.le_add_right _ _))
  | enter n =>
    refine hsame ?_
    simp only [Op.exec]
    split
    · exact hI
    · exact hI.same rfl rfl (Nat.le_refl _)
  | takeLease n =>
    refine hsame ?_
    simp only [Op.exec]
    split
    · exact hI.same rfl rfl (Nat.le_refl _)
    · exact hI
  | dropLease n =>
    refine hsame ?_
    simp only [Op.exec]
    split
    · exact hI.same rfl rfl (Nat.le_refl _)
    · exact hI
  | leave | stop | lapse => exact hsame (hI.same rfl rfl (Nat.le_refl _))
  | renewLease | isStopped | getWebhookConfig => exact hsame hI

theorem Counted.scheduled (hI : Counted id w q) : Scheduled w id := by
  intro d hd hok hfew
  have hlive : d.status ≠ .delivered := by
    intro hstatus
    have := hI.delivered d hd hstatus
    rw [hok] at this
    cases this
  refine ⟨?_, ?_, hI.soon d hd⟩
  · cases hstatus : d.status with
    | pending => rfl
    | delivered => exact absurd hstatus hlive
    | failed =>
      have := hI.failed d hd hstatus
      omega
  · rw [hI.attempts d hd hlive]
    exact (List.subperm_of_subset hI.nodup (hI.sub hok)).length_le

end counted

/-! ## A run -/

section run

variable {ι : Type} [DecidableEq ι] {lib : Primitives} {tasks : ι → Task} {w : Outbox.World ι} {schedule : List ι}
  {id k : Nat}

/-- Where each tick is with the event after `k` moves. -/
def attemptsAt (lib : Primitives) (tasks : ι → Task) (w : Outbox.World ι) (schedule : List ι) (id k : Nat) (i : ι) :
    ι × Attempt :=
  (protocol id).phases (fun i => (i, .out)) (after lib tasks w schedule k) i

/-- A thread is through, or issues the command it is at. -/
theorem moved (hk : k < schedule.length)
    (hc : (protocol id).Conforms (fun _ => True) (fun i => (i, .out)) (after lib tasks w schedule k)) :
    (protocol id).Conforms (fun _ => True) (fun i => (i, .out)) (after lib tasks w schedule (k + 1)) ∧
      ((after lib tasks w schedule k).next schedule[k] = none ∧
          after lib tasks w schedule (k + 1) = after lib tasks w schedule k ∨
        ∃ op, (after lib tasks w schedule k).next schedule[k] = some op ∧
          allows id (attemptsAt lib tasks w schedule id k schedule[k]) op ∧
          (after lib tasks w schedule (k + 1)).state = (op.exec lib (after lib tasks w schedule k).state).1 ∧
          attemptsAt lib tasks w schedule id (k + 1) = Function.update (attemptsAt lib tasks w schedule id k) schedule[k]
            (next id (attemptsAt lib tasks w schedule id k schedule[k]) op
              (op.exec lib (after lib tasks w schedule k).state).2)) := by
  exact hc.run_take_succ hk

theorem conforms_zero :
    (protocol id).Conforms (fun _ => True) (fun i => (i, .out)) (after lib tasks w schedule 0) :=
  Protocol.conforms_spawn fun i => (code_follows lib (tasks i)).mono fun _ _ _ => trivial

theorem Counted.zero (hw : Fresh w) :
    Counted id (after lib tasks w schedule 0).state (attemptsAt lib tasks w schedule id 0) := by
  have hstate : (after lib tasks w schedule 0).state = w := rfl
  have hphase : ∀ i, attemptsAt lib tasks w schedule id 0 i = (i, .out) := fun _ => rfl
  rw [hstate]
  constructor
  · exact fun i => by rw [hphase]
  · intro d hd _
    rw [(hw.rows id d hd).2.1, hw.history]
    rfl
  · intro d hd hstatus
    rw [(hw.rows id d hd).1] at hstatus
    cases hstatus
  · intro d hd hstatus
    rw [(hw.rows id d hd).1] at hstatus
    cases hstatus
  · intro _
    rw [hw.history]
    rfl
  · intro d hd
    exact (hw.rows id d hd).2.2.trans (Nat.le_add_right _ _)
  · rw [hw.history]
    exact List.nodup_nil
  · intro _
    rw [hw.history]
    exact List.Subset.refl _
  · intro i d hd
    rw [hphase] at hd
    cases hd
  · intro i d a hq
    rw [hphase] at hq
    cases hq

variable (id) in
theorem counted (hw : Fresh w) (hclean : CleanRun lib tasks w schedule) (hk : k ≤ schedule.length) :
    (protocol id).Conforms (fun _ => True) (fun i => (i, .out)) (after lib tasks w schedule k) ∧
      Counted id (after lib tasks w schedule k).state (attemptsAt lib tasks w schedule id k) := by
  induction k with
  | zero => exact ⟨conforms_zero, Counted.zero hw⟩
  | succ k ih =>
    obtain ⟨hc, hI⟩ := ih (Nat.le_of_succ_le hk)
    obtain ⟨hc', hmove⟩ := moved (Nat.lt_of_succ_le hk) hc
    refine ⟨hc', ?_⟩
    rcases hmove with ⟨_, hsame⟩ | ⟨op, hop, hallows, hstate, hphases⟩
    · unfold attemptsAt at hI ⊢
      rwa [hsame]
    · have hop' := hclean k (Nat.lt_of_succ_le hk)
      rw [hop] at hop'
      rw [hstate, hphases]
      exact hI.step hallows hop'

/-- An answered event is given up by a stale write only. -/
theorem staysAnswered_exec {i : ι} {op : Op ι} (hclean : clean i w op = true) :
    StaysAnswered w (op.exec lib w).1 id := by
  intro hok d d' hd hd'
  have hsame : (op.exec lib w).1.deliveries.get id = w.deliveries.get id →
      (d'.status = .failed → d.status = .failed) ∧
        (d'.status = .pending → d.status = .pending ∨ (op.exec lib w).1.history = .redelivered id :: w.history) := by
    intro h
    rw [h, hd] at hd'
    cases hd'
    exact ⟨fun h => h, .inl⟩
  cases op with
  | markDelivered j id' responseStatus write =>
    cases happlies : write.applies with
    | false => exact hsame (by simp [Op.exec, happlies])
    | true =>
      by_cases hid : id = id'
      · subst hid
        simp only [Op.exec, happlies, if_true, Table.get_modify] at hd'
        simp only [hd, Option.map_some, Option.some.injEq] at hd'
        subst hd'
        constructor <;> intro h <;> cases h
      · exact hsame (by simp [Op.exec, happlies, hid])
  | markAttemptFailed j id' responseStatus error nextIn write =>
    cases happlies : write.applies && (w.deliveries.get id').isSome with
    | false => exact hsame (by simp [Op.exec, happlies])
    | true =>
      by_cases hid : id = id'
      · subst hid
        simp only [Op.exec, happlies, if_true, Table.get_modify] at hd'
        simp only [hd, Option.map_some, Option.some.injEq] at hd'
        have happlies := Bool.and_eq_true_iff.mp happlies
        simp only [clean, happlies.1, hok, Bool.not_true, Bool.false_or, Bool.or_false, Bool.and_eq_true] at hclean
        obtain ⟨seconds, rfl⟩ := Option.isSome_iff_exists.mp hclean.2
        subst hd'
        exact ⟨fun h => h, .inl⟩
      · exact hsame (by simp [Op.exec, happlies, hid])
  | enqueue consumerId eventType payload dedupeKey =>
    have hne : id ≠ w.deliveries.nextId := (Table.lt_nextId hd).ne
    refine hsame ?_
    simp only [Op.exec]
    split
    · rfl
    · simp [hne]
  | redeliver consumerId id' =>
    cases hfound : (w.deliveries.get id').any (·.consumerId = consumerId) with
    | false => exact hsame (by simp [Op.exec, hfound])
    | true =>
      by_cases hid : id = id'
      · subst hid
        have hhistory : (Op.exec lib (.redeliver consumerId id) w).1.history = .redelivered id :: w.history := by
          simp [Op.exec, hfound]
        simp only [Op.exec, hfound, if_true, Table.get_modify] at hd'
        simp only [hd, Option.map_some, Option.some.injEq] at hd'
        subst hd'
        refine ⟨fun h => ?_, fun _ => .inr hhistory⟩
        cases h
      · exact hsame (by simp [Op.exec, hfound, hid])
  | enter n =>
    refine hsame ?_
    simp only [Op.exec]
    split <;> rfl
  | takeLease n =>
    refine hsame ?_
    simp only [Op.exec]
    split <;> rfl
  | dropLease n =>
    refine hsame ?_
    simp only [Op.exec]
    split <;> rfl
  | findDue | post | pass | leave | stop | lapse | renewLease | isStopped | getWebhookConfig => exact hsame rfl

/-- While no outcome is written that an overlap has made stale, an event that was
answered stays so until it is redelivered, and one that was not has the full
schedule since it was created or last redelivered, and is given up after it only. -/
theorem sound_of_cleanRun (hw : Fresh w) (hclean : CleanRun lib tasks w schedule) :
    Sound lib tasks w schedule := by
  refine ⟨fun _ => inRange, fun k hk id => ?_, fun k hk id => ?_⟩
  · have hI := (counted id hw hclean hk).2
    exact ⟨hI.scheduled, hI.failed⟩
  · obtain ⟨hc, _⟩ := counted id hw hclean hk.le
    obtain ⟨_, ⟨_, hsame⟩ | ⟨op, hop, _, hstate, _⟩⟩ := moved hk hc
    · rw [hsame]
      intro _ d d' hd hd'
      rw [hd] at hd'
      cases hd'
      exact ⟨fun h => h, .inl⟩
    · have hop' := hclean k hk
      rw [hop] at hop'
      rw [hstate]
      exact staysAnswered_exec hop'

end run

/-! ## A redeliver during an attempt -/

section straddled

def plain : Primitives := ⟨fun _ _ _ => none, some⟩

/-- One event, of a consumer with a webhook. -/
def oneEvent : Outbox.World (Fin 3) where
  deliveries := .ofList [fun _ => { consumerId := 1, eventType := "call.ended", payload := .parsed "null", nextAttemptAt := 0 }]
  consumers id := if id = 1 then some ⟨some "https://crm.example/events", none, true⟩ else none
  now := 0

/-- Two dispatchers, the first of which is answered 500, and a redeliver. -/
def askedAgain (i : Fin 3) : Task :=
  match i with
  | 0 => .tick 1 fun _ => ⟨.status 500, .done, .done⟩
  | 1 => .tick 2 fun _ => ⟨.status 200, .done, .done⟩
  | 2 => .redeliver 1 1

/-- The redeliver comes between the first one's request and its outcome. -/
def straddled : List (Fin 3) := [0, 0, 0, 0, 0, 0, 0, 2, 0, 0]

/-- The redeliver comes once the first one is done. -/
def afterwards : List (Fin 3) := [0, 0, 0, 0, 0, 0, 0, 0, 0, 2, 1, 1]

theorem fresh_oneEvent : Fresh oneEvent := by
  refine ⟨rfl, fun id d hd => ?_⟩
  have hid : id < 2 := Table.lt_nextId hd
  match id, hid with
  | 0, _ => cases hd
  | 1, _ =>
    cases hd
    decide

theorem sound_afterwards : Sound plain askedAgain oneEvent afterwards :=
  sound_of_cleanRun fresh_oneEvent (by decide)

/-- An attempt begun before a redeliver uses up one of those after it. -/
theorem not_sound_straddled : Fresh oneEvent ∧ ¬ Sound plain askedAgain oneEvent straddled := by
  refine ⟨fresh_oneEvent, fun h => ?_⟩
  have hscheduled := (h.2.1 9 (by decide) 1).1
  have hattempts : ((after plain askedAgain oneEvent straddled 9).state.deliveries.get 1).map (·.attempts) = some 1 := by
    decide
  have hok : answeredOk 1 (after plain askedAgain oneEvent straddled 9).state.history = false := by decide
  have hnone : (failedAttempts 1 (after plain askedAgain oneEvent straddled 9).state.history).length = 0 := by decide
  obtain ⟨d, hd, hone⟩ := Option.map_eq_some_iff.mp hattempts
  have := (hscheduled d hd hok (by rw [hnone]; decide)).2.1
  omega

end straddled

end Callio.DeliveryStates
