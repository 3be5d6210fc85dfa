import Callio.Cluster.Tasks

/-! What a task has found out, and what it may do next: one protocol, that all
tasks follow. A call is registered with the cursor read under its lease, what a
read loop delivers it has read, and a notice of a call's end is posted by who
ended the call. -/

namespace Callio.Inbox

open Concurrency CallInbox

/-! ## Phases -/

/-- How far a read loop is. -/
structure Reading where
  /-- The streams asked for: the worker and where the reading starts. -/
  asked : Option (Nat × List (Nat × Nat)) := none
  /-- The streams read and not yet gone through. -/
  batch : List (Nat × Nat × List Entry) := []
  /-- Reads answered. -/
  made : Nat := 0
  /-- A delivery threw. -/
  stopped : Bool := false
  deriving DecidableEq

def Reading.next (q : Reading) : (op : Op) → op.Res → Reading
  | .streams n, (from_ : List (Nat × Nat)) => { q with asked := some (n, from_) }
  | .xread n _, (streams : List (Nat × List Entry)) =>
      { q with asked := none, batch := streams.map fun stream => (n, stream.1, stream.2), made := q.made + 1 }
  | .deliver _ _ _, (ok : Bool) => { q with batch := q.batch.tail, stopped := q.stopped || !ok }
  | _, _ => q

/-- How far a task is with taking a call. -/
inductive Claiming
  | no
  /-- SET NX failed: whose is the lease? -/
  | refused (n c : Nat)
  | asking (n c : Nat)
  | leased (n c : Nat)
  | cursorRead (n c : Nat) (cursor : Option Nat)
  deriving DecidableEq

def Claiming.next (q : Claiming) : (op : Op) → op.Res → Claiming
  | .setLease n c, (taken : Bool) => if taken then .leased n c else .refused n c
  | .flush n, _ =>
      match q with
      | .refused n' c => if n' = n then .asking n c else .refused n' c
      | q => q
  | .getLease c, (holder : Option Nat) =>
      match q with
      | .asking n c' => if c' = c ∧ holder = some n then .leased n c else .no
      | q => q
  | .getCursor c, (cursor : Option Nat) =>
      match q with
      | .leased n c' => if c' = c then .cursorRead n c cursor else .leased n c'
      | q => q
  | .register _ _ _, _ => .no
  | _, _ => q

/-- A claim of call `c` at worker `n` is under way. -/
def Claiming.of (n c : Nat) : Claiming → Bool
  | .no => false
  | .refused n' c' | .asking n' c' | .leased n' c' | .cursorRead n' c' _ => n' = n && c' = c

namespace Claiming

variable {q : Claiming} {op : Op} {w : Cluster} {n c : Nat}

/-- What an operation makes of a claim. -/
inductive Moves (w : Cluster) (op : Op) (q : Claiming) : Claiming → Prop
  | stays : Moves w op q q
  | ends : Moves w op q .no
  | refused (n c : Nat) (hop : op = .setLease n c) : Moves w op q (.refused n c)
  | won (n c : Nat) (hop : op = .setLease n c) (hfree : w.lease c = none) : Moves w op q (.leased n c)
  | asking (n c : Nat) (hq : q = .refused n c) (hop : op = .flush n) : Moves w op q (.asking n c)
  | held (n c : Nat) (hq : q = .asking n c) (hop : op = .getLease c) (hlease : w.lease c = some n) :
      Moves w op q (.leased n c)
  | cursorRead (n c : Nat) (hq : q = .leased n c) (hop : op = .getCursor c) :
      Moves w op q (.cursorRead n c (w.cursor c))

theorem moves (q : Claiming) (op : Op) (w : Cluster) : Moves w op q (q.next op (op.exec w).2) := by
  cases op with
  | setLease m d =>
    show Moves w _ q (if _ then _ else _)
    split
    · rename_i htaken
      refine .won m d rfl ?_
      by_contra hsome
      have hs : (w.lease d).isSome = true := Option.isSome_iff_ne_none.mpr hsome
      simp [Op.exec, hs] at htaken
    · exact .refused m d rfl
  | flush m =>
    cases q with
    | refused n d =>
      show Moves w _ _ (if _ then _ else _)
      split
      · rename_i hm
        exact hm ▸ .asking n d rfl rfl
      · exact .stays
    | _ => exact .stays
  | getLease d =>
    cases q with
    | asking n e =>
      show Moves w _ _ (if _ then _ else _)
      split
      · rename_i hd
        obtain ⟨rfl, hlease⟩ := hd
        exact .held n e rfl rfl hlease
      · exact .ends
    | _ => exact .stays
  | getCursor d =>
    cases q with
    | leased n e =>
      show Moves w _ _ (if _ then _ else _)
      split
      · rename_i hd
        subst hd
        exact .cursorRead n e rfl rfl
      · exact .stays
    | _ => exact .stays
  | register m d lastId => exact .ends
  | _ => exact .stays

/-! What brings a claim where it is. -/

theorem of_refused (h : q.next op (op.exec w).2 = .refused n c) : q = .refused n c ∨ op = .setLease n c := by
  have hmoves := moves q op w
  rw [h] at hmoves
  cases hmoves with
  | stays => exact .inl rfl
  | refused _ _ hop => exact .inr hop

theorem of_asking (h : q.next op (op.exec w).2 = .asking n c) :
    q = .asking n c ∨ q = .refused n c ∧ op = .flush n := by
  have hmoves := moves q op w
  rw [h] at hmoves
  cases hmoves with
  | stays => exact .inl rfl
  | asking _ _ hq hop => exact .inr ⟨hq, hop⟩

theorem of_leased (h : q.next op (op.exec w).2 = .leased n c) :
    q = .leased n c ∨ op = .setLease n c ∧ w.lease c = none ∨
      q = .asking n c ∧ op = .getLease c ∧ w.lease c = some n := by
  have hmoves := moves q op w
  rw [h] at hmoves
  cases hmoves with
  | stays => exact .inl rfl
  | won _ _ hop hfree => exact .inr (.inl ⟨hop, hfree⟩)
  | held _ _ hq hop hlease => exact .inr (.inr ⟨hq, hop, hlease⟩)

theorem of_cursorRead {cursor : Option Nat} (h : q.next op (op.exec w).2 = .cursorRead n c cursor) :
    q = .cursorRead n c cursor ∨ q = .leased n c ∧ op = .getCursor c ∧ w.cursor c = cursor := by
  have hmoves := moves q op w
  rw [h] at hmoves
  cases hmoves with
  | stays => exact .inl rfl
  | cursorRead _ _ hq hop => exact .inr ⟨hq, hop, rfl⟩

theorem of_next (h : (q.next op (op.exec w).2).of n c = true) : q.of n c = true ∨ op = .setLease n c := by
  cases hq : q.next op (op.exec w).2 with
  | no =>
    rw [hq] at h
    cases h
  | refused m d =>
    rw [hq] at h
    obtain ⟨rfl, rfl⟩ : m = n ∧ d = c := by simpa [of] using h
    exact (of_refused hq).imp_left fun h => by simp [h, of]
  | asking m d =>
    rw [hq] at h
    obtain ⟨rfl, rfl⟩ : m = n ∧ d = c := by simpa [of] using h
    left
    obtain h | ⟨h, _⟩ := of_asking hq <;> simp [h, of]
  | leased m d =>
    rw [hq] at h
    obtain ⟨rfl, rfl⟩ : m = n ∧ d = c := by simpa [of] using h
    obtain h | ⟨h, _⟩ | ⟨h, _⟩ := of_leased hq
    · exact .inl (by simp [h, of])
    · exact .inr h
    · exact .inl (by simp [h, of])
  | cursorRead m d cursor =>
    rw [hq] at h
    obtain ⟨rfl, rfl⟩ : m = n ∧ d = c := by simpa [of] using h
    left
    obtain h | ⟨h, _⟩ := of_cursorRead hq <;> simp [h, of]

end Claiming

/-- How far a handler is with the notice that a call ended. -/
inductive Handling
  | idle
  | taken (n c : Nat)
  | dropped (n c : Nat)
  | released (n c : Nat)
  /-- The call has not ended. -/
  | unfounded (n c : Nat)
  deriving DecidableEq

def Handling.next (q : Handling) : (op : Op) → op.Res → Handling
  | .takeInput n, (input : Option (Nat × Input)) =>
      match input with
      | some (c, .callTerminated true) => .taken n c
      | _ => q
  | .isEnded c, (ended : Bool) =>
      match q with
      | .taken n c' => if c' = c ∧ ended = false then .unfounded n c else .taken n c'
      | q => q
  | .unregister n c, _ => if q = .taken n c then .dropped n c else q
  | .flush n, _ =>
      match q with
      | .dropped n' c => if n' = n then .released n c else .dropped n' c
      | q => q
  | _, _ => q

/-- The handler has to do with the notice of call `c` at worker `n`. -/
@[simp] def Handling.Of (n c : Nat) : Handling → Prop
  | .idle => False
  | .taken n' c' | .dropped n' c' | .released n' c' | .unfounded n' c' => n' = n ∧ c' = c

/-- A handler has nothing left to do. -/
@[simp] def Handling.Settled : Handling → Prop
  | .idle | .released _ _ | .unfounded _ _ => True
  | _ => False

namespace Handling

variable {h : Handling} {op : Op} {n c : Nat}

/-- What an operation and its answer make of a handler. -/
inductive Moves (op : Op) (r : op.Res) (h : Handling) : Handling → Prop
  | stays : Moves op r h h
  | taken (n c : Nat)
      (hop : (⟨op, r⟩ : Sigma Op.Res) = ⟨.takeInput n, some (c, .callTerminated true)⟩) : Moves op r h (.taken n c)
  | unfounded (n c : Nat) (hh : h = .taken n c) (hop : (⟨op, r⟩ : Sigma Op.Res) = ⟨.isEnded c, false⟩) :
      Moves op r h (.unfounded n c)
  | dropped (n c : Nat) (hh : h = .taken n c) (hop : op = .unregister n c) : Moves op r h (.dropped n c)
  | released (n c : Nat) (hh : h = .dropped n c) (hop : op = .flush n) : Moves op r h (.released n c)

theorem moves (h : Handling) (op : Op) (r : op.Res) : Moves op r h (h.next op r) := by
  cases op with
  | takeInput m =>
    match r with
    | some (c, .callTerminated true) => exact .taken m c rfl
    | some (_, .callTerminated false) | some (_, .other _) | none => exact .stays
  | isEnded d =>
    cases h with
    | taken n c =>
      show Moves _ _ _ (if _ then _ else _)
      split
      · rename_i hd
        obtain ⟨rfl, hr⟩ := hd
        exact .unfounded n c rfl (by rw [hr])
      · exact .stays
    | _ => exact .stays
  | unregister m d =>
    show Moves _ _ _ (if _ then _ else _)
    split
    · rename_i htaken
      exact .dropped m d htaken rfl
    · exact .stays
  | flush m =>
    cases h with
    | dropped n c =>
      show Moves _ _ _ (if _ then _ else _)
      split
      · rename_i hm
        exact .released m c (by rw [hm]) rfl
      · exact .stays
    | _ => exact .stays
  | _ => exact .stays

/-! What brings a handler where it is. -/

theorem of_taken {w : Cluster} (hn : h.next op (op.exec w).2 = .taken n c) :
    h = .taken n c ∨ op = .takeInput n ∧ (c, .callTerminated true) ∈ (w.nodes n).inputs := by
  have hmoves := h.moves op (op.exec w).2
  rw [hn] at hmoves
  cases hmoves with
  | stays => exact .inl rfl
  | taken _ _ hop =>
    obtain ⟨rfl, hr⟩ := Sigma.mk.inj hop
    refine .inr ⟨rfl, ?_⟩
    cases hinputs : (w.nodes n).inputs with
    | nil => simp [Op.exec, hinputs] at hr
    | cons input rest =>
      obtain rfl : input = (c, .callTerminated true) := by simpa [Op.exec, hinputs] using hr
      exact List.mem_cons_self

theorem of_dropped {r : op.Res} (hn : h.next op r = .dropped n c) :
    h = .dropped n c ∨ h = .taken n c ∧ op = .unregister n c := by
  have hmoves := h.moves op r
  rw [hn] at hmoves
  cases hmoves with
  | stays => exact .inl rfl
  | dropped _ _ hh hop => exact .inr ⟨hh, hop⟩

theorem of_released {r : op.Res} (hn : h.next op r = .released n c) :
    h = .released n c ∨ h = .dropped n c ∧ op = .flush n := by
  have hmoves := h.moves op r
  rw [hn] at hmoves
  cases hmoves with
  | stays => exact .inl rfl
  | released _ _ hh hop => exact .inr ⟨hh, hop⟩

theorem of_unfounded {w : Cluster} (hn : h.next op (op.exec w).2 = .unfounded n c) :
    h = .unfounded n c ∨ h = .taken n c ∧ w.ended c = false := by
  have hmoves := h.moves op (op.exec w).2
  rw [hn] at hmoves
  cases hmoves with
  | stays => exact .inl rfl
  | unfounded _ _ hh hop =>
    obtain ⟨rfl, hr⟩ := Sigma.mk.inj hop
    exact .inr ⟨hh, eq_of_heq hr⟩

/-- A handler stays with the notice it took. -/
theorem Of.next (hof : h.Of n c) (hop : ∀ m, op ≠ .takeInput m) (r : op.Res) : (h.next op r).Of n c := by
  have hmoves := h.moves op r
  generalize h.next op r = h' at hmoves
  cases hmoves with
  | stays => exact hof
  | taken m _ htaken => exact absurd (congrArg Sigma.fst htaken) (hop m)
  | unfounded _ _ hh _ | dropped _ _ hh _ | released _ _ hh _ =>
    subst hh
    exact hof

end Handling

theorem settled_idle : Handling.idle.Settled := trivial

theorem settled_released (n c : Nat) : (Handling.released n c).Settled := trivial

theorem settled_unfounded (n c : Nat) : (Handling.unfounded n c).Settled := trivial

/-- The call whose end the task has committed, its notice not posted yet. -/
def owedNext (q : Option Nat) : (op : Op) → op.Res → Option Nat
  | .commitEnd c _, (won : Bool) => if won then some c else q
  | .post _ _, _ => none
  | _, _ => q

/-- The call whose lease a renewal has just found lost. -/
def lostNext (q : Option (Nat × Nat)) : (op : Op) → op.Res → Option (Nat × Nat)
  | .renewLease n c, (ok : Bool) => if ok then none else some (n, c)
  | _, _ => q

structure Phase where
  /-- The task only ends calls and runs those that a worker has. -/
  ends : Bool
  /-- The worker whose read loop this is, and the rounds it makes. -/
  loop : Option Nat
  rounds : Nat
  reading : Reading := {}
  claiming : Claiming := .no
  handling : Handling := .idle
  owed : Option Nat := none
  lost : Option (Nat × Nat) := none
  deriving DecidableEq

def next (q : Phase) (op : Op) (r : op.Res) : Phase :=
  { q with
    reading := q.reading.next op r
    claiming := q.claiming.next op r
    handling := q.handling.next op r
    owed := owedNext q.owed op r
    lost := lostNext q.lost op r }

def allows (q : Phase) : Op → Prop
  | .streams n => q.loop = some n ∧ q.reading.asked = none ∧ q.reading.batch = []
  | .xread n from_ => q.loop = some n ∧ q.reading.asked = some (n, from_) ∧ q.reading.batch = []
  | .deliver n c entries =>
      q.loop = some n ∧ q.reading.asked = none ∧ q.reading.batch.head? = some (n, c, entries)
  | .register n c lastId => q.ends = false ∧ ∃ cursor, q.claiming = .cursorRead n c cursor ∧ lastId = cursor.getD 0
  | .setLease _ _ | .setHandler _ _ | .lapse _ => q.ends = false
  | .lose n c => q.lost = some (n, c)
  | .post c input => q.ends = true → input = .callTerminated true ∧ q.owed = some c
  | .takeInput _ => q.handling = .idle
  | _ => True

def protocol : Protocol Op.Res := ⟨Phase, next, allows⟩

def Task.ends : Task → Bool
  | readLoop _ _ | handle _ | renew _ | endCall _ _ _ _ _ | commitAndSettle _ _ _ | serve _ => true
  | _ => false

def Task.loop : Task → Option Nat
  | readLoop n _ => some n
  | _ => none

def Task.rounds : Task → Nat
  | readLoop _ rounds => rounds
  | _ => 0

def start (t : Task) : Phase := { ends := t.ends, loop := t.loop, rounds := t.rounds }

/-- A task is done: its rounds are made unless a delivery threw, and what its
handler began is settled. -/
def Ended (q : Phase) : Prop :=
  (q.reading.stopped = true ∨ q.reading.made = q.rounds) ∧ q.handling.Settled

/-! ## Operations -/

/-- The operations that ask nothing of the task. -/
def Op.plain : Op → Bool
  | flush _ | serveNext _ | getLease _ | getCursor _ | addLeased _ | isLeased _ | renewLease _ _ => true
  | purge _ | owns _ _ | ownedIds _ | unregister _ _ | commitEnd _ _ | isEnded _ => true
  | _ => false

/-- No read loop, with nothing of a notice left to do. -/
structure Calm (e : Bool) (h : Handling) (q : Phase) : Prop where
  ends : q.ends = e
  handling : q.handling = h
  made : q.reading.made = q.rounds

theorem Handling.next_of_settled {h : Handling} (hs : h.Settled) (op : Op) (hop : ∀ n, op ≠ .takeInput n)
    (r : op.Res) : h.next op r = h := by
  cases op with
  | takeInput n => exact absurd rfl (hop n)
  | unregister n c => cases h <;> first | rfl | cases hs
  | isEnded c => cases h <;> first | rfl | cases hs
  | flush n => cases h <;> first | rfl | cases hs
  | _ => rfl

theorem Calm.next {e : Bool} {h : Handling} (hs : h.Settled) {q : Phase} (hq : Calm e h q) (op : Op)
    (hread : ∀ n from_, op ≠ .xread n from_) (htake : ∀ n, op ≠ .takeInput n) (r : op.Res) :
    Calm e h (next q op r) := by
  refine ⟨hq.ends, ?_, ?_⟩
  · show q.handling.next op r = h
    rw [hq.handling]
    exact Handling.next_of_settled hs op htake r
  · show (q.reading.next op r).made = q.rounds
    cases op with
    | xread n from_ => exact absurd rfl (hread n from_)
    | _ => exact hq.made

theorem await_follows {n : Nat} {op : Op} {q : Phase} {post : op.Res → Phase → Prop}
    (hop : allows (next q (.flush n) ()) op) (hpost : ∀ r, post r (next (next q (.flush n) ()) op r)) :
    (await n op).Follows protocol q post :=
  (Prog.follows_cmd_bind _ _ _ _).mpr ⟨trivial, fun _ => (Prog.follows_cmd _ _ _).mpr ⟨hop, hpost⟩⟩

section calm

variable {e : Bool} {h : Handling} (hs : h.Settled)
include hs

theorem keeps_plain (op : Op) (hop : op.plain = true) : protocol.Keeps (Calm e h) op := by
  intro q hq
  constructor
  · cases op with
    | flush _ | serveNext _ | getLease _ | getCursor _ | addLeased _ | isLeased _ | renewLease _ _ => trivial
    | purge _ | owns _ _ | ownedIds _ | unregister _ _ | commitEnd _ _ | isEnded _ => trivial
    | _ => cases hop
  · intro r
    refine hq.next hs op ?_ ?_ r
    · rintro n from_ rfl
      cases hop
    · rintro n rfl
      cases hop

theorem await_stays (op : Op) (hop : op.plain = true) (n : Nat) : (await n op).Stays protocol (Calm e h) :=
  (Prog.stays_cmd (keeps_plain hs _ rfl)).bind fun _ => Prog.stays_cmd (keeps_plain hs op hop)

theorem release_stays (n c : Nat) (purge : Bool) : (release n c purge).Stays protocol (Calm e h) := by
  refine (Prog.stays_cmd (keeps_plain hs (.unregister n c) rfl)).bind fun had => ?_
  cases had <;> cases purge
  · exact Prog.stays_ret _
  · exact await_stays hs _ rfl n
  · exact Prog.stays_cmd (keeps_plain hs _ rfl)
  · exact (Prog.stays_cmd (keeps_plain hs _ rfl)).bind fun _ => await_stays hs _ rfl n

theorem releaseAll_stays (n : Nat) (ids : List Nat) : (releaseAll n ids).Stays protocol (Calm e h) := by
  induction ids with
  | nil => exact Prog.stays_ret _
  | cons c rest ih => exact (release_stays hs n c false).bind fun _ => ih

theorem Calm.flush {q : Phase} (hq : Calm e h q) (n : Nat) : Calm e h (Inbox.next q (.flush n) ()) :=
  hq.next hs (.flush n) (fun _ _ hop => by cases hop) (fun _ hop => by cases hop) ()

/-- `_renew` drops only what it found lost. -/
theorem renewAll_stays (n : Nat) (ids : List Nat) : (renewAll n ids).Stays protocol (Calm e h) := by
  induction ids with
  | nil => exact Prog.stays_ret _
  | cons c rest ih =>
    intro q hq
    have hcalm : ∀ {q : Phase} {op : Op}, op = .renewLease n c ∨ op = .lose n c → Calm e h q →
        ∀ r, Calm e h (next q op r) := by
      rintro q op hop hq r
      refine hq.next hs op ?_ ?_ r <;> rintro n
      · rintro from_ rfl
        rcases hop with hop | hop <;> cases hop
      · rintro rfl
        rcases hop with hop | hop <;> cases hop
    refine (Prog.follows_bind _ _ _ _).mpr (await_follows trivial fun ok => ?_)
    have hafter := hcalm (.inl rfl) (hq.flush hs n) ok
    cases ok with
    | true => exact ih _ hafter
    | false =>
      refine (Prog.follows_cmd_bind _ _ _ _).mpr ⟨rfl, fun u => ?_⟩
      exact ih _ (hcalm (.inr rfl) hafter u)

/-- Only the winner owes the notice, and posts it. -/
theorem closeMedia_takes (n c : Nat) (media : MediaClose) :
    (closeMedia n c media).Takes protocol (fun (q : Phase) => Calm e h q ∧ q.owed = some c) (Calm e h) := by
  rintro q ⟨hq, howed⟩
  cases media with
  | broadcast =>
    refine (Prog.follows_bind _ _ _ _).mpr (await_follows (fun _ => ⟨rfl, howed⟩) fun r => ?_)
    exact (hq.flush hs n).next hs _ (fun _ _ hop => by cases hop) (fun _ hop => by cases hop) r
  | onlyHere => exact release_stays hs n c true q hq

theorem commitEnd_bind {c : Nat} {passes : Bool} {won lost : Code Unit}
    (hwon : won.Takes protocol (fun (q : Phase) => Calm e h q ∧ q.owed = some c) (Calm e h))
    (hlost : lost.Stays protocol (Calm e h)) :
    (do if ← .cmd (Op.commitEnd c passes) then won else lost : Code Unit).Stays protocol (Calm e h) := by
  intro q hq
  refine (Prog.follows_cmd_bind _ _ _ _).mpr ⟨trivial, fun r => ?_⟩
  have hafter := hq.next hs (.commitEnd c passes) (fun _ _ hop => by cases hop) (fun _ hop => by cases hop) r
  cases r with
  | true => exact hwon _ ⟨hafter, rfl⟩
  | false => exact hlost _ hafter

theorem endCall_stays (n c : Nat) (guarded passes : Bool) (media : MediaClose) :
    (endCall n c guarded passes media).Stays protocol (Calm e h) := by
  refine commitEnd_bind hs (closeMedia_takes hs n c media) (.ite (fun _ => ?_) fun _ => release_stays hs n c true)
  exact (Prog.stays_cmd (keeps_plain hs (.isEnded c) rfl)).bind fun _ =>
    .ite (fun _ => release_stays hs n c true) fun _ => Prog.stays_ret _

theorem commitAndSettle_stays (n c : Nat) (media : MediaClose) :
    (commitAndSettle n c media).Stays protocol (Calm e h) :=
  commitEnd_bind hs (closeMedia_takes hs n c media) (Prog.stays_ret _)

end calm

/-! ## Taking calls -/

section taking

variable {h : Handling} (hs : h.Settled)
include hs

theorem keeps_taking {op : Op} (hop : (∃ n c, op = .setHandler n c) ∨ ∃ c input, op = .post c input) :
    protocol.Keeps (Calm false h) op := by
  intro q hq
  obtain ⟨n, c, rfl⟩ | ⟨c, input, rfl⟩ := hop
  · exact ⟨hq.ends, fun r => hq.next hs _ (fun _ _ hop => by cases hop) (fun _ hop => by cases hop) r⟩
  · refine ⟨fun he => ?_, fun r => hq.next hs _ (fun _ _ hop => by cases hop) (fun _ hop => by cases hop) r⟩
    exact absurd (hq.ends.symm.trans he) Bool.false_ne_true

theorem post_stays (n c : Nat) (input : Input) : (CallInbox.post n c input).Stays protocol (Calm false h) := by
  refine Prog.Takes.bind ?_ fun _ => Prog.stays_ret _
  exact (Prog.stays_cmd (keeps_plain hs _ rfl)).bind fun _ => Prog.stays_cmd (keeps_taking hs (.inr ⟨_, _, rfl⟩))

theorem enter_takes (n c : Nat) :
    (enter n c).Takes protocol (fun (q : Phase) => Calm false h q ∧ q.claiming = .leased n c) (Calm false h) := by
  rintro q ⟨hq, hleased⟩
  refine (Prog.follows_bind _ _ _ _).mpr (await_follows trivial fun cursor => ?_)
  have hread : (next (next q (.flush n) ()) (.getCursor c) cursor).claiming = .cursorRead n c cursor := by
    show (q.claiming.next (.flush n) ()).next (.getCursor c) cursor = .cursorRead n c cursor
    rw [hleased]
    exact if_pos rfl
  have hcalm : Calm false h (next (next q (.flush n) ()) (.getCursor c) cursor) :=
    (hq.flush hs n).next hs _ (fun _ _ hop => by cases hop) (fun _ hop => by cases hop) cursor
  refine (Prog.follows_cmd_bind _ _ _ _).mpr ⟨⟨hcalm.ends, cursor, hread, rfl⟩, fun u => ?_⟩
  refine ((await_stays hs (.addLeased c) rfl n).bind fun _ => Prog.stays_ret _) _ ?_
  exact hcalm.next hs _ (fun _ _ hop => by cases hop) (fun _ hop => by cases hop) u

theorem claim_stays (n c : Nat) : (claim n c).Stays protocol (Calm false h) := by
  refine (Prog.stays_cmd (keeps_plain hs (.owns n c) rfl)).bind fun _ =>
    .ite (fun _ => Prog.stays_ret _) fun _ => ?_
  intro q hq
  refine (Prog.follows_bind _ _ _ _).mpr (await_follows hq.ends fun taken => ?_)
  have hcalm : Calm false h (next (next q (.flush n) ()) (.setLease n c) taken) :=
    (hq.flush hs n).next hs _ (fun _ _ hop => by cases hop) (fun _ hop => by cases hop) taken
  cases taken with
  | true => exact enter_takes hs n c _ ⟨hcalm, rfl⟩
  | false =>
    refine (Prog.follows_bind _ _ _ _).mpr (await_follows trivial fun holder => ?_)
    have hcalm' := (hcalm.flush hs n).next hs (.getLease c) (fun _ _ hop => by cases hop)
      (fun _ hop => by cases hop) holder
    by_cases hholder : holder = some n
    · rw [if_pos hholder]
      refine enter_takes hs n c _ ⟨hcalm', ?_⟩
      show ((Claiming.refused n c).next (.flush n) ()).next (.getLease c) holder = .leased n c
      simp [Claiming.next, hholder]
    · rw [if_neg hholder]
      exact hcalm'

theorem own_stays (n c : Nat) : (CallInbox.own n c).Stays protocol (Calm false h) := by
  refine (claim_stays hs n c).bind fun claimed => .ite (fun _ => Prog.stays_ret _) fun _ => ?_
  exact (Prog.stays_cmd (keeps_taking hs (.inl ⟨n, c, rfl⟩))).bind fun _ => Prog.stays_ret _

theorem take_stays (n c : Nat) (room : RoomAdoption) : (take n c room).Stays protocol (Calm false h) := by
  refine (Prog.stays_cmd (keeps_plain hs (.isEnded c) rfl)).bind fun _ =>
    .ite (fun _ => await_stays hs _ rfl n) fun _ => ?_
  refine (claim_stays hs n c).bind fun claimed => .ite (fun _ => ?_) fun _ => Prog.stays_ret _
  cases room with
  | failed => exact release_stays hs n c false
  | noRoom => exact (release_stays hs n c false).bind fun _ => await_stays hs _ rfl n
  | adopted => exact (Prog.stays_cmd (keeps_taking hs (.inl ⟨n, c, rfl⟩))).bind fun _ => Prog.stays_ret _

theorem adopt_stays (n c : Nat) (room : RoomAdoption) : (adopt n c room).Stays protocol (Calm false h) := by
  refine (await_stays hs _ rfl n).bind fun leased => ?_
  refine (Prog.stays_cmd (keeps_plain hs (.owns n c) rfl)).bind fun owned =>
    .ite (fun _ => ?_) fun _ => Prog.stays_ret _
  exact (await_stays hs _ rfl n).bind fun _ => .ite (fun _ => take_stays hs n c room) fun _ => Prog.stays_ret _

end taking

/-! ## Running inputs -/

/-- The release that a notice asks for lets go of the call and of its lease. -/
theorem release_taken {e : Bool} (n c : Nat) :
    (release n c true).Takes protocol (Calm e (.taken n c)) (Calm e (.released n c)) := by
  intro q hq
  refine (Prog.follows_cmd_bind _ _ _ _).mpr ⟨trivial, fun had => ?_⟩
  have hdropped : Calm e (.dropped n c) (next q (.unregister n c) had) := by
    refine ⟨hq.ends, ?_, hq.made⟩
    show q.handling.next (.unregister n c) had = .dropped n c
    rw [hq.handling]
    exact if_pos rfl
  have hflush : ∀ {q : Phase} (u : Unit), Calm e (.dropped n c) q → Calm e (.released n c) (next q (.flush n) u) := by
    intro q u hq
    refine ⟨hq.ends, ?_, hq.made⟩
    show q.handling.next (.flush n) u = .released n c
    rw [hq.handling]
    exact if_pos rfl
  cases had with
  | true =>
    refine (Prog.follows_cmd_bind _ _ _ _).mpr ⟨trivial, fun u => ?_⟩
    exact await_stays (settled_released n c) _ rfl n _ (hflush u hdropped)
  | false =>
    refine (Prog.follows_cmd_bind _ _ _ _).mpr ⟨trivial, fun u => ?_⟩
    exact keeps_plain (settled_released n c) (.purge c) rfl _ (hflush u hdropped)

/-- Without a notice to settle, or with one for a call that has not ended. -/
theorem onTerminated_stays {e : Bool} {h : Handling} (hs : h.Settled) (n c : Nat) :
    (do if !(← .cmd (Op.isEnded c)) then endCall n c false true .onlyHere
        if ← .cmd (Op.isEnded c) then release n c true : Code Unit).Stays protocol (Calm e h) := by
  have hrelease : (do if ← .cmd (Op.isEnded c) then release n c true : Code Unit).Stays protocol (Calm e h) :=
    (Prog.stays_cmd (keeps_plain hs (.isEnded c) rfl)).bind fun _ =>
      .ite (fun _ => release_stays hs n c true) fun _ => Prog.stays_ret _
  refine (Prog.stays_cmd (keeps_plain hs (.isEnded c) rfl)).bind fun ended => ?_
  cases ended with
  | false => exact (endCall_stays hs n c false true .onlyHere).bind fun _ => hrelease
  | true => exact hrelease

/-- Settled in the end, whatever the input was. -/
theorem handle_takes {e : Bool} (n : Nat) :
    (handle n).Takes protocol (Calm e .idle) fun q => q.reading.made = q.rounds ∧ q.handling.Settled := by
  intro q hq
  have hdone : ∀ {h : Handling} (q : Phase), h.Settled → Calm e h q → q.reading.made = q.rounds ∧ q.handling.Settled :=
    fun q hs hq => ⟨hq.made, hq.handling ▸ hs⟩
  have hafter : ∀ (h : Handling) (input : Option (Nat × Input)), q.handling.next (.takeInput n) input = h →
      Calm e h (next q (.takeInput n) input) := fun h input heq => ⟨hq.ends, heq, hq.made⟩
  refine (Prog.follows_cmd_bind _ _ _ _).mpr ⟨hq.handling, fun input => ?_⟩
  match input with
  | none => exact hdone _ settled_idle (hafter .idle none hq.handling)
  | some (c, .other m) => exact hdone _ settled_idle (hafter .idle _ hq.handling)
  | some (c, .callTerminated false) =>
    have hidle := hafter .idle (some (c, .callTerminated false)) hq.handling
    exact (onTerminated_stays settled_idle n c _ hidle).mono fun _ q hq => hdone q settled_idle hq
  | some (c, .callTerminated true) =>
    have htaken := hafter (.taken n c) (some (c, .callTerminated true)) rfl
    have hstill : ∀ {q : Phase}, Calm e (.taken n c) q → Calm e (.taken n c) (next q (.isEnded c) true) := by
      intro q hq
      refine ⟨hq.ends, ?_, hq.made⟩
      show q.handling.next (.isEnded c) true = .taken n c
      rw [hq.handling]
      exact if_neg (by simp)
    have hunfounded : ∀ {q : Phase}, Calm e (.taken n c) q → Calm e (.unfounded n c) (next q (.isEnded c) false) := by
      intro q hq
      refine ⟨hq.ends, ?_, hq.made⟩
      show q.handling.next (.isEnded c) false = .unfounded n c
      rw [hq.handling]
      exact if_pos ⟨rfl, rfl⟩
    refine (Prog.follows_cmd_bind _ _ _ _).mpr ⟨trivial, fun ended => ?_⟩
    cases ended with
    | false =>
      have hrelease : (do if ← .cmd (Op.isEnded c) then release n c true : Code Unit).Stays protocol
          (Calm e (.unfounded n c)) :=
        (Prog.stays_cmd (keeps_plain (settled_unfounded n c) (.isEnded c) rfl)).bind fun _ =>
          .ite (fun _ => release_stays (settled_unfounded n c) n c true) fun _ => Prog.stays_ret _
      have hboth := (endCall_stays (e := e) (settled_unfounded n c) n c false true .onlyHere).bind
        fun _ => hrelease
      exact (hboth _ (hunfounded htaken)).mono fun _ q hq => hdone q (settled_unfounded n c) hq
    | true =>
      refine (Prog.follows_cmd_bind _ _ _ _).mpr ⟨trivial, fun ended => ?_⟩
      cases ended with
      | false => exact hdone _ (settled_unfounded n c) (hunfounded (hstill htaken))
      | true =>
        exact (release_taken n c _ (hstill (hstill htaken))).mono fun _ q hq =>
          hdone q (settled_released n c) hq

/-! ## The read loop -/

/-- All streams are gone through, or a delivery threw. -/
theorem deliverAll_follows (n : Nat) (streams : List (Nat × List Entry)) (q : Phase) (hloop : q.loop = some n)
    (hasked : q.reading.asked = none) (hstopped : q.reading.stopped = false)
    (hbatch : q.reading.batch = streams.map fun stream => (n, stream.1, stream.2)) :
    (deliverAll n streams).Follows protocol q fun ok (q' : Phase) =>
      if ok then q' = { q with reading := { q.reading with batch := [] } }
      else q'.reading.stopped = true ∧ q'.handling = q.handling := by
  induction streams generalizing q with
  | nil =>
    show q = { q with reading := { q.reading with batch := [] } }
    have hnil : q.reading.batch = [] := hbatch
    rw [← hnil]
  | cons stream rest ih =>
    refine (Prog.follows_cmd_bind _ _ _ _).mpr ⟨⟨hloop, hasked, by simp [hbatch]⟩, fun ok => ?_⟩
    cases ok with
    | true =>
      have hnext : next q (.deliver n stream.1 stream.2) true =
          { q with reading := { q.reading with batch := q.reading.batch.tail } } := by
        simp [next, Reading.next, Claiming.next, Handling.next, owedNext, lostNext]
      show (deliverAll n rest).Follows protocol (next q (.deliver n stream.1 stream.2) true) _
      rw [hnext]
      exact ih { q with reading := { q.reading with batch := q.reading.batch.tail } } hloop hasked hstopped
        (by simp [hbatch])
    | false =>
      refine ⟨?_, rfl⟩
      show (q.reading.stopped || !false) = true
      simp

theorem readLoop_follows (n rounds : Nat) (q : Phase) (hloop : q.loop = some n)
    (hasked : q.reading.asked = none) (hstopped : q.reading.stopped = false) (hbatch : q.reading.batch = [])
    (hhandling : q.handling.Settled) :
    (readLoop n rounds).Follows protocol q fun _ (q' : Phase) =>
      (q'.reading.stopped = true ∨ q'.reading.made = q.reading.made + rounds ∧ q'.rounds = q.rounds) ∧
        q'.handling.Settled := by
  induction rounds generalizing q with
  | zero => exact ⟨.inr ⟨rfl, rfl⟩, hhandling⟩
  | succ rounds ih =>
    refine (Prog.follows_cmd_bind _ _ _ _).mpr ⟨⟨hloop, hasked, hbatch⟩, fun from_ => ?_⟩
    refine (Prog.follows_cmd_bind _ _ _ _).mpr ⟨⟨hloop, rfl, hbatch⟩, fun streams => ?_⟩
    have hall := deliverAll_follows n streams (next (next q (.streams n) from_) (.xread n from_) streams)
      hloop rfl hstopped rfl
    refine hall.bind fun ok q' hok => ?_
    cases ok with
    | true =>
      obtain rfl : q' = { q with reading := { q.reading with asked := none, batch := [], made := q.reading.made + 1 } } := hok
      refine (ih { q with reading := { q.reading with asked := none, batch := [], made := q.reading.made + 1 } }
        hloop rfl hstopped rfl hhandling).mono fun _ q'' h => ⟨h.1.imp_right ?_, h.2⟩
      rintro ⟨hmade, hrounds⟩
      refine ⟨?_, hrounds⟩
      rw [hmade]
      show q.reading.made + 1 + rounds = q.reading.made + (rounds + 1)
      omega
    | false => exact ⟨.inl hok.1, hok.2 ▸ hhandling⟩

/-! ## Every task -/

theorem follows (t : Task) : t.code.Follows protocol (start t) fun _ => Ended := by
  have hcalm : t.rounds = 0 → Calm t.ends .idle (start t) := fun hr => ⟨rfl, rfl, hr.symm⟩
  have hend : ∀ {m : Code Unit} {e : Bool}, m.Stays protocol (Calm e .idle) → Calm e .idle (start t) →
      m.Follows protocol (start t) fun _ => Ended := fun hm hq =>
    (hm _ hq).mono fun _ q hq => ⟨.inr hq.made, hq.handling ▸ settled_idle⟩
  cases t with
  | readLoop n rounds =>
    refine (readLoop_follows n rounds _ rfl rfl rfl rfl settled_idle).mono fun _ q h => ⟨h.1.imp_right ?_, h.2⟩
    rintro ⟨hmade, hrounds⟩
    rw [hmade, hrounds]
    exact Nat.zero_add rounds
  | handle n => exact (handle_takes n _ (hcalm rfl)).mono fun _ q h => ⟨.inr h.1, h.2⟩
  | own n c => exact hend ((own_stays settled_idle n c).bind fun _ => Prog.stays_ret _) (hcalm rfl)
  | adopt n c room => exact hend (adopt_stays settled_idle n c room) (hcalm rfl)
  | release n c purge => exact hend (release_stays settled_idle n c purge) (hcalm rfl)
  | handOver n =>
    exact hend ((Prog.stays_cmd (keeps_plain settled_idle (.ownedIds n) rfl)).bind fun ids =>
      releaseAll_stays settled_idle n ids) (hcalm rfl)
  | renew n =>
    exact hend ((Prog.stays_cmd (keeps_plain settled_idle (.ownedIds n) rfl)).bind fun ids =>
      renewAll_stays settled_idle n ids) (hcalm rfl)
  | post n c input => exact hend (post_stays settled_idle n c input) (hcalm rfl)
  | endCall n c guarded passes media => exact hend (endCall_stays settled_idle n c guarded passes media) (hcalm rfl)
  | commitAndSettle n c media => exact hend (commitAndSettle_stays settled_idle n c media) (hcalm rfl)
  | serve n => exact hend (Prog.stays_cmd (keeps_plain settled_idle _ rfl)) (hcalm rfl)
  | lapse c =>
    refine ⟨rfl, fun u => ⟨.inr rfl, trivial⟩⟩

/-- What a task is does not change. -/
theorem phase_fixed (q : Phase) (h : History Op.Res) : let q' : Phase := protocol.phase q h
    q'.ends = q.ends ∧ q'.loop = q.loop ∧ q'.rounds = q.rounds := by
  induction h with
  | nil => exact ⟨rfl, rfl, rfl⟩
  | cons x h ih => exact ih

/-! ## Runs -/

section run

variable {ι : Type} [DecidableEq ι] (tasks : ι → Task) (w : Cluster) (schedule : List ι)

/-- The workers after the schedule's first `k` moves. -/
def after (k : Nat) : Workers ι := (Workers.spawn w tasks).after schedule k

def phases (k : Nat) (i : ι) : Phase :=
  protocol.phases (fun i => start (tasks i)) (after tasks w schedule k) i

/-- Move `k` by `i` issues `op`. -/
structure Moved (k : Nat) (i : ι) (op : Op) : Prop where
  mover : schedule[k]? = some i
  next : (after tasks w schedule k).next i = some op
  allows : allows (phases tasks w schedule k i) op
  state : (after tasks w schedule (k + 1)).state = (op.exec (after tasks w schedule k).state).1
  own : phases tasks w schedule (k + 1) i =
    Inbox.next (phases tasks w schedule k i) op (op.exec (after tasks w schedule k).state).2
  others : ∀ j, j ≠ i → phases tasks w schedule (k + 1) j = phases tasks w schedule k j

/-- A run of fewer moves than that has made them all. -/
theorem after_of_none {k : Nat} (h : schedule[k]? = none) : after tasks w schedule (k + 1) = after tasks w schedule k := by
  have hsame : schedule.take (k + 1) = schedule.take k := by
    rw [List.take_add_one, h]
    simp
  unfold after Workers.after
  rw [hsame]

theorem conforms (k : Nat) :
    protocol.Conforms Ended (fun i => start (tasks i)) (after tasks w schedule k) := by
  induction k with
  | zero => exact Protocol.conforms_spawn fun i => follows (tasks i)
  | succ k ih =>
    cases hi : schedule[k]? with
    | some i => exact (Workers.after_succ hi ih).1
    | none => exact (after_of_none tasks w schedule hi).symm ▸ ih

theorem phases_ends (k : Nat) (i : ι) : (phases tasks w schedule k i).ends = (tasks i).ends :=
  (phase_fixed _ _).1

theorem phases_loop (k : Nat) (i : ι) : (phases tasks w schedule k i).loop = (tasks i).loop :=
  (phase_fixed _ _).2.1

theorem phases_rounds (k : Nat) (i : ι) : (phases tasks w schedule k i).rounds = (tasks i).rounds :=
  (phase_fixed _ _).2.2

/-- A move is that of a thread that is done, or issues an operation. -/
theorem moved {k : Nat} {i : ι} (hi : schedule[k]? = some i) :
    ((after tasks w schedule k).next i = none ∧ after tasks w schedule (k + 1) = after tasks w schedule k) ∨
      ∃ op, Moved tasks w schedule k i op := by
  obtain ⟨_, ⟨hnone, hsame⟩ | ⟨op, hnext, hallows, hstate, hphases⟩⟩ :=
    Workers.after_succ hi (conforms tasks w schedule k)
  · exact .inl ⟨hnone, hsame⟩
  · refine .inr ⟨op, hi, hnext, hallows, hstate, ?_, fun j hj => ?_⟩
    · unfold phases after
      rw [hphases, Function.update_self]
      rfl
    · unfold phases after
      rw [hphases, Function.update_of_ne hj]

/-- What holds at the start and is kept by every move holds throughout. -/
theorem run_induction {I : Nat → Prop} (hzero : I 0)
    (hsame : ∀ k, after tasks w schedule (k + 1) = after tasks w schedule k → I k → I (k + 1))
    (hsucc : ∀ k i op, Moved tasks w schedule k i op → I k → I (k + 1)) (k : Nat) : I k := by
  induction k with
  | zero => exact hzero
  | succ k ih =>
    cases hi : schedule[k]? with
    | none => exact hsame k (after_of_none tasks w schedule hi) ih
    | some i =>
      obtain ⟨_, heq⟩ | ⟨op, hm⟩ := moved tasks w schedule hi
      · exact hsame k heq ih
      · exact hsucc k i op hm ih

variable {tasks w schedule} {k : Nat} {i : ι}

theorem moved_of_next {op : Op} (hi : schedule[k]? = some i) (h : (after tasks w schedule k).next i = some op) :
    Moved tasks w schedule k i op := by
  obtain ⟨hnone, _⟩ | ⟨op', hm⟩ := moved tasks w schedule hi
  · exact absurd (hnone.symm.trans h) (by simp)
  · obtain rfl : op' = op := Option.some.inj (hm.next.symm.trans h)
    exact hm

theorem Moved.seen {op : Op} (hm : Moved tasks w schedule k i op) (j : ι) :
    ((after tasks w schedule (k + 1)).threads j).seen =
      if j = i then ⟨op, (op.exec (after tasks w schedule k).state).2⟩ :: ((after tasks w schedule k).threads j).seen
      else ((after tasks w schedule k).threads j).seen := by
  obtain ⟨cont, hp⟩ := Config.next_eq_some.mp hm.next
  have hafter : after tasks w schedule (k + 1) = step Op.exec (after tasks w schedule k) i :=
    run_take_succ Op.exec hm.mover
  rw [hafter, step_call Op.exec hp]
  by_cases hj : j = i
  · subst hj
    simp
  · simp [hj]

theorem Moved.mem {op : Op} (h : Moved tasks w schedule k i op) : i ∈ schedule :=
  List.mem_of_getElem? h.mover

section reading

variable {op : Op} {j : ι} {n c : Nat} {from_ : List (Nat × Nat)} {entries : List Entry}

/-- What a loop has at hand was there before, or has just been read. -/
theorem Moved.mem_batch (hm : Moved tasks w schedule k i op)
    (h : (n, c, entries) ∈ (phases tasks w schedule (k + 1) j).reading.batch) :
    (n, c, entries) ∈ (phases tasks w schedule k j).reading.batch ∨
      j = i ∧ ∃ from_, op = .xread n from_ ∧ (c, entries) ∈ (after tasks w schedule k).state.xread from_ := by
  by_cases hj : j = i
  · subst hj
    rw [hm.own] at h
    cases op with
    | xread m from_ =>
      obtain ⟨stream, hstream, heq⟩ := List.mem_map.mp h
      obtain ⟨rfl, hrest⟩ := Prod.mk.inj heq
      obtain ⟨rfl, rfl⟩ := Prod.mk.inj hrest
      exact .inr ⟨rfl, from_, rfl, hstream⟩
    | deliver m d entries => exact .inl (List.mem_of_mem_tail h)
    | _ => exact .inl h
  · rw [hm.others j hj] at h
    exact .inl h

/-- What a loop has at hand stays there until it is delivered. -/
theorem Moved.batch_stays (hm : Moved tasks w schedule k i op)
    (h : (n, c, entries) ∈ (phases tasks w schedule k j).reading.batch) :
    (n, c, entries) ∈ (phases tasks w schedule (k + 1) j).reading.batch ∨ j = i ∧ op = .deliver n c entries := by
  by_cases hj : j = i
  · subst hj
    have hallows := hm.allows
    rw [hm.own]
    cases op with
    | xread m from_ =>
      obtain ⟨_, _, hnil⟩ := hallows
      rw [hnil] at h
      cases h
    | deliver m d entries' =>
      obtain ⟨_, _, hhead⟩ := hallows
      obtain ⟨rest, hcons⟩ := List.head?_eq_some_iff.mp hhead
      rw [hcons, List.mem_cons] at h
      obtain heq | hmem := h
      · cases heq
        exact .inr ⟨rfl, rfl⟩
      · left
        show (n, c, entries) ∈ (phases tasks w schedule k j).reading.batch.tail
        rw [hcons]
        exact hmem
    | _ => exact .inl h
  · rw [hm.others j hj]
    exact .inl h

/-- What a loop asks for is what its worker has when the read begins. -/
theorem Moved.asked (hm : Moved tasks w schedule k i op)
    (h : (phases tasks w schedule (k + 1) j).reading.asked = some (n, from_)) :
    (phases tasks w schedule k j).reading.asked = some (n, from_) ∨
      j = i ∧ op = .streams n ∧ from_ = (after tasks w schedule k).state.streams n := by
  by_cases hj : j = i
  · subst hj
    rw [hm.own] at h
    cases op with
    | streams m =>
      cases h
      exact .inr ⟨rfl, rfl, rfl⟩
    | xread m from_ => cases h
    | _ => exact .inl h
  · rw [hm.others j hj] at h
    exact .inl h

end reading

theorem phases_eq {k' : Nat} (h : after tasks w schedule k' = after tasks w schedule k) (j : ι) :
    phases tasks w schedule k' j = phases tasks w schedule k j := by
  unfold phases
  rw [h]

/-- A task that is not on the schedule has not begun. -/
theorem phases_of_not_mem (k : Nat) : ∀ j ∉ schedule, phases tasks w schedule k j = start (tasks j) := by
  induction k using run_induction tasks w schedule with
  | hzero => exact fun j _ => rfl
  | hsame k heq ih =>
    intro j hj
    rw [phases_eq heq]
    exact ih j hj
  | hsucc k i op hm ih =>
    intro j hj
    have hji : j ≠ i := by
      rintro rfl
      exact hj hm.mem
    rw [hm.others j hji]
    exact ih j hj

/-- A read of the call's stream for worker `n` is under way: asked for, or answered
and not gone through. -/
def reads (q : Phase) (n c : Nat) : Bool :=
  (q.reading.asked.any fun (m, from_) => m = n && from_.any fun x => x.1 = c) ||
    q.reading.batch.any fun (m, d, _) => m = n && d = c

theorem reads_iff {q : Phase} {n c : Nat} :
    reads q n c = true ↔ (∃ from_ v, q.reading.asked = some (n, from_) ∧ (c, v) ∈ from_) ∨
      ∃ entries, (n, c, entries) ∈ q.reading.batch := by
  simp only [reads, Bool.or_eq_true, Option.any_eq_true_iff_get, List.any_eq_true, Bool.and_eq_true, decide_eq_true_eq]
  constructor
  · rintro (⟨hs, hn, ⟨d, v⟩, hmem, rfl⟩ | ⟨⟨m, d, entries⟩, hmem, rfl, rfl⟩)
    · refine .inl ⟨_, v, ?_, hmem⟩
      rw [← hn]
      exact (Option.some_get hs).symm
    · exact .inr ⟨entries, hmem⟩
  · rintro (⟨from_, v, hasked, hmem⟩ | ⟨entries, hmem⟩)
    · exact .inl ⟨by simp [hasked], by simp [hasked], ⟨c, v⟩, by simpa [hasked] using hmem, rfl⟩
    · exact .inr ⟨_, hmem, rfl, rfl⟩

/-- If nobody on the schedule reads the call for the worker, nobody does. -/
theorem not_reads {k n c : Nat}
    (h : (!schedule.any fun j => reads (phases tasks w schedule k j) n c) = true) (j : ι) :
    ¬ reads (phases tasks w schedule k j) n c = true := by
  by_cases hj : j ∈ schedule
  · have hall : ∀ j ∈ schedule, reads (phases tasks w schedule k j) n c = false := by simpa using h
    simp [hall j hj]
  · rw [phases_of_not_mem k j hj]
    simp [reads, start]

/-- Only a worker's read loop reads for it. -/
theorem loop_of_reading (k : Nat) : ∀ j n,
    ((∃ from_, (phases tasks w schedule k j).reading.asked = some (n, from_)) ∨
      ∃ c entries, (n, c, entries) ∈ (phases tasks w schedule k j).reading.batch) →
    (tasks j).loop = some n := by
  induction k using run_induction tasks w schedule with
  | hzero =>
    rintro j n (⟨from_, h⟩ | ⟨c, entries, h⟩)
    · cases h
    · cases h
  | hsame k heq ih =>
    intro j n h
    rw [phases_eq heq] at h
    exact ih j n h
  | hsucc k i op hm ih =>
    rintro j n (⟨from_, h⟩ | ⟨c, entries, h⟩)
    · obtain hbefore | ⟨rfl, rfl, _⟩ := hm.asked h
      · exact ih j n (.inl ⟨from_, hbefore⟩)
      · exact (phases_loop tasks w schedule k j).symm.trans hm.allows.1
    · obtain hbefore | ⟨rfl, from_, rfl, _⟩ := hm.mem_batch h
      · exact ih j n (.inr ⟨c, entries, hbefore⟩)
      · exact (phases_loop tasks w schedule k j).symm.trans hm.allows.1

/-- Who took the notice of a call has to do with it from then on. -/
theorem handling_of_seen (k : Nat) : ∀ j n c,
    (⟨.takeInput n, some (c, .callTerminated true)⟩ : Sigma Op.Res) ∈ ((after tasks w schedule k).threads j).seen →
    (phases tasks w schedule k j).handling.Of n c := by
  induction k using run_induction tasks w schedule with
  | hzero =>
    intro j n c h
    cases h
  | hsame k heq ih =>
    rw [heq]
    intro j n c h
    rw [phases_eq heq]
    exact ih j n c h
  | hsucc k i op hm ih =>
    intro j n c h
    rw [hm.seen] at h
    by_cases hj : j = i
    · subst hj
      rw [if_pos rfl, List.mem_cons] at h
      rw [hm.own]
      obtain heq | hseen := h
      · obtain ⟨rfl, hinput⟩ := Sigma.mk.inj heq
        show ((phases tasks w schedule k j).handling.next (.takeInput n) _).Of n c
        rw [← eq_of_heq hinput]
        exact ⟨rfl, rfl⟩
      · refine (ih j n c hseen).next ?_ _
        rintro m rfl
        have hidle := hm.allows
        have hof := ih j n c hseen
        rw [show (phases tasks w schedule k j).handling = .idle from hidle] at hof
        exact hof
    · rw [if_neg hj] at h
      rw [hm.others j hj]
      exact ih j n c h

end run

end Callio.Inbox
