import Callio.Http.Idempotency

/-! Requests with one Idempotency-Key. As long as each run ends within two minutes of
its claim, the key has one run at a time, whose response is kept for the key's lifetime
unless it is a 5xx; who comes later is answered from the row alone. -/

namespace Callio.IdempotencyKey

open Concurrency Idempotency

/-! ## The property -/

section property

variable {ι : Type} (lib : Primitives)

def failed (r : Request) : Bool := 500 ≤ r.response.statusCode

/-- The request goes through the key. -/
def Keyed (r : Request) : Prop :=
  r.content.method = "POST" ∧ r.authenticated = true ∧ r.idempotent = true ∧
    ∃ key, r.key = some key ∧ ¬ (key.length = 0 ∨ 255 < key.length)

/-- The task's request; a purge and the passing of time have none. -/
def requestOf : Task → Request
  | .request r => r
  | _ => ⟨⟨"", "", ""⟩, none, true, true, none, ⟨0, none⟩⟩

/-- The last claim of the row, or end of a run. -/
def lastTurn : List (Entry ι) → Option (Entry ι)
  | [] => none
  | .claimed i id t :: _ => some (.claimed i id t)
  | .ended i :: _ => some (.ended i)
  | _ :: log => lastTurn log

/-- A run of request `i` that began at `t` is going on. -/
def Running (w : World ι) (i : ι) (t : Nat) : Prop := (∃ id, .claimed i id t ∈ w.log) ∧ .ended i ∉ w.log

/-- Every run that goes on began less than two minutes ago. -/
def Prompt (w : World ι) : Prop := ∀ i t, Running w i t → w.now < t + abandonedAfterSeconds

/-- The claim's run is through, or began less than two minutes ago. -/
def promptEntry [DecidableEq ι] (w : World ι) : Entry ι → Bool
  | .claimed i _ t => .ended i ∈ w.log || w.now < t + abandonedAfterSeconds
  | _ => true

theorem prompt_iff [DecidableEq ι] {w : World ι} : (∀ e ∈ w.log, promptEntry w e = true) ↔ Prompt w := by
  constructor
  · rintro h i t ⟨⟨id, hc⟩, hended⟩
    simpa [promptEntry, hended] using h _ hc
  · intro h e he
    cases e with
    | claimed i id t =>
      by_cases hended : .ended i ∈ w.log
      · simp [promptEntry, hended]
      · simpa [promptEntry, hended] using h i t ⟨⟨id, he⟩, hended⟩
    | found | ran | ended | replied => rfl

instance [DecidableEq ι] (w : World ι) : Decidable (Prompt w) := decidable_of_iff _ prompt_iff

/-- Request `i`'s run gave a response that is kept. -/
def Stored (req : ι → Request) (w : World ι) (i : ι) (t : Nat) : Prop :=
  (∃ id, .claimed i id t ∈ w.log) ∧ .ended i ∈ w.log ∧ failed (req i) = false

variable [DecidableEq ι] (tasks : ι → Task) (schedule : List ι)

/-- After the schedule's first `k` moves, from a key that nobody has used. -/
def after (k : Nat) : Config (@Op.Res ι) (World ι) ι :=
  run Op.exec (Config.spawn {} fun i => (tasks i).code lib i) (schedule.take k)

/-- Request `j` has not begun yet. -/
def Unbegun (k : Nat) (j : ι) : Prop := ((after lib tasks schedule k).threads j).seen = []

/-- By the time of `k` request `j` was answered `reply` at most, and its handler did not run. -/
def OnlyAnswered (k : Nat) (j : ι) (reply : Reply) : Prop :=
  .ran j ∉ (after lib tasks schedule k).state.log ∧
    ∀ r, .replied j r ∈ (after lib tasks schedule k).state.log → r = reply

/-- The request of each task. -/
def requests (i : ι) : Request := requestOf (tasks i)

/-- What holds of the requests with the key. -/
structure Sound : Prop where
  /-- At most one run within the key's lifetime yields a response that is kept. -/
  one : ∀ k ≤ schedule.length, ∀ i j t t', i ≠ j → Stored (requests tasks) (after lib tasks schedule k).state i t →
    Stored (requests tasks) (after lib tasks schedule k).state j t' → t + ttlSeconds ≤ t' ∨ t' + ttlSeconds ≤ t
  /-- Who comes after it with the same request gets its response. -/
  replayed : ∀ k i j t, Stored (requests tasks) (after lib tasks schedule k).state i t → Unbegun lib tasks schedule k j →
    (requests tasks j).content = (requests tasks i).content → ∀ k', k ≤ k' → k' ≤ schedule.length →
      (after lib tasks schedule k').state.now < t + ttlSeconds →
        OnlyAnswered lib tasks schedule k' j
          (.replayed (requests tasks i).response.statusCode (storedBody lib (requests tasks i).response))
  /-- Who comes after its claim with another request is refused. -/
  refused : ∀ k i j t, (∃ id, .claimed i id t ∈ (after lib tasks schedule k).state.log) →
    Unbegun lib tasks schedule k j → (requests tasks j).content ≠ (requests tasks i).content →
      ∀ k', k ≤ k' → k' ≤ schedule.length → (after lib tasks schedule k').state.now < t + ttlSeconds →
        (.ended i ∈ (after lib tasks schedule k').state.log → failed (requests tasks i) = false) →
          OnlyAnswered lib tasks schedule k' j reused
  /-- Who comes during the run and looks at the row during the run is told so. -/
  inUse : ∀ k i j t, Running (after lib tasks schedule k).state i t → Unbegun lib tasks schedule k j →
    (requests tasks j).content = (requests tasks i).content → ∀ k', k ≤ k' → k' ≤ schedule.length →
      Running (after lib tasks schedule k').state i t → .found j ∈ (after lib tasks schedule k').state.log →
        ∀ k'', k' ≤ k'' → k'' ≤ schedule.length → OnlyAnswered lib tasks schedule k'' j Idempotency.inUse
  /-- The first to claim the key after a 5xx runs. -/
  next : ∀ k (hk : k < schedule.length) i h ttl, failed (requests tasks i) = true →
    lastTurn (after lib tasks schedule k).state.log = some (.ended i) →
      (after lib tasks schedule k).next schedule[k] = some (.claim schedule[k] h ttl) →
        ∃ id t, .claimed schedule[k] id t ∈ (after lib tasks schedule (k + 1)).state.log
  /-- Who has claimed the key runs, and is answered by its handler; everybody is answered. -/
  answered : ∀ k ≤ schedule.length, ∀ j r, tasks j = .request r → ((after lib tasks schedule k).threads j).Finished →
    (∃ reply, .replied j reply ∈ (after lib tasks schedule k).state.log) ∧
      ((∃ id t, .claimed j id t ∈ (after lib tasks schedule k).state.log) →
        .ran j ∈ (after lib tasks schedule k).state.log ∧
          .replied j (.sent r.response) ∈ (after lib tasks schedule k).state.log)

end property

/-! ## A request's way through the hooks -/

inductive Phase
  /-- To claim the key, `left` times more after this one. -/
  | trying (left : Nat)
  | missed (left : Nat)
  | removing (id left : Nat)
  | stale (id : Nat)
  | decided (reply : Reply)
  | answered (reply : Reply)
  | owner (id : Nat)
  | ran (id : Nat)
  | ended
  | done
  /-- Not a request. -/
  | beside
  deriving DecidableEq

/-- It has no claim. -/
def Phase.unclaimed : Phase → Bool
  | owner _ | ran _ | ended | done => false
  | _ => true

/-- The attempts left after this one. -/
def Phase.left : Phase → Nat
  | trying left | missed left | removing _ left => left
  | _ => 0

def Phase.running (id : Nat) : Phase → Bool
  | owner id' | ran id' => id' = id
  | _ => false

def again : Nat → Phase
  | 0 => .decided inUseAfterAll
  | left + 1 => .trying left

def afterVerdict (left : Nat) : Verdict → Phase
  | .claimAgain => again left
  | .expired id => .removing id left
  | .abandoned id => .stale id
  | .reply reply => .decided reply

theorem afterVerdict_left {left : Nat} (h : left ≤ 1) (v : Verdict) : (afterVerdict left v).left ≤ 1 := by
  cases v with
  | claimAgain =>
    cases left with
    | zero => exact Nat.zero_le _
    | succ left => exact Nat.le_of_succ_le h
  | expired id => exact h
  | abandoned id => exact Nat.zero_le _
  | reply reply => exact Nat.zero_le _

section protocol

variable {ι : Type} (lib : Primitives) (req : ι → Request)

def next (p : ι × Phase) : (op : Op ι) → op.Res → ι × Phase
  | .claim _ _ _, answer =>
      match answer, p.2 with
      | some id, _ => (p.1, .owner id)
      | none, .trying left => (p.1, .missed left)
      | none, q => (p.1, q)
  | .find _, found =>
      match p.2 with
      | .missed left => (p.1, afterVerdict left (judge (lib.digest (req p.1).content) found))
      | q => (p.1, q)
  | .remove _, _ =>
      match p.2 with
      | .removing _ left => (p.1, again left)
      | q => (p.1, q)
  | .takeOver _ id _, true => (p.1, .owner id)
  | .takeOver _ _ _, false => (p.1, .decided inUse)
  | .handle _, _ =>
      match p.2 with
      | .owner id => (p.1, .ran id)
      | q => (p.1, q)
  | .complete _ _ _ _, _ => (p.1, .ended)
  | .removeFailed _ _, _ => (p.1, .ended)
  | .reply _ reply, _ =>
      match p.2 with
      | .ended => (p.1, .done)
      | _ => (p.1, .answered reply)
  | _, _ => p

def allows (p : ι × Phase) : Op ι → Prop
  | .claim i hash ttl =>
      i = p.1 ∧ hash = lib.digest (req i).content ∧ ttl = ttlSeconds ∧ ∃ left, p.2 = .trying left
  | .find i => i = p.1 ∧ ∃ left, p.2 = .missed left
  | .remove id => ∃ left, p.2 = .removing id left
  | .takeOver i id _ => i = p.1 ∧ p.2 = .stale id
  | .handle i => i = p.1 ∧ ∃ id, p.2 = .owner id
  | .complete i id status body =>
      i = p.1 ∧ p.2 = .ran id ∧ failed (req i) = false ∧ status = (req i).response.statusCode ∧
        body = storedBody lib (req i).response
  | .removeFailed i id => i = p.1 ∧ p.2 = .ran id ∧ failed (req i) = true
  | .reply i reply => i = p.1 ∧ (p.2 = .decided reply ∨ p.2 = .ended ∧ reply = .sent (req i).response)
  | .purgeExpired _ | .pass _ => True

def protocol : Protocol (@Op.Res ι) := ⟨ι × Phase, next lib req, allows lib req⟩

/-- A request is through when it is answered. -/
def Through (tasks : ι → Task) (p : ι × Phase) : Prop :=
  ∀ r, tasks p.1 = .request r → (∃ reply, p.2 = .answered reply) ∨ p.2 = .done

variable {lib req} {i : ι}

/-- Out of the hook the request has a row of its own, or an answer. -/
def afterHook (i : ι) : Passed → ι × Phase → Prop
  | .runs (some id), p => p = (i, .owner id)
  | .runs none, _ => False
  | .answered reply, p => p = (i, .decided reply)

theorem attempt_follows (attempts : Nat) :
    (attempt i (lib.digest (req i).content) attempts).Follows (protocol lib req) (i, again attempts)
      (afterHook i) := by
  induction attempts with
  | zero => rfl
  | succ left ih =>
    refine (Prog.follows_cmd_bind _ _ _ _).mpr ⟨⟨rfl, rfl, rfl, left, rfl⟩, fun claimed => ?_⟩
    cases claimed with
    | some id => rfl
    | none =>
      refine (Prog.follows_cmd_bind _ _ _ _).mpr ⟨⟨rfl, left, rfl⟩, fun found => ?_⟩
      have hphase : (protocol lib req).next
          ((protocol lib req).next (i, again (left + 1)) (.claim i (lib.digest (req i).content) ttlSeconds) none)
          (.find i) found = (i, afterVerdict left (judge (lib.digest (req i).content) found)) := rfl
      rw [hphase]
      cases judge (lib.digest (req i).content) found with
      | claimAgain => exact ih
      | reply reply => rfl
      | expired id => exact (Prog.follows_cmd_bind _ _ _ _).mpr ⟨⟨left, rfl⟩, fun _ => ih⟩
      | abandoned id =>
        refine (Prog.follows_cmd_bind _ _ _ _).mpr ⟨⟨rfl, rfl⟩, fun taken => ?_⟩
        cases taken <;> rfl

theorem preHandler_follows (hkeyed : Keyed (req i)) :
    (idempotencyPreHandler lib i (req i)).Follows (protocol lib req) (i, .trying 1) (afterHook i) := by
  obtain ⟨hpost, hauth, hidem, key, hkey, hlen⟩ := hkeyed
  unfold idempotencyPreHandler
  have hgate : ¬ ((req i).content.method ≠ "POST" ∨ (!(req i).authenticated) = true ∨ (!(req i).idempotent) = true) := by
    simp [hpost, hauth, hidem]
  rw [if_neg hgate, hkey]
  simp only [if_neg hlen]
  exact attempt_follows 2

theorem serve_follows (tasks : ι → Task) (hkeyed : Keyed (req i)) :
    (serve lib i (req i)).Follows (protocol lib req) (i, .trying 1) fun _ => Through tasks := by
  refine (preHandler_follows hkeyed).bind ?_
  rintro (id | reply) p hp
  · cases id with
    | none => exact hp.elim
    | some id =>
      obtain rfl : p = (i, .owner id) := hp
      refine (Prog.follows_cmd_bind _ _ _ _).mpr ⟨⟨rfl, id, rfl⟩, fun _ => ?_⟩
      have hreply : (.cmd (Op.reply i (.sent (req i).response)) : Code ι Unit).Follows (protocol lib req)
          (i, .ended) fun _ => Through tasks := ⟨⟨rfl, .inr ⟨rfl, rfl⟩⟩, fun _ _ _ => .inr rfl⟩
      simp only [idempotencyOnSend]
      split
      · rename_i h5xx
        refine (Prog.follows_cmd_bind _ _ _ _).mpr ⟨⟨rfl, rfl, by simpa [failed] using h5xx⟩, fun _ => hreply⟩
      · rename_i h5xx
        refine (Prog.follows_cmd_bind _ _ _ _).mpr ⟨⟨rfl, rfl, by simpa [failed] using h5xx, rfl, rfl⟩, fun _ => hreply⟩
  · obtain rfl : p = (i, .decided reply) := hp
    exact ⟨⟨rfl, .inl rfl⟩, fun _ _ _ => .inl ⟨reply, rfl⟩⟩

/-- Where a task begins. -/
def start : Task → Phase
  | .request _ => .trying 1
  | _ => .beside

theorem code_follows {tasks : ι → Task} (hkeyed : ∀ i r, tasks i = .request r → Keyed r) (i : ι) :
    ((tasks i).code lib i).Follows (protocol lib (requests tasks)) (i, start (tasks i)) fun _ => Through tasks := by
  cases h : tasks i with
  | request r =>
    have hreq : requests tasks i = r := by rw [requests, h]; rfl
    have hserve : (serve lib i (requests tasks i)).Follows (protocol lib (requests tasks)) (i, .trying 1)
        fun _ => Through tasks := serve_follows tasks (by rw [hreq]; exact hkeyed i r h)
    rwa [hreq] at hserve
  | purgeExpired hits => exact ⟨trivial, fun _ r hr => absurd (h.symm.trans hr) (by simp)⟩
  | pass seconds => exact ⟨trivial, fun _ r hr => absurd (h.symm.trans hr) (by simp)⟩

end protocol

/-! ## A request's own entries -/

section ownLog

variable {ι : Type}

/-- Whom an entry is about. -/
def who : Entry ι → ι
  | .claimed i _ _ | .found i | .ran i | .ended i | .replied i _ => i

/-- What request `i` in phase `q` has in the log. -/
structure OwnLog (r : Request) (i : ι) (q : Phase) (log : List (Entry ι)) : Prop where
  unclaimed : q.unclaimed = true → (∀ id t, .claimed i id t ∉ log) ∧ .ended i ∉ log ∧ .ran i ∉ log
  running : ∀ id, q.running id = true → (∃ t, .claimed i id t ∈ log) ∧ .ended i ∉ log
  once : ∀ id t id' t', .claimed i id t ∈ log → .claimed i id' t' ∈ log → id = id' ∧ t = t'
  claims : ∀ id t, .claimed i id t ∈ log → q.running id = true ∨ .ended i ∈ log
  through : q = .ended ∨ q = .done → .ended i ∈ log ∧ .ran i ∈ log ∧ ∃ id t, .claimed i id t ∈ log
  ran : ∀ id, q = .ran id → .ran i ∈ log
  replies : ∀ reply, .replied i reply ∈ log → q = .answered reply ∨ q = .done ∧ reply = .sent r.response
  answered : ∀ reply, q = .answered reply → .replied i reply ∈ log
  done : q = .done → .replied i (.sent r.response) ∈ log
  found : q = .trying 1 ∨ q = .missed 1 → .found i ∉ log

variable {r : Request} {i : ι} {q : Phase} {log : List (Entry ι)}

/-- Another's entry is nothing to it. -/
theorem OwnLog.push (h : OwnLog r i q log) {e : Entry ι} (he : who e ≠ i) : OwnLog r i q (e :: log) := by
  have hmem : ∀ e', who e' = i → (e' ∈ e :: log ↔ e' ∈ log) := by
    intro e' he'
    rw [List.mem_cons]
    constructor
    · rintro (rfl | h)
      · exact absurd he' he
      · exact h
    · exact .inr
  constructor
  · intro hq
    obtain ⟨hclaimed, hended, hran⟩ := h.unclaimed hq
    exact ⟨fun id t => (hmem _ rfl).not.mpr (hclaimed id t), (hmem _ rfl).not.mpr hended, (hmem _ rfl).not.mpr hran⟩
  · intro id hq
    obtain ⟨⟨t, ht⟩, hended⟩ := h.running id hq
    exact ⟨⟨t, (hmem _ rfl).mpr ht⟩, (hmem _ rfl).not.mpr hended⟩
  · intro id t id' t' h₁ h₂
    exact h.once id t id' t' ((hmem _ rfl).mp h₁) ((hmem _ rfl).mp h₂)
  · intro id t hclaimed
    rw [hmem _ rfl]
    exact h.claims id t ((hmem _ rfl).mp hclaimed)
  · intro hq
    obtain ⟨hended, hran, id, t, hclaimed⟩ := h.through hq
    exact ⟨(hmem _ rfl).mpr hended, (hmem _ rfl).mpr hran, id, t, (hmem _ rfl).mpr hclaimed⟩
  · intro id hq
    exact (hmem _ rfl).mpr (h.ran id hq)
  · intro reply hreply
    exact h.replies reply ((hmem _ rfl).mp hreply)
  · intro reply hq
    exact (hmem _ rfl).mpr (h.answered reply hq)
  · intro hq
    exact (hmem _ rfl).mpr (h.done hq)
  · intro hq
    exact (hmem _ rfl).not.mpr (h.found hq)

theorem OwnLog.unreplied (h : OwnLog r i q log) (hq : ∀ reply, q ≠ .answered reply) (hdone : q ≠ .done)
    (reply : Reply) : .replied i reply ∉ log := by
  intro hmem
  rcases h.replies reply hmem with h | ⟨h, _⟩
  · exact hq reply h
  · exact hdone h

/-- Before the row is claimed nothing is replied, so moving on says nothing new. -/
theorem OwnLog.move (h : OwnLog r i q log) (hq : q.unclaimed = true) (hans : ∀ reply, q ≠ .answered reply)
    (q' : Phase) (hq' : q'.unclaimed = true) (hans' : ∀ reply, q' ≠ .answered reply)
    (hfirst : q' = .trying 1 ∨ q' = .missed 1 → .found i ∉ log) : OwnLog r i q' log := by
  obtain ⟨hclaimed, hended, hran⟩ := h.unclaimed hq
  have hsilent := h.unreplied hans (by rintro rfl; cases hq)
  have hrunning : ∀ id, q'.running id ≠ true := by
    intro id
    cases q' <;> simp_all [Phase.running, Phase.unclaimed]
  constructor
  · exact fun _ => ⟨hclaimed, hended, hran⟩
  · exact fun id hid => absurd hid (hrunning id)
  · exact fun id t _ _ hmem => absurd hmem (hclaimed id t)
  · exact fun id t hmem => absurd hmem (hclaimed id t)
  · rintro (rfl | rfl) <;> cases hq'
  · rintro id rfl
    cases hq'
  · exact fun reply hmem => absurd hmem (hsilent reply)
  · exact fun reply hreply => absurd hreply (hans' reply)
  · rintro rfl
    cases hq'
  · exact hfirst

theorem OwnLog.claim (h : OwnLog r i q log) (hq : q.unclaimed = true) (hans : ∀ reply, q ≠ .answered reply)
    (id t : Nat) : OwnLog r i (.owner id) (.claimed i id t :: log) := by
  obtain ⟨hclaimed, hended, hran⟩ := h.unclaimed hq
  have hsilent := h.unreplied hans (by rintro rfl; cases hq)
  constructor
  · exact nofun
  · intro id' hid
    obtain rfl : id = id' := by simpa [Phase.running] using hid
    exact ⟨⟨t, List.mem_cons_self⟩, by simpa using hended⟩
  · intro id₁ t₁ id₂ t₂ h₁ h₂
    simp only [List.mem_cons, Entry.claimed.injEq, hclaimed, or_false, true_and] at h₁ h₂
    exact ⟨h₁.1.trans h₂.1.symm, h₁.2.trans h₂.2.symm⟩
  · intro id₁ t₁ h₁
    simp only [List.mem_cons, Entry.claimed.injEq, hclaimed, or_false, true_and] at h₁
    exact .inl (by simp [Phase.running, h₁.1])
  · rintro (h | h) <;> cases h
  · rintro id h
    cases h
  · intro reply hmem
    simp only [List.mem_cons, reduceCtorEq, hsilent, or_false] at hmem
  · rintro reply h
    cases h
  · rintro h
    cases h
  · rintro (h | h) <;> cases h

theorem OwnLog.finds (h : OwnLog r i q log) (hq : q.unclaimed = true) (hans : ∀ reply, q ≠ .answered reply)
    {q' : Phase} (hq' : q'.unclaimed = true) (hans' : ∀ reply, q' ≠ .answered reply)
    (hfirst : ¬ (q' = .trying 1 ∨ q' = .missed 1)) : OwnLog r i q' (.found i :: log) := by
  have hmove := h.move hq hans q' hq' hans' fun h => absurd h hfirst
  constructor
  · intro hu
    simpa using hmove.unclaimed hu
  · intro id hid
    simpa using hmove.running id hid
  · intro id t id' t'
    simpa using hmove.once id t id' t'
  · intro id t
    simpa using hmove.claims id t
  · intro ho
    simpa using hmove.through ho
  · intro id hid
    simpa using hmove.ran id hid
  · intro reply
    simpa using hmove.replies reply
  · intro reply hreply
    simpa using hmove.answered reply hreply
  · intro hd
    simpa using hmove.done hd
  · exact fun h => absurd h hfirst

theorem OwnLog.handle {id : Nat} (h : OwnLog r i (.owner id) log) : OwnLog r i (.ran id) (.ran i :: log) := by
  have hsilent := h.unreplied (by simp) (by simp)
  constructor
  · exact nofun
  · intro id' hid
    simpa using h.running id' hid
  · intro id t id' t'
    simpa using h.once id t id' t'
  · intro id' t
    simpa [Phase.running] using h.claims id' t
  · rintro (h | h) <;> cases h
  · exact fun _ _ => List.mem_cons_self
  · intro reply hmem
    simp only [List.mem_cons, reduceCtorEq, hsilent, or_false] at hmem
  · rintro reply h
    cases h
  · rintro h
    cases h
  · rintro (h | h) <;> cases h

theorem OwnLog.ends {id : Nat} (h : OwnLog r i (.ran id) log) : OwnLog r i .ended (.ended i :: log) := by
  have hsilent := h.unreplied (by simp) (by simp)
  obtain ⟨⟨t, ht⟩, _⟩ := h.running id (by simp [Phase.running])
  constructor
  · exact nofun
  · intro id' hid
    cases hid
  · intro id t id' t'
    simpa using h.once id t id' t'
  · exact fun _ _ _ => .inr List.mem_cons_self
  · exact fun _ => ⟨List.mem_cons_self, List.mem_cons_of_mem _ (h.ran id rfl), id, t, List.mem_cons_of_mem _ ht⟩
  · rintro id h
    cases h
  · intro reply hmem
    simp only [List.mem_cons, reduceCtorEq, hsilent, or_false] at hmem
  · rintro reply h
    cases h
  · rintro h
    cases h
  · rintro (h | h) <;> cases h

/-- Its own response, or the answer that was decided. -/
theorem OwnLog.reply (h : OwnLog r i q log) {reply : Reply} {q' : Phase}
    (hq : q = .decided reply ∧ q' = .answered reply ∨ q = .ended ∧ reply = .sent r.response ∧ q' = .done) :
    OwnLog r i q' (.replied i reply :: log) := by
  have hsilent := h.unreplied (by rintro reply' rfl; simp at hq) (by rintro rfl; simp at hq)
  have hmem : ∀ reply', .replied i reply' ∈ (.replied i reply :: log) → reply' = reply := by
    intro reply' hmem
    simpa only [List.mem_cons, Entry.replied.injEq, true_and, hsilent, or_false] using hmem
  rcases hq with ⟨rfl, rfl⟩ | ⟨rfl, rfl, rfl⟩
  · constructor
    · intro _
      simpa using h.unclaimed rfl
    · exact nofun
    · intro id t id' t'
      simpa using h.once id t id' t'
    · intro id t
      simpa [Phase.running] using h.claims id t
    · rintro (h | h) <;> cases h
    · rintro id h
      cases h
    · intro reply' h'
      exact .inl (by rw [hmem reply' h'])
    · rintro reply' h
      cases h
      exact List.mem_cons_self
    · rintro h
      cases h
    · rintro (h | h) <;> cases h
  · constructor
    · exact nofun
    · exact nofun
    · intro id t id' t'
      simpa using h.once id t id' t'
    · intro id t
      simpa [Phase.running] using h.claims id t
    · intro _
      simpa using h.through (.inl rfl)
    · rintro id h
      cases h
    · exact fun reply' h' => .inr ⟨rfl, hmem reply' h'⟩
    · rintro reply' h
      cases h
    · exact fun _ => List.mem_cons_self
    · rintro (h | h) <;> cases h

end ownLog

/-! ## The row -/

section kept

variable {ι : Type} (lib : Primitives) (req : ι → Request)

/-- The row of a run that is going on. -/
def RunningRow (i : ι) (id t : Nat) (row : Row) : Prop :=
  row.id = id ∧ row.status = .inProgress ∧ row.requestHash = lib.digest (req i).content ∧ row.updatedAt = t ∧
    row.expiresAt = t + ttlSeconds

/-- The row with request `i`'s response. -/
def StoredRow (i : ι) (t : Nat) (row : Row) : Prop :=
  row.status = .completed ∧ row.requestHash = lib.digest (req i).content ∧
    row.responseStatus = (req i).response.statusCode ∧ row.responseBody = storedBody lib (req i).response ∧
    row.expiresAt = t + ttlSeconds

/-- The row, by where the requests are and what happened to them. -/
structure Kept (w : World ι) (q : ι → ι × Phase) : Prop where
  name : ∀ i, (q i).1 = i
  left : ∀ i, (q i).2.left ≤ 1
  own : ∀ i, OwnLog (req i) i (q i).2 w.log
  running : ∀ i id t, (q i).2.running id = true → .claimed i id t ∈ w.log →
    ∃ row, w.row = some row ∧ RunningRow lib req i id t row
  unique : ∀ i j id, (q i).2.running id = true → (q j).2.running id = true → i = j
  progress : ∀ row, w.row = some row → row.status = .inProgress → ∃ i, (q i).2.running row.id = true
  stored : ∀ i t, Stored req w i t → t + ttlSeconds ≤ w.now ∨ ∃ row, w.row = some row ∧ StoredRow lib req i t row
  fresh : ∀ row, w.row = some row → row.id < w.nextId
  /-- Who is to remove a row found it expired. -/
  removing : ∀ i id left, (q i).2 = .removing id left →
    id < w.nextId ∧ ∀ row, w.row = some row → row.id = id → row.expiresAt ≤ w.now
  notStale : ∀ i id, (q i).2 ≠ .stale id
  turn : ∀ i, lastTurn w.log = some (.ended i) → failed (req i) = true → w.row = none
  separate : ∀ i j t t', i ≠ j → (∃ id, .claimed i id t ∈ w.log) → Stored req w j t' →
    t' + ttlSeconds ≤ t ∨ .ended i ∈ w.log ∧ (failed (req i) = false → t + ttlSeconds ≤ t')

variable {lib req} {w w' : World ι} {q : ι → ι × Phase} {i : ι}

/-- A run's claim is the one its phase names. -/
theorem Kept.claim_of_running (h : Kept lib req w q) {id : Nat} (hq : (q i).2.running id = true) :
    ∃ t row, .claimed i id t ∈ w.log ∧ .ended i ∉ w.log ∧ w.row = some row ∧ RunningRow lib req i id t row := by
  obtain ⟨⟨t, ht⟩, hended⟩ := (h.own i).running id hq
  obtain ⟨row, hrow, hrun⟩ := h.running i id t hq ht
  exact ⟨t, row, ht, hended, hrow, hrun⟩

/-- There is one run at a time. -/
theorem Kept.same_run (h : Kept lib req w q) {j : ι} {id id' : Nat} (hi : (q i).2.running id = true)
    (hj : (q j).2.running id' = true) : i = j := by
  obtain ⟨_, row, _, _, hrow, hrun⟩ := h.claim_of_running hi
  obtain ⟨_, row', _, _, hrow', hrun'⟩ := h.claim_of_running hj
  cases hrow.symm.trans hrow'
  have hid : id = id' := hrun.1.symm.trans hrun'.1
  subst hid
  exact h.unique i j id hi hj

theorem Kept.not_running_of_none (h : Kept lib req w q) (hnone : w.row = none) (i : ι) (id : Nat) :
    (q i).2.running id = false := by
  rw [Bool.eq_false_iff]
  intro hq
  obtain ⟨_, _, _, _, hrow, _⟩ := h.claim_of_running hq
  rw [hnone] at hrow
  cases hrow

theorem Kept.not_expired (h : Kept lib req w q) (hprompt : Prompt w) {id : Nat} {row : Row}
    (hq : (q i).2.running id = true) (hrow : w.row = some row) : w.now < row.expiresAt := by
  obtain ⟨t, row', ht, hended, hrow', hrun⟩ := h.claim_of_running hq
  cases hrow.symm.trans hrow'
  have hsoon := hprompt i t ⟨⟨id, ht⟩, hended⟩
  rw [hrun.2.2.2.2]
  simp only [abandonedAfterSeconds, ttlSeconds] at hsoon ⊢
  omega

theorem Kept.pushed (h : Kept lib req w q) {e : Entry ι} (he : who e = i) (j : ι) (hj : j ≠ i) :
    OwnLog (req j) j (q j).2 (e :: w.log) :=
  (h.own j).push (by rw [he]; exact hj.symm)

/-- An expired row goes. -/
theorem Kept.expire (h : Kept lib req w q) (hprompt : Prompt w) {row : Row} (hr : w.row = some row)
    (hexpired : row.expiresAt ≤ w.now) : Kept lib req { w with row := none } q := by
  have hidle : ∀ j id, (q j).2.running id ≠ true := by
    intro j id hq
    have := h.not_expired hprompt hq hr
    omega
  constructor
  · exact h.name
  · exact h.left
  · exact h.own
  · exact fun j id t hq => absurd hq (hidle j id)
  · exact h.unique
  · exact fun _ hnone => nomatch hnone
  · intro j t hs
    left
    rcases h.stored j t hs with hle | ⟨row', hr', hstored⟩
    · exact hle
    · cases hr.symm.trans hr'
      exact hstored.2.2.2.2 ▸ hexpired
  · exact fun _ hnone => nomatch hnone
  · intro j id left hq
    exact ⟨(h.removing j id left hq).1, fun _ hnone => nomatch hnone⟩
  · exact h.notStale
  · exact fun _ _ _ => rfl
  · exact h.separate

variable [DecidableEq ι]

/-- A step that leaves the row, the claims and the ends as they are. -/
theorem Kept.quiet (h : Kept lib req w q) {p : Phase} (hrow : w'.row = w.row) (hnext : w'.nextId = w.nextId)
    (hnow : w.now ≤ w'.now) (hclaimed : ∀ j id t, .claimed j id t ∈ w'.log ↔ .claimed j id t ∈ w.log)
    (hended : ∀ j, .ended j ∈ w'.log ↔ .ended j ∈ w.log) (hturn : lastTurn w'.log = lastTurn w.log)
    (hown : OwnLog (req i) i p w'.log) (hothers : ∀ j, j ≠ i → OwnLog (req j) j (q j).2 w'.log)
    (hleft : p.left ≤ 1) (hrunning : ∀ id, p.running id = (q i).2.running id)
    (hremoving : ∀ id left, p = .removing id left →
      id < w.nextId ∧ ∀ row, w.row = some row → row.id = id → row.expiresAt ≤ w.now)
    (hstale : ∀ id, p ≠ .stale id) : Kept lib req w' (Function.update q i (i, p)) := by
  have hphase : ∀ j id, (Function.update q i (i, p) j).2.running id = (q j).2.running id := by
    intro j id
    by_cases hj : j = i
    · subst hj
      rw [Function.update_self, hrunning]
    · rw [Function.update_of_ne hj]
  have hstored : ∀ j t, Stored req w' j t ↔ Stored req w j t := by
    intro j t
    simp only [Stored, hclaimed, hended]
  constructor
  · intro j
    by_cases hj : j = i
    · subst hj
      rw [Function.update_self]
    · rw [Function.update_of_ne hj, h.name j]
  · intro j
    by_cases hj : j = i
    · subst hj
      rwa [Function.update_self]
    · rw [Function.update_of_ne hj]
      exact h.left j
  · intro j
    by_cases hj : j = i
    · subst hj
      rwa [Function.update_self]
    · rw [Function.update_of_ne hj]
      exact hothers j hj
  · intro j id t hq hmem
    rw [hphase] at hq
    rw [hclaimed] at hmem
    rw [hrow]
    exact h.running j id t hq hmem
  · intro j j' id
    rw [hphase, hphase]
    exact h.unique j j' id
  · intro row hr hstatus
    rw [hrow] at hr
    obtain ⟨j, hj⟩ := h.progress row hr hstatus
    exact ⟨j, by rwa [hphase]⟩
  · intro j t hs
    rw [hrow]
    rcases h.stored j t ((hstored j t).mp hs) with hle | hex
    · exact .inl (hle.trans hnow)
    · exact .inr hex
  · rw [hrow, hnext]
    exact h.fresh
  · intro j id left hq
    rw [hrow, hnext]
    by_cases hj : j = i
    · subst hj
      rw [Function.update_self] at hq
      obtain ⟨hlt, hex⟩ := hremoving id left hq
      exact ⟨hlt, fun row hr hid => (hex row hr hid).trans hnow⟩
    · rw [Function.update_of_ne hj] at hq
      obtain ⟨hlt, hex⟩ := h.removing j id left hq
      exact ⟨hlt, fun row hr hid => (hex row hr hid).trans hnow⟩
  · intro j id
    by_cases hj : j = i
    · subst hj
      rw [Function.update_self]
      exact hstale id
    · rw [Function.update_of_ne hj]
      exact h.notStale j id
  · rw [hturn, hrow]
    exact h.turn
  · intro j j' t t' hne hc hs
    simp only [hclaimed] at hc
    rw [hended]
    exact h.separate j j' t t' hne hc ((hstored j' t').mp hs)

/-- The key is claimed when it has no row. -/
theorem Kept.claim (h : Kept lib req w q) {left : Nat} (hq : (q i).2 = .trying left) (hnone : w.row = none)
    (hash : String) (hhash : hash = lib.digest (req i).content) :
    Kept lib req (Op.exec (.claim i hash ttlSeconds) w).1 (Function.update q i (i, .owner w.nextId)) := by
  have hidle := h.not_running_of_none hnone
  have hun := (h.own i).unclaimed (by rw [hq]; rfl)
  have hclaim := (h.own i).claim (by rw [hq]; rfl) (by simp [hq]) w.nextId w.now
  have hstored : ∀ j t, Stored req (Op.exec (.claim i hash ttlSeconds) w).1 j t → j ≠ i ∧ Stored req w j t := by
    rintro j t ⟨⟨id, hc⟩, hended, hok⟩
    simp only [Op.exec, hnone, List.mem_cons, reduceCtorEq, false_or] at hended
    have hj : j ≠ i := by
      rintro rfl
      exact hun.2.1 hended
    simp only [Op.exec, hnone, List.mem_cons, Entry.claimed.injEq, hj, false_and, false_or] at hc
    exact ⟨hj, ⟨id, hc⟩, hended, hok⟩
  have hrow : (Op.exec (.claim i hash ttlSeconds) w).1.row = some
      { id := w.nextId, requestHash := hash, expiresAt := w.now + ttlSeconds, updatedAt := w.now } := by
    simp [Op.exec, hnone]
  have hlog : (Op.exec (.claim i hash ttlSeconds) w).1.log = .claimed i w.nextId w.now :: w.log := by
    simp [Op.exec, hnone]
  have hnow : (Op.exec (.claim i hash ttlSeconds) w).1.now = w.now := by simp [Op.exec, hnone]
  have hnext : (Op.exec (.claim i hash ttlSeconds) w).1.nextId = w.nextId + 1 := by simp [Op.exec, hnone]
  have honly : ∀ j id, (Function.update q i (i, Phase.owner w.nextId) j).2.running id = true →
      j = i ∧ w.nextId = id := by
    intro j id hj
    by_cases hji : j = i
    · subst hji
      rw [Function.update_self] at hj
      exact ⟨rfl, by simpa [Phase.running] using hj⟩
    · rw [Function.update_of_ne hji, hidle j id] at hj
      cases hj
  constructor
  · intro j
    by_cases hj : j = i
    · subst hj
      rw [Function.update_self]
    · rw [Function.update_of_ne hj, h.name j]
  · intro j
    by_cases hj : j = i
    · subst hj
      rw [Function.update_self]
      exact Nat.zero_le _
    · rw [Function.update_of_ne hj]
      exact h.left j
  · intro j
    rw [hlog]
    by_cases hj : j = i
    · subst hj
      rw [Function.update_self]
      exact hclaim
    · rw [Function.update_of_ne hj]
      exact h.pushed (i := i) rfl j hj
  · intro j id t hj hmem
    obtain ⟨rfl, rfl⟩ := honly j id hj
    rw [hlog] at hmem
    simp only [List.mem_cons, Entry.claimed.injEq, true_and, hun.1, or_false] at hmem
    exact ⟨_, hrow, rfl, rfl, hhash, hmem.symm, by rw [hmem]⟩
  · intro j j' id hj hj'
    exact (honly j id hj).1.trans (honly j' id hj').1.symm
  · intro row hr _
    rw [hrow] at hr
    cases hr
    exact ⟨i, by simp [Phase.running]⟩
  · intro j t hs
    left
    rcases h.stored j t (hstored j t hs).2 with hle | ⟨row, hr, _⟩
    · rwa [hnow]
    · rw [hnone] at hr
      cases hr
  · intro row hr
    rw [hrow] at hr
    cases hr
    rw [hnext]
    exact Nat.lt_succ_self _
  · intro j id left hj
    by_cases hji : j = i
    · subst hji
      rw [Function.update_self] at hj
      cases hj
    · rw [Function.update_of_ne hji] at hj
      have hlt := (h.removing j id left hj).1
      refine ⟨by rw [hnext]; omega, fun row hr hid => ?_⟩
      rw [hrow] at hr
      cases hr
      simp only at hid
      omega
  · intro j id
    by_cases hj : j = i
    · subst hj
      rw [Function.update_self]
      exact nofun
    · rw [Function.update_of_ne hj]
      exact h.notStale j id
  · intro j hlast
    rw [hlog] at hlast
    cases hlast
  · rintro j j' t t' hne ⟨id, hc⟩ hs
    obtain ⟨hj', hs'⟩ := hstored j' t' hs
    rw [hlog] at hc
    by_cases hj : j = i
    · subst hj
      simp only [List.mem_cons, Entry.claimed.injEq, true_and, hun.1, or_false] at hc
      left
      rw [hc.2]
      rcases h.stored j' t' hs' with hle | ⟨row, hr, _⟩
      · exact hle
      · rw [hnone] at hr
        cases hr
    · simp only [List.mem_cons, Entry.claimed.injEq, hj, false_and, false_or] at hc
      rw [hlog]
      simpa using h.separate j j' t t' hne ⟨id, hc⟩ hs'

/-- What a request finds while runs are prompt is no abandoned row. -/
theorem Kept.find (h : Kept lib req w q) (hprompt : Prompt w) {left : Nat} (hq : (q i).2 = .missed left) :
    Kept lib req (Op.exec (.find i) w).1 (Function.update q i
      (i, afterVerdict left (judge (lib.digest (req i).content) (w.row.map (·.found w.now))))) := by
  have hidle : ∀ id, (q i).2.running id = false := by
    intro id
    rw [hq]
    rfl
  have hshape : ∀ v : Verdict, (∀ id, v ≠ .abandoned id) → (afterVerdict left v).unclaimed = true ∧
      (∀ reply, afterVerdict left v ≠ .answered reply) ∧
      (∀ id, (afterVerdict left v).running id = false) ∧ ∀ id, afterVerdict left v ≠ .stale id := by
    intro v hv
    cases v with
    | abandoned id => exact absurd rfl (hv id)
    | claimAgain =>
      cases left with
      | zero => exact ⟨rfl, nofun, fun _ => rfl, nofun⟩
      | succ left => exact ⟨rfl, nofun, fun _ => rfl, nofun⟩
    | expired id => exact ⟨rfl, nofun, fun _ => rfl, nofun⟩
    | reply reply => exact ⟨rfl, nofun, fun _ => rfl, nofun⟩
  have hjudge : ∀ id, judge (lib.digest (req i).content) (w.row.map (·.found w.now)) ≠ .abandoned id := by
    intro id hv
    cases hr : w.row with
    | none => simp [hr, judge] at hv
    | some row =>
      simp only [hr, Option.map_some, judge, Row.found] at hv
      split at hv
      · cases hv
      split at hv
      · cases hv
      split at hv
      · cases hv
      split at hv
      · rename_i hstatus hidle
        have hin : row.status = .inProgress := by
          cases hs : row.status with
          | inProgress => rfl
          | completed => exact absurd hs hstatus
        obtain ⟨j, hj⟩ := h.progress row hr hin
        obtain ⟨t, row', ht, hended, hr', hrun⟩ := h.claim_of_running hj
        cases hr.symm.trans hr'
        have hsoon := hprompt j t ⟨⟨row.id, ht⟩, hended⟩
        rw [hrun.2.2.2.1] at hidle
        simp only [abandonedAfterSeconds] at hidle hsoon
        omega
      · cases hv
  obtain ⟨hun, hans, hrun, hstale⟩ := hshape _ hjudge
  have hagain : ∀ v, left ≤ 1 → ¬ (afterVerdict left v = .trying 1 ∨ afterVerdict left v = .missed 1) := by
    intro v hle
    cases v with
    | claimAgain =>
      cases left with
      | zero => simp [afterVerdict, again]
      | succ left =>
        have hzero : left = 0 := by omega
        subst hzero
        simp [afterVerdict, again]
    | expired | abandoned | reply => simp [afterVerdict]
  have hfirst : ¬ (afterVerdict left (judge (lib.digest (req i).content) (w.row.map (·.found w.now))) = .trying 1 ∨
      afterVerdict left (judge (lib.digest (req i).content) (w.row.map (·.found w.now))) = .missed 1) := by
    have hbound := h.left i
    rw [hq] at hbound
    exact hagain _ hbound
  refine h.quiet rfl rfl (Nat.le_refl _) ?_ ?_ rfl ((h.own i).finds (by rw [hq]; rfl) (by simp [hq]) hun hans hfirst)
    (h.pushed (i := i) rfl) ?_ ?_ ?_ hstale
  · intro j id t
    simp [Op.exec]
  · intro j
    simp [Op.exec]
  · have hbound := h.left i
    rw [hq] at hbound
    exact afterVerdict_left hbound _
  · intro id
    rw [hrun, hidle]
  · intro id left' hremoving
    cases hr : w.row with
    | none =>
      rw [hr] at hremoving
      cases left <;> cases hremoving
    | some row =>
      have hv : judge (lib.digest (req i).content) (w.row.map (·.found w.now)) = .expired id := by
        cases hv : judge (lib.digest (req i).content) (w.row.map (·.found w.now)) with
        | claimAgain =>
          rw [hv] at hremoving
          cases left <;> cases hremoving
        | expired id' =>
          rw [hv] at hremoving
          cases hremoving
          rfl
        | abandoned id' =>
          rw [hv] at hremoving
          cases hremoving
        | reply reply =>
          rw [hv] at hremoving
          cases hremoving
      simp only [hr, Option.map_some, judge, Row.found] at hv
      split at hv
      · rename_i hexpired
        cases hv
        refine ⟨h.fresh row hr, fun row' hr' _ => ?_⟩
        cases hr'
        simpa using hexpired
      · split at hv
        · cases hv
        split at hv
        · cases hv
        split at hv <;> cases hv

/-- A run ends, and the row with it: it keeps the response, or is gone. -/
theorem Kept.finish (h : Kept lib req w q) {id : Nat} (hq : (q i).2 = .ran id) (hlog : w'.log = .ended i :: w.log)
    (hnow : w'.now = w.now) (hnext : w'.nextId = w.nextId)
    (hkept : failed (req i) = false → ∀ t row, w.row = some row → RunningRow lib req i id t row →
      ∃ row', w'.row = some row' ∧ row'.id = id ∧ StoredRow lib req i t row')
    (hgone : failed (req i) = true → w'.row = none) :
    Kept lib req w' (Function.update q i (i, .ended)) := by
  have hrun : (q i).2.running id = true := by simp [hq, Phase.running]
  obtain ⟨t, row, ht, hopen, hr, hrow⟩ := h.claim_of_running hrun
  have hidle : ∀ j id', (Function.update q i (i, Phase.ended) j).2.running id' ≠ true := by
    intro j id' hj
    by_cases hji : j = i
    · subst hji
      rw [Function.update_self] at hj
      cases hj
    · rw [Function.update_of_ne hji] at hj
      exact hji (h.same_run hj hrun)
  -- the row now is the response of this run, if there is one
  have hafter : ∀ row', w'.row = some row' →
      failed (req i) = false ∧ row'.id = id ∧ StoredRow lib req i t row' := by
    intro row' hr'
    have hok : failed (req i) = false := by
      rw [Bool.eq_false_iff]
      intro hbad
      rw [hgone hbad] at hr'
      cases hr'
    obtain ⟨row₁, hr₁, hid, hstored⟩ := hkept hok t row hr hrow
    cases hr'.symm.trans hr₁
    exact ⟨hok, hid, hstored⟩
  have hclaimed : ∀ j id' t', .claimed j id' t' ∈ w'.log ↔ .claimed j id' t' ∈ w.log := by
    intro j id' t'
    simp [hlog]
  have hended : ∀ j, j ≠ i → (.ended j ∈ w'.log ↔ .ended j ∈ w.log) := by
    intro j hj
    simp [hlog, hj]
  have hstored : ∀ j t', j ≠ i → Stored req w' j t' → Stored req w j t' := by
    rintro j t' hj ⟨⟨id', hc⟩, he, hok⟩
    exact ⟨⟨id', (hclaimed _ _ _).mp hc⟩, (hended j hj).mp he, hok⟩
  constructor
  · intro j
    by_cases hj : j = i
    · subst hj
      rw [Function.update_self]
    · rw [Function.update_of_ne hj, h.name j]
  · intro j
    by_cases hj : j = i
    · subst hj
      rw [Function.update_self]
      exact Nat.zero_le _
    · rw [Function.update_of_ne hj]
      exact h.left j
  · intro j
    rw [hlog]
    by_cases hj : j = i
    · subst hj
      rw [Function.update_self]
      have hown := h.own j
      rw [hq] at hown
      exact hown.ends
    · rw [Function.update_of_ne hj]
      exact h.pushed (i := i) rfl j hj
  · exact fun j id' _ hj => absurd hj (hidle j id')
  · exact fun j _ id' hj => absurd hj (hidle j id')
  · intro row' hr' hstatus
    obtain ⟨_, _, hs⟩ := hafter row' hr'
    rw [hs.1] at hstatus
    cases hstatus
  · intro j t' hs
    by_cases hj : j = i
    · subst hj
      obtain ⟨⟨id', hc⟩, _, hok⟩ := hs
      obtain ⟨_, rfl⟩ := (h.own j).once _ _ _ _ ((hclaimed _ _ _).mp hc) ht
      obtain ⟨row', hr', _, hst⟩ := hkept hok t' row hr hrow
      exact .inr ⟨row', hr', hst⟩
    · left
      rcases h.stored j t' (hstored j t' hj hs) with hle | ⟨row', hr', hst⟩
      · rwa [hnow]
      · cases hr.symm.trans hr'
        have := hrow.2.1.symm.trans hst.1
        cases this
  · intro row' hr'
    obtain ⟨_, hid, _⟩ := hafter row' hr'
    rw [hnext, hid, ← hrow.1]
    exact h.fresh row hr
  · intro j id' left hj
    by_cases hji : j = i
    · subst hji
      rw [Function.update_self] at hj
      cases hj
    · rw [Function.update_of_ne hji] at hj
      obtain ⟨hlt, hex⟩ := h.removing j id' left hj
      refine ⟨hnext ▸ hlt, fun row' hr' hid' => ?_⟩
      obtain ⟨_, hid, hst⟩ := hafter row' hr'
      have := hex row hr (hrow.1.trans (hid.symm.trans hid'))
      rw [hnow, hst.2.2.2.2, ← hrow.2.2.2.2]
      exact this
  · intro j id'
    by_cases hj : j = i
    · subst hj
      rw [Function.update_self]
      exact nofun
    · rw [Function.update_of_ne hj]
      exact h.notStale j id'
  · intro j hlast hbad
    rw [hlog] at hlast
    cases hlast
    exact hgone hbad
  · rintro j j' t₁ t₂ hne ⟨id₁, hc⟩ hs
    have hc := (hclaimed _ _ _).mp hc
    by_cases hj' : j' = i
    · subst hj'
      obtain ⟨⟨id₂, hc₂⟩, _, hok⟩ := hs
      have hc₂ := (hclaimed _ _ _).mp hc₂
      -- whoever else has claimed the key is through with it
      have hover : .ended j ∈ w.log := by
        rcases (h.own j).claims id₁ t₁ hc with hj | hj
        · exact absurd (h.same_run hj hrun) hne
        · exact hj
      refine .inr ⟨(hended j hne).mpr hover, fun hokj => ?_⟩
      rcases h.separate j' j t₂ t₁ hne.symm ⟨id₂, hc₂⟩ ⟨⟨id₁, hc⟩, hover, hokj⟩ with hle | ⟨hend, _⟩
      · exact hle
      · exact absurd hend hopen
    · have hs := hstored j' t₂ hj' hs
      rcases h.separate j j' t₁ t₂ hne ⟨id₁, hc⟩ hs with hle | ⟨hend, hle⟩
      · exact .inl hle
      · exact .inr ⟨by rw [hlog]; exact List.mem_cons_of_mem _ hend, hle⟩

/-- What one command keeps. -/
theorem Kept.step (h : Kept lib req w q) (hprompt : Prompt w) {op : Op ι} (hallows : allows lib req (q i) op) :
    Kept lib req (op.exec w).1 (Function.update q i (IdempotencyKey.next lib req (q i) op (op.exec w).2)) := by
  have hpair : ∀ p, (q i).2 = p → q i = (i, p) := fun p hp => Prod.ext (h.name i) hp
  have hsame : Function.update q i (q i) = q := Function.update_eq_self i q
  cases op with
  | claim j hash ttl =>
    obtain ⟨hj, rfl, rfl, left, hq⟩ := hallows
    obtain rfl := hj.trans (h.name i)
    have hp := hpair _ hq
    cases hr : w.row with
    | none =>
      have hres : (Op.exec (.claim j (lib.digest (req j).content) ttlSeconds) w).2 = some w.nextId := by
        simp [Op.exec, hr]
      rw [hres, hp]
      exact h.claim hq hr _ rfl
    | some row =>
      have hexec : Op.exec (.claim j (lib.digest (req j).content) ttlSeconds) w = (w, none) := by
        simp [Op.exec, hr]
      have hown := (h.own j).move (by rw [hq]; rfl) (by simp [hq]) (.missed left) rfl (by simp) (by
        intro hfirst
        refine (h.own j).found (.inl ?_)
        rw [hq]
        simpa using hfirst)
      have hbound := h.left j
      rw [hq] at hbound
      rw [hexec, hp]
      exact h.quiet rfl rfl (Nat.le_refl _) (fun _ _ _ => Iff.rfl) (fun _ => Iff.rfl) rfl hown
        (fun k _ => h.own k) hbound (fun _ => by rw [hq]; rfl) nofun nofun
  | find j =>
    obtain ⟨hj, left, hq⟩ := hallows
    obtain rfl := hj.trans (h.name i)
    rw [hpair _ hq]
    exact h.find hprompt hq
  | takeOver j id stale => exact absurd hallows.2 (h.notStale i id)
  | remove id =>
    obtain ⟨left, hq⟩ := hallows
    obtain ⟨_, hexpired⟩ := h.removing i id left hq
    have hbound := h.left i
    rw [hq] at hbound
    -- the row is gone, or was another's
    have hkept : Kept lib req (Op.exec (.remove id) w).1 q := by
      cases hr : w.row with
      | none =>
        have hexec : (Op.exec (.remove id) w).1 = w := by
          simp only [Op.exec, Op.delete, hr, Option.filter_none]
          rw [← hr]
        rw [hexec]
        exact h
      | some row =>
        by_cases hid : row.id = id
        · have hexec : (Op.exec (.remove id) w).1 = { w with row := none } := by
            simp [Op.exec, Op.delete, hr, hid]
          rw [hexec]
          exact h.expire hprompt hr (hexpired row hr hid)
        · have hexec : (Op.exec (.remove id) w).1 = w := by
            simp only [Op.exec, Op.delete, hr, Option.filter_some, hid, ne_eq, not_false_eq_true, decide_true, if_true]
            rw [← hr]
          rw [hexec]
          exact h
    have hmove : (again left).unclaimed = true ∧ (∀ reply, again left ≠ .answered reply) ∧
        ¬ (again left = .trying 1 ∨ again left = .missed 1) ∧ (again left).left ≤ 1 ∧
        (∀ id, (again left).running id = false) ∧ (∀ id left', again left ≠ .removing id left') ∧
        ∀ id, again left ≠ .stale id := by
      cases left with
      | zero => exact ⟨rfl, nofun, by simp [again], Nat.zero_le _, fun _ => rfl, nofun, nofun⟩
      | succ left =>
        have hzero : left = 0 := by
          simp only [Phase.left] at hbound
          omega
        subst hzero
        exact ⟨rfl, nofun, by simp [again], Nat.zero_le _, fun _ => rfl, nofun, nofun⟩
    obtain ⟨hun, hans, hfirst, hleft, hrun, hrem, hstale⟩ := hmove
    have hown := (hkept.own i).move (by rw [hq]; rfl) (by simp [hq]) (again left) hun hans
      fun hf => absurd hf hfirst
    rw [hpair _ hq]
    exact hkept.quiet rfl rfl (Nat.le_refl _) (fun _ _ _ => Iff.rfl) (fun _ => Iff.rfl) rfl hown
      (fun k _ => hkept.own k) hleft (fun id' => by rw [hrun, hq]; rfl)
      (fun id' left' hbad => absurd hbad (hrem id' left')) hstale
  | handle j =>
    obtain ⟨hj, id, hq⟩ := hallows
    obtain rfl := hj.trans (h.name i)
    have hown := h.own j
    rw [hq] at hown
    rw [hpair _ hq]
    exact h.quiet rfl rfl (Nat.le_refl _) (fun _ _ _ => by simp [Op.exec]) (fun _ => by simp [Op.exec]) rfl
      hown.handle (h.pushed (i := j) rfl) (Nat.zero_le _) (fun id' => by rw [hq]; rfl) nofun nofun
  | complete j id status body =>
    obtain ⟨hj, hq, hok, rfl, rfl⟩ := hallows
    obtain rfl := hj.trans (h.name i)
    rw [hpair _ hq]
    refine h.finish hq rfl rfl rfl ?_ ?_
    · intro _ t row hr hrow
      exact ⟨_, by simp [Op.exec, hr]; rfl, by simp [hrow.1], by simp [StoredRow, hrow.1, hrow.2.2.1, hrow.2.2.2.2]⟩
    · intro hbad
      rw [hok] at hbad
      cases hbad
  | removeFailed j id =>
    obtain ⟨hj, hq, hbad⟩ := hallows
    obtain rfl := hj.trans (h.name i)
    obtain ⟨t, row, _, _, hr, hrow⟩ := h.claim_of_running (show (q j).2.running id = true by simp [hq, Phase.running])
    rw [hpair _ hq]
    refine h.finish hq rfl rfl rfl ?_ ?_
    · intro hok
      rw [hbad] at hok
      cases hok
    · intro _
      simp [Op.exec, Op.delete, hr, hrow.1]
  | reply j reply =>
    obtain ⟨hj, hq⟩ := hallows
    obtain rfl := hj.trans (h.name i)
    have hclaimed : ∀ k id t, .claimed k id t ∈ (Op.exec (.reply j reply) w).1.log ↔ .claimed k id t ∈ w.log :=
      fun _ _ _ => by simp [Op.exec]
    have hended : ∀ k, .ended k ∈ (Op.exec (.reply j reply) w).1.log ↔ .ended k ∈ w.log :=
      fun _ => by simp [Op.exec]
    rcases hq with hq | ⟨hq, rfl⟩
    · rw [hpair _ hq]
      exact h.quiet rfl rfl (Nat.le_refl _) hclaimed hended rfl ((h.own j).reply (.inl ⟨hq, rfl⟩))
        (h.pushed (i := j) rfl) (Nat.zero_le _) (fun _ => by rw [hq]; rfl) nofun nofun
    · rw [hpair _ hq]
      exact h.quiet rfl rfl (Nat.le_refl _) hclaimed hended rfl ((h.own j).reply (.inr ⟨hq, rfl, rfl⟩))
        (h.pushed (i := j) rfl) (Nat.zero_le _) (fun _ => by rw [hq]; rfl) nofun nofun
  | purgeExpired hits =>
    show Kept lib req _ (Function.update q i (q i))
    rw [hsame]
    cases hr : w.row with
    | none =>
      have hexec : (Op.exec (.purgeExpired hits) w).1 = w := by
        simp only [Op.exec, hr, Option.filter_none]
        rw [← hr]
      rw [hexec]
      exact h
    | some row =>
      by_cases hgoes : (hits && decide (row.expiresAt ≤ w.now)) = true
      · have hexec : (Op.exec (.purgeExpired hits) w).1 = { w with row := none } := by
          simp only [Op.exec, hr, Option.filter_some, hgoes, Bool.not_true, Bool.false_eq_true, if_false]
        rw [hexec]
        simp only [Bool.and_eq_true, decide_eq_true_eq] at hgoes
        exact h.expire hprompt hr hgoes.2
      · have hexec : (Op.exec (.purgeExpired hits) w).1 = w := by
          simp only [Op.exec, hr, Option.filter_some, hgoes, Bool.not_false, if_true]
          rw [← hr]
        rw [hexec]
        exact h
  | pass seconds =>
    have hp : q i = (i, (q i).2) := hpair _ rfl
    show Kept lib req _ (Function.update q i (q i))
    rw [hp]
    exact h.quiet rfl rfl (Nat.le_add_right _ _) (fun _ _ _ => Iff.rfl) (fun _ => Iff.rfl) rfl (h.own i)
      (fun k _ => h.own k) (h.left i) (fun _ => rfl) (h.removing i) (h.notStale i)

end kept

/-! ## A run -/

section run

variable {ι : Type} {lib : Primitives} {tasks : ι → Task}

theorem kept_zero : Kept lib (requests tasks) ({} : World ι) fun i => (i, start (tasks i)) := by
  have hidle : ∀ i id, (start (tasks i)).running id ≠ true := by
    intro i id
    cases tasks i <;> simp [start, Phase.running]
  have hun : ∀ i, (start (tasks i)).unclaimed = true := by
    intro i
    cases tasks i <;> rfl
  constructor
  · exact fun _ => rfl
  · intro i
    cases h : tasks i <;> simp [start, Phase.left]
  · intro i
    constructor
    · exact fun _ => ⟨fun _ _ => List.not_mem_nil, List.not_mem_nil, List.not_mem_nil⟩
    · exact fun id hid => absurd hid (hidle i id)
    · exact fun _ _ _ _ h => absurd h List.not_mem_nil
    · exact fun _ _ h => absurd h List.not_mem_nil
    · intro h
      have hbad := hun i
      rcases h with h | h
      · exact absurd (h ▸ hbad : Phase.ended.unclaimed = true) (by decide)
      · exact absurd (h ▸ hbad : Phase.done.unclaimed = true) (by decide)
    · intro id h
      exact absurd (h ▸ hun i : (Phase.ran id).unclaimed = true) (by simp [Phase.unclaimed])
    · exact fun _ h => absurd h List.not_mem_nil
    · intro reply h
      cases ht : tasks i <;> simp [start, ht] at h
    · intro h
      cases ht : tasks i <;> simp [start, ht] at h
    · exact fun _ => List.not_mem_nil
  · exact fun i id _ h => absurd h (hidle i id)
  · exact fun i _ id h => absurd h (hidle i id)
  · exact fun _ h => nomatch h
  · rintro i t ⟨⟨id, h⟩, _⟩
    exact absurd h List.not_mem_nil
  · exact fun _ h => nomatch h
  · intro i id left h
    cases ht : tasks i <;> simp [start, ht] at h
  · intro i id h
    cases ht : tasks i <;> simp [start, ht] at h
  · exact fun _ _ _ => rfl
  · rintro i j t t' _ ⟨id, h⟩
    exact absurd h List.not_mem_nil

variable [DecidableEq ι] {schedule : List ι} {k : Nat}

/-- Where the requests are after `k` moves. -/
def phases (lib : Primitives) (tasks : ι → Task) (schedule : List ι) (k : Nat) : ι → ι × Phase :=
  (protocol lib (requests tasks)).phases (fun i => (i, start (tasks i))) (after lib tasks schedule k)

/-- The requests follow the protocol, and the row is theirs. -/
structure At (lib : Primitives) (tasks : ι → Task) (schedule : List ι) (k : Nat) : Prop where
  conforms : (protocol lib (requests tasks)).Conforms (Through tasks) (fun i => (i, start (tasks i)))
    (after lib tasks schedule k)
  kept : Kept lib (requests tasks) (after lib tasks schedule k).state (phases lib tasks schedule k)

variable (hkeyed : ∀ i r, tasks i = .request r → Keyed r)
  (hprompt : ∀ k ≤ schedule.length, Prompt (after lib tasks schedule k).state)

/-- What move `k` does. -/
def Moved (lib : Primitives) (tasks : ι → Task) (schedule : List ι) (k : Nat) (i : ι) (op : Op ι) : Prop :=
  (after lib tasks schedule k).next i = some op ∧
    allows lib (requests tasks) (phases lib tasks schedule k i) op ∧
    (after lib tasks schedule (k + 1)).state = (op.exec (after lib tasks schedule k).state).1 ∧
    phases lib tasks schedule (k + 1) = Function.update (phases lib tasks schedule k) i
      (IdempotencyKey.next lib (requests tasks) (phases lib tasks schedule k i) op
        (op.exec (after lib tasks schedule k).state).2)

theorem At.moved (hk : k < schedule.length) (h : At lib tasks schedule k) :
    (after lib tasks schedule k).next schedule[k] = none ∧
        after lib tasks schedule (k + 1) = after lib tasks schedule k ∨
      ∃ op, Moved lib tasks schedule k schedule[k] op :=
  (h.conforms.run_take_succ hk).2

include hkeyed hprompt in
theorem at_all (hk : k ≤ schedule.length) : At lib tasks schedule k := by
  induction k with
  | zero => exact ⟨Protocol.conforms_spawn (code_follows hkeyed), kept_zero⟩
  | succ k ih =>
    have hat := ih (Nat.le_of_succ_le hk)
    obtain ⟨hc, hmove⟩ := hat.conforms.run_take_succ (Nat.lt_of_succ_le hk)
    refine ⟨hc, ?_⟩
    rcases hmove with ⟨_, hsame⟩ | ⟨op, _, hallows, hstate, hphases⟩
    · have heq : after lib tasks schedule (k + 1) = after lib tasks schedule k := hsame
      have hkept := hat.kept
      unfold phases at hkept ⊢
      rwa [heq]
    · have hstep := hat.kept.step (hprompt k (Nat.le_of_succ_le hk)) hallows
      have hstate' : (after lib tasks schedule (k + 1)).state = (op.exec (after lib tasks schedule k).state).1 :=
        hstate
      have hphases' : phases lib tasks schedule (k + 1) = _ := hphases
      rw [hstate', hphases']
      exact hstep

/-! ## Who is answered from the row -/

omit [DecidableEq ι] in
theorem exec_mono (w : World ι) (op : Op ι) : (∀ e ∈ w.log, e ∈ (op.exec w).1.log) ∧ w.now ≤ (op.exec w).1.now := by
  cases op with
  | claim i hash ttl =>
    simp only [Op.exec]
    split
    · exact ⟨fun _ h => h, Nat.le_refl _⟩
    · exact ⟨fun _ h => List.mem_cons_of_mem _ h, Nat.le_refl _⟩
  | takeOver i id stale =>
    simp only [Op.exec]
    split
    · split
      · exact ⟨fun _ h => List.mem_cons_of_mem _ h, Nat.le_refl _⟩
      · exact ⟨fun _ h => h, Nat.le_refl _⟩
    · exact ⟨fun _ h => h, Nat.le_refl _⟩
  | find | handle | complete | removeFailed | reply =>
    exact ⟨fun _ h => List.mem_cons_of_mem _ h, Nat.le_refl _⟩
  | remove | purgeExpired => exact ⟨fun _ h => h, Nat.le_refl _⟩
  | pass seconds => exact ⟨fun _ h => h, Nat.le_add_right _ _⟩

include hkeyed hprompt in
theorem mono {k' : Nat} (hkk : k ≤ k') (hk' : k' ≤ schedule.length) :
    (∀ e ∈ (after lib tasks schedule k).state.log, e ∈ (after lib tasks schedule k').state.log) ∧
      (after lib tasks schedule k).state.now ≤ (after lib tasks schedule k').state.now := by
  induction hkk with
  | refl => exact ⟨fun _ h => h, Nat.le_refl _⟩
  | @step m hkm ih =>
    obtain ⟨hlog, hnow⟩ := ih (Nat.le_of_succ_le hk')
    have hat := at_all hkeyed hprompt (Nat.le_of_succ_le hk')
    rcases hat.moved (Nat.lt_of_succ_le hk') with ⟨_, hsame⟩ | ⟨op, _, _, hstate, _⟩
    · rw [hsame]
      exact ⟨hlog, hnow⟩
    · obtain ⟨hlog', hnow'⟩ := exec_mono (after lib tasks schedule m).state op
      rw [hstate]
      exact ⟨fun e he => hlog' e (hlog e he), hnow.trans hnow'⟩

/-- Request `j` has not got further than to `reply`. -/
def Phase.towards (reply : Reply) (q : Phase) : Prop :=
  q = .trying 1 ∨ q = .missed 1 ∨ q = .decided reply ∨ q = .answered reply ∨ q = .beside

def Phase.settled (reply : Reply) (q : Phase) : Prop :=
  q = .decided reply ∨ q = .answered reply ∨ q = .beside

/-- Looking at the row now settles request `j`'s answer. -/
def Forced (lib : Primitives) (tasks : ι → Task) (schedule : List ι) (k : Nat) (j : ι) (reply : Reply) : Prop :=
  ∃ row, (after lib tasks schedule k).state.row = some row ∧
    judge (lib.digest (requests tasks j).content) (some (row.found (after lib tasks schedule k).state.now)) =
      .reply reply

omit [DecidableEq ι] in
/-- A settled request's own move. -/
theorem settled_next {p : ι × Phase} {op : Op ι} {reply : Reply} (h : p.2.settled reply)
    (hallows : allows lib (requests tasks) p op) (r : op.Res) :
    (IdempotencyKey.next lib (requests tasks) p op r).2.settled reply := by
  rcases h with h | h | h
  · cases op with
    | reply i reply' =>
      obtain ⟨_, hq | ⟨hq, _⟩⟩ := hallows
      · rw [h] at hq
        cases hq
        simp only [IdempotencyKey.next, h]
        exact .inr (.inl rfl)
      · rw [h] at hq
        cases hq
    | purgeExpired | pass => exact .inl h
    | _ => simp [allows, h] at hallows
  · cases op with
    | purgeExpired | pass => exact .inr (.inl h)
    | _ => simp [allows, h] at hallows
  · cases op with
    | purgeExpired | pass => exact .inr (.inr h)
    | _ => simp [allows, h] at hallows

theorem settled_succ {j : ι} {reply : Reply} (hat : At lib tasks schedule k) (hk : k < schedule.length)
    (h : (phases lib tasks schedule k j).2.settled reply) : (phases lib tasks schedule (k + 1) j).2.settled reply := by
  rcases hat.moved hk with ⟨_, hsame⟩ | ⟨op, _, hallows, _, hphases⟩
  · unfold phases at h ⊢
    rwa [hsame]
  · rw [hphases]
    by_cases hj : j = schedule[k]
    · subst hj
      rw [Function.update_self]
      exact settled_next h hallows _
    · rwa [Function.update_of_ne hj]

/-- One who has just begun gets the answer that the row forces. -/
theorem towards_succ {j : ι} {reply : Reply} (hat : At lib tasks schedule k) (hk : k < schedule.length)
    (hforced : Forced lib tasks schedule k j reply) (h : (phases lib tasks schedule k j).2.towards reply) :
    (phases lib tasks schedule (k + 1) j).2.towards reply := by
  have hsettled : (phases lib tasks schedule k j).2.settled reply →
      (phases lib tasks schedule (k + 1) j).2.towards reply := fun h =>
    .inr (.inr (settled_succ hat hk h))
  rcases hat.moved hk with ⟨_, hsame⟩ | ⟨op, _, hallows, _, hphases⟩
  · unfold phases at h ⊢
    rwa [hsame]
  by_cases hj : j = schedule[k]
  · subst hj
    obtain ⟨row, hrow, hjudge⟩ := hforced
    rcases h with h | h | h
    · rw [hphases, Function.update_self]
      cases op with
      | claim i hash ttl =>
        have hres : (Op.exec (.claim i hash ttl) (after lib tasks schedule k).state).2 = none := by
          simp [Op.exec, hrow]
        rw [hres]
        simp only [IdempotencyKey.next, h]
        exact .inr (.inl rfl)
      | purgeExpired | pass => exact .inl h
      | _ => simp [allows, h] at hallows
    · rw [hphases, Function.update_self]
      cases op with
      | find i =>
        have hname := hat.kept.name schedule[k]
        simp only [IdempotencyKey.next, h, Op.exec, hrow, Option.map_some, hname, hjudge]
        exact .inr (.inr (.inl rfl))
      | purgeExpired | pass => exact .inr (.inl h)
      | _ => simp [allows, h] at hallows
    · exact hsettled h
  · rw [hphases, Function.update_of_ne hj]
    exact h

theorem towards_of_unbegun {j : ι} (hunbegun : Unbegun lib tasks schedule k j) (reply : Reply) :
    (phases lib tasks schedule k j).2.towards reply := by
  have hphase : phases lib tasks schedule k j = (j, start (tasks j)) := by
    unfold phases Protocol.phases
    rw [Unbegun] at hunbegun
    rw [hunbegun]
    rfl
  rw [hphase]
  cases tasks j with
  | request r => exact .inl rfl
  | purgeExpired hits => exact .inr (.inr (.inr (.inr rfl)))
  | pass seconds => exact .inr (.inr (.inr (.inr rfl)))

include hkeyed hprompt in
/-- While the row forces it, who comes is answered so. -/
theorem towards_run {j : ι} {reply : Reply} {k' : Nat} (hunbegun : Unbegun lib tasks schedule k j)
    (hkk : k ≤ k') (hk' : k' ≤ schedule.length)
    (hforced : ∀ m, k ≤ m → m < k' → Forced lib tasks schedule m j reply) :
    (phases lib tasks schedule k' j).2.towards reply := by
  induction hkk with
  | refl => exact towards_of_unbegun hunbegun reply
  | @step m hkm ih =>
    have hat := at_all hkeyed hprompt (Nat.le_of_succ_le hk')
    exact towards_succ hat (Nat.lt_of_succ_le hk') (hforced m hkm (Nat.lt_succ_self m))
      (ih (Nat.le_of_succ_le hk') fun m' h h' => hforced m' h (h'.trans (Nat.lt_succ_self m)))

include hkeyed hprompt in
theorem settled_run {j : ι} {reply : Reply} {k' : Nat} (hkk : k ≤ k') (hk' : k' ≤ schedule.length)
    (h : (phases lib tasks schedule k j).2.settled reply) : (phases lib tasks schedule k' j).2.settled reply := by
  induction hkk with
  | refl => exact h
  | @step m hkm ih =>
    exact settled_succ (at_all hkeyed hprompt (Nat.le_of_succ_le hk')) (Nat.lt_of_succ_le hk')
      (ih (Nat.le_of_succ_le hk'))

theorem onlyAnswered_of_towards {j : ι} {reply : Reply} (hat : At lib tasks schedule k)
    (h : (phases lib tasks schedule k j).2.towards reply) : OnlyAnswered lib tasks schedule k j reply := by
  have hown := hat.kept.own j
  have hun : (phases lib tasks schedule k j).2.unclaimed = true := by
    rcases h with h | h | h | h | h <;> rw [h] <;> rfl
  refine ⟨(hown.unclaimed hun).2.2, fun r hr => ?_⟩
  rcases hown.replies r hr with hq | ⟨hq, _⟩
  · rcases h with h | h | h | h | h <;> rw [hq] at h <;> cases h
    rfl
  · rw [hq] at hun
    cases hun

theorem towards_of_settled {q : Phase} {reply : Reply} (h : q.settled reply) : q.towards reply := .inr (.inr h)

/-! ## What the row forces -/

variable (hdigest : ∀ i j, lib.digest (requests tasks i).content = lib.digest (requests tasks j).content →
  (requests tasks i).content = (requests tasks j).content)

theorem forced_of_stored {i j : ι} {t : Nat} (hat : At lib tasks schedule k)
    (hstored : Stored (requests tasks) (after lib tasks schedule k).state i t)
    (hlive : (after lib tasks schedule k).state.now < t + ttlSeconds)
    (hsame : (requests tasks j).content = (requests tasks i).content) :
    Forced lib tasks schedule k j
      (.replayed (requests tasks i).response.statusCode (storedBody lib (requests tasks i).response)) := by
  rcases hat.kept.stored i t hstored with hle | ⟨row, hrow, hstatus, hhash, hcode, hbody, hexpires⟩
  · omega
  · refine ⟨row, hrow, ?_⟩
    have hnot : ¬ row.expiresAt ≤ (after lib tasks schedule k).state.now := by omega
    simp [judge, Row.found, hnot, hhash, hsame, hstatus, hcode, hbody]

include hdigest in
theorem forced_of_other {i j : ι} {id t : Nat} (hat : At lib tasks schedule k)
    (hclaimed : .claimed i id t ∈ (after lib tasks schedule k).state.log)
    (hended : .ended i ∈ (after lib tasks schedule k).state.log → failed (requests tasks i) = false)
    (hlive : (after lib tasks schedule k).state.now < t + ttlSeconds)
    (hother : (requests tasks j).content ≠ (requests tasks i).content) :
    Forced lib tasks schedule k j reused := by
  have hne : lib.digest (requests tasks i).content ≠ lib.digest (requests tasks j).content :=
    fun h => hother (hdigest i j h).symm
  have hrow : ∃ row, (after lib tasks schedule k).state.row = some row ∧
      row.requestHash = lib.digest (requests tasks i).content ∧ row.expiresAt = t + ttlSeconds := by
    by_cases hover : .ended i ∈ (after lib tasks schedule k).state.log
    · rcases hat.kept.stored i t ⟨⟨id, hclaimed⟩, hover, hended hover⟩ with hle | ⟨row, hrow, _, hhash, _, _, hexpires⟩
      · omega
      · exact ⟨row, hrow, hhash, hexpires⟩
    · rcases (hat.kept.own i).claims id t hclaimed with hrun | hend
      · obtain ⟨row, hrow, hrunning⟩ := hat.kept.running i id t hrun hclaimed
        exact ⟨row, hrow, hrunning.2.2.1, hrunning.2.2.2.2⟩
      · exact absurd hend hover
  obtain ⟨row, hrow, hhash, hexpires⟩ := hrow
  refine ⟨row, hrow, ?_⟩
  have hnot : ¬ row.expiresAt ≤ (after lib tasks schedule k).state.now := by omega
  simp [judge, Row.found, hnot, hhash, hne]

theorem forced_of_running {i j : ι} {t : Nat} (hat : At lib tasks schedule k)
    (hprompt : Prompt (after lib tasks schedule k).state)
    (hrunning : Running (after lib tasks schedule k).state i t)
    (hsame : (requests tasks j).content = (requests tasks i).content) :
    Forced lib tasks schedule k j inUse := by
  obtain ⟨⟨id, hclaimed⟩, hended⟩ := hrunning
  have hsoon := hprompt i t ⟨⟨id, hclaimed⟩, hended⟩
  rcases (hat.kept.own i).claims id t hclaimed with hrun | hend
  · obtain ⟨row, hrow, _, hstatus, hhash, hupdated, hexpires⟩ := hat.kept.running i id t hrun hclaimed
    refine ⟨row, hrow, ?_⟩
    have hnot : ¬ row.expiresAt ≤ (after lib tasks schedule k).state.now := by
      simp only [abandonedAfterSeconds, ttlSeconds] at hsoon hexpires ⊢
      omega
    have hidle : ¬ abandonedAfterSeconds ≤ (after lib tasks schedule k).state.now - row.updatedAt := by
      rw [hupdated]
      simp only [abandonedAfterSeconds] at hsoon ⊢
      omega
    simp [judge, Row.found, hnot, hhash, hsame, hstatus, hidle]
  · exact absurd hend hended

include hkeyed hprompt hdigest in
/-- One run at a time, one response for the key's lifetime, and everybody else
answered from the row. -/
theorem sound_of_prompt : Sound lib tasks schedule where
  one := by
    intro k hk i j t t' hne hi hj
    have hkept := (at_all hkeyed hprompt hk).kept
    rcases hkept.separate i j t t' hne hi.1 hj with hle | ⟨_, hle⟩
    · exact .inr hle
    · exact .inl (hle hi.2.2)
  replayed := by
    intro k i j t hstored hunbegun hsame k' hkk hk' hlive
    refine onlyAnswered_of_towards (at_all hkeyed hprompt hk') (towards_run hkeyed hprompt hunbegun hkk hk' ?_)
    intro m hkm hmk
    have hm := hmk.le.trans hk'
    obtain ⟨hlog, _⟩ := mono hkeyed hprompt hkm hm
    obtain ⟨_, hnow⟩ := mono hkeyed hprompt hmk.le hk'
    obtain ⟨⟨id, hc⟩, hend, hok⟩ := hstored
    exact forced_of_stored (at_all hkeyed hprompt hm) ⟨⟨id, hlog _ hc⟩, hlog _ hend, hok⟩ (hnow.trans_lt hlive) hsame
  refused := by
    rintro k i j t ⟨id, hc⟩ hunbegun hother k' hkk hk' hlive hended
    refine onlyAnswered_of_towards (at_all hkeyed hprompt hk') (towards_run hkeyed hprompt hunbegun hkk hk' ?_)
    intro m hkm hmk
    have hm := hmk.le.trans hk'
    obtain ⟨hlog, _⟩ := mono hkeyed hprompt hkm hm
    obtain ⟨hlog', hnow⟩ := mono hkeyed hprompt hmk.le hk'
    exact forced_of_other hdigest (at_all hkeyed hprompt hm) (hlog _ hc) (fun h => hended (hlog' _ h))
      (hnow.trans_lt hlive) hother
  inUse := by
    intro k i j t hrunning hunbegun hsame k' hkk hk' hstill hfound k'' hkk' hk''
    have hat := at_all hkeyed hprompt hk'
    have htowards : (phases lib tasks schedule k' j).2.towards Idempotency.inUse := by
      refine towards_run hkeyed hprompt hunbegun hkk hk' ?_
      intro m hkm hmk
      have hm := hmk.le.trans hk'
      obtain ⟨hlog, _⟩ := mono hkeyed hprompt hkm hm
      obtain ⟨hlog', _⟩ := mono hkeyed hprompt hmk.le hk'
      obtain ⟨⟨id, hc⟩, _⟩ := hrunning
      exact forced_of_running (at_all hkeyed hprompt hm) (hprompt m hm)
        ⟨⟨id, hlog _ hc⟩, fun hend => hstill.2 (hlog' _ hend)⟩ hsame
    -- it has looked at the row, so its answer is settled
    have hsettled : (phases lib tasks schedule k' j).2.settled Idempotency.inUse := by
      rcases htowards with h | h | h
      · exact absurd hfound ((hat.kept.own j).found (.inl h))
      · exact absurd hfound ((hat.kept.own j).found (.inr h))
      · exact h
    exact onlyAnswered_of_towards (at_all hkeyed hprompt hk'')
      (towards_of_settled (settled_run hkeyed hprompt hkk' hk'' hsettled))
  next := by
    intro k hk i h ttl hbad hlast hnext
    have hat := at_all hkeyed hprompt hk.le
    have hnone := hat.kept.turn i hlast hbad
    rcases hat.moved hk with ⟨hthrough, _⟩ | ⟨op, hop, _, hstate, _⟩
    · rw [hnext] at hthrough
      cases hthrough
    · cases hnext.symm.trans hop
      rw [hstate]
      exact ⟨_, _, by simp only [Op.exec, hnone]; exact List.mem_cons_self⟩
  answered := by
    intro k hk j r hr hfinished
    have hat := at_all hkeyed hprompt hk
    have hreq : requests tasks j = r := by
      rw [requests, hr]
      rfl
    have hown := hat.kept.own j
    have hthrough : Through tasks (phases lib tasks schedule k j) := hat.conforms.final_of_finished hfinished
    rcases hthrough r (by rw [hat.kept.name j]; exact hr) with ⟨reply, hq⟩ | hq
    · refine ⟨⟨reply, hown.answered reply hq⟩, ?_⟩
      rintro ⟨id, t, hc⟩
      exact absurd hc ((hown.unclaimed (by rw [hq]; rfl)).1 id t)
    · have hdone := hown.done hq
      rw [hreq] at hdone
      exact ⟨⟨_, hdone⟩, fun _ => ⟨(hown.through (.inr hq)).2.1, hdone⟩⟩

end run

/-! ## Retries of one request -/

section retries

/-- A call's id, in JSON. -/
def created : String := "\x7b\"id\":7\x7d"

def plain : Primitives := ⟨fun c => c.body, fun s => if s = created then some created else none⟩

/-- A call is to be made. -/
def createCall (body : String) : Request :=
  ⟨⟨"POST", "/v1/calls", body⟩, none, true, true, some "call-1", ⟨201, some created⟩⟩

/-- A request, its retry, and another with the same key. -/
def retries : Fin 3 → Task
  | 0 | 1 => .request (createCall "to alice")
  | 2 => .request (createCall "to bob")

theorem keyed_retries : ∀ i r, retries i = .request r → Keyed r := by
  have hkey : ∀ body, Keyed (createCall body) := fun _ => ⟨rfl, rfl, rfl, "call-1", rfl, by decide⟩
  intro i r h
  match i with
  | 0 | 1 | 2 =>
    cases h
    exact hkey _

/-- The others come once the first is through. -/
theorem sound_retries : Sound plain retries [0, 0, 0, 0, 1, 1, 1, 2, 2, 2] :=
  sound_of_prompt keyed_retries (by decide) (by decide)

/-- The retry misses the key during the run, and looks at the row after it: it is
answered as the first was, and not that the key is in use. -/
theorem not_inUse_overtaken : ¬ ∀ (schedule : List (Fin 3)),
    (∀ k ≤ schedule.length, Prompt (after plain retries schedule k).state) →
      ∀ k i j t, Running (after plain retries schedule k).state i t → Unbegun plain retries schedule k j →
        (requests retries j).content = (requests retries i).content → ∀ k', k ≤ k' → k' ≤ schedule.length →
          OnlyAnswered plain retries schedule k' j Idempotency.inUse := by
  intro h
  have honly := h [0, 0, 1, 0, 1, 1] (by decide) 1 0 1 0 ⟨⟨1, by decide⟩, by decide⟩ rfl rfl 6 (by decide) (by decide)
  have hreplied : .replied 1 (.replayed 201 (some created)) ∈
      (after plain retries [0, 0, 1, 0, 1, 1] 6).state.log := by decide
  exact absurd (honly.2 _ hreplied) (by decide)

end retries

end Callio.IdempotencyKey
