import Callio.Tenancy.ConsumerProvisioning

/-! Rotating a consumer's keys. No interleaving of issues and guarded revokes takes a
consumer's last usable key. What a revoke reports is right as long as no key is issued
between its two statements that it names, and it is not for an expired key of a consumer
without a usable one. -/

namespace Callio.KeyRotation

open Js Concurrency Store ConsumerProvisioning

/-! ## The property -/

section property

variable (collate : Text → Text)

/-- The target is a key of the consumer that is not revoked. -/
def unrevoked (db : Db) (c : Nat) : Target → Bool
  | .apiKey keyId => db.apiKeys.any (picked c (namesId keyId))
  | .signingKey kid => db.signingKeys.any (picked c (namesKid collate kid))

/-- A usable key of the consumer. -/
def usableKey {α : Type} [Credential α] (now c : Nat) (_ : Nat) (key : α) : Bool :=
  Credential.consumerId key = c && Credential.usable now key

/-- The target is usable. -/
def isUsable (db : Db) (c : Nat) : Target → Bool
  | .apiKey keyId => db.apiKeys.any fun id key => usableKey db.now c id key && namesId keyId id key
  | .signingKey kid => db.signingKeys.any fun id key => usableKey db.now c id key && namesKid collate kid id key

/-- Besides the target there is a usable key of its kind. -/
def hasOther (db : Db) (c : Nat) : Target → Bool
  | .apiKey keyId => db.apiKeys.any (counted db.now c (namesId keyId))
  | .signingKey kid => db.signingKeys.any (counted db.now c (namesKid collate kid))

/-- The target is its consumer's last usable key of its kind. -/
def isLast (db : Db) (c : Nat) (target : Target) : Bool := isUsable collate db c target && !hasOther collate db c target

/-- The consumer has a usable API key and a signing key that is not revoked. -/
def holdsKeys (db : Db) (c : Nat) : Bool := holdsKey db.apiKeys db.now c && holdsKey db.signingKeys db.now c

/-- Operations on consumers' keys, and the order in which their statements run. -/
structure Rotation (ι : Type) where
  /-- How the column compares kids. -/
  collate : Text → Text
  numberText : Number → Text
  db : Db
  tasks : ι → Task
  schedule : List ι

variable {ι : Type} [DecidableEq ι] (rot : Rotation ι)

def Rotation.start : Config Cmd.Res Db ι := Config.spawn rot.db fun i => (rot.tasks i).code rot.numberText

/-- After the first `k` moves. -/
def Rotation.after (k : Nat) : Config Cmd.Res Db ι := run (exec rot.collate) rot.start (rot.schedule.take k)

/-- Operation `i` makes its guarded update at move `k`. -/
def Rotation.Asks (i : ι) (c : Nat) (target : Target) (k : Nat) : Prop :=
  rot.schedule[k]? = some i ∧ (rot.after k).next i = some (.revoke c target)

/-- It revokes its key at move `k`. -/
def Rotation.Revokes (i : ι) (c : Nat) (target : Target) (k : Nat) : Prop :=
  rot.Asks i c target k ∧ unrevoked rot.collate (rot.after k).state c target = true ∧
    unrevoked rot.collate (rot.after (k + 1)).state c target = false

/-- Operation `i` returns `r` at move `k`. -/
def Rotation.Reports (i : ι) (r : Revocation) (k : Nat) : Prop :=
  rot.schedule[k]? = some i ∧ (rot.after k).next i = some (.reply (.revocation r))

structure Rotation.Safe : Prop where
  /-- Nobody is locked out. -/
  kept : ∀ c k k', k ≤ k' → holdsKeys (rot.after k).state c = true → holdsKeys (rot.after k').state c = true
  /-- What a revoke reports. -/
  told : ∀ i c target, rot.tasks i = .revoke c target → ∀ k r, rot.Reports i r k →
    (r = .revoked ↔ ∃ m < k, rot.Revokes i c target m) ∧
      (r = .lastKey → ∃ m < k, rot.Asks i c target m ∧ isLast rot.collate (rot.after m).state c target = true)

/-- No usable API key expires by the move. -/
def NoneExpires (cfg : Config Cmd.Res Db ι) (j : ι) : Prop :=
  ∀ seconds, cfg.next j = some (.pass seconds) → ∀ c, ∀ id key, cfg.state.apiKeys.get id = some key →
    usableKey cfg.state.now c id key = true → usableKey (cfg.state.now + seconds) c id key = true

/-- The statement issues the key. -/
def issues (db : Db) (c : Nat) : Target → Cmd → Bool
  | .apiKey keyId, .insertApiKey c' _ => c' = c && db.apiKeys.nextId = keyId
  | .signingKey kid, .insertSigningKey c' kid' =>
    c' = c && collate kid' = collate kid && !db.kidTaken collate c' kid'
  | _, _ => false

/-- The move does not issue a key whose revoke is about to look why it changed nothing, and is
not the update of a revoke whose key has expired when no other is usable. -/
structure Careful (cfg : Config Cmd.Res Db ι) (j : ι) : Prop where
  issued : ∀ cmd, cfg.next j = some cmd → ∀ i c target, cfg.next i = some (.revokedAt c target) →
    issues collate cfg.state c target cmd = false
  expired : ∀ c target, cfg.next j = some (.revoke c target) → unrevoked collate cfg.state c target = true →
    hasOther collate cfg.state c target = false → isUsable collate cfg.state c target = true

end property

/-! ## The guarded update -/

section guarded

variable {α : Type} [Credential α] {t : Table α} {now c : Nat} {named : Nat → α → Bool}

theorem revokeUnlessLast_snd :
    (revokeUnlessLast t now c named).2 = (t.any (picked c named) && t.any (counted now c named)) := by
  unfold revokeUnlessLast
  split
  · exact Eq.symm ‹_›
  · exact (Bool.eq_false_iff.mpr ‹_›).symm

theorem revokeUnlessLast_of_lost (h : (revokeUnlessLast t now c named).2 = false) :
    (revokeUnlessLast t now c named).1 = t := by
  unfold revokeUnlessLast at h ⊢
  split at h
  · cases h
  · rw [if_neg ‹_›]

theorem revokeUnlessLast_of_won (h : (revokeUnlessLast t now c named).2 = true) :
    (revokeUnlessLast t now c named).1 = t.updateAll (picked c named) (Credential.revoke now) := by
  unfold revokeUnlessLast at h ⊢
  split at h
  · rw [if_pos ‹_›]
  · cases h

theorem picked_revoke (now c' : Nat) (named' : Nat → α → Bool) (id : Nat) (key : α) :
    picked c' named' id (Credential.revoke now key) = false := by
  simp [picked, Credential.revokedAt_revoke]

/-- A revoked key stays so. -/
theorem any_picked_of_updateAll {p : Nat → α → Bool} {c' : Nat} {named' : Nat → α → Bool}
    (h : (t.updateAll p (Credential.revoke now)).any (picked c' named') = true) : t.any (picked c' named') = true := by
  obtain ⟨id, key, hget, hp⟩ := (Table.any_eq_true _ _).mp h
  obtain ⟨key', hget', rfl⟩ := Option.map_eq_some_iff.mp hget
  split at hp
  · rw [picked_revoke] at hp
    cases hp
  · exact (Table.any_eq_true _ _).mpr ⟨id, key', hget', hp⟩

theorem any_picked_of_revoke {c' : Nat} {named' : Nat → α → Bool}
    (h : (revokeUnlessLast t now c named).1.any (picked c' named') = true) : t.any (picked c' named') = true := by
  cases hwon : (revokeUnlessLast t now c named).2 with
  | false => rwa [revokeUnlessLast_of_lost hwon] at h
  | true =>
    rw [revokeUnlessLast_of_won hwon] at h
    exact any_picked_of_updateAll h

/-- The update that wins revokes the key. -/
theorem not_picked_of_won (h : (revokeUnlessLast t now c named).2 = true) :
    (revokeUnlessLast t now c named).1.any (picked c named) = false := by
  rw [revokeUnlessLast_of_won h, Table.any_eq_false]
  intro id key hget
  obtain ⟨key', hget', rfl⟩ := Option.map_eq_some_iff.mp hget
  split
  · exact picked_revoke ..
  · exact Bool.eq_false_iff.mpr ‹_›

/-- Who has a usable key keeps one: the update leaves the keys that it counts. -/
theorem holdsKey_revoke {c' : Nat} (h : holdsKey t now c' = true) :
    holdsKey (revokeUnlessLast t now c named).1 now c' = true := by
  cases hwon : (revokeUnlessLast t now c named).2 with
  | false => rwa [revokeUnlessLast_of_lost hwon]
  | true =>
    rw [revokeUnlessLast_snd, Bool.and_eq_true] at hwon
    have hleft : ∃ id key, t.get id = some key ∧ picked c named id key = false ∧
        Credential.consumerId key = c' ∧ Credential.usable now key = true := by
      by_cases hc : c' = c
      · obtain ⟨id, key, hget, hp⟩ := (Table.any_eq_true _ _).mp hwon.2
        simp only [counted, Bool.and_eq_true, decide_eq_true_eq, Bool.not_eq_true'] at hp
        exact ⟨id, key, hget, by simp [picked, hp.1.2], hp.1.1.trans hc.symm, hp.2⟩
      · obtain ⟨id, key, hget, hp⟩ := (Table.any_eq_true _ _).mp h
        simp only [Bool.and_eq_true, decide_eq_true_eq] at hp
        exact ⟨id, key, hget, by simp [picked, hp.1, hc], hp⟩
    obtain ⟨id, key, hget, hnp, hp⟩ := hleft
    rw [revokeUnlessLast_of_won (by rw [revokeUnlessLast_snd, Bool.and_eq_true]; exact hwon)]
    refine (Table.any_eq_true _ _).mpr ⟨id, key, ?_, by simpa using hp⟩
    simp [hget, hnp]

/-- The read finds a key that is not revoked. -/
theorem any_picked_of_selectRevokedAt (h : selectRevokedAt t c named = some none) : t.any (picked c named) = true := by
  obtain ⟨key, hhead, hkey⟩ := Option.map_eq_some_iff.mp h
  obtain ⟨id, hget, hp⟩ := (Table.mem_filter _ _ _).mp (List.mem_of_head? hhead)
  exact (Table.any_eq_true _ _).mpr ⟨id, key, hget, by simpa [picked, hkey] using hp⟩

end guarded

/-! ## The tables -/

section tables

variable {collate : Text → Text} {db : Db} {c : Nat} {target : Target}

theorem revoke_snd : (db.revoke collate c target).2 = (unrevoked collate db c target && hasOther collate db c target) := by
  cases target with
  | apiKey keyId => exact revokeUnlessLast_snd
  | signingKey kid => exact revokeUnlessLast_snd

theorem revoke_of_lost (h : (db.revoke collate c target).2 = false) : (db.revoke collate c target).1 = db := by
  cases target with
  | apiKey keyId => exact congrArg (fun apiKeys => { db with apiKeys }) (revokeUnlessLast_of_lost h)
  | signingKey kid => exact congrArg (fun signingKeys => { db with signingKeys }) (revokeUnlessLast_of_lost h)

theorem not_unrevoked_of_won (h : (db.revoke collate c target).2 = true) :
    unrevoked collate (db.revoke collate c target).1 c target = false := by
  cases target with
  | apiKey keyId => exact not_picked_of_won h
  | signingKey kid => exact not_picked_of_won h

theorem unrevoked_of_revokedAt (h : db.revokedAt collate c target = some none) : unrevoked collate db c target = true := by
  cases target with
  | apiKey keyId => exact any_picked_of_selectRevokedAt h
  | signingKey kid => exact any_picked_of_selectRevokedAt h

/-- No statement makes a key usable that it does not issue. -/
theorem unrevoked_of_exec {cmd : Cmd} (hcmd : issues collate db c target cmd = false)
    (h : unrevoked collate (exec collate cmd db).1 c target = true) : unrevoked collate db c target = true := by
  cases cmd with
  | insertApiKey c' days =>
    cases target with
    | apiKey keyId =>
      rw [unrevoked, exec, Table.any_insert, Bool.or_eq_true] at h
      refine h.resolve_right fun hp => ?_
      simp only [picked, namesId, Bool.and_eq_true, decide_eq_true_eq] at hp
      simp only [issues, Bool.and_eq_false_iff, decide_eq_false_iff_not] at hcmd
      exact hcmd.elim (· hp.1.1) (· hp.1.2)
    | signingKey kid => exact h
  | insertSigningKey c' kid' =>
    cases target with
    | apiKey keyId =>
      rw [exec, Db.insertSigningKey] at h
      split at h <;> exact h
    | signingKey kid =>
      rw [exec, Db.insertSigningKey] at h
      split at h
      · exact h
      · rw [unrevoked, Table.any_insert, Bool.or_eq_true] at h
        refine h.resolve_right fun hp => ?_
        simp only [picked, namesKid, Bool.and_eq_true, decide_eq_true_eq] at hp
        obtain rfl : c' = c := hp.1.1
        have hfree : db.kidTaken collate c' kid' = false := Bool.eq_false_iff.mpr ‹_›
        simp [issues, hfree, hp.1.2] at hcmd
  | revoke c' target' =>
    cases target' <;> cases target
    · exact any_picked_of_revoke h
    · exact h
    · exact h
    · exact any_picked_of_revoke h
  | selectApiKey | listSigningKeys | revokedAt | emitSigningKeyRevoked | pass | reply => exact h

theorem holdsKeys_exec {cmd : Cmd}
    (hpass : ∀ seconds, cmd = .pass seconds → ∀ id key, db.apiKeys.get id = some key →
      usableKey db.now c id key = true → usableKey (db.now + seconds) c id key = true)
    (h : holdsKeys db c = true) : holdsKeys (exec collate cmd db).1 c = true := by
  obtain ⟨happ, hsign⟩ := Bool.and_eq_true_iff.mp h
  refine Bool.and_eq_true_iff.mpr ?_
  cases cmd with
  | insertApiKey c' days => exact ⟨(Table.any_insert ..).trans (Bool.or_eq_true_iff.mpr (.inl happ)), hsign⟩
  | insertSigningKey c' kid =>
    rw [exec, Db.insertSigningKey]
    split
    · exact ⟨happ, hsign⟩
    · exact ⟨happ, (Table.any_insert ..).trans (Bool.or_eq_true_iff.mpr (.inl hsign))⟩
  | revoke c' target' =>
    cases target' with
    | apiKey keyId => exact ⟨holdsKey_revoke happ, hsign⟩
    | signingKey kid => exact ⟨happ, holdsKey_revoke hsign⟩
  | pass seconds =>
    refine ⟨?_, hsign⟩
    obtain ⟨id, key, hget, hp⟩ := (Table.any_eq_true _ _).mp happ
    exact (Table.any_eq_true _ _).mpr ⟨id, key, hget, hpass seconds rfl id key hget hp⟩
  | selectApiKey | listSigningKeys | revokedAt | emitSigningKeyRevoked | reply => exact ⟨happ, hsign⟩

end tables

/-! ## The way of a revoke -/

/-- Where an operation stands; only revokes matter. -/
inductive Phase
  /-- To make its update. -/
  | asking (c : Nat) (target : Target)
  /-- To look why the update changed nothing. -/
  | refused (c : Nat) (target : Target)
  | decided (c : Nat) (target : Target) (r : Revocation)
  | told
  | beside

def next : Phase → (cmd : Cmd) → cmd.Res → Phase
  | .asking c target, .revoke _ _, won => if won then .decided c target .revoked else .refused c target
  | .refused c target, .revokedAt _ _, row => .decided c target (.ofRow row)
  | .decided _ _ _, .reply _, _ => .told
  | q, _, _ => q

def allows : Phase → Cmd → Prop
  | .asking c target, cmd => cmd = .revoke c target
  | .refused c target, cmd => cmd = .revokedAt c target
  | .decided c _ r, cmd => cmd = .reply (.revocation r) ∨ ∃ kid, cmd = .emitSigningKeyRevoked c kid
  | .told, _ => False
  | .beside, _ => True

def P : Protocol Cmd.Res := ⟨Phase, next, allows⟩

def begins : Task → Phase
  | .revoke c target => .asking c target
  | _ => .beside

/-- Where operations end. -/
def Phase.last : Phase → Prop
  | told | beside => True
  | _ => False

/-- The phase of an operation is about its key. -/
def ForTask (task : Task) : Phase → Prop
  | .asking c target | .refused c target | .decided c target _ => task = .revoke c target
  | .told => True
  | .beside => ∀ c target, task ≠ .revoke c target

theorem forTask_begins (task : Task) : ForTask task (begins task) := by
  cases task with
  | revoke c target => rfl
  | issueApiKey | issueSigningKey | pass => exact nofun

theorem forTask_next {task : Task} {q : Phase} (h : ForTask task q) (cmd : Cmd) (r : cmd.Res) :
    ForTask task (next q cmd r) := by
  unfold next
  split
  · split <;> exact h
  · exact h
  · trivial
  · exact h

theorem forTask_phase (task : Task) (h : History Cmd.Res) : ForTask task (P.phase (begins task) h) := by
  induction h with
  | nil => exact forTask_begins task
  | cons e h ih => exact forTask_next ih e.1 e.2

theorem ofRow_ne_revoked (row : Option (Option Nat)) : Revocation.ofRow row ≠ .revoked := by
  rcases row with _ | _ | t <;> exact nofun

theorem ofRow_eq_lastKey {row : Option (Option Nat)} (h : Revocation.ofRow row = .lastKey) : row = some none := by
  rcases row with _ | _ | t
  · cases h
  · rfl
  · cases h

theorem stays_beside {α : Type} (m : ConsumerProvisioning.Code α) : m.Stays P (· = Phase.beside) := by
  induction m with
  | ret a => exact Prog.stays_ret a
  | call cmd k ih =>
    refine Prog.Takes.call ?_ ih
    rintro q rfl
    exact ⟨trivial, fun _ => rfl⟩

theorem follows_task (numberText : Number → Text) (task : Task) :
    (task.code numberText).Follows P (begins task) fun _ => Phase.last := by
  have hbeside : ∀ m : ConsumerProvisioning.Code Unit, m.Follows P .beside fun _ => Phase.last := fun m =>
    (stays_beside m _ rfl).mono fun _ q hq => hq ▸ trivial
  cases task with
  | revoke c target =>
    cases target with
    | apiKey keyId =>
      refine ⟨rfl, fun won => ?_⟩
      cases won with
      | true => exact ⟨.inl rfl, fun _ => trivial⟩
      | false => exact ⟨rfl, fun row => ⟨.inl rfl, fun _ => trivial⟩⟩
    | signingKey kid =>
      refine ⟨rfl, fun won => ?_⟩
      cases won with
      | true => exact ⟨.inr ⟨kid, rfl⟩, fun _ => ⟨.inl rfl, fun _ => trivial⟩⟩
      | false => exact ⟨rfl, fun row => ⟨.inl rfl, fun _ => trivial⟩⟩
  | issueApiKey | issueSigningKey | pass => exact hbeside _

/-! ## Along a run -/

section along

variable {ι : Type} [DecidableEq ι] (rot : Rotation ι)

/-- Where each operation stands after `k` moves. -/
def phasesAt (k : Nat) (i : ι) : Phase := P.phases (fun i => begins (rot.tasks i)) (rot.after k) i

omit [DecidableEq ι] in
theorem conforms_start : P.Conforms Phase.last (fun i => begins (rot.tasks i)) rot.start :=
  Protocol.conforms_spawn fun i => follows_task rot.numberText (rot.tasks i)

theorem conforms_after (k : Nat) : P.Conforms Phase.last (fun i => begins (rot.tasks i)) (rot.after k) :=
  (invariant_run (exec rot.collate) _ (fun _ _ => True) (fun _ i h _ => h.step (exec rot.collate) i)
    (conforms_start rot) fun _ _ => trivial).1

/-- One move, as the operations see it. -/
theorem move {k : Nat} {i : ι} (hi : rot.schedule[k]? = some i) :
    ((rot.after k).next i = none ∧ rot.after (k + 1) = rot.after k) ∨
      ∃ cmd, (rot.after k).next i = some cmd ∧ allows (phasesAt rot k i) cmd ∧
        (rot.after (k + 1)).state = (exec rot.collate cmd (rot.after k).state).1 ∧
        phasesAt rot (k + 1) = Function.update (phasesAt rot k) i
          (next (phasesAt rot k i) cmd (exec rot.collate cmd (rot.after k).state).2) := by
  have hsucc : rot.after (k + 1) = step (exec rot.collate) (rot.after k) i := run_take_succ (exec rot.collate) hi
  unfold phasesAt
  rw [hsucc]
  exact (conforms_after rot k).move i

theorem after_of_length_le {k : Nat} (h : rot.schedule.length ≤ k) : rot.after (k + 1) = rot.after k := by
  unfold Rotation.after
  rw [List.take_of_length_le h, List.take_of_length_le (Nat.le_succ_of_le h)]

/-- `r` is the right answer after `k` moves. -/
def Rightly (k : Nat) (i : ι) (c : Nat) (target : Target) (r : Revocation) : Prop :=
  (r = .revoked ↔ ∃ m < k, rot.Revokes i c target m) ∧
    (r = .lastKey → ∃ m < k, rot.Asks i c target m ∧ isLast rot.collate (rot.after m).state c target = true)

/-- What a revoke knows of its key. -/
def Stands (k : Nat) (i : ι) : Phase → Prop
  | .asking c target => ∀ m < k, ¬ rot.Asks i c target m
  | .refused c target => (∀ m < k, ¬ rot.Revokes i c target m) ∧
    (unrevoked rot.collate (rot.after k).state c target = true →
      ∃ m < k, rot.Asks i c target m ∧ isLast rot.collate (rot.after m).state c target = true)
  | .decided c target r => Rightly rot k i c target r
  | .told | .beside => True

variable {rot} {k : Nat} {i : ι}

theorem not_asks_of_ne {j : ι} (hj : rot.schedule[k]? = some j) (hne : i ≠ j) (c : Nat) (target : Target) :
    ¬ rot.Asks i c target k :=
  fun h => hne (Option.some.inj (h.1.symm.trans hj))

theorem not_asks_of_next {cmd : Cmd} (hcmd : (rot.after k).next i = some cmd) (hne : ∀ c target, cmd ≠ .revoke c target)
    (c : Nat) (target : Target) : ¬ rot.Asks i c target k :=
  fun h => hne c target (Option.some.inj (hcmd.symm.trans h.2))

theorem before_succ {p : Nat → Prop} (hk : ¬ p k) : (∃ m < k + 1, p m) ↔ ∃ m < k, p m := by
  constructor
  · rintro ⟨m, hm, hp⟩
    refine ⟨m, Nat.lt_of_le_of_ne (Nat.le_of_lt_succ hm) ?_, hp⟩
    rintro rfl
    exact hk hp
  · rintro ⟨m, hm, hp⟩
    exact ⟨m, Nat.lt_succ_of_lt hm, hp⟩

theorem Rightly.succ {c : Nat} {target : Target} {r : Revocation} (hk : ¬ rot.Asks i c target k)
    (h : Rightly rot k i c target r) : Rightly rot (k + 1) i c target r := by
  refine ⟨h.1.trans (before_succ fun hr => hk hr.1).symm, fun hr => ?_⟩
  exact (before_succ fun ha => hk ha.1).mpr (h.2 hr)

/-- A move that is not its update leaves a revoke where it stands, unless it issues the key. -/
theorem Stands.wait {q : Phase} (hk : ∀ c target, ¬ rot.Asks i c target k)
    (hq : ∀ c target, q = .refused c target → unrevoked rot.collate (rot.after (k + 1)).state c target = true →
      unrevoked rot.collate (rot.after k).state c target = true)
    (h : Stands rot k i q) : Stands rot (k + 1) i q := by
  cases q with
  | asking c target =>
    intro m hm
    rcases Nat.lt_succ_iff_lt_or_eq.mp hm with hlt | rfl
    · exact h m hlt
    · exact hk c target
  | refused c target =>
    refine ⟨fun m hm hr => ?_, fun hun => ?_⟩
    · obtain ⟨m, hm, hr⟩ := (before_succ fun hr => hk c target hr.1).mp ⟨m, hm, hr⟩
      exact h.1 m hm hr
    · exact (before_succ fun ha => hk c target ha.1).mpr (h.2 (hq c target rfl hun))
  | decided c target r => exact Rightly.succ (hk c target) h
  | told | beside => trivial

theorem Stands.refused {c : Nat} {target : Target} (hask : rot.Asks i c target k)
    (hcare : Careful rot.collate (rot.after k) i)
    (hstate : (rot.after (k + 1)).state = ((rot.after k).state.revoke rot.collate c target).1)
    (hlost : ((rot.after k).state.revoke rot.collate c target).2 = false) (h : Stands rot k i (.asking c target)) :
    Stands rot (k + 1) i (.refused c target) := by
  rw [revoke_of_lost hlost] at hstate
  refine ⟨fun m hm hr => ?_, fun hun => ⟨k, Nat.lt_succ_self k, hask, ?_⟩⟩
  · rcases Nat.lt_succ_iff_lt_or_eq.mp hm with hlt | rfl
    · exact h m hlt hr.1
    · have hgone := hr.2.2
      rw [hstate, hr.2.1] at hgone
      cases hgone
  · rw [hstate] at hun
    rw [revoke_snd, hun, Bool.true_and] at hlost
    rw [isLast, hlost, hcare.expired c target hask.2 hun hlost]
    rfl

/-- A revoke's own move. -/
theorem Stands.own {q : Phase} {cmd : Cmd} (hi : rot.schedule[k]? = some i) (hcare : Careful rot.collate (rot.after k) i)
    (hcmd : (rot.after k).next i = some cmd) (hallow : allows q cmd)
    (hstate : (rot.after (k + 1)).state = (exec rot.collate cmd (rot.after k).state).1) (h : Stands rot k i q) :
    Stands rot (k + 1) i (next q cmd (exec rot.collate cmd (rot.after k).state).2) := by
  cases q with
  | asking c target =>
    cases hallow
    have hask : rot.Asks i c target k := ⟨hi, hcmd⟩
    cases hwon : ((rot.after k).state.revoke rot.collate c target).2 with
    | true =>
      rw [next, exec, if_pos hwon]
      refine ⟨iff_of_true rfl ⟨k, Nat.lt_succ_self k, hask, ?_, ?_⟩, nofun⟩
      · rw [revoke_snd, Bool.and_eq_true] at hwon
        exact hwon.1
      · rw [hstate]
        exact not_unrevoked_of_won hwon
    | false =>
      rw [next, exec, if_neg (Bool.eq_false_iff.mp hwon)]
      exact Stands.refused hask hcare hstate hwon h
  | refused c target =>
    cases hallow
    have hk := not_asks_of_next hcmd nofun c target
    refine Rightly.succ hk ⟨iff_of_false (ofRow_ne_revoked _) ?_, fun hlast => ?_⟩
    · rintro ⟨m, hm, hr⟩
      exact h.1 m hm hr
    · exact h.2 (unrevoked_of_revokedAt (ofRow_eq_lastKey hlast))
  | decided c target r =>
    rcases hallow with rfl | ⟨kid, rfl⟩
    · trivial
    · exact Rightly.succ (not_asks_of_next hcmd nofun c target) h
  | told => cases hallow
  | beside => trivial

/-- Who has been refused looks next. -/
theorem next_of_refused {c : Nat} {target : Target} (h : phasesAt rot k i = .refused c target) :
    (rot.after k).next i = some (.revokedAt c target) := by
  have hf := conforms_after rot k i
  change (((rot.after k).threads i).prog).Follows P (phasesAt rot k i) _ at hf
  rw [h] at hf
  rw [Config.next_eq_some]
  cases hp : ((rot.after k).threads i).prog with
  | ret u =>
    rw [hp] at hf
    cases hf
  | call cmd p =>
    rw [hp] at hf
    obtain rfl : cmd = .revokedAt c target := hf.1
    exact ⟨p, rfl⟩

theorem Stands.step {j : ι} (hj : rot.schedule[k]? = some j) (hcare : Careful rot.collate (rot.after k) j)
    (h : ∀ i, Stands rot k i (phasesAt rot k i)) : Stands rot (k + 1) i (phasesAt rot (k + 1) i) := by
  rcases move rot hj with ⟨hnone, hstay⟩ | ⟨cmd, hcmd, hallow, hstate, hph⟩
  · have hsame : phasesAt rot (k + 1) i = phasesAt rot k i := by rw [phasesAt, hstay, phasesAt]
    rw [hsame]
    refine (h i).wait (fun c target ha => ?_) fun c target _ hun => hstay ▸ hun
    have hji : j = i := Option.some.inj (hj.symm.trans ha.1)
    have hnext := ha.2
    rw [← hji, hnone] at hnext
    cases hnext
  · rw [hph]
    by_cases hij : i = j
    · subst hij
      rw [Function.update_self]
      exact Stands.own hj hcare hcmd hallow hstate (h i)
    · rw [Function.update_of_ne hij]
      refine (h i).wait (not_asks_of_ne hj hij) fun c target hq hun => ?_
      rw [hstate] at hun
      exact unrevoked_of_exec (hcare.issued cmd hcmd i c target (next_of_refused hq)) hun

theorem stands (hcare : ∀ m ∈ moves (exec rot.collate) rot.start rot.schedule, Careful rot.collate m.1 m.2) (k : Nat) :
    ∀ i, Stands rot k i (phasesAt rot k i) := by
  induction k with
  | zero =>
    intro i
    change Stands rot 0 i (begins (rot.tasks i))
    cases rot.tasks i with
    | revoke c target => exact fun m hm => absurd hm (Nat.not_lt_zero m)
    | issueApiKey | issueSigningKey | pass => trivial
  | succ k ih =>
    intro i
    rcases Nat.lt_or_ge k rot.schedule.length with hlt | hge
    · have hj := List.getElem?_eq_getElem hlt
      exact Stands.step hj (hcare _ (mem_moves_of_getElem? (exec rot.collate) hj)) ih
    · refine (?_ : phasesAt rot (k + 1) i = phasesAt rot k i) ▸ (ih i).wait ?_ ?_
      · rw [phasesAt, after_of_length_le rot hge, phasesAt]
      · intro c target ha
        exact absurd ((List.getElem?_eq_none hge).symm.trans ha.1) nofun
      · intro c target _ hun
        rwa [after_of_length_le rot hge] at hun

theorem rightly_of_reports (hs : Stands rot k i (phasesAt rot k i)) {c : Nat} {target : Target}
    (htask : rot.tasks i = .revoke c target) {r : Revocation} (h : rot.Reports i r k) : Rightly rot k i c target r := by
  rcases move rot h.1 with ⟨hnone, _⟩ | ⟨cmd, hcmd, hallow, _⟩
  · exact absurd (hnone.symm.trans h.2) nofun
  · obtain rfl : cmd = .reply (.revocation r) := Option.some.inj (hcmd.symm.trans h.2)
    have hfor : ForTask (.revoke c target) (phasesAt rot k i) := htask ▸ forTask_phase _ _
    revert hs hallow hfor
    cases phasesAt rot k i with
    | asking c' target' => exact nofun
    | refused c' target' => exact nofun
    | decided c' target' r' =>
      rintro hs hallow hfor
      cases hfor
      rcases hallow with heq | ⟨kid, heq⟩
      · cases heq
        exact hs
      · cases heq
    | told => exact nofun
    | beside => exact fun _ _ hfor => (hfor c target rfl).elim

/-! ## Rotation is safe -/

theorem kept_of_noneExpires (hnone : ∀ m ∈ moves (exec rot.collate) rot.start rot.schedule, NoneExpires m.1 m.2)
    (c k : Nat) (h : holdsKeys (rot.after k).state c = true) : holdsKeys (rot.after (k + 1)).state c = true := by
  rcases Nat.lt_or_ge k rot.schedule.length with hlt | hge
  · have hj := List.getElem?_eq_getElem hlt
    rcases move rot hj with ⟨_, hstay⟩ | ⟨cmd, hcmd, _, hstate, _⟩
    · rwa [hstay]
    · rw [hstate]
      refine holdsKeys_exec (fun seconds hpass => ?_) h
      exact hnone _ (mem_moves_of_getElem? (exec rot.collate) hj) seconds (hcmd.trans (congrArg some hpass)) c
  · rwa [after_of_length_le rot hge]

/-- As long as no usable API key expires and the moves are careful. -/
theorem rotation_safe (hnone : ∀ m ∈ moves (exec rot.collate) rot.start rot.schedule, NoneExpires m.1 m.2)
    (hcare : ∀ m ∈ moves (exec rot.collate) rot.start rot.schedule, Careful rot.collate m.1 m.2) : rot.Safe where
  kept c k k' hk h := by
    induction hk with
    | refl => exact h
    | step _ ih => exact kept_of_noneExpires hnone c _ ih
  told i c target htask k r hr := rightly_of_reports (stands hcare k i) htask hr

end along

/-- Consumer 1 has the signing key `k1`. -/
def withKey : Db := { signingKeys := Table.empty.insert fun _ => { consumerId := 1, kid := "k1".toList } }

/-- One operation issues `k2`, the other revokes `k1`. -/
def rotating : Rotation Bool where
  collate := id
  numberText _ := []
  db := withKey
  tasks revoking := if revoking then .revoke 1 (.signingKey "k1".toList) else .issueSigningKey 1 (some "k2".toList)
  schedule := [false, true, false, true, true]

theorem rotating_safe : rotating.Safe ∧ rotating.Reports true .revoked 4 := by
  refine ⟨rotation_safe ?_ ?_, rfl, rfl⟩
  · intro m hm
    simp only [rotating, moves, List.mem_cons, List.not_mem_nil, or_false] at hm
    rcases hm with rfl | rfl | rfl | rfl | rfl <;> (intro seconds h; cases h)
  · intro m hm
    simp only [rotating, moves, List.mem_cons, List.not_mem_nil, or_false] at hm
    rcases hm with rfl | rfl | rfl | rfl | rfl
    · exact ⟨fun cmd _ i c target h => (by cases i <;> cases h), fun c target h => by cases h⟩
    · exact ⟨fun cmd _ i c target h => (by cases i <;> cases h), fun c target h => by cases h; decide⟩
    · exact ⟨fun cmd _ i c target h => (by cases i <;> cases h), fun c target h => by cases h⟩
    · exact ⟨fun cmd _ i c target h => (by cases i <;> cases h), fun c target h => by cases h⟩
    · exact ⟨fun cmd _ i c target h => (by cases i <;> cases h), fun c target h => by cases h⟩

/-- The key is issued between the two statements of its revoke, which calls it the last one. -/
def overtaken : Rotation Bool where
  collate := id
  numberText _ := "2".toList
  db := withKey
  tasks revoking := if revoking then .revoke 1 (.signingKey "k2".toList) else .issueSigningKey 1 none
  schedule := [true, false, false, true, true]

theorem overtaken_noneExpires :
    ∀ m ∈ moves (exec overtaken.collate) overtaken.start overtaken.schedule, NoneExpires m.1 m.2 := by
  intro m hm
  simp only [overtaken, moves, List.mem_cons, List.not_mem_nil, or_false] at hm
  rcases hm with rfl | rfl | rfl | rfl | rfl <;> (intro seconds h; cases h)

/-- Rotation is not safe whenever no key expires. -/
theorem not_rotation_safe :
    ¬ ∀ rot : Rotation Bool, (∀ m ∈ moves (exec rot.collate) rot.start rot.schedule, NoneExpires m.1 m.2) → rot.Safe := by
  intro h
  obtain ⟨m, hm, ha, hlast⟩ := ((h overtaken overtaken_noneExpires).told true 1 (.signingKey "k2".toList) rfl 4 .lastKey
    ⟨rfl, rfl⟩).2 rfl
  match m, hm with
  | 0, _ => exact absurd hlast (by decide)
  | 1, _ => exact absurd ha.1 (by decide)
  | 2, _ => exact absurd ha.1 (by decide)
  | 3, _ => exact absurd ha.2 (by decide)

end Callio.KeyRotation
