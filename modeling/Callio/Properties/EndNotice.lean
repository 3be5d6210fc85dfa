import Callio.Cluster.Conduct
import Callio.Cluster.Effects

/-! The notice that a call ended reaches the worker that runs it, which then
lets go of the call. Who only closes its own media deletes the call's inbox too,
so the notice must have been read by then. -/

namespace Callio.EndNotice

open Concurrency Inbox

variable {ι : Type} [DecidableEq ι]

/-! ## The property, and what breaks it -/

/-- Worker `n` runs call `c`, which is live. -/
structure Runs (w : Cluster) (n c : Nat) : Prop where
  lease : w.lease c = some n
  own : ∃ lastId, w.own n c = some ⟨lastId, true⟩ ∧ lastId < w.nextId
  live : w.ended c = false
  inbox : ∀ e ∈ w.inbox c, e.id < w.nextId ∧ e.input ≠ .callTerminated true
  posted : ∀ e, (c, e) ∈ w.posted → e.input ≠ .callTerminated true
  inputs : (c, .callTerminated true) ∉ (w.nodes n).inputs

section run

variable (tasks : ι → Inbox.Task) (w : Cluster) (schedule : List ι) (n c : Nat)

/-- Move `k` posts the notice `e` of the call's end. -/
def Posts (k : Nat) (e : Entry) : Prop :=
  ∃ i, schedule[k]? = some i ∧ (after tasks w schedule k).next i = some (.post c (.callTerminated true)) ∧
    e = ⟨(after tasks w schedule k).state.nextId, .callTerminated true⟩

/-- A read of the worker that is answered after the notice was posted hands it
out, if the worker has the call still when its next round begins. Once the
handler is through with the notice, the worker has neither call nor lease. -/
def NoticeReaches : Prop :=
  (∀ k a b i e from_, Posts tasks w schedule c k e → k < a → a < b → b ≤ schedule.length →
    schedule[a]? = some i → (after tasks w schedule a).next i = some (.xread n from_) →
    (after tasks w schedule b).next i = some (.streams n) →
    ((after tasks w schedule b).state.own n c).isSome → ⟨n, c, e⟩ ∈ (after tasks w schedule b).state.handed) ∧
  ∀ k ≤ schedule.length, ∀ i,
    (⟨.takeInput n, some (c, .callTerminated true)⟩ : Sigma Op.Res) ∈ ((after tasks w schedule k).threads i).seen →
    ((after tasks w schedule k).threads i).Finished →
    (after tasks w schedule k).state.own n c = none ∧ (after tasks w schedule k).state.lease c ≠ some n

/-- A read loop of the worker has the entry at hand. -/
def atHand (k : Nat) (e : Entry) : Bool :=
  schedule.any fun j => (phases tasks w schedule k j).reading.batch.any fun (n', c', entries) =>
    n' = n && c' = c && entries.contains e

/-- Move `k` by `i` does not delete the inbox of a call that the worker has,
while a notice in it is neither handed out nor at hand. -/
def Sound (k : Nat) (i : ι) : Bool :=
  let cluster := (after tasks w schedule k).state
  ((after tasks w schedule k).next i).all fun op =>
    match op with
    | .purge d => d ≠ c || (cluster.own n c).isNone || (cluster.inbox c).all fun e =>
        e.input ≠ .callTerminated true || cluster.handed.contains ⟨n, c, e⟩ || atHand tasks w schedule n c k e
    | _ => true

end run

/-! ## Who has the call -/

section registration

variable (tasks : ι → Inbox.Task) (w : Cluster) (schedule : List ι) (n c : Nat) in
structure Holding (k : Nat) : Prop where
  handler : ∀ own, (after tasks w schedule k).state.own n c = some own → own.handler = true
  lease : (after tasks w schedule k).state.lease c = some n →
    ((after tasks w schedule k).state.own n c).isSome = true ∨
      .releaseLease c ∈ ((after tasks w schedule k).state.nodes n).sent
  lost : ∀ j, (phases tasks w schedule k j).lost = some (n, c) →
    (after tasks w schedule k).state.lease c ≠ some n
  dropped : ∀ j, (phases tasks w schedule k j).handling = .dropped n c →
    (after tasks w schedule k).state.own n c = none
  released : ∀ j, (phases tasks w schedule k j).handling = .released n c →
    (after tasks w schedule k).state.own n c = none ∧ (after tasks w schedule k).state.lease c ≠ some n

variable {tasks : ι → Inbox.Task} {w : Cluster} {schedule : List ι} {n c k : Nat} {i : ι} {op : Op}

/-- Nobody takes a call here. -/
theorem not_taking (ht : ∀ i, (tasks i).ends = true) (hm : Moved tasks w schedule k i op) :
    (∀ m d, op ≠ .setLease m d) ∧ (∀ m d lastId, op ≠ .register m d lastId) ∧
      (∀ m d, op ≠ .setHandler m d) := by
  have hends := (phases_ends tasks w schedule k i).trans (ht i)
  refine ⟨?_, ?_, ?_⟩
  · rintro m d rfl
    exact absurd (hends.symm.trans hm.allows) (by simp)
  · rintro m d lastId rfl
    exact absurd (hends.symm.trans hm.allows.1) (by simp)
  · rintro m d rfl
    exact absurd (hends.symm.trans hm.allows) (by simp)

/-- A call that the worker has, it had before; only its reading has moved on. -/
theorem own_before (ht : ∀ i, (tasks i).ends = true) (hm : Moved tasks w schedule k i op)
    (h : Holding tasks w schedule n c k) {own : Own}
    (hown : (after tasks w schedule (k + 1)).state.own n c = some own) :
    (after tasks w schedule k).state.own n c = some own ∨
      ∃ own' entries last, op = .deliver n c entries ∧ entries.getLast? = some last ∧
        (after tasks w schedule k).state.own n c = some own' ∧ own'.handler = true ∧
        own = { own' with lastId := last.id } := by
  obtain ⟨_, hregister, hset⟩ := not_taking ht hm
  rw [hm.state] at hown
  cases onOwn (after tasks w schedule k).state n c op with
  | same heq => exact .inl (heq.symm.trans hown)
  | registered lastId hop _ => exact absurd hop (hregister n c lastId)
  | handled _ hop _ _ => exact absurd hop (hset n c)
  | dropped _ heq =>
    rw [heq] at hown
    cases hown
  | took own' entries last hop hown' hhandler hlast heq =>
    rw [heq] at hown
    cases hown
    exact .inr ⟨own', entries, last, hop, hlast, hown', hhandler, rfl⟩
  | threw own' entries lastId hop hown' hhandler heq =>
    exact absurd ((h.handler own' hown').symm.trans hhandler) (by simp)

theorem none_succ (ht : ∀ i, (tasks i).ends = true) (hm : Moved tasks w schedule k i op)
    (h : Holding tasks w schedule n c k) (hnone : (after tasks w schedule k).state.own n c = none) :
    (after tasks w schedule (k + 1)).state.own n c = none := by
  cases hown : (after tasks w schedule (k + 1)).state.own n c with
  | none => rfl
  | some own =>
    obtain hsame | ⟨own', _, _, _, _, hown', _⟩ := own_before ht hm h hown
    · exact absurd (hnone.symm.trans hsame) (by simp)
    · exact absurd (hnone.symm.trans hown') (by simp)

theorem some_before (ht : ∀ i, (tasks i).ends = true) (hm : Moved tasks w schedule k i op)
    (h : Holding tasks w schedule n c k) (hown : ((after tasks w schedule (k + 1)).state.own n c).isSome = true) :
    ((after tasks w schedule k).state.own n c).isSome = true := by
  by_contra hnone
  rw [Bool.not_eq_true, Option.isSome_eq_false_iff, Option.isNone_iff_eq_none] at hnone
  rw [none_succ ht hm h hnone] at hown
  cases hown

/-- A lease that is not the worker's does not become its own. -/
theorem lease_succ (ht : ∀ i, (tasks i).ends = true) (hm : Moved tasks w schedule k i op)
    (hlease : (after tasks w schedule k).state.lease c ≠ some n) :
    (after tasks w schedule (k + 1)).state.lease c ≠ some n := by
  intro hheld
  rw [hm.state] at hheld
  obtain hop | ⟨hbefore, _⟩ := op.lease_exec _ hheld
  · exact (not_taking ht hm).1 n c hop
  · exact hlease hbefore

namespace Holding

theorem init (h : Runs w n c) : Holding tasks w schedule n c 0 := by
  obtain ⟨lastId, hown, _⟩ := h.own
  refine ⟨fun own hown' => ?_, fun _ => .inl ?_, ?_, ?_, ?_⟩
  · have heq : some own = some (⟨lastId, true⟩ : Own) := hown'.symm.trans hown
    cases heq
    rfl
  · exact Option.isSome_iff_exists.mpr ⟨_, hown⟩
  · intro j hj
    cases hj
  · intro j hj
    cases hj
  · intro j hj
    cases hj

theorem succ (ht : ∀ i, (tasks i).ends = true) (h : Holding tasks w schedule n c k)
    (hm : Moved tasks w schedule k i op) : Holding tasks w schedule n c (k + 1) := by
  have hlose : op = .lose n c → (after tasks w schedule k).state.lease c ≠ some n := by
    rintro rfl
    exact h.lost i hm.allows
  refine ⟨?_, ?_, ?_, ?_, ?_⟩
  · intro own hown
    obtain hsame | ⟨own', _, _, _, _, _, hhandler, rfl⟩ := own_before ht hm h hown
    · exact h.handler own hsame
    · exact hhandler
  · intro hheld
    rw [hm.state] at hheld ⊢
    exact op.lease_owned h.lease ((not_taking ht hm).1 n c) hlose hheld
  · intro j hj
    by_cases hji : j = i
    · subst hji
      rw [hm.own] at hj
      by_cases hop : op = .renewLease n c
      · subst hop
        -- the renewal failed, so the lease is not the worker's
        rw [hm.state]
        intro hheld
        have hok : decide ((after tasks w schedule k).state.lease c = some n) = true := decide_eq_true hheld
        simp [next, lostNext, Op.exec, hok] at hj
      · refine lease_succ ht hm (h.lost j ?_)
        cases op with
        | renewLease m d =>
          simp only [next, lostNext] at hj
          split at hj
          · cases hj
          · cases hj
            exact absurd rfl hop
        | _ => exact hj
    · rw [hm.others j hji] at hj
      exact lease_succ ht hm (h.lost j hj)
  · intro j hj
    by_cases hji : j = i
    · subst hji
      rw [hm.own] at hj
      obtain hbefore | ⟨_, rfl⟩ := Handling.of_dropped hj
      · exact none_succ ht hm h (h.dropped j hbefore)
      · rw [hm.state]
        simp only [Op.exec]
        split
        · simp
        · rename_i hnone
          simpa using hnone
    · rw [hm.others j hji] at hj
      exact none_succ ht hm h (h.dropped j hj)
  · intro j hj
    have hbefore : (phases tasks w schedule k j).handling = .released n c ∨
        (phases tasks w schedule k j).handling = .dropped n c ∧ op = .flush n := by
      by_cases hji : j = i
      · subst hji
        rw [hm.own] at hj
        exact Handling.of_released hj
      · rw [hm.others j hji] at hj
        exact .inl hj
    obtain hreleased | ⟨hdropped, rfl⟩ := hbefore
    · obtain ⟨hnone, hlease⟩ := h.released j hreleased
      exact ⟨none_succ ht hm h hnone, lease_succ ht hm hlease⟩
    · -- whatever release was to come has been served
      have hnone := none_succ ht hm h (h.dropped j hdropped)
      refine ⟨hnone, fun hheld => ?_⟩
      rw [hm.state] at hheld hnone
      obtain hown | hmem := Op.lease_owned _ h.lease (by simp) (by simp) hheld
      · rw [hnone] at hown
        cases hown
      · rw [show ((Op.flush n).exec (after tasks w schedule k).state).1 =
          (after tasks w schedule k).state.flush n from rfl, Cluster.sent_flush] at hmem
        cases hmem

end Holding

end registration

/-! ## Who ended the call -/

section ending

variable (tasks : ι → Inbox.Task) (w : Cluster) (schedule : List ι) (n c : Nat) in
/-- Where there is a notice, or somebody owes it, the call has ended. -/
structure Ending (k : Nat) : Prop where
  owed : ∀ j, (phases tasks w schedule k j).owed = some c → (after tasks w schedule k).state.ended c = true
  alone : ∀ j j', (phases tasks w schedule k j).owed = some c → (phases tasks w schedule k j').owed = some c → j = j'
  posted : ∀ e, (c, e) ∈ (after tasks w schedule k).state.posted → e.input = .callTerminated true →
    (after tasks w schedule k).state.ended c = true ∧ ∀ j, (phases tasks w schedule k j).owed ≠ some c
  inbox : ∀ e ∈ (after tasks w schedule k).state.inbox c, e.input = .callTerminated true →
    (after tasks w schedule k).state.ended c = true
  batch : ∀ j entries, (n, c, entries) ∈ (phases tasks w schedule k j).reading.batch →
    ∀ e ∈ entries, e.input = .callTerminated true → (after tasks w schedule k).state.ended c = true
  inputs : (c, .callTerminated true) ∈ ((after tasks w schedule k).state.nodes n).inputs →
    (after tasks w schedule k).state.ended c = true
  taken : ∀ j, (phases tasks w schedule k j).handling = .taken n c → (after tasks w schedule k).state.ended c = true
  founded : ∀ j, (phases tasks w schedule k j).handling ≠ .unfounded n c

variable {tasks : ι → Inbox.Task} {w : Cluster} {schedule : List ι} {n c k : Nat} {i : ι} {op : Op}

theorem ended_succ (hm : Moved tasks w schedule k i op) (hended : (after tasks w schedule k).state.ended c = true) :
    (after tasks w schedule (k + 1)).state.ended c = true := by
  rw [hm.state]
  exact op.ended_mono _ hended

/-- Who owes the notice owed it before, or has just ended the call. -/
theorem owed_before (hm : Moved tasks w schedule k i op) {j : ι}
    (h : (phases tasks w schedule (k + 1) j).owed = some c) :
    (phases tasks w schedule k j).owed = some c ∧ (j = i → ∀ d input, op ≠ .post d input) ∨
      j = i ∧ (after tasks w schedule k).state.ended c = false ∧
        (after tasks w schedule (k + 1)).state.ended c = true := by
  by_cases hj : j = i
  · subst hj
    rw [hm.own] at h
    cases op with
    | commitEnd d passes =>
      by_cases hwon : (passes && !(after tasks w schedule k).state.ended d) = true
      · right
        have hd : d = c := by simpa [next, owedNext, Op.exec, hwon] using h
        subst hd
        refine ⟨rfl, by simp_all, ?_⟩
        rw [hm.state]
        simp [Op.exec, hwon]
      · left
        refine ⟨?_, fun _ _ _ hop => by cases hop⟩
        simpa [next, owedNext, Op.exec, hwon] using h
    | post d input => cases h
    | _ => exact .inl ⟨h, fun _ _ _ hop => by cases hop⟩
  · rw [hm.others j hj] at h
    exact .inl ⟨h, fun hji => absurd hji hj⟩

namespace Ending

theorem init (h : Runs w n c) : Ending tasks w schedule n c 0 where
  owed j hj := by cases hj
  alone j j' hj := by cases hj
  posted e he hnotice := absurd hnotice (h.posted e he)
  inbox e he hnotice := absurd hnotice (h.inbox e he).2
  batch j entries hbatch := by cases hbatch
  inputs hinput := absurd hinput h.inputs
  taken j hj := by cases hj
  founded j hj := by cases hj

/-- A notice of the call is posted by who owes it. -/
theorem owed_of_post (ht : ∀ i, (tasks i).ends = true) {input : Input}
    (hm : Moved tasks w schedule k i (.post c input)) :
    input = .callTerminated true ∧ (phases tasks w schedule k i).owed = some c :=
  hm.allows ((phases_ends tasks w schedule k i).trans (ht i))

theorem succ (ht : ∀ i, (tasks i).ends = true) (h : Ending tasks w schedule n c k)
    (hm : Moved tasks w schedule k i op) : Ending tasks w schedule n c (k + 1) := by
  have hended := fun hk => ended_succ (c := c) hm hk
  refine ⟨?_, ?_, ?_, ?_, ?_, ?_, ?_, ?_⟩
  · intro j hj
    obtain ⟨hbefore, _⟩ | ⟨_, _, hnow⟩ := owed_before hm hj
    · exact hended (h.owed j hbefore)
    · exact hnow
  · intro j j' hj hj'
    obtain ⟨hbefore, _⟩ | ⟨rfl, hlive, _⟩ := owed_before hm hj
    · obtain ⟨hbefore', _⟩ | ⟨_, hlive, _⟩ := owed_before hm hj'
      · exact h.alone j j' hbefore hbefore'
      · exact absurd (hlive.symm.trans (h.owed j hbefore)) (by simp)
    · obtain ⟨hbefore', _⟩ | ⟨rfl, _, _⟩ := owed_before hm hj'
      · exact absurd (hlive.symm.trans (h.owed j' hbefore')) (by simp)
      · rfl
  · intro e he hnotice
    rw [hm.state] at he
    obtain hbefore | ⟨rfl, _⟩ := Op.mem_posted he
    · obtain ⟨hend, hnone⟩ := h.posted e hbefore hnotice
      refine ⟨hended hend, fun j hj => ?_⟩
      obtain ⟨howed, _⟩ | ⟨_, hlive, _⟩ := owed_before hm hj
      · exact hnone j howed
      · exact absurd (hlive.symm.trans hend) (by simp)
    · -- who posts it owed it, alone, and owes it no more
      obtain ⟨_, howed⟩ := owed_of_post ht hm
      have hend := h.owed i howed
      refine ⟨hended hend, fun j hj => ?_⟩
      obtain ⟨hbefore, hpost⟩ | ⟨_, hlive, _⟩ := owed_before hm hj
      · exact hpost (h.alone j i hbefore howed) c e.input rfl
      · exact absurd (hlive.symm.trans hend) (by simp)
  · intro e he hnotice
    rw [hm.state] at he
    cases onInbox (after tasks w schedule k).state c op with
    | same heq _ => exact hended (h.inbox e (heq ▸ he) hnotice)
    | posted input hop heq =>
      subst hop
      obtain ⟨_, howed⟩ := owed_of_post ht hm
      exact hended (h.owed i howed)
    | purged _ heq =>
      rw [heq] at he
      cases he
  · intro j entries hbatch e he hnotice
    obtain hbefore | ⟨_, from_, rfl, hread⟩ := hm.mem_batch hbatch
    · exact hended (h.batch j entries hbefore e he hnotice)
    · obtain ⟨lastId, _, rfl, _⟩ := Cluster.mem_xread.mp hread
      exact hended (h.inbox e (List.mem_of_mem_filter he) hnotice)
  · intro hinput
    rw [hm.state] at hinput
    obtain hbefore | ⟨entries, rfl, e, he, hnotice⟩ := Op.mem_inputs hinput
    · exact hended (h.inputs hbefore)
    · exact hended (h.batch i entries (List.mem_of_mem_head? hm.allows.2.2) e he hnotice)
  · intro j hj
    by_cases hji : j = i
    · subst hji
      rw [hm.own] at hj
      obtain hbefore | ⟨rfl, hinput⟩ := Handling.of_taken hj
      · exact hended (h.taken j hbefore)
      · exact hended (h.inputs hinput)
    · rw [hm.others j hji] at hj
      exact hended (h.taken j hj)
  · intro j hj
    by_cases hji : j = i
    · subst hji
      rw [hm.own] at hj
      obtain hbefore | ⟨htaken, hlive⟩ := Handling.of_unfounded hj
      · exact h.founded j hbefore
      · exact absurd (hlive.symm.trans (h.taken j htaken)) (by simp)
    · rw [hm.others j hji] at hj
      exact h.founded j hj

end Ending

end ending

/-! ## Where the notice is -/

section notice

variable (tasks : ι → Inbox.Task) (w : Cluster) (schedule : List ι) (n c : Nat) in
/-- Every id in use is old, and whoever reads for the worker reads the call. -/
structure Reads (k : Nat) : Prop where
  own : ∀ own, (after tasks w schedule k).state.own n c = some own →
    own.lastId < (after tasks w schedule k).state.nextId
  inbox : ∀ e ∈ (after tasks w schedule k).state.inbox c, e.id < (after tasks w schedule k).state.nextId
  asked : ∀ j from_ lastId, (phases tasks w schedule k j).reading.asked = some (n, from_) → (c, lastId) ∈ from_ →
    lastId < (after tasks w schedule k).state.nextId
  batch : ∀ j entries, (n, c, entries) ∈ (phases tasks w schedule k j).reading.batch →
    ∀ e ∈ entries, e.id < (after tasks w schedule k).state.nextId
  complete : ∀ j from_, (phases tasks w schedule k j).reading.asked = some (n, from_) →
    ((after tasks w schedule k).state.own n c).isSome = true → ∃ lastId, (c, lastId) ∈ from_

/-- A read loop of the worker has the entry at hand. -/
def AtHand (q : Phase) (n c : Nat) (e : Entry) : Prop :=
  ∃ entries, (n, c, entries) ∈ q.reading.batch ∧ e ∈ entries

variable (tasks : ι → Inbox.Task) (w : Cluster) (schedule : List ι) (n c : Nat) in
/-- The entry is in the inbox, and every reading of it starts before it. -/
structure Unread (k : Nat) (e : Entry) : Prop where
  inbox : e ∈ (after tasks w schedule k).state.inbox c
  own : ∀ own, (after tasks w schedule k).state.own n c = some own → own.lastId < e.id
  asked : ∀ j from_ lastId, (phases tasks w schedule k j).reading.asked = some (n, from_) → (c, lastId) ∈ from_ →
    lastId < e.id

variable (tasks : ι → Inbox.Task) (w : Cluster) (schedule : List ι) (n c : Nat) in
/-- The notice is the newest entry, and on its way if the worker has the call. -/
structure OnItsWay (k : Nat) (e : Entry) : Prop where
  newest : ∀ x ∈ (after tasks w schedule k).state.inbox c, x.id < e.id ∨ x = e
  batch : ∀ j entries, (n, c, entries) ∈ (phases tasks w schedule k j).reading.batch →
    e ∈ entries ∨ ∀ x ∈ entries, x.id < e.id
  reaches : ((after tasks w schedule k).state.own n c).isSome = true →
    ⟨n, c, e⟩ ∈ (after tasks w schedule k).state.handed ∨
      (∃ j, AtHand (phases tasks w schedule k j) n c e) ∨ Unread tasks w schedule n c k e

variable {tasks : ι → Inbox.Task} {w : Cluster} {schedule : List ι} {n c k : Nat} {i : ι} {op : Op}

theorem nextId_mono (hm : Moved tasks w schedule k i op) :
    (after tasks w schedule k).state.nextId ≤ (after tasks w schedule (k + 1)).state.nextId := by
  rw [hm.state]
  exact op.nextId_mono _

theorem Reads.init (h : Runs w n c) : Reads tasks w schedule n c 0 where
  own own hown := by
    obtain ⟨lastId, hown', hlt⟩ := h.own
    have heq : some own = some (⟨lastId, true⟩ : Own) := hown.symm.trans hown'
    cases heq
    exact hlt
  inbox e he := (h.inbox e he).1
  asked j from_ lastId hj := by cases hj
  batch j entries hbatch := by cases hbatch
  complete j from_ hj := by cases hj

theorem Reads.succ (ht : ∀ i, (tasks i).ends = true) (hh : Holding tasks w schedule n c k)
    (h : Reads tasks w schedule n c k) (hm : Moved tasks w schedule k i op) : Reads tasks w schedule n c (k + 1) := by
  have hle := nextId_mono hm
  refine ⟨?_, ?_, ?_, ?_, ?_⟩
  · intro own hown
    obtain hsame | ⟨own', entries, last, rfl, hlast, _, _, rfl⟩ := own_before ht hm hh hown
    · exact (h.own own hsame).trans_le hle
    · have hmem := List.mem_of_mem_head? hm.allows.2.2
      exact (h.batch i entries hmem last (List.mem_of_getLast? hlast)).trans_le hle
  · intro e he
    rw [hm.state] at he
    cases onInbox (after tasks w schedule k).state c op with
    | same heq _ => exact (h.inbox e (heq ▸ he)).trans_le hle
    | posted input hop heq =>
      rw [heq] at he
      obtain hbefore | rfl := mem_append he
      · exact (h.inbox e hbefore).trans_le hle
      · subst hop
        rw [hm.state]
        exact Nat.lt_succ_self _
    | purged _ heq =>
      rw [heq] at he
      cases he
  · intro j from_ lastId hj hmem
    obtain hbefore | ⟨_, _, rfl⟩ := hm.asked hj
    · exact (h.asked j from_ lastId hbefore hmem).trans_le hle
    · obtain ⟨own, hown, _, rfl⟩ := Cluster.mem_streams.mp hmem
      exact (h.own own hown).trans_le hle
  · intro j entries hbatch e he
    obtain hbefore | ⟨_, from_, rfl, hread⟩ := hm.mem_batch hbatch
    · exact (h.batch j entries hbefore e he).trans_le hle
    · obtain ⟨lastId, _, rfl, _⟩ := Cluster.mem_xread.mp hread
      exact (h.inbox e (List.mem_of_mem_filter he)).trans_le hle
  · intro j from_ hj hown
    have hbefore := some_before ht hm hh hown
    obtain hasked | ⟨_, _, rfl⟩ := hm.asked hj
    · exact h.complete j from_ hasked hbefore
    · obtain ⟨own, hown⟩ := Option.isSome_iff_exists.mp hbefore
      exact ⟨own.lastId, Cluster.mem_streams.mpr ⟨own, hown, hh.handler own hown, rfl⟩⟩

/-- What is at hand stays there, or has been handed out. -/
theorem atHand_succ (ht : ∀ i, (tasks i).ends = true) (hh : Holding tasks w schedule n c k)
    (hm : Moved tasks w schedule k i op) {j : ι} {e : Entry} (h : AtHand (phases tasks w schedule k j) n c e)
    (hown : ((after tasks w schedule (k + 1)).state.own n c).isSome = true) :
    ⟨n, c, e⟩ ∈ (after tasks w schedule (k + 1)).state.handed ∨ AtHand (phases tasks w schedule (k + 1) j) n c e := by
  obtain ⟨entries, hmem, he⟩ := h
  obtain hstays | ⟨rfl, rfl⟩ := hm.batch_stays hmem
  · exact .inr ⟨entries, hstays, he⟩
  · left
    obtain ⟨own, hown⟩ := Option.isSome_iff_exists.mp (some_before ht hm hh hown)
    rw [hm.state]
    exact Cluster.mem_handed_deliver hown (hh.handler own hown) he

theorem handed_succ (hm : Moved tasks w schedule k i op) {x : Handed}
    (h : x ∈ (after tasks w schedule k).state.handed) : x ∈ (after tasks w schedule (k + 1)).state.handed := by
  rw [hm.state]
  exact op.handed_mono _ h

namespace OnItsWay

variable {e : Entry}

/-- What has just been posted is unread. -/
theorem posted (ht : ∀ i, (tasks i).ends = true) (hh : Holding tasks w schedule n c k)
    (h : Reads tasks w schedule n c k) {input : Input} (hm : Moved tasks w schedule k i (.post c input)) :
    OnItsWay tasks w schedule n c (k + 1) ⟨(after tasks w schedule k).state.nextId, input⟩ := by
  have hinbox : (after tasks w schedule (k + 1)).state.inbox c =
      Cluster.append ((after tasks w schedule k).state.inbox c) ⟨(after tasks w schedule k).state.nextId, input⟩ := by
    rw [hm.state]
    exact Function.update_self ..
  refine ⟨?_, ?_, fun _ => .inr (.inr ⟨?_, ?_, ?_⟩)⟩
  · intro x hx
    rw [hinbox] at hx
    obtain hbefore | rfl := mem_append hx
    · exact .inl (h.inbox x hbefore)
    · exact .inr rfl
  · intro j entries hbatch
    obtain hbefore | ⟨_, _, hop, _⟩ := hm.mem_batch hbatch
    · exact .inr fun x hx => h.batch j entries hbefore x hx
    · cases hop
  · rw [hinbox]
    exact mem_append_self _ _
  · intro own hown
    obtain hsame | ⟨_, _, _, hop, _⟩ := own_before ht hm hh hown
    · exact h.own own hsame
    · cases hop
  · intro j from_ lastId hj hmem
    obtain hbefore | ⟨_, hop, _⟩ := hm.asked hj
    · exact h.asked j from_ lastId hbefore hmem
    · cases hop

/-- It stays unread until it is read, unless the inbox is deleted. -/
theorem unread_succ (ht : ∀ i, (tasks i).ends = true) (hh : Holding tasks w schedule n c k)
    (h : OnItsWay tasks w schedule n c k e) (hm : Moved tasks w schedule k i op) (hpost : ∀ input, op ≠ .post c input)
    (hpurge : op ≠ .purge c) (hunread : Unread tasks w schedule n c k e) :
    ⟨n, c, e⟩ ∈ (after tasks w schedule (k + 1)).state.handed ∨ Unread tasks w schedule n c (k + 1) e := by
  by_cases hhanded : ⟨n, c, e⟩ ∈ (after tasks w schedule (k + 1)).state.handed
  · exact .inl hhanded
  refine .inr ⟨?_, ?_, ?_⟩
  · rw [hm.state]
    cases onInbox (after tasks w schedule k).state c op with
    | same heq _ => exact heq.symm ▸ hunread.inbox
    | posted input hop _ => exact absurd hop (hpost input)
    | purged hop _ => exact absurd hop hpurge
  · intro own hown
    obtain hsame | ⟨own', entries, last, rfl, hlast, hown', hhandler, rfl⟩ := own_before ht hm hh hown
    · exact hunread.own own hsame
    · obtain hmem | hold := h.batch i entries (List.mem_of_mem_head? hm.allows.2.2)
      · refine absurd ?_ hhanded
        rw [hm.state]
        exact Cluster.mem_handed_deliver hown' hhandler hmem
      · exact hold last (List.mem_of_getLast? hlast)
  · intro j from_ lastId hj hmem
    obtain hbefore | ⟨_, _, rfl⟩ := hm.asked hj
    · exact hunread.asked j from_ lastId hbefore hmem
    · obtain ⟨own, hown, _, rfl⟩ := Cluster.mem_streams.mp hmem
      exact hunread.own own hown

theorem succ (ht : ∀ i, (tasks i).ends = true) (hh : Holding tasks w schedule n c k)
    (h : OnItsWay tasks w schedule n c k e) (hm : Moved tasks w schedule k i op) (hpost : ∀ input, op ≠ .post c input)
    (hnotice : e.input = .callTerminated true) (hok : Sound tasks w schedule n c k i = true) :
    OnItsWay tasks w schedule n c (k + 1) e := by
  have hinbox : ∀ x ∈ (after tasks w schedule (k + 1)).state.inbox c, x ∈ (after tasks w schedule k).state.inbox c := by
    intro x hx
    rw [hm.state] at hx
    cases onInbox (after tasks w schedule k).state c op with
    | same heq _ => exact heq ▸ hx
    | posted input hop _ => exact absurd hop (hpost input)
    | purged _ heq =>
      rw [heq] at hx
      cases hx
  refine ⟨fun x hx => h.newest x (hinbox x hx), ?_, fun hown => ?_⟩
  · intro j entries hbatch
    obtain hbefore | ⟨_, from_, rfl, hread⟩ := hm.mem_batch hbatch
    · exact h.batch j entries hbefore
    · obtain ⟨lastId, _, rfl, _⟩ := Cluster.mem_xread.mp hread
      by_cases hmem : e ∈ ((after tasks w schedule k).state.inbox c).filter (lastId < ·.id)
      · exact .inl hmem
      · refine .inr fun x hx => ?_
        obtain hlt | rfl := h.newest x (List.mem_of_mem_filter hx)
        · exact hlt
        · exact absurd hx hmem
  · have hsome := some_before ht hm hh hown
    have hhand : ∀ j, AtHand (phases tasks w schedule k j) n c e →
        ⟨n, c, e⟩ ∈ (after tasks w schedule (k + 1)).state.handed ∨
          (∃ j, AtHand (phases tasks w schedule (k + 1) j) n c e) ∨ Unread tasks w schedule n c (k + 1) e := by
      intro j hj
      obtain hhanded | hstays := atHand_succ ht hh hm hj hown
      · exact .inl hhanded
      · exact .inr (.inl ⟨j, hstays⟩)
    obtain hhanded | ⟨j, hj⟩ | hunread := h.reaches hsome
    · exact .inl (handed_succ hm hhanded)
    · exact hhand j hj
    by_cases hpurge : op = .purge c
    · -- the inbox goes, and the notice was read before
      subst hpurge
      have hread : (¬ (after tasks w schedule k).state.own n c = none) →
          ⟨n, c, e⟩ ∈ (after tasks w schedule k).state.handed ∨ atHand tasks w schedule n c k e = true := by
        intro hne
        have hall : ∀ x ∈ (after tasks w schedule k).state.inbox c, (¬ x.input = .callTerminated true ∨
            ⟨n, c, x⟩ ∈ (after tasks w schedule k).state.handed) ∨ atHand tasks w schedule n c k x = true := by
          simpa [Sound, hm.next, hne] using hok
        obtain (hnot | hhanded) | hhand := hall e hunread.inbox
        · exact absurd hnotice hnot
        · exact .inl hhanded
        · exact .inr hhand
      obtain hhanded | hat := hread (Option.isSome_iff_ne_none.mp hsome)
      · exact .inl (handed_succ hm hhanded)
      · obtain ⟨j, _, hj⟩ := List.any_eq_true.mp hat
        obtain ⟨⟨n', c', entries⟩, hmem, heq⟩ := List.any_eq_true.mp hj
        obtain ⟨⟨rfl, rfl⟩, he⟩ : (n' = n ∧ c' = c) ∧ e ∈ entries := by simpa using heq
        exact hhand j ⟨entries, hmem, he⟩
    · exact (unread_succ ht hh h hm hpost hpurge hunread).imp_right .inr

end OnItsWay

end notice

/-! ## The invariant -/

section invariant

variable (tasks : ι → Inbox.Task) (w : Cluster) (schedule : List ι) (n c : Nat) in
structure Invariant (k : Nat) : Prop where
  holding : Holding tasks w schedule n c k
  ending : Ending tasks w schedule n c k
  reads : Reads tasks w schedule n c k
  notice : ∀ e, (c, e) ∈ (after tasks w schedule k).state.posted → e.input = .callTerminated true →
    OnItsWay tasks w schedule n c k e

variable {tasks : ι → Inbox.Task} {w : Cluster} {schedule : List ι} {n c k : Nat} {i : ι} {op : Op}

namespace Invariant

theorem init (h : Runs w n c) : Invariant tasks w schedule n c 0 where
  holding := .init h
  ending := .init h
  reads := .init h
  notice e he hnotice := absurd hnotice (h.posted e he)

theorem idle (h : Invariant tasks w schedule n c k)
    (hsame : after tasks w schedule (k + 1) = after tasks w schedule k) :
    Invariant tasks w schedule n c (k + 1) := by
  refine ⟨?_, ?_, ?_, ?_⟩
  · obtain ⟨_, _, _, _, _⟩ := h.holding
    constructor <;> simpa only [hsame, phases_eq hsame]
  · obtain ⟨_, _, _, _, _, _, _, _⟩ := h.ending
    constructor <;> simpa only [hsame, phases_eq hsame]
  · obtain ⟨_, _, _, _, _⟩ := h.reads
    constructor <;> simpa only [hsame, phases_eq hsame]
  · intro e he hnotice
    rw [hsame] at he
    obtain ⟨_, _, hreaches⟩ := h.notice e he hnotice
    have hunread : Unread tasks w schedule n c k e → Unread tasks w schedule n c (k + 1) e := by
      rintro ⟨_, _, _⟩
      constructor <;> simpa only [hsame, phases_eq hsame]
    refine ⟨?_, ?_, fun hown => ?_⟩
    · simpa only [hsame]
    · simpa only [phases_eq hsame]
    · rw [hsame] at hown ⊢
      simp only [phases_eq hsame]
      exact (hreaches hown).imp_right fun h => h.imp_right hunread

theorem moved (ht : ∀ i, (tasks i).ends = true) (h : Invariant tasks w schedule n c k)
    (hm : Moved tasks w schedule k i op) (hok : Sound tasks w schedule n c k i = true) :
    Invariant tasks w schedule n c (k + 1) := by
  refine ⟨h.holding.succ ht hm, h.ending.succ ht hm, h.reads.succ ht h.holding hm, fun e he hnotice => ?_⟩
  rw [hm.state] at he
  obtain hbefore | ⟨rfl, hid⟩ := Op.mem_posted he
  · refine (h.notice e hbefore hnotice).succ ht h.holding hm ?_ hnotice hok
    -- nobody owes a second notice
    rintro input rfl
    exact (h.ending.posted e hbefore hnotice).2 i (Ending.owed_of_post ht hm).2
  · obtain ⟨id, input⟩ := e
    obtain rfl : id = (after tasks w schedule k).state.nextId := hid
    exact .posted ht h.holding h.reads hm

theorem succ (ht : ∀ i, (tasks i).ends = true) (h : Invariant tasks w schedule n c k)
    (hi : schedule[k]? = some i) (hok : Sound tasks w schedule n c k i = true) :
    Invariant tasks w schedule n c (k + 1) := by
  obtain ⟨_, hsame⟩ | ⟨op, hm⟩ := Inbox.moved tasks w schedule hi
  · exact h.idle hsame
  · exact h.moved ht hm hok

end Invariant

/-! ## The rule -/

/-- From an answered read on, the loop has the notice at hand until it is handed out. -/
theorem handed_or_atHand (ht : ∀ i, (tasks i).ends = true)
    (hloop : ∀ i j, (tasks i).loop ≠ none → (tasks i).loop = (tasks j).loop → i = j)
    (hinv : ∀ k ≤ schedule.length, Invariant tasks w schedule n c k) {a : Nat} {from_ : List (Nat × Nat)} {e : Entry}
    (hi : schedule[a]? = some i) (hread : (after tasks w schedule a).next i = some (.xread n from_))
    (he : (c, e) ∈ (after tasks w schedule a).state.posted) (hnotice : e.input = .callTerminated true) (d : Nat)
    (hd : a + 1 + d ≤ schedule.length) (hown : ((after tasks w schedule (a + 1 + d)).state.own n c).isSome = true) :
    ⟨n, c, e⟩ ∈ (after tasks w schedule (a + 1 + d)).state.handed ∨
      AtHand (phases tasks w schedule (a + 1 + d) i) n c e := by
  induction d with
  | zero =>
    have h := hinv a (by omega)
    have hm := moved_of_next hi hread
    have hsome := some_before ht hm h.holding hown
    have hnil := hm.allows.2.2
    obtain hhanded | ⟨j, entries, hmem, hentry⟩ | hunread := (h.notice e he hnotice).reaches hsome
    · exact .inl (handed_succ hm hhanded)
    · -- a worker has one read loop, and this one has nothing at hand
      have hj : j = i := by
        have hloop' := loop_of_reading a j n (.inr ⟨c, entries, hmem⟩)
        refine hloop j i (by simp [hloop']) (hloop'.trans ?_)
        exact hm.allows.1.symm.trans (phases_loop tasks w schedule a i)
      rw [hj, hnil] at hmem
      cases hmem
    · right
      obtain ⟨lastId, hfrom⟩ := h.reads.complete i from_ hm.allows.2.1 hsome
      have hlt := hunread.asked i from_ lastId hm.allows.2.1 hfrom
      have hmem : e ∈ ((after tasks w schedule a).state.inbox c).filter (lastId < ·.id) :=
        List.mem_filter.mpr ⟨hunread.inbox, by simpa using hlt⟩
      refine ⟨_, ?_, hmem⟩
      show (n, c, _) ∈ (phases tasks w schedule (a + 1) i).reading.batch
      rw [hm.own]
      exact List.mem_map.mpr ⟨(c, _), Cluster.mem_xread.mpr ⟨lastId, hfrom, rfl, List.ne_nil_of_mem hmem⟩, rfl⟩
  | succ d ih =>
    have h := hinv (a + 1 + d) (by omega)
    have hlt : a + 1 + d < schedule.length := by omega
    obtain ⟨_, hsame⟩ | ⟨op, hm⟩ := Inbox.moved tasks w schedule (List.getElem?_eq_getElem hlt)
    · have hsucc : after tasks w schedule (a + 1 + (d + 1)) = after tasks w schedule (a + 1 + d) := hsame
      rw [hsucc] at hown ⊢
      rw [phases_eq hsucc]
      exact ih (by omega) hown
    · obtain hhanded | hat := ih (by omega) (some_before ht hm h.holding hown)
      · exact .inl (handed_succ hm hhanded)
      · exact atHand_succ ht h.holding hm hat hown

/-- What was posted once stays posted. -/
theorem posted_of_posts {a : Nat} {e : Entry} (hposts : Posts tasks w schedule c k e) (hka : k < a) :
    (c, e) ∈ (after tasks w schedule a).state.posted := by
  obtain ⟨i, hi, hnext, rfl⟩ := hposts
  obtain ⟨d, rfl⟩ : ∃ d, a = k + 1 + d := ⟨a - (k + 1), by omega⟩
  clear hka
  induction d with
  | zero =>
    show _ ∈ (after tasks w schedule (k + 1)).state.posted
    rw [(moved_of_next hi hnext).state]
    exact List.mem_cons_self
  | succ d ih =>
    show _ ∈ (after tasks w schedule (k + 1 + d + 1)).state.posted
    cases hj : schedule[k + 1 + d]? with
    | none =>
      rw [after_of_none tasks w schedule hj]
      exact ih
    | some j =>
      obtain ⟨_, hsame⟩ | ⟨op, hm⟩ := Inbox.moved tasks w schedule hj
      · rw [hsame]
        exact ih
      · rw [hm.state]
        exact op.posted_mono _ ih

/-- Runs that end calls, with the read loops of the workers: if no inbox is
deleted with a notice unread in it, the notice reaches who has the call. -/
theorem reaches_of_sound (tasks : ι → Inbox.Task) (w : Cluster) (schedule : List ι) (n c : Nat)
    (ht : ∀ i, (tasks i).ends = true)
    (hloop : ∀ i j, (tasks i).loop ≠ none → (tasks i).loop = (tasks j).loop → i = j)
    (hw : Runs w n c) (hok : ∀ k, (hk : k < schedule.length) → Sound tasks w schedule n c k schedule[k] = true) :
    NoticeReaches tasks w schedule n c := by
  have hinv : ∀ k ≤ schedule.length, Invariant tasks w schedule n c k := by
    intro k
    induction k with
    | zero => exact fun _ => .init hw
    | succ k ih => exact fun hk => (ih (by omega)).succ ht (List.getElem?_eq_getElem hk) (hok k hk)
  constructor
  · intro k a b i e from_ hposts hka hab hb hi hread hstreams hown
    have he := posted_of_posts hposts hka
    have hnotice : e.input = .callTerminated true := by
      obtain ⟨_, _, _, rfl⟩ := hposts
      rfl
    obtain ⟨d, rfl⟩ : ∃ d, b = a + 1 + d := ⟨b - (a + 1), by omega⟩
    obtain hhanded | ⟨entries, hmem, _⟩ := handed_or_atHand ht hloop hinv hi hread he hnotice d hb hown
    · exact hhanded
    · -- a round that begins has nothing at hand
      obtain ⟨cont, hp⟩ := Config.next_eq_some.mp hstreams
      obtain ⟨_, _, hnil⟩ := (conforms tasks w schedule _).allows hp
      rw [show (phases tasks w schedule (a + 1 + d) i).reading.batch = [] from hnil] at hmem
      cases hmem
  · intro k hk i hseen hfinished
    have h := hinv k hk
    have hof := handling_of_seen k i n c hseen
    obtain ⟨_, hsettled⟩ := (conforms tasks w schedule k).final_of_finished hfinished
    change (phases tasks w schedule k i).handling.Settled at hsettled
    cases hhandling : (phases tasks w schedule k i).handling with
    | idle =>
      rw [hhandling] at hof
      exact hof.elim
    | taken n' c' =>
      rw [hhandling] at hsettled
      exact hsettled.elim
    | dropped n' c' =>
      rw [hhandling] at hsettled
      exact hsettled.elim
    | released n' c' =>
      rw [hhandling] at hof
      obtain ⟨rfl, rfl⟩ := hof
      exact h.holding.released i hhandling
    | unfounded n' c' =>
      rw [hhandling] at hof
      obtain ⟨rfl, rfl⟩ := hof
      exact absurd hhandling (h.ending.founded i)

end invariant

/-! ## Two ends of one call -/

/-- Worker 3 runs call 1. -/
def running : Cluster :=
  { lease := fun c => if c = 1 then some 3 else none
    leased := fun c => c = 1
    nodes := fun n => if n = 3 then { owned := (∅ : AList fun _ => Own).insert 1 ⟨0, true⟩ } else {} }

theorem runs_running : Runs running 3 1 where
  lease := rfl
  own := ⟨0, rfl, by decide⟩
  live := rfl
  inbox e he := by cases he
  posted e he := by cases he
  inputs h := by cases h

/-- Workers 1 and 2 both end the call, for everyone. -/
def ends : Fin 4 → Inbox.Task
  | 0 => .endCall 1 1 false true .broadcast
  | 1 => .endCall 2 1 false true .broadcast
  | 2 => .readLoop 3 2
  | 3 => .handle 3

/-- The notice is read before the one that came too late deletes the inbox. -/
theorem reaches_inTurn :
    NoticeReaches ends running ([0, 0, 0, 2, 2, 2, 1, 1, 1, 1, 2] ++ List.replicate 7 3) 3 1 :=
  reaches_of_sound ends running _ 3 1 (by decide) (by decide) runs_running (by decide)

/-- Between the notice and the read, the one that came too late deletes the inbox. -/
theorem not_reaches :
    ¬ ∀ (tasks : Fin 4 → Inbox.Task) (w : Cluster) (schedule : List (Fin 4)) (n c : Nat),
      (∀ i, (tasks i).ends = true) → (∀ i j, (tasks i).loop ≠ none → (tasks i).loop = (tasks j).loop → i = j) →
      Runs w n c → NoticeReaches tasks w schedule n c := by
  intro h
  have hreaches := (h ends running [0, 0, 0, 1, 1, 1, 1, 2, 2] 3 1 (by decide) (by decide) runs_running).1
    2 8 9 2 ⟨1, .callTerminated true⟩ [(1, 0)] ⟨0, rfl, rfl, rfl⟩ (by decide) (by decide) (by decide) rfl rfl rfl rfl
  exact absurd hreaches (by decide)

end Callio.EndNotice
