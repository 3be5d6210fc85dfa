import Callio.Tenancy.EntityDeletion

/-! What a delete leaves behind. Foreign keys answer for channels and queues. For the
ids in flows only the check does: it compares texts where the IVR compares numbers,
and it is over before the row is deleted. -/

namespace Callio.EntityDeletion

open Js Concurrency Store IvrTargets

section

variable (numberText : Number → Text) (toLowerCase : Text → Text) (tenantId : Nat) (entity : Entity)

/-! ## References -/

/-- What the check finds at a node. -/
def found (node : Json) : Option Bool :=
  match entity with
  | .queue id => transfersToQueue numberText toLowerCase id node
  | .audioAsset id => playsAudio numberText id node

/-- Whether a node itself leads the IVR to what is deleted. -/
def resolves (node : Json) : Bool :=
  match entity with
  | .queue id => resolvesToQueue numberText toLowerCase none node id
  | .audioAsset id => resolvesToAudio numberText node id

/-- No flow of the tenant does. -/
def FlowsClean (db : Db) : Prop :=
  ∀ flow ∈ db.listFlowStructures tenantId, ∀ node ∈ nodesOf flow.structure_,
    resolves numberText toLowerCase entity node = false

/-- No channel, no overflow or hold setting and no IVR node leads to what is deleted;
a transfer without a target leads where its call's channel does. -/
def Clean (db : Db) : Prop :=
  match entity with
  | .queue id =>
    (∀ c ∈ db.channels, c.inboundQueueId ≠ some id) ∧
    (∀ other row, db.queues.get other = some row → row.overflowQueueId ≠ some id) ∧
    ∀ flow ∈ db.listFlowStructures tenantId, ∀ node ∈ nodesOf flow.structure_,
      ∀ queueId ∈ none :: db.channels.map Channel.inboundQueueId,
        resolvesToQueue numberText toLowerCase queueId node id = false
  | .audioAsset id =>
    (∀ other row, db.queues.get other = some row → row.holdAudioAssetId ≠ some id) ∧
    ∀ flow ∈ db.listFlowStructures tenantId, ∀ node ∈ nodesOf flow.structure_, resolvesToAudio numberText node id = false

/-- Deleted, and its id given to nothing else. -/
def Absent (db : Db) : Prop :=
  match entity with
  | .queue id => db.queues.get id = none ∧ id < db.queues.nextId
  | .audioAsset id => db.assets.get id = none ∧ id < db.assets.nextId

/-! ## The condition -/

/-- A thread has read the tenant's flows. -/
def HasRead (seen : History Cmd.Res) : Prop := ∃ flows, ⟨.listFlowStructures tenantId, flows⟩ ∈ seen

/-- A thread's delete returned that it deleted. -/
def Returned (seen : History Cmd.Res) : Prop := ⟨.reply .deleted, ()⟩ ∈ seen

variable {ι : Type}

/-- When thread `i` reads the flows, its check finds what resolves; from then on
nobody writes a flow that resolves. -/
structure Careful (i : ι) (cfg : Config Cmd.Res Db ι) (j : ι) : Prop where
  spelled : j = i → cfg.next i = some (.listFlowStructures tenantId) →
    ∀ flow ∈ cfg.state.listFlowStructures tenantId, ∀ node ∈ nodesOf flow.structure_,
      resolves numberText toLowerCase entity node = true → found numberText toLowerCase entity node ≠ some false
  written : ∀ flow, cfg.next j = some (.upsertFlow flow) → flow.tenantId = tenantId →
    HasRead tenantId (cfg.threads i).seen → ∀ node ∈ nodesOf flow.structure_,
      resolves numberText toLowerCase entity node = false

end

/-! ## The check -/

theorem someNode_false {predicate : Json → Option Bool} {nodes : List Json} (h : someNode predicate nodes = some false) :
    ∀ node ∈ nodes, predicate node = some false := by
  induction nodes with
  | nil => exact nofun
  | cons node nodes ih =>
    obtain ⟨hit, hhit, hrest⟩ := Option.bind_eq_some_iff.mp h
    cases hit with
    | true => cases hrest
    | false => exact List.forall_mem_cons.mpr ⟨hhit, ih hrest⟩

/-- Where no flow is found, no node is. -/
theorem flowsWhere_nil {predicate : Json → Option Bool} {flows : List Flow} (h : flowsWhere predicate flows = some []) :
    ∀ flow ∈ flows, ∀ node ∈ nodesOf flow.structure_, predicate node = some false := by
  induction flows with
  | nil => exact nofun
  | cons flow flows ih =>
    obtain ⟨hit, hhit, h⟩ := Option.bind_eq_some_iff.mp h
    obtain ⟨refs, hrefs, h⟩ := Option.bind_eq_some_iff.mp h
    cases hit with
    | true => cases h
    | false =>
      obtain rfl : refs = [] := Option.some.inj h
      exact List.forall_mem_cons.mpr ⟨someNode_false hhit, ih hrefs⟩

/-- The check misses a transfer to the queue where the target's text is not the id's. -/
theorem transfersToQueue_false {numberText : Number → Text} {toLowerCase : Text → Text} {node : Json} {id : Nat}
    (h : resolvesToQueue numberText toLowerCase none node id = true) :
    transfersToQueue numberText toLowerCase id node = some false ↔
      ∃ v s, field node "targetId" = some v ∧ v.toText numberText = some s ∧ s ≠ numberText (.fin id) := by
  obtain ⟨htransfer, htarget⟩ := Bool.and_eq_true_iff.mp h
  have htarget := of_decide_eq_true htarget
  unfold targetQueue at htarget
  split at htarget
  · rename_i targetType targetId htype hid
    split at htarget
    · cases htarget
    · rename_i hagent
      have hcheck : transfersToQueue numberText toLowerCase id node = sameId numberText (field node "targetId") id := by
        simp only [transfersToQueue, htransfer, if_true, htype, Option.bind_eq_bind, Option.bind_some, hagent, if_false]
      rw [hcheck]
      cases hfield : field node "targetId" with
      | none =>
        rw [rawTargetId, hfield] at hid
        cases hid
        cases htarget
      | some v =>
        have hnull : v ≠ .null := by
          rintro rfl
          rw [rawTargetId, hfield] at hid
          cases hid
          cases htarget
        have hsame : sameId numberText (some v) id = (v.toText numberText).map fun s => decide (s = numberText (.fin id)) := by
          unfold sameId
          split
          · rename_i heq
            cases heq
          · rename_i heq
            exact absurd (Option.some.inj heq) hnull
          · rename_i heq
            rw [Option.some.inj heq]
        rw [hsame, Option.map_eq_some_iff]
        constructor
        · rintro ⟨s, hs, hne⟩
          exact ⟨v, s, rfl, hs, of_decide_eq_false hne⟩
        · rintro ⟨_, s, hv, hs, hne⟩
          cases hv
          exact ⟨s, hs, decide_eq_false hne⟩
  · cases htarget

/-- Of a queue: each transfer to it that is there when the flows are read spells its
target as the id is spelt, or not so that it has a text. -/
theorem careful_queue_iff {numberText : Number → Text} {toLowerCase : Text → Text} {tenantId id : Nat} {ι : Type}
    {i j : ι} {cfg : Config Cmd.Res Db ι} :
    Careful numberText toLowerCase tenantId (.queue id) i cfg j ↔
      (j = i → cfg.next i = some (.listFlowStructures tenantId) →
        ∀ flow ∈ cfg.state.listFlowStructures tenantId, ∀ node ∈ nodesOf flow.structure_,
          resolvesToQueue numberText toLowerCase none node id = true →
            ∀ v s, field node "targetId" = some v → v.toText numberText = some s → s = numberText (.fin id)) ∧
      ∀ flow, cfg.next j = some (.upsertFlow flow) → flow.tenantId = tenantId →
        HasRead tenantId (cfg.threads i).seen → ∀ node ∈ nodesOf flow.structure_,
          resolvesToQueue numberText toLowerCase none node id = false := by
  constructor
  · rintro ⟨hspelled, hwritten⟩
    refine ⟨fun hij hnext flow hflow node hnode hresolves v s hv hs => ?_, hwritten⟩
    by_contra hne
    exact hspelled hij hnext flow hflow node hnode hresolves
      ((transfersToQueue_false hresolves).mpr ⟨v, s, hv, hs, hne⟩)
  · rintro ⟨hspelt, hwritten⟩
    refine ⟨fun hij hnext flow hflow node hnode hresolves hmissed => ?_, hwritten⟩
    obtain ⟨v, s, hv, hs, hne⟩ := (transfersToQueue_false hresolves).mp hmissed
    exact hne (hspelt hij hnext flow hflow node hnode hresolves v s hv hs)

/-! ## What statements keep -/

section

variable {numberText : Number → Text} {toLowerCase : Text → Text} {tenantId : Nat} {entity : Entity}

theorem mem_upsertFlow {db : Db} {flow f : Flow} (h : f ∈ (db.upsertFlow flow).listFlowStructures tenantId) :
    (f = flow ∧ flow.tenantId = tenantId) ∨ f ∈ db.listFlowStructures tenantId := by
  obtain ⟨hmem, htenant⟩ := List.mem_filter.mp h
  rcases List.mem_cons.mp hmem with rfl | hmem
  · exact .inl ⟨rfl, of_decide_eq_true htenant⟩
  · exact .inr (List.mem_filter.mpr ⟨List.mem_of_mem_filter hmem, htenant⟩)

/-- Only a flow's write changes flows. -/
theorem flows_exec (c : Cmd) (db : Db) (h : ∀ flow, c ≠ .upsertFlow flow) : (exec c db).1.flows = db.flows := by
  cases c with
  | upsertFlow flow => exact absurd rfl (h flow)
  | deleteIfUnused queueId tenantId =>
    simp only [exec, Db.deleteIfUnused]
    split
    · split <;> rfl
    · rfl
  | deleteAudioAsset assetId tenantId =>
    simp only [exec, Db.deleteAudioAsset]
    split
    · split <;> rfl
    · rfl
  | upsertChannel channel =>
    simp only [exec, Db.upsertChannel]
    split <;> rfl
  | upsertQueue queue =>
    simp only [exec, Db.upsertQueue]
    split <;> rfl
  | _ => rfl

theorem FlowsClean.exec {db : Db} (h : FlowsClean numberText toLowerCase tenantId entity db) (c : Cmd)
    (hwritten : ∀ flow, c = .upsertFlow flow → flow.tenantId = tenantId →
      ∀ node ∈ nodesOf flow.structure_, resolves numberText toLowerCase entity node = false) :
    FlowsClean numberText toLowerCase tenantId entity (exec c db).1 := by
  by_cases hflow : ∃ flow, c = .upsertFlow flow
  · obtain ⟨flow, rfl⟩ := hflow
    intro f hf
    rcases mem_upsertFlow hf with ⟨rfl, htenant⟩ | hf
    · exact hwritten f rfl htenant
    · exact h f hf
  · have hflows := flows_exec c db fun flow hc => hflow ⟨flow, hc⟩
    unfold FlowsClean Db.listFlowStructures
    rw [hflows]
    exact h

theorem putQueue_absent {t : Table Queue} {queue : Queue} {id : Nat} (hnone : t.get id = none) (hlt : id < t.nextId) :
    (putQueue t queue).get id = none ∧ id < (putQueue t queue).nextId := by
  unfold putQueue
  split
  · refine ⟨?_, hlt⟩
    rw [Table.get_modify]
    split
    · rename_i hid
      rw [← hid, hnone]
      rfl
    · exact hnone
  · have hne : id ≠ t.nextId := by omega
    refine ⟨?_, Nat.lt_succ_of_lt hlt⟩
    rw [Table.get_insert, if_neg hne, hnone]

/-- What is deleted stays so. -/
theorem Absent.exec {db : Db} (h : Absent entity db) (c : Cmd) : Absent entity (exec c db).1 := by
  cases c with
  | deleteIfUnused queueId tenantId =>
    simp only [EntityDeletion.exec, Db.deleteIfUnused]
    split
    · split
      · cases entity with
        | queue id =>
          refine ⟨?_, h.2⟩
          simp only [Db.removeQueue, Table.get_map, Table.get_remove, h.1]
          split <;> rfl
        | audioAsset id => exact h
      · exact h
    · exact h
  | deleteAudioAsset assetId tenantId =>
    simp only [EntityDeletion.exec, Db.deleteAudioAsset]
    split
    · split
      · cases entity with
        | queue id =>
          refine ⟨?_, h.2⟩
          simp only [Db.removeAsset, Table.get_map, h.1, Option.map_none]
        | audioAsset id =>
          refine ⟨?_, h.2⟩
          simp only [Db.removeAsset, Table.get_remove, h.1, ite_self]
      · exact h
    · exact h
  | upsertChannel channel =>
    simp only [EntityDeletion.exec, Db.upsertChannel]
    split
    · cases entity <;> exact h
    · exact h
  | upsertQueue queue =>
    simp only [EntityDeletion.exec, Db.upsertQueue]
    split
    · cases entity with
      | queue id => exact putQueue_absent h.1 h.2
      | audioAsset id => exact h
    · exact h
  | createAudioAsset tenantId =>
    cases entity with
    | queue id => exact h
    | audioAsset id =>
      have hne : id ≠ db.assets.nextId := Nat.ne_of_lt h.2
      refine ⟨?_, Nat.lt_succ_of_lt h.2⟩
      simp only [EntityDeletion.exec, Db.createAudioAsset, Table.get_insert, hne, if_false, h.1]
  | upsertFlow flow => cases entity <;> exact h
  | calls liveIn => cases entity <;> exact h
  | _ => exact h

end

/-! ## The deleting thread -/

/-- How far a thread that deletes has come; other threads are free. -/
inductive Phase
  | free
  | reading
  /-- The check found nothing. -/
  | checked
  | removed
  | returned
  /-- It will not delete. -/
  | gaveUp
  deriving DecidableEq

/-- From the check on. -/
def Phase.past : Phase → Bool
  | .checked | .removed | .returned => true
  | _ => false

section

variable (numberText : Number → Text) (toLowerCase : Text → Text) (tenantId : Nat) (entity : Entity)

def deleteCmd : Cmd :=
  match entity with
  | .queue id => .deleteIfUnused id tenantId
  | .audioAsset id => .deleteAudioAsset id tenantId

def next (p : Phase) (c : Cmd) (r : c.Res) : Phase :=
  match p, c, r with
  | .reading, .listFlowStructures _, flows =>
    if flowsWhere (found numberText toLowerCase entity) flows = some [] then .checked else .gaveUp
  | .checked, .deleteIfUnused _ _, deleted => if deleted then .removed else .gaveUp
  | .checked, .deleteAudioAsset _ _, deleted => if deleted then .removed else .gaveUp
  | .removed, .reply _, _ => .returned
  | p, _, _ => p

/-- A reply that nothing was deleted. -/
def Refuses (c : Cmd) : Prop := ∃ outcome, c = .reply outcome ∧ outcome ≠ .deleted

def allows (p : Phase) (c : Cmd) : Prop :=
  match p with
  | .free => True
  | .reading => (∃ id, c = .usingInboundQueue id ∨ c = .overflowingInto id ∨ c = .queuesHoldingAudio id) ∨
      c = .listFlowStructures tenantId
  | .checked => c = deleteCmd tenantId entity ∨ Refuses c
  | .removed => c = .reply .deleted
  | .returned => False
  | .gaveUp => Refuses c

abbrev protocol : Protocol Cmd.Res := ⟨Phase, next numberText toLowerCase entity, allows tenantId entity⟩

/-- After a check that fails or finds a flow, or behind other findings. -/
theorem follows_refusing {p : Phase} (hp : p = .checked ∨ p = .gaveUp) {outcome : Outcome} (h : outcome ≠ .deleted) :
    (Prog.ret outcome >>= fun outcome => Prog.cmd (Cmd.reply outcome)).Follows
      (protocol numberText toLowerCase tenantId entity) p fun _ _ => True := by
  rcases hp with rfl | rfl
  · exact ⟨.inr ⟨outcome, rfl, h⟩, fun _ => trivial⟩
  · exact ⟨⟨outcome, rfl, h⟩, fun _ => trivial⟩

theorem next_reading (flows : List Flow) :
    next numberText toLowerCase entity .reading (.listFlowStructures tenantId) flows =
      if flowsWhere (found numberText toLowerCase entity) flows = some [] then .checked else .gaveUp := rfl

theorem next_reading_cases (flows : List Flow) :
    next numberText toLowerCase entity .reading (.listFlowStructures tenantId) flows = .checked ∨
      next numberText toLowerCase entity .reading (.listFlowStructures tenantId) flows = .gaveUp := by
  rw [next_reading]
  split
  · exact .inl rfl
  · exact .inr rfl

/-- After a check that finds nothing. -/
theorem follows_deleting {outcome : Outcome} (h : outcome ≠ .deleted) (deleted : Bool) :
    ((if deleted then pure .deleted else pure outcome : Prog Cmd.Res Outcome) >>=
        fun outcome => Prog.cmd (Cmd.reply outcome)).Follows
      (protocol numberText toLowerCase tenantId entity) (if deleted then .removed else .gaveUp) fun _ _ => True := by
  cases deleted with
  | true => exact ⟨rfl, fun _ => trivial⟩
  | false => exact ⟨⟨outcome, rfl, h⟩, fun _ => trivial⟩

theorem next_reading_nil {flows : List Flow} (h : flowsWhere (found numberText toLowerCase entity) flows = some []) :
    next numberText toLowerCase entity .reading (.listFlowStructures tenantId) flows = .checked := by
  rw [next_reading, if_pos h]

theorem follows_deleteQueue (id : Nat) :
    (deleteQueue numberText toLowerCase tenantId id >>= fun outcome => Prog.cmd (Cmd.reply outcome)).Follows
      (protocol numberText toLowerCase tenantId (.queue id)) .reading fun _ _ => True := by
  simp only [deleteQueue, bind_assoc, Prog.follows_cmd_bind]
  refine ⟨.inl ⟨id, .inl rfl⟩, fun channels => ⟨.inl ⟨id, .inr (.inl rfl)⟩, fun overflowQueues => ⟨.inr rfl, fun flows => ?_⟩⟩⟩
  have hcases := next_reading_cases numberText toLowerCase tenantId (.queue id) flows
  cases hcheck : flowsWhere (transfersToQueue numberText toLowerCase id) flows with
  | none => exact follows_refusing numberText toLowerCase tenantId _ hcases nofun
  | some ivrFlows =>
    dsimp only
    split
    · exact follows_refusing numberText toLowerCase tenantId _ hcases nofun
    · rename_i hblocking
      have hnil : ivrFlows = [] := by
        by_contra hne
        exact hblocking (.inr (.inr hne))
      have hchecked := next_reading_nil numberText toLowerCase tenantId (.queue id) (hcheck.trans (congrArg some hnil))
      change Prog.Follows (protocol numberText toLowerCase tenantId (.queue id))
        (next numberText toLowerCase (.queue id) .reading (.listFlowStructures tenantId) flows) _ _
      rw [hchecked]
      simp only [bind_assoc, Prog.follows_cmd_bind]
      exact ⟨.inl rfl, follows_deleting numberText toLowerCase tenantId (.queue id) nofun⟩

theorem follows_deleteAudioAsset (id : Nat) :
    (deleteAudioAsset numberText tenantId id >>= fun outcome => Prog.cmd (Cmd.reply outcome)).Follows
      (protocol numberText toLowerCase tenantId (.audioAsset id)) .reading fun _ _ => True := by
  simp only [deleteAudioAsset, bind_assoc, Prog.follows_cmd_bind]
  refine ⟨.inl ⟨id, .inr (.inr rfl)⟩, fun queues => ⟨.inr rfl, fun flows => ?_⟩⟩
  have hcases := next_reading_cases numberText toLowerCase tenantId (.audioAsset id) flows
  cases hcheck : flowsWhere (playsAudio numberText id) flows with
  | none => exact follows_refusing numberText toLowerCase tenantId _ hcases nofun
  | some ivrFlows =>
    dsimp only
    split
    · exact follows_refusing numberText toLowerCase tenantId _ hcases nofun
    · rename_i hblocking
      have hnil : ivrFlows = [] := by
        by_contra hne
        exact hblocking (.inr hne)
      have hchecked :=
        next_reading_nil numberText toLowerCase tenantId (.audioAsset id) (hcheck.trans (congrArg some hnil))
      change Prog.Follows (protocol numberText toLowerCase tenantId (.audioAsset id))
        (next numberText toLowerCase (.audioAsset id) .reading (.listFlowStructures tenantId) flows) _ _
      rw [hchecked]
      simp only [bind_assoc, Prog.follows_cmd_bind]
      exact ⟨.inl rfl, follows_deleting numberText toLowerCase tenantId (.audioAsset id) nofun⟩

theorem follows_delete : (delete numberText toLowerCase tenantId entity).Follows
    (protocol numberText toLowerCase tenantId entity) .reading fun _ _ => True := by
  cases entity with
  | queue id => exact follows_deleteQueue numberText toLowerCase tenantId id
  | audioAsset id => exact follows_deleteAudioAsset numberText toLowerCase tenantId id

/-- Other threads may do anything. -/
theorem follows_free (m : Prog Cmd.Res Unit) :
    m.Follows (protocol numberText toLowerCase tenantId entity) .free fun _ _ => True := by
  induction m with
  | ret => trivial
  | call c k ih => exact ⟨trivial, fun r => ih r⟩

end

/-! ## Runs -/

section

variable {numberText : Number → Text} {toLowerCase : Text → Text} {tenantId : Nat} {entity : Entity}

theorem absent_of_deleteIfUnused {db : Db} {id : Nat} (h : (db.deleteIfUnused id tenantId).2 = true) :
    Absent (.queue id) (db.deleteIfUnused id tenantId).1 := by
  unfold Db.deleteIfUnused at h ⊢
  split at h
  · rename_i row hrow
    split at h
    · rename_i hguard
      rw [if_pos hguard]
      refine ⟨?_, show id < db.queues.nextId from Table.lt_nextId hrow⟩
      simp only [Db.removeQueue, Table.get_map, Table.get_remove, if_true, Option.map_none]
    · cases h
  · cases h

theorem absent_of_deleteAudioAsset {db : Db} {id : Nat} (h : (db.deleteAudioAsset id tenantId).2 = true) :
    Absent (.audioAsset id) (db.deleteAudioAsset id tenantId).1 := by
  unfold Db.deleteAudioAsset at h ⊢
  split at h
  · rename_i row hrow
    split at h
    · rename_i hguard
      rw [if_pos hguard]
      refine ⟨?_, show id < db.assets.nextId from Table.lt_nextId hrow⟩
      simp only [Db.removeAsset, Table.get_remove, if_true]
    · cases h
  · cases h

variable (numberText toLowerCase tenantId entity) in
/-- A delete's statement, which deletes or gives up. -/
theorem next_checked (db : Db) :
    (next numberText toLowerCase entity .checked (deleteCmd tenantId entity) (exec (deleteCmd tenantId entity) db).2 =
        .removed ∧ Absent entity (exec (deleteCmd tenantId entity) db).1) ∨
      next numberText toLowerCase entity .checked (deleteCmd tenantId entity) (exec (deleteCmd tenantId entity) db).2 =
        .gaveUp := by
  cases entity with
  | queue id =>
    by_cases h : (db.deleteIfUnused id tenantId).2 = true
    · exact .inl ⟨if_pos h, absent_of_deleteIfUnused h⟩
    · exact .inr (if_neg h)
  | audioAsset id =>
    by_cases h : (db.deleteAudioAsset id tenantId).2 = true
    · exact .inl ⟨if_pos h, absent_of_deleteAudioAsset h⟩
    · exact .inr (if_neg h)

variable {ι : Type} [DecidableEq ι]

def init (i j : ι) : Phase := if j = i then .reading else .free

/-- What is so of a thread that deletes, and of the tables since. -/
structure Kept (numberText : Number → Text) (toLowerCase : Text → Text) (tenantId : Nat) (entity : Entity) (p : Phase)
    (seen : History Cmd.Res) (db : Db) : Prop where
  read : p.past = true → HasRead tenantId seen
  returned : Returned seen → p = .returned
  flows : p.past = true → FlowsClean numberText toLowerCase tenantId entity db
  absent : p = .removed ∨ p = .returned → Absent entity db

theorem Kept.other {p : Phase} {seen : History Cmd.Res} {db : Db}
    (h : Kept numberText toLowerCase tenantId entity p seen db) (c : Cmd)
    (hwritten : ∀ flow, c = .upsertFlow flow → flow.tenantId = tenantId → HasRead tenantId seen →
      ∀ node ∈ nodesOf flow.structure_, resolves numberText toLowerCase entity node = false) :
    Kept numberText toLowerCase tenantId entity p seen (exec c db).1 where
  read := h.read
  returned := h.returned
  flows hp := (h.flows hp).exec c fun flow hc htenant => hwritten flow hc htenant (h.read hp)
  absent hp := (h.absent hp).exec c

theorem hasRead_cons {seen : History Cmd.Res} (e : Sigma Cmd.Res) (h : HasRead tenantId seen) :
    HasRead tenantId (e :: seen) :=
  h.imp fun _ hmem => List.mem_cons_of_mem _ hmem

theorem not_returned_cons {seen : History Cmd.Res} {c : Cmd} {r : c.Res} (h : ¬Returned seen) (hc : c ≠ .reply .deleted) :
    ¬Returned (⟨c, r⟩ :: seen) := by
  intro hreturned
  rcases List.mem_cons.mp hreturned with heq | hreturned
  · exact hc (congrArg Sigma.fst heq).symm
  · exact h hreturned

/-- A reply that nothing was deleted changes nothing. -/
theorem Kept.refuses {p : Phase} {seen : History Cmd.Res} {db : Db} {c : Cmd}
    (h : Kept numberText toLowerCase tenantId entity p seen db) (hp : p = .checked ∨ p = .gaveUp) (hc : Refuses c) :
    Kept numberText toLowerCase tenantId entity (next numberText toLowerCase entity p c (exec c db).2)
      (⟨c, (exec c db).2⟩ :: seen) (exec c db).1 := by
  obtain ⟨outcome, rfl, hne⟩ := hc
  have hnext : next numberText toLowerCase entity p (.reply outcome) () = p := by
    rcases hp with rfl | rfl <;> rfl
  change Kept _ _ _ _ (next numberText toLowerCase entity p (.reply outcome) ()) _ db
  rw [hnext]
  have hnone : ¬Returned seen := by
    intro hreturned
    rcases hp with rfl | rfl <;> cases h.returned hreturned
  have hafter := not_returned_cons (r := ()) hnone fun heq => hne (Cmd.reply.inj heq)
  exact ⟨fun hpast => hasRead_cons _ (h.read hpast), fun hreturned => absurd hreturned hafter, h.flows, h.absent⟩

/-- What one move of the deleting thread keeps. -/
theorem Kept.own {p : Phase} {seen : History Cmd.Res} {db : Db} {c : Cmd}
    (h : Kept numberText toLowerCase tenantId entity p seen db) (hfree : p ≠ .free) (hallows : allows tenantId entity p c)
    (hspelled : c = .listFlowStructures tenantId → ∀ flow ∈ db.listFlowStructures tenantId,
      ∀ node ∈ nodesOf flow.structure_, resolves numberText toLowerCase entity node = true →
        found numberText toLowerCase entity node ≠ some false) :
    Kept numberText toLowerCase tenantId entity (next numberText toLowerCase entity p c (exec c db).2)
      (⟨c, (exec c db).2⟩ :: seen) (exec c db).1 := by
  cases p with
  | free => exact absurd rfl hfree
  | reading =>
    rcases hallows with ⟨id, hread⟩ | rfl
    · have hnone : ¬Returned seen := fun hreturned => nomatch h.returned hreturned
      rcases hread with rfl | rfl | rfl
      all_goals exact ⟨nofun, fun hreturned => absurd hreturned (not_returned_cons hnone nofun), nofun, nofun⟩
    · have hnone : ¬Returned seen := fun hreturned => nomatch h.returned hreturned
      change Kept _ _ _ _ (next numberText toLowerCase entity .reading (.listFlowStructures tenantId)
        (db.listFlowStructures tenantId)) _ db
      rw [next_reading]
      split
      · rename_i hcheck
        refine ⟨fun _ => ⟨_, List.mem_cons_self ..⟩, fun hreturned => absurd hreturned (not_returned_cons hnone nofun),
          fun _ flow hflow node hnode => ?_, nofun⟩
        rw [← Bool.not_eq_true]
        intro hresolves
        exact hspelled rfl flow hflow node hnode hresolves (flowsWhere_nil hcheck flow hflow node hnode)
      · exact ⟨nofun, fun hreturned => absurd hreturned (not_returned_cons hnone nofun), nofun, nofun⟩
  | checked =>
    rcases hallows with rfl | hrefuses
    · have hne : deleteCmd tenantId entity ≠ .reply .deleted := by cases entity <;> exact nofun
      have hnone : ¬Returned seen := fun hreturned => nomatch h.returned hreturned
      have hflows := (h.flows rfl).exec (deleteCmd tenantId entity) fun flow hc => by cases entity <;> cases hc
      rcases next_checked numberText toLowerCase tenantId entity db with ⟨hnext, habsent⟩ | hnext
      · rw [hnext]
        exact ⟨fun _ => hasRead_cons _ (h.read rfl), fun hreturned => absurd hreturned (not_returned_cons hnone hne),
          fun _ => hflows, fun _ => habsent⟩
      · rw [hnext]
        exact ⟨nofun, fun hreturned => absurd hreturned (not_returned_cons hnone hne), nofun, nofun⟩
    · exact h.refuses (.inl rfl) hrefuses
  | removed =>
    cases hallows
    exact ⟨fun _ => hasRead_cons _ (h.read rfl), fun _ => rfl, fun _ => h.flows rfl, fun _ => h.absent (.inl rfl)⟩
  | returned => exact hallows.elim
  | gaveUp => exact h.refuses (.inr rfl) hallows

/-- Thread `i` deletes, in a configuration of a run. -/
structure Sound (numberText : Number → Text) (toLowerCase : Text → Text) (tenantId : Nat) (entity : Entity) (i : ι)
    (cfg : Config Cmd.Res Db ι) : Prop where
  conforms : (protocol numberText toLowerCase tenantId entity).Conforms (fun _ => True) (init i) cfg
  own : (protocol numberText toLowerCase tenantId entity).phases (init i) cfg i ≠ Phase.free
  kept : Kept numberText toLowerCase tenantId entity
    ((protocol numberText toLowerCase tenantId entity).phases (init i) cfg i) (cfg.threads i).seen cfg.state

theorem next_ne_free {p : Phase} (h : p ≠ .free) (c : Cmd) (r : c.Res) : next numberText toLowerCase entity p c r ≠ .free := by
  unfold next
  split
  · split <;> exact nofun
  · split <;> exact nofun
  · split <;> exact nofun
  · exact nofun
  · exact h

theorem Sound.step {i : ι} {cfg : Config Cmd.Res Db ι} (h : Sound numberText toLowerCase tenantId entity i cfg) (j : ι)
    (hcareful : Careful numberText toLowerCase tenantId entity i cfg j) :
    Sound numberText toLowerCase tenantId entity i (Concurrency.step exec cfg j) := by
  cases hprog : (cfg.threads j).prog with
  | ret => rwa [step_ret exec hprog]
  | call c k =>
    have hnext : cfg.next j = some c := Config.next_eq_some.mpr ⟨k, hprog⟩
    have hphases := (protocol numberText toLowerCase tenantId entity).phases_step (init i) exec hprog
    have hconforms := h.conforms.step exec j
    have hallows := h.conforms.allows hprog
    refine ⟨hconforms, ?_, ?_⟩
    · rw [hphases]
      by_cases hj : i = j
      · subst hj
        rw [Function.update_self]
        exact next_ne_free h.own c _
      · rw [Function.update_of_ne hj]
        exact h.own
    · rw [hphases, step_call exec hprog]
      by_cases hj : i = j
      · subst hj
        simp only [Function.update_self]
        refine h.kept.own h.own hallows fun hc => ?_
        rw [hc] at hnext
        exact hcareful.spelled rfl hnext
      · simp only [Function.update_of_ne hj]
        refine h.kept.other c fun flow hc => ?_
        rw [hc] at hnext
        exact hcareful.written flow hnext

theorem sound_spawn (db : Db) {progs : ι → Prog Cmd.Res Unit} {i : ι}
    (hdelete : progs i = delete numberText toLowerCase tenantId entity) :
    Sound numberText toLowerCase tenantId entity i (Config.spawn db progs) := by
  have hinit : init i i = .reading := if_pos rfl
  refine ⟨Protocol.conforms_spawn fun j => ?_, ?_, ?_⟩
  · by_cases hj : j = i
    · subst hj
      rw [hinit, hdelete]
      exact follows_delete numberText toLowerCase tenantId entity
    · have hfree : init i j = .free := if_neg hj
      rw [hfree]
      exact follows_free numberText toLowerCase tenantId entity (progs j)
  · rw [Protocol.phases_spawn, hinit]
    exact nofun
  · rw [Protocol.phases_spawn, hinit]
    exact ⟨nofun, nofun, nofun, nofun⟩

/-! ## Afterwards -/

theorem refers_ne {α : Type} {t : Table α} {key : Option Nat} (h : Refers t key) {id : Nat} (hnone : t.get id = none) :
    key ≠ some id := by
  intro hkey
  have hsome := h id hkey
  rw [hnone] at hsome
  cases hsome

/-- A transfer leads to its target, or without one to its call's queue. -/
theorem resolvesToQueue_cases {queueId : Option Nat} {node : Json} {id : Nat}
    (h : resolvesToQueue numberText toLowerCase queueId node id = true) :
    queueId = some id ∨ resolvesToQueue numberText toLowerCase none node id = true := by
  obtain ⟨htransfer, htarget⟩ := Bool.and_eq_true_iff.mp h
  have htarget := of_decide_eq_true htarget
  unfold targetQueue at htarget
  split at htarget
  · rename_i targetType targetId htype hid
    split at htarget
    · cases htarget
    · rename_i hagent
      cases targetId with
      | none =>
        obtain ⟨id', rfl, hid'⟩ := Option.map_eq_some_iff.mp htarget
        exact .inl (congrArg some (by exact_mod_cast Number.fin.inj hid'))
      | some x =>
        refine .inr (Bool.and_eq_true_iff.mpr ⟨htransfer, decide_eq_true ?_⟩)
        unfold targetQueue
        rw [htype, hid]
        simp only [hagent, if_false]
        exact htarget
  · cases htarget

theorem clean_of_absent {db : Db} (hflows : FlowsClean numberText toLowerCase tenantId entity db)
    (habsent : Absent entity db) : Clean numberText toLowerCase tenantId entity db := by
  cases entity with
  | queue id =>
    have hchannels : ∀ c ∈ db.channels, c.inboundQueueId ≠ some id := fun c hc => refers_ne (db.inboundQueue c hc) habsent.1
    refine ⟨hchannels, fun other row hrow => refers_ne (db.overflowQueue other row hrow) habsent.1,
      fun flow hflow node hnode queueId hqueue => ?_⟩
    rw [← Bool.not_eq_true]
    intro hresolves
    rcases resolvesToQueue_cases hresolves with rfl | hresolves
    · rcases List.mem_cons.mp hqueue with hnone | hchannel
      · cases hnone
      · obtain ⟨c, hc, hid⟩ := List.mem_map.mp hchannel
        exact hchannels c hc hid
    · exact absurd ((hflows flow hflow node hnode).symm.trans hresolves) nofun
  | audioAsset id =>
    exact ⟨fun other row hrow => refers_ne (db.holdAudio other row hrow) habsent.1, hflows⟩

end

/-- In a run in which the check finds what resolves when it reads the flows, and no
flow that resolves is written after it, a delete that returned that it deleted leaves
nothing that leads to what it deleted. -/
theorem noDangling (numberText : Number → Text) (toLowerCase : Text → Text) {ι : Type} [DecidableEq ι] (db : Db)
    (progs : ι → Prog Cmd.Res Unit) (schedule : List ι) (i : ι) (tenantId : Nat) (entity : Entity)
    (hdelete : progs i = delete numberText toLowerCase tenantId entity)
    (hcareful : ∀ m ∈ moves exec (Config.spawn db progs) schedule,
      Careful numberText toLowerCase tenantId entity i m.1 m.2)
    (hreturned : Returned ((run exec (Config.spawn db progs) schedule).threads i).seen) :
    Clean numberText toLowerCase tenantId entity (run exec (Config.spawn db progs) schedule).state := by
  have hsound := (invariant_run exec (Sound numberText toLowerCase tenantId entity i)
    (Careful numberText toLowerCase tenantId entity i) (fun cfg j h hcareful => h.step j hcareful)
    (sound_spawn db hdelete) hcareful).1
  have hphase := hsound.kept.returned hreturned
  exact clean_of_absent (hsound.kept.flows (by rw [hphase]; rfl)) (hsound.kept.absent (.inr hphase))

/-! ## A target in another spelling -/

/-- `Number::toString` on ids. -/
def idText : Number → Text
  | .fin q => Nat.toDigits 10 q.num.natAbs
  | _ => []

/-- One queue, and a flow of one transfer. -/
def transferring (targetId : String) : Db :=
  (Db.empty.upsertQueue ⟨1, "sales".toList, none, none⟩).1.upsertFlow ⟨1, "menu".toList, .object [("nodes".toList,
    .list [.object [("type".toList, .string "ivr_transfer".toList),
      ("data".toList, .object [("targetId".toList, .string targetId.toList)])]])]⟩

/-- The only queue goes, while a flow transfers to another. -/
theorem noDangling_other :
    Clean idText id 1 (.queue 1) (run exec (Config.spawn (transferring "2") fun _ : Unit =>
      delete idText id 1 (.queue 1)) (List.replicate 5 ())).state := by
  apply noDangling idText id (transferring "2") _ _ () 1 (.queue 1) rfl
  · have hnode : resolves idText id (.queue 1) (.object [("type".toList, .string "ivr_transfer".toList),
        ("data".toList, .object [("targetId".toList, .string "2".toList)])]) = false := by decide +kernel
    have hclean : FlowsClean idText id 1 (.queue 1) (transferring "2") :=
      List.forall_mem_singleton.mpr (List.forall_mem_singleton.mpr hnode)
    refine List.forall_mem_cons.mpr ⟨⟨fun _ => nofun, fun _ => nofun⟩, List.forall_mem_cons.mpr
      ⟨⟨fun _ => nofun, fun _ => nofun⟩, List.forall_mem_cons.mpr ⟨⟨fun _ _ flow hflow node hnode hresolves => ?_,
        fun _ => nofun⟩, List.forall_mem_cons.mpr ⟨⟨fun _ => nofun, fun _ => nofun⟩, List.forall_mem_cons.mpr
          ⟨⟨fun _ => nofun, fun _ => nofun⟩, nofun⟩⟩⟩⟩⟩
    exact absurd ((hclean flow hflow node hnode).symm.trans hresolves) nofun
  · exact List.mem_cons_self ..

/-- A target `'01'` is not the text of queue 1, but the number. -/
theorem not_noDangling_spelled : ¬∀ (db : Db) (schedule : List Unit),
    Returned ((run exec (Config.spawn db fun _ => delete idText id 1 (.queue 1)) schedule).threads ()).seen →
      Clean idText id 1 (.queue 1) (run exec (Config.spawn db fun _ => delete idText id 1 (.queue 1)) schedule).state := by
  intro hclaim
  have hclean := hclaim (transferring "01") (List.replicate 5 ()) (List.mem_cons_self ..)
  have hnode := hclean.2.2 _ (List.mem_cons_self ..) _ (List.mem_cons_self ..) none (List.mem_cons_self ..)
  exact absurd hnode (by decide +kernel)

end Callio.EntityDeletion
