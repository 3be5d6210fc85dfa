import Callio.Cluster.Tasks

/-! What one operation does to a worker's calls, and to a call's keys. -/

namespace Callio.Inbox

namespace Cluster

variable (w : Cluster) (n c m d : Nat)

/-! ## What a worker owns -/

@[simp] theorem own_setOwned (owned : AList fun _ : Nat => Own) :
    (w.setOwned n owned).own m d = if m = n then owned.lookup d else w.own m d := by
  by_cases h : m = n
  · subst h
    simp [own, setOwned, setNode]
  · simp [own, setOwned, setNode, h]

@[simp] theorem own_send (s : Sent) : (w.send n s).own m d = w.own m d := by
  by_cases h : m = n
  · subst h
    simp [own, send, setNode]
  · simp [own, send, setNode, h]

@[simp] theorem own_serve (s : Sent) : (w.serve n s).own m d = w.own m d := by
  cases s with
  | setCursor c lastId => rfl
  | releaseLease c =>
    simp only [serve]
    split <;> rfl

theorem own_insert (own' : Own) : (w.setOwned n ((w.nodes n).owned.insert c own')).own m d =
    if m = n ∧ d = c then some own' else w.own m d := by
  rw [own_setOwned]
  by_cases hm : m = n
  · subst hm
    by_cases hd : d = c
    · subst hd
      simp [AList.lookup_insert]
    · simp [AList.lookup_insert_ne hd, hd, own]
  · simp [hm]

theorem own_erase : (w.setOwned n ((w.nodes n).owned.erase c)).own m d =
    if m = n ∧ d = c then none else w.own m d := by
  rw [own_setOwned]
  by_cases hm : m = n
  · subst hm
    by_cases hd : d = c
    · subst hd
      simp [AList.lookup_erase]
    · simp [AList.lookup_erase_ne hd, hd, own]
  · simp [hm]

@[simp] theorem own_hand (entries : List Entry) : (w.hand n c entries).own m d = w.own m d := by
  by_cases h : m = n
  · subst h
    simp [own, hand, setNode]
  · simp [own, hand, setNode, h]

@[simp] theorem own_serveNext : (w.serveNext n).own m d = w.own m d := by
  unfold serveNext
  split
  · rfl
  · rw [own_serve]
    by_cases h : m = n
    · subst h
      simp [own, setNode]
    · simp [own, setNode, h]

variable {w n c} in
/-- A delivery goes through if the handler is set. -/
theorem deliver_ok (entries : List Entry) (h : ∀ own, w.own n c = some own → own.handler = true) :
    (w.deliver n c entries).2 = true := by
  unfold deliver
  split
  · rename_i own last hown hlast
    rw [if_pos (h own hown)]
  · rfl

variable {w n} in
/-- What serving one command preserves, serving all of them does. -/
theorem flush_induction {P : Cluster → Prop} (h : ∀ w, P w → P (w.serveNext n)) (hw : P w) :
    P (w.flush n) := by
  unfold flush
  generalize (w.nodes n).sent.length = k
  induction k generalizing w with
  | zero => exact hw
  | succ k ih => exact ih (h w hw)

@[simp] theorem own_flush : (w.flush n).own m d = w.own m d :=
  flush_induction (P := fun w' => w'.own m d = w.own m d) (fun w' h => (own_serveNext w' n m d).trans h) rfl

end Cluster

/-- How an operation leaves worker `n`'s registration of call `c`. -/
inductive OnOwn (w : Cluster) (n c : Nat) (op : Op) (w' : Cluster) : Prop
  | same (h : w'.own n c = w.own n c)
  | registered (lastId : Nat) (hs : op = .register n c lastId) (h : w'.own n c = some ⟨lastId, false⟩)
  | handled (own : Own) (hs : op = .setHandler n c) (hown : w.own n c = some own)
      (h : w'.own n c = some { own with handler := true })
  | dropped (hs : op = .unregister n c ∨ op = .lose n c) (h : w'.own n c = none)
  | took (own : Own) (entries : List Entry) (last : Entry) (hs : op = .deliver n c entries)
      (hown : w.own n c = some own) (hhandler : own.handler = true) (hlast : entries.getLast? = some last)
      (h : w'.own n c = some { own with lastId := last.id })
  | threw (own : Own) (entries : List Entry) (lastId : Nat) (hs : op = .deliver n c entries)
      (hown : w.own n c = some own) (hhandler : own.handler = false)
      (h : w'.own n c = some { own with lastId })

theorem onOwn (w : Cluster) (n c : Nat) (op : Op) : OnOwn w n c op (op.exec w).1 := by
  cases op with
  | flush m => exact .same (w.own_flush m n c)
  | serveNext m => exact .same (w.own_serveNext m n c)
  | setLease m d =>
    refine .same ?_
    simp only [Op.exec]
    split <;> rfl
  | register m d lastId =>
    by_cases h : n = m ∧ c = d
    · obtain ⟨rfl, rfl⟩ := h
      exact .registered lastId rfl (by simp [Op.exec, w.own_insert])
    · exact .same (by simp [Op.exec, w.own_insert, h])
  | setHandler m d =>
    cases hown : w.own m d with
    | none => exact .same (by simp [Op.exec, hown])
    | some own =>
      by_cases h : n = m ∧ c = d
      · obtain ⟨rfl, rfl⟩ := h
        exact .handled own rfl hown (by simp [Op.exec, hown, w.own_insert])
      · exact .same (by simp [Op.exec, hown, w.own_insert, h])
  | unregister m d =>
    by_cases hown : (w.own m d).isSome
    · by_cases h : n = m ∧ c = d
      · obtain ⟨rfl, rfl⟩ := h
        exact .dropped (.inl rfl) (by simp [Op.exec, hown, w.own_erase])
      · exact .same (by simp [Op.exec, hown, w.own_erase, h])
    · exact .same (by simp [Op.exec, hown])
  | lose m d =>
    by_cases h : n = m ∧ c = d
    · obtain ⟨rfl, rfl⟩ := h
      exact .dropped (.inr rfl) (by simp [Op.exec, w.own_erase])
    · exact .same (by simp [Op.exec, w.own_erase, h])
  | deliver m d entries =>
    cases hown : w.own m d with
    | none => exact .same (by simp [Op.exec, Cluster.deliver, hown])
    | some own =>
      cases hlast : entries.getLast? with
      | none => exact .same (by simp [Op.exec, Cluster.deliver, hown, hlast])
      | some last =>
        by_cases h : n = m ∧ c = d
        · obtain ⟨rfl, rfl⟩ := h
          by_cases hhandler : own.handler
          · exact .took own entries last rfl hown hhandler hlast
              (by simp [Op.exec, Cluster.deliver, hown, hhandler, hlast, w.own_insert])
          · exact .threw own entries ((entries.head?.map (·.id)).getD own.lastId) rfl hown (by simpa using hhandler)
              (by simp [Op.exec, Cluster.deliver, hown, hhandler, hlast, w.own_insert])
        · by_cases hhandler : own.handler
          · exact .same (by simp [Op.exec, Cluster.deliver, hown, hhandler, hlast, w.own_insert, h])
          · exact .same (by simp [Op.exec, Cluster.deliver, hown, hhandler, hlast, w.own_insert, h])
  | takeInput m =>
    refine .same ?_
    simp only [Op.exec]
    split
    · rfl
    · by_cases h : n = m
      · subst h
        simp [Cluster.own, Cluster.setNode]
      · simp [Cluster.own, Cluster.setNode, h]
  | commitEnd d passes =>
    refine .same ?_
    simp only [Op.exec]
    split <;> rfl
  | _ => exact .same rfl

/-! ## The log -/

/-- Inboxes, rows, and what was posted and handed out are as they were. -/
structure SameLog (w w' : Cluster) : Prop where
  inbox : w'.inbox = w.inbox
  nextId : w'.nextId = w.nextId
  ended : w'.ended = w.ended
  posted : w'.posted = w.posted
  handed : w'.handed = w.handed
  purged : w'.purged = w.purged

theorem SameLog.refl (w : Cluster) : SameLog w w := ⟨rfl, rfl, rfl, rfl, rfl, rfl⟩

theorem SameLog.trans {w w' w'' : Cluster} (h : SameLog w w') (h' : SameLog w' w'') : SameLog w w'' :=
  ⟨h'.inbox.trans h.inbox, h'.nextId.trans h.nextId, h'.ended.trans h.ended, h'.posted.trans h.posted,
    h'.handed.trans h.handed, h'.purged.trans h.purged⟩

/-- The operations that write to the log. -/
def Op.logs : Op → Bool
  | post _ _ | purge _ | deliver _ _ _ | commitEnd _ _ => true
  | _ => false

namespace Cluster

variable (w : Cluster) (n c : Nat)

theorem serve_sameLog (s : Sent) : SameLog w (w.serve n s) := by
  cases s with
  | setCursor c lastId => exact ⟨rfl, rfl, rfl, rfl, rfl, rfl⟩
  | releaseLease c =>
    simp only [serve]
    split <;> exact ⟨rfl, rfl, rfl, rfl, rfl, rfl⟩

theorem serveNext_sameLog : SameLog w (w.serveNext n) := by
  unfold serveNext
  split
  · exact .refl w
  · rename_i s rest _
    have hpop : SameLog w (w.setNode n { w.nodes n with sent := rest }) := ⟨rfl, rfl, rfl, rfl, rfl, rfl⟩
    exact hpop.trans (serve_sameLog _ n s)

theorem flush_sameLog : SameLog w (w.flush n) :=
  flush_induction (P := fun w' => SameLog w w') (fun w' h => h.trans (serveNext_sameLog w' n)) (.refl w)

end Cluster

theorem Op.exec_sameLog {op : Op} (h : op.logs = false) (w : Cluster) : SameLog w (op.exec w).1 := by
  cases op with
  | post _ _ | purge _ | deliver _ _ _ | commitEnd _ _ => cases h
  | flush n => exact w.flush_sameLog n
  | serveNext n => exact w.serveNext_sameLog n
  | setLease n c =>
    simp only [exec]
    split <;> exact ⟨rfl, rfl, rfl, rfl, rfl, rfl⟩
  | setHandler n c =>
    simp only [exec]
    split <;> exact ⟨rfl, rfl, rfl, rfl, rfl, rfl⟩
  | unregister n c =>
    simp only [exec]
    split <;> exact ⟨rfl, rfl, rfl, rfl, rfl, rfl⟩
  | takeInput n =>
    simp only [exec]
    split <;> exact ⟨rfl, rfl, rfl, rfl, rfl, rfl⟩
  | _ => exact ⟨rfl, rfl, rfl, rfl, rfl, rfl⟩

/-! ## Deliveries -/

namespace Cluster

variable {w : Cluster} {n c : Nat} {own : Own} {entries : List Entry} {last : Entry}

theorem deliver_took (hown : w.own n c = some own) (hhandler : own.handler = true)
    (hlast : entries.getLast? = some last) :
    w.deliver n c entries =
      ((((w.setOwned n ((w.nodes n).owned.insert c { own with lastId := last.id })).hand n c entries).send n
        (.setCursor c last.id)), true) := by
  simp [deliver, hown, hhandler, hlast]

end Cluster

/-- What is delivered to a handler is handed out. -/
theorem Cluster.mem_handed_deliver {w : Cluster} {n c : Nat} {own : Own} {entries : List Entry} {e : Entry}
    (hown : w.own n c = some own) (hhandler : own.handler = true) (he : e ∈ entries) :
    ⟨n, c, e⟩ ∈ (w.deliver n c entries).1.handed := by
  cases hlast : entries.getLast? with
  | none =>
    rw [List.getLast?_eq_none_iff] at hlast
    subst hlast
    cases he
  | some last =>
    rw [deliver_took hown hhandler hlast]
    exact List.mem_append_left _ (List.mem_reverse.mpr (List.mem_map_of_mem he))

/-- What was handed out stays so. -/
theorem Op.handed_mono (op : Op) (w : Cluster) {x : Handed} (hx : x ∈ w.handed) : x ∈ (op.exec w).1.handed := by
  by_cases hop : op.logs = false
  · rw [(exec_sameLog hop w).handed]
    exact hx
  cases op with
  | deliver n c entries =>
    show x ∈ (w.deliver n c entries).1.handed
    unfold Cluster.deliver
    split
    · split
      · exact List.mem_append_right _ hx
      · exact hx
    · exact hx
  | commitEnd c passes =>
    simp only [exec]
    split <;> exact hx
  | post _ _ | purge _ => exact hx
  | _ => exact absurd rfl hop

theorem Op.ended_mono (op : Op) (w : Cluster) {c : Nat} (hc : w.ended c = true) : (op.exec w).1.ended c = true := by
  by_cases hop : op.logs = false
  · rw [(exec_sameLog hop w).ended]
    exact hc
  cases op with
  | commitEnd d passes =>
    simp only [exec]
    split
    · by_cases hd : c = d
      · subst hd
        simp
      · show Function.update w.ended d true c = true
        rw [Function.update_of_ne hd]
        exact hc
    · exact hc
  | deliver n d entries =>
    show (w.deliver n d entries).1.ended c = true
    unfold Cluster.deliver
    split
    · split <;> exact hc
    · exact hc
  | post _ _ | purge _ => exact hc
  | _ => exact absurd rfl hop

theorem Op.nextId_mono (op : Op) (w : Cluster) : w.nextId ≤ (op.exec w).1.nextId := by
  by_cases hop : op.logs = false
  · rw [(exec_sameLog hop w).nextId]
  cases op with
  | post d input => exact Nat.le_succ _
  | commitEnd d passes =>
    simp only [exec]
    split <;> exact le_rfl
  | deliver n d entries =>
    show w.nextId ≤ (w.deliver n d entries).1.nextId
    unfold Cluster.deliver
    split
    · split <;> exact le_rfl
    · exact le_rfl
  | purge _ => exact le_rfl
  | _ => exact absurd rfl hop

/-- What is posted, just now or before. -/
theorem Op.mem_posted {op : Op} {w : Cluster} {c : Nat} {e : Entry} (h : (c, e) ∈ (op.exec w).1.posted) :
    (c, e) ∈ w.posted ∨ op = .post c e.input ∧ e.id = w.nextId := by
  by_cases hop : op.logs = false
  · rw [(exec_sameLog hop w).posted] at h
    exact .inl h
  cases op with
  | post d input =>
    obtain heq | hmem := List.mem_cons.mp h
    · cases heq
      exact .inr ⟨rfl, rfl⟩
    · exact .inl hmem
  | commitEnd d passes =>
    left
    simp only [exec] at h
    split at h <;> exact h
  | deliver n d entries =>
    left
    change (c, e) ∈ (w.deliver n d entries).1.posted at h
    unfold Cluster.deliver at h
    split at h
    · split at h <;> exact h
    · exact h
  | purge d => exact .inl h
  | _ => exact absurd rfl hop

theorem Op.posted_mono (op : Op) (w : Cluster) {x : Nat × Entry} (hx : x ∈ w.posted) : x ∈ (op.exec w).1.posted := by
  by_cases hop : op.logs = false
  · rw [(exec_sameLog hop w).posted]
    exact hx
  cases op with
  | post d input => exact List.mem_cons_of_mem _ hx
  | commitEnd d passes =>
    simp only [exec]
    split <;> exact hx
  | deliver n d entries =>
    show x ∈ (w.deliver n d entries).1.posted
    unfold Cluster.deliver
    split
    · split <;> exact hx
    · exact hx
  | purge _ => exact hx
  | _ => exact absurd rfl hop

/-- How an operation leaves the inbox of call `c`. -/
inductive OnInbox (w : Cluster) (c : Nat) (op : Op) (w' : Cluster) : Prop
  | same (h : w'.inbox c = w.inbox c) (hpurge : op ≠ .purge c)
  | posted (input : Input) (hs : op = .post c input)
      (h : w'.inbox c = Cluster.append (w.inbox c) ⟨w.nextId, input⟩)
  | purged (hs : op = .purge c) (h : w'.inbox c = [])

theorem onInbox (w : Cluster) (c : Nat) (op : Op) : OnInbox w c op (op.exec w).1 := by
  by_cases hop : op.logs = false
  · refine .same (congrFun (Op.exec_sameLog hop w).inbox c) ?_
    rintro rfl
    cases hop
  cases op with
  | post d input =>
    by_cases hd : c = d
    · subst hd
      exact .posted input rfl (Function.update_self ..)
    · exact .same (Function.update_of_ne hd ..) (by simp)
  | purge d =>
    by_cases hd : c = d
    · subst hd
      exact .purged rfl (Function.update_self ..)
    · exact .same (Function.update_of_ne hd ..) (by simp [Ne.symm hd])
  | commitEnd d passes =>
    refine .same ?_ (by simp)
    simp only [Op.exec]
    split <;> rfl
  | deliver n d entries =>
    refine .same ?_ (by simp)
    show (w.deliver n d entries).1.inbox c = w.inbox c
    unfold Cluster.deliver
    split
    · split <;> rfl
    · rfl
  | _ => exact absurd rfl hop

theorem mem_append {entries : List Entry} {e x : Entry} (h : x ∈ Cluster.append entries e) :
    x ∈ entries ∨ x = e := by
  simpa using List.mem_of_mem_drop h

/-- An entry is kept as long as there are fewer than `maxLen` from it on. -/
theorem mem_append_of_count {entries : List Entry} {p : Entry → Bool} {e x : Entry} (he : e ∈ entries)
    (hsorted : entries.Pairwise fun e e' => e.id < e'.id) (hp : ∀ e' ∈ entries, e.id ≤ e'.id → p e' = true)
    (hcount : entries.countP p < maxLen) : e ∈ Cluster.append entries x := by
  obtain ⟨front, rest, rfl⟩ := List.append_of_mem he
  have hlater : ∀ e' ∈ e :: rest, p e' = true := by
    intro e' he'
    refine hp e' (List.mem_append_right _ he') ?_
    obtain rfl | hrest := List.mem_cons.mp he'
    · exact le_rfl
    · exact ((List.pairwise_cons.mp (List.pairwise_append.mp hsorted).2.1).1 e' hrest).le
  have hlen : (e :: rest).length ≤ (front ++ e :: rest).countP p := by
    rw [List.countP_append, List.countP_eq_length.mpr hlater]
    exact Nat.le_add_left _ _
  unfold Cluster.append
  rw [List.append_assoc, List.drop_append_of_le_length]
  · exact List.mem_append_right _ (by simp)
  · simp only [List.length_append]
    omega

/-- What was posted last is kept. -/
theorem mem_append_self (entries : List Entry) (e : Entry) : e ∈ Cluster.append entries e := by
  unfold Cluster.append
  rw [List.drop_append_of_le_length (by simp [maxLen])]
  simp

namespace Cluster

variable (w : Cluster) (n m : Nat)

@[simp] theorem inputs_setOwned (owned : AList fun _ : Nat => Own) :
    ((w.setOwned n owned).nodes m).inputs = (w.nodes m).inputs := by
  by_cases h : m = n
  · subst h
    simp [setOwned, setNode]
  · simp [setOwned, setNode, h]

@[simp] theorem inputs_send (s : Sent) : ((w.send n s).nodes m).inputs = (w.nodes m).inputs := by
  by_cases h : m = n
  · subst h
    simp [send, setNode]
  · simp [send, setNode, h]

@[simp] theorem nodes_serve (s : Sent) : (w.serve n s).nodes = w.nodes := by
  cases s with
  | setCursor d lastId => rfl
  | releaseLease d =>
    simp only [serve]
    split <;> rfl

@[simp] theorem inputs_serveNext : ((w.serveNext n).nodes m).inputs = (w.nodes m).inputs := by
  unfold serveNext
  split
  · rfl
  · rw [nodes_serve]
    by_cases h : m = n
    · subst h
      simp [setNode]
    · simp [setNode, h]

@[simp] theorem inputs_flush : ((w.flush n).nodes m).inputs = (w.nodes m).inputs :=
  flush_induction (P := fun w' => (w'.nodes m).inputs = (w.nodes m).inputs)
    (fun w' h => (inputs_serveNext w' n m).trans h) rfl

theorem mem_inputs_hand {c : Nat} {entries : List Entry} {x : Nat × Input}
    (h : x ∈ ((w.hand n c entries).nodes m).inputs) :
    x ∈ (w.nodes m).inputs ∨ m = n ∧ x.1 = c ∧ ∃ e ∈ entries, e.input = x.2 := by
  by_cases hm : m = n
  · subst hm
    have hmem : x ∈ (w.nodes m).inputs ++ entries.map fun e : Entry => (c, e.input) := by
      simpa [hand, setNode] using h
    obtain hmem | hmem := List.mem_append.mp hmem
    · exact .inl hmem
    · obtain ⟨e, he, rfl⟩ := List.mem_map.mp hmem
      exact .inr ⟨rfl, rfl, e, he, rfl⟩
  · left
    simpa [hand, setNode, hm] using h

end Cluster

/-- An input that a worker is to run was to be run before, or has just been
delivered. -/
theorem Op.mem_inputs {op : Op} {w : Cluster} {n : Nat} {x : Nat × Input}
    (h : x ∈ ((op.exec w).1.nodes n).inputs) :
    x ∈ (w.nodes n).inputs ∨ ∃ entries, op = .deliver n x.1 entries ∧ ∃ e ∈ entries, e.input = x.2 := by
  cases op with
  | flush m => exact .inl (by simpa [exec] using h)
  | serveNext m => exact .inl (by simpa [exec] using h)
  | register m c lastId => exact .inl (by simpa [exec] using h)
  | lose m c => exact .inl (by simpa [exec] using h)
  | setLease m c =>
    left
    simp only [exec] at h
    split at h <;> exact h
  | setHandler m c =>
    left
    simp only [exec] at h
    split at h
    · exact h
    · simpa using h
  | unregister m c =>
    left
    simp only [exec] at h
    split at h
    · simpa using h
    · exact h
  | commitEnd c passes =>
    left
    simp only [exec] at h
    split at h <;> exact h
  | takeInput m =>
    left
    simp only [exec] at h
    split at h
    · exact h
    · rename_i input rest hinputs
      by_cases hn : n = m
      · subst hn
        rw [hinputs]
        exact List.mem_cons_of_mem _ (by simpa [Cluster.setNode] using h)
      · simpa [Cluster.setNode, hn] using h
  | deliver m c entries =>
    change x ∈ ((w.deliver m c entries).1.nodes n).inputs at h
    unfold Cluster.deliver at h
    split at h
    · split at h
      · rw [Cluster.inputs_send] at h
        obtain hmem | ⟨rfl, rfl, hentry⟩ := Cluster.mem_inputs_hand _ _ _ h
        · exact .inl (by simpa using hmem)
        · exact .inr ⟨entries, rfl, hentry⟩
      · exact .inl (by simpa using h)
    · exact .inl h
  | _ => exact .inl h

/-! ## Reads -/

namespace Cluster

variable {w : Cluster} {n c : Nat}

theorem mem_streams {lastId : Nat} :
    (c, lastId) ∈ w.streams n ↔ ∃ own, w.own n c = some own ∧ own.handler = true ∧ own.lastId = lastId := by
  unfold streams own
  constructor
  · intro h
    obtain ⟨⟨d, own⟩, hmem, heq⟩ := List.mem_map.mp h
    obtain ⟨hmem, hhandler⟩ := List.mem_filter.mp hmem
    cases heq
    exact ⟨own, AList.mem_lookup_iff.mpr hmem, hhandler, rfl⟩
  · rintro ⟨own, hown, hhandler, rfl⟩
    exact List.mem_map.mpr ⟨⟨c, own⟩, List.mem_filter.mpr ⟨AList.mem_lookup_iff.mp hown, hhandler⟩, rfl⟩

theorem streams_nodup (w : Cluster) (n : Nat) : ((w.streams n).map (·.1)).Nodup := by
  unfold streams
  rw [List.map_map]
  have hkeys : (((w.nodes n).owned.entries).map Sigma.fst).Nodup := (w.nodes n).owned.nodupKeys
  exact hkeys.sublist (List.Sublist.map _ List.filter_sublist)

theorem xread_nodup (w : Cluster) {from_ : List (Nat × Nat)} (h : (from_.map (·.1)).Nodup) :
    ((w.xread from_).map (·.1)).Nodup := by
  unfold xread
  refine List.Nodup.sublist (List.Sublist.map _ List.filter_sublist) ?_
  rw [List.map_map]
  exact h

theorem mem_xread {from_ : List (Nat × Nat)} {entries : List Entry} :
    (c, entries) ∈ w.xread from_ ↔
      ∃ lastId, (c, lastId) ∈ from_ ∧ entries = (w.inbox c).filter (lastId < ·.id) ∧ entries ≠ [] := by
  unfold xread
  constructor
  · intro h
    obtain ⟨hmem, hne⟩ := List.mem_filter.mp h
    obtain ⟨⟨d, lastId⟩, hfrom, heq⟩ := List.mem_map.mp hmem
    cases heq
    exact ⟨lastId, hfrom, rfl, by simpa using hne⟩
  · rintro ⟨lastId, hfrom, rfl, hne⟩
    exact List.mem_filter.mpr ⟨List.mem_map.mpr ⟨(c, lastId), hfrom, rfl⟩, by simpa using hne⟩

end Cluster

/-! ## Leases -/

namespace Cluster

variable {w : Cluster} {n m c : Nat}

theorem lease_serve {s : Sent} (h : (w.serve m s).lease c = some n) :
    w.lease c = some n ∧ (n = m → s ≠ .releaseLease c) := by
  cases s with
  | setCursor d lastId => exact ⟨h, fun _ hs => by cases hs⟩
  | releaseLease d =>
    simp only [serve] at h
    split at h
    · rename_i hheld
      by_cases hd : c = d
      · subst hd
        simp at h
      · have hheld : Function.update w.lease d none c = some n := h
        rw [Function.update_of_ne hd] at hheld
        exact ⟨hheld, fun _ hs => hd (by cases hs; rfl)⟩
    · rename_i hheld
      refine ⟨h, ?_⟩
      rintro rfl hs
      cases hs
      exact hheld h

/-- The lease of a worker that is to give it up is in its hands until Redis
serves the release. -/
theorem lease_serveNext (h : (w.serveNext m).lease c = some n) :
    w.lease c = some n ∧
      (.releaseLease c ∈ (w.nodes n).sent → .releaseLease c ∈ ((w.serveNext m).nodes n).sent) := by
  unfold serveNext at h ⊢
  split at h
  · rename_i hnil
    exact ⟨h, id⟩
  · rename_i s rest hsent
    obtain ⟨hheld, hs⟩ := lease_serve h
    refine ⟨hheld, fun hmem => ?_⟩
    rw [nodes_serve]
    by_cases hn : n = m
    · subst hn
      rw [hsent] at hmem
      rcases List.mem_cons.mp hmem with rfl | hmem
      · exact absurd rfl (hs rfl)
      · simpa [setNode] using hmem
    · simpa [setNode, hn] using hmem

theorem sent_serveNext (w : Cluster) (n : Nat) :
    ((w.serveNext n).nodes n).sent = (w.nodes n).sent.tail := by
  unfold serveNext
  split
  · rename_i hnil
    rw [hnil]
    rfl
  · rename_i s rest hsent
    rw [nodes_serve, hsent]
    simp [setNode]

/-- Nothing is left to serve. -/
theorem sent_flush (w : Cluster) (n : Nat) : ((w.flush n).nodes n).sent = [] := by
  have hdrop : ∀ k (w : Cluster), (((fun w : Cluster => w.serveNext n)^[k] w).nodes n).sent =
      (w.nodes n).sent.drop k := by
    intro k
    induction k with
    | zero => exact fun w => rfl
    | succ k ih =>
      intro w
      rw [Function.iterate_succ_apply, ih, sent_serveNext, List.drop_tail]
  unfold flush
  rw [hdrop]
  exact List.drop_length

theorem sent_send (s : Sent) : ((w.send n s).nodes m).sent =
    if m = n then (w.nodes m).sent ++ [s] else (w.nodes m).sent := by
  by_cases h : m = n
  · subst h
    simp [send, setNode]
  · simp [send, setNode, h]

@[simp] theorem sent_setOwned (owned : AList fun _ : Nat => Own) :
    ((w.setOwned n owned).nodes m).sent = (w.nodes m).sent := by
  by_cases h : m = n
  · subst h
    simp [setOwned, setNode]
  · simp [setOwned, setNode, h]

@[simp] theorem sent_hand (entries : List Entry) : ((w.hand n c entries).nodes m).sent = (w.nodes m).sent := by
  by_cases h : m = n
  · subst h
    simp [hand, setNode]
  · simp [hand, setNode, h]

/-- A delivery sends the cursor, if it hands anything out. -/
theorem sent_deliver (w : Cluster) (n c m : Nat) (entries : List Entry) :
    ((w.deliver n c entries).1.nodes m).sent = (w.nodes m).sent ∨
      ∃ own last, w.own n c = some own ∧ own.handler = true ∧ entries.getLast? = some last ∧ m = n ∧
        ((w.deliver n c entries).1.nodes m).sent = (w.nodes m).sent ++ [.setCursor c last.id] := by
  cases hown : w.own n c with
  | none =>
    left
    simp [deliver, hown]
  | some own =>
    cases hlast : entries.getLast? with
    | none =>
      left
      simp [deliver, hown, hlast]
    | some last =>
      by_cases hhandler : own.handler = true
      · rw [deliver_took hown hhandler hlast]
        by_cases hm : m = n
        · exact .inr ⟨own, last, rfl, hhandler, rfl, hm, by simp [sent_send, hm]⟩
        · exact .inl (by simp [sent_send, hm])
      · left
        simp [deliver, hown, hlast, hhandler]

end Cluster

/-- Who holds a lease has taken it just now, or held it before; a release that
is to come is still to come. -/
theorem Op.lease_exec (op : Op) (w : Cluster) {n c : Nat} (h : (op.exec w).1.lease c = some n) :
    op = .setLease n c ∨ w.lease c = some n ∧
      (.releaseLease c ∈ (w.nodes n).sent → .releaseLease c ∈ ((op.exec w).1.nodes n).sent) := by
  cases op with
  | flush m =>
    right
    revert h
    refine Cluster.flush_induction (P := fun w' => w'.lease c = some n → w.lease c = some n ∧
      (.releaseLease c ∈ (w.nodes n).sent → .releaseLease c ∈ (w'.nodes n).sent)) ?_ fun h => ⟨h, id⟩
    intro w' ih h
    obtain ⟨hheld, hsent⟩ := Cluster.lease_serveNext h
    exact ⟨(ih hheld).1, fun hmem => hsent ((ih hheld).2 hmem)⟩
  | serveNext m => exact .inr (Cluster.lease_serveNext h)
  | setLease m d =>
    simp only [exec] at h ⊢
    split at h
    · rename_i htaken
      exact .inr ⟨h, by simp [htaken]⟩
    · rename_i hfree
      by_cases hd : c = d
      · subst hd
        simp at h
        exact .inl (h ▸ rfl)
      · have hheld : Function.update w.lease d (some m) c = some n := h
        rw [Function.update_of_ne hd] at hheld
        exact .inr ⟨hheld, by simp [hfree]⟩
  | lapse d =>
    by_cases hd : c = d
    · subst hd
      simp [exec] at h
    · have hheld : Function.update w.lease d none c = some n := h
      rw [Function.update_of_ne hd] at hheld
      exact .inr ⟨hheld, id⟩
  | deliver m d entries =>
    have hlease : (w.deliver m d entries).1.lease = w.lease := by
      unfold Cluster.deliver
      split
      · split <;> rfl
      · rfl
    refine .inr ⟨(congrFun hlease c).symm.trans h, fun hmem => ?_⟩
    obtain hsame | ⟨own, last, _, _, _, _, happ⟩ := w.sent_deliver m d n entries
    · exact hsame.symm ▸ hmem
    · exact happ.symm ▸ List.mem_append_left _ hmem
  | unregister m d =>
    simp only [exec] at h ⊢
    split at h
    · rename_i hown
      refine .inr ⟨h, fun hmem => ?_⟩
      rw [if_pos hown, Cluster.sent_send]
      split
      · exact List.mem_append_left _ (by simpa using hmem)
      · simpa using hmem
    · rename_i hown
      exact .inr ⟨h, by simp [hown]⟩
  | setHandler m d =>
    simp only [exec] at h ⊢
    split at h
    · exact .inr ⟨h, id⟩
    · exact .inr ⟨h, by simp⟩
  | takeInput m =>
    simp only [exec] at h ⊢
    split at h
    · exact .inr ⟨h, id⟩
    · refine .inr ⟨h, fun hmem => ?_⟩
      by_cases hn : n = m
      · subst hn
        simpa [Cluster.setNode] using hmem
      · simpa [Cluster.setNode, hn] using hmem
  | commitEnd d passes =>
    simp only [exec] at h ⊢
    split at h
    · rename_i hwon
      exact .inr ⟨h, by simp [hwon]⟩
    · rename_i hlost
      exact .inr ⟨h, by simp [hlost]⟩
  | register m d lastId => exact .inr ⟨h, by simp [exec]⟩
  | lose m d => exact .inr ⟨h, by simp [exec]⟩
  | _ => exact .inr ⟨h, id⟩

/-- A worker with the lease of a call it does not run is about to give it up. -/
theorem Op.lease_owned (op : Op) {w : Cluster} {n c : Nat}
    (h : w.lease c = some n → (w.own n c).isSome = true ∨ .releaseLease c ∈ (w.nodes n).sent)
    (hset : op ≠ .setLease n c) (hlose : op = .lose n c → w.lease c ≠ some n)
    (hlease : (op.exec w).1.lease c = some n) :
    ((op.exec w).1.own n c).isSome = true ∨ .releaseLease c ∈ ((op.exec w).1.nodes n).sent := by
  obtain hop | ⟨hheld, hsent⟩ := op.lease_exec w hlease
  · exact absurd hop hset
  obtain hown | hmem := h hheld
  · cases onOwn w n c op with
    | same heq => exact .inl (heq.symm ▸ hown)
    | registered lastId _ heq => exact .inl (heq.symm ▸ rfl)
    | handled own _ _ heq => exact .inl (heq.symm ▸ rfl)
    | took own entries last _ _ _ _ heq => exact .inl (heq.symm ▸ rfl)
    | threw own entries lastId _ _ _ heq => exact .inl (heq.symm ▸ rfl)
    | dropped hop heq =>
      obtain rfl | rfl := hop
      · right
        simp [exec, hown, Cluster.sent_send]
      · exact absurd hheld (hlose rfl)
  · exact .inr (hsent hmem)

/-! ## Cursors -/

namespace Cluster

variable {w : Cluster} {n m c v : Nat}

theorem mem_sent_serveNext {s : Sent} (h : s ∈ ((w.serveNext n).nodes m).sent) : s ∈ (w.nodes m).sent := by
  by_cases hm : m = n
  · subst hm
    rw [sent_serveNext] at h
    exact List.mem_of_mem_tail h
  · unfold serveNext at h
    split at h
    · exact h
    · rw [nodes_serve] at h
      simpa [setNode, hm] using h

theorem lapsed_serveNext (w : Cluster) (n : Nat) : (w.serveNext n).lapsed = w.lapsed := by
  unfold serveNext
  split
  · rfl
  · rename_i s rest _
    cases s with
    | setCursor d x => rfl
    | releaseLease d =>
      simp only [serve]
      split <;> rfl

theorem cursor_serveNext (h : (w.serveNext n).cursor c = some v) :
    w.cursor c = some v ∨ .setCursor c v ∈ (w.nodes n).sent := by
  unfold serveNext at h
  split at h
  · exact .inl h
  · rename_i s rest hsent
    cases s with
    | setCursor d x =>
      by_cases hd : c = d
      · subst hd
        have hv : Function.update w.cursor c (some x) c = some v := h
        rw [Function.update_self] at hv
        cases hv
        exact .inr (hsent ▸ List.mem_cons_self)
      · have hv : Function.update w.cursor d (some x) c = some v := h
        rw [Function.update_of_ne hd] at hv
        exact .inl hv
    | releaseLease d =>
      left
      simp only [serve] at h
      split at h <;> exact h

end Cluster

/-- A command that is sent was sent before, or just now. -/
theorem Op.mem_sent {op : Op} {w : Cluster} {m : Nat} {s : Sent} (h : s ∈ ((op.exec w).1.nodes m).sent) :
    s ∈ (w.nodes m).sent ∨
      (∃ c own entries last, op = .deliver m c entries ∧ w.own m c = some own ∧ own.handler = true ∧
        entries.getLast? = some last ∧ s = .setCursor c last.id) ∨
      ∃ c, op = .unregister m c ∧ (w.own m c).isSome = true ∧ s = .releaseLease c := by
  cases op with
  | flush n =>
    refine .inl (Cluster.flush_induction (P := fun w' => s ∈ (w'.nodes m).sent → s ∈ (w.nodes m).sent) ?_ id h)
    intro w' ih h
    exact ih (Cluster.mem_sent_serveNext h)
  | serveNext n => exact .inl (Cluster.mem_sent_serveNext h)
  | register n c lastId => exact .inl (by simpa [exec] using h)
  | lose n c => exact .inl (by simpa [exec] using h)
  | setLease n c =>
    left
    simp only [exec] at h
    split at h <;> exact h
  | setHandler n c =>
    left
    simp only [exec] at h
    split at h
    · exact h
    · simpa using h
  | commitEnd c passes =>
    left
    simp only [exec] at h
    split at h <;> exact h
  | takeInput n =>
    left
    simp only [exec] at h
    split at h
    · exact h
    · by_cases hm : m = n
      · subst hm
        simpa [Cluster.setNode] using h
      · simpa [Cluster.setNode, hm] using h
  | unregister n c =>
    simp only [exec] at h
    split at h
    · rename_i hown
      rw [Cluster.sent_send] at h
      split at h
      · rename_i hm
        subst hm
        rw [Cluster.sent_setOwned] at h
        obtain h | h := List.mem_append.mp h
        · exact .inl h
        · exact .inr (.inr ⟨c, rfl, hown, by simpa using h⟩)
      · exact .inl (by simpa using h)
    · exact .inl h
  | deliver n c entries =>
    obtain hsame | ⟨own, last, hown, hhandler, hlast, rfl, happ⟩ := w.sent_deliver n c m entries
    · exact .inl (hsame ▸ h)
    · rw [show ((deliver m c entries).exec w).1 = (w.deliver m c entries).1 from rfl, happ] at h
      obtain h | h := List.mem_append.mp h
      · exact .inl h
      · exact .inr (.inl ⟨c, own, entries, last, rfl, hown, hhandler, hlast, by simpa using h⟩)
  | _ => exact .inl h

/-- A cursor was there before, or was on its way. -/
theorem Op.cursor_exec {op : Op} {w : Cluster} {c v : Nat} (h : (op.exec w).1.cursor c = some v) :
    w.cursor c = some v ∨ ∃ n, .setCursor c v ∈ (w.nodes n).sent := by
  cases op with
  | flush n =>
    have hboth : ((w.flush n).cursor c = some v → w.cursor c = some v ∨ ∃ n, .setCursor c v ∈ (w.nodes n).sent) ∧
        ∀ m s, s ∈ ((w.flush n).nodes m).sent → s ∈ (w.nodes m).sent := by
      refine Cluster.flush_induction (P := fun w' =>
        (w'.cursor c = some v → w.cursor c = some v ∨ ∃ n, .setCursor c v ∈ (w.nodes n).sent) ∧
          ∀ m s, s ∈ (w'.nodes m).sent → s ∈ (w.nodes m).sent) ?_ ⟨.inl, fun _ _ => id⟩
      rintro w' ⟨hcursor, hsent⟩
      refine ⟨fun h => ?_, fun m s h => hsent m s (Cluster.mem_sent_serveNext h)⟩
      obtain hbefore | hmem := Cluster.cursor_serveNext h
      · exact hcursor hbefore
      · exact .inr ⟨n, hsent n _ hmem⟩
    exact hboth.1 h
  | serveNext n => exact (Cluster.cursor_serveNext h).imp_right fun hmem => ⟨n, hmem⟩
  | purge d =>
    by_cases hd : c = d
    · subst hd
      simp [exec] at h
    · have hv : Function.update w.cursor d none c = some v := h
      rw [Function.update_of_ne hd] at hv
      exact .inl hv
  | setLease n d =>
    left
    simp only [exec] at h
    split at h <;> exact h
  | setHandler n d =>
    left
    simp only [exec] at h
    split at h <;> exact h
  | unregister n d =>
    left
    simp only [exec] at h
    split at h <;> exact h
  | commitEnd d passes =>
    left
    simp only [exec] at h
    split at h <;> exact h
  | takeInput n =>
    left
    simp only [exec] at h
    split at h <;> exact h
  | deliver n d entries =>
    left
    change (w.deliver n d entries).1.cursor c = some v at h
    unfold Cluster.deliver at h
    split at h
    · split at h <;> exact h
    · exact h
  | _ => exact .inl h

/-- What is handed out was handed out before, or has just been delivered. -/
theorem Op.mem_handed {op : Op} {w : Cluster} {n c : Nat} {e : Entry} (h : ⟨n, c, e⟩ ∈ (op.exec w).1.handed) :
    ⟨n, c, e⟩ ∈ w.handed ∨
      ∃ own entries, op = .deliver n c entries ∧ w.own n c = some own ∧ own.handler = true ∧ e ∈ entries := by
  by_cases hop : op.logs = false
  · rw [(exec_sameLog hop w).handed] at h
    exact .inl h
  cases op with
  | post d input => exact .inl h
  | purge d => exact .inl h
  | commitEnd d passes =>
    left
    simp only [exec] at h
    split at h <;> exact h
  | deliver m d entries =>
    change _ ∈ (w.deliver m d entries).1.handed at h
    unfold Cluster.deliver at h
    split at h
    · rename_i own last hown hlast
      split at h
      · rename_i hhandler
        obtain hmem | hmem := List.mem_append.mp h
        · obtain ⟨x, hx, heq⟩ := List.mem_map.mp (List.mem_reverse.mp hmem)
          cases heq
          exact .inr ⟨own, entries, rfl, hown, hhandler, hx⟩
        · exact .inl hmem
      · exact .inl h
    · exact .inl h
  | _ => exact absurd rfl hop

/-- What was never purged was not purged before. -/
theorem Op.purged_exec (op : Op) (w : Cluster) {c : Nat} (h : (op.exec w).1.purged c = false) :
    w.purged c = false ∧ op ≠ .purge c := by
  by_cases hop : op.logs = false
  · rw [(exec_sameLog hop w).purged] at h
    refine ⟨h, ?_⟩
    rintro rfl
    cases hop
  cases op with
  | post d input => exact ⟨h, by simp⟩
  | purge d =>
    by_cases hd : c = d
    · subst hd
      simp [exec] at h
    · have hp : Function.update w.purged d true c = false := h
      rw [Function.update_of_ne hd] at hp
      exact ⟨hp, by simp [Ne.symm hd]⟩
  | commitEnd d passes =>
    refine ⟨?_, by simp⟩
    simp only [exec] at h
    split at h <;> exact h
  | deliver m d entries =>
    refine ⟨?_, by simp⟩
    change (w.deliver m d entries).1.purged c = false at h
    unfold Cluster.deliver at h
    split at h
    · split at h <;> exact h
    · exact h
  | _ => exact absurd rfl hop

/-- A lease that never lapsed had not lapsed before. -/
theorem Op.lapsed_exec (op : Op) (w : Cluster) {c : Nat} (h : (op.exec w).1.lapsed c = false) :
    w.lapsed c = false ∧ op ≠ .lapse c := by
  cases op with
  | lapse d =>
    by_cases hd : c = d
    · subst hd
      simp [exec] at h
    · have hl : Function.update w.lapsed d true c = false := h
      rw [Function.update_of_ne hd] at hl
      exact ⟨hl, by simp [Ne.symm hd]⟩
  | flush n =>
    refine ⟨?_, by simp⟩
    refine Cluster.flush_induction (P := fun w' => w'.lapsed c = false → w.lapsed c = false) ?_ id h
    intro w' ih h
    refine ih ?_
    rw [← Cluster.lapsed_serveNext w' n]
    exact h
  | serveNext n =>
    refine ⟨?_, by simp⟩
    rw [← Cluster.lapsed_serveNext w n]
    exact h
  | setLease n d =>
    refine ⟨?_, by simp⟩
    simp only [exec] at h
    split at h <;> exact h
  | setHandler n d =>
    refine ⟨?_, by simp⟩
    simp only [exec] at h
    split at h <;> exact h
  | unregister n d =>
    refine ⟨?_, by simp⟩
    simp only [exec] at h
    split at h <;> exact h
  | takeInput n =>
    refine ⟨?_, by simp⟩
    simp only [exec] at h
    split at h <;> exact h
  | commitEnd d passes =>
    refine ⟨?_, by simp⟩
    simp only [exec] at h
    split at h <;> exact h
  | deliver n d entries =>
    refine ⟨?_, by simp⟩
    change (w.deliver n d entries).1.lapsed c = false at h
    unfold Cluster.deliver at h
    split at h
    · split at h <;> exact h
    · exact h
  | _ => exact ⟨h, by simp⟩

end Callio.Inbox
