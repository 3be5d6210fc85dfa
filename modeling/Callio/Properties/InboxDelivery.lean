import Callio.Cluster.Conduct
import Callio.Cluster.Leases

/-! Whatever is posted for a call that is not purged is handed out, or is still
ahead of every reading of the call; an owner gets it in order; and as long as no
lease lapses, nothing is handed out twice. -/

namespace Callio.InboxDelivery

open Concurrency Inbox

variable {ι : Type} [DecidableEq ι]

/-! ## The property, and what breaks it -/

/-- Nothing has been posted, and no worker has a call. -/
def booted : Cluster := {}

section run

variable (tasks : ι → Inbox.Task) (schedule : List ι)

abbrev state (k : Nat) : Cluster := (after tasks booted schedule k).state

/-- What is posted is handed out, or ahead of who reads the call and of who will. -/
def Available : Prop :=
  ∀ k ≤ schedule.length, ∀ c e, (c, e) ∈ (state tasks schedule k).posted →
    (state tasks schedule k).purged c = false →
    (∃ n, ⟨n, c, e⟩ ∈ (state tasks schedule k).handed) ∨
      e ∈ (state tasks schedule k).inbox c ∧ (∀ v, (state tasks schedule k).cursor c = some v → v < e.id) ∧
        ∀ n own, (state tasks schedule k).own n c = some own → own.lastId < e.id

/-- A worker's read of the call that is answered after the post hands it out, if
the worker has the call until its next round begins. -/
def Delivered : Prop :=
  ∀ a b i n c e from_ lastId, a < b → b ≤ schedule.length → schedule[a]? = some i →
    (after tasks booted schedule a).next i = some (.xread n from_) → (c, lastId) ∈ from_ →
    (c, e) ∈ (state tasks schedule a).posted → (after tasks booted schedule b).next i = some (.streams n) →
    (∀ t, a ≤ t → t ≤ b → ((state tasks schedule t).own n c).isSome = true) →
    (state tasks schedule b).purged c = false → ∃ m, ⟨m, c, e⟩ ∈ (state tasks schedule b).handed

/-- Move `k` hands entries of call `c` to worker `n`, which has the call. -/
def Hands (k n c : Nat) (entries : List Entry) : Prop :=
  ∃ i, schedule[k]? = some i ∧ (after tasks booted schedule k).next i = some (.deliver n c entries) ∧
    ((state tasks schedule k).own n c).isSome = true

/-- From one claim of the call to the next, its owner gets entries in order. -/
def InOrder : Prop :=
  (∀ k n c entries, Hands tasks schedule k n c entries → entries.Pairwise fun e e' => e.id < e'.id) ∧
  ∀ a b n c entries entries', Hands tasks schedule a n c entries → Hands tasks schedule b n c entries' → a < b →
    (∀ t i lastId, a < t → t < b → schedule[t]? = some i →
      (after tasks booted schedule t).next i ≠ some (.register n c lastId)) →
    ∀ e ∈ entries, ∀ e' ∈ entries', e.id < e'.id

/-- Without a lapse nothing is handed out twice. -/
def Once : Prop :=
  ∀ k ≤ schedule.length, ∀ c, (state tasks schedule k).lapsed c = false →
    (state tasks schedule k).purged c = false → (handedIds (state tasks schedule k) c).Nodup

def Delivery : Prop :=
  Available tasks schedule ∧ Delivered tasks schedule ∧ InOrder tasks schedule ∧ Once tasks schedule

/-- Nobody was handed the entry. -/
def unread (w : Cluster) (c : Nat) (e : Entry) : Bool := !w.handed.any fun x => x.callId = c && x.entry = e

/-- A post finds fewer than `maxLen` unread entries. -/
def Roomy (k : Nat) (i : ι) : Bool :=
  ((after tasks booted schedule k).next i).all fun op =>
    match op with
    | .post c _ => ((state tasks schedule k).inbox c).countP (unread (state tasks schedule k) c) < maxLen
    | _ => true

/-- Move `k` by `i` registers no call of which a read is under way for the
worker, and begins no claim of a call that the worker has or is claiming. -/
def Sound (k : Nat) (i : ι) : Bool :=
  ((after tasks booted schedule k).next i).all fun op =>
    match op with
    | .register n c _ => !schedule.any fun j => reads (phases tasks booted schedule k j) n c
    | .setLease n c => ((state tasks schedule k).own n c).isNone &&
        !schedule.any fun j => (phases tasks booted schedule k j).claiming.of n c
    | _ => true

end run

/-! ## Marks -/

/-- The ids of call `c` after which somebody reads, or will. -/
inductive Mark (w : Cluster) (q : ι → Phase) (c : Nat) : Nat → Prop
  | zero : Mark w q c 0
  | cursor {v : Nat} (h : w.cursor c = some v) : Mark w q c v
  | sent {n v : Nat} (h : .setCursor c v ∈ (w.nodes n).sent) : Mark w q c v
  | own {n : Nat} {own : Own} (h : w.own n c = some own) : Mark w q c own.lastId
  | asked {j : ι} {n v : Nat} {from_ : List (Nat × Nat)} (h : (q j).reading.asked = some (n, from_))
      (hmem : (c, v) ∈ from_) : Mark w q c v
  | claimed {j : ι} {n v : Nat} (h : (q j).claiming = .cursorRead n c (some v)) : Mark w q c v

section marks

variable {tasks : ι → Inbox.Task} {schedule : List ι} {k : Nat} {i : ι} {op : Op}

theorem state_succ (hm : Moved tasks booted schedule k i op) :
    state tasks schedule (k + 1) = (op.exec (state tasks schedule k)).1 := hm.state

/-- A mark was there before, or is the last entry just handed out; `hhandled`:
what is delivered finds a handler. -/
theorem Mark.before (hm : Moved tasks booted schedule k i op) {c v : Nat}
    (hhandled : ∀ n entries own, op = .deliver n c entries → (state tasks schedule k).own n c = some own →
      own.handler = true)
    (h : Mark (state tasks schedule (k + 1)) (phases tasks booted schedule (k + 1)) c v) :
    Mark (state tasks schedule k) (phases tasks booted schedule k) c v ∨
      ∃ n own entries last, op = .deliver n c entries ∧ (state tasks schedule k).own n c = some own ∧
        entries.getLast? = some last ∧ v = last.id := by
  cases h with
  | zero => exact .inl .zero
  | cursor h =>
    left
    rw [state_succ hm] at h
    obtain hbefore | ⟨n, hsent⟩ := Op.cursor_exec h
    · exact .cursor hbefore
    · exact .sent hsent
  | sent h =>
    rw [state_succ hm] at h
    obtain hbefore | ⟨d, own, entries, last, hop, hown, _, hlast, heq⟩ | ⟨d, _, _, heq⟩ := Op.mem_sent h
    · exact .inl (.sent hbefore)
    · cases heq
      exact .inr ⟨_, own, entries, last, hop, hown, hlast, rfl⟩
    · cases heq
  | @own n own h =>
    rw [state_succ hm] at h
    cases onOwn (state tasks schedule k) n c op with
    | same heq => exact .inl (.own (heq.symm.trans h))
    | registered lastId hop heq =>
      subst hop
      obtain ⟨_, cursor, hclaiming, rfl⟩ := hm.allows
      rw [heq] at h
      cases h
      left
      cases cursor with
      | none => exact .zero
      | some v => exact .claimed hclaiming
    | handled own' _ hown heq =>
      rw [heq] at h
      cases h
      have hmark : Mark (state tasks schedule k) (phases tasks booted schedule k) c own'.lastId := .own hown
      exact .inl hmark
    | dropped _ heq =>
      rw [heq] at h
      cases h
    | took own' entries last hop hown _ hlast heq =>
      rw [heq] at h
      cases h
      exact .inr ⟨n, own', entries, last, hop, hown, hlast, rfl⟩
    | threw own' entries lastId hop hown hhandler _ =>
      exact absurd ((hhandled n entries own' hop hown).symm.trans hhandler) (by simp)
  | asked h hmem =>
    left
    obtain hbefore | ⟨_, _, rfl⟩ := hm.asked h
    · exact .asked hbefore hmem
    · obtain ⟨own, hown, _, rfl⟩ := Cluster.mem_streams.mp hmem
      exact .own hown
  | @claimed j n v h =>
    left
    by_cases hj : j = i
    · subst hj
      rw [hm.own] at h
      obtain hbefore | ⟨_, _, hcursor⟩ := Claiming.of_cursorRead h
      · exact .claimed hbefore
      · exact .cursor hcursor
    · rw [hm.others j hj] at h
      exact .claimed h

end marks

/-! ## Reads -/

section reading

variable (tasks : ι → Inbox.Task) (schedule : List ι) in
/-- Ids grow, and what is being read is past what its worker has. -/
structure Reads (k : Nat) : Prop where
  marks : ∀ c v, Mark (state tasks schedule k) (phases tasks booted schedule k) c v →
    v < (state tasks schedule k).nextId
  inbox : ∀ c, ∀ e ∈ (state tasks schedule k).inbox c, e.id < (state tasks schedule k).nextId
  batch : ∀ j n c entries, (n, c, entries) ∈ (phases tasks booted schedule k j).reading.batch →
    ∀ e ∈ entries, e.id < (state tasks schedule k).nextId
  handed : ∀ n c e, ⟨n, c, e⟩ ∈ (state tasks schedule k).handed → e.id < (state tasks schedule k).nextId
  sorted : ∀ c, ((state tasks schedule k).inbox c).Pairwise fun e e' => e.id < e'.id
  batchSorted : ∀ j n c entries, (n, c, entries) ∈ (phases tasks booted schedule k j).reading.batch →
    entries.Pairwise fun e e' => e.id < e'.id
  askedOnce : ∀ j n from_, (phases tasks booted schedule k j).reading.asked = some (n, from_) →
    (from_.map (·.1)).Nodup
  batchOnce : ∀ j, ((phases tasks booted schedule k j).reading.batch.map fun s => (s.1, s.2.1)).Nodup
  askedFresh : ∀ j n from_ c v own, (phases tasks booted schedule k j).reading.asked = some (n, from_) →
    (c, v) ∈ from_ → (state tasks schedule k).own n c = some own → own.handler = true ∧ own.lastId ≤ v
  batchFresh : ∀ j n c entries own, (n, c, entries) ∈ (phases tasks booted schedule k j).reading.batch →
    (state tasks schedule k).own n c = some own → own.handler = true ∧ ∀ e ∈ entries, own.lastId < e.id

variable {tasks : ι → Inbox.Task} {schedule : List ι} {k : Nat} {i : ι} {op : Op}

namespace Reads

theorem init : Reads tasks schedule 0 where
  marks c v h := by
    cases h with
    | zero => exact Nat.zero_lt_one
    | cursor h => cases h
    | sent h => cases h
    | own h => cases h
    | asked h => cases h
    | claimed h => cases h
  inbox c e he := by cases he
  batch j n c entries h := by cases h
  handed n c e h := by cases h
  sorted c := .nil
  batchSorted j n c entries h := by cases h
  askedOnce j n from_ h := by cases h
  batchOnce j := .nil
  askedFresh j n from_ c v own h := by cases h
  batchFresh j n c entries own h := by cases h

/-- What is delivered finds its handler, and is new to it. -/
theorem deliver (h : Reads tasks schedule k) {n c : Nat} {entries : List Entry}
    (hm : Moved tasks booted schedule k i (.deliver n c entries)) {own : Own}
    (hown : (state tasks schedule k).own n c = some own) :
    own.handler = true ∧ (∀ e ∈ entries, own.lastId < e.id) ∧ (∀ e ∈ entries, e.id < (state tasks schedule k).nextId) ∧
      entries.Pairwise fun e e' => e.id < e'.id := by
  have hmem := List.mem_of_mem_head? hm.allows.2.2
  obtain ⟨hhandler, hfresh⟩ := h.batchFresh i n c entries own hmem hown
  exact ⟨hhandler, hfresh, h.batch i n c entries hmem, h.batchSorted i n c entries hmem⟩

theorem mark_before (h : Reads tasks schedule k) (hm : Moved tasks booted schedule k i op) {c v : Nat}
    (hmark : Mark (state tasks schedule (k + 1)) (phases tasks booted schedule (k + 1)) c v) :
    Mark (state tasks schedule k) (phases tasks booted schedule k) c v ∨
      ∃ n own entries last, op = .deliver n c entries ∧ (state tasks schedule k).own n c = some own ∧
        entries.getLast? = some last ∧ v = last.id := by
  refine Mark.before hm ?_ hmark
  rintro n entries own rfl hown
  exact (h.deliver hm hown).1

theorem nextId_le (hm : Moved tasks booted schedule k i op) :
    (state tasks schedule k).nextId ≤ (state tasks schedule (k + 1)).nextId := by
  rw [state_succ hm]
  exact op.nextId_mono _

/-- Only the loop that delivers reads for its worker, and it has no other entries of the call at hand. -/
theorem reads_deliver (hloop : ∀ i j, (tasks i).loop ≠ none → (tasks i).loop = (tasks j).loop → i = j)
    (h : Reads tasks schedule k) {n c : Nat} {entries : List Entry}
    (hm : Moved tasks booted schedule k i (.deliver n c entries)) (j : ι) :
    (∀ from_, (phases tasks booted schedule (k + 1) j).reading.asked ≠ some (n, from_)) ∧
      ∀ entries', (n, c, entries') ∉ (phases tasks booted schedule (k + 1) j).reading.batch := by
  obtain ⟨hiloop, hasked, hhead⟩ := hm.allows
  have hi : (tasks i).loop = some n := (phases_loop tasks booted schedule k i).symm.trans hiloop
  have hone : (tasks j).loop = some n → j = i := fun hj => hloop j i (by simp [hj]) (hj.trans hi.symm)
  constructor
  · intro from_ hj
    obtain hbefore | ⟨_, hop, _⟩ := hm.asked hj
    · obtain rfl := hone (loop_of_reading k j n (.inl ⟨from_, hbefore⟩))
      rw [hasked] at hbefore
      cases hbefore
    · cases hop
  · intro entries' hj
    obtain hbefore | ⟨_, _, hop, _⟩ := hm.mem_batch hj
    · obtain rfl := hone (loop_of_reading k j n (.inr ⟨c, entries', hbefore⟩))
      rw [hm.own] at hj
      obtain ⟨rest, hcons⟩ := List.head?_eq_some_iff.mp hhead
      have honce := h.batchOnce j
      rw [hcons, List.map_cons, List.nodup_cons] at honce
      have htail : (n, c, entries') ∈ (phases tasks booted schedule k j).reading.batch.tail := hj
      rw [hcons] at htail
      exact honce.1 (List.mem_map.mpr ⟨_, htail, rfl⟩)
    · cases hop

/-- A call is registered while nobody reads it for the worker. -/
theorem not_reads_of_sound {n c lastId : Nat} (hok : Sound tasks schedule k i = true)
    (hm : Moved tasks booted schedule k i (.register n c lastId)) (j : ι) :
    ¬ reads (phases tasks booted schedule k j) n c = true := by
  simp only [Sound, hm.next, Option.all_some] at hok
  exact not_reads hok j

theorem succ (hloop : ∀ i j, (tasks i).loop ≠ none → (tasks i).loop = (tasks j).loop → i = j)
    (h : Reads tasks schedule k) (hm : Moved tasks booted schedule k i op) (hok : Sound tasks schedule k i = true) :
    Reads tasks schedule (k + 1) := by
  have hle := nextId_le hm
  refine ⟨?_, ?_, ?_, ?_, ?_, ?_, ?_, ?_, ?_, ?_⟩
  · intro c v hmark
    obtain hbefore | ⟨n, own, entries, last, rfl, hown, hlast, rfl⟩ := h.mark_before hm hmark
    · exact (h.marks c v hbefore).trans_le hle
    · exact ((h.deliver hm hown).2.2.1 last (List.mem_of_getLast? hlast)).trans_le hle
  · intro c e he
    rw [state_succ hm] at he
    cases onInbox (state tasks schedule k) c op with
    | same heq _ => exact (h.inbox c e (heq ▸ he)).trans_le hle
    | posted input hop heq =>
      rw [heq] at he
      obtain hbefore | rfl := mem_append he
      · exact (h.inbox c e hbefore).trans_le hle
      · subst hop
        rw [state_succ hm]
        exact Nat.lt_succ_self _
    | purged _ heq =>
      rw [heq] at he
      cases he
  · intro j n c entries hbatch e he
    obtain hbefore | ⟨_, from_, rfl, hread⟩ := hm.mem_batch hbatch
    · exact (h.batch j n c entries hbefore e he).trans_le hle
    · obtain ⟨lastId, _, rfl, _⟩ := Cluster.mem_xread.mp hread
      exact (h.inbox c e (List.mem_of_mem_filter he)).trans_le hle
  · intro n c e he
    rw [state_succ hm] at he
    obtain hbefore | ⟨own, entries, rfl, hown, _, hmem⟩ := Op.mem_handed he
    · exact (h.handed n c e hbefore).trans_le hle
    · exact ((h.deliver hm hown).2.2.1 e hmem).trans_le hle
  · intro c
    rw [state_succ hm]
    cases onInbox (state tasks schedule k) c op with
    | same heq _ => exact heq.symm ▸ h.sorted c
    | posted input hop heq =>
      rw [heq]
      refine List.Pairwise.sublist (List.drop_sublist _ _) ?_
      refine List.pairwise_append.mpr ⟨h.sorted c, List.pairwise_singleton _ _, ?_⟩
      intro e he e' he'
      obtain rfl : e' = ⟨(state tasks schedule k).nextId, input⟩ := by simpa using he'
      exact h.inbox c e he
    | purged _ heq =>
      rw [heq]
      exact .nil
  · intro j n c entries hbatch
    obtain hbefore | ⟨_, from_, rfl, hread⟩ := hm.mem_batch hbatch
    · exact h.batchSorted j n c entries hbefore
    · obtain ⟨lastId, _, rfl, _⟩ := Cluster.mem_xread.mp hread
      exact (h.sorted c).filter _
  · intro j n from_ hj
    obtain hbefore | ⟨_, _, rfl⟩ := hm.asked hj
    · exact h.askedOnce j n from_ hbefore
    · exact Cluster.streams_nodup _ n
  · intro j
    by_cases hj : j = i
    · subst hj
      rw [hm.own]
      cases op with
      | xread n from_ =>
        have honce := h.askedOnce j n from_ hm.allows.2.1
        show ((((state tasks schedule k).xread from_).map _).map _).Nodup
        rw [List.map_map]
        have hkeys := Cluster.xread_nodup (state tasks schedule k) honce
        have hpairs := hkeys.map (f := fun c => (n, c)) fun c c' heq => (Prod.mk.inj heq).2
        rw [List.map_map] at hpairs
        exact hpairs
      | deliver n c entries =>
        show ((phases tasks booted schedule k j).reading.batch.tail.map _).Nodup
        rw [List.map_tail]
        exact (h.batchOnce j).tail
      | _ => exact h.batchOnce j
    · rw [hm.others j hj]
      exact h.batchOnce j
  · intro j n from_ c v own hj hmem hown
    rw [state_succ hm] at hown
    obtain hbefore | ⟨_, rfl, rfl⟩ := hm.asked hj
    · cases onOwn (state tasks schedule k) n c op with
      | same heq => exact h.askedFresh j n from_ c v own hbefore hmem (heq.symm.trans hown)
      | registered lastId hop _ =>
        subst hop
        exact absurd (reads_iff.mpr (.inl ⟨_, _, hbefore, hmem⟩)) (not_reads_of_sound hok hm j)
      | handled own' _ hown' heq =>
        rw [heq] at hown
        cases hown
        exact ⟨rfl, (h.askedFresh j n from_ c v own' hbefore hmem hown').2⟩
      | dropped _ heq =>
        rw [heq] at hown
        cases hown
      | took _ entries _ hop _ _ _ _ =>
        subst hop
        exact absurd hj ((reads_deliver hloop h hm j).1 from_)
      | threw own' entries _ hop hown' hhandler _ =>
        subst hop
        exact absurd ((h.deliver hm hown').1.symm.trans hhandler) (by simp)
    · obtain ⟨own', hown', hhandler, rfl⟩ := Cluster.mem_streams.mp hmem
      obtain rfl : own' = own := Option.some.inj (hown'.symm.trans hown)
      exact ⟨hhandler, le_rfl⟩
  · intro j n c entries own hj hown
    rw [state_succ hm] at hown
    obtain hbefore | ⟨rfl, from_, rfl, hread⟩ := hm.mem_batch hj
    · cases onOwn (state tasks schedule k) n c op with
      | same heq => exact h.batchFresh j n c entries own hbefore (heq.symm.trans hown)
      | registered lastId hop _ =>
        subst hop
        exact absurd (reads_iff.mpr (.inr ⟨_, hbefore⟩)) (not_reads_of_sound hok hm j)
      | handled own' _ hown' heq =>
        rw [heq] at hown
        cases hown
        exact ⟨rfl, (h.batchFresh j n c entries own' hbefore hown').2⟩
      | dropped _ heq =>
        rw [heq] at hown
        cases hown
      | took _ entries' _ hop _ _ _ _ =>
        subst hop
        exact absurd hj ((reads_deliver hloop h hm j).2 entries)
      | threw own' entries' _ hop hown' hhandler _ =>
        subst hop
        exact absurd ((h.deliver hm hown').1.symm.trans hhandler) (by simp)
    · obtain ⟨v, hfrom, rfl, _⟩ := Cluster.mem_xread.mp hread
      obtain ⟨hhandler, hle⟩ := h.askedFresh j n from_ c v own hm.allows.2.1 hfrom hown
      refine ⟨hhandler, fun e he => hle.trans_lt ?_⟩
      simpa using (List.mem_filter.mp he).2

end Reads

/-! ## What is posted -/

variable (tasks : ι → Inbox.Task) (schedule : List ι) in
/-- The entry is in the inbox, nothing after it was handed out, and whoever
reads the call will come to it. -/
structure Waiting (k : Nat) (c : Nat) (e : Entry) : Prop where
  inbox : e ∈ (state tasks schedule k).inbox c
  marks : ∀ v, Mark (state tasks schedule k) (phases tasks booted schedule k) c v → v < e.id
  batch : ∀ j n entries, (n, c, entries) ∈ (phases tasks booted schedule k j).reading.batch →
    e ∈ entries ∨ ∀ x ∈ entries, x.id < e.id
  handed : ∀ n x, ⟨n, c, x⟩ ∈ (state tasks schedule k).handed → x.id < e.id

namespace Waiting

variable {c : Nat} {e : Entry}

theorem posted (h : Reads tasks schedule k) {input : Input} (hm : Moved tasks booted schedule k i (.post c input)) :
    Waiting tasks schedule (k + 1) c ⟨(state tasks schedule k).nextId, input⟩ := by
  refine ⟨?_, ?_, ?_, ?_⟩
  · have hinbox : (state tasks schedule (k + 1)).inbox c =
        Cluster.append ((state tasks schedule k).inbox c) ⟨(state tasks schedule k).nextId, input⟩ := by
      rw [state_succ hm]
      exact Function.update_self ..
    rw [hinbox]
    exact mem_append_self _ _
  · intro v hmark
    obtain hbefore | ⟨_, _, _, _, hop, _⟩ := h.mark_before hm hmark
    · exact h.marks c v hbefore
    · cases hop
  · intro j n entries hbatch
    obtain hbefore | ⟨_, _, hop, _⟩ := hm.mem_batch hbatch
    · exact .inr (h.batch j n c entries hbefore)
    · cases hop
  · intro n x hx
    rw [state_succ hm] at hx
    exact h.handed n c x hx

/-- A waiting entry is handed out, or waits on; a post finds room for it. -/
theorem succ (h : Reads tasks schedule k) (hm : Moved tasks booted schedule k i op)
    (hroom : Roomy tasks schedule k i = true) (hpurge : op ≠ .purge c) (hw : Waiting tasks schedule k c e) :
    (∃ n, ⟨n, c, e⟩ ∈ (state tasks schedule (k + 1)).handed) ∨ Waiting tasks schedule (k + 1) c e := by
  by_cases htaken : ∃ n own entries, op = .deliver n c entries ∧ (state tasks schedule k).own n c = some own ∧ e ∈ entries
  · obtain ⟨n, own, entries, rfl, hown, he⟩ := htaken
    left
    refine ⟨n, ?_⟩
    rw [state_succ hm]
    exact Cluster.mem_handed_deliver hown (h.deliver hm hown).1 he
  -- what is handed out instead comes before it
  have hbefore : ∀ n own entries, op = .deliver n c entries → (state tasks schedule k).own n c = some own →
      ∀ x ∈ entries, x.id < e.id := by
    rintro n own entries rfl hown
    obtain hmem | hall := hw.batch i n entries (List.mem_of_mem_head? hm.allows.2.2)
    · exact absurd ⟨n, own, entries, rfl, hown, hmem⟩ htaken
    · exact hall
  refine .inr ⟨?_, ?_, ?_, ?_⟩
  · rw [state_succ hm]
    cases onInbox (state tasks schedule k) c op with
    | same heq _ => exact heq.symm ▸ hw.inbox
    | posted input hop heq =>
      rw [heq]
      subst hop
      refine mem_append_of_count hw.inbox (h.sorted c) ?_ (p := unread (state tasks schedule k) c) ?_
      · intro e' _ hle
        unfold unread
        rw [Bool.not_eq_true', List.any_eq_false]
        rintro ⟨n, d, x⟩ hx heq
        obtain ⟨rfl, rfl⟩ : d = c ∧ x = e' := by simpa using heq
        exact absurd (hw.handed n x hx) (by omega)
      · simpa [Roomy, hm.next] using hroom
    | purged hop _ => exact absurd hop hpurge
  · intro v hmark
    obtain hold | ⟨n, own, entries, last, hop, hown, hlast, rfl⟩ := h.mark_before hm hmark
    · exact hw.marks v hold
    · exact hbefore n own entries hop hown last (List.mem_of_getLast? hlast)
  · intro j n entries hbatch
    obtain hold | ⟨rfl, from_, rfl, hread⟩ := hm.mem_batch hbatch
    · exact hw.batch j n entries hold
    · obtain ⟨v, hfrom, rfl, _⟩ := Cluster.mem_xread.mp hread
      have hlt := hw.marks v (.asked hm.allows.2.1 hfrom)
      exact .inl (List.mem_filter.mpr ⟨hw.inbox, by simpa using hlt⟩)
  · intro n x hx
    rw [state_succ hm] at hx
    obtain hold | ⟨own, entries, hop, hown, _, hmem⟩ := Op.mem_handed hx
    · exact hw.handed n x hold
    · exact hbefore n own entries hop hown x hmem

end Waiting

variable (tasks : ι → Inbox.Task) (schedule : List ι) in
/-- What is posted is handed out or waits, unless the call is purged. -/
def Kept (k : Nat) : Prop :=
  ∀ c e, (c, e) ∈ (state tasks schedule k).posted → (state tasks schedule k).purged c = false →
    (∃ n, ⟨n, c, e⟩ ∈ (state tasks schedule k).handed) ∨ Waiting tasks schedule k c e

theorem Kept.succ (h : Reads tasks schedule k) (hkept : Kept tasks schedule k)
    (hm : Moved tasks booted schedule k i op) (hroom : Roomy tasks schedule k i = true) :
    Kept tasks schedule (k + 1) := by
  intro c e he hpurged
  rw [state_succ hm] at he hpurged
  obtain ⟨hbefore, hpurge⟩ := op.purged_exec _ hpurged
  obtain hposted | ⟨rfl, hid⟩ := Op.mem_posted he
  · obtain ⟨n, hhanded⟩ | hw := hkept c e hposted hbefore
    · left
      refine ⟨n, ?_⟩
      rw [state_succ hm]
      exact op.handed_mono _ hhanded
    · exact hw.succ h hm hroom hpurge
  · obtain ⟨id, input⟩ := e
    obtain rfl : id = (state tasks schedule k).nextId := hid
    exact .inr (.posted h hm)

end reading

/-! ## Leases -/

section leases

variable (tasks : ι → Inbox.Task) (schedule : List ι)

/-- A worker claims a call once at a time, and not while it has it. -/
structure Claims (k : Nat) : Prop where
  alone : ∀ i j n c, (phases tasks booted schedule k i).claiming.of n c = true →
    (phases tasks booted schedule k j).claiming.of n c = true → i = j
  unowned : ∀ i n c, (phases tasks booted schedule k i).claiming.of n c = true →
    (state tasks schedule k).own n c = none

/-- What a claim knows of the lease, as long as none lapses. -/
structure Leases (k c : Nat) : Prop where
  tidy : Tidy (state tasks schedule k) c
  quiet : ∀ i n, (phases tasks booted schedule k i).claiming = .asking n c ∨
      (phases tasks booted schedule k i).claiming = .leased n c ∨
      (∃ cursor, (phases tasks booted schedule k i).claiming = .cursorRead n c cursor) →
    Quiet c ((state tasks schedule k).nodes n).sent
  leased : ∀ i n, (phases tasks booted schedule k i).claiming = .leased n c ∨
      (∃ cursor, (phases tasks booted schedule k i).claiming = .cursorRead n c cursor) →
    (state tasks schedule k).lease c = some n
  read : ∀ i n cursor, (phases tasks booted schedule k i).claiming = .cursorRead n c cursor →
    ∀ id ∈ handedIds (state tasks schedule k) c, id ≤ cursor.getD 0

variable {tasks schedule} {k c : Nat} {i : ι} {op : Op}

namespace Claims

theorem init : Claims tasks schedule 0 where
  alone i j n c h := by cases h
  unowned i n c h := by cases h

/-- A claim begins when the worker neither has the call nor claims it. -/
theorem not_of_setLease {n : Nat} (hok : Sound tasks schedule k i = true)
    (hm : Moved tasks booted schedule k i (.setLease n c)) :
    (state tasks schedule k).own n c = none ∧
      ∀ j, (phases tasks booted schedule k j).claiming.of n c = false := by
  have hboth : (state tasks schedule k).own n c = none ∧
      ∀ j ∈ schedule, (phases tasks booted schedule k j).claiming.of n c = false := by
    simpa [Sound, hm.next] using hok
  obtain ⟨hnone, hall⟩ := hboth
  refine ⟨hnone, fun j => ?_⟩
  by_cases hj : j ∈ schedule
  · exact hall j hj
  · rw [phases_of_not_mem k j hj]
    rfl

/-- A claim was under way before, or begins. -/
theorem before (hm : Moved tasks booted schedule k i op) {j : ι} {n : Nat}
    (h : (phases tasks booted schedule (k + 1) j).claiming.of n c = true) :
    (phases tasks booted schedule k j).claiming.of n c = true ∨ j = i ∧ op = .setLease n c := by
  by_cases hj : j = i
  · subst hj
    rw [hm.own] at h
    exact (Claiming.of_next h).imp_right fun hop => ⟨rfl, hop⟩
  · rw [hm.others j hj] at h
    exact .inl h

theorem succ (h : Claims tasks schedule k) (hm : Moved tasks booted schedule k i op)
    (hok : Sound tasks schedule k i = true) : Claims tasks schedule (k + 1) := by
  constructor
  · intro j j' n c hj hj'
    obtain hbefore | ⟨rfl, rfl⟩ := before hm hj <;> obtain hbefore' | ⟨rfl, hop⟩ := before hm hj'
    · exact h.alone j j' n c hbefore hbefore'
    · subst hop
      rw [(not_of_setLease hok hm).2 j] at hbefore
      cases hbefore
    · rw [(not_of_setLease hok hm).2 j'] at hbefore'
      cases hbefore'
    · rfl
  · intro j n c hj
    have hnone : (state tasks schedule k).own n c = none := by
      obtain hbefore | ⟨rfl, rfl⟩ := before hm hj
      · exact h.unowned j n c hbefore
      · exact (not_of_setLease hok hm).1
    rw [state_succ hm]
    cases onOwn (state tasks schedule k) n c op with
    | same heq => exact heq.trans hnone
    | registered lastId hop _ =>
      -- who registers the call is who claimed it, and claims it no longer
      subst hop
      obtain ⟨_, cursor, hclaiming, _⟩ := hm.allows
      have hof : (phases tasks booted schedule k i).claiming.of n c = true := by simp [hclaiming, Claiming.of]
      obtain hbefore | ⟨_, hop⟩ := before hm hj
      · obtain rfl := h.alone j i n c hbefore hof
        rw [hm.own] at hj
        cases hj
      · cases hop
    | handled own _ hown _ => exact absurd (hnone.symm.trans hown) (by simp)
    | dropped _ heq => exact heq
    | took own _ _ _ hown _ _ _ => exact absurd (hnone.symm.trans hown) (by simp)
    | threw own _ _ _ hown _ _ => exact absurd (hnone.symm.trans hown) (by simp)

end Claims

namespace Leases

theorem init : Leases tasks schedule 0 c where
  tidy :=
    { held := fun n own h => by cases h
      sent := fun n s h => by cases h
      ordered := fun n => .nil
      own := fun n own h => by cases h
      holder := fun n h => by cases h
      free := fun _ id h => by cases h
      once := .nil }
  quiet i n h := by obtain h | h | ⟨_, h⟩ := h <;> cases h
  leased i n h := by obtain h | ⟨_, h⟩ := h <;> cases h
  read i n cursor h := by cases h

theorem tidy_succ (h : Leases tasks schedule k c) (hr : Reads tasks schedule k)
    (hm : Moved tasks booted schedule k i op) (hlapse : op ≠ .lapse c) (hpurge : op ≠ .purge c) :
    Tidy (state tasks schedule (k + 1)) c := by
  rw [state_succ hm]
  apply h.tidy.exec hlapse hpurge
  · rintro n lastId rfl
    obtain ⟨_, cursor, hclaiming, rfl⟩ := hm.allows
    exact ⟨h.leased i n (.inr ⟨cursor, hclaiming⟩), h.quiet i n (.inr (.inr ⟨cursor, hclaiming⟩)),
      h.read i n cursor hclaiming⟩
  · rintro n d entries own rfl hown
    obtain ⟨hhandler, hfresh, _, hsorted⟩ := hr.deliver hm hown
    exact ⟨hhandler, hfresh, hsorted⟩

/-- Nothing about the call is sent where it is not owned. -/
theorem quiet_succ {w : Cluster} {n : Nat} (hquiet : Quiet c (w.nodes n).sent) (hnone : w.own n c = none) (op : Op) :
    Quiet c ((op.exec w).1.nodes n).sent := by
  intro s hs
  obtain hbefore | ⟨d, own, entries, last, _, hown, _, _, rfl⟩ | ⟨d, _, hown, rfl⟩ := Op.mem_sent hs
  · exact hquiet s hbefore
  · rintro rfl
    exact absurd (hnone.symm.trans hown) (by simp)
  · intro hsc
    obtain rfl : d = c := hsc
    simp [hnone] at hown

/-- Where the call is claimed, nothing of it is handed out. -/
theorem handedIds_succ (h : Leases tasks schedule k c) (hm : Moved tasks booted schedule k i op) {n : Nat}
    (hlease : (state tasks schedule k).lease c = some n) (hnone : (state tasks schedule k).own n c = none) {id : Nat}
    (hid : id ∈ handedIds (state tasks schedule (k + 1)) c) : id ∈ handedIds (state tasks schedule k) c := by
  obtain ⟨m, e, hmem, rfl⟩ := mem_handedIds.mp hid
  rw [state_succ hm] at hmem
  obtain hbefore | ⟨own, _, _, hown, _, _⟩ := Op.mem_handed hmem
  · exact mem_handedIds.mpr ⟨m, e, hbefore, rfl⟩
  · obtain rfl : n = m := Option.some.inj (hlease.symm.trans (h.tidy.held m own hown).1)
    exact absurd (hnone.symm.trans hown) (by simp)

/-- A lease stays with who claims the call. -/
theorem lease_succ (h : Leases tasks schedule k c) (hm : Moved tasks booted schedule k i op) (hlapse : op ≠ .lapse c)
    {n : Nat} (hlease : (state tasks schedule k).lease c = some n)
    (hquiet : Quiet c ((state tasks schedule k).nodes n).sent) : (state tasks schedule (k + 1)).lease c = some n := by
  rw [state_succ hm]
  cases op with
  | flush m => exact Tidy.lease_flush h.tidy hlease hquiet m
  | serveNext m => exact Tidy.lease_serveNext_of_quiet h.tidy hlease hquiet m
  | setLease m d =>
    by_cases hd : c = d
    · subst hd
      simp [Op.exec, hlease]
    · simp only [Op.exec]
      split
      · exact hlease
      · exact (Function.update_of_ne hd ..).trans hlease
  | lapse d =>
    have hd : c ≠ d := by
      rintro rfl
      exact hlapse rfl
    exact (Function.update_of_ne hd ..).trans hlease
  | setHandler m d =>
    simp only [Op.exec]
    split <;> exact hlease
  | unregister m d =>
    simp only [Op.exec]
    split <;> exact hlease
  | deliver m d entries =>
    show ((state tasks schedule k).deliver m d entries).1.lease c = some n
    unfold Cluster.deliver
    split
    · split <;> exact hlease
    · exact hlease
  | takeInput m =>
    simp only [Op.exec]
    split <;> exact hlease
  | commitEnd d passes =>
    simp only [Op.exec]
    split <;> exact hlease
  | _ => exact hlease

theorem succ (h : Leases tasks schedule k c) (hr : Reads tasks schedule k) (hc : Claims tasks schedule k)
    (hm : Moved tasks booted schedule k i op) (hlapse : op ≠ .lapse c) (hpurge : op ≠ .purge c) :
    Leases tasks schedule (k + 1) c := by
  refine ⟨h.tidy_succ hr hm hlapse hpurge, ?_, ?_, ?_⟩
  · intro j n hj
    have hnone : (phases tasks booted schedule k j).claiming.of n c = true → (state tasks schedule k).own n c = none :=
      hc.unowned j n c
    rw [state_succ hm]
    by_cases hji : j = i
    · subst hji
      rw [hm.own] at hj
      obtain hj | hj | ⟨cursor, hj⟩ := hj
      · obtain hbefore | ⟨hbefore, rfl⟩ := Claiming.of_asking hj
        · exact quiet_succ (h.quiet j n (.inl hbefore)) (hnone (by simp [hbefore, Claiming.of])) op
        · intro s hs
          rw [show ((Op.flush n).exec (state tasks schedule k)).1 = (state tasks schedule k).flush n from rfl,
            Cluster.sent_flush] at hs
          cases hs
      · obtain hbefore | ⟨rfl, hfree⟩ | ⟨hbefore, rfl, _⟩ := Claiming.of_leased hj
        · exact quiet_succ (h.quiet j n (.inr (.inl hbefore))) (hnone (by simp [hbefore, Claiming.of])) op
        · intro s hs hsc
          obtain hs | ⟨_, _, _, _, hop, _⟩ | ⟨_, hop, _⟩ := Op.mem_sent hs
          · have hlease := h.tidy.sent n s hs hsc
            rw [show (state tasks schedule k).lease c = none from hfree] at hlease
            cases hlease
          · cases hop
          · cases hop
        · exact h.quiet j n (.inl hbefore)
      · obtain hbefore | ⟨hbefore, rfl, _⟩ := Claiming.of_cursorRead hj
        · exact quiet_succ (h.quiet j n (.inr (.inr ⟨cursor, hbefore⟩))) (hnone (by simp [hbefore, Claiming.of])) op
        · exact h.quiet j n (.inr (.inl hbefore))
    · rw [hm.others j hji] at hj
      have hof : (phases tasks booted schedule k j).claiming.of n c = true := by
        obtain hj | hj | ⟨cursor, hj⟩ := hj <;> simp [hj, Claiming.of]
      exact quiet_succ (h.quiet j n hj) (hnone hof) op
  · intro j n hj
    by_cases hji : j = i
    · subst hji
      rw [hm.own] at hj
      obtain hj | ⟨cursor, hj⟩ := hj
      · obtain hbefore | ⟨rfl, hfree⟩ | ⟨_, rfl, hlease⟩ := Claiming.of_leased hj
        · exact h.lease_succ hm hlapse (h.leased j n (.inl hbefore)) (h.quiet j n (.inr (.inl hbefore)))
        · have hnone : ((state tasks schedule k).lease c).isSome = false := by
            rw [show (state tasks schedule k).lease c = none from hfree]
            rfl
          rw [state_succ hm]
          simp [Op.exec, hnone]
        · rw [state_succ hm]
          exact hlease
      · obtain hbefore | ⟨hbefore, rfl, _⟩ := Claiming.of_cursorRead hj
        · exact h.lease_succ hm hlapse (h.leased j n (.inr ⟨cursor, hbefore⟩))
            (h.quiet j n (.inr (.inr ⟨cursor, hbefore⟩)))
        · rw [state_succ hm]
          exact h.leased j n (.inl hbefore)
    · rw [hm.others j hji] at hj
      exact h.lease_succ hm hlapse (h.leased j n hj) (h.quiet j n (.inr hj))
  · intro j n cursor hj id hid
    have hkept : (phases tasks booted schedule k j).claiming = .cursorRead n c cursor → id ≤ cursor.getD 0 := by
      intro hbefore
      have hof : (phases tasks booted schedule k j).claiming.of n c = true := by simp [hbefore, Claiming.of]
      exact h.read j n cursor hbefore id
        (h.handedIds_succ hm (h.leased j n (.inr ⟨cursor, hbefore⟩)) (hc.unowned j n c hof) hid)
    by_cases hji : j = i
    · subst hji
      rw [hm.own] at hj
      obtain hbefore | ⟨hbefore, rfl, hcursor⟩ := Claiming.of_cursorRead hj
      · exact hkept hbefore
      · rw [state_succ hm] at hid
        have hholder := h.tidy.holder n (h.leased j n (.inl hbefore)) id hid
        rwa [cursorAfter_of_quiet (h.quiet j n (.inr (.inl hbefore))), hcursor] at hholder
    · rw [hm.others j hji] at hj
      exact hkept hj

end Leases

end leases

/-! ## The invariant -/

section invariant

variable (tasks : ι → Inbox.Task) (schedule : List ι) in
structure Invariant (k : Nat) : Prop where
  reads : Reads tasks schedule k
  kept : Kept tasks schedule k
  claims : Claims tasks schedule k
  leases : ∀ c, (state tasks schedule k).lapsed c = false → (state tasks schedule k).purged c = false →
    Leases tasks schedule k c

variable {tasks : ι → Inbox.Task} {schedule : List ι} {k : Nat} {i : ι} {op : Op}

namespace Invariant

theorem init : Invariant tasks schedule 0 where
  reads := .init
  kept c e h := by cases h
  claims := .init
  leases _ _ _ := .init

theorem idle (h : Invariant tasks schedule k)
    (hsame : after tasks booted schedule (k + 1) = after tasks booted schedule k) :
    Invariant tasks schedule (k + 1) := by
  have hstate : state tasks schedule (k + 1) = state tasks schedule k := by
    unfold state
    rw [hsame]
  have hphases : phases tasks booted schedule (k + 1) = phases tasks booted schedule k := funext (phases_eq hsame)
  refine ⟨?_, ?_, ?_, ?_⟩
  · obtain ⟨_, _, _, _, _, _, _, _, _, _⟩ := h.reads
    constructor <;> simpa only [hstate, hphases]
  · intro c e he hpurged
    rw [hstate] at he hpurged ⊢
    refine (h.kept c e he hpurged).imp_right ?_
    rintro ⟨_, _, _, _⟩
    constructor <;> simpa only [hstate, hphases]
  · obtain ⟨_, _⟩ := h.claims
    constructor <;> simpa only [hstate, hphases]
  · intro c hlapsed hpurged
    rw [hstate] at hlapsed hpurged
    obtain ⟨_, _, _, _⟩ := h.leases c hlapsed hpurged
    constructor <;> simpa only [hstate, hphases]

theorem moved (hloop : ∀ i j, (tasks i).loop ≠ none → (tasks i).loop = (tasks j).loop → i = j)
    (h : Invariant tasks schedule k) (hm : Moved tasks booted schedule k i op)
    (hroom : Roomy tasks schedule k i = true) (hok : Sound tasks schedule k i = true) :
    Invariant tasks schedule (k + 1) := by
  refine ⟨h.reads.succ hloop hm hok, h.kept.succ h.reads hm hroom, h.claims.succ hm hok, fun c hlapsed hpurged => ?_⟩
  rw [state_succ hm] at hlapsed hpurged
  obtain ⟨hnotLapsed, hlapse⟩ := op.lapsed_exec _ hlapsed
  obtain ⟨hnotPurged, hpurge⟩ := op.purged_exec _ hpurged
  exact (h.leases c hnotLapsed hnotPurged).succ h.reads h.claims hm hlapse hpurge

theorem succ (hloop : ∀ i j, (tasks i).loop ≠ none → (tasks i).loop = (tasks j).loop → i = j)
    (h : Invariant tasks schedule k) (hi : schedule[k]? = some i) (hroom : Roomy tasks schedule k i = true)
    (hok : Sound tasks schedule k i = true) : Invariant tasks schedule (k + 1) := by
  obtain ⟨_, hsame⟩ | ⟨op, hm⟩ := Inbox.moved tasks booted schedule hi
  · exact h.idle hsame
  · exact h.moved hloop hm hroom hok

end Invariant

/-! ## Delivery -/

theorem purged_before {a d : Nat} {c : Nat} (h : (state tasks schedule (a + d)).purged c = false) :
    (state tasks schedule a).purged c = false := by
  induction d with
  | zero => exact h
  | succ d ih =>
    apply ih
    change (state tasks schedule (a + d + 1)).purged c = false at h
    cases hi : schedule[a + d]? with
    | none => rwa [state, after_of_none tasks booted schedule hi] at h
    | some i =>
      obtain ⟨_, hsame⟩ | ⟨op, hm⟩ := Inbox.moved tasks booted schedule hi
      · rwa [state, hsame] at h
      · rw [state_succ hm] at h
        exact (op.purged_exec _ h).1

/-- From an answered read on, the loop has at hand what was posted before, until it is handed out. -/
theorem handed_or_atHand (hinv : ∀ k ≤ schedule.length, Invariant tasks schedule k) {a n c lastId : Nat}
    {from_ : List (Nat × Nat)} {e : Entry} (hi : schedule[a]? = some i)
    (hread : (after tasks booted schedule a).next i = some (.xread n from_)) (hfrom : (c, lastId) ∈ from_)
    (he : (c, e) ∈ (state tasks schedule a).posted) (hpurged : (state tasks schedule a).purged c = false) (d : Nat)
    (hd : a + 1 + d ≤ schedule.length)
    (hown : ∀ t, a ≤ t → t ≤ a + 1 + d → ((state tasks schedule t).own n c).isSome = true) :
    (∃ m, ⟨m, c, e⟩ ∈ (state tasks schedule (a + 1 + d)).handed) ∨
      ∃ entries, (n, c, entries) ∈ (phases tasks booted schedule (a + 1 + d) i).reading.batch ∧ e ∈ entries := by
  induction d with
  | zero =>
    have hm := moved_of_next hi hread
    obtain ⟨m, hhanded⟩ | hw := (hinv a (by omega)).kept c e he hpurged
    · left
      refine ⟨m, ?_⟩
      show _ ∈ (state tasks schedule (a + 1)).handed
      rw [state_succ hm]
      exact Op.handed_mono _ _ hhanded
    · right
      have hlt := hw.marks lastId (.asked hm.allows.2.1 hfrom)
      have hmem : e ∈ ((state tasks schedule a).inbox c).filter (lastId < ·.id) :=
        List.mem_filter.mpr ⟨hw.inbox, by simpa using hlt⟩
      refine ⟨_, ?_, hmem⟩
      show (n, c, _) ∈ (phases tasks booted schedule (a + 1) i).reading.batch
      rw [hm.own]
      exact List.mem_map.mpr ⟨(c, _), Cluster.mem_xread.mpr ⟨lastId, hfrom, rfl, List.ne_nil_of_mem hmem⟩, rfl⟩
  | succ d ih =>
    have ih := ih (by omega) fun t hat htd => hown t hat (by omega)
    have hlt : a + 1 + d < schedule.length := by omega
    obtain ⟨_, hsame⟩ | ⟨op, hm⟩ := Inbox.moved tasks booted schedule (List.getElem?_eq_getElem hlt)
    · have hsucc : after tasks booted schedule (a + 1 + (d + 1)) = after tasks booted schedule (a + 1 + d) := hsame
      rw [state, hsucc, phases_eq hsucc]
      exact ih
    · show (∃ m, _ ∈ (state tasks schedule (a + 1 + d + 1)).handed) ∨
        ∃ entries, _ ∈ (phases tasks booted schedule (a + 1 + d + 1) i).reading.batch ∧ e ∈ entries
      obtain ⟨m, hhanded⟩ | ⟨entries, hmem, hentry⟩ := ih
      · left
        refine ⟨m, ?_⟩
        rw [state_succ hm]
        exact op.handed_mono _ hhanded
      · obtain hstays | ⟨rfl, rfl⟩ := hm.batch_stays hmem
        · exact .inr ⟨entries, hstays, hentry⟩
        · left
          refine ⟨n, ?_⟩
          obtain ⟨own, hsome⟩ := Option.isSome_iff_exists.mp (hown (a + 1 + d) (by omega) (by omega))
          rw [state_succ hm]
          exact Cluster.mem_handed_deliver hsome ((hinv (a + 1 + d) (by omega)).reads.deliver hm hsome).1 hentry

/-- What the worker takes later starts after what it was handed, until the call is registered anew. -/
theorem lastId_after (hinv : ∀ k ≤ schedule.length, Invariant tasks schedule k) {a n c : Nat} {entries : List Entry}
    {e : Entry} (hi : schedule[a]? = some i)
    (hnext : (after tasks booted schedule a).next i = some (.deliver n c entries))
    (hsome : ((state tasks schedule a).own n c).isSome = true) (he : e ∈ entries) (d : Nat)
    (hd : a + 1 + d ≤ schedule.length)
    (hregister : ∀ t i lastId, a < t → t < a + 1 + d → schedule[t]? = some i →
      (after tasks booted schedule t).next i ≠ some (.register n c lastId)) :
    ∀ own, (state tasks schedule (a + 1 + d)).own n c = some own → e.id ≤ own.lastId := by
  induction d with
  | zero =>
    intro own hown
    have hm := moved_of_next hi hnext
    obtain ⟨own', hown'⟩ := Option.isSome_iff_exists.mp hsome
    obtain ⟨hhandler, _, _, hsorted⟩ := (hinv a (by omega)).reads.deliver hm hown'
    change (state tasks schedule (a + 1)).own n c = some own at hown
    obtain ⟨last, hlast⟩ : ∃ last, entries.getLast? = some last :=
      ⟨_, List.getLast?_eq_some_getLast (List.ne_nil_of_mem he)⟩
    rw [state_succ hm, show ((Op.deliver n c entries).exec (state tasks schedule a)).1 =
      ((state tasks schedule a).deliver n c entries).1 from rfl, Cluster.deliver_took hown' hhandler hlast,
      Cluster.own_send, Cluster.own_hand, Cluster.own_insert, if_pos ⟨rfl, rfl⟩] at hown
    cases hown
    obtain ⟨front, rfl⟩ := List.getLast?_eq_some_iff.mp hlast
    obtain he | he := List.mem_append.mp he
    · exact ((List.pairwise_append.mp hsorted).2.2 e he last (by simp)).le
    · obtain rfl : e = last := by simpa using he
      exact le_rfl
  | succ d ih =>
    have ih := ih (by omega) fun t i lastId hat htd => hregister t i lastId hat (by omega)
    have hlt : a + 1 + d < schedule.length := by omega
    have hj := List.getElem?_eq_getElem hlt
    show ∀ own, (state tasks schedule (a + 1 + d + 1)).own n c = some own → e.id ≤ own.lastId
    obtain ⟨_, hsame⟩ | ⟨op, hm⟩ := Inbox.moved tasks booted schedule hj
    · rw [state, hsame]
      exact ih
    · intro own hown
      rw [state_succ hm] at hown
      cases onOwn (state tasks schedule (a + 1 + d)) n c op with
      | same heq => exact ih own (heq.symm.trans hown)
      | registered lastId hop _ =>
        subst hop
        exact absurd hm.next (hregister (a + 1 + d) _ lastId (by omega) (by omega) hj)
      | handled own' _ hown' heq =>
        rw [heq] at hown
        cases hown
        exact ih own' hown'
      | dropped _ heq =>
        rw [heq] at hown
        cases hown
      | took own' entries' last hop hown' _ hlast heq =>
        subst hop
        rw [heq] at hown
        cases hown
        have hfresh := ((hinv (a + 1 + d) (by omega)).reads.deliver hm hown').2.1 last (List.mem_of_getLast? hlast)
        exact (ih own' hown').trans hfresh.le
      | threw own' entries' _ hop hown' hhandler _ =>
        subst hop
        have hset := ((hinv (a + 1 + d) (by omega)).reads.deliver hm hown').1
        exact absurd (hset.symm.trans hhandler) (by simp)

end invariant

/-! ## Two claims of one call at one worker -/

/-- Worker 1 takes call 1 twice at once, and reads it. -/
def takes : Fin 4 → Inbox.Task
  | 0 => .own 1 1
  | 1 => .own 1 1
  | 2 => .readLoop 1 2
  | 3 => .post 2 1 (.other 0)

/-- The second comes after the first, and finds that the worker has the call. -/
def inTurn : List (Fin 4) := List.replicate 9 0 ++ [1, 1, 3, 3] ++ List.replicate 6 2

/-- Both find that it does not: the second enters the call again, from where the
cursor was before anything was handed out. -/
def crossing : List (Fin 4) :=
  [0, 1, 0, 0] ++ List.replicate 6 1 ++ List.replicate 6 0 ++ [3, 3, 2, 2, 2, 1, 1, 1, 1, 2, 2, 2]

end Callio.InboxDelivery
