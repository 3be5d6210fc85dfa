import Callio.Cluster.Effects

/-! The lease of a call, its cursor and what its entries were handed to, as long
as no lease of it lapses: the worker with the call has the lease, and once Redis
has served what the holder sent, the cursor is past everything handed out. -/

namespace Callio.Inbox

/-- The cursor of call `c` once Redis has served what is sent. -/
def cursorAfter (c : Nat) : Nat → List Sent → Nat
  | v, [] => v
  | v, .setCursor c' x :: rest => cursorAfter c (if c' = c then x else v) rest
  | v, .releaseLease _ :: rest => cursorAfter c v rest

theorem cursorAfter_append (c v : Nat) (sent : List Sent) (s : Sent) :
    cursorAfter c v (sent ++ [s]) = cursorAfter c (cursorAfter c v sent) [s] := by
  induction sent generalizing v with
  | nil => rfl
  | cons s' rest ih => cases s' <;> exact ih _

/-- Nothing about call `c` is sent. -/
def Quiet (c : Nat) (sent : List Sent) : Prop := ∀ s ∈ sent, s.callId ≠ c

theorem cursorAfter_of_quiet {c : Nat} {sent : List Sent} (h : Quiet c sent) (v : Nat) :
    cursorAfter c v sent = v := by
  induction sent generalizing v with
  | nil => rfl
  | cons s rest ih =>
    have hrest : Quiet c rest := fun s' hs' => h s' (List.mem_cons_of_mem _ hs')
    cases s with
    | setCursor c' x =>
      have hne : c' ≠ c := h _ List.mem_cons_self
      show cursorAfter c (if c' = c then x else v) rest = v
      rw [if_neg hne]
      exact ih hrest v
    | releaseLease c' => exact ih hrest v

/-- The ids of call `c` that were handed out. -/
def handedIds (w : Cluster) (c : Nat) : List Nat :=
  (w.handed.filter fun x => x.callId = c).map fun x => x.entry.id

theorem mem_handedIds {w : Cluster} {c id : Nat} :
    id ∈ handedIds w c ↔ ∃ n e, ⟨n, c, e⟩ ∈ w.handed ∧ e.id = id := by
  unfold handedIds
  constructor
  · intro h
    obtain ⟨⟨n, c', e⟩, hmem, rfl⟩ := List.mem_map.mp h
    obtain ⟨hin, hc⟩ := List.mem_filter.mp hmem
    obtain rfl : c' = c := by simpa using hc
    exact ⟨n, e, hin, rfl⟩
  · rintro ⟨n, e, hmem, rfl⟩
    exact List.mem_map.mpr ⟨⟨n, c, e⟩, List.mem_filter.mpr ⟨hmem, by simp⟩, rfl⟩

structure Tidy (w : Cluster) (c : Nat) : Prop where
  /-- Who has the call has the lease, and does not give it up. -/
  held : ∀ n own, w.own n c = some own → w.lease c = some n ∧ .releaseLease c ∉ (w.nodes n).sent
  sent : ∀ n, ∀ s ∈ (w.nodes n).sent, s.callId = c → w.lease c = some n
  /-- Who gives up the lease has no more to say. -/
  ordered : ∀ n, (w.nodes n).sent.Pairwise fun s s' => s = .releaseLease c → s'.callId ≠ c
  own : ∀ n own, w.own n c = some own → ∀ id ∈ handedIds w c, id ≤ own.lastId
  holder : ∀ n, w.lease c = some n → ∀ id ∈ handedIds w c,
    id ≤ cursorAfter c ((w.cursor c).getD 0) (w.nodes n).sent
  free : w.lease c = none → ∀ id ∈ handedIds w c, id ≤ (w.cursor c).getD 0
  once : (handedIds w c).Nodup

namespace Cluster

variable (w : Cluster) (n m c : Nat)

theorem sent_serveNext_of_ne (h : m ≠ n) : ((w.serveNext n).nodes m).sent = (w.nodes m).sent := by
  unfold serveNext
  split
  · rfl
  · rw [nodes_serve]
    simp [setNode, h]

variable {w n c}

theorem serve_of_ne {s : Sent} (h : s.callId ≠ c) :
    (w.serve n s).lease c = w.lease c ∧ (w.serve n s).cursor c = w.cursor c := by
  cases s with
  | setCursor d x => exact ⟨rfl, Function.update_of_ne (Ne.symm h) ..⟩
  | releaseLease d =>
    simp only [serve]
    split
    · exact ⟨Function.update_of_ne (Ne.symm h) .., rfl⟩
    · exact ⟨rfl, rfl⟩

theorem serveNext_nil (h : (w.nodes n).sent = []) : w.serveNext n = w := by
  unfold serveNext
  rw [h]

variable {s : Sent} {rest : List Sent}

theorem serveNext_cons (h : (w.nodes n).sent = s :: rest) :
    w.serveNext n = (w.setNode n { w.nodes n with sent := rest }).serve n s := by
  unfold serveNext
  rw [h]

end Cluster

namespace Tidy

variable {w : Cluster} {n m c : Nat}

theorem alone (h : Tidy w c) {own own' : Own} (hn : w.own n c = some own) (hm : w.own m c = some own') : n = m :=
  Option.some.inj ((h.held n own hn).1.symm.trans (h.held m own' hm).1)

/-- What the operations on other calls leave. -/
theorem congr {w' : Cluster} (h : Tidy w c) (hown : ∀ n, w'.own n c = w.own n c) (hlease : w'.lease c = w.lease c)
    (hcursor : w'.cursor c = w.cursor c) (hsent : ∀ n, (w'.nodes n).sent = (w.nodes n).sent)
    (hhanded : handedIds w' c = handedIds w c) : Tidy w' c := by
  obtain ⟨h₁, h₂, h₃, h₄, h₅, h₆, h₇⟩ := h
  constructor <;> simpa only [hown, hlease, hcursor, hsent, hhanded]

theorem handedIds_congr {w' : Cluster} (h : w'.handed = w.handed) : handedIds w' c = handedIds w c := by
  unfold handedIds
  rw [h]

theorem serveNext (h : Tidy w c) (n : Nat) : Tidy (w.serveNext n) c := by
  cases hsent : (w.nodes n).sent with
  | nil =>
    rw [Cluster.serveNext_nil hsent]
    exact h
  | cons s rest =>
    have hown := fun m => w.own_serveNext n m c
    have hhanded := handedIds_congr (c := c) (w.serveNext_sameLog n).handed
    have hrest : ((w.serveNext n).nodes n).sent = rest := by
      rw [Cluster.sent_serveNext, hsent]
      rfl
    have hmem : ∀ m, ∀ s' ∈ ((w.serveNext n).nodes m).sent, s' ∈ (w.nodes m).sent := by
      intro m s' hs'
      by_cases hm : m = n
      · subst hm
        rw [hrest] at hs'
        rw [hsent]
        exact List.mem_cons_of_mem _ hs'
      · rwa [Cluster.sent_serveNext_of_ne _ _ _ hm] at hs'
    have hordered : ∀ m, ((w.serveNext n).nodes m).sent.Pairwise fun s s' => s = .releaseLease c → s'.callId ≠ c := by
      intro m
      by_cases hm : m = n
      · subst hm
        have hall := h.ordered m
        rw [hsent] at hall
        rw [hrest]
        exact (List.pairwise_cons.mp hall).2
      · rw [Cluster.sent_serveNext_of_ne _ _ _ hm]
        exact h.ordered m
    have hheld : s.callId = c → w.lease c = some n := fun hs => h.sent n s (hsent ▸ List.mem_cons_self) hs
    have heq := Cluster.serveNext_cons hsent
    by_cases hs : s.callId = c
    · have hlease := hheld hs
      cases s with
      | setCursor d x =>
        obtain rfl : d = c := hs
        have hlease' : (w.serveNext n).lease = w.lease := by rw [heq]; rfl
        have hcursor : (w.serveNext n).cursor d = some x := by
          rw [heq]
          exact Function.update_self ..
        refine ⟨?_, ?_, hordered, ?_, ?_, ?_, hhanded ▸ h.once⟩
        · intro m own hm
          rw [hown] at hm
          rw [hlease']
          exact ⟨(h.held m own hm).1, fun hrel => (h.held m own hm).2 (hmem m _ hrel)⟩
        · intro m s' hs' hc
          rw [hlease']
          exact h.sent m s' (hmem m s' hs') hc
        · intro m own hm
          rw [hown] at hm
          rw [hhanded]
          exact h.own m own hm
        · intro m hm
          rw [hlease', hlease] at hm
          obtain rfl : n = m := Option.some.inj hm
          rw [hhanded, hrest, hcursor]
          have hholder := h.holder n hlease
          rw [hsent] at hholder
          simpa [cursorAfter] using hholder
        · intro hfree
          rw [hlease', hlease] at hfree
          cases hfree
      | releaseLease d =>
        obtain rfl : d = c := hs
        have hserve : w.serveNext n =
            { w.setNode n { w.nodes n with sent := rest } with lease := Function.update w.lease d none } := by
          rw [heq]
          exact if_pos hlease
        have hlease' : (w.serveNext n).lease d = none := by
          rw [hserve]
          exact Function.update_self ..
        have hcursor : (w.serveNext n).cursor = w.cursor := by rw [hserve]; rfl
        have hquiet : Quiet d rest := by
          have hall := h.ordered n
          rw [hsent] at hall
          exact fun s' hs' => (List.pairwise_cons.mp hall).1 s' hs' rfl
        refine ⟨?_, ?_, hordered, ?_, ?_, ?_, hhanded ▸ h.once⟩
        · intro m own hm
          rw [hown] at hm
          obtain ⟨hlm, hnot⟩ := h.held m own hm
          obtain rfl : n = m := Option.some.inj (hlease.symm.trans hlm)
          exact absurd (hsent ▸ List.mem_cons_self) hnot
        · intro m s' hs' hc
          have hlm := h.sent m s' (hmem m s' hs') hc
          obtain rfl : n = m := Option.some.inj (hlease.symm.trans hlm)
          rw [hrest] at hs'
          exact absurd hc (hquiet s' hs')
        · intro m own hm
          rw [hown] at hm
          rw [hhanded]
          exact h.own m own hm
        · intro m hm
          rw [hlease'] at hm
          cases hm
        · intro _
          rw [hhanded, hcursor]
          have hholder := h.holder n hlease
          rw [hsent] at hholder
          simpa [cursorAfter, cursorAfter_of_quiet hquiet] using hholder
    · have hserve := Cluster.serve_of_ne (w := w.setNode n { w.nodes n with sent := rest }) (n := n) hs
      rw [← heq] at hserve
      have hlease : (w.serveNext n).lease c = w.lease c := hserve.1
      have hcursor : (w.serveNext n).cursor c = w.cursor c := hserve.2
      refine ⟨?_, ?_, hordered, ?_, ?_, ?_, hhanded ▸ h.once⟩
      · intro m own hm
        rw [hown] at hm
        rw [hlease]
        exact ⟨(h.held m own hm).1, fun hrel => (h.held m own hm).2 (hmem m _ hrel)⟩
      · intro m s' hs' hc
        rw [hlease]
        exact h.sent m s' (hmem m s' hs') hc
      · intro m own hm
        rw [hown] at hm
        rw [hhanded]
        exact h.own m own hm
      · intro m hm
        rw [hlease] at hm
        rw [hhanded, hcursor]
        by_cases hmn : m = n
        · subst hmn
          have hholder := h.holder m hm
          rw [hsent] at hholder
          rw [hrest]
          cases s with
          | setCursor d x =>
            have hd : d ≠ c := hs
            simpa [cursorAfter, hd] using hholder
          | releaseLease d => exact hholder
        · rw [Cluster.sent_serveNext_of_ne _ _ _ hmn]
          exact h.holder m hm
      · intro hfree
        rw [hlease] at hfree
        rw [hhanded, hcursor]
        exact h.free hfree

theorem flush (h : Tidy w c) (n : Nat) : Tidy (w.flush n) c :=
  Cluster.flush_induction (P := fun w' => Tidy w' c) (fun _ h => h.serveNext n) h

theorem lease_serveNext_of_quiet (h : Tidy w c) (hlease : w.lease c = some n) (hquiet : Quiet c (w.nodes n).sent)
    (m : Nat) : (w.serveNext m).lease c = some n := by
  cases hsent : (w.nodes m).sent with
  | nil =>
    rw [Cluster.serveNext_nil hsent]
    exact hlease
  | cons s rest =>
    have hs : s.callId ≠ c := by
      intro hs
      have hmem : s ∈ (w.nodes m).sent := hsent ▸ List.mem_cons_self
      obtain rfl : n = m := Option.some.inj (hlease.symm.trans (h.sent m s hmem hs))
      exact hquiet s hmem hs
    have hserve := Cluster.serve_of_ne (w := w.setNode m { w.nodes m with sent := rest }) (n := m) hs
    rw [← Cluster.serveNext_cons hsent] at hserve
    exact hserve.1.trans hlease

/-- A free lease that is taken: nothing about the call is on its way. -/
theorem setLease (h : Tidy w c) (hfree : w.lease c = none) (n : Nat) :
    Tidy { w with lease := Function.update w.lease c (some n) } c := by
  have hquiet : ∀ m, Quiet c (w.nodes m).sent := by
    intro m s hs hc
    have hlease := h.sent m s hs hc
    rw [hfree] at hlease
    cases hlease
  refine ⟨?_, ?_, h.ordered, h.own, ?_, ?_, h.once⟩
  · intro m own hm
    have hlease := (h.held m own hm).1
    rw [hfree] at hlease
    cases hlease
  · intro m s hs hc
    exact absurd hc (hquiet m s hs)
  · intro m _ id hid
    rw [cursorAfter_of_quiet (hquiet m)]
    exact h.free hfree id hid
  · intro hnone
    have hsome : Function.update w.lease c (some n) c = none := hnone
    rw [Function.update_self] at hsome
    cases hsome

/-- The holder of the lease registers the call where the cursor says. -/
theorem register (h : Tidy w c) {lastId : Nat} (hlease : w.lease c = some n) (hquiet : Quiet c (w.nodes n).sent)
    (hread : ∀ id ∈ handedIds w c, id ≤ lastId) :
    Tidy (w.setOwned n ((w.nodes n).owned.insert c ⟨lastId, false⟩)) c := by
  refine ⟨?_, ?_, ?_, ?_, ?_, h.free, h.once⟩
  · intro m own hm
    rw [w.own_insert] at hm
    rw [Cluster.sent_setOwned]
    split at hm
    · rename_i hmn
      obtain ⟨rfl, _⟩ := hmn
      exact ⟨hlease, fun hrel => hquiet _ hrel rfl⟩
    · exact h.held m own hm
  · intro m s hs hc
    rw [Cluster.sent_setOwned] at hs
    exact h.sent m s hs hc
  · intro m
    rw [Cluster.sent_setOwned]
    exact h.ordered m
  · intro m own hm id hid
    rw [w.own_insert] at hm
    split at hm
    · cases hm
      exact hread id hid
    · exact h.own m own hm id hid
  · intro m hm
    rw [Cluster.sent_setOwned]
    exact h.holder m hm

/-- No registration of the call is new or reads from elsewhere. -/
theorem owned (h : Tidy w c) {owned : AList fun _ : Nat => Own}
    (hown : ∀ m own', (w.setOwned n owned).own m c = some own' → ∃ own, w.own m c = some own ∧ own'.lastId = own.lastId) :
    Tidy (w.setOwned n owned) c := by
  refine ⟨?_, ?_, ?_, ?_, ?_, h.free, h.once⟩
  · intro m own' hm
    obtain ⟨own, hbefore, _⟩ := hown m own' hm
    rw [Cluster.sent_setOwned]
    exact h.held m own hbefore
  · intro m s hs hc
    rw [Cluster.sent_setOwned] at hs
    exact h.sent m s hs hc
  · intro m
    rw [Cluster.sent_setOwned]
    exact h.ordered m
  · intro m own' hm
    obtain ⟨own, hbefore, heq⟩ := hown m own' hm
    rw [heq]
    exact h.own m own hbefore
  · intro m hm
    rw [Cluster.sent_setOwned]
    exact h.holder m hm

theorem sendOther (h : Tidy w c) {s : Sent} (hs : s.callId ≠ c) : Tidy (w.send n s) c := by
  have hnot : s ≠ .releaseLease c := by
    rintro rfl
    exact hs rfl
  refine ⟨?_, ?_, ?_, ?_, ?_, h.free, h.once⟩
  · intro m own hm
    rw [w.own_send] at hm
    rw [Cluster.sent_send]
    split
    · obtain ⟨hlease, hrel⟩ := h.held m own hm
      refine ⟨hlease, fun hmem => ?_⟩
      obtain hmem | hmem := List.mem_append.mp hmem
      · exact hrel hmem
      · obtain rfl : .releaseLease c = s := by simpa using hmem
        exact hnot rfl
    · exact h.held m own hm
  · intro m s' hs' hc
    rw [Cluster.sent_send] at hs'
    split at hs'
    · obtain hs' | hs' := List.mem_append.mp hs'
      · exact h.sent m s' hs' hc
      · obtain rfl : s' = s := by simpa using hs'
        exact absurd hc hs
    · exact h.sent m s' hs' hc
  · intro m
    rw [Cluster.sent_send]
    split
    · refine List.pairwise_append.mpr ⟨h.ordered m, List.pairwise_singleton _ _, ?_⟩
      intro s' _ s'' hs'' _
      obtain rfl : s'' = s := by simpa using hs''
      exact hs
    · exact h.ordered m
  · intro m own hm
    rw [w.own_send] at hm
    exact h.own m own hm
  · intro m hm
    rw [Cluster.sent_send]
    split
    · rw [cursorAfter_append]
      cases s with
      | setCursor d x =>
        have hd : d ≠ c := hs
        simp only [cursorAfter, if_neg hd]
        exact h.holder m hm
      | releaseLease d => exact h.holder m hm
    · exact h.holder m hm

theorem handOther (h : Tidy w c) {d : Nat} (hd : d ≠ c) (n : Nat) (entries : List Entry) :
    Tidy (w.hand n d entries) c := by
  refine h.congr (fun m => w.own_hand n d m c entries) rfl rfl (fun m => Cluster.sent_hand entries) ?_
  show (((entries.map fun e : Entry => Handed.mk n d e).reverse ++ w.handed).filter _).map _ = _
  rw [List.filter_append, List.filter_reverse, List.filter_map]
  simp [handedIds, Function.comp_def, hd]

/-- The release that is sent after a call was dropped. -/
theorem sendRelease (h : Tidy w c) (hlease : w.lease c = some n) (hnone : w.own n c = none)
    (hnot : .releaseLease c ∉ (w.nodes n).sent) : Tidy (w.send n (.releaseLease c)) c := by
  refine ⟨?_, ?_, ?_, ?_, ?_, h.free, h.once⟩
  · intro m own hm
    rw [w.own_send] at hm
    have hmn : m ≠ n := by
      rintro rfl
      rw [hnone] at hm
      cases hm
    rw [Cluster.sent_send, if_neg hmn]
    exact h.held m own hm
  · intro m s hs hc
    rw [Cluster.sent_send] at hs
    split at hs
    · rename_i hmn
      exact hmn ▸ hlease
    · exact h.sent m s hs hc
  · intro m
    rw [Cluster.sent_send]
    split
    · rename_i hmn
      subst hmn
      refine List.pairwise_append.mpr ⟨h.ordered m, List.pairwise_singleton _ _, ?_⟩
      rintro s hs s' _ rfl
      exact absurd hs hnot
    · exact h.ordered m
  · intro m own hm
    rw [w.own_send] at hm
    exact h.own m own hm
  · intro m hm
    rw [Cluster.sent_send]
    split
    · rw [cursorAfter_append]
      exact h.holder m hm
    · exact h.holder m hm

/-- A lease stays while its holder has nothing to say about it. -/
theorem lease_flush (h : Tidy w c) (hlease : w.lease c = some n) (hquiet : Quiet c (w.nodes n).sent) (m : Nat) :
    (w.flush m).lease c = some n := by
  have hall : Tidy (w.flush m) c ∧ (w.flush m).lease c = some n ∧ Quiet c ((w.flush m).nodes n).sent := by
    refine Cluster.flush_induction (P := fun w' => Tidy w' c ∧ w'.lease c = some n ∧ Quiet c (w'.nodes n).sent)
      ?_ ⟨h, hlease, hquiet⟩
    rintro w' ⟨h, hlease, hquiet⟩
    exact ⟨h.serveNext m, lease_serveNext_of_quiet h hlease hquiet m,
      fun s hs => hquiet s (Cluster.mem_sent_serveNext hs)⟩
  exact hall.2.1

/-- Entries past the last one are handed out, and the cursor follows. -/
theorem hand (h : Tidy w c) {own : Own} {entries : List Entry} {last : Entry} (hown : w.own n c = some own)
    (hlast : entries.getLast? = some last) (hfresh : ∀ e ∈ entries, own.lastId < e.id)
    (hsorted : entries.Pairwise fun e e' => e.id < e'.id) :
    Tidy (((w.setOwned n ((w.nodes n).owned.insert c { own with lastId := last.id })).hand n c entries).send n
      (.setCursor c last.id)) c := by
  obtain ⟨hlease, hnot⟩ := h.held n own hown
  have hle : ∀ e ∈ entries, e.id ≤ last.id := by
    intro e he
    obtain ⟨front, rfl⟩ := List.getLast?_eq_some_iff.mp hlast
    obtain he | he := List.mem_append.mp he
    · exact ((List.pairwise_append.mp hsorted).2.2 e he last (by simp)).le
    · obtain rfl : e = last := by simpa using he
      exact le_rfl
  have hids : handedIds (((w.setOwned n ((w.nodes n).owned.insert c { own with lastId := last.id })).hand n c
      entries).send n (.setCursor c last.id)) c = (entries.map (·.id)).reverse ++ handedIds w c := by
    show (((entries.map fun e : Entry => Handed.mk n c e).reverse ++ w.handed).filter _).map _ = _
    rw [List.filter_append, List.map_append, List.filter_reverse, List.filter_map]
    simp [handedIds, Function.comp_def]
  have hall : ∀ id ∈ (entries.map (·.id)).reverse ++ handedIds w c, id ≤ last.id := by
    intro id hid
    obtain hid | hid := List.mem_append.mp hid
    · obtain ⟨e, he, rfl⟩ := List.mem_map.mp (List.mem_reverse.mp hid)
      exact hle e he
    · have hmem := List.mem_of_getLast? hlast
      exact (h.own n own hown id hid).trans (hfresh last hmem).le
  have hone : ∀ m own', w.own m c = some own' → m = n := fun m own' hm => h.alone hm hown
  refine ⟨?_, ?_, ?_, ?_, ?_, ?_, ?_⟩
  · intro m own' hm
    rw [Cluster.own_send, Cluster.own_hand, w.own_insert] at hm
    rw [Cluster.sent_send, Cluster.sent_hand, Cluster.sent_setOwned]
    split at hm
    · rename_i hmn
      obtain ⟨rfl, _⟩ := hmn
      refine ⟨hlease, ?_⟩
      rw [if_pos rfl]
      simpa using hnot
    · rename_i hmn
      exact absurd ⟨hone m own' hm, rfl⟩ hmn
  · intro m s hs hc
    rw [Cluster.sent_send, Cluster.sent_hand, Cluster.sent_setOwned] at hs
    split at hs
    · rename_i hmn
      exact hmn ▸ hlease
    · exact h.sent m s hs hc
  · intro m
    rw [Cluster.sent_send, Cluster.sent_hand, Cluster.sent_setOwned]
    split
    · rename_i hmn
      subst hmn
      refine List.pairwise_append.mpr ⟨h.ordered m, List.pairwise_singleton _ _, ?_⟩
      rintro s hs s' _ rfl
      exact absurd hs hnot
    · exact h.ordered m
  · intro m own' hm id hid
    rw [Cluster.own_send, Cluster.own_hand, w.own_insert] at hm
    rw [hids] at hid
    split at hm
    · cases hm
      exact hall id hid
    · rename_i hmn
      exact absurd ⟨hone m own' hm, rfl⟩ hmn
  · intro m hm id hid
    obtain rfl : n = m := Option.some.inj (hlease.symm.trans hm)
    rw [hids] at hid
    rw [Cluster.sent_send, if_pos rfl, cursorAfter_append]
    simpa [cursorAfter] using hall id hid
  · intro hfree
    rw [show w.lease c = none from hfree] at hlease
    cases hlease
  · rw [hids]
    refine List.nodup_append.mpr ⟨?_, h.once, ?_⟩
    · rw [List.nodup_reverse]
      exact (List.pairwise_map.mpr hsorted).imp fun hlt => Nat.ne_of_lt hlt
    · intro id hid id' hid'
      obtain ⟨e, he, rfl⟩ := List.mem_map.mp (List.mem_reverse.mp hid)
      have hlt := hfresh e he
      have hle' := h.own n own hown id' hid'
      omega

theorem erase (h : Tidy w c) (n d : Nat) : Tidy (w.setOwned n ((w.nodes n).owned.erase d)) c := by
  apply h.owned
  intro m own' hm
  rw [w.own_erase] at hm
  split at hm
  · cases hm
  · exact ⟨own', hm, rfl⟩

theorem insert (h : Tidy w c) {d : Nat} {own' : Own} (hd : d ≠ c) :
    Tidy (w.setOwned n ((w.nodes n).owned.insert d own')) c := by
  apply h.owned
  intro m own hm
  rw [w.own_insert, if_neg fun hmn => hd hmn.2.symm] at hm
  exact ⟨own, hm, rfl⟩

/-- Every operation leaves the lease tidy, if it neither lapses nor purges the
call, registers it by its lease and cursor, and delivers what is new. -/
theorem exec (h : Tidy w c) {op : Op} (hlapse : op ≠ .lapse c) (hpurge : op ≠ .purge c)
    (hregister : ∀ n lastId, op = .register n c lastId →
      w.lease c = some n ∧ Quiet c (w.nodes n).sent ∧ ∀ id ∈ handedIds w c, id ≤ lastId)
    (hdeliver : ∀ n d entries own, op = .deliver n d entries → w.own n d = some own →
      own.handler = true ∧ (∀ e ∈ entries, own.lastId < e.id) ∧ entries.Pairwise fun e e' => e.id < e'.id) :
    Tidy (op.exec w).1 c := by
  cases op with
  | flush n => exact h.flush n
  | serveNext n => exact h.serveNext n
  | setLease n d =>
    cases hlease : w.lease d with
    | some m => simpa [Op.exec, hlease] using h
    | none =>
      have hexec : ((Op.setLease n d).exec w).1 = { w with lease := Function.update w.lease d (some n) } := by
        simp [Op.exec, hlease]
      rw [hexec]
      by_cases hd : d = c
      · subst hd
        exact h.setLease hlease n
      · exact h.congr (fun _ => rfl) (Function.update_of_ne (Ne.symm hd) ..) rfl (fun _ => rfl) rfl
  | purge d =>
    have hd : c ≠ d := by
      rintro rfl
      exact hpurge rfl
    exact h.congr (fun _ => rfl) rfl (Function.update_of_ne hd ..) (fun _ => rfl) rfl
  | lapse d =>
    have hd : c ≠ d := by
      rintro rfl
      exact hlapse rfl
    exact h.congr (fun _ => rfl) (Function.update_of_ne hd ..) rfl (fun _ => rfl) rfl
  | register n d lastId =>
    by_cases hd : d = c
    · subst hd
      obtain ⟨hlease, hquiet, hread⟩ := hregister n lastId rfl
      exact h.register hlease hquiet hread
    · exact h.insert hd
  | setHandler n d =>
    cases hown : w.own n d with
    | none => simpa [Op.exec, hown] using h
    | some own =>
      have hexec : ((Op.setHandler n d).exec w).1 =
          w.setOwned n ((w.nodes n).owned.insert d { own with handler := true }) := by
        simp [Op.exec, hown]
      rw [hexec]
      apply h.owned
      intro m own' hm
      rw [w.own_insert] at hm
      split at hm
      · rename_i hmn
        obtain ⟨rfl, rfl⟩ := hmn
        cases hm
        exact ⟨own, hown, rfl⟩
      · exact ⟨own', hm, rfl⟩
  | unregister n d =>
    by_cases hown : (w.own n d).isSome = true
    · have hexec : ((Op.unregister n d).exec w).1 =
          (w.setOwned n ((w.nodes n).owned.erase d)).send n (.releaseLease d) := by
        simp [Op.exec, hown]
      rw [hexec]
      by_cases hd : d = c
      · subst hd
        obtain ⟨own, hown⟩ := Option.isSome_iff_exists.mp hown
        obtain ⟨hlease, hnot⟩ := h.held n own hown
        apply (h.erase n d).sendRelease hlease
        · rw [w.own_erase, if_pos ⟨rfl, rfl⟩]
        · rwa [Cluster.sent_setOwned]
      · exact (h.erase n d).sendOther hd
    · simpa [Op.exec, hown] using h
  | lose n d => exact h.erase n d
  | deliver n d entries =>
    cases hown : w.own n d with
    | none => simpa [Op.exec, Cluster.deliver, hown] using h
    | some own =>
      obtain ⟨hhandler, hfresh, hsorted⟩ := hdeliver n d entries own rfl hown
      cases hlast : entries.getLast? with
      | none => simpa [Op.exec, Cluster.deliver, hown, hlast] using h
      | some last =>
        show Tidy (w.deliver n d entries).1 c
        rw [Cluster.deliver_took hown hhandler hlast]
        by_cases hd : d = c
        · subst hd
          exact h.hand hown hlast hfresh hsorted
        · exact ((h.insert hd).handOther hd n entries).sendOther hd
  | takeInput n =>
    simp only [Op.exec]
    split
    · exact h
    · rename_i input rest _
      have hown : ∀ m, (w.setNode n { w.nodes n with inputs := rest }).own m c = w.own m c := by
        intro m
        by_cases hm : m = n
        · subst hm
          simp [Cluster.own, Cluster.setNode]
        · simp [Cluster.own, Cluster.setNode, hm]
      have hsent : ∀ m, ((w.setNode n { w.nodes n with inputs := rest }).nodes m).sent = (w.nodes m).sent := by
        intro m
        by_cases hm : m = n
        · subst hm
          simp [Cluster.setNode]
        · simp [Cluster.setNode, hm]
      exact h.congr hown rfl rfl hsent rfl
  | commitEnd d passes =>
    simp only [Op.exec]
    split
    · exact h.congr (fun _ => rfl) rfl rfl (fun _ => rfl) rfl
    · exact h
  | post d input => exact h.congr (fun _ => rfl) rfl rfl (fun _ => rfl) rfl
  | addLeased d => exact h.congr (fun _ => rfl) rfl rfl (fun _ => rfl) rfl
  | _ => exact h

end Tidy

end Callio.Inbox
