import Mathlib.Data.List.Perm.Basic
import Callio.Media.Outlines

/-! What a room costs: FreeSWITCH's endpoints and rtpengine's legs, and whose they are. As
long as no media command fails, each operation makes and destroys what it should. -/

namespace Callio.RoomMedia

open Concurrency Fallible
open Rooms (Kind Mode)

/-! ## The stock -/

/-- A leg's endpoint and its key at rtpengine. -/
abbrev Media := Nat × RtpKey

def Leg.media (leg : Leg) : Media := (leg.ep, leg.rtpKey)

def Room.medias (room : Room) : List Media := room.legs.map Leg.media

/-- What the servers hold, and the numbers that the next leg gets. -/
structure Stock where
  worker : Nat
  legSeq : Nat
  endpoints : List Nat
  nextEndpoint : Nat
  rtp : List RtpKey
  strays : Nat
  deriving DecidableEq, Repr

def World.stock (w : World) : Stock :=
  ⟨w.worker, w.room.legSeq, w.server.endpoints, w.server.nextEndpoint, w.server.rtp, w.server.strays⟩

/-- Exactly these are there, none can come again, and none was to go twice. -/
structure Stock.Holds (stock : Stock) (medias : List Media) : Prop where
  endpoints : stock.endpoints.Perm (medias.map Prod.fst)
  rtp : stock.rtp.Perm (medias.map Prod.snd)
  distinct : (medias.map Prod.fst).Nodup ∧ (medias.map Prod.snd).Nodup
  fresh : ∀ m ∈ medias, m.1 < stock.nextEndpoint
  known : ∀ m ∈ medias, m.2.worker < stock.worker ∨ m.2.worker = stock.worker ∧ m.2.seq ≤ stock.legSeq
  strays : stock.strays = 0

namespace Stock.Holds

variable {stock : Stock} {medias medias' : List Media}

theorem perm (h : stock.Holds medias) (hp : medias.Perm medias') : stock.Holds medias' where
  endpoints := h.endpoints.trans (hp.map _)
  rtp := h.rtp.trans (hp.map _)
  distinct := ⟨(hp.map _).nodup_iff.mp h.distinct.1, (hp.map _).nodup_iff.mp h.distinct.2⟩
  fresh m hm := h.fresh m (hp.mem_iff.mpr hm)
  known m hm := h.known m (hp.mem_iff.mpr hm)
  strays := h.strays

theorem destroyed {m : Media} (h : stock.Holds (m :: medias)) :
    Holds { stock with endpoints := stock.endpoints.filter (· ≠ m.1), rtp := stock.rtp.filter (· ≠ m.2) } medias := by
  obtain ⟨hep, hepRest⟩ := List.nodup_cons.mp h.distinct.1
  obtain ⟨hkey, hkeyRest⟩ := List.nodup_cons.mp h.distinct.2
  have hself : ∀ {β : Type} [DecidableEq β] {x : β} {xs : List β}, x ∉ xs → (x :: xs).filter (· ≠ x) = xs := by
    intro β _ x xs hx
    rw [List.filter_cons_of_neg (by simp), List.filter_eq_self]
    intro y hy
    exact decide_eq_true fun heq => hx (heq ▸ hy)
  refine ⟨?_, ?_, ⟨hepRest, hkeyRest⟩, fun x hx => h.fresh x (List.mem_cons_of_mem _ hx),
    fun x hx => h.known x (List.mem_cons_of_mem _ hx), h.strays⟩
  · exact (h.endpoints.filter _).trans (List.Perm.of_eq (hself hep))
  · exact (h.rtp.filter _).trans (List.Perm.of_eq (hself hkey))

/-- A new leg has the next endpoint and the next key of the worker. -/
theorem created (h : stock.Holds medias) (kind : Kind) :
    Holds { stock with
      legSeq := stock.legSeq + 1
      endpoints := stock.endpoints ++ [stock.nextEndpoint]
      nextEndpoint := stock.nextEndpoint + 1
      rtp := stock.rtp ++ [⟨stock.worker, kind, stock.legSeq + 1⟩] }
      ((stock.nextEndpoint, ⟨stock.worker, kind, stock.legSeq + 1⟩) :: medias) where
  endpoints := (h.endpoints.append_right _).trans (List.perm_append_singleton _ _)
  rtp := (h.rtp.append_right _).trans (List.perm_append_singleton _ _)
  distinct := by
    refine ⟨List.nodup_cons.mpr ⟨fun hmem => ?_, h.distinct.1⟩, List.nodup_cons.mpr ⟨fun hmem => ?_, h.distinct.2⟩⟩
    · obtain ⟨m, hm, heq⟩ := List.mem_map.mp hmem
      exact absurd (heq ▸ h.fresh m hm) (Nat.lt_irrefl _)
    · obtain ⟨m, hm, heq⟩ := List.mem_map.mp hmem
      have hknown := h.known m hm
      rw [heq] at hknown
      rcases hknown with hlt | ⟨-, hle⟩
      · exact Nat.lt_irrefl _ hlt
      · exact Nat.lt_irrefl _ hle
  fresh m hm := by
    rcases List.mem_cons.mp hm with rfl | hm
    · exact Nat.lt_succ_self _
    · exact Nat.lt_succ_of_lt (h.fresh m hm)
  known m hm := by
    rcases List.mem_cons.mp hm with rfl | hm
    · exact .inr ⟨rfl, Nat.le_refl _⟩
    · exact (h.known m hm).imp_right fun hknown => ⟨hknown.1, Nat.le_succ_of_le hknown.2⟩
  strays := h.strays

/-- The key of the next leg is not there yet. -/
theorem key_notMem (h : stock.Holds medias) (kind : Kind) : ⟨stock.worker, kind, stock.legSeq + 1⟩ ∉ stock.rtp := by
  intro hmem
  exact (List.nodup_cons.mp (h.created kind).distinct.2).1 (h.rtp.mem_iff.mp hmem)

end Stock.Holds

/-! ## Making and destroying legs -/

section legs

variable {w : World} {medias : List Media}

theorem goes_destroyLeg {leg : Option Leg} {R : Unit → World → Prop}
    (h : w.stock.Holds (leg.toList.map Leg.media ++ medias))
    (hR : ∀ server, (World.stock { w with server }).Holds medias → R () { w with server }) :
    (destroyLeg leg).Goes w R := by
  cases leg with
  | none => exact (goes_pure _).mpr (hR w.server h)
  | some leg =>
    -- The leg is there, so neither command names anything that is not.
    have hep : leg.ep ∈ w.server.endpoints := h.endpoints.mem_iff.mpr (List.mem_cons_self ..)
    have hkey : leg.rtpKey ∈ w.server.rtp := h.rtp.mem_iff.mpr (List.mem_cons_self ..)
    refine ⟨rfl, hR ((w.server.destroyEndpoint leg.ep).deleteRtp leg.rtpKey) ?_⟩
    have hstrays : ((w.server.destroyEndpoint leg.ep).deleteRtp leg.rtpKey).strays = w.server.strays :=
      (if_pos hkey).trans (if_pos hep)
    unfold World.stock
    rw [hstrays]
    exact h.destroyed

theorem goes_destroyLegs {legs : List Leg} {R : Unit → World → Prop} (h : w.stock.Holds (legs.map Leg.media ++ medias))
    (hR : ∀ server, (World.stock { w with server }).Holds medias → R () { w with server }) :
    (destroyLegs legs).Goes w R := by
  induction legs generalizing w with
  | nil => exact (goes_pure _).mpr (hR w.server h)
  | cons leg legs ih =>
    have hleg := @goes_destroyLeg w (legs.map Leg.media ++ medias) (some leg)
    refine Goes.bind (hleg h fun server hserver => ?_)
    exact ih (w := { w with server }) hserver fun server' hserver' => hR server' hserver'

/-- The world with a leg more. -/
def World.created (w : World) (kind : Kind) : World :=
  { w with
    room := { w.room with legSeq := w.room.legSeq + 1 }
    server := (w.server.offerRtp ⟨w.worker, kind, w.room.legSeq + 1⟩).createEndpoint.1 }

theorem offerRtp_new (h : w.stock.Holds medias) (kind : Kind) : w.server.offerRtp ⟨w.worker, kind, w.room.legSeq + 1⟩ =
    { w.server with rtp := w.server.rtp ++ [⟨w.worker, kind, w.room.legSeq + 1⟩] } :=
  if_neg (h.key_notMem kind)

theorem holds_created (h : w.stock.Holds medias) (kind : Kind) : (w.created kind).stock.Holds
    ((w.server.nextEndpoint, ⟨w.worker, kind, w.room.legSeq + 1⟩) :: medias) := by
  have hheld := h.created kind
  unfold World.stock World.created Server.createEndpoint
  rw [offerRtp_new h kind]
  exact hheld

theorem goes_legFromOffer {kind : Kind} {transport : Transport} {R : Leg → World → Prop} (h : w.stock.Holds medias)
    (hR : ∀ leg, (w.created kind).stock.Holds (leg.media :: medias) → R leg (w.created kind)) :
    (legFromOffer kind transport).Goes w R := by
  let key : RtpKey := ⟨w.worker, kind, w.room.legSeq + 1⟩
  have hnext : (w.server.offerRtp key).nextEndpoint = w.server.nextEndpoint :=
    congrArg (·.nextEndpoint) (offerRtp_new h kind)
  refine ⟨rfl, hR ⟨kind, (w.server.offerRtp key).nextEndpoint, key, transport, none, true, none, false⟩ ?_⟩
  rw [hnext]
  exact holds_created h kind

theorem goes_legOffer {kind : Kind} {transport : Transport} {R : Leg → World → Prop} (h : w.stock.Holds medias)
    (hR : ∀ leg, (w.created kind).stock.Holds (leg.media :: medias) → R leg (w.created kind)) :
    (legOffer kind transport).Goes w R := by
  let key : RtpKey := ⟨w.worker, kind, w.room.legSeq + 1⟩
  have hserver : (w.server.offerRtp key).createEndpoint.1 = w.server.createEndpoint.1.offerRtp key := by
    rw [offerRtp_new h kind]
    exact (if_neg (h.key_notMem kind)).symm
  have hleg := hR ⟨kind, w.server.nextEndpoint, key, transport, none, false, none, false⟩ (holds_created h kind)
  unfold World.created at hleg
  rw [hserver] at hleg
  exact ⟨rfl, hleg⟩

end legs

/-! ## Maps of legs -/

namespace Legs

variable {legs : Legs} {id : Nat} {leg : Leg}

theorem delete_of_notMem (h : id ∉ legs.ids) : legs.delete id = legs := delete_of_get (get_eq_none h)

theorem get_cons_self (leg : Leg) (legs : Legs) : get ((id, leg) :: legs) id = some leg := List.lookup_cons_self

theorem get_cons_ne {entry : Nat × Leg} (h : entry.1 ≠ id) : get (entry :: legs) id = legs.get id := by
  unfold get
  rw [List.lookup_cons, beq_false_of_ne (Ne.symm h)]

theorem values_perm_get (id : Nat) (h : legs.ids.Nodup) :
    legs.values.Perm ((legs.get id).toList ++ (legs.delete id).values) := by
  induction legs with
  | nil => exact List.Perm.refl _
  | cons entry legs ih =>
    obtain ⟨hnot, hrest⟩ := List.nodup_cons.mp h
    by_cases hid : entry.1 = id
    · obtain ⟨key, leg⟩ := entry
      obtain rfl : key = id := hid
      have hdelete : Legs.delete ((key, leg) :: legs) key = legs := by
        rw [Legs.delete, List.filter_cons_of_neg (by simp)]
        exact delete_of_notMem hnot
      rw [get_cons_self, hdelete]
      exact List.Perm.refl _
    · have hdelete : Legs.delete (entry :: legs) id = entry :: Legs.delete legs id :=
        List.filter_cons_of_pos (decide_eq_true hid)
      rw [get_cons_ne hid, hdelete]
      exact ((ih hrest).cons entry.2).trans List.perm_middle.symm

theorem get_set_self (legs : Legs) (id : Nat) (leg : Leg) : (legs.set id leg).get id = some leg := by
  unfold set
  split
  · rename_i hsome
    obtain ⟨entry, hentry, rfl⟩ := List.mem_map.mp (get_isSome.mp hsome)
    clear hsome
    induction legs with
    | nil => cases hentry
    | cons first legs ih =>
      rw [List.map_cons]
      by_cases hid : first.1 = entry.1
      · rw [if_pos hid]
        exact get_cons_self leg _
      · rw [if_neg hid, get_cons_ne hid]
        exact ih ((List.mem_cons.mp hentry).resolve_left fun heq => hid (heq ▸ rfl))
  · rename_i hnone
    have hid : id ∉ legs.ids := fun hin => hnone (get_isSome.mpr hin)
    unfold get
    rw [List.lookup_append, show legs.lookup id = none from get_eq_none hid]
    exact get_cons_self leg []

theorem delete_set (legs : Legs) (id : Nat) (leg : Leg) : (legs.set id leg).delete id = legs.delete id := by
  unfold set
  split
  · unfold delete
    rw [List.filter_map]
    have hfilter : legs.filter ((fun entry : Nat × Leg => decide (entry.1 ≠ id)) ∘ fun entry =>
        if entry.1 = id then (id, leg) else entry) = legs.filter (·.1 ≠ id) := by
      refine List.filter_congr fun entry _ => ?_
      by_cases hid : entry.1 = id <;> simp [hid]
    rw [hfilter]
    refine (List.map_congr_left fun entry hentry => ?_).trans (List.map_id _)
    exact if_neg (of_decide_eq_true (List.mem_filter.mp hentry).2)
  · unfold delete
    rw [List.filter_append, List.filter_cons_of_neg (by simp)]
    exact List.append_nil _

theorem nodup_set (h : legs.ids.Nodup) (id : Nat) (leg : Leg) : (legs.set id leg).ids.Nodup := by
  rw [ids_set]
  split
  · exact h
  · rename_i hid
    exact List.nodup_append.mpr ⟨h, by simp, fun a ha b hb => by
      rintro rfl
      exact hid (List.mem_singleton.mp hb ▸ ha)⟩

theorem nodup_delete (h : legs.ids.Nodup) (id : Nat) : (legs.delete id).ids.Nodup := by
  rw [ids_delete]
  exact h.filter _

theorem values_perm_set (h : legs.ids.Nodup) (id : Nat) (leg : Leg) :
    (legs.set id leg).values.Perm (leg :: (legs.delete id).values) := by
  have hperm := values_perm_get id (nodup_set h id leg)
  rwa [get_set_self, delete_set] at hperm

theorem mem_of_get (h : legs.get id = some leg) : (id, leg) ∈ legs := by
  unfold get at h
  obtain ⟨before, after, heq, -⟩ := List.lookup_eq_some_iff.mp h
  rw [heq]
  simp

theorem get_of_mem (h : legs.ids.Nodup) (hmem : (id, leg) ∈ legs) : legs.get id = some leg := by
  induction legs with
  | nil => cases hmem
  | cons entry legs ih =>
    obtain ⟨hnot, hrest⟩ := List.nodup_cons.mp h
    rcases List.mem_cons.mp hmem with rfl | hmem
    · exact get_cons_self leg legs
    · rw [get_cons_ne (fun heq => hnot (List.mem_map.mpr ⟨_, hmem, heq.symm⟩))]
      exact ih hrest hmem

theorem notMem_delete (legs : Legs) (id : Nat) : id ∉ (legs.delete id).ids := by
  rw [ids_delete]
  exact fun h => absurd rfl (of_decide_eq_true (List.mem_filter.mp h).2)

theorem mem_of_mem_set {entry : Nat × Leg} (h : entry ∈ legs.set id leg) : entry = (id, leg) ∨ entry ∈ legs := by
  unfold set at h
  split at h
  · obtain ⟨entry', hentry', rfl⟩ := List.mem_map.mp h
    split
    · exact .inl rfl
    · exact .inr hentry'
  · exact (List.mem_append.mp h).symm.imp_left List.mem_singleton.mp

/-- An entry that changes nothing that `f` looks at. -/
theorem map_set_of_get {β : Type} {f : Nat × Leg → β} {leg' : Leg} (h : legs.ids.Nodup) (hget : legs.get id = some leg)
    (hf : f (id, leg') = f (id, leg)) : (legs.set id leg').map f = legs.map f := by
  unfold set
  rw [if_pos (by rw [hget]; rfl), List.map_map]
  refine List.map_congr_left fun entry hentry => ?_
  by_cases hid : entry.1 = id
  · obtain ⟨key, leg''⟩ := entry
    obtain rfl : key = id := hid
    have heq := get_of_mem h hentry
    rw [hget] at heq
    cases heq
    simp [hf]
  · simp [hid]

end Legs

/-! ## What the room holds -/

/-- What is there is the room's, and `lost` beside it. -/
structure Kept (lost : List Media) (w : World) : Prop where
  holds : w.stock.Holds (w.room.medias ++ lost)
  agents : w.room.agents.ids.Nodup
  named : ∀ entry ∈ w.room.agents, entry.2.agentId = some entry.1
  supervisors : w.room.supervisors.ids.Nodup
  pending : w.room.pendingSupervisors.ids.Nodup

/-- A room as far as its legs' media and owners go. -/
def Room.view (room : Room) :
    Option Media × Option Media × List (Nat × Media × Option Nat) × List (Nat × Media) × List (Nat × Media) :=
  (room.customer.map Leg.media, room.pendingAgent.map Leg.media,
    room.agents.map fun entry => (entry.1, entry.2.media, entry.2.agentId),
    room.supervisors.map fun entry => (entry.1, entry.2.media),
    room.pendingSupervisors.map fun entry => (entry.1, entry.2.media))

theorem Room.medias_eq (room : Room) : room.medias =
    room.customer.toList.map Leg.media ++ (room.pendingAgent.toList.map Leg.media ++ (room.agents.values.map Leg.media ++
      (room.supervisors.values.map Leg.media ++ room.pendingSupervisors.values.map Leg.media))) := by
  simp [Room.medias, Room.legs]

theorem Kept.of_view {lost : List Media} {w w' : World} (h : Kept lost w) (hroom : w'.room.view = w.room.view)
    (hstock : w'.stock = w.stock) : Kept lost w' := by
  simp only [Room.view, Prod.mk.injEq] at hroom
  obtain ⟨hcustomer, hpendingAgent, hagents, hsupervisors, hpending⟩ := hroom
  have hids : ∀ {legs legs' : Legs}, (legs'.map fun e => (e.1, e.2.media)) = legs.map (fun e => (e.1, e.2.media)) →
      legs'.ids = legs.ids ∧ legs'.values.map Leg.media = legs.values.map Leg.media := by
    intro legs legs' heq
    have hfst := congrArg (List.map Prod.fst) heq
    have hsnd := congrArg (List.map Prod.snd) heq
    simp only [List.map_map] at hfst hsnd
    refine ⟨hfst, ?_⟩
    unfold Legs.values
    rw [List.map_map, List.map_map]
    exact hsnd
  have hagents' : (w'.room.agents.map fun e => (e.1, e.2.media)) = w.room.agents.map fun e => (e.1, e.2.media) := by
    have hdrop := congrArg (List.map fun x : Nat × Media × Option Nat => (x.1, x.2.1)) hagents
    simpa [Function.comp_def] using hdrop
  have htoList : ∀ {leg leg' : Option Leg}, leg'.map Leg.media = leg.map Leg.media →
      leg'.toList.map Leg.media = leg.toList.map Leg.media := by
    intro leg leg' heq
    rw [← Option.toList_map, ← Option.toList_map, heq]
  have hmedias : w'.room.medias = w.room.medias := by
    rw [Room.medias_eq, Room.medias_eq, htoList hcustomer, htoList hpendingAgent, (hids hagents').2, (hids hsupervisors).2,
      (hids hpending).2]
  refine ⟨?_, ?_, fun entry hentry => ?_, ?_, ?_⟩
  · rw [hstock, hmedias]
    exact h.holds
  · rw [(hids hagents').1]
    exact h.agents
  · have hmem := List.mem_map_of_mem (f := fun e : Nat × Leg => (e.1, e.2.media, e.2.agentId)) hentry
    rw [hagents] at hmem
    obtain ⟨entry', hentry', heq⟩ := List.mem_map.mp hmem
    simp only [Prod.mk.injEq] at heq
    rw [← heq.2.2, ← heq.1]
    exact h.named entry' hentry'
  · rw [(hids hsupervisors).1]
    exact h.supervisors
  · rw [(hids hpending).1]
    exact h.pending

/-! ## Commands that make and destroy no leg -/

/-- It returns, and the room has the same legs, on the same endpoints. -/
def Idle {α : Type} (m : Code α) : Prop :=
  ∀ w, w.room.agents.ids.Nodup → m.Goes w fun _ w' => w'.room.view = w.room.view ∧ w'.stock = w.stock ∧ w'.held = w.held

section idle

variable {α β : Type}

theorem nodup_of_view {room room' : Room} (h : room'.view = room.view) (hnodup : room.agents.ids.Nodup) :
    room'.agents.ids.Nodup := by
  have hids := congrArg (fun v => v.2.2.1.map Prod.fst) h
  simp only [Room.view, List.map_map] at hids
  unfold Legs.ids at *
  rwa [show room'.agents.map (·.1) = room.agents.map (·.1) from hids]

theorem idle_pure (a : α) : Idle (pure a) := fun _ _ => (goes_pure a).mpr ⟨rfl, rfl, rfl⟩

theorem idle_theRoom : Idle theRoom := fun _ _ => (goes_read _).mpr ⟨rfl, rfl, rfl⟩

theorem idle_api : Idle api := fun _ _ => ⟨rfl, rfl, rfl, rfl⟩

theorem Idle.bind {m : Code α} {f : α → Code β} (hm : Idle m) (hf : ∀ a, Idle (f a)) : Idle (m >>= f) := by
  intro w hnodup
  refine Goes.bind ((hm w hnodup).mono fun a w' h => ?_)
  exact (hf a w' (nodup_of_view h.1 hnodup)).mono fun _ _ h' =>
    ⟨h'.1.trans h.1, h'.2.1.trans h.2.1, h'.2.2.trans h.2.2⟩

theorem Idle.caught {m : Code Unit} (hm : Idle m) : Idle (Fallible.caught m) := fun w hnodup => (hm w hnodup).caught

theorem idle_modify {f : Room → Room} (hview : ∀ room, (f room).view = room.view)
    (hseq : ∀ room, (f room).legSeq = room.legSeq) : Idle (modify f) := by
  intro w _
  refine (goes_change _).mpr ⟨hview w.room, ?_, rfl⟩
  unfold World.stock
  rw [show ({ w with room := f w.room } : World).room.legSeq = w.room.legSeq from hseq w.room]

theorem idle_soundTo (cust : Nat) (on : Bool) (sound : Sound) : Idle (soundTo cust on sound) := by
  intro w _
  unfold soundTo
  split
  · have hplay : ∃ playing, w.server.play cust sound = { w.server with playing } := by
      unfold Server.play
      split
      · exact ⟨_, rfl⟩
      · exact ⟨_, rfl⟩
    obtain ⟨playing, hplay⟩ := hplay
    refine (goes_command _).mpr ⟨rfl, ?_, rfl⟩
    show World.stock { w with server := w.server.play cust sound } = w.stock
    rw [hplay]
    rfl
  · exact (goes_command _).mpr ⟨rfl, rfl, rfl⟩

theorem idle_tone (on : Bool) : Idle (tone on) := by
  refine idle_theRoom.bind fun room => ?_
  split
  · exact idle_pure ()
  · split
    · exact idle_pure ()
    · exact (idle_modify (fun _ => by rfl) fun _ => by rfl).bind fun _ => idle_soundTo _ _ _

theorem idle_hold (on : Bool) (audio : Option String) : Idle (hold on audio) := by
  refine idle_theRoom.bind fun room => ?_
  split
  · exact idle_pure ()
  · split
    · exact idle_pure ()
    · exact (idle_modify (fun _ => by rfl) fun _ => by rfl).bind fun _ => idle_soundTo _ _ _

theorem idle_forLegs {rule : Leg → Code Unit} (h : ∀ leg, Idle (rule leg)) (legs : List Leg) :
    Idle (forLegs rule legs) := by
  induction legs with
  | nil => exact idle_pure ()
  | cons leg legs ih => exact (h leg).bind fun _ => ih

theorem idle_supervisorRule (cust : Option Nat) (leg : Leg) : Idle (supervisorRule cust leg) := by
  unfold supervisorRule
  split
  · exact idle_pure ()
  · refine idle_api.bind fun _ => ?_
    split
    · exact idle_api
    · exact idle_pure ()

theorem idle_agentRule (leg : Leg) : Idle (agentRule leg) := by
  unfold agentRule
  split
  · exact idle_pure ()
  · exact idle_api

theorem idle_rules : Idle rules := by
  refine idle_theRoom.bind fun room => (idle_forLegs (idle_supervisorRule _) _).bind fun _ => ?_
  split
  · exact idle_forLegs idle_agentRule _
  · exact idle_pure ()

theorem idle_breakCustomer : Idle breakCustomer := by
  refine idle_theRoom.bind fun room => ?_
  split
  · exact idle_api.caught
  · exact idle_pure ()

theorem idle_watchCustomer : Idle watchCustomer := by
  refine idle_modify (fun room => ?_) fun room => ?_
  · split <;> rfl
  · split <;> rfl

theorem goes_join {leg : Leg} {w : World} {R : Leg → World → Prop}
    (hR : ∀ leg' server, leg'.media = leg.media → leg'.agentId = leg.agentId →
      World.stock { w with server } = w.stock → R leg' { w with server }) : (join leg).Goes w R := by
  unfold join
  split
  · exact (goes_pure _).mpr (hR leg w.server rfl rfl rfl)
  · refine Goes.bind ((goes_command _).mpr (Goes.bind (Goes.caught ?_)))
    exact ⟨rfl, (goes_pure _).mpr (hR _ (w.server.join leg.ep).1 rfl rfl rfl)⟩

theorem idle_joinCustomer : Idle joinCustomer := by
  intro w _
  refine Goes.bind ((goes_read _).mpr ?_)
  cases hcustomer : w.room.customer with
  | none => exact (goes_pure _).mpr ⟨rfl, rfl, rfl⟩
  | some leg =>
    refine Goes.bind (goes_join fun leg' server hmedia _ hstock => (goes_change _).mpr ⟨?_, hstock, rfl⟩)
    simp only [Room.view, hcustomer, Option.map_some, hmedia]

theorem idle_joinAgents (ids : List Nat) : Idle (joinAgents ids) := by
  induction ids with
  | nil => exact idle_pure ()
  | cons agentId ids ih =>
    intro w hnodup
    refine Goes.bind ((goes_read _).mpr ?_)
    cases hget : w.room.agents.get agentId with
    | none => exact ih w hnodup
    | some leg =>
      refine Goes.bind (goes_join fun leg' server hmedia hagent hstock => Goes.bind ((goes_change _).mpr ?_))
      have hview : ({ w.room with agents := w.room.agents.set agentId leg' } : Room).view = w.room.view := by
        simp only [Room.view]
        rw [Legs.map_set_of_get hnodup hget]
        rw [hmedia, hagent]
      refine (ih _ (nodup_of_view hview hnodup)).mono fun _ w' h => ?_
      exact ⟨h.1.trans hview, h.2.1.trans hstock, h.2.2⟩

theorem idle_enterIfOut : Idle enterIfOut := by
  refine idle_theRoom.bind fun room => ?_
  split
  · exact idle_breakCustomer.bind fun _ => idle_joinCustomer
  · exact idle_pure ()

theorem idle_bridge (recorded : Option Nat) : Idle (bridge recorded) := by
  refine idle_theRoom.bind fun room => ?_
  split
  · exact idle_pure _
  · exact idle_enterIfOut.bind fun _ => (idle_hold _ _).bind fun _ => (idle_joinAgents _).bind fun _ =>
      (idle_tone _).bind fun _ => idle_rules.bind fun _ =>
        (idle_modify (fun _ => by rfl) fun _ => by rfl).bind fun _ => idle_pure _

theorem idle_setSupervisorMode (mode : Mode) : Idle (setSupervisorMode mode) :=
  idle_theRoom.bind fun _ => (idle_modify (fun _ => by rfl) fun _ => by rfl).bind fun _ =>
    idle_rules.bind fun _ => idle_pure _

theorem idle_setAgentPrivate (active : Bool) : Idle (setAgentPrivate active) :=
  idle_theRoom.bind fun _ => (idle_modify (fun _ => by rfl) fun _ => by rfl).bind fun _ =>
    idle_rules.bind fun _ => idle_theRoom.bind fun _ => idle_pure _

theorem idle_startHold (audio : Option String) : Idle (startHold audio) := by
  refine idle_theRoom.bind fun room => ?_
  split
  · exact idle_pure ()
  · exact idle_breakCustomer.bind fun _ => idle_joinCustomer.bind fun _ => idle_hold _ _

/-- Whether the room is still in the map, and the worker it is on. -/
def World.seat (w : World) : Held × Nat := (w.held, w.worker)

theorem Kept.idle {lost : List Media} {w : World} {m : Code α} (h : Kept lost w) (hm : Idle m) :
    m.Goes w fun _ w' => Kept lost w' ∧ w'.seat = w.seat :=
  (hm w h.agents).mono fun _ _ hq =>
    ⟨h.of_view hq.1 hq.2.1, Prod.ext hq.2.2 (congrArg Stock.worker hq.2.1)⟩

end idle

end Callio.RoomMedia
