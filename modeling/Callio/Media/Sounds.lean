import Callio.Media.Outlines

/-! What plays to the customer. With every command succeeding, each step of `RoomMedia` is followed
for what it does to the two flags and to the sounds on the customer's conference member; the rest of
the room matters only in that no other leg is the customer's. -/

namespace Callio.RoomMedia

open Concurrency Fallible
open Rooms (Kind Mode)

/-! ## What is heard -/

/-- What plays to the customer's current conference member. -/
def heard (room : Room) (server : Server) : List Sound := (room.customerId.map server.playing).getD []

/-- An agent is in the conference. -/
def Joined (room : Room) : Prop := ∃ leg ∈ room.agents.values, leg.memberId.isSome = true

/-- The customer's ear, and what the room takes to be in it. -/
structure Voice where
  present : Bool
  holdOn : Bool
  toneOn : Bool
  sounds : List Sound

def voice (w : World) : Voice where
  present := w.room.customerId.isSome
  holdOn := w.room.holdOn
  toneOn := w.room.toneOn
  sounds := heard w.room w.server

namespace Voice

/-- The flags say what plays. -/
structure Truthful (v : Voice) : Prop where
  hold : v.holdOn = true ↔ ∃ sound ∈ v.sounds, sound.isHold = true
  tone : v.toneOn = true ↔ Sound.tone ∈ v.sounds

/-- One sound for a flag of its own; turning it off silences both. -/
def soundTo (v : Voice) (on : Bool) (sound : Sound) : List Sound :=
  if on then v.sounds ++ [sound] else []

def tone (v : Voice) (on : Bool) : Voice :=
  if v.present = false ∨ v.toneOn = on then v
  else { v with toneOn := on, sounds := v.soundTo on .tone }

def hold (v : Voice) (on : Bool) (audio : Option String) : Voice :=
  if v.present = false ∨ v.holdOn = on then v
  else { v with holdOn := on, sounds := v.soundTo on (.hold audio) }

/-- The customer is in the conference. -/
def entered (v : Voice) : Voice := { v with present := true }

/-- The customer has a leg that is in no conference yet. -/
def replaced (v : Voice) : Voice := { v with present := false, sounds := [] }

variable {v : Voice}

/-- With both flags off, nothing plays. -/
theorem Truthful.silent (h : v.Truthful) (hhold : v.holdOn = false) (htone : v.toneOn = false) :
    v.sounds = [] := by
  apply List.eq_nil_iff_forall_not_mem.mpr
  intro sound hmem
  cases sound with
  | hold audio =>
    have hon := h.hold.mpr ⟨_, hmem, rfl⟩
    rw [hhold] at hon
    cases hon
  | tone =>
    have hon := h.tone.mpr hmem
    rw [htone] at hon
    cases hon

theorem truthful_of_silent (hhold : v.holdOn = false) (htone : v.toneOn = false)
    (hsounds : v.sounds = []) : v.Truthful := by
  constructor
  · simp [hhold, hsounds]
  · simp [htone, hsounds]

theorem Truthful.tone_on (h : v.Truthful) : (v.tone true).Truthful := by
  unfold Voice.tone
  split
  · exact h
  · constructor
    · rw [show (_ : Voice).holdOn = v.holdOn from rfl, h.hold]
      simp [soundTo, Sound.isHold]
    · simp [soundTo]

theorem Truthful.hold_on (h : v.Truthful) (audio : Option String) : (v.hold true audio).Truthful := by
  unfold Voice.hold
  split
  · exact h
  · constructor
    · simp [soundTo, Sound.isHold]
    · rw [show (_ : Voice).toneOn = v.toneOn from rfl, h.tone]
      simp [soundTo]

/-- The hold's end silences the tone. -/
theorem Truthful.hold_off (h : v.Truthful) (hpresent : v.present = true) (audio : Option String) :
    (v.hold false audio).Truthful ↔ ¬ (v.holdOn = true ∧ v.toneOn = true) := by
  unfold Voice.hold
  cases hhold : v.holdOn with
  | false =>
    rw [if_pos (.inr rfl)]
    exact iff_of_true h fun hboth => Bool.false_ne_true hboth.1
  | true =>
    rw [if_neg (by simp [hpresent])]
    constructor
    · intro htrue hboth
      have hmem := htrue.tone.mp hboth.2
      simp [soundTo] at hmem
    · intro hnot
      exact truthful_of_silent rfl (by simpa using hnot) rfl

/-- Both off, one after the other. -/
theorem Truthful.off (h : v.Truthful) (hpresent : v.present = true) (audio : Option String) :
    (v.hold false audio).tone false = ⟨true, false, false, []⟩ := by
  obtain ⟨present, holdOn, toneOn, sounds⟩ := v
  cases hpresent
  cases holdOn <;> cases toneOn
  · have hsilent := h.silent rfl rfl
    simp only at hsilent
    simp [Voice.hold, Voice.tone, hsilent]
  all_goals simp [Voice.hold, Voice.tone, soundTo]

/-- Without a leg in the conference no flag can be true. -/
theorem Truthful.absent (h : v.Truthful) (hsounds : v.sounds = []) :
    v.holdOn = false ∧ v.toneOn = false := by
  constructor
  · have hnot : ¬ v.holdOn = true := fun hon => by simpa [hsounds] using h.hold.mp hon
    simpa using hnot
  · have hnot : ¬ v.toneOn = true := fun hon => by simpa [hsounds] using h.tone.mp hon
    simpa using hnot

end Voice

/-! ## The customer's leg and the others -/

/-- Members to come have no endpoint, and nothing plays to them. -/
def Server.Fresh (server : Server) : Prop :=
  ∀ m, server.nextMember ≤ m → server.member m = none ∧ server.playing m = []

namespace Room

def others (room : Room) : List Leg :=
  room.pendingAgent.toList ++ room.agents.values ++ room.supervisors.values ++
    room.pendingSupervisors.values

theorem mem_others {room : Room} {leg : Leg} : leg ∈ room.others ↔ room.pendingAgent = some leg ∨
    leg ∈ room.agents.values ∨ leg ∈ room.supervisors.values ∨
      leg ∈ room.pendingSupervisors.values := by
  unfold others
  rw [List.mem_append, List.mem_append, List.mem_append, Option.mem_toList, or_assoc, or_assoc]

end Room

/-- The leg is not the customer's. -/
structure Apart (w : World) (leg : Leg) : Prop where
  below : leg.ep < w.server.nextEndpoint
  ne : ∀ cust, w.room.customer = some cust → leg.ep ≠ cust.ep

structure Tidy (w : World) : Prop where
  fresh : w.server.Fresh
  below : ∀ cust, w.room.customer = some cust → cust.ep < w.server.nextEndpoint
  member : ∀ cust m, w.room.customer = some cust → cust.memberId = some m →
    w.server.member m = some cust.ep
  apart : ∀ leg ∈ w.room.others, Apart w leg
  waiting : ∀ leg, w.room.pendingAgent = some leg → leg.memberId = none

/-- The customer hears nothing of it. -/
structure Quiet (w w' : World) : Prop where
  tidy : Tidy w → Tidy w'
  voice : Tidy w → voice w' = voice w
  ep : w'.room.customer.map (·.ep) = w.room.customer.map (·.ep)
  next : w.server.nextEndpoint ≤ w'.server.nextEndpoint

theorem Quiet.rfl {w : World} : Quiet w w := ⟨id, fun _ => Eq.refl _, Eq.refl _, Nat.le_refl _⟩

theorem Quiet.trans {w w' w'' : World} (h : Quiet w w') (h' : Quiet w' w'') : Quiet w w'' where
  tidy htidy := h'.tidy (h.tidy htidy)
  voice htidy := (h'.voice (h.tidy htidy)).trans (h.voice htidy)
  ep := h'.ep.trans h.ep
  next := Nat.le_trans h.next h'.next

theorem Apart.quiet {w w' : World} {leg : Leg} (h : Apart w leg) (hquiet : Quiet w w') :
    Apart w' leg := by
  refine ⟨Nat.lt_of_lt_of_le h.below hquiet.next, fun cust hcust heq => ?_⟩
  have hep := hquiet.ep
  rw [hcust] at hep
  obtain ⟨before, hbefore, hsame⟩ := Option.map_eq_some_iff.mp hep.symm
  exact h.ne before hbefore (heq.trans hsame.symm)

/-! ### What the room may do -/

/-- The room changes, but not in the customer's leg or the flags. -/
theorem quiet_room {w : World} {room : Room} (hcustomer : room.customer = w.room.customer)
    (hhold : room.holdOn = w.room.holdOn) (htone : room.toneOn = w.room.toneOn)
    (hothers : ∀ leg ∈ room.others, leg ∈ w.room.others ∨ Apart w leg)
    (hwaiting : ∀ leg, room.pendingAgent = some leg →
      w.room.pendingAgent = some leg ∨ leg.memberId = none) : Quiet w { w with room } := by
  refine ⟨fun h => ⟨h.fresh, fun cust hcust => ?_, fun cust m hcust => ?_, fun leg hleg => ?_,
    fun leg hleg => ?_⟩, fun _ => ?_, congrArg _ hcustomer, Nat.le_refl _⟩
  · exact h.below cust (hcustomer.symm.trans hcust)
  · exact h.member cust m (hcustomer.symm.trans hcust)
  · have hbefore : Apart w leg := (hothers leg hleg).elim (h.apart leg) id
    exact ⟨hbefore.below, fun cust hcust => hbefore.ne cust (hcustomer.symm.trans hcust)⟩
  · exact (hwaiting leg hleg).elim (h.waiting leg) id
  · unfold RoomMedia.voice heard Room.customerId
    rw [hcustomer, hhold, htone]

/-! ### What the server may do -/

/-- Nothing becomes of endpoints and members. -/
theorem quiet_server {w : World} {server : Server}
    (hnext : server.nextEndpoint = w.server.nextEndpoint) (hmember : server.member = w.server.member)
    (hnextMember : server.nextMember = w.server.nextMember)
    (hplaying : server.playing = w.server.playing) : Quiet w { w with server } := by
  refine ⟨fun h => ⟨?_, fun cust hcust => ?_, fun cust m hcust hm => ?_, fun leg hleg => ?_,
    h.waiting⟩, fun _ => ?_, rfl, Nat.le_of_eq hnext.symm⟩
  · unfold Server.Fresh
    rw [hnextMember, hmember, hplaying]
    exact h.fresh
  · exact hnext ▸ h.below cust hcust
  · exact hmember ▸ h.member cust m hcust hm
  · exact ⟨hnext ▸ (h.apart leg hleg).below, (h.apart leg hleg).ne⟩
  · unfold RoomMedia.voice heard
    rw [hplaying]

theorem quiet_offerRtp (w : World) (rtpKey : RtpKey) :
    Quiet w { w with server := w.server.offerRtp rtpKey } := by
  unfold Server.offerRtp
  split <;> exact quiet_server rfl rfl rfl rfl

theorem quiet_deleteRtp (w : World) (rtpKey : RtpKey) :
    Quiet w { w with server := w.server.deleteRtp rtpKey } := quiet_server rfl rfl rfl rfl

theorem quiet_createEndpoint (w : World) :
    Quiet w { w with server := w.server.createEndpoint.1 } := by
  have hle : w.server.nextEndpoint ≤ w.server.nextEndpoint + 1 := Nat.le_succ _
  refine ⟨fun h => ⟨h.fresh, fun cust hcust => ?_, h.member, fun leg hleg => ?_, h.waiting⟩,
    fun _ => rfl, rfl, hle⟩
  · exact Nat.lt_of_lt_of_le (h.below cust hcust) hle
  · exact ⟨Nat.lt_of_lt_of_le (h.apart leg hleg).below hle, (h.apart leg hleg).ne⟩

/-- A leg made now is nobody's yet. -/
theorem Tidy.apart_created {w : World} (h : Tidy w) {leg : Leg}
    (hep : leg.ep = w.server.nextEndpoint) :
    Apart { w with server := w.server.createEndpoint.1 } leg := by
  refine ⟨hep ▸ Nat.lt_succ_self _, fun cust hcust => ?_⟩
  have hbelow := h.below cust hcust
  omega

theorem quiet_join (w : World) (ep : Nat) : Quiet w { w with server := (w.server.join ep).1 } := by
  refine ⟨fun h => ⟨fun m hm => ?_, h.below, fun cust m hcust hm => ?_, fun leg hleg => ?_,
    h.waiting⟩, fun _ => rfl, rfl, Nat.le_refl _⟩
  · have hm' : w.server.nextMember + 1 ≤ m := hm
    have hne : m ≠ w.server.nextMember := by omega
    obtain ⟨hmember, hplaying⟩ := h.fresh m (by omega)
    exact ⟨(Function.update_of_ne hne _ _).trans hmember, hplaying⟩
  · have hbefore := h.member cust m hcust hm
    have hne : m ≠ w.server.nextMember := by
      rintro rfl
      rw [(h.fresh _ (Nat.le_refl _)).1] at hbefore
      cases hbefore
    exact (Function.update_of_ne hne _ _).trans hbefore
  · exact ⟨(h.apart leg hleg).below, (h.apart leg hleg).ne⟩

theorem fresh_destroyEndpoint {server : Server} (h : server.Fresh) (ep : Nat) :
    (server.destroyEndpoint ep).Fresh := by
  intro m hm
  obtain ⟨hmember, hplaying⟩ := h m hm
  unfold Server.destroyEndpoint
  simp only [hmember, hplaying, Option.filter_none, ite_self, and_self]

/-- Another's endpoint goes. -/
theorem quiet_destroyEndpoint {w : World} {leg : Leg} (hapart : Apart w leg) :
    Quiet w { w with server := w.server.destroyEndpoint leg.ep } := by
  refine ⟨fun h => ⟨fresh_destroyEndpoint h.fresh _, h.below, fun cust m hcust hm => ?_,
    fun leg hleg => ⟨(h.apart leg hleg).below, (h.apart leg hleg).ne⟩, h.waiting⟩, fun h => ?_, rfl,
    Nat.le_refl _⟩
  · show (w.server.member m).filter (· ≠ leg.ep) = _
    rw [h.member cust m hcust hm]
    have hne : cust.ep ≠ leg.ep := (hapart.ne cust hcust).symm
    simp [hne]
  · have hsame : heard w.room (w.server.destroyEndpoint leg.ep) = heard w.room w.server := by
      unfold heard Room.customerId
      cases hcust : w.room.customer with
      | none => rfl
      | some cust =>
        cases hm : cust.memberId with
        | none => simp [hm]
        | some m =>
          have hne : cust.ep ≠ leg.ep := (hapart.ne cust hcust).symm
          simp [hm, Server.destroyEndpoint, h.member cust m hcust hm, hne]
    unfold RoomMedia.voice
    rw [hsame]

theorem quiet_destroyLeg {w : World} {leg : Leg} (hapart : Apart w leg) :
    Quiet w { w with server := (w.server.destroyEndpoint leg.ep).deleteRtp leg.rtpKey } :=
  (quiet_destroyEndpoint hapart).trans (quiet_deleteRtp _ _)

/-! ### Steps the customer hears nothing of -/

/-- And no agent has joined by it. -/
structure Calm (w w' : World) : Prop extends Quiet w w' where
  joined : Joined w'.room → Joined w.room

theorem Calm.rfl {w : World} : Calm w w := ⟨Quiet.rfl, id⟩

theorem Calm.trans {w w' w'' : World} (h : Calm w w') (h' : Calm w' w'') : Calm w w'' :=
  ⟨h.toQuiet.trans h'.toQuiet, fun hjoined => h.joined (h'.joined hjoined)⟩

theorem Quiet.calm {w w' : World} (h : Quiet w w') (hagents : w'.room.agents = w.room.agents) :
    Calm w w' := by
  refine ⟨h, fun hjoined => ?_⟩
  unfold Joined at hjoined
  rwa [hagents] at hjoined

/-- From a tidy world, no command failing, it goes on calmly and returns as `Q` says. -/
def Softly {α : Type} (m : Code α) (w : World) (Q : α → World → Prop) : Prop :=
  Tidy w → m.Ends ⟨w, []⟩ (fun a w' => w'.faults = [] ∧ Calm w w'.state ∧ Q a w'.state)
    fun w' => w'.faults = [] ∧ Calm w w'.state

section Softly

variable {α β : Type} {m : Code α} {w : World} {Q : α → World → Prop}

theorem Softly.bind {f : α → Code β} {Q' : β → World → Prop} (hm : Softly m w Q)
    (hf : ∀ a w', Calm w w' → Q a w' → Softly (f a) w' Q') : Softly (m >>= f) w Q' := by
  intro htidy
  rw [ends_bind]
  refine (hm htidy).mono (fun a w' h => ?_) fun _ h => h
  obtain ⟨hfaults, hcalm, hQ⟩ := h
  obtain ⟨w', faults⟩ := w'
  cases hfaults
  refine (hf a w' hcalm hQ (hcalm.tidy htidy)).mono (fun b w'' h => ?_) fun w'' h => ?_
  · exact ⟨h.1, hcalm.trans h.2.1, h.2.2⟩
  · exact ⟨h.1, hcalm.trans h.2⟩

theorem Softly.mono {Q' : α → World → Prop} (h : Softly m w Q)
    (hQ : ∀ a w', Calm w w' → Q a w' → Q' a w') : Softly m w Q' :=
  fun htidy => (h htidy).mono (fun a w' h => ⟨h.1, h.2.1, hQ a w'.state h.2.1 h.2.2⟩) fun _ h => h

theorem Softly.of_tidy (h : Tidy w → Softly m w Q) : Softly m w Q := fun htidy => h htidy htidy

theorem softly_pure {a : α} (h : Q a w) : Softly (pure a) w Q := fun _ => ⟨rfl, Calm.rfl, h⟩

theorem softly_throw : Softly (throw () : Code α) w Q := fun _ => ⟨rfl, Calm.rfl⟩

theorem softly_read {f : World → α} : Softly (Fallible.read f) w fun a w' => a = f w ∧ w' = w :=
  fun _ => ⟨rfl, Calm.rfl, rfl, rfl⟩

theorem softly_modify {change : Room → Room} (h : Tidy w → Calm w { w with room := change w.room }) :
    Softly (modify change) w fun _ w' => w' = { w with room := change w.room } :=
  fun htidy => ⟨rfl, h htidy, rfl⟩

theorem softly_api : Softly api w fun _ w' => w' = w := fun _ => ⟨rfl, Calm.rfl, rfl⟩

theorem softly_ite {c : Prop} [Decidable c] {m' : Code α} (hm : c → Softly m w Q)
    (hm' : ¬ c → Softly m' w Q) : Softly (if c then m else m') w Q := by
  split
  · exact hm ‹_›
  · exact hm' ‹_›

end Softly

/-! ### The internals -/

variable {w : World}

theorem softly_destroyLeg {leg : Option Leg} (h : ∀ l, leg = some l → Tidy w → Apart w l) :
    Softly (destroyLeg leg) w fun _ w' => w'.room = w.room := by
  cases leg with
  | none => exact softly_pure rfl
  | some leg => exact fun htidy => ⟨rfl, (quiet_destroyLeg (h leg rfl htidy)).calm rfl, rfl⟩

/-- All that making a leg changes of the room. -/
def counted (room : Room) : Room := { room with legSeq := room.legSeq + 1 }

theorem quiet_counted : Quiet w { w with room := counted w.room } :=
  quiet_room rfl rfl rfl (fun _ => .inl) fun _ => .inl

theorem softly_legFromOffer (kind : Kind) (transport : Transport) :
    Softly (legFromOffer kind transport) w fun leg w' =>
      Apart w' leg ∧ leg.memberId = none ∧ w'.room = counted w.room := by
  intro htidy
  let rtpKey : RtpKey := ⟨w.worker, kind, (counted w.room).legSeq⟩
  have hoffered := quiet_counted.trans (quiet_offerRtp { w with room := counted w.room } rtpKey)
  have hcreated := hoffered.trans (quiet_createEndpoint _)
  exact ⟨rfl, hcreated.calm rfl, (hoffered.tidy htidy).apart_created rfl, rfl, rfl⟩

theorem softly_legOffer (kind : Kind) (transport : Transport) :
    Softly (legOffer kind transport) w fun leg w' =>
      Apart w' leg ∧ leg.memberId = none ∧ w'.room = counted w.room := by
  intro htidy
  let rtpKey : RtpKey := ⟨w.worker, kind, (counted w.room).legSeq⟩
  have hcreated := quiet_counted.trans (quiet_createEndpoint { w with room := counted w.room })
  have hoffered := hcreated.trans (quiet_offerRtp _ rtpKey)
  let leg : Leg := { kind, ep := w.server.nextEndpoint, rtpKey, transport, answered := false }
  have hcreated' := (quiet_counted.tidy htidy).apart_created (show leg.ep = w.server.nextEndpoint from rfl)
  have hapart := hcreated'.quiet (quiet_offerRtp _ rtpKey)
  exact ⟨rfl, hoffered.calm rfl, hapart, rfl, rfl⟩

theorem softly_applyAnswer (leg : Leg) :
    Softly (applyAnswer leg) w fun leg' w' => leg' = { leg with answered := true } ∧ w' = w :=
  fun _ => ⟨rfl, Calm.rfl, rfl, rfl⟩

theorem softly_answeredAgentLeg (leg : Leg) :
    Softly (answeredAgentLeg leg) w fun leg' w' => leg' = { leg with answered := true } ∧ w' = w :=
  fun _ => ⟨rfl, Calm.rfl, rfl, rfl⟩

theorem softly_join (leg : Leg) : Softly (join leg) w fun leg' w' =>
    leg'.ep = leg.ep ∧ w'.room = w.room := by
  unfold join
  split
  · exact softly_pure ⟨rfl, rfl⟩
  · exact fun _ => ⟨rfl, (quiet_join w leg.ep).calm rfl, rfl, rfl⟩

theorem softly_forLegs {rule : Leg → Code Unit} (h : ∀ leg, Softly (rule leg) w fun _ w' => w' = w)
    (legs : List Leg) : Softly (forLegs rule legs) w fun _ w' => w' = w := by
  induction legs with
  | nil => exact softly_pure rfl
  | cons leg legs ih =>
    apply (h leg).bind
    rintro _ w' - rfl
    exact ih

/-- The rules mute and relate; the customer goes on hearing what plays. -/
theorem softly_rules : Softly rules w fun _ w' => w' = w := by
  apply softly_read.bind
  rintro room w' - ⟨rfl, rfl⟩
  have hsupervisor (leg : Leg) :
      Softly (supervisorRule w'.room.customerId leg) w' fun _ w'' => w'' = w' := by
    unfold supervisorRule
    split
    · exact softly_pure rfl
    · apply softly_api.bind
      rintro _ w'' - rfl
      exact softly_ite (fun _ => softly_api) fun _ => softly_pure rfl
  have hagent (leg : Leg) : Softly (agentRule leg) w' fun _ w'' => w'' = w' := by
    unfold agentRule
    split
    · exact softly_pure rfl
    · exact softly_api
  apply (softly_forLegs hsupervisor _).bind
  rintro _ w'' - rfl
  exact softly_ite (fun _ => softly_forLegs hagent _) fun _ => softly_pure rfl

/-! ### The other legs -/

namespace Legs

variable {legs : Legs} {id : Nat} {leg : Leg}

theorem mem_values_of_get (h : legs.get id = some leg) : leg ∈ legs.values := by
  unfold get at h
  obtain ⟨before, after, heq, -⟩ := List.lookup_eq_some_iff.mp h
  rw [heq]
  simp [values]

theorem mem_values_of_delete (h : leg ∈ (legs.delete id).values) : leg ∈ legs.values := by
  obtain ⟨entry, hentry, rfl⟩ := List.mem_map.mp h
  exact List.mem_map_of_mem (List.mem_filter.mp hentry).1

theorem mem_values_of_set {put : Leg} (h : leg ∈ (legs.set id put).values) :
    leg = put ∨ leg ∈ legs.values := by
  obtain ⟨entry, hentry, rfl⟩ := List.mem_map.mp h
  unfold set at hentry
  split at hentry
  · obtain ⟨before, hbefore, heq⟩ := List.mem_map.mp hentry
    split at heq
    · rw [← heq]
      exact .inl rfl
    · rw [← heq]
      exact .inr (List.mem_map_of_mem hbefore)
  · rcases List.mem_append.mp hentry with hbefore | hput
    · exact .inr (List.mem_map_of_mem hbefore)
    · rw [List.mem_singleton.mp hput]
      exact .inl rfl

end Legs

theorem calm_pendingAgent {pendingAgent : Option Leg}
    (h : ∀ leg, pendingAgent = some leg → Apart w leg ∧ leg.memberId = none) :
    Calm w { w with room := { w.room with pendingAgent } } := by
  refine Quiet.calm (quiet_room rfl rfl rfl (fun leg hleg => ?_) fun leg hleg => .inr (h leg hleg).2) rfl
  rcases Room.mem_others.mp hleg with hpending | hrest
  · exact .inr (h leg hpending).1
  · exact .inl (Room.mem_others.mpr (.inr hrest))

theorem calm_noPendingAgent : Calm w { w with room := { w.room with pendingAgent := none } } :=
  calm_pendingAgent fun _ h => (nomatch h)

theorem quiet_agents {agents : Legs}
    (h : ∀ leg ∈ agents.values, leg ∈ w.room.agents.values ∨ Apart w leg) :
    Quiet w { w with room := { w.room with agents } } := by
  refine quiet_room rfl rfl rfl (fun leg hleg => ?_) fun _ => .inl
  rcases Room.mem_others.mp hleg with hpending | hagents | hrest
  · exact .inl (Room.mem_others.mpr (.inl hpending))
  · exact (h leg hagents).imp_left fun hbefore => Room.mem_others.mpr (.inr (.inl hbefore))
  · exact .inl (Room.mem_others.mpr (.inr (.inr hrest)))

/-- A new agent's leg has not joined. -/
theorem calm_agents {agents : Legs} (h : ∀ leg ∈ agents.values,
      leg ∈ w.room.agents.values ∨ (Apart w leg ∧ leg.memberId = none)) :
    Calm w { w with room := { w.room with agents } } := by
  refine ⟨quiet_agents fun leg hleg => (h leg hleg).imp_right And.left, ?_⟩
  rintro ⟨leg, hleg, hmember⟩
  rcases h leg hleg with hbefore | ⟨-, hnone⟩
  · exact ⟨leg, hbefore, hmember⟩
  · rw [hnone] at hmember
    cases hmember

theorem calm_supervisors {supervisors : Legs}
    (h : ∀ leg ∈ supervisors.values, leg ∈ w.room.supervisors.values ∨ Apart w leg) :
    Calm w { w with room := { w.room with supervisors } } := by
  refine Quiet.calm (quiet_room rfl rfl rfl (fun leg hleg => ?_) fun _ => .inl) rfl
  rcases Room.mem_others.mp hleg with hpending | hagents | hsupervisors | hrest
  · exact .inl (Room.mem_others.mpr (.inl hpending))
  · exact .inl (Room.mem_others.mpr (.inr (.inl hagents)))
  · exact (h leg hsupervisors).imp_left fun hbefore =>
      Room.mem_others.mpr (.inr (.inr (.inl hbefore)))
  · exact .inl (Room.mem_others.mpr (.inr (.inr (.inr hrest))))

theorem calm_pendingSupervisors {pendingSupervisors : Legs}
    (h : ∀ leg ∈ pendingSupervisors.values, leg ∈ w.room.pendingSupervisors.values ∨ Apart w leg) :
    Calm w { w with room := { w.room with pendingSupervisors } } := by
  refine Quiet.calm (quiet_room rfl rfl rfl (fun leg hleg => ?_) fun _ => .inl) rfl
  rcases Room.mem_others.mp hleg with hpending | hagents | hsupervisors | hrest
  · exact .inl (Room.mem_others.mpr (.inl hpending))
  · exact .inl (Room.mem_others.mpr (.inr (.inl hagents)))
  · exact .inl (Room.mem_others.mpr (.inr (.inr (.inl hsupervisors))))
  · exact (h leg hrest).imp_left fun hbefore =>
      Room.mem_others.mpr (.inr (.inr (.inr hbefore)))

theorem Tidy.apart_agent {agentId : Nat} {leg : Leg} (h : Tidy w)
    (hget : w.room.agents.get agentId = some leg) : Apart w leg :=
  h.apart leg (Room.mem_others.mpr (.inr (.inl (Legs.mem_values_of_get hget))))

theorem Tidy.apart_supervisor {supervisorId : Nat} {leg : Leg} (h : Tidy w)
    (hget : w.room.supervisors.get supervisorId = some leg) : Apart w leg :=
  h.apart leg (Room.mem_others.mpr (.inr (.inr (.inl (Legs.mem_values_of_get hget)))))

theorem Tidy.apart_pendingSupervisor {supervisorId : Nat} {leg : Leg} (h : Tidy w)
    (hget : w.room.pendingSupervisors.get supervisorId = some leg) : Apart w leg :=
  h.apart leg (Room.mem_others.mpr (.inr (.inr (.inr (Legs.mem_values_of_get hget)))))

theorem softly_dropPreviousAgent (agentId : Nat) :
    Softly (dropPreviousAgent agentId) w fun _ _ => True := by
  apply softly_read.bind
  rintro room w' - ⟨rfl, rfl⟩
  split
  · exact softly_pure trivial
  · rename_i previous hget
    apply Softly.of_tidy
    intro htidy
    have hapart := htidy.apart_agent hget
    refine Softly.bind (softly_modify fun _ => calm_agents fun leg hleg =>
      .inl (Legs.mem_values_of_delete hleg)) fun _ w'' hcalm _ => ?_
    refine (softly_destroyLeg fun l hl _ => ?_).mono fun _ _ _ _ => trivial
    cases hl
    exact hapart.quiet hcalm.toQuiet

theorem softly_dropPreviousSupervisor (supervisorId : Nat) :
    Softly (dropPreviousSupervisor supervisorId) w fun _ _ => True := by
  apply softly_read.bind
  rintro room w' - ⟨rfl, rfl⟩
  split
  · exact softly_pure trivial
  · rename_i previous hget
    apply Softly.of_tidy
    intro htidy
    have hapart := htidy.apart_supervisor hget
    refine Softly.bind (softly_modify fun _ => calm_supervisors fun leg hleg =>
      .inl (Legs.mem_values_of_delete hleg)) fun _ w'' hcalm _ => ?_
    refine (softly_destroyLeg fun l hl _ => ?_).mono fun _ _ _ _ => trivial
    cases hl
    exact hapart.quiet hcalm.toQuiet

theorem softly_removeAgents (ids : List Nat) : Softly (removeAgents ids) w fun _ _ => True := by
  induction ids generalizing w with
  | nil => exact softly_pure trivial
  | cons agentId ids ih => exact (softly_dropPreviousAgent agentId).bind fun _ _ _ _ => ih

theorem softly_removeSupervisors (ids : List Nat) :
    Softly (removeSupervisors ids) w fun _ _ => True := by
  induction ids generalizing w with
  | nil => exact softly_pure trivial
  | cons supervisorId ids ih => exact (softly_dropPreviousSupervisor supervisorId).bind fun _ _ _ _ => ih

theorem softly_watchCustomer : Softly watchCustomer w fun _ _ => True := by
  refine (softly_modify fun _ => ?_).mono fun _ _ _ _ => trivial
  have hwatched : w.room.monitor.isSome = true ∨ w.room.monitor.isSome = false := by
    cases w.room.monitor <;> simp
  rcases hwatched with h | h
  · rw [if_pos h]
    exact Calm.rfl
  · rw [if_neg (by simp [h])]
    exact Quiet.calm (quiet_room rfl rfl rfl (fun _ => .inl) fun _ => .inl) rfl

theorem ends_breakCustomer {Q : Unit → Faulty World → Prop} {E : Faulty World → Prop} :
    breakCustomer.Ends ⟨w, []⟩ Q E ↔ Q () ⟨w, []⟩ := by
  show Ends (if w.room.customer.isSome = true then caught api else pure ()) ⟨w, []⟩ Q E ↔ _
  split <;> exact Iff.rfl

/-! ### Operations the customer hears nothing of -/

theorem softly_customerAnswered : Softly customerAnswered w fun _ _ => True := by
  apply softly_read.bind
  rintro room w' - ⟨rfl, rfl⟩
  split
  · exact softly_throw
  · rename_i leg hcust
    apply (softly_applyAnswer leg).bind
    rintro _ w'' - ⟨rfl, rfl⟩
    refine (softly_modify fun htidy => ?_).bind fun _ _ _ _ => softly_watchCustomer
    have hsame (cust : Leg) (h : some { leg with answered := true } = some cust) :
        cust.ep = leg.ep ∧ cust.memberId = leg.memberId := by
      cases h
      exact ⟨rfl, rfl⟩
    refine Quiet.calm ⟨fun h => ⟨h.fresh, fun cust hc => ?_, fun cust m hc hm => ?_, fun l hl => ?_,
      h.waiting⟩, fun _ => ?_, ?_, Nat.le_refl _⟩ rfl
    · rw [(hsame cust hc).1]
      exact h.below leg hcust
    · rw [(hsame cust hc).1]
      exact h.member leg m hcust ((hsame cust hc).2.symm.trans hm)
    · refine ⟨(h.apart l hl).below, fun cust hc => ?_⟩
      rw [(hsame cust hc).1]
      exact (h.apart l hl).ne leg hcust
    · simp [voice, heard, Room.customerId, hcust]
    · simp [hcust]

theorem softly_offerAgent : Softly offerAgent w fun _ _ => True := by
  apply softly_read.bind
  rintro room w₁ - ⟨rfl, rfl⟩
  apply (softly_destroyLeg fun leg hleg htidy =>
    htidy.apart leg (Room.mem_others.mpr (.inl hleg))).bind
  intro _ w₂ _ _
  refine Softly.bind (softly_modify fun _ => calm_noPendingAgent) ?_
  intro _ w₃ _ _
  apply (softly_legOffer _ _).bind
  rintro leg w₄ - ⟨hapart, hmember, -⟩
  refine (softly_modify fun _ => calm_pendingAgent fun l hl => ?_).mono fun _ _ _ _ => trivial
  cases hl
  exact ⟨hapart, hmember⟩

theorem softly_agentAccepted (agentId : Nat) : Softly (agentAccepted agentId) w fun _ _ => True := by
  apply softly_read.bind
  rintro room w₁ - ⟨rfl, rfl⟩
  split
  · exact softly_throw
  · rename_i leg hpending
    apply Softly.of_tidy
    intro htidy
    have hapart := htidy.apart leg (Room.mem_others.mpr (.inl hpending))
    have hwaiting := htidy.waiting leg hpending
    refine Softly.bind (softly_modify fun _ => calm_noPendingAgent) fun _ w₂ h₂ _ => ?_
    apply (softly_answeredAgentLeg leg).bind
    rintro _ w₃ h₃ ⟨rfl, rfl⟩
    apply softly_read.bind
    rintro room w₄ h₄ ⟨rfl, rfl⟩
    apply (softly_destroyLeg fun l hl htidy => htidy.apart_agent hl).bind
    intro _ w₅ h₅ _
    refine (softly_modify fun _ => calm_agents fun l hl => ?_).mono fun _ _ _ _ => trivial
    refine (Legs.mem_values_of_set hl).symm.imp_right fun heq => ?_
    have hthen : Apart w₅ leg := (hapart.quiet h₂.toQuiet).quiet h₅.toQuiet
    rw [heq]
    exact ⟨⟨hthen.below, hthen.ne⟩, hwaiting⟩

theorem softly_answerAgent (agentId : Nat) : Softly (answerAgent agentId) w fun _ _ => True := by
  apply (softly_dropPreviousAgent agentId).bind
  intro _ w₁ _ _
  apply (softly_legFromOffer _ _).bind
  rintro leg w₂ - ⟨hapart, hmember, -⟩
  refine (softly_modify fun _ => calm_agents fun l hl => ?_).mono fun _ _ _ _ => trivial
  refine (Legs.mem_values_of_set hl).symm.imp_right fun heq => ?_
  rw [heq]
  exact ⟨⟨hapart.below, hapart.ne⟩, hmember⟩

theorem calm_flags (mode : Mode) (agentPrivate : Bool) :
    Calm w { w with room := { w.room with mode, agentPrivate } } :=
  Quiet.calm (quiet_room rfl rfl rfl (fun _ => .inl) fun _ => .inl) rfl

theorem softly_joinSupervisor (supervisorId : Nat) {leg : Leg} (hapart : Apart w leg) :
    Softly (joinSupervisor supervisorId leg) w fun _ _ => True := by
  have hmode : Calm w { w with room :=
      if w.room.supervisors.isEmpty then { w.room with mode := .listen } else w.room } := by
    split
    · exact calm_flags .listen w.room.agentPrivate
    · exact Calm.rfl
  refine Softly.bind (softly_modify fun _ => hmode) ?_
  intro _ w₁ h₁ _
  apply (softly_join leg).bind
  rintro leg' w₂ h₂ ⟨hep, -⟩
  have hthen : Apart w₂ leg' := by
    have hsame := (hapart.quiet h₁.toQuiet).quiet h₂.toQuiet
    exact ⟨hep ▸ hsame.below, fun cust hcust => hep ▸ hsame.ne cust hcust⟩
  refine (softly_modify fun _ => calm_supervisors fun l hl => ?_).bind fun _ _ _ _ =>
    softly_rules.mono fun _ _ _ _ => trivial
  refine (Legs.mem_values_of_set hl).symm.imp_right fun heq => ?_
  rw [heq]
  exact hthen

theorem softly_addSupervisor (supervisorId : Nat) :
    Softly (addSupervisor supervisorId) w fun _ _ => True := by
  apply (softly_dropPreviousSupervisor supervisorId).bind
  intro _ w₁ _ _
  apply (softly_legFromOffer _ _).bind
  rintro leg w₂ - ⟨hapart, -⟩
  exact softly_joinSupervisor supervisorId hapart

theorem softly_offerSupervisor (supervisorId : Nat) :
    Softly (offerSupervisor supervisorId) w fun _ _ => True := by
  apply softly_read.bind
  rintro room w₁ - ⟨rfl, rfl⟩
  apply (softly_destroyLeg fun leg hleg htidy => htidy.apart_pendingSupervisor hleg).bind
  intro _ w₂ _ _
  apply (softly_legOffer _ _).bind
  rintro leg w₃ - ⟨hapart, -⟩
  refine (softly_modify fun _ => calm_pendingSupervisors fun l hl => ?_).mono fun _ _ _ _ => trivial
  refine (Legs.mem_values_of_set hl).symm.imp_right fun heq => ?_
  rw [heq]
  exact hapart

theorem softly_supervisorAnswered (supervisorId : Nat) :
    Softly (supervisorAnswered supervisorId) w fun _ _ => True := by
  apply softly_read.bind
  rintro room w₁ - ⟨rfl, rfl⟩
  split
  · exact softly_throw
  · rename_i leg hget
    apply Softly.of_tidy
    intro htidy
    have hapart := htidy.apart_pendingSupervisor hget
    refine Softly.bind (softly_modify fun _ => calm_pendingSupervisors fun l hl =>
      .inl (Legs.mem_values_of_delete hl)) fun _ w₂ h₂ _ => ?_
    apply (softly_applyAnswer leg).bind
    rintro _ w₃ h₃ ⟨rfl, rfl⟩
    apply (softly_dropPreviousSupervisor supervisorId).bind
    intro _ w₄ h₄ _
    have hthen : Apart w₄ leg := (hapart.quiet h₂.toQuiet).quiet h₄.toQuiet
    exact softly_joinSupervisor supervisorId ⟨hthen.below, hthen.ne⟩

theorem softly_setSupervisorMode (mode : Mode) :
    Softly (setSupervisorMode mode) w fun _ _ => True := by
  apply softly_read.bind
  rintro room w₁ - ⟨rfl, rfl⟩
  refine Softly.bind (softly_modify fun _ => calm_flags _ _) ?_
  intro _ w₂ _ _
  exact softly_rules.bind fun _ _ _ _ => softly_pure trivial

theorem softly_setAgentPrivate (active : Bool) :
    Softly (setAgentPrivate active) w fun _ _ => True := by
  apply softly_read.bind
  rintro room w₁ - ⟨rfl, rfl⟩
  refine Softly.bind (softly_modify fun _ => calm_flags w₁.room.mode _) ?_
  intro _ w₂ _ _
  exact softly_rules.bind fun _ _ _ _ => softly_read.bind fun _ _ _ _ => softly_pure trivial

theorem softly_removeSupervisor (supervisorId : Option Nat) :
    Softly (removeSupervisor supervisorId) w fun _ _ => True := by
  apply softly_read.bind
  rintro room w₁ - ⟨rfl, rfl⟩
  apply (softly_removeSupervisors _).bind
  intro _ w₂ _ _
  apply softly_read.bind
  rintro room w₃ - ⟨rfl, rfl⟩
  have hend : Calm w₃ { w₃ with room := if w₃.room.supervisors.isEmpty then
      { w₃.room with agentPrivate := false, mode := .listen } else w₃.room } := by
    split
    · exact calm_flags _ _
    · exact Calm.rfl
  refine Softly.bind (softly_modify fun _ => hend) ?_
  intro _ w₄ _ _
  exact softly_rules.bind fun _ _ _ _ => softly_read.bind fun _ _ _ _ => softly_pure trivial

/-! ## Steps the customer hears -/

/-- `v` is what the customer hears then. -/
structure Sounds (w : World) (v : Voice) (w' : World) : Prop where
  tidy : Tidy w'
  voice : voice w' = v
  customer : w'.room.customer = none → w.room.customer = none
  next : w.server.nextEndpoint ≤ w'.server.nextEndpoint

theorem Sounds.trans {w w' w'' : World} {v v' : Voice} (h : Sounds w v w') (h' : Sounds w' v' w'') :
    Sounds w v' w'' :=
  ⟨h'.tidy, h'.voice, fun hnone => h.customer (h'.customer hnone), Nat.le_trans h.next h'.next⟩

theorem Quiet.sounds {w w' : World} (h : Quiet w w') (htidy : Tidy w) :
    Sounds w (RoomMedia.voice w) w' := by
  refine ⟨h.tidy htidy, h.voice htidy, fun hnone => ?_, h.next⟩
  have hep := h.ep
  rw [hnone] at hep
  exact Option.map_eq_none_iff.mp hep.symm

theorem sounds_refl (htidy : Tidy w) : Sounds w (voice w) w := Quiet.rfl.sounds htidy

/-- The server's answer to one sound's flag. -/
def soundServer (server : Server) (cust : Nat) (on : Bool) (sound : Sound) : Server :=
  if on then server.play cust sound else server.stopAll cust

theorem soundServer_next (server : Server) (cust : Nat) (on : Bool) (sound : Sound) :
    (soundServer server cust on sound).nextEndpoint = server.nextEndpoint ∧
      (soundServer server cust on sound).nextMember = server.nextMember ∧
      (soundServer server cust on sound).member = server.member := by
  unfold soundServer Server.play Server.stopAll
  cases on
  · exact ⟨rfl, rfl, rfl⟩
  · rw [if_pos rfl]
    split <;> exact ⟨rfl, rfl, rfl⟩

theorem soundServer_playing {server : Server} {cust : Nat} (h : (server.member cust).isSome = true)
    (on : Bool) (sound : Sound) : (soundServer server cust on sound).playing =
      Function.update server.playing cust (if on then server.playing cust ++ [sound] else []) := by
  unfold soundServer Server.play Server.stopAll
  cases on
  · rfl
  · rw [if_pos rfl, if_pos h]
    rfl

theorem customerId_eq_some {room : Room} {m : Nat} (h : room.customerId = some m) :
    ∃ cust, room.customer = some cust ∧ cust.memberId = some m := Option.bind_eq_some_iff.mp h

theorem Tidy.customer_member (h : Tidy w) {m : Nat} (hm : w.room.customerId = some m) :
    (w.server.member m).isSome = true := by
  obtain ⟨cust, hcust, hmember⟩ := customerId_eq_some hm
  rw [h.member cust m hcust hmember]
  rfl

/-- The flag is set and the sound follows, in a room that is otherwise as it was. -/
theorem sounds_soundTo (h : Tidy w) {m : Nat} (hm : w.room.customerId = some m) (on : Bool)
    (sound : Sound) {room : Room} (hcustomer : room.customer = w.room.customer)
    (hothers : room.others = w.room.others) (hpending : room.pendingAgent = w.room.pendingAgent) :
    Sounds w ⟨true, room.holdOn, room.toneOn, (voice w).soundTo on sound⟩
      { w with room, server := soundServer w.server m on sound } := by
  obtain ⟨hnext, hnextMember, hmember⟩ := soundServer_next w.server m on sound
  have hplaying := soundServer_playing (h.customer_member hm) on sound
  have hid : room.customerId = some m := by
    unfold Room.customerId
    rw [hcustomer]
    exact hm
  have hheard : heard w.room w.server = w.server.playing m := by
    unfold heard
    rw [hm]
    rfl
  refine ⟨⟨fun m' hm' => ?_, fun cust hcust => ?_, fun cust m' hcust hm' => ?_, fun leg hleg => ?_,
    fun leg hleg => h.waiting leg (hpending.symm.trans hleg)⟩, ?_,
    fun hnone => hcustomer.symm.trans hnone, Nat.le_of_eq hnext.symm⟩
  · have hle : w.server.nextMember ≤ m' := hnextMember ▸ hm'
    obtain ⟨hfresh, hsilent⟩ := h.fresh m' hle
    have hne : m' ≠ m := by
      rintro rfl
      have hsome := h.customer_member hm
      rw [hfresh] at hsome
      cases hsome
    refine ⟨by rw [hmember]; exact hfresh, ?_⟩
    rw [hplaying, Function.update_of_ne hne]
    exact hsilent
  · exact hnext ▸ h.below cust (hcustomer.symm.trans hcust)
  · exact hmember ▸ h.member cust m' (hcustomer.symm.trans hcust) hm'
  · have hapart := h.apart leg (hothers ▸ hleg)
    exact ⟨hnext ▸ hapart.below, fun cust hcust => hapart.ne cust (hcustomer.symm.trans hcust)⟩
  · have hthen : heard room (soundServer w.server m on sound) =
        if on then w.server.playing m ++ [sound] else [] := by
      unfold heard
      rw [hid, Option.map_some, Option.getD_some, hplaying, Function.update_self]
    unfold voice Voice.soundTo
    dsimp only
    rw [hid, hthen, hheard]
    rfl

theorem ends_tone (h : Tidy w) (on : Bool) : (tone on).Ends ⟨w, []⟩
    (fun _ w' => w'.faults = [] ∧ Sounds w ((voice w).tone on) w'.state ∧
      w'.state.room.agents = w.room.agents) fun _ => False := by
  rw [tone, theRoom, ends_bind, ends_read]
  split
  · rename_i hnone
    have hsame : (voice w).tone on = voice w := if_pos (.inl (by simp [voice, hnone]))
    rw [hsame]
    exact ⟨rfl, sounds_refl h, rfl⟩
  · rename_i cust hcust
    split
    · rename_i hon
      have hsame : (voice w).tone on = voice w := if_pos (.inr hon)
      rw [hsame]
      exact ⟨rfl, sounds_refl h, rfl⟩
    · rename_i hoff
      have hnow : (voice w).tone on = ⟨true, w.room.holdOn, on, (voice w).soundTo on .tone⟩ := by
        unfold Voice.tone
        rw [if_neg (by simp [voice, hcust, hoff])]
        simp [voice, hcust]
      rw [hnow, ends_bind]
      have hstep := sounds_soundTo h hcust on .tone (show ({ w.room with toneOn := on } : Room).customer = _ from rfl) rfl rfl
      cases on <;> exact ⟨rfl, hstep, rfl⟩

theorem ends_hold (h : Tidy w) (on : Bool) (audio : Option String) : (hold on audio).Ends ⟨w, []⟩
    (fun _ w' => w'.faults = [] ∧ Sounds w ((voice w).hold on audio) w'.state ∧
      w'.state.room.agents = w.room.agents) fun _ => False := by
  rw [hold, theRoom, ends_bind, ends_read]
  split
  · rename_i hnone
    have hsame : (voice w).hold on audio = voice w := if_pos (.inl (by simp [voice, hnone]))
    rw [hsame]
    exact ⟨rfl, sounds_refl h, rfl⟩
  · rename_i cust hcust
    split
    · rename_i hon
      have hsame : (voice w).hold on audio = voice w := if_pos (.inr hon)
      rw [hsame]
      exact ⟨rfl, sounds_refl h, rfl⟩
    · rename_i hoff
      have hnow : (voice w).hold on audio =
          ⟨true, on, w.room.toneOn, (voice w).soundTo on (.hold audio)⟩ := by
        unfold Voice.hold
        rw [if_neg (by simp [voice, hcust, hoff])]
        simp [voice, hcust]
      rw [hnow, ends_bind]
      have hstep := sounds_soundTo h hcust on (.hold audio)
        (show ({ w.room with holdOn := on } : Room).customer = _ from rfl) rfl rfl
      cases on <;> exact ⟨rfl, hstep, rfl⟩

/-- What a calm program comes to. -/
theorem Softly.sounds {α : Type} {m : Code α} {Q : α → World → Prop} (h : Softly m w Q)
    (htidy : Tidy w) : m.Ends ⟨w, []⟩
      (fun a w' => w'.faults = [] ∧ Sounds w (voice w) w'.state ∧
        (Joined w'.state.room → Joined w.room) ∧ Q a w'.state)
      fun w' => w'.faults = [] ∧ Sounds w (voice w) w'.state ∧
        (Joined w'.state.room → Joined w.room) :=
  (h htidy).mono (fun _ _ h => ⟨h.1, h.2.1.sounds htidy, h.2.1.joined, h.2.2⟩)
    fun _ h => ⟨h.1, h.2.sounds htidy, h.2.joined⟩

/-! ### The customer joins -/

/-- The customer's leg enters the conference, to hear nothing yet. -/
theorem ends_joinCustomer (h : Tidy w) (hsome : w.room.customer.isSome = true) :
    joinCustomer.Ends ⟨w, []⟩ (fun _ w' => w'.faults = [] ∧
      Sounds w (voice w).entered w'.state ∧ w'.state.room.agents = w.room.agents) fun _ => False := by
  obtain ⟨leg, hleg⟩ := Option.isSome_iff_exists.mp hsome
  rw [joinCustomer, theRoom, ends_bind, ends_read, hleg]
  dsimp only
  rw [ends_bind, join]
  have hid : w.room.customerId = leg.memberId := by
    unfold Room.customerId
    rw [hleg]
    rfl
  cases hmember : leg.memberId with
  | some m =>
    have hsame : { w.room with customer := some leg } = w.room := by rw [← hleg]
    have hentered : (voice w).entered = voice w := by simp [Voice.entered, voice, hid, hmember]
    show [] = [] ∧ Sounds w _ { w with room := { w.room with customer := some leg } } ∧ _
    rw [hsame, hentered]
    exact ⟨rfl, sounds_refl h, rfl⟩
  | none =>
    have hjoined := (quiet_join w leg.ep).tidy h
    have hnew (cust : Leg) (hc : some { leg with memberId := some w.server.nextMember } = some cust) :
        cust.ep = leg.ep ∧ cust.memberId = some w.server.nextMember := by
      cases hc
      exact ⟨rfl, rfl⟩
    refine ⟨rfl, ⟨⟨hjoined.fresh, fun cust hc => ?_, fun cust m hc hm => ?_, fun l hl => ?_,
      hjoined.waiting⟩, ?_, fun hnone => (by cases hnone),
      Nat.le_refl _⟩, rfl⟩
    · rw [(hnew cust hc).1]
      exact h.below leg hleg
    · rw [(hnew cust hc).2] at hm
      cases hm
      rw [(hnew cust hc).1]
      exact Function.update_self _ _ _
    · refine ⟨(h.apart l hl).below, fun cust hc => ?_⟩
      rw [(hnew cust hc).1]
      exact (h.apart l hl).ne leg hleg
    · have hbefore : heard w.room w.server = [] := by simp [heard, hid, hmember]
      have hsilent := (h.fresh _ (Nat.le_refl _)).2
      unfold voice Voice.entered
      rw [hbefore]
      simp [heard, Room.customerId, Server.join, hsilent]

theorem ends_enterIfOut (h : Tidy w) (hsome : w.room.customer.isSome = true) :
    enterIfOut.Ends ⟨w, []⟩ (fun _ w' => w'.faults = [] ∧
      Sounds w (voice w).entered w'.state ∧ w'.state.room.agents = w.room.agents) fun _ => False := by
  show Ends (if w.room.customerId.isNone = true then do breakCustomer; joinCustomer else pure ())
    ⟨w, []⟩ _ _
  split
  · rw [ends_bind, ends_breakCustomer]
    exact ends_joinCustomer h hsome
  · rename_i hin
    have hentered : (voice w).entered = voice w := by
      cases hid : w.room.customerId <;> simp [Voice.entered, voice, hid] at hin ⊢
    rw [hentered]
    exact ⟨rfl, sounds_refl h, rfl⟩

/-! ### The room's sounds -/

/-- The agents join; the customer goes on hearing what plays. -/
theorem ends_joinAgents (ids : List Nat) (h : Tidy w) : (joinAgents ids).Ends ⟨w, []⟩
    (fun _ w' => w'.faults = [] ∧ Quiet w w'.state) fun _ => False := by
  induction ids generalizing w with
  | nil => exact ⟨rfl, Quiet.rfl⟩
  | cons agentId ids ih =>
    rw [joinAgents, theRoom, ends_bind, ends_read]
    split
    · exact ih h
    · rename_i leg hget
      have hapart := h.apart_agent hget
      -- Either way the leg is put back where it stood.
      have hput {w₁ : World} {joined : Leg} (hquiet : Quiet w w₁) (hep : joined.ep = leg.ep) :
          (joinAgents ids).Ends ⟨{ w₁ with room :=
            { w₁.room with agents := w₁.room.agents.set agentId joined } }, []⟩
            (fun _ w' => w'.faults = [] ∧ Quiet w w'.state) fun _ => False := by
        have hthen := hapart.quiet hquiet
        have hset : Quiet w₁ { w₁ with room :=
            { w₁.room with agents := w₁.room.agents.set agentId joined } } := by
          refine quiet_agents fun l hl => (Legs.mem_values_of_set hl).symm.imp_right fun heq => ?_
          rw [heq]
          exact ⟨hep ▸ hthen.below, fun cust hcust => hep ▸ hthen.ne cust hcust⟩
        have hboth := hquiet.trans hset
        exact (ih (hboth.tidy h)).mono (fun _ w' h' => ⟨h'.1, hboth.trans h'.2⟩) fun _ h' => h'
      rw [ends_bind, join]
      cases leg.memberId with
      | some m => exact hput Quiet.rfl rfl
      | none => exact hput (quiet_join w leg.ep) rfl

theorem Voice.Truthful.entered {v : Voice} (h : v.Truthful) : v.entered.Truthful := ⟨h.hold, h.tone⟩

/-- The conversation begins: the hold and then the tone are off. -/
theorem ends_bridge (recorded : Option Nat) (h : Tidy w) (htruthful : (voice w).Truthful) :
    (bridge recorded).Ends ⟨w, []⟩
      (fun _ w' => w'.state = w ∨ Sounds w ⟨true, false, false, []⟩ w'.state)
      fun w' => Sounds w ⟨true, false, false, []⟩ w'.state := by
  show Ends (if (w.room.customer.any (·.answered)) = false ∨ w.room.agents.isEmpty then pure false
    else do
      enterIfOut
      hold false none
      joinAgents w.room.agents.ids
      tone false
      rules
      modify fun room =>
        { room with bridged := true, recording := if room.bridged then room.recording else recorded }
      return true) ⟨w, []⟩ _ _
  split
  · exact .inl rfl
  · rename_i hready
    have hsome : w.room.customer.isSome = true := by
      cases hcust : w.room.customer with
      | some cust => rfl
      | none => simp [hcust] at hready
    rw [ends_bind]
    refine (ends_enterIfOut h hsome).mono (fun _ w₁ h₁ => ?_) fun _ h => h.elim
    obtain ⟨w₁, faults⟩ := w₁
    obtain ⟨rfl, hentered, -⟩ := h₁
    rw [ends_bind]
    refine (ends_hold hentered.tidy false none).mono (fun _ w₂ h₂ => ?_) fun _ h => h.elim
    obtain ⟨w₂, faults⟩ := w₂
    obtain ⟨rfl, hheld, -⟩ := h₂
    rw [ends_bind]
    refine (ends_joinAgents _ hheld.tidy).mono (fun _ w₃ h₃ => ?_) fun _ h => h.elim
    obtain ⟨w₃, faults⟩ := w₃
    obtain ⟨rfl, hjoined⟩ := h₃
    have hjoined := hjoined.sounds hheld.tidy
    rw [ends_bind]
    refine (ends_tone hjoined.tidy false).mono (fun _ w₄ h₄ => ?_) fun _ h => h.elim
    obtain ⟨w₄, faults⟩ := w₄
    obtain ⟨rfl, hsilent, -⟩ := h₄
    have hvoice : (voice w₃).tone false = ⟨true, false, false, []⟩ := by
      rw [hjoined.voice, hheld.voice, hentered.voice]
      exact htruthful.entered.off rfl none
    rw [hvoice] at hsilent
    have hoff : Sounds w ⟨true, false, false, []⟩ w₄ :=
      ((hentered.trans hheld).trans hjoined).trans hsilent
    have hend {w₅ : World} (hcalm : Calm w₄ w₅) : Sounds w ⟨true, false, false, []⟩ w₅ := by
      have hsounds := hcalm.sounds hoff.tidy
      rw [hoff.voice] at hsounds
      exact hoff.trans hsounds
    have hbridged : Softly (do
        rules
        modify fun room => { room with
          bridged := true, recording := if room.bridged then room.recording else recorded }
        return true) w₄ fun _ _ => True := by
      apply softly_rules.bind
      rintro _ w₅ - rfl
      refine Softly.bind (softly_modify fun _ => ?_) fun _ _ _ _ => softly_pure trivial
      exact Quiet.calm (quiet_room rfl rfl rfl (fun _ => .inl) fun _ => .inl) rfl
    exact (hbridged hoff.tidy).mono (fun _ _ h => .inr (hend h.2.1)) fun _ h => hend h.2

/-- Nobody is there to talk to. -/
theorem not_joined_of_empty {room : Room} (h : room.agents.isEmpty = true) : ¬ Joined room := by
  rintro ⟨leg, hleg, -⟩
  rw [List.isEmpty_iff.mp h] at hleg
  cases hleg

theorem ends_startHold (audio : Option String) (h : Tidy w) : (startHold audio).Ends ⟨w, []⟩
    (fun _ w' => w'.state = w ∨
      (Sounds w ((voice w).entered.hold true audio) w'.state ∧ ¬ Joined w'.state.room))
    fun _ => False := by
  show Ends (if w.room.customer.isNone ∨ w.room.agents.isEmpty = false then pure () else do
    breakCustomer
    joinCustomer
    hold true audio) ⟨w, []⟩ _ _
  split
  · exact .inl rfl
  · rename_i hready
    have hsome : w.room.customer.isSome = true := by
      cases hcust : w.room.customer with
      | some cust => rfl
      | none => simp [hcust] at hready
    have hempty : w.room.agents.isEmpty = true := by simpa using (not_or.mp hready).2
    rw [ends_bind, ends_breakCustomer, ends_bind]
    refine (ends_joinCustomer h hsome).mono (fun _ w₁ h₁ => ?_) fun _ h => h.elim
    obtain ⟨w₁, faults⟩ := w₁
    obtain ⟨rfl, hentered, hagents₁⟩ := h₁
    refine (ends_hold hentered.tidy true audio).mono (fun _ w₂ h₂ => .inr ?_) fun _ h => h
    obtain ⟨-, hheld, hagents₂⟩ := h₂
    rw [hentered.voice] at hheld
    refine ⟨hentered.trans hheld, not_joined_of_empty ?_⟩
    rw [hagents₂, hagents₁]
    exact hempty

/-- The last agent to leave leaves the customer with the tone. -/
theorem ends_dropAgent_tone (agentId : Option Nat) (h : Tidy w) : (dropAgent agentId).Ends ⟨w, []⟩
    (fun _ w' => (Sounds w (voice w) w'.state ∧ (Joined w'.state.room → Joined w.room)) ∨
      (Sounds w ((voice w).tone true) w'.state ∧ ¬ Joined w'.state.room))
    fun w' => Sounds w (voice w) w'.state ∧ (Joined w'.state.room → Joined w.room) := by
  show Ends (do
    removeAgents (w.room.agents.named agentId)
    let room ← theRoom
    if room.agents.isEmpty then
      modify fun room => { room with agentPrivate := false }
      tone true) ⟨w, []⟩ _ _
  rw [ends_bind]
  refine ((softly_removeAgents _).sounds h).mono (fun _ w₁ h₁ => ?_) fun _ h => h.2
  obtain ⟨w₁, faults⟩ := w₁
  obtain ⟨rfl, hsounds, hjoined, -⟩ := h₁
  show Ends (if w₁.room.agents.isEmpty then do
      modify fun room => { room with agentPrivate := false }
      tone true
    else pure () : Code Unit) ⟨w₁, []⟩ _ _
  split
  · rename_i hempty
    have hcalm : Calm w₁ { w₁ with room := { w₁.room with agentPrivate := false } } :=
      calm_flags w₁.room.mode _
    have hpublic := hcalm.sounds hsounds.tidy
    rw [ends_bind]
    refine (ends_tone hpublic.tidy true).mono (fun _ w₂ h₂ => .inr ?_) fun _ h => h.elim
    obtain ⟨-, htone, hagents⟩ := h₂
    have hboth := (hsounds.trans hpublic).trans htone
    rw [hpublic.voice, hsounds.voice] at hboth
    refine ⟨hboth, not_joined_of_empty ?_⟩
    rw [hagents]
    exact hempty
  · exact .inl ⟨hsounds, hjoined⟩

/-! ### A new leg for the customer -/

theorem offerRtp_eq (server : Server) (rtpKey : RtpKey) :
    (server.offerRtp rtpKey).nextEndpoint = server.nextEndpoint ∧
      (server.offerRtp rtpKey).nextMember = server.nextMember ∧
      (server.offerRtp rtpKey).member = server.member ∧
      (server.offerRtp rtpKey).playing = server.playing := by
  unfold Server.offerRtp
  split <;> exact ⟨rfl, rfl, rfl, rfl⟩

/-- The customer is on a new leg that is in no conference. -/
theorem sounds_replaced (h : Tidy w) {server : Server} {room : Room} {leg : Leg}
    (hfresh : server.Fresh) (hle : w.server.nextEndpoint ≤ leg.ep)
    (hlt : leg.ep < server.nextEndpoint) (hmember : leg.memberId = none)
    (hcustomer : room.customer = some leg) (hothers : room.others = w.room.others)
    (hpending : room.pendingAgent = w.room.pendingAgent) (hhold : room.holdOn = w.room.holdOn)
    (htone : room.toneOn = w.room.toneOn) :
    Sounds w (voice w).replaced { w with room, server } := by
  have hcust {cust : Leg} (hc : room.customer = some cust) : cust = leg :=
    Option.some.inj (hc.symm.trans hcustomer)
  refine ⟨⟨hfresh, fun cust hc => ?_, fun cust m hc hm => ?_, fun l hl => ?_, fun l hl => ?_⟩, ?_,
    fun hnone => ?_, Nat.le_trans hle (Nat.le_of_lt hlt)⟩
  · rw [hcust hc]
    exact hlt
  · rw [hcust hc, hmember] at hm
    cases hm
  · have hbelow := (h.apart l (hothers ▸ hl)).below
    refine ⟨Nat.lt_trans (Nat.lt_of_lt_of_le hbelow hle) hlt, fun cust hc => ?_⟩
    rw [hcust hc]
    exact Nat.ne_of_lt (Nat.lt_of_lt_of_le hbelow hle)
  · exact h.waiting l (hpending.symm.trans hl)
  · have hid : room.customerId = none := by
      unfold Room.customerId
      rw [hcustomer]
      exact hmember
    unfold voice Voice.replaced heard
    dsimp only
    rw [hid, hhold, htone]
    rfl
  · cases hnone.symm.trans hcustomer

theorem ends_destroyLeg_fresh (leg : Option Leg) (h : w.server.Fresh) :
    (destroyLeg leg).Ends ⟨w, []⟩ (fun _ w' => w'.faults = [] ∧ ∃ server, w'.state = { w with server } ∧
      server.Fresh ∧ server.nextEndpoint = w.server.nextEndpoint) fun _ => False := by
  cases leg with
  | none => exact ⟨rfl, w.server, rfl, h, rfl⟩
  | some leg =>
    exact ⟨rfl, (w.server.destroyEndpoint leg.ep).deleteRtp leg.rtpKey, rfl,
      fresh_destroyEndpoint h leg.ep, rfl⟩

/-- The room with a new leg for its customer. -/
def armed (room : Room) (leg : Leg) : Room := { counted room with customer := some leg }

/-- A leg made now takes the customer's place. -/
theorem sounds_armed (h : Tidy w) {server : Server} (hfresh : server.Fresh)
    (hnext : server.nextEndpoint = w.server.nextEndpoint) (rtpKey : RtpKey) (transport : Transport)
    (answered : Bool) : Sounds w (voice w).replaced { w with
      room := armed w.room { kind := .customer, ep := server.nextEndpoint, rtpKey, transport, answered }
      server := (server.createEndpoint.1.offerRtp rtpKey) } := by
  obtain ⟨hep, hmembers, hmember, hplaying⟩ := offerRtp_eq server.createEndpoint.1 rtpKey
  refine sounds_replaced h (fun m hm => ?_) (Nat.le_of_eq hnext.symm) ?_ rfl rfl rfl rfl rfl rfl
  · rw [hmember, hplaying]
    exact hfresh m (hmembers ▸ hm)
  · rw [hep]
    exact Nat.lt_succ_self _

theorem offerRtp_createEndpoint (server : Server) (rtpKey : RtpKey) :
    (server.offerRtp rtpKey).createEndpoint =
      (server.createEndpoint.1.offerRtp rtpKey, server.nextEndpoint) := by
  unfold Server.offerRtp Server.createEndpoint
  dsimp only
  split <;> rfl

section Made

variable {Q : Leg → Faulty World → Prop} {E : Faulty World → Prop}

/-- The key of the next leg. -/
def nextKey (w : World) (kind : Kind) : RtpKey := ⟨w.worker, kind, w.room.legSeq + 1⟩

theorem ends_legFromOffer (kind : Kind) (transport : Transport) :
    (legFromOffer kind transport).Ends ⟨w, []⟩ Q E ↔
      Q ⟨kind, (w.server.offerRtp (nextKey w kind)).createEndpoint.2, nextKey w kind, transport, none,
          true, none, false⟩
        ⟨{ w with room := counted w.room
                  server := (w.server.offerRtp (nextKey w kind)).createEndpoint.1 }, []⟩ := Iff.rfl

theorem ends_armCustomer {leg : Leg} {Q : Unit → Faulty World → Prop} :
    (armCustomer leg true).Ends ⟨w, []⟩ Q E ↔
      Q () ⟨{ w with room := { w.room with customer := some { leg with listening := false } } }, []⟩ :=
  Iff.rfl

end Made

theorem ends_answerCustomer (transport : Transport) (h : Tidy w) :
    (answerCustomer transport).Ends ⟨w, []⟩ (fun _ w' => Sounds w (voice w).replaced w'.state ∧
      (Joined w'.state.room → Joined w.room)) fun w' => Sounds w (voice w).replaced w'.state ∧
        (Joined w'.state.room → Joined w.room) := by
  show Ends (do
    destroyLeg w.room.customer
    let leg ← legFromOffer .customer transport
    armCustomer leg true
    watchCustomer) ⟨w, []⟩ _ _
  rw [ends_bind]
  refine (ends_destroyLeg_fresh _ h.fresh).mono (fun _ w₁ h₁ => ?_) fun _ h => h.elim
  obtain ⟨w₁, faults⟩ := w₁
  obtain ⟨rfl, server, rfl, hfresh, hnext⟩ := h₁
  have harmed := sounds_armed h hfresh hnext (nextKey w .customer) transport true
  rw [ends_bind, ends_legFromOffer, ends_bind, ends_armCustomer]
  rw [offerRtp_createEndpoint]
  refine (softly_watchCustomer.sounds harmed.tidy).mono (fun _ w₂ h₂ => ?_) fun w₂ h₂ => ?_
  · rw [harmed.voice] at h₂
    exact ⟨harmed.trans h₂.2.1, h₂.2.2.1⟩
  · rw [harmed.voice] at h₂
    exact ⟨harmed.trans h₂.2.1, h₂.2.2⟩

theorem ends_offerCustomer (transport : Transport) (h : Tidy w) :
    (offerCustomer transport).Ends ⟨w, []⟩ (fun _ w' => Sounds w (voice w).replaced w'.state ∧
      (Joined w'.state.room → Joined w.room)) fun _ => False := by
  show Ends (do
    destroyLeg w.room.customer
    let leg ← legOffer .customer transport
    armCustomer leg true) ⟨w, []⟩ _ _
  rw [ends_bind]
  refine (ends_destroyLeg_fresh _ h.fresh).mono (fun _ w₁ h₁ => ?_) fun _ h => h.elim
  obtain ⟨w₁, faults⟩ := w₁
  obtain ⟨rfl, server, rfl, hfresh, hnext⟩ := h₁
  exact ⟨sounds_armed h hfresh hnext ⟨w.worker, .customer, (counted w.room).legSeq⟩ transport false, id⟩

/-! ### The end, and a room taken over -/

theorem ends_destroyLegs_fresh (legs : List Leg) (h : w.server.Fresh) :
    (destroyLegs legs).Ends ⟨w, []⟩ (fun _ w' => w'.state.server.Fresh) fun _ => False := by
  induction legs generalizing w with
  | nil => exact h
  | cons leg legs ih =>
    rw [destroyLegs, ends_bind]
    refine (ends_destroyLeg_fresh (some leg) h).mono (fun _ w₁ h₁ => ?_) fun _ h => h.elim
    obtain ⟨w₁, faults⟩ := w₁
    obtain ⟨rfl, server, rfl, hfresh, -⟩ := h₁
    exact ih hfresh

/-- The agents' legs come back; without a customer they are nobody's. -/
theorem ends_adoptAgents_quiet (saved : List Leg) (h : ∀ leg ∈ saved, Apart w leg) :
    (adoptAgents saved).Ends ⟨w, []⟩ (fun _ w' => w'.faults = [] ∧ Quiet w w'.state) fun _ => False := by
  induction saved generalizing w with
  | nil => exact ⟨rfl, Quiet.rfl⟩
  | cons leg rest ih =>
    have hquiet : Quiet w { w with room :=
        { w.room with agents := w.room.agents.set (leg.agentId.getD 0) leg } } := by
      refine quiet_agents fun l hl => (Legs.mem_values_of_set hl).symm.imp_right fun heq => ?_
      rw [heq]
      exact h leg List.mem_cons_self
    have hrest := ih fun l hl => (h l (List.mem_cons_of_mem _ hl)).quiet hquiet
    exact hrest.mono (fun _ w' h' => ⟨h'.1, hquiet.trans h'.2⟩) fun _ h' => h'

theorem ends_adoptSupervisors_quiet (saved : Legs) (h : ∀ leg ∈ saved.values, Apart w leg) :
    (adoptSupervisors saved).Ends ⟨w, []⟩ (fun _ w' => w'.faults = [] ∧ Quiet w w'.state)
      fun _ => False := by
  induction saved generalizing w with
  | nil => exact ⟨rfl, Quiet.rfl⟩
  | cons entry rest ih =>
    have hquiet : Quiet w { w with room :=
        { w.room with supervisors := w.room.supervisors.set entry.1 entry.2 } } := by
      refine (calm_supervisors fun l hl => ?_).toQuiet
      refine (Legs.mem_values_of_set hl).symm.imp_right fun heq => ?_
      rw [heq]
      exact h entry.2 List.mem_cons_self
    have hrest := ih fun l hl => (h l (List.mem_cons_of_mem _ hl)).quiet hquiet
    exact hrest.mono (fun _ w' h' => ⟨h'.1, hquiet.trans h'.2⟩) fun _ h' => h'

/-- What is saved of a room without a customer comes back unheard. -/
theorem ends_adoptLegs_quiet {snap : Snapshot} (h : Tidy w) (hcustomer : snap.customer = none)
    (hpending : ∀ leg, snap.pendingAgent = some leg → Apart w leg ∧ leg.memberId = none)
    (hagents : ∀ leg ∈ snap.agents, Apart w leg)
    (hsupervisors : ∀ leg ∈ snap.supervisors.values, Apart w leg) :
    (adoptLegs snap).Ends ⟨w, []⟩ (fun _ w' => Quiet w w'.state) fun w' => Quiet w w'.state := by
  have hpendingAgent : Softly (adoptPendingAgent snap.pendingAgent) w fun _ _ => True := by
    cases hsaved : snap.pendingAgent with
    | none => exact fun _ => ⟨rfl, calm_noPendingAgent, trivial⟩
    | some leg =>
      have hput : Calm w { w with room := { w.room with pendingAgent := some leg } } :=
        calm_pendingAgent fun l hl => hpending l (hsaved.trans hl)
      exact fun _ => ⟨rfl, hput, trivial⟩
  have hlast (w' : World) : Softly (do
      modify fun room => { room with recording := snap.recording.or room.recording }
      watchCustomer) w' fun _ _ => True :=
    Softly.bind (softly_modify fun _ => Quiet.calm
      (quiet_room rfl rfl rfl (fun _ => .inl) fun _ => .inl) rfl) fun _ _ _ _ => softly_watchCustomer
  rw [adoptLegs, hcustomer]
  show Ends (do
    adoptPendingAgent snap.pendingAgent
    adoptAgents snap.agents
    adoptSupervisors snap.supervisors
    modify fun room => { room with recording := snap.recording.or room.recording }
    watchCustomer) ⟨w, []⟩ _ _
  rw [ends_bind]
  refine (hpendingAgent h).mono (fun _ w₁ h₁ => ?_) fun _ h => h.2.toQuiet
  obtain ⟨w₁, faults⟩ := w₁
  obtain ⟨rfl, hcalm, -⟩ := h₁
  have hquiet₁ := hcalm.toQuiet
  rw [ends_bind]
  refine (ends_adoptAgents_quiet _ fun leg hleg => (hagents leg hleg).quiet hquiet₁).mono
    (fun _ w₂ h₂ => ?_) fun _ h => h.elim
  obtain ⟨w₂, faults⟩ := w₂
  obtain ⟨rfl, hquiet₂⟩ := h₂
  have hquiet₂ := hquiet₁.trans hquiet₂
  rw [ends_bind]
  refine (ends_adoptSupervisors_quiet _ fun leg hleg => (hsupervisors leg hleg).quiet hquiet₂).mono
    (fun _ w₃ h₃ => ?_) fun _ h => h.elim
  obtain ⟨w₃, faults⟩ := w₃
  obtain ⟨rfl, hquiet₃⟩ := h₃
  have hquiet₃ := hquiet₂.trans hquiet₃
  exact (hlast w₃ (hquiet₃.tidy h)).mono (fun _ _ h => hquiet₃.trans h.2.1.toQuiet)
    fun _ h => hquiet₃.trans h.2.toQuiet

end Callio.RoomMedia
