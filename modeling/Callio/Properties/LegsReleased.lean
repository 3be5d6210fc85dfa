import Callio.Sdk.Call
import Callio.Sdk.Monitor
import Mathlib.Data.List.Perm.Basic

/-! What an SDK call or monitor holds when it is over. It closes what it has, so what
matters is that nothing is taken afterwards, or taken over. -/

namespace Callio.Sdk

/-! ## Runs -/

/-- Each step of a run, with the state it starts from. -/
def Along {σ ε : Type} (step : σ → ε → σ) (P : σ → ε → Prop) (s : σ) : List ε → Prop
  | [] => True
  | e :: es => P s e ∧ Along step P (step s e) es

theorem Along.keeps {σ ε : Type} {step : σ → ε → σ} {P Q : σ → ε → Prop} {I : σ → Prop}
    (hstep : ∀ s e, I s → P s e → Q s e → I (step s e)) {s : σ} {es : List ε} (hI : I s) (hP : Along step P s es)
    (hQ : Along step Q s es) : I (es.foldl step s) := by
  induction es generalizing s with
  | nil => exact hI
  | cons e es ih => exact ih (hstep s e hI hP.1 hQ.1) hP.2 hQ.2

/-! ## What is claimed -/

/-- What nothing may follow its end with. -/
def Output.forbidden : Output → Bool
  | .state _ _ | .ended _ | .send .accept | .send .start | .send .monitor => true
  | .send _ => false

/-- Behind 'ended', none of these, and no second one. -/
def Orderly (log : List Output) : Prop :=
  ∀ after before reason, log = after ++ .ended reason :: before → ∀ o ∈ after, o.forbidden = false

/-- Every track it acquired itself is stopped. -/
def Mic.Stopped (mic : Mic) : Prop := ∀ stream ∈ mic.streams, stream.own = true → stream.stopped = true

/-- Once ended, with nothing awaited: its peer connections closed, its timer cleared
and its microphones stopped. -/
structure Released (leg : Leg) (mic : Mic) (settled : Prop) : Prop where
  orderly : Orderly leg.log
  closed : leg.state = .ended → settled → ∀ peer ∈ leg.peers, peer.closed = true
  cleared : leg.state = .ended → settled → leg.timer = none
  stopped : leg.state = .ended → settled → mic.Stopped

/-- What a call relies on: what is asked of a closed peer connection does not succeed. -/
def Call.Browser (c : Call) (e : Call.Event) : Prop :=
  ∀ k n t, e = .settles k (some n) → c.tasks[k]? = some t → t.await.onPeer = true → (c.leg.peer t.pc).closed = false

def Monitor.Browser (m : Monitor) (e : Monitor.Event) : Prop :=
  ∀ k n t, e = .settles k (some n) → m.tasks[k]? = some t → t.await.onPeer = true → (m.leg.peer onlyPeer).closed = false

/-- A listener hangs up when it is told that the call is connecting. -/
def Call.Event.hangsUp : Call.Event → Bool
  | .accept _ hangsUp | .switchHere _ hangsUp | .connection _ _ hangsUp | .timeout hangsUp => hangsUp
  | _ => false

/-- A microphone arrives while the call goes on, still means to own it, and has no
other that is live. -/
structure Call.Careful (c : Call) (e : Call.Event) : Prop where
  listener : e.hangsUp = false
  arrives : ∀ k n t, e = .settles k (some n) → c.tasks[k]? = some t → t.await = .microphone →
    c.leg.state ≠ .ended ∧ c.mic.ownsLocalStream = true ∧ c.mic.missing = true

/-- The microphone arrives while the monitor goes on. -/
def Monitor.Careful (m : Monitor) (e : Monitor.Event) : Prop :=
  ∀ k n t, e = .settles k (some n) → m.tasks[k]? = some t → t.await = .microphone → m.leg.state ≠ .ended

/-! ## The leg -/

structure Leg.Sound (leg : Leg) : Prop where
  single : ∀ (p : Nat) peer, leg.peers[p]? = some peer → peer.closed = false → leg.pc = some p
  ended : leg.state = .ended → leg.pc = none ∧ leg.timer = none
  running : leg.state ≠ .ended → ∀ reason, .ended reason ∉ leg.log
  orderly : Orderly leg.log

/-- Before the end anything may be said, and afterwards what is not forbidden. -/
theorem orderly_cons {log : List Output} {o : Output} (h : Orderly log)
    (ho : o.forbidden = false ∨ ∀ reason, .ended reason ∉ log) : Orderly (o :: log) := by
  rintro (_ | ⟨o', after⟩) before reason heq
  · exact nofun
  · obtain ⟨rfl, hrest⟩ := List.cons.inj heq
    rcases ho with ho | hnone
    · exact List.forall_mem_cons.mpr ⟨ho, h after before reason hrest⟩
    · exact absurd (hrest ▸ List.mem_append_right _ (List.mem_cons_self ..)) (hnone reason)

namespace Leg.Sound

variable {leg : Leg}

/-- An open peer connection is the one it has, and it goes on. -/
theorem running_of_open (h : leg.Sound) {p : Nat} (hopen : (leg.peer p).closed = false) : leg.state ≠ .ended := by
  intro hended
  unfold Leg.peer at hopen
  rw [List.getD_eq_getElem?_getD] at hopen
  cases hpeer : leg.peers[p]? with
  | none =>
    rw [hpeer] at hopen
    cases hopen
  | some peer =>
    rw [hpeer] at hopen
    have hpc := h.single p peer hpeer hopen
    rw [(h.ended hended).1] at hpc
    cases hpc

theorem closed (h : leg.Sound) (hended : leg.state = .ended) : ∀ peer ∈ leg.peers, peer.closed = true := by
  intro peer hmem
  obtain ⟨p, hp⟩ := List.mem_iff_getElem?.mp hmem
  by_contra hopen
  have hpc := h.single p peer hp (by simpa using hopen)
  rw [(h.ended hended).1] at hpc
  cases hpc

theorem send (h : leg.Sound) {message : Message} (hmessage : (Output.send message).forbidden = false ∨ leg.state ≠ .ended) :
    (leg.send message).Sound where
  single := h.single
  ended := h.ended
  running hrunning reason hmem := by
    rcases List.mem_cons.mp hmem with hmem | hmem
    · cases hmem
    · exact h.running hrunning reason hmem
  orderly := orderly_cons h.orderly (hmessage.imp id h.running)

theorem setState (h : leg.Sound) {next : Status} (hnext : next ≠ .ended) : (leg.setState next).Sound := by
  unfold Leg.setState
  split
  · exact h
  · rename_i hstate
    have hrunning : leg.state ≠ .ended := fun hended => hstate (.inr hended)
    refine ⟨h.single, fun hended => absurd hended hnext, fun _ reason hmem => ?_,
      orderly_cons h.orderly (.inr (h.running hrunning))⟩
    rcases List.mem_cons.mp hmem with hmem | hmem
    · cases hmem
    · exact h.running hrunning reason hmem

theorem changePeer (h : leg.Sound) (q : Nat) {f : Peer → Peer} (hf : ∀ peer, (f peer).closed = peer.closed) :
    (leg.changePeer q f).Sound := by
  refine ⟨fun p peer hpeer hopen => ?_, h.ended, h.running, h.orderly⟩
  simp only [Leg.changePeer, List.getElem?_modify] at hpeer
  obtain ⟨old, hold, rfl⟩ := Option.map_eq_some_iff.mp hpeer
  refine h.single p old hold ?_
  split at hopen
  · rwa [hf] at hopen
  · exact hopen

theorem clearTimer (h : leg.Sound) : ({ leg with timer := none } : Leg).Sound :=
  ⟨h.single, fun hended => ⟨(h.ended hended).1, rfl⟩, h.running, h.orderly⟩

theorem setTimer (h : leg.Sound) (p : Nat) (hrunning : leg.state ≠ .ended) :
    ({ leg with timer := some p } : Leg).Sound :=
  ⟨h.single, fun hended => absurd hended hrunning, h.running, h.orderly⟩

end Leg.Sound

/-- After `_closePeer` none is open. -/
theorem Leg.closePeer_closed {leg : Leg} (h : leg.Sound) (p : Nat) (peer : Peer)
    (hpeer : leg.closePeer.peers[p]? = some peer) : peer.closed = true := by
  unfold Leg.closePeer at hpeer
  split at hpeer
  · rename_i q hpc
    simp only [Leg.changePeer, List.getElem?_modify] at hpeer
    obtain ⟨old, hold, rfl⟩ := Option.map_eq_some_iff.mp hpeer
    split
    · rfl
    · rename_i hne
      by_contra hopen
      have hsingle := h.single p old hold (by simpa using hopen)
      rw [hpc] at hsingle
      exact hne (Option.some.inj hsingle)
  · rename_i hpc
    by_contra hopen
    have hsingle := h.single p peer hpeer (by simpa using hopen)
    rw [hpc] at hsingle
    cases hsingle

@[simp] theorem Leg.closePeer_state (leg : Leg) : leg.closePeer.state = leg.state := by
  unfold Leg.closePeer
  split <;> rfl

@[simp] theorem Leg.closePeer_log (leg : Leg) : leg.closePeer.log = leg.log := by
  unfold Leg.closePeer
  split <;> rfl

theorem Leg.closePeer_none (leg : Leg) : leg.closePeer.pc = none ∧ leg.closePeer.timer = none := by
  unfold Leg.closePeer
  split
  · exact ⟨rfl, rfl⟩
  · rename_i hpc
    exact ⟨hpc, rfl⟩

namespace Leg.Sound

variable {leg : Leg}

theorem closePeer (h : leg.Sound) : leg.closePeer.Sound where
  single p peer hpeer hopen := by
    rw [Leg.closePeer_closed h p peer hpeer] at hopen
    cases hopen
  ended _ := leg.closePeer_none
  running hrunning := by
    rw [Leg.closePeer_state] at hrunning
    rw [Leg.closePeer_log]
    exact h.running hrunning
  orderly := by
    rw [Leg.closePeer_log]
    exact h.orderly

theorem newPeer (h : leg.Sound) (hrunning : leg.state ≠ .ended) : leg.newPeer.Sound where
  single p peer hpeer hopen := by
    simp only [Leg.newPeer] at hpeer ⊢
    rw [List.getElem?_append] at hpeer
    split at hpeer
    · rw [Leg.closePeer_closed h p peer hpeer] at hopen
      cases hopen
    · rename_i hlt
      have hzero : p - leg.closePeer.peers.length = 0 := by
        by_contra hne
        rw [List.getElem?_eq_none (by simp only [List.length_singleton]; omega)] at hpeer
        cases hpeer
      congr 1
      omega
  ended hended := absurd ((Leg.closePeer_state leg).symm.trans hended) hrunning
  running _ := by
    simp only [Leg.newPeer, Leg.closePeer_log]
    exact h.running hrunning
  orderly := by
    simp only [Leg.newPeer, Leg.closePeer_log]
    exact h.orderly

theorem end_ (h : leg.Sound) (reason : EndReason) : (leg.end_ reason).Sound := by
  unfold Leg.end_
  split
  · exact h
  · rename_i hrunning
    refine ⟨h.closePeer.single, fun _ => leg.closePeer_none, fun hended => absurd rfl hended, ?_⟩
    have hnone := h.closePeer.running (by rwa [Leg.closePeer_state])
    have hstate : Orderly (.state .ended leg.closePeer.state :: leg.closePeer.log) :=
      orderly_cons h.closePeer.orderly (.inr hnone)
    refine orderly_cons hstate (.inr fun reason hmem => ?_)
    rcases List.mem_cons.mp hmem with hmem | hmem
    · cases hmem
    · exact hnone reason hmem

end Leg.Sound

theorem Leg.end_state (leg : Leg) (reason : EndReason) : (leg.end_ reason).state = .ended := by
  unfold Leg.end_
  split
  · assumption
  · rfl

/-! ## The microphone -/

/-- A stream of its own with a live track is the one it has, and it knows that it is
its own. -/
def Mic.Held (mic : Mic) : Prop :=
  ∀ (i : Nat) stream, mic.streams[i]? = some stream → stream.own = true → stream.stopped = false →
    mic.localStream = some i ∧ mic.ownsLocalStream = true

namespace Mic

variable {mic : Mic}

theorem Stopped.held (h : mic.Stopped) : mic.Held := by
  intro i stream hi hown hlive
  rw [h stream (List.mem_of_getElem? hi) hown] at hlive
  cases hlive

/-- Where one is missing, none of its own is live. -/
theorem Held.stopped_of_missing (h : mic.Held) (hmissing : mic.missing = true) : mic.Stopped := by
  intro stream hmem hown
  obtain ⟨i, hi⟩ := List.mem_iff_getElem?.mp hmem
  by_contra hlive
  have hlive : stream.stopped = false := by simpa using hlive
  obtain ⟨hlocal, -⟩ := h i stream hi hown hlive
  simp only [missing, hlocal, hi, Option.map_some, Option.getD_some, hlive] at hmissing
  cases hmissing

/-- With a stream that the user gave. -/
theorem Stopped.take (h : mic.Stopped) (tracks : List Bool) : (mic.take ⟨false, tracks⟩).Stopped := by
  intro stream hmem hown
  rcases List.mem_append.mp hmem with hmem | hmem
  · exact h stream hmem hown
  · rw [List.mem_singleton.mp hmem] at hown
    cases hown

/-- With a microphone of its own, it means to own. -/
theorem Stopped.acquire (h : mic.Stopped) (howns : mic.ownsLocalStream = true) (tracks : List Bool) :
    (mic.take ⟨true, tracks⟩).Held := by
  intro i stream hi hown hlive
  rw [Mic.take, List.getElem?_append] at hi
  split at hi
  · rw [h stream (List.mem_of_getElem? hi) hown] at hlive
    cases hlive
  · rename_i hlt
    have hzero : i - mic.streams.length = 0 := by
      by_contra hne
      rw [List.getElem?_eq_none (by simp only [List.length_singleton]; omega)] at hi
      cases hi
    exact ⟨congrArg some (by omega), howns⟩

theorem stopped_stop (stream : Stream) : stream.stop.stopped = true := by
  simp [Stream.stop, Stream.stopped]

/-- What is its own is stopped at the end. -/
theorem Held.release (h : mic.Held) : mic.release.Stopped := by
  intro stream hmem hown
  unfold Mic.release at hmem
  split at hmem
  · rename_i i howns hlocal
    obtain ⟨j, hj⟩ := List.mem_iff_getElem?.mp hmem
    simp only [List.getElem?_modify] at hj
    obtain ⟨old, hold, rfl⟩ := Option.map_eq_some_iff.mp hj
    split
    · exact stopped_stop old
    · rename_i hne
      rw [if_neg hne] at hown
      by_contra hlive
      obtain ⟨hj', -⟩ := h j old hold hown (by simpa using hlive)
      rw [hlocal] at hj'
      exact hne (Option.some.inj hj')
  · rename_i hnone
    obtain ⟨j, hj⟩ := List.mem_iff_getElem?.mp hmem
    by_contra hlive
    obtain ⟨hlocal, howns⟩ := h j stream hj hown (by simpa using hlive)
    exact hnone j howns hlocal

/-- A track that ends does not come to life again. -/
theorem stopped_set {stream : Stream} (h : stream.stopped = true) (k : Nat) :
    ({ stream with tracks := stream.tracks.set k false } : Stream).stopped = true := by
  rw [Stream.stopped, List.all_eq_true] at h ⊢
  intro live hlive
  rcases List.mem_or_eq_of_mem_set hlive with hmem | rfl
  · exact h live hmem
  · rfl

theorem Held.trackEnds (h : mic.Held) (i k : Nat) : (mic.trackEnds i k).Held := by
  intro j stream hj hown hlive
  simp only [Mic.trackEnds, List.getElem?_modify] at hj
  obtain ⟨old, hold, rfl⟩ := Option.map_eq_some_iff.mp hj
  have howns : old.own = true := by
    split at hown <;> exact hown
  refine h j old hold howns ?_
  by_contra hstopped
  have hstopped : old.stopped = true := by simpa using hstopped
  split at hlive
  · rw [stopped_set hstopped k] at hlive
    cases hlive
  · rw [hstopped] at hlive
    cases hlive

theorem Stopped.trackEnds (h : mic.Stopped) (i k : Nat) : (mic.trackEnds i k).Stopped := by
  intro stream hmem hown
  obtain ⟨j, hj⟩ := List.mem_iff_getElem?.mp hmem
  simp only [Mic.trackEnds, List.getElem?_modify] at hj
  obtain ⟨old, hold, rfl⟩ := Option.map_eq_some_iff.mp hj
  have howns : old.own = true := by
    split at hown <;> exact hown
  have hstopped := h old (List.mem_of_getElem? hold) howns
  split
  · exact stopped_set hstopped k
  · exact hstopped

end Mic

/-- What a call and a monitor keep. -/
structure Kept (leg : Leg) (mic : Mic) : Prop where
  sound : leg.Sound
  held : leg.state ≠ .ended → mic.Held
  stopped : leg.state = .ended → mic.Stopped

namespace Kept

variable {leg leg' : Leg} {mic : Mic}

theorem of_leg (h : Kept leg mic) (hsound : leg'.Sound) (hstate : leg'.state = .ended ↔ leg.state = .ended) : Kept leg' mic :=
  ⟨hsound, fun hrunning => h.held (mt hstate.mpr hrunning), fun hended => h.stopped (hstate.mp hended)⟩

theorem of_mic {mic' : Mic} (h : Kept leg mic) (hrunning : leg.state ≠ .ended) (hheld : mic'.Held) : Kept leg mic' :=
  ⟨h.sound, fun _ => hheld, fun hended => absurd hended hrunning⟩

theorem end_ (h : Kept leg mic) (hrunning : leg.state ≠ .ended) (reason : EndReason) :
    Kept (leg.end_ reason) mic.release :=
  ⟨h.sound.end_ reason, fun hstate => absurd (leg.end_state reason) hstate, fun _ => (h.held hrunning).release⟩

theorem trackEnds (h : Kept leg mic) (i k : Nat) : Kept leg (mic.trackEnds i k) :=
  ⟨h.sound, fun hrunning => (h.held hrunning).trackEnds i k, fun hended => (h.stopped hended).trackEnds i k⟩

theorem released (h : Kept leg mic) (settled : Prop) : Released leg mic settled where
  orderly := h.sound.orderly
  closed hended _ := h.sound.closed hended
  cleared hended _ := (h.sound.ended hended).2
  stopped hended _ := h.stopped hended

theorem send (h : Kept leg mic) {message : Message}
    (hmessage : (Output.send message).forbidden = false ∨ leg.state ≠ .ended) : Kept (leg.send message) mic :=
  h.of_leg (h.sound.send hmessage) Iff.rfl

theorem setState (h : Kept leg mic) {next : Status} (hnext : next ≠ .ended) : Kept (leg.setState next) mic := by
  refine h.of_leg (h.sound.setState hnext) ?_
  unfold Leg.setState
  split
  · exact Iff.rfl
  · rename_i hstate
    exact iff_of_false hnext fun hended => hstate (.inr hended)

theorem changePeer (h : Kept leg mic) (q : Nat) {f : Peer → Peer} (hf : ∀ peer, (f peer).closed = peer.closed) :
    Kept (leg.changePeer q f) mic := h.of_leg (h.sound.changePeer q hf) Iff.rfl

theorem closePeer (h : Kept leg mic) : Kept leg.closePeer mic := h.of_leg h.sound.closePeer (by rw [Leg.closePeer_state])

theorem newPeer (h : Kept leg mic) (hrunning : leg.state ≠ .ended) : Kept leg.newPeer mic :=
  h.of_leg (h.sound.newPeer hrunning) (by simp only [Leg.newPeer, Leg.closePeer_state])

theorem clearTimer (h : Kept leg mic) : Kept { leg with timer := none } mic := h.of_leg h.sound.clearTimer Iff.rfl

end Kept

/-! ## Calls -/

namespace Call

variable {c : Call}

/-- What a call keeps. -/
def Keeps (c : Call) : Prop := Kept c.leg c.mic

theorem Keeps.end_ (h : c.Keeps) (reason : EndReason) : (c.end_ reason).Keeps := by
  unfold Call.end_
  split
  · exact h
  · exact Kept.end_ h ‹_› reason

theorem Keeps.hangup (h : c.Keeps) : c.hangup.Keeps := by
  unfold Call.hangup
  split
  · exact h
  · rename_i hrunning
    have hsent : (c.send (if c.leg.state = .dialing then .cancel else .terminate false)).Keeps :=
      Kept.send h (.inr hrunning)
    exact hsent.end_ .hangup

theorem Keeps.decline (h : c.Keeps) : c.decline.Keeps := by
  unfold Call.decline
  split
  · have hsent : (c.send .reject).Keeps := Kept.send h (.inl rfl)
    exact hsent.end_ .declined
  · exact h

theorem Keeps.attachMicrophone (h : c.Keeps) (hrunning : c.leg.state ≠ .ended) (routine : Routine) (pc : Nat)
    (stream : Option (List Bool)) : (c.attachMicrophone routine pc stream).Keeps := by
  unfold Call.attachMicrophone
  split
  · rename_i hmissing
    have hstopped := (h.held hrunning).stopped_of_missing hmissing
    have howns : ∀ owns, ({ c.mic with ownsLocalStream := owns } : Mic).Stopped := fun _ => hstopped
    cases stream with
    | some tracks => exact Kept.of_mic h hrunning ((howns false).take tracks).held
    | none => exact Kept.of_mic h hrunning (howns true).held
  · exact h

/-- A listener that lets it go on. -/
theorem connecting_false (c : Call) : c.connecting false = c.setState .connecting := by
  unfold Call.connecting
  rw [if_pos (.inr (.inr rfl))]

theorem setState_running (c : Call) {next : Status} (hnext : next ≠ .ended) (hrunning : c.leg.state ≠ .ended) :
    (c.setState next).leg.state ≠ .ended := by
  unfold Call.setState Leg.setState
  split
  · exact hrunning
  · exact hnext

theorem Keeps.setState (h : c.Keeps) {next : Status} (hnext : next ≠ .ended) : (c.setState next).Keeps :=
  Kept.setState h hnext

/-- A new peer connection of a call that goes on. -/
theorem Keeps.newPeer (h : c.Keeps) (hrunning : c.leg.state ≠ .ended) (keepRemoteCandidates : Bool) :
    (c.newPeer keepRemoteCandidates).Keeps := Kept.newPeer h hrunning

theorem newPeer_running (hrunning : c.leg.state ≠ .ended) (keepRemoteCandidates : Bool) :
    (c.newPeer keepRemoteCandidates).leg.state ≠ .ended := by
  simpa only [Call.newPeer, Leg.newPeer, Leg.closePeer_state] using hrunning

theorem Keeps.accept (h : c.Keeps) (stream : Option (List Bool)) : (c.accept stream false).Keeps := by
  unfold Call.accept
  split
  · rename_i hringing
    have hrunning : c.leg.state ≠ .ended := by
      rw [hringing.1]
      decide
    have hconnecting := setState_running c (show Status.connecting ≠ .ended by decide) hrunning
    rw [connecting_false]
    exact ((h.setState (by decide)).newPeer hconnecting true).attachMicrophone (newPeer_running hconnecting true) _ _ _
  · exact h

theorem Keeps.reconnect (h : c.Keeps) (hrunning : c.leg.state ≠ .ended) (origin : Origin) (stream : Option (List Bool)) :
    (c.reconnect origin stream false).Keeps := by
  unfold Call.reconnect
  rw [connecting_false]
  have hrecovering : ({ c with recovering := true } : Call).Keeps := h
  have hconnecting := setState_running { c with recovering := true } (show Status.connecting ≠ .ended by decide) hrunning
  exact ((hrecovering.setState (by decide)).newPeer hconnecting false).attachMicrophone
    (newPeer_running hconnecting false) _ _ _

theorem Keeps.mediaFailed (h : c.Keeps) : (c.mediaFailed false).Keeps := by
  unfold Call.mediaFailed
  split
  · exact h
  · rename_i hgoesOn
    split
    · have hsent : (c.send (.terminate true)).Keeps := Kept.send h (.inl rfl)
      exact hsent.end_ .mediaFailed
    · have hcounted : ({ c with reconnects := c.reconnects + 1 } : Call).Keeps := h
      exact hcounted.reconnect (fun hended => hgoesOn (.inl hended)) _ _

theorem Keeps.throws (h : c.Keeps) (t : Task) : (c.throws t).Keeps := by
  unfold Call.throws
  split
  · exact h.end_ .acceptFailed
  · exact h
  · exact h
  · exact h

theorem Keeps.afterAttached (h : c.Keeps) (t : Task) : (c.afterAttached t).Keeps := by
  unfold Call.afterAttached
  split
  · exact h
  · exact h
  · dsimp only
    split
    · exact Kept.send h (.inl rfl)
    · exact h
  · exact h

theorem Keeps.afterFlushed (h : c.Keeps) (t : Task) : (c.afterFlushed t).Keeps := by
  unfold Call.afterFlushed
  split <;> exact h

theorem Keeps.flushRemote (h : c.Keeps) (routine : Routine) (pc left : Nat) : (c.flushRemote routine pc left).Keeps := by
  unfold Call.flushRemote
  split <;> exact h

/-- What is sent once the description is set: the call goes on. -/
theorem Keeps.afterSetLocal (h : c.Keeps) (hrunning : c.leg.state ≠ .ended) (t : Task) : (c.afterSetLocal t).Keeps := by
  unfold Call.afterSetLocal
  split
  · exact Kept.send h (.inr hrunning)
  · exact Kept.send h (.inr hrunning)
  · exact Kept.send h (.inl rfl)
  · split
    · split
      · exact Kept.send h (.inl rfl)
      · exact h
    · exact h
  · exact h

theorem Keeps.acquire (h : c.Keeps) (hrunning : c.leg.state ≠ .ended) (howns : c.mic.ownsLocalStream = true)
    (hmissing : c.mic.missing = true) (t : Task) (tracks : Nat) : (c.acquire t tracks).Keeps :=
  Kept.of_mic h hrunning (((h.held hrunning).stopped_of_missing hmissing).acquire howns _)

/-- What one continuation keeps. -/
theorem Keeps.resume (h : c.Keeps) {t : Task} {result : Option Nat}
    (hbrowser : result.isSome = true → t.await.onPeer = true → (c.leg.peer t.pc).closed = false)
    (harrives : result.isSome = true → t.await = .microphone →
      c.leg.state ≠ .ended ∧ c.mic.ownsLocalStream = true ∧ c.mic.missing = true) : (c.resume t result).Keeps := by
  unfold Call.resume
  split
  · rename_i hmicrophone
    obtain ⟨hrunning, howns, hmissing⟩ := harrives rfl hmicrophone
    exact h.acquire hrunning howns hmissing t _
  · exact h
  · exact h.afterAttached t
  · exact h.throws t
  · have hset : ({ c with
        leg := c.leg.changePeer t.pc fun peer => { peer with remoteDescription := true }
        pendingRemote := 0 } : Call).Keeps := Kept.changePeer h _ fun _ => rfl
    exact hset.flushRemote _ _ _
  · split
    · exact h
    · exact h.flushRemote _ _ _
  · exact h.afterFlushed t
  · exact h.throws t
  · exact h
  · exact h
  · rename_i hset
    have hrunning := h.sound.running_of_open (hbrowser rfl (by rw [hset]; rfl))
    have hlocal : ({ c with
        leg := c.leg.changePeer t.pc fun peer => { peer with localDescription := true } } : Call).Keeps :=
      Kept.changePeer h _ fun _ => rfl
    exact hlocal.afterSetLocal hrunning t
  · exact h.throws t
  · exact h.throws t
  · exact h.throws t
  · exact h.throws t
  · exact h.end_ .mediaFailed

theorem Keeps.onReconnected (h : c.Keeps) (offer : Bool) : (c.onReconnected offer).Keeps := by
  unfold Call.onReconnected
  split <;> exact h

theorem Keeps.onStarted (h : c.Keeps) (answer : Bool) : (c.onStarted answer).Keeps := by
  unfold Call.onStarted
  split
  · split <;> exact h
  · exact h

theorem Keeps.onServerCandidate (h : c.Keeps) : c.onServerCandidate.Keeps := by
  unfold Call.onServerCandidate
  split
  · split <;> exact h
  · exact h

theorem Keeps.customerAnsweredNow (h : c.Keeps) : c.customerAnsweredNow.Keeps := by
  unfold Call.customerAnsweredNow
  dsimp only
  split
  · exact Kept.setState h (by decide)
  · exact h

theorem Keeps.superseded (h : c.Keeps) : c.superseded.Keeps := Kept.setState (Kept.closePeer h) (by decide)

theorem Keeps.connected (h : c.Keeps) : c.connected.Keeps := by
  have hcleared : Kept ({ c.leg with timer := none } : Leg) c.mic := Kept.clearTimer h
  unfold Call.connected
  dsimp only
  split
  · exact Kept.setState hcleared (by decide)
  · exact hcleared

theorem Keeps.connectionChanges (h : c.Keeps) (pc : Nat) (now : Connection) : (c.connectionChanges pc now false).Keeps := by
  have hchanged : ({ c with
      leg := c.leg.changePeer pc fun peer => { peer with connected := now = .connected } } : Call).Keeps :=
    Kept.changePeer h _ fun _ => rfl
  unfold Call.connectionChanges
  dsimp only
  split
  · cases now with
    | connected => exact hchanged.connected
    | failed => exact hchanged.mediaFailed
    | other => exact hchanged
  · exact hchanged

theorem Keeps.timeout (h : c.Keeps) : (c.timeout false).Keeps := by
  unfold Call.timeout
  split
  · have hcleared : ({ c with leg := { c.leg with timer := none } } : Call).Keeps := Kept.clearTimer h
    dsimp only
    split
    · exact hcleared.mediaFailed
    · exact hcleared
  · exact h

/-- What one event keeps. -/
theorem Keeps.step (h : c.Keeps) {e : Event} (hbrowser : c.Browser e) (hcareful : c.Careful e) : (c.step e).Keeps := by
  have hlistener := hcareful.listener
  cases e with
  | accept stream hangsUp =>
    obtain rfl : hangsUp = false := hlistener
    exact h.accept stream
  | decline => exact h.decline
  | hangup => exact h.hangup
  | switchHere stream hangsUp =>
    obtain rfl : hangsUp = false := hlistener
    unfold Call.step Call.switchHere
    dsimp only
    split
    · rename_i helsewhere
      exact h.reconnect (by rw [helsewhere]; decide) _ _
    · exact h
  | close => exact Kept.closePeer h
  | update isDirect hasOffer => exact h
  | ends reason => exact h.end_ reason
  | endsRinging reason =>
    unfold Call.step
    dsimp only
    split
    · exact h.end_ reason
    · exact h
  | superseded => exact h.superseded
  | reconnected offer => exact h.onReconnected offer
  | started answer => exact h.onStarted answer
  | serverCandidate => exact h.onServerCandidate
  | customerAnswered => exact h.customerAnsweredNow
  | connection pc now hangsUp =>
    obtain rfl : hangsUp = false := hlistener
    exact h.connectionChanges pc now
  | timeout hangsUp =>
    obtain rfl : hangsUp = false := hlistener
    exact h.timeout
  | trackEnds stream track => exact Kept.trackEnds h stream track
  | settles k result =>
    unfold Call.step
    dsimp only
    split
    · rename_i t ht
      have hrest : ({ c with tasks := c.tasks.eraseIdx k } : Call).Keeps := h
      refine hrest.resume (fun hsome hpeer => ?_) fun hsome hmicrophone => ?_
      · obtain ⟨n, rfl⟩ := Option.isSome_iff_exists.mp hsome
        exact hbrowser k n t rfl ht hpeer
      · obtain ⟨n, rfl⟩ := Option.isSome_iff_exists.mp hsome
        exact hcareful.arrives k n t rfl ht hmicrophone
    · exact h

theorem keeps_new (c : Call) (hstate : c.leg.state ≠ .ended) (hleg : c.leg.peers = [] ∧ c.leg.log = [])
    (hmic : c.mic.streams = []) : c.Keeps := by
  refine ⟨⟨fun p peer hpeer => ?_, fun hended => absurd hended hstate, fun _ reason hmem => ?_, ?_⟩,
    fun _ i stream hi => ?_, fun hended => absurd hended hstate⟩
  · rw [hleg.1] at hpeer
    cases hpeer
  · rw [hleg.2] at hmem
    cases hmem
  · rw [hleg.2]
    rintro (_ | ⟨o, after⟩) before reason heq <;> cases heq
  · rw [hmic] at hi
    cases hi

theorem keeps_begin (b : Begin) : (begin b).Keeps := by
  cases b with
  | ringing isDirect hasOffer => exact keeps_new _ nofun ⟨rfl, rfl⟩ rfl
  | dialing stream =>
    have hnew : ({ leg := { state := .dialing } } : Call).Keeps := keeps_new _ nofun ⟨rfl, rfl⟩ rfl
    exact (hnew.newPeer (by decide) false).attachMicrophone (newPeer_running (by decide) false) _ _ _
  | elsewhere isDirect => exact keeps_new _ nofun ⟨rfl, rfl⟩ rfl
  | pageReload isDirect =>
    have hnew : ({ leg := { state := .connecting }, isDirect } : Call).Keeps := keeps_new _ nofun ⟨rfl, rfl⟩ rfl
    exact hnew.reconnect nofun _ _

end Call

/-! ## Monitors -/

def MonitorTask.asks (t : MonitorTask) : Bool := t.await = .microphone

namespace Monitor

variable {m : Monitor}

/-- What a monitor keeps. It asks for a microphone once, before it has a stream. -/
structure Keeps (m : Monitor) : Prop where
  kept : Kept m.leg m.mic
  once : m.tasks.countP MonitorTask.asks ≤ 1
  asks : ∀ t ∈ m.tasks, t.asks = true → m.mic.streams = [] ∧ m.mic.ownsLocalStream = true

theorem Keeps.awaits (h : m.Keeps) (routine : MonitorRoutine) {await : Await} (hawait : await ≠ .microphone) :
    (m.awaits routine await).Keeps := by
  have hasks : MonitorTask.asks ⟨routine, await⟩ = false := decide_eq_false hawait
  refine ⟨h.kept, ?_, fun t ht hmicrophone => ?_⟩
  · rw [Monitor.awaits, List.countP_append, List.countP_singleton, hasks]
    exact h.once
  · rcases List.mem_append.mp ht with ht | ht
    · exact h.asks t ht hmicrophone
    · rw [List.mem_singleton.mp ht, hasks] at hmicrophone
      cases hmicrophone

/-- Another leg of the same monitor. -/
theorem Keeps.of_leg (h : m.Keeps) {leg : Leg} (hleg : Kept leg m.mic) : ({ m with leg } : Monitor).Keeps :=
  ⟨hleg, h.once, h.asks⟩

theorem Keeps.send (h : m.Keeps) {message : Message}
    (hmessage : (Output.send message).forbidden = false ∨ m.leg.state ≠ .ended) : (m.send message).Keeps :=
  h.of_leg (h.kept.send hmessage)

theorem release_streams {mic : Mic} (h : mic.streams = []) : mic.release.streams = [] := by
  unfold Mic.release
  split
  · simp only [h, List.modify_nil]
  · exact h

theorem release_owns (mic : Mic) : mic.release.ownsLocalStream = mic.ownsLocalStream := by
  unfold Mic.release
  split <;> rfl

theorem Keeps.end_ (h : m.Keeps) (reason : EndReason) : (m.end_ reason).Keeps := by
  unfold Monitor.end_
  split
  · exact h
  · rename_i hrunning
    refine ⟨h.kept.end_ hrunning reason, h.once, fun t ht hasks => ?_⟩
    obtain ⟨hstreams, howns⟩ := h.asks t ht hasks
    exact ⟨release_streams hstreams, (release_owns m.mic).trans howns⟩

theorem Keeps.stop (h : m.Keeps) : m.stop.Keeps := by
  unfold Monitor.stop
  split
  · exact h
  · exact (h.send (.inl rfl)).end_ .stopped

/-- The connect timer of a monitor that goes on. -/
theorem Keeps.listen (h : m.Keeps) (hrunning : m.leg.state ≠ .ended) : m.listen.Keeps :=
  ⟨h.kept.of_leg (h.kept.sound.setTimer onlyPeer hrunning) Iff.rfl, h.once, h.asks⟩

theorem Keeps.addLine (h : m.Keeps) (hrunning : m.leg.state ≠ .ended) : m.addLine.Keeps := by
  unfold Monitor.addLine
  split
  · exact h.awaits _ nofun
  · exact (h.listen hrunning).awaits _ nofun

theorem Keeps.throws (h : m.Keeps) (routine : MonitorRoutine) : (m.throws routine).Keeps := by
  unfold Monitor.throws
  split
  · exact h.awaits _ nofun
  · exact h

theorem Keeps.addCandidates (h : m.Keeps) (routine : MonitorRoutine) (left : Nat) :
    (m.addCandidates routine left).Keeps := by
  unfold Monitor.addCandidates
  split
  · unfold Monitor.afterCandidates
    split
    · exact h.awaits _ nofun
    · exact h
  · exact h.throws routine
  · exact h.awaits _ nofun

theorem Keeps.changePeer (h : m.Keeps) {f : Peer → Peer} (hf : ∀ peer, (f peer).closed = peer.closed) :
    (m.changePeer f).Keeps := h.of_leg (h.kept.changePeer _ hf)

theorem Keeps.afterSetLocal (h : m.Keeps) (hrunning : m.leg.state ≠ .ended) (routine : MonitorRoutine) :
    (m.afterSetLocal routine).Keeps := by
  unfold Monitor.afterSetLocal
  split
  · exact h.send (.inr hrunning)
  · split
    · exact h.send (.inl rfl)
    · exact h
  · exact h

/-- With the task gone that waited for the microphone, none waits. -/
theorem none_asks {k : Nat} {t : MonitorTask} (h : m.Keeps) (ht : m.tasks[k]? = some t) (hasks : t.asks = true) :
    ∀ t ∈ m.tasks.eraseIdx k, t.asks = false := by
  have hperm := List.getElem_cons_eraseIdx_perm (List.getElem?_eq_some_iff.mp ht).1
  rw [(List.getElem?_eq_some_iff.mp ht).2] at hperm
  have hcount := hperm.countP_eq MonitorTask.asks
  have honce := h.once
  rw [List.countP_cons_of_pos hasks] at hcount
  have hzero : (m.tasks.eraseIdx k).countP MonitorTask.asks = 0 := by omega
  intro t ht
  simpa using List.countP_eq_zero.mp hzero t ht

/-- The microphone arrives while the monitor goes on. -/
theorem Keeps.acquire {k : Nat} {t : MonitorTask} (h : m.Keeps) (ht : m.tasks[k]? = some t) (hasks : t.asks = true)
    (hrunning : m.leg.state ≠ .ended) (tracks : Nat) :
    (({ m with tasks := m.tasks.eraseIdx k } : Monitor).acquire tracks).Keeps := by
  obtain ⟨hstreams, howns⟩ := h.asks t (List.mem_of_getElem? ht) hasks
  have hstopped : m.mic.Stopped := by
    intro stream hmem
    rw [hstreams] at hmem
    cases hmem
  have hnone := none_asks h ht hasks
  have htaken : ({ m with
      tasks := m.tasks.eraseIdx k
      mic := m.mic.take ⟨true, List.replicate tracks true⟩ } : Monitor).Keeps := by
    refine ⟨h.kept.of_mic hrunning (hstopped.acquire howns _), ?_, fun t ht hasks => ?_⟩
    · rw [List.countP_eq_zero.mpr fun t ht => by simp [hnone t ht]]
      exact Nat.zero_le 1
    · rw [hnone t ht] at hasks
      cases hasks
  exact htaken.addLine hrunning

theorem Keeps.resume (h : m.Keeps) {t : MonitorTask} {result : Option Nat}
    (hbrowser : result.isSome = true → t.await.onPeer = true → (m.leg.peer onlyPeer).closed = false)
    (hasks : t.await = .microphone → result = none) : (m.resume t result).Keeps := by
  unfold Monitor.resume
  split
  · rename_i hmicrophone
    cases hasks hmicrophone
  · exact h.throws _
  · have hset := h.changePeer (f := fun peer => { peer with remoteDescription := true }) fun _ => rfl
    have htaken : ({ m.changePeer (fun peer => { peer with remoteDescription := true }) with
        pendingRemote := 0 } : Monitor).Keeps := ⟨hset.kept, hset.once, hset.asks⟩
    exact htaken.addCandidates _ _
  · split
    · exact h
    · exact h.addCandidates _ _
  · exact h.awaits _ nofun
  · exact h.awaits _ nofun
  · rename_i hset
    have hrunning := h.kept.sound.running_of_open (hbrowser rfl (by rw [hset]; rfl))
    have hlocal := h.changePeer (f := fun peer => { peer with localDescription := true }) fun _ => rfl
    exact hlocal.afterSetLocal hrunning _
  · exact h.throws _
  · exact h.throws _
  · exact h.throws _
  · exact h.throws _
  · exact h.end_ .failed
  · exact h
  · exact h

theorem Keeps.erase (h : m.Keeps) (k : Nat) : ({ m with tasks := m.tasks.eraseIdx k } : Monitor).Keeps :=
  ⟨h.kept, Nat.le_trans (List.eraseIdx_sublist ..).countP_le h.once,
    fun t ht => h.asks t (List.mem_of_mem_eraseIdx ht)⟩

/-- What one event keeps. -/
theorem Keeps.step (h : m.Keeps) {e : Event} (hbrowser : m.Browser e) (hcareful : m.Careful e) : (m.step e).Keeps := by
  cases e with
  | stop => exact h.stop
  | setMode =>
    unfold Monitor.step Monitor.setMode
    dsimp only
    split
    · exact h
    · exact h.send (.inl rfl)
  | ends reason => exact h.end_ reason
  | offer | started =>
    unfold Monitor.step Monitor.describe
    dsimp only
    split
    · exact h.awaits _ nofun
    · exact h
  | serverCandidate =>
    unfold Monitor.step Monitor.onServerCandidate
    dsimp only
    split
    · exact h.awaits _ nofun
    · exact ⟨h.kept, h.once, h.asks⟩
  | connection connected =>
    unfold Monitor.step Monitor.connectionChanges
    dsimp only
    split
    · split
      · exact h.of_leg (Kept.setState h.kept.clearTimer (by decide))
      · exact h.stop
    · exact h
  | timeout =>
    unfold Monitor.step Monitor.timeout
    dsimp only
    split
    · have hcleared : ({ m with leg := { m.leg with timer := none } } : Monitor).Keeps := h.of_leg h.kept.clearTimer
      split
      · exact hcleared.stop
      · exact hcleared
    · exact h
  | trackEnds stream track =>
    refine ⟨h.kept.trackEnds stream track, h.once, fun t ht hasks => ?_⟩
    obtain ⟨hstreams, howns⟩ := h.asks t ht hasks
    refine ⟨?_, howns⟩
    simp only [Monitor.step, Mic.trackEnds, hstreams, List.modify_nil]
  | settles k result =>
    unfold Monitor.step
    dsimp only
    split
    · rename_i t ht
      by_cases hasks : t.await = .microphone ∧ result.isSome = true
      · obtain ⟨hmicrophone, hsome⟩ := hasks
        obtain ⟨n, rfl⟩ := Option.isSome_iff_exists.mp hsome
        have hrunning := hcareful k n t rfl ht hmicrophone
        obtain ⟨routine, await⟩ := t
        obtain rfl : await = .microphone := hmicrophone
        exact h.acquire ht rfl hrunning n
      · refine (h.erase k).resume (fun hsome hpeer => ?_) fun hmicrophone => ?_
        · obtain ⟨n, rfl⟩ := Option.isSome_iff_exists.mp hsome
          exact hbrowser k n t rfl ht hpeer
        · cases result with
          | none => rfl
          | some n => exact absurd ⟨hmicrophone, rfl⟩ hasks
    · exact h

theorem keeps_start (direct : Bool) (stream : Option (List Bool)) : (start direct stream).Keeps := by
  have hleg : ({ state := .connecting, peers := [{}], pc := some onlyPeer } : Leg).Sound := by
    refine ⟨fun p peer hpeer _ => ?_, nofun, fun _ _ => nofun, ?_⟩
    · have hp : p < [({} : Peer)].length := (List.getElem?_eq_some_iff.mp hpeer).1
      exact congrArg some (Nat.lt_one_iff.mp hp).symm
    · rintro (_ | ⟨o, after⟩) before reason heq <;> cases heq
  have hnone : ({} : Mic).Stopped := nofun
  have hnew : ({ leg := { state := .connecting, peers := [{}], pc := some onlyPeer }, direct } : Monitor).Keeps :=
    ⟨⟨hleg, fun _ => hnone.held, nofun⟩, Nat.zero_le 1, nofun⟩
  unfold start
  dsimp only
  split
  · exact (hnew.listen nofun).send (.inr nofun)
  · cases stream with
    | some tracks =>
      have hgiven : ({
          leg := { state := .connecting, peers := [{}], pc := some onlyPeer }
          mic := ({} : Mic).take ⟨false, tracks⟩
          direct := direct } : Monitor).Keeps :=
        ⟨⟨hleg, fun _ => (hnone.take tracks).held, nofun⟩, Nat.zero_le 1, nofun⟩
      exact hgiven.addLine nofun
    | none =>
      have howns : ({ ownsLocalStream := true } : Mic).Stopped := nofun
      refine ⟨⟨hleg, fun _ => howns.held, nofun⟩, Nat.le_refl 1, fun t ht _ => ?_⟩
      exact ⟨rfl, rfl⟩

end Monitor

/-- In a run of a call in which no listener hangs up on being told that it connects,
and each microphone arrives while the call goes on, still means to own it and has no
other that is live, and in a run of a monitor whose microphone arrives while it goes
on, what is claimed holds. -/
theorem legsReleased (begin : Call.Begin) (es : List Call.Event) (direct : Bool) (stream : Option (List Bool))
    (es' : List Monitor.Event) :
    (Along Call.step Call.Browser (Call.begin begin) es → Along Call.step Call.Careful (Call.begin begin) es →
      let call := es.foldl Call.step (Call.begin begin)
      Released call.leg call.mic (call.tasks = [])) ∧
    (Along Monitor.step Monitor.Browser (Monitor.start direct stream) es' →
      Along Monitor.step Monitor.Careful (Monitor.start direct stream) es' →
      let monitor := es'.foldl Monitor.step (Monitor.start direct stream)
      Released monitor.leg monitor.mic (monitor.tasks = [])) := by
  refine ⟨fun hbrowser hcareful => ?_, fun hbrowser hcareful => ?_⟩
  · have hkeeps := Along.keeps (I := Call.Keeps) (fun _ _ h hb hs => h.step hb hs) (Call.keeps_begin begin) hbrowser hcareful
    exact Kept.released hkeeps _
  · have hkeeps := Along.keeps (I := Monitor.Keeps) (fun _ _ h hb hs => h.step hb hs) (Monitor.keeps_start direct stream)
      hbrowser hcareful
    exact hkeeps.kept.released _

/-- A call accepted to the end and a monitor that listens, ended by the server: nothing
is under way, and nothing is held. -/
theorem legsReleased_ended :
    let call := ([Call.Event.accept none false] ++ List.replicate 6 (Call.Event.settles 0 (some 1)) ++
      [Call.Event.ends .terminated]).foldl Call.step (Call.begin (.ringing false true))
    let monitor := (List.replicate 3 (Monitor.Event.settles 0 (some 1)) ++ [Monitor.Event.ends .terminated]).foldl
      Monitor.step (Monitor.start false none)
    (call.tasks = [] ∧ monitor.tasks = []) ∧
      Released call.leg call.mic (call.tasks = []) ∧ Released monitor.leg monitor.mic (monitor.tasks = []) := by
  refine ⟨by decide, ?_, ?_⟩
  · apply (legsReleased (.ringing false true) _ false none []).1
    · refine ⟨nofun, ?_, ?_, ?_, ?_, ?_, ?_, nofun, trivial⟩
      all_goals
        intro k n t he ht _
        cases he
        cases ht
        decide
    · refine ⟨⟨rfl, nofun⟩, ⟨rfl, ?_⟩, ⟨rfl, ?_⟩, ⟨rfl, ?_⟩, ⟨rfl, ?_⟩, ⟨rfl, ?_⟩, ⟨rfl, ?_⟩, ⟨rfl, nofun⟩, trivial⟩
      all_goals
        intro k n t he ht _
        cases he
        cases ht
        first | contradiction | decide
  · apply (legsReleased (.ringing false true) [] false none _).2
    · refine ⟨?_, ?_, ?_, nofun, trivial⟩
      all_goals
        intro k n t he ht _
        cases he
        cases ht
        decide
    · refine ⟨?_, ?_, ?_, nofun, trivial⟩
      all_goals
        intro k n t he ht _
        cases he
        decide

/-- The call ends while the user is asked for the microphone: it is taken afterwards,
and stays on. -/
theorem not_legsReleased_late : ¬∀ begin es, Along Call.step Call.Browser (Call.begin begin) es →
    let call := es.foldl Call.step (Call.begin begin)
    Released call.leg call.mic (call.tasks = []) := by
  intro hclaim
  have hbrowser : Along Call.step Call.Browser (Call.begin (.ringing false true))
      [.accept none false, .ends .terminated, .settles 0 (some 1), .settles 0 none] := by
    refine ⟨nofun, nofun, fun k n t he ht hpeer => ?_, nofun, trivial⟩
    cases he
    cases ht
    cases hpeer
  have hreleased := hclaim _ _ hbrowser
  have hstopped := hreleased.stopped (by decide) (by decide) ⟨true, [true]⟩ (by decide) rfl
  cases hstopped

end Callio.Sdk
