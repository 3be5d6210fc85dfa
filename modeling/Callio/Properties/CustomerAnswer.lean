import Callio.Concurrency.Exclusion
import Callio.Conduct.Handlers
import Callio.Persistence.Effects
import Mathlib.Data.Fintype.Basic

/-! Answering the customer. An accept decides from `answered_at`, read once its
own media is up and written only after the provider took the accept; a second
accept that reads the row in between answers the customer again. -/

namespace Callio

open Concurrency Code

/-- What `answerRinging` looks for in the row: ringing, not from the IVR, never
answered. -/
def Call.unanswered (call : Call) : Bool :=
  call.status = .ringing && call.ivrFlowId.isNone && call.answeredAt.isNone

namespace CustomerAnswer

/-- How far a handler is with answering the customer. -/
inductive Phase
  | idle
  /-- The agent's media is up; the row is read next. -/
  | joined
  /-- The row was unanswered. -/
  | due
  /-- The provider has been told to accept. -/
  | done
  deriving DecidableEq

/-- The customer's answer is this handler's to give. -/
def Phase.spent : Phase → Bool
  | due | done => true
  | idle | joined => false

def next (c : Nat) : Phase → (s : Stmt) → s.Res → Phase
  | .idle, .media id (.agentAccepted _ _ _), .ok => if id = c then .joined else .idle
  | .joined, .query (.findById id), call => if id = c ∧ call.any Call.unanswered then .due else .idle
  | .joined, _, _ => .idle
  | .due, .provider id .accept, _ => if id = c then .done else .due
  | q, _, _ => q

/-- Only a handler that found the call unanswered answers its customer. -/
def allows (c : Nat) (q : Phase) : Stmt → Prop
  | .media id .answerCustomer | .provider id .accept => id = c → q = .due
  | _ => True

abbrev protocol (c : Nat) : Protocol Stmt.Res := ⟨Phase, next c, allows c⟩

/-- Statements that matter here. -/
def Answers : Stmt → Bool
  | .media _ .answerCustomer | .media _ (.agentAccepted _ _ _) | .provider _ .accept => true
  | _ => false

variable {c : Nat}

theorem next_of_not_answers {q : Phase} {s : Stmt} (r : s.Res) (hs : Answers s = false)
    (hq : q ≠ .joined) : next c q s r = q := by
  unfold next
  split <;> simp_all [Answers]

theorem keeps {s : Stmt} (hs : Answers s = false) : (protocol c).Keeps (· ≠ .joined) s := by
  intro q hq
  refine ⟨?_, fun r => ?_⟩
  · show allows c q s
    unfold allows
    split <;> simp_all [Answers]
  · show next c q s r ≠ .joined
    rwa [next_of_not_answers r hs hq]

/-! ## Handlers -/

theorem answers_of_has {v : Vocabulary} {s : Stmt} (h : v.Has s)
    (hv : v ∉ [.autoAnswering, .accepting, .answeringReconnect]) : Answers s = false := by
  cases s with
  | media id op => cases v <;> cases op <;> simp_all [Answers]
  | provider id action => cases v <;> cases action <;> simp_all [Answers]
  | _ => rfl

theorem keeps_of_has {v : Vocabulary} (hv : v ∉ [.autoAnswering, .accepting, .answeringReconnect])
    (s : Stmt) (hs : v.Has s) : (protocol c).Keeps (· ≠ .joined) s :=
  keeps (answers_of_has hs hv)

theorem keeps_idle {s : Stmt} (hs : Answers s = false) : (protocol c).Keeps (· = .idle) s := by
  rintro _ rfl
  have hne : Phase.idle ≠ .joined := nofun
  exact ⟨(keeps hs _ hne).1, fun r => next_of_not_answers r hs hne⟩

theorem routes : Routes (protocol c) (· ≠ .joined) :=
  .of_keeps fun s hs => hs.elim (keeps_of_has (by decide : Vocabulary.routing ∉ _) s)
    (keeps_of_has (by decide : Vocabulary.offering ∉ _) s)

theorem routes_idle : Routes (protocol c) (· = .idle) :=
  .of_keeps fun s hs => keeps_idle <| hs.elim
    (fun hs => answers_of_has (v := .routing) hs (by decide))
    fun hs => answers_of_has (v := .offering) hs (by decide)

theorem ends : Ends (protocol c) (· ≠ .joined) :=
  .of_keeps routes (keeps_of_has (by decide : Vocabulary.ending ∉ _))

theorem answers_of_connecting {s : Stmt} (hs : s.Connecting) : Answers s = false := by
  cases s with
  | media id op => cases op <;> simp_all [Answers]
  | provider id action => simp at hs
  | _ => rfl

section accept

variable (a : Accept)

/-- The call is another, or its customer's answer is due from this handler. -/
def MayAnswer (c : Nat) (q : Phase) : Prop := q ≠ .joined ∧ (a.callId = c → q = .due)

theorem keeps_mayAnswer {s : Stmt} (hs : Answers s = false) : (protocol c).Keeps (MayAnswer a c) s := by
  rintro q ⟨hq, hdue⟩
  refine ⟨(keeps hs q hq).1, fun r => ?_⟩
  show MayAnswer a c (next c q s r)
  rw [next_of_not_answers r hs hq]
  exact ⟨hq, hdue⟩

theorem answerCustomer_takes :
    a.answerCustomer.Takes (protocol c) (MayAnswer a c) (· ≠ .joined) := by
  have hleg : (protocol c).Keeps (MayAnswer a c) (.media a.callId .answerCustomer) := fun q hq =>
    ⟨hq.2, fun r => by cases q <;> first | exact hq | exact absurd rfl hq.1⟩
  have haccept : (Code.provider a.callId .accept).Takes (protocol c) (MayAnswer a c) (· ≠ .joined) := by
    rintro q ⟨hq, hdue⟩
    refine ⟨hdue, fun r => ?_⟩
    show next c q (.provider a.callId .accept) r ≠ .joined
    cases q with
    | joined => exact absurd rfl hq
    | due => simp only [next]; split <;> nofun
    | _ => nofun
  have hidle : ∀ q, MayAnswer a c q → q ≠ .joined := fun q hq => hq.1
  have hread : (Code.read (.customerOffer a.callId)).Stays (protocol c) (MayAnswer a c) :=
    keeps_mayAnswer a rfl
  have hstatus : (Code.read (.getStatus a.callId)).Stays (protocol c) (· ≠ .joined) := keeps rfl
  refine hread.bind fun _ => .ite (fun _ => Prog.takes_ret hidle _) fun _ => ?_
  refine (Prog.stays_cmd hleg).bind fun _ => haccept.bind fun _ => .ite (fun _ => Prog.stays_ret _) fun _ => ?_
  refine hstatus.bind fun status => ?_
  rcases status with _ | _ | _ | _ | _ | _ <;> exact Prog.stays_ret _

theorem next_findById_ne (q : Phase) (id : Nat) (r : Option Call) :
    next c q (.query (.findById id)) r ≠ .joined := by
  cases q with
  | joined => simp only [next]; split <;> nofun
  | _ => nofun

theorem connect_takes (call : Call) : (a.connectCall call).Stays (protocol c) (· ≠ .joined) :=
  a.connectCall_stays routes (fun _ hs => keeps (answers_of_connecting (.inl hs.1))) call

theorem answerRinging_takes (call : Call) (hs : call.status = .ringing) :
    (a.answerRinging call).Takes (protocol c)
      (fun q => q ≠ .joined ∧ (a.callId = c → call.unanswered → q = .due)) (· ≠ .joined) := by
  intro q hq
  unfold Accept.answerRinging
  split
  · rename_i hu
    have hmay : MayAnswer a c q := ⟨hq.1, fun hc => hq.2 hc (by
      simpa [Call.unanswered, hs] using hu)⟩
    refine (answerCustomer_takes a).bind (fun answered => ?_) q hmay
    cases answered with
    | error err => exact Prog.stays_ret _
    | ok _ => exact connect_takes a call
  · exact connect_takes a call q hq.1

/-- The row read in phase `joined` decides whether this handler answers. -/
theorem answerRead_takes : (Code.read (.findById a.callId) >>= a.answerRecord).Takes (protocol c)
    (fun q => a.callId = c → q = .joined) (· ≠ .joined) := by
  intro q hq
  refine (Prog.follows_cmd_bind _ _ _ _).mpr ⟨trivial, fun r => ?_⟩
  have hne : next c q (.query (.findById a.callId)) r ≠ .joined := next_findById_ne q _ r
  cases r with
  | none => exact hne
  | some call =>
    show Prog.Follows _ _ _ (if call.status = .ringing then a.answerRinging call else pure (.ok ()))
    split
    · rename_i hs
      refine answerRinging_takes a call hs _ ⟨hne, fun hc hu => ?_⟩
      simp [protocol, hq hc, next, hc, hu]
    · exact hne

theorem applyAnswer_follows :
    a.applyAnswer.Follows (protocol c) .idle fun applied q =>
      match applied with
      | .ok _ => a.callId = c → q = .joined
      | .error _ => q ≠ .joined := by
  have hidle : Phase.idle ≠ .joined := nofun
  refine (Prog.follows_cmd_bind _ _ _ _).mpr ⟨trivial, fun accepted => ?_⟩
  cases accepted with
  | ok =>
    intro hc
    simp [next, hc]
  | noLeg => exact hidle
  | noAudio =>
    refine (Prog.follows_bind _ _ a.abortOnMediaFailure fun _ =>
      pure (Except.error AcceptError.noMicrophoneAudio)).mpr ?_
    exact (a.abortOnMediaFailure_stays ends _ hidle).mono fun _ _ hq => hq

theorem joinClaimed_takes : a.joinClaimed.Takes (protocol c) (· = .idle) (· ≠ .joined) := by
  rintro _ rfl
  unfold Accept.joinClaimed
  rw [Prog.follows_bind]
  refine (applyAnswer_follows a).mono fun applied q hq => ?_
  cases applied with
  | error err => exact hq
  | ok _ =>
    refine (answerRead_takes a).bind (fun answered => ?_) q hq
    cases answered with
    | error err => exact Prog.stays_ret _
    | ok _ =>
      exact (a.connected_stays (keeps rfl) (keeps rfl) (keeps rfl) (keeps rfl) (keeps rfl)).bind
        fun _ => Prog.stays_ret _

end accept

theorem handleAgentJoined_follows (a : Accept) :
    (handleAgentJoined a).Follows (protocol c) .idle fun _ _ => True := by
  have hidle : ∀ q : Phase, q = .idle → q ≠ .joined := by
    rintro _ rfl
    nofun
  have hconnect : ∀ s : Stmt, s.Connecting → (protocol c).Keeps (· = .idle) s :=
    fun s hs => keeps_idle (answers_of_connecting hs)
  have hclaim := a.claim_stays routes_idle
    (hconnect (.updateCall _ (.assignCallToAgentIfEligible _)) (.inl trivial))
    (hconnect (.updateCall _ (.claimHandover _)) (.inr trivial))
    (hconnect (.updateAgent _ (.holdForOwnCall _)) (.inr trivial))
  have hjoin := a.join_takes routes_idle hclaim (joinClaimed_takes (c := c) a) hidle hidle
  exact (a.handleAgentJoined_takes routes (keeps_idle rfl) hjoin hidle (keeps rfl)
    (fun _ => keeps rfl) _ rfl).mono fun _ _ _ => trivial

theorem handleReconnectAnswered_follows (a : Accept) :
    (handleReconnectAnswered a).Follows (protocol c) .idle fun _ _ => True := by
  refine (Prog.follows_cmd_bind _ _ _ _).mpr ⟨trivial, fun call => ?_⟩
  cases call with
  | none => trivial
  | some call =>
  show Prog.Follows _ _ _ (if _ then _ else _)
  split
  · trivial
  refine (Prog.follows_cmd_bind _ _ _ _).mpr ⟨trivial, fun offered => ?_⟩
  split
  · trivial
  refine (Prog.follows_cmd_bind _ _ _ _).mpr ⟨trivial, fun accepted => ?_⟩
  cases accepted with
  | ok => exact ⟨trivial, fun _ => trivial⟩
  | _ => trivial

/-- Every handler but an IVR's first answer follows the protocol. -/
theorem follows (h : Handler) (hv : .autoAnswering ∉ h.vocabulary) :
    h.code.Follows (protocol c) .idle fun _ _ => True := by
  have hstays (hv : ∀ v ∈ h.vocabulary, v ∉ [.autoAnswering, .accepting, .answeringReconnect]) :
      h.code.Follows (protocol c) .idle fun _ _ => True :=
    (h.code_stays routes (keeps_of_has (by decide : Vocabulary.ending ∉ _))
      (fun _ a => keeps_of_has (by decide : Vocabulary.routing ∉ _) (.incrementMissed a) trivial)
      (fun v hm => keeps_of_has (hv v hm)) .idle nofun).mono fun _ _ _ => trivial
  cases h with
  | agentJoined a => exact handleAgentJoined_follows a
  | reconnectAnswered a => exact handleReconnectAnswered_follows a
  | inboundCall line offer outcome =>
    refine hstays ?_
    simp only [Handler.vocabulary] at hv ⊢
    split at hv
    · exact absurd hv (by simp)
    · rename_i hi
      rw [if_neg hi]
      decide
  | statusChanged line p status t =>
    refine hstays ?_
    simp only [Handler.vocabulary]
    split <;> decide
  | _ => exact hstays (by simp [Handler.vocabulary])

/-! ## Runs -/

/-- The provider is told to accept once, and the customer's leg is not rebuilt
afterwards. -/
structure AnsweredOnce {ι : Type} [DecidableEq ι] (s : Service ι) (schedule : List ι) (c : Nat) : Prop where
  accepts : (s.run schedule).state.providerLog.count (c, .accept) ≤ 1
  noRebuild : ∀ m ∈ s.moves schedule, (c, .accept) ∈ m.1.state.providerLog →
    m.1.next m.2 ≠ some (.media c .answerCustomer)

section runs

variable {ι : Type}

abbrev phases (c : Nat) (s : Service ι) : ι → Phase := (protocol c).phases (fun _ => .idle) s

def ReadsRow (c : Nat) : Stmt → Bool
  | .query (.findById id) => id = c
  | _ => false

/-- A handler whose media is up reads the row, still unanswered, after another
has read it so. -/
def AnswersAgain (c : Nat) (s : Service ι) (i : ι) : Prop :=
  phases c s i = .joined ∧ (s.next i).any (ReadsRow c) = true ∧
    (s.state.findCall c).any Call.unanswered = true ∧ ∃ j, (phases c s j).spent = true

instance [Fintype ι] (c : Nat) (s : Service ι) (i : ι) : Decidable (AnswersAgain c s i) :=
  inferInstanceAs (Decidable (_ ∧ _))

/-- At most one handler answers, and the provider's log says how far it is. -/
structure Invariant (c : Nat) (w : World) (ph : ι → Phase) : Prop where
  unique : AtMostOne (fun q : Phase => q.spent = true) ph
  accepts : w.providerLog.count (c, .accept) ≤ 1
  done : (c, .accept) ∈ w.providerLog → ∃ i, ph i = .done

variable [DecidableEq ι]

theorem next_done (s : Stmt) (r : s.Res) : next c .done s r = .done := by
  unfold next
  split <;> simp_all

/-- A handler comes to answer the customer by its read of the row alone. -/
theorem spent_next {q : Phase} {s : Stmt} {r : s.Res} (h : (next c q s r).spent = true) :
    q.spent = true ∨ q = .joined ∧ ∃ call : Option Call,
      (⟨s, r⟩ : Sigma Stmt.Res) = ⟨.query (.findById c), call⟩ ∧ call.any Call.unanswered = true := by
  unfold next at h
  split at h
  · split at h <;> cases h
  · rename_i id call
    split at h
    · rename_i hc
      obtain ⟨rfl, hu⟩ := hc
      exact .inr ⟨rfl, call, rfl, hu⟩
    · cases h
  · cases h
  · exact .inl rfl
  · exact .inl h

theorem Invariant.step {cfg : Service ι} {i : ι} {s : Stmt} {k : s.Res → Prog Stmt.Res Unit}
    (hp : (cfg.threads i).prog = .call s k) (hok : ¬ AnswersAgain c cfg i)
    (hal : allows c (phases c cfg i) s) (h : Invariant c cfg.state (phases c cfg)) :
    Invariant c (s.exec cfg.state).1 (Function.update (phases c cfg) i
      (next c (phases c cfg i) s (s.exec cfg.state).2)) := by
  set q := phases c cfg i with hq
  set q' := next c q s (s.exec cfg.state).2
  -- a handler that comes to answer the customer is the first to
  have hfirst : q'.spent = true → q.spent = true ∨ ∀ j, (phases c cfg j).spent = false := by
    intro hs'
    rcases spent_next hs' with hs | ⟨hj, call, hread, hu⟩
    · exact .inl hs
    · obtain ⟨rfl, rfl⟩ := Stmt.answer_of_read hread
      refine .inr fun j => Bool.eq_false_iff.mpr fun hsj => hok ⟨hj, ?_, hu, j, hsj⟩
      simp [Service.next_eq_some.mpr ⟨k, hp⟩, ReadsRow]
  have hdone : (∃ j, phases c cfg j = .done) → ∃ j, Function.update (phases c cfg) i q' j = .done := by
    rintro ⟨j, hj⟩
    refine ⟨j, ?_⟩
    by_cases hji : j = i
    · subst hji
      rw [Function.update_self]
      show next c q s _ = .done
      rw [show q = .done from hj, next_done]
    · rw [Function.update_of_ne hji, hj]
  have hunique := h.unique.update (i := i) (a := q') fun hs => (hfirst hs).imp_right fun hn j => by simp [hn j]
  rcases Stmt.exec_providerLog s cfg.state with hlog | ⟨id, action, rfl, hlog⟩
  · exact ⟨hunique, hlog ▸ h.accepts, fun hm => hdone (h.done (hlog ▸ hm))⟩
  · by_cases ha : (id, action) = (c, .accept)
    · obtain ⟨rfl, rfl⟩ := Prod.mk.inj ha
      have hdue : q = .due := hal rfl
      have hnone : (id, .accept) ∉ cfg.state.providerLog := by
        intro hm
        obtain ⟨j, hj⟩ := h.done hm
        have := h.unique.eq (i := i) (j := j) (by rw [← hq, hdue]; rfl) (by rw [hj]; rfl)
        rw [hj, ← hq, hdue] at this
        cases this
      refine ⟨hunique, ?_, fun _ => ⟨i, ?_⟩⟩
      · rw [hlog, List.count_cons_self, List.count_eq_zero_of_not_mem hnone]
      · rw [Function.update_self]
        show next id q _ _ = .done
        simp [hdue, next]
    · refine ⟨hunique, ?_, fun hm => hdone (h.done ?_)⟩
      · rw [hlog, List.count_cons_of_ne ha]
        exact h.accepts
      · rw [hlog, List.mem_cons] at hm
        exact hm.resolve_left (Ne.symm ha)

theorem answeredOnce (w : World) (hs : ι → Handler)
    (hv : ∀ i, .autoAnswering ∉ (hs i).vocabulary) (schedule : List ι) (c : Nat)
    (hw : (c, .accept) ∉ w.providerLog)
    (hok : ∀ m ∈ (Service.spawn w hs).moves schedule, ¬ AnswersAgain c m.1 m.2) :
    AnsweredOnce (Service.spawn w hs) schedule c := by
  have hinv := Protocol.invariant Stmt.exec (Invariant c) (fun cfg i => ¬ AnswersAgain c cfg i)
    (fun cfg i s k hp hok hal h => h.step hp hok hal)
    (Protocol.conforms_spawn (s := w) fun i => follows (c := c) (hs i) (hv i))
    { unique := .of_none nofun, accepts := by simp [Config.spawn, List.count_eq_zero_of_not_mem hw],
      done := fun h => absurd h hw } hok
  refine ⟨hinv.1.2.accepts, ?_⟩
  rintro ⟨s, i⟩ hm hlog hn
  obtain ⟨hconf, h⟩ : (protocol c).Conforms _ _ s ∧ Invariant c s.state (phases c s) := hinv.2 _ hm
  obtain ⟨k, hp⟩ := Service.next_eq_some.mp hn
  have hdue : phases c s i = .due := hconf.allows hp rfl
  obtain ⟨j, hdone⟩ := h.done hlog
  have hij : i = j := h.unique i j (by rw [hdue]; rfl) (by rw [hdone]; rfl)
  rw [← hij, hdue] at hdone
  cases hdone

end runs

/-! ## A second device accepts before the first accept is written down -/

def ringingCall : CallRow :=
  { direction := .inbound, status := .ringing, agentId := some 1, ringingAt := some 0,
    offeredAt := some 0 }

/-- The call rings agent 1: the leg is offered, and the customer's offer stored. -/
def ringing : World :=
  { calls := .ofList [fun _ => ringingCall], agents := .ofList [fun _ => { busyCallId := some 1 }],
    customerOffer := fun c => c = 1, rooms := fun _ => { legSeq := 1, pendingAgent := some 1 } }

/-- Two devices of agent 1 accept; the second was offered a fresh leg. -/
def twoDevices : Fin 3 → Handler
  | 0 => .agentJoined { callId := 1, userId := 1, sdpAnswer := .answer 1 }
  | 1 => .ringingAgentReconnect 1
  | 2 => .agentJoined { callId := 1, userId := 1, sdpAnswer := .answer 2 }

/-- The second device accepts once the first has connected: it is not answered again. -/
theorem answeredOnce_twoDevices :
    AnsweredOnce (Service.spawn ringing twoDevices)
      (List.replicate 24 0 ++ List.replicate 5 1 ++ List.replicate 12 2) 1 :=
  answeredOnce ringing twoDevices (by decide) _ 1 (by decide) (by decide)

/-- It accepts before `answered_at` is written: the provider is told twice. -/
theorem not_answeredOnce :
    ¬ ∀ (w : World) (hs : Fin 3 → Handler) (schedule : List (Fin 3)) (c : Nat),
      (∀ i, .autoAnswering ∉ (hs i).vocabulary) → (c, .accept) ∉ w.providerLog →
        AnsweredOnce (Service.spawn w hs) schedule c := by
  intro h
  have haccepts := (h ringing twoDevices
    (List.replicate 12 0 ++ List.replicate 5 1 ++ List.replicate 12 2) 1 (by decide) (by decide)).accepts
  revert haccepts
  decide

end CustomerAnswer

end Callio
