import Callio.Core.AgentEvents
import Callio.Core.Initiation
import Callio.Core.Ivr
import Callio.Core.Timers
import Callio.Concurrency.Protocol

/-! Every handler that may run beside others, and the runs of any number of
them: each statement is one move, and between two of a handler's statements
any others may happen. -/

namespace Callio

open Concurrency

inductive Handler
  | inboundCall (line : Line) (offer : InboundOffer) (outcome : InboundOutcome)
  | statusChanged (line : Line) (providerCallId : Nat) (status : ProviderStatus) (at_ : Option Nat)
  | callEnded (line : Line) (e : ProviderEnd)
  | lineRingExpired (callId : Nat)
  | ivrFinished (callId : Nat) (action : IvrEnd)
  | ivrTransfer (t : IvrTransfer)
  | agentJoined (a : Accept)
  | ringingAgentReconnect (callId : Nat)
  | agentReconnected (callId userId tenantId : Nat) (withOffer : Bool)
  | reconnectAnswered (a : Accept)
  | callRejected (callId userId : Nat)
  | callTransferred (callId tenantId : Nat) (request : TransferRequest) (assignorId : Option Nat := none)
  | callTerminated (callId : Nat) (reason : HangUp) (byConsumer : Bool)
  | reconnectExpired (callId : Nat)
  | createOutboundIntent (i : OutboundIntent)
  | callStart (callId userId tenantId : Nat)
  | customerConnection (callId : Nat) (providerCallId : Option Nat)
  | queueTimeoutTick (transferTimeoutSeconds : Nat)
  | expireOutboundIntents
  | periodicCleanup
  | ivrRingCleanup
  | batchCleanup (items : List (Nat × TerminationReason))
  | releaseStaleCalls (agentId : Nat)
  | drain (tenantId : Nat)
  | clock (ms : Nat)

def Handler.code : Handler → Code Unit
  | inboundCall line offer outcome => Callio.inboundCall line offer outcome
  | statusChanged line p status t => Callio.statusChanged line p status t
  | callEnded line e => Callio.callEnded line e
  | lineRingExpired c => Callio.lineRingExpired c
  | ivrFinished c action => Callio.ivrFinished c action
  | ivrTransfer t => t.handle
  | agentJoined a => handleAgentJoined a
  | ringingAgentReconnect c => handleRingingAgentReconnect c
  | agentReconnected c u t withOffer => handleAgentReconnected c u t withOffer
  | reconnectAnswered a => handleReconnectAnswered a
  | callRejected c u => handleCallRejected c u
  | callTransferred c t request assignorId => handleCallTransferred c t request assignorId
  | callTerminated c reason byConsumer => handleCallTerminated c reason byConsumer
  | reconnectExpired c => Callio.reconnectExpired c
  | createOutboundIntent i => Callio.createOutboundIntent i
  | callStart c u t => handleCallStart c u t
  | customerConnection c p => triggerCustomerConnection c p
  | queueTimeoutTick t => Callio.queueTimeoutTick t
  | expireOutboundIntents => Callio.expireOutboundIntents
  | periodicCleanup => runPeriodicCleanup
  | ivrRingCleanup => runIvrRingCleanup
  | batchCleanup items => batchCleanupCalls items
  | releaseStaleCalls a => releaseStaleCallsForUser a
  | drain t => assignOldestUnassignedCall t
  | clock ms => .cmd (Stmt.wait ms)

/-! ## Runs -/

variable {ι : Type}

/-- Handlers at work on a shared world. -/
abbrev Service (ι : Type) := Config Stmt.Res World ι

def Service.spawn (w : World) (hs : ι → Handler) : Service ι :=
  Config.spawn w fun i => (hs i).code

/-- The statement a handler issues next. -/
def Service.next (s : Service ι) (i : ι) : Option Stmt :=
  match (s.threads i).prog with
  | .ret _ => none
  | .call c _ => some c

theorem Service.next_eq (s : Service ι) (i : ι) : s.next i = Config.next s i := by
  unfold Service.next Config.next
  cases (s.threads i).prog <;> rfl

theorem Service.next_eq_some {s : Service ι} {i : ι} {c : Stmt} :
    s.next i = some c ↔ ∃ k, (s.threads i).prog = .call c k := by
  rw [Service.next_eq]
  exact Config.next_eq_some

variable [DecidableEq ι]

def Service.run (s : Service ι) (schedule : List ι) : Service ι :=
  Concurrency.run Stmt.exec s schedule

/-- The moves of a run: the service before the move, and who moves. -/
def Service.moves (s : Service ι) (schedule : List ι) : List (Service ι × ι) :=
  Concurrency.moves Stmt.exec s schedule

/-- The service after the schedule's first `k` moves. -/
def Service.after (s : Service ι) (schedule : List ι) (k : Nat) : Service ι :=
  s.run (schedule.take k)

/-- What move `k` by `i` does, as threads that follow a protocol see it. -/
theorem Service.after_succ {P : Protocol Stmt.Res} {final : P.Phase → Prop} {init : ι → P.Phase}
    {s : Service ι} {schedule : List ι} {k : Nat} {i : ι} (hi : schedule[k]? = some i)
    (hc : P.Conforms final init (s.after schedule k)) :
    P.Conforms final init (s.after schedule (k + 1)) ∧
      ((s.after schedule k).next i = none ∧ s.after schedule (k + 1) = s.after schedule k ∨
        ∃ stmt, (s.after schedule k).next i = some stmt ∧
          P.allows (P.phases init (s.after schedule k) i) stmt ∧
          (s.after schedule (k + 1)).state = (stmt.exec (s.after schedule k).state).1 ∧
          P.phases init (s.after schedule (k + 1)) = Function.update (P.phases init (s.after schedule k)) i
            (P.next (P.phases init (s.after schedule k) i) stmt (stmt.exec (s.after schedule k).state).2)) := by
  have hafter : s.after schedule (k + 1) = Concurrency.step Stmt.exec (s.after schedule k) i :=
    run_take_succ Stmt.exec hi
  rw [hafter, Service.next_eq]
  exact ⟨hc.step Stmt.exec i, hc.move i⟩

end Callio
