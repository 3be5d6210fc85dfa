import Callio.Persistence.CallFinders

/-! `CallQueryService`: the lazy cleanup that reading the board does. -/

namespace Callio

/-- The reason `#views` enqueues a row of the board for ending with, if it
does. It compares in JavaScript: `call.state !== 'QUEUE'` is true of NULL. -/
def World.lazyCleanup (w : World) (c : CallRow) : Option TerminationReason :=
  if c.status = .ringing && c.state ≠ some .queue && c.agentId.isSome &&
      c.ringingAt.any (fun t => t + minute < w.now) then some .noAnswer
  else if c.status = .inProgress then c.terminationReason
  else none

end Callio
