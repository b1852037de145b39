import ShipmentImport.World

/-!
# The watchdog

`RecoverStaleImportsService` (`app/imports/services/recover_stale_imports.py`). What it assigns to
the loaded jobs, and the dispatch intents it adds, reach the database when the transaction flushes.
-/

namespace ShipmentImport

def staleHeartbeatReason : String := "Worker heartbeat expired."

def maxAttemptsReason : String := "Import processing failed after the maximum number of attempts."

/-- `_mark_failed` or `_requeue_with_dispatch_intent`: what becomes of a stale import. -/
def recoveryValues (now : Time) (importJob : StaleImport) : RecoveryValues :=
  if importJob.attemptCount ≥ importJob.maxAttempts then
    .markFailed staleHeartbeatReason maxAttemptsReason now
  else .requeue staleHeartbeatReason now

/-- `recover_stale_imports`. -/
def recoverStaleImports (settings : Settings) (batchSize : Nat) : Py Nat := do
  let now ← Py.stmt .clock
  let staleBefore ← Py.lift (now.minus settings.processingStaleTimeoutSeconds.1)
  let staleImports ← withSession <| inTransaction do
    let staleImports ← Py.query (.lockStaleImports staleBefore batchSize)
    forEach staleImports fun importJob =>
      Py.query (.saveImportJob importJob.id (recoveryValues now importJob))
    forEach (staleImports.filter fun importJob => importJob.attemptCount < importJob.maxAttempts)
      fun importJob => Py.query (.insertDispatchIntent importJob.id (some now))
    return staleImports
  return staleImports.length

/-- The `batch_size` of a caller (`app/workers/startup_recovery.py`,
`app/workers/beat_schedule.py`). -/
def RecoveryCaller.batchSize (settings : Settings) : RecoveryCaller → Nat
  | .startup => settings.startupRecoveryBatchSize.1
  | .schedule => settings.watchdogBatchSize.1

end ShipmentImport
