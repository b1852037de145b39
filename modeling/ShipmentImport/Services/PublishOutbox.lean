import ShipmentImport.World

/-!
# The outbox publisher

`PublishOutboxService` (`app/outbox/services/publish_outbox.py`) and `OutboxRepository`.
-/

namespace ShipmentImport

def dispatchExhaustedReason : String :=
  "Import processing never started because dispatch was exhausted."

def staleClaimReason : String := "Outbox publisher claim expired."

/-- The name of an exception class. -/
def Fault.className : Fault → String
  | .operationalError => "OperationalError"
  | .integrityError => "IntegrityError"
  | .sqlalchemyError => "SQLAlchemyError"
  | .osError => "OSError"
  | .valueError => "ValueError"
  | .badZipFile => "BadZipFile"
  | .indexError => "IndexError"
  | .overflowError => "OverflowError"
  | .other => "Exception"

section
variable (env : Env)

/-- `_safe_error_message`, of what `send_task` raises. -/
def safeErrorMessage : Exc → String
  | .raised f =>
    let message := String.ofList
      ((strip (f.className ++ ": " ++ env.faultText f)).toList.take 1000)
    if message = "" then f.className else message
  | _ => "Exception"

/-- The assignments of `claim_due_events`, event by event. -/
def claimEvents (claimedAt : Time) : List DueEvent → Py (List ClaimedOutboxEvent)
  | [] => return []
  | event :: events => do
    let claimToken ← Py.query (.saveClaimedEvent event.outboxId claimedAt)
    let claimedEvents ← claimEvents claimedAt events
    return ⟨event.outboxId, event.importId, claimToken, event.attemptCount⟩ :: claimedEvents

/-- `_claim_due_events`. -/
def claimDueEvents : Py (List ClaimedOutboxEvent) :=
  withSession <| inTransaction do
    let claimedAt ← Py.stmt .clock
    let events ← Py.query (.lockDueEvents env.settings.outboxBatchSize.1 claimedAt)
    claimEvents claimedAt events

/-- `_record_publish_success`. -/
def recordPublishSuccess (claimedEvent : ClaimedOutboxEvent) : Py Unit := do
  let _markedPublished ← withSession <| inTransaction <|
    Py.query (.updateClaimedEvent claimedEvent.outboxId (some claimedEvent.claimToken) .published)
  return ()

/-- The transaction of `_record_publish_failure`. -/
def persistPublishFailure (claimedEvent : ClaimedOutboxEvent) (failedAt : Time)
    (errorMessage : String) (attemptCount : Nat) (exhausted : Bool) (availableAt : Option Time) :
    Py Unit := do
  let failureRecorded ← Py.query (.updateClaimedEvent claimedEvent.outboxId
    (some claimedEvent.claimToken) (.publishFailure attemptCount errorMessage
      (if exhausted then .failed else .pending) availableAt
      (if exhausted then some failedAt else none)))
  if failureRecorded && exhausted then
    let _ ← Py.query (.failPendingImport claimedEvent.importId dispatchExhaustedReason)
    return ()
  else return ()

/-- `available_at` in `_record_publish_failure`. The index into the retry delays can be out of
range, and so can the time that is computed. -/
def retryAt (settings : Settings) (failedAt : Time) (attemptCount : Nat) (exhausted : Bool) :
    Except Fault (Option Time) :=
  if exhausted then .ok none
  else match settings.outboxRetryDelaysSeconds.delays[attemptCount - 1]? with
    | some delay => (failedAt.plus delay).map some
    | none => .error .indexError

theorem retryAt_exhausted {settings : Settings} {failedAt : Time} {n : Nat} {at_ : Option Time}
    (h : retryAt settings failedAt n true = .ok at_) : at_ = none :=
  (Except.ok.inj h).symm

theorem retryAt_eq_ok {settings : Settings} {failedAt : Time} {n : Nat} {at_ : Option Time} :
    retryAt settings failedAt (n + 1) false = .ok at_ ↔ ∃ delay due,
      settings.outboxRetryDelaysSeconds.delays[n]? = some delay ∧ failedAt.plus delay = .ok due ∧
        at_ = some due := by
  simp only [retryAt, Bool.false_eq_true, if_false, Nat.add_sub_cancel]
  cases settings.outboxRetryDelaysSeconds.delays[n]? with
  | none => simp
  | some delay =>
    dsimp only
    constructor
    · intro h
      cases hd : failedAt.plus delay with
      | error f =>
        rw [hd] at h
        cases h
      | ok due =>
        rw [hd] at h
        cases h
        exact ⟨delay, due, rfl, hd, rfl⟩
    · rintro ⟨_, due, ⟨⟩, hd, rfl⟩
      rw [hd]
      rfl

/-- `_record_publish_failure`. -/
def recordPublishFailure (claimedEvent : ClaimedOutboxEvent) (exc : Exc) : Py Unit := do
  let failedAt ← Py.stmt .clock
  let attemptCount := claimedEvent.attemptCount + 1
  let exhausted := decide (attemptCount ≥ env.settings.outboxMaxAttempts.1)
  let availableAt ← Py.lift (retryAt env.settings failedAt attemptCount exhausted)
  withSession <| inTransaction <|
    persistPublishFailure claimedEvent failedAt (safeErrorMessage env exc) attemptCount exhausted
      availableAt

/-- One pass of the loop of `publish_due_events`. -/
def publishEvent (claimedEvent : ClaimedOutboxEvent) : Py Unit := do
  match ← (Py.stmt (.dispatchImport claimedEvent.importId)).attempt with
  | .error exc => recordPublishFailure env claimedEvent exc
  | .ok () => recordPublishSuccess claimedEvent

/-- `publish_due_events`. -/
def publishDueEvents : Py Nat := do
  let claimedEvents ← claimDueEvents env
  forEach claimedEvents (publishEvent env)
  return claimedEvents.length

/-- One pass of the loop of `_recover_stale_claims_in_transaction`; whether dispatch is
exhausted. -/
def recoverStaleClaim (staleClaim : StaleOutboxClaim) (recoveredAt : Time) : Py Bool :=
  if staleClaim.attemptCount ≥ env.settings.outboxMaxAttempts.1 then do
    let failed ← Py.query (.updateClaimedEvent staleClaim.outboxId staleClaim.claimToken
      (.staleFailed staleClaimReason))
    match failed with
    | true =>
      let _ ← Py.query (.failPendingImport staleClaim.importId dispatchExhaustedReason)
      return true
    | false => return false
  else do
    let _ ← Py.query (.updateClaimedEvent staleClaim.outboxId staleClaim.claimToken
      (.requeueStale recoveredAt staleClaimReason))
    return false

/-- `_recover_stale_claims_in_transaction`: the number of imports whose dispatch is exhausted. -/
def recoverStaleClaimsInTransaction (recoveredAt : Time) : List StaleOutboxClaim → Py Nat
  | [] => return 0
  | staleClaim :: staleClaims => do
    let exhausted ← recoverStaleClaim env staleClaim recoveredAt
    let rest ← recoverStaleClaimsInTransaction recoveredAt staleClaims
    return (if exhausted then 1 else 0) + rest

/-- `recover_stale_claims`. -/
def recoverStaleClaims : Py Nat := do
  let recoveredAt ← Py.stmt .clock
  let staleBefore ← Py.lift (recoveredAt.minus env.settings.outboxStaleTimeoutSeconds.1)
  withSession <| inTransaction do
    let staleClaims ← Py.query (.lockStaleClaims env.settings.outboxBatchSize.1 staleBefore)
    recoverStaleClaimsInTransaction env recoveredAt staleClaims

end

end ShipmentImport
