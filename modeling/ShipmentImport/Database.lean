import ShipmentImport.Lib.Table
import ShipmentImport.Models
import Mathlib.Data.List.Sort

/-!
# The database

The four tables, and the statements of the repositories (`app/imports/repositories/`,
`app/outbox/repositories/`) and of the watchdog as queries of a session. `Database.exec` runs one
query; it is not defined while the query waits for another session.
-/

namespace ShipmentImport

structure Database where
  importJobs : Table ImportJob
  importDispatchOutbox : Table ImportDispatchOutbox
  shipments : Table Shipment
  importErrors : Table ImportErrorRow
  /-- The holders of `pg_advisory_xact_lock`s. -/
  advisory : Int → Option Nat
  /-- The time at which the open transaction of a session began. -/
  began : Nat → Option Time
  /-- The first `uuid4()` that was not drawn yet. -/
  issued : Nat

def Database.empty : Database :=
  ⟨.empty, .empty, .empty, .empty, fun _ => none, fun _ => none, 0⟩

/-! ## What the writes set -/

/-- The `values` of the token-checked updates of `ImportProgressRepository`. -/
inductive ProgressValues
  | resetForReprocessing
  | recordChunkCounts (totalRows successCount failedCount : Nat)
  | heartbeat
  | complete (totalRows successCount failedCount : Nat)
  | fail (reason : String)
  | requeueForRetry (reason : String)

def ProgressValues.apply (now : Time) (j : ImportJob) : ProgressValues → ImportJob
  | resetForReprocessing =>
    { j with totalRows := 0, processedRows := 0, successCount := 0, failedCount := 0
             finishedAt := none }
  | recordChunkCounts totalRows successCount failedCount =>
    { j with totalRows := j.totalRows + totalRows
             processedRows := j.processedRows + totalRows
             successCount := j.successCount + successCount
             failedCount := j.failedCount + failedCount }
  | heartbeat => { j with lastHeartbeatAt := some now }
  | complete totalRows successCount failedCount =>
    { j with status := .completed
             totalRows := totalRows
             processedRows := totalRows
             successCount := successCount
             failedCount := failedCount
             finishedAt := some now
             lastHeartbeatAt := some now
             processingToken := none
             lockedByWorker := none }
  | fail reason =>
    { j with status := .failed
             failureReason := some reason
             lastFailureReason := some reason
             finishedAt := some now
             processingToken := none
             lockedByWorker := none }
  | requeueForRetry reason =>
    { j with status := .pending
             failureReason := none
             lastFailureReason := some reason
             processingToken := none
             lockedByWorker := none }

/-- The update of `claim_pending_import`. -/
def ImportJob.claim (now : Time) (processingToken : Token) (workerId : WorkerName)
    (j : ImportJob) : ImportJob :=
  { j with status := .processing
           processingToken := some processingToken
           lockedByWorker := some workerId
           attemptCount := j.attemptCount + 1
           startedAt := some now
           lastHeartbeatAt := some now }

/-- The update of `fail_pending_import_after_dispatch_exhausted`. -/
def ImportJob.failDispatch (now : Time) (reason : String) (j : ImportJob) : ImportJob :=
  { j with status := .failed
           failureReason := some reason
           lastFailureReason := some reason
           finishedAt := some now
           processingToken := none
           lockedByWorker := none }

/-- What `RecoverStaleImportsService` assigns to a job. -/
inductive RecoveryValues
  | markFailed (lastFailureReason failureReason : String) (now : Time)
  | requeue (lastFailureReason : String) (now : Time)

def RecoveryValues.apply (j : ImportJob) : RecoveryValues → ImportJob
  | markFailed lastFailureReason failureReason now =>
    { j with status := .failed
             processingToken := none
             lockedByWorker := none
             lastFailureReason := some lastFailureReason
             failureReason := some failureReason
             finishedAt := some now }
  | requeue lastFailureReason now =>
    { j with status := .pending
             processingToken := none
             lockedByWorker := none
             failureReason := none
             lastFailureReason := some lastFailureReason
             lastRequeuedAt := some now
             finishedAt := none
             lastHeartbeatAt := none }

/-- The `values` of the token-checked updates of `OutboxRepository`. -/
inductive OutboxValues
  | published
  | publishFailure (attemptCount : Nat) (errorMessage : String) (status : OutboxStatus)
      (availableAt claimedAt : Option Time)
  | requeueStale (recoveredAt : Time) (errorMessage : String)
  | staleFailed (errorMessage : String)

def OutboxValues.apply (now : Time) (o : ImportDispatchOutbox) :
    OutboxValues → ImportDispatchOutbox
  | published =>
    { o with status := .published, publishedAt := some now, claimToken := none, lastError := none }
  | publishFailure attemptCount errorMessage status availableAt claimedAt =>
    { o with status := status
             attemptCount := attemptCount
             lastError := some errorMessage
             claimedAt := claimedAt
             claimToken := none
             availableAt := availableAt.getD o.availableAt }
  | requeueStale recoveredAt errorMessage =>
    { o with status := .pending
             availableAt := recoveredAt
             claimedAt := none
             claimToken := none
             lastError := some errorMessage }
  | staleFailed errorMessage =>
    { o with status := .failed, claimToken := none, lastError := some errorMessage }

/-- The assignments of `claim_due_events`. -/
def ImportDispatchOutbox.claim (token : Token) (claimedAt : Time) (o : ImportDispatchOutbox) :
    ImportDispatchOutbox :=
  { o with status := .processing, claimToken := some token, claimedAt := some claimedAt }

/-- A new outbox row; the columns that are not given have their defaults. -/
def ImportDispatchOutbox.new (importId : ImportId) (availableAt : Option Time) (now : Time) :
    ImportDispatchOutbox :=
  { importId
    status := .pending
    attemptCount := 0
    availableAt := availableAt.getD now
    claimedAt := none
    claimToken := none
    publishedAt := none
    lastError := none
    createdAt := now }

/-! ## What the reads return -/

structure ClaimedImport where
  importId : ImportId
  storedFilePath : String
  processingToken : Token
  attemptCount : Nat
  maxAttempts : Nat

structure ImportSnapshot where
  importId : ImportId
  status : ImportStatus
  createdAt : Time
  idempotencyFingerprint : String
  deriving DecidableEq

structure ClaimedOutboxEvent where
  outboxId : Nat
  importId : ImportId
  claimToken : Token
  attemptCount : Nat

/-- A due event as `claim_due_events` loads it. -/
structure DueEvent where
  outboxId : Nat
  importId : ImportId
  attemptCount : Nat

structure StaleOutboxClaim where
  outboxId : Nat
  importId : ImportId
  claimToken : Option Token
  attemptCount : Nat

/-- A stale import as the watchdog loads it. -/
structure StaleImport where
  id : ImportId
  attemptCount : Nat
  maxAttempts : Nat

structure ImportCreatedResult where
  importId : ImportId
  status : ImportStatus
  createdAt : Time
  deriving DecidableEq

def snapshot (r : Version ImportJob) : ImportSnapshot :=
  ⟨r.id, r.val.status, r.val.createdAt, r.val.idempotencyFingerprint⟩

def createdResult (r : Version ImportJob) : ImportCreatedResult :=
  ⟨r.id, r.val.status, r.val.createdAt⟩

/-! ## Queries -/

inductive Query
  | lockPendingImport (importId : ImportId)
  | claimPendingImport (importId : ImportId) (processingToken : Token) (workerId : WorkerName)
  | hasCurrentOwnership (importId : ImportId) (processingToken : Token)
  | updateCurrentProcessingImport (importId : ImportId) (processingToken : Token)
      (values : ProgressValues)
  | deleteShipments (importId : ImportId)
  | deleteImportErrors (importId : ImportId)
  | findExistingShipmentCodes (codes : List String)
  | insertShipment (shipment : Shipment)
  | insertImportError (importError : ImportErrorRow)
  | checkImportExists (importId : ImportId)
  | lockStaleImports (staleBefore : Time) (batchSize : Nat)
  | saveImportJob (importId : ImportId) (values : RecoveryValues)
  | insertDispatchIntent (importId : ImportId) (availableAt : Option Time)
  | acquireFingerprintLock (idempotencyFingerprint : String)
  | getSnapshotByIdempotencyKey (idempotencyKey : String)
  | getSnapshotByFingerprint (idempotencyFingerprint : String)
  | insertImportJob (importJob : ImportJob)
  | refreshImportJob (importId : ImportId)
  | lockDueEvents (batchSize : Nat) (claimedAt : Time)
  | saveClaimedEvent (outboxId : Nat) (claimedAt : Time)
  | lockStaleClaims (batchSize : Nat) (staleBefore : Time)
  | updateClaimedEvent (outboxId : Nat) (claimToken : Option Token) (values : OutboxValues)
  | failPendingImport (importId : ImportId) (reason : String)

abbrev Query.Reply : Query → Type
  | lockPendingImport _ => Option ImportId
  | claimPendingImport .. => Option ClaimedImport
  | hasCurrentOwnership .. => Bool
  | updateCurrentProcessingImport .. => Bool
  | deleteShipments _ => Nat
  | deleteImportErrors _ => Nat
  | findExistingShipmentCodes _ => List String
  | insertShipment _ => Unit
  | insertImportError _ => Unit
  | checkImportExists _ => Unit
  | lockStaleImports .. => List StaleImport
  | saveImportJob .. => Unit
  | insertDispatchIntent .. => Unit
  | acquireFingerprintLock _ => Unit
  | getSnapshotByIdempotencyKey _ => Option ImportSnapshot
  | getSnapshotByFingerprint _ => Option ImportSnapshot
  | insertImportJob _ => ImportId
  | refreshImportJob _ => Option ImportCreatedResult
  | lockDueEvents .. => List DueEvent
  | saveClaimedEvent .. => Token
  | lockStaleClaims .. => List StaleOutboxClaim
  | updateClaimedEvent .. => Bool
  | failPendingImport .. => Bool

/-- `WHERE id = … AND status = 'PENDING' AND attempt_count < max_attempts`. -/
def claimable (importId : ImportId) (r : Version ImportJob) : Bool :=
  r.id == importId && r.val.status == .pending && decide (r.val.attemptCount < r.val.maxAttempts)

/-- `WHERE id = … AND status = 'PROCESSING' AND processing_token = …`. -/
def owned (importId : ImportId) (token : Token) (r : Version ImportJob) : Bool :=
  r.id == importId && r.val.status == .processing && r.val.processingToken == some token

/-- `WHERE id = … AND status = 'PROCESSING' AND claim_token = …`, a missing token being `NULL`. -/
def claimed (outboxId : Nat) (token : Option Token) (r : Version ImportDispatchOutbox) : Bool :=
  r.id == outboxId && r.val.status == .processing && r.val.claimToken == token

/-- `column < bound`, which `NULL` does not satisfy. -/
def isBefore (bound : Time) (column : Option Time) : Bool := column.any (· < bound)

/-- The time in a column has expired at `now`. -/
def Expired (timeout : Nat) (now : Time) (column : Option Time) : Prop :=
  ∃ time ∈ column, time.1 + timeout * second < now.1

theorem isBefore_iff_expired {timeout : Nat} {now bound : Time} {column : Option Time}
    (h : now.minus timeout = .ok bound) :
    isBefore bound column = true ↔ Expired timeout now column := by
  rw [Time.minus_eq_ok] at h
  cases column with
  | none => simp [isBefore, Expired]
  | some time =>
    simp only [isBefore, Expired, Option.any_some, decide_eq_true_eq, Option.mem_some_iff,
      exists_eq_left']
    show time.1 < bound.1 ↔ _
    omega

/-- What the queries read besides the database: the hash of the advisory locks and the order of
the uuids. -/
structure Server where
  hashtext : String → Int
  uuid : Nat → Nat

/-- `ORDER BY` a time, then the id, `LIMIT n`. -/
def Server.oldest {α : Type} (server : Server) (time : α → Time) (n : Nat)
    (rows : List (Version α)) : List (Version α) :=
  (rows.insertionSort fun a b => time a.val < time b.val ∨
    (time a.val = time b.val ∧ server.uuid a.id ≤ server.uuid b.id)).take n

theorem Server.oldest_subperm {α : Type} (server : Server) (time : α → Time) (n : Nat)
    (rows : List (Version α)) : (server.oldest time n rows).Subperm rows :=
  (List.take_sublist n _).subperm.trans (List.perm_insertionSort _ rows).subperm

theorem Server.mem_oldest {α : Type} {server : Server} {time : α → Time} {n : Nat}
    {rows : List (Version α)} {r : Version α} (h : r ∈ server.oldest time n rows) : r ∈ rows :=
  (server.oldest_subperm time n rows).subset h

namespace Database

/-- `now()`: the time at which the transaction of `s` began. -/
def now (d : Database) (s : Nat) (clock : Time) : Time := (d.began s).getD clock

/-- Updates of import jobs are checked against `ck_import_jobs_failure_reason_terminal`. -/
def updateJobs (d : Database) (s : Nat) (p : Version ImportJob → Bool) (f : ImportJob → ImportJob) :
    Option (Except Fault (List (Version ImportJob)) × Database) :=
  (d.importJobs.updateWhere s p f).map fun x =>
    if x.1.all fun r => r.val.ckFailureReasonTerminal then
      (.ok x.1, { d with importJobs := x.2 })
    else (.error .integrityError, d)

def updateOutbox (d : Database) (s : Nat) (p : Version ImportDispatchOutbox → Bool)
    (f : ImportDispatchOutbox → ImportDispatchOutbox) :
    Option (Except Fault (List (Version ImportDispatchOutbox)) × Database) :=
  (d.importDispatchOutbox.updateWhere s p f).map fun x =>
    (.ok x.1, { d with importDispatchOutbox := x.2 })

/-- The foreign key check: a share lock on the referenced import job. -/
def referenceJob (d : Database) (s : Nat) (importId : ImportId) :
    Option (Except Fault Unit × Database) :=
  if (d.importJobs.view s).any (·.id == importId) then
    (d.importJobs.keyShare s importId).map fun t => (.ok (), { d with importJobs := t })
  else some (.error .integrityError, d)

/-- The reply of a query, with what it adds to the transaction. -/
def mapReply {α β : Type} (f : α → β) (x : Except Fault α × Database) :
    Except Fault β × Database :=
  (x.1.map f, x.2)

/-- A query with `LIMIT n`, which has to be a `bigint`. -/
def limited {α : Type} (d : Database) (n : Nat) (x : Except Fault α × Database) :
    Option (Except Fault α × Database) :=
  some (if n < 2 ^ 63 then x else (.error .sqlalchemyError, d))

theorem limited_eq {α : Type} {d : Database} {n : Nat} {x : Except Fault α × Database}
    (h : n < 2 ^ 63) : d.limited n x = some x :=
  congrArg some (if_pos h)

theorem limited_cases {α : Type} {d d' : Database} {n : Nat} {x : Except Fault α × Database}
    {r : Except Fault α} (h : d.limited n x = some (r, d')) :
    r = x.1 ∧ d' = x.2 ∨ r = .error .sqlalchemyError ∧ d' = d := by
  have h := Option.some.inj h
  split at h
  · exact .inl ⟨(congrArg Prod.fst h).symm, (congrArg Prod.snd h).symm⟩
  · exact .inr (Prod.mk.inj h.symm)

/-- Run a query of session `s`. -/
def exec (server : Server) (clock : Time) (s : Nat) (d : Database) :
    (q : Query) → Option (Except Fault q.Reply × Database)
  | .lockPendingImport importId =>
    let (hit, t) := d.importJobs.lockWhere s (claimable importId) id
    some (.ok (hit.head?.map (·.id)), { d with importJobs := t })
  | .claimPendingImport importId token workerId =>
    (d.updateJobs s (claimable importId) (.claim (d.now s clock) token workerId)).map <|
      mapReply fun rows => rows.head?.map fun r =>
        ⟨r.id, r.val.storedFilePath, token, r.val.attemptCount, r.val.maxAttempts⟩
  | .hasCurrentOwnership importId token =>
    some (.ok ((d.importJobs.view s).any (owned importId token)), d)
  | .updateCurrentProcessingImport importId token values =>
    (d.updateJobs s (owned importId token) fun j => values.apply (d.now s clock) j).map <|
      mapReply fun rows => rows.length == 1
  | .deleteShipments importId =>
    (d.shipments.deleteWhere s fun r => r.val.importId == importId).map fun x =>
      (.ok x.1, { d with shipments := x.2 })
  | .deleteImportErrors importId =>
    (d.importErrors.deleteWhere s fun r => r.val.importId == importId).map fun x =>
      (.ok x.1, { d with importErrors := x.2 })
  | .findExistingShipmentCodes codes =>
    some (.ok (codes.filter fun c => (d.shipments.view s).any (·.val.shipmentCode == c)), d)
  | .insertShipment shipment =>
    match shipment.store with
    | .error f => some (.error f, d)
    | .ok stored =>
      (d.shipments.insertUnique s d.issued (fun x => some x.shipmentCode) stored).map fun
        | .error () => (.error .integrityError, d)
        | .ok t => (.ok (), { d with shipments := t, issued := d.issued + 1 })
  | .insertImportError importError =>
    if importError.rawData.jsonbSafe.isJsonb then
      let t := d.importErrors.insert s d.issued
        { importError with rawData := importError.rawData.jsonbSafe }
      some (.ok (), { d with importErrors := t, issued := d.issued + 1 })
    else some (.error .sqlalchemyError, d)
  | .checkImportExists importId => d.referenceJob s importId
  | .lockStaleImports staleBefore batchSize =>
    let (hit, t) := d.importJobs.lockWhere s
      (fun r => r.val.status == .processing && isBefore staleBefore r.val.lastHeartbeatAt)
      (server.oldest (fun j => j.lastHeartbeatAt.getD .min) batchSize)
    d.limited batchSize
      (.ok (hit.map fun r => ⟨r.id, r.val.attemptCount, r.val.maxAttempts⟩),
        { d with importJobs := t })
  | .saveImportJob importId values =>
    (d.updateJobs s (·.id == importId) fun j => values.apply j).map <| mapReply fun _ => ()
  | .insertDispatchIntent importId availableAt =>
    let t := d.importDispatchOutbox.insert s d.issued
      (.new importId availableAt (d.now s clock))
    { d with importDispatchOutbox := t, issued := d.issued + 1 }.referenceJob s importId
  | .acquireFingerprintLock fingerprint =>
    let key := server.hashtext fingerprint
    if (d.advisory key).all (· == s) then
      some (.ok (), { d with advisory := Function.update d.advisory key (some s) })
    else none
  | .getSnapshotByIdempotencyKey key =>
    some (.ok (((d.importJobs.view s).find? (·.val.idempotencyKey == some key)).map snapshot), d)
  | .getSnapshotByFingerprint fingerprint =>
    let hit := (d.importJobs.view s).filter (·.val.idempotencyFingerprint == fingerprint)
    some (.ok ((server.oldest (·.createdAt) hit.length hit).getLast?.map snapshot), d)
  | .insertImportJob importJob =>
    match importJob.store with
    | .error f => some (.error f, d)
    | .ok stored =>
      (d.importJobs.insertUnique s d.issued (·.idempotencyKey)
        { stored with createdAt := d.now s clock }).map fun
        | .error () => (.error .integrityError, d)
        | .ok t => (.ok d.issued, { d with importJobs := t, issued := d.issued + 1 })
  | .refreshImportJob importId =>
    some (.ok (((d.importJobs.view s).find? (·.id == importId)).map createdResult), d)
  | .lockDueEvents batchSize claimedAt =>
    let (hit, t) := d.importDispatchOutbox.lockWhere s
      (fun r => r.val.status == .pending && decide (r.val.availableAt ≤ claimedAt))
      (server.oldest (·.availableAt) batchSize)
    d.limited batchSize (.ok (hit.map fun r => ⟨r.id, r.val.importId, r.val.attemptCount⟩),
      { d with importDispatchOutbox := t })
  | .saveClaimedEvent outboxId claimedAt =>
    ({ d with issued := d.issued + 1 }.updateOutbox s (·.id == outboxId)
      (.claim d.issued claimedAt)).map <| mapReply fun _ => d.issued
  | .lockStaleClaims batchSize staleBefore =>
    let (hit, t) := d.importDispatchOutbox.lockWhere s
      (fun r => r.val.status == .processing && isBefore staleBefore r.val.claimedAt)
      (server.oldest (fun o => o.claimedAt.getD .min) batchSize)
    d.limited batchSize
      (.ok (hit.map fun r => ⟨r.id, r.val.importId, r.val.claimToken, r.val.attemptCount⟩),
        { d with importDispatchOutbox := t })
  | .updateClaimedEvent outboxId token values =>
    (d.updateOutbox s (claimed outboxId token) fun o => values.apply (d.now s clock) o).map <|
      mapReply fun rows => rows.length == 1
  | .failPendingImport importId reason =>
    (d.updateJobs s (fun r => r.id == importId && r.val.status == .pending)
      (.failDispatch (d.now s clock) reason)).map <| mapReply fun rows => rows.length == 1

/-- The first statement of a transaction begins it. -/
def begin (d : Database) (s : Nat) (clock : Time) : Database :=
  { d with began := Function.update d.began s (some (d.now s clock)) }

def commit (d : Database) (s : Nat) : Database :=
  { d with
    importJobs := d.importJobs.commit s
    importDispatchOutbox := d.importDispatchOutbox.commit s
    shipments := d.shipments.commit s
    importErrors := d.importErrors.commit s
    advisory := fun k => (d.advisory k).filter (· != s)
    began := Function.update d.began s none }

def rollback (d : Database) (s : Nat) : Database :=
  { d with
    importJobs := d.importJobs.rollback s
    importDispatchOutbox := d.importDispatchOutbox.rollback s
    shipments := d.shipments.rollback s
    importErrors := d.importErrors.rollback s
    advisory := fun k => (d.advisory k).filter (· != s)
    began := Function.update d.began s none }

end Database

end ShipmentImport
