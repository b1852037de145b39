import ShipmentImport.World

/-!
# The worker

`ProcessImportService` (`app/imports/services/process_import.py`), the repositories it uses, and the
Celery task (`app/workers/tasks.py`). The generator of validated chunks is the list of the chunks it
has not yielded yet, with the duplicate tracker it carries; every step of it reads rows and asks the
database inside the transaction that consumes it.
-/

namespace ShipmentImport

/-! ## Repositories -/

/-- `claim_pending_import`. -/
def claimPendingImport (importId : ImportId) (processingToken : Token) (workerId : WorkerName) :
    Py (Option ClaimedImport) := do
  match ← Py.query (.lockPendingImport importId) with
  | none => return none
  | some _ => Py.query (.claimPendingImport importId processingToken workerId)

/-- `find_existing_shipment_codes`. -/
def findExistingShipmentCodes (codes : List String) : Py (List String) :=
  if codes = [] then return [] else Py.query (.findExistingShipmentCodes codes)

/-- `ShipmentRepository.bulk_insert`: one row after the other, then the foreign key check. -/
def bulkInsertShipments : List Shipment → Py Unit
  | [] => return ()
  | shipment :: rest => do
    forEach (shipment :: rest) fun s => Py.query (.insertShipment s)
    Py.query (.checkImportExists shipment.importId)

/-- `ImportErrorRepository.bulk_insert`. -/
def bulkInsertImportErrors : List ImportErrorRow → Py Unit
  | [] => return ()
  | importError :: rest => do
    forEach (importError :: rest) fun e => Py.query (.insertImportError e)
    Py.query (.checkImportExists importError.importId)

/-- A token-checked update of the claimed import. -/
def updateClaimed (claimedImport : ClaimedImport) (values : ProgressValues) : Py Bool :=
  Py.query (.updateCurrentProcessingImport claimedImport.importId claimedImport.processingToken
    values)

/-- The same, where losing the import stops the worker. -/
def updateClaimedOrStop (claimedImport : ClaimedImport) (values : ProgressValues) : Py Unit := do
  match ← updateClaimed claimedImport values with
  | true => return ()
  | false => throw .staleImportWorkerError

/-! ## Failure handling -/

/-- `_mark_failed`. -/
def markFailed (claimedImport : ClaimedImport) (reason : String) : Py Unit := do
  let _failed ← inTransaction (updateClaimed claimedImport (.fail reason))
  return ()

/-- `_handle_operational_failure`. -/
def handleOperationalFailure (claimedImport : ClaimedImport) : Py Unit :=
  if claimedImport.attemptCount ≥ claimedImport.maxAttempts then
    markFailed claimedImport "Import processing failed after the maximum number of attempts."
  else do
    let requeued ← inTransaction (updateClaimed claimedImport
      (.requeueForRetry "Import processing encountered a temporary database error."))
    match requeued with
    | false => return ()
    | true => throw (.retryableImportProcessingError "Import processing will be retried.")

/-- The handlers of `run`; `claimedImport` is `None` until the claim returned. -/
def handleError (claimedImport : Option ClaimedImport) : Exc → Py Unit
  | .staleImportWorkerError => return ()
  | .workbookStructureError message =>
    match claimedImport with
    | none => return ()
    | some c =>
      markFailed c (if message = "" then "Workbook structure could not be processed." else message)
  | .raised .operationalError =>
    match claimedImport with
    | none => throw (.retryableImportProcessingError "Database operation failed before claim.")
    | some c => handleOperationalFailure c
  | e =>
    match claimedImport with
    | none => throw e
    | some c => markFailed c "Import processing failed."

/-! ## Chunks -/

/-- `_require_current_ownership`. -/
def requireCurrentOwnership (claimedImport : ClaimedImport) : Py Unit := do
  match ← Py.query (.hasCurrentOwnership claimedImport.importId claimedImport.processingToken) with
  | true => return ()
  | false => throw .staleImportWorkerError

/-- `_prepare_for_reprocessing`. -/
def prepareForReprocessing (claimedImport : ClaimedImport) : Py Unit :=
  inTransaction do
    updateClaimedOrStop claimedImport .resetForReprocessing
    let _ ← Py.query (.deleteShipments claimedImport.importId)
    let _ ← Py.query (.deleteImportErrors claimedImport.importId)
    return ()

/-- `_persist_chunk`. -/
def persistChunk (claimedImport : ClaimedImport) (chunkResult : ValidationChunkResult) :
    Py Unit := do
  bulkInsertShipments chunkResult.shipments
  bulkInsertImportErrors chunkResult.importErrors
  updateClaimedOrStop claimedImport
    (.recordChunkCounts chunkResult.totalRows chunkResult.successCount chunkResult.failedCount)
  updateClaimedOrStop claimedImport .heartbeat

/-- `reclassify_database_duplicates`. -/
def reclassifyDatabaseDuplicates (importId : ImportId) (chunkResult : ValidationChunkResult) :
    Py ValidationChunkResult := do
  let existing ← findExistingShipmentCodes
    (chunkResult.validRows.map fun v => v.shipment.shipmentCode).dedup
  return reclassify importId chunkResult existing

/-- The loop of `_persist_chunk_after_duplicate_race`, cut off after `fuel` passes. -/
def persistChunkAfterDuplicateRace (claimedImport : ClaimedImport) (originalError : Exc) :
    Nat → ValidationChunkResult → Py ValidationChunkResult
  | 0, _ => do
    let never ← Py.stmt .spin
    nomatch never
  | fuel + 1, currentResult => do
    match ← transaction
      (do
        requireCurrentOwnership claimedImport
        reclassifyDatabaseDuplicates claimedImport.importId currentResult)
      (fun correctedResult =>
        -- `break`, which commits the transaction it leaves
        if correctedResult.successCount = currentResult.successCount then return none
        else do
          persistChunk claimedImport correctedResult
          return some correctedResult) with
    | .ok none => throw originalError
    | .ok (some correctedResult) => return correctedResult
    | .error (correctedResult, e) =>
      if e = .raised .integrityError then
        match correctedResult with
        | none => throw e
        | some corrected =>
          persistChunkAfterDuplicateRace claimedImport originalError fuel corrected
      else throw e

/-- The passes the loop can make: each keeps fewer valid rows than the one before. -/
def duplicateRaceFuel (chunkResult : ValidationChunkResult) : Nat :=
  chunkResult.validRows.length + 1

/-- `_process_next_chunk`, where `next` advances the generator of validated chunks. -/
def processNextChunk {α : Type} (claimedImport : ClaimedImport)
    (next : Py (Option (ValidationChunkResult × α))) :
    Py (Option (ValidationChunkResult × α)) := do
  match ← transaction
    (do
      requireCurrentOwnership claimedImport
      next)
    (fun
      | none => return none
      | some (chunkResult, state) => do
        persistChunk claimedImport chunkResult
        return some (chunkResult, state)) with
  | .ok result => return result
  | .error (assigned, e) =>
    if e = .raised .integrityError then
      match assigned.join with
      | none => throw e
      | some (chunkResult, state) => do
        let corrected ← persistChunkAfterDuplicateRace claimedImport e
          (duplicateRaceFuel chunkResult) chunkResult
        return some (corrected, state)
    else throw e

section
variable (env : Env)

/-- `except (BadZipFile, OSError, ValueError, IndexError)` of `iter_chunks`. -/
def structureErrors {α : Type} (x : Py α) : Py α :=
  x.tryCatch fun
    | .raised f =>
      if XlsxParser.isStructural f then
        throw (.workbookStructureError "Workbook structure could not be processed.")
      else throw (.raised f)
    | e => throw e

/-- The start of `iter_chunks`: open the workbook and parse its headers. -/
def openChunks (storedFilePath : String) : Py (List (List ParsedWorkbookRow)) := do
  let worksheet ← structureErrors (Py.stmt (.loadWorkbook storedFilePath))
  match XlsxParser.iterChunks env.settings.processingRowChunkSize.1 worksheet with
  | .error message => throw (.workbookStructureError message)
  | .ok chunks => return chunks

/-- `next(validated_chunks)` with `chunks` still to be read; `none` is `StopIteration`. -/
def nextValidatedChunk (importId : ImportId) (chunks : List (List ParsedWorkbookRow))
    (tracker : DuplicateTracker) : Py (Option (ValidationChunkResult × DuplicateTracker)) := do
  structureErrors (Py.stmt .readRows)
  match chunks with
  | [] => return none
  | chunk :: _ =>
    let prepared := chunk.map (prepareRow env.adapters)
    let existing ← findExistingShipmentCodes (tracker.unseenCodes (chunkCodes prepared))
    return some (classifyChunk importId prepared tracker existing)

/-- The first `next(validated_chunks)`, with the chunks that are left. -/
def firstValidatedChunk (claimedImport : ClaimedImport) :
    Py (Option (ValidationChunkResult × List (List ParsedWorkbookRow) × DuplicateTracker)) := do
  let chunks ← openChunks env claimedImport.storedFilePath
  let first ← nextValidatedChunk env claimedImport.importId chunks {}
  return first.map fun x => (x.1, chunks.tail, x.2)

/-! ## The run -/

/-- `total_rows`, `success_count` and `failed_count` of `run`. -/
structure Totals where
  totalRows : Nat := 0
  successCount : Nat := 0
  failedCount : Nat := 0

def Totals.add (t : Totals) (chunkResult : ValidationChunkResult) : Totals :=
  { totalRows := t.totalRows + chunkResult.totalRows
    successCount := t.successCount + chunkResult.successCount
    failedCount := t.failedCount + chunkResult.failedCount }

/-- The loop of `run` after its first pass. -/
def processChunks (claimedImport : ClaimedImport) :
    List (List ParsedWorkbookRow) → DuplicateTracker → Totals → Py Totals
  | [], tracker, totals => do
    let _ ← processNextChunk claimedImport (nextValidatedChunk env claimedImport.importId [] tracker)
    return totals
  | chunk :: chunks, tracker, totals => do
    match ← processNextChunk claimedImport
      (nextValidatedChunk env claimedImport.importId (chunk :: chunks) tracker) with
    | none => return totals
    | some (chunkResult, tracker) =>
      processChunks claimedImport chunks tracker (totals.add chunkResult)

/-- The loop of `run`. -/
def processAllChunks (claimedImport : ClaimedImport) : Py Totals := do
  match ← processNextChunk claimedImport (firstValidatedChunk env claimedImport) with
  | none => return {}
  | some (chunkResult, chunks, tracker) =>
    processChunks env claimedImport chunks tracker (({} : Totals).add chunkResult)

/-- What `run` does with the import it claimed. -/
def processClaimed (claimedImport : ClaimedImport) : Py Unit := do
  prepareForReprocessing claimedImport
  let totals ← processAllChunks env claimedImport
  inTransaction (updateClaimedOrStop claimedImport
    (.complete totals.totalRows totals.successCount totals.failedCount))

/-- `ProcessImportService.run`. -/
def run (importId : ImportId) (processingToken : Token) (workerId : WorkerName) : Py Unit :=
  withSession do
    match ← transaction (claimPendingImport importId processingToken workerId) pure with
    | .error (claimedImport, e) => handleError claimedImport.join e
    | .ok none => return ()
    | .ok (some claimedImport) =>
      (processClaimed env claimedImport).tryCatch (handleError (some claimedImport))

/-- `self.request.hostname or "celery-worker"`. -/
def workerName (hostname : Option WorkerName) : WorkerName :=
  (hostname.filter (·.1 ≠ "")).getD ⟨"celery-worker", by decide⟩

/-- `process_import_task`. -/
def processImportTask (message : Message) (hostname : Option WorkerName) (processingToken : Token) :
    Py Unit :=
  (run env message.importId processingToken (workerName hostname)).tryCatch fun
    | .retryableImportProcessingError text => do
      let never ← Py.stmt (.selfRetry (.retryableImportProcessingError text)
        (env.settings.importMaxAttempts.1 - 1))
      nomatch never
    | e => throw e

end

end ShipmentImport
