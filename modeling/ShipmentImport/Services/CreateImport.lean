import ShipmentImport.World

/-!
# Creating imports

`CreateImportService.create_import` (`app/imports/services/create_import.py`). Its session has no
explicit transactions: the first statement begins one, and leaving the session rolls back what was
not committed.
-/

namespace ShipmentImport

structure ImportCreateOutcome where
  result : ImportCreatedResult
  created : Bool
  deriving DecidableEq

/-- The job a request creates. -/
def CreateRequest.importJob (request : CreateRequest) (settings : Settings) : ImportJob :=
  { status := .pending
    originalFileName := request.originalFileName
    storedFilePath := request.storedFilePath
    fileSizeBytes := request.fileSizeBytes
    contentType := request.contentType
    idempotencyKey := request.idempotencyKey
    idempotencyFingerprint := request.idempotencyFingerprint
    totalRows := 0
    processedRows := 0
    successCount := 0
    failedCount := 0
    attemptCount := 0
    maxAttempts := settings.importMaxAttempts.1
    processingToken := none
    lockedByWorker := none
    startedAt := none
    lastHeartbeatAt := none
    finishedAt := none
    lastFailureReason := none
    failureReason := none
    lastRequeuedAt := none
    createdAt := .min }

/-- The row of a request has its key, its fingerprint and its counters as they are. -/
theorem CreateRequest.store_eq {request : CreateRequest} {settings : Settings} {stored : ImportJob}
    (h : (request.importJob settings).store = .ok stored) :
    ∃ originalFileName storedFilePath contentType,
      varchar 1024 request.storedFilePath = .ok storedFilePath ∧
      stored = { request.importJob settings with originalFileName, storedFilePath, contentType } := by
  simp only [ImportJob.store, bind_eq_ok] at h
  obtain ⟨name, -, path, hpath, size, hsize, type, -, key, hkey, fingerprint, hf, attempts, ha, h⟩ :=
    h
  obtain ⟨-, rfl⟩ := integer_eq_ok.1 hsize
  obtain ⟨-, rfl⟩ := integer_eq_ok.1 ha
  have hk : key = request.idempotencyKey := by
    have hkey : nullable (varchar 255) request.idempotencyKey = .ok key := hkey
    cases hr : request.idempotencyKey with
    | none =>
      rw [hr] at hkey
      cases hkey
      rfl
    | some k =>
      rw [hr, nullable, (request.keyFits k hr).varchar] at hkey
      cases hkey
      rfl
  have hf : fingerprint = request.idempotencyFingerprint :=
    Except.ok.inj (hf.symm.trans request.fingerprintFits.varchar)
  cases h
  subst hk hf
  exact ⟨name, path, type, hpath, rfl⟩

/-- The import that has the key already: returned, or a conflict. -/
def existingOutcome (request : CreateRequest) (existing : ImportSnapshot) :
    Py ImportCreateOutcome :=
  if existing.idempotencyFingerprint ≠ request.idempotencyFingerprint then
    throw .idempotencyConflictError
  else return ⟨⟨existing.importId, existing.status, existing.createdAt⟩, false⟩

/-- `get_snapshot_by_idempotency_key`, for a request that has a key. -/
def lookupIdempotencyKey : Option String → Py (Option ImportSnapshot)
  | none => return none
  | some key => Py.query (.getSnapshotByIdempotencyKey key)

/-- The records of a new import and their commit. -/
def createRecords (settings : Settings) (request : CreateRequest) : Py ImportId := do
  let importId ← Py.query (.insertImportJob (request.importJob settings))
  Py.query (.insertDispatchIntent importId none)
  Py.stmt .commit
  return importId

/-- What a request does when neither its key nor its fingerprint is known. -/
def persistImport (settings : Settings) (request : CreateRequest) : Py ImportCreateOutcome := do
  match ← (createRecords settings request).attempt with
  | .error (.raised .integrityError) =>
    Py.stmt .rollback
    match request.idempotencyKey with
    | none => throw .databaseWriteError
    | some key =>
      match ← Py.query (.getSnapshotByIdempotencyKey key) with
      | none => throw .databaseWriteError
      | some existing => existingOutcome request existing
  | .error (.raised .operationalError) | .error (.raised .sqlalchemyError) =>
    Py.stmt .rollback
    throw .databaseWriteError
  | .error e => throw e
  | .ok importId =>
    match ← Py.query (.refreshImportJob importId) with
    | none => throw (.raised .sqlalchemyError)
    | some result => return ⟨result, true⟩

/-- `create_import`. -/
def createImport (settings : Settings) (request : CreateRequest) : Py ImportCreateOutcome :=
  withSession do
    Py.query (.acquireFingerprintLock request.idempotencyFingerprint)
    match ← lookupIdempotencyKey request.idempotencyKey with
    | some existing => existingOutcome request existing
    | none =>
      match ← Py.query (.getSnapshotByFingerprint request.idempotencyFingerprint) with
      | some existing => throw (.duplicateImportError existing)
      | none => persistImport settings request

end ShipmentImport
