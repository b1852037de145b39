import ShipmentImport.Services.CreateImport

/-!
# Uploads

The upload directory (`app/storage/local_file_storage.py`) and the endpoint that stores an upload and
creates its import (`create_import` in `app/api/v1/imports.py`). What `str.lower()` makes of a
suffix is a parameter.
-/

namespace ShipmentImport

/-! ## Names -/

/-- `Path(path).name`. -/
def pathName (path : String) : String :=
  let parts := (path.toList.splitOn '/').filter fun part => part ≠ [] ∧ part ≠ ['.']
  String.ofList (parts.getLast?.getD [])

/-- `Path(name).suffix` of a name: from the last dot on, which is neither the first nor the last
character. -/
def pathSuffix (name : String) : String :=
  let cs := name.toList
  let tail := cs.reverse.takeWhile (· ≠ '.')
  let i := cs.length - 1 - tail.length
  if tail = [] ∨ i = 0 then "" else String.ofList (cs.drop i)

/-- `str(directory / name)`. -/
def joinPath (directory name : String) : String :=
  if directory = "." then name
  else if directory.toList.getLast? = some '/' then directory ++ name
  else directory ++ "/" ++ name

/-! ## Storing a file -/

/-- What each read of an upload returns, or raises; an empty chunk is the end. -/
abbrev Reader := Nat → Except Fault (List UInt8)

structure StoredFile where
  originalFileName : String
  storedFilePath : String
  fileSizeBytes : Nat
  sha256Hex : Varchar 64
  deriving DecidableEq

structure LocalFileStorage where
  uploadDir : String
  maxSizeBytes : Nat
  /-- `suffix.lower()`. -/
  lower : String → String

namespace LocalFileStorage

variable (env : Env) (storage : LocalFileStorage) (reader : Reader)

def tempPath (fileToken : Token) : String :=
  joinPath storage.uploadDir (env.hex fileToken ++ ".tmp")

def finalPath (fileToken : Token) (originalFileName : String) : String :=
  joinPath storage.uploadDir
    (env.hex fileToken ++ storage.lower (pathSuffix (pathName originalFileName)))

/-- `while True` of `save_upload`: `reads` reads were made, of `totalSize` bytes, and the digest is
that of the bytes `digest`. -/
def receive (path : String) : (fuel reads totalSize : Nat) → (digest : List UInt8) →
    Py (Nat × List UInt8)
  | 0, _, _, _ => do nomatch ← Py.stmt .spin
  | fuel + 1, reads, totalSize, digest => do
    Py.stmt .readUpload
    match reader reads with
    | .error f => throw (.raised f)
    | .ok chunk =>
      if chunk = [] then return (totalSize, digest)
      else if totalSize + chunk.length > storage.maxSizeBytes then throw .uploadTooLargeError
      else
        Py.stmt (.writeFile path chunk)
        receive path fuel (reads + 1) (totalSize + chunk.length) (digest ++ chunk)

/-- `async with aiofiles.open(path, "wb") as handle: body`. Closing the file writes what is
buffered. -/
def withFile {α : Type} (path : String) (body : Py α) : Py α := do
  Py.stmt (.createFile path)
  match ← body.attempt with
  | .ok a =>
    Py.stmt (.writeFile path [])
    return a
  | .error e =>
    Py.stmt (.writeFile path [])
    throw e

/-- `save_upload`. Every pass of the loop that is not the last adds to the size, so it ends within
`max_size_bytes + 1` passes. -/
def saveUpload (originalFileName : String) : Py StoredFile := do
  Py.stmt .makeUploadDir
  let fileToken ← Py.stmt .uuid4
  let temp := storage.tempPath env fileToken
  let final := storage.finalPath env fileToken originalFileName
  match ← (do
    let received ← withFile temp (storage.receive reader temp (storage.maxSizeBytes + 1) 0 0 [])
    Py.stmt (.replaceFile temp final)
    return received).attempt with
  | .ok (totalSize, digest) =>
    return { originalFileName := pathName originalFileName
             storedFilePath := final
             fileSizeBytes := totalSize
             sha256Hex := env.sha256 digest }
  | .error e =>
    Py.stmt (.deleteFile temp)
    Py.stmt (.deleteFile final)
    throw e

end LocalFileStorage

/-! ## The endpoint -/

/-- `UploadFile`: its name, what its reads return, and its content type. -/
structure UploadFile where
  fileName : Option String
  reader : Reader
  contentType : Option String

def invalidFileFormat (message : String) : Exc :=
  .apiError { code := "INVALID_FILE_FORMAT", message }

/-- `_validate_original_file_name`. -/
def validateOriginalFileName (lower : String → String) : Option String → Except Exc String
  | none => .error (invalidFileFormat "Uploaded file must be a .xlsx file.")
  | some name =>
    if pathName name = "" ∨ lower (pathSuffix (pathName name)) ≠ ".xlsx" then
      .error (invalidFileFormat "Uploaded file must be a .xlsx file.")
    else .ok (pathName name)

/-- A key without control characters that is short enough fits its column. -/
theorem fitsVarchar_key {key : String} (h : ¬ (key = "" ∨ key ≠ strip key ∨ key.length > 255 ∨
    key.toList.any (fun c => c.toNat < 32 || c.toNat = 127))) : FitsVarchar 255 key := by
  simp only [not_or, not_lt, Bool.not_eq_true, List.any_eq_false] at h
  exact ⟨fun hnul => by simpa using h.2.2.2 _ hnul, h.2.2.1⟩

/-- `_validate_idempotency_key`. -/
def validateIdempotencyKey : Option String → Except Exc (Option (Varchar 255))
  | none => .ok none
  | some key =>
    if h : key = "" ∨ key ≠ strip key ∨ key.length > 255 ∨
        key.toList.any (fun c => c.toNat < 32 || c.toNat = 127) then
      .error (.apiError { code := "INVALID_IDEMPOTENCY_KEY", message :=
        "Idempotency-Key must be a non-empty textual value without surrounding whitespace." })
    else .ok (some ⟨key, fitsVarchar_key h⟩)

/-- What the handlers of the endpoint make of an exception. -/
def uploadError : Exc → Exc
  | .uploadTooLargeError => .apiError
    { code := "FILE_TOO_LARGE", message := "Uploaded file exceeds the maximum allowed size.",
      statusCode := 413 }
  | .idempotencyConflictError => .apiError
    { code := "IDEMPOTENCY_CONFLICT",
      message := "Idempotency-Key already exists for a different upload.", statusCode := 409 }
  | .duplicateImportError existing => .apiError
    { code := "DUPLICATE_IMPORT", message := "An identical file was already submitted.",
      statusCode := 409, existing := some existing }
  | .databaseWriteError => .apiError
    { code := "DATABASE_ERROR", message := "Failed to persist the import.", statusCode := 500 }
  | e => e

/-- The request to the service for a stored file. -/
def StoredFile.createRequest (file : StoredFile) (contentType : Option String)
    (idempotencyKey : Option (Varchar 255)) : CreateRequest :=
  { originalFileName := file.originalFileName
    storedFilePath := file.storedFilePath
    fileSizeBytes := file.fileSizeBytes
    contentType
    idempotencyKey := idempotencyKey.map (·.1)
    idempotencyFingerprint := file.sha256Hex.1
    keyFits := fun _ hkey => by
      obtain ⟨key, -, rfl⟩ := Option.map_eq_some_iff.1 hkey
      exact key.2
    fingerprintFits := file.sha256Hex.2 }

/-- The body of the endpoint once the file is stored: the signature, and the import. -/
def importStoredFile (settings : Settings) (file : StoredFile)
    (contentType : Option String) (idempotencyKey : Option (Varchar 255)) :
    Py ImportCreateOutcome := do
  let signature ← Py.stmt (.readSignature file.storedFilePath)
  if signature ≠ [0x50, 0x4b, 0x03, 0x04] then
    Py.stmt (.deleteFile file.storedFilePath)
    throw (invalidFileFormat "Uploaded file must have a valid .xlsx ZIP signature.")
  else createImport settings (file.createRequest contentType idempotencyKey)

/-- The endpoint for a request whose name and key are valid. -/
def uploadFile (env : Env) (lower : String → String) (file : UploadFile) (safeFileName : String)
    (idempotencyKey : Option (Varchar 255)) : Py ImportCreatedResult := do
  let storage : LocalFileStorage :=
    ⟨env.settings.uploadDir, env.settings.maxUploadSizeBytes.1, lower⟩
  match ← (storage.saveUpload env file.reader safeFileName).attempt with
  | .error e => throw (uploadError e)
  | .ok stored =>
    match ← (importStoredFile env.settings stored file.contentType idempotencyKey).attempt with
    | .error e =>
      Py.stmt (.deleteFile stored.storedFilePath)
      throw (uploadError e)
    | .ok outcome =>
      if !outcome.created then Py.stmt (.deleteFile stored.storedFilePath)
      return outcome.result

/-- `create_import` of the endpoint. Whatever is raised once the file is stored deletes it, and so
does an import that was there already. -/
def uploadImport (env : Env) (lower : String → String) (file : Option UploadFile)
    (idempotencyKey : Option String) : Py ImportCreatedResult :=
  match file with
  | none =>
    throw (invalidFileFormat "Uploaded file must be provided as multipart form data.")
  | some file =>
    match validateOriginalFileName lower file.fileName, validateIdempotencyKey idempotencyKey with
    | .error e, _ => throw e
    | _, .error e => throw e
    | .ok safeFileName, .ok normalizedKey => uploadFile env lower file safeFileName normalizedKey

end ShipmentImport
