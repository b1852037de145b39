import ShipmentImport.Lib.Program
import ShipmentImport.Database
import ShipmentImport.Settings
import ShipmentImport.Imports.RowValidation

/-!
# Statements and what they do

The services are programs over `Stmt`: the queries of a session and the end of its transactions, the
broker, the clock, the workbook reader and the upload directory. `World.exec` runs one statement of
process `p`, whose number is its database session as well. A `Choice` says whether the statement
runs, fails without effect, or takes effect and is reported as failed.
-/

namespace ShipmentImport

/-! ## Exceptions -/

structure ApiError where
  code : String
  message : String
  statusCode : Nat := 400
  existing : Option ImportSnapshot := none
  deriving DecidableEq

/-- The exceptions that pass through the services. -/
inductive Exc
  | raised (f : Fault)
  | workbookStructureError (message : String)
  | staleImportWorkerError
  | retryableImportProcessingError (message : String)
  /-- `celery.exceptions.Retry`: the task was scheduled again. -/
  | retry
  | databaseWriteError
  | duplicateImportError (existing : ImportSnapshot)
  | idempotencyConflictError
  | uploadTooLargeError
  | apiError (e : ApiError)
  deriving DecidableEq

/-! ## Tasks -/

/-- A task message: the argument of `process_import_task` and how often it was retried. -/
structure Message where
  importId : ImportId
  retries : Nat
  deriving DecidableEq

/-- The arguments of `CreateImportService.create_import`. Its caller has checked the key, and the
fingerprint is a digest. -/
structure CreateRequest where
  originalFileName : String
  storedFilePath : String
  fileSizeBytes : Nat
  contentType : Option String
  idempotencyKey : Option String
  idempotencyFingerprint : String
  keyFits : ∀ key ∈ idempotencyKey, FitsVarchar 255 key
  fingerprintFits : FitsVarchar 64 idempotencyFingerprint
  deriving DecidableEq

/-- Who runs the recovery of stale imports: `recover_stale_imports_on_startup` or
`recover_stale_imports_task`. -/
inductive RecoveryCaller
  | startup
  | schedule
  deriving DecidableEq

/-- What a process runs. -/
inductive Task
  | createImport (request : CreateRequest)
  | publishDueEvents
  | recoverStaleClaims
  | processImport (message : Message) (hostname : Option WorkerName)
  | recoverStaleImports (caller : RecoveryCaller)

/-- What the code depends on outside the database and the broker. -/
structure Env where
  settings : Settings
  adapters : Adapters
  server : Server
  /-- The first worksheet of the workbook stored at a path, or what opening it raises. -/
  workbook : String → Except Fault Worksheet
  /-- `uuid4().hex` of the number of a uuid. -/
  hex : Nat → String
  /-- `hexdigest()` of the digest of the bytes. -/
  sha256 : List UInt8 → Varchar 64
  /-- `str(exc)` of an exception a library raises. -/
  faultText : Fault → String

/-! ## Statements -/

inductive Stmt
  | query (q : Query)
  | commit
  | rollback
  /-- The end of `with session_factory() as session`. -/
  | close
  /-- `datetime.now(UTC)`. -/
  | clock
  /-- `celery_app.send_task("imports.process_import", args=[str(import_id)])`. -/
  | dispatchImport (importId : ImportId)
  /-- `self.retry(exc=…, max_retries=…)`. -/
  | selfRetry (exc : Exc) (maxRetries : Nat)
  | loadWorkbook (path : String)
  /-- Reading the rows of the next chunk from the open worksheet. -/
  | readRows
  | uuid4
  | makeUploadDir
  /-- `aiofiles.open(path, "wb")`. -/
  | createFile (path : String)
  /-- `await reader(chunk_size)`; what it returns is in the request. -/
  | readUpload
  | writeFile (path : String) (chunk : List UInt8)
  /-- `os.replace(source, target)`. -/
  | replaceFile (source target : String)
  /-- `delete_if_exists(path)`. -/
  | deleteFile (path : String)
  /-- The first four bytes of a file. -/
  | readSignature (path : String)
  /-- A loop that does not end. -/
  | spin

abbrev Stmt.Reply : Stmt → Type
  | query q => q.Reply
  | commit | rollback | close | dispatchImport _ | readRows => Unit
  | makeUploadDir | createFile _ | readUpload | writeFile .. | replaceFile .. | deleteFile _ => Unit
  | clock => Time
  | uuid4 => Token
  | readSignature _ => List UInt8
  | selfRetry .. => Empty
  | loadWorkbook _ => Worksheet
  | spin => Empty

/-- What a statement can raise besides what it does. A rollback, the clock, `uuid4()`, the deletion
of a file and `self.retry` do not fail; constraints are checked at once, so a commit violates
none. -/
def Stmt.canFail : Stmt → Fault → Bool
  | query _, _ | dispatchImport _, _ | loadWorkbook _, _ | readRows, _ => true
  | makeUploadDir, _ | createFile _, _ | readUpload, _ | writeFile .., _ | replaceFile .., _ => true
  | readSignature _, _ => true
  | commit, f => f != .integrityError
  | rollback, _ | close, _ | clock, _ | uuid4, _ | deleteFile _, _ | selfRetry .., _ | spin, _ =>
    false

abbrev Py (α : Type) := Prog Stmt Stmt.Reply Exc α

/-- Issue a statement. -/
def Py.stmt (s : Stmt) : Py s.Reply := Prog.perform s

/-- Issue a query. -/
def Py.query (q : Query) : Py q.Reply := Prog.perform (Stmt.query q)

/-- Compute something, which can raise. -/
def Py.lift {α : Type} : Except Fault α → Py α
  | .ok a => return a
  | .error f => throw (.raised f)

/-! ## The world -/

structure World where
  db : Database
  /-- The messages that wait for a worker, scheduled retries included. -/
  queue : List Message
  time : Time
  /-- The files of the upload directory. -/
  files : List (String × List UInt8)

/-- The clock does not show a time before the Unix epoch. -/
def World.empty : World := ⟨.empty, [], .epoch, []⟩

/-- How a statement goes. -/
inductive Choice
  | run
  | fail (f : Fault)
  | lost (f : Fault)
  deriving DecidableEq

namespace World

def commit (w : World) (s : Nat) : World := { w with db := w.db.commit s }

def rollback (w : World) (s : Nat) : World := { w with db := w.db.rollback s }

def push (w : World) (m : Message) : World := { w with queue := w.queue ++ [m] }

def deleteFile (w : World) (path : String) : World :=
  { w with files := w.files.filter fun x => x.1 ≠ path }

def putFile (w : World) (path : String) (content : List UInt8) : World :=
  { w with files := (path, content) :: (w.deleteFile path).files }

/-- A statement that runs. -/
def perform (env : Env) (p : Nat) (t : Task) (w : World) :
    (s : Stmt) → Option (Except Exc s.Reply × World)
  | .query q => ((w.db.begin p w.time).exec env.server w.time p q).map fun x =>
      (x.1.mapError Exc.raised, { w with db := x.2 })
  | .commit => some (.ok (), w.commit p)
  | .rollback | .close => some (.ok (), w.rollback p)
  | .clock => some (.ok w.time, w)
  | .dispatchImport importId => some (.ok (), w.push ⟨importId, 0⟩)
  | .selfRetry exc maxRetries =>
    match t with
    | .processImport m _ =>
      if m.retries ≥ maxRetries then some (.error exc, w)
      else some (.error .retry, w.push ⟨m.importId, m.retries + 1⟩)
    | _ => none
  | .loadWorkbook path => some ((env.workbook path).mapError Exc.raised, w)
  | .readRows | .makeUploadDir | .readUpload => some (.ok (), w)
  | .uuid4 => some (.ok w.db.issued, { w with db.issued := w.db.issued + 1 })
  | .createFile path => some (.ok (), w.putFile path [])
  | .writeFile path chunk =>
    some (.ok (), w.putFile path ((w.files.lookup path).getD [] ++ chunk))
  | .replaceFile source target =>
    match w.files.lookup source with
    | some content => some (.ok (), (w.deleteFile source).putFile target content)
    | none => some (.error (.raised .osError), w)
  | .deleteFile path => some (.ok (), w.deleteFile path)
  | .readSignature path =>
    match w.files.lookup path with
    | some content => some (.ok (content.take 4), w)
    | none => some (.error (.raised .osError), w)
  | .spin => none

/-- A statement of process `p`, which runs task `t`; `none` while it waits. -/
def exec (env : Env) (p : Nat) (t : Task) (s : Stmt) :
    Choice → World → Option (Except Exc s.Reply × World)
  | .run, w => w.perform env p t s
  | .fail f, w => if s.canFail f then some (.error (.raised f), w) else none
  | .lost f, w =>
    match s with
    | .commit | .dispatchImport _ =>
      if s.canFail f then (w.perform env p t s).map fun x => (.error (.raised f), x.2) else none
    | _ => none

end World

/-! ## Transactions -/

/-- The local variable a transaction assigns with `first`, and what became of the rest. -/
abbrev Attempt (α β : Type) := Except (Option α × Exc) β

/-- `x = None; with session.begin(): x = first; rest`, with the exception that leaves it and the
value `x` has then. The transaction is committed at its end, also where `rest` returns early, and
rolled back when something raises. -/
def transaction {α β : Type} (first : Py α) (rest : α → Py β) : Py (Attempt α β) := do
  match ← first.attempt with
  | .error e =>
    Py.stmt .rollback
    return .error (none, e)
  | .ok a =>
    match ← (rest a).attempt with
    | .error e =>
      Py.stmt .rollback
      return .error (some a, e)
    | .ok b =>
      match ← (Py.stmt .commit).attempt with
      | .error e =>
        Py.stmt .rollback
        return .error (some a, e)
      | .ok () => return .ok b

/-- `with session.begin(): body`. -/
def inTransaction {α : Type} (body : Py α) : Py α := do
  match ← transaction body pure with
  | .ok a => return a
  | .error (_, e) => throw e

/-- `with session_factory() as session: body`. -/
def withSession {α : Type} (body : Py α) : Py α := do
  match ← body.attempt with
  | .ok a =>
    Py.stmt .close
    return a
  | .error e =>
    Py.stmt .close
    throw e

/-- `for x in xs: body x`. -/
def forEach {α : Type} (xs : List α) (body : α → Py Unit) : Py Unit :=
  match xs with
  | [] => return ()
  | x :: xs => do
    body x
    forEach xs body

end ShipmentImport
