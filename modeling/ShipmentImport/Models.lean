import ShipmentImport.Lib.Numeric
import ShipmentImport.Values
import Mathlib.Order.Basic

/-!
# Table models

The rows of the four tables (`app/db/models/`), with the constraints the database puts on their
columns. Row numbers stand for primary keys and are not part of a row. Columns no modelled code
reads (`updated_at`, the creation times of shipments and errors) are left out.
-/

namespace ShipmentImport

/-- The key of an import job: the number of its row. -/
abbrev ImportId := Nat

/-- A `uuid4()`; fresh ones are numbered in the order in which they are drawn. -/
abbrev Token := Nat

/-- Exceptions the libraries raise, as the handlers of the code tell them apart: `sqlalchemyError`
is a `SQLAlchemyError` that is neither of the first two, `other` any `Exception` not named here. -/
inductive Fault
  | operationalError
  | integrityError
  | sqlalchemyError
  | osError
  | valueError
  | badZipFile
  | indexError
  | overflowError
  | other
  deriving DecidableEq

/-! ## Times -/

/-- A second, in microseconds. -/
def second : Nat := 1000000

/-- `datetime.max`, in microseconds after `datetime.min`. -/
def datetimeMax : Nat := 3652059 * 86400 * second - 1

/-- A `datetime` in UTC, in microseconds after `datetime.min`. -/
abbrev Time := { n : Nat // n ≤ datetimeMax }

namespace Time

variable {t u : Time} {seconds : Nat} {f : Fault}

def min : Time := ⟨0, Nat.zero_le _⟩

/-- The beginning of the Unix epoch. -/
def epoch : Time := ⟨719162 * 86400 * second, by decide⟩

/-- The clock goes on for some microseconds, as long as it can show the time. -/
def advance (t : Time) (microseconds : Nat) : Option Time :=
  if h : t.1 + microseconds ≤ datetimeMax then some ⟨t.1 + microseconds, h⟩ else none

/-- `t + timedelta(seconds=seconds)`. -/
def plus (t : Time) (seconds : Nat) : Except Fault Time :=
  if h : t.1 + seconds * second ≤ datetimeMax then .ok ⟨t.1 + seconds * second, h⟩
  else .error .overflowError

/-- `t - timedelta(seconds=seconds)`. -/
def minus (t : Time) (seconds : Nat) : Except Fault Time :=
  if seconds * second ≤ t.1 then .ok ⟨t.1 - seconds * second, (Nat.sub_le _ _).trans t.2⟩
  else .error .overflowError

theorem advance_eq_some {n : Nat} : t.advance n = some u ↔ u.1 = t.1 + n := by
  unfold advance
  split
  · next h => rw [Option.some.injEq, Subtype.ext_iff, eq_comm]
  · next h => exact iff_of_false (by simp) fun e => h (e ▸ u.2)

theorem plus_eq_ok : t.plus seconds = .ok u ↔ u.1 = t.1 + seconds * second := by
  unfold plus
  split
  · next h => rw [Except.ok.injEq, Subtype.ext_iff, eq_comm]
  · next h => exact iff_of_false (by simp) fun e => h (e ▸ u.2)

theorem le_plus (h : t.plus seconds = .ok u) : t ≤ u :=
  (Nat.le_add_right _ _).trans (plus_eq_ok.1 h).ge

theorem minus_eq_ok : t.minus seconds = .ok u ↔ u.1 + seconds * second = t.1 := by
  unfold minus
  split
  · next h =>
    rw [Except.ok.injEq, Subtype.ext_iff]
    show t.1 - seconds * second = u.1 ↔ _
    omega
  · next h => exact iff_of_false (by simp) fun e => h (by omega)

end Time

/-! ## Columns -/

/-- A string in a column `VARCHAR(n)`: text holds no NUL character, and longer strings are an error,
unless only blanks are cut off. -/
def varchar (n : Nat) (s : String) : Except Fault String :=
  if '\x00' ∈ s.toList then .error .sqlalchemyError
  else if s.length ≤ n then .ok s
  else if (s.toList.drop n).all (· == ' ') then .ok (String.ofList (s.toList.take n))
  else .error .sqlalchemyError

theorem varchar_error {n : Nat} {s : String} {f : Fault} (h : varchar n s = .error f) :
    f = .sqlalchemyError := by
  unfold varchar at h
  split_ifs at h <;> cases h <;> rfl

/-- A column keeps all of a string that does not end in a blank. -/
theorem varchar_eq {n : Nat} {s t : String} (hlast : s.toList.getLast? ≠ some ' ')
    (h : varchar n s = .ok t) : t = s := by
  unfold varchar at h
  split at h
  · cases h
  split at h
  · cases h; rfl
  · next hlen =>
    split at h
    · next hall =>
      exfalso
      have hne : s.toList.drop n ≠ [] := by
        intro e
        rw [List.drop_eq_nil_iff] at e
        exact hlen (by rwa [String.length_toList] at e)
      have hblank : (s.toList.drop n).getLast hne = ' ' := by
        simpa using List.all_eq_true.1 hall _ (List.getLast_mem hne)
      exact hlast (by rw [← hblank, List.getLast_drop, List.getLast?_eq_some_getLast])
    · cases h

/-- A column `VARCHAR(n)` stores the string as it is. -/
def FitsVarchar (n : Nat) (s : String) : Prop := '\x00' ∉ s.toList ∧ s.length ≤ n

instance (n : Nat) (s : String) : Decidable (FitsVarchar n s) :=
  inferInstanceAs (Decidable (_ ∧ _))

theorem FitsVarchar.varchar {n : Nat} {s : String} (h : FitsVarchar n s) :
    varchar n s = .ok s := by
  rw [ShipmentImport.varchar, if_neg h.1, if_pos h.2]

/-- A string that fits a column `VARCHAR(n)`. -/
abbrev Varchar (n : Nat) := { s : String // FitsVarchar n s }

/-- An integer in a column `INTEGER`. -/
def integer (n : Nat) : Except Fault Nat :=
  if n < 2 ^ 31 then .ok n else .error .sqlalchemyError

theorem integer_error {n : Nat} {f : Fault} (h : integer n = .error f) : f = .sqlalchemyError := by
  unfold integer at h
  split at h <;> cases h
  rfl

theorem integer_eq_ok {n m : Nat} : integer n = .ok m ↔ n < 2 ^ 31 ∧ m = n := by
  unfold integer
  split
  · next h => exact ⟨fun e => ⟨h, (Except.ok.inj e).symm⟩, fun e => congrArg _ e.2.symm⟩
  · next h => exact iff_of_false (by simp) fun e => h e.1

/-- A value in a column that can be `NULL`. -/
def nullable {α : Type} (column : α → Except Fault α) : Option α → Except Fault (Option α)
  | none => .ok none
  | some a => (column a).map some

theorem nullable_error {α : Type} {column : α → Except Fault α} {a : Option α} {f : Fault}
    (h : nullable column a = .error f) : ∃ x, column x = .error f := by
  cases a with
  | none => cases h
  | some x =>
    refine ⟨x, ?_⟩
    cases hx : column x with
    | ok y =>
      rw [nullable, hx] at h
      cases h
    | error e =>
      rw [nullable, hx] at h
      cases h
      rfl

/-! ## Import jobs -/

inductive ImportStatus
  | pending
  | processing
  | completed
  | failed
  deriving DecidableEq

/-- A worker's host name, which fits its column. -/
abbrev WorkerName := Varchar 255

structure ImportJob where
  status : ImportStatus
  originalFileName : String
  storedFilePath : String
  fileSizeBytes : Nat
  contentType : Option String
  idempotencyKey : Option String
  idempotencyFingerprint : String
  totalRows : Nat
  processedRows : Nat
  successCount : Nat
  failedCount : Nat
  attemptCount : Nat
  maxAttempts : Nat
  processingToken : Option Token
  lockedByWorker : Option WorkerName
  startedAt : Option Time
  lastHeartbeatAt : Option Time
  finishedAt : Option Time
  lastFailureReason : Option String
  failureReason : Option String
  lastRequeuedAt : Option Time
  createdAt : Time

/-- `ck_import_jobs_failure_reason_terminal`. -/
def ImportJob.ckFailureReasonTerminal (j : ImportJob) : Bool :=
  (j.status == .failed && j.failureReason.isSome) ||
    (j.status != .failed && j.failureReason.isNone)

/-- A new job as its row stores it. The counters start at zero, and what workers write later is in
range. -/
def ImportJob.store (j : ImportJob) : Except Fault ImportJob := do
  let originalFileName ← varchar 255 j.originalFileName
  let storedFilePath ← varchar 1024 j.storedFilePath
  let fileSizeBytes ← integer j.fileSizeBytes
  let contentType ← nullable (varchar 255) j.contentType
  let idempotencyKey ← nullable (varchar 255) j.idempotencyKey
  let idempotencyFingerprint ← varchar 64 j.idempotencyFingerprint
  let maxAttempts ← integer j.maxAttempts
  return { j with originalFileName, storedFilePath, fileSizeBytes, contentType, idempotencyKey,
                  idempotencyFingerprint, maxAttempts }

theorem ImportJob.store_error {j : ImportJob} {f : Fault} (h : j.store = .error f) :
    f = .sqlalchemyError := by
  by_contra hf
  have hvarchar : ∀ {n : Nat} {s : String}, varchar n s ≠ .error f := fun h => hf (varchar_error h)
  have hinteger : ∀ {n : Nat}, integer n ≠ .error f := fun h => hf (integer_error h)
  have hnullable : ∀ {n : Nat} {s : Option String}, nullable (varchar n) s ≠ .error f := fun h =>
    (nullable_error h).elim fun _ => hvarchar
  obtain ⟨_, h⟩ := exists_error_of_bind h hvarchar
  obtain ⟨_, h⟩ := exists_error_of_bind h hvarchar
  obtain ⟨_, h⟩ := exists_error_of_bind h hinteger
  obtain ⟨_, h⟩ := exists_error_of_bind h hnullable
  obtain ⟨_, h⟩ := exists_error_of_bind h hnullable
  obtain ⟨_, h⟩ := exists_error_of_bind h hvarchar
  obtain ⟨_, h⟩ := exists_error_of_bind h hinteger
  cases h

/-- The columns take the job. -/
def ImportJob.fits (j : ImportJob) : Bool := j.store.isOk

theorem ImportJob.fits_iff {j : ImportJob} : j.fits = true ↔ ∃ stored, j.store = .ok stored := by
  unfold fits
  cases j.store <;> simp [Except.isOk, Except.toBool]

/-! ## Dispatch outbox -/

inductive OutboxStatus
  | pending
  | processing
  | published
  | failed
  deriving DecidableEq

structure ImportDispatchOutbox where
  importId : ImportId
  status : OutboxStatus
  attemptCount : Nat
  availableAt : Time
  claimedAt : Option Time
  claimToken : Option Token
  publishedAt : Option Time
  lastError : Option String
  createdAt : Time

/-! ## Shipments -/

/-- A date, as the date adapter returns it. -/
structure PyDate where
  year : Nat
  month : Nat
  day : Nat
  deriving DecidableEq

/-- A finite decimal, as the decimal adapter returns it. -/
structure PyDecimal where
  coefficient : Int
  exponent : Int
  deriving DecidableEq

namespace PyDecimal

/-- How many decimals its text has. -/
def decimals (x : PyDecimal) : Nat := (-x.exponent).toNat

def value (x : PyDecimal) : ℚ := x.coefficient * 10 ^ x.exponent.toNat / 10 ^ x.decimals

/-- Its text is one PostgreSQL reads as a `NUMERIC`: it has at most 16383 decimals, and no exponent
from `2 ^ 30` on, which zero can have. -/
def IsNumeric (x : PyDecimal) : Prop := x.decimals ≤ 16383 ∧ x.exponent < 2 ^ 30

instance (x : PyDecimal) : Decidable x.IsNumeric := inferInstanceAs (Decidable (_ ∧ _))

end PyDecimal

structure Shipment where
  importId : ImportId
  shipmentCode : String
  customerName : String
  originCity : String
  destinationCity : String
  weightKg : PyDecimal
  price : PyDecimal
  status : String
  deliveryDate : Option PyDate
  deriving DecidableEq

/-- `ck_shipments_status`, `ck_shipments_weight_kg_positive` and `ck_shipments_price_non_negative`.
-/
def Shipment.checks (s : Shipment) : Bool :=
  s.status ∈ ["PENDING", "IN_TRANSIT", "DELIVERED", "CANCELED"] && decide (0 < s.weightKg.value) &&
    decide (0 ≤ s.price.value)

/-- `x` in a column `NUMERIC(precision, scale)`. The parameter is read as a number first, whatever
the column, and then rounded. -/
def numeric (precision scale : Nat) (x : PyDecimal) : Except Fault PyDecimal :=
  if x.IsNumeric then
    match numeric? precision scale x.value with
    | some units => .ok ⟨units, -scale⟩
    | none => .error .sqlalchemyError
  else .error .sqlalchemyError

example : numeric 18 2 ⟨5, -3⟩ = .ok ⟨1, -2⟩ := by decide +kernel

example : numeric 18 2 ⟨1, -20000⟩ = .error .sqlalchemyError := by decide +kernel

/-- A shipment as its row stores it: the columns take their values, then the checks run on what
they hold. -/
def Shipment.store (s : Shipment) : Except Fault Shipment := do
  let shipmentCode ← varchar 128 s.shipmentCode
  let customerName ← varchar 150 s.customerName
  let originCity ← varchar 255 s.originCity
  let destinationCity ← varchar 255 s.destinationCity
  let weightKg ← numeric 12 3 s.weightKg
  let price ← numeric 18 2 s.price
  let status ← varchar 32 s.status
  let stored := { s with shipmentCode, customerName, originCity, destinationCity, weightKg, price,
                         status }
  if stored.checks then return stored else throw .integrityError

theorem Shipment.store_importId {s s' : Shipment} (h : s.store = .ok s') :
    s'.importId = s.importId := by
  simp only [store, bind, Except.bind] at h
  repeat' split at h
  all_goals first | cases h; rfl | cases h

/-! ## Import errors -/

/-- A row of `import_errors`. -/
structure ImportErrorRow where
  importId : ImportId
  rowNumber : Nat
  field : String
  error : String
  rawData : PyValue

end ShipmentImport
