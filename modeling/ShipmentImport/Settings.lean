import Mathlib.Data.List.Sort
import Mathlib.Order.Basic
import Mathlib.Order.Defs.LinearOrder

/-!
# Settings

The runtime settings the modelled code reads (`app/core/settings.py`). `RawSettings` is what the
environment supplies; `Settings` is what the validators accept, with what they checked as fields.
-/

namespace ShipmentImport

/-- The settings as read from the environment, with the defaults of the class. -/
structure RawSettings where
  uploadDir : String := "data/uploads"
  uploadReadChunkSizeBytes : Int := 1024 * 1024
  maxUploadSizeBytes : Int := 50 * 1024 * 1024
  processingRowChunkSize : Int := 500
  outboxBatchSize : Int := 100
  outboxMaxAttempts : Int := 5
  outboxStaleTimeoutSeconds : Int := 60
  outboxRetryDelaysSeconds : List Int := [2, 4, 8, 16]
  importMaxAttempts : Int := 3
  processingStaleTimeoutSeconds : Int := 300
  startupRecoveryBatchSize : Int := 100
  watchdogBatchSize : Int := 100
  defaultPageSize : Int := 20
  maxPageSize : Int := 100

/-- An integer `validate_positive_integers` accepts. -/
abbrev Positive := { n : Nat // 0 < n }

/-- Delays `validate_retry_delays` accepts: four positive ones, strictly increasing. -/
structure RetryDelays where
  delays : List Nat
  four : delays.length = 4
  positive : ∀ d ∈ delays, 0 < d
  increasing : delays.Pairwise (· < ·)

/-- Accepted settings. -/
structure Settings where
  uploadDir : String
  uploadReadChunkSizeBytes : Positive
  maxUploadSizeBytes : Positive
  processingRowChunkSize : Positive
  outboxBatchSize : Positive
  outboxMaxAttempts : Positive
  outboxStaleTimeoutSeconds : Positive
  outboxRetryDelaysSeconds : RetryDelays
  importMaxAttempts : Positive
  processingStaleTimeoutSeconds : Positive
  startupRecoveryBatchSize : Positive
  watchdogBatchSize : Positive
  defaultPageSize : Positive
  maxPageSize : Positive
  upload_relation : uploadReadChunkSizeBytes.1 ≤ maxUploadSizeBytes.1
  page_relation : defaultPageSize.1 ≤ maxPageSize.1

def validatePositiveIntegers (value : Int) : Except String Positive :=
  if h : value ≤ 0 then .error "must be a positive integer"
  else .ok ⟨value.toNat, by omega⟩

/-- `sorted(value) == value and len(set(value)) == len(value)` says strictly increasing. -/
def validateRetryDelays (value : List Int) : Except String RetryDelays :=
  if h4 : value.length ≠ 4 then .error "must contain exactly four retry delays"
  else if hp : ∃ d ∈ value, d ≤ 0 then .error "retry delays must be positive integers"
  else if hi : ¬ value.Pairwise (· < ·) then .error "retry delays must be strictly increasing"
  else .ok
    { delays := value.map Int.toNat
      four := by simpa using h4
      positive := fun d hd => by
        obtain ⟨x, hx, rfl⟩ := List.mem_map.1 hd
        have : ¬ x ≤ 0 := fun h => hp ⟨x, hx, h⟩
        omega
      increasing := by
        rw [List.pairwise_map]
        refine (not_not.1 hi).imp_of_mem fun {a b} ha hb hab => ?_
        have : ¬ a ≤ 0 := fun h => hp ⟨a, ha, h⟩
        omega }

/-- `Settings()`: the field validators, then `validate_runtime_relationships`. -/
def RawSettings.validate (raw : RawSettings) : Except String Settings := do
  let readChunk ← validatePositiveIntegers raw.uploadReadChunkSizeBytes
  let maxUpload ← validatePositiveIntegers raw.maxUploadSizeBytes
  let rowChunk ← validatePositiveIntegers raw.processingRowChunkSize
  let outboxBatch ← validatePositiveIntegers raw.outboxBatchSize
  let outboxMax ← validatePositiveIntegers raw.outboxMaxAttempts
  let outboxStale ← validatePositiveIntegers raw.outboxStaleTimeoutSeconds
  let delays ← validateRetryDelays raw.outboxRetryDelaysSeconds
  let importMax ← validatePositiveIntegers raw.importMaxAttempts
  let processingStale ← validatePositiveIntegers raw.processingStaleTimeoutSeconds
  let startupBatch ← validatePositiveIntegers raw.startupRecoveryBatchSize
  let watchdogBatch ← validatePositiveIntegers raw.watchdogBatchSize
  let defaultPage ← validatePositiveIntegers raw.defaultPageSize
  let maxPage ← validatePositiveIntegers raw.maxPageSize
  if hu : maxUpload.1 < readChunk.1 then
    throw "MAX_UPLOAD_SIZE_BYTES must be greater than upload chunk size"
  else if hp : maxPage.1 < defaultPage.1 then
    throw "MAX_PAGE_SIZE must be greater than or equal to DEFAULT_PAGE_SIZE"
  else
    return {
        uploadDir := raw.uploadDir
        uploadReadChunkSizeBytes := readChunk
        maxUploadSizeBytes := maxUpload
        processingRowChunkSize := rowChunk
        outboxBatchSize := outboxBatch
        outboxMaxAttempts := outboxMax
        outboxStaleTimeoutSeconds := outboxStale
        outboxRetryDelaysSeconds := delays
        importMaxAttempts := importMax
        processingStaleTimeoutSeconds := processingStale
        startupRecoveryBatchSize := startupBatch
        watchdogBatchSize := watchdogBatch
        defaultPageSize := defaultPage
        maxPageSize := maxPage
        upload_relation := Nat.le_of_not_lt hu
        page_relation := Nat.le_of_not_lt hp }

/-- The settings of an environment that sets nothing: the defaults, which are accepted. -/
def Settings.default : Settings where
  uploadDir := "data/uploads"
  uploadReadChunkSizeBytes := ⟨1024 * 1024, by decide⟩
  maxUploadSizeBytes := ⟨50 * 1024 * 1024, by decide⟩
  processingRowChunkSize := ⟨500, by decide⟩
  outboxBatchSize := ⟨100, by decide⟩
  outboxMaxAttempts := ⟨5, by decide⟩
  outboxStaleTimeoutSeconds := ⟨60, by decide⟩
  outboxRetryDelaysSeconds := ⟨[2, 4, 8, 16], rfl, by decide, by decide⟩
  importMaxAttempts := ⟨3, by decide⟩
  processingStaleTimeoutSeconds := ⟨300, by decide⟩
  startupRecoveryBatchSize := ⟨100, by decide⟩
  watchdogBatchSize := ⟨100, by decide⟩
  defaultPageSize := ⟨20, by decide⟩
  maxPageSize := ⟨100, by decide⟩
  upload_relation := by decide
  page_relation := by decide

example : RawSettings.validate {} = .ok Settings.default := by rfl

end ShipmentImport
