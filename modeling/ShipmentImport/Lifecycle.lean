import ShipmentImport.Imports.ChunkResults
import ShipmentImport.Services.PublishOutbox

/-!
# The life of one import

The abstract model: what the database holds of one import (`Slice`) and the atomic steps by which
committed transactions change it (`Slice.Step`). A step says who takes it (`Role`) and as which
process; the steps of a worker on an import it claimed need its token. The job row itself changes by
`JobWrite`s, one for each writer of the source.

Everything the claims about single imports need is an invariant of these steps: `Slice.Ok`.
-/

namespace ShipmentImport

/-! ## Writes to a job -/

/-- The eight writers of an import job. -/
inductive JobWrite
  | claim (now : Time) (token : Token) (worker : WorkerName)
  | progress (now : Time) (token : Token) (values : ProgressValues)
  | recovery (values : RecoveryValues)
  | failDispatch (now : Time) (reason : String)

namespace JobWrite

/-- The rows a writer selects. -/
def Admits (j : ImportJob) : JobWrite → Prop
  | claim .. => j.status = .pending ∧ j.attemptCount < j.maxAttempts
  | progress _ token _ => j.status = .processing ∧ j.processingToken = some token
  | recovery _ => j.status = .processing
  | failDispatch .. => j.status = .pending

def apply (j : ImportJob) : JobWrite → ImportJob
  | claim now token worker => j.claim now token worker
  | progress now _ values => values.apply now j
  | recovery values => values.apply j
  | failDispatch now reason => j.failDispatch now reason

end JobWrite

/-- The jobs reached from creation by any sequence of writes. -/
inductive JobHistory (settings : Settings) : ImportJob → Prop
  | created (j : ImportJob) (status : j.status = .pending) (token : j.processingToken = none)
      (worker : j.lockedByWorker = none) (started : j.startedAt = none)
      (finished : j.finishedAt = none) (failure : j.failureReason = none)
      (attempts : j.attemptCount = 0) (maxAttempts : j.maxAttempts = settings.importMaxAttempts.1) :
      JobHistory settings j
  | write {j : ImportJob} (w : JobWrite) (h : JobHistory settings j) (hw : w.Admits j) :
      JobHistory settings (w.apply j)

/-- How the status of a job determines its other columns. -/
structure ImportJob.Consistent (j : ImportJob) : Prop where
  token : j.status = .processing ↔ j.processingToken.isSome
  worker : j.status = .processing ↔ j.lockedByWorker.isSome
  heartbeat : j.status = .processing → j.lastHeartbeatAt.isSome
  failure : j.status = .failed ↔ j.failureReason.isSome
  finished : j.finishedAt.isSome ↔ j.status = .completed ∨ j.status = .failed
  started : j.startedAt.isSome ↔ 1 ≤ j.attemptCount

namespace ImportJob.Consistent

/-- A consistent job satisfies `ck_import_jobs_failure_reason_terminal`. -/
theorem ck {j : ImportJob} (h : j.Consistent) : j.ckFailureReasonTerminal = true := by
  have := h.failure
  unfold ckFailureReasonTerminal
  by_cases hs : j.status = .failed
  · simp [hs, this.1 hs]
  · cases hr : j.failureReason with
    | none => simp [hs]
    | some reason => exact absurd (this.2 (by rw [hr]; rfl)) hs

/-- Every write keeps a job consistent. -/
theorem write {j : ImportJob} (h : j.Consistent) {w : JobWrite} (hw : w.Admits j) :
    (w.apply j).Consistent := by
  obtain ⟨ht, hk, hb, hf, hfin, hst⟩ := h
  cases w with
  | claim now token worker =>
    obtain ⟨hs, -⟩ := hw
    constructor <;> simp_all [JobWrite.apply, ImportJob.claim]
  | progress now token values =>
    obtain ⟨hs, htok⟩ := hw
    cases values <;> constructor <;> simp_all [JobWrite.apply, ProgressValues.apply]
  | recovery values =>
    have hs : j.status = .processing := hw
    cases values <;> constructor <;> simp_all [JobWrite.apply, RecoveryValues.apply]
  | failDispatch now reason =>
    have hs : j.status = .pending := hw
    constructor <;> simp_all [JobWrite.apply, ImportJob.failDispatch]

end ImportJob.Consistent

theorem JobHistory.consistent {settings : Settings} {j : ImportJob} (h : JobHistory settings j) :
    j.Consistent := by
  induction h with
  | created j hs ht hw hst hfin hf ha _ => constructor <;> simp [hs, ht, hw, hst, hfin, hf, ha]
  | write w _ hw ih => exact ih.write hw

/-- No write changes the attempts an import has. -/
theorem JobHistory.maxAttempts_eq {settings : Settings} {j : ImportJob}
    (h : JobHistory settings j) : j.maxAttempts = settings.importMaxAttempts.1 := by
  induction h with
  | created j _ _ _ _ _ _ _ hm => exact hm
  | write w _ _ ih =>
    cases w with
    | progress _ _ values => cases values <;> exact ih
    | recovery values => cases values <;> exact ih
    | claim | failDispatch => exact ih

/-! ## Slices -/

/-- What the database holds of one import. -/
structure Slice where
  job : Option (Version ImportJob)
  shipments : List (Version Shipment)
  importErrors : List (Version ImportErrorRow)

/-- The kinds of processes. -/
inductive Role
  | creator
  | publisher
  | worker
  | watchdog
  deriving DecidableEq

/-- Session `s` writes the row `r`. -/
def rewrite (s : Nat) (w : JobWrite) (r : Version ImportJob) : Version ImportJob :=
  ⟨r.id, s, w.apply r.val⟩

/-- The counters of a job count the rows of its import. -/
structure Counted (j : ImportJob) (shipments : List (Version Shipment))
    (errors : List (Version ImportErrorRow)) : Prop where
  success : j.successCount = shipments.length
  failed : j.failedCount = distinctRowNumbers (errors.map (·.val))
  total : j.totalRows = j.successCount + j.failedCount
  processed : j.processedRows = j.totalRows

/-- Every row of the workbook of job `r` that is not blank was persisted exactly once: the accepted
rows, in order, are the shipments, and the others are those with an error of their number. -/
def Persisted (env : Env) (r : Version ImportJob) (shipments : List (Version Shipment))
    (errors : List (Version ImportErrorRow)) : Prop :=
  ∃ worksheet rows accepted, env.workbook r.val.storedFilePath = .ok worksheet ∧
    XlsxParser.dataRows worksheet = .ok rows ∧ List.Sublist accepted rows ∧
    List.Forall₂ (fun (row : ParsedWorkbookRow) (v : Version Shipment) =>
      ∃ p, (prepareRow env.adapters row).parsedRow = some p ∧
        (p.toShipment r.id).store = .ok v.val) accepted shipments ∧
    (∀ row ∈ rows, row ∈ accepted ↔ ∀ e ∈ errors, e.val.rowNumber ≠ row.rowNumber) ∧
    ∀ e ∈ errors, ∃ row ∈ rows, row.rowNumber = e.val.rowNumber

/-- All rows were written by session `s`. -/
def WrittenBy (s : Nat) (shipments : List (Version Shipment))
    (errors : List (Version ImportErrorRow)) : Prop :=
  (∀ v ∈ shipments, v.writer = s) ∧ ∀ e ∈ errors, e.writer = s

namespace Slice

/-- How a committed transaction of process `s`, which began at `now`, changes what the database
holds of one import. -/
inductive Step (env : Env) : Role → Nat → Time → Slice → Slice → Prop
  | stay {role : Role} {s : Nat} {now : Time} (x : Slice) : Step env role s now x x
  | create {s : Nat} {now : Time} {S E} (r : Version ImportJob)
      (history : JobHistory env.settings r.val) (pending : r.val.status = .pending)
      (attempts : r.val.attemptCount = 0) (counts : Counted r.val [] []) :
      Step env .creator s now ⟨none, S, E⟩ ⟨some r, S, E⟩
  | claim {s : Nat} {now : Time} {r S E} (worker : WorkerName)
      (admits : (JobWrite.claim now s worker).Admits r.val) :
      Step env .worker s now ⟨some r, S, E⟩ ⟨some (rewrite s (.claim now s worker) r), S, E⟩
  | reset {s : Nat} {now : Time} {r S E}
      (admits : (JobWrite.progress now s .resetForReprocessing).Admits r.val) :
      Step env .worker s now ⟨some r, S, E⟩
        ⟨some (rewrite s (.progress now s .resetForReprocessing) r), [], []⟩
  | chunk {s : Nat} {now : Time} {r S E} (S' : List (Version Shipment))
      (E' : List (Version ImportErrorRow)) (t n f : Nat)
      (admits : (JobWrite.progress now s (.recordChunkCounts t n f)).Admits r.val)
      (success : n = S'.length) (failed : f = distinctRowNumbers (E'.map (·.val)))
      (total : t = n + f)
      (fresh : ∀ e ∈ E, ∀ e' ∈ E', e.val.rowNumber ≠ e'.val.rowNumber) :
      Step env .worker s now ⟨some r, S, E⟩
        ⟨some (rewrite s (.progress now s .heartbeat)
          (rewrite s (.progress now s (.recordChunkCounts t n f)) r)), S ++ S', E ++ E'⟩
  | complete {s : Nat} {now : Time} {r S E} (t n f : Nat)
      (admits : (JobWrite.progress now s (.complete t n f)).Admits r.val)
      (success : n = S.length) (failed : f = distinctRowNumbers (E.map (·.val)))
      (total : t = n + f) (written : WrittenBy s S E) (persisted : Persisted env r S E) :
      Step env .worker s now ⟨some r, S, E⟩
        ⟨some (rewrite s (.progress now s (.complete t n f)) r), S, E⟩
  | fail {s : Nat} {now : Time} {r S E} (reason : String)
      (admits : (JobWrite.progress now s (.fail reason)).Admits r.val)
      (worded : reason ≠ dispatchExhaustedReason) :
      Step env .worker s now ⟨some r, S, E⟩
        ⟨some (rewrite s (.progress now s (.fail reason)) r), S, E⟩
  | requeue {s : Nat} {now : Time} {r S E} (reason : String)
      (admits : (JobWrite.progress now s (.requeueForRetry reason)).Admits r.val)
      (attempts : r.val.attemptCount < r.val.maxAttempts) :
      Step env .worker s now ⟨some r, S, E⟩
        ⟨some (rewrite s (.progress now s (.requeueForRetry reason)) r), S, E⟩
  | recoverFailed {s : Nat} {now : Time} {r S E} (last reason : String) (clock : Time)
      (admits : (JobWrite.recovery (.markFailed last reason clock)).Admits r.val)
      (attempts : r.val.maxAttempts ≤ r.val.attemptCount)
      (stale : Expired env.settings.processingStaleTimeoutSeconds.1 clock r.val.lastHeartbeatAt)
      (worded : reason ≠ dispatchExhaustedReason) :
      Step env .watchdog s now ⟨some r, S, E⟩
        ⟨some (rewrite s (.recovery (.markFailed last reason clock)) r), S, E⟩
  | recoverRequeued {s : Nat} {now : Time} {r S E} (last : String) (clock : Time)
      (admits : (JobWrite.recovery (.requeue last clock)).Admits r.val)
      (attempts : r.val.attemptCount < r.val.maxAttempts)
      (stale : Expired env.settings.processingStaleTimeoutSeconds.1 clock r.val.lastHeartbeatAt) :
      Step env .watchdog s now ⟨some r, S, E⟩
        ⟨some (rewrite s (.recovery (.requeue last clock)) r), S, E⟩
  | dispatchExhausted {s : Nat} {now : Time} {r S E} (reason : String)
      (admits : (JobWrite.failDispatch now reason).Admits r.val) :
      Step env .publisher s now ⟨some r, S, E⟩
        ⟨some (rewrite s (.failDispatch now reason) r), S, E⟩

variable {env : Env} {role : Role} {s : Nat} {now : Time} {x y : Slice}

/-- The status of the import. -/
def status (x : Slice) : Option ImportStatus := x.job.map (·.val.status)

/-- Whose token the import has. -/
def HasToken (x : Slice) (s : Token) : Prop := ∃ r, x.job = some r ∧ r.val.processingToken = some s

/-- Only process `s` itself gives its token to an import or acts on it while it has the token. -/
theorem Step.foreign (h : Step env role s now x y) {u : Nat} (hu : u ≠ s) (hy : y.HasToken u) :
    x = y := by
  obtain ⟨r', hr', ht⟩ := hy
  cases h with
  | stay => rfl
  | create r history pending =>
    cases hr'
    have := history.consistent.token
    rw [pending, ht] at this
    simp at this
  | claim => cases hr'; cases ht; exact absurd rfl hu
  | chunk S' E' t n f admits =>
    cases hr'
    have := admits.2
    exact absurd (Option.some.inj (ht.symm.trans this)) hu
  | reset admits =>
    cases hr'
    exact absurd (Option.some.inj (ht.symm.trans admits.2)) hu
  | complete | fail | requeue | recoverFailed | recoverRequeued | dispatchExhausted =>
    cases hr'; cases ht

/-- A worker changes an import only with its token, or by claiming it. -/
theorem Step.worker_token (h : Step env .worker s now x y) :
    x = y ∨ x.HasToken s ∨ ∃ r worker, x.job = some r ∧
      (JobWrite.claim now s worker).Admits r.val ∧
        y = ⟨some (rewrite s (.claim now s worker) r), x.shipments, x.importErrors⟩ := by
  cases h with
  | stay => exact .inl rfl
  | @claim _ _ r S E worker admits => exact .inr (.inr ⟨r, worker, rfl, admits, rfl⟩)
  | reset admits | fail reason admits | requeue reason admits =>
    exact .inr (.inl ⟨_, rfl, admits.2⟩)
  | chunk S' E' t n f admits | complete t n f admits =>
    exact .inr (.inl ⟨_, rfl, admits.2⟩)

/-- Only a publisher drops a PENDING import to FAILED. -/
theorem Step.pending_failed (h : Step env role s now x y) (hx : x.status = some .pending)
    (hy : y.status = some .failed) : role = .publisher := by
  cases h with
  | stay => rw [hx] at hy; cases hy
  | create => cases hx
  | claim | complete | requeue | recoverRequeued => cases hy
  | reset admits | fail reason admits => cases admits.1.symm.trans (Option.some.inj hx)
  | chunk S' E' t n f admits => cases admits.1.symm.trans (Option.some.inj hx)
  | recoverFailed last reason clock admits =>
    have : _ = ImportStatus.processing := admits
    cases this.symm.trans (Option.some.inj hx)
  | dispatchExhausted => rfl

/-- Terminal imports do not change. -/
theorem Step.terminal (h : Step env role s now x y)
    (ht : x.status = some .completed ∨ x.status = some .failed) : x = y := by
  cases h with
  | stay => rfl
  | create => simp [status] at ht
  | claim worker admits => simp [status, admits.1] at ht
  | reset admits => simp [status, admits.1] at ht
  | chunk S' E' t n f admits => simp [status, admits.1] at ht
  | complete t n f admits => simp [status, admits.1] at ht
  | fail reason admits => simp [status, admits.1] at ht
  | requeue reason admits => simp [status, admits.1] at ht
  | recoverFailed last reason clock admits =>
    have : _ = ImportStatus.processing := admits
    simp [status, this] at ht
  | recoverRequeued last clock admits =>
    have : _ = ImportStatus.processing := admits
    simp [status, this] at ht
  | dispatchExhausted reason admits =>
    have : _ = ImportStatus.pending := admits
    simp [status, this] at ht

/-! ## The invariant -/

/-- What holds of every import at all times. -/
structure Ok (env : Env) (x : Slice) : Prop where
  none : x.job = none → x.shipments = [] ∧ x.importErrors = []
  history : ∀ r, x.job = some r → JobHistory env.settings r.val
  attempts : ∀ r, x.job = some r → r.val.attemptCount ≤ r.val.maxAttempts
  claimable : ∀ r, x.job = some r → r.val.status = .pending → r.val.attemptCount < r.val.maxAttempts
  counted : ∀ r, x.job = some r → Counted r.val x.shipments x.importErrors
  completed : ∀ r, x.job = some r → r.val.status = .completed →
    WrittenBy r.writer x.shipments x.importErrors ∧ Persisted env r x.shipments x.importErrors

/-- A write that leaves the counters and the rows alone, and does not complete the import. -/
theorem Ok.job {r : Version ImportJob} {S E} (h : Ok env ⟨some r, S, E⟩) {w : JobWrite}
    (hw : w.Admits r.val) (hc : Counted (w.apply r.val) S E)
    (ha : (w.apply r.val).attemptCount ≤ (w.apply r.val).maxAttempts)
    (hp : (w.apply r.val).status = .pending →
      (w.apply r.val).attemptCount < (w.apply r.val).maxAttempts)
    (hs : (w.apply r.val).status ≠ .completed) : Ok env ⟨some (rewrite s w r), S, E⟩ where
  none h := by cases h
  history r' hr' := by cases hr'; exact .write w (h.history r rfl) hw
  attempts r' hr' := by cases hr'; exact ha
  claimable r' hr' := by cases hr'; exact hp
  counted r' hr' := by cases hr'; exact hc
  completed r' hr' hst := by cases hr'; exact absurd hst hs

theorem Persisted.rewrite {r : Version ImportJob} {w : JobWrite} {S E}
    (h : Persisted env r S E) (hw : (w.apply r.val).storedFilePath = r.val.storedFilePath) :
    Persisted env (rewrite s w r) S E := by
  obtain ⟨worksheet, rows, accepted, h1, h2⟩ := h
  exact ⟨worksheet, rows, accepted, (congrArg env.workbook hw).trans h1, h2⟩

/-- The steps keep the invariant. -/
theorem Step.ok (h : Step env role s now x y) (hx : Ok env x) : Ok env y := by
  cases h with
  | stay => exact hx
  | create r history pending attempts counts =>
    obtain ⟨rfl, rfl⟩ := hx.none rfl
    have hmax := history.maxAttempts_eq
    have hpos := env.settings.importMaxAttempts.2
    exact
      { none := fun h => by cases h
        history := fun r' hr' => by cases hr'; exact history
        attempts := fun r' hr' => by cases hr'; omega
        claimable := fun r' hr' _ => by cases hr'; omega
        counted := fun r' hr' => by cases hr'; exact counts
        completed := fun r' hr' hs => by cases hr'; rw [pending] at hs; cases hs }
  | claim worker admits =>
    have hc := hx.counted _ rfl
    refine hx.job admits ⟨hc.success, hc.failed, hc.total, hc.processed⟩ ?_ (by
      intro h; cases h) (by intro h; cases h)
    exact admits.2
  | @reset _ _ r S E admits =>
    have ha : r.val.attemptCount ≤ r.val.maxAttempts := hx.attempts r rfl
    have hst : (rewrite s (.progress now s .resetForReprocessing) r).val.status = .processing :=
      admits.1
    exact
      { none := fun h => by cases h
        history := fun r' hr' => by cases hr'; exact .write _ (hx.history _ rfl) admits
        attempts := fun r' hr' => by cases hr'; exact ha
        claimable := fun r' hr' hs => by cases hr'; rw [hst] at hs; cases hs
        counted := fun r' hr' => by cases hr'; exact ⟨rfl, rfl, rfl, rfl⟩
        completed := fun r' hr' hs => by cases hr'; rw [hst] at hs; cases hs }
  | @chunk _ _ r S E S' E' t n f admits success failed total fresh =>
    have hc := hx.counted _ rfl
    have ha : r.val.attemptCount ≤ r.val.maxAttempts := hx.attempts r rfl
    have hst : (rewrite s (.progress now s .heartbeat)
        (rewrite s (.progress now s (.recordChunkCounts t n f)) r)).val.status = .processing :=
      admits.1
    exact
      { none := fun h => by cases h
        history := fun r' hr' => by
          cases hr'
          exact .write (.progress now s .heartbeat) (.write _ (hx.history _ rfl) admits) admits
        attempts := fun r' hr' => by cases hr'; exact ha
        claimable := fun r' hr' hs => by cases hr'; rw [hst] at hs; cases hs
        counted := fun r' hr' => by
          cases hr'
          have hs : r.val.successCount + n = (S ++ S').length := by
            rw [List.length_append, hc.success, success]
          have hf : r.val.failedCount + f = distinctRowNumbers ((E ++ E').map (·.val)) := by
            rw [List.map_append, distinctRowNumbers_append, ← hc.failed, failed]
            intro a ha b hb
            obtain ⟨e, he, rfl⟩ := List.mem_map.1 ha
            obtain ⟨e', he', rfl⟩ := List.mem_map.1 hb
            exact fresh e he e' he'
          refine ⟨hs, hf, ?_, ?_⟩
          · show r.val.totalRows + t = r.val.successCount + n + (r.val.failedCount + f)
            have := hc.total
            omega
          · show r.val.processedRows + t = r.val.totalRows + t
            rw [hc.processed]
        completed := fun r' hr' hs => by cases hr'; rw [hst] at hs; cases hs }
  | @complete _ _ r S E t n f admits success failed total written persisted =>
    have ha : r.val.attemptCount ≤ r.val.maxAttempts := hx.attempts r rfl
    exact
      { none := fun h => by cases h
        history := fun r' hr' => by cases hr'; exact .write _ (hx.history _ rfl) admits
        attempts := fun r' hr' => by cases hr'; exact ha
        claimable := fun r' hr' hs => by cases hr'; cases hs
        counted := fun r' hr' => by cases hr'; exact ⟨success, failed, total, rfl⟩
        completed := fun r' hr' _ => by
          cases hr'
          exact ⟨written, Persisted.rewrite persisted rfl⟩ }
  | fail reason admits =>
    have hc := hx.counted _ rfl
    exact hx.job admits ⟨hc.success, hc.failed, hc.total, hc.processed⟩ (hx.attempts _ rfl)
      (by intro h; cases h) (by intro h; cases h)
  | requeue reason admits attempts =>
    have hc := hx.counted _ rfl
    exact hx.job admits ⟨hc.success, hc.failed, hc.total, hc.processed⟩ (hx.attempts _ rfl)
      (fun _ => attempts) (by intro h; cases h)
  | recoverFailed last reason clock admits attempts =>
    have hc := hx.counted _ rfl
    exact hx.job admits ⟨hc.success, hc.failed, hc.total, hc.processed⟩ (hx.attempts _ rfl)
      (by intro h; cases h) (by intro h; cases h)
  | recoverRequeued last clock admits attempts =>
    have hc := hx.counted _ rfl
    exact hx.job admits ⟨hc.success, hc.failed, hc.total, hc.processed⟩ (hx.attempts _ rfl)
      (fun _ => attempts) (by intro h; cases h)
  | dispatchExhausted reason admits =>
    have hc := hx.counted _ rfl
    exact hx.job admits ⟨hc.success, hc.failed, hc.total, hc.processed⟩ (hx.attempts _ rfl)
      (by intro h; cases h) (by intro h; cases h)

end Slice

end ShipmentImport
