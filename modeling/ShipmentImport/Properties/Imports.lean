import ShipmentImport.Runs

/-!
# Imports along runs

What holds of every import in every reachable state: its counters, its columns, who may change it,
how often it is claimed, and that it stays as it is once it ended. Each is read off the steps of
one import (`Slice.Step`) and its invariant (`Slice.Ok`).
-/

namespace ShipmentImport

section
variable {env : Env} {c c' : State}

/-! ## Counters -/

/-- The counters of every import count its shipments and the rows with errors. -/
theorem counters_count_rows (h : Reachable env c) :
    ∀ r ∈ c.world.db.importJobs.rows,
      r.val.successCount = (c.world.db.shipments.rows.filter (·.val.importId == r.id)).length ∧
      r.val.failedCount = distinctRowNumbers
        ((c.world.db.importErrors.rows.filter (·.val.importId == r.id)).map (·.val)) ∧
      r.val.totalRows = r.val.processedRows ∧
      r.val.processedRows = r.val.successCount + r.val.failedCount := by
  intro r hr
  obtain ⟨hs, hf, ht, hp⟩ := (h.slice_ok r.id).counted r (h.slice_job hr)
  exact ⟨hs, hf, hp.symm, hp.trans ht⟩

/-- A completed import with one shipment counts it. -/
theorem completedRun_counts : ∃ c,
    (service oneRowEnv).trace State.initial completedRun = some c ∧
    (c.world.db.importJobs.rows.map fun r => (r.id, r.val.status)) = [(0, .completed)] ∧
    ∀ r ∈ c.world.db.importJobs.rows,
      r.val.successCount = (c.world.db.shipments.rows.filter (·.val.importId == r.id)).length ∧
      r.val.failedCount = distinctRowNumbers
        ((c.world.db.importErrors.rows.filter (·.val.importId == r.id)).map (·.val)) ∧
      r.val.totalRows = r.val.processedRows ∧
      r.val.processedRows = r.val.successCount + r.val.failedCount := by
  obtain ⟨c, hc, hr⟩ := completedRun_ends
  exact ⟨c, hc, hr, counters_count_rows (Machine.run_of_trace _ hc)⟩

/-! ## Fencing -/

/-- A worker changes an import only while its token is the import's, or by claiming the import; and
a completed import holds what the process that completed it wrote: every data row of the workbook
once, as a shipment or as errors with its number. -/
theorem worker_writes_fenced (h : Reachable env c) :
    (∀ a c' p t, (service env).next c a = some c' → c.actor a = some (p, t) → t.role = .worker →
      ∀ i, c'.world.db.slice i = c.world.db.slice i ∨ (c.world.db.slice i).HasToken p ∨
        ∃ r now worker, (c.world.db.slice i).job = some r ∧
          (JobWrite.claim now p worker).Admits r.val ∧
          c'.world.db.slice i = ⟨some (rewrite p (.claim now p worker) r),
            (c.world.db.slice i).shipments, (c.world.db.slice i).importErrors⟩) ∧
    ∀ r ∈ c.world.db.importJobs.rows, r.val.status = .completed →
      (∀ v ∈ c.world.db.shipments.rows, v.val.importId = r.id → v.writer = r.writer) ∧
      (∀ e ∈ c.world.db.importErrors.rows, e.val.importId = r.id → e.writer = r.writer) ∧
      Persisted env r (c.world.db.shipments.rows.filter (·.val.importId == r.id))
        (c.world.db.importErrors.rows.filter (·.val.importId == r.id)) ∧
      ∀ worksheet rows, env.workbook r.val.storedFilePath = .ok worksheet →
        XlsxParser.dataRows worksheet = .ok rows → (rows.map (·.rowNumber)).Nodup := by
  constructor
  · intro a c' p t hn hact ht i
    rcases h.next_slice hn i with e | ⟨p', t', now, hact', hs⟩
    · exact .inl e
    · rw [hact] at hact'
      cases hact'
      rw [ht] at hs
      rcases hs.worker_token with e | e | ⟨r, worker, hj, ha, e⟩
      · exact .inl e.symm
      · exact .inr (.inl e)
      · exact .inr (.inr ⟨r, now, worker, hj, ha, e⟩)
  · intro r hr hc
    obtain ⟨⟨hs, he⟩, hp⟩ := (h.slice_ok r.id).completed r (h.slice_job hr) hc
    refine ⟨fun v hv hi => hs v ?_, fun e hm hi => he e ?_, hp, fun worksheet rows _ hd => ?_⟩
    · simpa [Database.slice] using ⟨hv, hi⟩
    · simpa [Database.slice] using ⟨hm, hi⟩
    · exact (XlsxParser.dataRows_rowNumbers hd).imp Nat.ne_of_lt

/-- The completed import of a run with one row. -/
theorem completedRun_fenced : ∃ c,
    (service oneRowEnv).trace State.initial completedRun = some c ∧
    (c.world.db.importJobs.rows.map fun r => (r.id, r.val.status)) = [(0, .completed)] ∧
    ∀ r ∈ c.world.db.importJobs.rows, r.val.status = .completed →
      Persisted oneRowEnv r (c.world.db.shipments.rows.filter (·.val.importId == r.id))
        (c.world.db.importErrors.rows.filter (·.val.importId == r.id)) := by
  obtain ⟨c, hc, hr⟩ := completedRun_ends
  exact ⟨c, hc, hr, fun r hm hs =>
    ((worker_writes_fenced (Machine.run_of_trace _ hc)).2 r hm hs).2.2.1⟩

/-! ## Columns -/

/-- What the columns of a job are like in every state its writers reach, and that none of them
violates `ck_import_jobs_failure_reason_terminal`; the jobs of reachable states are such. -/
theorem jobs_consistent (env : Env) :
    (∀ j, JobHistory env.settings j → j.Consistent ∧
      ∀ w : JobWrite, w.Admits j → (w.apply j).ckFailureReasonTerminal = true) ∧
    ∀ c, Reachable env c → ∀ r ∈ c.world.db.importJobs.rows, JobHistory env.settings r.val :=
  ⟨fun _ h => ⟨h.consistent, fun _ hw => (h.consistent.write hw).ck⟩,
    fun _ h r hr => (h.slice_ok r.id).history r (h.slice_job hr)⟩

/-- A claimed job is consistent, and the writes of its worker satisfy the constraint. -/
theorem claimed_job_consistent :
    let j := ((exampleRequest fingerprintA).importJob oneRowEnv.settings).claim .epoch 2
      ⟨"w", by decide⟩
    j.Consistent ∧
      (JobWrite.apply j (.progress .epoch 2 (.fail "x"))).ckFailureReasonTerminal = true :=
  have h := (jobs_consistent oneRowEnv).1 _ (.write (.claim .epoch 2 ⟨"w", by decide⟩)
    (.created ((exampleRequest fingerprintA).importJob oneRowEnv.settings) rfl rfl rfl rfl rfl rfl
      rfl rfl) ⟨rfl, by decide⟩)
  ⟨h.1, h.2 (.progress .epoch 2 (.fail "x")) ⟨rfl, rfl⟩⟩

/-! ## The end of an import -/

/-- What is committed of an import that is COMPLETED or FAILED never changes again. -/
theorem ended_import_frozen (h : Reachable env c)
    (hr : (service env).Run Machine.anyAction c c') (i : ImportId)
    (he : (c.world.db.slice i).status = some .completed ∨
      (c.world.db.slice i).status = some .failed) :
    c'.world.db.slice i = c.world.db.slice i := by
  induction hr with
  | refl => rfl
  | @tail d d' hrun hs ih =>
    obtain ⟨a, -, hn⟩ := hs
    rcases Reachable.next_slice (.trans h hrun) hn i with e | ⟨p, t, now, -, hstep⟩
    · exact e.trans ih
    · rw [← ih]
      exact (hstep.terminal (by rw [ih]; exact he)).symm

/-- A second delivery and a late watchdog leave a completed import alone. -/
theorem completedRun_frozen : ∃ c c',
    (service oneRowEnv).trace State.initial completedRun = some c ∧
    (service oneRowEnv).trace c lateEvents = some c' ∧
    (c'.world.db.slice 0).status = some .completed ∧ c'.world.db.slice 0 = c.world.db.slice 0 := by
  obtain ⟨c, c', hc, hl, he, hf⟩ := lateRun_ends
  exact ⟨c, c', hc, hl, hf,
    ended_import_frozen (Machine.run_of_trace _ hc) (Machine.run_of_trace _ hl) 0 (.inl he)⟩

/-! ## Attempts -/

/-- The attempts of an import, none before it exists. -/
def Slice.attempts (x : Slice) : Nat := x.job.elim 0 (·.val.attemptCount)

/-- The claim counts as an attempt, and no other step. -/
theorem Slice.Step.attempts_eq {role : Role} {s : Nat} {now : Time} {x y : Slice}
    (h : Slice.Step env role s now x y) : y.attempts = x.attempts +
      if x.status = some .pending ∧ y.status = some .processing then 1 else 0 := by
  cases h with
  | stay =>
    have hstay : ¬ (x.status = some .pending ∧ x.status = some .processing) := by
      rintro ⟨h, h'⟩
      cases h.symm.trans h'
    rw [if_neg hstay]
    rfl
  | create r history pending attempts => simpa [Slice.attempts, Slice.status] using attempts
  | claim worker admits =>
    rw [if_pos ⟨congrArg some admits.1, rfl⟩]
    rfl
  | reset admits => simp [Slice.attempts, Slice.status, rewrite, JobWrite.apply,
      ProgressValues.apply, admits.1]
  | chunk S' E' t n f admits => simp [Slice.attempts, Slice.status, rewrite, JobWrite.apply,
      ProgressValues.apply, admits.1]
  | complete | fail | requeue | recoverFailed | recoverRequeued | dispatchExhausted =>
    rw [if_neg (by rintro ⟨-, h⟩; cases h)]
    rfl

/-- An import that exists stays. -/
theorem Slice.Step.job_isSome {role : Role} {s : Nat} {now : Time} {x y : Slice}
    (h : Slice.Step env role s now x y) (hx : x.job ≠ none) : y.job ≠ none := by
  cases h <;> first | exact hx | exact Option.some_ne_none _

/-- How the number of outbox rows of an import changes: by the row it is created with, and one for
each requeue of a watchdog. -/
theorem Slice.Step.intents_eq {role : Role} {s : Nat} {now : Time} {x y : Slice}
    (h : Slice.Step env role s now x y) {n n' : Nat} (hi : Slice.Intends role x y → n' = n + 1)
    (hu : ¬ Slice.Intends role x y → n' = n) :
    n' + (if x.job = none then 0 else 1) = n + (if role = .watchdog ∧ x.status = some .processing ∧
      y.status = some .pending then 1 else 0) + if y.job = none then 0 else 1 := by
  by_cases hx : x.job = none
  · have hs : x.status ≠ some .processing := by simp [Slice.status, hx]
    rw [if_pos hx, if_neg fun h => hs h.2.1]
    by_cases hy : y.job = none
    · rw [if_pos hy, hu fun h => h.elim (fun h => h.2 hy) fun h => hs h.2.1]
    · rw [if_neg hy, hi (.inl ⟨hx, hy⟩)]
  · rw [if_neg hx, if_neg (h.job_isSome hx)]
    by_cases hr : role = .watchdog ∧ x.status = some .processing ∧ y.status = some .pending
    · rw [if_pos hr, hi (.inr hr)]
    · rw [if_neg hr, hu fun h => h.elim (fun h => hx h.1) hr]

/-- A step that commits a claim of import `i`. -/
def isClaim (i : ImportId) (x : State × Event × State) : Bool :=
  (x.1.world.db.slice i).status == some .pending &&
    (x.2.2.world.db.slice i).status == some .processing

/-- A step in which a watchdog requeues import `i`. -/
def isWatchdogRequeue (i : ImportId) (x : State × Event × State) : Bool :=
  (x.1.actor x.2.1).any (·.2.role == .watchdog) &&
    (x.1.world.db.slice i).status == some .processing &&
      (x.2.2.world.db.slice i).status == some .pending

/-- What the steps of a run add up to. -/
theorem Reachable.accounts {τ : List (State × Event × State)}
    (h : (service env).Trail Machine.anyAction State.initial τ c) (i : ImportId) :
    (c.world.db.slice i).attempts = τ.countP (isClaim i) ∧
      c.world.db.intents i = τ.countP (isWatchdogRequeue i) +
        if (c.world.db.slice i).job = none then 0 else 1 := by
  induction h with
  | nil => exact ⟨rfl, rfl⟩
  | @snoc τ d a d' hpre _ hn ih =>
    obtain ⟨ha, hi⟩ := ih
    rw [List.countP_append, List.countP_append, List.countP_singleton, List.countP_singleton]
    rcases Reachable.moves (Machine.Trail.run hpre) hn with
      ⟨hact, hs⟩ | ⟨p, ch, t, s, k, r, g, g', -, -, hact, -, hinv, hg⟩
    · have hno : isClaim i (d, a, d') = false := by
        simp only [isClaim, hs.slice i]
        cases (d.world.db.slice i).status with
        | none => rfl
        | some s => cases s <;> rfl
      have hno' : isWatchdogRequeue i (d, a, d') = false := by simp [isWatchdogRequeue, hact]
      rw [hno, hno', hs.slice i, ha]
      refine ⟨rfl, ?_⟩
      simpa [Database.intents, hs.outbox] using hi
    · have hstep := hg.steps i
      refine ⟨?_, ?_⟩
      · rw [hstep.attempts_eq, ha]
        simp [isClaim]
      · have he := hstep.intents_eq (hg.intended i) (hg.unintended i)
        have hr : (isWatchdogRequeue i (d, a, d') = true) = (t.role = .watchdog ∧
            (d.world.db.slice i).status = some .processing ∧
            (d'.world.db.slice i).status = some .pending) := by
          simp [isWatchdogRequeue, hact, and_assoc]
        rw [hi] at he
        dsimp only at he
        simp only [hr]
        omega

/-- The attempts of an import are its claims and stay within the maximum, a PENDING import has one
left, and its outbox rows are those of its creation and of the requeues of watchdogs. -/
theorem attempts_bounded {τ : List (State × Event × State)}
    (h : (service env).Trail Machine.anyAction State.initial τ c) :
    ∀ r ∈ c.world.db.importJobs.rows,
      r.val.attemptCount = τ.countP (isClaim r.id) ∧
      r.val.attemptCount ≤ r.val.maxAttempts ∧
      (r.val.status = .pending → r.val.attemptCount < r.val.maxAttempts) ∧
      (c.world.db.importDispatchOutbox.rows.filter (·.val.importId == r.id)).length =
        1 + τ.countP (isWatchdogRequeue r.id) ∧
      (c.world.db.importDispatchOutbox.rows.filter (·.val.importId == r.id)).length ≤
        r.val.maxAttempts := by
  intro r hr
  have hreach : Reachable env c := h.run
  have hj := hreach.slice_job hr
  obtain ⟨g, hg⟩ := hreach.inv
  obtain ⟨ha, hi⟩ := Reachable.accounts h r.id
  simp only [Slice.attempts, hj, Option.elim_some] at ha
  rw [hj, if_neg (Option.some_ne_none r), Nat.add_comm] at hi
  have hok := hreach.slice_ok r.id
  exact ⟨ha, hok.attempts r hj, hok.claimable r hj, hi, ((hg.intents r.id).bounds r hj).2⟩

/-- The attempts of the import of a run with one claim. -/
theorem completedRun_attempts : ∃ τ c,
    (service oneRowEnv).Trail Machine.anyAction State.initial τ c ∧
    (c.world.db.importJobs.rows.map fun r => (r.id, r.val.status)) = [(0, .completed)] ∧
    ∀ r ∈ c.world.db.importJobs.rows, r.val.attemptCount = τ.countP (isClaim r.id) := by
  obtain ⟨c, hc, hr⟩ := completedRun_ends
  obtain ⟨τ, ht⟩ := (Machine.run_of_trace _ hc).trail
  exact ⟨τ, c, ht, hr, fun r hm => (attempts_bounded ht r hm).1⟩

end

end ShipmentImport
