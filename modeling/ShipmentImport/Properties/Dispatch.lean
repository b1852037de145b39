import ShipmentImport.Properties.Imports

/-!
# The dispatch of imports along runs

That a PENDING import is still to be dispatched or processed, and that an import whose dispatch was
exhausted was never claimed, hold in the runs that avoid certain steps. The code can take these
steps: for both properties there is a run that takes one and breaks it.
-/

namespace ShipmentImport

section
variable {env : Env} {c c' : State}

/-! ## Live dispatches -/

/-- Something will still dispatch or process import `i`: an outbox row that is PENDING or
PROCESSING, a message that waits, or a message that is being executed. -/
def LiveDispatch (c : State) (i : ImportId) : Prop :=
  (∃ o ∈ c.world.db.importDispatchOutbox.rows, o.val.importId = i ∧
    (o.val.status = .pending ∨ o.val.status = .processing)) ∨
  (∃ m ∈ c.world.queue, m.importId = i) ∨
  ∃ p t x, c.proc p = some (t, x) ∧ t.subject = some i

/-- The step is one after which a PENDING import can be left without a dispatch. -/
def StrandsImport (c : State) : Event → Prop
  | .step p ch => ∃ t s k, c.proc p = some (t, .stmt s k) ∧ Strands p t c.world s ch
  | _ => False

/-- The step gives up an import that is PENDING again after a worker had claimed it. -/
def GivesUpClaimed (c : State) : Event → Prop
  | .step p ch => ∃ t s k, c.proc p = some (t, .stmt s k) ∧ FailsClaimed c.world s ch
  | _ => False

/-- The runs none of whose steps strands an import. -/
def Setting.dispatching (env : Env) : Setting := ⟨env, True, False, none⟩

theorem Setting.admits_dispatching {a : Event} (h : ¬ StrandsImport c a) :
    (Setting.dispatching env).Admits c a := by
  cases a with
  | step p ch => exact fun t s k r w' hp he => ⟨fun _ hs => h ⟨t, s, k, hp, hs⟩, fun h => h.elim,
      fun _ h => nomatch h⟩
  | _ => trivial

/-- A process that is responsible for an import executes a message of it. -/
theorem responsible_alive {C : Setting} {g : Ghost} (h : C.outline.Holds c g) (ht : C.track)
    {p : Nat} {i : ImportId} (hr : g.responsible p = some i) :
    ∃ t x, c.proc p = some (t, x) ∧ t.subject = some i := by
  by_cases hp : c.procs.length ≤ p
  · have hnone : g.responsible p = none := (h.fresh p hp).responsible
    rw [hnone] at hr
    cases hr
  · cases hx : c.proc p with
    | none =>
      have hnone : g.responsible p = none := (h.gone p (Nat.lt_of_not_le hp) hx).2 ht
      rw [hnone] at hr
      cases hr
    | some x => exact ⟨x.1, x.2, rfl, (h.live p x.1 x.2 hx).1 i hr⟩

/-- In the runs none of whose steps strands an import, every PENDING import has a live dispatch. -/
theorem pending_imports_live
    (h : (service env).Run (fun c a => ¬ StrandsImport c a) State.initial c) :
    ∀ r ∈ c.world.db.importJobs.rows, r.val.status = .pending → LiveDispatch c r.id := by
  intro r hr hp
  obtain ⟨g, hg⟩ := Outline.sound _ ((Setting.dispatching env).holds_initial rfl)
    (Machine.Run.mono (fun c a h => Setting.admits_dispatching h) h)
  rcases (hg.inv.dispatched trivial).carried r hr hp with ⟨m, hm, hi⟩ | ⟨p, hresp⟩ | ⟨o, ho, hi, hs⟩
  · exact .inr (.inl ⟨m, hm, hi⟩)
  · exact .inr (.inr ⟨p, responsible_alive hg trivial hresp⟩)
  · exact .inl ⟨o, ho, hi, hs.imp_right fun h => h.1⟩

/-- A step of an example that avoids the steps in question: no claim and no retry, no failure but of
a dispatch, and no import given up that was claimed. -/
def calmStep (c : State) : Event → Bool
  | .step p ch =>
    match c.proc p with
    | some (_, .stmt s _) =>
      match s, ch with
      | .query (.lockPendingImport _), _ | .selfRetry .., _ => false
      | .query (.failPendingImport ..), .run =>
        c.world.db.importJobs.rows.all fun r => r.val.attemptCount == 0
      | _, .run | .dispatchImport _, _ => true
      | _, _ => false
    | _ => true
  | _ => true

theorem calmStep_strands {a : Event} (h : calmStep c a = true) : ¬ StrandsImport c a := by
  cases a with
  | step p ch =>
    rintro ⟨t, s, k, hp, hs⟩
    simp only [calmStep, hp] at h
    unfold Strands at hs
    split at hs <;> simp_all
  | _ => exact id

theorem calmStep_givesUp {a : Event} (h : calmStep c a = true) : ¬ GivesUpClaimed c a := by
  cases a with
  | step p ch =>
    rintro ⟨t, s, k, hp, hs⟩
    simp only [calmStep, hp] at h
    unfold FailsClaimed at hs
    split at hs
    · obtain ⟨r, hr, -, -, ha⟩ := hs
      exact ha (by simpa using List.all_eq_true.1 h r hr)
    · exact hs
  | _ => exact id

set_option maxRecDepth 100000 in
/-- A PENDING import whose message waits. -/
theorem dispatchedRun_live : ∃ c, Reachable oneRowEnv c ∧
    (c.world.db.importJobs.rows.map fun r => (r.id, r.val.status)) = [(0, .pending)] ∧
    ∀ r ∈ c.world.db.importJobs.rows, r.val.status = .pending → LiveDispatch c r.id := by
  have h : ((service oneRowEnv).checkedTrace calmStep State.initial dispatchedRun).any (fun c =>
      decide ((c.world.db.importJobs.rows.map fun r => (r.id, r.val.status)) = [(0, .pending)])) =
        true := by
    decide +kernel
  obtain ⟨c, hc, hr⟩ := (Option.any_eq_true _ _).1 h
  have hrun := Machine.run_of_checkedTrace _ hc
  exact ⟨c, hrun.mono fun _ _ _ => trivial, of_decide_eq_true hr,
    pending_imports_live (hrun.mono fun _ _ h => calmStep_strands h)⟩

/-- The claim of worker 2 fails at its commit; what follows finds no claim to give back. -/
def strandedRun : List Event :=
  dispatchedRun ++ .spawn (.processImport ⟨0, 0⟩ none) :: statements 2 2 ++
    .step 2 (.fail .operationalError) :: statements 2 4 ++ [.finish 2]

set_option maxRecDepth 100000 in
/-- The import is PENDING, its only event was published, and its message is acknowledged. -/
theorem stranded_import : ∃ c, (service oneRowEnv).trace State.initial strandedRun = some c ∧
    ∃ r ∈ c.world.db.importJobs.rows, r.val.status = .pending ∧ ¬ LiveDispatch c r.id := by
  have h : ∃ c, (service oneRowEnv).trace State.initial strandedRun = some c ∧
      (∃ r ∈ c.world.db.importJobs.rows, r.val.status = .pending) ∧
      (∀ o ∈ c.world.db.importDispatchOutbox.rows, o.val.status = .published) ∧
      c.world.queue = [] ∧ ∀ x ∈ c.procs, x.isNone = true :=
    exists_trace (by decide +kernel)
  obtain ⟨c, hc, ⟨r, hr, hp⟩, ho, hq, hx⟩ := h
  refine ⟨c, hc, r, hr, hp, ?_⟩
  rintro (⟨o, hm, -, hs⟩ | ⟨m, hm, -⟩ | ⟨p, t, x, hproc, -⟩)
  · rw [ho o hm] at hs
    simp at hs
  · rw [hq] at hm
    cases hm
  · simp only [Config.proc, Option.join_eq_some_iff] at hproc
    exact absurd (hx _ (List.mem_of_getElem? hproc)) (by simp)

/-! ## Exhausted dispatches -/

/-- The runs none of whose steps gives up an import that was claimed. -/
def Setting.startingOnce (env : Env) : Setting := ⟨env, False, True, none⟩

theorem Setting.admits_startingOnce {a : Event} (h : ¬ GivesUpClaimed c a) :
    (Setting.startingOnce env).Admits c a := by
  cases a with
  | step p ch => exact fun t s k r w' hp he => ⟨fun h => h.elim, fun _ hs => h ⟨t, s, k, hp, hs⟩,
      fun _ h => nomatch h⟩
  | _ => trivial

/-- The import failed because its dispatch was exhausted, and no worker ever claimed it. -/
def Slice.NeverStarted (x : Slice) : Prop :=
  ∀ r, x.job = some r → r.val.status = .failed →
    r.val.failureReason = some dispatchExhaustedReason → r.val.attemptCount = 0

theorem Slice.Step.neverStarted {role : Role} {s : Nat} {now : Time} {x y : Slice}
    (h : Slice.Step env role s now x y) (hg : Setting.GivesUp x y) (hx : x.NeverStarted) :
    y.NeverStarted := by
  intro r' hr' hs hf
  cases h with
  | stay => exact hx r' hr' hs hf
  | create r history pending => cases hr'; cases pending.symm.trans hs
  | claim | complete | requeue | recoverRequeued => cases hr'; cases hs
  | reset admits => cases hr'; cases admits.1.symm.trans hs
  | chunk S' E' t n f admits => cases hr'; cases admits.1.symm.trans hs
  | fail reason admits worded | recoverFailed last reason clock admits attempts stale worded =>
    cases hr'
    exact absurd (Option.some.inj hf) worded
  | @dispatchExhausted _ _ r S E reason admits =>
    cases hr'
    exact hg r rfl admits rfl

/-- In the runs none of whose steps gives up an import that was claimed, an import with the reason
of an exhausted dispatch was never claimed. -/
theorem exhausted_imports_unclaimed
    (h : (service env).Run (fun c a => ¬ GivesUpClaimed c a) State.initial c) :
    ∀ r ∈ c.world.db.importJobs.rows, r.val.status = .failed →
      r.val.failureReason = some dispatchExhaustedReason → r.val.attemptCount = 0 := by
  have hrun : (service env).Run (Setting.startingOnce env).Admits State.initial c :=
    h.mono fun c a h => Setting.admits_startingOnce h
  obtain ⟨τ, hτ⟩ := hrun.trail
  obtain ⟨g, hg, hI⟩ := Outline.induct (Setting.startingOnce env).outline
    (I := fun _ c _ => ∀ i, (c.world.db.slice i).NeverStarted)
    ((Setting.startingOnce env).holds_initial rfl) (fun i r hr => nomatch hr)
    (fun τ d g a d' g' hd _ _ hn hm hI i => by
      rcases moves_cases (C := Setting.startingOnce env) rfl hn hm with
        ⟨-, hs⟩ | ⟨p, ch, t, s, k, r, -, -, -, -, hguar⟩
      · rw [hs.slice i]
        exact hI i
      · exact (hguar.steps i).neverStarted (hguar.unclaimed trivial i) (hI i))
    hτ
  intro r hr
  exact hI r.id r ((Database.job_eq_some hg.inv.wf).2 ⟨hr, rfl⟩)

/-- One attempt to dispatch. -/
def oneAttemptEnv : Env :=
  { oneRowEnv with settings := { Settings.default with outboxMaxAttempts := ⟨1, Nat.one_pos⟩ } }

/-- The dispatch of a new import fails. -/
def exhaustedRun : List Event :=
  .spawn (.createImport (exampleRequest fingerprintA)) :: statements 0 7 ++ .finish 0 ::
    .spawn .publishDueEvents :: statements 1 5 ++
      .step 1 (.fail .osError) :: statements 1 5 ++ [.finish 1]

set_option maxRecDepth 100000 in
/-- An import that was never started. -/
theorem exhaustedRun_unclaimed : ∃ c, Reachable oneAttemptEnv c ∧
    (c.world.db.importJobs.rows.map fun r => (r.val.status, r.val.failureReason)) =
      [(.failed, some dispatchExhaustedReason)] ∧
    ∀ r ∈ c.world.db.importJobs.rows, r.val.status = .failed →
      r.val.failureReason = some dispatchExhaustedReason → r.val.attemptCount = 0 := by
  have h : ((service oneAttemptEnv).checkedTrace calmStep State.initial exhaustedRun).any (fun c =>
      decide ((c.world.db.importJobs.rows.map fun r => (r.val.status, r.val.failureReason)) =
        [(.failed, some dispatchExhaustedReason)])) = true := by
    decide +kernel
  obtain ⟨c, hc, hr⟩ := (Option.any_eq_true _ _).1 h
  have hrun := Machine.run_of_checkedTrace _ hc
  exact ⟨c, hrun.mono fun _ _ _ => trivial, of_decide_eq_true hr,
    exhausted_imports_unclaimed (hrun.mono fun _ _ h => calmStep_givesUp h)⟩

/-- A worker that claimed its import is killed, the watchdog requeues the import, and the dispatch
of the new event fails. -/
def givenUpRun : List Event :=
  dispatchedRun ++ .spawn (.processImport ⟨0, 0⟩ none) :: statements 2 3 ++
    .crash 2 :: wait 1000 :: .spawn (.recoverStaleImports .schedule) :: statements 3 6 ++
    .finish 3 :: .spawn .publishDueEvents :: statements 4 5 ++
      .step 4 (.fail .osError) :: statements 4 5 ++ [.finish 4]

set_option maxRecDepth 100000 in
/-- The import is said to have never started, and was claimed once. -/
theorem claimed_import_given_up : ∃ c,
    (service oneAttemptEnv).trace State.initial givenUpRun = some c ∧
    (c.world.db.importJobs.rows.map fun r => (r.val.status, r.val.failureReason, r.val.attemptCount)) =
      [(.failed, some dispatchExhaustedReason, 1)] :=
  exists_trace (by decide +kernel)

end

end ShipmentImport
