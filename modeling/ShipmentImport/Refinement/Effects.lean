import ShipmentImport.OutboxLifecycle

/-!
# What queries do to the database

The frame of a query: committed rows stay, the other sessions keep what is theirs, and the tables
stay well formed (`Database.exec_own`). Only a commit changes committed rows (`Database.own_commit`
says what it leaves alone). `Database.slice` reads one import out of the committed rows.
-/

namespace ShipmentImport

/-- The rows of import jobs a query can lock. -/
def Query.jobsLocked (r : Version ImportJob) : Query → Prop
  | lockPendingImport i | claimPendingImport i _ _ => claimable i r = true
  | updateCurrentProcessingImport i token _ => owned i token r = true
  | lockStaleImports .. => r.val.status = .processing
  | saveImportJob i _ => r.id = i
  | failPendingImport i _ => r.id = i ∧ r.val.status = .pending
  | _ => False

namespace Database

structure Wf (d : Database) : Prop where
  jobs : d.importJobs.Wf d.issued
  outbox : d.importDispatchOutbox.Wf d.issued
  shipments : d.shipments.Wf d.issued
  errors : d.importErrors.Wf d.issued

/-- Session `u` keeps its changes and locks, and the rows it locked. -/
structure Keeps (u : Nat) (d d' : Database) : Prop where
  jobs : Table.Keeps u d.importJobs d'.importJobs
  outbox : Table.Keeps u d.importDispatchOutbox d'.importDispatchOutbox
  shipments : Table.Keeps u d.shipments d'.shipments
  errors : Table.Keeps u d.importErrors d'.importErrors
  advisory : ∀ k, d'.advisory k = some u ↔ d.advisory k = some u
  began : d'.began u = d.began u

/-- The committed rows are the same. -/
structure SameRows (d d' : Database) : Prop where
  jobs : d'.importJobs.rows = d.importJobs.rows
  outbox : d'.importDispatchOutbox.rows = d.importDispatchOutbox.rows
  shipments : d'.shipments.rows = d.shipments.rows
  errors : d'.importErrors.rows = d.importErrors.rows

/-- Session `s` has no open transaction. -/
structure Idle (d : Database) (s : Nat) : Prop where
  jobs : d.importJobs.Idle s
  outbox : d.importDispatchOutbox.Idle s
  shipments : d.shipments.Idle s
  errors : d.importErrors.Idle s
  advisory : ∀ k, d.advisory k ≠ some s

/-- The frame of what session `s` does inside a transaction. -/
structure Own (s : Nat) (d d' : Database) : Prop where
  rows : SameRows d d'
  keeps : ∀ u, u ≠ s → Keeps u d d'
  wf : d'.Wf
  issued : d.issued ≤ d'.issued

theorem wf_empty : empty.Wf :=
  ⟨Table.wf_empty 0, Table.wf_empty 0, Table.wf_empty 0, Table.wf_empty 0⟩

theorem idle_empty (s : Nat) : empty.Idle s := by
  constructor
  case advisory => intro k; simp [empty]
  all_goals
    constructor
    · rfl
    · rintro i ⟨m, hm⟩
      cases hm
    · intro i hi
      cases hi
    · intro k hk
      cases hk

theorem SameRows.refl (d : Database) : SameRows d d := ⟨rfl, rfl, rfl, rfl⟩

theorem Keeps.refl (u : Nat) (d : Database) : Keeps u d d :=
  ⟨.refl u _, .refl u _, .refl u _, .refl u _, fun _ => .rfl, rfl⟩

theorem Keeps.trans {u : Nat} {d d' d'' : Database} (h : Keeps u d d') (h' : Keeps u d' d'') :
    Keeps u d d'' :=
  ⟨h.jobs.trans h'.jobs, h.outbox.trans h'.outbox, h.shipments.trans h'.shipments,
    h.errors.trans h'.errors, fun k => (h'.advisory k).trans (h.advisory k),
    h'.began.trans h.began⟩

theorem Keeps.idle {u : Nat} {d d' : Database} (h : Keeps u d d') (hi : d.Idle u) : d'.Idle u :=
  ⟨h.jobs.idle hi.jobs, h.outbox.idle hi.outbox, h.shipments.idle hi.shipments,
    h.errors.idle hi.errors, fun k hk => hi.advisory k ((h.advisory k).1 hk)⟩

theorem own_refl {s : Nat} {d : Database} (h : d.Wf) : Own s d d :=
  ⟨.refl d, fun u _ => .refl u d, h, Nat.le_refl _⟩

theorem Own.trans {s : Nat} {d d' d'' : Database} (h : Own s d d') (h' : Own s d' d'') :
    Own s d d'' :=
  ⟨⟨h'.rows.jobs.trans h.rows.jobs, h'.rows.outbox.trans h.rows.outbox,
      h'.rows.shipments.trans h.rows.shipments, h'.rows.errors.trans h.rows.errors⟩,
    fun u hu => (h.keeps u hu).trans (h'.keeps u hu), h'.wf, Nat.le_trans h.issued h'.issued⟩

section own
variable {s : Nat} {d d' : Database}

/-- A change of one table: of the import jobs. -/
theorem own_jobs (h : d.Wf) {T : Table ImportJob} {n : Nat} (hn : d.issued ≤ n)
    (ho : Table.Own d.issued n s d.importJobs T) :
    Own s d { d with importJobs := T, issued := n } :=
  ⟨⟨ho.rows, rfl, rfl, rfl⟩,
    fun u hu => ⟨ho.keeps u hu, .refl u _, .refl u _, .refl u _, fun _ => .rfl, rfl⟩,
    ⟨ho.wf, h.outbox.mono hn, h.shipments.mono hn, h.errors.mono hn⟩, hn⟩

theorem own_outbox (h : d.Wf) {T : Table ImportDispatchOutbox} {n : Nat} (hn : d.issued ≤ n)
    (ho : Table.Own d.issued n s d.importDispatchOutbox T) :
    Own s d { d with importDispatchOutbox := T, issued := n } :=
  ⟨⟨rfl, ho.rows, rfl, rfl⟩,
    fun u hu => ⟨.refl u _, ho.keeps u hu, .refl u _, .refl u _, fun _ => .rfl, rfl⟩,
    ⟨h.jobs.mono hn, ho.wf, h.shipments.mono hn, h.errors.mono hn⟩, hn⟩

theorem own_shipments (h : d.Wf) {T : Table Shipment} {n : Nat} (hn : d.issued ≤ n)
    (ho : Table.Own d.issued n s d.shipments T) :
    Own s d { d with shipments := T, issued := n } :=
  ⟨⟨rfl, rfl, ho.rows, rfl⟩,
    fun u hu => ⟨.refl u _, .refl u _, ho.keeps u hu, .refl u _, fun _ => .rfl, rfl⟩,
    ⟨h.jobs.mono hn, h.outbox.mono hn, ho.wf, h.errors.mono hn⟩, hn⟩

theorem own_errors (h : d.Wf) {T : Table ImportErrorRow} {n : Nat} (hn : d.issued ≤ n)
    (ho : Table.Own d.issued n s d.importErrors T) :
    Own s d { d with importErrors := T, issued := n } :=
  ⟨⟨rfl, rfl, rfl, ho.rows⟩,
    fun u hu => ⟨.refl u _, .refl u _, .refl u _, ho.keeps u hu, fun _ => .rfl, rfl⟩,
    ⟨h.jobs.mono hn, h.outbox.mono hn, h.shipments.mono hn, ho.wf⟩, hn⟩

/-- Drawing a uuid. -/
theorem own_issue (h : d.Wf) : Own s d { d with issued := d.issued + 1 } :=
  have hn := Nat.le_succ d.issued
  ⟨⟨rfl, rfl, rfl, rfl⟩,
    fun u _ => ⟨.refl u _, .refl u _, .refl u _, .refl u _, fun _ => .rfl, rfl⟩,
    ⟨h.jobs.mono hn, h.outbox.mono hn, h.shipments.mono hn, h.errors.mono hn⟩, hn⟩

/-- What `updateJobs` does when it does not wait. -/
theorem updateJobs_spec {p : Version ImportJob → Bool} {f : ImportJob → ImportJob}
    {r : Except Fault (List (Version ImportJob))} (hu : d.updateJobs s p f = some (r, d')) :
    (∃ new T, r = .ok new ∧ d.importJobs.updateWhere s p f = some (new, T) ∧
      d' = { d with importJobs := T } ∧ ∀ x ∈ new, x.val.ckFailureReasonTerminal = true) ∨
    (r = .error .integrityError ∧ d' = d ∧ ∃ new T, d.importJobs.updateWhere s p f = some (new, T) ∧
      ¬ ∀ x ∈ new, x.val.ckFailureReasonTerminal = true) := by
  simp only [updateJobs, Option.map_eq_some_iff] at hu
  obtain ⟨⟨new, T⟩, hT, hu⟩ := hu
  split at hu
  · next hck =>
    cases hu
    exact .inl ⟨new, T, rfl, hT, rfl, by simpa using hck⟩
  · next hck =>
    cases hu
    exact .inr ⟨rfl, rfl, new, T, hT, by simpa using hck⟩

theorem updateJobs_own (h : d.Wf) {p : Version ImportJob → Bool} {f : ImportJob → ImportJob}
    {r : Except Fault (List (Version ImportJob))} (hu : d.updateJobs s p f = some (r, d')) :
    Own s d d' := by
  rcases updateJobs_spec hu with ⟨new, T, -, hT, rfl, -⟩ | ⟨-, rfl, -⟩
  · exact own_jobs h (Nat.le_refl _) (Table.updateWhere_spec h.jobs hT).1
  · exact own_refl h

theorem updateOutbox_own (h : d.Wf) {p : Version ImportDispatchOutbox → Bool}
    {f : ImportDispatchOutbox → ImportDispatchOutbox}
    {r : Except Fault (List (Version ImportDispatchOutbox))}
    (hu : d.updateOutbox s p f = some (r, d')) : Own s d d' := by
  simp only [updateOutbox, Option.map_eq_some_iff] at hu
  obtain ⟨⟨new, T⟩, hT, hu⟩ := hu
  cases hu
  exact own_outbox h (Nat.le_refl _) (Table.updateWhere_spec h.outbox hT).1

theorem referenceJob_own (h : d.Wf) {i : ImportId} {r : Except Fault Unit}
    (hu : d.referenceJob s i = some (r, d')) : Own s d d' := by
  unfold referenceJob at hu
  split at hu
  · simp only [Option.map_eq_some_iff] at hu
    obtain ⟨T, hT, hu⟩ := hu
    cases hu
    exact own_jobs h (Nat.le_refl _) (Table.keyShare_spec h.jobs hT).1
  · cases hu
    exact own_refl h

theorem mapReply_eq {α β : Type} {f : α → β} {x : Option (Except Fault α × Database)}
    {r : Except Fault β} {d' : Database} (h : x.map (mapReply f) = some (r, d')) :
    ∃ r', x = some (r', d') ∧ r = r'.map f := by
  rw [Option.map_eq_some_iff] at h
  obtain ⟨⟨r', d''⟩, hx, he⟩ := h
  cases he
  exact ⟨r', hx, rfl⟩

/-- The insert of an import: the columns do not take it, or its key is taken, or it is staged. -/
theorem exec_insertImportJob {server : Server} {clock : Time} {j : ImportJob}
    {r : Except Fault ImportId} (h : d.exec server clock s (.insertImportJob j) = some (r, d')) :
    (∃ f, j.store = .error f ∧ r = .error f ∧ d' = d) ∨ ∃ stored, j.store = .ok stored ∧
      ((d.importJobs.insertUnique s d.issued (·.idempotencyKey)
          { stored with createdAt := d.now s clock } = some (.error ()) ∧
        r = .error .integrityError ∧ d' = d) ∨
      ∃ T, d.importJobs.insertUnique s d.issued (·.idempotencyKey)
          { stored with createdAt := d.now s clock } = some (.ok T) ∧
        r = .ok d.issued ∧ d' = { d with importJobs := T, issued := d.issued + 1 }) := by
  simp only [exec] at h
  cases hs : j.store with
  | error f =>
    rw [hs] at h
    cases h
    exact .inl ⟨f, rfl, rfl, rfl⟩
  | ok stored =>
    rw [hs] at h
    obtain ⟨o, hT, h⟩ := Option.map_eq_some_iff.1 h
    refine .inr ⟨stored, rfl, ?_⟩
    cases o with
    | error _ =>
      cases h
      exact .inl ⟨hT, rfl, rfl⟩
    | ok T =>
      cases h
      exact .inr ⟨T, hT, rfl, rfl⟩

/-- Queries stay within their session. -/
theorem exec_own {server : Server} {clock : Time} (h : d.Wf) :
    ∀ {q : Query} {r : Except Fault q.Reply}, d.exec server clock s q = some (r, d') →
      Own s d d'
  | .lockPendingImport i, r, hq => by
    cases hq
    exact own_jobs h (Nat.le_refl _) (Table.lockWhere_spec h.jobs fun _ _ hr => hr).1
  | .lockStaleImports b n, r, hq => by
    rcases limited_cases hq with ⟨rfl, rfl⟩ | ⟨rfl, rfl⟩
    · exact own_jobs h (Nat.le_refl _) (Table.lockWhere_spec h.jobs fun _ _ => Server.mem_oldest).1
    · exact own_refl h
  | .lockDueEvents .., r, hq | .lockStaleClaims .., r, hq => by
    rcases limited_cases hq with ⟨rfl, rfl⟩ | ⟨rfl, rfl⟩
    · exact own_outbox h (Nat.le_refl _)
        (Table.lockWhere_spec h.outbox fun _ _ => Server.mem_oldest).1
    · exact own_refl h
  | .claimPendingImport .., r, hq | .updateCurrentProcessingImport .., r, hq
  | .saveImportJob .., r, hq | .failPendingImport .., r, hq => by
    obtain ⟨r', hu, -⟩ := mapReply_eq hq
    exact updateJobs_own h hu
  | .updateClaimedEvent .., r, hq => by
    obtain ⟨r', hu, -⟩ := mapReply_eq hq
    exact updateOutbox_own h hu
  | .saveClaimedEvent .., r, hq => by
    obtain ⟨r', hu, -⟩ := mapReply_eq hq
    exact (own_issue h).trans (updateOutbox_own (own_issue (s := s) h).wf hu)
  | .hasCurrentOwnership .., r, hq | .findExistingShipmentCodes _, r, hq
  | .getSnapshotByIdempotencyKey _, r, hq | .getSnapshotByFingerprint _, r, hq
  | .refreshImportJob _, r, hq => by
    cases hq
    exact own_refl h
  | .deleteShipments _, r, hq => by
    simp only [exec, Option.map_eq_some_iff] at hq
    obtain ⟨⟨k, T⟩, hT, hq⟩ := hq
    cases hq
    exact own_shipments h (Nat.le_refl _) (Table.deleteWhere_spec h.shipments hT).1
  | .deleteImportErrors _, r, hq => by
    simp only [exec, Option.map_eq_some_iff] at hq
    obtain ⟨⟨k, T⟩, hT, hq⟩ := hq
    cases hq
    exact own_errors h (Nat.le_refl _) (Table.deleteWhere_spec h.errors hT).1
  | .insertShipment x, r, hq => by
    simp only [exec] at hq
    split at hq
    · cases hq
      exact own_refl h
    · simp only [Option.map_eq_some_iff] at hq
      obtain ⟨o, hT, hq⟩ := hq
      cases o with
      | error _ => cases hq; exact own_refl h
      | ok T =>
        cases hq
        exact own_shipments h (Nat.le_succ _) (Table.insertUnique_spec h.shipments hT).1
  | .insertImportError x, r, hq => by
    simp only [exec] at hq
    split at hq <;> cases hq
    · exact own_errors h (Nat.le_succ _) (Table.insert_spec h.errors _).1
    · exact own_refl h
  | .insertImportJob j, r, hq => by
    rcases exec_insertImportJob hq with ⟨-, -, -, rfl⟩ | ⟨stored, -, ⟨-, -, rfl⟩ | ⟨T, hT, -, rfl⟩⟩
    · exact own_refl h
    · exact own_refl h
    · exact own_jobs h (Nat.le_succ _) (Table.insertUnique_spec h.jobs hT).1
  | .insertDispatchIntent i a, r, hq => by
    have ho := own_outbox (s := s) h (Nat.le_succ _)
      (Table.insert_spec h.outbox (.new i a (d.now s clock))).1
    exact ho.trans (referenceJob_own ho.wf hq)
  | .checkImportExists _, r, hq => referenceJob_own h hq
  | .acquireFingerprintLock f, r, hq => by
    simp only [exec] at hq
    split at hq
    · next hfree =>
      cases hq
      refine ⟨⟨rfl, rfl, rfl, rfl⟩,
        fun u hu => ⟨.refl u _, .refl u _, .refl u _, .refl u _, fun k => ?_, rfl⟩,
        ⟨h.jobs, h.outbox, h.shipments, h.errors⟩, Nat.le_refl _⟩
      by_cases hk : k = server.hashtext f
      · subst hk
        simp only [Function.update_self, Option.some.injEq]
        refine ⟨fun e => absurd e.symm hu, fun e => ?_⟩
        rw [e] at hfree
        simp [hu] at hfree
      · simp [hk]
    · cases hq

/-! ### Locks -/

/-- The rows an update locks are rows it selects, or were locked before. -/
theorem updateWhere_locks {α : Type} {n : Nat} {T T' : Table α} (h : T.Wf n)
    {p : Version α → Bool} {f : α → α} {new : List (Version α)}
    (hu : T.updateWhere s p f = some (new, T')) {i : Nat} (hi : T'.Holds s i) :
    T.Holds s i ∨ ∃ r ∈ T.rows, r.id = i ∧ p r = true := by
  simp only [Table.updateWhere, Option.ite_none_right_eq_some, Option.some.injEq,
    Prod.mk.injEq] at hu
  obtain ⟨-, -, rfl⟩ := hu
  by_cases hm : i ∈ ((T.view s).filter p).map (·.id)
  · obtain ⟨r, hr, rfl⟩ := List.mem_map.1 hm
    obtain ⟨hv, hp⟩ := List.mem_filter.1 hr
    rcases Table.mem_view hv with hv | hv | hv
    · exact .inr ⟨r, hv, rfl, hp⟩
    · exact .inl (h.locked s _ hv)
    · exact .inl (h.locked s _ hv)
  · obtain ⟨m, hm'⟩ := hi
    simp only [Table.stage_lock, Table.grab, hm, if_false] at hm'
    exact .inl ⟨m, hm'⟩

/-- The rows `FOR UPDATE` locks are rows it selects, or were locked before. -/
theorem lockWhere_locks {α : Type} {n : Nat} {T : Table α} (h : T.Wf n) {p : Version α → Bool}
    {pick : List (Version α) → List (Version α)} (hpick : ∀ l, ∀ r ∈ pick l, r ∈ l) {i : Nat}
    (hi : (T.lockWhere s p pick).2.Holds s i) :
    T.Holds s i ∨ ∃ r ∈ T.rows, r.id = i ∧ p r = true := by
  obtain ⟨-, -, hhit, hold⟩ := Table.lockWhere_spec (s := s) h (p := p) hpick
  rcases hold i hi with hi | ⟨r, hr, rfl⟩
  · exact .inl hi
  · obtain ⟨hv, hp, -⟩ := hhit r hr
    rcases Table.mem_view hv with hv | hv | hv
    · exact .inr ⟨r, hv, rfl, hp⟩
    · exact .inl (h.locked s _ hv)
    · exact .inl (h.locked s _ hv)

theorem updateJobs_locks (h : d.Wf) {p : Version ImportJob → Bool} {f : ImportJob → ImportJob}
    {r : Except Fault (List (Version ImportJob))} (hu : d.updateJobs s p f = some (r, d')) {i : Nat}
    (hi : d'.importJobs.Holds s i) :
    d.importJobs.Holds s i ∨ ∃ r ∈ d.importJobs.rows, r.id = i ∧ p r = true := by
  rcases updateJobs_spec hu with ⟨new, T, -, hT, rfl, -⟩ | ⟨-, rfl, -⟩
  · exact updateWhere_locks h.jobs hT hi
  · exact .inl hi

theorem referenceJob_lock {i : ImportId} {r : Except Fault Unit} (h : d.Wf)
    (hu : d.referenceJob s i = some (r, d')) : d'.importJobs.lock = d.importJobs.lock ∧
      d'.importDispatchOutbox = d.importDispatchOutbox := by
  unfold referenceJob at hu
  split at hu
  · simp only [Option.map_eq_some_iff] at hu
    obtain ⟨T, hT, hu⟩ := hu
    cases hu
    exact ⟨(Table.keyShare_spec h.jobs hT).2.2, rfl⟩
  · cases hu
    exact ⟨rfl, rfl⟩

/-- A query locks only rows it selects. -/
theorem exec_locks {server : Server} {clock : Time} (h : d.Wf) {i : Nat} :
    ∀ {q : Query} {r : Except Fault q.Reply}, d.exec server clock s q = some (r, d') →
      d'.importJobs.Holds s i → d.importJobs.Holds s i ∨ i = d.issued ∨
        ∃ r ∈ d.importJobs.rows, r.id = i ∧ q.jobsLocked r
  | .lockPendingImport _, r, hq, hi => by
    cases hq
    exact (lockWhere_locks h.jobs (fun _ _ hr => hr) hi).imp_right .inr
  | .lockStaleImports b n, r, hq, hi => by
    rcases limited_cases hq with ⟨rfl, rfl⟩ | ⟨rfl, rfl⟩
    · refine (lockWhere_locks h.jobs (fun _ _ => Server.mem_oldest) hi).imp_right ?_
      rintro ⟨r, hr, e, hp⟩
      simp only [Bool.and_eq_true, beq_iff_eq] at hp
      exact .inr ⟨r, hr, e, hp.1⟩
    · exact .inl hi
  | .claimPendingImport .., r, hq, hi | .updateCurrentProcessingImport .., r, hq, hi => by
    obtain ⟨r', hu, -⟩ := mapReply_eq hq
    exact (updateJobs_locks h hu hi).imp_right .inr
  | .saveImportJob .., r, hq, hi => by
    obtain ⟨r', hu, -⟩ := mapReply_eq hq
    refine (updateJobs_locks h hu hi).imp_right ?_
    rintro ⟨r, hr, e, hp⟩
    exact .inr ⟨r, hr, e, by simpa [Query.jobsLocked] using hp⟩
  | .failPendingImport .., r, hq, hi => by
    obtain ⟨r', hu, -⟩ := mapReply_eq hq
    refine (updateJobs_locks h hu hi).imp_right ?_
    rintro ⟨r, hr, e, hp⟩
    exact .inr ⟨r, hr, e, by simpa [Query.jobsLocked] using hp⟩
  | .updateClaimedEvent .., r, hq, hi | .saveClaimedEvent .., r, hq, hi => by
    obtain ⟨r', hu, -⟩ := mapReply_eq hq
    simp only [updateOutbox, Option.map_eq_some_iff] at hu
    obtain ⟨x, -, hx⟩ := hu
    cases hx
    exact .inl hi
  | .lockDueEvents .., r, hq, hi | .lockStaleClaims .., r, hq, hi => by
    rcases limited_cases hq with ⟨rfl, rfl⟩ | ⟨rfl, rfl⟩ <;> exact .inl hi
  | .hasCurrentOwnership .., r, hq, hi | .findExistingShipmentCodes _, r, hq, hi
  | .getSnapshotByIdempotencyKey _, r, hq, hi | .getSnapshotByFingerprint _, r, hq, hi
  | .refreshImportJob _, r, hq, hi => by
    cases hq
    exact .inl hi
  | .insertImportError _, r, hq, hi => by
    simp only [exec] at hq
    split at hq <;> cases hq <;> exact .inl hi
  | .deleteShipments _, r, hq, hi | .deleteImportErrors _, r, hq, hi => by
    simp only [exec, Option.map_eq_some_iff] at hq
    obtain ⟨x, -, hq⟩ := hq
    cases hq
    exact .inl hi
  | .insertShipment x, r, hq, hi => by
    simp only [exec] at hq
    split at hq
    · cases hq
      exact .inl hi
    · simp only [Option.map_eq_some_iff] at hq
      obtain ⟨o, hT, hq⟩ := hq
      cases o <;> cases hq <;> exact .inl hi
  | .insertImportJob j, r, hq, hi => by
    rcases exec_insertImportJob hq with ⟨-, -, -, rfl⟩ | ⟨stored, -, ⟨-, -, rfl⟩ | ⟨T, hT, -, rfl⟩⟩
    · exact .inl hi
    · exact .inl hi
    · have hlock : T.lock = (d.importJobs.insert s d.issued
          { stored with createdAt := d.now s clock }).lock := by
        unfold Table.insertUnique at hT
        split at hT
        · cases hT; rfl
        · split at hT
          · cases hT
          · split at hT
            · split at hT <;> cases hT
            · cases hT; rfl
      obtain ⟨m, hm⟩ := hi
      simp only [hlock, Table.insert, Table.stage_lock, Table.grab, List.mem_singleton] at hm
      split at hm
      · next e => exact .inr (.inl e)
      · exact .inl ⟨m, hm⟩
  | .insertDispatchIntent .., r, hq, hi => by
    obtain ⟨m, hm⟩ := hi
    rw [(referenceJob_lock ((own_outbox (s := s) h (Nat.le_succ _)
      (Table.insert_spec h.outbox _).1).wf) hq).1] at hm
    exact .inl ⟨m, hm⟩
  | .checkImportExists _, r, hq, hi => by
    obtain ⟨m, hm⟩ := hi
    rw [(referenceJob_lock h hq).1] at hm
    exact .inl ⟨m, hm⟩
  | .acquireFingerprintLock f, r, hq, hi => by
    simp only [exec] at hq
    split at hq <;> cases hq
    exact .inl hi

/-- Locks on outbox rows are kept until the end of the transaction. -/
theorem exec_outbox_holds {server : Server} {clock : Time} (h : d.Wf) {i : Nat}
    (hi : d.importDispatchOutbox.Holds s i) :
    ∀ {q : Query} {r : Except Fault q.Reply}, d.exec server clock s q = some (r, d') →
      d'.importDispatchOutbox.Holds s i
  | .lockDueEvents .., r, hq | .lockStaleClaims .., r, hq => by
    rcases limited_cases hq with ⟨rfl, rfl⟩ | ⟨rfl, rfl⟩
    · exact Table.holds_grab (.inr hi)
    · exact hi
  | .lockStaleImports .., r, hq => by
    rcases limited_cases hq with ⟨rfl, rfl⟩ | ⟨rfl, rfl⟩ <;> exact hi
  | .updateClaimedEvent .., r, hq | .saveClaimedEvent .., r, hq => by
    obtain ⟨r', hu, -⟩ := mapReply_eq hq
    simp only [updateOutbox, Option.map_eq_some_iff] at hu
    obtain ⟨⟨new, T⟩, hT, hx⟩ := hu
    cases hx
    exact (Table.updateWhere_spec (h.outbox.mono (Nat.le_succ _)) hT).2.2.2.2.1 i hi
  | .insertDispatchIntent .., r, hq => by
    rw [(referenceJob_lock ((own_outbox (s := s) h (Nat.le_succ _)
      (Table.insert_spec h.outbox _).1).wf) hq).2]
    exact Table.holds_grab (.inr hi)
  | .checkImportExists _, r, hq => by rwa [(referenceJob_lock h hq).2]
  | .lockPendingImport _, r, hq | .hasCurrentOwnership .., r, hq
  | .findExistingShipmentCodes _, r, hq
  | .getSnapshotByIdempotencyKey _, r, hq | .getSnapshotByFingerprint _, r, hq
  | .refreshImportJob _, r, hq => by
    cases hq
    exact hi
  | .insertImportError _, r, hq => by
    simp only [exec] at hq
    split at hq <;> cases hq <;> exact hi
  | .claimPendingImport .., r, hq | .updateCurrentProcessingImport .., r, hq
  | .saveImportJob .., r, hq | .failPendingImport .., r, hq => by
    obtain ⟨r', hu, -⟩ := mapReply_eq hq
    rcases updateJobs_spec hu with ⟨new, T, -, hT, rfl, -⟩ | ⟨-, rfl, -⟩ <;> exact hi
  | .deleteShipments _, r, hq | .deleteImportErrors _, r, hq => by
    simp only [exec, Option.map_eq_some_iff] at hq
    obtain ⟨x, -, hq⟩ := hq
    cases hq
    exact hi
  | .insertShipment x, r, hq => by
    simp only [exec] at hq
    split at hq
    · cases hq
      exact hi
    · simp only [Option.map_eq_some_iff] at hq
      obtain ⟨o, hT, hq⟩ := hq
      cases o <;> cases hq <;> exact hi
  | .insertImportJob j, r, hq => by
    rcases exec_insertImportJob hq with ⟨-, -, -, rfl⟩ | ⟨-, -, ⟨-, -, rfl⟩ | ⟨-, -, -, rfl⟩⟩ <;> exact hi
  | .acquireFingerprintLock f, r, hq => by
    simp only [exec] at hq
    split at hq <;> cases hq
    exact hi

/-! ### Index entries -/

/-- Only an insert of a shipment makes an entry of the index on shipment codes. -/
theorem exec_entry {server : Server} {clock : Time} :
    ∀ {q : Query} {r : Except Fault q.Reply}, d.exec server clock s q = some (r, d') →
      ∀ k, d'.shipments.entry k = d.shipments.entry k ∨ d'.shipments.entry k = some s ∧
        ∃ x stored, q = .insertShipment x ∧ x.store = .ok stored ∧ stored.shipmentCode = k ∧
          ∃ a, r = .ok a
  | .lockStaleImports .., r, hq | .lockDueEvents .., r, hq | .lockStaleClaims .., r, hq => by
    rcases limited_cases hq with ⟨rfl, rfl⟩ | ⟨rfl, rfl⟩ <;> exact fun k => .inl rfl
  | .lockPendingImport _, r, hq | .hasCurrentOwnership .., r, hq
  | .findExistingShipmentCodes _, r, hq | .getSnapshotByIdempotencyKey _, r, hq
  | .getSnapshotByFingerprint _, r, hq | .refreshImportJob _, r, hq => by
    cases hq
    exact fun k => .inl rfl
  | .insertImportError _, r, hq => by
    simp only [exec] at hq
    split at hq <;> cases hq <;> exact fun k => .inl rfl
  | .claimPendingImport .., r, hq | .updateCurrentProcessingImport .., r, hq
  | .saveImportJob .., r, hq | .failPendingImport .., r, hq => by
    obtain ⟨r', hu, -⟩ := mapReply_eq hq
    rcases updateJobs_spec hu with ⟨new, T, -, hT, rfl, -⟩ | ⟨-, rfl, -⟩ <;> exact fun k => .inl rfl
  | .updateClaimedEvent .., r, hq | .saveClaimedEvent .., r, hq => by
    obtain ⟨r', hu, -⟩ := mapReply_eq hq
    simp only [updateOutbox, Option.map_eq_some_iff] at hu
    obtain ⟨x, -, hu⟩ := hu
    cases hu
    exact fun k => .inl rfl
  | .deleteShipments _, r, hq => by
    simp only [exec, Option.map_eq_some_iff, Table.deleteWhere] at hq
    obtain ⟨x, hx, hq⟩ := hq
    cases hq
    split at hx <;> cases hx
    exact fun k => .inl rfl
  | .deleteImportErrors _, r, hq => by
    simp only [exec, Option.map_eq_some_iff] at hq
    obtain ⟨x, -, hq⟩ := hq
    cases hq
    exact fun k => .inl rfl
  | .insertShipment x, r, hq => by
    simp only [exec] at hq
    split at hq
    · cases hq
      exact fun k => .inl rfl
    · next stored hs =>
      simp only [Option.map_eq_some_iff, Table.insertUnique] at hq
      obtain ⟨o, hT, hq⟩ := hq
      split at hT
      · cases hT
      · split at hT
        · split at hT <;> cases hT
          cases hq
          exact fun k => .inl rfl
        · cases hT
          cases hq
          intro k
          by_cases hk : k = stored.shipmentCode
          · subst hk
            exact .inr ⟨Function.update_self _ _ _, x, stored, rfl, hs, rfl, (), rfl⟩
          · exact .inl (Function.update_of_ne hk _ _)
  | .insertImportJob j, r, hq => by
    rcases exec_insertImportJob hq with ⟨-, -, -, rfl⟩ | ⟨-, -, ⟨-, -, rfl⟩ | ⟨-, -, -, rfl⟩⟩ <;>
      exact fun k => .inl rfl
  | .insertDispatchIntent i a, r, hq | .checkImportExists _, r, hq => by
    simp only [exec, referenceJob] at hq
    split at hq
    · simp only [Option.map_eq_some_iff] at hq
      obtain ⟨T, -, hq⟩ := hq
      cases hq
      exact fun k => .inl rfl
    · cases hq
      exact fun k => .inl rfl
  | .acquireFingerprintLock f, r, hq => by
    simp only [exec] at hq
    split at hq <;> cases hq
    exact fun k => .inl rfl

/-! ### When transactions began -/

/-- Only the begin and the end of a transaction say when it began. -/
theorem exec_began {server : Server} {clock : Time} :
    ∀ {q : Query} {r : Except Fault q.Reply}, d.exec server clock s q = some (r, d') →
      d'.began = d.began
  | .lockStaleImports .., r, hq | .lockDueEvents .., r, hq | .lockStaleClaims .., r, hq => by
    rcases limited_cases hq with ⟨rfl, rfl⟩ | ⟨rfl, rfl⟩ <;> rfl
  | .lockPendingImport _, r, hq | .hasCurrentOwnership .., r, hq
  | .findExistingShipmentCodes _, r, hq | .getSnapshotByIdempotencyKey _, r, hq
  | .getSnapshotByFingerprint _, r, hq | .refreshImportJob _, r, hq => by
    cases hq
    rfl
  | .insertImportError _, r, hq => by
    simp only [exec] at hq
    split at hq <;> cases hq <;> rfl
  | .claimPendingImport .., r, hq | .updateCurrentProcessingImport .., r, hq
  | .saveImportJob .., r, hq | .failPendingImport .., r, hq => by
    obtain ⟨r', hu, -⟩ := mapReply_eq hq
    rcases updateJobs_spec hu with ⟨new, T, -, hT, rfl, -⟩ | ⟨-, rfl, -⟩ <;> rfl
  | .updateClaimedEvent .., r, hq | .saveClaimedEvent .., r, hq => by
    obtain ⟨r', hu, -⟩ := mapReply_eq hq
    simp only [updateOutbox, Option.map_eq_some_iff] at hu
    obtain ⟨x, -, hu⟩ := hu
    cases hu
    rfl
  | .deleteShipments _, r, hq | .deleteImportErrors _, r, hq => by
    simp only [exec, Option.map_eq_some_iff] at hq
    obtain ⟨x, -, hq⟩ := hq
    cases hq
    rfl
  | .insertShipment x, r, hq => by
    simp only [exec] at hq
    split at hq
    · cases hq
      rfl
    · simp only [Option.map_eq_some_iff] at hq
      obtain ⟨o, hT, hq⟩ := hq
      cases o <;> cases hq <;> rfl
  | .insertImportJob j, r, hq => by
    rcases exec_insertImportJob hq with ⟨-, -, -, rfl⟩ | ⟨-, -, ⟨-, -, rfl⟩ | ⟨-, -, -, rfl⟩⟩ <;> rfl
  | .insertDispatchIntent i a, r, hq | .checkImportExists _, r, hq => by
    simp only [exec, referenceJob] at hq
    split at hq
    · simp only [Option.map_eq_some_iff] at hq
      obtain ⟨T, -, hq⟩ := hq
      cases hq
      rfl
    · cases hq
      rfl
  | .acquireFingerprintLock f, r, hq => by
    simp only [exec] at hq
    split at hq <;> cases hq
    rfl

/-- The time at which a transaction began does not change while it is open. -/
theorem now_begin (d : Database) (s : Nat) (clock clock' : Time) :
    (d.begin s clock).now s clock' = d.now s clock := by
  simp [begin, now]

theorem own_begin (h : d.Wf) (clock : Time) : Own s d (d.begin s clock) :=
  ⟨⟨rfl, rfl, rfl, rfl⟩,
    fun u hu => ⟨.refl u _, .refl u _, .refl u _, .refl u _, fun _ => .rfl, by simp [begin, hu]⟩,
    ⟨h.jobs, h.outbox, h.shipments, h.errors⟩, Nat.le_refl _⟩

theorem own_rollback (h : d.Wf) : Own s d (d.rollback s) where
  rows := ⟨rfl, rfl, rfl, rfl⟩
  keeps u hu := ⟨Table.keeps_release hu, Table.keeps_release hu, Table.keeps_release hu,
    Table.keeps_release hu, fun k => by
      simp only [rollback, Option.filter_eq_some_iff, bne_iff_ne, ne_eq, and_iff_left_iff_imp]
      exact fun _ => hu, by simp [rollback, hu]⟩
  wf := ⟨h.jobs.release, h.outbox.release, h.shipments.release, h.errors.release⟩
  issued := Nat.le_refl _

theorem idle_rollback (d : Database) (s : Nat) : (d.rollback s).Idle s :=
  ⟨Table.idle_release _ s, Table.idle_release _ s, Table.idle_release _ s, Table.idle_release _ s,
    fun k => by simp [rollback, Option.filter_eq_some_iff]⟩

theorem idle_commit (d : Database) (s : Nat) : (d.commit s).Idle s :=
  ⟨Table.idle_commit _ s, Table.idle_commit _ s, Table.idle_commit _ s, Table.idle_commit _ s,
    fun k => by simp [commit, Option.filter_eq_some_iff]⟩

theorem wf_commit (h : d.Wf) : (d.commit s).Wf :=
  ⟨h.jobs.commit s, h.outbox.commit s, h.shipments.commit s, h.errors.commit s⟩

theorem keeps_commit (h : d.Wf) {u : Nat} (hu : u ≠ s) : Keeps u d (d.commit s) :=
  ⟨Table.keeps_commit h.jobs hu, Table.keeps_commit h.outbox hu, Table.keeps_commit h.shipments hu,
    Table.keeps_commit h.errors hu, fun k => by
      simp only [commit, Option.filter_eq_some_iff, bne_iff_ne, ne_eq, and_iff_left_iff_imp]
      exact fun _ => hu, by simp [commit, hu]⟩

end own

/-! ## Slices of the database -/

/-- What is committed of import `i`. -/
def slice (d : Database) (i : ImportId) : Slice :=
  { job := d.importJobs.rows.find? (·.id == i)
    shipments := d.shipments.rows.filter (·.val.importId == i)
    importErrors := d.importErrors.rows.filter (·.val.importId == i) }

/-- The outbox row `k`. -/
def event (d : Database) (k : Nat) : Option (Version ImportDispatchOutbox) :=
  d.importDispatchOutbox.rows.find? (·.id == k)

/-- The number of outbox rows of import `i`. -/
def intents (d : Database) (i : ImportId) : Nat :=
  (d.importDispatchOutbox.rows.filter (·.val.importId == i)).length

theorem event_eq_some {d : Database} (h : d.Wf) {k : Nat} {o : Version ImportDispatchOutbox} :
    d.event k = some o ↔ o ∈ d.importDispatchOutbox.rows ∧ o.id = k :=
  Table.find?_eq_some h.outbox.nodup

theorem SameRows.slice {d d' : Database} (h : SameRows d d') (i : ImportId) :
    d'.slice i = d.slice i := by
  simp only [Database.slice, h.jobs, h.shipments, h.errors]

theorem job_eq_some {d : Database} (h : d.Wf) {i : ImportId} {r : Version ImportJob} :
    (d.slice i).job = some r ↔ r ∈ d.importJobs.rows ∧ r.id = i :=
  Table.find?_eq_some h.jobs.nodup

theorem job_eq_none {d : Database} {i : ImportId} :
    (d.slice i).job = none ↔ ∀ r ∈ d.importJobs.rows, r.id ≠ i := by
  simp [slice, List.find?_eq_none]

end Database

end ShipmentImport
