import ShipmentImport.Refinement.Watchdog

/-!
# What requests do

`CreateImportService.create_import` against the protocol: the one commit of a request creates
an import together with its first event.
-/

namespace ShipmentImport

open Setting.Spec

/-- What is inserted for a request. -/
def CreateRequest.Creates (request : CreateRequest) (settings : Settings) (j : ImportJob) : Prop :=
  ∃ stored createdAt, (request.importJob settings).store = .ok stored ∧ j = { stored with createdAt }

/-- Session `p` inserted import `i`, and the events `os`. -/
structure Creating (settings : Settings) (request : CreateRequest) (p : Nat) (i : ImportId)
    (os : List (Version ImportDispatchOutbox)) (d : Database) : Prop extends RowsKept p d where
  jobs : ∃ j, request.Creates settings j ∧ d.importJobs.staged p = [.insert ⟨i, p, j⟩]
  intents : d.importDispatchOutbox.staged p = os.map .insert
  new : ∀ o ∈ os, ∃ createdAt, o.val = .new i none createdAt

section
variable {C : Setting} {p : Nat} {t : Task} {settings : Settings} {request : CreateRequest}
  {i : ImportId} {os : List (Version ImportDispatchOutbox)} {d d' : Database}

theorem local_creating : Local p (Creating settings request p i os) := fun d d' hw hk h =>
  { toRowsKept := local_rowsKept d d' hw hk h.toRowsKept
    jobs := have ⟨j, hj, h⟩ := h.jobs; ⟨j, hj, hk.jobs.staged.trans h⟩
    intents := hk.outbox.staged.trans h.intents
    new := h.new }

/-- A new job is at the start of its history. -/
theorem CreateRequest.Creates.new {j : ImportJob} (h : request.Creates settings j) :
    JobHistory settings j ∧ j.status = .pending ∧ j.attemptCount = 0 ∧ Counted j [] [] := by
  obtain ⟨stored, createdAt, hs, rfl⟩ := h
  obtain ⟨_, _, _, -, rfl⟩ := request.store_eq hs
  exact ⟨.created _ rfl rfl rfl rfl rfl rfl rfl rfl, rfl, rfl, rfl, rfl, rfl, rfl⟩

theorem exec_insertImportJob {server : Server} {clock : Time} (hw : d.Wf) (hc : Clean p d)
    (hx : (d.begin p clock).exec server clock p (.insertImportJob (request.importJob settings)) =
      some (.ok i, d')) : Creating settings request p i [] d' := by
  have hb := (Database.own_begin (s := p) hw clock).wf
  rcases Database.exec_insertImportJob (r := .ok i) hx with
    ⟨f, -, h, -⟩ | ⟨stored, hst, ⟨-, h, -⟩ | ⟨T, hT, h, rfl⟩⟩
  · cases h
  · cases h
  · cases h
    obtain ⟨-, hs, -⟩ := Table.insertUnique_spec hb.jobs hT
    refine ⟨⟨hc.rows.1, hc.rows.2⟩, ⟨_, ⟨stored, (d.begin p clock).now p clock, hst, rfl⟩,
      hs.trans ?_⟩, hc.outbox, fun o ho => by cases ho⟩
    rw [show (d.begin p clock).importJobs.staged p = [] from hc.jobs]
    rfl

theorem exec_insertDispatchIntent {server : Server} {clock : Time} (hw : d.Wf)
    (hc : Creating settings request p i os d) {a : Unit}
    (hx : (d.begin p clock).exec server clock p (.insertDispatchIntent i none) = some (.ok a, d')) :
    ∃ o, Creating settings request p i (os ++ [o]) d' := by
  have hb := (Database.own_begin (s := p) hw clock).wf
  simp only [Database.exec, Database.referenceJob] at hx
  split at hx
  · simp only [Option.map_eq_some_iff] at hx
    obtain ⟨T, hT, hx⟩ := hx
    cases hx
    obtain ⟨-, hst, -⟩ := Table.keyShare_spec hb.jobs hT
    refine ⟨⟨d.issued, p, .new i none ((d.begin p clock).now p clock)⟩, ⟨hc.shipments, hc.errors⟩,
      ?_, ?_, fun o ho => ?_⟩
    · obtain ⟨j, hj, h⟩ := hc.jobs
      exact ⟨j, hj, (congrFun hst p).trans h⟩
    · show (Table.insert (d.begin p clock).importDispatchOutbox p _ _).staged p = _
      rw [Table.insert, Table.stage_staged, List.map_append]
      exact congrArg (· ++ _) hc.intents
    · rcases List.mem_append.1 ho with ho | ho
      · exact hc.new o ho
      · obtain rfl := List.mem_singleton.1 ho
        exact ⟨_, rfl⟩
  · cases hx

/-- What the commit makes of the imports: one is created. -/
theorem Creating.slice (hw : d.Wf) (h : Creating settings request p i os d) :
    ∃ r, r.id = i ∧ request.Creates settings r.val ∧ (d.slice i).job = none ∧
      ∀ j, (d.commit p).slice j = if j = i then
        ⟨some r, (d.slice j).shipments, (d.slice j).importErrors⟩ else d.slice j := by
  obtain ⟨j₀, hcreates, hj⟩ := h.jobs
  have hnew : ∀ x ∈ d.importJobs.rows, x.id ≠ i := fun x hx =>
    hw.jobs.inserted p ⟨i, p, j₀⟩ (by rw [hj]; exact List.mem_cons_self) x hx
  have hnone : (d.slice i).job = none := Database.job_eq_none.2 hnew
  refine ⟨⟨i, p, j₀⟩, rfl, hcreates, hnone, fun j => ?_⟩
  rw [h.toRowsKept.slice]
  have hjob : ((d.commit p).slice j).job = (d.slice j).job.or
      (if i = j then some ⟨i, p, j₀⟩ else none) := by
    show (Table.view _ p).find? _ = _
    rw [Table.view, hj, show [Change.insert (Version.mk i p j₀)] =
      [Version.mk i p j₀].map .insert from rfl, Table.foldl_apply_insert, List.find?_append,
      List.find?_singleton]
    simp only [beq_iff_eq]
    rfl
  rw [hjob]
  by_cases e : j = i
  · subst e
    rw [hnone, if_pos rfl, if_pos rfl]
    rfl
  · rw [if_neg (fun e' => e e'.symm), if_neg e, Option.or_none]

/-- What the commit has to be. -/
theorem Creating.commitOk {w : World} {g : Ghost} {o : Version ImportDispatchOutbox}
    (hi : C.Inv (w, g)) (ht : t.role = .creator)
    (h : Creating C.env.settings request p i [o] w.db) : CommitOk C p t w g g := by
  obtain ⟨r, hri, hcreates, hnone, hslice⟩ := h.slice hi.wf
  obtain ⟨hhistory, hpending, hattempts, hcounts⟩ := hcreates.new
  have hold : w.db.slice i = ⟨none, (w.db.slice i).shipments, (w.db.slice i).importErrors⟩ := by
    rw [← hnone]
  obtain ⟨atO, hnew⟩ := h.new o List.mem_cons_self
  have hstep : ∀ now j, Slice.Step C.env .creator p now (w.db.slice j) ((w.db.commit p).slice j) := by
    intro now j
    rw [hslice]
    by_cases e : j = i
    · subst e
      rw [if_pos rfl, hold]
      exact .create r hhistory hpending hattempts hcounts
    · rw [if_neg e]
      exact .stay _
  have hint : ∀ j, Slice.Intends .creator (w.db.slice j) ((w.db.commit p).slice j) ↔ j = i := by
    intro j
    rw [hslice]
    by_cases e : j = i
    · subst e
      rw [if_pos rfl]
      exact ⟨fun _ => rfl, fun _ => .inl ⟨hnone, by simp⟩⟩
    · rw [if_neg e]
      exact ⟨fun h => absurd h (Slice.not_intends_self _), fun h => absurd h e⟩
  have hcount : ∀ j, (w.db.commit p).intents j = w.db.intents j + if i = j then 1 else 0 := by
    intro j
    have himp : o.val.importId = i := by rw [hnew]; rfl
    rw [intents_insert h.intents, List.filter_singleton, himp]
    by_cases e : i = j
    · rw [if_pos e, beq_iff_eq.2 e]
      rfl
    · rw [if_neg e, beq_eq_false_iff_ne.2 e]
      rfl
  exact
    { steps := fun j => ht ▸ hstep _ j
      seals := fun fz _ => seals_of_steps (by decide) (hstep .epoch fz.importId)
      events := fun k => by
        show OutboxStep _ _ _ _ _ ((w.db.commit p).event k)
        rw [event_insert h.intents]
        cases hk : w.db.event k with
        | some o => exact .stay _
        | none =>
          rw [Option.none_or]
          cases hf : [o].find? (·.id == k) with
          | none => exact .stay _
          | some x =>
            obtain ⟨at_, hx⟩ := h.new x (List.mem_of_find?_eq_some hf)
            exact .create i none at_ (.inl ht) hx
      intended := fun j hj => by
        rw [ht] at hj
        have := (hint j).1 hj
        show (w.db.commit p).intents j = _
        rw [hcount, if_pos this.symm]
      unintended := fun j hj => by
        rw [ht] at hj
        show (w.db.commit p).intents j = _
        rw [hcount, if_neg fun e => hj ((hint j).2 e.symm), Nat.add_zero]
      unclaimed := fun _ j => givesUp_of_steps (C := C) (by decide) (hstep .epoch j)
      claims := fun x hx tk htk => by
        rw [show (w.commit p).db.importDispatchOutbox.rows = _ from rows_insert h.intents,
          List.mem_append] at hx
        rcases hx with hx | hx
        · exact hi.outbox.claims x hx tk htk
        · obtain ⟨at_, hx⟩ := h.new x hx
          rw [hx] at htk
          cases htk
      responsible := fun _ _ => rfl
      own := fun _ => .inl
      discharged := rfl
      drawn := rfl
      sent := rfl
      dispatched := fun htr => by
        refine (hi.dispatched htr).commit hi.wf (fun _ _ => rfl) rfl fun r' hr' hp => ?_
        have hjob : ((w.db.commit p).slice r'.id).job = some r' :=
          (Database.job_eq_some (Database.wf_commit hi.wf)).2 ⟨hr', rfl⟩
        rw [hslice] at hjob
        by_cases e : r'.id = i
        · refine .inr (.inr ⟨o, ?_, ?_, .inl ?_⟩)
          · rw [show (w.commit p).db.importDispatchOutbox.rows = _ from rows_insert h.intents]
            exact List.mem_append_right _ List.mem_cons_self
          · rw [hnew, e]
            rfl
          · rw [hnew]
            rfl
        · rw [if_neg e] at hjob
          exact ((hi.dispatched htr).carried r' ((Database.job_eq_some hi.wf).1 hjob).1 hp).insert
            h.intents }

end

/-! ## The request -/

section
variable {C : Setting} {p : Nat} {t : Task}

/-- A query of a request after its commit, or after a rollback. -/
theorem query_anything {q : Query} (hlive : q.Live) (hl : ∀ r, ¬ q.jobsLocked r) :
    C.Spec p t Anything (Py.query q) (Outcome (fun _ => Anything) fun _ => Anything) :=
  query_local hlive (B := fun _ => True) (D := fun _ _ => True) (fun _ => local_true p)
    (fun _ _ _ _ r _ h => absurd h (hl r)) fun _ _ _ _ _ _ _ => trivial

theorem existingOutcome_spec {request : CreateRequest} {existing : ImportSnapshot} :
    C.Spec p t Anything (existingOutcome request existing)
      (Outcome (fun _ => Anything) fun _ => Anything) := by
  unfold existingOutcome
  split
  · exact raise fun _ _ => trivial
  · exact ret fun _ _ => trivial

/-- A query of a request that changes nothing. -/
theorem query_clean {q : Query} (hlive : q.Live) (hl : ∀ r, ¬ q.jobsLocked r)
    (hrun : ∀ d d' server clock a, Clean p d → (d.begin p clock).exec server clock p q =
      some (.ok a, d') → Clean p d') :
    C.Spec p t (fun x => Clean p x.1.db) (Py.query q)
      (Outcome (fun _ x => Clean p x.1.db) fun _ => Anything) :=
  query_local hlive (fun _ => local_staged) (fun _ _ _ _ r _ h => absurd h (hl r))
    fun _ _ _ _ _ ha hx => hrun _ _ _ _ _ ha hx

theorem createRecords_spec (ht : t.role = .creator) (request : CreateRequest) :
    C.Spec p t (fun x => Clean p x.1.db) (createRecords C.env.settings request)
      (Outcome (fun _ => Anything) fun _ => Anything) := by
  refine seq (query_local (by trivial) (D := fun i => Creating C.env.settings request p i [])
    (fun _ => local_creating) (fun _ _ _ _ _ _ h => h.elim) fun w g i d' hi ha hx =>
      exec_insertImportJob hi.wf ha hx) fun i => ?_
  refine seq (query_local (by trivial) (B := Creating C.env.settings request p i [])
    (D := fun _ d => ∃ o, Creating C.env.settings request p i [o] d)
    (fun _ => .exists fun _ => local_creating) (fun _ _ _ _ _ _ h => h.elim)
    fun w g a d' hi ha hx => exec_insertDispatchIntent hi.wf ha hx) fun _ => ?_
  refine seq (M := fun _ => Anything) (commit (stable_outcome (fun _ => stable_anything)
    fun _ => stable_anything) (fun w g lost hl hi ⟨o, ha⟩ _ => ?_) fun _ _ _ _ _ _ _ => trivial)
    fun _ => ret fun _ h => h
  exact ⟨g, ha.commitOk hi ht, by cases lost <;> trivial⟩

theorem persistImport_spec (ht : t.role = .creator) (request : CreateRequest) :
    C.Spec p t (fun x => Clean p x.1.db) (persistImport C.env.settings request)
      (Outcome (fun _ => Anything) fun _ => Anything) := by
  unfold persistImport
  have hrollback : C.Spec p t Anything (Py.stmt .rollback)
      (Outcome (fun _ => Anything) fun _ => Anything) :=
    weaken (giveUp_idle (.inl rfl)) (fun _ _ _ => trivial) fun _ _ _ => trivial
  refine attempted (createRecords_spec ht request) (fun i => ?_) fun e => ?_
  · refine seq (query_anything (by trivial) fun _ h => h) fun o => ?_
    cases o with
    | none => exact raise fun _ _ => trivial
    | some _ => exact ret fun _ _ => trivial
  · split
    · refine seq hrollback fun _ => ?_
      split
      · exact raise fun _ _ => trivial
      · refine seq (query_anything (by trivial) fun _ h => h) fun o => ?_
        cases o with
        | none => exact raise fun _ _ => trivial
        | some _ => exact existingOutcome_spec
    · exact seq hrollback fun _ => raise fun _ _ => trivial
    · exact seq hrollback fun _ => raise fun _ _ => trivial
    · exact raise fun _ _ => trivial
    · next h => cases h

/-- `create_import`. -/
theorem createImport_spec (ht : t.role = .creator) (request : CreateRequest) :
    C.Spec p t (IdleAt p) (createImport C.env.settings request)
      (Outcome (fun _ => IdleAt p) fun _ => IdleAt p) := by
  refine Setting.Spec.withSession (N := fun _ => Anything) (E := fun _ => Anything) ?_
    (fun _ => giveUp_idle (.inr rfl)) fun _ => giveUp_idle (.inr rfl)
  refine seq (M := fun _ x => Clean p x.1.db) ((query_clean
    (q := .acquireFingerprintLock request.idempotencyFingerprint) (by trivial) (fun _ h => h)
    fun d d' server clock a hc hx => ?_).pre fun x h => h.clean) fun _ => ?_
  · simp only [Database.exec] at hx
    split at hx
    · cases hx
      exact ⟨⟨hc.outbox, hc.rows⟩, hc.jobs⟩
    · cases hx
  refine seq (M := fun _ x => Clean p x.1.db) ?_ fun o => ?_
  · unfold lookupIdempotencyKey
    split
    · exact ret fun _ h => h
    · refine query_clean (by trivial) (fun _ h => h) fun d d' server clock a hc hx => ?_
      cases hx
      exact ⟨⟨hc.outbox, hc.rows⟩, hc.jobs⟩
  cases o with
  | some existing => exact existingOutcome_spec.pre fun _ _ => trivial
  | none =>
    refine seq (query_clean (by trivial) (fun _ h => h) fun d d' server clock a hc hx => ?_)
      fun o => ?_
    · cases hx
      exact ⟨⟨hc.outbox, hc.rows⟩, hc.jobs⟩
    · cases o with
      | some existing => exact raise fun _ _ => trivial
      | none => exact persistImport_spec ht request

end

end ShipmentImport
