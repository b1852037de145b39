import ShipmentImport.Refinement.Sessions

/-!
# What the watchdog does

`RecoverStaleImportsService.recover_stale_imports` against the protocol. Its one transaction locks
stale imports, gives each its new values, and adds a dispatch intent for each import it requeues.
-/

namespace ShipmentImport

/-- The import as the watchdog loads it. -/
def toStale (r : Version ImportJob) : StaleImport := ⟨r.id, r.val.attemptCount, r.val.maxAttempts⟩

/-- What the watchdog makes of a row. -/
def recovered (p : Nat) (now : Time) (r : Version ImportJob) : Version ImportJob :=
  rewrite p (.recovery (recoveryValues now (toStale r))) r

/-- An import whose worker sent no heartbeat for too long. -/
structure Stale (staleBefore : Time) (r : Version ImportJob) : Prop where
  processing : r.val.status = .processing
  stale : isBefore staleBefore r.val.lastHeartbeatAt

/-- The dispatch intent of the watchdog for an import. -/
def IntentFor (p : Nat) (now : Time) (j : StaleImport) (o : Version ImportDispatchOutbox) : Prop :=
  o.writer = p ∧ ∃ at_, o.val = .new j.id (some now) at_

/-- Session `p` locked the imports `rs`, gave `done` their new values, and added the events `os`. -/
structure Recovering (p : Nat) (now : Time) (rs done : List (Version ImportJob))
    (os : List (Version ImportDispatchOutbox)) (d : Database) : Prop extends RowsKept p d where
  held : ∀ r ∈ rs, r ∈ d.importJobs.rows ∧ d.importJobs.Holds p r.id
  jobs : d.importJobs.staged p = (done.map (recovered p now)).map .update
  intents : d.importDispatchOutbox.staged p = os.map .insert

theorem local_recovering {p : Nat} {now : Time} {rs done : List (Version ImportJob)}
    {os : List (Version ImportDispatchOutbox)} : Local p (Recovering p now rs done os) :=
  fun d d' hw hk h =>
    { toRowsKept := local_rowsKept d d' hw hk h.toRowsKept
      held := fun r hr =>
        have ⟨h1, h2⟩ := h.held r hr
        ⟨(hk.jobs.rows r h2).2 h1, (hk.jobs.holds _).2 h2⟩
      jobs := hk.jobs.staged.trans h.jobs
      intents := hk.outbox.staged.trans h.intents }

section
variable {C : Setting} {p : Nat} {t : Task} {now : Time} {d d' : Database} {clock : Time}
  {rs done : List (Version ImportJob)} {os : List (Version ImportDispatchOutbox)}

theorem recovered_ids (rs : List (Version ImportJob)) :
    (rs.map (recovered p now)).map (·.id) = rs.map (·.id) := by
  rw [List.map_map]
  rfl

/-- The locked imports are different. -/
theorem exec_lockStaleImports (hw : d.Wf) (hi : d.Idle p) {staleBefore : Time} {n : Nat}
    {a : List StaleImport}
    (hx : (d.begin p clock).exec C.env.server clock p (.lockStaleImports staleBefore n) =
      some (.ok a, d')) :
    ∃ rs, a = rs.map toStale ∧ (rs.map (·.id)).Nodup ∧ (∀ r ∈ rs, Stale staleBefore r) ∧
      Recovering p now rs [] [] d' := by
  have hb := (Database.own_begin (s := p) hw clock).wf
  have hv : (d.begin p clock).importJobs.view p = d.importJobs.rows :=
    Table.view_eq _ _ hi.jobs.staged
  have hpick := C.env.server.oldest_subperm (fun j : ImportJob => j.lastHeartbeatAt.getD .min) n
  obtain ⟨⟨⟩, rfl⟩ := (Database.limited_cases hx).resolve_right (by simp)
  obtain ⟨hown, hst, hhit, -⟩ := Table.lockWhere_spec (s := p)
    (p := fun r => r.val.status == .processing && isBefore staleBefore r.val.lastHeartbeatAt)
    hb.jobs fun l _ hr => (hpick l).subset hr
  refine ⟨_, rfl, ?_, fun r hr => ?_, ⟨hi.shipments.staged, hi.errors.staged⟩, fun r hr => ?_,
    ?_, hi.outbox.staged⟩
  · exact Table.lockWhere_nodup hb.jobs hpick
  · obtain ⟨-, hp, -⟩ := hhit r hr
    simp only [Bool.and_eq_true, beq_iff_eq] at hp
    exact ⟨hp.1, hp.2⟩
  · obtain ⟨h1, -, h3, -⟩ := hhit r hr
    rw [hv] at h1
    exact ⟨h1, h3⟩
  · exact (congrFun hst p).trans hi.jobs.staged

/-- The next import gets its new values. -/
theorem exec_saveImportJob (hw : d.Wf) {r : Version ImportJob}
    {rest : List (Version ImportJob)} {b : Time} (hn : ((done ++ r :: rest).map (·.id)).Nodup)
    (hs : Stale b r) (h : Recovering p now (done ++ r :: rest) done [] d) {a : Unit}
    (hx : (d.begin p clock).exec C.env.server clock p
      (.saveImportJob r.id (recoveryValues now (toStale r))) = some (.ok a, d')) :
    Recovering p now (done ++ r :: rest) (done ++ [r]) [] d' := by
  obtain ⟨res, hu, ha⟩ := Database.mapReply_eq hx
  have hb := (Database.own_begin (s := p) hw clock).wf
  obtain ⟨hr, hh⟩ := h.held r (List.mem_append_right _ List.mem_cons_self)
  rw [List.map_append, List.map_cons, List.nodup_append] at hn
  -- the row has not been changed yet
  have hview : r ∈ (d.begin p clock).importJobs.view p := by
    refine (Table.mem_foldl_apply_of_ne (fun c hc => ?_) _).2 hr
    rw [show (d.begin p clock).importJobs.staged p = _ from h.jobs] at hc
    obtain ⟨u, hu, rfl⟩ := List.mem_map.1 hc
    obtain ⟨x, hxd, rfl⟩ := List.mem_map.1 hu
    exact fun e => hn.2.2 x.id (List.mem_map_of_mem hxd) r.id List.mem_cons_self e
  have hnodup : (((d.begin p clock).importJobs.view p).map (·.id)).Nodup :=
    (hb.jobs.commit p).nodup
  have hadm : (JobWrite.recovery (recoveryValues now (toStale r))).Admits r.val := hs.processing
  rcases Database.updateJobs_spec hu with ⟨new, T, rfl, hT, rfl, -⟩ | ⟨rfl, -, new, T, hT, hck⟩
  · obtain ⟨hown, hnew, hst, -, hkeep, -⟩ := Table.updateWhere_spec hb.jobs hT
    rw [Table.filter_id hnodup hview] at hnew
    subst hnew
    exact
      { shipments := h.shipments
        errors := h.errors
        held := fun x hx => ⟨(h.held x hx).1 |> fun hm => hown.rows ▸ hm, hkeep _ (h.held x hx).2⟩
        jobs := by
          show T.staged p = _
          rw [hst, show (d.begin p clock).importJobs.staged p = _ from h.jobs]
          simp [recovered, rewrite, JobWrite.apply]
        intents := h.intents }
  · cases ha

theorem exec_insertIntent (hw : d.Wf) {j : StaleImport} (h : Recovering p now rs rs os d) {a : Unit}
    (hx : (d.begin p clock).exec C.env.server clock p (.insertDispatchIntent j.id (some now)) =
      some (.ok a, d')) :
    ∃ o, IntentFor p now j o ∧ Recovering p now rs rs (os ++ [o]) d' := by
  have hb := (Database.own_begin (s := p) hw clock).wf
  simp only [Database.exec, Database.referenceJob] at hx
  split at hx
  · simp only [Option.map_eq_some_iff] at hx
    obtain ⟨T, hT, hx⟩ := hx
    cases hx
    obtain ⟨hown, hst, hlock⟩ := Table.keyShare_spec hb.jobs hT
    refine ⟨⟨d.issued, p, .new j.id (some now) ((d.begin p clock).now p clock)⟩, ⟨rfl, _, rfl⟩,
      ⟨h.shipments, h.errors⟩, fun r hr => ?_, ?_, ?_⟩
    · obtain ⟨h1, m, hm⟩ := h.held r hr
      exact ⟨hown.rows ▸ h1, m, by show T.lock r.id = _; rw [hlock]; exact hm⟩
    · exact (congrFun hst p).trans h.jobs
    · show (Table.insert (d.begin p clock).importDispatchOutbox p _ _).staged p = _
      rw [Table.insert, Table.stage_staged, List.map_append]
      exact congrArg (· ++ _) h.intents
  · cases hx

/-! ## The commit -/

/-- The events added are those of the imports that have attempts left. -/
def Intents (p : Nat) (now : Time) (rs : List (Version ImportJob))
    (os : List (Version ImportDispatchOutbox)) : Prop :=
  List.Forall₂ (IntentFor p now)
    ((rs.map toStale).filter fun j => j.attemptCount < j.maxAttempts) os

/-- What the commit makes of a job. -/
theorem Recovering.job (hn : (rs.map (·.id)).Nodup) (h : Recovering p now rs rs os d)
    (i : ImportId) : ((d.commit p).slice i).job =
      ((rs.map (recovered p now)).find? (·.id == i)).or (d.slice i).job := by
  show (d.importJobs.view p).find? _ = _
  rw [Table.view, h.jobs]
  refine Table.find?_foldl_update (by rwa [recovered_ids]) (fun u hu => ?_) i
  obtain ⟨r, hr, rfl⟩ := List.mem_map.1 hu
  exact ⟨r, (h.held r hr).1, rfl⟩

/-- An import is recovered, or stays as it is. -/
theorem Recovering.cases (hw : d.Wf) (hn : (rs.map (·.id)).Nodup) (h : Recovering p now rs rs os d)
    (i : ImportId) :
    (∃ r ∈ rs, r.id = i ∧ d.slice i = ⟨some r, (d.slice i).shipments, (d.slice i).importErrors⟩ ∧
      (d.commit p).slice i =
        ⟨some (recovered p now r), (d.slice i).shipments, (d.slice i).importErrors⟩) ∨
    (∀ r ∈ rs, r.id ≠ i) ∧ (d.commit p).slice i = d.slice i := by
  rw [h.toRowsKept.slice, h.job hn]
  cases hf : (rs.map (recovered p now)).find? (·.id == i) with
  | some u =>
    obtain ⟨hm, hid⟩ := (Table.find?_eq_some (by rwa [recovered_ids])).1 hf
    obtain ⟨r, hr, rfl⟩ := List.mem_map.1 hm
    refine .inl ⟨r, hr, hid, ?_, rfl⟩
    rw [← (Database.job_eq_some hw).2 ⟨(h.held r hr).1, hid⟩]
  | none =>
    refine .inr ⟨fun r hr e => ?_, rfl⟩
    rw [List.find?_eq_none] at hf
    exact hf _ (List.mem_map_of_mem hr) (by simpa [recovered, rewrite] using e)

/-- The step the commit is for each import. -/
theorem Recovering.step (hw : d.Wf) (hn : (rs.map (·.id)).Nodup) {staleBefore : Time}
    (hb : now.minus C.env.settings.processingStaleTimeoutSeconds.1 = .ok staleBefore)
    (hs : ∀ r ∈ rs, Stale staleBefore r)
    (h : Recovering p now rs rs os d) (start : Time) (i : ImportId) :
    Slice.Step C.env .watchdog p start (d.slice i) ((d.commit p).slice i) := by
  rcases h.cases hw hn i with ⟨r, hr, -, h1, h2⟩ | ⟨-, h2⟩
  · rw [h1, h2]
    unfold recovered recoveryValues
    split
    · next ha =>
      exact .recoverFailed _ _ now (hs r hr).processing ha
        ((isBefore_iff_expired hb).1 (hs r hr).stale) (by decide)
    · next ha =>
      exact .recoverRequeued _ now (hs r hr).processing (Nat.lt_of_not_le ha)
        ((isBefore_iff_expired hb).1 (hs r hr).stale)
  · rw [h2]
    exact .stay _

/-- The imports that get an event are those that are requeued. -/
theorem Recovering.intends (hw : d.Wf) (hn : (rs.map (·.id)).Nodup)
    {b : Time} (hs : ∀ r ∈ rs, Stale b r) (h : Recovering p now rs rs os d) (i : ImportId) :
    Slice.Intends .watchdog (d.slice i) ((d.commit p).slice i) ↔
      ∃ r ∈ rs, r.id = i ∧ r.val.attemptCount < r.val.maxAttempts := by
  rcases h.cases hw hn i with ⟨r, hr, hid, h1, h2⟩ | ⟨hno, h2⟩
  · have hst : (recovered p now r).val.status = .pending ↔
        r.val.attemptCount < r.val.maxAttempts := by
      by_cases ha : r.val.maxAttempts ≤ r.val.attemptCount
      · have hv : recoveryValues now (toStale r) =
            .markFailed staleHeartbeatReason maxAttemptsReason now := if_pos ha
        unfold recovered
        rw [hv]
        exact ⟨fun e => (nomatch e), fun e => absurd ha (Nat.not_le_of_lt e)⟩
      · have hv : recoveryValues now (toStale r) = .requeue staleHeartbeatReason now := if_neg ha
        unfold recovered
        rw [hv]
        exact ⟨fun _ => Nat.lt_of_not_le ha, fun _ => rfl⟩
    rw [h1, h2]
    constructor
    · rintro (⟨e, -⟩ | ⟨-, -, e⟩)
      · cases e
      · exact ⟨r, hr, hid, hst.1 (Option.some.inj e)⟩
    · rintro ⟨r', hr', hid', hlt⟩
      obtain rfl := Table.eq_of_id hn hr' hr (hid'.trans hid.symm)
      exact .inr ⟨rfl, congrArg some (hs r' hr').processing, congrArg some (hst.2 hlt)⟩
  · rw [h2]
    exact ⟨fun e => absurd e (Slice.not_intends_self _), fun ⟨r, hr, e, _⟩ => absurd e (hno r hr)⟩

/-- How many events an import gets. -/
theorem Intents.count (hn : (rs.map (·.id)).Nodup) (h : Intents p now rs os) (i : ImportId) :
    ((∃ r ∈ rs, r.id = i ∧ r.val.attemptCount < r.val.maxAttempts) →
      (os.filter (·.val.importId == i)).length = 1) ∧
    (¬ (∃ r ∈ rs, r.id = i ∧ r.val.attemptCount < r.val.maxAttempts) →
      (os.filter (·.val.importId == i)).length = 0) := by
  -- the imports instead of their events
  have hcount : (os.filter (·.val.importId == i)).length =
      (((rs.map toStale).filter fun j => j.attemptCount < j.maxAttempts).filter
        (·.id == i)).length := by
    unfold Intents at h
    generalize (rs.map toStale).filter _ = js at h
    induction h with
    | nil => rfl
    | @cons j o js os hj _ ih =>
      obtain ⟨-, at_, ho⟩ := hj
      have hid : o.val.importId = j.id := by rw [ho]; rfl
      rw [List.filter_cons, List.filter_cons, hid]
      split <;> simp [ih]
  rw [hcount, List.filter_comm, List.filter_map]
  by_cases hr : ∃ r ∈ rs, r.id = i
  · obtain ⟨r, hr, rfl⟩ := hr
    have hone : rs.filter ((fun j : StaleImport => j.id == r.id) ∘ toStale) = [r] :=
      Table.filter_id hn hr
    rw [hone, List.map_singleton, List.filter_singleton]
    constructor
    · rintro ⟨r', hr', hid, hlt⟩
      obtain rfl := Table.eq_of_id hn hr' hr hid
      rw [show decide ((toStale r').attemptCount < (toStale r').maxAttempts) = true from
        decide_eq_true hlt]
      rfl
    · intro hno
      have : ¬ (toStale r).attemptCount < (toStale r).maxAttempts := fun hlt =>
        hno ⟨r, hr, rfl, hlt⟩
      rw [decide_eq_false this]
      rfl
  · have hnone : rs.filter ((fun j : StaleImport => j.id == i) ∘ toStale) = [] := by
      rw [List.filter_eq_nil_iff]
      exact fun r hm e => hr ⟨r, hm, by simpa [toStale] using e⟩
    rw [hnone]
    exact ⟨fun ⟨r, hm, hid, _⟩ => absurd ⟨r, hm, hid⟩ hr, fun _ => rfl⟩

/-- The events added are new. -/
theorem Intents.new (h : Intents p now rs os) :
    ∀ o ∈ os, ∃ i, o.val = .new i (some now) ((o.val.createdAt)) := by
  unfold Intents at h
  generalize (rs.map toStale).filter _ = js at h
  induction h with
  | nil => simp
  | @cons j o js os hj _ ih =>
    intro x hx
    rcases List.mem_cons.1 hx with rfl | hx
    · obtain ⟨-, at_, ho⟩ := hj
      exact ⟨j.id, by rw [ho]; rfl⟩
    · exact ih x hx

/-- What the commit has to be. -/
theorem Recovering.commitOk {w : World} {g : Ghost} (hi : C.Inv (w, g)) (ht : t.role = .watchdog)
    (hn : (rs.map (·.id)).Nodup) {staleBefore : Time}
    (hb : now.minus C.env.settings.processingStaleTimeoutSeconds.1 = .ok staleBefore)
    (hs : ∀ r ∈ rs, Stale staleBefore r)
    (hin : Intents p now rs os) (h : Recovering p now rs rs os w.db) : CommitOk C p t w g g where
  steps i := ht ▸ h.step hi.wf hn hb hs _ i
  seals fz _ := seals_of_steps (by decide) (h.step hi.wf hn hb hs .epoch fz.importId)
  events k := by
    show OutboxStep _ _ _ _ _ ((w.db.commit p).event k)
    rw [event_insert h.intents]
    cases hk : w.db.event k with
    | some o => exact .stay _
    | none =>
      rw [Option.none_or]
      cases hf : os.find? (·.id == k) with
      | none => exact .stay _
      | some o =>
        obtain ⟨i, ho⟩ := hin.new o (List.mem_of_find?_eq_some hf)
        exact .create i (some now) _ (.inr ht) ho
  intended i hi' := by
    rw [ht, show (w.commit p).db = w.db.commit p from rfl, h.intends hi.wf hn hs] at hi'
    exact (intents_insert h.intents i).trans (congrArg _ ((hin.count hn i).1 hi'))
  unintended i hi' := by
    rw [ht, show (w.commit p).db = w.db.commit p from rfl, h.intends hi.wf hn hs] at hi'
    exact (intents_insert h.intents i).trans (congrArg _ ((hin.count hn i).2 hi'))
  unclaimed _ i := givesUp_of_steps (C := C) (by decide) (h.step hi.wf hn hb hs .epoch i)
  claims o hm tk htk := by
    rw [show (w.commit p).db.importDispatchOutbox.rows = _ from rows_insert h.intents,
      List.mem_append] at hm
    rcases hm with hm | hm
    · exact hi.outbox.claims o hm tk htk
    · obtain ⟨i, ho⟩ := hin.new o hm
      rw [ho] at htk
      cases htk
  responsible _ _ := rfl
  own _ := .inl
  discharged := rfl
  drawn := rfl
  sent := rfl
  dispatched htr := by
    refine (hi.dispatched htr).commit hi.wf (fun _ _ => rfl) rfl fun r hr hp => ?_
    have hj : ((w.db.commit p).slice r.id).job = some r :=
      (Database.job_eq_some (Database.wf_commit hi.wf)).2 ⟨hr, rfl⟩
    rcases h.cases hi.wf hn r.id with ⟨r', hr', hid, h1, h2⟩ | ⟨-, h2⟩
    · -- the import was requeued, and one of the new events carries it
      rw [h2] at hj
      obtain rfl := Option.some.inj hj
      have hlt : r'.val.attemptCount < r'.val.maxAttempts := by
        have := (h.intends hi.wf hn hs r'.id).1 (.inr ⟨rfl, ?_, ?_⟩)
        · obtain ⟨x, hx, hxid, hlt⟩ := this
          rwa [Table.eq_of_id hn hx hr' hxid] at hlt
        · rw [show w.db.slice r'.id = _ from h1]
          exact congrArg some (hs r' hr').processing
        · rw [show (w.db.commit p).slice r'.id = _ from h2]
          exact congrArg some hp
      have hone := (hin.count hn r'.id).1 ⟨r', hr', rfl, hlt⟩
      obtain ⟨o, ho⟩ := List.exists_mem_of_length_pos (by rw [hone]; exact Nat.one_pos)
      obtain ⟨hmo, hio⟩ := List.mem_filter.1 ho
      refine .inr (.inr ⟨o, ?_, beq_iff_eq.1 hio, .inl ?_⟩)
      · rw [show (w.commit p).db.importDispatchOutbox.rows = _ from rows_insert h.intents]
        exact List.mem_append_right _ hmo
      · obtain ⟨i, hnew⟩ := hin.new o hmo
        rw [hnew]
        rfl
    · rw [h2] at hj
      obtain ⟨hm, -⟩ := (Database.job_eq_some hi.wf).1 hj
      exact ((hi.dispatched htr).carried r hm hp).insert h.intents

end

/-! ## The pass -/

namespace Setting.Spec

variable {C : Setting} {p : Nat} {t : Task}

/-- Reading the clock. -/
theorem clock {A : Assertion} (hA : C.Stable p A) :
    C.Spec p t A (Py.stmt .clock) (Total fun _ => A) := by
  refine silent (by trivial) (stable_outcome (fun _ => hA) fun _ => stable_false)
    (fun w r w' ch he => ?_) fun w g r ch hi ha he => ?_
  · cases ch <;> cases he
    rfl
  · cases ch <;> cases he
    exact ha

theorem recoverStaleImports (ht : t.role = .watchdog) (n : Nat) :
    C.Spec p t (IdleAt p) (recoverStaleImports C.env.settings n)
      (Outcome (fun _ => IdleAt p) fun _ => IdleAt p) := by
  refine seq (weaken (clock stable_idle) (fun _ _ h => h) fun _ _ h => h.elim) fun now => ?_
  refine seq (lift fun _ _ h => h) fun staleBefore => Protocol.Triple.of_and fun hb => ?_
  refine seq (M := fun _ => IdleAt p) (weaken (session (L := fun _ => Anything)
    (N := fun _ x => ∃ rs os, (rs.map (·.id)).Nodup ∧ (∀ r ∈ rs, Stale staleBefore r) ∧
      Intents p now rs os ∧ Recovering p now rs rs os x.1.db) ?_ (fun _ => stable_anything)
    (fun _ => ?_) fun _ _ _ _ _ => trivial) (fun _ _ h => h.2) fun _ _ h => h)
    fun _ => ret fun _ h => h
  · refine seq (query_local (by trivial) (B := (·.Idle p))
      (D := fun (a : List StaleImport) d => ∃ rs, a = rs.map toStale ∧ (rs.map (·.id)).Nodup ∧
        (∀ r ∈ rs, Stale staleBefore r) ∧
        Recovering p now rs [] [] d) (fun a d d' hw hk h => ?_) (fun w g hi ha r hr hl => ?_)
      fun w g a d' hi ha hx => exec_lockStaleImports hi.wf ha hx) fun a => ?_
    · obtain ⟨rs, h1, h2, h3, h4⟩ := h
      exact ⟨rs, h1, h2, h3, local_recovering d d' hw hk h4⟩
    · rw [show r.val.status = .processing from hl]
      decide
    · refine Protocol.Triple.of_exists fun rs => Protocol.Triple.of_and fun hars =>
        Protocol.Triple.of_and fun hn => Protocol.Triple.of_and fun hs => ?_
      subst hars
      refine seq (forEach (I := fun done x =>
        Recovering p now rs (rs.take done.length) [] x.1.db) fun done j rest hl => ?_) fun _ => ?_
      · obtain ⟨rd, rr, rfl, rfl, hrr⟩ := List.map_eq_append_iff.1 hl
        obtain ⟨r, rr, rfl, rfl, rfl⟩ := List.map_eq_cons_iff.1 hrr
        have h1 : (rd ++ r :: rr).take (rd.map toStale).length = rd := by simp
        have h2 : (rd ++ r :: rr).take (rd.map toStale ++ [toStale r]).length = rd ++ [r] := by
          simp [List.take_append]
        rw [h1, h2]
        refine query_local (by trivial) (B := Recovering p now (rd ++ r :: rr) rd [])
          (D := fun _ => Recovering p now (rd ++ r :: rr) (rd ++ [r]) [])
          (fun _ => local_recovering) (fun w g hi ha x hx hxl => ?_) fun w g a d' hi ha hx =>
          exec_saveImportJob hi.wf hn (hs r (by simp)) ha hx
        -- the locked row is not PENDING
        have := Table.eq_of_id hi.wf.jobs.nodup hx (ha.held r (by simp)).1 hxl
        rw [this, (hs r (by simp)).processing]
        decide
      · rw [List.length_map, List.take_length]
        refine seq (M := fun _ x => ∃ os, Intents p now rs os ∧ Recovering p now rs rs os x.1.db)
          ((forEach (I := fun done x => ∃ os, List.Forall₂ (IntentFor p now) done os ∧
            Recovering p now rs rs os x.1.db) fun done j rest hl => ?_).pre
              fun x h => ⟨[], .nil, h⟩) fun _ =>
          ret fun _ ⟨os, h1, h2⟩ => ⟨rs, os, hn, hs, h1, h2⟩
        refine query_local (by trivial)
          (B := fun d => ∃ os, List.Forall₂ (IntentFor p now) done os ∧ Recovering p now rs rs os d)
          (D := fun _ d => ∃ os, List.Forall₂ (IntentFor p now) (done ++ [j]) os ∧
            Recovering p now rs rs os d)
          (fun _ d d' hw hk ⟨os, h1, h2⟩ => ⟨os, h1, local_recovering d d' hw hk h2⟩)
          (fun w g hi ha x hx hxl => hxl.elim) fun w g a d' hi ⟨os, h1, h2⟩ hx => ?_
        obtain ⟨o, ho, h3⟩ := exec_insertIntent hi.wf h2 hx
        exact ⟨os ++ [o], List.rel_append h1 (.cons ho .nil), h3⟩
  · refine commit (stable_outcome (fun _ => stable_anything) fun _ => stable_anything)
      (fun w g lost hl hi ha hal => ?_) fun w g f hf hi ha _ => trivial
    obtain ⟨rs, os, hn, hs, hin, h⟩ := ha
    refine ⟨g, h.commitOk hi ht hn hb hs hin, ?_⟩
    cases lost <;> trivial

end Setting.Spec

end ShipmentImport
