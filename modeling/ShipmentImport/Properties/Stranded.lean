import ShipmentImport.Properties.Endings
import ShipmentImport.Refinement.Disciplines

/-!
# Imports that nothing dispatches any more

The other side of `Properties/Endings`: an import that waits without a dispatch stays as it is
whatever happens. Every statement that could move it on takes the import's number from the reply of
an earlier one, and none of these names it: no event of it waits or is claimed, it is not being
processed, and there is no message of it.
-/

namespace ShipmentImport

/-! ## Statements that spare an import -/

/-- What the queries of the services do not say: that import `i` is to be seen to. Its events are
those with a number in `ks`. -/
def Query.Spares (i : ImportId) (ks : Nat → Prop) : (q : Query) → q.Reply → Prop
  | lockDueEvents .., events => ∀ e ∈ events, e.importId ≠ i ∧ ¬ ks e.outboxId
  | lockStaleClaims .., staleClaims => ∀ e ∈ staleClaims, e.importId ≠ i
  | lockStaleImports .., staleImports => ∀ j ∈ staleImports, j.id ≠ i
  | insertImportJob _, j => j ≠ i
  | _, _ => True

/-- The queries that do not see to import `i`; the others go by the status of a row. -/
def Query.Avoids (i : ImportId) (ks : Nat → Prop) : Query → Prop
  | claimPendingImport j .. | saveImportJob j _ | failPendingImport j _ => j ≠ i
  | insertDispatchIntent j _ => j ≠ i
  | saveClaimedEvent k _ => ¬ ks k
  | _ => True

def Stmt.Spares (i : ImportId) (ks : Nat → Prop) : (s : Stmt) → s.Reply → Prop
  | query q, a => q.Spares i ks a
  | _, _ => True

def Stmt.Avoids (i : ImportId) (ks : Nat → Prop) : Stmt → Prop
  | query q => q.Avoids i ks
  | dispatchImport j => j ≠ i
  | _ => True

/-- Import `i` is not seen to. -/
def sparing (i : ImportId) (ks : Nat → Prop) : Discipline where
  replies s o := ∀ a, o = .ok a → s.Spares i ks a
  issues := Stmt.Avoids i ks
  raises _ := True
  raised _ _ _ _ := trivial
  commit := trivial
  rollback := trivial
  close := trivial

section programs
variable {i : ImportId} {ks : Nat → Prop} {env : Env}

theorem sparing_works (j : ImportId) : (sparing i ks).Works j where
  query q hq := by cases q <;> first | exact trivial | exact hq.elim
  loadWorkbook _ := trivial
  readRows := trivial
  spin := trivial
  stale := trivial
  structural _ := trivial

/-! ## The services -/

theorem obeys_claimEvents {claimedAt : Time} {events : List DueEvent}
    (h : ∀ e ∈ events, e.importId ≠ i ∧ ¬ ks e.outboxId) :
    Py.Obeys (sparing i ks) (claimEvents claimedAt events) fun claimedEvents =>
      ∀ e ∈ claimedEvents, e.importId ≠ i := by
  induction events with
  | nil => exact .ret fun e he => nomatch he
  | cons event events ih =>
    refine .seq (.ask (h event List.mem_cons_self).2) fun claimToken _ =>
      .seq (ih fun e he => h e (List.mem_cons_of_mem _ he)) fun claimedEvents hc =>
        .ret fun e he => ?_
    rcases List.mem_cons.1 he with rfl | he
    · exact (h event List.mem_cons_self).1
    · exact hc e he

theorem obeys_recordPublishFailure {claimedEvent : ClaimedOutboxEvent}
    (h : claimedEvent.importId ≠ i) (e : Exc) :
    Py.Obeys (sparing i ks) (recordPublishFailure env claimedEvent e) fun _ => True := by
  have hpersist : ∀ failedAt message attemptCount exhausted availableAt, Py.Obeys (sparing i ks)
      (persistPublishFailure claimedEvent failedAt message attemptCount exhausted availableAt)
      fun _ => True := by
    refine fun failedAt message attemptCount exhausted availableAt =>
      .seq (.ask trivial) fun failureRecorded _ => ?_
    split
    · exact .seq (.ask h) fun _ _ => .ret trivial
    · exact .ret trivial
  exact .seq (.issue trivial) fun failedAt _ => .seq (.lift fun _ => trivial) fun availableAt _ =>
    .withSession (.inTransaction (hpersist _ _ _ _ _))

theorem obeys_publishDueEvents :
    Py.Obeys (sparing i ks) (publishDueEvents env) fun _ => True := by
  refine .seq (M := fun claimedEvents => ∀ e ∈ claimedEvents, e.importId ≠ i)
    (.withSession (.inTransaction (.seq (.issue trivial) fun claimedAt _ =>
      .seq (.query trivial fun events he => he events rfl) fun events he => obeys_claimEvents he)))
    fun claimedEvents hc => .seq (.forEach fun e he => ?_) fun _ _ => .ret trivial
  refine .attempted (.issue (hc e he)) (fun _ _ => ?_) fun exc _ =>
    obeys_recordPublishFailure (hc e he) exc
  exact .seq (.withSession (.inTransaction (.ask trivial))) fun _ _ => .ret trivial

theorem obeys_recoverStaleClaims :
    Py.Obeys (sparing i ks) (recoverStaleClaims env) fun _ => True := by
  have hall : ∀ recoveredAt (staleClaims : List StaleOutboxClaim),
      (∀ e ∈ staleClaims, e.importId ≠ i) → Py.Obeys (sparing i ks)
        (recoverStaleClaimsInTransaction env recoveredAt staleClaims) fun _ => True := by
    intro recoveredAt staleClaims
    induction staleClaims with
    | nil => exact fun _ => .ret trivial
    | cons staleClaim staleClaims ih =>
      intro h
      refine .seq (M := fun _ => True) ?_ fun exhausted _ =>
        .seq (ih fun e he => h e (List.mem_cons_of_mem _ he)) fun rest _ => .ret trivial
      unfold recoverStaleClaim
      split
      · refine .seq (.ask trivial) fun failed _ => ?_
        cases failed with
        | true => exact .seq (.ask (h _ List.mem_cons_self)) fun _ _ => .ret trivial
        | false => exact .ret trivial
      · exact .seq (.ask trivial) fun _ _ => .ret trivial
  exact .seq (.issue trivial) fun recoveredAt _ => .seq (.lift fun _ => trivial)
    fun staleBefore _ => .withSession (.inTransaction (.seq (.query trivial
      fun staleClaims h => h staleClaims rfl)
      fun staleClaims h => hall recoveredAt staleClaims h))

theorem obeys_recoverStaleImports {settings : Settings} {batchSize : Nat} :
    Py.Obeys (sparing i ks) (recoverStaleImports settings batchSize) fun _ => True :=
  .seq (.issue trivial) fun _ _ => .seq (.lift fun _ => trivial) fun _ _ =>
    .seq (M := fun _ => True) (.withSession (.inTransaction
      (.seq (.query trivial fun staleImports h => h staleImports rfl) fun _ h =>
        .seq (.forEach fun j hj => .ask (h j hj)) fun _ _ =>
          .seq (.forEach fun j hj => .ask (h j (List.mem_filter.1 hj).1)) fun _ _ =>
            .ret trivial))) fun _ _ => .ret trivial

theorem obeys_createImport {settings : Settings} {request : CreateRequest} :
    Py.Obeys (sparing i ks) (createImport settings request) fun _ => True := by
  have hexisting : ∀ existing, Py.Obeys (sparing i ks) (existingOutcome request existing)
      fun _ => True := by
    intro existing
    unfold existingOutcome
    split
    · exact .raise trivial
    · exact .ret trivial
  have hkey : ∀ key, Py.Obeys (sparing i ks) (lookupIdempotencyKey key) fun _ => True := by
    intro key
    cases key with
    | none => exact .ret trivial
    | some key => exact .ask trivial
  have hpersist : Py.Obeys (sparing i ks) (persistImport settings request) fun _ => True := by
    refine .attempted (M := fun _ => True) (.seq (.query trivial fun importId h => h importId rfl)
      fun importId h => .seq (.ask h) fun _ _ => .seq (.issue trivial) fun _ _ => .ret trivial)
      (fun importId _ => .seq (.ask trivial) fun result _ => ?_) fun e _ => ?_
    · cases result with
      | none => exact .raise trivial
      | some result => exact .ret trivial
    · split
      · refine .seq (.issue trivial) fun _ _ => ?_
        split
        · exact .raise trivial
        · refine .seq (.ask trivial) fun existing _ => ?_
          cases existing with
          | none => exact .raise trivial
          | some existing => exact hexisting existing
      · exact .seq (.issue trivial) fun _ _ => .raise trivial
      · exact .seq (.issue trivial) fun _ _ => .raise trivial
      · exact .raise trivial
      · next h => cases h
  refine .withSession (.seq (.ask trivial) fun _ _ => .seq (hkey _) fun existing _ => ?_)
  cases existing with
  | some existing => exact hexisting existing
  | none =>
    refine .seq (.ask trivial) fun existing _ => ?_
    cases existing with
    | some existing => exact .raise trivial
    | none => exact hpersist

theorem obeys_processImportTask {message : Message} {hostname : Option WorkerName} {p : Token}
    (h : message.importId ≠ i) :
    Py.Obeys (sparing i ks) (processImportTask env message hostname p) fun _ => True := by
  have herror : ∀ claimedImport e, Py.Obeys (sparing i ks) (handleError claimedImport e)
      fun _ => True := by
    intro claimedImport e
    cases claimedImport with
    | none =>
      unfold handleError
      split
      · exact .ret trivial
      · exact .ret trivial
      · exact .raise trivial
      · exact .raise trivial
    | some c =>
      by_cases he : e = .raised .operationalError
      · subst he
        show Py.Obeys (sparing i ks) (handleOperationalFailure c) _
        unfold handleOperationalFailure
        split
        · exact .markFailed (sparing_works _) _
        · refine .seq (.inTransaction (.ask trivial)) fun requeued _ => ?_
          cases requeued with
          | true => exact .raise trivial
          | false => exact .ret trivial
      · exact .handleError (sparing_works _) he
  have hclaim : Py.Obeys (sparing i ks)
      (claimPendingImport message.importId p (workerName hostname)) fun _ => True := by
    refine .seq (.ask trivial) fun o _ => ?_
    cases o with
    | none => exact .ret trivial
    | some _ => exact .ask h
  refine .handle (.withSession (.seq (.transaction hclaim fun _ _ => .ret trivial)
    fun o _ => ?_)) fun e _ => ?_
  · rcases o with ⟨claimedImport, e⟩ | (_ | c)
    · exact herror _ _
    · exact .ret trivial
    · exact .handle (.processClaimed (sparing_works _)) fun e _ => herror _ _
  · split
    · exact .seq (.issue trivial) fun never _ => nomatch never
    · exact .raise trivial

/-- Only the workers with a message of an import see to it unasked. -/
theorem obeys_taskProgram {t : Task} (ht : t.subject ≠ some i) (p : Nat) :
    Py.Obeys (sparing i ks) (taskProgram env p t) fun _ => True := by
  cases t with
  | createImport request => exact .seq obeys_createImport fun _ _ => .ret trivial
  | publishDueEvents => exact .seq obeys_publishDueEvents fun _ _ => .ret trivial
  | recoverStaleClaims => exact .seq obeys_recoverStaleClaims fun _ _ => .ret trivial
  | processImport message hostname =>
    exact .seq (obeys_processImportTask fun h => ht (congrArg some h)) fun _ _ => .ret trivial
  | recoverStaleImports caller => exact .seq obeys_recoverStaleImports fun _ _ => .ret trivial

end programs

/-! ## What the sessions see -/

/-- The job `r` waits, and its events, those with a number in `ks`, are done with. Both hold of what
the open transactions have changed as well. -/
structure Database.Rests (r : Version ImportJob) (ks : Nat → Prop) (d : Database) : Prop where
  wf : d.Wf
  pending : r.val.status = .pending
  job : d.importJobs.Everywhere fun r' => r'.id = r.id → r' = r
  events : d.importDispatchOutbox.Everywhere fun o => (o.val.importId = r.id → ks o.id) ∧
    (ks o.id → o.val.status ≠ .pending ∧ o.val.status ≠ .processing)
  known : r.id < d.issued
  numbered : ∀ k, ks k → k < d.issued

namespace Database.Rests

variable {r : Version ImportJob} {ks : Nat → Prop} {d d' : Database} {p : Nat}

theorem congr (h : d.Rests r ks) (hw : d'.Wf) (hj : d'.importJobs = d.importJobs)
    (ho : d'.importDispatchOutbox = d.importDispatchOutbox) (hi : d.issued ≤ d'.issued) :
    d'.Rests r ks :=
  ⟨hw, h.pending, hj ▸ h.job, ho ▸ h.events, Nat.lt_of_lt_of_le h.known hi,
    fun k hk => Nat.lt_of_lt_of_le (h.numbered k hk) hi⟩

theorem updateJobs (h : d.Rests r ks) {sel : Version ImportJob → Bool} {f : ImportJob → ImportJob}
    {o : Except Fault (List (Version ImportJob))} (hu : d.updateJobs p sel f = some (o, d'))
    (hsel : sel r = false) : d'.Rests r ks := by
  have hown := Database.updateJobs_own h.wf hu
  rcases Database.updateJobs_spec hu with ⟨new, T, -, hT, rfl, -⟩ | ⟨-, rfl, -⟩
  · refine ⟨hown.wf, h.pending, h.job.updateWhere h.wf.jobs hT fun x _ hx hp hid => ?_, h.events,
      h.known, h.numbered⟩
    rw [hp hid, hsel] at hx
    cases hx
  · exact h

theorem updateOutbox (h : d.Rests r ks) {sel : Version ImportDispatchOutbox → Bool}
    {f : ImportDispatchOutbox → ImportDispatchOutbox}
    {o : Except Fault (List (Version ImportDispatchOutbox))}
    (hu : d.updateOutbox p sel f = some (o, d')) (hf : ∀ x, (f x).importId = x.importId)
    (hsel : ∀ x, sel x = true → x.val.status = .pending ∨ x.val.status = .processing ∨ ¬ ks x.id) :
    d'.Rests r ks := by
  have hown := Database.updateOutbox_own h.wf hu
  simp only [Database.updateOutbox, Option.map_eq_some_iff] at hu
  obtain ⟨⟨new, T⟩, hT, hu⟩ := hu
  cases hu
  refine ⟨hown.wf, h.pending, h.job, h.events.updateWhere h.wf.outbox hT fun x _ hx hp => ?_,
    h.known, h.numbered⟩
  have hk : ¬ ks x.id := fun hk => by
    rcases hsel x hx with hs | hs | hn
    · exact (hp.2 hk).1 hs
    · exact (hp.2 hk).2 hs
    · exact hn hk
  exact ⟨fun hi => hp.1 ((hf x.val).symm.trans hi), fun hk' => absurd hk' hk⟩

theorem referenceJob (h : d.Rests r ks) {i : ImportId} {o : Except Fault Unit}
    (hu : d.referenceJob p i = some (o, d')) : d'.Rests r ks := by
  have hown := Database.referenceJob_own h.wf hu
  unfold Database.referenceJob at hu
  split at hu
  · obtain ⟨T, hT, hu⟩ := Option.map_eq_some_iff.1 hu
    cases hu
    exact ⟨hown.wf, h.pending, h.job.keyShare h.wf.jobs hT, h.events, h.known, h.numbered⟩
  · cases hu
    exact h

/-- What a query does that does not see to the import, and that its reply does not name it. -/
theorem exec {server : Server} {clock : Time} (h : d.Rests r ks) {q : Query}
    (hq : q.Avoids r.id ks) {o : Except Fault q.Reply}
    (hx : d.exec server clock p q = some (o, d')) :
    d'.Rests r ks ∧ ∀ a, o = .ok a → q.Spares r.id ks a := by
  have hwf := (Database.exec_own h.wf hx).wf
  cases q with
  | lockPendingImport j =>
    cases hx
    exact ⟨⟨hwf, h.pending, h.job.lockWhere, h.events, h.known, h.numbered⟩, fun _ _ => trivial⟩
  | claimPendingImport j token worker =>
    obtain ⟨_, hu, -⟩ := mapReply_eq hx
    exact ⟨h.updateJobs hu (by simp [claimable, Ne.symm hq]), fun _ _ => trivial⟩
  | updateCurrentProcessingImport j token values =>
    obtain ⟨_, hu, -⟩ := mapReply_eq hx
    exact ⟨h.updateJobs hu (by simp [owned, h.pending]), fun _ _ => trivial⟩
  | saveImportJob j values =>
    obtain ⟨_, hu, -⟩ := mapReply_eq hx
    exact ⟨h.updateJobs hu (by simp [Ne.symm hq]), fun _ _ => trivial⟩
  | failPendingImport j reason =>
    obtain ⟨_, hu, -⟩ := mapReply_eq hx
    exact ⟨h.updateJobs hu (by simp [Ne.symm hq]), fun _ _ => trivial⟩
  | lockStaleImports staleBefore batchSize =>
    rcases Database.limited_cases hx with ⟨rfl, rfl⟩ | ⟨rfl, rfl⟩
    · refine ⟨⟨hwf, h.pending, h.job.lockWhere, h.events, h.known, h.numbered⟩, ?_⟩
      rintro _ ⟨⟩ j hj hid
      obtain ⟨x, hx, rfl⟩ := List.mem_map.1 hj
      -- a stale import is being processed
      obtain ⟨hv, hp⟩ := List.mem_filter.1 (Server.mem_oldest hx)
      simp [h.job.view hv hid, h.pending] at hp
    · exact ⟨h, by rintro _ ⟨⟩⟩
  | insertImportJob importJob =>
    rcases Database.exec_insertImportJob hx with
      ⟨-, -, rfl, rfl⟩ | ⟨stored, -, ⟨-, rfl, rfl⟩ | ⟨T, hT, rfl, rfl⟩⟩
    · exact ⟨h, by rintro _ ⟨⟩⟩
    · exact ⟨h, by rintro _ ⟨⟩⟩
    · refine ⟨⟨hwf, h.pending, h.job.insertUnique h.wf.jobs hT fun e => ?_, h.events,
        Nat.lt_succ_of_lt h.known, fun k hk => Nat.lt_succ_of_lt (h.numbered k hk)⟩, ?_⟩
      · exact absurd e (Nat.ne_of_gt h.known)
      · rintro _ ⟨⟩
        exact Nat.ne_of_gt h.known
  | insertDispatchIntent j availableAt =>
    have ho := Database.own_outbox (s := p) h.wf (Nat.le_succ _)
      (Table.insert_spec h.wf.outbox (.new j availableAt (d.now p clock))).1
    have hrests : Database.Rests r ks { d with
        importDispatchOutbox := d.importDispatchOutbox.insert p d.issued
          (.new j availableAt (d.now p clock)), issued := d.issued + 1 } :=
      ⟨ho.wf, h.pending, h.job, h.events.insert h.wf.outbox
        ⟨fun e => absurd e hq, fun hk => absurd (h.numbered _ hk) (Nat.lt_irrefl _)⟩,
        Nat.lt_succ_of_lt h.known, fun k hk => Nat.lt_succ_of_lt (h.numbered k hk)⟩
    exact ⟨hrests.referenceJob hx, fun _ _ => trivial⟩
  | checkImportExists j => exact ⟨h.referenceJob hx, fun _ _ => trivial⟩
  | lockDueEvents batchSize claimedAt =>
    rcases Database.limited_cases hx with ⟨rfl, rfl⟩ | ⟨rfl, rfl⟩
    · refine ⟨⟨hwf, h.pending, h.job, h.events.lockWhere, h.known, h.numbered⟩, ?_⟩
      rintro _ ⟨⟩ e he
      obtain ⟨x, hx, rfl⟩ := List.mem_map.1 he
      -- an event that is due waits
      obtain ⟨hv, hp⟩ := List.mem_filter.1 (Server.mem_oldest hx)
      simp only [Bool.and_eq_true, beq_iff_eq] at hp
      have hk : ¬ ks x.id := fun hk => ((h.events.view hv).2 hk).1 hp.1.1
      exact ⟨fun hi => hk ((h.events.view hv).1 hi), hk⟩
    · exact ⟨h, by rintro _ ⟨⟩⟩
  | saveClaimedEvent k claimedAt =>
    obtain ⟨_, hu, -⟩ := mapReply_eq hx
    have ho := Database.own_issue (s := p) h.wf
    refine ⟨(h.congr ho.wf rfl rfl ho.issued).updateOutbox hu (fun _ => rfl) fun x hx => ?_,
      fun _ _ => trivial⟩
    exact .inr (.inr fun hk => hq (by rwa [← beq_iff_eq.1 hx]))
  | lockStaleClaims batchSize staleBefore =>
    rcases Database.limited_cases hx with ⟨rfl, rfl⟩ | ⟨rfl, rfl⟩
    · refine ⟨⟨hwf, h.pending, h.job, h.events.lockWhere, h.known, h.numbered⟩, ?_⟩
      rintro _ ⟨⟩ e he hi
      obtain ⟨x, hx, rfl⟩ := List.mem_map.1 he
      -- a stale claim is being processed
      obtain ⟨hv, hp⟩ := List.mem_filter.1 (Server.mem_oldest hx)
      simp only [Bool.and_eq_true, beq_iff_eq] at hp
      exact ((h.events.view hv).2 ((h.events.view hv).1 hi)).2 hp.1.1
    · exact ⟨h, by rintro _ ⟨⟩⟩
  | updateClaimedEvent k token values =>
    obtain ⟨_, hu, -⟩ := mapReply_eq hx
    refine ⟨h.updateOutbox hu (fun x => by cases values <;> rfl) fun x hx => ?_,
      fun _ _ => trivial⟩
    simp only [claimed, Bool.and_eq_true, beq_iff_eq] at hx
    exact .inr (.inl hx.1.2)
  | hasCurrentOwnership | findExistingShipmentCodes | getSnapshotByIdempotencyKey
  | getSnapshotByFingerprint | refreshImportJob =>
    cases hx
    exact ⟨h, fun _ _ => trivial⟩
  | deleteShipments | deleteImportErrors =>
    obtain ⟨x, hT, he⟩ := Option.map_eq_some_iff.1 hx
    cases he
    exact ⟨h.congr hwf rfl rfl (Nat.le_refl _), fun _ _ => trivial⟩
  | insertShipment shipment =>
    refine ⟨?_, fun _ _ => trivial⟩
    have hissued := (Database.exec_own h.wf hx).issued
    simp only [Database.exec] at hx
    split at hx
    · cases hx
      exact h
    · obtain ⟨x, hT, he⟩ := Option.map_eq_some_iff.1 hx
      cases x <;> cases he
      · exact h
      · exact h.congr hwf rfl rfl hissued
  | insertImportError importError =>
    refine ⟨?_, fun _ _ => trivial⟩
    have hissued := (Database.exec_own h.wf hx).issued
    simp only [Database.exec] at hx
    split at hx <;> cases hx
    · exact h.congr hwf rfl rfl hissued
    · exact h
  | acquireFingerprintLock fingerprint =>
    simp only [Database.exec] at hx
    split at hx
    · cases hx
      exact ⟨h.congr hwf rfl rfl (Nat.le_refl _), fun _ _ => trivial⟩
    · cases hx

theorem commit (h : d.Rests r ks) : (d.commit p).Rests r ks :=
  ⟨Database.wf_commit h.wf, h.pending, h.job.commit, h.events.commit, h.known, h.numbered⟩

theorem rollback (h : d.Rests r ks) : (d.rollback p).Rests r ks :=
  ⟨(Database.own_rollback h.wf).wf, h.pending, h.job.rollback, h.events.rollback, h.known,
    h.numbered⟩

end Database.Rests

/-! ## Runs -/

/-- The import rests, and no message of it waits. -/
structure World.Rests (r : Version ImportJob) (ks : Nat → Prop) (w : World) : Prop where
  db : w.db.Rests r ks
  queue : ∀ m ∈ w.queue, m.importId ≠ r.id

section
variable {env : Env} {r : Version ImportJob} {ks : Nat → Prop} {w w' : World} {p : Nat} {t : Task}

theorem World.Rests.push (h : w.Rests r ks) {m : Message} (hm : m.importId ≠ r.id) :
    (w.push m).Rests r ks := by
  refine ⟨h.db, fun m' hm' => ?_⟩
  rcases List.mem_append.1 hm' with hm' | hm'
  · exact h.queue m' hm'
  · rwa [List.mem_singleton.1 hm']

theorem World.Rests.perform (h : w.Rests r ks) (ht : t.subject ≠ some r.id) {s : Stmt}
    (hs : s.Avoids r.id ks) {o : Except Exc s.Reply} (hx : w.perform env p t s = some (o, w')) :
    (∀ a, o = .ok a → s.Spares r.id ks a) ∧ w'.Rests r ks := by
  cases s with
  | query q =>
    obtain ⟨⟨o', d⟩, hq, he⟩ := Option.map_eq_some_iff.1 hx
    cases he
    have hb := Database.own_begin (s := p) h.db.wf w.time
    obtain ⟨hd, hspares⟩ := (h.db.congr hb.wf rfl rfl hb.issued).exec hs hq
    refine ⟨fun a ha => hspares a ?_, hd, h.queue⟩
    cases o' with
    | ok b => exact congrArg _ (Except.ok.inj ha)
    | error f => cases ha
  | commit =>
    cases hx
    exact ⟨fun _ _ => trivial, h.db.commit, h.queue⟩
  | rollback | close =>
    cases hx
    exact ⟨fun _ _ => trivial, h.db.rollback, h.queue⟩
  | dispatchImport j =>
    cases hx
    exact ⟨fun _ _ => trivial, h.push hs⟩
  | selfRetry exc maxRetries =>
    refine ⟨fun _ _ => trivial, ?_⟩
    simp only [World.perform] at hx
    split at hx
    · next m hostname =>
      split at hx <;> cases hx
      · exact h
      · exact h.push fun hi => ht (congrArg some hi)
    · cases hx
  | uuid4 =>
    cases hx
    have ho := Database.own_issue (s := p) h.db.wf
    exact ⟨fun _ _ => trivial, h.db.congr ho.wf rfl rfl ho.issued, h.queue⟩
  | replaceFile source target | readSignature path =>
    simp only [World.perform] at hx
    split at hx <;> cases hx <;> exact ⟨fun _ _ => trivial, h.db, h.queue⟩
  | clock | loadWorkbook | readRows | makeUploadDir | createFile | readUpload | writeFile
  | deleteFile =>
    cases hx
    exact ⟨fun _ _ => trivial, h.db, h.queue⟩
  | spin => cases hx

/-- The same for statements that fail, or take effect and are reported as failed. -/
theorem World.Rests.exec (h : w.Rests r ks) (ht : t.subject ≠ some r.id) {s : Stmt} {ch : Choice}
    (hs : s.Avoids r.id ks) {o : Except Exc s.Reply}
    (hx : World.exec env p t s ch w = some (o, w')) :
    (∀ a, o = .ok a → s.Spares r.id ks a) ∧ w'.Rests r ks := by
  cases ch with
  | run => exact h.perform ht hs hx
  | fail f =>
    simp only [World.exec] at hx
    split at hx <;> cases hx
    exact ⟨by rintro _ ⟨⟩, h⟩
  | lost f =>
    cases s with
    | commit | dispatchImport =>
      simp only [World.exec] at hx
      split at hx
      · obtain ⟨x, hp, he⟩ := Option.map_eq_some_iff.1 hx
        cases he
        exact ⟨fun _ _ => trivial, (h.perform ht hs hp).2⟩
      · cases hx
    | _ => cases hx

/-- The processes of the service leave a resting import alone. -/
theorem keeper_rests (env : Env) (r : Version ImportJob) (ks : Nat → Prop) :
    Keeper (service env) (sparing r.id ks).replies (sparing r.id ks).issues
      (fun t => t.subject ≠ some r.id) (World.Rests r ks) where
  body p t ht := (obeys_taskProgram ht p []).mono fun _ _ _ => trivial
  exec ht hs hw hx := hw.exec ht hs hx
  launch {p t w w'} hw hl := by
    cases t with
    | processImport message hostname =>
      simp only [service, World.launch, Option.ite_none_right_eq_some, Option.some.injEq] at hl
      obtain ⟨hm, rfl⟩ := hl
      exact ⟨fun e => hw.queue message hm (Option.some.inj e), hw.db,
        fun m hm => hw.queue m (List.mem_of_mem_erase hm)⟩
    | createImport | publishDueEvents | recoverStaleClaims | recoverStaleImports =>
      cases hl
      exact ⟨by rintro ⟨⟩, hw⟩
  close _ hw := hw
  abort {p t w} ht hw := by
    have hback : (w.rollback p).Rests r ks := ⟨hw.db.rollback, hw.queue⟩
    cases t with
    | processImport message hostname => exact hback.push fun e => ht (congrArg some e)
    | createImport | publishDueEvents | recoverStaleClaims | recoverStaleImports => exact hback
  tick {a w w'} hw hl := by
    cases a with
    | advance microseconds =>
      obtain ⟨time, -, rfl⟩ := World.tick_advance.1 hl
      exact ⟨hw.db, hw.queue⟩
    | duplicate message =>
      simp only [service, World.tick, Option.ite_none_right_eq_some, Option.some.injEq] at hl
      obtain ⟨hm, rfl⟩ := hl
      exact hw.push (hw.queue message hm)

end

section
variable {env : Env} {c c' : State}

/-- Where no process runs, a PENDING import without a dispatch rests. -/
theorem Reachable.rests (h : Reachable env c) (hq : c.Quiet) {r : Version ImportJob}
    (hr : r ∈ c.world.db.importJobs.rows) (hp : r.val.status = .pending)
    (hd : ¬ LiveDispatch c r.id) : c.world.Rests r fun k =>
      ∃ o ∈ c.world.db.importDispatchOutbox.rows, o.id = k ∧ o.val.importId = r.id := by
  obtain ⟨g, hg⟩ := h.inv
  have hidle : ∀ s, c.world.db.Idle s := fun s => h.idle (hq s)
  refine ⟨⟨hg.wf, hp, .of_idle (fun s => (hidle s).jobs) fun r' hr' hid => ?_,
    .of_idle (fun s => (hidle s).outbox) fun o ho => ⟨fun hi => ⟨o, ho, rfl, hi⟩, ?_⟩,
    hg.wf.jobs.below r hr, ?_⟩, fun m hm hi => hd (.inr (.inl ⟨m, hm, hi⟩))⟩
  · exact Table.eq_of_id hg.wf.jobs.nodup hr' hr hid
  · rintro ⟨o', ho', hid, hi⟩
    obtain rfl := Table.eq_of_id hg.wf.outbox.nodup ho' ho hid
    exact ⟨fun hs => hd (.inl ⟨_, ho', hi, .inl hs⟩), fun hs => hd (.inl ⟨_, ho', hi, .inr hs⟩)⟩
  · rintro k ⟨o, ho, rfl, -⟩
    exact hg.wf.outbox.below o ho

/-- An import that waits without a dispatch, where no process runs, stays as it is: no run ever
changes its job, whatever is started and whatever fails. -/
theorem stranded_imports_stay (h : Reachable env c) (hq : c.Quiet) {r : Version ImportJob}
    (hr : r ∈ c.world.db.importJobs.rows) (hp : r.val.status = .pending)
    (hd : ¬ LiveDispatch c r.id) (hrun : (service env).Run Machine.anyAction c c') :
    r ∈ c'.world.db.importJobs.rows := by
  have hrests := ((Keeper.Holds.of_quiet (keeper_rests env r _) (h.rests hq hr hp hd) hq).run
    hrun).world
  obtain ⟨r', hr'⟩ := Option.ne_none_iff_exists'.1 (h.job_stays hrun (i := r.id)
    (by rw [h.slice_job hr]; simp))
  obtain ⟨hmem, hid⟩ := (Database.job_eq_some hrests.db.wf).1 hr'
  rwa [← hrests.db.job.rows r' hmem hid]

set_option maxRecDepth 100000 in
/-- An import whose worker failed to commit its claim waits in every later state. -/
theorem strandedRun_stays : ∃ c : State,
    (service oneRowEnv).trace State.initial strandedRun = some c ∧
      ∀ c' : State, (service oneRowEnv).Run Machine.anyAction c c' →
        ∃ r ∈ c'.world.db.importJobs.rows, r.id = 0 ∧ r.val.status = .pending := by
  have hrun : ∃ c, (service oneRowEnv).trace State.initial strandedRun = some c ∧
      (∃ r ∈ c.world.db.importJobs.rows, r.id = 0 ∧ r.val.status = .pending) ∧
      (∀ o ∈ c.world.db.importDispatchOutbox.rows, o.val.status = .published) ∧
      c.world.queue = [] ∧ ∀ x ∈ c.procs, x.isNone = true :=
    exists_trace (by decide +kernel)
  obtain ⟨c, hc, ⟨r, hr, hid, hp⟩, ho, hqueue, hprocs⟩ := hrun
  have hq : State.Quiet c := fun p => by
    cases hx : c.proc p with
    | none => rfl
    | some x =>
      simp only [Config.proc, Option.join_eq_some_iff] at hx
      exact absurd (hprocs _ (List.mem_of_getElem? hx)) (by simp)
  have hd : ¬ LiveDispatch c r.id := by
    rintro (⟨o, hm, -, hs⟩ | ⟨m, hm, -⟩ | ⟨p, t, x, hx, -⟩)
    · rw [ho o hm] at hs
      simp at hs
    · rw [hqueue] at hm
      cases hm
    · rw [hq p] at hx
      cases hx
  have hc' : Reachable oneRowEnv c := Machine.run_of_trace _ hc
  exact ⟨c, hc, fun c' hrun => ⟨r, stranded_imports_stay hc' hq hr hp hd hrun, hid, hp⟩⟩

end

end ShipmentImport
