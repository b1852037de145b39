import ShipmentImport.Properties.Passes
import ShipmentImport.Refinement.Disciplines

/-!
# A worker that nothing disturbs

A worker that is alone and whose statements do not fail takes its import one step on: it claims it,
and whatever it finds in the workbook, the import does not go back to PENDING. An import only goes
back where an operational error is raised, which the statements do not raise by themselves.
-/

namespace ShipmentImport

/-! ## Calm programs -/

/-- The queries of a worker after its claim, the requeue apart. -/
def Query.Calm : Query → Prop
  | updateCurrentProcessingImport _ _ (.requeueForRetry _) => False
  | updateCurrentProcessingImport .. | hasCurrentOwnership .. | checkImportExists _ => True
  | deleteShipments _ | deleteImportErrors _ | insertShipment _ | insertImportError _ => True
  | findExistingShipmentCodes _ => True
  | _ => False

def Stmt.Calm : Stmt → Prop
  | query q => q.Calm
  | selfRetry .. => False
  | _ => True

/-- An exception that does not make the worker requeue its import. -/
def Exc.Calm : Exc → Prop
  | raised f => f ≠ .operationalError
  | retryableImportProcessingError _ | retry => False
  | _ => True

/-- No workbook makes its reader raise an error of the database driver. -/
def Env.ReadsCalmly (env : Env) : Prop := ∀ path, env.workbook path ≠ .error .operationalError

section
variable {env : Env} {p : Nat} {t : Task} {w w' : World}

theorem varchar_ne (n : Nat) (s : String) : varchar n s ≠ .error .operationalError :=
  fun h => nomatch varchar_error h

theorem numeric_ne (precision scale : Nat) (x : PyDecimal) :
    numeric precision scale x ≠ .error .operationalError := by
  unfold numeric
  split
  · split <;> simp
  · simp

theorem Shipment.store_ne (s : Shipment) : s.store ≠ .error .operationalError := by
  intro h
  obtain ⟨_, h⟩ := exists_error_of_bind h (varchar_ne _ _)
  obtain ⟨_, h⟩ := exists_error_of_bind h (varchar_ne _ _)
  obtain ⟨_, h⟩ := exists_error_of_bind h (varchar_ne _ _)
  obtain ⟨_, h⟩ := exists_error_of_bind h (varchar_ne _ _)
  obtain ⟨_, h⟩ := exists_error_of_bind h (numeric_ne _ _ _)
  obtain ⟨_, h⟩ := exists_error_of_bind h (numeric_ne _ _ _)
  obtain ⟨_, h⟩ := exists_error_of_bind h (varchar_ne _ _)
  dsimp only at h
  split at h <;> cases h

/-- The rows are those of before, with as many attempts, and wait only where they did. -/
def GoesOn (rows rows' : List (Version ImportJob)) : Prop :=
  ∀ r' ∈ rows', ∃ r ∈ rows, r.id = r'.id ∧ r.val.attemptCount = r'.val.attemptCount ∧
    (r'.val.status = .pending → r.val.status = .pending)

theorem GoesOn.of_eq {rows rows' : List (Version ImportJob)} (h : rows' = rows) :
    GoesOn rows rows' := fun r hr => ⟨r, h ▸ hr, rfl, rfl, id⟩

/-- A query of a worker that runs raises no operational error, and no import waits because of
it. -/
theorem Database.exec_calm {server : Server} {clock : Time} {d d' : Database} (hd : d.Alone p)
    {q : Query} (hq : q.Calm) {r : Except Fault q.Reply}
    (hx : d.exec server clock p q = some (r, d')) : r ≠ .error .operationalError ∧
      GoesOn (d.importJobs.view p) (d'.importJobs.view p) := by
  cases q with
  | hasCurrentOwnership i token | findExistingShipmentCodes codes =>
    cases hx
    exact ⟨by simp, .of_eq rfl⟩
  | updateCurrentProcessingImport i token values =>
    obtain ⟨r', hu, rfl⟩ := mapReply_eq hx
    rcases updateJobs_spec hu with ⟨new, T, rfl, hT, rfl, -⟩ | ⟨rfl, rfl, -⟩
    · obtain ⟨T', hT', hview⟩ := hd.jobs.updateWhere hd.wf.jobs (p := owned i token)
        (f := (values.apply (d.now p clock) ·))
      rw [hT] at hT'
      cases hT'
      refine ⟨by simp [Except.map], fun r' hr' => ?_⟩
      rw [hview] at hr'
      obtain ⟨r, hr, rfl⟩ := List.mem_map.1 hr'
      refine ⟨r, hr, ?_⟩
      split
      · cases values <;> first
          | exact hq.elim
          | exact ⟨rfl, rfl, id⟩
          | exact ⟨rfl, rfl, fun h => nomatch h⟩
      · exact ⟨rfl, rfl, id⟩
    · exact ⟨by simp [Except.map], .of_eq rfl⟩
  | deleteShipments i | deleteImportErrors i =>
    obtain ⟨x, hx, he⟩ := Option.map_eq_some_iff.1 hx
    cases he
    exact ⟨by simp, .of_eq rfl⟩
  | insertShipment shipment =>
    simp only [exec] at hx
    split at hx
    · next f hf =>
      cases hx
      exact ⟨fun h => shipment.store_ne (hf.trans (congrArg _ (Except.error.inj h))), .of_eq rfl⟩
    · obtain ⟨x, hx, he⟩ := Option.map_eq_some_iff.1 hx
      cases x <;> cases he <;> exact ⟨by simp, .of_eq rfl⟩
  | insertImportError importError =>
    simp only [exec] at hx
    split at hx <;> cases hx <;> exact ⟨by simp, .of_eq rfl⟩
  | checkImportExists i =>
    simp only [exec, referenceJob] at hx
    split at hx
    · obtain ⟨T, hT, he⟩ := Option.map_eq_some_iff.1 hx
      cases he
      obtain ⟨T', hT', hview⟩ := hd.jobs.keyShare i
      rw [hT] at hT'
      cases hT'
      exact ⟨by simp, .of_eq hview⟩
    · cases hx
      exact ⟨by simp, .of_eq rfl⟩
  | _ => exact hq.elim

/-- What a calm statement replies. -/
theorem World.perform_error (hw : env.ReadsCalmly) (hd : w.db.Alone p) {s : Stmt} (hs : s.Calm)
    {e : Exc} (hx : w.perform env p t s = some (.error e, w')) : e.Calm := by
  cases s with
  | query q =>
    obtain ⟨⟨r, d⟩, hexec, he⟩ := Option.map_eq_some_iff.1 hx
    have hne := (Database.exec_calm (hd.begin w.time) hs hexec).1
    cases r with
    | ok a => cases he
    | error f =>
      cases he
      exact fun h => hne (congrArg _ h)
  | loadWorkbook path =>
    simp only [World.perform, Option.some.injEq, Prod.mk.injEq] at hx
    cases hb : env.workbook path with
    | ok a => rw [hb] at hx; cases hx.1
    | error f =>
      rw [hb] at hx
      cases hx.1
      exact fun h => hw path (hb.trans (congrArg _ h))
  | selfRetry => exact hs.elim
  | replaceFile source target | readSignature path =>
    simp only [World.perform] at hx
    split at hx <;> cases hx
    exact Fault.noConfusion
  | _ => cases hx

/-- Import `i` has had more than `a` attempts and does not wait. -/
def JobsPast (i : ImportId) (a : Nat) (rows : List (Version ImportJob)) : Prop :=
  ∀ r ∈ rows, r.id = i → r.val.status ≠ .pending ∧ a < r.val.attemptCount

def World.Past (w : World) (p : Nat) (i : ImportId) (a : Nat) : Prop :=
  JobsPast i a w.db.importJobs.rows ∧ JobsPast i a (w.db.importJobs.view p)

/-- A calm statement does not take an import back. -/
theorem World.Past.perform {i : ImportId} {a : Nat} (h : w.Past p i a) (hd : w.db.Alone p)
    {s : Stmt} (hs : s.Calm) {r : Except Exc s.Reply} (hx : w.perform env p t s = some (r, w')) :
    w'.Past p i a := by
  have ht := (perform_touches hx).2
  unfold World.Past at *
  generalize w'.db = d at ht
  cases ht with
  | query hq =>
    have hb := Database.own_begin (s := p) hd.wf w.time
    have hrows := (hb.trans (Database.exec_own hb.wf hq)).rows.jobs
    have hon := (Database.exec_calm (hd.begin w.time) hs hq).2
    refine ⟨hrows ▸ h.1, fun r' hr' hi => ?_⟩
    obtain ⟨r, hr, hid, ha, hp⟩ := hon r' hr'
    obtain ⟨hne, hlt⟩ := h.2 r hr (hid.trans hi)
    exact ⟨fun hp' => hne (hp hp'), ha ▸ hlt⟩
  | commit =>
    have hview := Table.view_eq _ _ (w.db.importJobs.commit_staged p)
    exact ⟨h.2, fun r hr => h.2 r (Eq.mp (congrArg (r ∈ ·) hview) hr)⟩
  | rollback =>
    have hview := Table.view_eq _ _ (w.db.importJobs.rollback_staged p)
    exact ⟨h.1, fun r hr => h.1 r (Eq.mp (congrArg (r ∈ ·) hview) hr)⟩
  | other n => exact h

end

/-- A session that is alone gets the reply `r` to the statement `s` when nothing fails. -/
def RepliesCalmly (env : Env) (s : Stmt) (r : Except Exc s.Reply) : Prop :=
  ∃ p t w w', w.db.Alone p ∧ World.perform env p t w s = some (r, w')

/-- What a worker does that nothing disturbs. -/
def calm {env : Env} (hw : env.ReadsCalmly) : Discipline where
  replies := RepliesCalmly env
  issues := Stmt.Calm
  raises := Exc.Calm
  raised s e hs hr := by
    obtain ⟨p, t, w, w', hd, hx⟩ := hr
    exact World.perform_error hw hd hs hx
  commit := trivial
  rollback := trivial
  close := trivial

theorem calm_works {env : Env} (hw : env.ReadsCalmly) (i : ImportId) : (calm hw).Works i where
  query q hq := by
    cases q with
    | updateCurrentProcessingImport j token values =>
      cases values with
      | requeueForRetry => exact hq
      | _ => exact trivial
    | _ => first | exact trivial | exact hq
  loadWorkbook _ := trivial
  readRows := trivial
  spin := trivial
  stale := trivial
  structural _ := trivial

/-! ## The worker -/

section
variable {env : Env} {p : Nat} {t : Task} {i : ImportId} {a : Nat}

/-- The import has been claimed, and no other session has an open transaction. -/
abbrev World.PastAlone (p : Nat) (i : ImportId) (a : Nat) (w : World) : Prop :=
  w.db.Alone p ∧ w.Past p i a

/-- The import has been claimed, and what is raised is calm. -/
abbrev EndsCalmly (p : Nat) (i : ImportId) (a : Nat) {α : Type} (_ : Exchanges) (o : Except Exc α)
    (w : World) : Prop :=
  w.PastAlone p i a ∧ ∀ e, o = .error e → e.Calm

/-- An execution of a calm program leaves a claimed import behind. -/
theorem Py.Obeys.meets (hw : env.ReadsCalmly) {α : Type} {x : Py α} {N : α → Prop}
    (hx : Py.Obeys (calm hw) x N) :
    Prog.Meets (World.Performs env false p t) Eq (World.PastAlone p i a) x (EndsCalmly p i a) := by
  have hexec : ∀ (s : Stmt) (w : World) (r : Except Exc s.Reply) (w' : World), s.Calm →
      w.PastAlone p i a → World.Performs env false p t s w r w' →
        RepliesCalmly env s r ∧ w'.PastAlone p i a := fun s w r w' hs hw hx =>
    have hx : w.perform env p t s = some (r, w') :=
      (World.performs_cases hx).resolve_right fun h => nomatch h.1
    ⟨⟨p, t, w, w', hw.1, hx⟩, World.perform_alone hw.1 hx, hw.2.perform hw.1 hs hx⟩
  intro w τ o w' hw he
  have h := he.keeps_of hexec (hx []) hw
  exact ⟨h.1, h.2.2⟩

/-- Import `i` is seen to wait for one more attempt after `a`. -/
def Seen.Claimable (s : Seen) (i : ImportId) (a : Nat) : Prop :=
  (∃ r ∈ s.importJobs, claimable i r = true) ∧ ∀ r ∈ s.importJobs, r.id = i →
    claimable i r = true ∧ r.val.attemptCount = a ∧ r.val.failureReason = none

/-- A worker that sees its import wait claims it. -/
theorem returns_claimPendingImport {workerId : WorkerName} : Py.Returns env false p t
    (fun w => (w.seen p).Claimable i a) (claimPendingImport i p workerId)
    fun o w => (∃ c, o = some c) ∧ JobsPast i a (w.seen p).importJobs := by
  have hhead : ∀ {s : Seen}, s.Claimable i a → ∃ r, (s.importJobs.filter (claimable i)).head? =
      some r := by
    rintro s ⟨⟨r, hr, hc⟩, -⟩
    exact Option.isSome_iff_exists.1
      (List.isSome_head?.2 (List.ne_nil_of_mem (List.mem_filter.2 ⟨hr, hc⟩)))
  refine .seq (Py.Returns.lockPendingImport (N := fun o s =>
    (∃ k, o = some k) ∧ s.Claimable i a) |>.pre fun w h => ?_) fun o => .of_and ?_
  · obtain ⟨r, hr⟩ := hhead h
    exact ⟨⟨r.id, by rw [hr]; rfl⟩, h⟩
  · rintro ⟨k, rfl⟩
    refine Py.Returns.claimPendingImport (N := fun o s => (∃ c, o = some c) ∧
      JobsPast i a s.importJobs) |>.pre fun w h => ⟨fun r hr hc => ?_, fun now => ⟨?_,
        fun r' hr' hi => ?_⟩⟩
    · simp only [claimable, Bool.and_eq_true, beq_iff_eq] at hc
      exact (h.2 r hr hc.1.1).2.2
    · obtain ⟨r, hr⟩ := hhead h
      exact ⟨_, by rw [hr]; rfl⟩
    · obtain ⟨r, hr, rfl⟩ := List.mem_map.1 hr'
      cases hc : claimable i r with
      | true =>
        simp only [hc, if_true] at hi ⊢
        obtain ⟨-, rfl, -⟩ := h.2 r hr hi
        exact ⟨ImportStatus.noConfusion, Nat.lt_succ_self _⟩
      | false =>
        simp only [hc, Bool.false_eq_true, if_false] at hi
        rw [(h.2 r hr hi).1] at hc
        cases hc

/-- The transaction of the claim. -/
theorem meets_claim {workerId : WorkerName} : Prog.Meets (World.Performs env false p t) Eq
    (fun w => w.Alone p ∧ (w.seen p).Claimable i a)
    (transaction (claimPendingImport i p workerId) pure)
    fun _ o w => (∃ c, o = .ok (.ok (some c))) ∧ w.PastAlone p i a := by
  have htransaction : Py.Returns env false p t (fun w => (w.seen p).Claimable i a)
      (transaction (claimPendingImport i p workerId) pure) fun o w => ∃ o', o = .ok o' ∧
        ((∃ c, o' = some c) ∧ JobsPast i a (w.seen p).importJobs) ∧ w.db.Idle p :=
    .transaction (N := fun o' s => (∃ c, o' = some c) ∧ JobsPast i a s.importJobs)
      returns_claimPendingImport
  rintro w τ o w' ⟨hd, hA⟩ he
  obtain ⟨hd', _, rfl, _, rfl, ⟨⟨c, rfl⟩, hjobs⟩, hidle⟩ := htransaction.ends hd hA he
  have hview := Table.view_eq _ _ hidle.jobs.staged
  exact ⟨⟨c, rfl⟩, hd'.db, fun r hr => hjobs r (Eq.mpr (congrArg (r ∈ ·) hview) hr), hjobs⟩

/-- A worker claims an import that waits, and does not leave it waiting. -/
theorem meets_processImportTask (hw : env.ReadsCalmly) {message : Message}
    {hostname : Option WorkerName} : Prog.Meets (World.Performs env false p t) Eq
      (fun w => w.Alone p ∧ (w.seen p).Claimable message.importId a)
      (processImportTask env message hostname p)
      fun _ _ w => w.Past p message.importId a := by
  -- what `run` does with the import it claimed is calm
  have hcalm : ∀ c, Py.Obeys (calm hw) ((processClaimed env c).tryCatch (handleError (some c)))
      fun _ => True := fun c =>
    .handle (.processClaimed (calm_works hw _)) fun e he =>
      .handleError (calm_works hw _) fun h =>
        absurd rfl (h ▸ he : Exc.Calm (.raised .operationalError))
  have hok : Py.Obeys (calm hw) (do Py.stmt .close; return ()) fun _ => True :=
    .seq (.issue trivial) fun _ _ => .ret trivial
  have herror : ∀ e : Exc, e.Calm → Py.Obeys (calm hw) (do Py.stmt .close; throw e : Py Unit)
      fun _ => True := fun e he =>
    .seq (.issue trivial) fun _ _ => .raise he
  have hbody : Prog.Meets (World.Performs env false p t) Eq
      (fun w => w.Alone p ∧ (w.seen p).Claimable message.importId a)
      (run env message.importId p (workerName hostname)) (EndsCalmly p message.importId a) := by
    refine .attempted (M := EndsCalmly p message.importId a)
      (.bind meets_claim (fun τ o => .of_and ?_) ?_) fun τ o => ?_
    · rintro ⟨c, ho⟩
      cases ho
      exact (hcalm c).meets hw
    · rintro τ e w ⟨⟨c, ho⟩, -⟩
      cases ho
    · cases o with
      | ok => exact (hok.meets hw).pre fun w h => h.1
      | error e => exact fun w τ' o' w' h hx => (herror e (h.2 e rfl)).meets hw w τ' o' w' h.1 hx
  refine .attempted hbody fun τ o => ?_
  cases o with
  | ok a => exact .ret fun w h => h.1.2
  | error e =>
    rintro w τ' o' w' ⟨h, he⟩ hx
    cases e with
    | retryableImportProcessingError => exact (he _ rfl).elim
    | _ =>
      cases hx
      exact h.2

end

end ShipmentImport
