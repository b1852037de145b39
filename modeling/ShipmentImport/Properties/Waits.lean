import ShipmentImport.Properties.Deadlock
import ShipmentImport.Properties.DuplicateRace
import ShipmentImport.Properties.Outbox
import ShipmentImport.Refinement.Footprints

/-!
# Waits between processes

What each task may wait for, and what its transaction has taken when it does (`Task.MayWait`): a
request waits for the lock of its fingerprint before it takes anything else, a publisher for an
event or for the import of an event it has, a recovery of stale claims and the watchdog for nothing,
and a worker with nothing but codes it has inserted. Processes that wait for each other in a cycle
are therefore chunk transactions.
-/

namespace ShipmentImport

open Relation

/-! ## Who may wait -/

/-- Whether a query of a task may wait in a transaction that has taken things of these kinds. -/
def Task.MayWait (taken : List Resource) : Task → Query → Prop
  | .createImport _, .acquireFingerprintLock _ => taken = []
  | .createImport _, .insertImportJob _ => taken ⊆ [.advisory]
  | .publishDueEvents, .updateClaimedEvent .. => taken = []
  | .publishDueEvents, .failPendingImport .. => taken ⊆ [.event]
  | .processImport .., .updateCurrentProcessingImport ..
  | .processImport .., .insertShipment _ | .processImport .., .checkImportExists _ =>
    taken ⊆ [.code]
  | _, _ => False

theorem not_mayWait_deleteShipments {taken : List Resource} {t : Task} {importId : ImportId} :
    ¬ t.MayWait taken (.deleteShipments importId) := by
  cases t <;> exact id

theorem not_mayWait_deleteImportErrors {taken : List Resource} {t : Task} {importId : ImportId} :
    ¬ t.MayWait taken (.deleteImportErrors importId) := by
  cases t <;> exact id

/-- What a task may do next: a query that does not wait, or may, and nothing that never ends.
Nothing is said of what follows the exhaustion branch of a recovery, which no process gets to. -/
def Task.Proceeds (t : Task) (τ : Exchanges) : Stmt → Prop
  | .query q => q.Ready τ.footprint ∨ t.MayWait τ.footprint.taken q ∨ τ.footprint.exhausts = true
  | .selfRetry .. => t.role = .worker
  | .spin => False
  | _ => True

/-- Statements that end no transaction and ask the database nothing. -/
def Stmt.Quiet : Stmt → Prop
  | .query _ | .commit | .rollback | .close | .selfRetry .. | .spin => False
  | _ => True

theorem Stmt.Quiet.proceeds {t : Task} {τ : Exchanges} {s : Stmt} (h : s.Quiet) :
    t.Proceeds τ s := by
  cases s <;> first | exact h.elim | trivial

theorem Stmt.Quiet.footprint {τ : Exchanges} {s : Stmt} (h : s.Quiet)
    (r : Except Exc s.Reply) : Exchanges.footprint (τ ++ [⟨s, r⟩]) = τ.footprint := by
  rw [footprint_append]
  cases s <;> first | exact h.elim | rfl

section
variable {env : Env} {t : Task} {α β γ : Type}

/-! ### Inside a transaction -/

/-- From a footprint in `A` the program proceeds, and returns `a` with a footprint in `N a`. -/
def Py.Within (env : Env) (t : Task) (A : Footprint → Prop) (x : Py α)
    (N : α → Footprint → Prop) : Prop :=
  ∀ τ : Exchanges, A τ.footprint →
    Py.Free env t.Proceeds (fun τ' o => ∀ a, o = .ok a → N a τ'.footprint) τ x

namespace Py.Within

variable {A A' : Footprint → Prop} {N : α → Footprint → Prop} {M : β → Footprint → Prop}

theorem ret {a : α} (h : ∀ f, A f → N a f) : (pure a : Py α).Within env t A N := by
  rintro τ hτ _ ⟨⟩
  exact h _ hτ

theorem raise {e : Exc} : (throw e : Py α).Within env t A N := fun _ _ _ h => nomatch h

theorem weaken {N' : α → Footprint → Prop} {x : Py α} (hx : x.Within env t A N)
    (hA : ∀ f, A' f → A f) (hN : ∀ a f, N a f → N' a f) : x.Within env t A' N' :=
  fun τ hτ => (hx τ (hA _ hτ)).mono fun _ _ h a ha => hN a _ (h a ha)

theorem seq {x : Py α} {f : α → Py β} (hx : x.Within env t A N)
    (hf : ∀ a, (f a).Within env t (N a) M) : (x >>= f).Within env t A M := by
  intro τ hτ
  refine Prog.Free.bind ((hx τ hτ).mono fun τ' o h => ?_)
  cases o with
  | ok a => exact hf a τ' (h a rfl)
  | error e => exact fun _ h => nomatch h

theorem handle {x : Py α} {h : Exc → Py α} (hx : x.Within env t A N)
    (hh : ∀ e, (h e).Within env t (fun _ => True) N) : Py.Within env t A (x.tryCatch h) N := by
  intro τ hτ
  refine Prog.Free.tryCatch ((hx τ hτ).mono fun τ' o ho => ?_)
  cases o with
  | ok a => exact ho
  | error e => exact hh e τ' trivial

theorem attempt {x : Py α} (hx : x.Within env t A N) :
    Py.Within env t A x.attempt fun o f => ∀ a, o = .ok a → N a f := by
  refine fun τ hτ => Prog.Free.attempt ((hx τ hτ).mono fun τ' o h o' ho' => ?_)
  cases ho'
  exact h

/-- After the end of a transaction nothing is known of the footprint. -/
theorem ending {s : Stmt} (hs : s = .commit ∨ s = .rollback) :
    (Py.stmt s).Within env t A fun _ _ => True := by
  rcases hs with rfl | rfl <;> exact fun τ _ => Prog.Free.perform trivial fun _ _ _ _ => trivial

/-- Statements that ask the database nothing leave the footprint alone. -/
theorem stmt {s : Stmt} (hs : s.Quiet) : (Py.stmt s).Within env t A fun _ => A := fun _ hτ =>
  Prog.Free.perform hs.proceeds fun r _ _ _ => (hs.footprint r).symm ▸ hτ

theorem query {q : Query} {N : q.Reply → Footprint → Prop}
    (hq : ∀ f, A f → q.Ready f ∨ t.MayWait f.taken q)
    (h : ∀ f a, A f → N a (f.add ⟨.query q, .ok a⟩)) : (Py.query q).Within env t A N := by
  refine fun τ hτ => Prog.Free.perform ((hq _ hτ).imp_right .inl) fun r _ a ha => ?_
  subst ha
  rw [footprint_append]
  exact h _ a hτ

/-- Any query, once an event was given up. -/
theorem queryExhausted {q : Query} {N : q.Reply → Footprint → Prop}
    (hA : ∀ f, A f → f.exhausts = true) (h : ∀ f a, A f → N a (f.add ⟨.query q, .ok a⟩)) :
    (Py.query q).Within env t A N := by
  refine fun τ hτ => Prog.Free.perform (.inr (.inr (hA _ hτ))) fun r _ a ha => ?_
  subst ha
  rw [footprint_append]
  exact h _ a hτ

/-- A query that does not wait and takes nothing. -/
theorem read {q : Query} (hq : ∀ f, q.Ready f) (htakes : q.takes = none)
    (hjobs : ∀ a, q.jobsGranted a = []) (hevents : ∀ a, q.eventsGranted a = [])
    (hexhausts : q.exhausts = false) :
    (Py.query q).Within env t A fun _ => A := by
  refine query (fun f _ => .inl (hq f)) fun f a hf => ?_
  simpa only [Footprint.add, htakes, hjobs, hevents, hexhausts, Option.toList_none,
    List.nil_append, Bool.false_or] using hf

theorem forEach {xs : List α} {body : α → Py Unit}
    (h : ∀ x ∈ xs, (body x).Within env t A fun _ => A) :
    (ShipmentImport.forEach xs body).Within env t A fun _ => A := by
  induction xs with
  | nil => exact ret fun _ h => h
  | cons x xs ih =>
    exact seq (h x List.mem_cons_self) fun _ => ih fun y hy => h y (List.mem_cons_of_mem _ hy)

end Py.Within

/-! ### Between transactions -/

/-- Outside of a transaction, the program proceeds, leaves no transaction open, and returns
something of `B`. -/
def Py.Between (env : Env) (t : Task) (x : Py α) (B : α → Prop) : Prop :=
  ∀ τ : Exchanges, τ.footprint = {} →
    Py.Free env t.Proceeds (fun τ' o => τ'.footprint = {} ∧ ∀ a, o = .ok a → B a) τ x

/-- What an attempted transaction returned, or what it had assigned when it raised. -/
def Attempt.Meets (P : α → Prop) (B : β → Prop) : Attempt α β → Prop
  | .ok b => B b
  | .error (some a, _) => P a
  | .error (none, _) => True

namespace Py.Between

variable {B : α → Prop} {D : β → Prop}

theorem ret {a : α} (h : B a) : (pure a : Py α).Between env t B :=
  fun _ hτ => ⟨hτ, by rintro _ ⟨⟩; exact h⟩

theorem raise {e : Exc} : (throw e : Py α).Between env t B := fun _ hτ => ⟨hτ, fun _ h => nomatch h⟩

theorem lift {x : Except Fault α} : (Py.lift x).Between env t fun _ => True := by
  cases x with
  | ok a => exact ret trivial
  | error f => exact raise

theorem seq {x : Py α} {f : α → Py β} (hx : x.Between env t B)
    (hf : ∀ a, B a → (f a).Between env t D) : (x >>= f).Between env t D := by
  intro τ hτ
  refine Prog.Free.bind ((hx τ hτ).mono fun τ' o h => ?_)
  cases o with
  | ok a => exact hf a (h.2 a rfl) τ' h.1
  | error e => exact ⟨h.1, fun _ h => nomatch h⟩

theorem handle {x : Py α} {h : Exc → Py α} (hx : x.Between env t B)
    (hh : ∀ e, (h e).Between env t B) : Py.Between env t (x.tryCatch h) B := by
  intro τ hτ
  refine Prog.Free.tryCatch ((hx τ hτ).mono fun τ' o ho => ?_)
  cases o with
  | ok a => exact ho
  | error e => exact hh e τ' ho.1

theorem stmt {s : Stmt} (hs : s.Quiet) : (Py.stmt s).Between env t fun _ => True :=
  fun _ hτ => Prog.Free.perform hs.proceeds fun r _ =>
    ⟨(hs.footprint r).trans hτ, fun _ _ => trivial⟩

theorem attempt {s : Stmt} (hs : s.Quiet) :
    Py.Between env t (Py.stmt s).attempt fun _ => True :=
  fun _ hτ => Prog.Free.attempt (Prog.Free.perform hs.proceeds fun r _ =>
    ⟨(hs.footprint r).trans hτ, fun _ _ => trivial⟩)

theorem forEach {xs : List α} {body : α → Py Unit}
    (h : ∀ x, (body x).Between env t fun _ => True) :
    (ShipmentImport.forEach xs body).Between env t fun _ => True := by
  induction xs with
  | nil => exact ret trivial
  | cons x xs ih => exact seq (h x) fun _ _ => ih

/-- A program outside of transactions, where there is one. -/
theorem within {x : Py α} (h : x.Between env t B) :
    x.Within env t (fun f => f = {}) fun a _ => B a :=
  fun τ hτ => (h τ hτ).mono fun _ _ ho => ho.2

/-- The end of a session leaves nothing open. -/
theorem withSession {x : Py α} (hx : x.Within env t (fun f => f = {}) fun a _ => B a) :
    (ShipmentImport.withSession x).Between env t B := by
  have hclose : ∀ {τ : Exchanges} {r : Except Exc Unit},
      Exchanges.footprint (τ ++ [⟨.close, r⟩]) = {} := footprint_append _ _
  intro τ hτ
  refine Prog.Free.bind (Prog.Free.attempt ((hx τ hτ).mono fun τ' o ho => ?_))
  cases o with
  | ok a =>
    refine Prog.Free.bind (Prog.Free.perform trivial fun r _ => ?_)
    cases r with
    | ok _ => exact ⟨hclose, by rintro _ ⟨⟩; exact ho a rfl⟩
    | error e => exact ⟨hclose, fun _ h => nomatch h⟩
  | error e =>
    refine Prog.Free.bind (Prog.Free.perform trivial fun r _ => ?_)
    cases r with
    | ok _ => exact ⟨hclose, fun _ h => nomatch h⟩
    | error e => exact ⟨hclose, fun _ h => nomatch h⟩

theorem rollsBack {τ : Exchanges} {o : Except Exc α} (h : ∀ a, o = .ok a → B a) :
    RollsBack t.Proceeds (fun τ' o => τ'.footprint = {} ∧ ∀ a, o = .ok a → B a) τ o :=
  ⟨trivial, footprint_append _ _, h⟩

/-- The end of a transaction leaves nothing open, committed or not. -/
theorem transaction {first : Py α} {rest : α → Py β} {P : α → Prop} {K : α → Footprint → Prop}
    {B : β → Prop} (hfirst : first.Within env t (fun f => f = {}) fun a f => P a ∧ K a f)
    (hrest : ∀ a, P a → (rest a).Within env t (K a) fun b _ => B b) :
    (ShipmentImport.transaction first rest).Between env t (Attempt.Meets P B) := by
  intro τ hτ
  refine free_transaction ((hfirst τ hτ).mono fun τ₁ o ho => ?_)
  cases o with
  | error e => exact rollsBack fun _ h => by cases h; trivial
  | ok a =>
    obtain ⟨hp, hk⟩ := ho a rfl
    refine (hrest a hp τ₁ hk).mono fun τ₂ o ho => ?_
    cases o with
    | error e => exact rollsBack fun _ h => by cases h; exact hp
    | ok b =>
      refine ⟨trivial, ⟨footprint_append _ _, fun _ h => by cases h; exact ho b rfl⟩,
        fun f _ => rollsBack fun _ h => by cases h; exact hp⟩

theorem inTransaction {body : Py α}
    (h : body.Within env t (fun f => f = {}) fun a _ => B a) :
    (ShipmentImport.inTransaction body).Between env t B := by
  refine seq (transaction (P := B) (K := fun _ _ => True) (B := B)
    (h.weaken (fun _ h => h) fun _ _ h => ⟨h, trivial⟩) fun a ha => .ret fun _ _ => ha)
    fun o ho => ?_
  rcases o with ⟨_ | a, e⟩ | b
  · exact raise
  · exact raise
  · exact ret ho

end Py.Between

/-! ### Requests -/

theorem within_existingOutcome {A : Footprint → Prop} (request : CreateRequest)
    (existing : ImportSnapshot) :
    (existingOutcome request existing).Within env t A fun _ _ => True := by
  unfold existingOutcome
  split
  · exact .raise
  · exact .ret fun _ _ => trivial

theorem within_createRecords (request : CreateRequest) :
    (createRecords env.settings request).Within env (.createImport request)
      (fun f => f.taken ⊆ [.advisory]) fun _ _ => True := by
  refine .seq (N := fun importId f => importId ∈ f.jobs) (.query (fun f hf => .inr hf)
    fun f importId _ => List.mem_append_left _ (List.mem_singleton.2 rfl)) fun importId => ?_
  refine .seq (N := fun _ _ => True) (.query (fun f hf => .inl hf) fun _ _ _ => trivial) fun _ => ?_
  exact .seq (.ending (.inl rfl)) fun _ => .ret fun _ _ => trivial

theorem within_persistImport (request : CreateRequest) :
    (persistImport env.settings request).Within env (.createImport request)
      (fun f => f.taken ⊆ [.advisory]) fun _ _ => True := by
  have hread : ∀ {A : Footprint → Prop} {key : String},
      (Py.query (.getSnapshotByIdempotencyKey key)).Within env (.createImport request) A
        fun _ => A :=
    .read (fun _ => trivial) rfl (fun _ => rfl) (fun _ => rfl) rfl
  have hrefresh : ∀ {A : Footprint → Prop} {i : ImportId},
      (Py.query (.refreshImportJob i)).Within env (.createImport request) A fun _ => A :=
    .read (fun _ => trivial) rfl (fun _ => rfl) (fun _ => rfl) rfl
  unfold persistImport
  refine .seq (N := fun _ _ => True) ((within_createRecords request).attempt.weaken (fun _ h => h)
    fun _ _ _ => trivial) fun o => ?_
  split
  · refine .seq (.ending (.inr rfl)) fun _ => ?_
    split
    · exact .raise
    · refine .seq hread fun existing => ?_
      split
      · exact .raise
      · exact within_existingOutcome request _
  · exact .seq (.ending (.inr rfl)) fun _ => .raise
  · exact .seq (.ending (.inr rfl)) fun _ => .raise
  · exact .raise
  · refine .seq hrefresh fun result => ?_
    split
    · exact .raise
    · exact .ret fun _ _ => trivial

/-- A request waits for the lock of its fingerprint, and with it for the import with its key. -/
theorem between_createImport (request : CreateRequest) :
    (createImport env.settings request).Between env (.createImport request) fun _ => True := by
  have hread : ∀ {A : Footprint → Prop} {fingerprint : String},
      (Py.query (.getSnapshotByFingerprint fingerprint)).Within env (.createImport request) A
        fun _ => A :=
    .read (fun _ => trivial) rfl (fun _ => rfl) (fun _ => rfl) rfl
  have hkey : ∀ {A : Footprint → Prop} {key : Option String},
      (lookupIdempotencyKey key).Within env (.createImport request) A fun _ => A := by
    intro A key
    cases key with
    | none => exact .ret fun _ h => h
    | some key => exact .read (fun _ => trivial) rfl (fun _ => rfl) (fun _ => rfl) rfl
  refine .withSession (.seq (N := fun _ f => f.taken ⊆ [.advisory]) (.query (fun f hf => .inr ?_)
    fun f _ hf => ?_) fun _ => .seq hkey fun o => ?_)
  · rw [hf]
    exact rfl
  · rw [hf]
    exact fun _ h => h
  · split
    · exact within_existingOutcome request _
    · refine .seq hread fun o => ?_
      split
      · exact .raise
      · exact within_persistImport request

/-! ### The outbox -/

theorem within_claimEvents (claimedAt : Time) (events : List DueEvent) :
    (claimEvents claimedAt events).Within env .publishDueEvents
      (fun f => ∀ event ∈ events, event.outboxId ∈ f.events) fun _ _ => True := by
  induction events with
  | nil => exact .ret fun _ _ => trivial
  | cons event events ih =>
    refine .seq (N := fun _ f => ∀ event ∈ events, event.outboxId ∈ f.events)
      (.query (fun f hf => .inl (hf event List.mem_cons_self)) fun f _ hf e he =>
        List.mem_append_right _ (hf e (List.mem_cons_of_mem _ he))) fun _ => ?_
    exact .seq ih fun _ => .ret fun _ _ => trivial

theorem between_claimDueEvents :
    (claimDueEvents env).Between env .publishDueEvents fun _ => True := by
  refine .withSession (Py.Between.within (.inTransaction (.seq (.stmt trivial)
    fun claimedAt => ?_)))
  exact .seq (.query (fun _ _ => .inl trivial) fun f events _ e he =>
    List.mem_append_left _ (List.mem_map_of_mem he)) (within_claimEvents claimedAt)

/-- A publisher records a failure on its event before it gives the import up. -/
theorem within_persistPublishFailure (claimedEvent : ClaimedOutboxEvent) (failedAt : Time)
    (errorMessage : String) (attemptCount : Nat) (exhausted : Bool) (availableAt : Option Time) :
    (persistPublishFailure claimedEvent failedAt errorMessage attemptCount exhausted
      availableAt).Within env .publishDueEvents (fun f => f = {}) fun _ _ => True := by
  refine .seq (N := fun _ f => f.taken ⊆ [.event]) (.query (fun f hf => .inr ?_) fun f _ hf => ?_)
    fun _ => ?_
  · rw [hf]
    exact rfl
  · rw [hf]
    exact fun _ h => h
  · split
    · exact .seq (N := fun _ _ => True) (.query (fun _ hf => .inr hf) fun _ _ _ => trivial)
        fun _ => .ret fun _ _ => trivial
    · exact .ret fun _ _ => trivial

theorem between_publishEvent (claimedEvent : ClaimedOutboxEvent) :
    (publishEvent env claimedEvent).Between env .publishDueEvents fun _ => True := by
  refine .seq (.attempt trivial) fun o _ => ?_
  cases o with
  | ok _ =>
    refine .seq (.withSession (Py.Between.within (.inTransaction (.query (fun f hf => .inr ?_)
      fun _ _ _ => trivial)))) fun _ _ => .ret trivial
    rw [hf]
    exact rfl
  | error exc =>
    have hpersist : ∀ {failedAt errorMessage attemptCount exhausted availableAt},
        (withSession (inTransaction (persistPublishFailure claimedEvent failedAt errorMessage
          attemptCount exhausted availableAt))).Between env .publishDueEvents fun _ => True :=
      .withSession (Py.Between.within (.inTransaction (within_persistPublishFailure _ _ _ _ _ _)))
    exact .seq (.stmt trivial) fun failedAt _ => .seq .lift fun _ _ => hpersist

theorem between_publishDueEvents :
    (publishDueEvents env).Between env .publishDueEvents fun _ => True :=
  .seq between_claimDueEvents fun _ _ => .seq (.forEach between_publishEvent) fun _ _ =>
    .ret trivial

/-- A recovery of stale claims has the events it updates. -/
theorem within_recoverStaleClaimsInTransaction (recoveredAt : Time)
    (staleClaims : List StaleOutboxClaim) :
    (recoverStaleClaimsInTransaction env recoveredAt staleClaims).Within env .recoverStaleClaims
      (fun f => ∀ x ∈ staleClaims, x.outboxId ∈ f.events) fun _ _ => True := by
  induction staleClaims with
  | nil => exact .ret fun _ _ => trivial
  | cons staleClaim staleClaims ih =>
    have hupdate : ∀ {values : OutboxValues}, (Py.query (.updateClaimedEvent staleClaim.outboxId
        staleClaim.claimToken values)).Within env .recoverStaleClaims
        (fun f => ∀ x ∈ staleClaim :: staleClaims, x.outboxId ∈ f.events)
        fun _ f => (∀ x ∈ staleClaim :: staleClaims, x.outboxId ∈ f.events) ∧
          ((Query.updateClaimedEvent staleClaim.outboxId staleClaim.claimToken values).exhausts =
            true → f.exhausts = true) :=
      .query (fun f hf => .inl (hf _ List.mem_cons_self)) fun f a hf =>
        ⟨fun x hx => List.mem_append_right _ (hf x hx), fun h => Bool.or_eq_true_iff.2 (.inl h)⟩
    refine .seq (N := fun _ f => ∀ x ∈ staleClaim :: staleClaims, x.outboxId ∈ f.events) ?_
      fun _ => .seq (ih.weaken (fun f hf x hx => hf x (List.mem_cons_of_mem _ hx))
        fun _ _ h => h) fun _ => .ret fun _ _ => trivial
    unfold recoverStaleClaim
    split
    · refine .seq hupdate fun failed => ?_
      cases failed with
      | true =>
        exact .seq (.queryExhausted (fun f hf => hf.2 rfl) fun f _ hf x hx =>
          List.mem_append_right _ (hf.1 x hx)) fun _ => .ret fun _ h => h
      | false => exact .ret fun _ h => h.1
    · exact .seq hupdate fun _ => .ret fun _ h => h.1

theorem between_recoverStaleClaims :
    (recoverStaleClaims env).Between env .recoverStaleClaims fun _ => True :=
  .seq (.stmt trivial) fun recoveredAt _ => .seq .lift fun _ _ => .withSession (Py.Between.within
    (.inTransaction (.seq (.query (fun _ _ => .inl trivial) fun _ _ _ _ hx =>
      List.mem_append_left _ (List.mem_map_of_mem hx))
        (within_recoverStaleClaimsInTransaction recoveredAt))))

/-! ### The watchdog -/

/-- The watchdog has the imports it saves and refers to. -/
theorem between_recoverStaleImports (caller : RecoveryCaller) (batchSize : Nat) :
    (recoverStaleImports env.settings batchSize).Between env (.recoverStaleImports caller)
      fun _ => True := by
  refine .seq (.stmt trivial) fun now _ => .seq .lift fun _ _ => .seq (B := fun _ => True)
    (.withSession (Py.Between.within (.inTransaction (.seq
      (N := fun staleImports f => ∀ x ∈ staleImports, x.id ∈ f.jobs)
      (.query (fun _ _ => .inl trivial) fun f staleImports _ x hx =>
        List.mem_append_left _ (List.mem_map_of_mem hx)) fun staleImports => ?_))))
    fun _ _ => .ret trivial
  refine .seq (.forEach fun x hx => .query (fun f hf => .inl (hf x hx)) fun f _ hf y hy =>
    List.mem_append_right _ (hf y hy)) fun _ => ?_
  refine .seq (.forEach fun x hx => .query (fun f hf => .inl (hf x (List.mem_of_mem_filter hx)))
    fun f _ hf y hy => List.mem_append_right _ (hf y hy)) fun _ => .ret fun _ _ => trivial

/-! ### The worker -/

section
variable (c : ClaimedImport) {message : Message} {hostname : Option WorkerName}

/-- A worker has the import whose update it was told of. -/
theorem within_updateClaimedOrStop {A : Footprint → Prop} (values : ProgressValues)
    (hA : ∀ f, A f → c.importId ∈ f.jobs ∨ f.taken ⊆ [.code]) :
    (updateClaimedOrStop c values).Within env (.processImport message hostname) A
      fun _ f => c.importId ∈ f.jobs := by
  refine .seq (N := fun updated f => updated = true → c.importId ∈ f.jobs) (.query hA ?_)
    fun updated => ?_
  · rintro f updated _ rfl
    exact List.mem_append_left _ (List.mem_singleton.2 rfl)
  · cases updated with
    | true => exact .ret fun _ h => h rfl
    | false => exact .raise

theorem between_updateClaimed (values : ProgressValues) :
    (inTransaction (updateClaimed c values)).Between env (.processImport message hostname)
      fun _ => True := by
  refine .inTransaction (.query (fun f hf => .inr ?_) fun _ _ _ => trivial)
  rw [hf]
  exact fun _ h => nomatch h

theorem between_markFailed (reason : String) :
    (markFailed c reason).Between env (.processImport message hostname) fun _ => True :=
  .seq (between_updateClaimed c _) fun _ _ => .ret trivial

theorem between_handleError (claimedImport : Option ClaimedImport) (e : Exc) :
    (handleError claimedImport e).Between env (.processImport message hostname) fun _ => True := by
  unfold handleError
  split
  · exact .ret trivial
  · cases claimedImport with
    | none => exact .ret trivial
    | some c => exact between_markFailed c _
  · cases claimedImport with
    | none => exact .raise
    | some c =>
      dsimp only [handleOperationalFailure]
      split
      · exact between_markFailed c _
      · refine .seq (between_updateClaimed c _) fun requeued _ => ?_
        cases requeued with
        | true => exact .raise
        | false => exact .ret trivial
  · cases claimedImport with
    | none => exact .raise
    | some c => exact between_markFailed c _

theorem within_requireCurrentOwnership {A : Footprint → Prop} :
    (requireCurrentOwnership c).Within env t A fun _ => A := by
  refine .seq (.read (fun _ => trivial) rfl (fun _ => rfl) (fun _ => rfl) rfl) fun owned => ?_
  cases owned with
  | true => exact .ret fun _ h => h
  | false => exact .raise

theorem within_findExistingShipmentCodes {A : Footprint → Prop} (codes : List String) :
    (findExistingShipmentCodes codes).Within env t A fun _ => A := by
  unfold findExistingShipmentCodes
  split
  · exact .ret fun _ h => h
  · exact .read (fun _ => trivial) rfl (fun _ => rfl) (fun _ => rfl) rfl

/-- A worker that prepares an import has its job when it deletes. -/
theorem between_prepareForReprocessing :
    (prepareForReprocessing c).Between env (.processImport message hostname) fun _ => True := by
  refine .inTransaction (.seq (within_updateClaimedOrStop c _ fun f hf => .inr ?_) fun _ => ?_)
  · rw [hf]
    exact fun _ h => nomatch h
  · refine .seq (N := fun _ f => c.importId ∈ f.jobs)
      (.query (fun f hf => .inl hf) fun f _ hf => hf) fun _ =>
        .seq (N := fun _ _ => True) (.query (fun f hf => .inl hf) fun _ _ _ => trivial)
        fun _ => .ret fun _ _ => trivial

/-- A transaction that persists a chunk waits with nothing but codes it has inserted. -/
theorem within_persistChunk (chunkResult : ValidationChunkResult) :
    (persistChunk c chunkResult).Within env (.processImport message hostname)
      (fun f => f.taken ⊆ [.code]) fun _ _ => True := by
  have hquery : ∀ {q : Query}, (∀ f : Footprint, f.taken ⊆ [.code] →
      q.Ready f ∨ (Task.processImport message hostname).MayWait f.taken q) →
      q.takes.toList ⊆ [.code] → (Py.query q).Within env (.processImport message hostname)
        (fun f => f.taken ⊆ [.code]) fun _ f => f.taken ⊆ [.code] :=
    fun hq ht => .query hq fun f _ hf => List.append_subset.2 ⟨ht, hf⟩
  refine .seq (N := fun _ f => f.taken ⊆ [.code]) ?_ fun _ =>
    .seq (N := fun _ f => f.taken ⊆ [.code]) ?_ fun _ =>
      .seq (within_updateClaimedOrStop c _ fun f hf => .inr hf) fun _ =>
        (within_updateClaimedOrStop c _ fun f hf => .inl hf).weaken (fun _ h => h)
          fun _ _ _ => trivial
  · cases chunkResult.shipments with
    | nil => exact .ret fun _ h => h
    | cons shipment rest =>
      exact .seq (.forEach fun x _ => hquery (fun f hf => .inr hf) fun _ h => h) fun _ =>
        hquery (fun f hf => .inr hf) (List.nil_subset _)
  · cases chunkResult.importErrors with
    | nil => exact .ret fun _ h => h
    | cons importError rest =>
      exact .seq (.forEach fun x _ => hquery (fun f hf => .inl trivial) (List.nil_subset _))
        fun _ => hquery (fun f hf => .inr hf) (List.nil_subset _)

/-- Every pass of the loop asks for what a chunk asks for. -/
theorem free_persistChunkAfterDuplicateRace (e : Exc) (fuel : Nat) :
    ∀ (r : ValidationChunkResult) (τ : Exchanges), τ.footprint = {} →
      Py.Free env (fun τ s => s = .spin ∨ (Task.processImport message hostname).Proceeds τ s)
        (fun τ _ => τ.footprint = {}) τ (persistChunkAfterDuplicateRace c e fuel r) := by
  have hrest : ∀ corrected r : ValidationChunkResult, (show Py (Option ValidationChunkResult) from
      if corrected.successCount = r.successCount then return none
      else do
        persistChunk c corrected
        return some corrected).Within env (.processImport message hostname) (fun f => f = {})
        fun _ _ => True := by
    intro corrected r
    dsimp only
    split
    · exact .ret fun _ _ => trivial
    · refine .seq ((within_persistChunk c corrected).weaken (fun f hf => ?_) fun _ _ h => h)
        fun _ => .ret fun _ _ => trivial
      rw [hf]
      exact fun _ h => nomatch h
  induction fuel with
  | zero =>
    intro r τ hτ
    refine Prog.Free.bind (Prog.Free.perform (.inl rfl) fun r _ => ?_)
    cases r with
    | ok never => cases never
    | error e => exact (footprint_append _ _).trans hτ
  | succ fuel ih =>
    intro r τ hτ
    unfold persistChunkAfterDuplicateRace
    have hpass : (transaction (do
        requireCurrentOwnership c
        reclassifyDatabaseDuplicates c.importId r) _).Between env _ _ :=
      .transaction (P := fun _ => True) (K := fun _ f => f = {}) (B := fun _ => True)
        (.seq (within_requireCurrentOwnership c) fun _ => .seq (within_findExistingShipmentCodes _)
          fun _ => .ret fun _ h => ⟨trivial, h⟩) fun corrected _ => hrest corrected r
    refine Prog.Free.bind ((hpass τ hτ).weaken (fun _ _ h => .inr h) fun τ' o ho => ?_)
    obtain ⟨hτ', -⟩ := ho
    rcases o with _ | ⟨corrected, e'⟩ | (_ | corrected)
    · exact hτ'
    · dsimp only
      split
      · cases corrected with
        | none => exact hτ'
        | some corrected => exact ih corrected τ' hτ'
      · exact hτ'
    · exact hτ'
    · exact hτ'

/-- The loop of the duplicate race does not get to its end. -/
theorem between_persistChunkAfterDuplicateRace (e : Exc) {r : ValidationChunkResult}
    (hr : r.Coherent) : (persistChunkAfterDuplicateRace c e (duplicateRaceFuel r) r).Between env
      (.processImport message hostname) fun _ => True := by
  intro τ hτ
  have hspin : Py.Free env (fun _ s => s ≠ .spin) (fun _ _ => True) τ
      (persistChunkAfterDuplicateRace c e (duplicateRaceFuel r) r) :=
    Prog.Free.after (Prog.Free.weaken (fun _ _ h => h.1) (fun _ _ _ => trivial)
      (free_duplicateRace (B := r.validRows.length + 1) (e := e) (τ := []) hr.corrects
        (Nat.lt_succ_self r.validRows.length) (by simp [Exchanges.passes]) rfl))
  exact ((free_persistChunkAfterDuplicateRace c e _ r τ hτ).and hspin).weaken
    (fun _ _ h => h.1.resolve_left h.2) fun _ _ h => ⟨h.1, fun _ _ => trivial⟩

/-- What a step of the generator gives is coherent. -/
def NextCoherent {α : Type} (o : Option (ValidationChunkResult × α)) : Prop :=
  ∀ x, o = some x → x.1.Coherent

theorem within_structureErrors {A : Footprint → Prop} {N : α → Footprint → Prop} {x : Py α}
    (hx : x.Within env t A N) : (structureErrors x).Within env t A N := by
  refine .handle hx fun e => ?_
  split
  · split <;> exact .raise
  · exact .raise

theorem within_nextValidatedChunk {A : Footprint → Prop} (importId : ImportId)
    (chunks : List (List ParsedWorkbookRow)) (tracker : DuplicateTracker) :
    (nextValidatedChunk env importId chunks tracker).Within env t A
      fun o f => NextCoherent o ∧ A f := by
  refine .seq (within_structureErrors (.stmt trivial)) fun _ => ?_
  cases chunks with
  | nil => exact .ret fun f hf => ⟨fun _ h => (nomatch h), hf⟩
  | cons chunk chunks =>
    refine .seq (within_findExistingShipmentCodes _) fun existing => .ret fun f hf => ⟨?_, hf⟩
    rintro _ ⟨⟩
    exact ValidationChunkResult.coherent_classifyChunk

theorem within_firstValidatedChunk {A : Footprint → Prop} :
    (firstValidatedChunk env c).Within env t A fun o f => NextCoherent o ∧ A f := by
  refine .seq (N := fun _ => A) (.seq (within_structureErrors (.stmt trivial))
    fun worksheet => ?_) fun chunks => .seq (within_nextValidatedChunk _ _ _) fun o =>
      .ret fun f hf => ⟨fun x hx => ?_, hf.2⟩
  · split
    · exact .raise
    · exact .ret fun _ h => h
  · obtain ⟨y, rfl, rfl⟩ := Option.map_eq_some_iff.1 hx
    exact hf.1 y rfl

theorem between_processNextChunk {next : Py (Option (ValidationChunkResult × α))}
    (hnext : next.Within env (.processImport message hostname) (fun f => f = {})
      fun o f => NextCoherent o ∧ f = {}) :
    (processNextChunk c next).Between env (.processImport message hostname) fun _ => True := by
  refine .seq (.transaction (P := NextCoherent) (K := fun _ f => f = {}) (B := fun _ => True)
    (.seq (within_requireCurrentOwnership c) fun _ => hnext) fun o ho => ?_) fun o ho => ?_
  · match o with
    | none => exact .ret fun _ _ => trivial
    | some (chunkResult, state) =>
      refine .seq ((within_persistChunk c chunkResult).weaken (fun f hf => ?_) fun _ _ h => h)
        fun _ => .ret fun _ _ => trivial
      rw [hf]
      exact fun _ h => nomatch h
  · rcases o with ⟨assigned, e⟩ | result
    · dsimp only
      split
      · match assigned with
        | none | some none => exact .raise
        | some (some (chunkResult, state)) =>
          exact .seq (between_persistChunkAfterDuplicateRace c e (ho _ rfl)) fun _ _ =>
            .ret trivial
      · exact .raise
    · exact .ret trivial

theorem between_processChunks (chunks : List (List ParsedWorkbookRow)) : ∀ tracker totals,
    (processChunks env c chunks tracker totals).Between env (.processImport message hostname)
      fun _ => True := by
  induction chunks with
  | nil =>
    exact fun tracker totals => .seq (between_processNextChunk c (within_nextValidatedChunk _ _ _))
      fun _ _ => .ret trivial
  | cons chunk chunks ih =>
    intro tracker totals
    refine .seq (between_processNextChunk c (within_nextValidatedChunk _ _ _)) fun o _ => ?_
    match o with
    | none => exact .ret trivial
    | some (chunkResult, tracker) => exact ih tracker _

theorem between_processClaimed :
    (processClaimed env c).Between env (.processImport message hostname) fun _ => True := by
  refine .seq (between_prepareForReprocessing c) fun _ _ => .seq (B := fun _ => True) ?_
    fun totals _ => .inTransaction ((within_updateClaimedOrStop c _ fun f hf => .inr ?_).weaken
      (fun _ h => h) fun _ _ _ => trivial)
  · refine .seq (between_processNextChunk c (within_firstValidatedChunk c)) fun o _ => ?_
    match o with
    | none => exact .ret trivial
    | some (chunkResult, chunks, tracker) => exact between_processChunks c chunks tracker _
  · rw [hf]
    exact fun _ h => nomatch h

/-- A worker waits with nothing but codes it has inserted. -/
theorem between_processImportTask (processingToken : Token) :
    (processImportTask env message hostname processingToken).Between env
      (.processImport message hostname) fun _ => True := by
  refine .handle (.withSession (Py.Between.within (.seq (.transaction (P := fun _ => True)
    (K := fun _ _ => True) (B := fun _ => True) ?_ fun _ _ => .ret fun _ _ => trivial)
      fun o _ => ?_))) fun e => ?_
  · refine .seq (N := fun locked f => locked.isSome → message.importId ∈ f.jobs)
      (.query (fun _ _ => .inl trivial) fun f locked _ hl => ?_) fun locked => ?_
    · simp [Footprint.add, Query.jobsGranted, hl]
    · cases locked with
      | none => exact .ret fun _ _ => ⟨trivial, trivial⟩
      | some i => exact .query (fun f hf => .inl (hf rfl)) fun _ _ _ => ⟨trivial, trivial⟩
  · rcases o with ⟨claimedImport, e⟩ | (_ | claimedImport)
    · exact between_handleError _ e
    · exact .ret trivial
    · exact .handle (between_processClaimed claimedImport) fun e => between_handleError _ e
  · split
    · refine fun τ hτ => Prog.Free.bind (Prog.Free.perform rfl fun r _ => ?_)
      cases r with
      | ok never => cases never
      | error e => exact ⟨(footprint_append _ _).trans hτ, by simp⟩
    · exact .raise

end

/-- What every task may do next. -/
theorem free_proceeds (env : Env) (p : Nat) (t : Task) :
    Py.Free env t.Proceeds (fun _ _ => True) [] (taskProgram env p t) := by
  have hseq : ∀ {α : Type} {x : Py α} {f : α → TaskResult}, x.Between env t (fun _ => True) →
      Py.Free env t.Proceeds (fun _ _ => True) [] (x.bind fun a => .ret (f a)) := by
    intro α x f hx
    refine Prog.Free.bind ((hx [] rfl).mono fun τ o _ => ?_)
    cases o <;> trivial
  cases t with
  | createImport request => exact hseq (between_createImport request)
  | publishDueEvents => exact hseq between_publishDueEvents
  | recoverStaleClaims => exact hseq between_recoverStaleClaims
  | recoverStaleImports caller => exact hseq (between_recoverStaleImports caller _)
  | processImport message hostname => exact hseq (between_processImportTask p)

end

/-! ## Waits -/

/-- Process `p` is at a query that needs something process `q` holds. -/
def State.WaitsOn (env : Env) (c : State) (p q : Nat) : Prop :=
  ∃ t query k, c.proc p = some (t, .stmt (.query query) k) ∧ q ≠ p ∧
    c.world.db.Blocks env.server p q query

/-- Process `p` can run its next statement, or end. -/
def State.CanGoOn (env : Env) (c : State) (p : Nat) : Prop :=
  ((service env).next c (.step p .run)).isSome ∨ ((service env).next c (.finish p)).isSome

/-- What a query waits for, of a task that may wait there. -/
def Query.asks : Query → List Resource
  | .claimPendingImport .. | .updateCurrentProcessingImport .. | .saveImportJob ..
  | .insertImportJob _ | .failPendingImport .. | .checkImportExists _
  | .insertDispatchIntent .. => [.job]
  | .saveClaimedEvent .. | .updateClaimedEvent .. => [.event]
  | .insertShipment _ => [.code, .row]
  | .acquireFingerprintLock _ => [.advisory]
  | _ => []

section
variable {env : Env} {c c' : State} {p q : Nat} {t : Task}

theorem blocks_begin {d : Database} {server : Server} {clock : Time} {query : Query} :
    (d.begin p clock).Blocks server p q query ↔ d.Blocks server p q query := by
  cases query <;> exact .rfl

/-- Whoever blocks a query that may wait holds something of what it asks for. -/
theorem Task.MayWait.held {taken : List Resource} {query : Query} (h : t.MayWait taken query)
    {d : Database} {server : Server} (hw : d.Wf) (hne : q ≠ p)
    (hb : d.Blocks server p q query) : ∃ k ∈ query.asks, d.Held q k := by
  cases query
  case acquireFingerprintLock => exact ⟨.advisory, List.mem_cons_self, _, hb⟩
  case insertImportJob =>
    obtain ⟨-, -, k, -, he | ⟨r, -, hh, -⟩⟩ := hb
    · exact ⟨.job, List.mem_cons_self, .inr ⟨k, he⟩⟩
    · exact ⟨.job, List.mem_cons_self, .inl ⟨r.id, hh⟩⟩
  case failPendingImport | updateCurrentProcessingImport | claimPendingImport | saveImportJob =>
    obtain ⟨r, -, -, hh⟩ := hb
    exact ⟨.job, List.mem_cons_self, .inl ⟨r.id, hh⟩⟩
  case updateClaimedEvent | saveClaimedEvent =>
    obtain ⟨r, -, -, hh⟩ := hb
    exact ⟨.event, List.mem_cons_self, r.id, hh⟩
  case checkImportExists importId | insertDispatchIntent importId _ =>
    exact ⟨.job, List.mem_cons_self, .inl ⟨importId, _, hb.2⟩⟩
  case insertShipment =>
    obtain ⟨stored, -, k, -, he | ⟨r, hr, hh, -⟩⟩ := hb
    · exact ⟨.code, List.mem_cons_self, k, he⟩
    · refine ⟨.row, List.mem_cons_of_mem _ List.mem_cons_self, .inl ⟨r, ?_, hh⟩⟩
      rcases Table.mem_view (List.mem_of_find?_eq_some hr) with hr | hr | hr
      · exact hr
      · exact absurd (hh.unique (hw.shipments.locked p _ hr)) hne
      · exact absurd (hh.unique (hw.shipments.locked p _ hr)) hne
  all_goals cases t <;> exact h.elim

/-- The others leave the session of a live process alone. -/
theorem Reachable.keeps_other (h : Reachable env c) {a : Event}
    (hn : (service env).next c a = some c') (ha : ∀ ch, a ≠ .step p ch)
    (hp : c'.proc p ≠ none) : Database.Keeps p c.world.db c'.world.db := by
  obtain ⟨g, hg⟩ := h.inv
  rcases next_db hn with ⟨q, ch, t, s, k, r, rfl, -, hx⟩ | ⟨q, rfl, hq, e⟩ | e
  · refine (exec_touches hx).2.keeps hg.wf ?_
    rintro rfl
    exact ha ch rfl
  · rw [e]
    refine (Database.own_rollback hg.wf).keeps p ?_
    rintro rfl
    exact hp hq
  · rw [e]
    exact .refl p _

/-- Every live process is at a point of its program that its footprint accounts for, and has given
up no event. -/
theorem Reachable.footprint (h : Reachable env c) {x : Py TaskResult}
    (hp : c.proc p = some (t, x)) : ∃ τ : Exchanges,
      Py.Free env t.Proceeds (fun _ _ => True) τ x ∧
        Accounts p τ.footprint c.world.db ∧ τ.footprint.exhausts = false := by
  obtain ⟨σ, hσ⟩ := Machine.Run.trail h
  refine Machine.Trail.history_live (K := Replies env) (I := Task.Proceeds)
    (J := fun p _ (τ : Exchanges) _ w =>
      Accounts p τ.footprint w.db ∧ τ.footprint.exhausts = false)
    (fun hx => ⟨_, _, _, _, _, hx⟩) (free_proceeds env) (fun {_ c c' _} hr hn => ⟨?_, rfl⟩)
    (fun hr _ hp hx hi hj => ?_) (fun hr hn ha _ hp' hj => ⟨?_, hj.2⟩) hσ p t x hp
  · -- a new process
    obtain ⟨g, hg⟩ := Reachable.holds hr.run
    have hidle := (hg.fresh _ (Nat.le_refl _)).idle
    rcases next_db hn with ⟨_, _, _, _, _, _, e, -⟩ | ⟨_, e, -⟩ | e
    · cases e
    · cases e
    · exact .idle (e ▸ hidle) []
  · obtain ⟨g, hg⟩ := Reachable.inv hr.run
    obtain ⟨hj, hexhausts⟩ := hj
    rw [footprint_append]
    refine ⟨hj.step hg.wf hx (fun i e => ?_) fun i e => ?_, ?_⟩
    · subst e
      exact hi.resolve_right fun h => h.elim not_mayWait_deleteShipments (by simp [hexhausts])
    · subst e
      exact hi.resolve_right fun h => h.elim not_mayWait_deleteImportErrors (by simp [hexhausts])
    · refine Bool.eq_false_iff.2 fun h => ?_
      obtain ⟨outboxId, token, message, rfl⟩ := (Footprint.add_exhausts h).resolve_left
        (by simp [hexhausts])
      exact Reachable.not_staleFailed hr.run hp
  · exact hj.1.keeps (Reachable.keeps_other hr.run hn ha (by simp [hp']))

/-- Some footprint accounts for what a process holds, of a dead one the empty one. -/
theorem Reachable.accounts_any (h : Reachable env c) (p : Nat) :
    ∃ f, Accounts p f c.world.db ∧ (c.proc p = none → f = {}) := by
  cases hp : c.proc p with
  | some x =>
    obtain ⟨τ, -, ha, -⟩ := h.footprint (t := x.1) (x := x.2) hp
    exact ⟨_, ha, fun h => nomatch h⟩
  | none =>
    obtain ⟨g, hg⟩ := h.holds
    refine ⟨{}, .idle ?_ [], fun _ => rfl⟩
    by_cases hlt : p < c.procs.length
    · exact (hg.gone p hlt hp).1
    · exact (hg.fresh p (Nat.le_of_not_lt hlt)).idle

/-- What is known of a process that waits: its task may wait there, and whoever it waits for is
alive and holds something it asks for. -/
structure BlockedAt (env : Env) (c : State) (p q : Nat) (t : Task) (query : Query)
    (taken : List Resource) : Prop where
  proc : ∃ k, c.proc p = some (t, .stmt (.query query) k)
  ne : q ≠ p
  blocks : c.world.db.Blocks env.server p q query
  mayWait : t.MayWait taken query
  taken : ∀ k, c.world.db.Held p k → k ∈ taken
  held : ∃ k ∈ query.asks, c.world.db.Held q k

theorem Reachable.waiting (h : Reachable env c) (hw : State.WaitsOn env c p q) :
    ∃ t query taken, BlockedAt env c p q t query taken := by
  obtain ⟨t, query, k, hp, hne, hb⟩ := hw
  obtain ⟨g, hg⟩ := h.inv
  obtain ⟨τ, hf, ha, hexhausts⟩ := h.footprint hp
  obtain ⟨f, hq, -⟩ := h.accounts_any q
  have hmay := (hf.1.resolve_left fun hready => ha.not_blocked hg.wf hready hq hne hb).resolve_right
    (by simp [hexhausts])
  exact ⟨t, query, τ.footprint.taken, ⟨k, hp⟩, hne, hb, hmay, ha.held, hmay.held hg.wf hne hb⟩

/-- Whoever is waited for is alive. -/
theorem Reachable.waited_live (h : Reachable env c) (hw : State.WaitsOn env c p q) :
    c.proc q ≠ none := by
  intro hq
  obtain ⟨t, query, taken, hw⟩ := h.waiting hw
  obtain ⟨k, -, hk⟩ := hw.held
  obtain ⟨f, ha, hf⟩ := h.accounts_any q
  have := ha.held k hk
  rw [hf hq] at this
  exact nomatch this

/-- A live process can go on, unless it waits. -/
theorem Reachable.goes_on (h : Reachable env c) (hp : c.proc p ≠ none) :
    State.CanGoOn env c p ↔ ∀ q, ¬ State.WaitsOn env c p q := by
  obtain ⟨⟨t, x⟩, hx⟩ := Option.ne_none_iff_exists'.1 hp
  have hend : (∀ s k, x ≠ Prog.stmt s k) → ∀ q, ¬ State.WaitsOn env c p q := by
    rintro hs q ⟨t', query, k, hq, -⟩
    rw [hx] at hq
    cases hq
    exact hs _ _ rfl
  cases x with
  | ret a =>
    exact iff_of_true (.inr (by simp [Machine.next, hx])) (hend fun _ _ => by simp)
  | raise e =>
    exact iff_of_true (.inr (by simp [Machine.next, hx])) (hend fun _ _ => by simp)
  | stmt s k =>
    have hfinish : (service env).next c (.finish p) = none := by simp [Machine.next, hx]
    have hstep : ((service env).next c (.step p .run)).isSome =
        (c.world.perform env p t s).isSome := by
      simp [Machine.next, hx, service, World.exec]
    unfold State.CanGoOn
    rw [hfinish, hstep, Option.isSome_none, Bool.false_eq_true, or_false]
    obtain ⟨τ, hf, -⟩ := h.footprint hx
    have hother : (∀ query, s ≠ .query query) → ∀ q, ¬ State.WaitsOn env c p q := by
      rintro hs q ⟨t', query, k', hq, -⟩
      rw [hx] at hq
      cases hq
      exact hs _ rfl
    cases s
    case query query =>
      have hnone : c.world.perform env p t (.query query) = none ↔
          ∃ q, q ≠ p ∧ c.world.db.Blocks env.server p q query := by
        rw [World.perform, Option.map_eq_none_iff, Database.exec_eq_none]
        simp only [blocks_begin]
      rw [← Option.ne_none_iff_isSome, Ne, hnone, not_exists]
      refine forall_congr' fun q => not_congr ⟨fun hb => ⟨t, query, k, hx, hb⟩, ?_⟩
      rintro ⟨t', query', k', hq, hb⟩
      rw [hx] at hq
      cases hq
      exact hb
    case spin => exact hf.1.elim
    case selfRetry exc maxRetries =>
      refine iff_of_true ?_ (hother (by simp))
      have ht : t.role = .worker := hf.1
      cases t with
      | processImport message hostname =>
        simp only [World.perform]
        split <;> rfl
      | _ => cases ht
    case replaceFile | readSignature =>
      refine iff_of_true ?_ (hother (by simp))
      simp only [World.perform]
      split <;> rfl
    all_goals exact iff_of_true rfl (hother (by simp))

/-! ### Cycles -/

/-- Process `p` waits for an import job. -/
def State.AsksJob (c : State) (p : Nat) : Prop :=
  ∃ t query k, c.proc p = some (t, .stmt (.query query) k) ∧ .job ∈ query.asks

/-- What a task has taken where it may wait. -/
theorem Task.MayWait.cases {taken : List Resource} {query : Query} (h : t.MayWait taken query) :
    taken = [] ∨ (taken ⊆ [.advisory] ∧ .job ∈ query.asks) ∨
      (taken ⊆ [.event] ∧ .job ∈ query.asks) ∨ taken ⊆ [.code] := by
  cases t with
  | createImport request =>
    cases query
    case acquireFingerprintLock => exact .inl h
    case insertImportJob => exact .inr (.inl ⟨h, List.mem_cons_self⟩)
    all_goals exact h.elim
  | publishDueEvents =>
    cases query
    case updateClaimedEvent => exact .inl h
    case failPendingImport => exact .inr (.inr (.inl ⟨h, List.mem_cons_self⟩))
    all_goals exact h.elim
  | processImport message hostname =>
    cases query
    case updateCurrentProcessingImport | insertShipment | checkImportExists =>
      exact .inr (.inr (.inr h))
    all_goals exact h.elim
  | recoverStaleClaims | recoverStaleImports _ => cases query <;> exact h.elim

/-- No process waits with an import job or a row it deletes, and only those that wait for an import
job wait with an advisory lock or an event. -/
theorem Task.MayWait.holds {taken : List Resource} {query : Query} (h : t.MayWait taken query) :
    .job ∉ taken ∧ .row ∉ taken ∧ (.advisory ∈ taken ∨ .event ∈ taken → .job ∈ query.asks) := by
  rcases h.cases with rfl | ⟨hs, hj⟩ | ⟨hs, hj⟩ | hs
  · simp
  · exact ⟨fun hr => by simpa using hs hr, fun hr => by simpa using hs hr, fun _ => hj⟩
  · exact ⟨fun hr => by simpa using hs hr, fun hr => by simpa using hs hr, fun _ => hj⟩
  · refine ⟨fun hr => by simpa using hs hr, fun hr => by simpa using hs hr, fun ho => ?_⟩
    rcases ho with ho | ho <;> simpa using hs ho

/-- Nobody waits that another process waits for to change a job. -/
theorem Reachable.job_holder (h : Reachable env c) (hw : State.WaitsOn env c p q)
    (hj : c.AsksJob p) : ∀ r, ¬ State.WaitsOn env c q r := by
  intro r hq
  obtain ⟨t, query, taken, hp⟩ := h.waiting hw
  obtain ⟨t', query', taken', hq⟩ := h.waiting hq
  obtain ⟨k, hk⟩ := hp.proc
  obtain ⟨t₁, query₁, k₁, hk₁, hj⟩ := hj
  rw [hk] at hk₁
  cases hk₁
  obtain ⟨x, hx, hheld⟩ := hp.held
  have : query.asks = [.job] := by
    cases query
    case claimPendingImport | updateCurrentProcessingImport | saveImportJob | insertImportJob
      | failPendingImport | checkImportExists | insertDispatchIntent => rfl
    all_goals simp [Query.asks] at hj
  rw [this, List.mem_singleton] at hx
  exact hq.mayWait.holds.1 (hq.taken _ (hx ▸ hheld))

/-- A waiting process that another one waits for, but not to change a job, waits for a job itself,
or both insert shipments. -/
theorem Reachable.inserting (h : Reachable env c) (hw : State.WaitsOn env c p q)
    (hj : ¬ c.AsksJob p) (hq : ∃ r, State.WaitsOn env c q r) :
    State.Waits c p q ∨ c.AsksJob q := by
  obtain ⟨r, hq⟩ := hq
  obtain ⟨t, query, taken, hp⟩ := h.waiting hw
  obtain ⟨t', query', taken', hq⟩ := h.waiting hq
  obtain ⟨g, hg⟩ := h.inv
  obtain ⟨k, hk⟩ := hp.proc
  obtain ⟨k', hk'⟩ := hq.proc
  obtain ⟨-, hrow, hasks⟩ := hq.mayWait.holds
  have hnot : .job ∉ query.asks := fun hj' => hj ⟨t, query, k, hk, hj'⟩
  obtain ⟨x, hx, hheld⟩ := hp.held
  cases query
  case acquireFingerprintLock =>
    rw [Query.asks, List.mem_singleton] at hx
    exact .inr ⟨t', query', k', hk', hasks (.inl (hx ▸ hq.taken _ hheld))⟩
  case updateClaimedEvent | saveClaimedEvent =>
    rw [Query.asks, List.mem_singleton] at hx
    exact .inr ⟨t', query', k', hk', hasks (.inr (hx ▸ hq.taken _ hheld))⟩
  case insertShipment shipment =>
    obtain ⟨stored, hs, code, hcode, he | ⟨y, hy, hh, -⟩⟩ := hp.blocks
    · cases t
      case processImport m hostname =>
        refine .inl (waits_iff.2 ⟨m, hostname, shipment, k, code, hk, ?_, he, hp.ne⟩)
        rw [Shipment.indexCode, hs]
        exact hcode
      all_goals exact hp.mayWait.elim
    · refine absurd (hq.taken .row (.inl ⟨y, ?_, hh⟩)) hrow
      rcases Table.mem_view (List.mem_of_find?_eq_some hy) with hy | hy | hy
      · exact hy
      · exact absurd (hh.unique (hg.wf.shipments.locked p _ hy)) hp.ne
      · exact absurd (hh.unique (hg.wf.shipments.locked p _ hy)) hp.ne
  all_goals first | exact absurd List.mem_cons_self hnot | cases hx

/-- Only workers that insert shipments wait in a cycle. -/
theorem Reachable.cycles (h : Reachable env c) {p : Nat}
    (hw : TransGen (State.WaitsOn env c) p p) : TransGen (State.Waits c) p p := by
  -- nobody on the cycle waits for a job
  refine TransGen.mono (fun a b hab => ?_) p p (cycle_edges hw)
  obtain ⟨hab, -, hbp⟩ := hab
  have hwaits : ∀ {x}, ReflTransGen (State.WaitsOn env c) x p → ∃ r, State.WaitsOn env c x r := by
    intro x hx
    rcases reflTransGen_iff_eq_or_transGen.1 hx with rfl | hx
    · obtain ⟨r, hr, -⟩ := TransGen.head'_iff.1 hw
      exact ⟨r, hr⟩
    · obtain ⟨r, hr, -⟩ := TransGen.head'_iff.1 hx
      exact ⟨r, hr⟩
  have hjob : ∀ {x y}, State.WaitsOn env c x y → ReflTransGen (State.WaitsOn env c) y p →
      ¬ c.AsksJob x := by
    intro x y hxy hy hj
    obtain ⟨r, hr⟩ := hwaits hy
    exact h.job_holder hxy hj r hr
  have hb : ¬ c.AsksJob b := by
    rcases ReflTransGen.cases_head hbp with rfl | ⟨r, hbr, hrp⟩
    · obtain ⟨r, hr, hrp⟩ := TransGen.head'_iff.1 hw
      exact hjob hr hrp
    · exact hjob hbr hrp
  exact (h.inserting hab (hjob hab hbp) (hwaits hbp)).resolve_right hb

/-- A live process can go on unless it waits, whoever it waits for is alive, and processes that wait
for each other in a cycle insert shipments. -/
theorem service_waits (h : Reachable env c) :
    (∀ p, c.proc p ≠ none → (State.CanGoOn env c p ↔ ∀ q, ¬ State.WaitsOn env c p q)) ∧
      (∀ p q, State.WaitsOn env c p q → c.proc q ≠ none) ∧
      ∀ p, TransGen (State.WaitsOn env c) p p → TransGen (State.Waits c) p p :=
  ⟨fun _ hp => h.goes_on hp, fun _ _ hw => h.waited_live hw, fun _ hw => h.cycles hw⟩

theorem waitsOn_of_waits (hw : State.Waits c p q) : State.WaitsOn env c p q := by
  obtain ⟨m, hostname, shipment, k, code, hp, hcode, he, hne⟩ := waits_iff.1 hw
  refine ⟨_, _, k, hp, hne, ?_⟩
  unfold Shipment.indexCode at hcode
  split at hcode
  · next stored hs => exact ⟨stored, hs, code, hcode, .inl he⟩
  · cases hcode

set_option maxRecDepth 100000 in
/-- Two workers whose workbooks list two codes in opposite orders. -/
theorem opposite_orders_cycle : ∃ c, Reachable oppositeEnv c ∧
    TransGen (State.WaitsOn oppositeEnv c) 3 3 ∧ ¬ State.CanGoOn oppositeEnv c 3 ∧
    TransGen (State.Waits c) 3 3 := by
  obtain ⟨c, hc, h3, h4⟩ : ∃ c,
      (service oppositeEnv).trace State.initial (twoWorkers 12 12) = some c ∧
      State.waitsFor c 3 = some 4 ∧ State.waitsFor c 4 = some 3 := exists_trace (by decide +kernel)
  have hr : Reachable oppositeEnv c := Machine.run_of_trace _ hc
  have hw : State.WaitsOn oppositeEnv c 3 4 := waitsOn_of_waits h3
  have hcycle : TransGen (State.WaitsOn oppositeEnv c) 3 3 :=
    .tail (.single hw) (waitsOn_of_waits h4)
  have hproc : c.proc 3 ≠ none := by
    obtain ⟨t, query, k, hp, -⟩ := hw
    simp [hp]
  obtain ⟨hgo, -, hcycles⟩ := service_waits hr
  exact ⟨c, hr, hcycle, fun h => (hgo 3 hproc).1 h 4 hw, hcycles 3 hcycle⟩

/-- Where every chunk of every workbook lists its codes in one order, the service does not get
stuck: whoever waits, waits at the end for a process that can go on. -/
theorem service_goes_on {lt : String → String → Prop} [IsStrictOrder String lt]
    (ho : env.ListsInOrder lt) (h : Reachable env c) (hp : c.proc p ≠ none) :
    ∃ q, ReflTransGen (State.WaitsOn env c) p q ∧ State.CanGoOn env c q := by
  have hacyclic : ∀ p, ¬ TransGen (State.WaitsOn env c) p p := fun p hw =>
    acyclic_of_order (fun _ _ hw => h.waits_after ho hw) p (h.cycles hw)
  have hfin : {p | ∃ q, State.WaitsOn env c p q}.Finite := by
    refine (Set.finite_lt_nat c.procs.length).subset ?_
    rintro p ⟨q, t, query, k, hp, -⟩
    exact Outline.proc_lt hp
  obtain ⟨q, hq, hend⟩ := exists_not_waiting hfin hacyclic p
  refine ⟨q, hq, (h.goes_on ?_).2 hend⟩
  rcases ReflTransGen.cases_tail hq with rfl | ⟨r, -, hrq⟩
  · exact hp
  · exact h.waited_live hrq

set_option maxRecDepth 100000 in
/-- Where their workbooks list two codes in one order, the worker that waits does not wait
forever. -/
theorem agreeing_orders_go_on : ∃ c, Reachable agreeingEnv c ∧ State.WaitsOn agreeingEnv c 4 3 ∧
    ∃ q, ReflTransGen (State.WaitsOn agreeingEnv c) 4 q ∧ State.CanGoOn agreeingEnv c q := by
  obtain ⟨c, hc, hw⟩ : ∃ c,
      (service agreeingEnv).trace State.initial (twoWorkers 12 11) = some c ∧
      State.waitsFor c 4 = some 3 := exists_trace (by decide +kernel)
  have hr : Reachable agreeingEnv c := Machine.run_of_trace _ hc
  have hw : State.WaitsOn agreeingEnv c 4 3 := waitsOn_of_waits hw
  refine ⟨c, hr, hw, service_goes_on agreeingEnv_listsInOrder hr ?_⟩
  obtain ⟨t, query, k, hp, -⟩ := hw
  simp [hp]

end

end ShipmentImport
