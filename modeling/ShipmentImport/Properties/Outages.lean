import ShipmentImport.Properties.Outbox
import ShipmentImport.Properties.Phases

/-!
# Outages of the broker

When the failure of a dispatch is recorded: while the event has a delay for it, and the end of the
delay is a time Python can represent. The validators relate the number of delays to the number of
attempts in no way, and an outage that is long enough brings an event to the failure that has no
delay, if more than five attempts are configured.
-/

namespace ShipmentImport

/-- If the failure of `o` is not the last, it has a delay, and the end of the delay is a time. -/
def CanRetry (settings : Settings) (o : ImportDispatchOutbox) (now : Time) : Prop :=
  o.attemptCount + 1 < settings.outboxMaxAttempts.1 → ∃ delay due,
    settings.outboxRetryDelaysSeconds.delays[o.attemptCount]? = some delay ∧
      now.plus delay = .ok due

/-- The event as a publisher holds it that claimed it. -/
def claimedEvent (o : Version ImportDispatchOutbox) (token : Token) : ClaimedOutboxEvent :=
  ⟨o.id, o.val.importId, token, o.val.attemptCount⟩

/-- In a state in which no session has an open transaction, event `o` is claimed under `token`. -/
structure ClaimedAlone (env : Env) (c : State) (o : Version ImportDispatchOutbox) (token : Token) :
    Prop where
  reachable : Reachable env c
  idle : ∀ u, c.world.db.Idle u
  row : o ∈ c.world.db.importDispatchOutbox.rows
  token : token ∈ o.val.claimToken

/-- Alone in the world, `_record_publish_failure` returns, and the failure is recorded. -/
def RecordsOutcome (env : Env) (w : World) (o : Version ImportDispatchOutbox) (token : Token)
    (exc : Exc) : Prop :=
  ∀ p t, ∃ τ w', Prog.Ends (World.Performs env true p t) Eq
    (recordPublishFailure env (claimedEvent o token) exc) w τ (.ok ()) w' ∧
      RecordsFailure (some o) (w'.db.event o.id) = true

section
variable {settings : Settings} {env : Env} {c : State} {down : Bool} {p : Nat} {t : Task}
  {o : Version ImportDispatchOutbox} {token : Token} {exc : Exc} {s : Seen}

/-! ## The failure of a dispatch -/

theorem canRetry_iff {o : ImportDispatchOutbox} {now : Time} : CanRetry settings o now ↔
    ∃ availableAt, retryAt settings now (o.attemptCount + 1)
      (decide (o.attemptCount + 1 ≥ settings.outboxMaxAttempts.1)) = .ok availableAt := by
  by_cases hmax : settings.outboxMaxAttempts.1 ≤ o.attemptCount + 1
  · rw [decide_eq_true hmax]
    exact iff_of_true (fun h => absurd h (Nat.not_lt_of_le hmax)) ⟨none, rfl⟩
  · rw [decide_eq_false hmax]
    simp only [retryAt_eq_ok]
    constructor
    · intro h
      obtain ⟨delay, due, hd, hdue⟩ := h (Nat.lt_of_not_le hmax)
      exact ⟨_, delay, due, hd, hdue, rfl⟩
    · rintro ⟨_, delay, due, hd, hdue, rfl⟩ -
      exact ⟨delay, due, hd, hdue⟩

/-- What is written where the retry is computed. -/
theorem failureValues_eq {ev : ClaimedOutboxEvent} {failedAt : Time} {exhausted : Bool}
    {availableAt : Option Time}
    (h : retryAt env.settings failedAt (ev.attemptCount + 1) exhausted = .ok availableAt) :
    OutboxValues.publishFailure (ev.attemptCount + 1) (safeErrorMessage env exc)
      (if exhausted then .failed else .pending) availableAt
      (if exhausted then some failedAt else none) =
        failureValues env ev failedAt exc availableAt := by
  cases exhausted with
  | true =>
    cases h
    rfl
  | false =>
    obtain ⟨delay, due, -, -, rfl⟩ := retryAt_eq_ok.1 h
    rfl

/-- `_record_publish_failure` returns where the retry can be computed. -/
theorem returns_recordPublishFailure {ev : ClaimedOutboxEvent} {availableAt : Option Time}
    (hat : retryAt env.settings s.time (ev.attemptCount + 1)
      (decide (ev.attemptCount + 1 ≥ env.settings.outboxMaxAttempts.1)) = .ok availableAt) :
    Py.Returns env down p t (fun w => w.seen p = s) (recordPublishFailure env ev exc) fun _ w =>
      (∃ now, (w.seen p).events = (s.updateEvents p (claimed ev.outboxId (some ev.claimToken))
        ((failureValues env ev s.time exc availableAt).apply now ·)).events ∧
          (w.seen p).time = s.time) ∧ w.db.Idle p := by
  let N (s' : Seen) : Prop := ∃ now, s'.events =
    (s.updateEvents p (claimed ev.outboxId (some ev.claimToken))
      ((failureValues env ev s.time exc availableAt).apply now ·)).events ∧ s'.time = s.time
  refine .seq .clock fun failedAt => .seq (.lift (N := fun x w =>
    (x = availableAt ∧ failedAt = s.time) ∧ w.seen p = s) fun w ⟨hseen, hnow⟩ => ?_)
      fun x => .of_and ?_
  · have hnow : failedAt = s.time := hnow.trans (congrArg Seen.time hseen)
    exact ⟨availableAt, hnow ▸ hat, ⟨rfl, hnow⟩, hseen⟩
  rintro ⟨rfl, rfl⟩
  rw [persistPublishFailure, failureValues_eq hat]
  refine .session (N := fun _ => N) (.seq (Py.Returns.updateClaimedEvent (N := fun _ => N) |>.pre
    fun w hseen now => ⟨now, by rw [hseen], congrArg (·.time) hseen⟩) fun recorded => ?_)
  split
  · exact .seq ((Py.Returns.failPendingImport (N := fun _ => N)).pre fun w h now b => h)
      fun _ => .ret fun _ h => h
  · exact .ret fun _ h => h

theorem failureValues_attempts {ev : ClaimedOutboxEvent} {failedAt now : Time}
    {availableAt : Option Time} {o : ImportDispatchOutbox} :
    ((failureValues env ev failedAt exc availableAt).apply now o).attemptCount =
      ev.attemptCount + 1 := by
  cases availableAt <;> rfl

theorem ClaimedAlone.recordsOutcome (h : ClaimedAlone env c o token)
    (hretry : CanRetry env.settings o.val c.world.time) :
    RecordsOutcome env c.world o token exc := by
  intro p t
  obtain ⟨availableAt, hat⟩ := canRetry_iff.1 hretry
  obtain ⟨g, hg⟩ := h.reachable.inv
  have hp : o.val.status = .processing :=
    (hg.outbox.consistent o h.row).token.2 (Option.mem_def.1 h.token ▸ rfl)
  have hreturns : Py.Returns env true p t (fun w => w.seen p = c.world.committed)
      (recordPublishFailure env (claimedEvent o token) exc) _ := returns_recordPublishFailure hat
  obtain ⟨τ, ⟨⟩, w', he, hd, ⟨now, hevents, -⟩, hw'⟩ := hreturns c.world
      ⟨⟨hg.wf, fun u _ => h.idle u⟩, h.reachable.now_le p⟩ (World.seen_eq (h.idle p))
  refine ⟨τ, w', he, ?_⟩
  rw [World.seen_eq hw'] at hevents
  have hclaimed : claimed o.id (some token) o = true := by
    simp [claimed, hp, Option.mem_def.1 h.token]
  have hmem : o.update p ((failureValues env (claimedEvent o token) c.world.time exc
      availableAt).apply now ·) ∈ w'.db.importDispatchOutbox.rows := by
    refine (congrArg (_ ∈ ·) hevents).mpr (List.mem_map.2 ⟨o, h.row, ?_⟩)
    exact if_pos hclaimed
  have hevent := (Database.event_eq_some (k := o.id) hd.db.wf).2 ⟨hmem, rfl⟩
  rw [hevent]
  exact decide_eq_true ⟨congrArg some hp, failureValues_attempts⟩

/-- Where it cannot be computed, what is raised leaves `_record_publish_failure`. -/
theorem RecordsOutcome.canRetry {w : World} (h : RecordsOutcome env w o token exc) :
    CanRetry env.settings o.val w.time := by
  obtain ⟨τ, w', he, -⟩ := h 0 .publishDueEvents
  refine canRetry_iff.2 ?_
  rcases Prog.Ends.of_bind he with ⟨e, he, -⟩ | ⟨failedAt, _, _, w₁, -, hclock, he⟩
  · cases he
  obtain ⟨_, rfl, hx, -⟩ := Prog.Ends.of_perform hclock
  cases hx
  change Prog.Ends _ _ (Prog.bind (Py.lift (retryAt env.settings w.time (o.val.attemptCount + 1)
    (decide (o.val.attemptCount + 1 ≥ env.settings.outboxMaxAttempts.1)))) _) _ _ _ _ at he
  cases hat : retryAt env.settings w.time (o.val.attemptCount + 1)
      (decide (o.val.attemptCount + 1 ≥ env.settings.outboxMaxAttempts.1)) with
  | ok availableAt => exact ⟨availableAt, rfl⟩
  | error f =>
    rw [hat] at he
    cases he

/-! ## The first import -/

namespace Py.Returns

theorem acquireFingerprintLock {fingerprint : String} {N : Seen → Prop} : Py.Returns env down p t
    (fun w => N (w.seen p)) (Py.query (.acquireFingerprintLock fingerprint))
      fun _ w => N (w.seen p) := by
  refine query (A := N) (N := fun _ => N) fun d _ _ hd _ h => ?_
  have hfree : (d.advisory (env.server.hashtext fingerprint)).all (· == p) = true := by
    cases hk : d.advisory (env.server.hashtext fingerprint) with
    | none => rfl
    | some u =>
      by_contra hu
      exact (hd.idle u fun e => hu (by simp [e])).advisory _ hk
  exact ⟨(), { d with
    advisory := Function.update d.advisory (env.server.hashtext fingerprint) (some p) },
    by simp only [Database.exec, hfree, if_true], h⟩

theorem getSnapshotByFingerprint {fingerprint : String}
    {N : Option ImportSnapshot → Seen → Prop} : Py.Returns env down p t
      (fun w => (w.seen p).importJobs = [] ∧ N none (w.seen p))
      (Py.query (.getSnapshotByFingerprint fingerprint)) fun a w => N a (w.seen p) := by
  refine query (A := fun s => s.importJobs = [] ∧ N none s) fun d _ _ _ _ h => ⟨none, d, ?_, h.2⟩
  have hview : d.importJobs.view p = [] := h.1
  simp [Database.exec, hview, Server.oldest]

theorem insertImportJob {j stored : ImportJob} (hstore : j.store = .ok stored)
    (hkey : stored.idempotencyKey = none) {N : ImportId → Seen → Prop} : Py.Returns env down p t
      (fun w => ∀ k now, N k { w.seen p with importJobs := (w.seen p).importJobs ++
        [⟨k, p, { stored with createdAt := now }⟩] })
      (Py.query (.insertImportJob j)) fun a w => N a (w.seen p) := by
  refine query (A := fun s => ∀ k now, N k { s with importJobs := s.importJobs ++
    [⟨k, p, { stored with createdAt := now }⟩] }) fun d queue time _ _ h => ?_
  refine ⟨d.issued, { d with
    importJobs := d.importJobs.insert p d.issued { stored with createdAt := d.now p time }
    issued := d.issued + 1 }, ?_, ?_⟩
  · simp only [Database.exec, hstore, Table.insertUnique, hkey, Option.map_some]
  · rw [Database.seen, Table.view_insert]
    exact h _ _

theorem refreshImportJob {i : ImportId} {N : Seen → Prop} : Py.Returns env down p t
    (fun w => ((∃ r ∈ (w.seen p).importJobs, r.id = i) ∧ N (w.seen p)) ∧ w.db.Idle p)
    (Py.query (.refreshImportJob i)) fun (a : Option ImportCreatedResult) w =>
      (∃ result, a = some result) ∧ N (w.seen p) ∧ w.db.Idle p := by
  refine stmt (s := .query (.refreshImportJob i)) fun w _ ⟨⟨⟨r, hr, hid⟩, hN⟩, hidle⟩ =>
    ⟨_, { w with db := w.db.begin p w.time }, rfl, ?_, hN,
      hidle.jobs, hidle.outbox, hidle.shipments, hidle.errors, hidle.advisory⟩
  refine Option.isSome_iff_exists.1 ?_
  rw [Option.isSome_map, List.find?_isSome]
  exact ⟨r, hr, by simpa using hid⟩

end Py.Returns

/-- There is one event, which waits after `n` failures and is due. -/
def Seen.HasFailed (s : Seen) (n : Nat) : Prop :=
  ∃ o, s.events = [o] ∧ o.val.status = .pending ∧ o.val.attemptCount = n ∧
    o.val.availableAt ≤ s.time

/-- Where the row of a request is stored, the first request creates an import. -/
theorem returns_createImport {request : CreateRequest} {stored : ImportJob}
    (hstore : (request.importJob env.settings).store = .ok stored)
    (hkey : request.idempotencyKey = none) (hjobs : s.importJobs = []) (hevents : s.events = []) :
    Py.Returns env down p t (fun w => w.seen p = s) (createImport env.settings request)
      fun _ w => (w.seen p).HasFailed 0 ∧ (w.seen p).time = s.time := by
  let N (s' : Seen) : Prop := s'.HasFailed 0 ∧ s'.time = s.time
  have hstored : stored.idempotencyKey = none := by
    obtain ⟨_, _, _, -, rfl⟩ := CreateRequest.store_eq hstore
    exact hkey
  have hrecords : Py.Returns env down p t (fun w => w.seen p = s)
      (createRecords env.settings request) fun i w =>
        ((∃ r ∈ (w.seen p).importJobs, r.id = i) ∧ N (w.seen p)) ∧ w.db.Idle p := by
    refine .seq ((Py.Returns.insertImportJob hstore hstored (N := fun i s' =>
      (∃ r ∈ s'.importJobs, r.id = i) ∧ s'.events = [] ∧ s'.time = s.time)).pre ?_) fun i => ?_
    · rintro w rfl k now
      exact ⟨⟨_, List.mem_append_right _ List.mem_cons_self, rfl⟩, hevents, rfl⟩
    refine .seq ((Py.Returns.insertDispatchIntent (N := fun s' =>
      (∃ r ∈ s'.importJobs, r.id = i) ∧ N s')).pre ?_) fun _ =>
        .seq (Py.Returns.commit (N := fun s' => (∃ r ∈ s'.importJobs, r.id = i) ∧ N s'))
          fun _ => .ret fun _ h => h
    rintro w ⟨hjob, hnone, htime⟩
    exact ⟨hjob, fun k now hnow => ⟨hjob, ⟨_, by rw [hnone]; rfl, rfl, rfl, hnow⟩, htime⟩⟩
  have hpersist : Py.Returns env down p t (fun w => w.seen p = s)
      (persistImport env.settings request) fun _ w => N (w.seen p) ∧ w.db.Idle p := by
    refine .attempted hrecords fun i => .seq Py.Returns.refreshImportJob fun a => .of_and ?_
    rintro ⟨result, rfl⟩
    exact .ret fun _ h => h
  refine .attempted (M := fun _ w => N (w.seen p) ∧ w.db.Idle p) (.seq
    (Py.Returns.acquireFingerprintLock (N := fun s' => s' = s)) fun _ => ?_) fun a =>
      .seq (Py.Returns.close (N := N)) fun _ => .ret fun _ h => h.1
  rw [hkey]
  refine .seq (M := fun o w => o = none ∧ w.seen p = s) (.ret fun _ h => ⟨rfl, h⟩) fun o =>
    .of_and ?_
  rintro rfl
  refine .seq ((Py.Returns.getSnapshotByFingerprint (N := fun o s' => o = none ∧ s' = s)).pre
    fun w h => ⟨h ▸ hjobs, rfl, h⟩) fun o => .of_and ?_
  rintro rfl
  exact hpersist

theorem exampleRequest_stored (fingerprint : Varchar 64)
    (hmax : settings.importMaxAttempts.1 < 2 ^ 31) :
    ((exampleRequest fingerprint).importJob settings).store =
      .ok ((exampleRequest fingerprint).importJob settings) := by
  have hname : varchar 255 "a.xlsx" = .ok "a.xlsx" := FitsVarchar.varchar (by decide)
  have hpath : varchar 1024 fingerprint.1 = .ok fingerprint.1 :=
    FitsVarchar.varchar ⟨fingerprint.2.1, fingerprint.2.2.trans (by decide)⟩
  have hsize : integer 1 = .ok 1 := rfl
  have hfingerprint : varchar 64 fingerprint.1 = .ok fingerprint.1 := fingerprint.2.varchar
  have hattempts : integer settings.importMaxAttempts.1 = .ok settings.importMaxAttempts.1 :=
    integer_eq_ok.2 ⟨hmax, rfl⟩
  simp only [ImportJob.store, CreateRequest.importJob, exampleRequest, nullable, hname, hpath,
    hsize, hfingerprint, hattempts, bind, Except.bind, pure, Except.pure]

/-! ## Failure after failure -/

/-- A publisher claims the one event that is due. -/
theorem returns_claimOne (hn : env.settings.outboxBatchSize.1 < 2 ^ 63) (hs : s.events = [o])
    (hp : o.val.status = .pending) (hdue : o.val.availableAt ≤ s.time) : Py.Returns env down p t
      (fun w => w.seen p = s) (claimDueEvents env) fun events w => (∃ token,
        events = [claimedEvent o token] ∧
          (w.seen p).events = [o.update p (.claim token s.time)] ∧ (w.seen p).time = s.time) ∧
        w.db.Idle p := by
  refine .session (N := fun events s' => ∃ token, events = [claimedEvent o token] ∧
    s'.events = [o.update p (.claim token s.time)] ∧ s'.time = s.time)
      (.seq .clock fun claimedAt => ?_)
  refine .seq ((Py.Returns.lockDueEvents hn (N := fun (events : List DueEvent) s' =>
    (events = [⟨o.id, o.val.importId, o.val.attemptCount⟩] ∧ claimedAt = s.time) ∧ s' = s)).pre ?_)
      fun events => .of_and ?_
  · rintro w ⟨rfl, rfl⟩
    have hsel : (o.val.status == .pending && decide (o.val.availableAt ≤ w.time)) = true := by
      rw [hp]
      exact decide_eq_true hdue
    have hpos := env.settings.outboxBatchSize.2
    simp only [hs, List.filter_cons, hsel, if_true, List.filter_nil, Server.oldest,
      List.insertionSort_cons, List.insertionSort_nil, List.orderedInsert_nil,
      List.take_of_length_le (l := [o]) (i := env.settings.outboxBatchSize.1) hpos,
      List.map_cons, List.map_nil]
    exact ⟨⟨trivial, rfl⟩, trivial⟩
  · rintro ⟨rfl, rfl⟩
    refine .seq (Py.Returns.saveClaimedEvent (N := fun token s' =>
      s'.events = [o.update p (.claim token s.time)] ∧ s'.time = s.time) |>.pre ?_)
        fun token => .ret fun w h => ⟨token, rfl, h⟩
    rintro w rfl token
    simp [Seen.updateEvents, hs]

/-- A publisher fails to dispatch the one event that is due, and backs it off. -/
theorem returns_failedPublish (hn : env.settings.outboxBatchSize.1 < 2 ^ 63) {n delay : Nat}
    {due : Time} (hs : s.HasFailed n) (hmax : n + 1 < env.settings.outboxMaxAttempts.1)
    (hdelay : env.settings.outboxRetryDelaysSeconds.delays[n]? = some delay)
    (hdue : s.time.plus delay = .ok due) : Py.Returns env true p t (fun w => w.seen p = s)
      (publishDueEvents env) fun _ w => (∃ o, (w.seen p).events = [o] ∧ o.val.status = .pending ∧
        o.val.attemptCount = n + 1 ∧ o.val.availableAt = due) ∧ (w.seen p).time = s.time := by
  obtain ⟨o, hs, hp, rfl, havailable⟩ := hs
  have hat : retryAt env.settings s.time (o.val.attemptCount + 1)
      (decide (o.val.attemptCount + 1 ≥ env.settings.outboxMaxAttempts.1)) = .ok (some due) := by
    rw [decide_eq_false (Nat.not_le_of_lt hmax)]
    exact retryAt_eq_ok.2 ⟨delay, due, hdelay, hdue, rfl⟩
  let N (s' : Seen) : Prop := (∃ o', s'.events = [o'] ∧ o'.val.status = .pending ∧
    o'.val.attemptCount = o.val.attemptCount + 1 ∧ o'.val.availableAt = due) ∧ s'.time = s.time
  have hpublish : ∀ token s₁, s₁.events = [o.update p (.claim token s.time)] → s₁.time = s.time →
      Py.Returns env true p t (fun w => w.seen p = s₁) (publishEvent env (claimedEvent o token))
        fun _ w => N (w.seen p) := by
    intro token s₁ hs₁ htime
    refine .seq Py.Returns.dispatchFails fun r => .of_and ?_
    rintro rfl
    have hupdate : ∀ f, (s₁.updateEvents p (claimed o.id (some token)) f).events =
        [(o.update p (.claim token s.time)).update p f] := by
      simp [Seen.updateEvents, hs₁, claimed, Version.update, ImportDispatchOutbox.claim]
    refine (returns_recordPublishFailure (htime ▸ hat)).post fun _ w h => ?_
    obtain ⟨⟨now, hevents, htime'⟩, -⟩ := h
    exact ⟨⟨_, hevents.trans (hupdate _), rfl, rfl, rfl⟩, htime'.trans htime⟩
  refine .seq (returns_claimOne hn hs hp havailable) fun events => ?_
  refine .pre (B := fun w => ∃ token s₁, (events = [claimedEvent o token] ∧
    s₁.events = [o.update p (.claim token s.time)] ∧ s₁.time = s.time) ∧ w.seen p = s₁)
      (.of_exists fun token => .of_exists fun s₁ => .of_and ?_) ?_
  · rintro ⟨rfl, hs₁, htime⟩
    exact .seq (.seq (hpublish token s₁ hs₁ htime) fun _ => .ret fun _ h => h) fun _ =>
      .ret fun _ h => h
  · rintro w ⟨⟨token, rfl, hevents, htime⟩, -⟩
    exact ⟨token, _, ⟨rfl, hevents, htime⟩, rfl⟩

theorem permits_any (down : Bool) (t : Task) : State.Permits Machine.anyAction down t :=
  ⟨fun _ _ => trivial, fun _ _ _ => trivial, fun _ _ => trivial⟩

/-- The dispatch fails once more, and the delay passes. -/
theorem Reachable.fails_again (h : Reachable env c) (hq : c.Quiet)
    (hn : env.settings.outboxBatchSize.1 < 2 ^ 63) {n delay : Nat} {due : Time}
    (hf : c.world.committed.HasFailed n) (hmax : n + 1 < env.settings.outboxMaxAttempts.1)
    (hdelay : env.settings.outboxRetryDelaysSeconds.delays[n]? = some delay)
    (hdue : c.world.time.plus delay = .ok due) : ∃ c', Reachable env c' ∧ c'.Quiet ∧
      c'.world.committed.HasFailed (n + 1) ∧ c'.world.time = due := by
  obtain ⟨c₁, hc₁, ⟨o, hs, hp, ha, hdue'⟩, htime⟩ := h.pass hq (permits_any true .publishDueEvents)
    rfl (N := fun s => (∃ o, s.events = [o] ∧ o.val.status = .pending ∧
      o.val.attemptCount = n + 1 ∧ o.val.availableAt = due) ∧ s.time = c.world.time) fun p =>
        .seq (returns_failedPublish hn hf hmax hdelay hdue) fun _ => .ret fun _ h => h
  have htime : c₁.world.time = c.world.time := htime
  obtain ⟨c₂, hc₂, hw⟩ : ∃ c₂, c₁.LeadsTo env Machine.anyAction c₂ ∧
      c₂.world = { c₁.world with time := due } :=
    hc₁.quiet.advance env (fun _ _ => trivial) (htime.le.trans (Time.le_plus hdue))
  refine ⟨c₂, hc₂.reachable (hc₁.reachable h), hc₂.quiet, ?_, congrArg World.time hw⟩
  rw [hw]
  exact ⟨o, hs, hp, ha, hdue'.le⟩

/-- What an installation needs to create an import and to go through all its retry delays. -/
structure Settings.Usable (settings : Settings) : Prop where
  attempts : settings.importMaxAttempts.1 < 2 ^ 31
  batch : settings.outboxBatchSize.1 < 2 ^ 63
  delays : Time.epoch.1 + settings.outboxRetryDelaysSeconds.delays.sum * second ≤ datetimeMax

/-- The import is created, and its dispatch fails as often as there are delays. -/
theorem exists_failed (hu : env.settings.Usable) (hmax : 6 ≤ env.settings.outboxMaxAttempts.1)
    {n : Nat} (hn : n ≤ 4) : ∃ c, Reachable env c ∧ c.Quiet ∧ c.world.committed.HasFailed n ∧
      c.world.time.1 = Time.epoch.1 +
        (env.settings.outboxRetryDelaysSeconds.delays.take n).sum * second := by
  induction n with
  | zero =>
    have hinit : State.initial.Quiet := fun _ => rfl
    have hrefl : Reachable env State.initial := .refl
    obtain ⟨c, hc, hf, htime⟩ := hrefl.pass hinit
      (permits_any true (.createImport (exampleRequest fingerprintA))) rfl
      (N := fun s => s.HasFailed 0 ∧ s.time = .epoch) fun p =>
        .seq (returns_createImport (exampleRequest_stored fingerprintA hu.attempts) rfl rfl rfl)
          fun _ => .ret fun _ h => h
    refine ⟨c, hc.reachable .refl, hc.quiet, hf, ?_⟩
    rw [show c.world.time = .epoch from htime]
    simp
  | succ n ih =>
    obtain ⟨c, hc, hq, hf, htime⟩ := ih (by omega)
    have hlt : n < env.settings.outboxRetryDelaysSeconds.delays.length := by
      rw [env.settings.outboxRetryDelaysSeconds.four]
      omega
    have hsum : (env.settings.outboxRetryDelaysSeconds.delays.take (n + 1)).sum =
        (env.settings.outboxRetryDelaysSeconds.delays.take n).sum +
          env.settings.outboxRetryDelaysSeconds.delays[n] := by
      rw [List.take_add_one, List.sum_append, List.getElem?_eq_getElem hlt]
      simp
    have hle : (env.settings.outboxRetryDelaysSeconds.delays.take (n + 1)).sum ≤
        env.settings.outboxRetryDelaysSeconds.delays.sum :=
      (List.take_sublist _ _).sum_le_sum fun _ _ => Nat.zero_le _
    have hroom := hu.delays
    have hmul := Nat.mul_le_mul_right second hle
    rw [hsum, Nat.add_mul] at hmul
    obtain ⟨due, hdue⟩ : ∃ due : Time, due.1 =
        c.world.time.1 + env.settings.outboxRetryDelaysSeconds.delays[n] * second :=
      ⟨⟨c.world.time.1 + env.settings.outboxRetryDelaysSeconds.delays[n] * second, by omega⟩, rfl⟩
    obtain ⟨c', hc', hq', hf', htime'⟩ := hc.fails_again hq hu.batch hf (by omega)
      (List.getElem?_eq_getElem hlt) (Time.plus_eq_ok.2 hdue)
    refine ⟨c', hc', hq', hf', ?_⟩
    rw [htime', hdue, hsum, Nat.add_mul, ← Nat.add_assoc, ← htime]

/-- With more than five attempts, an event is claimed for which the next failure has no delay. -/
theorem exists_unrecorded (hu : env.settings.Usable) (hmax : 6 ≤ env.settings.outboxMaxAttempts.1) :
    ∃ c o token, ClaimedAlone env c o token ∧ o.val.attemptCount = 4 := by
  obtain ⟨c, hc, hq, ⟨o, hs, hp, ha, hdue⟩, -⟩ := exists_failed hu hmax (Nat.le_refl 4)
  obtain ⟨c', events, hr, ⟨⟨token, -, hevents, -⟩, hidle⟩, hproc⟩ := hc.starts hq
    (permits_any true .publishDueEvents) rfl (Prog.bind_assoc _ _ _)
    (returns_claimOne hu.batch hs hp hdue)
  have hc' : Reachable env c' := hc.trans hr
  rw [World.seen_eq hidle] at hevents
  refine ⟨c', _, token, ⟨hc', fun u => ?_, (congrArg (_ ∈ ·) hevents).mpr List.mem_cons_self, rfl⟩,
    ha⟩
  by_cases hu : u = c.procs.length
  · exact hu ▸ hidle
  · exact hc'.idle (by rw [hproc, if_neg hu])

/-- With at most five attempts, every failure that is not the last has its delay. -/
theorem Settings.exists_delay (hmax : settings.outboxMaxAttempts.1 ≤ 5) {n : Nat}
    (hlt : n + 1 < settings.outboxMaxAttempts.1) :
    ∃ delay, settings.outboxRetryDelaysSeconds.delays[n]? = some delay := by
  refine ⟨_, List.getElem?_eq_getElem ?_⟩
  rw [settings.outboxRetryDelaysSeconds.four]
  omega

/-- A failed dispatch is recorded for a claimed event exactly when it is the last, or has a delay
after which there is still a time; and every event, with every reading of the clock, comes up in
such a state. The delays reach for all claimed events exactly when at most five attempts are
configured, in an installation that can go through them. -/
theorem publish_failure_recorded_iff (env : Env) :
    (∀ c o token exc, ClaimedAlone env c o token →
      (RecordsOutcome env c.world o token exc ↔ CanRetry env.settings o.val c.world.time)) ∧
    (∀ c, Reachable env c → ∃ c', Reachable env c' ∧ (∀ u, c'.world.db.Idle u) ∧
      c'.world.db.importDispatchOutbox.rows = c.world.db.importDispatchOutbox.rows ∧
      c'.world.time = c.world.time) ∧
    (env.settings.Usable → ((∀ c o token exc, ClaimedAlone env c o token →
      (∀ delay ∈ env.settings.outboxRetryDelaysSeconds.delays[o.val.attemptCount]?,
        ∃ due, c.world.time.plus delay = .ok due) → RecordsOutcome env c.world o token exc) ↔
      env.settings.outboxMaxAttempts.1 ≤ 5)) := by
  refine ⟨fun c o token exc h => ⟨RecordsOutcome.canRetry, h.recordsOutcome⟩, fun c h => ?_,
    fun hu => ⟨fun h => ?_, fun hmax c o token exc h hdue => h.recordsOutcome fun hlt => ?_⟩⟩
  · obtain ⟨c', hr, hq, hs⟩ := exists_kills env c
    have hc' : Reachable env c' := h.trans (hr.mono fun _ _ _ => trivial)
    exact ⟨c', hc', fun u => hc'.idle (hq u), hs.rows.outbox, hs.time⟩
  · by_contra hmax
    obtain ⟨c, o, token, hc, ha⟩ := exists_unrecorded hu (Nat.lt_of_not_le hmax)
    have hnone : env.settings.outboxRetryDelaysSeconds.delays[o.val.attemptCount]? = none := by
      rw [List.getElem?_eq_none_iff, env.settings.outboxRetryDelaysSeconds.four, ha]
    have hrecords := h c o token .retry hc fun _ hd => by
      rw [hnone] at hd
      cases hd
    obtain ⟨_, _, hd, -⟩ := hrecords.canRetry (by omega)
    rw [hnone] at hd
    cases hd
  · obtain ⟨delay, hd⟩ := Settings.exists_delay hmax hlt
    obtain ⟨due, hdue⟩ := hdue delay hd
    exact ⟨delay, due, hd, hdue⟩

/-! ## An outage that ends the publisher -/

/-- Seven attempts, which the validators accept, and the default delays. -/
def sevenAttempts : RawSettings := { outboxMaxAttempts := 7 }

def sevenAttemptsEnv : Env :=
  { oneRowEnv with settings := { Settings.default with outboxMaxAttempts := ⟨7, by decide⟩ } }

/-- An import is created and its dispatch fails four times; then another one is created, and both
are claimed by a publisher whose first dispatch fails. -/
def outageRun : List Event :=
  .spawn (.createImport (exampleRequest fingerprintA)) :: statements 0 7 ++ .finish 0 ::
    failedPublish 1 ++ failedPublish 2 ++ failedPublish 3 ++ failedPublish 4 ++
    .spawn (.createImport (exampleRequest fingerprintB)) :: statements 5 7 ++ .finish 5 ::
    .spawn .publishDueEvents :: statements 6 6 ++
    [.step 6 (.fail .osError), .step 6 .run, .finish 6]

/-- The processes that ended with an exception. -/
def State.raised (c : State) : List (Nat × Exc) :=
  c.finished.filterMap fun x => match x.2.2 with
    | .ok _ => none
    | .error e => some (x.1, e)

set_option maxRecDepth 100000 in
/-- The publisher ends with an `IndexError`, and both events stay claimed. -/
theorem outage_ends_publisher :
    RawSettings.validate sevenAttempts = .ok sevenAttemptsEnv.settings ∧
    ∃ c, (service sevenAttemptsEnv).trace State.initial outageRun = some c ∧
      State.raised c = [(6, .raised .indexError)] ∧
      (c.world.db.importDispatchOutbox.rows.map fun o => (o.val.status, o.val.attemptCount)) =
        [(.processing, 4), (.processing, 0)] :=
  ⟨rfl, exists_trace (by decide +kernel)⟩

end

end ShipmentImport
