import ShipmentImport.Properties.Outbox

/-!
# Back-off

When the events of the outbox are due: what a publisher writes into an event it has from its clock,
so the time an event is available from never decreases, and no claim is made before the back-off of
a failure has passed, whoever recovers claims in between.
-/

namespace ShipmentImport

/-! ## What publishers write -/

/-- The times a process has read, first to last. -/
def Exchanges.clocks (τ : Exchanges) : List Time :=
  τ.filterMap fun x => match x with
    | ⟨.clock, .ok now⟩ => some now
    | _ => none

/-- The exchanges of a publisher whose dispatch call raised and that read the clock right after. -/
def dispatchFailure (importId : ImportId) (e : Exc) (failedAt : Time) : Exchanges :=
  [⟨.dispatchImport importId, .error e⟩, ⟨.clock, .ok failedAt⟩]

/-- What a publisher may do next: claims are made at its first reading of the clock, and a back-off
starts at the reading that follows the failed dispatch. -/
def Publishes (settings : Settings) (τ : Exchanges) : Stmt → Prop
  | .query (.lockDueEvents ..) | .query (.failPendingImport ..) => True
  | .query (.saveClaimedEvent _ claimedAt) => τ.clocks.head? = some claimedAt
  | .query (.updateClaimedEvent _ _ .published) => True
  | .query (.updateClaimedEvent _ _ (.publishFailure n _ status availableAt _)) =>
    status = .failed ∨ status = .pending ∧ ∃ τ₀ importId e failedAt delay due,
      τ = τ₀ ++ dispatchFailure importId e failedAt ∧
      settings.outboxRetryDelaysSeconds.delays[n - 1]? = some delay ∧
      failedAt.plus delay = .ok due ∧ availableAt = some due
  | .query _ => False
  | _ => True

/-- What a stale-claim recovery may do next. -/
def RecoversClaims : Stmt → Prop
  | .query (.lockStaleClaims ..) | .query (.failPendingImport ..) => True
  | .query (.updateClaimedEvent _ _ (.requeueStale ..)) => True
  | .query (.updateClaimedEvent _ _ (.staleFailed _)) => True
  | .query _ => False
  | _ => True

/-- The program keeps `I` when it starts with `A`, and ends with `B`. -/
def Py.Under (env : Env) (I : Exchanges → Stmt → Prop) (A B : Exchanges → Prop) {α : Type}
    (x : Py α) : Prop :=
  ∀ τ, A τ → Py.Free env I (fun τ' _ => B τ') τ x

/-- Further exchanges do not matter. -/
def Lasting (A : Exchanges → Prop) : Prop := ∀ τ x, A τ → A (τ ++ [x])

namespace Py.Under

variable {env : Env} {I : Exchanges → Stmt → Prop} {A B : Exchanges → Prop} {α β : Type}

theorem ret {a : α} : Py.Under env I A A (pure a : Py α) := fun _ h => h

theorem lift {x : Except Fault α} : Py.Under env I A A (Py.lift x) := by
  cases x <;> exact fun _ h => h

theorem raise {e : Exc} : Py.Under env I A A (throw e : Py α) := fun _ h => h

theorem stmt' {s : Stmt} (hB : ∀ τ x, A τ → B (τ ++ [x])) (hI : ∀ τ, A τ → I τ s) :
    (Py.stmt s).Under env I A B :=
  fun τ h => Prog.Free.perform (hI τ h) fun _ _ => hB τ _ h

theorem stmt {s : Stmt} (hA : Lasting A) (hI : ∀ τ, A τ → I τ s) : (Py.stmt s).Under env I A A :=
  stmt' hA hI

theorem seq {x : Py α} {f : α → Py β} (hx : x.Under env I A B)
    (hf : ∀ a, (f a).Under env I B B) : Py.Under env I A B (x >>= f) := by
  intro τ hτ
  refine Prog.Free.bind ((hx τ hτ).mono fun τ o hτ' => ?_)
  cases o with
  | ok a => exact hf a τ hτ'
  | error e => exact hτ'

theorem attempted {x : Py α} {f : Except Exc α → Py β} (hx : x.Under env I A B)
    (hf : ∀ o, (f o).Under env I B B) : Py.Under env I A B (x.attempt >>= f) :=
  fun τ hτ => Prog.Free.attempted (hx τ hτ) fun τ' o hτ' => hf o τ' hτ'

theorem withSession {x : Py α} (hB : Lasting B) (hI : ∀ τ, I τ .close)
    (hx : x.Under env I A B) : (ShipmentImport.withSession x).Under env I A B := by
  refine attempted hx fun o => ?_
  cases o with
  | ok a => exact seq (stmt hB fun τ _ => hI τ) fun _ => ret
  | error e => exact seq (stmt hB fun τ _ => hI τ) fun _ => raise

theorem inTransaction {x : Py α} (hB : Lasting B) (hI : ∀ τ, I τ .commit)
    (hI' : ∀ τ, I τ .rollback) (hx : x.Under env I A B) :
    (ShipmentImport.inTransaction x).Under env I A B := by
  refine seq (attempted hx fun o => ?_) fun o => ?_
  · cases o with
    | error e => exact seq (stmt hB fun τ _ => hI' τ) fun _ => ret
    | ok a =>
      refine attempted ret fun o => ?_
      cases o with
      | error e => exact seq (stmt hB fun τ _ => hI' τ) fun _ => ret
      | ok b =>
        refine attempted (stmt hB fun τ _ => hI τ) fun o => ?_
        cases o with
        | error e => exact seq (stmt hB fun τ _ => hI' τ) fun _ => ret
        | ok _ => exact ret
  · rcases o with ⟨a, e⟩ | a
    · exact raise
    · exact ret

theorem forEach {xs : List α} {f : α → Py Unit} (hf : ∀ a, (f a).Under env I A A) :
    (ShipmentImport.forEach xs f).Under env I A A := by
  induction xs with
  | nil => exact ret
  | cons x xs ih => exact seq (hf x) fun _ => ih

end Py.Under

section
variable {env : Env}

theorem clocks_append (τ τ' : Exchanges) :
    Exchanges.clocks (τ ++ τ') = τ.clocks ++ Exchanges.clocks τ' := List.filterMap_append

theorem lasting_head (c : Time) : Lasting fun τ => τ.clocks.head? = some c := by
  intro τ x h
  rw [clocks_append, List.head?_append, h, Option.some_or]

theorem lasting_true : Lasting fun _ => True := fun _ _ h => h

theorem under_claimEvents (c : Time) (events : List DueEvent) :
    (claimEvents c events).Under env (Publishes env.settings) (fun τ => τ.clocks.head? = some c)
      fun τ => τ.clocks.head? = some c := by
  induction events with
  | nil => exact .ret
  | cons event events ih =>
    refine .seq (.stmt (lasting_head c) fun τ h => h) fun claimToken => ?_
    exact .seq ih fun claimedEvents => .ret

theorem under_claimDueEvents :
    (claimDueEvents env).Under env (Publishes env.settings) (fun τ => τ.clocks = [])
      fun _ => True := by
  refine .withSession lasting_true (fun _ => trivial) <|
    .inTransaction lasting_true (fun _ => trivial) (fun _ => trivial) ?_
  intro τ hτ
  refine Prog.Free.seq trivial (fun now _ => ?_) fun _ _ => trivial
  have hrest : Py.Under env (Publishes env.settings) (fun τ => τ.clocks.head? = some now)
      (fun τ => τ.clocks.head? = some now) (do
        let events ← Py.query (.lockDueEvents env.settings.outboxBatchSize.1 now)
        claimEvents now events) :=
    .seq (.stmt (lasting_head now) fun _ _ => trivial) fun events => under_claimEvents now events
  refine Prog.Free.mono (fun _ _ _ => trivial) (hrest _ ?_)
  show (Exchanges.clocks _).head? = _
  rw [clocks_append, hτ]
  rfl

theorem under_recordPublishSuccess (ev : ClaimedOutboxEvent) :
    (recordPublishSuccess ev).Under env (Publishes env.settings) (fun _ => True) fun _ => True := by
  refine .seq (.withSession lasting_true (fun _ => trivial) <|
    .inTransaction lasting_true (fun _ => trivial) (fun _ => trivial) ?_) fun _ => .ret
  exact .stmt lasting_true fun _ _ => trivial

theorem under_persistPublishFailure (ev : ClaimedOutboxEvent) (failedAt : Time) (message : String)
    (exhausted : Bool) (availableAt : Option Time) {A : Exchanges → Prop}
    (h : exhausted = true ∨ ∀ τ, A τ → ∃ τ₀ importId e failedAt delay due,
      τ = τ₀ ++ dispatchFailure importId e failedAt ∧
      env.settings.outboxRetryDelaysSeconds.delays[ev.attemptCount]? = some delay ∧
      failedAt.plus delay = .ok due ∧ availableAt = some due) :
    (persistPublishFailure ev failedAt message (ev.attemptCount + 1) exhausted availableAt).Under env
      (Publishes env.settings) A fun _ => True := by
  refine .seq (.stmt' (fun _ _ _ => trivial) fun τ hτ => ?_) fun recorded => ?_
  · cases exhausted with
    | true => exact .inl rfl
    | false => exact .inr ⟨rfl, (h.resolve_left (by simp)) τ hτ⟩
  · split
    · exact .seq (.stmt lasting_true fun _ _ => trivial) fun _ => .ret
    · exact .ret

/-- After a dispatch call that raised. -/
theorem under_recordPublishFailure (ev : ClaimedOutboxEvent) (exc : Exc) (τ₀ : Exchanges)
    (importId : ImportId) : (recordPublishFailure env ev exc).Under env (Publishes env.settings)
      (· = τ₀ ++ [⟨.dispatchImport importId, .error exc⟩]) fun _ => True := by
  rintro τ rfl
  refine Prog.Free.seq trivial (fun failedAt _ => ?_) fun _ _ => trivial
  rw [List.append_assoc]
  have hpersist : ∀ exhausted availableAt, (exhausted = true ∨
      ∃ delay due, env.settings.outboxRetryDelaysSeconds.delays[ev.attemptCount]? = some delay ∧
        failedAt.plus delay = .ok due ∧ availableAt = some due) →
      Py.Free env (Publishes env.settings) (fun _ _ => True)
        (τ₀ ++ dispatchFailure importId exc failedAt)
        (withSession <| inTransaction <| persistPublishFailure ev failedAt
          (safeErrorMessage env exc) (ev.attemptCount + 1) exhausted availableAt) := by
    intro exhausted availableAt h
    refine Py.Under.withSession (A := (· = τ₀ ++ dispatchFailure importId exc failedAt))
      lasting_true (fun _ => trivial) (Py.Under.inTransaction lasting_true (fun _ => trivial)
        (fun _ => trivial) (under_persistPublishFailure ev failedAt _ exhausted availableAt
          (h.imp_right fun ⟨delay, due, h⟩ τ hτ => ?_))) _ rfl
    exact ⟨τ₀, importId, exc, failedAt, delay, due, hτ, h⟩
  dsimp only
  generalize decide (ev.attemptCount + 1 ≥ env.settings.outboxMaxAttempts.1) = exhausted
  cases hat : retryAt env.settings failedAt (ev.attemptCount + 1) exhausted with
  | error f => trivial
  | ok availableAt =>
    refine hpersist exhausted availableAt ?_
    cases exhausted with
    | true => exact .inl rfl
    | false => exact .inr (retryAt_eq_ok.1 hat)

theorem under_publishEvent (ev : ClaimedOutboxEvent) :
    (publishEvent env ev).Under env (Publishes env.settings) (fun _ => True) fun _ => True := by
  intro τ _
  refine Prog.Free.attempted (M := fun τ' o => τ' = τ ++ [⟨.dispatchImport ev.importId, o⟩])
    (Prog.Free.perform trivial fun _ _ => rfl) ?_
  rintro τ' o rfl
  cases o with
  | error exc => exact under_recordPublishFailure ev exc τ ev.importId _ rfl
  | ok _ => exact under_recordPublishSuccess ev _ trivial

theorem under_publishDueEvents :
    (publishDueEvents env).Under env (Publishes env.settings) (fun τ => τ.clocks = [])
      fun _ => True := by
  refine .seq under_claimDueEvents fun claimedEvents => ?_
  exact .seq (.forEach under_publishEvent) fun _ => .ret

theorem under_recoverStaleClaim (staleClaim : StaleOutboxClaim) (recoveredAt : Time) :
    (recoverStaleClaim env staleClaim recoveredAt).Under env (fun _ => RecoversClaims)
      (fun _ => True) fun _ => True := by
  unfold recoverStaleClaim
  split
  · refine .seq (.stmt lasting_true fun _ _ => trivial) fun failed => ?_
    cases failed with
    | true => exact .seq (.stmt lasting_true fun _ _ => trivial) fun _ => .ret
    | false => exact .ret
  · exact .seq (.stmt lasting_true fun _ _ => trivial) fun _ => .ret

theorem under_recoverStaleClaims :
    (recoverStaleClaims env).Under env (fun _ => RecoversClaims) (fun _ => True)
      fun _ => True := by
  refine .seq (.stmt lasting_true fun _ _ => trivial) fun recoveredAt => ?_
  refine .seq .lift fun staleBefore => ?_
  refine .withSession lasting_true (fun _ => trivial) <|
    .inTransaction lasting_true (fun _ => trivial) (fun _ => trivial) ?_
  refine .seq (.stmt lasting_true fun _ _ => trivial) fun staleClaims => ?_
  induction staleClaims with
  | nil => exact .ret
  | cons staleClaim staleClaims ih =>
    refine .seq (under_recoverStaleClaim staleClaim recoveredAt) fun exhausted => ?_
    exact .seq ih fun rest => .ret

/-- What a task may do next. -/
def Task.Stamps (settings : Settings) : Task → Exchanges → Stmt → Prop
  | .publishDueEvents => Publishes settings
  | .recoverStaleClaims => fun _ => RecoversClaims
  | _ => fun _ _ => True

theorem stamps_taskProgram (p : Nat) (t : Task) :
    Py.Free env (t.Stamps env.settings) (fun _ _ => True) [] (taskProgram env p t) := by
  cases t with
  | publishDueEvents =>
    exact Prog.Free.bind ((under_publishDueEvents [] rfl).mono fun τ o _ => by cases o <;> trivial)
  | recoverStaleClaims =>
    exact Prog.Free.bind ((under_recoverStaleClaims [] trivial).mono fun τ o _ => by
      cases o <;> trivial)
  | createImport | processImport | recoverStaleImports => exact Prog.Free.trivial

end

/-! ## Along runs -/

/-- The exchange of process `p` in a step of a run. -/
def exchange (env : Env) (p : Nat) (x : State × Event × State) :
    Option (Prog.Exchange Stmt Stmt.Reply Exc) :=
  match x.2.1, x.1.proc p with
  | .step q ch, some (t, .stmt s _) =>
    if q = p then (World.exec env p t s ch x.1.world).map fun y => ⟨s, y.1⟩ else none
  | _, _ => none

/-- The exchanges of process `p` in a run. -/
def exchanges (env : Env) (p : Nat) (σ : List (State × Event × State)) : Exchanges :=
  σ.filterMap (exchange env p)

/-- A publisher `t` that made the exchanges `τ` claims at its first reading of the clock. -/
def ClaimStamped (t : Task) (τ : Exchanges) (u : OutboxRow) : Prop :=
  u.val.status = .processing →
    t = .publishDueEvents ∧ ∃ c, u.val.claimedAt = some c ∧ τ.clocks.head? = some c

/-- The failure of the event `k` was recorded, after `n` failures, at `failedAt`: a dispatch call
raised, the clock showed `failedAt`, and the delay of the attempt was added. -/
def RecordedFailure (settings : Settings) (τ : Exchanges) (k n : Nat) (failedAt availableAt : Time) :
    Prop :=
  ∃ importId e token message claimedAt delay r, dispatchFailure importId e failedAt ++
      [⟨.query (.updateClaimedEvent k token
        (.publishFailure n message .pending (some availableAt) claimedAt)), r⟩] <:+: τ ∧
    settings.outboxRetryDelaysSeconds.delays[n - 1]? = some delay ∧
    failedAt.plus delay = .ok availableAt

/-- What the exchanges of process `p` have to do with the run, and with its versions of events. -/
structure Clocked (env : Env) (p : Nat) (t : Task) (τ : Exchanges)
    (σ : List (State × Event × State)) (w : World) : Prop where
  exchanges : τ = ShipmentImport.exchanges env p σ
  sorted : τ.clocks.Pairwise (· ≤ ·)
  past : ∀ now ∈ τ.clocks, now ≤ w.time
  rows : t.role = .publisher → ∀ u ∈ w.db.importDispatchOutbox.rows, u.writer = p →
    ClaimStamped t τ u
  staged : t.role = .publisher → ∀ x ∈ w.db.importDispatchOutbox.staged p, ∃ u, x = .update u ∧
    ClaimStamped t τ u ∧ (u.val.status = .pending → t = .publishDueEvents → ∃ failedAt,
      RecordedFailure env.settings τ u.id u.val.attemptCount failedAt u.val.availableAt)

section
variable {env : Env} {c c' : State} {p : Nat} {t : Task} {τ : Exchanges}
  {σ : List (State × Event × State)} {w w' : World}

theorem ClaimStamped.append {u : OutboxRow} (h : ClaimStamped t τ u)
    (x : Prog.Exchange Stmt Stmt.Reply Exc) : ClaimStamped t (τ ++ [x]) u := by
  intro hs
  obtain ⟨ht, c, hc, hh⟩ := h hs
  exact ⟨ht, c, hc, lasting_head c τ x hh⟩

theorem RecordedFailure.append {settings : Settings} {k n : Nat} {failedAt availableAt : Time}
    (h : RecordedFailure settings τ k n failedAt availableAt)
    (x : Prog.Exchange Stmt Stmt.Reply Exc) :
    RecordedFailure settings (τ ++ [x]) k n failedAt availableAt := by
  obtain ⟨i, e, token, message, claimedAt, delay, r, hi, hd⟩ := h
  exact ⟨i, e, token, message, claimedAt, delay, r, List.infix_append_of_infix_left hi, hd⟩

theorem RecordedFailure.mem_clocks {settings : Settings} {k n : Nat} {failedAt availableAt : Time}
    (h : RecordedFailure settings τ k n failedAt availableAt) : failedAt ∈ τ.clocks := by
  obtain ⟨i, e, token, message, claimedAt, delay, r, hi, -⟩ := h
  refine List.mem_filterMap.2 ⟨⟨.clock, .ok failedAt⟩, hi.subset ?_, rfl⟩
  exact .tail _ (.head _)

/-- A version that is claimed after a step was claimed before, or by the process that took it. -/
theorem Reachable.claimed_cases (h : Reachable env c) {a : Event}
    (hn : (service env).next c a = some c') {o : OutboxRow}
    (ho : o ∈ c'.world.db.importDispatchOutbox.rows) (hs : o.val.status = .processing) :
    o ∈ c.world.db.importDispatchOutbox.rows ∨ ∃ t, c.actor a = some (o.writer, t) := by
  obtain ⟨g, hg⟩ := h.inv
  obtain ⟨g', hg'⟩ := (h.next hn).inv
  rcases h.next_event hn o.id with e | ⟨p, t, sent, hact, hstep⟩
  · have he := (Database.event_eq_some hg'.wf).2 ⟨ho, rfl⟩
    exact .inl ((Database.event_eq_some hg.wf).1 (e ▸ he)).1
  · have htk : o.val.claimToken ≠ none := by
      have := (hg'.outbox.consistent o ho).token.1 hs
      exact Option.isSome_iff_ne_none.1 this
    rcases hstep.writer hg.wf hg'.wf ho rfl htk with hm | rfl
    · exact .inl hm
    · exact .inr ⟨t, hact⟩

/-- Claims are made by processes that exist. -/
theorem Reachable.claimant_lt (h : Reachable env c) : ∀ o ∈ c.world.db.importDispatchOutbox.rows,
    o.val.status = .processing → o.writer < c.procs.length := by
  induction h with
  | refl => exact fun o ho => nomatch ho
  | @tail c c' hr hs ih =>
    obtain ⟨a, -, hn⟩ := hs
    intro o ho hst
    refine Nat.lt_of_lt_of_le ?_ (Machine.length_le_of_next hn)
    rcases Reachable.claimed_cases hr hn ho hst with ho | ⟨t, hact⟩
    · exact ih o ho hst
    · cases a with
      | step q ch =>
        obtain ⟨x, hx, he⟩ := Option.map_eq_some_iff.1 hact
        cases he
        exact Outline.proc_lt hx
      | spawn | finish | crash | env => cases hact

/-- The changes an update of the outbox adds. -/
theorem staged_of_update {d d' : Database} (hw : d.Wf) {sel : OutboxRow → Bool}
    {f : ImportDispatchOutbox → ImportDispatchOutbox} {res : Except Fault (List OutboxRow)}
    (hu : d.updateOutbox p sel f = some (res, d')) {x : Change ImportDispatchOutbox}
    (hm : x ∈ d'.importDispatchOutbox.staged p) :
    x ∈ d.importDispatchOutbox.staged p ∨ ∃ o, sel o = true ∧ x = .update ⟨o.id, p, f o.val⟩ := by
  obtain ⟨⟨new, T⟩, hT, hu⟩ := Option.map_eq_some_iff.1 hu
  cases hu
  obtain ⟨-, rfl, hst, -⟩ := Table.updateWhere_spec hw.outbox hT
  rcases List.mem_append.1 (hst ▸ hm) with hm | hm
  · exact .inl hm
  · obtain ⟨u, hu, rfl⟩ := List.mem_map.1 hm
    obtain ⟨o, ho, rfl⟩ := List.mem_map.1 hu
    exact .inr ⟨o, (List.mem_filter.1 ho).2, rfl⟩

/-- The changes of a publisher that a query adds. -/
theorem staged_of_query {q : Query} {r : Except Fault q.Reply} {r' : Except Exc q.Reply}
    {d : Database} (ht : t.role = .publisher) (hI : t.Stamps env.settings τ (.query q))
    (hw : w.db.Wf) (hx : (w.db.begin p w.time).exec env.server w.time p q = some (r, d))
    {x : Change ImportDispatchOutbox} (hm : x ∈ d.importDispatchOutbox.staged p) :
    x ∈ w.db.importDispatchOutbox.staged p ∨ ∃ u, x = .update u ∧ ClaimStamped t τ u ∧
      (u.val.status = .pending → t = .publishDueEvents → ∃ failedAt,
        RecordedFailure env.settings (τ ++ [⟨.query q, r'⟩]) u.id u.val.attemptCount failedAt
          u.val.availableAt) := by
  have hb := (Database.own_begin (s := p) hw w.time).wf
  cases q with
  | lockDueEvents n b | lockStaleClaims n b =>
    rcases Database.limited_cases hx with ⟨rfl, rfl⟩ | ⟨rfl, rfl⟩ <;> exact .inl hm
  | failPendingImport importId reason =>
    obtain ⟨r', hu, -⟩ := Database.mapReply_eq hx
    rcases Database.updateJobs_spec hu with ⟨new, T, -, -, rfl, -⟩ | ⟨-, rfl, -⟩ <;> exact .inl hm
  | saveClaimedEvent k claimedAt =>
    obtain ⟨r', hu, -⟩ := Database.mapReply_eq hx
    refine (staged_of_update (Database.own_issue (s := p) hb).wf hu hm).imp_right ?_
    rintro ⟨o, -, rfl⟩
    refine ⟨_, rfl, fun _ => ?_, by rintro ⟨⟩⟩
    cases t with
    | publishDueEvents => exact ⟨rfl, claimedAt, rfl, hI⟩
    | recoverStaleClaims => exact hI.elim
    | createImport | processImport | recoverStaleImports => cases ht
  | updateClaimedEvent k token values =>
    obtain ⟨r', hu, -⟩ := Database.mapReply_eq hx
    refine (staged_of_update hb hu hm).imp_right ?_
    rintro ⟨o, ho, rfl⟩
    have hk : o.id = k := by
      simp only [claimed, Bool.and_eq_true, beq_iff_eq] at ho
      exact ho.1.1
    refine ⟨_, rfl, ?_⟩
    cases t with
    | publishDueEvents =>
      cases values with
      | published => exact ⟨by rintro ⟨⟩, by rintro ⟨⟩⟩
      | publishFailure n message status availableAt claimedAt =>
        rcases hI with rfl | ⟨rfl, τ₀, importId, e, failedAt, delay, due, rfl, hd, hdue, rfl⟩
        · exact ⟨by rintro ⟨⟩, by rintro ⟨⟩⟩
        · refine ⟨by rintro ⟨⟩, fun _ _ => ⟨failedAt, importId, e, token, message,
            claimedAt, delay, r', ?_, hd, hdue⟩⟩
          rw [List.append_assoc, hk]
          exact List.infix_append_right
      | requeueStale | staleFailed => exact hI.elim
    | recoverStaleClaims =>
      cases values with
      | requeueStale recoveredAt message => exact ⟨by rintro ⟨⟩, by rintro _ ⟨⟩⟩
      | staleFailed message => exact ⟨by rintro ⟨⟩, by rintro ⟨⟩⟩
      | published | publishFailure => exact hI.elim
    | createImport | processImport | recoverStaleImports => cases ht
  | _ =>
    cases t with
    | publishDueEvents | recoverStaleClaims => exact hI.elim
    | createImport | processImport | recoverStaleImports => cases ht

/-! ### The steps of a run -/

theorem exchanges_append (x : State × Event × State) :
    exchanges env p (σ ++ [x]) = exchanges env p σ ++ (exchange env p x).toList := by
  rw [exchanges, exchanges, List.filterMap_append]
  cases h : exchange env p x <;> simp [h]

/-- Only the steps of a process are exchanges of it. -/
theorem exchange_eq_none {a : Event} (ha : ∀ ch, a ≠ .step p ch) :
    exchange env p (c, a, c') = none := by
  cases a with
  | step q ch =>
    have hq : q ≠ p := fun e => ha ch (e ▸ rfl)
    unfold exchange
    split
    · next e _ =>
      cases e
      rw [if_neg hq]
    · rfl
  | spawn | finish | crash | env => rfl

theorem exchange_step {ch : Choice} {s : Stmt} {k : Except Exc s.Reply → Py TaskResult}
    {r : Except Exc s.Reply} (hp : c.proc p = some (t, .stmt s k))
    (hx : World.exec env p t s ch c.world = some (r, w)) :
    exchange env p (c, .step p ch, c') = some ⟨s, r⟩ := by
  simp only [exchange, hp, if_true, hx, Option.map_some]

/-- A process that does not exist yet made no exchanges. -/
theorem exchanges_eq_nil (h : (service env).Trail Machine.anyAction State.initial σ c)
    (hp : c.procs.length ≤ p) : exchanges env p σ = [] := by
  induction h with
  | nil => rfl
  | @snoc σ c a c' _ _ hn ih =>
    have hle := Machine.length_le_of_next hn
    rw [exchanges_append, ih (hle.trans hp), exchange_eq_none]
    · rfl
    rintro ch rfl
    simp only [Machine.next] at hn
    split at hn
    · next hq => exact absurd (Outline.proc_lt hq) (Nat.not_lt.2 (hle.trans hp))
    · cases hn

/-- A process that starts. -/
theorem Clocked.spawn (h : (service env).Trail Machine.anyAction State.initial σ c)
    (hn : (service env).next c (.spawn t) = some c') :
    Clocked env c.procs.length t [] (σ ++ [(c, .spawn t, c')]) c'.world := by
  obtain ⟨g, hg⟩ := Reachable.holds h.run
  have hidle : c.world.db.Idle c.procs.length := (hg.fresh _ (Nat.le_refl _)).idle
  exact
    { exchanges := by
        rw [exchanges_append, exchanges_eq_nil h (Nat.le_refl _), exchange_eq_none]
        · rfl
        · exact fun _ h => nomatch h
      sorted := .nil
      past := fun _ hm => nomatch hm
      rows := fun _ u hu hw hs => by
        rw [(next_rows hn fun _ _ h => nomatch h).outbox] at hu
        exact absurd (Reachable.claimant_lt h.run u hu hs) (hw ▸ Nat.lt_irrefl _)
      staged := fun _ x hx => by
        have hnil : c'.world.db.importDispatchOutbox.staged c.procs.length = [] := by
          rcases next_cases hn with ⟨_, _, _, _, _, _, e, _⟩ | ⟨-, -, e | ⟨q, e⟩⟩
          · cases e
          · rw [e]
            exact hidle.outbox.staged
          · by_cases hq : c.procs.length = q
            · rw [e, ← hq]
              exact (Database.idle_rollback _ _).outbox.staged
            · rw [e]
              exact (((Database.own_rollback hg.inv.wf).keeps _ hq).idle hidle).outbox.staged
        rw [hnil] at hx
        cases hx }

/-- A step that is not a statement of `p`. -/
theorem Clocked.other (h : Reachable env c) {a : Event} (hn : (service env).next c a = some c')
    (ha : ∀ ch, a ≠ .step p ch) (hc : Clocked env p t τ σ c.world) :
    Clocked env p t τ (σ ++ [(c, a, c')]) c'.world := by
  obtain ⟨g, hg⟩ := h.inv
  have htime : c.world.time ≤ c'.world.time := next_time hn
  have hstaged : c'.world.db.importDispatchOutbox.staged p =
      c.world.db.importDispatchOutbox.staged p ∨
      c'.world.db.importDispatchOutbox.staged p = [] := by
    rcases next_cases hn with ⟨q, ch, u, s, k, r, rfl, -, hx⟩ | ⟨-, -, e | ⟨q, e⟩⟩
    · have hq : p ≠ q := fun e => ha ch (e ▸ rfl)
      exact .inl ((exec_touches hx).2.keeps hg.wf hq).outbox.staged
    · exact .inl (e ▸ rfl)
    · by_cases hq : p = q
      · exact .inr (e ▸ hq ▸ (Database.idle_rollback _ _).outbox.staged)
      · exact .inl (e ▸ ((Database.own_rollback hg.wf).keeps p hq).outbox.staged)
  exact
    { exchanges := by
        rw [exchanges_append, exchange_eq_none ha, ← hc.exchanges]
        exact (List.append_nil _).symm
      sorted := hc.sorted
      past := fun now hm => (hc.past now hm).trans htime
      rows := fun ht u hu hw hs => by
        rcases h.claimed_cases hn hu hs with hu | ⟨v, hact⟩
        · exact hc.rows ht u hu hw hs
        · cases a with
          | step q ch =>
            obtain ⟨x, -, he⟩ := Option.map_eq_some_iff.1 hact
            cases he
            exact absurd (hw ▸ rfl) (ha ch)
          | spawn | finish | crash | env => cases hact
      staged := fun ht x hx => by
        rcases hstaged with e | e
        · exact hc.staged ht x (e ▸ hx)
        · rw [e] at hx
          cases hx }

/-- The clock shows the time. -/
theorem clocks_exchange {ch : Choice} {s : Stmt} {r : Except Exc s.Reply}
    (hx : World.exec env p t s ch w = some (r, w')) :
    Exchanges.clocks [⟨s, r⟩] = [] ∨ Exchanges.clocks [⟨s, r⟩] = [w.time] := by
  cases s with
  | clock =>
    cases ch <;> cases hx
    exact .inr rfl
  | _ => exact .inl rfl

/-- A statement of `p`. -/
theorem Clocked.step (h : Reachable env c) {ch : Choice} {s : Stmt}
    {k : Except Exc s.Reply → Py TaskResult} {r : Except Exc s.Reply}
    (hp : c.proc p = some (t, .stmt s k))
    (hx : World.exec env p t s ch c.world = some (r, c'.world))
    (hI : t.Stamps env.settings τ s) (hc : Clocked env p t τ σ c.world) :
    Clocked env p t (τ ++ [⟨s, r⟩]) (σ ++ [(c, .step p ch, c')]) c'.world := by
  obtain ⟨g, hg⟩ := h.inv
  obtain ⟨htime, htouch⟩ := exec_touches hx
  have hclocks := clocks_exchange hx
  exact
    { exchanges := by rw [exchanges_append, exchange_step hp hx, ← hc.exchanges]; rfl
      sorted := by
        rw [clocks_append]
        rcases hclocks with e | e
        · rw [e, List.append_nil]
          exact hc.sorted
        · rw [e, List.pairwise_append]
          refine ⟨hc.sorted, List.pairwise_singleton _ _, fun now hm now' hm' => ?_⟩
          rw [List.mem_singleton.1 hm']
          exact hc.past now hm
      past := fun now hm => by
        rw [clocks_append] at hm
        rw [htime]
        rcases List.mem_append.1 hm with hm | hm
        · exact hc.past now hm
        · rcases hclocks with e | e <;> rw [e] at hm
          · cases hm
          · rw [List.mem_singleton.1 hm]
      rows := fun ht u hu hw => by
        rcases htouch.rows hg.wf with ⟨rfl, e⟩ | hrows
        · rw [e] at hu
          rcases Table.mem_view hu with hu | hu | hu
          · exact (hc.rows ht u hu hw).append _
          · obtain ⟨_, e, -⟩ := hc.staged ht _ hu
            cases e
          · obtain ⟨_, e, hcl, -⟩ := hc.staged ht _ hu
            cases e
            exact hcl.append _
        · exact (hc.rows ht u (hrows.outbox ▸ hu) hw).append _
      staged := fun ht x hm => by
        have hold : x ∈ c.world.db.importDispatchOutbox.staged p → ∃ u, x = .update u ∧
            ClaimStamped t (τ ++ [⟨s, r⟩]) u ∧ (u.val.status = .pending → t = .publishDueEvents →
              ∃ failedAt, RecordedFailure env.settings (τ ++ [⟨s, r⟩]) u.id u.val.attemptCount
                failedAt u.val.availableAt) := by
          intro hm
          obtain ⟨u, hu, hcl, hf⟩ := hc.staged ht x hm
          exact ⟨u, hu, hcl.append _, fun hs ht =>
            have ⟨failedAt, hr⟩ := hf hs ht
            ⟨failedAt, hr.append _⟩⟩
        generalize c'.world.db = d at htouch hm
        cases htouch with
        | query hq =>
          rcases staged_of_query ht hI hg.wf hq hm with hm | ⟨u, hu, hcl, hf⟩
          · exact hold hm
          · exact ⟨u, hu, hcl.append _, hf⟩
        | commit =>
          rw [(Database.idle_commit _ _).outbox.staged] at hm
          cases hm
        | rollback =>
          rw [(Database.idle_rollback _ _).outbox.staged] at hm
          cases hm
        | other n => exact hold hm }

/-- Every live process and its exchanges. -/
theorem clocked (h : (service env).Trail Machine.anyAction State.initial σ c)
    {x : Py TaskResult} (hp : c.proc p = some (t, x)) :
    ∃ τ, Clocked env p t τ σ c.world := by
  obtain ⟨τ, -, hc⟩ := Machine.Trail.history (K := Replies env)
    (I := fun t => t.Stamps env.settings) (J := Clocked env) (fun hx => ⟨_, _, _, _, _, hx⟩)
    stamps_taskProgram Clocked.spawn (fun h _ hp hx hI hc => hc.step h.run hp hx hI)
    (fun h hn ha _ hc => hc.other h.run hn ha) h p t x hp
  exact ⟨τ, hc⟩

/-- The failures that are recorded and leave the event PENDING: the back-off starts at the reading
of the clock that followed the failed dispatch, which is not before the claim. -/
theorem recorded_failure (h : (service env).Trail Machine.anyAction State.initial σ c) {a : Event}
    (hn : (service env).next c a = some c') {k : Nat} {o u : OutboxRow}
    (ho : c.world.db.event k = some o) (hu : c'.world.db.event k = some u)
    (hf : RecordsFailure (some o) (some u) = true) (hs : u.val.status = .pending) :
    ∃ p t claimedAt failedAt, c.actor a = some (p, t) ∧ o.val.claimedAt = some claimedAt ∧
      claimedAt ≤ failedAt ∧ failedAt ≤ c.world.time ∧
      RecordedFailure env.settings (exchanges env p σ) k (o.val.attemptCount + 1) failedAt
        u.val.availableAt := by
  obtain ⟨g, hg⟩ := Reachable.inv h.run
  obtain ⟨hop, hatt⟩ := of_decide_eq_true hf
  have hop : o.val.status = .processing := Option.some.inj hop
  rcases Reachable.next_event h.run hn k with e | ⟨p, t, sent, hact, hstep⟩
  · rw [e, ho] at hu
    cases hu
    rw [hop] at hs
    cases hs
  obtain ⟨hmem, hid⟩ := (Database.event_eq_some hg.wf).1 ho
  cases a with
  | spawn | finish | crash | env => cases hact
  | step q ch =>
    obtain ⟨⟨t, x⟩, hp, he⟩ := Option.map_eq_some_iff.1 hact
    cases he
    obtain ⟨τ, hc⟩ := clocked h hp
    rw [ho, hu] at hstep
    have hrole : t.role = .publisher ∧ o.writer = p ∧ u.id = o.id ∧
        u.val.attemptCount = o.val.attemptCount + 1 := by
      generalize t.role = role at hstep ⊢
      generalize hv : (some u : Option OutboxRow) = v at hstep
      cases hstep with
      | stay => cases hv; rw [hop] at hs; cases hs
      | claim token claimedAt pending => rw [pending] at hop; cases hop
      | publish => cases hv; cases hs
      | retry now failedAt message delay due processing own => cases hv; exact ⟨rfl, own, rfl, rfl⟩
      | exhaust => cases hv; cases hs
      | requeue => cases hv; exact absurd hatt (by simp [eventAttempts, OutboxValues.apply])
    obtain ⟨ht, hw, hui, hua⟩ := hrole
    obtain ⟨htp, claimedAt, hcl, hhead⟩ := hc.rows ht o hmem hw hop
    -- the new version was staged by the process
    obtain ⟨g', hg'⟩ := Reachable.inv (Reachable.next h.run hn)
    obtain ⟨hum, -⟩ := (Database.event_eq_some hg'.wf).1 hu
    have hnew : u ∉ c.world.db.importDispatchOutbox.rows := by
      intro hum
      obtain rfl := Table.eq_of_id hg.wf.outbox.nodup hum hmem hui
      exact absurd hua (by omega)
    have hstaged : .update u ∈ c.world.db.importDispatchOutbox.staged p := by
      rcases next_cases hn with ⟨p', ch', t', s, k', r, e, -, hx⟩ | ⟨ha, -⟩
      · cases e
        rcases (exec_touches hx).2.rows hg.wf with ⟨-, e⟩ | e
        · rw [e] at hum
          rcases Table.mem_view hum with hum | hum | hum
          · exact absurd hum hnew
          · obtain ⟨_, e, -⟩ := hc.staged ht _ hum
            cases e
          · exact hum
        · exact absurd (e.outbox ▸ hum) hnew
      · exact absurd rfl (ha _ _)
    obtain ⟨_, e, -, hrec⟩ := hc.staged ht _ hstaged
    cases e
    obtain ⟨failedAt, hrec⟩ := hrec hs htp
    have hclock := hrec.mem_clocks
    refine ⟨p, t, claimedAt, failedAt, hact, hcl, ?_, hc.past _ hclock, ?_⟩
    · obtain ⟨rest, hrest⟩ := List.head?_eq_some_iff.1 hhead
      have hsorted := hc.sorted
      rw [hrest] at hclock hsorted
      rcases List.mem_cons.1 hclock with rfl | hm
      · exact le_refl _
      · exact List.rel_of_pairwise_cons hsorted hm
    · rw [← hc.exchanges, ← hua, ← hid, ← hui]
      exact hrec

/-! ## When an event is due -/

/-- `available_at` of an event; the first time before it exists. -/
def eventDue (x : Option OutboxRow) : Time := x.elim .min (·.val.availableAt)

@[simp] theorem eventDue_some (o : OutboxRow) : eventDue (some o) = o.val.availableAt := rfl

/-- A claimed event was due at its claim. -/
theorem Reachable.claimed_due (h : Reachable env c) {k : Nat} {o : OutboxRow}
    (ho : c.world.db.event k = some o) (hs : o.val.status = .processing) :
    ∃ claimedAt, o.val.claimedAt = some claimedAt ∧ o.val.availableAt ≤ claimedAt := by
  induction h generalizing o with
  | refl => cases ho
  | @tail c c' hr hs' ih =>
    obtain ⟨a, -, hn⟩ := hs'
    rcases Reachable.next_event hr hn k with e | ⟨p, t, sent, -, hstep⟩
    · exact ih (e ▸ ho) hs
    · generalize hx : c.world.db.event k = x at hstep
      rw [ho] at hstep
      generalize t.role = role at hstep
      cases hstep with
      | stay => exact ih hx hs
      | create importId availableAt now _ new => rw [new] at hs; cases hs
      | claim token claimedAt pending due => exact ⟨claimedAt, rfl, due⟩
      | publish | retry | exhaust | requeue => cases hs

/-- No step makes an event available earlier. -/
theorem eventDue_le_of_next (h : (service env).Trail Machine.anyAction State.initial σ c) {a : Event}
    (hn : (service env).next c a = some c') (k : Nat) :
    eventDue (c.world.db.event k) ≤ eventDue (c'.world.db.event k) := by
  rcases Reachable.next_event h.run hn k with e | ⟨p, t, sent, -, hstep⟩
  · rw [e]
  generalize hx : c.world.db.event k = x at hstep ⊢
  generalize hy : c'.world.db.event k = y at hstep ⊢
  generalize t.role = role at hstep
  cases hstep with
  | stay => exact le_refl _
  | create => exact Nat.zero_le _
  | claim | publish | exhaust => exact le_refl _
  | retry now failedAt message delay due processing own attempts lookup later =>
    obtain ⟨claimedAt, hcl, hle⟩ := Reachable.claimed_due h.run hx processing
    obtain ⟨_, _, claimedAt', failedAt', _, hcl', hle', _, hrec⟩ := recorded_failure h hn hx hy
      (by simp [RecordsFailure, eventStatus, eventAttempts, processing, OutboxValues.apply]) rfl
    obtain ⟨_, _, _, _, _, delay', _, _, _, havail⟩ := hrec
    cases hcl.symm.trans hcl'
    rw [eventDue_some, eventDue_some]
    exact hle.trans (hle'.trans (Time.le_plus havail))
  | requeue now recoveredAt message processing stale =>
    obtain ⟨claimedAt, hcl, hle⟩ := Reachable.claimed_due h.run hx processing
    rw [hcl] at stale
    obtain ⟨_, ⟨⟩, hlt⟩ := stale
    exact hle.trans ((Nat.le_add_right _ _).trans hlt.le)

theorem eventDue_le (h : Reachable env c) (hr : (service env).Run Machine.anyAction c c') (k : Nat) :
    eventDue (c.world.db.event k) ≤ eventDue (c'.world.db.event k) := by
  induction hr with
  | refl => exact le_refl _
  | tail hr hs ih =>
    obtain ⟨a, -, hn⟩ := hs
    obtain ⟨σ, hσ⟩ := Machine.Run.trail (Relation.ReflTransGen.trans h hr)
    exact ih.trans (eventDue_le_of_next hσ hn k)

/-- A claim is not made before the event is due, by the clock of the claimant and by that of the
system. -/
theorem claim_due (h : Reachable env c) {a : Event} (hn : (service env).next c a = some c') {k : Nat}
    (hc : ClaimedBy (c.world.db.event k) (c'.world.db.event k) = true) :
    ∃ u claimedAt, c'.world.db.event k = some u ∧ u.val.claimedAt = some claimedAt ∧
      eventDue (c.world.db.event k) ≤ claimedAt ∧ claimedAt ≤ c'.world.time := by
  obtain ⟨hx, hy⟩ := of_decide_eq_true hc
  obtain ⟨o, ho, hop⟩ := Option.map_eq_some_iff.1 hx
  obtain ⟨u, hu, hup⟩ := Option.map_eq_some_iff.1 hy
  obtain ⟨g', hg'⟩ := Reachable.inv (h.next hn)
  obtain ⟨hum, -⟩ := (Database.event_eq_some hg'.wf).1 hu
  rcases h.next_event hn k with e | ⟨p, t, sent, hact, hstep⟩
  · rw [e, ho] at hu
    cases hu
    cases hop.symm.trans hup
  cases a with
  | spawn | finish | crash | env => cases hact
  | step q ch =>
    obtain ⟨⟨t, x⟩, hp, he⟩ := Option.map_eq_some_iff.1 hact
    cases he
    rw [ho, hu] at hstep
    have hclaim : t.role = .publisher ∧ u.writer = p ∧ ∃ claimedAt,
        u.val.claimedAt = some claimedAt ∧ o.val.availableAt ≤ claimedAt := by
      generalize t.role = role at hstep ⊢
      generalize hv : (some u : Option OutboxRow) = v at hstep
      cases hstep with
      | stay => cases hv; cases hop.symm.trans hup
      | claim token claimedAt pending due => cases hv; exact ⟨rfl, rfl, claimedAt, rfl, due⟩
      | publish | retry | exhaust | requeue => cases hv; cases hup
    obtain ⟨ht, hw, claimedAt, hcl, hle⟩ := hclaim
    refine ⟨u, claimedAt, hu, hcl, ho ▸ hle, ?_⟩
    -- the claim is stamped with a reading of the clock
    obtain ⟨σ, hσ⟩ := Machine.Run.trail h
    obtain ⟨t', s, k', r, hp', -, hp''⟩ := Machine.next_step hn
    cases hp.symm.trans hp'
    obtain ⟨τ, hτ⟩ := clocked (hσ.snoc trivial hn) hp''
    obtain ⟨-, claimedAt', hcl', hhead⟩ := hτ.rows ht u hum hw hup
    cases hcl.symm.trans hcl'
    exact hτ.past _ (List.mem_of_mem_head? hhead)

/-- No event is claimed in the future. -/
theorem Reachable.claimed_le (h : Reachable env c) (k : Nat) :
    ∀ o, c.world.db.event k = some o → o.val.status = .processing →
      ∀ claimedAt ∈ o.val.claimedAt, claimedAt ≤ c.world.time := by
  induction h with
  | refl => exact fun o ho => nomatch ho
  | @tail d d' hr hs ih =>
    obtain ⟨a, -, hn⟩ := hs
    intro o ho hp claimedAt hat
    rcases Reachable.next_event hr hn k with e | ⟨p, t, sent, -, hstep⟩
    · exact (ih o (e ▸ ho) hp claimedAt hat).trans (next_time hn)
    · by_cases hc : ClaimedBy (d.world.db.event k) (d'.world.db.event k) = true
      · obtain ⟨u, at', hu, hat', -, hle⟩ := claim_due hr hn hc
        cases hu.symm.trans ho
        cases hat'.symm.trans hat
        exact hle
      · -- no other step leaves it claimed
        rw [ho] at hstep hc
        generalize t.role = role at hstep
        generalize hx : d.world.db.event k = x at hstep hc
        generalize hy : some o = y at hstep hc
        cases hstep with
        | stay => exact (ih o (hx.trans hy.symm) hp claimedAt hat).trans (next_time hn)
        | create importId availableAt now _ new =>
          cases hy
          rw [new] at hp
          cases hp
        | claim token at' pending due =>
          exact absurd (decide_eq_true ⟨congrArg some pending, rfl⟩) hc
        | publish | retry | exhaust | requeue =>
          cases hy
          cases hp

/-! ## Back-offs -/

/-- The failed dispatch is recorded, and the event waits for the next attempt. -/
def RetriesLater (x y : Option OutboxRow) : Bool :=
  RecordsFailure x y && decide (eventStatus y = some .pending)

/-- The step from `c` to `c'` that takes `a`, after the run `σ`, records failure `n` of event `k`:
the dispatch call failed at `failedAt`, and the event is backed off by `delay` seconds until `due`.
-/
structure Backoff (env : Env) (σ : List (State × Event × State)) (c : State) (a : Event)
    (c' : State) (k n : Nat) (failedAt : Time) (delay : Nat) (due : Time) : Prop where
  number : n = (σ ++ [(c, a, c')]).countP (onEvent k RecordsFailure)
  recorded : ∃ p t o claimedAt, c.actor a = some (p, t) ∧ c.world.db.event k = some o ∧
    o.val.claimedAt = some claimedAt ∧ claimedAt ≤ failedAt ∧ failedAt ≤ c.world.time ∧
    RecordedFailure env.settings (exchanges env p σ) k n failedAt due
  lookup : env.settings.outboxRetryDelaysSeconds.delays[n - 1]? = some delay
  later : due.1 = failedAt.1 + delay * second
  due : eventDue (c'.world.db.event k) = due

theorem countP_snoc (f : State × Event × State → Bool) (x : State × Event × State) :
    (σ ++ [x]).countP f = σ.countP f + (f x).toNat := by
  rw [List.countP_append, List.countP_singleton]
  cases f x <;> rfl

/-- Every failure that is recorded and leaves the event PENDING backs it off. -/
theorem exists_backoff (h : (service env).Trail Machine.anyAction State.initial σ c) {a : Event}
    (hn : (service env).next c a = some c') {k : Nat}
    (hr : RetriesLater (c.world.db.event k) (c'.world.db.event k) = true) :
    ∃ n failedAt delay due, Backoff env σ c a c' k n failedAt delay due := by
  obtain ⟨hf, hs⟩ := Bool.and_eq_true_iff.1 hr
  obtain ⟨u, hu, hup⟩ := Option.map_eq_some_iff.1 (of_decide_eq_true hs)
  obtain ⟨o, ho, -⟩ := Option.map_eq_some_iff.1 (of_decide_eq_true hf).1
  have hf' := hf
  rw [ho, hu] at hf'
  obtain ⟨p, t, claimedAt, failedAt, hact, hcl, hle, hpast, hrec⟩ :=
    recorded_failure h hn ho hu hf' hup
  have hcount : (σ ++ [(c, a, c')]).countP (onEvent k RecordsFailure) = o.val.attemptCount + 1 := by
    rw [countP_snoc, ← (Reachable.event_accounts h k).2.1, ho]
    show _ + (RecordsFailure _ _).toNat = _
    rw [hf]
    rfl
  obtain ⟨_, _, _, _, _, delay, _, _, hd, havail⟩ := id hrec
  exact ⟨_, failedAt, delay, _,
    { number := rfl
      recorded := ⟨p, t, o, claimedAt, hact, ho, hcl, hle, hpast, by rwa [hcount]⟩
      lookup := by rwa [hcount]
      later := Time.plus_eq_ok.1 havail
      due := by rw [hu, eventDue_some] }⟩

/-- Later failures have longer back-offs. -/
theorem Backoff.delay_lt {c₁ c₁' : State} {a₁ a₂ : Event} {σ' : List (State × Event × State)}
    {c₂ c₂' : State} {k n m delay delay' : Nat} {failedAt failedAt' due due' : Time}
    (h : Backoff env σ c₁ a₁ c₁' k n failedAt delay due)
    (h' : Backoff env (σ ++ (c₁, a₁, c₁') :: σ') c₂ a₂ c₂' k m failedAt' delay' due')
    (hr : RecordsFailure (c₁.world.db.event k) (c₁'.world.db.event k) = true)
    (hr' : RecordsFailure (c₂.world.db.event k) (c₂'.world.db.event k) = true) : delay < delay' := by
  have hn := h.number
  have hm := h'.number
  rw [countP_snoc] at hn hm
  rw [List.countP_append, List.countP_cons] at hm
  have e : onEvent k RecordsFailure (c₁, a₁, c₁') = true := hr
  have e' : onEvent k RecordsFailure (c₂, a₂, c₂') = true := hr'
  rw [e] at hn hm
  rw [e'] at hm
  simp only [Bool.toNat_true, if_true] at hn hm
  have hd := List.getElem?_eq_some_iff.1 h.lookup
  have hd' := List.getElem?_eq_some_iff.1 h'.lookup
  obtain ⟨hi, rfl⟩ := hd
  obtain ⟨hj, rfl⟩ := hd'
  exact List.pairwise_iff_getElem.1 env.settings.outboxRetryDelaysSeconds.increasing _ _ hi hj
    (by omega)

/-- A claim of event `k` by the step from `d` to `d'` is not made before `due`. -/
def ClaimsAfter (due : Time) (k : Nat) (d d' : State) : Prop :=
  ClaimedBy (d.world.db.event k) (d'.world.db.event k) = true → ∃ u claimedAt,
    d'.world.db.event k = some u ∧ u.val.claimedAt = some claimedAt ∧ due ≤ claimedAt ∧
      claimedAt ≤ d'.world.time

theorem claims_after (h : Reachable env c) {d d' : State}
    (hr : (service env).Run Machine.anyAction c d) {a : Event}
    (hn : (service env).next d a = some d') (k : Nat) :
    ClaimsAfter (eventDue (c.world.db.event k)) k d d' := by
  intro hc
  obtain ⟨u, claimedAt, hu, hcl, hle, hpast⟩ :=
    claim_due (Relation.ReflTransGen.trans h hr) hn hc
  exact ⟨u, claimedAt, hu, hcl, (eventDue_le h hr k).trans hle, hpast⟩

/-- The time an event is available from never decreases, and nobody claims it earlier than it was
available from at any time before, whoever recovers its claims in between. Each failure that is
recorded and not the last backs the event off by the delay of its number: nobody claims it before,
and the back-offs grow. -/
theorem backoff_respected (h : (service env).Trail Machine.anyAction State.initial σ c) (k : Nat) :
    (∀ d, (service env).Run Machine.anyAction c d →
      eventDue (c.world.db.event k) ≤ eventDue (d.world.db.event k) ∧
      ∀ a d', (service env).next d a = some d' →
        ClaimsAfter (eventDue (c.world.db.event k)) k d d') ∧
    ∀ a c', (service env).next c a = some c' →
      RetriesLater (c.world.db.event k) (c'.world.db.event k) = true →
      ∃ n failedAt delay due, Backoff env σ c a c' k n failedAt delay due ∧
        ∀ σ' d, (service env).Trail Machine.anyAction c' σ' d → ∀ a' d',
          (service env).next d a' = some d' → ClaimsAfter due k d d' ∧
          (RetriesLater (d.world.db.event k) (d'.world.db.event k) = true →
            ∃ m failedAt' delay' due',
              Backoff env (σ ++ (c, a, c') :: σ') d a' d' k m failedAt' delay' due' ∧
              delay < delay') := by
  refine ⟨fun d hr => ⟨eventDue_le h.run hr k, fun a d' hn => claims_after h.run hr hn k⟩,
    fun a c' hn hr => ?_⟩
  obtain ⟨n, failedAt, delay, due, hb⟩ := exists_backoff h hn hr
  refine ⟨n, failedAt, delay, due, hb, fun σ' d hσ' a' d' hn' => ⟨?_, fun hr' => ?_⟩⟩
  · rw [← hb.due]
    exact claims_after (Reachable.next h.run hn) hσ'.run hn' k
  · have htrail : (service env).Trail Machine.anyAction State.initial (σ ++ (c, a, c') :: σ') d := by
      have := (h.snoc trivial hn).append hσ'
      rwa [List.append_assoc] at this
    obtain ⟨m, failedAt', delay', due', hb'⟩ := exists_backoff htrail hn' hr'
    exact ⟨m, failedAt', delay', due', hb', hb.delay_lt hb' (Bool.and_eq_true_iff.1 hr).1
      (Bool.and_eq_true_iff.1 hr').1⟩

/-- An import is created and its dispatch fails; the event is due two seconds later. -/
def backedOffRun : List Event :=
  .spawn (.createImport (exampleRequest fingerprintA)) :: statements 0 7 ++ .finish 0 ::
    failedPublish 1

set_option maxRecDepth 100000 in
theorem backedOffRun_due : ∃ c, (service oneRowEnv).trace State.initial backedOffRun = some c ∧
    ∀ d, (service oneRowEnv).Run Machine.anyAction c d →
      Time.epoch.1 + 2 * second ≤ (eventDue (d.world.db.event 1)).1 := by
  obtain ⟨c, hc, hdue⟩ : ∃ c, (service oneRowEnv).trace State.initial backedOffRun = some c ∧
      (eventDue (c.world.db.event 1)).1 = Time.epoch.1 + 2 * second :=
    exists_trace (by decide +kernel)
  obtain ⟨σ, hσ⟩ := Machine.Run.trail (Machine.run_of_trace _ hc)
  exact ⟨c, hc, fun d hr => hdue ▸ ((backoff_respected hσ 1).1 d hr).1⟩

end

end ShipmentImport
