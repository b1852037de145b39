import ShipmentImport.Lib.Alone
import ShipmentImport.Properties.StoredFiles

/-!
# Processes that are alone

What a service does when no other process has an open transaction and nothing fails: the statements
on the job and event rows work on what the session sees as on lists, and return. `Py.Returns` is the
rule form; the assertions are about what is seen.
-/

namespace ShipmentImport

/-! ## What a process sees -/

/-- The rows a session sees, the queue and the clock. -/
structure Seen where
  importJobs : List (Version ImportJob)
  events : List (Version ImportDispatchOutbox)
  queue : List Message
  time : Time

namespace Seen

variable (s : Seen) (p : Nat)

def updateJobs (sel : Version ImportJob → Bool) (f : ImportJob → ImportJob) : Seen :=
  { s with importJobs := s.importJobs.map fun r => if sel r then r.update p f else r }

def updateEvents (sel : Version ImportDispatchOutbox → Bool)
    (f : ImportDispatchOutbox → ImportDispatchOutbox) : Seen :=
  { s with events := s.events.map fun o => if sel o then o.update p f else o }

end Seen

namespace Database

/-- Only session `p` has an open transaction. -/
structure Alone (p : Nat) (d : Database) : Prop where
  wf : d.Wf
  idle : ∀ u, u ≠ p → d.Idle u

def seen (d : Database) (p : Nat) (queue : List Message) (time : Time) : Seen :=
  ⟨d.importJobs.view p, d.importDispatchOutbox.view p, queue, time⟩

namespace Alone

variable {d : Database} {p : Nat}

theorem jobs (h : d.Alone p) : d.importJobs.Alone p := fun u hu => (h.idle u hu).jobs

theorem outbox (h : d.Alone p) : d.importDispatchOutbox.Alone p := fun u hu => (h.idle u hu).outbox

/-- An update of import jobs that the check constraint admits. -/
theorem updateJobs (h : d.Alone p) (queue : List Message) (time : Time)
    (sel : Version ImportJob → Bool) (f : ImportJob → ImportJob)
    (hck : ∀ r ∈ d.importJobs.view p, sel r = true → (f r.val).ckFailureReasonTerminal = true) :
    ∃ d',
      d.updateJobs p sel f = some (.ok (((d.importJobs.view p).filter sel).map (.update p f)), d') ∧
        d'.seen p queue time = (d.seen p queue time).updateJobs p sel f := by
  obtain ⟨T, hT, hview⟩ := h.jobs.updateWhere h.wf.jobs (p := sel) (f := f)
  refine ⟨{ d with importJobs := T }, ?_, by rw [seen, hview]; rfl⟩
  rw [Database.updateJobs, hT, Option.map_some, if_pos]
  refine List.all_eq_true.2 fun x hx => ?_
  obtain ⟨r, hr, rfl⟩ := List.mem_map.1 hx
  exact hck r (List.mem_of_mem_filter hr) (List.of_mem_filter hr)

theorem updateOutbox (h : d.Alone p) (queue : List Message) (time : Time)
    (sel : Version ImportDispatchOutbox → Bool)
    (f : ImportDispatchOutbox → ImportDispatchOutbox) : ∃ d', d.updateOutbox p sel f =
        some (.ok (((d.importDispatchOutbox.view p).filter sel).map (.update p f)), d') ∧
      d'.seen p queue time = (d.seen p queue time).updateEvents p sel f := by
  obtain ⟨T, hT, hview⟩ := h.outbox.updateWhere h.wf.outbox (p := sel) (f := f)
  refine ⟨{ d with importDispatchOutbox := T }, ?_, by rw [seen, hview]; rfl⟩
  rw [Database.updateOutbox, hT]
  rfl

/-- The foreign key check passes where the import is seen. -/
theorem referenceJob (h : d.Alone p) (queue : List Message) (time : Time) {i : ImportId}
    (hi : ∃ r ∈ d.importJobs.view p, r.id = i) :
    ∃ d', d.referenceJob p i = some (.ok (), d') ∧
      d'.seen p queue time = d.seen p queue time := by
  obtain ⟨T, hT, hview⟩ := h.jobs.keyShare i
  refine ⟨{ d with importJobs := T }, ?_, by rw [seen, hview]; rfl⟩
  rw [Database.referenceJob, if_pos (by simpa using hi), hT]
  rfl

theorem begin (h : d.Alone p) (time : Time) : (d.begin p time).Alone p :=
  ⟨(Database.own_begin h.wf time).wf, fun u hu =>
    ((Database.own_begin (s := p) h.wf time).keeps u hu).idle (h.idle u hu)⟩

end Alone

end Database

def World.seen (w : World) (p : Nat) : Seen := w.db.seen p w.queue w.time

/-- How a statement goes when nothing fails, but for the broker when it is down. -/
def Stmt.choice (down : Bool) : Stmt → Choice
  | .dispatchImport _ => if down then .fail .osError else .run
  | _ => .run

/-- A statement of process `p`, while the broker is up or down. -/
abbrev World.Performs (env : Env) (down : Bool) (p : Nat) (t : Task) (s : Stmt) (w : World)
    (r : Except Exc s.Reply) (w' : World) : Prop :=
  World.exec env p t s (s.choice down) w = some (r, w')

theorem World.perform_alone {env : Env} {p : Nat} {t : Task} {s : Stmt} {w w' : World}
    {r : Except Exc s.Reply} (h : w.db.Alone p) (hx : w.perform env p t s = some (r, w')) :
    w'.db.Alone p := by
  have ht := (perform_touches hx).2
  have hn := World.perform_issued h.wf hx
  refine ⟨?_, fun u hu => (ht.keeps h.wf hu).idle (h.idle u hu)⟩
  generalize w'.db = d at ht hn
  cases ht with
  | query hq => exact (Database.exec_own (Database.own_begin (s := p) h.wf w.time).wf hq).wf
  | commit => exact Database.wf_commit h.wf
  | rollback => exact (Database.own_rollback h.wf).wf
  | other n =>
    exact ⟨h.wf.jobs.mono hn, h.wf.outbox.mono hn, h.wf.shipments.mono hn, h.wf.errors.mono hn⟩

theorem World.performs_cases {env : Env} {down : Bool} {p : Nat} {t : Task} {s : Stmt}
    {w w' : World} {r : Except Exc s.Reply} (h : World.Performs env down p t s w r w') :
    w.perform env p t s = some (r, w') ∨ down = true ∧ w' = w := by
  cases s with
  | dispatchImport i =>
    cases down with
    | true =>
      cases h
      exact .inr ⟨rfl, rfl⟩
    | false => exact .inl h
  | _ => exact .inl h

/-- Only session `p` has an open transaction, which did not begin in the future. -/
structure World.Alone (p : Nat) (w : World) : Prop where
  db : w.db.Alone p
  now : w.db.now p w.time ≤ w.time

theorem World.performs_alone {env : Env} {down : Bool} {p : Nat} {t : Task} {s : Stmt}
    {w w' : World} {r : Except Exc s.Reply} (h : w.Alone p)
    (hx : World.Performs env down p t s w r w') : w'.Alone p := by
  rcases World.performs_cases hx with hx | ⟨-, rfl⟩
  · refine ⟨World.perform_alone h.db hx, ?_⟩
    obtain ⟨htime, ht⟩ := perform_touches hx
    rw [htime, Database.now]
    rcases ht.began with e | e | e <;> rw [e]
    · exact h.now
    · exact le_refl _
    · exact h.now
  · exact h

theorem World.performs_time {env : Env} {down : Bool} {p : Nat} {t : Task} {s : Stmt}
    {w w' : World} {r : Except Exc s.Reply} (hx : World.Performs env down p t s w r w') :
    w'.time = w.time :=
  (exec_touches hx).1

/-- No time passes while a program runs alone. -/
theorem World.ends_time {env : Env} {down : Bool} {p : Nat} {t : Task} {α : Type} {x : Py α}
    {w w' : World} {τ : Exchanges} {o : Except Exc α}
    (h : Prog.Ends (World.Performs env down p t) Eq x w τ o w') : w'.time = w.time :=
  h.keeps (I := fun _ => True) (K := fun v => v.time = w.time)
    (fun _ _ hv he => he ▸ hv) (fun _ _ _ _ _ hv hx => (World.performs_time hx).trans hv)
    (Prog.Free.trivial (τ := [])) rfl

/-! ## Programs that return -/

/-- Alone in a world with `A`, the program returns, and `N` holds then. -/
def Py.Returns (env : Env) (down : Bool) (p : Nat) (t : Task) {α : Type} (A : World → Prop)
    (x : Py α) (N : α → World → Prop) : Prop :=
  ∀ w, w.Alone p → A w → ∃ τ a w', Prog.Ends (World.Performs env down p t) Eq x w τ (.ok a) w' ∧
    w'.Alone p ∧ N a w'

namespace Py.Returns

variable {env : Env} {down : Bool} {p : Nat} {t : Task} {α β : Type} {A B : World → Prop}

/-- Every execution is the one that returns. -/
theorem ends {x : Py α} {N : α → World → Prop} (h : Py.Returns env down p t A x N) {w w' : World}
    (hd : w.Alone p) (hA : A w) {τ : Exchanges} {o : Except Exc α}
    (he : Prog.Ends (World.Performs env down p t) Eq x w τ o w') :
    w'.Alone p ∧ ∃ a, o = .ok a ∧ N a w' := by
  obtain ⟨τ', a, w₁, he', hd', hN⟩ := h w hd hA
  obtain ⟨rfl, rfl⟩ := he'.unique (fun s w r₁ w₁ r₂ w₂ h₁ h₂ => by
    cases Option.some.inj (h₁.symm.trans h₂)
    exact ⟨rfl, rfl⟩) he
  exact ⟨hd', a, rfl, hN⟩

theorem ret {a : α} {N : α → World → Prop} (h : ∀ w, A w → N a w) :
    Py.Returns env down p t A (pure a) N :=
  fun w hd hA => ⟨_, a, w, .ret, hd, h w hA⟩

theorem lift {x : Except Fault α} {N : α → World → Prop} (h : ∀ w, A w → ∃ a, x = .ok a ∧ N a w) :
    Py.Returns env down p t A (Py.lift x) N := by
  intro w hd hA
  obtain ⟨a, rfl, hN⟩ := h w hA
  exact ⟨_, a, w, .ret, hd, hN⟩

theorem pre {x : Py α} {N : α → World → Prop} (h : Py.Returns env down p t B x N)
    (hAB : ∀ w, A w → B w) : Py.Returns env down p t A x N :=
  fun w hd hA => h w hd (hAB w hA)

theorem post {x : Py α} {N N' : α → World → Prop} (h : Py.Returns env down p t A x N)
    (hN : ∀ a w, N a w → N' a w) : Py.Returns env down p t A x N' := by
  intro w hd hA
  obtain ⟨τ, a, w', he, hd', ha⟩ := h w hd hA
  exact ⟨τ, a, w', he, hd', hN a w' ha⟩

theorem of_exists {ι : Sort*} {A : ι → World → Prop} {x : Py α} {N : α → World → Prop}
    (h : ∀ i, Py.Returns env down p t (A i) x N) :
    Py.Returns env down p t (fun w => ∃ i, A i w) x N :=
  fun w hd ⟨i, hA⟩ => h i w hd hA

theorem of_and {C : Prop} {x : Py α} {N : α → World → Prop}
    (h : C → Py.Returns env down p t A x N) : Py.Returns env down p t (fun w => C ∧ A w) x N :=
  fun w hd hA => h hA.1 w hd hA.2

theorem seq {x : Py α} {f : α → Py β} {M : α → World → Prop} {N : β → World → Prop}
    (hx : Py.Returns env down p t A x M) (hf : ∀ a, Py.Returns env down p t (M a) (f a) N) :
    Py.Returns env down p t A (x >>= f) N := by
  intro w hd hA
  obtain ⟨τ, a, w₁, he, hd₁, hM⟩ := hx w hd hA
  obtain ⟨τ', b, w', he', hd', hN⟩ := hf a w₁ hd₁ hM
  exact ⟨_, b, w', he.bind he', hd', hN⟩

theorem attempt {x : Py α} {N : α → World → Prop} (hx : Py.Returns env down p t A x N) :
    Py.Returns env down p t A x.attempt fun o w => ∃ a, o = .ok a ∧ N a w := by
  intro w hd hA
  obtain ⟨τ, a, w', he, hd', hN⟩ := hx w hd hA
  exact ⟨τ, _, w', he.attempt, hd', a, rfl, hN⟩

/-- What follows an attempt goes on with what it returned. -/
theorem attempted {x : Py α} {f : Except Exc α → Py β} {M : α → World → Prop}
    {N : β → World → Prop} (hx : Py.Returns env down p t A x M)
    (hf : ∀ a, Py.Returns env down p t (M a) (f (.ok a)) N) :
    Py.Returns env down p t A (x.attempt >>= f) N := by
  refine seq (attempt hx) fun o => of_exists fun a => of_and ?_
  rintro rfl
  exact hf a

theorem stmt {s : Stmt} {N : s.Reply → World → Prop} (h : ∀ w, w.Alone p → A w →
    ∃ a w', World.Performs env down p t s w (.ok a) w' ∧ N a w') :
    Py.Returns env down p t A (Py.stmt s) N := by
  intro w hd hA
  obtain ⟨a, w', hx, hN⟩ := h w hd hA
  exact ⟨_, a, w', .perform rfl hx, World.performs_alone hd hx, hN⟩

theorem clock : Py.Returns env down p t A (Py.stmt .clock) fun now w => A w ∧ now = w.time :=
  stmt fun w _ hA => ⟨_, w, rfl, hA, rfl⟩

theorem commit {N : Seen → Prop} : Py.Returns env down p t (fun w => N (w.seen p)) (Py.stmt .commit)
    fun _ w => N (w.seen p) ∧ w.db.Idle p := by
  refine stmt fun w _ hN => ⟨_, w.commit p, rfl, ?_, Database.idle_commit _ p⟩
  have hseen : (w.commit p).seen p = w.seen p := by
    rw [World.seen, World.seen, Database.seen, Database.seen, World.commit, Database.commit,
      Table.view_eq _ _ (Table.commit_staged _ _), Table.view_eq _ _ (Table.commit_staged _ _)]
    rfl
  rwa [hseen]

theorem close {N : Seen → Prop} : Py.Returns env down p t (fun w => N (w.seen p) ∧ w.db.Idle p)
    (Py.stmt .close) fun _ w => N (w.seen p) ∧ w.db.Idle p := by
  refine stmt fun w _ hN => ⟨_, w.rollback p, rfl, ?_, Database.idle_rollback _ p⟩
  have hseen : (w.rollback p).seen p = w.seen p := by
    rw [World.seen, World.seen, Database.seen, Database.seen, World.rollback, Database.rollback,
      Table.view_eq _ _ (Table.rollback_staged _ _), Table.view_eq _ _ (Table.rollback_staged _ _),
      Table.view_eq _ _ hN.2.jobs.staged, Table.view_eq _ _ hN.2.outbox.staged]
    rfl
  rw [hseen]
  exact hN.1

theorem transaction {x : Py α} {N : α → Seen → Prop}
    (hx : Py.Returns env down p t A x fun a w => N a (w.seen p)) :
    Py.Returns env down p t A (ShipmentImport.transaction x pure)
      fun o w => ∃ a, o = .ok a ∧ N a (w.seen p) ∧ w.db.Idle p :=
  attempted hx fun _ => attempted (ret fun _ h => h) fun b =>
    attempted (commit (N := N b)) fun _ => ret fun _ h => ⟨_, rfl, h⟩

/-- A session with one transaction. -/
theorem session {x : Py α} {N : α → Seen → Prop}
    (hx : Py.Returns env down p t A x fun a w => N a (w.seen p)) :
    Py.Returns env down p t A (withSession (inTransaction x))
      fun a w => N a (w.seen p) ∧ w.db.Idle p := by
  refine attempted (seq (transaction hx) fun o => of_exists fun a => of_and ?_)
    fun a => seq (close (N := N a)) fun _ => ret fun _ h => h
  rintro rfl
  exact ret fun _ h => h

theorem forEach {xs : List α} {body : α → Py Unit} (J : List α → World → Prop)
    (hbody : ∀ done x rest, xs = done ++ x :: rest →
      Py.Returns env down p t (J done) (body x) fun _ => J (done ++ [x])) :
    Py.Returns env down p t (J []) (ShipmentImport.forEach xs body) fun _ => J xs := by
  suffices h : ∀ rest done, xs = done ++ rest →
      Py.Returns env down p t (J done) (ShipmentImport.forEach rest body) fun _ => J xs from
    h xs [] rfl
  intro rest
  induction rest with
  | nil =>
    rintro done rfl
    rw [List.append_nil] at *
    exact ret fun _ h => h
  | cons x rest ih =>
    rintro done hxs
    exact seq (hbody done x rest hxs) fun _ => ih (done ++ [x]) (by simpa using hxs)

/-! ### Queries -/

/-- A query that replies, in whatever state of the database a session that is alone sees. -/
theorem query {q : Query} {A : Seen → Prop} {N : q.Reply → Seen → Prop}
    (h : ∀ d queue time, Database.Alone p d → d.now p time ≤ time → A (d.seen p queue time) →
      ∃ a d', d.exec env.server time p q = some (.ok a, d') ∧ N a (d'.seen p queue time)) :
    Py.Returns env down p t (fun w => A (w.seen p)) (Py.query q) fun a w => N a (w.seen p) := by
  refine stmt (s := .query q) fun w hd hA => ?_
  obtain ⟨a, d', hexec, hN⟩ := h (w.db.begin p w.time) w.queue w.time (hd.db.begin _)
    ((Database.now_begin _ _ _ _).le.trans hd.now) hA
  refine ⟨a, { w with db := d' }, ?_, hN⟩
  show (((w.db.begin p w.time).exec env.server w.time p q).map _) = _
  rw [hexec]
  rfl

/-- A query that leaves what the session sees as it is, and replies with a function of it. -/
theorem reading (q : Query) (f : Seen → q.Reply) {N : q.Reply → Seen → Prop}
    (h : ∀ d queue time, Database.Alone p d → ∃ d', d.exec env.server time p q =
      some (.ok (f (d.seen p queue time)), d') ∧ d'.seen p queue time = d.seen p queue time) :
    Py.Returns env down p t (fun w => N (f (w.seen p)) (w.seen p)) (Py.query q)
      fun a w => N a (w.seen p) := by
  refine query (A := fun s => N (f s) s) fun d queue time hd _ hN => ?_
  obtain ⟨d', hexec, hseen⟩ := h d queue time hd
  exact ⟨_, d', hexec, hseen.symm ▸ hN⟩

section
variable {N : Seen → Prop}

theorem dispatchImport {i : ImportId} : Py.Returns env false p t
    (fun w => N { w.seen p with queue := (w.seen p).queue ++ [⟨i, 0⟩] })
    (Py.stmt (.dispatchImport i)) fun _ w => N (w.seen p) :=
  stmt (s := .dispatchImport i) fun w _ hN => ⟨(), w.push ⟨i, 0⟩, rfl, hN⟩

/-- An attempt to dispatch while the broker is down. -/
theorem dispatchFails {i : ImportId} : Py.Returns env true p t A
    (Py.stmt (.dispatchImport i)).attempt fun o w => o = .error (.raised .osError) ∧ A w :=
  fun w hd hA => ⟨_, _, w, (Prog.Ends.perform rfl rfl).attempt, hd, rfl, hA⟩

theorem lockPendingImport {i : ImportId} {N : Option ImportId → Seen → Prop} :
    Py.Returns env down p t
      (fun w => N (((w.seen p).importJobs.filter (claimable i)).head?.map (·.id)) (w.seen p))
      (Py.query (.lockPendingImport i)) fun a w => N a (w.seen p) := by
  refine reading (.lockPendingImport i)
    (fun s => (s.importJobs.filter (claimable i)).head?.map (·.id)) fun d _ _ hd => ?_
  obtain ⟨T, hT, hview⟩ := hd.jobs.lockWhere (p := claimable i) id
  refine ⟨{ d with importJobs := T }, by simp only [Database.exec, hT]; rfl, ?_⟩
  rw [Database.seen, hview]
  rfl

theorem lockStaleImports {staleBefore : Time} {n : Nat} (hn : n < 2 ^ 63)
    {N : List StaleImport → Seen → Prop} :
    Py.Returns env down p t (fun w => N ((env.server.oldest (fun j => j.lastHeartbeatAt.getD .min) n
        ((w.seen p).importJobs.filter fun r =>
          r.val.status == .processing && isBefore staleBefore r.val.lastHeartbeatAt)).map
        fun r => ⟨r.id, r.val.attemptCount, r.val.maxAttempts⟩) (w.seen p))
      (Py.query (.lockStaleImports staleBefore n)) fun a w => N a (w.seen p) := by
  refine reading (.lockStaleImports staleBefore n) (fun s =>
    (env.server.oldest (fun j => j.lastHeartbeatAt.getD .min) n (s.importJobs.filter fun r =>
        r.val.status == .processing && isBefore staleBefore r.val.lastHeartbeatAt)).map
      fun r => ⟨r.id, r.val.attemptCount, r.val.maxAttempts⟩) fun d _ _ hd => ?_
  obtain ⟨T, hT, hview⟩ := hd.jobs.lockWhere (p := fun r =>
    r.val.status == .processing && isBefore staleBefore r.val.lastHeartbeatAt)
    (env.server.oldest (fun j => j.lastHeartbeatAt.getD .min) n)
  refine ⟨{ d with importJobs := T }, by
    simp only [Database.exec, hT]
    exact Database.limited_eq hn, ?_⟩
  rw [Database.seen, hview]
  rfl

theorem lockDueEvents {claimedAt : Time} {n : Nat} (hn : n < 2 ^ 63)
    {N : List DueEvent → Seen → Prop} :
    Py.Returns env down p t (fun w => N ((env.server.oldest (·.availableAt) n
        ((w.seen p).events.filter fun o =>
          o.val.status == .pending && decide (o.val.availableAt ≤ claimedAt))).map
        fun o => ⟨o.id, o.val.importId, o.val.attemptCount⟩) (w.seen p))
      (Py.query (.lockDueEvents n claimedAt)) fun a w => N a (w.seen p) := by
  refine reading (.lockDueEvents n claimedAt) (fun s =>
    (env.server.oldest (·.availableAt) n (s.events.filter fun o =>
        o.val.status == .pending && decide (o.val.availableAt ≤ claimedAt))).map
      fun o => ⟨o.id, o.val.importId, o.val.attemptCount⟩) fun d _ _ hd => ?_
  obtain ⟨T, hT, hview⟩ := hd.outbox.lockWhere (p := fun o =>
    o.val.status == .pending && decide (o.val.availableAt ≤ claimedAt))
    (env.server.oldest (·.availableAt) n)
  refine ⟨{ d with importDispatchOutbox := T }, by
    simp only [Database.exec, hT]
    exact Database.limited_eq hn, ?_⟩
  rw [Database.seen, hview]
  rfl

theorem lockStaleClaims {staleBefore : Time} {n : Nat} (hn : n < 2 ^ 63)
    {N : List StaleOutboxClaim → Seen → Prop} :
    Py.Returns env down p t (fun w => N ((env.server.oldest (fun o => o.claimedAt.getD .min) n
        ((w.seen p).events.filter fun o =>
          o.val.status == .processing && isBefore staleBefore o.val.claimedAt)).map
        fun o => ⟨o.id, o.val.importId, o.val.claimToken, o.val.attemptCount⟩) (w.seen p))
      (Py.query (.lockStaleClaims n staleBefore)) fun a w => N a (w.seen p) := by
  refine reading (.lockStaleClaims n staleBefore) (fun s =>
    (env.server.oldest (fun o => o.claimedAt.getD .min) n (s.events.filter fun o =>
        o.val.status == .processing && isBefore staleBefore o.val.claimedAt)).map
      fun o => ⟨o.id, o.val.importId, o.val.claimToken, o.val.attemptCount⟩) fun d _ _ hd => ?_
  obtain ⟨T, hT, hview⟩ := hd.outbox.lockWhere (p := fun o =>
    o.val.status == .processing && isBefore staleBefore o.val.claimedAt)
    (env.server.oldest (fun o => o.claimedAt.getD .min) n)
  refine ⟨{ d with importDispatchOutbox := T }, by
    simp only [Database.exec, hT]
    exact Database.limited_eq hn, ?_⟩
  rw [Database.seen, hview]
  rfl

theorem claimPendingImport {i : ImportId} {token : Token} {workerId : WorkerName}
    {N : Option ClaimedImport → Seen → Prop} : Py.Returns env down p t
      (fun w => (∀ r ∈ (w.seen p).importJobs, claimable i r = true → r.val.failureReason = none) ∧
        ∀ now, N (((w.seen p).importJobs.filter (claimable i)).head?.map fun r =>
          ⟨r.id, r.val.storedFilePath, token, r.val.attemptCount + 1, r.val.maxAttempts⟩)
        ((w.seen p).updateJobs p (claimable i) (.claim now token workerId)))
      (Py.query (.claimPendingImport i token workerId)) fun a w => N a (w.seen p) := by
  refine query (A := fun s => (∀ r ∈ s.importJobs, claimable i r = true →
      r.val.failureReason = none) ∧ ∀ now, N ((s.importJobs.filter (claimable i)).head?.map fun r =>
      ⟨r.id, r.val.storedFilePath, token, r.val.attemptCount + 1, r.val.maxAttempts⟩)
    (s.updateJobs p (claimable i) (.claim now token workerId))) fun d queue time hd _ h => ?_
  obtain ⟨d', hd', hseen⟩ := hd.updateJobs queue time (claimable i)
    (.claim (d.now p time) token workerId) fun r hr hsel => by
      simp [ImportJob.claim, ImportJob.ckFailureReasonTerminal, h.1 r hr hsel]
  refine ⟨_, d', by simp only [Database.exec, hd']; rfl, ?_⟩
  rw [hseen]
  beta_reduce
  rw [List.head?_map, Option.map_map]
  exact h.2 _

theorem saveImportJob {i : ImportId} {values : RecoveryValues} :
    Py.Returns env down p t (fun w => N ((w.seen p).updateJobs p (·.id == i) (values.apply ·)))
      (Py.query (.saveImportJob i values)) fun _ w => N (w.seen p) := by
  refine query (A := fun s => N (s.updateJobs p (·.id == i) (values.apply ·)))
    (N := fun _ => N) fun d queue time hd _ h => ?_
  obtain ⟨d', hd', hseen⟩ := hd.updateJobs queue time (·.id == i) (values.apply ·) fun r _ _ => by
      cases values <;> simp [RecoveryValues.apply, ImportJob.ckFailureReasonTerminal]
  exact ⟨(), d', by simp only [Database.exec, hd']; rfl, by rw [hseen]; exact h⟩

theorem failPendingImport {i : ImportId} {reason : String} {N : Bool → Seen → Prop} :
    Py.Returns env down p t
      (fun w => ∀ now b, N b ((w.seen p).updateJobs p
        (fun r => r.id == i && r.val.status == .pending) (.failDispatch now reason)))
      (Py.query (.failPendingImport i reason)) fun a w => N a (w.seen p) := by
  refine query (A := fun s => ∀ now b, N b (s.updateJobs p
      (fun r => r.id == i && r.val.status == .pending) (.failDispatch now reason)))
    fun d queue time hd _ h => ?_
  obtain ⟨d', hd', hseen⟩ := hd.updateJobs queue time
    (fun r => r.id == i && r.val.status == .pending)
    (.failDispatch (d.now p time) reason) fun r _ _ => by
      simp [ImportJob.failDispatch, ImportJob.ckFailureReasonTerminal]
  exact ⟨_, d', by simp only [Database.exec, hd']; rfl, by rw [hseen]; exact h _ _⟩

theorem insertDispatchIntent {i : ImportId} {availableAt : Option Time} :
    Py.Returns env down p t
      (fun w => (∃ r ∈ (w.seen p).importJobs, r.id = i) ∧ ∀ k now, now ≤ (w.seen p).time →
        N { w.seen p with events := (w.seen p).events ++ [⟨k, p, .new i availableAt now⟩] })
      (Py.query (.insertDispatchIntent i availableAt)) fun _ w => N (w.seen p) := by
  refine query (A := fun s => (∃ r ∈ s.importJobs, r.id = i) ∧ ∀ k now, now ≤ s.time →
      N { s with events := s.events ++ [⟨k, p, .new i availableAt now⟩] }) (N := fun _ => N)
    fun d queue time hd hnow h => ?_
  have hinsert := Table.insert_spec (s := p) hd.wf.outbox
    (ImportDispatchOutbox.new i availableAt (d.now p time))
  have hd' : Database.Alone p { d with
      importDispatchOutbox := d.importDispatchOutbox.insert p d.issued
        (.new i availableAt (d.now p time))
      issued := d.issued + 1 } := by
    have ho := Database.own_outbox hd.wf d.issued.le_succ hinsert.1
    exact ⟨ho.wf, fun u hu => (ho.keeps u hu).idle (hd.idle u hu)⟩
  obtain ⟨d'', hx, hseen⟩ := hd'.referenceJob queue time h.1
  refine ⟨(), d'', by simp only [Database.exec, hx], ?_⟩
  rw [hseen, Database.seen, Table.view_insert]
  exact h.2 _ _ hnow

theorem saveClaimedEvent {k : Nat} {claimedAt : Time} {N : Token → Seen → Prop} :
    Py.Returns env down p t
      (fun w => ∀ token, N token ((w.seen p).updateEvents p (·.id == k) (.claim token claimedAt)))
      (Py.query (.saveClaimedEvent k claimedAt)) fun a w => N a (w.seen p) := by
  refine query (A := fun s => ∀ token, N token (s.updateEvents p (·.id == k)
      (.claim token claimedAt))) fun d queue time hd _ h => ?_
  have hd₁ : Database.Alone p { d with issued := d.issued + 1 } :=
    ⟨(Database.own_issue (s := p) hd.wf).wf, fun u hu =>
      ((Database.own_issue (s := p) hd.wf).keeps u hu).idle (hd.idle u hu)⟩
  obtain ⟨d', hd', hseen⟩ := hd₁.updateOutbox queue time (·.id == k)
    (.claim d.issued claimedAt)
  exact ⟨_, d', by simp only [Database.exec, hd']; rfl, by rw [hseen]; exact h _⟩

theorem updateClaimedEvent {k : Nat} {token : Option Token} {values : OutboxValues}
    {N : Bool → Seen → Prop} : Py.Returns env down p t
      (fun w => ∀ now, N (((w.seen p).events.filter (claimed k token)).length == 1)
        ((w.seen p).updateEvents p (claimed k token) (values.apply now ·)))
      (Py.query (.updateClaimedEvent k token values)) fun a w => N a (w.seen p) := by
  refine query (A := fun s => ∀ now, N ((s.events.filter (claimed k token)).length == 1)
      (s.updateEvents p (claimed k token) (values.apply now ·))) fun d queue time hd _ h => ?_
  obtain ⟨d', hd', hseen⟩ := hd.updateOutbox queue time (claimed k token)
    (values.apply (d.now p time) ·)
  refine ⟨_, d', by simp only [Database.exec, hd']; rfl, ?_⟩
  rw [hseen]
  beta_reduce
  rw [List.length_map]
  exact h _

end

end Py.Returns

end ShipmentImport
