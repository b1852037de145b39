import ShipmentImport.Properties.Imports
import ShipmentImport.Refinement.ServedCalls

/-!
# Concurrent calls of `create_import`

Whatever the calls and the other processes do at the same time, the calls end as if they had been
made one after the other, and a call that ended before another one was made comes before it.
-/

namespace ShipmentImport

section
variable {env : Env} {c c' : State} {p q : Nat} {t : Task} {l : Deed Stmt Stmt.Reply Exc}

/-! ## The other tasks -/

/-- Only requests create imports, and no step changes the key or the fingerprint of one. -/
theorem Slice.Step.registration {role : Role} {s : Nat} {now : Time} {x y : Slice}
    (h : Slice.Step env role s now x y) (hr : role ≠ .creator) :
    y.job.map ShipmentImport.registration = x.job.map ShipmentImport.registration := by
  cases h with
  | create => exact absurd rfl hr
  | _ => rfl

theorem registrations_of_jobs {d d' : Database} (hw : d.Wf) (hw' : d'.Wf)
    (h : ∀ i, (d'.slice i).job.map registration = (d.slice i).job.map registration)
    {e : Registration} (he : ∃ r ∈ d'.importJobs.rows, registration r = e) :
    ∃ r ∈ d.importJobs.rows, registration r = e := by
  obtain ⟨r', hr', rfl⟩ := he
  have hj := h r'.id
  rw [(Database.job_eq_some hw').2 ⟨hr', rfl⟩, Option.map_some, eq_comm,
    Option.map_eq_some_iff] at hj
  obtain ⟨r, hr, he⟩ := hj
  exact ⟨r, ((Database.job_eq_some hw).1 hr).1, he⟩

/-- A statement of another task. -/
theorem Reachable.spared (h : Reachable env c) {s : Stmt} {k : Except Exc s.Reply → Py TaskResult}
    {ch : Choice} {r : Except Exc s.Reply} {w' : World} (hp : c.proc p = some (t, .stmt s k))
    (ht : t.role ≠ .creator) (hx : World.exec env p t s ch c.world = some (r, w')) :
    c.world.Spared p w' := by
  obtain ⟨c', hn, rfl⟩ : ∃ c', (service env).next c (.step p ch) = some c' ∧ c'.world = w' :=
    ⟨⟨w', c.procs.set p (some (t, k r)), c.finished⟩, by simp [Machine.next, hp, service, hx], rfl⟩
  obtain ⟨_, hg⟩ := h.inv
  obtain ⟨_, hg'⟩ := (h.next hn).inv
  have hjobs : ∀ i, (c'.world.db.slice i).job.map registration =
      (c.world.db.slice i).job.map registration := by
    intro i
    rcases h.next_slice hn i with e | ⟨p', t', now, hact, hs⟩
    · rw [e]
    · simp only [State.actor, hp, Option.map_some, Option.some.injEq, Prod.mk.injEq] at hact
      exact hs.registration (hact.2 ▸ ht)
  exact ⟨hg'.wf, fun u hu => (exec_touches hx).2.keeps hg.wf hu, fun e =>
    ⟨registrations_of_jobs hg.wf hg'.wf hjobs,
      registrations_of_jobs hg'.wf hg.wf fun i => (hjobs i).symm⟩⟩

/-! ## The outline -/

theorem Database.own_of_eq {d d' : Database} (hw : d.Wf) (h : d' = d) : Database.Own p d d' := by
  subst h
  exact Database.own_refl hw

/-- What holds when a call ends. -/
def CallEnds (p : Nat) : Task → Except Exc TaskResult → CallAssertion
  | .createImport request, r, x => ∃ o, CallOutcome p request o x ∧ r = o.map .created
  | _, _, _ => True

/-- A process that was not started. -/
def Unstarted (p : Nat) : CallAssertion := fun x => x.1.db.Idle p ∧ Unserved p x

theorem CallsKept.unstarted {x y : World × Calls} (hk : CallsKept env p x y) (h : Unstarted p x) :
    Unstarted p y := ⟨hk.keeps.idle h.1, hk.unserved h.2⟩

theorem spared_calls {w w' : World} {g : Calls} (hi : CallsInv env (w, g)) (hx : w.Spared p w') :
    CallsInv env (w', g) ∧ CallsGuar env p t l (w, g) (w', g) :=
  ⟨⟨hx.wf, hi.serial, hi.callers, fun e => (hi.rows e).trans (hx.registrations e).symm⟩,
    hx.keeps, .inl rfl, .inl rfl, .inl rfl⟩

/-- The programs of all tasks keep the protocol. -/
theorem taskProgram_calls (p : Nat) (t : Task) :
    (serialCalls env).Triple p t (Unstarted p) (taskProgram env p t) (CallEnds p t) := by
  cases t with
  | createImport request =>
    refine Protocol.Triple.bind (createImport_calls.pre fun x h => ⟨h.1.jobs.staged, h.2⟩)
      (fun a => Protocol.Triple.ret fun x h => ⟨.ok a, h, rfl⟩) fun e x h => ⟨.error e, h, rfl⟩
  | publishDueEvents | recoverStaleClaims | processImport | recoverStaleImports =>
    intro x _
    refine Protocol.Safe.of_exec fun s w g r w' hi hx => ?_
    exact ⟨g, spared_calls hi hx⟩

def callsOutline (env : Env) :
    Outline (service env) (serialCalls env) fun c _ => Reachable env c where
  fresh := Unstarted
  local_ _ _ _ := True
  post := CallEnds
  gone _ _ := True
  exec {c p t s k ch r w'} hok hp hx := by
    cases t with
    | createImport request => exact ⟨ch, hx⟩
    | publishDueEvents | recoverStaleClaims | processImport | recoverStaleImports =>
      exact hok.spared hp (by rintro ⟨⟩) hx
  fresh_other h ho := (other_calls ho).unstarted h
  gone_other _ _ := trivial
  local_other _ _ := trivial
  local_guar _ _ _ _ := trivial
  spawn {c t w' g} _ hl hi hf := by
    have hdb : w'.db = c.world.db := by
      cases t with
      | processImport message hostname =>
        simp only [service, World.launch, Option.ite_none_right_eq_some, Option.some.injEq] at hl
        rw [← hl.2]
      | _ =>
        cases hl
        rfl
    obtain ⟨hi', hg⟩ := calls_own (v := w') hi (Database.own_of_eq hi.wf hdb)
    refine ⟨g, hi', hg, trivial, fun y hy => taskProgram_calls _ t y ?_⟩
    exact Protocol.Stable.rely (fun x y ho h => (other_calls ho).unstarted h) hy
      ⟨hdb ▸ hf.1, hf.2⟩
  finish {c p t r g} _ hi _ _ := by
    obtain ⟨hi', hg⟩ := calls_own (v := c.world) (p := p) (t := t) hi (Database.own_refl hi.wf)
    exact ⟨g, hi', hg, trivial⟩
  crash {c p t g} _ hi _ := by
    have hdb : (c.world.abort p t).db = c.world.db.rollback p := by cases t <;> rfl
    obtain ⟨hi', hg⟩ := calls_own (v := c.world.abort p t) (p := p) (t := t) hi
      (hdb ▸ Database.own_rollback hi.wf)
    exact ⟨g, hi', hg, trivial⟩
  env {c a w' g} _ ht hi := by
    have hdb : w'.db = c.world.db := by
      cases a with
      | advance microseconds =>
        obtain ⟨time, -, rfl⟩ := World.tick_advance.1 ht
        rfl
      | duplicate message =>
        simp only [service, World.tick, Option.ite_none_right_eq_some, Option.some.injEq] at ht
        rw [← ht.2]
        rfl
    obtain ⟨hi', -⟩ := calls_own (v := w') (p := 0) (t := .publishDueEvents) (l := none) hi
      (Database.own_of_eq hi.wf hdb)
    exact ⟨g, hi', hdb, rfl⟩

/-! ## Runs -/

/-- The call of process `p` was made. -/
def Called (τ : List (State × Event × State)) (p : Nat) (request : CreateRequest) : Prop :=
  ∃ d d', (d, .spawn (.createImport request), d') ∈ τ ∧ d.procs.length = p

/-- The call of process `p` was over, ended or killed, when the call of process `q` was made. -/
def OverBefore (τ : List (State × Event × State)) (p q : Nat) : Prop :=
  ∃ d d' request, (d, .spawn (.createImport request), d') ∈ τ ∧ d.procs.length = q ∧
    p < q ∧ d.proc p = none

/-- A statement of process `p` failed, or was reported as failed. -/
def StatementFailed (τ : List (State × Event × State)) (p : Nat) : Prop :=
  ∃ d ch d', (d, .step p ch, d') ∈ τ ∧ ch ≠ .run

/-- What the served calls are to the run so far. -/
structure CallsAccount (τ : List (State × Event × State)) (c : State) (g : Calls) : Prop where
  called : ∀ s ∈ g.served, Called τ s.caller s.request
  live : ∀ p request x, c.proc p = some (.createImport request, x) → Called τ p request
  ended : ∀ p request r, (p, .createImport request, r) ∈ c.finished →
    ∃ o, CallOutcome p request o (c.world, g) ∧ r = o.map .created
  failed : ∀ p ∈ g.failed, StatementFailed τ p
  before : ∀ p q, OverBefore τ p q → p < c.procs.length ∧ c.proc p = none
  ordered : ∀ p q, OverBefore τ p q → ∀ s ∈ g.served, ∀ s' ∈ g.served, s.caller = q →
    s'.caller = p → [s', s].Sublist g.served

theorem Called.snoc {τ : List (State × Event × State)} {p : Nat} {request : CreateRequest}
    (h : Called τ p request) (x : State × Event × State) : Called (τ ++ [x]) p request :=
  have ⟨d, d', hm, hp⟩ := h
  ⟨d, d', List.mem_append_left _ hm, hp⟩

theorem StatementFailed.snoc {τ : List (State × Event × State)} {p : Nat}
    (h : StatementFailed τ p) (x : State × Event × State) : StatementFailed (τ ++ [x]) p :=
  have ⟨d, ch, d', hm, hch⟩ := h
  ⟨d, ch, d', List.mem_append_left _ hm, hch⟩

/-- How a step changes the served calls: at most the call of the process that takes it is added. -/
theorem moves_served {g g' : Calls} {a : Event}
    (hm : Outline.Moves (service env) (serialCalls env) c (c.world, g) (c'.world, g') a) :
    g'.served = g.served ∨ ∃ p request answer, g'.served = g.served ++ [⟨p, request, answer⟩] ∧
      (a = .spawn (.createImport request) ∧ c.procs.length = p ∨
        ∃ x, c.proc p = some (.createImport request, x)) := by
  cases a with
  | spawn t =>
    exact (CallsGuar.served hm).imp_right fun ⟨request, answer, ht, hg⟩ =>
      ⟨_, request, answer, hg, .inl ⟨ht ▸ rfl, rfl⟩⟩
  | step p ch =>
    obtain ⟨t, s, k, r, hp, -, hg⟩ := hm
    exact (CallsGuar.served hg).imp_right fun ⟨request, answer, ht, hg⟩ =>
      ⟨_, request, answer, hg, .inr ⟨_, ht ▸ hp⟩⟩
  | finish p | crash p =>
    obtain ⟨t, z, hp, hg⟩ := hm
    exact (CallsGuar.served hg).imp_right fun ⟨request, answer, ht, hg⟩ =>
      ⟨_, request, answer, hg, .inr ⟨_, ht ▸ hp⟩⟩
  | env e => exact .inl (congrArg Calls.served hm.2)

/-- How a step changes the failed calls: a statement of the one that is added did not run. -/
theorem moves_failed {g g' : Calls} {a : Event}
    (hm : Outline.Moves (service env) (serialCalls env) c (c.world, g) (c'.world, g') a) :
    g'.failed = g.failed ∨ ∃ p ch, g'.failed = p :: g.failed ∧ a = .step p ch ∧ ch ≠ .run := by
  cases a with
  | spawn t =>
    refine (CallsGuar.failed hm).imp_right ?_
    rintro ⟨-, s, r, hl, -⟩
    cases hl
  | step p ch =>
    obtain ⟨t, s, k, r, hp, hx, hg⟩ := hm
    refine (CallsGuar.failed hg).imp_right ?_
    rintro ⟨he, s', r', hl, hno⟩
    cases hl
    refine ⟨p, ch, he, rfl, ?_⟩
    rintro rfl
    exact hno hx
  | finish p | crash p =>
    obtain ⟨t, z, hp, hg⟩ := hm
    refine (CallsGuar.failed hg).imp_right ?_
    rintro ⟨-, s, r, hl, -⟩
    cases hl
  | env e => exact .inl (congrArg Calls.failed hm.2)

/-- The outcomes a step adds. -/
theorem next_finished {a : Event} (hn : (service env).next c a = some c') :
    c'.finished = c.finished ∨ ∃ p t r x, a = .finish p ∧ c.proc p = some (t, x) ∧
      c'.finished = (p, t, r) :: c.finished ∧ c'.world = c.world ∧
      ((∃ v, x = .ret v ∧ r = .ok v) ∨ ∃ e, x = .raise e ∧ r = .error e) := by
  cases a with
  | spawn t | env e =>
    obtain ⟨v, -, rfl⟩ := Option.map_eq_some_iff.1 hn
    exact .inl rfl
  | step p ch =>
    simp only [Machine.next] at hn
    split at hn
    · obtain ⟨y, -, rfl⟩ := Option.map_eq_some_iff.1 hn
      exact .inl rfl
    · cases hn
  | crash p =>
    simp only [Machine.next] at hn
    split at hn <;> cases hn
    exact .inl rfl
  | finish p =>
    simp only [Machine.next] at hn
    split at hn
    · next t v hp =>
      cases hn
      exact .inr ⟨p, t, .ok v, _, rfl, hp, rfl, rfl, .inl ⟨v, rfl, rfl⟩⟩
    · next t e hp =>
      cases hn
      exact .inr ⟨p, t, .error e, _, rfl, hp, rfl, rfl, .inr ⟨e, rfl, rfl⟩⟩
    · cases hn

/-- What one step adds to the account. -/
theorem CallsAccount.step {τ : List (State × Event × State)} {g g' : Calls} {a : Event}
    (h : CallsAccount τ c g) (hc : (callsOutline env).Holds c g)
    (hn : (service env).next c a = some c')
    (hm : Outline.Moves (service env) (serialCalls env) c (c.world, g) (c'.world, g') a) :
    CallsAccount (τ ++ [(c, a, c')]) c' g' := by
  have hserved := moves_served hm
  have hmono : g.served.Sublist g'.served := by
    rcases hserved with e | ⟨_, _, _, e, -⟩
    · exact e ▸ .refl _
    · exact e ▸ List.sublist_append_left _ _
  have hfailed : ∀ p ∈ g.failed, p ∈ g'.failed := by
    intro p hp
    rcases moves_failed hm with e | ⟨_, _, e, -⟩
    · exact e ▸ hp
    · exact e ▸ List.mem_cons_of_mem _ hp
  have hlive : ∀ p request, (∃ x, c.proc p = some (.createImport request, x)) →
      Called (τ ++ [(c, a, c')]) p request :=
    fun p request ⟨x, hx⟩ => (h.live p request x hx).snoc _
  have hspawn : ∀ request, a = .spawn (.createImport request) →
      Called (τ ++ [(c, a, c')]) c.procs.length request := by
    rintro request rfl
    exact ⟨c, c', List.mem_append_right _ List.mem_cons_self, rfl⟩
  have hends : ∀ {p request o w w'}, CallOutcome p request o (w, g) →
      CallOutcome p request o (w', g') :=
    fun ho => ho.imp (fun ⟨answer, ha, ho⟩ => ⟨answer, hmono.subset ha, ho⟩) (hfailed _)
  have hover : ∀ p q, OverBefore (τ ++ [(c, a, c')]) p q → OverBefore τ p q ∨
      c.procs.length = q ∧ p < q ∧ c.proc p = none := by
    rintro p q ⟨d, d', request, hmem, hq, hp⟩
    rw [List.mem_append, List.mem_singleton] at hmem
    rcases hmem with hmem | hmem
    · exact .inl ⟨d, d', request, hmem, hq, hp⟩
    · cases hmem
      exact .inr ⟨hq, hp⟩
  have hgone : ∀ p q, OverBefore (τ ++ [(c, a, c')]) p q →
      p < c.procs.length ∧ c.proc p = none := by
    intro p q hbefore
    rcases hover p q hbefore with hbefore | ⟨rfl, hp⟩
    · exact h.before p q hbefore
    · exact hp
  constructor
  case called =>
    intro s hs
    rcases hserved with e | ⟨p, request, answer, e, hp⟩
    · exact (h.called s (e ▸ hs)).snoc _
    · rw [e, List.mem_append, List.mem_singleton] at hs
      rcases hs with hs | rfl
      · exact (h.called s hs).snoc _
      · rcases hp with ⟨ha, hp⟩ | hp
        · exact hp ▸ hspawn request ha
        · exact hlive p request hp
  case live =>
    intro p request x hx
    rcases Machine.proc_of_next hn hx with hp | ⟨ha, hp⟩
    · exact hlive p request hp
    · exact hp ▸ hspawn request ha
  case ended =>
    intro p request r hr
    rcases next_finished hn with e | ⟨q, t, r', x, -, hq, e, -, hx⟩
    · obtain ⟨o, ho, hro⟩ := h.ended p request r (e ▸ hr)
      exact ⟨o, hends ho, hro⟩
    · rw [e, List.mem_cons] at hr
      rcases hr with hr | hr
      · cases hr
        obtain ⟨-, hsafe⟩ := hc.live p _ _ hq
        have hpost : CallEnds p (.createImport request) r (c.world, g) := by
          rcases hx with ⟨v, rfl, rfl⟩ | ⟨v, rfl, rfl⟩ <;> exact hsafe _ .refl
        obtain ⟨o, ho, hro⟩ := hpost
        exact ⟨o, hends ho, hro⟩
      · obtain ⟨o, ho, hro⟩ := h.ended p request r hr
        exact ⟨o, hends ho, hro⟩
  case failed =>
    intro p hp
    rcases moves_failed hm with e | ⟨q, ch, e, ha, hch⟩
    · exact (h.failed p (e ▸ hp)).snoc _
    · rw [e, List.mem_cons] at hp
      rcases hp with rfl | hp
      · exact ⟨c, ch, c', List.mem_append_right _ (ha ▸ List.mem_cons_self), hch⟩
      · exact (h.failed p hp).snoc _
  case before =>
    intro p q hbefore
    obtain ⟨hp, hnone⟩ := hgone p q hbefore
    refine ⟨Nat.lt_of_lt_of_le hp (Machine.length_le_of_next hn), ?_⟩
    cases hlive' : c'.proc p with
    | none => rfl
    | some y =>
      rcases Machine.proc_of_next (t := y.1) (x := y.2) hn hlive' with ⟨z, hz⟩ | ⟨-, hlen⟩
      · cases hnone.symm.trans hz
      · omega
  case ordered =>
    intro p q hbefore s hs s' hs' hq hp
    -- a call that is over is not served any more
    have hold' : s' ∈ g.served := by
      rcases hserved with e | ⟨u, request, answer, e, hu⟩
      · exact e ▸ hs'
      · rw [e, List.mem_append, List.mem_singleton] at hs'
        refine hs'.resolve_right ?_
        rintro rfl
        obtain ⟨hlt, hnone⟩ := hgone p q hbefore
        rcases hu with ⟨-, hlen⟩ | ⟨x, hx⟩
        · exact absurd (hlen.trans hp) (Nat.ne_of_gt hlt)
        · cases hnone.symm.trans ((congrArg c.proc hp).symm.trans hx)
    by_cases hold : s ∈ g.served
    · rcases hover p q hbefore with hbefore | ⟨hlen, -⟩
      · exact (h.ordered p q hbefore s hold s' hold' hq hp).trans hmono
      · -- a call that is made now was not served before
        exact absurd (hq.trans hlen.symm) ((hc.fresh _ (Nat.le_refl _)).2 s hold)
    · rcases hserved with e | ⟨_, _, _, e, -⟩
      · exact absurd (e ▸ hs) hold
      · rw [e, List.mem_append, List.mem_singleton] at hs
        obtain rfl := hs.resolve_left hold
        rw [e]
        exact (List.singleton_sublist.2 hold').append (.refl _)

/-- What every run is to the protocol of calls. -/
theorem exists_calls {τ : List (State × Event × State)}
    (h : (service env).Trail Machine.anyAction State.initial τ c) :
    ∃ g, CallsInv env (c.world, g) ∧ CallsAccount τ c g := by
  have hstart : (callsOutline env).Holds State.initial ⟨[], [], []⟩ := by
    refine Outline.holds_init _ ?_ fun p => ⟨Database.idle_empty p, fun s hs => by cases hs⟩
    refine ⟨Database.wf_empty, .nil, List.nodup_nil, fun e => ⟨fun he => ?_, ?_⟩⟩
    · cases he
    · rintro ⟨r, hr, -⟩
      cases hr
  have hrun : (service env).Trail (fun c _ => Reachable env c) State.initial τ c :=
    h.reached.mono fun d a hd => hd.2
  have hinitial : CallsAccount [] State.initial ⟨[], [], []⟩ := by
    have hnone : ∀ p q, ¬ OverBefore [] p q := by
      rintro p q ⟨d, d', request, hm, -⟩
      cases hm
    exact
      { called := fun s hs => by cases hs
        live := fun p request x hx => by simp [State.initial, Machine.init, Config.proc] at hx
        ended := fun p request r hr => by cases hr
        failed := fun p hp => by cases hp
        before := fun p q h => absurd h (hnone p q)
        ordered := fun p q h => absurd h (hnone p q) }
  obtain ⟨g, hg, hacc⟩ := (callsOutline env).induct CallsAccount hstart hinitial
    (fun τ d g a d' g' hd _ _ hn hm hacc => hacc.step hd hn hm) hrun
  exact ⟨g, hg.inv, hacc⟩

/-- An import is created together with its one outbox row. -/
theorem Reachable.created_with_intent (h : Reachable env c) {a : Event}
    (hn : (service env).next c a = some c') {i : ImportId}
    (hx : (c.world.db.slice i).job = none) (hy : (c'.world.db.slice i).job ≠ none) :
    c.world.db.intents i = 0 ∧ c'.world.db.intents i = 1 := by
  rcases h.moves hn with ⟨-, hs⟩ | ⟨p, ch, t, s, k, r, g, g', -, -, -, -, hinv, hg⟩
  · exact absurd (by rw [hs.slice i, hx]) hy
  · have hzero := (hinv.intents i).none hx
    have hone := hg.intended i (.inl ⟨hx, hy⟩)
    exact ⟨hzero, hone.trans (congrArg (· + 1) hzero)⟩

/-- Concurrent calls end as if they had been made one after the other, whatever fails: there is one
sequence of calls, with at most one entry for each, that creates exactly the committed imports, in
which every call that ended has the answer it returned unless one of its own statements failed, and
in which a call that was over before another was made comes before it. So no two imports have the
same key or fingerprint, each is committed with its one outbox row, and without such a failure only
a request the columns do not hold ends in `DatabaseWriteError`. -/
theorem create_calls_linearizable {τ : List (State × Event × State)}
    (h : (service env).Trail Machine.anyAction State.initial τ c) :
    (∃ served registry, Serial env.settings served registry ∧ (served.map (·.caller)).Nodup ∧
      (∀ s ∈ served, Called τ s.caller s.request) ∧
      (∀ e, e ∈ registry ↔ ∃ r ∈ c.world.db.importJobs.rows, registration r = e) ∧
      (∀ p request r, (p, .createImport request, r) ∈ c.finished → StatementFailed τ p ∨
        ∃ answer o, ⟨p, request, answer⟩ ∈ served ∧ answer.Reports o ∧ r = o.map .created) ∧
      ∀ p q, OverBefore τ p q → ∀ s ∈ served, ∀ s' ∈ served, s.caller = q → s'.caller = p →
        [s', s].Sublist served) ∧
    (∀ r ∈ c.world.db.importJobs.rows, ∀ r' ∈ c.world.db.importJobs.rows,
      r.val.idempotencyFingerprint = r'.val.idempotencyFingerprint ∨
        (∃ key, r.val.idempotencyKey = some key ∧ r'.val.idempotencyKey = some key) → r = r') ∧
    (∀ d a d', (d, a, d') ∈ τ → ∀ i, (d.world.db.slice i).job = none →
      (d'.world.db.slice i).job ≠ none → d.world.db.intents i = 0 ∧ d'.world.db.intents i = 1) ∧
    ∀ p request, (p, .createImport request, .error .databaseWriteError) ∈ c.finished →
      StatementFailed τ p ∨ (request.importJob env.settings).fits = false := by
  obtain ⟨g, hi, hacc⟩ := exists_calls h
  have hended : ∀ p request r, (p, .createImport request, r) ∈ c.finished → StatementFailed τ p ∨
      ∃ answer o, ⟨p, request, answer⟩ ∈ g.served ∧ answer.Reports o ∧ r = o.map .created := by
    intro p request r hr
    obtain ⟨o, ⟨answer, ha, ho⟩ | hf, hro⟩ := hacc.ended p request r hr
    · exact .inr ⟨answer, o, ha, ho, hro⟩
    · exact .inl (hacc.failed p hf)
  refine ⟨⟨g.served, g.registry, hi.serial, hi.callers, hacc.called, hi.rows, hended,
    hacc.ordered⟩, fun r hr r' hr' hsame => ?_, fun d a d' hx i hnone hsome => ?_,
    fun p request hr => ?_⟩
  · have hreg : registration r = registration r' := by
      have he := (hi.rows _).2 ⟨r, hr, rfl⟩
      have he' := (hi.rows _).2 ⟨r', hr', rfl⟩
      rcases hsame with hf | ⟨key, hk, hk'⟩
      · exact hi.serial.fingerprint_unique he he' hf
      · exact hi.serial.key_unique he he' hk hk'
    exact Table.eq_of_id hi.wf.jobs.nodup hr hr' (congrArg Registration.importId hreg)
  · obtain ⟨hd, -, hn⟩ := h.of_mem hx
    exact Reachable.created_with_intent hd hn hnone hsome
  · refine (hended p request _ hr).imp_right ?_
    rintro ⟨answer, o, ha, ho, hro⟩
    have horig : o = .error .databaseWriteError := by
      rcases o with e | outcome <;> cases hro
      rfl
    subst horig
    cases answer with
    | rejected => exact hi.serial.rejected ha
    | _ => exact ho.elim

end

/-! ## An example -/

/-- Fingerprints of different lengths take different locks. -/
def raceEnv : Env := { oneRowEnv with server := ⟨fun s => s.length, id⟩ }

def raceKey : Varchar 255 := ⟨"k", by decide⟩

def fingerprintBB : Varchar 64 := ⟨"bb", by decide⟩

theorem fits_raceKey (key : Option (Varchar 255)) : ∀ k ∈ key.map (·.1), FitsVarchar 255 k := by
  intro k h
  obtain ⟨v, -, rfl⟩ := Option.map_eq_some_iff.1 h
  exact v.2

def raceRequest (key : Option (Varchar 255)) (fingerprint : Varchar 64) : CreateRequest :=
  { exampleRequest fingerprint with
    idempotencyKey := key.map (·.1)
    keyFits := fits_raceKey key }

/-- Two calls share a key; the second one inserts while the first is about to commit. The first is
told that its commit failed, and a third call has its fingerprint. -/
def raceRun : List Event :=
  .spawn (.createImport (raceRequest (some raceKey) fingerprintA)) ::
    .spawn (.createImport (raceRequest (some raceKey) fingerprintBB)) ::
    .spawn (.createImport (raceRequest none fingerprintA)) :: statements 0 4 ++ statements 1 3 ++
    statements 0 1 ++ .step 0 (.lost .operationalError) :: statements 1 4 ++
    .finish 1 :: statements 0 2 ++ .finish 0 :: statements 2 3 ++ [.finish 2]

set_option maxRecDepth 100000 in
/-- The first call creates the one import, and the others are answered by it. -/
theorem raceRun_linearizable : ∃ τ c, (service raceEnv).Trail Machine.anyAction State.initial τ c ∧
    c.finished.map (·.1) = [2, 0, 1] ∧ c.world.db.importJobs.rows.map (·.writer) = [0] ∧
    ∃ served registry, Serial raceEnv.settings served registry ∧
      ∀ p request r, (p, .createImport request, r) ∈ c.finished → StatementFailed τ p ∨
        ∃ answer o, ⟨p, request, answer⟩ ∈ served ∧ answer.Reports o ∧ r = o.map .created := by
  obtain ⟨c, hc, hf, hw⟩ : ∃ c, (service raceEnv).trace State.initial raceRun = some c ∧
      c.finished.map (·.1) = [2, 0, 1] ∧ c.world.db.importJobs.rows.map (·.writer) = [0] :=
    exists_trace (by decide +kernel)
  obtain ⟨τ, hτ⟩ := Machine.Run.trail (Machine.run_of_trace _ hc)
  obtain ⟨⟨served, registry, hs, -, -, -, hended, -⟩, -⟩ := create_calls_linearizable hτ
  exact ⟨τ, c, hτ, hf, hw, served, registry, hs, hended⟩

end ShipmentImport
