import ShipmentImport.Refinement.Transactions

/-!
# Owning an import

What a worker knows while it has the token of an import (`Owner`), what it has staged in its
transaction (`Staged`, `Writing`), and the rules for its queries and commits. What a worker knows of
the import is under the condition that it still has the token: a worker that lost it knows nothing,
and its token-checked updates find no row.
-/

namespace ShipmentImport

/-- A fact about the database that the others cannot change for session `p`. -/
def Local (p : Nat) (B : Database → Prop) : Prop :=
  ∀ d d', d.Wf → Database.Keeps p d d' → B d → B d'

theorem local_true (p : Nat) : Local p fun _ => True := fun _ _ _ _ h => h

theorem local_idle (p : Nat) : Local p fun d => d.Idle p := fun _ _ _ hk hi => hk.idle hi

theorem Local.and {p : Nat} {A B : Database → Prop} (hA : Local p A) (hB : Local p B) :
    Local p fun d => A d ∧ B d :=
  fun d d' hw hk h => ⟨hA d d' hw hk h.1, hB d d' hw hk h.2⟩

theorem Local.exists {p : Nat} {ι : Sort*} {B : ι → Database → Prop} (h : ∀ i, Local p (B i)) :
    Local p fun d => ∃ i, B i d :=
  fun d d' hw hk ⟨i, hi⟩ => ⟨i, h i d d' hw hk hi⟩

/-! ## What a session staged -/

/-- The changes of session `p` to shipments and errors are `R`; it does not change the outbox. -/
structure StagedRows (p : Nat) (R : List (Change Shipment) → List (Change ImportErrorRow) → Prop)
    (d : Database) : Prop where
  outbox : d.importDispatchOutbox.staged p = []
  rows : R (d.shipments.staged p) (d.importErrors.staged p)

/-- And it does not change a job. -/
structure Staged (p : Nat) (R : List (Change Shipment) → List (Change ImportErrorRow) → Prop)
    (d : Database) : Prop extends StagedRows p R d where
  jobs : d.importJobs.staged p = []

/-- No changes. -/
def NoRows (S : List (Change Shipment)) (E : List (Change ImportErrorRow)) : Prop :=
  S = [] ∧ E = []

/-- A transaction without changes. -/
abbrev Clean (p : Nat) : Database → Prop := Staged p NoRows

section
variable {p : Nat} {R : List (Change Shipment) → List (Change ImportErrorRow) → Prop}

theorem local_stagedRows : Local p (StagedRows p R) :=
  fun _ _ _ hk h => ⟨hk.outbox.staged.trans h.outbox, by
    rw [hk.shipments.staged, hk.errors.staged]; exact h.rows⟩

theorem local_staged : Local p (Staged p R) :=
  fun d d' hw hk h => ⟨local_stagedRows d d' hw hk h.toStagedRows, hk.jobs.staged.trans h.jobs⟩

theorem Database.Idle.clean {d : Database} (h : d.Idle p) : Clean p d :=
  ⟨⟨h.outbox.staged, h.shipments.staged, h.errors.staged⟩, h.jobs.staged⟩

end

/-- Session `p` holds the row `r`, and sees `cur` in its place, the only job it changed. -/
structure Writing (p : Nat) (r cur : Version ImportJob) (d : Database) : Prop where
  mem : r ∈ d.importJobs.rows
  held : d.importJobs.Holds p r.id
  same : cur.id = r.id
  sees : ∀ rows, (d.importJobs.staged p).foldl Change.apply rows = Table.put cur rows

theorem local_writing (p : Nat) (r cur : Version ImportJob) : Local p (Writing p r cur) :=
  fun _ _ _ hk h => ⟨(hk.jobs.rows r h.held).2 h.mem, (hk.jobs.holds _).2 h.held, h.same,
    fun rows => by rw [hk.jobs.staged]; exact h.sees rows⟩

section
variable {d d' : Database} {p : Nat}

/-- The committed row of an import has the token of `p` when `p` writes it by its token. -/
theorem Writing.job {r cur : Version ImportJob} (h : Writing p r cur d) (hw : d.Wf) :
    (d.slice r.id).job = some r :=
  (Database.job_eq_some hw).2 ⟨h.mem, rfl⟩

/-- An update of the job that session `p` sees as `cur`. -/
theorem updateJobs_put (h : d.Wf) {r cur : Version ImportJob} (hr : r ∈ d.importJobs.rows)
    (he : cur.id = r.id) (hv : d.importJobs.view p = Table.put cur d.importJobs.rows)
    {sel : Version ImportJob → Bool} {f : ImportJob → ImportJob}
    (hsel : ∀ x, sel x = true → x.id = r.id) (hcur : sel cur = true)
    (hck : (f cur.val).ckFailureReasonTerminal = true) {res : Except Fault (List (Version ImportJob))}
    (hu : d.updateJobs p sel f = some (res, d')) :
    res = .ok [⟨cur.id, p, f cur.val⟩] ∧ d'.importJobs.rows = d.importJobs.rows ∧
      d'.importJobs.staged p = d.importJobs.staged p ++ [.update ⟨cur.id, p, f cur.val⟩] ∧
      d'.importJobs.Holds p r.id ∧
      ∀ R, StagedRows p R d → StagedRows p R d' := by
  have hit : (d.importJobs.view p).filter sel = [cur] := by
    rw [hv, Table.filter_put h.jobs.nodup hr he hsel, if_pos hcur]
  rcases Database.updateJobs_spec hu with ⟨new, T, rfl, hT, rfl, -⟩ | ⟨-, -, new, T, hT, hno⟩
  · obtain ⟨ho, rfl, hs, hl, -⟩ := Table.updateWhere_spec h.jobs hT
    rw [hit] at hs hl ⊢
    refine ⟨rfl, ho.rows, hs, ?_, fun R hR => ⟨hR.outbox, hR.rows⟩⟩
    have := hl _ List.mem_cons_self
    rwa [show (Version.mk cur.id p (f cur.val)).id = r.id from he] at this
  · obtain ⟨-, rfl, -⟩ := Table.updateWhere_spec h.jobs hT
    rw [hit] at hno
    exact absurd (by simpa using hck) hno

/-- An update that selects no job. -/
theorem updateJobs_none (h : d.Wf) {sel : Version ImportJob → Bool} {f : ImportJob → ImportJob}
    (hit : (d.importJobs.view p).filter sel = []) {res : Except Fault (List (Version ImportJob))}
    (hu : d.updateJobs p sel f = some (res, d')) :
    res = .ok [] ∧ d'.importJobs.staged p = d.importJobs.staged p ∧
      ∀ R, StagedRows p R d → StagedRows p R d' := by
  rcases Database.updateJobs_spec hu with ⟨new, T, rfl, hT, rfl, -⟩ | ⟨-, -, new, T, hT, hno⟩
  · obtain ⟨-, rfl, hs, -⟩ := Table.updateWhere_spec h.jobs hT
    rw [hit] at hs ⊢
    exact ⟨rfl, by simpa using hs, fun R hR => ⟨hR.outbox, hR.rows⟩⟩
  · obtain ⟨-, rfl, -⟩ := Table.updateWhere_spec h.jobs hT
    rw [hit] at hno
    exact absurd (by simp) hno

/-- The first update of a job in a transaction. -/
theorem updateJobs_first (h : d.Wf) (hs : d.importJobs.staged p = []) {i : ImportId}
    {sel : Version ImportJob → Bool} {f : ImportJob → ImportJob}
    (hsel : ∀ x, sel x = true → x.id = i)
    (hck : ∀ r ∈ d.importJobs.rows, sel r = true → (f r.val).ckFailureReasonTerminal = true)
    {res : Except Fault (List (Version ImportJob))} (hu : d.updateJobs p sel f = some (res, d')) :
    (∀ R, StagedRows p R d → StagedRows p R d') ∧
    ((∃ r, r.id = i ∧ sel r = true ∧ res = .ok [⟨r.id, p, f r.val⟩] ∧
        Writing p r ⟨r.id, p, f r.val⟩ d') ∨
      (∀ r ∈ d.importJobs.rows, sel r = false) ∧ res = .ok [] ∧ d'.importJobs.staged p = []) := by
  have hv : d.importJobs.view p = d.importJobs.rows := Table.view_eq _ _ hs
  by_cases hex : ∃ r ∈ d.importJobs.rows, sel r = true
  · obtain ⟨r, hr, hsr⟩ := hex
    have hri := hsel r hsr
    obtain ⟨h1, h2, h3, h4, h5⟩ := updateJobs_put h hr rfl
      (by rw [hv, Table.put_self h.jobs.nodup hr]) (fun x hx => (hsel x hx).trans hri.symm) hsr
      (hck r hr hsr) hu
    refine ⟨h5, .inl ⟨r, hri, hsr, h1, by rwa [h2], h4, rfl, fun rows => ?_⟩⟩
    rw [h3, hs]
    rfl
  · have hnone : ∀ r ∈ d.importJobs.rows, sel r = false := fun r hr => by
      simpa using fun e => hex ⟨r, hr, e⟩
    obtain ⟨h1, h2, h3⟩ := updateJobs_none h (by
      rw [hv, List.filter_eq_nil_iff]
      exact fun r hr => by simp [hnone r hr]) hu
    exact ⟨h3, .inr ⟨hnone, h1, h2.trans hs⟩⟩

/-- A further update of the job that session `p` writes. -/
theorem updateJobs_again (h : d.Wf) {r cur : Version ImportJob} (hw : Writing p r cur d)
    {sel : Version ImportJob → Bool} {f : ImportJob → ImportJob}
    (hsel : ∀ x, sel x = true → x.id = r.id) (hcur : sel cur = true)
    (hck : (f cur.val).ckFailureReasonTerminal = true)
    {res : Except Fault (List (Version ImportJob))} (hu : d.updateJobs p sel f = some (res, d')) :
    res = .ok [⟨cur.id, p, f cur.val⟩] ∧ Writing p r ⟨cur.id, p, f cur.val⟩ d' ∧
      ∀ R, StagedRows p R d → StagedRows p R d' := by
  obtain ⟨h1, h2, h3, h4, h5⟩ := updateJobs_put h hw.mem hw.same (hw.sees _) hsel hcur hck hu
  refine ⟨h1, ⟨by rw [h2]; exact hw.mem, h4, hw.same, fun rows => ?_⟩, h5⟩
  rw [h3, List.foldl_append, hw.sees]
  exact Table.put_put (show cur.id = (Version.mk cur.id p (f cur.val)).id from rfl) rows

theorem history_of_mem {env : Env} (hw : d.Wf) (hok : ∀ j, (d.slice j).Ok env)
    {r : Version ImportJob} (hr : r ∈ d.importJobs.rows) : JobHistory env.settings r.val :=
  (hok r.id).history r ((Database.job_eq_some hw).2 ⟨hr, rfl⟩)

/-- A query of an open transaction leaves when it began. -/
theorem exec_began {server : Server} {clock : Time} {q : Query} {r : Except Fault q.Reply}
    (hx : (d.begin p clock).exec server clock p q = some (r, d')) :
    d'.began p = some ((d.begin p clock).now p clock) := by
  rw [Database.exec_began hx, Database.now_begin]
  simp [Database.begin]

/-! ## What a commit makes of an import -/

/-- The jobs after the commit of a session that wrote one. -/
theorem Writing.commit_job {r cur : Version ImportJob} (h : Writing p r cur d) (j : ImportId) :
    ((d.commit p).slice j).job = if j = r.id then some cur else (d.slice j).job := by
  show (d.importJobs.view p).find? (·.id == j) = _
  rw [show d.importJobs.view p = Table.put cur d.importJobs.rows from h.sees _]
  exact Table.find?_put h.mem h.same j

theorem commit_job_of_nil (h : d.importJobs.staged p = []) (j : ImportId) :
    ((d.commit p).slice j).job = (d.slice j).job := by
  show (d.importJobs.view p).find? (·.id == j) = _
  rw [Table.view_eq _ _ h]
  rfl

/-- Inserted rows of import `i` are appended to its rows. -/
theorem commit_shipments_insert {i : ImportId} {S : List (Version Shipment)}
    (hs : d.shipments.staged p = S.map .insert) (hi : ∀ v ∈ S, v.val.importId = i) (j : ImportId) :
    ((d.commit p).slice j).shipments =
      if j = i then (d.slice i).shipments ++ S else (d.slice j).shipments :=
  Table.filter_view_insert hs hi j

theorem commit_errors_insert {i : ImportId} {E : List (Version ImportErrorRow)}
    (hs : d.importErrors.staged p = E.map .insert) (hi : ∀ v ∈ E, v.val.importId = i)
    (j : ImportId) :
    ((d.commit p).slice j).importErrors =
      if j = i then (d.slice i).importErrors ++ E else (d.slice j).importErrors :=
  Table.filter_view_insert hs hi j

/-- The rows of import `i` are gone when all of them were deleted. -/
theorem commit_shipments_delete (h : d.Wf) {i : ImportId}
    (hs : d.shipments.staged p = (d.slice i).shipments.map fun v => .delete v.id) (j : ImportId) :
    ((d.commit p).slice j).shipments = if j = i then [] else (d.slice j).shipments :=
  Table.filter_view_delete h.shipments.nodup hs j

theorem commit_errors_delete (h : d.Wf) {i : ImportId}
    (hs : d.importErrors.staged p = (d.slice i).importErrors.map fun v => .delete v.id)
    (j : ImportId) :
    ((d.commit p).slice j).importErrors = if j = i then [] else (d.slice j).importErrors :=
  Table.filter_view_delete h.errors.nodup hs j

end

/-! ## The assertion of a worker -/

/-- What process `p` knows: `Φ` of import `i` while it has its token, `B` of the database, and
`ρ` of the import it is responsible for. -/
def Owner (C : Setting) (p : Nat) (i : ImportId) (Φ : Slice → Prop) (B : Database → Prop)
    (ρ : Option ImportId → Prop) : Assertion := fun x =>
  ((x.1.db.slice i).HasToken p → Φ (x.1.db.slice i)) ∧ B x.1.db ∧
    (C.track → ρ (x.2.responsible p))

section
variable {C : Setting} {p : Nat} {t : Task} {i : ImportId} {Φ Φ' : Slice → Prop}
  {B B' : Database → Prop} {ρ ρ' : Option ImportId → Prop}

theorem stable_owner (hB : Local p B) : C.Stable p (Owner C p i Φ B ρ) :=
  (stable_own i Φ).and ((stable_keeps hB).and (.imp fun _ => stable_responsible ρ))

theorem Owner.mono {x : World × Ghost} (h : Owner C p i Φ B ρ x) (hΦ : ∀ y, Φ y → Φ' y)
    (hB : ∀ d, B d → B' d) (hρ : ∀ o, ρ o → ρ' o) : Owner C p i Φ' B' ρ' x :=
  ⟨fun ht => hΦ _ (h.1 ht), hB _ h.2.1, fun htr => hρ _ (h.2.2 htr)⟩

/-- What is known when something raised inside a transaction. -/
abbrev Raised (C : Setting) (p : Nat) (i : ImportId) (Ψ : Exc → Slice → Prop)
    (ρ : Option ImportId → Prop) : Exc → Assertion :=
  fun e => Owner C p i (Ψ e) (fun _ => True) ρ

namespace Setting.Spec

/-- The rule of a worker's query that locks no PENDING import. -/
theorem query_owner {q : Query} (hlive : q.Live) {Θ : q.Reply → Slice → Prop}
    {D : q.Reply → Database → Prop} {Ψ : Exc → Slice → Prop} (hB : ∀ a, Local p (D a))
    (hl : ∀ r, q.jobsLocked r → r.val.status ≠ .pending) (hΨ : ∀ f y, Φ y → Ψ (.raised f) y)
    (hrun : ∀ w g a d', C.Inv (w, g) → Owner C p i Φ B ρ (w, g) →
      (w.db.begin p w.time).exec C.env.server w.time p q = some (.ok a, d') →
      ((w.db.slice i).HasToken p → Θ a (w.db.slice i)) ∧ D a d') :
    C.Spec p t (Owner C p i Φ B ρ) (Py.query q)
      (Outcome (fun a => Owner C p i (Θ a) (D a) ρ) (Raised C p i Ψ ρ)) := by
  refine query hlive
    (stable_outcome (fun a => stable_owner (hB a)) fun _ => stable_owner (local_true p))
    (fun w g r d' hi ha ho hx => ⟨locksOk_of_exec hi.wf hx fun r _ => hl r, ?_⟩)
    fun w g f hi ha => ha.mono (hΨ f) (fun _ _ => trivial) fun _ h => h
  have hs : (w.withDb d').db.slice i = w.db.slice i := ho.rows.slice i
  cases r with
  | error f =>
    show Owner C p i (Ψ (.raised f)) (fun _ => True) ρ (w.withDb d', g)
    unfold Owner
    rw [hs]
    exact ⟨fun ht => hΨ f _ (ha.1 ht), trivial, ha.2.2⟩
  | ok a =>
    obtain ⟨h1, h2⟩ := hrun w g a d' hi ha hx
    show Owner C p i (Θ a) (D a) ρ (w.withDb d', g)
    unfold Owner
    rw [hs]
    exact ⟨h1, h2, ha.2.2⟩

/-- The rule of a statement that changes nothing. -/
theorem silent_owner {s : Stmt} (hlive : s.Live) {Θ : s.Reply → Slice → Prop} {Ψ : Exc → Slice → Prop}
    (hB : Local p B) (hs : ∀ w r w' ch, World.exec C.env p t s ch w = some (r, w') → w' = w)
    (hrun : ∀ w a ch y, World.exec C.env p t s ch w = some (.ok a, w) → Φ y → Θ a y)
    (hΨ : ∀ w e ch y, World.exec C.env p t s ch w = some (.error e, w) → Φ y → Ψ e y) :
    C.Spec p t (Owner C p i Φ B ρ) (Py.stmt s)
      (Outcome (fun a => Owner C p i (Θ a) B ρ) (Raised C p i Ψ ρ)) := by
  refine silent hlive
    (stable_outcome (fun a => stable_owner hB) fun _ => stable_owner (local_true p)) hs
    fun w g r ch hi ha he => ?_
  cases r with
  | error e => exact ha.mono (fun y => hΨ w e ch y he) (fun _ _ => trivial) fun _ h => h
  | ok a => exact ha.mono (fun y => hrun w a ch y he) (fun _ h => h) fun _ h => h

/-- The rule of a rollback. -/
theorem rollback_owner {s : Stmt} (hs : s = .rollback ∨ s = .close) :
    C.Spec p t (Owner C p i Φ B ρ) (Py.stmt s)
      (Total fun _ => Owner C p i Φ (fun d => d.Idle p) ρ) := by
  refine giveUp hs (stable_owner (local_idle p)) fun w g hi ha => ?_
  have hsl : (w.rollback p).db.slice i = w.db.slice i :=
    (Database.own_rollback hi.wf).rows.slice i
  unfold Owner
  rw [hsl]
  exact ⟨ha.1, Database.idle_rollback _ p, ha.2.2⟩

end Setting.Spec

/-- What the commit of a worker does: it takes its import by a step from one state to the next,
and leaves the rest. -/
structure Commits (C : Setting) (p : Nat) (i : ImportId) (Φ' : Slice → Prop) (w : World) : Prop where
  step : Slice.Step C.env .worker p (w.db.now p w.time) (w.db.slice i) ((w.commit p).db.slice i)
  others : ∀ j, j ≠ i → (w.commit p).db.slice j = w.db.slice j
  outbox : w.db.importDispatchOutbox.staged p = []
  seals : ∀ fz, C.frozen = some fz → fz.importId = i → fz.Seals w.db (w.commit p).db
  after : ((w.commit p).db.slice i).HasToken p → Φ' ((w.commit p).db.slice i)

/-- A commit that changes nothing. -/
theorem Commits.of_eq {w : World} (h : ∀ j, (w.commit p).db.slice j = w.db.slice j)
    (ho : w.db.importDispatchOutbox.staged p = [])
    (hΦ : (w.db.slice i).HasToken p → Φ' (w.db.slice i)) : Commits C p i Φ' w where
  step := by rw [h]; exact .stay _
  others j _ := h j
  outbox := ho
  seals fz _ _ := fun _ => .inl (h _)
  after := by rw [h]; exact hΦ

theorem commit_clean {d : Database} (h : Clean p d) (j : ImportId) :
    (d.commit p).slice j = d.slice j := by
  have h1 : (d.commit p).importJobs.rows = d.importJobs.rows := Table.view_eq _ _ h.jobs
  have h2 : (d.commit p).shipments.rows = d.shipments.rows := Table.view_eq _ _ h.rows.1
  have h3 : (d.commit p).importErrors.rows = d.importErrors.rows := Table.view_eq _ _ h.rows.2
  simp only [Database.slice, h1, h2, h3]

/-- Whether an import is PENDING. -/
def Slice.Pending (x : Slice) : Prop := x.status = some .pending

/-- A commit that changes one import, and not the outbox, leaves what carries the others. -/
theorem Dispatched.commit_one {w : World} {g g' : Ghost} (h : Dispatched w g) (hwf : w.db.Wf)
    (ho : w.db.importDispatchOutbox.staged p = [])
    (hj : ∀ j, j ≠ i → (w.commit p).db.slice j = w.db.slice j)
    (hi : ((w.commit p).db.slice i).Pending →
      g'.responsible p = some i ∨ (w.db.slice i).Pending ∧ g'.responsible p = g.responsible p)
    (hr : ∀ j, j ≠ i → g.responsible p = some j → g'.responsible p = some j)
    (hu : ∀ u, u ≠ p → g'.responsible u = g.responsible u) (hd : g'.discharged = g.discharged) :
    Dispatched (w.commit p) g' := by
  have hwf' : (w.commit p).db.Wf := Database.wf_commit hwf
  have hout : (w.commit p).db.importDispatchOutbox.rows = w.db.importDispatchOutbox.rows :=
    Table.view_eq _ _ ho
  refine h.commit hwf hu hd fun r hr' hp => ?_
  have hjob := (Database.job_eq_some hwf').2 ⟨hr', rfl⟩
  -- what is PENDING now was PENDING before, or the process is responsible for it
  have key : g'.responsible p = some r.id ∨ ∃ r' ∈ w.db.importJobs.rows, r'.id = r.id ∧
      r'.val.status = .pending ∧
        (g.responsible p = some r.id → g'.responsible p = some r.id) := by
    by_cases e : r.id = i
    · have hpend : ((w.commit p).db.slice i).Pending := by
        rw [← e]
        simp [Slice.Pending, Slice.status, hjob, hp]
      rcases hi hpend with hg | ⟨hpend', hg⟩
      · exact .inl (by rw [hg, e])
      · obtain ⟨r', hr'', hs⟩ := Option.map_eq_some_iff.1 hpend'
        obtain ⟨hm, hid⟩ := (Database.job_eq_some hwf).1 hr''
        exact .inr ⟨r', hm, hid.trans e.symm, hs, fun hgr => by rw [hg, hgr]⟩
    · rw [hj r.id e] at hjob
      obtain ⟨hm, -⟩ := (Database.job_eq_some hwf).1 hjob
      exact .inr ⟨r, hm, rfl, hp, hr r.id e⟩
  rcases key with hg | ⟨r', hm, hid, hs, hg⟩
  · exact .inr (.inl ⟨p, hg⟩)
  rcases h.carried r' hm hs with hq | ⟨u, hgu⟩ | ⟨o, hom, hc⟩
  · rw [hid] at hq
    exact .inl hq
  · rw [hid] at hgu
    by_cases e : u = p
    · subst e
      exact .inr (.inl ⟨u, hg hgu⟩)
    · exact .inr (.inl ⟨u, by rw [hu u e, hgu]⟩)
  · rw [hid] at hc
    refine .inr (.inr ⟨o, by rwa [hout], hc.imp_right (.imp_right fun h => ?_)⟩)
    rw [Undischarged, hd]
    exact h

/-- What a commit of a worker is to the protocol. -/
theorem Commits.ok {w : World} {g g' : Ghost} (h : Commits C p i Φ' w) (hi : C.Inv (w, g))
    (ht : t.role = .worker) (responsible : ∀ u, u ≠ p → g'.responsible u = g.responsible u)
    (own : ∀ i, g'.responsible p = some i → g.responsible p = some i ∨ t.subject = some i)
    (discharged : g'.discharged = g.discharged) (drawn : g'.drawn = g.drawn)
    (sent : g'.sent = g.sent) (dispatched : C.track → Dispatched (w.commit p) g') :
    CommitOk C p t w g g' := by
  have steps : ∀ j, Slice.Step C.env t.role p (w.db.now p w.time) (w.db.slice j)
      ((w.commit p).db.slice j) := fun j => by
    rw [ht]
    by_cases e : j = i
    · rw [e]; exact h.step
    · rw [h.others j e]; exact .stay _
  refine .of_outbox hi (.inl ht) h.outbox steps (fun fz hz => ?_) (fun _ j r hr hp hf => ?_)
    responsible own discharged drawn sent dispatched
  · by_cases e : fz.importId = i
    · exact h.seals fz hz e
    · exact fun _ => .inl (h.others _ e)
  · have := (steps j).pending_failed (by rw [Slice.status, hr, Option.map_some, hp]) hf
    rw [ht] at this
    cases this

namespace Setting.Spec

/-- The rule of a commit of a worker that does not make its import PENDING. -/
theorem commit_owner (ht : t.role = .worker) {Θ : Slice → Prop} {Ψ : Exc → Slice → Prop}
    (h : ∀ w g, C.Inv (w, g) → Owner C p i Φ B ρ (w, g) → Commits C p i Θ w ∧
      (((w.commit p).db.slice i).Pending → (w.db.slice i).Pending))
    (hfail : ∀ f y, f ≠ .integrityError → Φ y → Ψ (.raised f) y)
    (hlost : ∀ f y, f ≠ .integrityError → Θ y → Ψ (.raised f) y) :
    C.Spec p t (Owner C p i Φ B ρ) (Py.stmt .commit)
      (Outcome (fun _ => Owner C p i Θ (fun d => d.Idle p) ρ) (Raised C p i Ψ ρ)) := by
  refine commit (stable_outcome (fun a => stable_owner (local_idle p)) fun _ =>
    stable_owner (local_true p)) (fun w g lost hl hi ha _ => ?_) fun w g f hf hi ha _ =>
      ha.mono (hfail f · hf) (fun _ _ => trivial) fun _ h => h
  obtain ⟨hc, hp⟩ := h w g hi ha
  refine ⟨g, hc.ok hi ht (fun _ _ => rfl) (fun _ => .inl) rfl rfl rfl fun htr => ?_, ?_⟩
  · exact (hi.dispatched htr).commit_one hi.wf hc.outbox hc.others (fun hq => .inr ⟨hp hq, rfl⟩)
      (fun _ _ h => h) (fun _ _ => rfl) rfl
  · cases lost with
    | none => exact ⟨hc.after, Database.idle_commit _ p, ha.2.2⟩
    | some f =>
      exact ⟨fun htok => hlost f _ (fun e => hl (by rw [e])) (hc.after htok), trivial, ha.2.2⟩

/-- The commit of a transaction that changed nothing. -/
theorem commit_clean_owner (ht : t.role = .worker) {Ψ : Exc → Slice → Prop}
    (hΨ : ∀ e y, Φ y → Ψ e y) :
    C.Spec p t (Owner C p i Φ (Clean p) ρ) (Py.stmt .commit)
      (Outcome (fun _ => Owner C p i Φ (fun d => d.Idle p) ρ) (Raised C p i Ψ ρ)) := by
  refine commit_owner ht (fun w g hi ha => ⟨.of_eq (commit_clean ha.2.1) ha.2.1.outbox ha.1,
    fun hp => ?_⟩) (fun f y _ => hΨ _ y) fun f y _ => hΨ _ y
  rwa [show (w.commit p).db.slice i = _ from commit_clean ha.2.1 i] at hp

end Setting.Spec

end

end ShipmentImport
