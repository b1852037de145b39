import ShipmentImport.Refinement.FreeRuns
import ShipmentImport.Refinement.Worker

/-!
# A run of a worker

The claim, the failure handlers and the Celery task. A worker is responsible for the import of its
message until the claim is committed, or another process is found to have the row; it is responsible
again from the commit of a requeue until `self.retry` has scheduled the next message.
-/

namespace ShipmentImport

/-- Process `p` is responsible for nothing anymore. -/
def Ghost.release (g : Ghost) (p : Nat) : Ghost :=
  { g with responsible := Function.update g.responsible p none }

/-- Process `p` is responsible for import `i`. -/
def Ghost.assume (g : Ghost) (p : Nat) (i : ImportId) : Ghost :=
  { g with responsible := Function.update g.responsible p (some i) }

section
variable {w : World} {g : Ghost} {p : Nat} {i : ImportId}

@[simp] theorem release_responsible : (g.release p).responsible p = none := by
  simp [Ghost.release]

theorem release_responsible_ne {u : Nat} (h : u ≠ p) :
    (g.release p).responsible u = g.responsible u := by
  simp [Ghost.release, h]

@[simp] theorem assume_responsible : (g.assume p i).responsible p = some i := by
  simp [Ghost.assume]

theorem assume_responsible_ne {u : Nat} (h : u ≠ p) :
    (g.assume p i).responsible u = g.responsible u := by
  simp [Ghost.assume, h]

theorem ghostStep_release {subject : Option ImportId} :
    Setting.GhostStep p subject g (g.release p) :=
  ⟨fun _ h => release_responsible_ne h, fun _ h => by simp at h, fun _ h => h, fun _ h => .inl h,
    fun _ _ h => h, fun _ h => h⟩

/-- What else carries an import when process `p` is not responsible for it. -/
theorem Carried.release {j : ImportId} (h : Carried w g j)
    (hp : g.responsible p = some j → Carried w (g.release p) j) : Carried w (g.release p) j := by
  rcases h with h | ⟨u, hu⟩ | h
  · exact .inl h
  · by_cases e : u = p
    · subst e
      exact hp hu
    · exact .inr (.inl ⟨u, by rwa [release_responsible_ne e]⟩)
  · exact .inr (.inr h)

/-- A process that holds no import can give up its responsibility for one that something else
carries. -/
theorem Dispatched.release (h : Dispatched w g) (hidle : ∀ j, ¬ w.db.importJobs.Holds p j)
    (hp : ∀ r ∈ w.db.importJobs.rows, r.val.status = .pending → g.responsible p = some r.id →
      Carried w (g.release p) r.id) : Dispatched w (g.release p) where
  carried r hr hs := (h.carried r hr hs).release (hp r hr hs)
  covered r hr hs u hu := by
    have e : u ≠ p := by
      rintro rfl
      exact hidle _ hu
    rcases h.covered r hr hs u hu with hc | hc
    · exact .inl (by rwa [release_responsible_ne e])
    · exact .inr hc

end

/-! ## The claim -/

/-- Session `p` claimed import `i` as `c`. -/
def ClaimMoved (p : Nat) (c : ClaimedImport) (now : Time) (r cur : Version ImportJob) : Prop :=
  ∃ worker, (JobWrite.claim now p worker).Admits r.val ∧
    cur = rewrite p (.claim now p worker) r ∧ cur.val.attemptCount = c.attemptCount ∧
    cur.val.maxAttempts = c.maxAttempts ∧ cur.val.storedFilePath = c.storedFilePath

/-- Session `p` holds the row of import `i`, which it can claim. -/
def Claimable (p : Nat) (i : ImportId) (d : Database) : Prop :=
  ∃ r ∈ d.importJobs.rows, claimable i r = true ∧ d.importJobs.Holds p r.id

theorem local_claimable (p : Nat) (i : ImportId) : Local p (Claimable p i) :=
  fun _ _ _ hk ⟨r, hr, hc, hh⟩ => ⟨r, (hk.jobs.rows r hh).2 hr, hc, (hk.jobs.holds _).2 hh⟩

theorem claimable_iff {i : ImportId} {r : Version ImportJob} :
    claimable i r = true ↔ r.id = i ∧ r.val.status = .pending ∧
      r.val.attemptCount < r.val.maxAttempts := by
  simp [claimable, and_assoc]

/-- Before the claim a worker has no token; it is responsible unless it lost the race. -/
abbrev Unclaimed (C : Setting) (p : Nat) (i : ImportId) (B : Database → Prop)
    (ρ : Option ImportId → Prop) : Assertion :=
  Owner C p i (fun _ => False) B ρ

/-- An exception before the claim: after an `OperationalError` the task is retried. -/
def BeforeClaim (i : ImportId) (e : Exc) (o : Option ImportId) : Prop :=
  o = none ∨ e = .raised .operationalError ∧ o = some i

section
variable {C : Setting} {p : Nat} {t : Task} {i : ImportId}

open Setting.Spec

/-- A PENDING import that the claim does not find is locked by a session that sees to it. -/
theorem Dispatched.skipped {w : World} {g : Ghost} (h : Dispatched w g)
    (hinv : ∀ j, (w.db.slice j).Ok C.env) (hwf : w.db.Wf) (hidle : w.db.Idle p)
    (hs : ¬ Strands p t w (.query (.lockPendingImport i)) .run)
    (hnone : ((w.db.importJobs.view p).filter fun r =>
      claimable i r && w.db.importJobs.free p .update r.id) = [])
    (hp : g.responsible p = some i) : Dispatched w (g.release p) := by
  refine h.release hidle.jobs.lock fun r hr hst hresp => ?_
  have hid : r.id = i := Option.some.inj (hresp.symm.trans hp)
  have hcl : claimable i r = true := claimable_iff.2 ⟨hid, hst,
    (hinv r.id).claimable r ((Database.job_eq_some hwf).2 ⟨hr, rfl⟩) hst⟩
  have hnf : w.db.importJobs.free p .update r.id = false := by
    have := List.filter_eq_nil_iff.1 hnone r (by rwa [Table.view_eq _ _ hidle.jobs.staged])
    simpa [hcl] using this
  -- nobody else holds the row only if a share lock stops the claim, which strands the import
  have hother : ∃ u, w.db.importJobs.Holds u i ∧ u ≠ p := by
    by_contra hno
    refine hs ⟨⟨r, hr, hid, hst⟩, fun u hu => by_contra fun e => hno ⟨u, hu, e⟩, ?_⟩
    have hlock : w.db.importJobs.lock i = none := by
      cases hl : w.db.importJobs.lock i with
      | none => rfl
      | some x =>
        refine absurd ⟨x.1, ⟨x.2, hl⟩, fun e => ?_⟩ hno
        exact hidle.jobs.lock i ⟨x.2, by rw [hl, ← e]⟩
    simp only [Table.free, hid, hlock, Bool.true_and, Bool.or_eq_false_iff] at hnf
    have := hnf.2
    simpa using this
  obtain ⟨u, hu, e⟩ := hother
  rcases h.covered r hr hst u (hid ▸ hu) with hc | ⟨o, ho, -, h1, -, h2⟩
  · exact .inr (.inl ⟨u, by rwa [release_responsible_ne e]⟩)
  · exact .inr (.inr ⟨o, ho, h1, .inr h2⟩)

theorem lockPendingImport_spec :
    C.Spec p t (Unclaimed C p i (fun d => d.Idle p) (· = some i))
      (Py.query (.lockPendingImport i))
      (Outcome (fun o => match o with
        | none => Unclaimed C p i (Clean p) (· = none)
        | some _ => Unclaimed C p i (fun d => Clean p d ∧ Claimable p i d) (· = some i))
        (fun e => Unclaimed C p i (fun _ => True) (BeforeClaim i e))) := by
  refine query_ghost (by trivial) (stable_outcome (fun o => ?_) fun _ => stable_owner (local_true p))
    (fun w g r d' hi ha ho hx hs => ?_) fun w g f hi ha hs => ?_
  · cases o with
    | none => exact stable_owner local_staged
    | some _ => exact stable_owner (local_staged.and (local_claimable p i))
  · have hsl : (w.withDb d').db.slice i = w.db.slice i := ho.rows.slice i
    have hno : ¬ ((w.withDb d').db.slice i).HasToken p := by rw [hsl]; exact ha.1
    have hb := (Database.own_begin (s := p) hi.wf w.time).wf
    have hclean : ∀ d', d'.importJobs.staged = w.db.importJobs.staged →
        d'.importDispatchOutbox = w.db.importDispatchOutbox → d'.shipments = w.db.shipments →
        d'.importErrors = w.db.importErrors → Clean p d' := by
      intro d' h1 h2 h3 h4
      have := ha.2.1.clean
      exact ⟨⟨by rw [h2]; exact this.outbox, by rw [h3, h4]; exact this.rows⟩,
        by rw [h1]; exact this.jobs⟩
    cases hx
    set hit := (w.db.importJobs.lockWhere p (claimable i) id).1 with hhit
    have hit' : hit = ((w.db.importJobs.view p).filter fun r =>
        claimable i r && w.db.importJobs.free p .update r.id) := rfl
    cases hcase : hit with
    | nil =>
      refine ⟨g.release p, ghostStep_release, rfl, fun _ _ => .inl, fun htr => ?_, ?_⟩
      · have hd := (hi.dispatched htr).skipped hi.slices hi.wf ha.2.1 (hs.strands htr)
          (hit'.symm.trans hcase) (ha.2.2 htr)
        refine hd.quiet ho (fun j hj => .inl ?_) fun _ h => h
        have hlock : ((w.db.importJobs.lockWhere p (claimable i) id).2).lock =
            w.db.importJobs.lock := by
          funext k
          show (if k ∈ hit.map (·.id) then _ else _) = _
          rw [hcase]
          simp
        obtain ⟨m, hm⟩ := hj
        exact ⟨m, (congrFun hlock j).symm.trans hm⟩
      · show Outcome _ _ (.ok (hit.head?.map (·.id))) _
        rw [hcase]
        exact ⟨fun h => hno h, hclean _ rfl rfl rfl rfl, fun _ => release_responsible⟩
    | cons r rest =>
      have hr : r ∈ hit := by rw [hcase]; exact List.mem_cons_self
      obtain ⟨-, -, hspec, hheld⟩ := Table.lockWhere_spec (s := p) (p := claimable i) hb.jobs
        (show ∀ l : List (Version ImportJob), ∀ r ∈ id l, r ∈ l from fun _ _ hr => hr)
      obtain ⟨hv, hc, hh, -⟩ := hspec r hr
      have hv' : r ∈ w.db.importJobs.rows := by
        rwa [show (w.db.begin p w.time).importJobs.view p = w.db.importJobs.rows from
          Table.view_eq _ _ ha.2.1.jobs.staged] at hv
      refine ⟨g, ghostStep_refl _ _ _, rfl, fun _ _ => .inl, fun htr => ?_, ?_⟩
      · have hd := hi.dispatched htr
        constructor
        · exact fun r' hr' hst => (hd.carried r' hr' hst).withDb rfl
        · intro r' hr' hst s hs'
          by_cases e : s = p
          · subst e
            rcases hheld r'.id hs' with hh' | ⟨x, hx, e⟩
            · exact absurd hh' (ha.2.1.jobs.lock r'.id)
            · have : x.id = i := (claimable_iff.1 (hspec x hx).2.1).1
              exact .inl (by rw [ha.2.2 htr, ← e, this])
          · exact (hd.covered r' hr' hst s (((ho.keeps s e).jobs.holds _).1 hs')).other e ho
      · show Outcome _ _ (.ok (hit.head?.map (·.id))) _
        rw [hcase]
        exact ⟨fun h => hno h, ⟨hclean _ rfl rfl rfl rfl, r, hv', hc, hh⟩, ha.2.2⟩
  · by_cases hf : f = .operationalError
    · exact ⟨g, ghostStep_refl _ _ _, rfl, rfl, hi.dispatched, ha.1, trivial,
        fun htr => .inr ⟨by rw [hf], ha.2.2 htr⟩⟩
    · refine ⟨g.release p, ghostStep_release, rfl, rfl, fun htr => ?_, ha.1, trivial,
        fun _ => .inl release_responsible⟩
      refine (hi.dispatched htr).release ha.2.1.jobs.lock fun r hr hst hresp => ?_
      exact absurd ⟨hf, r, hr, Option.some.inj (hresp.symm.trans (ha.2.2 htr)), hst⟩ (hs.strands htr)

/-- The update of the claim. -/
theorem exec_claimPendingImport {d d' : Database} {env : Env} {server : Server} {clock : Time}
    (hw : d.Wf) (hok : ∀ j, (d.slice j).Ok env) (hs : Clean p d) (hc : Claimable p i d)
    {worker : WorkerName} {r : Except Fault (Option ClaimedImport)}
    (hx : (d.begin p clock).exec server clock p (.claimPendingImport i p worker) = some (r, d')) :
    ∃ c, r = .ok (some c) ∧ c.importId = i ∧ c.processingToken = p ∧
      Wrote p i (ClaimMoved p c) NoRows d' := by
  obtain ⟨res, hu, hr⟩ := Database.mapReply_eq hx
  have hnow := exec_began hx
  have hb := (Database.own_begin (s := p) hw clock).wf
  obtain ⟨hR, ⟨r₀, hri, hsel, rfl, hwr⟩ | ⟨hno, -, -⟩⟩ := updateJobs_first hb hs.jobs
    (fun x hx => (claimable_iff.1 hx).1) (fun r hr hsel => by
      have hadm : (JobWrite.claim ((d.begin p clock).now p clock) p worker).Admits r.val :=
        (claimable_iff.1 hsel).2
      exact ((history_of_mem hw hok hr).consistent.write hadm).ck) hu
  · refine ⟨_, hr, hri, rfl, _, r₀, _, hnow, hri,
      ⟨worker, (claimable_iff.1 hsel).2, rfl, rfl, rfl, rfl⟩, hwr, hR _ ⟨hs.outbox, hs.rows⟩⟩
  · obtain ⟨r₀, hr₀, hcl, -⟩ := hc
    exact absurd hcl (by simp [hno r₀ hr₀])

theorem claimUpdate_spec (worker : WorkerName) :
    C.Spec p t (Unclaimed C p i (fun d => Clean p d ∧ Claimable p i d) (· = some i))
      (Py.query (.claimPendingImport i p worker))
      (Outcome (fun o x => ∃ c, o = some c ∧ c.importId = i ∧ c.processingToken = p ∧
          Unclaimed C p i (Wrote p i (ClaimMoved p c) NoRows) (· = some i) x)
        (fun e => Unclaimed C p i (fun _ => True) (BeforeClaim i e))) := by
  refine query_ghost (by trivial) (stable_outcome (fun o => .exists fun c => .and (.const) (.and .const
    (.and .const (stable_owner local_wrote)))) fun _ => stable_owner (local_true p))
    (fun w g r d' hi ha ho hx hs => ?_) fun w g f hi ha hs => ?_
  · have hsl : (w.withDb d').db.slice i = w.db.slice i := ho.rows.slice i
    have hno : ¬ ((w.withDb d').db.slice i).HasToken p := by rw [hsl]; exact ha.1
    have hb := (Database.own_begin (s := p) hi.wf w.time).wf
    obtain ⟨hclean, hcl⟩ := ha.2.1
    obtain ⟨c, rfl, hci, hcp, hwr⟩ := exec_claimPendingImport hi.wf hi.slices hclean hcl hx
    refine ⟨g, ghostStep_refl _ _ _, rfl, fun _ _ => .inl,
      fun htr => (hi.dispatched htr).quiet ho (fun j hj => ?_)
      fun k hk => Database.exec_outbox_holds hb hk hx, c, rfl, hci, hcp, hno, hwr, ha.2.2⟩
    -- the only row it locks was locked before
    rcases Database.exec_locks hb hx hj with hj | rfl | ⟨r, hr, rfl, hl⟩
    · exact .inl hj
    · refine .inr fun r hr e => ?_
      exact absurd (e ▸ hi.wf.jobs.below r hr) (Nat.lt_irrefl _)
    · obtain ⟨r₀, hr₀, hc₀, hh⟩ := hcl
      have : r.id = r₀.id := (claimable_iff.1 hl).1.trans (claimable_iff.1 hc₀).1.symm
      exact .inl (this ▸ hh)
  · refine ⟨g, ghostStep_refl _ _ _, rfl, rfl, hi.dispatched, ha.1, trivial, fun htr => ?_⟩
    by_cases hf : f = .operationalError
    · exact .inr ⟨by rw [hf], ha.2.2 htr⟩
    · obtain ⟨r₀, hr₀, hc₀, -⟩ := ha.2.1.2
      obtain ⟨h1, h2, -⟩ := claimable_iff.1 hc₀
      exact absurd ⟨hf, r₀, hr₀, h1, h2⟩ (hs.strands htr)

/-- The commit of the claim. -/
theorem claimCommit_spec (ht : t.role = .worker) {c : ClaimedImport} :
    C.Spec p t (Unclaimed C p i (Wrote p i (ClaimMoved p c) NoRows) (· = some i))
      (Py.stmt .commit)
      (Outcome (fun _ => Owner C p i (Claimed c) (fun d => d.Idle p) (· = none))
        (fun _ => Owner C p i (Claimed c) (fun _ => True) (· = none))) := by
  refine commit (stable_outcome (fun _ => stable_owner (local_idle p)) fun _ =>
    stable_owner (local_true p)) (fun w g lost hl hi ha hs => ?_) fun w g f hf hi ha hs => ?_
  · obtain ⟨r, cur, ⟨worker, hadm, rfl, h1, h2, h3⟩, htk⟩ := ha.2.1.takes hi.wf w.time
    have hafter : (w.commit p).db.slice i = _ := htk.after
    have hcl : Claimed c ((w.commit p).db.slice i) := by
      rw [hafter]
      exact ⟨_, rfl, h1, h2, h3⟩
    have hc : Commits C p i (Claimed c) w :=
      { step := by
          rw [hafter, htk.before]
          exact .claim worker hadm
        others := htk.others
        outbox := ha.2.1.outbox
        seals := fun fz _ e hc => by
          rw [e, hafter] at hc
          cases hc
        after := fun _ => hcl }
    refine ⟨g.release p, hc.ok hi ht (fun _ h => release_responsible_ne h)
      (fun _ h => by simp at h) rfl rfl rfl fun htr => ?_, ?_⟩
    · refine (hi.dispatched htr).commit_one hi.wf ha.2.1.outbox htk.others (fun hp => ?_)
        (fun j hj hr => ?_) (fun u hu => release_responsible_ne hu) rfl
      · rw [hafter] at hp
        cases hp
      · exact absurd (Option.some.inj (hr.symm.trans (ha.2.2 htr))) hj
    · cases lost with
      | none => exact ⟨fun _ => hcl, Database.idle_commit _ p, fun _ => release_responsible⟩
      | some f => exact ⟨fun _ => hcl, trivial, fun _ => release_responsible⟩
  · refine ⟨fun h => (ha.1 h).elim, trivial, fun htr => absurd ?_ (hs.strands htr)⟩
    obtain ⟨now, r, cur, -, hri, ⟨worker, hadm, rfl, -⟩, hwr, -⟩ := ha.2.1
    refine ⟨r, hwr.mem, hadm.1, _, ?_, hwr.same, rfl⟩
    rw [show w.db.importJobs.view p = _ from hwr.sees _, Table.mem_put]
    exact .inr ⟨rfl, r, hwr.mem, rfl⟩

/-- The transaction of a claim once the import is locked: what it claimed, if anything. -/
def ClaimRead (C : Setting) (p : Nat) (i : ImportId) : Option ClaimedImport → Assertion
  | none => Unclaimed C p i (Clean p) (· = none)
  | some c => fun x => c.importId = i ∧ c.processingToken = p ∧
      Unclaimed C p i (Wrote p i (ClaimMoved p c) NoRows) (· = some i) x

/-- What is known when it raises. -/
def ClaimFailed (C : Setting) (p : Nat) (i : ImportId) :
    Option (Option ClaimedImport) → Exc → Assertion
  | some (some c), _ => fun x => c.importId = i ∧ c.processingToken = p ∧
      Owner C p i (Claimed c) (fun _ => True) (· = none) x
  | some none, e | none, e => Unclaimed C p i (fun _ => True) (BeforeClaim i e)

/-- The transaction of the claim. -/
theorem claim_spec (ht : t.role = .worker) (worker : WorkerName) :
    C.Spec p t (Unclaimed C p i (fun d => d.Idle p) (· = some i))
      (transaction (claimPendingImport i p worker) pure)
      (Total fun o => match o with
        | .ok none => Unclaimed C p i (fun d => d.Idle p) (· = none)
        | .ok (some c) | .error (some (some c), _) => fun x => c.importId = i ∧
            c.processingToken = p ∧ Owner C p i (Claimed c) (fun d => d.Idle p) (· = none) x
        | .error (_, e) => Unclaimed C p i (fun d => d.Idle p) (BeforeClaim i e)) := by
  refine Setting.Spec.transaction (M := ClaimRead C p i)
    (N := fun o o' x => o' = o ∧ ClaimRead C p i o x) (E := ClaimFailed C p i)
    ?_ (fun o => ?_) (fun o o' => ?_) fun o e => ?_
  · refine seq lockPendingImport_spec fun o => ?_
    cases o with
    | none => exact ret fun _ h => h
    | some _ =>
      refine (claimUpdate_spec worker).post fun r x h => ?_
      cases r with
      | error e => exact h
      | ok o =>
        obtain ⟨c, rfl, h⟩ := h
        exact h
  · exact ret fun _ h => ⟨rfl, h⟩
  · refine Protocol.Triple.of_and fun e => ?_
    subst e
    rcases o' with _ | c
    · dsimp only [ClaimRead]
      refine weaken (commit_clean_owner ht (Ψ := fun _ _ => False) fun _ _ h => h)
        (fun _ _ h => h) fun e x h => ?_
      exact h.mono (fun _ h => h) (fun _ h => h) fun _ h => .inl h
    · refine Protocol.Triple.of_and fun hci => Protocol.Triple.of_and fun hcp => ?_
      exact weaken (claimCommit_spec ht) (fun _ x h => ⟨hci, hcp, h⟩) fun _ x h => ⟨hci, hcp, h⟩
  · rcases o with _ | _ | c
    · dsimp only [ClaimFailed]
      exact rollback_owner (.inl rfl)
    · dsimp only [ClaimFailed]
      exact rollback_owner (.inl rfl)
    · refine Protocol.Triple.of_and fun hci => Protocol.Triple.of_and fun hcp => ?_
      exact weaken (rollback_owner (.inl rfl)) (fun _ x h => ⟨hci, hcp, h⟩) fun _ _ h => h

/-! ## Failure handling -/

/-- A worker that has nothing to do with its import anymore. -/
abbrev Ended (C : Setting) (p : Nat) (i : ImportId) (ρ : Option ImportId → Prop) : Assertion :=
  Owner C p i (fun _ => True) (fun d => d.Idle p) ρ

/-- The exception that makes the task retry leaves the worker responsible. -/
def Leaves (i : ImportId) (e : Exc) (o : Option ImportId) : Prop :=
  o = none ∨ (∃ message, e = .retryableImportProcessingError message) ∧ o = some i

/-- A transaction that fails the import, or finds that it lost it. -/
theorem markFailed_spec (ht : t.role = .worker) {c : ClaimedImport} (hc : c.processingToken = p)
    {reason : String} (hw : reason ≠ dispatchExhaustedReason) {ρ : Option ImportId → Prop} :
    C.Spec p t (Owner C p c.importId (Claimed c) (fun d => d.Idle p) ρ) (markFailed c reason)
      (Outcome (fun _ => Ended C p c.importId ρ) (fun _ => Ended C p c.importId ρ)) := by
  refine seq (Setting.Spec.inTransaction (L := fun _ => Ended C p c.importId ρ)
    (E := Raised C p c.importId (fun _ _ => True) ρ)
    ((updateClaimed_first hc fun _ _ _ => trivial).pre fun x h =>
      h.mono (fun _ h => h) (fun _ h => h.clean) fun _ h => h) (fun a => ?_)
    fun e => rollback_owner (.inl rfl)) fun _ => ret fun _ h => h
  refine commit_owner ht (fun w g hi ha => ?_) (fun _ _ _ _ => trivial) fun _ _ _ _ => trivial
  cases a with
  | false =>
    have hclean := ha.2.1.2 rfl
    refine ⟨.of_eq (commit_clean hclean) hclean.outbox fun _ => trivial, fun hp => ?_⟩
    rwa [show (w.commit p).db.slice c.importId = _ from commit_clean hclean c.importId] at hp
  | true =>
    have hwr := ha.2.1.1 rfl
    obtain ⟨r, cur, ⟨hadm, rfl⟩, htk⟩ := hwr.takes hi.wf w.time
    refine ⟨htk.commits hwr.outbox (.fail reason hadm hw) (fun h => by cases h)
      (fun _ _ => trivial) hadm.2, fun hp => ?_⟩
    rw [show (w.commit p).db.slice c.importId = _ from htk.after] at hp
    cases hp

/-- The commit of a requeue: from now on the worker sees to the import. -/
theorem requeueCommit_spec (ht : t.role = .worker) {c : ClaimedImport}
    (hsub : t.subject = some c.importId) {reason : String}
    (ha' : c.attemptCount < c.maxAttempts) :
    C.Spec p t (Owner C p c.importId (Claimed c)
        (Wrote p c.importId (Moved p (.requeueForRetry reason)) NoRows) (· = none))
      (Py.stmt .commit)
      (Outcome (fun _ => Ended C p c.importId (· = some c.importId))
        (Raised C p c.importId (fun _ _ => True) (· = none))) := by
  refine commit (stable_outcome (fun _ => stable_owner (local_idle p)) fun _ =>
    stable_owner (local_true p)) (fun w g lost hl hi ha hs => ?_)
    fun w g f hf hi ha hs => ha.mono (fun _ _ => trivial) (fun _ _ => trivial) fun _ h => h
  have htok := ha.2.1.hasToken hi.wf fun now r cur h => h.hasToken
  obtain ⟨r, cur, ⟨hadm, rfl⟩, htk⟩ := ha.2.1.takes hi.wf w.time
  have hafter : (w.commit p).db.slice c.importId = _ := htk.after
  obtain ⟨r', hr', h1, h2, -⟩ := ha.1 htok
  rw [htk.before] at hr'
  cases hr'
  have hc : Commits C p c.importId (fun _ => True) w :=
    htk.commits ha.2.1.outbox (.requeue reason hadm (by rw [h1, h2]; exact ha'))
      (fun h => by cases h) (fun _ _ => trivial) hadm.2
  refine ⟨g.assume p c.importId, hc.ok hi ht (fun _ h => assume_responsible_ne h)
    (fun j h => .inr (by rw [hsub, ← h, assume_responsible])) rfl rfl rfl fun htr => ?_, ?_⟩
  · refine (hi.dispatched htr).commit_one hi.wf ha.2.1.outbox htk.others
      (fun _ => .inl assume_responsible) (fun j hj hr => ?_)
      (fun u hu => assume_responsible_ne hu) rfl
    rw [ha.2.2 htr] at hr
    cases hr
  · cases lost with
    | none => exact ⟨fun _ => trivial, Database.idle_commit _ p, fun _ => assume_responsible⟩
    | some f =>
      refine ⟨fun _ => trivial, trivial, fun htr => absurd ?_ (hs.strands htr)⟩
      obtain ⟨now, r, cur, -, hri, ⟨hadm, rfl⟩, hwr, -⟩ := ha.2.1
      refine ⟨r, hwr.mem, hadm.1, hadm.2, _, ?_, hwr.same, rfl⟩
      rw [show w.db.importJobs.view p = _ from hwr.sees _, Table.mem_put]
      exact .inr ⟨rfl, r, hwr.mem, rfl⟩

theorem handleOperationalFailure_spec (ht : t.role = .worker) {c : ClaimedImport}
    (hsub : t.subject = some c.importId) (hc : c.processingToken = p) :
    C.Spec p t (Owner C p c.importId (Claimed c) (fun d => d.Idle p) (· = none))
      (handleOperationalFailure c)
      (Outcome (fun _ => Ended C p c.importId (· = none))
        (fun e => Ended C p c.importId (Leaves c.importId e))) := by
  unfold handleOperationalFailure
  split
  · exact weaken (markFailed_spec ht hc (by decide)) (fun _ _ h => h) fun e x h =>
      h.mono (fun _ h => h) (fun _ h => h) fun _ h => .inl h
  · next hlt =>
    refine seq (weaken (Setting.Spec.inTransaction
      (L := fun a : Bool => Ended C p c.importId (· = if a then some c.importId else none))
      (E := Raised C p c.importId (fun _ _ => True) (· = none))
      ((updateClaimed_first hc fun _ _ _ => trivial).pre fun x h =>
        h.mono (fun _ h => h) (fun _ h => h.clean) fun _ h => h) (fun a => ?_)
      fun e => rollback_owner (.inl rfl)) (fun _ _ h => h) fun e x h =>
        h.mono (fun _ h => h) (fun _ h => h) fun _ h => .inl h) fun a => ?_
    · cases a with
      | true =>
        exact (requeueCommit_spec ht hsub (Nat.lt_of_not_le hlt)).pre fun x h =>
          h.mono (fun _ h => h) (fun _ h => h.1 rfl) fun _ h => h
      | false =>
        exact (commit_clean_owner ht (Φ := fun _ => True) fun _ _ _ => trivial).pre fun x h =>
          h.mono (fun _ _ => trivial) (fun _ h => h.2 rfl) fun _ h => h
    · cases a with
      | true =>
        exact raise fun x h => h.mono (fun _ h => h) (fun _ h => h) fun _ h => .inr ⟨⟨_, rfl⟩, h⟩
      | false => exact ret fun _ h => h

/-- The handlers of `run` after the claim. -/
theorem handleError_some_spec (ht : t.role = .worker) {c : ClaimedImport}
    (hsub : t.subject = some c.importId) (hc : c.processingToken = p) {e : Exc} (he : e.Worded) :
    C.Spec p t (Owner C p c.importId (Claimed c) (fun d => d.Idle p) (· = none))
      (handleError (some c) e)
      (Outcome (fun _ => Ended C p c.importId (· = none))
        (fun e => Ended C p c.importId (Leaves c.importId e))) := by
  have hfail : ∀ reason, reason ≠ dispatchExhaustedReason → C.Spec p t
      (Owner C p c.importId (Claimed c) (fun d => d.Idle p) (· = none)) (markFailed c reason)
      (Outcome (fun _ => Ended C p c.importId (· = none))
        (fun e => Ended C p c.importId (Leaves c.importId e))) := fun reason hw =>
    weaken (markFailed_spec ht hc hw) (fun _ _ h => h) fun e x h =>
      h.mono (fun _ h => h) (fun _ h => h) fun _ h => .inl h
  unfold handleError
  split
  · exact ret fun x h => h.mono (fun _ _ => trivial) (fun _ h => h) fun _ h => h
  · refine hfail _ ?_
    split
    · decide
    · exact fun h => he (by rw [h])
  · exact handleOperationalFailure_spec ht hsub hc
  · exact hfail _ (by decide)

/-- The handlers of `run` before the claim. -/
theorem handleError_none_spec (e : Exc) :
    C.Spec p t (Unclaimed C p i (fun d => d.Idle p) (BeforeClaim i e)) (handleError none e)
      (Outcome (fun _ => Ended C p i (· = none)) (fun e => Ended C p i (Leaves i e))) := by
  unfold handleError
  split
  · refine ret fun x h => h.mono (fun _ _ => trivial) (fun _ h => h) fun o h => ?_
    exact h.resolve_right fun h => by cases h.1
  · refine ret fun x h => h.mono (fun _ _ => trivial) (fun _ h => h) fun o h => ?_
    exact h.resolve_right fun h => by cases h.1
  · refine raise fun x h => h.mono (fun _ _ => trivial) (fun _ h => h) fun o h => ?_
    exact h.imp_right fun h => ⟨⟨_, rfl⟩, h.2⟩
  · next hne =>
    refine raise fun x h => h.mono (fun _ _ => trivial) (fun _ h => h) fun o h => .inl ?_
    exact h.resolve_right fun h => hne h.1

/-! ## The task -/

/-- `ProcessImportService.run`. -/
theorem run_spec (ht : t.role = .worker) (hsub : t.subject = some i) (worker : WorkerName) :
    C.Spec p t (Unclaimed C p i (fun d => d.Idle p) (· = some i)) (run C.env i p worker)
      (Outcome (fun _ => Ended C p i (· = none)) (fun e => Ended C p i (Leaves i e))) := by
  refine Setting.Spec.withSession (N := fun _ => Ended C p i (· = none))
    (E := fun e => Ended C p i (Leaves i e)) ?_ (fun _ => rollback_owner (.inr rfl))
    fun e => rollback_owner (.inr rfl)
  -- the exceptions the handlers see are worded
  refine Protocol.Triple.bind (M := fun r x =>
      (∃ o, r = .ok o ∧ ∀ a e, o = .error (a, e) → e.Worded) ∧ _)
    ((claim_spec ht worker).free (fun s w r w' ⟨ch, he, _⟩ => ⟨p, t, ch, w, w', he⟩)
      (Worded.transaction (worded_claimPendingImport i p worker) Worded.ret []))
    (fun o => ?_) (fun e y ⟨⟨o, h, _⟩, _⟩ => by cases h)
  refine Protocol.Triple.of_and fun ⟨_, ho, hw⟩ => ?_
  cases ho
  match o with
  | .ok none =>
    exact ret fun x (h : Unclaimed C p i (fun d => d.Idle p) (· = none) x) =>
      h.mono (fun _ _ => trivial) (fun _ h => h) fun _ h => h
  | .ok (some c) =>
    refine Protocol.Triple.of_and fun hci => Protocol.Triple.of_and fun hcp => ?_
    subst hci
    refine Protocol.Triple.tryCatch ((processClaimed_spec ht hcp).free
      (fun s w r w' ⟨ch, he, _⟩ => ⟨p, t, ch, w, w', he⟩) (worded_processClaimed c []))
      (fun _ _ h => h.2) fun e => ?_
    refine Protocol.Triple.of_and fun he => ?_
    exact handleError_some_spec ht hsub hcp (he e rfl)
  | .error (some (some c), e) =>
    refine Protocol.Triple.of_and fun hci => Protocol.Triple.of_and fun hcp => ?_
    subst hci
    exact handleError_some_spec ht hsub hcp (hw _ e rfl)
  | .error (some none, e) | .error (none, e) => exact handleError_none_spec e

/-- `self.retry` hands the import over to a message. -/
theorem selfRetry_spec {message : Message} {hostname : Option WorkerName} {exc : Exc} {n : Nat} :
    C.Spec p (.processImport message hostname)
      (Ended C p message.importId fun o => o = none ∨ o = some message.importId)
      (Py.stmt (.selfRetry exc n))
      (Outcome (fun _ => Ended C p message.importId (· = none))
        (fun _ => Ended C p message.importId (· = none))) := by
  refine stmt (stable_outcome (fun _ => stable_owner (local_idle p)) fun _ =>
    stable_owner (local_idle p)) fun w g r w' ch hi ha he hs => ?_
  cases ch with
  | fail f => cases he
  | lost f => cases he
  | run =>
    have hresp : ∀ k, C.track → g.responsible p = some k → k = message.importId := by
      intro k htr hk
      rcases ha.2.2 htr with h | h
      · rw [h] at hk; cases hk
      · exact Option.some.inj (hk.symm.trans h)
    have hlive : ∀ s' r', some (⟨.selfRetry exc n, r⟩ : Prog.Exchange Stmt Stmt.Reply Exc) =
        some ⟨s', r'⟩ → s'.Live := fun s' r' e => by cases e; trivial
    simp only [World.exec, World.perform] at he
    split at he
    · next hmax =>
      cases he
      refine ⟨g.release p, quiet_step _ _ hi (Database.own_refl hi.wf) ghostStep_release
        (fun _ _ => .inl) (fun htr => ?_) (fun _ => .inl) hlive, ha.1, ha.2.1,
        fun _ => release_responsible⟩
      refine (hi.dispatched htr).release ha.2.1.jobs.lock fun r hr hst hk => ?_
      exact absurd ⟨message, hostname, rfl, hmax, r, hr, hresp _ htr hk, hst⟩ (hs.strands htr)
    · cases he
      refine ⟨g.release p, quiet_step (w.push ⟨message.importId, message.retries + 1⟩) _ hi
        (Database.own_refl hi.wf) ghostStep_release (fun _ _ => .inl) (fun htr => ?_)
        (fun _ => .inl) hlive, ha.1, ha.2.1, fun _ => release_responsible⟩
      have hd := hi.dispatched htr
      have hd' : Dispatched (w.push ⟨message.importId, message.retries + 1⟩) g :=
        ⟨fun r hr hst => (hd.carried r hr hst).imp_left (by
          rintro ⟨m, hm, e⟩
          exact ⟨m, List.mem_append_left _ hm, e⟩), hd.covered⟩
      refine hd'.release ha.2.1.jobs.lock fun r hr hst hk => .inl ?_
      exact ⟨_, List.mem_append_right _ List.mem_cons_self, (hresp _ htr hk).symm⟩

/-- `process_import_task`. -/
theorem processImportTask_spec (message : Message) (hostname : Option WorkerName) :
    C.Spec p (.processImport message hostname)
      (Unclaimed C p message.importId (fun d => d.Idle p) (· = some message.importId))
      (processImportTask C.env message hostname p)
      (Outcome (fun _ => Ended C p message.importId (· = none))
        (fun _ => Ended C p message.importId (· = none))) := by
  refine handle (run_spec rfl rfl _) fun e => ?_
  cases e with
  | retryableImportProcessingError text =>
    refine seq (M := fun _ => Ended C p message.importId (· = none))
      (selfRetry_spec.pre fun x h => h.mono (fun _ h => h) (fun _ h => h) fun o h =>
        h.imp_right fun h => h.2) fun never => nomatch never
  | _ =>
    refine raise fun x h => h.mono (fun _ h => h) (fun _ h => h) fun o h => ?_
    exact h.resolve_right fun ⟨⟨_, h⟩, _⟩ => by cases h

end

end ShipmentImport
