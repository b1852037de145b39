import ShipmentImport.Properties.Uploads

/-!
# Stored files and committed imports

The file of an upload and the row that names it are in two stores without a common transaction. The
endpoint deletes the file whenever it raises, so when it ends there is a file exactly if there is a
row, unless a statement raises once the row is committed.
-/

namespace ShipmentImport

/-! ## The request -/

/-- The statements of a request, each with how it went. -/
abbrev Log := List (Stmt × Choice)

/-- A statement that raises although the row is committed: the commit, reported as failed when it
took effect, and the refresh after it. -/
def RaisesCommitted : Stmt × Choice → Prop
  | (.commit, .lost _) => True
  | (.query (.refreshImportJob _), .fail _) => True
  | _ => False

def Log.Clean (log : Log) : Prop := ∀ x ∈ log, ¬ RaisesCommitted x

/-- A statement of the request, which is logged. -/
def Logged (env : Env) (p : Nat) (t : Task) (fileToken : Token) (s : Stmt) (x : World × Log)
    (r : Except Exc s.Reply) (y : World × Log) : Prop :=
  ∃ ch, uploadStep env p t fileToken ch s x.1 = some (r, y.1) ∧ y.2 = x.2 ++ [(s, ch)]

/-- The committed row of import `i` names the file. -/
def World.Stores (w : World) (path : String) (i : ImportId) : Prop :=
  ∃ r ∈ w.db.importJobs.rows, r.id = i ∧ r.val.storedFilePath = path

/-- What the other processes leave alone: the session of the request, the files of its upload, which
are named after a token of its own, and the rows that name its file. -/
structure World.Spares (p : Nat) (temp path : String) (w w' : World) : Prop where
  files : World.KeepsFiles [temp, path] w w'
  session : Database.Keeps p w.db w'.db
  wf : w.db.Wf → w'.db.Wf
  stores : ∀ i, w'.Stores path i ↔ w.Stores path i

theorem World.stores_congr {w w' : World} {path : String}
    (h : w'.db.importJobs.rows = w.db.importJobs.rows)
    (i : ImportId) : w'.Stores path i ↔ w.Stores path i := by
  rw [World.Stores, h, World.Stores]

/-- No uuid is drawn twice. -/
theorem World.perform_issued {env : Env} {q : Nat} {u : Task} {s : Stmt} {w w' : World}
    {r : Except Exc s.Reply} (hw : w.db.Wf) (h : w.perform env q u s = some (r, w')) :
    w.db.issued ≤ w'.db.issued := by
  cases s with
  | query c =>
    obtain ⟨x, hx, he⟩ := Option.map_eq_some_iff.1 h
    cases he
    have hb := Database.own_begin (s := q) hw w.time
    exact (hb.trans (Database.exec_own hb.wf hx)).issued
  | uuid4 =>
    cases h
    exact Nat.le_succ _
  | selfRetry exc maxRetries =>
    simp only [World.perform] at h
    split at h
    · split at h <;> cases h <;> exact Nat.le_refl _
    · cases h
  | replaceFile | readSignature =>
    simp only [World.perform] at h
    split at h <;> cases h <;> exact Nat.le_refl _
  | spin => cases h
  | _ =>
    cases h
    exact Nat.le_refl _

/-- The other processes, which do not log. -/
def Others (p : Nat) (temp path : String) (x y : World × Log) : Prop :=
  World.Spares p temp path x.1 y.1 ∧ y.2 = x.2

/-! ## The states of a request -/

/-- The file is stored, and the changes `cs` of import jobs are not committed yet. -/
structure Pending (p : Nat) (path : String) (cs : List (Change ImportJob)) (x : World × Log) :
    Prop where
  wf : x.1.db.Wf
  file : (x.1.files.lookup path).isSome
  staged : x.1.db.importJobs.staged p = cs
  noRow : ∀ i, ¬ x.1.Stores path i
  clean : x.2.Clean

/-- The file is stored, and import `i`, which names it, is committed. -/
structure Committed (p : Nat) (path : String) (i : ImportId) (x : World × Log) : Prop where
  wf : x.1.db.Wf
  file : (x.1.files.lookup path).isSome
  staged : x.1.db.importJobs.staged p = []
  stores : x.1.Stores path i
  clean : x.2.Clean

/-- The file is to be deleted: there is a row exactly if something raised once it was committed. -/
structure Abandoned (path : String) (x : World × Log) : Prop where
  wf : x.1.db.Wf
  clean : x.2.Clean ↔ ∀ i, ¬ x.1.Stores path i

/-- What the states of a request say is the same, but for the file and what is not committed. -/
structure Agrees (path : String) (x y : World × Log) : Prop where
  wf : y.1.db.Wf
  stores : ∀ i, y.1.Stores path i ↔ x.1.Stores path i
  clean : y.2.Clean ↔ x.2.Clean

section
variable {env : Env} {p : Nat} {t : Task} {fileToken : Token} {temp path : String}
  {cs cs' : List (Change ImportJob)} {i : ImportId} {x y : World × Log}

theorem Log.clean_append {log : Log} {e : Stmt × Choice} :
    Log.Clean (log ++ [e]) ↔ log.Clean ∧ ¬ RaisesCommitted e := by
  simp [Log.Clean, or_imp, forall_and]

theorem Pending.agrees (h : Pending p path cs x) (ha : Agrees path x y)
    (hf : y.1.files.lookup path = x.1.files.lookup path)
    (hs : y.1.db.importJobs.staged p = cs') : Pending p path cs' y where
  wf := ha.wf
  file := hf ▸ h.file
  staged := hs
  noRow i := mt (ha.stores i).1 (h.noRow i)
  clean := ha.clean.2 h.clean

theorem Committed.agrees (h : Committed p path i x) (ha : Agrees path x y)
    (hf : y.1.files.lookup path = x.1.files.lookup path)
    (hs : y.1.db.importJobs.staged p = []) : Committed p path i y where
  wf := ha.wf
  file := hf ▸ h.file
  staged := hs
  stores := (ha.stores i).2 h.stores
  clean := ha.clean.2 h.clean

theorem Abandoned.agrees (h : Abandoned path x) (ha : Agrees path x y) : Abandoned path y where
  wf := ha.wf
  clean := ha.clean.trans (h.clean.trans (forall_congr' fun i => not_congr (ha.stores i).symm))

theorem Pending.abandoned (h : Pending p path cs x) : Abandoned path x :=
  ⟨h.wf, iff_of_true h.clean h.noRow⟩

theorem Others.agrees (h : Others p temp path x y) (hw : x.1.db.Wf) : Agrees path x y :=
  ⟨h.1.wf hw, h.1.stores, by rw [h.2]⟩

theorem Pending.others (h : Pending p path cs x) (ho : Others p temp path x y) :
    Pending p path cs y :=
  h.agrees (ho.agrees h.wf) (ho.1.files path (.tail _ (.head _)))
    (ho.1.session.jobs.staged.trans h.staged)

theorem Committed.others (h : Committed p path i x) (ho : Others p temp path x y) :
    Committed p path i y :=
  h.agrees (ho.agrees h.wf) (ho.1.files path (.tail _ (.head _)))
    (ho.1.session.jobs.staged.trans h.staged)

theorem Abandoned.others (h : Abandoned path x) (ho : Others p temp path x y) : Abandoned path y :=
  h.agrees (ho.agrees h.wf)

/-! ## Statements -/

theorem Logged.uploads {s : Stmt} {r : Except Exc s.Reply}
    (h : Logged env p t fileToken s x r y) : Uploads env p t fileToken s x.1 r y.1 :=
  have ⟨ch, hs, _⟩ := h
  ⟨ch, hs⟩

theorem Logged.clean {s : Stmt} {r : Except Exc s.Reply} (h : Logged env p t fileToken s x r y)
    (hs : s ≠ .commit) (hq : ∀ i, s ≠ .query (.refreshImportJob i)) :
    y.2.Clean ↔ x.2.Clean := by
  obtain ⟨ch, -, hl⟩ := h
  rw [hl, Log.clean_append, and_iff_left]
  cases s with
  | commit => exact absurd rfl hs
  | query q =>
    cases q with
    | refreshImportJob i => exact absurd rfl (hq i)
    | _ => exact id
  | _ => exact id

/-- The queries of a request before its commit, the insertion of the job apart. -/
def Query.KeepsJobs : Query → Prop
  | acquireFingerprintLock _ | getSnapshotByIdempotencyKey _ | getSnapshotByFingerprint _ => True
  | insertDispatchIntent .. => True
  | _ => False

theorem Database.exec_keepsJobs {server : Server} {clock : Time} {d d' : Database} (hw : d.Wf)
    {q : Query} (hq : q.KeepsJobs) {r : Except Fault q.Reply}
    (hx : d.exec server clock p q = some (r, d')) :
    d'.importJobs.staged p = d.importJobs.staged p := by
  cases q with
  | acquireFingerprintLock f =>
    simp only [Database.exec] at hx
    split at hx <;> cases hx
    rfl
  | getSnapshotByIdempotencyKey | getSnapshotByFingerprint =>
    cases hx
    rfl
  | insertDispatchIntent k a =>
    simp only [Database.exec, Database.referenceJob] at hx
    split at hx
    · obtain ⟨T, hT, hx⟩ := Option.map_eq_some_iff.1 hx
      cases hx
      exact congrFun (Table.keyShare_spec hw.jobs hT).2.1 p
    · cases hx
      rfl
  | _ => exact hq.elim

variable (path) in
/-- A query, unless it is the refresh: it ran, or it raised and did nothing. -/
theorem Logged.query {q : Query} {r : Except Exc q.Reply} (hw : x.1.db.Wf)
    (h : Logged env p t fileToken (.query q) x r y) (hq : ∀ i, q ≠ .refreshImportJob i) :
    Agrees path x y ∧ y.1.files = x.1.files ∧
      ((∃ r', (x.1.db.begin p x.1.time).exec env.server x.1.time p q = some (r', y.1.db) ∧
          r = r'.mapError Exc.raised) ∨ y.1 = x.1 ∧ ∃ e, r = .error e) := by
  have hclean := h.clean (by simp) fun i hi => hq i (Stmt.query.inj hi)
  rcases h.uploads.perform (by simp) (by simp) with hx | ⟨f, -, rfl, hy⟩
  · obtain ⟨⟨r', d⟩, hd, hx⟩ := Option.map_eq_some_iff.1 hx
    obtain ⟨rfl, hy⟩ := Prod.mk.inj hx
    have hb := Database.own_begin (s := p) hw x.1.time
    have ho := hb.trans (Database.exec_own hb.wf hd)
    rw [← hy]
    exact ⟨⟨hy ▸ ho.wf, fun i => hy ▸ World.stores_congr ho.rows.jobs i, hclean⟩, rfl,
      .inl ⟨r', hd, rfl⟩⟩
  · exact ⟨⟨hy ▸ hw, fun i => by rw [hy], hclean⟩, by rw [hy], .inr ⟨hy, _, rfl⟩⟩

theorem Pending.query {q : Query} {r : Except Exc q.Reply} (h : Pending p path cs x)
    (hx : Logged env p t fileToken (.query q) x r y) (hq : q.KeepsJobs) :
    Pending p path cs y := by
  obtain ⟨ha, hf, hrun⟩ := hx.query path h.wf (by rintro i rfl; exact hq)
  refine h.agrees ha (by rw [hf]) (Eq.trans ?_ h.staged)
  rcases hrun with ⟨r', hd, -⟩ | ⟨hy, -⟩
  · have hb := (Database.own_begin (s := p) h.wf x.1.time).wf
    exact Database.exec_keepsJobs (d := x.1.db.begin p x.1.time) hb hq hd
  · rw [hy]

theorem Pending.insertImportJob {settings : Settings} {request : CreateRequest}
    {r : Except Exc ImportId} (h : Pending p path [] x)
    (hx : Logged env p t fileToken (.query (.insertImportJob (request.importJob settings))) x r y) :
    (∀ i, r = .ok i → ∃ v : Version ImportJob, v.id = i ∧
      varchar 1024 request.storedFilePath = .ok v.val.storedFilePath ∧
        Pending p path [.insert v] y) ∧
      ∀ e, r = .error e → Pending p path [] y := by
  obtain ⟨ha, hf, hrun⟩ := hx.query path h.wf (by simp)
  have hfile : y.1.files.lookup path = x.1.files.lookup path := by rw [hf]
  rcases hrun with ⟨r', hd, rfl⟩ | ⟨hy, e, rfl⟩
  · have hb := (Database.own_begin (s := p) h.wf x.1.time).wf
    generalize hdb : y.1.db = d at hd
    rcases Database.exec_insertImportJob hd with
      ⟨f, -, rfl, rfl⟩ | ⟨stored, hstored, ⟨-, rfl, rfl⟩ | ⟨T, hT, rfl, rfl⟩⟩
    · exact ⟨by rintro i ⟨⟩, fun e _ => h.agrees ha hfile (by rw [hdb]; exact h.staged)⟩
    · exact ⟨by rintro i ⟨⟩, fun e _ => h.agrees ha hfile (by rw [hdb]; exact h.staged)⟩
    · have hpath : varchar 1024 request.storedFilePath = .ok stored.storedFilePath := by
        obtain ⟨_, _, _, hpath, hrow⟩ := request.store_eq hstored
        rw [hrow]
        exact hpath
      obtain ⟨-, hs, -⟩ := Table.insertUnique_spec hb.jobs hT
      refine ⟨fun i hi => ?_, by rintro e ⟨⟩⟩
      cases hi
      refine ⟨⟨_, p, { stored with createdAt := (x.1.db.begin p x.1.time).now p x.1.time }⟩, rfl,
        hpath, h.agrees ha hfile ?_⟩
      rw [hdb]
      exact hs.trans (congrArg (· ++ _) h.staged)
  · exact ⟨by rintro i ⟨⟩, fun _ _ => h.agrees ha hfile (by rw [hy]; exact h.staged)⟩

theorem World.stores_commit {w : World} {r : Version ImportJob}
    (hs : w.db.importJobs.staged p = [.insert r]) (hpath : r.val.storedFilePath = path) :
    (w.commit p).Stores path r.id := by
  refine ⟨r, ?_, rfl, hpath⟩
  show r ∈ w.db.importJobs.view p
  rw [Table.view, hs]
  exact List.mem_append_right _ List.mem_cons_self

/-- The commit: it takes effect or not, and raises or not. -/
theorem Pending.commit {v : Version ImportJob} (hpath : v.val.storedFilePath = path)
    {r : Except Exc Unit} (h : Pending p path [.insert v] x)
    (hx : Logged env p t fileToken .commit x r y) :
    (∀ a, r = .ok a → Committed p path v.id y) ∧ ∀ e, r = .error e → Abandoned path y := by
  obtain ⟨ch, hx, hl⟩ := hx
  have hrow := World.stores_commit h.staged hpath
  cases ch with
  | run =>
    obtain ⟨rfl, hy⟩ := Prod.mk.inj (Option.some.inj hx)
    refine ⟨fun _ _ => ⟨hy ▸ Database.wf_commit h.wf, hy ▸ h.file, ?_, hy ▸ hrow, ?_⟩,
      by rintro e ⟨⟩⟩
    · rw [← hy]
      exact Table.commit_staged _ p
    · rw [hl]
      exact Log.clean_append.2 ⟨h.clean, id⟩
  | fail f =>
    simp only [uploadStep, World.exec] at hx
    split at hx
    · obtain ⟨rfl, hy⟩ := Prod.mk.inj (Option.some.inj hx)
      refine ⟨by rintro a ⟨⟩, fun _ _ => ⟨hy ▸ h.wf, iff_of_true ?_ (hy ▸ h.noRow)⟩⟩
      rw [hl]
      exact Log.clean_append.2 ⟨h.clean, id⟩
    · cases hx
  | lost f =>
    simp only [uploadStep, World.exec] at hx
    split at hx
    · obtain ⟨rfl, hy⟩ := Prod.mk.inj (Option.some.inj hx)
      refine ⟨by rintro a ⟨⟩, fun _ _ => ⟨hy ▸ Database.wf_commit h.wf, iff_of_false ?_ ?_⟩⟩
      · rw [hl]
        exact fun hc => (Log.clean_append.1 hc).2 trivial
      · exact fun hno => hno v.id (hy ▸ hrow)
    · cases hx

/-- The refresh finds the row, or raises once it is committed. -/
theorem Committed.refresh {r : Except Exc (Option ImportCreatedResult)} (h : Committed p path i x)
    (hx : Logged env p t fileToken (.query (.refreshImportJob i)) x r y) :
    (∀ o, r = .ok o → o ≠ none ∧ Committed p path i y) ∧ ∀ e, r = .error e → Abandoned path y := by
  obtain ⟨ch, hx, hl⟩ := hx
  cases ch with
  | run =>
    obtain ⟨rfl, hy⟩ := Prod.mk.inj (Option.some.inj hx)
    refine ⟨fun o ho => ⟨fun hnone => ?_, ?_⟩, by rintro e ⟨⟩⟩
    · obtain ⟨v, hv, hi, -⟩ := h.stores
      have hfind := Option.map_eq_none_iff.1 ((Except.ok.inj ho).trans hnone)
      refine List.find?_eq_none.1 hfind v ?_ (by simpa using hi)
      show v ∈ x.1.db.importJobs.view p
      rwa [Table.view_eq _ _ h.staged]
    · refine h.agrees ⟨hy ▸ (Database.own_begin h.wf _).wf, fun j => hy ▸ .rfl, ?_⟩ (hy ▸ rfl)
        (hy ▸ h.staged)
      rw [hl, Log.clean_append]
      exact and_iff_left id
  | fail f =>
    obtain ⟨rfl, hy⟩ := Prod.mk.inj (Option.some.inj hx)
    refine ⟨by rintro a ⟨⟩, fun _ _ => ⟨hy ▸ h.wf, iff_of_false ?_ ?_⟩⟩
    · rw [hl]
      exact fun hc => (Log.clean_append.1 hc).2 trivial
    · exact fun hno => hno i (hy ▸ h.stores)
  | lost f => cases hx

variable (path) in
/-- What ends a session. -/
theorem Logged.rollback {s : Stmt} (hs : s = .rollback ∨ s = .close) {r : Except Exc s.Reply}
    (hw : x.1.db.Wf) (h : Logged env p t fileToken s x r y) :
    (∃ a, r = .ok a) ∧ Agrees path x y ∧ y.1.files = x.1.files ∧
      y.1.db.importJobs.staged p = [] := by
  have hclean := h.clean (by rcases hs with rfl | rfl <;> simp)
    (by rcases hs with rfl | rfl <;> simp)
  have hy : (∃ a, r = .ok a) ∧ x.1.rollback p = y.1 := by
    rcases hs with rfl | rfl <;>
    · rcases h.uploads.perform (by simp) (by simp) with hx | ⟨f, hf, -⟩
      · obtain ⟨rfl, hy⟩ := Prod.mk.inj (Option.some.inj hx)
        exact ⟨⟨_, rfl⟩, hy⟩
      · cases hf
  obtain ⟨hr, hy⟩ := hy
  rw [← hy]
  exact ⟨hr, ⟨hy ▸ (Database.own_rollback hw).wf, fun j => hy ▸ .rfl, hclean⟩, rfl,
    Table.rollback_staged _ p⟩

/-! ## Programs -/

/-- Every execution of the request from a state with `A` ends with `Q`. -/
abbrev Py.Leads (env : Env) (p : Nat) (t : Task) (fileToken : Token) (temp path : String)
    (A : World × Log → Prop) {α : Type} (z : Py α) (Q : Except Exc α → World × Log → Prop) : Prop :=
  Prog.Meets (Logged env p t fileToken) (Others p temp path) A z fun _ => Q

/-- The other processes keep `A`. -/
def Undisturbed (p : Nat) (temp path : String) (A : World × Log → Prop) : Prop :=
  ∀ x y, A x → Others p temp path x y → A y

theorem Py.Leads.stmt {β : Type} {A : World × Log → Prop} (hA : Undisturbed p temp path A) {s : Stmt}
    {f : s.Reply → Py β} {B : s.Reply → World × Log → Prop} {Q : Except Exc β → World × Log → Prop}
    (hok : ∀ x a y, A x → Logged env p t fileToken s x (.ok a) y → B a y)
    (hf : ∀ a, (f a).Leads env p t fileToken temp path (B a) Q)
    (herror : ∀ x e y, A x → Logged env p t fileToken s x (.error e) y → Q (.error e) y) :
    Py.Leads env p t fileToken temp path A (Py.stmt s >>= f) Q :=
  Prog.Meets.seq (fun x x₁ a y hx ho hs => hok x₁ a y (hA x x₁ hx ho) hs) hf
    fun x x₁ e y hx ho hs => herror x₁ e y (hA x x₁ hx ho) hs

theorem undisturbed_pending : Undisturbed p temp path (Pending p path cs) := fun _ _ h => h.others

theorem undisturbed_committed : Undisturbed p temp path (Committed p path i) :=
  fun _ _ h => h.others

theorem undisturbed_abandoned : Undisturbed p temp path (Abandoned path) := fun _ _ h => h.others

/-- What `create_import` of the service leaves: an import that is created and committed, or a file
that is to be deleted. -/
def Settled (p : Nat) (path : String) : Except Exc ImportCreateOutcome → World × Log → Prop
  | .ok ⟨_, true⟩, x => ∃ i, Committed p path i x
  | .ok ⟨_, false⟩, x | .error _, x => Abandoned path x

variable {settings : Settings} {request : CreateRequest}

theorem createRecords_leads (hpath : request.storedFilePath = path)
    (hlast : path.toList.getLast? ≠ some ' ') :
    (createRecords settings request).Leads env p t fileToken temp path (Pending p path [])
      fun o x => match o with
        | .ok i => Committed p path i x
        | .error _ => Abandoned path x := by
  refine Py.Leads.stmt undisturbed_pending (B := fun i x => ∃ v : Version ImportJob,
      (v.id = i ∧ v.val.storedFilePath = path) ∧ Pending p path [.insert v] x)
    (fun x i y hx hs => ?_) (fun i => Prog.Meets.of_exists fun v => Prog.Meets.of_and ?_)
    fun x e y hx hs => ((hx.insertImportJob hs).2 e rfl).abandoned
  · obtain ⟨v, hv, hstored, h⟩ := (hx.insertImportJob hs).1 i rfl
    exact ⟨v, ⟨hv, varchar_eq hlast (hpath ▸ hstored)⟩, h⟩
  rintro ⟨rfl, hpath⟩
  refine Py.Leads.stmt undisturbed_pending (B := fun _ => Pending p path [.insert v])
    (fun x a y hx hs => hx.query hs trivial) (fun _ => ?_)
    fun x e y hx hs => (hx.query hs trivial).abandoned
  exact Py.Leads.stmt undisturbed_pending (B := fun _ => Committed p path v.id)
    (fun x a y hx hs => (hx.commit hpath hs).1 a rfl) (fun _ => Prog.Meets.ret fun _ h => h)
    fun x e y hx hs => (hx.commit hpath hs).2 e rfl

theorem existingOutcome_leads (existing : ImportSnapshot) :
    (existingOutcome request existing).Leads env p t fileToken temp path (Abandoned path)
      (Settled p path) := by
  unfold existingOutcome
  split
  · exact Prog.Meets.raise fun _ h => h
  · exact Prog.Meets.ret fun _ h => h

theorem rollback_leads {β : Type} {s : Stmt} (hs : s = .rollback ∨ s = .close) {f : s.Reply → Py β}
    {Q : Except Exc β → World × Log → Prop}
    (hf : ∀ a, (f a).Leads env p t fileToken temp path (Abandoned path) Q) :
    Py.Leads env p t fileToken temp path (Abandoned path) (Py.stmt s >>= f) Q := by
  refine Py.Leads.stmt undisturbed_abandoned (B := fun _ => Abandoned path)
    (fun x a y hx h => hx.agrees (h.rollback path hs hx.wf).2.1) hf fun x e y hx h => ?_
  obtain ⟨_, ha⟩ := (h.rollback path hs hx.wf).1
  cases ha

theorem persistImport_leads (hpath : request.storedFilePath = path)
    (hlast : path.toList.getLast? ≠ some ' ') :
    (persistImport settings request).Leads env p t fileToken temp path (Pending p path [])
      (Settled p path) := by
  refine Prog.Meets.attempted (createRecords_leads hpath hlast) fun τ o => ?_
  rcases o with e | i
  · have hraise : ∀ e, Py.Leads env p t fileToken temp path (Abandoned path)
        (throw e : Py ImportCreateOutcome) (Settled p path) := fun e =>
      Prog.Meets.raise fun _ h => h
    cases e with
    | raised f =>
      cases f with
      | integrityError =>
        refine rollback_leads (.inl rfl) fun _ => ?_
        cases request.idempotencyKey with
        | none => exact hraise _
        | some key =>
          refine Py.Leads.stmt undisturbed_abandoned (B := fun _ => Abandoned path)
            (fun x a y hx hs => hx.agrees (hs.query path hx.wf (by simp)).1) (fun o => ?_)
            fun x e y hx hs => hx.agrees (hs.query path hx.wf (by simp)).1
          cases o with
          | none => exact hraise _
          | some existing => exact existingOutcome_leads existing
      | operationalError | sqlalchemyError =>
        exact rollback_leads (.inl rfl) fun _ => hraise _
      | _ => exact hraise _
    | _ => exact hraise _
  · refine Py.Leads.stmt undisturbed_committed (B := fun o x => o ≠ none ∧ Committed p path i x)
      (fun x o y hx hs => (hx.refresh hs).1 o rfl) (fun o => ?_)
      fun x e y hx hs => (hx.refresh hs).2 e rfl
    cases o with
    | none => exact Prog.Meets.raise fun x h => absurd rfl h.1
    | some result => exact Prog.Meets.ret fun x h => ⟨i, h.2⟩

theorem Settled.wf {o : Except Exc ImportCreateOutcome} (h : Settled p path o x) : x.1.db.Wf := by
  rcases o with e | ⟨result, _ | _⟩
  · exact Abandoned.wf h
  · exact Abandoned.wf h
  · obtain ⟨i, h⟩ := h
    exact h.wf

theorem Settled.agrees {o : Except Exc ImportCreateOutcome} (h : Settled p path o x)
    (ha : Agrees path x y) (hf : y.1.files.lookup path = x.1.files.lookup path)
    (hs : x.1.db.importJobs.staged p = [] → y.1.db.importJobs.staged p = []) :
    Settled p path o y := by
  rcases o with e | ⟨result, _ | _⟩
  · exact Abandoned.agrees h ha
  · exact Abandoned.agrees h ha
  · obtain ⟨i, h⟩ := h
    exact ⟨i, h.agrees ha hf (hs h.staged)⟩

theorem undisturbed_settled (o : Except Exc ImportCreateOutcome) :
    Undisturbed p temp path (Settled p path o) := fun _ _ h ho =>
  h.agrees (ho.agrees h.wf) (ho.1.files path (.tail _ (.head _)))
    fun hs => ho.1.session.jobs.staged.trans hs

/-- The end of the session. -/
theorem withSession_leads {body : Py ImportCreateOutcome} {A : World × Log → Prop}
    (hbody : body.Leads env p t fileToken temp path A (Settled p path)) :
    (withSession body).Leads env p t fileToken temp path A (Settled p path) := by
  refine Prog.Meets.attempted hbody fun τ o => ?_
  have hclose : ∀ {β : Type} {f : Unit → Py β} {Q : Except Exc β → World × Log → Prop},
      (f ()).Leads env p t fileToken temp path (Settled p path o) Q →
      Py.Leads env p t fileToken temp path (Settled p path o) (Py.stmt .close >>= f) Q := by
    intro β f Q hf
    refine Py.Leads.stmt (undisturbed_settled o) (B := fun _ => Settled p path o)
      (fun x a y hx hs => ?_) (fun _ => hf) fun x e y hx hs => ?_
    · obtain ⟨-, ha, hfile, hst⟩ := hs.rollback path (.inr rfl) hx.wf
      exact hx.agrees ha (by rw [hfile]) fun _ => hst
    · obtain ⟨⟨_, h⟩, -⟩ := hs.rollback path (.inr rfl) hx.wf
      cases h
  cases o with
  | ok outcome => exact hclose (Prog.Meets.ret fun _ h => h)
  | error e => exact hclose (Prog.Meets.raise fun _ h => h)

theorem lookupIdempotencyKey_leads (key : Option String) :
    (lookupIdempotencyKey key).Leads env p t fileToken temp path (Pending p path [])
      fun o x => (∀ a, o = .ok a → Pending p path [] x) ∧ ∀ e, o = .error e → Abandoned path x := by
  cases key with
  | none => exact Prog.Meets.ret fun x h => ⟨fun _ _ => h, by rintro _ ⟨⟩⟩
  | some key =>
    intro x τ o y hx he
    obtain ⟨x', ho, hs, rfl⟩ := he.of_perform
    have hx' := undisturbed_pending x x' hx ho
    exact ⟨fun _ _ => hx'.query hs trivial, fun _ _ => (hx'.query hs trivial).abandoned⟩

theorem createImport_leads (hpath : request.storedFilePath = path)
    (hlast : path.toList.getLast? ≠ some ' ') :
    (createImport settings request).Leads env p t fileToken temp path (Pending p path [])
      (Settled p path) := by
  refine withSession_leads ?_
  refine Py.Leads.stmt undisturbed_pending (B := fun _ => Pending p path [])
    (fun x a y hx hs => hx.query hs trivial) (fun _ => ?_)
    fun x e y hx hs => (hx.query hs trivial).abandoned
  refine Prog.Meets.bind (lookupIdempotencyKey_leads request.idempotencyKey) (fun _ found => ?_)
    fun _ e x h => h.2 e rfl
  refine Prog.Meets.pre ?_ fun x h => h.1 found rfl
  cases found with
  | some existing => exact (existingOutcome_leads existing).pre fun x h => h.abandoned
  | none =>
    refine Py.Leads.stmt undisturbed_pending (B := fun _ => Pending p path [])
      (fun x a y hx hs => hx.query hs trivial) (fun found => ?_)
      fun x e y hx hs => (hx.query hs trivial).abandoned
    cases found with
    | some existing => exact Prog.Meets.raise fun x h => h.abandoned
    | none => exact persistImport_leads hpath hlast

/-! ## The endpoint -/

/-- The parts of a text hold no separator. -/
theorem notMem_splitOn {a : Char} {cs part : List Char} (h : part ∈ cs.splitOn a) : a ∉ part := by
  induction cs generalizing part with
  | nil =>
    rw [List.splitOn_nil, List.mem_singleton] at h
    simp [h]
  | cons c cs ih =>
    rw [List.splitOn_cons_eq_if_modifyHead] at h
    obtain ⟨head, tail, hs⟩ := List.exists_cons_of_ne_nil (List.splitOn_ne_nil a cs)
    rw [hs] at h ih
    split at h
    · rcases List.mem_cons.1 h with rfl | h
      · simp
      · exact ih h
    · next hc =>
      rcases List.mem_cons.1 h with rfl | h
      · refine List.not_mem_cons_of_ne_of_not_mem (fun e => hc ?_) (ih List.mem_cons_self)
        exact beq_iff_eq.2 e.symm
      · exact ih (List.mem_cons_of_mem _ h)

/-- The name of a file is its own name. -/
theorem pathName_pathName (path : String) : pathName (pathName path) = pathName path := by
  have hname : pathName path = "" ∨ '/' ∉ (pathName path).toList ∧
      (pathName path).toList ≠ [] ∧ (pathName path).toList ≠ ['.'] := by
    simp only [pathName]
    cases hl : ((path.toList.splitOn '/').filter fun part => part ≠ [] ∧ part ≠ ['.']).getLast? with
    | none => exact .inl rfl
    | some part =>
      obtain ⟨hpart, hne⟩ := List.mem_filter.1 (List.mem_of_getLast? hl)
      rw [Option.getD_some, String.toList_ofList]
      exact .inr ⟨notMem_splitOn hpart, of_decide_eq_true hne⟩
  rcases hname with h | ⟨hslash, hne⟩
  · rw [h]
    decide
  · generalize pathName path = name at hslash hne
    simp [pathName, List.splitOn_eq_singleton hslash, hne]

theorem Logged.readSignature {r : Except Exc (List UInt8)}
    (h : Logged env p t fileToken (.readSignature path) x r y) :
    y.1 = x.1 ∧ (y.2.Clean ↔ x.2.Clean) := by
  refine ⟨?_, h.clean (by simp) (by simp)⟩
  rcases h.uploads.perform (by simp) (by simp) with hx | ⟨f, -, -, hy⟩
  · simp only [World.perform] at hx
    split at hx <;> exact (Prod.mk.inj (Option.some.inj hx)).2.symm
  · exact hy

theorem Logged.deleteFile {r : Except Exc Unit} (hw : x.1.db.Wf)
    (h : Logged env p t fileToken (.deleteFile path) x r y) :
    r = .ok () ∧ Agrees path x y ∧ y.1.files.lookup path = none := by
  obtain ⟨hr, hy⟩ := h.uploads.deleteFile
  refine ⟨hr, ⟨hy ▸ hw, fun i => hy ▸ .rfl, h.clean (by simp) (by simp)⟩, ?_⟩
  rw [hy, World.lookup_deleteFile, if_pos rfl]

/-- No file, and a row exactly if something raised once it was committed. -/
def Removed (path : String) (x : World × Log) : Prop :=
  Abandoned path x ∧ x.1.files.lookup path = none

/-- There is a file exactly if there is a row, unless something raised once it was committed. -/
def Consistent (path : String) (x : World × Log) : Prop :=
  ((∃ content, x.1.files.lookup path = some content) ↔
    ∃ r ∈ x.1.db.importJobs.rows, r.val.storedFilePath = path) ↔ x.2.Clean

theorem World.exists_stores {w : World} : (∃ i, w.Stores path i) ↔
    ∃ r ∈ w.db.importJobs.rows, r.val.storedFilePath = path :=
  ⟨fun ⟨_, r, hr, _, hp⟩ => ⟨r, hr, hp⟩, fun ⟨r, hr, hp⟩ => ⟨r.id, r, hr, rfl, hp⟩⟩

theorem Removed.consistent (h : Removed path x) : Consistent path x := by
  unfold Consistent
  rw [← World.exists_stores, h.2, h.1.clean]
  simp

theorem Committed.consistent (h : Committed p path i x) : Consistent path x := by
  unfold Consistent
  rw [← World.exists_stores]
  exact iff_of_true (iff_of_true (Option.isSome_iff_exists.1 h.file) ⟨i, h.stores⟩) h.clean

/-- The file of a request is deleted. -/
theorem deleteFile_leads {β : Type} {f : Unit → Py β} {Q : Except Exc β → World × Log → Prop}
    (hf : (f ()).Leads env p t fileToken temp path (Removed path) Q) :
    Py.Leads env p t fileToken temp path (Abandoned path)
      (Py.stmt (.deleteFile path) >>= f) Q := by
  refine Py.Leads.stmt undisturbed_abandoned (B := fun _ => Removed path)
    (fun x a y hx hs => ?_) (fun _ => hf) fun x e y hx hs => ?_
  · obtain ⟨-, ha, hfile⟩ := hs.deleteFile hx.wf
    exact ⟨hx.agrees ha, hfile⟩
  · cases (hs.deleteFile hx.wf).1

theorem importStoredFile_leads {file : StoredFile} (hpath : file.storedFilePath = path)
    (hlast : path.toList.getLast? ≠ some ' ') (contentType : Option String)
    (idempotencyKey : Option (Varchar 255)) :
    (importStoredFile settings file contentType idempotencyKey).Leads env p t fileToken temp path
      (Pending p path []) (Settled p path) := by
  subst hpath
  refine Py.Leads.stmt undisturbed_pending (B := fun _ => Pending p file.storedFilePath [])
    (fun x a y hx hs => ?_) (fun signature => ?_) fun x e y hx hs => ?_
  · obtain ⟨hy, hclean⟩ := hs.readSignature
    exact hx.agrees ⟨hy ▸ hx.wf, fun i => by rw [hy], hclean⟩ (by rw [hy]) (by rw [hy, hx.staged])
  · split
    · exact (deleteFile_leads (Prog.Meets.raise fun x h => h.1)).pre fun x h => h.abandoned
    · exact createImport_leads rfl hlast
  · obtain ⟨hy, hclean⟩ := hs.readSignature
    exact hx.abandoned.agrees ⟨hy ▸ hx.wf, fun i => by rw [hy], hclean⟩

/-- Nothing of the request is in the database. -/
structure Fresh (p : Nat) (path : String) (x : World × Log) : Prop where
  wf : x.1.db.Wf
  staged : x.1.db.importJobs.staged p = []
  noRow : ∀ i, ¬ x.1.Stores path i
  clean : x.2.Clean

theorem Fresh.agrees (h : Fresh p path x) (ha : Agrees path x y)
    (hs : y.1.db.importJobs.staged p = []) : Fresh p path y where
  wf := ha.wf
  staged := hs
  noRow i := mt (ha.stores i).1 (h.noRow i)
  clean := ha.clean.2 h.clean

theorem Fresh.abandoned (h : Fresh p path x) : Abandoned path x :=
  ⟨h.wf, iff_of_true h.clean h.noRow⟩

/-- A statement on the files draws at most a uuid. -/
theorem Uploads.onFiles {w w' : World} {s : Stmt} (hs : s.OnFiles) {r : Except Exc s.Reply}
    (h : Uploads env p t fileToken s w r w') :
    w'.db = w.db ∨ w'.db = { w.db with issued := w.db.issued + 1 } := by
  rcases h.perform (by rintro rfl; exact hs) (by rintro i rfl; exact hs) with hx | ⟨f, -, -, rfl⟩
  · cases s with
    | query | commit | rollback | close | dispatchImport | selfRetry => exact hs.elim
    | replaceFile | readSignature =>
      simp only [World.perform] at hx
      split at hx <;> cases hx <;> exact .inl rfl
    | uuid4 =>
      cases hx
      exact .inr rfl
    | spin => cases hx
    | clock | loadWorkbook | readRows | makeUploadDir | createFile | readUpload | writeFile
    | deleteFile =>
      cases hx
      exact .inl rfl
  · exact .inl rfl

theorem Fresh.onFiles {s : Stmt} (hs : s.OnFiles) {r : Except Exc s.Reply} (h : Fresh p path x)
    (hx : Logged env p t fileToken s x r y) : Fresh p path y := by
  have hclean := hx.clean (by rintro rfl; exact hs) (by rintro i rfl; exact hs)
  rcases hx.uploads.onFiles hs with hd | hd
  · exact h.agrees ⟨hd ▸ h.wf, World.stores_congr (by rw [hd]), hclean⟩ (hd ▸ h.staged)
  · exact h.agrees ⟨hd ▸ (Database.own_issue (s := p) h.wf).wf,
      World.stores_congr (by rw [hd]), hclean⟩ (hd ▸ h.staged)

theorem saveUpload_leads (env : Env) (storage : LocalFileStorage) (reader : Reader)
    (originalFileName : String) (p : Nat) (t : Task) (fileToken : Token) :
    let temp := storage.tempPath env fileToken
    let path := storage.finalPath env fileToken originalFileName
    (storage.saveUpload env reader originalFileName).Leads env p t fileToken temp path
      (fun x => Fresh p path x ∧ x.1.files.lookup path = none)
      fun o x => match o with
        | .ok stored => stored.storedFilePath = path ∧ Pending p path [] x
        | .error _ => Removed path x := by
  intro temp path x τ o y ⟨hx, hnone⟩ hrun
  have hsaved := storage.saveUpload_meets env reader originalFileName p t fileToken _ _ _ _ trivial
    (hrun.map (f := Prod.fst) (fun s v r v' h => h.uploads) fun v v' h => h.1.files)
  have hfree : Prog.Free (fun _ _ => True) (fun _ => Stmt.OnFiles) (fun _ _ => True) []
      (storage.saveUpload env reader originalFileName) :=
    (storage.saveUpload_free env reader originalFileName).weaken (fun _ _ h => h.2) fun _ _ h => h
  have hy : Fresh p path y := hrun.keeps
    (fun x y h ho => h.agrees (ho.agrees h.wf) (ho.1.session.jobs.staged.trans h.staged))
    (fun s x r y hs h hx => h.onFiles hs hx) hfree hx
  cases o with
  | ok stored =>
    obtain ⟨bytes, ⟨-, -, -, hfile, -⟩, rfl⟩ := hsaved
    exact ⟨rfl, hy.wf, by rw [hfile]; rfl, hy.staged, hy.noRow, hy.clean⟩
  | error e =>
    refine ⟨hy.abandoned, ?_⟩
    -- without the directory there is no file of this upload
    rcases hrun.of_bind with ⟨e', -, h⟩ | ⟨u, τ₁, τ₂, x₁, rfl, h, -⟩
    · obtain ⟨x₁, ho, hs, -⟩ := h.of_perform
      rw [hs.uploads.makeUploadDir]
      exact (ho.1.files path (.tail _ (.head _))).trans hnone
    · obtain ⟨x₂, -, -, rfl⟩ := h.of_perform
      exact (hsaved.2 (List.mem_append_left _ (.head _))).2

/-- The storage of the endpoint. -/
def Env.uploads (env : Env) (lower : String → String) : LocalFileStorage :=
  ⟨env.settings.uploadDir, env.settings.maxUploadSizeBytes.1, lower⟩

/-- The path of a stored upload ends in its suffix. -/
theorem finalPath_last {env : Env} {storage : LocalFileStorage} {fileToken : Token} {name : String}
    (hsuffix : storage.lower (pathSuffix (pathName name)) = ".xlsx") :
    (storage.finalPath env fileToken name).toList.getLast? = some 'x' := by
  have hlast : (".xlsx" : String).toList.getLast? = some 'x' := by decide
  unfold LocalFileStorage.finalPath joinPath
  rw [hsuffix]
  split_ifs <;> simp only [String.toList_append, List.getLast?_append, hlast, Option.some_or]

theorem uploadFile_leads (env : Env) (lower : String → String) (file : UploadFile)
    (safeFileName : String) (hsuffix : lower (pathSuffix (pathName safeFileName)) = ".xlsx")
    (idempotencyKey : Option (Varchar 255)) (p : Nat) (t : Task) (fileToken : Token) :
    let temp := (env.uploads lower).tempPath env fileToken
    let path := (env.uploads lower).finalPath env fileToken safeFileName
    (uploadFile env lower file safeFileName idempotencyKey).Leads env p t fileToken temp path
      (fun x => Fresh p path x ∧ x.1.files.lookup path = none) fun _ => Consistent path := by
  intro temp path
  refine Prog.Meets.attempted (saveUpload_leads env (env.uploads lower) file.reader safeFileName p t
    fileToken) fun τ o => ?_
  cases o with
  | error e => exact Prog.Meets.raise fun x h => Removed.consistent h
  | ok stored =>
    obtain ⟨originalFileName, storedFilePath, fileSizeBytes, sha256Hex⟩ := stored
    refine Prog.Meets.of_and fun hpath => ?_
    refine Prog.Meets.attempted (importStoredFile_leads hpath
      (by rw [finalPath_last hsuffix]; decide) file.contentType idempotencyKey) fun τ o => ?_
    subst hpath
    rcases o with e | ⟨result, _ | _⟩
    · exact deleteFile_leads (Prog.Meets.raise fun x h => Removed.consistent h)
    · exact deleteFile_leads (Prog.Meets.ret fun x h => Removed.consistent h)
    · refine Prog.Meets.ret fun x h => ?_
      obtain ⟨i, h⟩ := h
      exact h.consistent

end

theorem validateOriginalFileName_ok {lower : String → String} {name : Option String}
    {safeFileName : String} (h : validateOriginalFileName lower name = .ok safeFileName) :
    safeFileName = pathName (name.getD "") ∧ lower (pathSuffix safeFileName) = ".xlsx" := by
  cases name with
  | none => cases h
  | some name =>
    simp only [validateOriginalFileName] at h
    by_cases hbad : pathName name = "" ∨ lower (pathSuffix (pathName name)) ≠ ".xlsx"
    · rw [if_pos hbad] at h
      cases h
    · rw [if_neg hbad] at h
      cases h
      exact ⟨rfl, not_not.1 (not_or.1 hbad).2⟩

/-- The path under which the file of a request is stored. -/
def uploadPath (env : Env) (lower : String → String) (file : Option UploadFile)
    (fileToken : Token) : String :=
  (env.uploads lower).finalPath env fileToken (pathName ((file.bind (·.fileName)).getD ""))

/-- When the endpoint has returned or raised, there is a file of the request exactly if a committed
row names it, if and only if no statement raised once that row was committed. -/
theorem uploaded_file_iff_row (env : Env) (lower : String → String) (file : Option UploadFile)
    (idempotencyKey : Option String) (p : Nat) (t : Task) (fileToken : Token) (w w' : World)
    (τ : Exchanges) (o : Except Exc ImportCreatedResult) (log : Log) (hw : w.db.Wf)
    (hidle : w.db.Idle p) (hrow : ∀ i, ¬ w.Stores (uploadPath env lower file fileToken) i)
    (hfile : w.files.lookup (uploadPath env lower file fileToken) = none)
    (hrun : Prog.Ends (Logged env p t fileToken)
      (Others p ((env.uploads lower).tempPath env fileToken) (uploadPath env lower file fileToken))
      (uploadImport env lower file idempotencyKey) (w, []) τ o (w', log)) :
    ((∃ content, w'.files.lookup (uploadPath env lower file fileToken) = some content) ↔
      ∃ r ∈ w'.db.importJobs.rows, r.val.storedFilePath = uploadPath env lower file fileToken) ↔
    ∀ x ∈ log, ¬ RaisesCommitted x := by
  have hfresh : Fresh p (uploadPath env lower file fileToken) (w, []) :=
    ⟨hw, hidle.jobs.staged, hrow, by rintro x ⟨⟩⟩
  have hraise : ∀ e : Exc, Py.Leads env p t fileToken
      ((env.uploads lower).tempPath env fileToken) (uploadPath env lower file fileToken)
      (fun x => Fresh p (uploadPath env lower file fileToken) x ∧
        x.1.files.lookup (uploadPath env lower file fileToken) = none)
      (throw e : Py ImportCreatedResult)
      fun _ => Consistent (uploadPath env lower file fileToken) := fun e =>
    Prog.Meets.raise fun x h => Removed.consistent ⟨h.1.abandoned, h.2⟩
  suffices h : (uploadImport env lower file idempotencyKey).Leads env p t fileToken
      ((env.uploads lower).tempPath env fileToken) (uploadPath env lower file fileToken)
      (fun x => Fresh p (uploadPath env lower file fileToken) x ∧
        x.1.files.lookup (uploadPath env lower file fileToken) = none)
      fun _ => Consistent (uploadPath env lower file fileToken) from
    h _ _ _ _ ⟨hfresh, hfile⟩ hrun
  unfold uploadImport
  cases file with
  | none => exact hraise _
  | some file =>
    obtain ⟨fileName, reader, contentType⟩ := file
    dsimp only
    cases hname : validateOriginalFileName lower fileName with
    | error e => exact hraise e
    | ok safeFileName =>
      obtain ⟨rfl, hsuffix⟩ := validateOriginalFileName_ok hname
      cases validateIdempotencyKey idempotencyKey with
      | error e => exact hraise e
      | ok key =>
        exact uploadFile_leads env lower _ _ (by rwa [pathName_pathName]) key p t fileToken

/-! ### Two requests -/

/-- A statement of the request by a choice. -/
def logStep (env : Env) (p : Nat) (t : Task) (fileToken : Token) (ch : Choice) (s : Stmt)
    (x : World × Log) : Option (Except Exc s.Reply × World × Log) :=
  (uploadStep env p t fileToken ch s x.1).map fun y => (y.1, y.2, x.2 ++ [(s, ch)])

theorem logStep_logged {env : Env} {p : Nat} {t : Task} {fileToken : Token} {ch : Choice} {s : Stmt}
    {x y : World × Log} {r : Except Exc s.Reply} (h : logStep env p t fileToken ch s x = some (r, y)) :
    Logged env p t fileToken s x r y := by
  obtain ⟨⟨r', w⟩, hs, he⟩ := Option.map_eq_some_iff.1 h
  cases he
  exact ⟨ch, hs, rfl⟩

/-- A file that starts as a ZIP archive does. -/
def zipUpload : UploadFile :=
  ⟨some "a.xlsx", fun n => .ok (([[0x50, 0x4b, 0x03, 0x04]] : List (List UInt8)).getD n []), none⟩

/-- The request with this file, its statements going by these choices. -/
def replayUpload (choices : List Choice) :
    Option (Exchanges × Except Exc ImportCreatedResult × World × Log) :=
  Prog.replay (logStep oneRowEnv 0 .publishDueEvents 0) choices
    (uploadImport oneRowEnv id (some zipUpload) none) (.empty, [])

theorem others_refl (p : Nat) (temp path : String) (x : World × Log) : Others p temp path x x :=
  ⟨⟨fun _ _ => rfl, .refl p _, id, fun _ => .rfl⟩, rfl⟩

theorem ends_replayUpload {choices : List Choice} {τ : Exchanges}
    {o : Except Exc ImportCreatedResult} {w : World} {log : Log}
    (h : replayUpload choices = some (τ, o, w, log)) :
    Prog.Ends (Logged oneRowEnv 0 .publishDueEvents 0)
      (Others 0 ((oneRowEnv.uploads id).tempPath oneRowEnv 0)
        (uploadPath oneRowEnv id (some zipUpload) 0))
      (uploadImport oneRowEnv id (some zipUpload) none) (.empty, []) τ o (w, log) := by
  refine .of_replay ?_ (others_refl 0 _ _) h
  exact fun ch s x r y hs => logStep_logged hs

/-- The refresh of the created import raises: its file is deleted, and its row stays. -/
theorem failedRefresh_leaves_row : ∃ τ o w log,
    Prog.Ends (Logged oneRowEnv 0 .publishDueEvents 0)
      (Others 0 ((oneRowEnv.uploads id).tempPath oneRowEnv 0)
        (uploadPath oneRowEnv id (some zipUpload) 0))
      (uploadImport oneRowEnv id (some zipUpload) none) (.empty, []) τ o (w, log) ∧
    ¬ ((∃ content, w.files.lookup (uploadPath oneRowEnv id (some zipUpload) 0) = some content) ↔
      ∃ r ∈ w.db.importJobs.rows,
        r.val.storedFilePath = uploadPath oneRowEnv id (some zipUpload) 0) := by
  have h : (replayUpload (List.replicate 14 .run ++ [.fail .operationalError, .run, .run])).any
      (fun x => decide (x.2.2.1.files.lookup (uploadPath oneRowEnv id (some zipUpload) 0) = none ∧
        ∃ r ∈ x.2.2.1.db.importJobs.rows,
          r.val.storedFilePath = uploadPath oneRowEnv id (some zipUpload) 0)) = true := by
    decide +kernel
  obtain ⟨⟨τ, o, w, log⟩, hrun, h⟩ := (Option.any_eq_true _ _).1 h
  obtain ⟨hfile, hrow⟩ := of_decide_eq_true h
  refine ⟨τ, o, w, log, ends_replayUpload hrun, fun hiff => ?_⟩
  obtain ⟨content, hcontent⟩ := hiff.2 hrow
  rw [hfile] at hcontent
  cases hcontent

/-- Nothing raises. -/
theorem storedUpload_consistent : ∃ τ o w log,
    replayUpload (List.replicate 16 .run) = some (τ, o, w, log) ∧
    (((∃ content, w.files.lookup (uploadPath oneRowEnv id (some zipUpload) 0) = some content) ↔
      ∃ r ∈ w.db.importJobs.rows,
        r.val.storedFilePath = uploadPath oneRowEnv id (some zipUpload) 0) ↔
      ∀ x ∈ log, ¬ RaisesCommitted x) := by
  have h : (replayUpload (List.replicate 16 .run)).isSome = true := by decide +kernel
  obtain ⟨⟨τ, o, w, log⟩, hrun⟩ := Option.isSome_iff_exists.1 h
  exact ⟨τ, o, w, log, hrun, uploaded_file_iff_row oneRowEnv id (some zipUpload) none 0
    .publishDueEvents 0 .empty w τ o log Database.wf_empty (Database.idle_empty 0)
    (by rintro i ⟨r, hr, -⟩; cases hr) rfl (ends_replayUpload hrun)⟩

end ShipmentImport
