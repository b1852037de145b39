import ShipmentImport.Refinement.SerialCalls

/-!
# What a call of `create_import` does

`create_import` against the protocol of concurrent calls. The answer of a call is decided by the
lookup that finds its key, by the first lookup after which only its fingerprint counts, by its
commit, or by the lookup after a conflict. In between, the lock of its fingerprint and the index
entry of its key keep what it has found.
-/

namespace ShipmentImport

/-! ## The states of a call -/

abbrev CallAssertion := World × Calls → Prop

section
variable (env : Env) (p : Nat) (request : CreateRequest)

/-- Session `p` changed no job. -/
def Untouched : CallAssertion := fun x => x.1.db.importJobs.staged p = []

def Unserved : CallAssertion := fun x => ∀ s ∈ x.2.served, s.caller ≠ p

def Answered (answer : Answer) : CallAssertion := fun x => ⟨p, request, answer⟩ ∈ x.2.served

/-- The call holds the lock of its fingerprint. -/
def Locking : CallAssertion := fun x =>
  x.1.db.advisory (env.server.hashtext request.idempotencyFingerprint) = some p

/-- No import has the fingerprint. -/
def NewFingerprint : CallAssertion := fun x => knownFingerprint x.2.registry request = none

/-- The call is served once it inserts its import, unless the columns do not hold it. -/
def Undecided : CallAssertion := fun x =>
  if (request.importJob env.settings).fits then Unserved p x else Answered p request .rejected x

/-- The call holds the lock of its fingerprint, and only the fingerprint counts. -/
structure Decided (x : World × Calls) : Prop where
  lock : Locking env p request x
  decided : (∃ e ∈ x.2.registry, e.idempotencyFingerprint = request.idempotencyFingerprint ∧
    Answered p request (.duplicate e.importId) x) ∨
    NewFingerprint request x ∧ Undecided env p request x

/-- The lock is acquired. -/
def Acquired : CallAssertion := fun x =>
  if request.idempotencyKey = none then Decided env p request x
  else Locking env p request x ∧ Unserved p x

/-- The call is about to insert its import. -/
structure Ready (x : World × Calls) : Prop where
  untouched : Untouched p x
  lock : Locking env p request x
  newFingerprint : NewFingerprint request x
  undecided : Undecided env p request x

/-- Import `i` is inserted. -/
structure Inserted (i : ImportId) (x : World × Calls) : Prop where
  staged : ∃ r, x.1.db.importJobs.staged p = [.insert r] ∧
    registration r = request.registration i
  lock : Locking env p request x
  entry : ∀ key, request.idempotencyKey = some key → x.1.db.importJobs.entry key = some p
  newKey : knownKey x.2.registry request = none
  newFingerprint : NewFingerprint request x
  fits : (request.importJob env.settings).fits = true
  unserved : Unserved p x

/-- Import `i` is committed. -/
structure Created (i : ImportId) (x : World × Calls) : Prop where
  answered : Answered p request (.created i) x
  listed : ∃ e ∈ x.2.registry, e.importId = i

/-- Another import has the key. -/
structure Overtaken (x : World × Calls) : Prop where
  taken : ∃ key, request.idempotencyKey = some key ∧ ∃ e ∈ x.2.registry, e.idempotencyKey = some key
  unserved : Unserved p x

/-- The answer of the call is its outcome. -/
def Settles (o : Except Exc ImportCreateOutcome) : CallAssertion := fun x =>
  ∃ answer, Answered p request answer x ∧ answer.Reports o

/-- A statement of the call failed. -/
def CallFailed : CallAssertion := fun x => p ∈ x.2.failed

/-- What a call ends with. -/
def CallOutcome (o : Except Exc ImportCreateOutcome) : CallAssertion := fun x =>
  Settles p request o x ∨ CallFailed p x

end

section
variable {env : Env} {p : Nat} {request : CreateRequest} {i : ImportId} {x y : World × Calls}

/-! ### What the others leave alone -/

theorem CallsKept.unserved (hk : CallsKept env p x y) (h : Unserved p x) : Unserved p y :=
  fun s hs hp => h s (hk.own s hs hp) hp

theorem CallsKept.answered (hk : CallsKept env p x y) {answer : Answer}
    (h : Answered p request answer x) : Answered p request answer y := hk.served _ h

theorem CallsKept.locking (hk : CallsKept env p x y) (h : Locking env p request x) :
    Locking env p request y := (hk.keeps.advisory _).2 h

theorem CallsKept.untouched (hk : CallsKept env p x y) (h : Untouched p x) : Untouched p y :=
  hk.keeps.jobs.staged.trans h

theorem CallsKept.undecided (hk : CallsKept env p x y) (h : Undecided env p request x) :
    Undecided env p request y := by
  unfold Undecided at *
  split at h
  · next hf =>
    rw [if_pos hf]
    exact hk.unserved h
  · next hf =>
    rw [if_neg hf]
    exact hk.answered h

/-- While the lock of a fingerprint is held, no other call creates an import with it. -/
theorem CallsKept.newFingerprint (hk : CallsKept env p x y) (hl : Locking env p request x)
    (h : NewFingerprint request x) : NewFingerprint request y := by
  refine knownFingerprint_eq_none.2 fun e he hf => ?_
  rcases hk.new e he with hx | ⟨hno, -⟩
  · exact knownFingerprint_eq_none.1 h e hx hf
  · exact hno (by rw [hf]; exact hl)

/-- While the entry of a key is held, no other call creates an import with it. -/
theorem CallsKept.newKey (hk : CallsKept env p x y)
    (he : ∀ key, request.idempotencyKey = some key → x.1.db.importJobs.entry key = some p)
    (h : knownKey x.2.registry request = none) : knownKey y.2.registry request = none := by
  refine knownKey_eq_none.2 fun key hkey e hy hek => ?_
  rcases hk.new e hy with hx | ⟨-, hno⟩
  · exact knownKey_eq_none.1 h key hkey e hx hek
  · exact hno key hek (he key hkey)

theorem CallsKept.decided (hk : CallsKept env p x y) (h : Decided env p request x) :
    Decided env p request y where
  lock := hk.locking h.lock
  decided := h.decided.imp
    (fun ⟨e, he, hf, ha⟩ => ⟨e, hk.registered e he, hf, hk.answered ha⟩)
    fun ⟨hn, hu⟩ => ⟨hk.newFingerprint h.lock hn, hk.undecided hu⟩

theorem CallsKept.acquired (hk : CallsKept env p x y) (h : Acquired env p request x) :
    Acquired env p request y := by
  unfold Acquired at *
  split at h
  · next hn =>
    rw [if_pos hn]
    exact hk.decided h
  · next hn =>
    rw [if_neg hn]
    exact h.imp hk.locking hk.unserved

theorem CallsKept.ready (hk : CallsKept env p x y) (h : Ready env p request x) :
    Ready env p request y where
  untouched := hk.untouched h.untouched
  lock := hk.locking h.lock
  newFingerprint := hk.newFingerprint h.lock h.newFingerprint
  undecided := hk.undecided h.undecided

theorem CallsKept.inserted (hk : CallsKept env p x y) (h : Inserted env p request i x) :
    Inserted env p request i y where
  staged := have ⟨r, hr, he⟩ := h.staged; ⟨r, hk.keeps.jobs.staged.trans hr, he⟩
  lock := hk.locking h.lock
  entry key hkey := (hk.keeps.jobs.entry key).2 (h.entry key hkey)
  newKey := hk.newKey h.entry h.newKey
  newFingerprint := hk.newFingerprint h.lock h.newFingerprint
  fits := h.fits
  unserved := hk.unserved h.unserved

theorem CallsKept.created (hk : CallsKept env p x y) (h : Created p request i x) :
    Created p request i y where
  answered := hk.answered h.answered
  listed := have ⟨e, he, hi⟩ := h.listed; ⟨e, hk.registered e he, hi⟩

theorem CallsKept.overtaken (hk : CallsKept env p x y) (h : Overtaken p request x) :
    Overtaken p request y where
  taken := have ⟨key, hkey, e, he, hek⟩ := h.taken; ⟨key, hkey, e, hk.registered e he, hek⟩
  unserved := hk.unserved h.unserved

theorem CallsKept.settles (hk : CallsKept env p x y) {o : Except Exc ImportCreateOutcome}
    (h : Settles p request o x) : Settles p request o y :=
  have ⟨answer, ha, ho⟩ := h
  ⟨answer, hk.answered ha, ho⟩

theorem CallsKept.fails (hk : CallsKept env p x y) (h : CallFailed p x) : CallFailed p y :=
  hk.failed p h

end

/-! ## What the statements do -/

section
variable {env : Env} {p : Nat} {request : CreateRequest} {w w' : World} {g : Calls} {t : Task}
  {l : Deed Stmt Stmt.Reply Exc}

/-- The calls after one more answer. -/
def Calls.answer (g : Calls) (p : Nat) (request : CreateRequest) (answer : Answer) : Calls :=
  { g with served := g.served ++ [⟨p, request, answer⟩] }

theorem answered_answer {answer : Answer} :
    Answered p request answer (w, g.answer p request answer) :=
  List.mem_append_right _ List.mem_cons_self

/-- A statement that changes no committed row. -/
theorem calls_own {v : World} (hi : CallsInv env (w, g)) (ho : Database.Own p w.db v.db) :
    CallsInv env (v, g) ∧ CallsGuar env p t l (w, g) (v, g) :=
  ⟨⟨ho.wf, hi.serial, hi.callers, fun e => by rw [ho.rows.jobs]; exact hi.rows e⟩,
    ho.keeps, .inl rfl, .inl rfl, .inl rfl⟩

/-- The failure of a statement is added to what the statement did. -/
theorem calls_fail {g' : Calls} (hi : CallsInv env (w', g'))
    (hg : CallsGuar env p t l (w, g) (w', g')) (he : g'.failed = g.failed)
    (hl : Fails env p t l w w') :
    ∃ g'', CallsInv env (w', g'') ∧ CallsGuar env p t l (w, g) (w', g'') ∧ CallFailed p (w', g'') :=
  ⟨{ g' with failed := p :: g'.failed }, ⟨hi.wf, hi.serial, hi.callers, hi.rows⟩,
    ⟨hg.keeps, hg.served, hg.registered, .inr ⟨congrArg (p :: ·) he, hl⟩⟩, List.mem_cons_self⟩

/-- A number no import has. -/
theorem CallsInv.fresh (hi : CallsInv env (w, g)) :
    ∀ e ∈ g.registry, e.importId ≠ w.db.issued := by
  intro e he
  obtain ⟨r, hr, rfl⟩ := (hi.rows e).1 he
  exact Nat.ne_of_lt (hi.wf.jobs.below r hr)

/-- The callers of one more call. -/
theorem CallsInv.callers_append (hi : CallsInv env (w, g)) (hu : Unserved p (w, g))
    {answer : Answer} : ((g.answer p request answer).served.map (·.caller)).Nodup := by
  rw [Calls.answer, List.map_append, List.map_singleton, List.nodup_append]
  refine ⟨hi.callers, List.nodup_singleton _, fun a ha b hb e => ?_⟩
  obtain ⟨s, hs, rfl⟩ := List.mem_map.1 ha
  exact hu s hs (e.trans (List.mem_singleton.1 hb))

/-- A statement that decides the answer of its call. -/
theorem calls_answer {answer : Answer} (hi : CallsInv env (w, g))
    (ho : Database.Own p w.db w'.db) (hu : Unserved p (w, g))
    (hs : ∀ i, serve env.settings request i g.registry = (answer, g.registry)) :
    CallsInv env (w', g.answer p request answer) ∧
      CallsGuar env p (.createImport request) l (w, g) (w', g.answer p request answer) := by
  have hserial := hi.serial.call p request w.db.issued hi.fresh
  rw [hs] at hserial
  exact ⟨⟨ho.wf, hserial, hi.callers_append hu, fun e => by rw [ho.rows.jobs]; exact hi.rows e⟩,
    ho.keeps, .inr ⟨request, answer, rfl, rfl⟩, .inl rfl, .inl rfl⟩

/-- The statement after which only the fingerprint counts. -/
theorem calls_decide (hi : CallsInv env (w, g)) (ho : Database.Own p w.db w'.db)
    (hu : Unserved p (w, g)) (hk : knownKey g.registry request = none)
    (hl : ∀ g', Locking env p request (w', g')) :
    ∃ g', CallsInv env (w', g') ∧
      CallsGuar env p (.createImport request) l (w, g) (w', g') ∧
      Decided env p request (w', g') := by
  cases hf : knownFingerprint g.registry request with
  | some e =>
    have hs : ∀ i, serve env.settings request i g.registry =
        (.duplicate e.importId, g.registry) := by
      intro i
      simp only [serve, hk, hf]
    obtain ⟨hi', hg⟩ := calls_answer hi ho hu hs
    refine ⟨_, hi', hg, hl _, .inl ⟨e, List.mem_of_find?_eq_some hf, ?_, answered_answer⟩⟩
    simpa using List.find?_some hf
  | none =>
    by_cases hfits : (request.importJob env.settings).fits = true
    · obtain ⟨hi', hg⟩ := calls_own hi ho
      refine ⟨g, hi', hg, hl _, .inr ⟨hf, ?_⟩⟩
      rw [Undecided, if_pos hfits]
      exact hu
    · have hs : ∀ i, serve env.settings request i g.registry = (.rejected, g.registry) := by
        intro i
        simp only [serve, hk, hf, if_neg hfits]
      obtain ⟨hi', hg⟩ := calls_answer hi ho hu hs
      refine ⟨_, hi', hg, hl _, .inr ⟨hf, ?_⟩⟩
      rw [Undecided, if_neg hfits]
      exact answered_answer

/-- The committed rows of a session that changed no job. -/
theorem CallsInv.listed (hi : CallsInv env (w, g)) (hs : Untouched p (w, g))
    {r : Version ImportJob} :
    r ∈ (w.db.begin p w.time).importJobs.view p → registration r ∈ g.registry := by
  intro hr
  rw [Table.view_eq (w.db.begin p w.time).importJobs p hs] at hr
  exact (hi.rows _).2 ⟨r, hr, rfl⟩

theorem perform_query {q : Query} {r : Except Exc q.Reply}
    (h : w.perform env p t (.query q) = some (r, w')) :
    ∃ r', (w.db.begin p w.time).exec env.server w.time p q = some (r', w'.db) ∧
      r = r'.mapError Exc.raised := by
  obtain ⟨x, hx, he⟩ := Option.map_eq_some_iff.1 h
  cases he
  exact ⟨x.1, hx, rfl⟩

theorem own_query (hw : w.db.Wf) {q : Query} {r : Except Fault q.Reply}
    (hx : (w.db.begin p w.time).exec env.server w.time p q = some (r, w'.db)) :
    Database.Own p w.db w'.db :=
  have hb := Database.own_begin (s := p) hw w.time
  hb.trans (Database.exec_own hb.wf hx)

/-! ### The lookups -/

/-- The answer of a call that finds the import with its key. -/
def ImportSnapshot.answer (request : CreateRequest) (found : ImportSnapshot) : Answer :=
  if found.idempotencyFingerprint = request.idempotencyFingerprint then .existing found.importId
  else .conflict

/-- A lookup of the key finds the import that has it. -/
theorem lookupKey_calls {key : String} (hkey : request.idempotencyKey = some key)
    (hi : CallsInv env (w, g)) (hs : Untouched p (w, g))
    {r : Except Exc (Option ImportSnapshot)}
    (hx : w.perform env p t (.query (.getSnapshotByIdempotencyKey key)) = some (r, w')) :
    w'.db = w.db.begin p w.time ∧ ∃ o, r = .ok o ∧
      (o = none → knownKey g.registry request = none) ∧
      ∀ found, o = some found →
        ∀ i, serve env.settings request i g.registry = (found.answer request, g.registry) := by
  obtain ⟨r', hexec, rfl⟩ := perform_query hx
  obtain ⟨rfl, hdb⟩ := Prod.mk.inj (Option.some.inj hexec)
  refine ⟨hdb.symm, _, rfl, fun hnone => ?_, fun found hfound i => ?_⟩
  · refine knownKey_eq_none.2 fun key' hkey' e he hek => ?_
    obtain rfl : key = key' := Option.some.inj (hkey.symm.trans hkey')
    obtain ⟨r, hr, rfl⟩ := (hi.rows e).1 he
    have hr' : r ∈ (w.db.begin p w.time).importJobs.view p := by
      rwa [Table.view_eq (w.db.begin p w.time).importJobs p hs]
    have hno := List.find?_eq_none.1 (Option.map_eq_none_iff.1 hnone) r hr'
    exact hno (beq_iff_eq.2 hek)
  · obtain ⟨r, hr, rfl⟩ := Option.map_eq_some_iff.1 hfound
    have hrk : r.val.idempotencyKey = some key := by simpa using List.find?_some hr
    have hknown := hi.serial.knownKey_eq (hi.listed hs (List.mem_of_find?_eq_some hr)) hkey hrk
    simp only [serve, hknown, ImportSnapshot.answer]
    split <;> next hf => first
      | exact congrArg (·, g.registry) (if_pos hf).symm
      | exact congrArg (·, g.registry) (if_neg hf).symm

theorem length_oldest {α : Type} (server : Server) (time : α → Time) (n : Nat)
    (rows : List (Version α)) : (server.oldest time n rows).length = min n rows.length := by
  rw [Server.oldest, List.length_take, List.length_insertionSort]

/-- A lookup of the fingerprint finds the import that has it. -/
theorem lookupFingerprint_calls (hi : CallsInv env (w, g))
    (hs : Untouched p (w, g)) {r : Except Exc (Option ImportSnapshot)}
    (hx : w.perform env p t (.query (.getSnapshotByFingerprint request.idempotencyFingerprint)) =
      some (r, w')) :
    w'.db = w.db.begin p w.time ∧ ∃ o, r = .ok o ∧
      (o = none → knownFingerprint g.registry request = none) ∧
      ∀ found, o = some found → ∃ e, knownFingerprint g.registry request = some e ∧
        e.importId = found.importId := by
  obtain ⟨r', hexec, rfl⟩ := perform_query hx
  obtain ⟨rfl, hdb⟩ := Prod.mk.inj (Option.some.inj hexec)
  refine ⟨hdb.symm, _, rfl, fun hnone => ?_, fun found hfound => ?_⟩
  · refine knownFingerprint_eq_none.2 fun e he hef => ?_
    obtain ⟨r, hr, rfl⟩ := (hi.rows e).1 he
    have hr' : r ∈ (w.db.begin p w.time).importJobs.view p := by
      rwa [Table.view_eq (w.db.begin p w.time).importJobs p hs]
    have hempty := List.getLast?_eq_none_iff.1 (Option.map_eq_none_iff.1 hnone)
    have hlength := congrArg List.length hempty
    rw [length_oldest, Nat.min_self, List.length_nil] at hlength
    have hno := List.filter_eq_nil_iff.1 (List.length_eq_zero_iff.1 hlength) r hr'
    exact hno (beq_iff_eq.2 hef)
  · obtain ⟨r, hr, rfl⟩ := Option.map_eq_some_iff.1 hfound
    have hmem := Server.mem_oldest (List.mem_of_getLast? hr)
    obtain ⟨hr, hf⟩ := List.mem_filter.1 hmem
    exact ⟨_, hi.serial.knownFingerprint_eq (hi.listed hs hr) (beq_iff_eq.1 hf), rfl⟩

/-! ### The records -/

/-- The insert of an import: it is in the table with its entry in the index, or another import has
its key, or the columns do not hold it. -/
theorem insertImportJob_calls (hi : CallsInv env (w, g))
    (hs : Untouched p (w, g)) {r : Except Exc ImportId}
    (hx : w.perform env p t (.query (.insertImportJob (request.importJob env.settings))) =
      some (r, w')) :
    Database.Own p w.db w'.db ∧
      (((request.importJob env.settings).fits = false ∧
          r = .error (.raised .sqlalchemyError)) ∨
        (request.importJob env.settings).fits = true ∧
        ((r = .error (.raised .integrityError) ∧ ∃ key, request.idempotencyKey = some key ∧
            ∃ e ∈ g.registry, e.idempotencyKey = some key) ∨
          ∃ i v, r = .ok i ∧ w'.db.importJobs.staged p = [.insert v] ∧
            registration v = request.registration i ∧ knownKey g.registry request = none ∧
            w'.db.advisory = w.db.advisory ∧ ∀ key, request.idempotencyKey = some key →
              w'.db.importJobs.entry key = some p)) := by
  obtain ⟨r', hexec, rfl⟩ := perform_query hx
  have ho := own_query hi.wf hexec
  have hb := (Database.own_begin (s := p) hi.wf w.time).wf
  have hv := Table.view_eq (w.db.begin p w.time).importJobs p hs
  refine ⟨ho, ?_⟩
  generalize w'.db = d at hexec
  rcases Database.exec_insertImportJob hexec with ⟨f, hf, rfl, -⟩ | ⟨stored, hstored, hrest⟩
  · obtain rfl := ImportJob.store_error hf
    exact .inl ⟨by rw [ImportJob.fits, hf]; rfl, rfl⟩
  refine .inr ⟨ImportJob.fits_iff.2 ⟨stored, hstored⟩, ?_⟩
  obtain ⟨name, path, type, -, rfl⟩ := request.store_eq hstored
  rcases hrest with ⟨hT, rfl, -⟩ | ⟨T, hT, rfl, rfl⟩
  · obtain ⟨key, hkey, v, hv', hk⟩ := Table.insertUnique_error hT
    rw [hv] at hv'
    exact .inl ⟨rfl, key, hkey, _, (hi.rows _).2 ⟨v, hv', rfl⟩, hk⟩
  · obtain ⟨-, hst, hnew⟩ := Table.insertUnique_spec hb.jobs hT
    refine .inr ⟨_, _, rfl, hst.trans (congrArg (· ++ _) hs), rfl, ?_, rfl, fun key hkey =>
      Table.insertUnique_entry hkey hT⟩
    refine knownKey_eq_none.2 fun key hkey e he => ?_
    obtain ⟨v, hv', rfl⟩ := (hi.rows e).1 he
    exact hnew key hkey v (by rwa [hv])

/-- The outbox row of the import that the session inserted. -/
theorem insertDispatchIntent_calls (hi : CallsInv env (w, g)) {i : ImportId}
    {v : Version ImportJob} (hs : w.db.importJobs.staged p = [.insert v])
    (hv : registration v = request.registration i) {r : Except Exc Unit}
    (hx : w.perform env p t (.query (.insertDispatchIntent i none)) = some (r, w')) :
    (∃ a, r = .ok a) ∧ Database.Own p w.db w'.db ∧
      w'.db.importJobs.staged p = w.db.importJobs.staged p ∧
      w'.db.importJobs.entry = w.db.importJobs.entry ∧ w'.db.advisory = w.db.advisory := by
  obtain ⟨r', hexec, rfl⟩ := perform_query hx
  have ho := own_query hi.wf hexec
  have hb := (Database.own_begin (s := p) hi.wf w.time).wf
  generalize w'.db = d at hexec ho ⊢
  have hid : v.id = i := congrArg Registration.importId hv
  have hany : ((w.db.begin p w.time).importJobs.view p).any (·.id == i) = true := by
    have hview : (w.db.begin p w.time).importJobs.view p = w.db.importJobs.rows ++ [v] := by
      show (w.db.importJobs.staged p).foldl _ _ = _
      rw [hs]
      rfl
    simp [hview, hid]
  simp only [Database.exec, Database.referenceJob, hany, if_true] at hexec
  obtain ⟨T, hT, hexec⟩ := Option.map_eq_some_iff.1 hexec
  obtain ⟨-, hst, -⟩ := Table.keyShare_spec hb.jobs hT
  cases hexec
  exact ⟨⟨(), rfl⟩, ho, congrFun hst p, Table.keyShare_entry hT, rfl⟩

/-- The calls after the commit of import `i`. -/
def Calls.create (g : Calls) (p : Nat) (request : CreateRequest) (i : ImportId) : Calls :=
  { g.answer p request (.created i) with registry := g.registry ++ [request.registration i] }

/-- The commit of a new import. -/
theorem commit_calls {i : ImportId} (hi : CallsInv env (w, g))
    (h : Inserted env p request i (w, g)) :
    CallsInv env (w.commit p, g.create p request i) ∧
      CallsGuar env p (.createImport request) l (w, g) (w.commit p, g.create p request i) ∧
      Created p request i (w.commit p, g.create p request i) := by
  obtain ⟨v, hst, hv⟩ := h.staged
  have hview : w.db.importJobs.view p = w.db.importJobs.rows ++ [v] := by
    rw [Table.view, hst]
    rfl
  have hid : v.id = i := congrArg Registration.importId hv
  have hfresh : ∀ e ∈ g.registry, e.importId ≠ i := by
    intro e he
    obtain ⟨r, hr, rfl⟩ := (hi.rows e).1 he
    rw [← hid]
    exact hi.wf.jobs.inserted p v (by rw [hst]; exact List.mem_cons_self) r hr
  have hserve : serve env.settings request i g.registry =
      (.created i, g.registry ++ [request.registration i]) := by
    have hf : knownFingerprint g.registry request = none := h.newFingerprint
    simp only [serve, h.newKey, hf, if_pos h.fits]
  have hserial := hi.serial.call p request i hfresh
  rw [hserve] at hserial
  refine ⟨⟨Database.wf_commit hi.wf, hserial, hi.callers_append h.unserved, fun e => ?_⟩,
    ⟨fun u hu => Database.keeps_commit hi.wf hu, .inr ⟨request, _, rfl, rfl⟩,
      .inr ⟨_, rfl, h.lock, h.entry⟩, .inl rfl⟩,
    ⟨answered_answer (w := w), _, List.mem_append_right _ List.mem_cons_self, rfl⟩⟩
  show e ∈ g.registry ++ [request.registration i] ↔ ∃ r ∈ w.db.importJobs.view p, registration r = e
  have hrows : e ∈ g.registry ↔ ∃ r ∈ w.db.importJobs.rows, registration r = e := hi.rows e
  rw [hview, List.mem_append, List.mem_singleton, ← hv, hrows]
  simp only [List.mem_append, List.mem_singleton, or_and_right, exists_or, exists_eq_left,
    eq_comm (a := e)]

/-- The refresh finds the committed import. -/
theorem refresh_calls {i : ImportId} (hi : CallsInv env (w, g))
    (hs : Untouched p (w, g)) (hl : ∃ e ∈ g.registry, e.importId = i)
    {r : Except Exc (Option ImportCreatedResult)}
    (hx : w.perform env p t (.query (.refreshImportJob i)) = some (r, w')) :
    w'.db = w.db.begin p w.time ∧ ∃ result, r = .ok (some result) ∧ result.importId = i := by
  obtain ⟨r', hexec, rfl⟩ := perform_query hx
  obtain ⟨rfl, hdb⟩ := Prod.mk.inj (Option.some.inj hexec)
  refine ⟨hdb.symm, ?_⟩
  obtain ⟨e, he, rfl⟩ := hl
  obtain ⟨v, hv, rfl⟩ := (hi.rows e).1 he
  have hview := Table.view_eq (w.db.begin p w.time).importJobs p hs
  have hrows : (w.db.begin p w.time).importJobs.rows = w.db.importJobs.rows := rfl
  rw [hview, hrows]
  cases hf : w.db.importJobs.rows.find? (·.id == (registration v).importId) with
  | none => exact absurd (beq_self_eq_true v.id) (List.find?_eq_none.1 hf v hv)
  | some u =>
    have hu : u.id = (registration v).importId := by simpa using List.find?_some hf
    exact ⟨createdResult u, rfl, hu⟩

end

/-! ## The call -/

/-- A program of a call, against the protocol. -/
abbrev CallSpec (env : Env) (p : Nat) (request : CreateRequest) {α : Type} (A : CallAssertion)
    (x : Py α) (Q : Except Exc α → CallAssertion) : Prop :=
  (serialCalls env).Triple p (.createImport request) A x Q

section
variable {env : Env} {p : Nat} {request : CreateRequest}

/-- A statement other than a commit that fails does nothing. -/
theorem failing_calls {w w' : World} {g : Calls} {s : Stmt} (hs : s ≠ .commit) {ch : Choice}
    {r : Except Exc s.Reply} (hi : CallsInv env (w, g))
    (hx : World.exec env p (.createImport request) s ch w = some (r, w'))
    (hno : w.perform env p (.createImport request) s ≠ some (r, w')) :
    (∃ e, r = .error e) ∧ ∃ g', CallsInv env (w', g') ∧
      CallsGuar env p (.createImport request) (some ⟨s, r⟩) (w, g) (w', g') ∧
      CallFailed p (w', g') := by
  have hfails : Fails env p (.createImport request) (some ⟨s, r⟩) w w' := ⟨s, r, rfl, hno⟩
  have hdb : (∃ e, r = .error e) ∧ w'.db = w.db := by
    cases ch with
    | run => exact absurd hx hno
    | fail f =>
      simp only [World.exec] at hx
      split at hx <;> cases hx
      exact ⟨⟨_, rfl⟩, rfl⟩
    | lost f =>
      cases s with
      | commit => exact absurd rfl hs
      | dispatchImport importId =>
        cases hx
        exact ⟨⟨_, rfl⟩, rfl⟩
      | _ => cases hx
  have hown : Database.Own p w.db w'.db := by
    rw [hdb.2]
    exact Database.own_refl hi.wf
  obtain ⟨hi', hg⟩ := calls_own (l := some ⟨s, r⟩) hi hown
  exact ⟨hdb.1, calls_fail hi' hg rfl hfails⟩

/-- A statement other than a commit: what it ends with when it runs, or its failure. -/
theorem CallSpec.exec {s : Stmt} (hs : s ≠ .commit) {A : CallAssertion}
    {M : Except Exc s.Reply → CallAssertion}
    (hM : ∀ r x y, CallsKept env p x y → M r x → M r y)
    (h : ∀ w g r w', CallsInv env (w, g) → A (w, g) →
      w.perform env p (.createImport request) s = some (r, w') → ∃ g', CallsInv env (w', g') ∧
        CallsGuar env p (.createImport request) (some ⟨s, r⟩) (w, g) (w', g') ∧ M r (w', g')) :
    CallSpec env p request A (Py.stmt s) fun r x =>
      M r x ∨ (∃ e, r = .error e) ∧ CallFailed p x := by
  refine Protocol.Triple.perform (fun r x y ho hx => ?_) fun w g r w' hi ha ⟨ch, hx⟩ => ?_
  · exact hx.imp (hM r x y (other_calls ho)) (.imp_right (other_calls ho).fails)
  · by_cases hrun : w.perform env p (.createImport request) s = some (r, w')
    · obtain ⟨g', hi', hg, hm⟩ := h w g r w' hi ha hrun
      exact ⟨g', hi', hg, .inl hm⟩
    · obtain ⟨he, g', hi', hg, hf⟩ := failing_calls hs hi hx hrun
      exact ⟨g', hi', hg, .inr ⟨he, hf⟩⟩

/-- A statement that raises only when it fails, and what follows it. -/
theorem CallSpec.stmt {β : Type} {s : Stmt} (hs : s ≠ .commit) {f : s.Reply → Py β}
    {A : CallAssertion} {B : s.Reply → CallAssertion} {Q : Except Exc β → CallAssertion}
    (hB : ∀ a x y, CallsKept env p x y → B a x → B a y)
    (hfail : ∀ e x, CallFailed p x → Q (.error e) x)
    (h : ∀ w g r w', CallsInv env (w, g) → A (w, g) →
      w.perform env p (.createImport request) s = some (r, w') → ∃ a, r = .ok a ∧
        ∃ g', CallsInv env (w', g') ∧
          CallsGuar env p (.createImport request) (some ⟨s, r⟩) (w, g) (w', g') ∧ B a (w', g'))
    (hf : ∀ a, CallSpec env p request (B a) (f a) Q) :
    CallSpec env p request A (Py.stmt s >>= f) Q := by
  refine Protocol.Triple.bind
    (CallSpec.exec (M := fun r x => ∃ a, r = .ok a ∧ B a x) hs ?_ ?_) (fun a => ?_) ?_
  · rintro r x y hk ⟨a, hr, hb⟩
    exact ⟨a, hr, hB a x y hk hb⟩
  · intro w g r w' hi ha hx
    obtain ⟨a, rfl, g', hi', hg, hb⟩ := h w g r w' hi ha hx
    exact ⟨g', hi', hg, a, rfl, hb⟩
  · rintro y (⟨_, ⟨⟩, hb⟩ | ⟨⟨_, ⟨⟩⟩, -⟩)
    exact hf a y hb
  · rintro e y (⟨_, ⟨⟩, -⟩ | ⟨-, hy⟩)
    exact hfail e y hy

/-- What ends a transaction or a session. -/
theorem CallSpec.rollback {β : Type} {s : Stmt} (hs : s = .rollback ∨ s = .close)
    {f : s.Reply → Py β} {A : CallAssertion} {Q : Except Exc β → CallAssertion}
    (hA : ∀ x y, CallsKept env p x y → A x → A y)
    (hw : ∀ w w' g, A (w, g) → A (w', g))
    (hf : ∀ a, CallSpec env p request (fun x => Untouched p x ∧ A x) (f a) Q) :
    CallSpec env p request A (Py.stmt s >>= f) Q := by
  refine Protocol.Triple.bind (M := fun r x => ∃ a, r = .ok a ∧ Untouched p x ∧ A x) ?_
    (fun a => ?_) fun e y h => ?_
  · refine Protocol.Triple.perform (fun r x y ho ⟨a, hr, hu, ha⟩ => ?_)
      fun w g r w' hi ha ⟨ch, hx⟩ => ?_
    · exact ⟨a, hr, (other_calls ho).untouched hu, hA x y (other_calls ho) ha⟩
    · have hx' : (∃ a, r = .ok a) ∧ w.rollback p = w' := by
        rcases hs with rfl | rfl <;>
        · cases ch <;> cases hx
          exact ⟨⟨(), rfl⟩, rfl⟩
      obtain ⟨⟨a, rfl⟩, rfl⟩ := hx'
      have ho : Database.Own p w.db (w.rollback p).db := Database.own_rollback hi.wf
      obtain ⟨hi', hg⟩ := calls_own hi ho
      exact ⟨g, hi', hg, a, rfl, Table.rollback_staged _ _, hw _ _ _ ha⟩
  · rintro y ⟨_, ⟨⟩, hy⟩
    exact hf a y hy
  · obtain ⟨_, h, -⟩ := h
    cases h

/-- A lookup of a call that has failed, and what follows it. -/
theorem CallSpec.failed {β : Type} {q : Query} {f : q.Reply → Py β}
    {Q : Except Exc β → CallAssertion} (hfail : ∀ e x, CallFailed p x → Q (.error e) x)
    (hf : ∀ a, CallSpec env p request (CallFailed p) (f a) Q) :
    CallSpec env p request (CallFailed p) (Py.query q >>= f) Q := by
  refine Protocol.Triple.bind (CallSpec.exec (s := .query q) (M := fun _ => CallFailed p) (by simp)
    (fun _ _ _ hk => hk.fails) fun w g r w' hi ha hx => ?_) (fun a y hy => ?_) fun e y hy => ?_
  · obtain ⟨r', hexec, rfl⟩ := perform_query hx
    obtain ⟨hi', hg⟩ := calls_own hi (own_query hi.wf hexec)
    exact ⟨g, hi', hg, ha⟩
  · exact hf a y (hy.elim id And.right)
  · exact hfail e y (hy.elim id And.right)

theorem existingOutcome_calls (found : ImportSnapshot) :
    CallSpec env p request (Answered p request (found.answer request))
      (existingOutcome request found) (CallOutcome p request) := by
  unfold existingOutcome
  split
  · next hf =>
    refine Protocol.Triple.raise fun x h => .inl ⟨_, h, ?_⟩
    rw [ImportSnapshot.answer, if_neg hf]
    trivial
  · next hf =>
    refine Protocol.Triple.ret fun x h => .inl ⟨_, h, ?_⟩
    rw [ImportSnapshot.answer, if_pos (not_not.1 hf)]
    exact ⟨rfl, rfl⟩

theorem existingOutcome_failed (found : ImportSnapshot) :
    CallSpec env p request (CallFailed p) (existingOutcome request found)
      (CallOutcome p request) := by
  unfold existingOutcome
  split
  · exact Protocol.Triple.raise fun x h => .inr h
  · exact Protocol.Triple.ret fun x h => .inr h

/-- What the inserts and the commit end with. -/
def RecordOutcome (p : Nat) (request : CreateRequest) : Except Exc ImportId → CallAssertion
  | .ok i, x => Untouched p x ∧ Created p request i x
  | .error (.raised .integrityError), x => Overtaken p request x ∨ CallFailed p x
  | .error (.raised .sqlalchemyError), x => Answered p request .rejected x ∨ CallFailed p x
  | .error _, x => CallFailed p x

theorem recordOutcome_failed {e : Exc} {x : World × Calls} (h : CallFailed p x) :
    RecordOutcome p request (.error e) x := by
  cases e with
  | raised f =>
    cases f with
    | integrityError | sqlalchemyError => exact .inr h
    | _ => exact h
  | _ => exact h

/-- What the insert of the import ends with. -/
def InsertOutcome (env : Env) (p : Nat) (request : CreateRequest) :
    Except Exc ImportId → CallAssertion
  | .ok i => Inserted env p request i
  | .error e => RecordOutcome p request (.error e)

theorem CallsKept.recordOutcome {x y : World × Calls} (hk : CallsKept env p x y)
    {o : Except Exc ImportId} (h : RecordOutcome p request o x) : RecordOutcome p request o y := by
  rcases o with e | i
  · cases e with
    | raised f =>
      cases f with
      | integrityError => exact Or.imp hk.overtaken hk.fails h
      | sqlalchemyError => exact Or.imp hk.answered hk.fails h
      | _ => exact hk.fails h
    | _ => exact hk.fails h
  · exact ⟨hk.untouched h.1, hk.created h.2⟩

theorem CallsKept.insertOutcome {x y : World × Calls} (hk : CallsKept env p x y) :
    ∀ {o : Except Exc ImportId}, InsertOutcome env p request o x → InsertOutcome env p request o y
  | .ok _, h => hk.inserted h
  | .error _, h => hk.recordOutcome h

/-- The insert of an import whose fingerprint is new. -/
theorem insertImportJob_outcome {w w' : World} {g : Calls} {l : Deed Stmt Stmt.Reply Exc}
    (hi : CallsInv env (w, g)) (h : Ready env p request (w, g)) {r : Except Exc ImportId}
    (hx : w.perform env p (.createImport request)
      (.query (.insertImportJob (request.importJob env.settings))) = some (r, w')) :
    CallsInv env (w', g) ∧ CallsGuar env p (.createImport request) l (w, g) (w', g) ∧
      InsertOutcome env p request r (w', g) := by
  obtain ⟨ho, hins⟩ := insertImportJob_calls hi h.untouched hx
  obtain ⟨hi', hg⟩ := calls_own hi ho
  refine ⟨hi', hg, ?_⟩
  have hu := h.undecided
  unfold Undecided at hu
  rcases hins with ⟨hfits, rfl⟩ | ⟨hfits, hins⟩
  · rw [if_neg (by simp [hfits])] at hu
    exact .inl hu
  · rw [if_pos hfits] at hu
    rcases hins with ⟨rfl, htaken⟩ | ⟨i, v, rfl, hst, hv, hk, had, he⟩
    · exact .inl ⟨htaken, hu⟩
    · exact ⟨⟨v, hst, hv⟩, (congrFun had _).trans h.lock, he, hk, h.newFingerprint, hfits, hu⟩

/-- The commit of an import, which may be reported as failed. -/
theorem commitRecords_calls (i : ImportId) :
    CallSpec env p request (Inserted env p request i) (Py.stmt .commit) fun r x =>
      r = .ok () ∧ Untouched p x ∧ Created p request i x ∨
        (∃ e, r = .error e) ∧ CallFailed p x := by
  refine Protocol.Triple.perform (fun r x y ho hx => ?_) fun w g r w' hi ha ⟨ch, hx⟩ => ?_
  · have hk := other_calls ho
    exact hx.imp (fun ⟨hr, hu, hc⟩ => ⟨hr, hk.untouched hu, hk.created hc⟩) (.imp_right hk.fails)
  · cases ch with
    | run =>
      cases hx
      obtain ⟨hi', hg, hc⟩ := commit_calls (l := some ⟨.commit, .ok ()⟩) hi ha
      exact ⟨_, hi', hg, .inl ⟨rfl, Table.commit_staged _ _, hc⟩⟩
    | fail f =>
      simp only [World.exec] at hx
      split at hx <;> cases hx
      obtain ⟨hi', hg⟩ := calls_own (v := w) hi (Database.own_refl hi.wf)
      obtain ⟨g', hi', hg', hf⟩ := calls_fail hi' hg rfl
        ⟨.commit, .error (.raised f), rfl, by simp [World.perform]⟩
      exact ⟨g', hi', hg', .inr ⟨⟨_, rfl⟩, hf⟩⟩
    | lost f =>
      simp only [World.exec] at hx
      split at hx <;> cases hx
      obtain ⟨hi', hg, -⟩ := commit_calls hi ha
      obtain ⟨g', hi', hg', hf⟩ := calls_fail hi' hg rfl
        ⟨.commit, .error (.raised f), rfl, by simp [World.perform]⟩
      exact ⟨g', hi', hg', .inr ⟨⟨_, rfl⟩, hf⟩⟩

theorem createRecords_calls :
    CallSpec env p request (Ready env p request)
      (createRecords env.settings request) (RecordOutcome p request) := by
  refine Protocol.Triple.bind (M := InsertOutcome env p request) ?_ (fun i => ?_) fun e x h => h
  · refine (CallSpec.exec (s := .query (.insertImportJob (request.importJob env.settings)))
      (M := InsertOutcome env p request) (by simp) (fun _ _ _ hk h => hk.insertOutcome h)
      fun w g r w' hi ha hx => ⟨g, insertImportJob_outcome hi ha hx⟩).post ?_
    rintro r x (h | ⟨⟨e, rfl⟩, h⟩)
    · exact h
    · exact recordOutcome_failed h
  · refine CallSpec.stmt (s := .query (.insertDispatchIntent i none)) (by simp)
      (B := fun _ => Inserted env p request i) (fun _ x y hk h => hk.inserted h)
      (fun e x h => recordOutcome_failed h) (fun w g r w' hi ha hx => ?_) fun _ => ?_
    · obtain ⟨v, hst, hv⟩ := ha.staged
      obtain ⟨⟨a, rfl⟩, ho, hst', he, hl⟩ := insertDispatchIntent_calls hi hst hv hx
      obtain ⟨hi', hg⟩ := calls_own hi ho
      exact ⟨a, rfl, _, hi', hg, { ha with
        staged := ⟨v, hst'.trans hst, hv⟩
        lock := (congrFun hl _).trans ha.lock
        entry := fun key hkey => (congrFun he _).trans (ha.entry key hkey) }⟩
    · refine Protocol.Triple.bind (commitRecords_calls i) (fun _ => Protocol.Triple.ret ?_) ?_
      · rintro x (⟨-, h⟩ | ⟨⟨_, ⟨⟩⟩, -⟩)
        exact h
      · rintro e x (⟨⟨⟩, -⟩ | ⟨-, h⟩)
        exact recordOutcome_failed h

/-- The second lookup of the key, once the lock is released, and what follows it. -/
theorem recheckKey_calls {β : Type} {key : String} (hkey : request.idempotencyKey = some key)
    {f : Option ImportSnapshot → Py β} {Q : Except Exc β → CallAssertion}
    (hfail : ∀ e x, CallFailed p x → Q (.error e) x)
    (hf : ∀ found, CallSpec env p request (Answered p request (found.answer request))
      (f (some found)) Q) :
    CallSpec env p request (fun x => Untouched p x ∧ Overtaken p request x)
      (Py.query (.getSnapshotByIdempotencyKey key) >>= f) Q := by
  refine CallSpec.stmt (s := .query (.getSnapshotByIdempotencyKey key)) (by simp)
    (B := fun o x => ∃ found, o = some found ∧ Answered p request (found.answer request) x)
    (fun _ x y hk ⟨found, ho, h⟩ => ⟨found, ho, hk.answered h⟩) hfail
    (fun w g r w' hi ha hx => ?_) fun o => ?_
  · obtain ⟨hdb, o, rfl, hnone, hsome⟩ := lookupKey_calls hkey hi ha.1 hx
    cases o with
    | none =>
      obtain ⟨key', hkey', e, he, hek⟩ := ha.2.taken
      exact absurd hek (knownKey_eq_none.1 (hnone rfl) key' hkey' e he)
    | some found =>
      obtain ⟨hi', hg⟩ := calls_answer hi (hdb ▸ Database.own_begin hi.wf w.time)
        ha.2.unserved (hsome found rfl)
      exact ⟨_, rfl, _, hi', hg, found, rfl, answered_answer⟩
  · refine Protocol.Triple.of_exists fun found => Protocol.Triple.of_and fun ho => ?_
    cases ho
    exact hf found

/-- The lookup of a call whose insert failed as if another import had the key. -/
theorem recheckKey_failed {key : String} :
    CallSpec env p request (CallFailed p) (do
      match ← Py.query (.getSnapshotByIdempotencyKey key) with
      | none => throw .databaseWriteError
      | some existing => existingOutcome request existing) (CallOutcome p request) := by
  refine CallSpec.failed (fun e x h => .inr h) fun o => ?_
  cases o with
  | none => exact Protocol.Triple.raise fun x h => .inr h
  | some found => exact existingOutcome_failed found

/-- What follows when neither the key nor the fingerprint is known. -/
theorem persistImport_calls :
    CallSpec env p request (Ready env p request)
      (persistImport env.settings request) (CallOutcome p request) := by
  refine Protocol.Triple.attempted createRecords_calls fun o => ?_
  have hrejected : CallSpec env p request
      (fun x => Answered p request .rejected x ∨ CallFailed p x) (do
        Py.stmt .rollback
        throw .databaseWriteError) (CallOutcome p request) :=
    CallSpec.rollback (.inl rfl) (fun x y hk h => h.imp hk.answered hk.fails) (fun _ _ _ h => h)
      fun _ => Protocol.Triple.raise fun x h => h.2.imp_left fun ha => ⟨.rejected, ha, trivial⟩
  have hfailed : ∀ e, CallSpec env p request (CallFailed p) (throw e) (CallOutcome p request) :=
    fun e => Protocol.Triple.raise fun x h => .inr h
  rcases o with e | i
  · cases e with
    | raised f =>
      cases f with
      | integrityError =>
        refine CallSpec.rollback (A := fun x => Overtaken p request x ∨ CallFailed p x) (.inl rfl)
          (fun x y hk h => h.imp hk.overtaken hk.fails)
          (fun _ _ _ h => h.imp_left fun h => ⟨h.taken, h.unserved⟩) fun _ => ?_
        cases hkey : request.idempotencyKey with
        | none =>
          refine Protocol.Triple.raise fun x h => ?_
          rcases h.2 with h | h
          · obtain ⟨key, hkey', -⟩ := h.taken
            cases hkey.symm.trans hkey'
          · exact .inr h
        | some key =>
          refine Protocol.Triple.pre (Protocol.Triple.of_or
            (recheckKey_calls hkey (fun e x h => .inr h) existingOutcome_calls)
            recheckKey_failed) fun x h => ?_
          exact h.2.imp (fun ho => ⟨h.1, ho⟩) id
      | sqlalchemyError => exact hrejected
      | operationalError => exact hrejected.pre fun x h => .inr h
      | _ => exact hfailed _
    | _ => exact hfailed _
  · refine CallSpec.stmt (s := .query (.refreshImportJob i)) (by simp)
      (B := fun o x => ∃ result, o = some result ∧ Settles p request (.ok ⟨result, true⟩) x)
      (fun _ x y hk ⟨result, ho, h⟩ => ⟨result, ho, hk.settles h⟩) (fun e x h => .inr h)
      (fun w g r w' hi ha hx => ?_) fun o => ?_
    · obtain ⟨hdb, result, rfl, hid⟩ := refresh_calls hi ha.1 ha.2.listed hx
      obtain ⟨hi', hg⟩ := calls_own hi (hdb ▸ Database.own_begin hi.wf w.time)
      exact ⟨_, rfl, _, hi', hg, result, rfl, _, ha.2.answered, rfl, hid⟩
    · refine Protocol.Triple.of_exists fun result => Protocol.Triple.of_and fun ho => ?_
      cases ho
      exact Protocol.Triple.ret fun x h => .inl h

/-- What the first lookup of the key ends with, when it runs. -/
def LookupOutcome (env : Env) (p : Nat) (request : CreateRequest)
    (r : Except Exc (Option ImportSnapshot)) : CallAssertion := fun x =>
  ∃ o, r = .ok o ∧ (o = none → Untouched p x ∧ Decided env p request x) ∧
    ∀ found, o = some found → Answered p request (found.answer request) x

/-- The first lookup of the key. -/
theorem lookupIdempotencyKey_calls :
    CallSpec env p request (fun x => Untouched p x ∧ Acquired env p request x)
      (lookupIdempotencyKey request.idempotencyKey) fun r x =>
        LookupOutcome env p request r x ∨ (∃ e, r = .error e) ∧ CallFailed p x := by
  unfold Acquired
  cases hkey : request.idempotencyKey with
  | none =>
    refine Protocol.Triple.ret fun x h => .inl ⟨none, rfl, fun _ => ?_, by simp⟩
    rwa [if_pos rfl] at h
  | some key =>
    refine CallSpec.exec (s := .query (.getSnapshotByIdempotencyKey key)) (by simp) ?_
      fun w g r w' hi ⟨hs, ha⟩ hx => ?_
    · rintro r x y hk ⟨o, hr, hnone, hsome⟩
      exact ⟨o, hr, fun h => (hnone h).imp hk.untouched hk.decided,
        fun found h => hk.answered (hsome found h)⟩
    · rw [if_neg (by simp)] at ha
      obtain ⟨hl, hu⟩ := ha
      obtain ⟨hdb, o, rfl, hnone, hsome⟩ := lookupKey_calls hkey hi hs hx
      have ho : Database.Own p w.db w'.db := hdb ▸ Database.own_begin hi.wf w.time
      cases o with
      | none =>
        have hl' : ∀ g', Locking env p request (w', g') := by
          intro g'
          show w'.db.advisory _ = _
          rw [hdb]
          exact hl
        obtain ⟨g', hi', hg, hd⟩ := calls_decide hi ho hu (hnone rfl) hl'
        refine ⟨_, hi', hg, none, rfl, fun _ => ⟨?_, hd⟩, by simp⟩
        show w'.db.importJobs.staged p = []
        rw [hdb]
        exact hs
      | some found =>
        obtain ⟨hi', hg⟩ := calls_answer hi ho hu (hsome found rfl)
        refine ⟨_, hi', hg, some found, rfl, by simp, ?_⟩
        rintro _ ⟨⟩
        exact answered_answer

/-- The lookup of the fingerprint, and what follows it. -/
theorem lookupFingerprint_decides {β : Type} {f : Option ImportSnapshot → Py β}
    {Q : Except Exc β → CallAssertion} (hfail : ∀ e x, CallFailed p x → Q (.error e) x)
    (hfound : ∀ found : ImportSnapshot, CallSpec env p request
      (Answered p request (.duplicate found.importId)) (f (some found)) Q)
    (hnew : CallSpec env p request (Ready env p request) (f none) Q) :
    CallSpec env p request (fun x => Untouched p x ∧ Decided env p request x)
      (Py.query (.getSnapshotByFingerprint request.idempotencyFingerprint) >>= f) Q := by
  refine CallSpec.stmt (s := .query (.getSnapshotByFingerprint request.idempotencyFingerprint))
    (by simp)
    (B := fun o x =>
      (∃ found, o = some found ∧ Answered p request (.duplicate found.importId) x) ∨
      o = none ∧ Ready env p request x)
    (fun _ x y hk => .imp (fun ⟨found, ho, h⟩ => ⟨found, ho, hk.answered h⟩) (.imp_right hk.ready))
    hfail (fun w g r w' hi ⟨hs, hd⟩ hx => ?_) fun o => ?_
  · obtain ⟨hdb, o, rfl, hnone, hsome⟩ := lookupFingerprint_calls hi hs hx
    obtain ⟨hi', hg⟩ := calls_own (v := w') hi (hdb ▸ Database.own_begin hi.wf w.time)
    refine ⟨o, rfl, _, hi', hg, ?_⟩
    cases o with
    | some found =>
      obtain ⟨e, he, hid⟩ := hsome found rfl
      rcases hd.decided with ⟨e', he', hf, ha⟩ | ⟨hn, -⟩
      · obtain rfl := Option.some.inj (he.symm.trans (hi.serial.knownFingerprint_eq he' hf))
        exact .inl ⟨found, rfl, hid ▸ ha⟩
      · cases he.symm.trans hn
    | none =>
      have hn := hnone rfl
      rcases hd.decided with ⟨e', he', hf, -⟩ | ⟨-, hu⟩
      · exact absurd hf (knownFingerprint_eq_none.1 hn e' he')
      · refine .inr ⟨rfl, ?_, ?_, hn, hu⟩
        · show w'.db.importJobs.staged p = []
          rw [hdb]
          exact hs
        · show w'.db.advisory _ = _
          rw [hdb]
          exact hd.lock
  · refine Protocol.Triple.of_or (Protocol.Triple.of_exists fun found =>
      Protocol.Triple.of_and fun ho => ?_) (Protocol.Triple.of_and fun ho => ?_)
    · cases ho
      exact hfound found
    · cases ho
      exact hnew

/-- The lock of the fingerprint. -/
theorem acquire_calls {w w' : World} {g : Calls} {l : Deed Stmt Stmt.Reply Exc}
    (hi : CallsInv env (w, g)) (hs : Untouched p (w, g)) (hu : Unserved p (w, g))
    {r : Except Exc Unit}
    (hx : w.perform env p (.createImport request)
      (.query (.acquireFingerprintLock request.idempotencyFingerprint)) = some (r, w')) :
    ∃ a, r = .ok a ∧ ∃ g', CallsInv env (w', g') ∧
      CallsGuar env p (.createImport request) l (w, g) (w', g') ∧
      Untouched p (w', g') ∧ Acquired env p request (w', g') := by
  obtain ⟨r', hexec, rfl⟩ := perform_query hx
  have ho := own_query hi.wf hexec
  have hacquired : r' = .ok () ∧ w'.db.importJobs = w.db.importJobs ∧
      w'.db.advisory (env.server.hashtext request.idempotencyFingerprint) = some p := by
    generalize w'.db = d at hexec
    simp only [Database.exec] at hexec
    split at hexec <;> cases hexec
    exact ⟨rfl, rfl, Function.update_self _ _ _⟩
  obtain ⟨rfl, hjobs, hl⟩ := hacquired
  have hs' : w'.db.importJobs.staged p = [] := by
    rw [hjobs]
    exact hs
  refine ⟨(), rfl, ?_⟩
  unfold Acquired
  cases hkey : request.idempotencyKey with
  | none =>
    obtain ⟨g', hi', hg, hd⟩ := calls_decide hi ho hu
      (knownKey_eq_none.2 fun key hkey' => by cases hkey.symm.trans hkey') fun _ => hl
    refine ⟨_, hi', hg, hs', ?_⟩
    rw [if_pos rfl]
    exact hd
  | some key =>
    obtain ⟨hi', hg⟩ := calls_own hi ho
    refine ⟨_, hi', hg, hs', ?_⟩
    rw [if_neg (by simp)]
    exact ⟨hl, hu⟩

/-- The end of the session keeps what the call ends with. -/
theorem withSession_calls {body : Py ImportCreateOutcome} {A : CallAssertion}
    (hbody : CallSpec env p request A body (CallOutcome p request)) :
    CallSpec env p request A (withSession body) (CallOutcome p request) := by
  refine Protocol.Triple.attempted hbody fun o => ?_
  cases o with
  | ok outcome =>
    exact CallSpec.rollback (.inr rfl) (fun x y hk h => h.imp hk.settles hk.fails)
      (fun _ _ _ h => h) fun _ => Protocol.Triple.ret fun x h => h.2
  | error e =>
    exact CallSpec.rollback (.inr rfl) (fun x y hk h => h.imp hk.settles hk.fails)
      (fun _ _ _ h => h) fun _ => Protocol.Triple.raise fun x h => h.2

/-- `create_import` is served, and its outcome is the answer, unless a statement of it fails. -/
theorem createImport_calls :
    CallSpec env p request (fun x => Untouched p x ∧ Unserved p x)
      (createImport env.settings request) (CallOutcome p request) := by
  refine withSession_calls (CallSpec.stmt
    (s := .query (.acquireFingerprintLock request.idempotencyFingerprint)) (by simp)
    (B := fun _ x => Untouched p x ∧ Acquired env p request x)
    (fun _ x y hk h => h.imp hk.untouched hk.acquired) (fun e x h => .inr h)
    (fun w g r w' hi ⟨hs, hu⟩ hx => acquire_calls hi hs hu hx) fun _ => ?_)
  refine Protocol.Triple.bind lookupIdempotencyKey_calls (fun found => ?_) fun e x h => ?_
  · cases found with
    | some existing =>
      refine (existingOutcome_calls existing).pre ?_
      rintro x (⟨_, ⟨⟩, -, h⟩ | ⟨⟨_, ⟨⟩⟩, -⟩)
      exact h existing rfl
    | none =>
      refine Protocol.Triple.pre (lookupFingerprint_decides (fun e x h => .inr h)
        (fun found => Protocol.Triple.raise fun x h => .inl ⟨_, h, rfl⟩) persistImport_calls) ?_
      rintro x (⟨_, ⟨⟩, h, -⟩ | ⟨⟨_, ⟨⟩⟩, -⟩)
      exact h rfl
  · rcases h with ⟨_, ⟨⟩, -⟩ | ⟨-, h⟩
    exact .inr h

end

end ShipmentImport
