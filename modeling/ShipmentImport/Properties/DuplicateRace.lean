import ShipmentImport.Refinement.FreeRuns
import ShipmentImport.Runs

/-!
# The duplicate-race correction

The loop of `_persist_chunk_after_duplicate_race` against any replies of the database: it ends, and
what it commits accounts for every row of the chunk. Whether it can commit at all depends on what
the lookups after a conflict still find.
-/

namespace ShipmentImport

/-! ## Corrected results -/

/-- The error a valid row gets when its code is in the database. -/
def ValidatedShipmentRow.databaseError (importId : ImportId) (v : ValidatedShipmentRow) :
    ImportErrorRow :=
  { importId, rowNumber := v.rowNumber, field := "shipment_code"
    error := "Shipment code already exists in the database."
    rawData := v.rawData.toValue.jsonbSafe }

namespace ValidationChunkResult

/-- The counts and the shipments of a result are those of its valid rows. -/
structure Coherent (r : ValidationChunkResult) : Prop where
  success : r.successCount = r.validRows.length
  shipments : r.shipments = r.validRows.map (·.shipment)
  total : r.successCount + r.failedCount = r.totalRows

theorem shipments_classifyRow (importId : ImportId) (seen existing : List String) (p : PreparedRow)
    {st : ChunkState} (h : st.shipments = st.validRows.map (·.shipment)) :
    let st' := classifyRow importId seen existing st p
    st'.shipments = st'.validRows.map (·.shipment) ∧
      st'.shipments.length + st'.failedCount = st.shipments.length + st.failedCount + 1 := by
  unfold classifyRow
  dsimp only
  split
  · simp [h, Nat.add_right_comm]
  · simp [h, Nat.add_assoc]

theorem shipments_foldl (importId : ImportId) (seen existing : List String)
    (prepared : List PreparedRow) {st : ChunkState}
    (h : st.shipments = st.validRows.map (·.shipment)) :
    let st' := prepared.foldl (classifyRow importId seen existing) st
    st'.shipments = st'.validRows.map (·.shipment) ∧ st'.shipments.length + st'.failedCount =
      st.shipments.length + st.failedCount + prepared.length := by
  induction prepared generalizing st with
  | nil => exact ⟨h, rfl⟩
  | cons p prepared ih =>
    obtain ⟨hp, hcount⟩ := shipments_classifyRow importId seen existing p h
    obtain ⟨hrest, hcounts⟩ := ih hp
    refine ⟨hrest, hcounts.trans ?_⟩
    rw [hcount, List.length_cons]
    omega

/-- The results of `validate_chunk` are coherent, whatever its rows are. -/
theorem coherent_classifyChunk {importId : ImportId} {prepared : List PreparedRow}
    {tracker : DuplicateTracker} {existing : List String} :
    (classifyChunk importId prepared tracker existing).1.Coherent := by
  have hnone : ({} : ChunkState).shipments = ({} : ChunkState).validRows.map (·.shipment) := rfl
  have h := shipments_foldl importId tracker.seenShipmentCodes existing prepared hnone
  exact
    { success := (congrArg List.length h.1).trans (List.length_map _)
      shipments := h.1
      total := h.2.trans (Nat.zero_add _) }

/-- `r'` is `r` with the valid rows `rejected` turned into errors, each into one. -/
structure Corrects (importId : ImportId) (r r' : ValidationChunkResult)
    (rejected : List ValidatedShipmentRow) : Prop where
  coherent : r'.Coherent
  totalRows : r'.totalRows = r.totalRows
  kept : r'.validRows.Sublist r.validRows
  split : (r'.validRows ++ rejected).Perm r.validRows
  errors : r'.importErrors = r.importErrors ++ rejected.map (·.databaseError importId)

variable {importId : ImportId} {r r' : ValidationChunkResult} {rejected : List ValidatedShipmentRow}

theorem Coherent.corrects (h : r.Coherent) : Corrects importId r r [] where
  coherent := h
  totalRows := rfl
  kept := .refl _
  split := by rw [List.append_nil]
  errors := by rw [List.map_nil, List.append_nil]

/-- A further correction is a correction of the original. -/
theorem Corrects.reclassify (h : Corrects importId r r' rejected) (existing : List String) :
    ∃ rejected', Corrects importId r (reclassify importId r' existing) rejected' := by
  by_cases he : existing = []
  · rw [ShipmentImport.reclassify, if_pos he]
    exact ⟨rejected, h⟩
  · rw [ShipmentImport.reclassify, if_neg he]
    have hlen := length_filter_not r'.validRows fun v => v.shipment.shipmentCode ∈ existing
    have hle := List.length_filter_le (fun v => decide (v.shipment.shipmentCode ∉ existing))
      r'.validRows
    have hc := h.coherent
    refine ⟨rejected ++ r'.validRows.filter fun v => v.shipment.shipmentCode ∈ existing,
      ⟨rfl, rfl, ?_⟩, h.totalRows, List.filter_sublist.trans h.kept, ?_, ?_⟩
    · have := hc.total
      have := hc.success
      simp only
      omega
    · have hp := List.filter_append_perm (fun v => decide (v.shipment.shipmentCode ∈ existing))
        r'.validRows
      simp only [← decide_not] at hp
      refine .trans ?_ h.split
      rw [← List.append_assoc]
      refine .trans (List.Perm.append_right _ List.perm_append_comm) ?_
      rw [List.append_assoc]
      exact .trans List.perm_append_comm (.append_right _ (.trans List.perm_append_comm hp))
    · dsimp only
      rw [h.errors, List.append_assoc, List.map_append]
      congr 2
      exact List.flatMap_pure_eq_map _ _

/-- A lookup that found one of the codes leaves fewer valid rows. -/
theorem reclassify_length_lt {existing : List String} (hne : existing ≠ [])
    (hs : ∀ x ∈ existing, x ∈ (r.validRows.map fun v => v.shipment.shipmentCode).dedup) :
    (reclassify importId r existing).validRows.length < r.validRows.length := by
  obtain ⟨x, hx⟩ := List.exists_mem_of_ne_nil _ hne
  obtain ⟨v, hv, e⟩ := List.mem_map.1 (List.mem_dedup.1 (hs x hx))
  rw [ShipmentImport.reclassify, if_neg hne]
  refine List.length_filter_lt_length_iff_exists.2 ⟨v, hv, ?_⟩
  simp [e, hx]

end ValidationChunkResult

/-! ## What a run writes, and how often it starts over -/

/-- What the open transaction has written. -/
structure Writes where
  shipments : List Shipment := []
  importErrors : List ImportErrorRow := []
  counts : List (Nat × Nat × Nat) := []

/-- The end of a transaction forgets what it wrote. -/
def Writes.add (w : Writes) : Prog.Exchange Stmt Stmt.Reply Exc → Writes
  | ⟨.query (.insertShipment s), .ok _⟩ => { w with shipments := w.shipments ++ [s] }
  | ⟨.query (.insertImportError e), .ok _⟩ => { w with importErrors := w.importErrors ++ [e] }
  | ⟨.query (.updateCurrentProcessingImport _ _ (.recordChunkCounts t n f)), .ok true⟩ =>
    { w with counts := w.counts ++ [(t, n, f)] }
  | ⟨.commit, _⟩ | ⟨.rollback, _⟩ => {}
  | _ => w

def Exchanges.writes (τ : Exchanges) : Writes := τ.foldl Writes.add {}

/-- A pass of the loop starts with the ownership check. -/
def isPass : Prog.Exchange Stmt Stmt.Reply Exc → Bool
  | ⟨.query (.hasCurrentOwnership ..), _⟩ => true
  | _ => false

/-- How many passes the loop has started. -/
def Exchanges.passes (τ : Exchanges) : Nat := τ.countP isPass

/-- The writes of a chunk. -/
def ValidationChunkResult.writes (r : ValidationChunkResult) : Writes :=
  ⟨r.shipments, r.importErrors, [(r.totalRows, r.successCount, r.failedCount)]⟩

/-- The statements of `_persist_chunk`. -/
def Query.Persists : Query → Prop
  | insertShipment _ | insertImportError _ | checkImportExists _
  | updateCurrentProcessingImport .. => True
  | _ => False

/-- Nothing gets in the way of the transaction but conflicts of its inserts. -/
def Smooth : Prog.Exchange Stmt Stmt.Reply Exc → Prop
  | ⟨.query (.insertShipment _), r⟩ => r = .ok () ∨ r = .error (.raised .integrityError)
  | ⟨.query (.hasCurrentOwnership ..), r⟩ => r = .ok true
  | ⟨.query (.updateCurrentProcessingImport ..), r⟩ => r = .ok true
  | ⟨_, r⟩ => ∃ a, r = .ok a

/-- A lookup finds at least one of the codes. -/
def FindsSome : Prog.Exchange Stmt Stmt.Reply Exc → Prop
  | ⟨.query (.findExistingShipmentCodes _), r⟩ => r ≠ .ok []
  | _ => True

section
variable {env : Env} {B : Nat} {Φ : Writes → Prop}

/-- What holds of every statement: the loop ends before it spins, has made at most `B` passes, and
what it commits satisfies `Φ`. -/
def Bounded (B : Nat) (Φ : Writes → Prop) (τ : Exchanges) (s : Stmt) : Prop :=
  s ≠ .spin ∧ τ.passes ≤ B ∧ (s = .commit → Φ τ.writes)

/-- A part of `_persist_chunk`, which writes `w`; where the transaction is smooth, it only fails
with the exceptions `E`. -/
def PersistsWith (env : Env) (B : Nat) (Φ : Writes → Prop) (w : Writes → Writes) (E : Exc → Prop)
    {α : Type} (x : Py α) : Prop :=
  ∀ τ : Exchanges, τ.passes ≤ B → Py.Free env (Bounded B Φ) (fun τ' o => ∃ σ, τ' = τ ++ σ ∧
    (∀ x ∈ σ, ∃ q r, x = ⟨.query q, r⟩ ∧ q.Persists) ∧
    (∀ a, o = .ok a → τ'.writes = w τ.writes) ∧
    ((∀ x ∈ σ, Smooth x) → ∀ e, o = .error e → E e)) τ x

theorem passes_persists {τ σ : Exchanges} (h : ∀ x ∈ σ, ∃ q r, x = ⟨.query q, r⟩ ∧ q.Persists) :
    (τ ++ σ : Exchanges).passes = τ.passes := by
  have : σ.countP isPass = 0 := List.countP_eq_zero.2 fun x hx => by
    obtain ⟨q, r, rfl, hq⟩ := h x hx
    cases q with
    | hasCurrentOwnership => exact fun _ => hq
    | _ => exact Bool.false_ne_true
  rw [Exchanges.passes, Exchanges.passes, List.countP_append, this, Nat.add_zero]

namespace PersistsWith

variable {w v : Writes → Writes} {E : Exc → Prop} {α β : Type}

theorem ret (a : α) : PersistsWith env B Φ id E (pure a : Py α) := fun τ _ =>
  ⟨[], (List.append_nil τ).symm, fun _ h => (nomatch h), fun _ _ => rfl, fun _ _ h => nomatch h⟩

theorem seq {x : Py α} {f : α → Py β} (hx : PersistsWith env B Φ w E x)
    (hf : ∀ a, PersistsWith env B Φ v E (f a)) :
    PersistsWith env B Φ (v ∘ w) E (x >>= f) := by
  intro τ hτ
  refine Prog.Free.bind ((hx τ hτ).mono fun τ' o ⟨σ, e, hσ, hw, hE⟩ => ?_)
  subst e
  cases o with
  | error e =>
    refine ⟨σ, rfl, hσ, fun _ h => (nomatch h), fun hs e' he => ?_⟩
    cases he
    exact hE hs e rfl
  | ok a =>
    refine (hf a (τ ++ σ) ((passes_persists hσ).trans_le hτ)).mono
      fun τ'' o ⟨σ', e, hσ', hw', hE'⟩ => ?_
    subst e
    refine ⟨σ ++ σ', List.append_assoc .., fun x hx => ?_, fun b hb => ?_, fun hs => ?_⟩
    · exact (List.mem_append.1 hx).elim (hσ x) (hσ' x)
    · rw [hw' b hb, hw a rfl]
      rfl
    · exact hE' fun x hx => hs x (List.mem_append_right _ hx)

theorem query {q : Query} (hq : q.Persists)
    (hw : ∀ (τ : Exchanges) a, Exchanges.writes (τ ++ [⟨.query q, .ok a⟩]) = w τ.writes)
    (hE : ∀ e, Smooth ⟨.query q, .error e⟩ → E e) : PersistsWith env B Φ w E (Py.query q) := by
  intro τ hτ
  refine Prog.Free.perform ⟨fun h => (nomatch h), hτ, fun h => nomatch h⟩ fun r hr => ?_
  refine ⟨_, rfl, fun x hx => ?_, fun a ha => ?_, fun hs e he => ?_⟩
  · obtain rfl := List.mem_singleton.1 hx
    exact ⟨q, r, rfl, hq⟩
  · subst ha
    exact hw τ a
  · subst he
    exact hE e (hs _ (List.mem_singleton.2 rfl))

end PersistsWith

/-! ## The loop -/

section
variable {c : ClaimedImport} {r : ValidationChunkResult}

/-- A conflict of an insert, where there is something to insert. -/
def Conflict (shipments : List Shipment) (e : Exc) : Prop :=
  e = .raised .integrityError ∧ shipments ≠ []

theorem persistsWith_forEach {α : Type} {E : Exc → Prop} {f : α → Py Unit}
    {w : α → Writes → Writes} (hf : ∀ a, PersistsWith env B Φ (w a) E (f a)) (xs : List α) :
    PersistsWith env B Φ (fun v => xs.foldl (fun v a => w a v) v) E (forEach xs f) := by
  induction xs with
  | nil => exact .ret ()
  | cons x xs ih => exact .seq (hf x) fun _ => ih

theorem persistsWith_updateClaimedOrStop {E : Exc → Prop} {w : Writes → Writes}
    (values : ProgressValues)
    (hw : ∀ τ : Exchanges, Exchanges.writes (τ ++ [⟨.query (.updateCurrentProcessingImport
      c.importId c.processingToken values), .ok true⟩]) = w τ.writes) :
    PersistsWith env B Φ w E (updateClaimedOrStop c values) := by
  intro τ hτ
  refine Prog.Free.bind (Prog.Free.perform ⟨fun h => (nomatch h), hτ, fun h => nomatch h⟩
    fun r hr => ?_)
  have hq : ∀ x ∈ [(⟨.query (.updateCurrentProcessingImport c.importId c.processingToken values),
      r⟩ : Prog.Exchange Stmt Stmt.Reply Exc)], ∃ q r, x = ⟨.query q, r⟩ ∧ q.Persists := by
    intro x hx
    obtain rfl := List.mem_singleton.1 hx
    exact ⟨_, r, rfl, trivial⟩
  rcases r with e | (_ | _)
  · refine ⟨_, rfl, hq, fun _ h => (nomatch h), fun hs => ?_⟩
    have : Except.error e = Except.ok true := hs _ (List.mem_singleton.2 rfl)
    cases this
  · refine ⟨_, rfl, hq, fun _ h => (nomatch h), fun hs => ?_⟩
    have : Except.ok false = Except.ok (ε := Exc) true := hs _ (List.mem_singleton.2 rfl)
    cases this
  · exact ⟨_, rfl, hq, fun _ _ => hw τ, fun _ _ h => nomatch h⟩

theorem persistsWith_bulkInsertShipments (shipments : List Shipment) :
    PersistsWith env B Φ (fun v => { v with shipments := v.shipments ++ shipments })
      (Conflict shipments) (bulkInsertShipments shipments) := by
  cases shipments with
  | nil =>
    simp only [List.append_nil]
    exact .ret ()
  | cons s rest =>
    have hfold : ∀ (l : List Shipment) (v : Writes), l.foldl (fun v a =>
        { v with shipments := v.shipments ++ [a] }) v =
          { v with shipments := v.shipments ++ l } := by
      intro l
      induction l with
      | nil => intro v; simp
      | cons a l ih => intro v; rw [List.foldl_cons, ih, List.append_assoc]; rfl
    have hrows : PersistsWith env B Φ (fun v => (s :: rest).foldl (fun v a =>
        { v with shipments := v.shipments ++ [a] }) v) (Conflict (s :: rest))
        (forEach (s :: rest) fun s => Py.query (.insertShipment s)) :=
      persistsWith_forEach (f := fun s => Py.query (.insertShipment s))
        (w := fun a v => { v with shipments := v.shipments ++ [a] }) (fun a => .query trivial
        (fun τ r => by rw [Exchanges.writes, List.foldl_append]; rfl)
        fun e he => ⟨by simpa [Smooth] using he, List.cons_ne_nil _ _⟩) _
    have hcheck : PersistsWith env B Φ id (Conflict (s :: rest))
        (Py.query (.checkImportExists s.importId)) :=
      .query trivial (fun τ r => by rw [Exchanges.writes, List.foldl_append]; rfl)
        fun e he => by simp [Smooth] at he
    simp only [hfold] at hrows
    exact hrows.seq fun _ => hcheck

theorem persistsWith_bulkInsertImportErrors {E : Exc → Prop} (errors : List ImportErrorRow) :
    PersistsWith env B Φ (fun v => { v with importErrors := v.importErrors ++ errors }) E
      (bulkInsertImportErrors errors) := by
  cases errors with
  | nil =>
    simp only [List.append_nil]
    exact .ret ()
  | cons s rest =>
    have hfold : ∀ (l : List ImportErrorRow) (v : Writes), l.foldl (fun v a =>
        { v with importErrors := v.importErrors ++ [a] }) v =
          { v with importErrors := v.importErrors ++ l } := by
      intro l
      induction l with
      | nil => intro v; simp
      | cons a l ih => intro v; rw [List.foldl_cons, ih, List.append_assoc]; rfl
    have hrows : PersistsWith env B Φ (fun v => (s :: rest).foldl (fun v a =>
        { v with importErrors := v.importErrors ++ [a] }) v) E
        (forEach (s :: rest) fun s => Py.query (.insertImportError s)) :=
      persistsWith_forEach (f := fun s => Py.query (.insertImportError s))
        (w := fun a v => { v with importErrors := v.importErrors ++ [a] }) (fun a => .query trivial
        (fun τ r => by rw [Exchanges.writes, List.foldl_append]; rfl)
        fun e he => by simp [Smooth] at he) _
    have hcheck : PersistsWith env B Φ id E (Py.query (.checkImportExists s.importId)) :=
      .query trivial (fun τ r => by rw [Exchanges.writes, List.foldl_append]; rfl)
        fun e he => by simp [Smooth] at he
    simp only [hfold] at hrows
    exact hrows.seq fun _ => hcheck

/-- `_persist_chunk` writes the chunk, and where the transaction is smooth it only fails with a
conflict of an insert. -/
theorem persistsWith_persistChunk :
    PersistsWith env B Φ (fun v => ⟨v.shipments ++ r.shipments, v.importErrors ++ r.importErrors,
      v.counts ++ r.writes.counts⟩) (Conflict r.shipments) (persistChunk c r) := by
  refine .seq (persistsWith_bulkInsertShipments r.shipments) fun _ =>
    .seq (persistsWith_bulkInsertImportErrors r.importErrors) fun _ =>
      .seq (persistsWith_updateClaimedOrStop (w := fun v => { v with counts := v.counts ++
        [(r.totalRows, r.successCount, r.failedCount)] }) _ ?_) fun _ =>
        persistsWith_updateClaimedOrStop (w := id) _ ?_
  · intro τ
    rw [Exchanges.writes, List.foldl_append]
    rfl
  · intro τ
    rw [Exchanges.writes, List.foldl_append]
    rfl

/-- A lookup returns some of the codes it asked for. -/
theorem replies_findExistingShipmentCodes {codes existing : List String}
    (h : Replies env (.query (.findExistingShipmentCodes codes)) (.ok existing)) :
    ∀ x ∈ existing, x ∈ codes := by
  obtain ⟨p, t, ch, w, w', h⟩ := h
  cases ch with
  | run =>
    cases h
    exact fun x hx => (List.mem_filter.1 hx).1
  | fail f => simp [World.exec, Stmt.canFail] at h
  | lost f => cases h

/-- What the start of a pass leaves: the correction of the result, unless something failed. -/
def Corrected (current : ValidationChunkResult) (τ τ' : Exchanges) :
    Except Exc ValidationChunkResult → Prop
  | .error _ => ∃ σ, τ' = τ ++ σ ∧ τ'.passes ≤ τ.passes + 1 ∧ τ'.writes = τ.writes ∧
      ¬ ∀ x ∈ σ, Smooth x
  | .ok corrected => ∃ σ existing, τ' = τ ++ σ ∧ τ'.passes ≤ τ.passes + 1 ∧ τ'.writes = τ.writes ∧
      corrected = reclassify c.importId current existing ∧
      (existing ≠ [] → corrected.validRows.length < current.validRows.length) ∧
      (current.validRows ≠ [] → ((∀ x ∈ σ, FindsSome x) ↔ existing ≠ []))

theorem free_reclassify (current : ValidationChunkResult) {τ : Exchanges} (hτ : τ.passes < B) :
    Py.Free env (Bounded B Φ) (Corrected (c := c) current τ) τ (do
      requireCurrentOwnership c
      reclassifyDatabaseDuplicates c.importId current) := by
  refine Prog.Free.bind (Prog.Free.bind (Prog.Free.perform
    ⟨fun h => (nomatch h), hτ.le, fun h => nomatch h⟩ fun o _ => ?_))
  generalize hx : (⟨_, o⟩ : Prog.Exchange Stmt Stmt.Reply Exc) = x
  have hp : (τ ++ [x]).countP isPass = τ.passes + 1 := by
    subst hx
    rw [List.countP_append]
    rfl
  have hw : (τ ++ [x]).foldl Writes.add {} = τ.writes := by
    subst hx
    rw [List.foldl_append]
    rfl
  rcases o with e | (_ | _)
  · refine ⟨[x], rfl, hp.le, hw, fun hs => ?_⟩
    subst hx
    have : Except.error e = Except.ok true := hs _ (List.mem_singleton.2 rfl)
    cases this
  · refine ⟨[x], rfl, hp.le, hw, fun hs => ?_⟩
    subst hx
    have : Except.ok false = Except.ok (ε := Exc) true := hs _ (List.mem_singleton.2 rfl)
    cases this
  · refine Prog.Free.bind ?_
    unfold findExistingShipmentCodes
    split
    · next hnil =>
      refine ⟨[x], [], rfl, hp.le, hw, rfl, fun h => absurd rfl h, fun hne => ?_⟩
      rw [List.dedup_eq_nil, List.map_eq_nil_iff] at hnil
      exact absurd hnil hne
    · next hne =>
      refine Prog.Free.perform ⟨fun h => (nomatch h), hp.trans_le hτ, fun h => nomatch h⟩
        fun o ho => ?_
      generalize hy : (⟨_, o⟩ : Prog.Exchange Stmt Stmt.Reply Exc) = y
      have hp' : (τ ++ [x] ++ [y]).countP isPass = τ.passes + 1 := by
        subst hy
        rw [List.countP_append, hp]
        rfl
      have hw' : (τ ++ [x] ++ [y]).foldl Writes.add {} = τ.writes := by
        subst hy
        rw [List.foldl_append, hw]
        rfl
      cases o with
      | error e =>
        refine ⟨[x] ++ [y], List.append_assoc .., hp'.le, hw', fun hs => ?_⟩
        subst hy
        obtain ⟨a, ha⟩ := hs _ (List.mem_append_right _ (List.mem_singleton.2 rfl))
        cases ha
      | ok existing =>
        refine ⟨[x] ++ [y], existing, List.append_assoc .., hp'.le, hw', rfl, fun hex => ?_,
          fun _ => ?_⟩
        · exact ValidationChunkResult.reclassify_length_lt hex
            (replies_findExistingShipmentCodes ho)
        · subst hx hy
          simp [FindsSome]

/-- The writes of a correction of `r`, or none. -/
def Accounted (importId : ImportId) (r : ValidationChunkResult) (w : Writes) : Prop :=
  w = {} ∨ ∃ r' rejected, r.Corrects importId r' rejected ∧ w = r'.writes

/-- The exchanges end with the commit of a transaction that wrote the rows and the counts of `r'`, a
correction of `r`. -/
def CommitsCorrection (importId : ImportId) (r r' : ValidationChunkResult) (τ : Exchanges) : Prop :=
  ∃ rejected σ, r.Corrects importId r' rejected ∧ τ = σ ++ [⟨.commit, .ok ()⟩] ∧
    Exchanges.writes σ = r'.writes

/-- What the loop ends with: the commit of a correction, or an exception; where everything is
smooth, a correction exactly if every lookup found one of the codes, and else the conflict it was
called with. -/
structure Ends (c : ClaimedImport) (r current : ValidationChunkResult) (e : Exc) (B : Nat)
    (τ τ' : Exchanges) (o : Except Exc ValidationChunkResult) : Prop where
  passes : τ'.passes ≤ B
  commits : ∀ r', o = .ok r' → CommitsCorrection c.importId r r' τ'
  smooth : ∃ σ, τ' = τ ++ σ ∧ ((∀ x ∈ σ, Smooth x) → current.validRows ≠ [] →
    ((∃ r', o = .ok r') ↔ ∀ x ∈ σ, FindsSome x) ∧ ∀ e', o = .error e' → e' = e)

theorem findsSome_of_persists {σ : Exchanges}
    (h : ∀ x ∈ σ, ∃ q r, x = ⟨.query q, r⟩ ∧ q.Persists) : ∀ x ∈ σ, FindsSome x := by
  intro x hx
  obtain ⟨q, r, rfl, hq⟩ := h x hx
  cases q with
  | findExistingShipmentCodes => exact hq.elim
  | _ => trivial

/-- A run in which something failed ends with an exception. -/
theorem Ends.rough {current : ValidationChunkResult} {e e' : Exc} {τ σ : Exchanges}
    (hp : (τ ++ σ : Exchanges).passes ≤ B) (hs : ¬ ∀ x ∈ σ, Smooth x) :
    Ends c r current e B τ (τ ++ σ) (.error e') where
  passes := hp
  commits := fun _ h => nomatch h
  smooth := ⟨σ, rfl, fun h => absurd h hs⟩

theorem passes_concat {τ : Exchanges} {x : Prog.Exchange Stmt Stmt.Reply Exc}
    (hx : isPass x = false) : (τ ++ [x] : Exchanges).passes = τ.passes := by
  rw [Exchanges.passes, List.countP_append, List.countP_singleton, if_neg (by simp [hx])]
  rfl

theorem writes_end {τ : Exchanges} {x : Prog.Exchange Stmt Stmt.Reply Exc}
    (hx : x.1 = .commit ∨ x.1 = .rollback) : Exchanges.writes (τ ++ [x]) = {} := by
  rw [Exchanges.writes, List.foldl_append]
  obtain ⟨s, o⟩ := x
  rcases hx with rfl | rfl <;> rfl

theorem free_duplicateRace {e : Exc} {fuel : Nat} :
    ∀ {current : ValidationChunkResult} {rejected : List ValidatedShipmentRow} {τ : Exchanges},
      r.Corrects c.importId current rejected → current.validRows.length < fuel →
      τ.passes + current.validRows.length < B → τ.writes = {} →
      Py.Free env (Bounded B (Accounted c.importId r)) (Ends c r current e B τ) τ
        (persistChunkAfterDuplicateRace c e fuel current) := by
  induction fuel with
  | zero => exact fun _ h => absurd h (Nat.not_lt_zero _)
  | succ fuel ih =>
    intro current rejected τ hcur hfuel hB hw
    unfold persistChunkAfterDuplicateRace
    refine Prog.Free.bind (free_transaction ((free_reclassify (c := c) current (by omega)).mono
      fun τ₁ o ho => ?_))
    cases o with
    | error e' =>
      obtain ⟨σ, rfl, hp, hw₁, hns⟩ := ho
      have hp' : (τ ++ σ : Exchanges).passes ≤ B := by omega
      have hend : Ends c r current e B τ (τ ++ σ ++ [⟨.rollback, .ok ()⟩]) (.error e') := by
        rw [List.append_assoc]
        exact .rough (by rw [← List.append_assoc, passes_concat rfl]; exact hp')
          fun h => hns fun x hx => h x (List.mem_append_left _ hx)
      refine ⟨⟨by rintro ⟨⟩, hp', by rintro ⟨⟩⟩, ?_⟩
      dsimp only
      split
      · exact hend
      · exact hend
    | ok corrected =>
      obtain ⟨σ, existing, rfl, hp, hw₁, rfl, hlt, hfind⟩ := ho
      have hp' : (τ ++ σ : Exchanges).passes ≤ B := by omega
      obtain ⟨rejected', hcor⟩ := hcur.reclassify existing
      dsimp only
      split
      · next hsame =>
        -- the lookup found nothing, and the conflict is raised
        have hnil : existing = [] := by
          by_contra hne
          have := hlt hne
          rw [hcor.coherent.success, hcur.coherent.success] at hsame
          omega
        refine ⟨⟨by rintro ⟨⟩, hp', fun _ => .inl (hw₁.trans hw)⟩, ?_, fun f hf => ?_⟩
        · refine ⟨by rw [passes_concat rfl]; exact hp', by rintro _ ⟨⟩, _,
            List.append_assoc .., fun _ hvalid => ⟨⟨by rintro ⟨_, ⟨⟩⟩, fun h => ?_⟩, ?_⟩⟩
          · exact absurd hnil ((hfind hvalid).1 fun x hx => h x (List.mem_append_left _ hx))
          · rintro e' he'
            cases he'
            rfl
        · refine ⟨⟨by rintro ⟨⟩, by rw [passes_concat rfl]; exact hp', by rintro ⟨⟩⟩, ?_⟩
          dsimp only
          rw [if_neg fun h => hf (Exc.raised.inj h), List.append_assoc, List.append_assoc]
          refine .rough (by rw [← List.append_assoc, ← List.append_assoc, passes_concat rfl,
            passes_concat rfl]; exact hp') fun h => ?_
          obtain ⟨a, ha⟩ := h ⟨.commit, .error (.raised f)⟩ (by simp)
          cases ha
      · next hne =>
        have hex : existing ≠ [] := by
          rintro rfl
          exact hne (by rw [reclassify, if_pos rfl])
        refine Prog.Free.bind ((persistsWith_persistChunk (c := c) _ hp').mono
          fun τ₂ o h => ?_)
        obtain ⟨σ', e₂, hper, hw₂, hconf⟩ := h
        subst e₂
        have hp₂ : (τ ++ σ ++ σ' : Exchanges).passes ≤ B := by rwa [passes_persists hper]
        have hfinds : current.validRows ≠ [] → ∀ x ∈ σ ++ σ', FindsSome x := fun hvalid x hx =>
          (List.mem_append.1 hx).elim ((hfind hvalid).2 hex x) (findsSome_of_persists hper x)
        cases o with
        | error e' =>
          refine ⟨⟨by rintro ⟨⟩, hp₂, by rintro ⟨⟩⟩, ?_⟩
          dsimp only
          split
          · -- the next pass
            have hp₁ : (τ ++ σ ++ σ' ++ [⟨.rollback, .ok ()⟩] : Exchanges).passes ≤
                τ.passes + 1 := by
              rw [passes_concat rfl, passes_persists hper]
              exact hp
            have := hlt hex
            refine (ih hcor (by omega) (by omega) (writes_end (.inr rfl))).mono fun τ₃ o h => ?_
            refine ⟨h.passes, h.commits, ?_⟩
            obtain ⟨σ'', rfl, hsm⟩ := h.smooth
            refine ⟨σ ++ σ' ++ [⟨.rollback, .ok ()⟩] ++ σ'', by simp only [List.append_assoc],
              fun hs hvalid => ?_⟩
            have hne' : (reclassify c.importId current existing).validRows ≠ [] := by
              intro hnil
              refine (hconf (fun x hx => hs x (by simp [hx])) e' rfl).2 ?_
              rw [hcor.coherent.shipments, hnil, List.map_nil]
            obtain ⟨hiff, herr⟩ := hsm (fun x hx => hs x (List.mem_append_right _ hx)) hne'
            refine ⟨hiff.trans ⟨fun h x hx => ?_,
              fun h x hx => h x (List.mem_append_right _ hx)⟩, herr⟩
            rcases List.mem_append.1 hx with hx | hx
            · rcases List.mem_append.1 hx with hx | hx
              · exact hfinds hvalid x hx
              · obtain rfl := List.mem_singleton.1 hx
                trivial
            · exact h x hx
          · next hni =>
            rw [List.append_assoc, List.append_assoc]
            refine .rough (by rw [← List.append_assoc, ← List.append_assoc, passes_concat rfl]
                              exact hp₂) fun h => ?_
            exact hni (hconf (fun x hx => h x (by simp [hx])) e' rfl).1
        | ok u =>
          have hwr : (τ ++ σ ++ σ' : Exchanges).writes =
              (reclassify c.importId current existing).writes := by
            rw [hw₂ u rfl, hw₁, hw]
            rfl
          refine ⟨⟨by rintro ⟨⟩, hp₂, fun _ => .inr ⟨_, rejected', hcor, hwr⟩⟩, ?_,
            fun f hf => ?_⟩
          · refine ⟨by rw [passes_concat rfl]; exact hp₂, fun r' h => ?_,
              σ ++ σ' ++ [⟨.commit, .ok ()⟩], by simp only [List.append_assoc],
              fun _ hvalid => ⟨⟨fun _ x hx => ?_, fun _ => ⟨_, rfl⟩⟩,
                by rintro _ ⟨⟩⟩⟩
            · cases h
              exact ⟨rejected', _, hcor, rfl, hwr⟩
            · rcases List.mem_append.1 hx with hx | hx
              · exact hfinds hvalid x hx
              · obtain rfl := List.mem_singleton.1 hx
                trivial
          · refine ⟨⟨by rintro ⟨⟩, by rw [passes_concat rfl]; exact hp₂, by rintro ⟨⟩⟩, ?_⟩
            dsimp only
            rw [if_neg fun h => hf (Exc.raised.inj h)]
            simp only [List.append_assoc]
            refine .rough (by
              simp only [← List.append_assoc]
              rw [passes_concat rfl, passes_concat rfl]
              exact hp₂) fun h => ?_
            obtain ⟨a, ha⟩ := h ⟨.commit, .error (.raised f)⟩ (by simp)
            cases ha

/-- Against any replies the loop ends within one pass more than the result has valid rows, and what
it commits are corrections of the result; it returns the one it has committed last. -/
theorem duplicateRace_bounded (hr : r.Coherent) (e : Exc) {fuel : Nat}
    (hf : r.validRows.length < fuel) :
    Py.Free env (fun τ s => s ≠ .spin ∧ τ.passes ≤ r.validRows.length + 1 ∧
        (s = .commit → τ.writes = {} ∨
          ∃ r' rejected, r.Corrects c.importId r' rejected ∧ τ.writes = r'.writes))
      (fun τ o => τ.passes ≤ r.validRows.length + 1 ∧
        ∀ r', o = .ok r' → CommitsCorrection c.importId r r' τ)
      [] (persistChunkAfterDuplicateRace c e fuel r) :=
  (free_duplicateRace hr.corrects hf (by simp [Exchanges.passes]) rfl).mono
    fun _ _ h => ⟨h.passes, h.commits⟩

/-- Where nothing but conflicts of inserts gets in its way, the correction ends with the chunk
committed exactly when every lookup still finds one of the codes; otherwise it raises the
conflict. -/
theorem duplicateRace_commits_iff (hr : r.Coherent) (hv : r.validRows ≠ []) (e : Exc) :
    Py.Free env (fun _ s => s ≠ .spin) (fun τ o => (∀ x ∈ τ, Smooth x) →
        ((∃ r', o = .ok r' ∧ CommitsCorrection c.importId r r' τ) ↔ ∀ x ∈ τ, FindsSome x) ∧
          ∀ e', o = .error e' → e' = e)
      [] (persistChunkAfterDuplicateRace c e (duplicateRaceFuel r) r) := by
  refine (free_duplicateRace (B := r.validRows.length + 1) hr.corrects
    (Nat.lt_succ_self r.validRows.length) (by simp [Exchanges.passes]) rfl).weaken
      (fun _ _ h => h.1) fun τ o h hs => ?_
  obtain ⟨σ, rfl, hsm⟩ := h.smooth
  obtain ⟨hiff, herr⟩ := hsm hs hv
  refine ⟨⟨fun ⟨r', ho, _⟩ => hiff.1 ⟨r', ho⟩, fun hfind => ?_⟩, herr⟩
  obtain ⟨r', ho⟩ := hiff.2 hfind
  exact ⟨r', ho, h.commits r' ho⟩

end

end

/-! ## A result with one valid row -/

def oneRowResult : ValidationChunkResult :=
  let shipment : Shipment := ⟨0, "S-1", "Ann", "Rome", "Oslo", ⟨1, 0⟩, ⟨1, 0⟩, "PENDING", none⟩
  { totalRows := 1, processedRows := 1, successCount := 1, failedCount := 0, shipments := [shipment]
    importErrors := [], validRows := [⟨shipment, 2, []⟩] }

def oneRowClaim : ClaimedImport := ⟨0, "a", 2, 1, 3⟩

/-- Its correction makes at most two passes. -/
theorem oneRowResult_bounded :
    Py.Free oneRowEnv (fun τ s => s ≠ .spin ∧ τ.passes ≤ 2 ∧ (s = .commit → τ.writes = {} ∨
        ∃ r' rejected, oneRowResult.Corrects 0 r' rejected ∧ τ.writes = r'.writes))
      (fun τ o => τ.passes ≤ 2 ∧ ∀ r', o = .ok r' → CommitsCorrection 0 oneRowResult r' τ)
      [] (persistChunkAfterDuplicateRace oneRowClaim (.raised .integrityError) 2 oneRowResult) :=
  have hr : oneRowResult.Coherent := ⟨rfl, rfl, rfl⟩
  have hf : oneRowResult.validRows.length < 2 := by decide
  duplicateRace_bounded hr _ hf

theorem oneRowResult_commits_iff :
    Py.Free oneRowEnv (fun _ s => s ≠ .spin) (fun τ o => (∀ x ∈ τ, Smooth x) →
        ((∃ r', o = .ok r' ∧ CommitsCorrection 0 oneRowResult r' τ) ↔ ∀ x ∈ τ, FindsSome x) ∧
          ∀ e', o = .error e' → e' = .raised .integrityError)
      [] (persistChunkAfterDuplicateRace oneRowClaim (.raised .integrityError)
        (duplicateRaceFuel oneRowResult) oneRowResult) :=
  have hr : oneRowResult.Coherent := ⟨rfl, rfl, rfl⟩
  duplicateRace_commits_iff hr (List.cons_ne_nil _ _) _

/-! ## A race that fails an import -/

/-- Two imports of the code `S-1` are created and dispatched. -/
def twoDispatchedRun : List Event :=
  dispatchedRun ++ .spawn (.createImport (exampleRequest fingerprintB)) :: statements 2 7 ++
    .finish 2 :: .spawn .publishDueEvents :: statements 3 9 ++ [.finish 3]

/-- Worker 5 looks its code up before worker 4 commits it and inserts it after that; before worker 5
looks it up again, worker 4 gives its import back, and worker 6 has deleted the shipment. -/
def resetRaceRun : List Event :=
  twoDispatchedRun ++ .spawn (.processImport ⟨0, 0⟩ none) :: .spawn (.processImport ⟨3, 0⟩ none) ::
    statements 5 11 ++ statements 4 16 ++ statements 5 2 ++
      .step 4 (.fail .operationalError) :: statements 4 5 ++
        .finish 4 :: .spawn (.processImport ⟨0, 1⟩ none) :: statements 6 7 ++
          statements 5 6 ++ [.finish 5]

set_option maxRecDepth 100000 in
/-- Nothing failed for worker 5 but the insert of its code, and its import is FAILED. -/
theorem resetRace_fails : ∃ c,
    (service oneRowEnv).trace State.initial resetRaceRun = some c ∧
    (c.world.db.importJobs.rows.map fun r => (r.id, r.val.status, r.val.failureReason)) =
      [(0, .processing, none), (3, .failed, some "Import processing failed.")] :=
  exists_trace (by decide +kernel)

end ShipmentImport
