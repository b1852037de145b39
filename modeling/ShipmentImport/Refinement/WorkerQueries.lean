import ShipmentImport.Refinement.Ownership

/-!
# The queries of a worker

One rule for each repository operation of a worker: what it stages, and what its reply says.
-/

namespace ShipmentImport

/-- Rows with which session `p` stores shipments and errors. -/
def Stores (p : Nat) (s : Shipment) (v : Version Shipment) : Prop :=
  s.store = .ok v.val ∧ v.writer = p

def Records (p : Nat) (e : ImportErrorRow) (v : Version ImportErrorRow) : Prop :=
  v.val = { e with rawData := e.rawData.jsonbSafe } ∧ v.writer = p

/-- Insertions of the rows of `shipments` and `errors`. -/
def Inserting (p : Nat) (shipments : List Shipment) (errors : List ImportErrorRow)
    (S : List (Change Shipment)) (E : List (Change ImportErrorRow)) : Prop :=
  ∃ S' E', List.Forall₂ (Stores p) shipments S' ∧ List.Forall₂ (Records p) errors E' ∧
    S = S'.map .insert ∧ E = E'.map .insert

theorem inserting_nil (p : Nat) : Inserting p [] [] [] [] := ⟨[], [], .nil, .nil, rfl, rfl⟩

theorem Inserting.shipment {p : Nat} {shipments : List Shipment} {errors : List ImportErrorRow}
    {S : List (Change Shipment)} {E : List (Change ImportErrorRow)}
    (h : Inserting p shipments errors S E) {s : Shipment} {v : Version Shipment}
    (hv : Stores p s v) : Inserting p (shipments ++ [s]) errors (S ++ [.insert v]) E := by
  obtain ⟨S', E', h1, h2, rfl, rfl⟩ := h
  exact ⟨S' ++ [v], E', List.rel_append h1 (.cons hv .nil), h2, by simp, rfl⟩

theorem Inserting.importError {p : Nat} {shipments : List Shipment}
    {errors : List ImportErrorRow} {S : List (Change Shipment)}
    {E : List (Change ImportErrorRow)} (h : Inserting p shipments errors S E) {e : ImportErrorRow}
    {v : Version ImportErrorRow} (hv : Records p e v) :
    Inserting p shipments (errors ++ [e]) S (E ++ [.insert v]) := by
  obtain ⟨S', E', h1, h2, rfl, rfl⟩ := h
  exact ⟨S', E' ++ [v], h1, List.rel_append h2 (.cons hv .nil), rfl, by simp⟩

/-- Deletions of rows. -/
def Deleting (shipments : List (Version Shipment)) (errors : List (Version ImportErrorRow))
    (S : List (Change Shipment)) (E : List (Change ImportErrorRow)) : Prop :=
  S = (shipments.map fun v => .delete v.id) ∧ E = errors.map fun v => .delete v.id

/-- Session `p`, whose transaction began at `now`, wrote the job of import `i`, moving it by `P
now`, and staged `R` of the other tables. -/
def Wrote (p : Nat) (i : ImportId) (P : Time → Version ImportJob → Version ImportJob → Prop)
    (R : List (Change Shipment) → List (Change ImportErrorRow) → Prop) (d : Database) : Prop :=
  ∃ now r cur, d.began p = some now ∧ r.id = i ∧ P now r cur ∧ Writing p r cur d ∧ StagedRows p R d

theorem local_wrote {p : Nat} {i : ImportId}
    {P : Time → Version ImportJob → Version ImportJob → Prop}
    {R : List (Change Shipment) → List (Change ImportErrorRow) → Prop} : Local p (Wrote p i P R) :=
  fun d d' hw hk ⟨now, r, cur, hb, h1, h2, h3, h4⟩ =>
    ⟨now, r, cur, hk.began.trans hb, h1, h2, local_writing p r cur d d' hw hk h3,
      local_stagedRows d d' hw hk h4⟩

/-- One token-checked update of a row. -/
def Moved (p : Nat) (values : ProgressValues) (now : Time) (r cur : Version ImportJob) : Prop :=
  (JobWrite.progress now p values).Admits r.val ∧ cur = rewrite p (.progress now p values) r

section
variable {d d' : Database} {p : Nat} {server : Server} {clock : Time} {env : Env} {i : ImportId}
  {R : List (Change Shipment) → List (Change ImportErrorRow) → Prop}

theorem owned_iff {i : ImportId} {token : Token} {r : Version ImportJob} :
    owned i token r = true ↔ r.id = i ∧ r.val.status = .processing ∧
      r.val.processingToken = some token := by
  simp [owned, and_assoc]

/-- A written job has the token of its writer. -/
theorem Wrote.hasToken {P : Time → Version ImportJob → Version ImportJob → Prop}
    (h : Wrote p i P R d) (hw : d.Wf)
    (hP : ∀ now r cur, P now r cur → r.val.processingToken = some p) : (d.slice i).HasToken p := by
  obtain ⟨now, r, cur, -, rfl, h2, h3, -⟩ := h
  exact ⟨r, h3.job hw, hP now r cur h2⟩

/-- The first token-checked update of a transaction. -/
theorem exec_update_first (hw : d.Wf) (hok : ∀ j, (d.slice j).Ok env) {values : ProgressValues}
    {a : Bool} (hs : Staged p R d)
    (hx : (d.begin p clock).exec server clock p (.updateCurrentProcessingImport i p values) =
      some (.ok a, d')) :
    (a = true → Wrote p i (Moved p values) R d') ∧ (a = false → Staged p R d') := by
  obtain ⟨res, hu, ha⟩ := Database.mapReply_eq hx
  have hb := (Database.own_begin (s := p) hw clock).wf
  obtain ⟨hR, ⟨r, hri, hsel, rfl, hwr⟩ | ⟨-, rfl, hnil⟩⟩ := updateJobs_first hb hs.jobs
    (fun x hx => (owned_iff.1 hx).1) (fun r hr hsel => by
      have hadm : (JobWrite.progress ((d.begin p clock).now p clock) p values).Admits r.val :=
        (owned_iff.1 hsel).2
      exact ((history_of_mem hw hok hr).consistent.write hadm).ck) hu
  · obtain ⟨-, h1, h2⟩ := owned_iff.1 hsel
    have ha' : a = true := by cases ha; rfl
    exact ⟨fun _ => ⟨_, r, _, exec_began hx, hri, ⟨⟨h1, h2⟩, rfl⟩, hwr, hR R ⟨hs.outbox, hs.rows⟩⟩,
      fun e => absurd (ha'.symm.trans e) (by decide)⟩
  · have ha' : a = false := by cases ha; rfl
    exact ⟨fun e => absurd (ha'.symm.trans e) (by decide), fun _ => ⟨hR R ⟨hs.outbox, hs.rows⟩, hnil⟩⟩

/-- A further token-checked update. -/
theorem exec_update_again (hw : d.Wf) (hok : ∀ j, (d.slice j).Ok env) {values : ProgressValues}
    {P : Time → Version ImportJob → Version ImportJob → Prop}
    (hP : ∀ now r cur, JobHistory env.settings r.val → P now r cur →
      JobHistory env.settings cur.val ∧ cur.val.status = .processing ∧
        cur.val.processingToken = some p) {a : Bool} (h : Wrote p i P R d)
    (hx : (d.begin p clock).exec server clock p (.updateCurrentProcessingImport i p values) =
      some (.ok a, d')) :
    a = true ∧ Wrote p i (fun now r cur' => ∃ cur, P now r cur ∧
      cur' = rewrite p (.progress now p values) cur) R d' := by
  obtain ⟨res, hu, ha⟩ := Database.mapReply_eq hx
  have hb := (Database.own_begin (s := p) hw clock).wf
  obtain ⟨now, r, cur, hnow, rfl, hPr, hwr, hR⟩ := h
  have hclock : (d.begin p clock).now p clock = now := by
    rw [Database.now_begin]
    simp [Database.now, hnow]
  rw [hclock] at hu
  obtain ⟨hist, h1, h2⟩ := hP now r cur (history_of_mem hw hok hwr.mem) hPr
  have hadm : (JobWrite.progress now p values).Admits cur.val := ⟨h1, h2⟩
  have hwr' : Writing p r cur (d.begin p clock) := ⟨hwr.mem, hwr.held, hwr.same, hwr.sees⟩
  obtain ⟨rfl, hwr'', hR'⟩ := updateJobs_again hb hwr' (fun x hx => (owned_iff.1 hx).1)
    (owned_iff.2 ⟨hwr.same, h1, h2⟩) (hist.consistent.write hadm).ck hu
  have hnow' := exec_began hx
  rw [hclock] at hnow'
  refine ⟨by cases ha; rfl, now, r, _, hnow', rfl, ⟨cur, hPr, rfl⟩, hwr'', hR' R ⟨hR.outbox, hR.rows⟩⟩

/-- Inserting a shipment. -/
theorem exec_insertShipment (hw : d.Wf) {shipments : List Shipment} {errors : List ImportErrorRow}
    {s : Shipment} {a : Unit} (h : Staged p (Inserting p shipments errors) d)
    (hx : (d.begin p clock).exec server clock p (.insertShipment s) = some (.ok a, d')) :
    Staged p (Inserting p (shipments ++ [s]) errors) d' := by
  have hb := (Database.own_begin (s := p) hw clock).wf
  simp only [Database.exec] at hx
  split at hx
  · cases hx
  · next stored hstored =>
    simp only [Option.map_eq_some_iff] at hx
    obtain ⟨o, hT, hx⟩ := hx
    cases o with
    | error _ => cases hx
    | ok T =>
      cases hx
      obtain ⟨-, hs, -⟩ := Table.insertUnique_spec hb.shipments hT
      refine ⟨⟨h.outbox, ?_⟩, h.jobs⟩
      show Inserting p (shipments ++ [s]) errors (T.staged p) (d.importErrors.staged p)
      rw [hs]
      exact h.rows.shipment ⟨hstored, rfl⟩

/-- Inserting an error. -/
theorem exec_insertImportError {shipments : List Shipment} {errors : List ImportErrorRow}
    {e : ImportErrorRow} {a : Unit} (h : Staged p (Inserting p shipments errors) d)
    (hx : (d.begin p clock).exec server clock p (.insertImportError e) = some (.ok a, d')) :
    Staged p (Inserting p shipments (errors ++ [e])) d' := by
  simp only [Database.exec] at hx
  split at hx
  · cases hx
    refine ⟨⟨h.outbox, ?_⟩, h.jobs⟩
    show Inserting p shipments (errors ++ [e]) (d.shipments.staged p)
      ((Table.insert (d.begin p clock).importErrors p _ _).staged p)
    rw [Table.insert, Table.stage_staged]
    exact h.rows.importError ⟨rfl, rfl⟩
  · cases hx

/-- The foreign key check. -/
theorem exec_checkImportExists (hw : d.Wf) {j : ImportId} {a : Unit} (h : Staged p R d)
    (hx : (d.begin p clock).exec server clock p (.checkImportExists j) = some (.ok a, d')) :
    Staged p R d' := by
  have hb := (Database.own_begin (s := p) hw clock).wf
  simp only [Database.exec, Database.referenceJob] at hx
  split at hx
  · simp only [Option.map_eq_some_iff] at hx
    obtain ⟨T, hT, hx⟩ := hx
    cases hx
    refine ⟨⟨h.outbox, h.rows⟩, ?_⟩
    show T.staged p = []
    rw [(Table.keyShare_spec hb.jobs hT).2.1]
    exact h.jobs
  · cases hx

/-- Deleting the shipments of the import. -/
theorem exec_deleteShipments (hw : d.Wf)
    {P : Time → Version ImportJob → Version ImportJob → Prop} {n : Nat}
    (h : Wrote p i P NoRows d)
    (hx : (d.begin p clock).exec server clock p (.deleteShipments i) = some (.ok n, d')) :
    Wrote p i P (Deleting (d.slice i).shipments []) d' := by
  have hb := (Database.own_begin (s := p) hw clock).wf
  obtain ⟨now, r, cur, hnow, h1, h2, hwr, hR⟩ := h
  have hnow' : d'.began p = some now := by
    rw [exec_began hx, Database.now_begin]
    simp [Database.now, hnow]
  simp only [Database.exec, Option.map_eq_some_iff] at hx
  obtain ⟨⟨k, T⟩, hT, hx⟩ := hx
  cases hx
  obtain ⟨-, hs, -⟩ := Table.deleteWhere_spec hb.shipments hT
  have hnil : d.shipments.staged p = [] := hR.rows.1
  refine ⟨now, r, cur, hnow', h1, h2, ⟨hwr.mem, hwr.held, hwr.same, hwr.sees⟩, hR.outbox, ?_, ?_⟩
  · show T.staged p = _
    rw [hs, show (d.begin p clock).shipments.staged p = [] from hnil,
      Table.view_eq (d.begin p clock).shipments p hnil, List.map_map]
    rfl
  · exact hR.rows.2

/-- Deleting its errors. -/
theorem exec_deleteImportErrors (hw : d.Wf)
    {P : Time → Version ImportJob → Version ImportJob → Prop} {n : Nat} {S : List (Version Shipment)}
    (h : Wrote p i P (Deleting S []) d)
    (hx : (d.begin p clock).exec server clock p (.deleteImportErrors i) = some (.ok n, d')) :
    Wrote p i P (Deleting S (d.slice i).importErrors) d' := by
  have hb := (Database.own_begin (s := p) hw clock).wf
  obtain ⟨now, r, cur, hnow, h1, h2, hwr, hR⟩ := h
  have hnow' : d'.began p = some now := by
    rw [exec_began hx, Database.now_begin]
    simp [Database.now, hnow]
  simp only [Database.exec, Option.map_eq_some_iff] at hx
  obtain ⟨⟨k, T⟩, hT, hx⟩ := hx
  cases hx
  obtain ⟨-, hs, -⟩ := Table.deleteWhere_spec hb.errors hT
  have hnil : d.importErrors.staged p = [] := hR.rows.2
  refine ⟨now, r, cur, hnow', h1, h2, ⟨hwr.mem, hwr.held, hwr.same, hwr.sees⟩, hR.outbox,
    hR.rows.1, ?_⟩
  show T.staged p = _
  rw [hs, show (d.begin p clock).importErrors.staged p = [] from hnil,
    Table.view_eq (d.begin p clock).importErrors p hnil, List.map_map]
  rfl

end

end ShipmentImport
