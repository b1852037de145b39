import ShipmentImport.Refinement.WorkerQueries
import ShipmentImport.Imports.OnePass

/-!
# What a worker does

The parts of `ProcessImportService.run` after the claim, against the protocol: the reset, the chunks
with their correction after a duplicate race, and the completion. The loop invariant is `AtCut`:
what was persisted of the import is the result of the rows done so far.
-/

namespace ShipmentImport

/-! ## Writing one import -/

section
variable {d : Database} {p : Nat} {i : ImportId}

/-- The commit of a session that wrote the job of import `i` takes the import to
`⟨some cur, S, E⟩`, and leaves the others. -/
structure Takes (p : Nat) (i : ImportId) (r cur : Version ImportJob) (S : List (Version Shipment))
    (E : List (Version ImportErrorRow)) (d : Database) : Prop where
  before : d.slice i = ⟨some r, (d.slice i).shipments, (d.slice i).importErrors⟩
  after : (d.commit p).slice i = ⟨some cur, S, E⟩
  others : ∀ j, j ≠ i → (d.commit p).slice j = d.slice j

theorem Writing.takes {r cur : Version ImportJob} {S : List (Version Shipment)}
    {E : List (Version ImportErrorRow)} (hw : d.Wf) (h : Writing p r cur d) (hr : r.id = i)
    (hS : ∀ j, ((d.commit p).slice j).shipments = if j = i then S else (d.slice j).shipments)
    (hE : ∀ j, ((d.commit p).slice j).importErrors = if j = i then E else (d.slice j).importErrors) :
    Takes p i r cur S E d where
  before := by
    have := h.job hw
    rw [hr] at this
    rw [← this]
  after := by
    have h1 := h.commit_job i
    have h2 := hS i
    have h3 := hE i
    rw [if_pos hr.symm] at h1
    rw [if_pos rfl] at h2 h3
    rw [← h1, ← h2, ← h3]
  others j hj := by
    have h1 := h.commit_job j
    have h2 := hS j
    have h3 := hE j
    rw [if_neg (by rwa [hr])] at h1
    rw [if_neg hj] at h2 h3
    show Slice.mk _ _ _ = Slice.mk _ _ _
    exact Slice.mk.injEq .. ▸ ⟨h1, h2, h3⟩

variable {P : Time → Version ImportJob → Version ImportJob → Prop}

theorem now_eq {now : Time} (h : d.began p = some now) (clock : Time) : d.now p clock = now := by
  simp [Database.now, h]

/-- A transaction that only wrote the job. -/
theorem Wrote.takes (hw : d.Wf) (h : Wrote p i P NoRows d) (clock : Time) :
    ∃ r cur, P (d.now p clock) r cur ∧
      Takes p i r cur (d.slice i).shipments (d.slice i).importErrors d := by
  obtain ⟨now, r, cur, hnow, hr, hP, hwr, hR⟩ := h
  refine ⟨r, cur, by rwa [now_eq hnow], hwr.takes hw hr (fun j => ?_) fun j => ?_⟩
  · have : (d.commit p).shipments.rows = d.shipments.rows := Table.view_eq _ _ hR.rows.1
    split
    · next e => simp only [e, Database.slice, this]
    · simp only [Database.slice, this]
  · have : (d.commit p).importErrors.rows = d.importErrors.rows := Table.view_eq _ _ hR.rows.2
    split
    · next e => simp only [e, Database.slice, this]
    · simp only [Database.slice, this]

/-- A transaction that also deleted the rows of the import. -/
theorem Wrote.takes_deleting (hw : d.Wf)
    (h : Wrote p i P (Deleting (d.slice i).shipments (d.slice i).importErrors) d) (clock : Time) :
    ∃ r cur, P (d.now p clock) r cur ∧ Takes p i r cur [] [] d := by
  obtain ⟨now, r, cur, hnow, hr, hP, hwr, hR⟩ := h
  exact ⟨r, cur, by rwa [now_eq hnow], hwr.takes hw hr (commit_shipments_delete hw hR.rows.1)
    (commit_errors_delete hw hR.rows.2)⟩

/-- A transaction that also inserted rows of the import. -/
theorem Wrote.takes_inserting (hw : d.Wf) {shipments : List Shipment}
    {errors : List ImportErrorRow} (h : Wrote p i P (Inserting p shipments errors) d)
    (hs : ∀ s ∈ shipments, s.importId = i) (he : ∀ e ∈ errors, e.importId = i) (clock : Time) :
    ∃ r cur S E, P (d.now p clock) r cur ∧ List.Forall₂ (Stores p) shipments S ∧
      List.Forall₂ (Records p) errors E ∧
      Takes p i r cur ((d.slice i).shipments ++ S) ((d.slice i).importErrors ++ E) d := by
  obtain ⟨now, r, cur, hnow, hr, hP, hwr, hout, S, E, hS, hE, h1, h2⟩ := h
  refine ⟨r, cur, S, E, by rwa [now_eq hnow], hS, hE, hwr.takes hw hr
    (commit_shipments_insert h1 fun v hv => ?_) (commit_errors_insert h2 fun v hv => ?_)⟩
  · obtain ⟨s, hms, hst, -⟩ := forall₂_mem_right hS hv
    rw [Shipment.store_importId hst, hs s hms]
  · obtain ⟨e, hme, hv, -⟩ := forall₂_mem_right hE hv
    rw [hv]
    exact he e hme

theorem Wrote.outbox {R : List (Change Shipment) → List (Change ImportErrorRow) → Prop}
    (h : Wrote p i P R d) : d.importDispatchOutbox.staged p = [] := by
  obtain ⟨_, _, _, _, _, _, _, hR⟩ := h
  exact hR.outbox

/-- What such a commit is to the protocol. -/
theorem Takes.commits {C : Setting} {w : World} {r cur : Version ImportJob}
    {S : List (Version Shipment)} {E : List (Version ImportErrorRow)} {Φ : Slice → Prop}
    (h : Takes p i r cur S E w.db) (ho : w.db.importDispatchOutbox.staged p = [])
    (hstep : Slice.Step C.env .worker p (w.db.now p w.time)
      ⟨some r, (w.db.slice i).shipments, (w.db.slice i).importErrors⟩ ⟨some cur, S, E⟩)
    (hseal : cur.val.status = .completed → ∀ fz, C.frozen = some fz → fz.importId = i →
      fz.Matched ⟨some cur, S, E⟩)
    (hΦ : (w.db.slice i).HasToken p → cur.val.processingToken = some p → Φ ⟨some cur, S, E⟩)
    (htok : r.val.processingToken = some p) : Commits C p i Φ w where
  step := by
    rw [show (w.commit p).db.slice i = _ from h.after, h.before]
    exact hstep
  others := h.others
  outbox := ho
  seals fz hz e hc := by
    subst e
    rw [show (w.commit p).db.slice fz.importId = _ from h.after] at hc ⊢
    refine .inr (hseal ?_ fz hz rfl)
    simpa [Slice.status] using hc
  after hy := by
    rw [show (w.commit p).db.slice i = _ from h.after] at hy ⊢
    obtain ⟨r', hr', ht⟩ := hy
    cases hr'
    exact hΦ ⟨r, by rw [h.before], htok⟩ ht

end

/-! ## Updates and inserts -/

section
variable {C : Setting} {p : Nat} {t : Task} {c : ClaimedImport} {Φ : Slice → Prop}
  {Ψ : Exc → Slice → Prop} {ρ : Option ImportId → Prop}
  {R : List (Change Shipment) → List (Change ImportErrorRow) → Prop}

open Setting.Spec

/-- The first token-checked update of a transaction. -/
theorem updateClaimed_first (hc : c.processingToken = p) {values : ProgressValues}
    (hΨ : ∀ e y, Φ y → Ψ e y) :
    C.Spec p t (Owner C p c.importId Φ (Staged p R) ρ) (updateClaimed c values)
      (Outcome (fun a => Owner C p c.importId Φ
        (fun d => (a = true → Wrote p c.importId (Moved p values) R d) ∧
          (a = false → Staged p R d)) ρ) (Raised C p c.importId Ψ ρ)) := by
  unfold updateClaimed
  rw [hc]
  refine query_owner (by trivial) (Θ := fun _ => Φ) (fun a d d' hw hk h => ?_) (fun r hr => ?_)
    (fun f y => hΨ _ y) fun w g a d' hi ha hx => ⟨ha.1, exec_update_first hi.wf hi.slices ha.2.1 hx⟩
  · exact ⟨fun e => local_wrote d d' hw hk (h.1 e), fun e => local_staged d d' hw hk (h.2 e)⟩
  · rw [(owned_iff.1 hr).2.1]
    decide

theorem updateClaimedOrStop_first (hc : c.processingToken = p) {values : ProgressValues}
    (hΨ : ∀ e y, Φ y → Ψ e y) :
    C.Spec p t (Owner C p c.importId Φ (Staged p R) ρ) (updateClaimedOrStop c values)
      (Outcome (fun _ => Owner C p c.importId Φ (Wrote p c.importId (Moved p values) R) ρ)
        (Raised C p c.importId Ψ ρ)) := by
  refine seq (updateClaimed_first hc hΨ) fun a => ?_
  cases a with
  | true => exact ret fun x h => ⟨h.1, h.2.1.1 rfl, h.2.2⟩
  | false => exact raise fun x h => ⟨fun ht => hΨ _ _ (h.1 ht), trivial, h.2.2⟩

/-- A further update of the job. -/
theorem updateClaimedOrStop_again (hc : c.processingToken = p) {values : ProgressValues}
    (hΨ : ∀ e y, Φ y → Ψ e y)
    {P : Time → Version ImportJob → Version ImportJob → Prop}
    (hP : ∀ now r cur, JobHistory C.env.settings r.val → P now r cur →
      JobHistory C.env.settings cur.val ∧ cur.val.status = .processing ∧
        cur.val.processingToken = some p) :
    C.Spec p t (Owner C p c.importId Φ (Wrote p c.importId P R) ρ) (updateClaimedOrStop c values)
      (Outcome (fun _ => Owner C p c.importId Φ (Wrote p c.importId (fun now r cur' => ∃ cur,
        P now r cur ∧ cur' = rewrite p (.progress now p values) cur) R) ρ)
        (Raised C p c.importId Ψ ρ)) := by
  unfold updateClaimedOrStop updateClaimed
  rw [hc]
  refine seq (M := fun a => Owner C p c.importId Φ (fun d => a = true ∧
      Wrote p c.importId (fun now r cur' => ∃ cur, P now r cur ∧
        cur' = rewrite p (.progress now p values) cur) R d) ρ) ?_ fun a => ?_
  · refine query_owner (by trivial) (Θ := fun _ => Φ)
      (fun a d d' hw hk h => ⟨h.1, local_wrote d d' hw hk h.2⟩) (fun r hr => ?_)
      (fun f y => hΨ _ y) fun w g a d' hi ha hx =>
        ⟨ha.1, exec_update_again hi.wf hi.slices hP ha.2.1 hx⟩
    rw [(owned_iff.1 hr).2.1]
    decide
  · cases a with
    | true => exact ret fun x h => ⟨h.1, h.2.1.2, h.2.2⟩
    | false => exact raise fun x h => absurd h.2.1.1 (by decide)

theorem bulkInsertShipments_spec (hΨ : ∀ e y, Φ y → Ψ e y) (shipments : List Shipment) :
    C.Spec p t (Owner C p c.importId Φ (Clean p) ρ) (bulkInsertShipments shipments)
      (Outcome (fun _ => Owner C p c.importId Φ (Staged p (Inserting p shipments [])) ρ)
        (Raised C p c.importId Ψ ρ)) := by
  have hclean : ∀ d, Clean p d → Staged p (Inserting p [] []) d := by
    rintro d ⟨⟨ho, hS, hE⟩, hj⟩
    refine ⟨⟨ho, ?_⟩, hj⟩
    rw [hS, hE]
    exact inserting_nil p
  cases shipments with
  | nil => exact ret fun x h => h.mono (fun _ h => h) hclean fun _ h => h
  | cons s rest =>
    have hloop := Setting.Spec.forEach (C := C) (p := p) (t := t) (l := s :: rest)
      (f := fun s => Py.query (.insertShipment s))
      (I := fun done => Owner C p c.importId Φ (Staged p (Inserting p done [])) ρ)
      (E := Raised C p c.importId Ψ ρ) (fun done s _ _ => query_owner (by trivial) (Θ := fun _ => Φ)
        (fun _ => local_staged) (fun r hr => hr.elim) (fun f y => hΨ _ y)
        fun w g a d' hi ha hx => ⟨ha.1, exec_insertShipment hi.wf ha.2.1 hx⟩)
    refine seq (hloop.pre fun x h => h.mono (fun _ h => h) hclean fun _ h => h) fun _ => ?_
    exact query_owner (by trivial) (Θ := fun _ => Φ) (fun _ => local_staged) (fun r hr => hr.elim)
      (fun f y => hΨ _ y) fun w g a d' hi ha hx => ⟨ha.1, exec_checkImportExists hi.wf ha.2.1 hx⟩

theorem bulkInsertImportErrors_spec (hΨ : ∀ e y, Φ y → Ψ e y) (shipments : List Shipment)
    (errors : List ImportErrorRow) :
    C.Spec p t (Owner C p c.importId Φ (Staged p (Inserting p shipments [])) ρ)
      (bulkInsertImportErrors errors)
      (Outcome (fun _ => Owner C p c.importId Φ (Staged p (Inserting p shipments errors)) ρ)
        (Raised C p c.importId Ψ ρ)) := by
  cases errors with
  | nil => exact ret fun x h => h
  | cons e rest =>
    have hloop := Setting.Spec.forEach (C := C) (p := p) (t := t) (l := e :: rest)
      (f := fun e => Py.query (.insertImportError e))
      (I := fun done => Owner C p c.importId Φ (Staged p (Inserting p shipments done)) ρ)
      (E := Raised C p c.importId Ψ ρ) (fun done e _ _ => query_owner (by trivial) (Θ := fun _ => Φ)
        (fun _ => local_staged) (fun r hr => hr.elim) (fun f y => hΨ _ y)
        fun w g a d' hi ha hx => ⟨ha.1, exec_insertImportError ha.2.1 hx⟩)
    refine seq hloop fun _ => ?_
    exact query_owner (by trivial) (Θ := fun _ => Φ) (fun _ => local_staged) (fun r hr => hr.elim)
      (fun f y => hΨ _ y) fun w g a d' hi ha hx => ⟨ha.1, exec_checkImportExists hi.wf ha.2.1 hx⟩

/-- The counts of a chunk, then the heartbeat. -/
def ChunkWrites (p : Nat) (cur : ValidationChunkResult) (now : Time) (r r' : Version ImportJob) :
    Prop :=
  (JobWrite.progress now p
      (.recordChunkCounts cur.totalRows cur.successCount cur.failedCount)).Admits r.val ∧
    r' = rewrite p (.progress now p .heartbeat) (rewrite p (.progress now p
      (.recordChunkCounts cur.totalRows cur.successCount cur.failedCount)) r)

/-- `_persist_chunk` up to its commit. -/
theorem persistChunk_spec (hc : c.processingToken = p) (hΨ : ∀ e y, Φ y → Ψ e y)
    (cur : ValidationChunkResult) :
    C.Spec p t (Owner C p c.importId Φ (Clean p) ρ) (persistChunk c cur)
      (Outcome (fun _ => Owner C p c.importId Φ (Wrote p c.importId (ChunkWrites p cur)
        (Inserting p cur.shipments cur.importErrors)) ρ) (Raised C p c.importId Ψ ρ)) := by
  refine seq (bulkInsertShipments_spec hΨ _) fun _ => ?_
  refine seq (bulkInsertImportErrors_spec hΨ _ _) fun _ => ?_
  refine seq (updateClaimedOrStop_first hc hΨ) fun _ => ?_
  refine weaken (updateClaimedOrStop_again hc hΨ ?_) (fun _ x h => h.mono (fun _ h => h) ?_
    fun _ h => h) fun _ _ h => h
  · rintro now r _ hist ⟨hadm, rfl⟩
    exact ⟨.write _ hist hadm, hadm⟩
  · rintro d ⟨now, r, cur', hnow, h1, ⟨_, ⟨hadm, rfl⟩, rfl⟩, h3, h4⟩
    exact ⟨now, r, _, hnow, h1, ⟨hadm, rfl⟩, h3, h4⟩

end

/-! ## The loop invariant -/

/-- The import is the one that was claimed, in the attempt of the claim. -/
def Claimed (c : ClaimedImport) (x : Slice) : Prop :=
  ∃ r, x.job = some r ∧ r.val.attemptCount = c.attemptCount ∧ r.val.maxAttempts = c.maxAttempts ∧
    r.val.storedFilePath = c.storedFilePath

/-- The rows of the workbook of the import. -/
def Opened (env : Env) (c : ClaimedImport) (rows : List ParsedWorkbookRow) : Prop :=
  ∃ worksheet, env.workbook c.storedFilePath = .ok worksheet ∧
    XlsxParser.dataRows worksheet = .ok rows

/-- How far a worker got: the rows whose chunks are committed, their result, and the codes seen. -/
structure Cut where
  done : List ParsedWorkbookRow
  result : ValidationChunkResult
  tracker : DuplicateTracker

def Cut.start : Cut := ⟨[], .empty, {}⟩

/-- What is committed of the import is the result of the rows done. Against fixed codes of the other
imports it is what one pass over these rows gives. -/
structure AtCut (C : Setting) (p : Nat) (c : ClaimedImport) (k : Cut) (x : Slice) : Prop where
  claimed : Claimed c x
  ok : k.result.Ok c.importId (k.done.map (prepareRow C.env.adapters))
  shipments : List.Forall₂ (Stores p) k.result.shipments x.shipments
  errors : List.Forall₂ (Records p) k.result.importErrors x.importErrors
  frozen : ∀ fz, C.frozen = some fz → fz.importId = c.importId →
    k.result = .ofState k.done.length
        (onePass c.importId fz.codes (k.done.map (prepareRow C.env.adapters))) ∧
      k.tracker.seenShipmentCodes =
        (onePass c.importId fz.codes (k.done.map (prepareRow C.env.adapters))).chunkSeenCodes

/-- The chunk a worker is about to persist: where it starts, its rows, the tracker after it, and
the rows that follow. -/
structure Reading where
  cut : Cut
  chunk : List ParsedWorkbookRow
  tracker : DuplicateTracker
  rest : List ParsedWorkbookRow

/-- The cut after the chunk was persisted as `cur`. -/
def Reading.next (k : Reading) (cur : ValidationChunkResult) : Cut :=
  ⟨k.cut.done ++ k.chunk, k.cut.result.add cur, k.tracker⟩

/-- The result of the chunk against fixed codes of the other imports. -/
def Reading.expected (k : Reading) (A : Adapters) (i : ImportId) (codes : List String) :
    ValidationChunkResult × DuplicateTracker :=
  let prepared := k.chunk.map (prepareRow A)
  classifyChunk i prepared k.cut.tracker
    (lookupIn codes (k.cut.tracker.unseenCodes (chunkCodes prepared)))

/-- `cur` is a result of the chunk. -/
structure ChunkReady (C : Setting) (p : Nat) (c : ClaimedImport) (k : Reading)
    (cur : ValidationChunkResult) (x : Slice) : Prop where
  at_ : AtCut C p c k.cut x
  opened : Opened C.env c (k.cut.done ++ k.chunk ++ k.rest)
  ok : cur.Ok c.importId (k.chunk.map (prepareRow C.env.adapters))
  frozen : ∀ fz, C.frozen = some fz → fz.importId = c.importId →
    (cur, k.tracker) = k.expected C.env.adapters c.importId fz.codes

section
variable {C : Setting} {p : Nat} {c : ClaimedImport} {k : Cut} {x : Slice}

theorem Opened.nodup {env : Env} {rows : List ParsedWorkbookRow} (h : Opened env c rows) :
    (rows.map (·.rowNumber)).Nodup := by
  obtain ⟨worksheet, -, hr⟩ := h
  exact (XlsxParser.dataRows_rowNumbers hr).imp fun h => Nat.ne_of_lt h

/-- The numbers of the rows of one chunk differ from those of the rows before it. -/
theorem Opened.numbers {env : Env} {a b rest : List ParsedWorkbookRow}
    (h : Opened env c (a ++ b ++ rest)) :
    (∀ q ∈ a.map (prepareRow env.adapters), ∀ q' ∈ b.map (prepareRow env.adapters),
      q.number ≠ q'.number) ∧ ((b.map (prepareRow env.adapters)).map (·.number)).Nodup := by
  have hn := h.nodup
  rw [List.map_append, List.map_append, List.nodup_append, List.nodup_append] at hn
  obtain ⟨⟨-, hb, hd⟩, -⟩ := hn
  constructor
  · intro q hq q' hq' e
    obtain ⟨row, hrow, rfl⟩ := List.mem_map.1 hq
    obtain ⟨row', hrow', rfl⟩ := List.mem_map.1 hq'
    exact hd _ (List.mem_map_of_mem hrow) _ (List.mem_map_of_mem hrow') e
  · rw [List.map_map]
    exact hb

theorem atCut_start (h : Claimed c x) (hs : x.shipments = []) (he : x.importErrors = []) :
    AtCut C p c .start x where
  claimed := h
  ok := ValidationChunkResult.ok_empty c.importId
  shipments := hs ▸ .nil
  errors := he ▸ .nil
  frozen _ _ _ := ⟨rfl, rfl⟩

/-- The codes of the import's own shipments are those the tracker hides from the lookup. -/
theorem AtCut.own_codes (h : AtCut C p c k x) {rest : List ParsedWorkbookRow}
    (ho : Opened C.env c (k.done ++ rest)) {fz : Frozen C.env} (hz : C.frozen = some fz)
    (hi : fz.importId = c.importId) {v : Version Shipment} (hv : v ∈ x.shipments) :
    v.val.shipmentCode ∈ k.tracker.seenShipmentCodes := by
  obtain ⟨s, hs, hst, -⟩ := forall₂_mem_right h.shipments hv
  have hs' := hs
  rw [h.ok.shipments] at hs'
  obtain ⟨vr, hvr, rfl⟩ := List.mem_map.1 hs'
  obtain ⟨acc, hsub, hacc⟩ := h.ok.accepted
  obtain ⟨q, hq, r, hr, rfl⟩ := forall₂_mem_right hacc hvr
  obtain ⟨row, hrow, rfl⟩ := List.mem_map.1 (hsub.subset hq)
  obtain ⟨worksheet, -, hrows⟩ := ho
  have hstrip := stripped_toShipment fz.plain hrows (List.mem_append_left _ hrow) hr c.importId
  rw [(hstrip.roundsTo hst).shipmentCode]
  obtain ⟨h1, h2⟩ := h.frozen fz hz hi
  rw [h2]
  refine onePass_seen (fun q hq => ?_) ?_
  · obtain ⟨row, -, rfl⟩ := List.mem_map.1 hq
    exact prepareRow_coded _ row
  · rw [h1] at hs
    exact hs

/-- What a lookup of codes the tracker has not seen answers, against fixed codes of the others. -/
theorem AtCut.lookup {w : World} {g : Ghost} (hinv : C.Inv (w, g)) (hclean : Clean p w.db)
    (h : AtCut C p c k (w.db.slice c.importId)) {rest : List ParsedWorkbookRow}
    (ho : Opened C.env c (k.done ++ rest)) {fz : Frozen C.env} (hz : C.frozen = some fz)
    (hi : fz.importId = c.importId) {codes : List String}
    (hcodes : ∀ code ∈ codes, code ∉ k.tracker.seenShipmentCodes) :
    (codes.filter fun code => (w.db.shipments.view p).any (·.val.shipmentCode == code)) =
      lookupIn fz.codes codes := by
  have hat := hinv.frozen fz hz
  rw [Table.view_eq _ _ hclean.rows.1]
  refine List.filter_congr fun code hc => ?_
  rw [Bool.eq_iff_iff, List.any_eq_true, decide_eq_true_eq, hat code]
  constructor
  · rintro ⟨v, hv, e⟩
    have e : v.val.shipmentCode = code := by simpa using e
    refine ⟨v, hv, fun hown => hcodes code hc ?_, e⟩
    rw [← e]
    refine h.own_codes ho hz hi (List.mem_filter.2 ⟨hv, ?_⟩)
    rw [← hi]
    simpa using hown
  · rintro ⟨v, hv, -, e⟩
    exact ⟨v, hv, by simpa using e⟩

/-- A persisted chunk moves the cut. -/
theorem ChunkReady.next {k : Reading} {cur : ValidationChunkResult} {r' : Version ImportJob}
    (h : ChunkReady C p c k cur x) {S : List (Version Shipment)}
    {E : List (Version ImportErrorRow)} (hS : List.Forall₂ (Stores p) cur.shipments S)
    (hE : List.Forall₂ (Records p) cur.importErrors E)
    (hr : Claimed c ⟨some r', x.shipments ++ S, x.importErrors ++ E⟩) :
    AtCut C p c (k.next cur) ⟨some r', x.shipments ++ S, x.importErrors ++ E⟩ where
  claimed := hr
  ok := by
    have := h.at_.ok.add h.ok h.opened.numbers.1
    rw [← List.map_append] at this
    exact this
  shipments := List.rel_append h.at_.shipments hS
  errors := List.rel_append h.at_.errors hE
  frozen fz hz hi := by
    obtain ⟨h1, h2⟩ := h.at_.frozen fz hz hi
    obtain ⟨h3, h4⟩ := classifyChunk_onePass (k.chunk.map (prepareRow C.env.adapters)) h2
    have hex := h.frozen fz hz hi
    unfold Reading.expected at hex
    obtain ⟨hcur, htr⟩ := Prod.mk.inj (hex.trans Prod.mk.eta.symm)
    simp only [Reading.next]
    rw [hcur, htr, h1, List.map_append]
    simp only [List.length_map, List.length_append] at h3 ⊢
    exact ⟨h3, h4⟩

/-- Against fixed codes of the others, the correction after a conflict finds nothing. -/
theorem ChunkReady.reclassify {k : Reading} {cur : ValidationChunkResult} {existing : List String}
    (h : ChunkReady C p c k cur x)
    (hex : ∀ fz, C.frozen = some fz → fz.importId = c.importId → existing = []) :
    ChunkReady C p c k (ShipmentImport.reclassify c.importId cur existing) x where
  at_ := h.at_
  opened := h.opened
  ok := h.ok.reclassify h.opened.numbers.2 existing
  frozen fz hz hi := by
    have he : ShipmentImport.reclassify c.importId cur existing = cur := by
      rw [hex fz hz hi]
      rfl
    rw [he]
    exact h.frozen fz hz hi

end

/-! ## Reset, chunks and completion -/

section
variable {C : Setting} {p : Nat} {t : Task} {c : ClaimedImport} {ρ : Option ImportId → Prop}

open Setting.Spec

/-- Where every exception after the claim leaves the worker. -/
abbrev Failed (C : Setting) (p : Nat) (c : ClaimedImport) (ρ : Option ImportId → Prop) :
    Exc → Assertion :=
  fun _ => Owner C p c.importId (Claimed c) (fun d => d.Idle p) ρ

theorem Moved.hasToken {values : ProgressValues} {now : Time} {r cur : Version ImportJob}
    (h : Moved p values now r cur) : r.val.processingToken = some p :=
  h.1.2

/-- The deletes of the reset, of the rows that are there. -/
theorem deleteRows_spec {Φ : Slice → Prop} {Ψ : Exc → Slice → Prop} (hΨ : ∀ e y, Φ y → Ψ e y)
    (S : List (Version Shipment)) (E : List (Version ImportErrorRow)) :
    C.Spec p t (Owner C p c.importId (fun y => Φ y ∧ y.shipments = S ∧ y.importErrors = E)
        (Wrote p c.importId (Moved p .resetForReprocessing) NoRows) ρ)
      (do
        let _ ← Py.query (.deleteShipments c.importId)
        let _ ← Py.query (.deleteImportErrors c.importId)
        return ())
      (Outcome (fun _ => Owner C p c.importId (fun y => Φ y ∧ y.shipments = S ∧ y.importErrors = E)
        (Wrote p c.importId (Moved p .resetForReprocessing) (Deleting S E)) ρ)
        (Raised C p c.importId Ψ ρ)) := by
  refine seq (query_owner (by trivial) (Θ := fun _ y => Φ y ∧ y.shipments = S ∧ y.importErrors = E)
    (D := fun _ => Wrote p c.importId (Moved p .resetForReprocessing) (Deleting S []))
    (fun _ => local_wrote) (fun r hr => hr.elim) (fun f y h => hΨ _ y h.1)
    fun w g a d' hi ha hx => ⟨ha.1, ?_⟩) fun _ => ?_
  · have htok := ha.2.1.hasToken hi.wf fun now r cur h => h.hasToken
    have := exec_deleteShipments hi.wf ha.2.1 hx
    rwa [(ha.1 htok).2.1] at this
  refine seq (query_owner (by trivial) (Θ := fun _ y => Φ y ∧ y.shipments = S ∧ y.importErrors = E)
    (D := fun _ => Wrote p c.importId (Moved p .resetForReprocessing) (Deleting S E))
    (fun _ => local_wrote) (fun r hr => hr.elim) (fun f y h => hΨ _ y h.1)
    fun w g a d' hi ha hx => ⟨ha.1, ?_⟩) fun _ => ret fun _ h => h
  have htok := ha.2.1.hasToken hi.wf fun now r cur h => h.hasToken
  have := exec_deleteImportErrors hi.wf ha.2.1 hx
  rwa [(ha.1 htok).2.2] at this

/-- `_prepare_for_reprocessing` starts the attempt over. -/
theorem prepareForReprocessing_spec (ht : t.role = .worker) (hc : c.processingToken = p) :
    C.Spec p t (Owner C p c.importId (Claimed c) (fun d => d.Idle p) ρ) (prepareForReprocessing c)
      (Outcome (fun _ => Owner C p c.importId (AtCut C p c .start) (fun d => d.Idle p) ρ)
        (Failed C p c ρ)) := by
  unfold prepareForReprocessing
  refine Setting.Spec.inTransaction (N := fun _ x => ∃ S E, Owner C p c.importId
      (fun y => Claimed c y ∧ y.shipments = S ∧ y.importErrors = E)
      (Wrote p c.importId (Moved p .resetForReprocessing) (Deleting S E)) ρ x)
    (E := Raised C p c.importId (fun _ => Claimed c) ρ) ?_ (fun _ => ?_)
    fun e => rollback_owner (.inl rfl)
  · refine seq ((updateClaimedOrStop_first hc fun _ _ h => h).pre fun x h =>
      h.mono (fun _ h => h) (fun _ h => h.clean) fun _ h => h) fun _ => ?_
    -- the rows that are there now are the ones that will be deleted
    refine (Protocol.Triple.of_exists fun S => Protocol.Triple.of_exists fun E =>
      (deleteRows_spec (Ψ := fun _ => Claimed c) (fun _ _ h => h) S E).post fun r x h => ?_).pre
      fun x h => ⟨(x.1.db.slice c.importId).shipments, (x.1.db.slice c.importId).importErrors,
        fun htok => ⟨h.1 htok, rfl, rfl⟩, h.2⟩
    cases r with
    | ok a => exact ⟨S, E, h⟩
    | error e => exact h
  · refine Protocol.Triple.of_exists fun S => Protocol.Triple.of_exists fun E => ?_
    refine weaken (commit_owner (Θ := AtCut C p c .start) ht (fun w g hi ha => ?_)
      (fun _ y _ h => h.1) fun _ y _ h => h.claimed) (fun _ _ h => h) fun _ _ h => h
    have htok := ha.2.1.hasToken hi.wf fun now r cur h => h.hasToken
    obtain ⟨hcl, hS, hE⟩ := ha.1 htok
    have hwr := ha.2.1
    rw [← hS, ← hE] at hwr
    obtain ⟨r, cur, ⟨hadm, rfl⟩, htk⟩ := hwr.takes_deleting hi.wf w.time
    refine ⟨htk.commits hwr.outbox (.reset hadm) (fun h => ?_) (fun _ _ => ?_) hadm.2, ?_⟩
    · exact absurd (h.symm.trans (show _ = ImportStatus.processing from hadm.1)) (by decide)
    · obtain ⟨r', hr', h1, h2, h3⟩ := hcl
      rw [htk.before] at hr'
      cases hr'
      exact atCut_start ⟨_, rfl, h1, h2, h3⟩ rfl rfl
    · intro hp
      rw [show (w.commit p).db.slice c.importId = _ from htk.after] at hp
      have : some ImportStatus.processing = some .pending := by
        rw [← hadm.1]
        exact hp
      cases this

/-! ### Statements of a chunk transaction -/

theorem clean_begin {d : Database} {clock : Time} (h : Clean p d) : Clean p (d.begin p clock) :=
  ⟨⟨h.outbox, h.rows⟩, h.jobs⟩

theorem requireCurrentOwnership_spec {Φ : Slice → Prop} {Ψ : Exc → Slice → Prop}
    (hΨ : ∀ e y, Φ y → Ψ e y) :
    C.Spec p t (Owner C p c.importId Φ (Clean p) ρ) (requireCurrentOwnership c)
      (Outcome (fun _ => Owner C p c.importId Φ (Clean p) ρ) (Raised C p c.importId Ψ ρ)) := by
  refine seq (query_owner (by trivial) (Θ := fun _ => Φ) (D := fun _ => Clean p) (fun _ => local_staged)
    (fun r hr => hr.elim) (fun f y => hΨ _ y) fun w g a d' hi ha hx => ?_) fun a => ?_
  · cases hx
    exact ⟨ha.1, clean_begin ha.2.1⟩
  · cases a with
    | true => exact ret fun _ h => h
    | false => exact raise fun x h => h.mono (hΨ _) (fun _ _ => trivial) fun _ h => h

/-- `find_existing_shipment_codes`, before the transaction changed anything. -/
theorem findExistingShipmentCodes_spec {Φ : Slice → Prop} {Ψ : Exc → Slice → Prop}
    (hΨ : ∀ e y, Φ y → Ψ e y) {codes : List String} {Θ : List String → Slice → Prop}
    (hnil : codes = [] → ∀ y, Φ y → Θ [] y)
    (hrun : ∀ w g, C.Inv (w, g) → Clean p w.db → Φ (w.db.slice c.importId) →
      Θ (codes.filter fun code => (w.db.shipments.view p).any (·.val.shipmentCode == code))
        (w.db.slice c.importId)) :
    C.Spec p t (Owner C p c.importId Φ (Clean p) ρ) (findExistingShipmentCodes codes)
      (Outcome (fun existing => Owner C p c.importId (Θ existing) (Clean p) ρ)
        (Raised C p c.importId Ψ ρ)) := by
  unfold findExistingShipmentCodes
  split
  · next h => exact ret fun x hx => hx.mono (hnil h) (fun _ h => h) fun _ h => h
  · refine query_owner (by trivial) (D := fun _ => Clean p) (fun _ => local_staged) (fun r hr => hr.elim)
      (fun f y => hΨ _ y) fun w g a d' hi ha hx => ?_
    cases hx
    exact ⟨fun ht => hrun w g hi ha.2.1 (ha.1 ht), clean_begin ha.2.1⟩

theorem structureErrors_spec {α : Type} {A : Assertion} {x : Py α} {ok : α → Assertion}
    {E : Assertion} (h : C.Spec p t A x (Outcome ok fun _ => E)) :
    C.Spec p t A (structureErrors x) (Outcome ok fun _ => E) := by
  refine handle h fun e => ?_
  cases e with
  | raised f =>
    dsimp only
    split
    · exact raise fun _ h => h
    · exact raise fun _ h => h
  | _ => exact raise fun _ h => h

theorem readRows_exec {w w' : World} {r : Except Exc Unit} {ch : Choice}
    (h : World.exec C.env p t .readRows ch w = some (r, w')) : w' = w := by
  cases ch with
  | run => cases h; rfl
  | fail f => cases h; rfl
  | lost f => cases h

theorem loadWorkbook_exec {path : String} {w w' : World} {r : Except Exc Worksheet} {ch : Choice}
    (h : World.exec C.env p t (.loadWorkbook path) ch w = some (r, w')) :
    w' = w ∧ ∀ worksheet, r = .ok worksheet → C.env.workbook path = .ok worksheet := by
  cases ch with
  | run =>
    cases h
    refine ⟨rfl, fun worksheet hr => ?_⟩
    cases he : C.env.workbook path with
    | error f => rw [he] at hr; cases hr
    | ok ws => rw [he] at hr; cases hr; rfl
  | fail f => cases h; exact ⟨rfl, fun _ h => by cases h⟩
  | lost f => cases h

/-- Without further chunks the generator ends. -/
theorem nextValidatedChunk_nil {Φ : Slice → Prop} (tracker : DuplicateTracker)
    (hΦ : ∀ y, Φ y → Claimed c y) :
    C.Spec p t (Owner C p c.importId Φ (Clean p) ρ)
      (nextValidatedChunk C.env c.importId [] tracker)
      (Outcome (fun o x => o = none ∧ Owner C p c.importId Φ (Clean p) ρ x)
        (Raised C p c.importId (fun _ => Claimed c) ρ)) := by
  refine seq (structureErrors_spec (silent_owner (by trivial) (Θ := fun _ => Φ) local_staged
    (fun _ _ _ _ h => readRows_exec h) (fun _ _ _ _ _ h => h) fun _ _ _ y _ h => hΦ y h)) fun _ => ?_
  exact ret fun x h => ⟨rfl, h⟩

/-- The next chunk, classified. -/
theorem nextValidatedChunk_cons {k : Cut} {chunk : List ParsedWorkbookRow}
    {chunks : List (List ParsedWorkbookRow)} :
    C.Spec p t
      (Owner C p c.importId (fun y => AtCut C p c k y ∧
        Opened C.env c (k.done ++ chunk ++ chunks.flatten)) (Clean p) ρ)
      (nextValidatedChunk C.env c.importId (chunk :: chunks) k.tracker)
      (Outcome (fun o x => ∃ cur tracker, o = some (cur, tracker) ∧ Owner C p c.importId
          (ChunkReady C p c ⟨k, chunk, tracker, chunks.flatten⟩ cur) (Clean p) ρ x)
        (Raised C p c.importId (fun _ => Claimed c) ρ)) := by
  refine seq (structureErrors_spec (silent_owner (by trivial) (Θ := fun _ y => AtCut C p c k y ∧
    Opened C.env c (k.done ++ chunk ++ chunks.flatten)) local_staged
    (fun _ _ _ _ h => readRows_exec h) (fun _ _ _ _ _ h => h)
    fun _ _ _ y _ h => h.1.claimed)) fun _ => ?_
  have hunseen : ∀ code ∈ k.tracker.unseenCodes (chunkCodes (chunk.map (prepareRow C.env.adapters))),
      code ∉ k.tracker.seenShipmentCodes := by
    intro code hc
    simpa using (List.mem_filter.1 hc).2
  refine seq (findExistingShipmentCodes_spec (Ψ := fun _ => Claimed c)
    (fun _ y h => h.1.claimed) (Θ := fun existing y => (AtCut C p c k y ∧
      Opened C.env c (k.done ++ chunk ++ chunks.flatten)) ∧
      ∀ fz, C.frozen = some fz → fz.importId = c.importId → existing = lookupIn fz.codes
        (k.tracker.unseenCodes (chunkCodes (chunk.map (prepareRow C.env.adapters)))))
    (fun hnil y h => ⟨h, fun fz _ _ => by rw [hnil]; rfl⟩)
    fun w g hi hclean h => ⟨h, fun fz hz he => ?_⟩) fun existing => ?_
  · have ho := h.2
    rw [List.append_assoc] at ho
    exact h.1.lookup hi hclean ho hz he hunseen
  · refine ret fun x h => ⟨_, _, rfl, h.mono (fun y hy => ?_) (fun _ h => h) fun _ h => h⟩
    obtain ⟨⟨hat, ho⟩, hex⟩ := hy
    refine ⟨hat, ho, ValidationChunkResult.ok_classifyChunk ho.numbers.2, fun fz hz he => ?_⟩
    rw [hex fz hz he]
    rfl

theorem openChunks_spec :
    C.Spec p t (Owner C p c.importId (AtCut C p c .start) (Clean p) ρ)
      (openChunks C.env c.storedFilePath)
      (Outcome (fun chunks => Owner C p c.importId (fun y => AtCut C p c .start y ∧
          Opened C.env c chunks.flatten) (Clean p) ρ)
        (Raised C p c.importId (fun _ => Claimed c) ρ)) := by
  refine seq (structureErrors_spec (silent_owner (by trivial)
    (Θ := fun worksheet y =>
      AtCut C p c .start y ∧ C.env.workbook c.storedFilePath = .ok worksheet) local_staged
    (fun _ _ _ _ h => (loadWorkbook_exec h).1)
    (fun _ _ _ _ h hy => ⟨hy, (loadWorkbook_exec h).2 _ rfl⟩)
    fun _ _ _ y _ h => h.claimed)) fun worksheet => ?_
  cases hch : XlsxParser.iterChunks C.env.settings.processingRowChunkSize.1 worksheet with
  | error message =>
    exact raise fun x h => h.mono (fun y hy => hy.1.claimed) (fun _ _ => trivial) fun _ h => h
  | ok chunks =>
    exact ret fun x h => h.mono (fun y hy => ⟨hy.1, worksheet, hy.2,
      XlsxParser.flatten_iterChunks hch⟩) (fun _ h => h) fun _ h => h

/-- Opening the workbook, and its first chunk. -/
theorem firstValidatedChunk_spec :
    C.Spec p t (Owner C p c.importId (AtCut C p c .start) (Clean p) ρ)
      (firstValidatedChunk C.env c)
      (Outcome (fun o x =>
          (o = none ∧ Owner C p c.importId (fun y => AtCut C p c .start y ∧ Opened C.env c [])
            (Clean p) ρ x) ∨
          ∃ cur chunk chunks tracker, o = some (cur, chunks, tracker) ∧ Owner C p c.importId
            (ChunkReady C p c ⟨.start, chunk, tracker, chunks.flatten⟩ cur) (Clean p) ρ x)
        (Raised C p c.importId (fun _ => Claimed c) ρ)) := by
  refine seq openChunks_spec fun chunks => ?_
  cases chunks with
  | nil =>
    refine seq (nextValidatedChunk_nil {} fun y h => h.1.claimed) fun o => ?_
    refine ret fun x ⟨e, h⟩ => .inl ⟨?_, h⟩
    rw [e]
    rfl
  | cons chunk chunks =>
    refine seq (nextValidatedChunk_cons (k := .start)) fun o => ?_
    refine ret fun x ⟨cur, tracker, e, h⟩ => .inr ⟨cur, chunk, chunks, tracker, ?_, h⟩
    rw [e]
    rfl

/-! ### The commit of a chunk -/

theorem records_vals {errors : List ImportErrorRow} {E : List (Version ImportErrorRow)}
    (h : List.Forall₂ (Records p) errors E) (hs : ∀ e ∈ errors, e.rawData.jsonbSafe = e.rawData) :
    E.map (·.val) = errors := by
  induction h with
  | nil => rfl
  | @cons e v _ _ hd _ ih =>
    rw [List.map_cons, ih fun e he => hs e (List.mem_cons_of_mem _ he), hd.1,
      hs e List.mem_cons_self]

/-- What is known when a chunk transaction fails: a conflict, which is raised before the commit,
leaves the chunk to be corrected. -/
def ChunkFailed (C : Setting) (p : Nat) (c : ClaimedImport) (k : Reading)
    (cur : ValidationChunkResult) (e : Exc) (y : Slice) : Prop :=
  Claimed c y ∧ (e = .raised .integrityError → ChunkReady C p c k cur y)

/-- What is known when it is committed. -/
def ChunkDone (C : Setting) (p : Nat) (c : ClaimedImport) (k : Reading)
    (cur : ValidationChunkResult) (y : Slice) : Prop :=
  AtCut C p c (k.next cur) y ∧ Opened C.env c (k.cut.done ++ k.chunk ++ k.rest)

theorem ChunkReady.failed {k : Reading} {cur : ValidationChunkResult} {y : Slice}
    (h : ChunkReady C p c k cur y) (e : Exc) : ChunkFailed C p c k cur e y :=
  ⟨h.at_.claimed, fun _ => h⟩

/-- The step that a chunk transaction is. -/
theorem ChunkReady.commits {w : World} {g : Ghost} (hi : C.Inv (w, g)) {k : Reading}
    {cur : ValidationChunkResult} (h : ChunkReady C p c k cur (w.db.slice c.importId))
    (hwr : Wrote p c.importId (ChunkWrites p cur) (Inserting p cur.shipments cur.importErrors) w.db) :
    Commits C p c.importId (ChunkDone C p c k cur) w ∧
      ¬ ((w.commit p).db.slice c.importId).Pending := by
  obtain ⟨r, _, S, E, ⟨hadm, rfl⟩, hS, hE, htk⟩ := hwr.takes_inserting hi.wf
    (fun s hs => h.ok.shipment_importId hs) (fun e he => (h.ok.errors e he).1) w.time
  have hvals := records_vals hE fun e he => (h.ok.errors e he).2.2
  have hst : r.val.status = .processing := hadm.1
  refine ⟨htk.commits hwr.outbox ?_ (fun e => ?_) (fun _ _ => ?_) hadm.2, fun hp => ?_⟩
  · refine .chunk S E _ _ _ hadm ?_ ?_ ?_ ?_
    · rw [h.ok.success_eq, hS.length_eq]
    · rw [hvals, h.ok.failed]
    · rw [h.ok.total, h.ok.counts]
    · intro e he e' he'
      obtain ⟨x, hx, hex, -⟩ := forall₂_mem_right h.at_.errors he
      obtain ⟨x', hx', hex', -⟩ := forall₂_mem_right hE he'
      obtain ⟨-, ⟨q, hq, hqe⟩, -⟩ := h.at_.ok.errors x hx
      obtain ⟨-, ⟨q', hq', hqe'⟩, -⟩ := h.ok.errors x' hx'
      rw [hex, hex']
      show x.rowNumber ≠ x'.rowNumber
      rw [← hqe, ← hqe']
      exact h.opened.numbers.1 q hq q' hq'
  · have : r.val.status = .completed := e
    rw [hst] at this
    cases this
  · obtain ⟨r', hr', h1, h2, h3⟩ := h.at_.claimed
    rw [htk.before] at hr'
    cases hr'
    exact ⟨h.next hS hE ⟨_, rfl, h1, h2, h3⟩, h.opened⟩
  · rw [show (w.commit p).db.slice c.importId = _ from htk.after] at hp
    have : some r.val.status = some .pending := hp
    rw [hst] at this
    cases this

theorem commitChunk_spec (ht : t.role = .worker) (k : Reading) (cur : ValidationChunkResult) :
    C.Spec p t (Owner C p c.importId (ChunkReady C p c k cur)
        (Wrote p c.importId (ChunkWrites p cur) (Inserting p cur.shipments cur.importErrors)) ρ)
      (Py.stmt .commit)
      (Outcome (fun _ => Owner C p c.importId (ChunkDone C p c k cur) (fun d => d.Idle p) ρ)
        (Raised C p c.importId (ChunkFailed C p c k cur) ρ)) := by
  refine commit_owner ht (fun w g hi ha => ?_) (fun f y hf h => h.failed _)
    fun f y hf h => ⟨h.1.claimed, fun e => absurd (Exc.raised.inj e) hf⟩
  have htok := ha.2.1.hasToken hi.wf fun now r cur' h => h.1.2
  obtain ⟨h1, h2⟩ := (ha.1 htok).commits hi ha.2.1
  exact ⟨h1, fun hp => absurd hp h2⟩

/-! ### The correction after a duplicate race -/

/-- The valid rows of a chunk classified against fixed codes are not among these codes. -/
theorem ChunkReady.valid_codes {k : Reading} {cur : ValidationChunkResult} {y : Slice}
    (h : ChunkReady C p c k cur y) {fz : Frozen C.env} (hz : C.frozen = some fz)
    (he : fz.importId = c.importId) {v : ValidatedShipmentRow} (hv : v ∈ cur.validRows) :
    v.shipment.shipmentCode ∉ k.cut.tracker.seenShipmentCodes ∧
      v.shipment.shipmentCode ∉ fz.codes := by
  obtain ⟨acc, hsub, hacc⟩ := h.ok.accepted
  obtain ⟨q, hq, r, hr, rfl⟩ := forall₂_mem_right hacc hv
  have hq' := hsub.subset hq
  have hcoded : ∀ q ∈ k.chunk.map (prepareRow C.env.adapters), q.Coded := by
    intro q hq
    obtain ⟨row, -, rfl⟩ := List.mem_map.1 hq
    exact prepareRow_coded _ row
  have hex := h.frozen fz hz he
  unfold Reading.expected at hex
  have hcur := congrArg Prod.fst hex
  simp only at hcur
  rw [hcur] at hv
  obtain ⟨h1, h2⟩ := classifyChunk_fresh hcoded hv
  exact ⟨h1, fun hm => h2 ((mem_lookupIn_unseen hq' (hcoded q hq' r hr) h1).2 hm)⟩

theorem reclassifyDatabaseDuplicates_spec (k : Reading) (cur : ValidationChunkResult) :
    C.Spec p t (Owner C p c.importId (ChunkReady C p c k cur) (Clean p) ρ)
      (reclassifyDatabaseDuplicates c.importId cur)
      (Outcome (fun corrected => Owner C p c.importId (ChunkReady C p c k corrected) (Clean p) ρ)
        (Raised C p c.importId (fun _ => Claimed c) ρ)) := by
  refine seq (findExistingShipmentCodes_spec (Ψ := fun _ => Claimed c)
    (fun _ y h => h.at_.claimed) (Θ := fun existing y => ChunkReady C p c k cur y ∧
      ∀ fz, C.frozen = some fz → fz.importId = c.importId → existing = [])
    (fun _ y h => ⟨h, fun _ _ _ => rfl⟩) fun w g hi hclean h => ⟨h, fun fz hz he => ?_⟩)
    fun existing => ret fun x h => h.mono (fun y hy => hy.1.reclassify hy.2) (fun _ h => h)
      fun _ h => h
  have hv : ∀ code ∈ (cur.validRows.map fun v => v.shipment.shipmentCode).dedup,
      code ∉ k.cut.tracker.seenShipmentCodes ∧ code ∉ fz.codes := by
    intro code hc
    rw [List.mem_dedup] at hc
    obtain ⟨v, hv, rfl⟩ := List.mem_map.1 hc
    exact h.valid_codes hz he hv
  have ho := h.opened
  rw [List.append_assoc] at ho
  rw [h.at_.lookup hi hclean ho hz he fun code hc => (hv code hc).1]
  exact List.filter_eq_nil_iff.2 fun code hc => by simpa using (hv code hc).2

theorem spin_spec {A : Assertion} : C.Spec p t A (Py.stmt .spin) (Outcome (fun _ _ => False)
    fun _ _ => False) := by
  refine stmt (stable_outcome (fun _ => stable_false) fun _ => stable_false)
    fun w g r w' ch hi ha he => ?_
  cases ch <;> cases he

/-- The second transaction of a chunk before its commit: it wrote the corrected chunk, or nothing.
-/
def RetryWritten (C : Setting) (p : Nat) (c : ClaimedImport) (ρ : Option ImportId → Prop)
    (k : Reading) (corrected : ValidationChunkResult) : Option ValidationChunkResult → Assertion
  | none => Owner C p c.importId (ChunkReady C p c k corrected) (Clean p) ρ
  | some result => fun x => result = corrected ∧ Owner C p c.importId
      (ChunkReady C p c k corrected) (Wrote p c.importId (ChunkWrites p corrected)
        (Inserting p corrected.shipments corrected.importErrors)) ρ x

/-- What is known when it raises, with the corrected chunk if that was made. -/
def RetryFailed (C : Setting) (p : Nat) (c : ClaimedImport) (ρ : Option ImportId → Prop)
    (k : Reading) : Option ValidationChunkResult → Exc → Assertion
  | none, _ => Owner C p c.importId (Claimed c) (fun _ => True) ρ
  | some corrected, e => Owner C p c.importId (ChunkFailed C p c k corrected e) (fun _ => True) ρ

/-- What its outcome says. -/
def RetryEnded (C : Setting) (p : Nat) (c : ClaimedImport) (ρ : Option ImportId → Prop)
    (k : Reading) : Attempt ValidationChunkResult (Option ValidationChunkResult) → Assertion
  | .ok none => Owner C p c.importId (Claimed c) (fun d => d.Idle p) ρ
  | .ok (some corrected) =>
    Owner C p c.importId (ChunkDone C p c k corrected) (fun d => d.Idle p) ρ
  | .error (none, _) => Owner C p c.importId (Claimed c) (fun d => d.Idle p) ρ
  | .error (some corrected, e) =>
    Owner C p c.importId (ChunkFailed C p c k corrected e) (fun d => d.Idle p) ρ

/-- `_persist_chunk_after_duplicate_race`: when it returns, the chunk is committed. -/
theorem persistChunkAfterDuplicateRace_spec (ht : t.role = .worker) (hc : c.processingToken = p)
    (k : Reading) (originalError : Exc) (fuel : Nat) : ∀ cur : ValidationChunkResult,
    C.Spec p t (Owner C p c.importId (ChunkReady C p c k cur) (fun d => d.Idle p) ρ)
      (persistChunkAfterDuplicateRace c originalError fuel cur)
      (Outcome (fun cur' => Owner C p c.importId (ChunkDone C p c k cur') (fun d => d.Idle p) ρ)
        (Failed C p c ρ)) := by
  induction fuel with
  | zero =>
    intro cur
    unfold persistChunkAfterDuplicateRace
    exact seq (weaken spin_spec (fun _ _ h => h) fun _ _ h => h.elim) fun never => never.elim
  | succ fuel ih =>
    intro cur
    unfold persistChunkAfterDuplicateRace
    refine seq (M := RetryEnded C p c ρ k) ?_ ?_
    · refine weaken (Setting.Spec.transaction
        (M := fun corrected => Owner C p c.importId (ChunkReady C p c k corrected) (Clean p) ρ)
        (N := RetryWritten C p c ρ k) (E := RetryFailed C p c ρ k)
        ?_ (fun corrected => ?_) (fun corrected o => ?_) fun o e => ?_)
        (fun _ _ h => h) fun _ _ h => h.elim
      · refine seq ((requireCurrentOwnership_spec (Ψ := fun _ => Claimed c)
          fun _ y h => h.at_.claimed).pre fun x h => h.mono (fun _ h => h) (fun _ h => h.clean)
            fun _ h => h) fun _ => ?_
        exact reclassifyDatabaseDuplicates_spec k cur
      · split
        · exact ret fun _ h => h
        · exact seq (persistChunk_spec hc (fun e y h => h.failed e) corrected) fun _ =>
            ret fun _ h => ⟨rfl, h⟩
      · cases o with
        | none =>
          exact weaken (commit_clean_owner ht (Ψ := ChunkFailed C p c k corrected)
            fun e y h => h.failed e) (fun _ x h => h.mono (fun y hy => hy.at_.claimed)
              (fun _ h => h) fun _ h => h) fun _ _ h => h
        | some result =>
          refine Protocol.Triple.of_and fun e => ?_
          subst e
          exact commitChunk_spec ht k result
      · cases o with
        | none =>
          dsimp only [RetryFailed, RetryEnded]
          exact rollback_owner (.inl rfl)
        | some corrected =>
          dsimp only [RetryFailed, RetryEnded]
          exact rollback_owner (.inl rfl)
    · rintro (⟨o, e⟩ | o)
      · cases o with
        | none =>
          dsimp only
          split
          · exact raise fun _ h => h
          · exact raise fun _ h => h
        | some corrected =>
          dsimp only [RetryEnded]
          split
          · next he =>
            exact (ih corrected).pre fun x h => h.mono (fun y hy => hy.2 he) (fun _ h => h)
              fun _ h => h
          · exact raise fun x h => h.mono (fun y hy => hy.1) (fun _ h => h) fun _ h => h
      · cases o with
        | none => exact raise fun _ h => h
        | some corrected => exact ret fun _ h => h

/-! ### The loop over the chunks -/

/-- The first part of the transaction of the next chunk, with the chunk that was read if any. -/
def NextRead {α : Type} (C : Setting) (p : Nat) (c : ClaimedImport) (ρ : Option ImportId → Prop)
    (Θ : Slice → Prop) (K : α → Reading → Prop) : Option (ValidationChunkResult × α) → Assertion
  | none => Owner C p c.importId Θ (Clean p) ρ
  | some (cur, a) => fun x => ∃ k, K a k ∧
      Owner C p c.importId (ChunkReady C p c k cur) (Clean p) ρ x

/-- The transaction of the next chunk before its commit. -/
def NextWritten {α : Type} (C : Setting) (p : Nat) (c : ClaimedImport) (ρ : Option ImportId → Prop)
    (Θ : Slice → Prop) (K : α → Reading → Prop) :
    Option (ValidationChunkResult × α) → Option (ValidationChunkResult × α) → Assertion
  | none, o => fun x => o = none ∧ Owner C p c.importId Θ (Clean p) ρ x
  | some (cur, a), o => fun x => o = some (cur, a) ∧ ∃ k, K a k ∧
      Owner C p c.importId (ChunkReady C p c k cur) (Wrote p c.importId (ChunkWrites p cur)
        (Inserting p cur.shipments cur.importErrors)) ρ x

/-- What is known when it raises. -/
def NextFailed {α : Type} (C : Setting) (p : Nat) (c : ClaimedImport) (ρ : Option ImportId → Prop)
    (K : α → Reading → Prop) : Option (Option (ValidationChunkResult × α)) → Exc → Assertion
  | some (some (cur, a)), e => fun x => ∃ k, K a k ∧
      Owner C p c.importId (ChunkFailed C p c k cur e) (fun _ => True) ρ x
  | some none, _ | none, _ => Owner C p c.importId (Claimed c) (fun _ => True) ρ

/-- What its outcome says. -/
def NextEnded {α : Type} (C : Setting) (p : Nat) (c : ClaimedImport) (ρ : Option ImportId → Prop)
    (Θ : Slice → Prop) (K : α → Reading → Prop) :
    Attempt (Option (ValidationChunkResult × α)) (Option (ValidationChunkResult × α)) → Assertion
  | .ok none => Owner C p c.importId Θ (fun d => d.Idle p) ρ
  | .ok (some (cur, a)) => fun x => ∃ k, K a k ∧
      Owner C p c.importId (ChunkDone C p c k cur) (fun d => d.Idle p) ρ x
  | .error (some (some (cur, a)), e) => fun x => ∃ k, K a k ∧
      Owner C p c.importId (ChunkFailed C p c k cur e) (fun d => d.Idle p) ρ x
  | .error (some none, _) | .error (none, _) =>
    Owner C p c.importId (Claimed c) (fun d => d.Idle p) ρ

/-- `_process_next_chunk`. The chunk that `next` yields is `read a`. -/
theorem processNextChunk_spec (ht : t.role = .worker) (hc : c.processingToken = p) {α : Type}
    {f : Py (Option (ValidationChunkResult × α))} {Φ Θ : Slice → Prop}
    {K : α → Reading → Prop}
    (hf : C.Spec p t (Owner C p c.importId Φ (Clean p) ρ) f
      (Outcome (fun o => match o with
        | none => Owner C p c.importId Θ (Clean p) ρ
        | some (cur, a) => fun x => ∃ k, K a k ∧
            Owner C p c.importId (ChunkReady C p c k cur) (Clean p) ρ x)
        (Raised C p c.importId (fun _ => Claimed c) ρ)))
    (hΦ : ∀ y, Φ y → Claimed c y) (hΘ : ∀ y, Θ y → Claimed c y) :
    C.Spec p t (Owner C p c.importId Φ (fun d => d.Idle p) ρ) (processNextChunk c f)
      (Outcome (fun o => match o with
        | none => Owner C p c.importId Θ (fun d => d.Idle p) ρ
        | some (cur, a) => fun x => ∃ k, K a k ∧
            Owner C p c.importId (ChunkDone C p c k cur) (fun d => d.Idle p) ρ x)
        (Failed C p c ρ)) := by
  unfold processNextChunk
  refine seq (M := NextEnded C p c ρ Θ K) ?_ ?_
  · refine weaken (Setting.Spec.transaction
      (M := NextRead C p c ρ Θ K) (N := NextWritten C p c ρ Θ K)
      (E := NextFailed C p c ρ K)
      ?_ (fun o => ?_) (fun o o' => ?_) fun o e => ?_) (fun _ _ h => h) fun _ _ h => h.elim
    · exact seq ((requireCurrentOwnership_spec (Ψ := fun _ => Claimed c) fun _ => hΦ).pre
        fun x h => h.mono (fun _ h => h) (fun _ h => h.clean) fun _ h => h) fun _ => hf
    · rcases o with _ | ⟨cur, a⟩
      · exact ret fun _ h => ⟨rfl, h⟩
      · refine Protocol.Triple.of_exists fun k => Protocol.Triple.of_and fun hk => ?_
        exact seq (weaken (persistChunk_spec hc (fun e y h => h.failed e) cur) (fun _ _ h => h)
          fun e x h => ⟨k, hk, h⟩) fun _ => ret fun _ h => ⟨rfl, k, hk, h⟩
    · rcases o with _ | ⟨cur, a⟩
      · refine Protocol.Triple.of_and fun e => ?_
        subst e
        exact commit_clean_owner ht fun _ => hΘ
      · refine Protocol.Triple.of_and fun e => Protocol.Triple.of_exists fun k =>
          Protocol.Triple.of_and fun hk => ?_
        subst e
        exact weaken (commitChunk_spec ht k cur) (fun _ x h => ⟨k, hk, h⟩)
          fun e x h => ⟨k, hk, h⟩
    · rcases o with _ | _ | ⟨cur, a⟩
      · dsimp only [NextFailed, NextEnded]
        exact rollback_owner (.inl rfl)
      · dsimp only [NextFailed, NextEnded]
        exact rollback_owner (.inl rfl)
      · refine Protocol.Triple.of_exists fun k => Protocol.Triple.of_and fun hk => ?_
        exact weaken (rollback_owner (.inl rfl)) (fun _ x h => ⟨k, hk, h⟩) fun _ _ h => h
  · rintro (⟨o, e⟩ | o)
    · rcases o with _ | _ | ⟨cur, a⟩
      · dsimp only
        split
        · exact raise fun _ h => h
        · exact raise fun _ h => h
      · dsimp only
        split
        · exact raise fun _ h => h
        · exact raise fun _ h => h
      · refine Protocol.Triple.of_exists fun k => Protocol.Triple.of_and fun hk => ?_
        dsimp only [Option.join]
        split
        · next he =>
          exact seq ((persistChunkAfterDuplicateRace_spec ht hc k e _ cur).pre
            fun x h => h.mono (fun y hy => hy.2 he) (fun _ h => h) fun _ h => h)
            fun corrected => ret fun _ h => ⟨k, hk, h⟩
        · exact raise fun x h => h.mono (fun y hy => hy.1) (fun _ h => h) fun _ h => h
    · rcases o with _ | ⟨cur, a⟩
      · exact ret fun _ h => h
      · exact ret fun _ h => h

/-- The counts of a result, as `run` sums them up. -/
def Totals.of (r : ValidationChunkResult) : Totals := ⟨r.totalRows, r.successCount, r.failedCount⟩

/-- All rows of the workbook are persisted, and `totals` counts them. -/
def Finished (C : Setting) (p : Nat) (c : ClaimedImport) (totals : Totals) (y : Slice) : Prop :=
  ∃ k : Cut, AtCut C p c k y ∧ Opened C.env c k.done ∧ totals = .of k.result

theorem Finished.claimed {totals : Totals} {y : Slice} (h : Finished C p c totals y) :
    Claimed c y := by
  obtain ⟨k, hk, -⟩ := h
  exact hk.claimed

/-- The loop of `run` after its first pass. -/
theorem processChunks_spec (ht : t.role = .worker) (hc : c.processingToken = p)
    (chunks : List (List ParsedWorkbookRow)) : ∀ k : Cut,
    C.Spec p t (Owner C p c.importId (fun y => AtCut C p c k y ∧
        Opened C.env c (k.done ++ chunks.flatten)) (fun d => d.Idle p) ρ)
      (processChunks C.env c chunks k.tracker (.of k.result))
      (Outcome (fun totals => Owner C p c.importId (Finished C p c totals) (fun d => d.Idle p) ρ)
        (Failed C p c ρ)) := by
  induction chunks with
  | nil =>
    intro k
    unfold processChunks
    refine seq (processNextChunk_spec ht hc (K := fun _ _ => False)
      (Θ := Finished C p c (.of k.result)) ((nextValidatedChunk_nil k.tracker fun y h =>
        h.1.claimed).post fun r x h => ?_) (fun y h => h.1.claimed) fun y h => h.claimed) fun o => ?_
    · cases r with
      | error e => exact h
      | ok o =>
        obtain ⟨rfl, h⟩ := h
        refine h.mono (fun y hy => ⟨k, hy.1, ?_, rfl⟩) (fun _ h => h) fun _ h => h
        simpa using hy.2
    · match o with
      | none => exact ret fun _ h => h
      | some (cur, a) => exact fun x ⟨_, h, _⟩ => h.elim
  | cons chunk chunks ih =>
    intro k
    rw [List.flatten_cons, ← List.append_assoc]
    unfold processChunks
    refine seq (processNextChunk_spec ht hc
      (K := fun a k' => k' = (⟨k, chunk, a, chunks.flatten⟩ : Reading))
      (Θ := Finished C p c (.of k.result))
      (nextValidatedChunk_cons.post fun r x h => ?_)
      (fun y h => h.1.claimed) fun y h => h.claimed) fun o => ?_
    · cases r with
      | error e => exact h
      | ok o =>
        obtain ⟨cur, tracker, rfl, h⟩ := h
        exact ⟨_, rfl, h⟩
    · match o with
      | none => exact ret fun _ h => h
      | some (cur, tracker) =>
        refine Protocol.Triple.of_exists fun k' => Protocol.Triple.of_and fun e => ?_
        subst e
        exact (ih ⟨k.done ++ chunk, k.result.add cur, tracker⟩).pre fun x h => h

/-- The loop of `run`. -/
theorem processAllChunks_spec (ht : t.role = .worker) (hc : c.processingToken = p) :
    C.Spec p t (Owner C p c.importId (AtCut C p c .start) (fun d => d.Idle p) ρ)
      (processAllChunks C.env c)
      (Outcome (fun totals => Owner C p c.importId (Finished C p c totals) (fun d => d.Idle p) ρ)
        (Failed C p c ρ)) := by
  unfold processAllChunks
  refine seq (processNextChunk_spec ht hc
    (K := fun (a : List (List ParsedWorkbookRow) × DuplicateTracker) k' => ∃ chunk,
      k' = (⟨.start, chunk, a.2, a.1.flatten⟩ : Reading))
    (Θ := Finished C p c {}) (firstValidatedChunk_spec.post fun r x h => ?_)
    (fun y h => h.claimed) fun y h => h.claimed) fun o => ?_
  · cases r with
    | error e => exact h
    | ok o =>
      rcases h with ⟨rfl, h⟩ | ⟨cur, chunk, chunks, tracker, rfl, h⟩
      · exact h.mono (fun y hy => ⟨.start, hy.1, hy.2, rfl⟩) (fun _ h => h) fun _ h => h
      · exact ⟨_, ⟨chunk, rfl⟩, h⟩
  · match o with
    | none => exact ret fun _ h => h
    | some (cur, chunks, tracker) =>
      refine Protocol.Triple.of_exists fun k' => Protocol.Triple.of_and fun ⟨chunk, e⟩ => ?_
      subst e
      have he : ({} : Totals).add cur = .of (Cut.start.result.add cur) := by
        simp [Totals.add, Totals.of, ValidationChunkResult.add, Cut.start,
          ValidationChunkResult.empty]
      show C.Spec p t _ (processChunks C.env c chunks tracker (({} : Totals).add cur)) _
      rw [he]
      exact (processChunks_spec ht hc chunks ⟨chunk, Cut.start.result.add cur, tracker⟩).pre
        fun x h => h

/-! ### The completion -/

theorem forall₂_comp {α β γ : Type} {P : α → β → Prop} {Q : β → γ → Prop} {as : List α}
    {bs : List β} {cs : List γ} (h : List.Forall₂ P as bs) (h' : List.Forall₂ Q bs cs) :
    List.Forall₂ (fun a d => ∃ b, P a b ∧ Q b d) as cs := by
  induction h generalizing cs with
  | nil => cases h'; exact .nil
  | cons hd _ ih =>
    cases h' with
    | cons hd' htl => exact .cons ⟨_, hd, hd'⟩ (ih htl)

/-- A finished import has every row of its workbook exactly once. -/
theorem AtCut.persisted {k : Cut} {y : Slice} (h : AtCut C p c k y) (ho : Opened C.env c k.done)
    {r : Version ImportJob} (hid : r.id = c.importId)
    (hr : r.val.storedFilePath = c.storedFilePath) :
    Persisted C.env r y.shipments y.importErrors := by
  obtain ⟨acc, hsub, hacc⟩ := h.ok.accepted
  obtain ⟨accepted, hsub', rfl⟩ := List.sublist_map_iff.1 hsub
  rw [List.forall₂_map_left_iff] at hacc
  have hn := ho.nodup
  obtain ⟨worksheet, hw, hrows⟩ := ho
  have hstored : List.Forall₂ (fun vr v => Stores p vr.shipment v) k.result.validRows
      y.shipments := by
    have := h.shipments
    rwa [h.ok.shipments, List.forall₂_map_left_iff] at this
  have hvals := records_vals h.errors fun e he => (h.ok.errors e he).2.2
  have hmem : ∀ e ∈ y.importErrors, e.val ∈ k.result.importErrors := fun e he =>
    hvals ▸ List.mem_map_of_mem he
  refine ⟨worksheet, k.done, accepted, hr ▸ hw, hrows, hsub', ?_, fun row hrow => ⟨?_, ?_⟩, ?_⟩
  · refine (forall₂_comp hacc hstored).imp fun row v ⟨vr, ⟨q, hq, e⟩, hs, _⟩ => ⟨q, hq, ?_⟩
    rw [e] at hs
    rw [hid]
    exact hs
  · intro ha e he
    obtain ⟨vr, hvr, q, -, rfl⟩ := forall₂_mem_left hacc ha
    exact h.ok.disjoint _ hvr _ (hmem e he)
  · intro hne
    rcases h.ok.covered _ (List.mem_map_of_mem hrow) with ⟨vr, hvr, e⟩ | ⟨x, hx, e⟩
    · obtain ⟨row', hrow', q, -, rfl⟩ := forall₂_mem_right hacc hvr
      rwa [← List.inj_on_of_nodup_map hn (hsub'.subset hrow') hrow e]
    · rw [← hvals] at hx
      obtain ⟨v, hv, rfl⟩ := List.mem_map.1 hx
      exact absurd e (hne v hv)
  · intro e he
    obtain ⟨-, ⟨q, hq, hqe⟩, -⟩ := h.ok.errors _ (hmem e he)
    obtain ⟨row, hrow, rfl⟩ := List.mem_map.1 hq
    exact ⟨row, hrow, hqe⟩

/-- Against fixed codes of the others, a finished import is what `validate` returns. -/
theorem AtCut.matched {k : Cut} {y : Slice} (h : AtCut C p c k y) (ho : Opened C.env c k.done)
    {fz : Frozen C.env} (hz : C.frozen = some fz) (hi : fz.importId = c.importId)
    {r : Version ImportJob} (hr : r.val.storedFilePath = c.storedFilePath) (now : Time) :
    fz.Matched ⟨some (rewrite p (.progress now p (.complete k.result.totalRows
      k.result.successCount k.result.failedCount)) r), y.shipments, y.importErrors⟩ := by
  obtain ⟨h1, -⟩ := h.frozen fz hz hi
  obtain ⟨worksheet, hw, hrows⟩ := ho
  have hvals := records_vals h.errors fun e he => (h.ok.errors e he).2.2
  have hcounts := h.ok.counts
  have htotal := h.ok.total
  refine ⟨_, worksheet, (onePass c.importId fz.codes
    (k.done.map (prepareRow C.env.adapters))).toResult k.done.length, rfl, ?_, fun n => ?_,
    ?_, ?_, ?_, ?_, ?_, ?_⟩
  · exact (congrArg C.env.workbook hr).trans hw
  · rw [hi, validate_eq_onePass, hrows]
    rfl
  all_goals rw [h1] at hcounts htotal hvals
  · exact (congrArg ValidationChunkResult.totalRows h1).trans rfl
  · refine (congrArg ValidationChunkResult.totalRows h1).trans ?_
    exact htotal.trans hcounts.symm
  · exact (congrArg ValidationChunkResult.successCount h1).trans rfl
  · exact (congrArg ValidationChunkResult.failedCount h1).trans rfl
  · have hs := h.shipments
    rw [h1] at hs
    exact hs.imp fun _ _ h => h.1
  · exact hvals

/-- The last transaction of an attempt. -/
theorem complete_spec (ht : t.role = .worker) (hc : c.processingToken = p) (totals : Totals) :
    C.Spec p t (Owner C p c.importId (Finished C p c totals) (fun d => d.Idle p) ρ)
      (inTransaction (updateClaimedOrStop c
        (.complete totals.totalRows totals.successCount totals.failedCount)))
      (Outcome (fun _ => Owner C p c.importId (fun _ => True) (fun d => d.Idle p) ρ)
        (Failed C p c ρ)) := by
  refine Setting.Spec.inTransaction (E := Raised C p c.importId (fun _ => Claimed c) ρ)
    ((updateClaimedOrStop_first hc fun _ y h => h.claimed).pre fun x h =>
      h.mono (fun _ h => h) (fun _ h => h.clean) fun _ h => h) (fun _ => ?_)
    fun e => rollback_owner (.inl rfl)
  refine weaken (commit_owner (Θ := fun _ => False) ht (fun w g hi ha => ?_)
    (fun _ y _ h => h.claimed) fun _ y _ h => h.elim) (fun _ x h => h.mono (fun _ h => h.elim)
      (fun _ h => h) fun _ h => h) fun _ _ h => h
  have htok := ha.2.1.hasToken hi.wf fun now r cur h => h.hasToken
  obtain ⟨k, hk, ho, rfl⟩ := ha.1 htok
  obtain ⟨r, cur, ⟨hadm, rfl⟩, htk⟩ := ha.2.1.takes hi.wf w.time
  obtain ⟨r', hr', -, -, hpath⟩ := hk.claimed
  rw [htk.before] at hr'
  cases hr'
  have hid : r.id = c.importId := by
    have := htk.before
    exact ((Database.job_eq_some hi.wf).1 (by rw [this])).2
  have hvals := records_vals hk.errors fun e he => (hk.ok.errors e he).2.2
  refine ⟨htk.commits ha.2.1.outbox (.complete _ _ _ hadm ?_ ?_ ?_ ⟨?_, ?_⟩ ?_)
    (fun _ fz hz he => ?_) (fun _ h => by cases h) hadm.2, fun hp => ?_⟩
  · exact hk.ok.success_eq.trans hk.shipments.length_eq
  · rw [hvals]
    exact hk.ok.failed
  · exact hk.ok.total.trans hk.ok.counts.symm
  · intro v hv
    obtain ⟨s, -, -, hw⟩ := forall₂_mem_right hk.shipments hv
    exact hw
  · intro v hv
    obtain ⟨e, -, -, hw⟩ := forall₂_mem_right hk.errors hv
    exact hw
  · exact hk.persisted ho hid hpath
  · exact hk.matched ho hz he hpath _
  · rw [show (w.commit p).db.slice c.importId = _ from htk.after] at hp
    cases hp

/-- What `run` does with the import it claimed. -/
theorem processClaimed_spec (ht : t.role = .worker) (hc : c.processingToken = p) :
    C.Spec p t (Owner C p c.importId (Claimed c) (fun d => d.Idle p) ρ) (processClaimed C.env c)
      (Outcome (fun _ => Owner C p c.importId (fun _ => True) (fun d => d.Idle p) ρ)
        (Failed C p c ρ)) := by
  refine seq (prepareForReprocessing_spec ht hc) fun _ => ?_
  refine seq (processAllChunks_spec ht hc) fun totals => ?_
  exact complete_spec ht hc totals

end

end ShipmentImport
