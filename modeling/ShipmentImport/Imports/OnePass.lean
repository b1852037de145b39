import ShipmentImport.Imports.ChunkResults
import ShipmentImport.Imports.RowIssues

/-!
# Validation in one pass

`onePass` classifies the rows of a workbook by one loop, against a fixed set of codes in the
database. Classifying chunk by chunk, where every chunk looks up its unseen codes in that set and
hands its tracker to the next, is the same (`classifyChunk_onePass`), so `validate` does not depend
on its chunk size (`validate_eq_onePass`).

The codes of accepted rows are those the tracker has seen (`onePass_seen`), and of the texts of a
shipment its row stores all (`Shipment.Stripped.roundsTo`).
-/

namespace ShipmentImport

open List

section
variable (importId : ImportId) (database : List String)

/-- All rows of a workbook, classified by one loop. -/
def onePass (prepared : List PreparedRow) : ChunkState :=
  prepared.foldl (classifyRow importId [] database) {}

/-- What the rows classified so far make a `ValidationResult`. -/
def ChunkState.toResult (n : Nat) (st : ChunkState) : ValidationResult :=
  { totalRows := n
    processedRows := st.shipments.length + st.failedCount
    successCount := st.shipments.length
    failedCount := st.failedCount
    shipments := st.shipments
    importErrors := st.importErrors }

end

/-- The state after the rows of `a` and then those of `b`. -/
def ChunkState.append (a b : ChunkState) : ChunkState :=
  { shipments := a.shipments ++ b.shipments
    importErrors := a.importErrors ++ b.importErrors
    validRows := a.validRows ++ b.validRows
    chunkSeenCodes := b.chunkSeenCodes ++ a.chunkSeenCodes
    failedCount := a.failedCount + b.failedCount }

theorem ChunkState.append_empty (a : ChunkState) : a.append {} = a := by
  simp [append]

section
variable {importId : ImportId} {database : List String}

/-! ## Chunk by chunk -/

/-- The lookup of a chunk answers for the codes the tracker has not seen. -/
theorem duplicateIssues_append {seen existing chunkSeen : List String} {code : Option String}
    (h : ∀ c, code = some c → c ∉ seen → (c ∈ existing ↔ c ∈ database)) :
    duplicateIssues [] database (chunkSeen ++ seen) code =
      duplicateIssues seen existing chunkSeen code := by
  cases code with
  | none => rfl
  | some c =>
    simp only [duplicateIssues, List.not_mem_nil, false_or, List.mem_append]
    by_cases hs : c ∈ seen
    · simp [hs]
    · by_cases hc : c ∈ chunkSeen
      · simp [hc]
      · simp [hs, hc, h c rfl hs]

theorem classifyRow_append {existing : List String} {a st : ChunkState} {p : PreparedRow}
    (h : ∀ c, p.shipmentCode = some c → c ∉ a.chunkSeenCodes → (c ∈ existing ↔ c ∈ database)) :
    classifyRow importId [] database (a.append st) p =
      a.append (classifyRow importId a.chunkSeenCodes existing st p) := by
  have hd : duplicateIssues [] database (st.chunkSeenCodes ++ a.chunkSeenCodes) p.shipmentCode =
      duplicateIssues a.chunkSeenCodes existing st.chunkSeenCodes p.shipmentCode :=
    duplicateIssues_append h
  have hs : (a.append st).chunkSeenCodes = st.chunkSeenCodes ++ a.chunkSeenCodes := rfl
  unfold classifyRow
  simp only [hs, hd]
  split
  · simp [ChunkState.append, List.append_assoc]
  · simp [ChunkState.append, List.append_assoc, Nat.add_assoc]

theorem foldl_classifyRow_append {existing : List String} {a : ChunkState}
    {prepared : List PreparedRow}
    (h : ∀ p ∈ prepared, ∀ c, p.shipmentCode = some c → c ∉ a.chunkSeenCodes →
      (c ∈ existing ↔ c ∈ database)) (st : ChunkState) :
    prepared.foldl (classifyRow importId [] database) (a.append st) =
      a.append (prepared.foldl (classifyRow importId a.chunkSeenCodes existing) st) := by
  induction prepared generalizing st with
  | nil => rfl
  | cons p prepared ih =>
    rw [List.foldl_cons, List.foldl_cons, classifyRow_append (h p List.mem_cons_self),
      ih fun q hq => h q (List.mem_cons_of_mem _ hq)]

/-- The code of a prepared row is one of the codes of its chunk. -/
theorem mem_chunkCodes {prepared : List PreparedRow} {p : PreparedRow} (hp : p ∈ prepared)
    {c : String} (hc : p.shipmentCode = some c) : c ∈ chunkCodes prepared := by
  unfold chunkCodes
  rw [List.mem_dedup]
  exact List.mem_filterMap.2 ⟨p, hp, hc⟩

/-- What a lookup in `database` answers for the unseen codes of a chunk. -/
theorem mem_lookupIn_unseen {prepared : List PreparedRow} {tracker : DuplicateTracker}
    {p : PreparedRow} (hp : p ∈ prepared) {c : String} (hc : p.shipmentCode = some c)
    (hu : c ∉ tracker.seenShipmentCodes) :
    c ∈ lookupIn database (tracker.unseenCodes (chunkCodes prepared)) ↔ c ∈ database := by
  simp [lookupIn, DuplicateTracker.unseenCodes, hu, mem_chunkCodes hp hc]

/-- One more chunk, classified with the tracker that the rows before left. -/
theorem classifyChunk_onePass {done : List PreparedRow} {tracker : DuplicateTracker}
    (prepared : List PreparedRow)
    (ht : tracker.seenShipmentCodes = (onePass importId database done).chunkSeenCodes) :
    let answer := lookupIn database (tracker.unseenCodes (chunkCodes prepared))
    let next := classifyChunk importId prepared tracker answer
    (ValidationChunkResult.ofState done.length (onePass importId database done)).add next.1 =
        .ofState (done ++ prepared).length (onePass importId database (done ++ prepared)) ∧
      next.2.seenShipmentCodes = (onePass importId database (done ++ prepared)).chunkSeenCodes := by
  intro answer next
  have hfold : onePass importId database (done ++ prepared) =
      (onePass importId database done).append
        (prepared.foldl (classifyRow importId tracker.seenShipmentCodes answer) {}) := by
    rw [ht, ← foldl_classifyRow_append, ChunkState.append_empty]
    · exact List.foldl_append
    · intro p hp c hc hu
      exact mem_lookupIn_unseen hp hc (by rwa [ht])
  rw [hfold]
  constructor
  · simp only [ValidationChunkResult.ofState, ValidationChunkResult.add, ChunkState.append,
      classifyChunk, next, List.length_append]
    congr 1
    omega
  · simp only [next, classifyChunk, DuplicateTracker.rememberCodes, ChunkState.append, ht]

/-- `validate` for any chunking of the rows. -/
theorem iterValidatedChunks_onePass {A : Adapters} {chunks : List (List ParsedWorkbookRow)} :
    ∀ {done : List PreparedRow} {tracker : DuplicateTracker},
      tracker.seenShipmentCodes = (onePass importId database done).chunkSeenCodes →
      (iterValidatedChunks importId A database tracker chunks).foldl addChunk
          ((onePass importId database done).toResult done.length) =
        (onePass importId database (done ++ chunks.flatten.map (prepareRow A))).toResult
          (done ++ chunks.flatten.map (prepareRow A)).length := by
  induction chunks with
  | nil =>
    intro done tracker _
    simp [iterValidatedChunks]
  | cons chunk chunks ih =>
    intro done tracker ht
    obtain ⟨h1, h2⟩ := classifyChunk_onePass (chunk.map (prepareRow A)) ht
    have hadd : ∀ (r : ValidationChunkResult) (n m : Nat) (a b : ChunkState),
        (ValidationChunkResult.ofState n a).add r = .ofState m b →
        addChunk (a.toResult n) r = b.toResult m := by
      intro r n m a b hr
      simp only [ValidationChunkResult.add, ValidationChunkResult.ofState,
        ValidationChunkResult.mk.injEq] at hr
      obtain ⟨h1, -, h3, h4, h5, h6, -⟩ := hr
      simp only [addChunk, ChunkState.toResult, ValidationResult.mk.injEq]
      exact ⟨h1, by omega, h3, h4, h5, h6⟩
    rw [iterValidatedChunks, List.foldl_cons, hadd _ _ _ _ _ h1, ih h2]
    simp [List.append_assoc]

/-- `validate` classifies the rows of the workbook in one pass, whatever its chunk size. -/
theorem validate_eq_onePass (A : Adapters) (chunkSize : Nat) (worksheet : Worksheet) :
    validate importId A database chunkSize worksheet =
      (XlsxParser.dataRows worksheet).map fun rows =>
        (onePass importId database (rows.map (prepareRow A))).toResult rows.length := by
  cases hd : XlsxParser.dataRows worksheet with
  | error e => simp [validate, XlsxParser.iterChunks, hd, Except.map]
  | ok rows =>
    have hc : XlsxParser.iterChunks chunkSize worksheet =
        .ok (XlsxParser.chunksFrom chunkSize rows []) := by
      simp [XlsxParser.iterChunks, hd, Except.map]
    have h : (iterValidatedChunks importId A database {}
        (XlsxParser.chunksFrom chunkSize rows [])).foldl addChunk
          ((onePass importId database []).toResult ([] : List PreparedRow).length) = _ :=
      iterValidatedChunks_onePass rfl
    rw [XlsxParser.flatten_chunksFrom] at h
    simp only [List.nil_append, List.length_map] at h
    simp only [validate, hc, Except.map]
    exact congrArg _ h

/-! ## The codes of accepted rows -/

/-- The code of a row is that of the shipment it was parsed to. -/
def PreparedRow.Coded (p : PreparedRow) : Prop :=
  ∀ r, p.parsedRow = some r → p.shipmentCode = some r.shipmentCode

theorem prepareRow_coded (A : Adapters) (row : ParsedWorkbookRow) : (prepareRow A row).Coded := by
  intro r hr
  simp only [prepareRow] at hr ⊢
  rw [hr]

/-- Accepted codes are new: neither seen before, nor in the database; and they are seen from then
on. -/
structure ChunkState.Fresh (seen existing : List String) (st : ChunkState) : Prop where
  shipments : st.shipments = st.validRows.map (·.shipment)
  unseen : ∀ v ∈ st.validRows, v.shipment.shipmentCode ∉ seen
  unknown : ∀ v ∈ st.validRows, v.shipment.shipmentCode ∉ existing
  remembered : ∀ v ∈ st.validRows, v.shipment.shipmentCode ∈ st.chunkSeenCodes

theorem ChunkState.Fresh.classifyRow {seen existing : List String} {st : ChunkState}
    {p : PreparedRow} (h : st.Fresh seen existing) (hp : p.Coded) :
    (classifyRow importId seen existing st p).Fresh seen existing := by
  simp only [ShipmentImport.classifyRow]
  split
  · next hi =>
    obtain ⟨hi1, hi2⟩ := List.append_eq_nil_iff.1 hi
    set r := p.parsedRow.get (p.parsed hi1) with hr
    have hc : p.shipmentCode = some r.shipmentCode := hp r (Option.some_get _).symm
    rw [hc] at hi2 ⊢
    have hnew : r.shipmentCode ∉ seen ∧ r.shipmentCode ∉ existing := by
      simp only [duplicateIssues] at hi2
      split at hi2
      · cases hi2
      · next hs =>
        split at hi2
        · cases hi2
        · next he => exact ⟨fun hm => hs (.inl hm), he⟩
    refine ⟨by simp [h.shipments], fun v hv => ?_, fun v hv => ?_, fun v hv => ?_⟩
    · rcases List.mem_append.1 hv with hv | hv
      · exact h.unseen v hv
      · rw [List.mem_singleton.1 hv]
        exact hnew.1
    · rcases List.mem_append.1 hv with hv | hv
      · exact h.unknown v hv
      · rw [List.mem_singleton.1 hv]
        exact hnew.2
    · rcases List.mem_append.1 hv with hv | hv
      · exact List.mem_append_right _ (h.remembered v hv)
      · rw [List.mem_singleton.1 hv]
        exact List.mem_cons_self
  · exact ⟨h.shipments, h.unseen, h.unknown,
      fun v hv => List.mem_append_right _ (h.remembered v hv)⟩

theorem fresh_foldl {seen existing : List String} {prepared : List PreparedRow}
    (hp : ∀ p ∈ prepared, p.Coded) : ∀ {st : ChunkState}, st.Fresh seen existing →
      (prepared.foldl (classifyRow importId seen existing) st).Fresh seen existing := by
  induction prepared with
  | nil => exact fun h => h
  | cons p prepared ih =>
    intro st h
    exact ih (fun q hq => hp q (List.mem_cons_of_mem _ hq)) (h.classifyRow (hp p List.mem_cons_self))

theorem fresh_empty (seen existing : List String) : ({} : ChunkState).Fresh seen existing :=
  ⟨rfl, by simp, by simp, by simp⟩

/-- The codes of the shipments of one pass are those it has seen. -/
theorem onePass_seen {prepared : List PreparedRow} (hp : ∀ p ∈ prepared, p.Coded) {s : Shipment}
    (hs : s ∈ (onePass importId database prepared).shipments) :
    s.shipmentCode ∈ (onePass importId database prepared).chunkSeenCodes := by
  have h : (onePass importId database prepared).Fresh [] database :=
    fresh_foldl hp (fresh_empty [] database)
  have hs' : s ∈ (onePass importId database prepared).validRows.map (·.shipment) :=
    h.shipments ▸ hs
  obtain ⟨v, hv, rfl⟩ := List.mem_map.1 hs'
  exact h.remembered v hv

/-- The valid rows of a chunk have codes the tracker has not seen and the lookup did not find. -/
theorem classifyChunk_fresh {prepared : List PreparedRow} {tracker : DuplicateTracker}
    {existing : List String} (hp : ∀ p ∈ prepared, p.Coded) {v : ValidatedShipmentRow}
    (hv : v ∈ (classifyChunk importId prepared tracker existing).1.validRows) :
    v.shipment.shipmentCode ∉ tracker.seenShipmentCodes ∧ v.shipment.shipmentCode ∉ existing :=
  have h : (prepared.foldl (classifyRow importId tracker.seenShipmentCodes existing) {}).Fresh
      tracker.seenShipmentCodes existing := fresh_foldl hp (fresh_empty _ _)
  ⟨h.unseen v hv, h.unknown v hv⟩

end

/-! ## Stored texts -/

/-- A column that takes a stripped string keeps all of it. -/
theorem varchar_strip {n : Nat} {s t : String} (h : varchar n (strip s) = .ok t) :
    t = strip s := by
  refine varchar_eq (fun hc => ?_) h
  rw [strip, String.toList_ofList] at hc
  exact absurd (last_dropEndWhile hc) (by decide)

/-- A cell text after normalising is stripped. -/
theorem normalizeText_str {v : PyValue} {s : String} (h : XlsxParser.normalizeText v = .str s) :
    ∃ s', s = strip s' := by
  unfold XlsxParser.normalizeText at h
  split at h
  · next s' =>
    split at h
    · cases h
    · cases h; exact ⟨s', rfl⟩
  · next v hv => exact absurd h (hv s)

theorem get_normalizeRow {rowValues : List PyValue} {headers : List (PyValue × Nat)}
    {field s : String} (h : (XlsxParser.normalizeRow rowValues headers).get field = .str s) :
    ∃ s', s = strip s' := by
  have key : ∀ (g : String → PyValue) (fields : List String),
      PyDict.get (fields.map fun f => (f, g f)) field = .str s → ∃ f, g f = .str s := by
    intro g fields hg
    induction fields with
    | nil => cases hg
    | cons f fields ih =>
      simp only [PyDict.get, List.map_cons, List.lookup_cons] at hg
      split at hg
      · exact ⟨f, hg⟩
      · exact ih hg
  obtain ⟨f, hf⟩ := key _ _ h
  split at hf
  · cases hf
  · exact normalizeText_str hf

theorem mem_iterDataRows {headers : List (PyValue × Nat)} {n : Nat} {rows : List (List PyValue)}
    {row : ParsedWorkbookRow} (h : row ∈ XlsxParser.iterDataRows headers n rows) :
    ∃ rowValues, row.values = XlsxParser.normalizeRow rowValues headers := by
  induction rows generalizing n with
  | nil => cases h
  | cons rowValues rows ih =>
    simp only [XlsxParser.iterDataRows] at h
    split at h
    · exact ih h
    · rcases List.mem_cons.1 h with rfl | h
      · exact ⟨rowValues, rfl⟩
      · exact ih h

theorem requiredField_some {α : Type} {adapter : PyValue → Except String α} {fieldName : String}
    {row : ParsedWorkbookRow} {a : α} (h : (requiredField adapter fieldName row).2 = some a) :
    adapter (row.values.get fieldName) = .ok a := by
  simp only [requiredField] at h
  split at h
  · cases h
  · split at h
    · cases h
    · next hp =>
      cases h
      unfold parseField at hp
      cases ha : adapter (row.values.get fieldName) with
      | error m => rw [ha] at hp; cases hp
      | ok b => rw [ha] at hp; cases hp; rfl

/-- The texts of a shipment are stripped. -/
structure Shipment.Stripped (s : Shipment) : Prop where
  shipmentCode : ∃ t, s.shipmentCode = strip t
  customerName : ∃ t, s.customerName = strip t
  originCity : ∃ t, s.originCity = strip t
  destinationCity : ∃ t, s.destinationCity = strip t
  status : ∃ t, s.status = strip t

/-- The texts of a data row are stripped, where the adapter takes text as it is. -/
theorem stripped_toShipment {A : Adapters} (plain : ∀ v s, A.string v = .ok s → v = .str s)
    {worksheet : Worksheet} {rows : List ParsedWorkbookRow}
    (hw : XlsxParser.dataRows worksheet = .ok rows) {row : ParsedWorkbookRow} (hr : row ∈ rows)
    {r : ShipmentRow} (hp : (prepareRow A row).parsedRow = some r) (importId : ImportId) :
    (r.toShipment importId).Stripped := by
  have hfields : (parseFields A row).2 = r.toPartial := by
    simp only [prepareRow, parseRow] at hp
    split at hp
    · cases hp
    · next hc => cases hp; exact (complete_toPartial hc).symm
  have hfield : ∀ {field s : String}, (requiredField A.string field row).2 = some s →
      ∃ t, s = strip t := by
    intro field s hs
    have hval := plain _ _ (requiredField_some hs)
    unfold XlsxParser.dataRows at hw
    cases hh : XlsxParser.parseHeaders worksheet with
    | error e => rw [hh] at hw; cases hw
    | ok headers =>
      rw [hh] at hw
      cases hw
      obtain ⟨rowValues, hv⟩ := mem_iterDataRows hr
      rw [hv] at hval
      exact get_normalizeRow hval
  simp only [parseFields, ShipmentRow.toPartial, PartialShipmentDraft.mk.injEq] at hfields
  obtain ⟨hcode, hname, ho, hd, -, -, hst, -⟩ := hfields
  exact ⟨hfield hcode, hfield hname, hfield ho, hfield hd, hfield hst⟩

/-! ## What the columns change -/

/-- What the table makes of a shipment: the weight and the price are rounded. -/
structure Shipment.RoundsTo (s s' : Shipment) : Prop where
  texts : s' = { s with weightKg := s'.weightKg, price := s'.price }
  weightKg : numeric 12 3 s.weightKg = .ok s'.weightKg
  price : numeric 18 2 s.price = .ok s'.price

theorem Shipment.RoundsTo.shipmentCode {s s' : Shipment} (h : s.RoundsTo s') :
    s'.shipmentCode = s.shipmentCode := by
  rw [h.texts]

/-- A stripped text keeps all its characters. -/
theorem Shipment.Stripped.roundsTo {s s' : Shipment} (h : s.Stripped) (hs : s.store = .ok s') :
    s.RoundsTo s' := by
  have hkeep : ∀ {n : Nat} {a b : String}, (∃ t, a = strip t) → varchar n a = .ok b → b = a := by
    rintro n _ b ⟨t, rfl⟩ hv
    exact varchar_strip hv
  simp only [Shipment.store, bind_eq_ok] at hs
  obtain ⟨code, hcode, name, hname, origin, ho, destination, hd, weight, hw, price, hp, status, hst,
    hs⟩ := hs
  split at hs
  · cases hs
    refine ⟨?_, hw, hp⟩
    simp only [hkeep h.shipmentCode hcode, hkeep h.customerName hname, hkeep h.originCity ho,
      hkeep h.destinationCity hd, hkeep h.status hst]
  · cases hs

end ShipmentImport
