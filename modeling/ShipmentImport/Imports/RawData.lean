import ShipmentImport.Imports.OnePass
import ShipmentImport.Imports.StoredShipments
import ShipmentImport.Database

/-!
# Raw data of rejected rows

An import error keeps the cells of its row as `raw_data`, converted by `jsonb_safe` when the error is
built and once more when it is inserted. The second conversion changes nothing. The first one passes
floats through, so PostgreSQL does not take a row with an infinity or NaN in it.
-/

namespace ShipmentImport

/-! ## Cells -/

namespace PyValue

/-- What the workbook reader puts in a cell. -/
def IsCell : PyValue → Prop
  | none | bool _ | int _ | float _ | str _ | datetime _ | date _ | time _ | timedelta _ => True
  | decimal _ | list _ | tuple _ | set _ | dict _ | object .. => False

/-- A number that is finite, or text without a NUL character. -/
def Writable : PyValue → Prop
  | float x => ∃ value, x = .finite value
  | str s | datetime s | date s | time s | timedelta s | object _ s | decimal s => '\x00' ∉ s.toList
  | none | bool _ | int _ | list _ | tuple _ | set _ | dict _ => True

theorem isJsonb_cell {v : PyValue} (h : v.IsCell) : v.jsonbSafe.isJsonb = true ↔ v.Writable := by
  cases v with
  | decimal | list | tuple | set | dict | object => exact h.elim
  | float x => cases x <;> simp [jsonbSafe, isJsonb, Writable]
  | none | bool | int | str | datetime | date | time | timedelta => simp [jsonbSafe, isJsonb, Writable]

/-- Distinct string keys stay as they are. -/
theorem jsonbSafeItems_toValue (d : PyDict) : ∀ acc : List (PyKey × PyValue),
    (acc.map (·.1) ++ d.map fun x => (⟨x.1, true⟩ : PyKey)).Nodup →
    jsonbSafeItems (d.map fun x => (⟨x.1, true⟩, x.2)) acc =
      acc ++ d.map fun x => (⟨x.1, true⟩, x.2.jsonbSafe) := by
  induction d with
  | nil => intro acc _; simp [jsonbSafeItems]
  | cons x d ih =>
    intro acc hn
    have hx : (⟨x.1, true⟩ : PyKey) ∉ acc.map (·.1) := fun hm =>
      (List.nodup_append.1 hn).2.2 _ hm _ List.mem_cons_self rfl
    rw [List.map_cons, jsonbSafeItems, dictSet_of_notMem hx, ih _ (by simpa using hn),
      List.append_assoc, List.singleton_append, List.map_cons]

theorem isJsonbItems_toValue {d : PyDict} (hk : ∀ x ∈ d, '\x00' ∉ x.1.toList) :
    isJsonbItems (d.map fun x => (⟨x.1, true⟩, x.2.jsonbSafe)) = true ↔
      ∀ x ∈ d, x.2.jsonbSafe.isJsonb = true := by
  induction d with
  | nil => simp [isJsonbItems]
  | cons x d ih =>
    have hx : '\x00' ∉ x.1.toList := hk x List.mem_cons_self
    have hd := ih fun y hy => hk y (List.mem_cons_of_mem _ hy)
    simp [isJsonbItems, hx, hd]

/-- A dictionary of cells is written as JSONB when all its cells are. -/
theorem isJsonb_toValue {d : PyDict} (hn : (d.map (·.1)).Nodup)
    (hk : ∀ x ∈ d, '\x00' ∉ x.1.toList) (hc : ∀ x ∈ d, x.2.IsCell) :
    d.toValue.jsonbSafe.isJsonb = true ↔ ∀ x ∈ d, x.2.Writable := by
  have hkeys : (d.map fun x => (⟨x.1, true⟩ : PyKey)).Nodup := by
    have := hn.map (f := fun s => (⟨s, true⟩ : PyKey)) fun a b h => congrArg PyKey.text h
    rwa [List.map_map] at this
  have hitems := jsonbSafeItems_toValue d [] (by simpa using hkeys)
  rw [List.nil_append] at hitems
  rw [PyDict.toValue, jsonbSafe, isJsonb, hitems, isJsonbItems_toValue hk]
  exact forall₂_congr fun x hx => isJsonb_cell (hc x hx)

end PyValue

/-! ## Rows -/

theorem normalizeText_isCell {v : PyValue} (h : v.IsCell) : (XlsxParser.normalizeText v).IsCell := by
  unfold XlsxParser.normalizeText
  split
  · split <;> trivial
  · exact h

/-- The keys of a parsed row are the known fields, and its values are cells. -/
structure ParsedWorkbookRow.OfCells (row : ParsedWorkbookRow) : Prop where
  keys : row.values.map (·.1) = workbookRowFields
  cells : ∀ x ∈ row.values, x.2.IsCell

theorem ofCells_normalizeRow {rowValues : List PyValue} (h : ∀ v ∈ rowValues, v.IsCell)
    (headers : List (PyValue × Nat)) (n : Nat) :
    (ParsedWorkbookRow.mk n (XlsxParser.normalizeRow rowValues headers)).OfCells where
  keys := by simp [XlsxParser.normalizeRow, Function.comp_def]
  cells x hx := by
    obtain ⟨field, -, rfl⟩ := List.mem_map.1 hx
    dsimp only
    split
    · trivial
    · next index _ =>
      refine normalizeText_isCell ?_
      rw [List.getD_eq_getElem?_getD]
      cases hi : rowValues[index]? with
      | none => trivial
      | some v => exact h v (List.mem_of_getElem? hi)

/-- The parser makes rows of cells of rows of cells. -/
theorem ofCells_dataRows {worksheet : Worksheet} {rows : List ParsedWorkbookRow}
    (hc : ∀ rowValues ∈ worksheet.rows, ∀ v ∈ rowValues, v.IsCell)
    (h : XlsxParser.dataRows worksheet = .ok rows) : ∀ row ∈ rows, row.OfCells := by
  have key : ∀ (headers : List (PyValue × Nat)) (rowsValues : List (List PyValue)) (n : Nat),
      (∀ rowValues ∈ rowsValues, ∀ v ∈ rowValues, v.IsCell) →
      ∀ row ∈ XlsxParser.iterDataRows headers n rowsValues, row.OfCells := by
    intro headers rowsValues
    induction rowsValues with
    | nil => intro n _ row hr; cases hr
    | cons rowValues rowsValues ih =>
      intro n hv row hr
      have hrest := ih (n + 1) fun r h => hv r (List.mem_cons_of_mem _ h)
      simp only [XlsxParser.iterDataRows] at hr
      split at hr
      · exact hrest row hr
      · rcases List.mem_cons.1 hr with rfl | hr
        · exact ofCells_normalizeRow (hv _ List.mem_cons_self) headers n
        · exact hrest row hr
  unfold XlsxParser.dataRows at h
  cases hp : XlsxParser.parseHeaders worksheet with
  | error e => rw [hp] at h; cases h
  | ok headers =>
    rw [hp] at h
    cases h
    exact key headers worksheet.rows 2 hc

/-! ## Errors and their rows -/

/-- What a chunk of rows is classified as, at first and after lost duplicate races. -/
inductive Classified (A : Adapters) (importId : ImportId) (chunk : List ParsedWorkbookRow) :
    ValidationChunkResult → Prop
  | chunk (tracker : DuplicateTracker) (existing : List String) :
      Classified A importId chunk
        (classifyChunk importId (chunk.map (prepareRow A)) tracker existing).1
  | again {r : ValidationChunkResult} (existing : List String) (h : Classified A importId chunk r) :
      Classified A importId chunk (reclassify importId r existing)

/-- Errors and valid rows keep the values of their row. -/
structure Carries (importId : ImportId) (rows : List ParsedWorkbookRow)
    (errors : List ImportErrorRow) (valid : List ValidatedShipmentRow) : Prop where
  errors : ∀ e ∈ errors, ∃ row ∈ rows, ∃ issues,
    e ∈ buildImportErrors importId row.rowNumber row.values issues
  valid : ∀ v ∈ valid, ∃ row ∈ rows, v.rowNumber = row.rowNumber ∧ v.rawData = row.values

section
variable {A : Adapters} {importId : ImportId} {rows : List ParsedWorkbookRow}

theorem Carries.classifyRow {seen existing : List String} {st : ChunkState} {row : ParsedWorkbookRow}
    (h : Carries importId rows st.importErrors st.validRows) (hr : row ∈ rows) :
    Carries importId rows
      (classifyRow importId seen existing st (prepareRow A row)).importErrors
      (classifyRow importId seen existing st (prepareRow A row)).validRows := by
  simp only [ShipmentImport.classifyRow]
  split
  · refine ⟨h.errors, fun v hv => ?_⟩
    rcases List.mem_append.1 hv with hv | hv
    · exact h.valid v hv
    · rw [List.mem_singleton.1 hv]
      exact ⟨row, hr, rfl, rfl⟩
  · refine ⟨fun e he => ?_, h.valid⟩
    rcases List.mem_append.1 he with he | he
    · exact h.errors e he
    · exact ⟨row, hr, _, he⟩

theorem Carries.classifyRows {seen existing : List String} {taken : List ParsedWorkbookRow} :
    ∀ {st : ChunkState}, Carries importId rows st.importErrors st.validRows →
      (∀ row ∈ taken, row ∈ rows) →
      Carries importId rows
        ((taken.map (prepareRow A)).foldl (ShipmentImport.classifyRow importId seen existing)
          st).importErrors
        ((taken.map (prepareRow A)).foldl (ShipmentImport.classifyRow importId seen existing)
          st).validRows := by
  induction taken with
  | nil => exact fun h _ => h
  | cons row taken ih =>
    intro st h hr
    exact ih (h.classifyRow (hr row List.mem_cons_self)) fun x hx => hr x (List.mem_cons_of_mem _ hx)

theorem Carries.reclassify {r : ValidationChunkResult} {existing : List String}
    (h : Carries importId rows r.importErrors r.validRows) :
    Carries importId rows (reclassify importId r existing).importErrors
      (reclassify importId r existing).validRows := by
  unfold ShipmentImport.reclassify
  split
  · exact h
  · refine ⟨fun e he => ?_, fun v hv => h.valid v (List.mem_of_mem_filter hv)⟩
    rcases List.mem_append.1 he with he | he
    · exact h.errors e he
    · obtain ⟨v, hv, he⟩ := List.mem_flatMap.1 he
      obtain ⟨row, hr, hn, hd⟩ := h.valid v (List.mem_of_mem_filter hv)
      rw [hn, hd] at he
      exact ⟨row, hr, _, he⟩

theorem Classified.carries {r : ValidationChunkResult} (h : Classified A importId rows r) :
    Carries importId rows r.importErrors r.validRows := by
  induction h with
  | chunk tracker existing =>
    have hempty : Carries importId rows ({} : ChunkState).importErrors ({} : ChunkState).validRows :=
      ⟨fun _ he => (nomatch he), fun _ hv => (nomatch hv)⟩
    exact hempty.classifyRows fun _ hr => hr
  | again existing _ ih => exact ih.reclassify

theorem exec_insertImportError_eq {server : Server} {clock : Time} {s : Nat} {d : Database}
    {e : ImportErrorRow} (h : e.rawData.jsonbSafe = e.rawData) :
    d.exec server clock s (.insertImportError e) =
      if e.rawData.isJsonb then
        some (.ok (), { d with importErrors := d.importErrors.insert s d.issued e
                               issued := d.issued + 1 })
      else some (.error .sqlalchemyError, d) := by
  simp only [Database.exec, h]

end

/-! ## Converting twice -/

/-- `jsonb_safe` is idempotent and leaves nothing but primitives, lists and string-keyed
dictionaries, so inserting an error stores the raw data it was built with. -/
theorem rawData_settled :
    (∀ v : PyValue, v.jsonbSafe.jsonbSafe = v.jsonbSafe ∧ v.jsonbSafe.Primitive) ∧
      ∀ (A : Adapters) (importId : ImportId) (chunk : List ParsedWorkbookRow)
        (r : ValidationChunkResult), Classified A importId chunk r → ∀ e ∈ r.importErrors,
        { e with rawData := e.rawData.jsonbSafe } = e ∧
          ∀ server clock s d d',
            Database.exec server clock s d (.insertImportError e) = some (.ok (), d') →
            d'.importErrors.staged s = d.importErrors.staged s ++ [.insert ⟨d.issued, s, e⟩] := by
  refine ⟨fun v => ⟨PyValue.jsonbSafe_idem v, PyValue.primitive_jsonbSafe v⟩,
    fun A importId chunk r hr e he => ?_⟩
  obtain ⟨row, -, issues, he⟩ := hr.carries.errors e he
  obtain ⟨-, -, hsafe⟩ := mem_buildImportErrors he
  refine ⟨by rw [hsafe], fun server clock s d d' hx => ?_⟩
  rw [exec_insertImportError_eq hsafe] at hx
  split at hx
  · cases hx
    rw [Table.insert, Table.stage_staged]
    rfl
  · cases hx

/-! ## Rows whose raw data is stored -/

/-- The raw data of a rejected row is JSONB, and inserting its errors succeeds, when none of its
values is an infinity, NaN or text with a NUL character. -/
theorem rawData_stored_iff {A : Adapters} {importId : ImportId} {worksheet : Worksheet}
    {rows chunk : List ParsedWorkbookRow} {r : ValidationChunkResult}
    (hcells : ∀ rowValues ∈ worksheet.rows, ∀ v ∈ rowValues, v.IsCell)
    (hrows : XlsxParser.dataRows worksheet = .ok rows) (hchunk : ∀ row ∈ chunk, row ∈ rows)
    (hr : Classified A importId chunk r) :
    ∀ e ∈ r.importErrors, ∃ row ∈ chunk, row.rowNumber = e.rowNumber ∧
      (e.rawData.isJsonb = true ↔ ∀ x ∈ row.values, x.2.Writable) ∧
      ((∀ server clock s d, ∃ d',
        Database.exec server clock s d (.insertImportError e) = some (.ok (), d')) ↔
        ∀ x ∈ row.values, x.2.Writable) := by
  intro e he
  obtain ⟨row, hrow, issues, he⟩ := hr.carries.errors e he
  obtain ⟨hkeys, hvalues⟩ := ofCells_dataRows hcells hrows row (hchunk row hrow)
  have hnames : ∀ field ∈ workbookRowFields, '\x00' ∉ field.toList := by decide
  have hjson : row.values.toValue.jsonbSafe.isJsonb = true ↔ ∀ x ∈ row.values, x.2.Writable :=
    PyValue.isJsonb_toValue (by rw [hkeys]; decide)
      (fun x hx => hnames x.1 (hkeys ▸ List.mem_map_of_mem hx)) hvalues
  obtain ⟨-, -, hsafe⟩ := mem_buildImportErrors he
  obtain ⟨issue, -, rfl⟩ := List.mem_map.1 he
  refine ⟨row, hrow, rfl, hjson, Iff.trans ⟨fun h => ?_, fun h server clock s d => ?_⟩ hjson⟩
  · obtain ⟨d', hx⟩ := h ⟨fun _ => 0, id⟩ .epoch 0 .empty
    rw [exec_insertImportError_eq hsafe] at hx
    split at hx
    · next hj => exact hj
    · cases hx
  · exact ⟨_, (exec_insertImportError_eq hsafe).trans (if_pos h)⟩

/-- A worksheet with one row, whose code is missing. -/
def codelessWorksheet (weight : PyValue) : Worksheet :=
  ⟨some (requiredWorkbookHeaders.map .str), [[.none, .str "Ann", .str "Rome", .str "Oslo", weight,
    .int 10000, .str "PENDING"]]⟩

/-- Its row, as the parser returns it. -/
def codelessRow (weight : PyValue) : ParsedWorkbookRow :=
  ⟨2, [("shipment_code", .none), ("customer_name", .str "Ann"), ("origin_city", .str "Rome"),
    ("destination_city", .str "Oslo"), ("weight_kg", XlsxParser.normalizeText weight),
    ("price", .int 10000), ("status", .str "PENDING"), ("delivery_date", .none)]⟩

/-- What a chunk of the row is classified as. -/
def codelessResult (weight : PyValue) : ValidationChunkResult :=
  (classifyChunk 0 ([codelessRow weight].map (prepareRow plainAdapters)) {} []).1

theorem codelessResult_classified (weight : PyValue) :
    Classified plainAdapters 0 [codelessRow weight] (codelessResult weight) := .chunk {} []

theorem codeless_cells {weight : PyValue} (h : weight.IsCell) :
    ∀ rowValues ∈ (codelessWorksheet weight).rows, ∀ v ∈ rowValues, v.IsCell := by
  simpa [codelessWorksheet, PyValue.IsCell] using h

/-- A weight like `1E999`, which a reader makes infinity of, is not stored. -/
theorem infiniteWeight_not_stored :
    (∀ rowValues ∈ (codelessWorksheet (.float .inf)).rows, ∀ v ∈ rowValues, v.IsCell) ∧
      XlsxParser.dataRows (codelessWorksheet (.float .inf)) = .ok [codelessRow (.float .inf)] ∧
      ∃ e ∈ (codelessResult (.float .inf)).importErrors, e.rawData.isJsonb = false ∧
        ∀ server clock s d, Database.exec server clock s d (.insertImportError e) =
          some (.error .sqlalchemyError, d) := by
  have hall : (codelessResult (.float .inf)).importErrors.all
      (fun e => e.rawData.isJsonb = false) = true := by decide +kernel
  have hlen : 0 < (codelessResult (.float .inf)).importErrors.length := by decide +kernel
  obtain ⟨e, he⟩ := List.exists_mem_of_length_pos hlen
  have hj : e.rawData.isJsonb = false := of_decide_eq_true (List.all_eq_true.1 hall e he)
  obtain ⟨_, _, issues, hb⟩ := (codelessResult_classified (.float .inf)).carries.errors e he
  obtain ⟨-, -, hsafe⟩ := mem_buildImportErrors hb
  refine ⟨codeless_cells trivial, by rfl, e, he, hj, fun server clock s d => ?_⟩
  rw [exec_insertImportError_eq hsafe, if_neg (by simp [hj])]

/-- A weight of 2 is, like every finite one. -/
theorem finiteWeight_stored :
    ∃ e ∈ (codelessResult (.float (.finite 2))).importErrors,
      ∃ row ∈ [codelessRow (.float (.finite 2))], row.rowNumber = e.rowNumber ∧
        (e.rawData.isJsonb = true ↔ ∀ x ∈ row.values, x.2.Writable) ∧
        ((∀ server clock s d, ∃ d',
          Database.exec server clock s d (.insertImportError e) = some (.ok (), d')) ↔
          ∀ x ∈ row.values, x.2.Writable) := by
  have hlen : 0 < (codelessResult (.float (.finite 2))).importErrors.length := by decide +kernel
  obtain ⟨e, he⟩ := List.exists_mem_of_length_pos hlen
  have hrows : XlsxParser.dataRows (codelessWorksheet (.float (.finite 2))) =
      .ok [codelessRow (.float (.finite 2))] := by rfl
  have hcell : (PyValue.float (.finite 2)).IsCell := trivial
  exact ⟨e, he, rawData_stored_iff (codeless_cells hcell) hrows (fun _ h => h)
    (codelessResult_classified _) e he⟩

/-- Its errors are inserted as they were built. -/
theorem finiteWeight_settled : ∃ e ∈ (codelessResult (.float (.finite 2))).importErrors,
    { e with rawData := e.rawData.jsonbSafe } = e := by
  have hlen : 0 < (codelessResult (.float (.finite 2))).importErrors.length := by decide +kernel
  obtain ⟨e, he⟩ := List.exists_mem_of_length_pos hlen
  exact ⟨e, he, (rawData_settled.2 plainAdapters 0 _ _ (codelessResult_classified _) e he).1⟩

end ShipmentImport
