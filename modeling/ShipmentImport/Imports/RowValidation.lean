import ShipmentImport.Imports.XlsxParser

/-!
# Row validation

The shipment rules (`app/domain/shipment_rules.py`) and `RowValidationService`
(`app/imports/services/row_validation.py`). `validate_chunk` asks the database for existing codes in
its middle; the functions here take the answer as an argument, and `chunkCodes` is the question.
What pydantic's type adapters accept is a parameter.
-/

namespace ShipmentImport

/-- The type adapters for `str`, `Decimal` and `date`: a parsed value, or the message of the first
validation error. -/
structure Adapters where
  string : PyValue → Except String String
  decimal : PyValue → Except String PyDecimal
  date : PyValue → Except String PyDate

structure ValidationIssue where
  field : String
  error : String
  deriving DecidableEq

/-! ## Shipment rules -/

def allowedShipmentStatuses : List String := ["PENDING", "IN_TRANSIT", "DELIVERED", "CANCELED"]

def customerNameMaxLength : Nat := 150

/-- A row with every required value, as `ShipmentRow` and `ShipmentDraft` hold it. -/
structure ShipmentRow where
  shipmentCode : String
  customerName : String
  originCity : String
  destinationCity : String
  weightKg : PyDecimal
  price : PyDecimal
  status : String
  deliveryDate : Option PyDate

/-- `PartialShipmentDraft`, and the `parsed_values` of a row. -/
structure PartialShipmentDraft where
  shipmentCode : Option String
  customerName : Option String
  originCity : Option String
  destinationCity : Option String
  weightKg : Option PyDecimal
  price : Option PyDecimal
  status : Option String
  deliveryDate : Option PyDate

/-- `validate_partial_shipment_draft`. A delivery date that was parsed is a date. -/
def validatePartialShipmentDraft (shipment : PartialShipmentDraft) : List ValidationIssue :=
  (match shipment.status with
    | some status =>
      if status ∉ allowedShipmentStatuses then
        [⟨"status", "Status must be one of PENDING, IN_TRANSIT, DELIVERED, or CANCELED."⟩]
      else []
    | none => []) ++
  (match shipment.customerName with
    | some name =>
      if name.length > customerNameMaxLength then
        [⟨"customer_name", "Customer name must be 150 characters or fewer."⟩]
      else []
    | none => []) ++
  (match shipment.weightKg with
    | some weight =>
      if weight.value ≤ 0 then [⟨"weight_kg", "Weight must be greater than 0."⟩] else []
    | none => []) ++
  (match shipment.price with
    | some price =>
      if price.value < 0 then [⟨"price", "Price must be greater than or equal to 0."⟩] else []
    | none => [])

/-- The draft with every value present. -/
def ShipmentRow.toPartial (r : ShipmentRow) : PartialShipmentDraft :=
  { shipmentCode := some r.shipmentCode
    customerName := some r.customerName
    originCity := some r.originCity
    destinationCity := some r.destinationCity
    weightKg := some r.weightKg
    price := some r.price
    status := some r.status
    deliveryDate := r.deliveryDate }

def validateShipmentDraft (shipment : ShipmentRow) : List ValidationIssue :=
  validatePartialShipmentDraft shipment.toPartial

/-! ## Parsing one row -/

/-- `_parse_field`. -/
def parseField {α : Type} (adapter : PyValue → Except String α) (fieldName : String)
    (value : PyValue) : Except ValidationIssue α :=
  (adapter value).mapError fun message => ⟨fieldName, message⟩

/-- One pass of the loop of `_parse_row` over the required fields: its issues and its value. -/
def requiredField {α : Type} (adapter : PyValue → Except String α) (fieldName : String)
    (row : ParsedWorkbookRow) : List ValidationIssue × Option α :=
  let value := row.values.get fieldName
  if value.isNone then ([⟨fieldName, "Field required"⟩], none)
  else match parseField adapter fieldName value with
    | .error issue => ([issue], none)
    | .ok parsed => ([], some parsed)

/-- The delivery date, which may be absent. -/
def optionalField {α : Type} (adapter : PyValue → Except String α) (fieldName : String)
    (row : ParsedWorkbookRow) : List ValidationIssue × Option α :=
  let value := row.values.get fieldName
  if value.isNone then ([], none)
  else match parseField adapter fieldName value with
    | .error issue => ([issue], none)
    | .ok parsed => ([], some parsed)

/-- The row, when all required values were parsed. -/
def PartialShipmentDraft.complete (v : PartialShipmentDraft) : Option ShipmentRow :=
  match v.shipmentCode, v.customerName, v.originCity, v.destinationCity, v.weightKg, v.price,
      v.status with
  | some shipmentCode, some customerName, some originCity, some destinationCity, some weightKg,
      some price, some status =>
    some { shipmentCode, customerName, originCity, destinationCity, weightKg, price, status,
           deliveryDate := v.deliveryDate }
  | _, _, _, _, _, _, _ => none

section
variable (A : Adapters)

/-- The issues of parsing the fields, in their order, and what was parsed. -/
def parseFields (row : ParsedWorkbookRow) : List ValidationIssue × PartialShipmentDraft :=
  let shipmentCode := requiredField A.string "shipment_code" row
  let customerName := requiredField A.string "customer_name" row
  let originCity := requiredField A.string "origin_city" row
  let destinationCity := requiredField A.string "destination_city" row
  let weightKg := requiredField A.decimal "weight_kg" row
  let price := requiredField A.decimal "price" row
  let status := requiredField A.string "status" row
  let deliveryDate := optionalField A.date "delivery_date" row
  (shipmentCode.1 ++ customerName.1 ++ originCity.1 ++ destinationCity.1 ++ weightKg.1 ++
      price.1 ++ status.1 ++ deliveryDate.1,
    { shipmentCode := shipmentCode.2
      customerName := customerName.2
      originCity := originCity.2
      destinationCity := destinationCity.2
      weightKg := weightKg.2
      price := price.2
      status := status.2
      deliveryDate := deliveryDate.2 })

/-- `_parse_row`. -/
def parseRow (row : ParsedWorkbookRow) :
    List ValidationIssue × PartialShipmentDraft × Option ShipmentRow :=
  let (issues, parsedValues) := parseFields A row
  match parsedValues.complete with
  | none => (issues ++ validatePartialShipmentDraft parsedValues, parsedValues, none)
  | some shipmentRow => (issues ++ validateShipmentDraft shipmentRow, parsedValues, some shipmentRow)

theorem requiredField_none {α : Type} {adapter : PyValue → Except String α} {fieldName : String}
    {row : ParsedWorkbookRow} (h : (requiredField adapter fieldName row).2 = none) :
    (requiredField adapter fieldName row).1 ≠ [] := by
  revert h
  simp only [requiredField]
  split
  · simp
  · split <;> simp

theorem complete_eq_none {v : PartialShipmentDraft} (h : v.complete = none) :
    v.shipmentCode = none ∨ v.customerName = none ∨ v.originCity = none ∨
      v.destinationCity = none ∨ v.weightKg = none ∨ v.price = none ∨ v.status = none := by
  obtain ⟨a, b, c, d, e, f, g, _⟩ := v
  cases a with
  | none => simp
  | some a =>
    cases b with
    | none => simp
    | some b =>
      cases c with
      | none => simp
      | some c =>
        cases d with
        | none => simp
        | some d =>
          cases e with
          | none => simp
          | some e =>
            cases f with
            | none => simp
            | some f =>
              cases g with
              | none => simp
              | some g => cases h

/-- A row that could not be parsed has an issue. -/
theorem parseRow_isSome (row : ParsedWorkbookRow) (h : (parseRow A row).1 = []) :
    (parseRow A row).2.2.isSome := by
  unfold parseRow at h ⊢
  simp only at h ⊢
  split at h
  · next hc =>
    exfalso
    have h1 := (List.append_eq_nil_iff.1 h).1
    simp only [parseFields, List.append_eq_nil_iff, and_assoc] at h1
    obtain ⟨h1, h2, h3, h4, h5, h6, h7, -⟩ := h1
    rcases complete_eq_none hc with hn | hn | hn | hn | hn | hn | hn
    · exact requiredField_none hn h1
    · exact requiredField_none hn h2
    · exact requiredField_none hn h3
    · exact requiredField_none hn h4
    · exact requiredField_none hn h5
    · exact requiredField_none hn h6
    · exact requiredField_none hn h7
  · rfl

/-- `_PreparedRow`. A row without issues was parsed: the assertion of `validate_chunk`. -/
structure PreparedRow where
  row : ParsedWorkbookRow
  issues : List ValidationIssue
  parsedRow : Option ShipmentRow
  shipmentCode : Option String
  parsed : issues = [] → parsedRow.isSome

/-- `_prepare_row`. -/
def prepareRow (row : ParsedWorkbookRow) : PreparedRow where
  row := row
  issues := (parseRow A row).1
  parsedRow := (parseRow A row).2.2
  shipmentCode :=
    match (parseRow A row).2.2 with
    | some shipmentRow => some shipmentRow.shipmentCode
    | none => (parseRow A row).2.1.shipmentCode
  parsed := parseRow_isSome A row

end

/-! ## Chunks -/

structure ValidatedShipmentRow where
  shipment : Shipment
  rowNumber : Nat
  rawData : PyDict

structure ValidationChunkResult where
  totalRows : Nat
  processedRows : Nat
  successCount : Nat
  failedCount : Nat
  shipments : List Shipment
  importErrors : List ImportErrorRow
  validRows : List ValidatedShipmentRow

structure ValidationResult where
  totalRows : Nat
  processedRows : Nat
  successCount : Nat
  failedCount : Nat
  shipments : List Shipment
  importErrors : List ImportErrorRow

/-- `DuplicateTracker`. -/
structure DuplicateTracker where
  seenShipmentCodes : List String := []

namespace DuplicateTracker

def unseenCodes (t : DuplicateTracker) (codes : List String) : List String :=
  codes.filter fun c => c ∉ t.seenShipmentCodes

def rememberCodes (t : DuplicateTracker) (codes : List String) : DuplicateTracker :=
  ⟨codes ++ t.seenShipmentCodes⟩

end DuplicateTracker

def inFileIssue : ValidationIssue :=
  ⟨"shipment_code", "Shipment code must be unique within the import file."⟩

def databaseIssue : ValidationIssue :=
  ⟨"shipment_code", "Shipment code already exists in the database."⟩

/-- The shipment built from a parsed row; its id is drawn when it is inserted. -/
def ShipmentRow.toShipment (r : ShipmentRow) (importId : ImportId) : Shipment :=
  { importId := importId
    shipmentCode := r.shipmentCode
    customerName := r.customerName
    originCity := r.originCity
    destinationCity := r.destinationCity
    weightKg := r.weightKg
    price := r.price
    status := r.status
    deliveryDate := r.deliveryDate }

/-- `_build_import_errors`. -/
def buildImportErrors (importId : ImportId) (rowNumber : Nat) (rawData : PyDict)
    (issues : List ValidationIssue) : List ImportErrorRow :=
  issues.map fun issue =>
    { importId, rowNumber, field := issue.field, error := issue.error
      rawData := rawData.toValue.jsonbSafe }

/-- The local variables of the loop of `validate_chunk`. -/
structure ChunkState where
  shipments : List Shipment := []
  importErrors : List ImportErrorRow := []
  validRows : List ValidatedShipmentRow := []
  chunkSeenCodes : List String := []
  failedCount : Nat := 0

section
variable (importId : ImportId)

/-- The duplicate check of a row. -/
def duplicateIssues (seen existing chunkSeen : List String) : Option String → List ValidationIssue
  | none => []
  | some code =>
    if code ∈ seen ∨ code ∈ chunkSeen then [inFileIssue]
    else if code ∈ existing then [databaseIssue]
    else []

/-- The body of the loop of `validate_chunk`. -/
def classifyRow (seen existing : List String) (st : ChunkState) (prepared : PreparedRow) :
    ChunkState :=
  let rowIssues := prepared.issues ++
    duplicateIssues seen existing st.chunkSeenCodes prepared.shipmentCode
  let chunkSeenCodes := prepared.shipmentCode.toList ++ st.chunkSeenCodes
  if h : rowIssues = [] then
    let parsedRow := prepared.parsedRow.get (prepared.parsed (List.append_eq_nil_iff.1 h).1)
    let shipment := parsedRow.toShipment importId
    { st with
      shipments := st.shipments ++ [shipment]
      validRows := st.validRows ++ [⟨shipment, prepared.row.rowNumber, prepared.row.values⟩]
      chunkSeenCodes := chunkSeenCodes }
  else
    { st with
      importErrors := st.importErrors ++
        buildImportErrors importId prepared.row.rowNumber prepared.row.values rowIssues
      failedCount := st.failedCount + 1
      chunkSeenCodes := chunkSeenCodes }

/-- The codes of a chunk, each once. -/
def chunkCodes (prepared : List PreparedRow) : List String :=
  (prepared.filterMap (·.shipmentCode)).dedup

/-- `validate_chunk` after the lookup, whose answer is `existing`, and the tracker it leaves. -/
def classifyChunk (prepared : List PreparedRow) (tracker : DuplicateTracker)
    (existing : List String) : ValidationChunkResult × DuplicateTracker :=
  let st := prepared.foldl (classifyRow importId tracker.seenShipmentCodes existing) {}
  ({ totalRows := prepared.length
     processedRows := st.shipments.length + st.failedCount
     successCount := st.shipments.length
     failedCount := st.failedCount
     shipments := st.shipments
     importErrors := st.importErrors
     validRows := st.validRows },
   tracker.rememberCodes st.chunkSeenCodes)

/-- `reclassify_database_duplicates` after its lookup, whose answer is `existing`. -/
def reclassify (chunkResult : ValidationChunkResult) (existing : List String) :
    ValidationChunkResult :=
  if existing = [] then chunkResult
  else
    let retainedRows := chunkResult.validRows.filter fun v => v.shipment.shipmentCode ∉ existing
    let duplicates := chunkResult.validRows.filter fun v => v.shipment.shipmentCode ∈ existing
    { totalRows := chunkResult.totalRows
      processedRows := chunkResult.processedRows
      successCount := retainedRows.length
      failedCount := chunkResult.failedCount +
        (chunkResult.validRows.length - retainedRows.length)
      shipments := retainedRows.map (·.shipment)
      importErrors := chunkResult.importErrors ++ duplicates.flatMap fun v =>
        buildImportErrors importId v.rowNumber v.rawData [databaseIssue]
      validRows := retainedRows }

/-! ## Validating a whole workbook -/

/-- `find_existing_shipment_codes` against a fixed set of codes. -/
def lookupIn (database : List String) (codes : List String) : List String :=
  codes.filter (· ∈ database)

/-- `iter_validated_chunks` against a fixed set of codes in the database. -/
def iterValidatedChunks (A : Adapters) (database : List String) :
    DuplicateTracker → List (List ParsedWorkbookRow) → List ValidationChunkResult
  | _, [] => []
  | tracker, chunk :: chunks =>
    let prepared := chunk.map (prepareRow A)
    let existing := lookupIn database (tracker.unseenCodes (chunkCodes prepared))
    let (result, tracker) := classifyChunk importId prepared tracker existing
    result :: iterValidatedChunks A database tracker chunks

/-- `ValidationAccumulator.add_chunk`. -/
def addChunk (acc : ValidationResult) (chunk : ValidationChunkResult) : ValidationResult :=
  { totalRows := acc.totalRows + chunk.totalRows
    processedRows := acc.successCount + chunk.successCount + (acc.failedCount + chunk.failedCount)
    successCount := acc.successCount + chunk.successCount
    failedCount := acc.failedCount + chunk.failedCount
    shipments := acc.shipments ++ chunk.shipments
    importErrors := acc.importErrors ++ chunk.importErrors }

/-- `validate`, for a worksheet whose header row is in order. -/
def validate (A : Adapters) (database : List String) (chunkSize : Nat) (worksheet : Worksheet) :
    Except String ValidationResult :=
  (XlsxParser.iterChunks chunkSize worksheet).map fun chunks =>
    (iterValidatedChunks importId A database {} chunks).foldl addChunk
      ⟨0, 0, 0, 0, [], []⟩

end

end ShipmentImport
