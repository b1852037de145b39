import ShipmentImport.Models

/-!
# The workbook parser

`XlsxParser` (`app/imports/parsers/xlsx_parser.py`) over a worksheet as the workbook reader returns
it. `iter_chunks` is a generator; its value here is the list of the chunks it will yield, which the
caller consumes one by one.
-/

namespace ShipmentImport

def requiredWorkbookHeaders : List String :=
  ["shipment_code", "customer_name", "origin_city", "destination_city", "weight_kg", "price",
    "status"]

def workbookRowFields : List String := requiredWorkbookHeaders ++ ["delivery_date"]

/-- The first worksheet of a workbook: its first row, if there is one, and the rows from row 2. -/
structure Worksheet where
  header : Option (List PyValue)
  rows : List (List PyValue)

structure ParsedWorkbookRow where
  rowNumber : Nat
  values : PyDict

namespace XlsxParser

/-- `_normalize_text`. -/
def normalizeText : PyValue → PyValue
  | .str s => if strip s = "" then .none else .str (strip s)
  | v => v

/-- The loop of `_parse_headers`, from column `index` on. -/
def normalizeHeaders : List PyValue → Nat → List (PyValue × Nat) →
    Except String (List (PyValue × Nat))
  | [], _, headers => .ok headers
  | value :: values, index, headers =>
    let header := normalizeText value
    if header.isNone then normalizeHeaders values (index + 1) headers
    else if headers.any fun h => h.1.eq header then
      .error "Workbook contains duplicate headers."
    else normalizeHeaders values (index + 1) (headers ++ [(header, index)])

/-- `headers.get(field)`. -/
def headerIndex (headers : List (PyValue × Nat)) (field : String) : Option Nat :=
  (headers.find? fun h => h.1.eq (.str field)).map (·.2)

/-- `_parse_headers`; an error is the text of a `WorkbookStructureError`. -/
def parseHeaders (worksheet : Worksheet) : Except String (List (PyValue × Nat)) :=
  match worksheet.header with
  | none => .error "Workbook is missing a header row."
  | some headerValues =>
    match normalizeHeaders headerValues 0 [] with
    | .error message => .error message
    | .ok headers =>
      match requiredWorkbookHeaders.filter fun h => (headerIndex headers h).isNone with
      | [] => .ok headers
      | missing => .error ("Workbook is missing required headers: " ++ ", ".intercalate missing)

/-- `_normalize_row`. -/
def normalizeRow (rowValues : List PyValue) (headers : List (PyValue × Nat)) : PyDict :=
  workbookRowFields.map fun field => (field,
    match headerIndex headers field with
    | none => .none
    | some index => normalizeText (rowValues.getD index .none))

/-- `_iter_data_rows`, with `rowNumber` the number of the first of the rows. -/
def iterDataRows (headers : List (PyValue × Nat)) : Nat → List (List PyValue) →
    List ParsedWorkbookRow
  | _, [] => []
  | rowNumber, rowValues :: rows =>
    let normalizedRow := normalizeRow rowValues headers
    if normalizedRow.all fun x => x.2.isNone then iterDataRows headers (rowNumber + 1) rows
    else ⟨rowNumber, normalizedRow⟩ :: iterDataRows headers (rowNumber + 1) rows

/-- The loop of `iter_chunks`: `rows` is the chunk being collected. -/
def chunksFrom (chunkSize : Nat) : List ParsedWorkbookRow → List ParsedWorkbookRow →
    List (List ParsedWorkbookRow)
  | [], rows => if rows = [] then [] else [rows]
  | row :: rest, rows =>
    if (rows ++ [row]).length ≥ chunkSize then
      (rows ++ [row]) :: chunksFrom chunkSize rest []
    else chunksFrom chunkSize rest (rows ++ [row])

/-- The rows of a worksheet that are not blank, or the text of a `WorkbookStructureError`. -/
def dataRows (worksheet : Worksheet) : Except String (List ParsedWorkbookRow) :=
  (parseHeaders worksheet).map fun headers => iterDataRows headers 2 worksheet.rows

/-- `iter_chunks` of a worksheet that could be read. -/
def iterChunks (chunkSize : Nat) (worksheet : Worksheet) :
    Except String (List (List ParsedWorkbookRow)) :=
  (dataRows worksheet).map fun rows => chunksFrom chunkSize rows []

/-- `except (BadZipFile, OSError, ValueError, IndexError)` of `iter_chunks`. -/
def isStructural : Fault → Bool
  | .badZipFile | .osError | .valueError | .indexError => true
  | .operationalError | .integrityError | .sqlalchemyError | .overflowError | .other => false

/-! ## What the chunks hold -/

/-- The chunks are the rows, in order. -/
theorem flatten_chunksFrom (chunkSize : Nat) (rest rows : List ParsedWorkbookRow) :
    (chunksFrom chunkSize rest rows).flatten = rows ++ rest := by
  induction rest generalizing rows with
  | nil =>
    unfold chunksFrom
    split
    · next h => simp [h]
    · simp
  | cons row rest ih =>
    unfold chunksFrom
    split
    · rw [List.flatten_cons, ih, List.nil_append, List.append_assoc, List.singleton_append]
    · rw [ih, List.append_assoc, List.singleton_append]

theorem flatten_iterChunks {chunkSize : Nat} {worksheet : Worksheet}
    {chunks : List (List ParsedWorkbookRow)} (h : iterChunks chunkSize worksheet = .ok chunks) :
    dataRows worksheet = .ok chunks.flatten := by
  unfold iterChunks at h
  cases hd : dataRows worksheet with
  | error e => rw [hd] at h; cases h
  | ok rows =>
    rw [hd] at h
    cases h
    rw [flatten_chunksFrom, List.nil_append]

/-- Row numbers grow strictly, from the number of the first row on. -/
theorem iterDataRows_rowNumbers (headers : List (PyValue × Nat)) (n : Nat)
    (rows : List (List PyValue)) :
    (∀ r ∈ iterDataRows headers n rows, n ≤ r.rowNumber) ∧
      ((iterDataRows headers n rows).map (·.rowNumber)).Pairwise (· < ·) := by
  induction rows generalizing n with
  | nil => simp [iterDataRows]
  | cons row rows ih =>
    obtain ⟨hle, hp⟩ := ih (n + 1)
    simp only [iterDataRows]
    split
    · exact ⟨fun r hr => by have := hle r hr; omega, hp⟩
    · refine ⟨fun r hr => ?_, ?_⟩
      · rcases List.mem_cons.1 hr with rfl | hr
        · exact Nat.le_refl _
        · have := hle r hr
          omega
      · rw [List.map_cons, List.pairwise_cons]
        refine ⟨fun k hk => ?_, hp⟩
        obtain ⟨r, hr, rfl⟩ := List.mem_map.1 hk
        exact hle r hr

theorem dataRows_rowNumbers {worksheet : Worksheet} {rows : List ParsedWorkbookRow}
    (h : dataRows worksheet = .ok rows) : (rows.map (·.rowNumber)).Pairwise (· < ·) := by
  unfold dataRows at h
  cases hp : parseHeaders worksheet with
  | error e => rw [hp] at h; cases h
  | ok headers =>
    rw [hp] at h
    cases h
    exact (iterDataRows_rowNumbers headers 2 worksheet.rows).2

end XlsxParser

end ShipmentImport
