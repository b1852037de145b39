import ShipmentImport.Common.Dates
import ShipmentImport.Common.Pagination
import ShipmentImport.Lib.Like
import ShipmentImport.Lib.Pages

/-!
# The list endpoints

The two read endpoints that answer in pages, from query string to response: the errors of an import
(`app/imports/services/list_import_errors.py`, `ImportErrorRepository.list_page`) and the shipments
(`app/api/v1/shipments.py`, `app/shipments/`).
-/

namespace ShipmentImport

/-! ## Requests and rows -/

/-- What ends a request other than a response: an `ApiError`, an `OverflowError`, or a `DataError`
of the database, for a number outside the range of `bigint` or a text with a NUL character. -/
inductive QueryFault
  | api (code message : String)
  | overflow
  | outOfRange
  | nulCharacter
  deriving DecidableEq

/-- What a response holds. -/
structure Listing (α : Type) where
  items : List α
  pagination : PaginationMetadata

/-- What `list_page` returns. -/
structure ListPage (α : Type) where
  items : List α
  totalItems : Nat

/-- A table with its primary key. UUIDs are the numbers of their 128 bits, which are ordered as the
database orders them. -/
structure Keyed (α : Type) where
  rows : List (Nat × α)
  nodup : (rows.map (·.1)).Nodup

/-- The rows a `SELECT` with `ORDER BY`, `LIMIT` and `OFFSET` returns, and their number without
limit and offset, which are of type `bigint`. -/
def selectPage {α κ : Type} [LinearOrder κ] (key : α → κ) (selected : List α)
    (limit offset : Nat) : Except QueryFault (ListPage α) :=
  if limit < 2 ^ 63 ∧ offset < 2 ^ 63 then
    .ok ⟨page limit offset (orderBy key selected), selected.length⟩
  else .error .outOfRange

/-- `except InvalidPaginationError`. -/
def parsePage (settings : Settings) (page pageSize : Option String) :
    Except QueryFault PageRequest :=
  (parsePageRequest page pageSize settings.defaultPageSize settings.maxPageSize).mapError
    (.api "INVALID_PAGINATION")

/-! ## The errors of an import -/

structure ImportErrorReadModel where
  rowNumber : Nat
  field : String
  error : String
  deriving DecidableEq

namespace ImportErrorRepository

/-- `order_by(row_number.asc(), id.asc())`. -/
def order (r : Nat × ImportErrorRow) : ℕ ×ₗ ℕ := toLex (r.2.rowNumber, r.1)

def toReadModel (r : Nat × ImportErrorRow) : ImportErrorReadModel :=
  { rowNumber := r.2.rowNumber, field := r.2.field, error := r.2.error }

/-- `ImportErrorRow.import_id == import_id`. -/
def ofImport (errors : Keyed ImportErrorRow) (importId : ImportId) : List (Nat × ImportErrorRow) :=
  errors.rows.filter fun r => r.2.importId = importId

def listPage (errors : Keyed ImportErrorRow) (importId : ImportId) (limit offset : Nat) :
    Except QueryFault (ListPage ImportErrorReadModel) := do
  let selected ← selectPage order (ofImport errors importId) limit offset
  return ⟨selected.items.map toReadModel, selected.totalItems⟩

end ImportErrorRepository

/-- `list_import_errors`, `exists'` saying which imports there are. -/
def listImportErrors (settings : Settings) (exists' : ImportId → Bool)
    (errors : Keyed ImportErrorRow) (importId : ImportId) (page pageSize : Option String) :
    Except QueryFault (Listing ImportErrorReadModel) := do
  let pageRequest ← parsePage settings page pageSize
  if !exists' importId then throw (.api "IMPORT_NOT_FOUND" "Import job was not found.")
  let result ←
    ImportErrorRepository.listPage errors importId pageRequest.pageSize.1 pageRequest.offset
  return ⟨result.items, buildPaginationMetadata pageRequest result.totalItems⟩

/-! ## Shipments -/

/-- A shipment as it is read back, with its creation time in microseconds since 0001-01-01, UTC. -/
structure StoredShipment where
  shipment : Shipment
  createdAt : Int

/-- The query string of `list_shipments`. -/
structure ShipmentQuery where
  page : Option String := none
  pageSize : Option String := none
  status : Option String := none
  originCity : Option String := none
  destinationCity : Option String := none
  customerName : Option String := none
  createdFrom : Option String := none
  createdTo : Option String := none

structure ShipmentQueryFilters where
  status : Option String
  originCity : Option String
  destinationCity : Option String
  customerName : Option String
  createdFrom : Option PyDate
  createdTo : Option PyDate

def shipmentStatuses : List String := ["PENDING", "IN_TRANSIT", "DELIVERED", "CANCELED"]

/-- `_normalize_status`; an error is the text of an `InvalidShipmentFilterError`. -/
def normalizeStatus : Option String → Except String (Option String)
  | none => .ok none
  | some value =>
    if strip value ∉ shipmentStatuses then
      .error "status must be one of: CANCELED, DELIVERED, IN_TRANSIT, PENDING."
    else .ok (some (strip value))

/-- `_normalize_text_filter`. -/
def normalizeTextFilter : Option String → Except String (Option String)
  | none => .ok none
  | some value =>
    if strip value = "" then .error "text filters must not be blank." else .ok (some (strip value))

/-- `_parse_date_filter`. -/
def parseDateFilter (name : String) : Option String → Except String (Option PyDate)
  | none => .ok none
  | some value =>
    match PyDate.fromisoformat value with
    | some d => .ok (some d)
    | none => .error (name ++ " must use YYYY-MM-DD.")

/-- Whether the range of creation dates is none. -/
def emptyRange (createdFrom createdTo : Option PyDate) : Bool :=
  match createdFrom, createdTo with
  | some first, some last => last.before first
  | _, _ => false

/-- `_build_filters`. -/
def buildFilters (q : ShipmentQuery) : Except String ShipmentQueryFilters := do
  let status ← normalizeStatus q.status
  let createdFrom ← parseDateFilter "created_from" q.createdFrom
  let createdTo ← parseDateFilter "created_to" q.createdTo
  if emptyRange createdFrom createdTo then
    throw "created_from must be on or before created_to."
  let originCity ← normalizeTextFilter q.originCity
  let destinationCity ← normalizeTextFilter q.destinationCity
  let customerName ← normalizeTextFilter q.customerName
  return { status, originCity, destinationCity, customerName, createdFrom, createdTo }

structure ShipmentListItem where
  shipmentId : Nat
  importId : ImportId
  shipmentCode : String
  customerName : String
  originCity : String
  destinationCity : String
  weightKg : String
  price : String
  status : String
  deliveryDate : Option PyDate
  createdAt : Int
  deriving DecidableEq

namespace ShipmentQueryRepository

/-- The special characters of a pattern with `escape="\\"`. -/
def patterns : LikeSyntax Char where
  anyString := '%'
  anyChar := '_'
  escape := '\\'
  string_ne_char := by decide
  string_ne_escape := by decide
  char_ne_escape := by decide

/-- A condition on a row; the text of a column is read by `column`. -/
inductive Criterion
  | statusIs (status : String)
  | ilike (column : Shipment → String) (pattern : String)
  | createdFrom (instant : Int)
  | createdBefore (instant : Int)

/-- The microseconds of a day. -/
def dayLength : Int := 24 * 60 * 60 * 1000000

/-- `_day_start`. -/
def dayStart (d : PyDate) : Int := (d.toOrdinal - 1) * dayLength

/-- The pattern of `_contains`. -/
def containsPattern (value : String) : String :=
  String.ofList ('%' :: (patterns.escaped value.toList ++ ['%']))

/-- `_contains`. -/
def contains (column : Shipment → String) (value : String) : Criterion :=
  .ilike column (containsPattern value)

/-- `_filters_to_criteria`. -/
def filtersToCriteria (f : ShipmentQueryFilters) : Except QueryFault (List Criterion) := do
  let texts := (f.status.map .statusIs).toList ++
    (f.originCity.map (contains (·.originCity))).toList ++
    (f.destinationCity.map (contains (·.destinationCity))).toList ++
    (f.customerName.map (contains (·.customerName))).toList ++
    (f.createdFrom.map fun d => .createdFrom (dayStart d)).toList
  match f.createdTo with
  | none => return texts
  | some d =>
    match d.nextDay with
    | none => throw .overflow
    | some next => return texts ++ [.createdBefore (dayStart next)]

/-- Whether a row satisfies a condition. -/
def Criterion.holds (F : patterns.Folding) (r : StoredShipment) : Criterion → Bool
  | .statusIs status => r.shipment.status = status
  | .ilike column pattern =>
    (LikeSyntax.ilike F pattern.toList (column r.shipment).toList).getD false
  | .createdFrom instant => instant ≤ r.createdAt
  | .createdBefore instant => r.createdAt < instant

/-- A text the database does not take as a parameter. -/
def Criterion.nul : Criterion → Bool
  | .ilike _ pattern => '\x00' ∈ pattern.toList
  | .statusIs status => '\x00' ∈ status.toList
  | .createdFrom _ | .createdBefore _ => false

/-- `where(*criteria)`. -/
def select (F : patterns.Folding) (shipments : Keyed StoredShipment) (criteria : List Criterion) :
    List (Nat × StoredShipment) :=
  shipments.rows.filter fun r => criteria.all (·.holds F r.2)

/-- `order_by(created_at.desc(), id.desc())`. -/
def order (r : Nat × StoredShipment) : (ℤ ×ₗ ℕ)ᵒᵈ := OrderDual.toDual (toLex (r.2.createdAt, r.1))

/-- `_decimal_text` of a column `NUMERIC(p, scale)`. -/
def decimalText (scale : Nat) (x : ℚ) : String :=
  let units := roundHalfAway (x * 10 ^ scale)
  let fraction := toString (units.natAbs % 10 ^ scale)
  (if units < 0 then "-" else "") ++ toString (units.natAbs / 10 ^ scale) ++ "." ++
    String.ofList (List.replicate (scale - fraction.length) '0') ++ fraction

/-- `_to_list_item`. -/
def toListItem (r : Nat × StoredShipment) : ShipmentListItem :=
  let shipment := r.2.shipment
  { shipmentId := r.1
    importId := shipment.importId
    shipmentCode := shipment.shipmentCode
    customerName := shipment.customerName
    originCity := shipment.originCity
    destinationCity := shipment.destinationCity
    weightKg := decimalText 3 shipment.weightKg.value
    price := decimalText 2 shipment.price.value
    status := shipment.status
    deliveryDate := shipment.deliveryDate
    createdAt := r.2.createdAt }

def listPage (F : patterns.Folding) (shipments : Keyed StoredShipment)
    (filters : ShipmentQueryFilters) (limit offset : Nat) :
    Except QueryFault (ListPage ShipmentListItem) := do
  let criteria ← filtersToCriteria filters
  if criteria.any (·.nul) then throw .nulCharacter
  let selected ← selectPage order (select F shipments criteria) limit offset
  return ⟨selected.items.map toListItem, selected.totalItems⟩

end ShipmentQueryRepository

/-- `list_shipments`, with `ListShipmentsService.list_shipments` in it. -/
def listShipments (settings : Settings) (F : ShipmentQueryRepository.patterns.Folding)
    (shipments : Keyed StoredShipment) (q : ShipmentQuery) :
    Except QueryFault (Listing ShipmentListItem) := do
  let pageRequest ← parsePage settings q.page q.pageSize
  let filters ← (buildFilters q).mapError (.api "INVALID_FILTER")
  let result ← ShipmentQueryRepository.listPage F shipments filters pageRequest.pageSize.1
    pageRequest.offset
  return ⟨result.items, buildPaginationMetadata pageRequest result.totalItems⟩

end ShipmentImport
