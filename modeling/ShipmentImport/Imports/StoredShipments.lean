import ShipmentImport.Imports.RowIssues
import ShipmentImport.Imports.OnePass

/-!
# What the shipments table takes

The rules of the domain and the columns of the table describe a legal shipment twice. An accepted
row keeps the first description (`AcceptedShipment`); which accepted rows the table takes is
`Shipment.Storable` (`store_isOk_iff`).
-/

namespace ShipmentImport

/-- A string the column `VARCHAR(n)` takes. -/
def FitsColumn (n : Nat) (s : String) : Prop :=
  '\x00' ∉ s.toList ∧ (s.length ≤ n ∨ ∀ c ∈ s.toList.drop n, c = ' ')

instance (n : Nat) (s : String) : Decidable (FitsColumn n s) :=
  decidable_of_iff ('\x00' ∉ s.toList ∧ (s.length ≤ n ∨ (s.toList.drop n).all (· == ' ') = true))
    (by simp [FitsColumn])

/-- What the table asks of a shipment beyond the rules of the domain: texts without NUL characters,
the lengths of the code and the two cities, a weight and a price that PostgreSQL reads as numbers, a
weight that is not rounded to zero, and both such that they do not overflow their columns when
rounded. -/
structure Shipment.Storable (s : Shipment) : Prop where
  shipmentCode : FitsColumn 128 s.shipmentCode
  customerName : '\x00' ∉ s.customerName.toList
  originCity : FitsColumn 255 s.originCity
  destinationCity : FitsColumn 255 s.destinationCity
  weightNumeric : s.weightKg.IsNumeric
  weightPositive : 1 / 2000 ≤ s.weightKg.value
  weightFits : s.weightKg.value < 10 ^ 9 - 1 / 2000
  priceNumeric : s.price.IsNumeric
  priceFits : s.price.value < 10 ^ 16 - 1 / 200

/-- What the rules of the domain say about a shipment. -/
structure AcceptedShipment (s : Shipment) : Prop where
  status : s.status ∈ allowedShipmentStatuses
  customerName : s.customerName.length ≤ customerNameMaxLength
  weightKg : 0 < s.weightKg.value
  price : 0 ≤ s.price.value

/-! ## Accepted rows -/

/-- A row without issues keeps the rules. -/
theorem acceptedShipment_of_issues {A : Adapters} {row : ParsedWorkbookRow} {r : ShipmentRow}
    (hi : (prepareRow A row).issues = []) (hr : (prepareRow A row).parsedRow = some r)
    (importId : ImportId) : AcceptedShipment (r.toShipment importId) := by
  have hrules : validatePartialShipmentDraft r.toPartial = [] := by
    have h : (parseRow A row).1 = [] := hi
    rw [parseRow_issues] at h
    have hc : (parseFields A row).2.complete = some r := by
      have hp : (parseRow A row).2.2 = some r := hr
      unfold parseRow at hp
      simp only at hp
      split at hp
      · cases hp
      · next r' hc => cases hp; exact hc
    rw [complete_toPartial hc]
    exact (List.append_eq_nil_iff.1 h).2
  rw [validatePartialShipmentDraft_eq] at hrules
  simp only [ShipmentRow.toPartial, Option.map_some, Option.getD_some,
    List.append_eq_nil_iff] at hrules
  obtain ⟨⟨⟨hs, hn⟩, hw⟩, hp⟩ := hrules
  exact ⟨statusRule_eq_nil.1 hs, customerNameRule_eq_nil.1 hn, weightRule_eq_nil.1 hw,
    priceRule_eq_nil.1 hp⟩

/-- The valid rows of a chunk are rows without issues, as they were parsed. -/
theorem mem_validRows {importId : ImportId} {seen existing : List String}
    {prepared : List PreparedRow} {v : ValidatedShipmentRow} :
    ∀ {st : ChunkState},
      v ∈ (prepared.foldl (classifyRow importId seen existing) st).validRows →
      v ∈ st.validRows ∨ ∃ p ∈ prepared, p.issues = [] ∧ p.Accepts importId v := by
  induction prepared with
  | nil => exact fun h => .inl h
  | cons p prepared ih =>
    intro st h
    rcases ih h with h | ⟨q, hq, h⟩
    · simp only [classifyRow] at h
      split at h
      · next hi =>
        rcases List.mem_append.1 h with h | h
        · exact .inl h
        · have hissues := (List.append_eq_nil_iff.1 hi).1
          refine .inr ⟨p, List.mem_cons_self, hissues, _, (Option.some_get (p.parsed hissues)).symm, ?_⟩
          exact List.mem_singleton.1 h
      · exact .inl h
    · exact .inr ⟨q, List.mem_cons_of_mem _ hq, h⟩

theorem acceptedShipment_of_mem {A : Adapters} {importId : ImportId}
    {chunk : List ParsedWorkbookRow} {tracker : DuplicateTracker} {existing : List String}
    {v : ValidatedShipmentRow}
    (hv : v ∈ (classifyChunk importId (chunk.map (prepareRow A)) tracker existing).1.validRows) :
    AcceptedShipment v.shipment := by
  rcases mem_validRows hv with h | ⟨p, hp, hi, r, hr, rfl⟩
  · cases h
  · obtain ⟨row, -, rfl⟩ := List.mem_map.1 hp
    exact acceptedShipment_of_issues hi hr importId

/-! ## The columns -/

theorem varchar_isOk_iff {n : Nat} {s : String} : (∃ t, varchar n s = .ok t) ↔ FitsColumn n s := by
  unfold varchar FitsColumn
  split
  · next h => simp [h]
  · next h =>
    split
    · next hl => simp [h, hl]
    · next hl =>
      split
      · next ha => simpa [h, hl] using ha
      · next ha => simpa [h, hl] using ha

theorem numeric_eq_ok {precision scale : Nat} {x y : PyDecimal} :
    numeric precision scale x = .ok y ↔ x.IsNumeric ∧ ∃ units,
      numeric? precision scale x.value = some units ∧ y = ⟨units, -scale⟩ := by
  unfold numeric
  by_cases hx : x.IsNumeric
  · rw [if_pos hx]
    cases numeric? precision scale x.value with
    | none => simp
    | some units => simp [hx, eq_comm]
  · simp [hx]

theorem value_units (scale : Nat) (units : ℤ) :
    (⟨units, -scale⟩ : PyDecimal).value = numericValue scale units := by
  simp [PyDecimal.value, PyDecimal.decimals, numericValue]

theorem numeric_isOk_iff {precision scale : Nat} {x : PyDecimal} (hx : 0 ≤ x.value) :
    (∃ y, numeric precision scale x = .ok y) ↔
      x.IsNumeric ∧ x.value * 10 ^ scale < 10 ^ precision - 1 / 2 := by
  rw [← numeric?_isSome_iff hx, Option.isSome_iff_exists]
  constructor
  · rintro ⟨y, hy⟩
    obtain ⟨h, units, hu, -⟩ := numeric_eq_ok.1 hy
    exact ⟨h, units, hu⟩
  · rintro ⟨h, units, hu⟩
    exact ⟨_, numeric_eq_ok.2 ⟨h, units, hu, rfl⟩⟩

/-- A stored weight is positive unless it was rounded to zero. -/
theorem numeric_pos_iff {precision scale : Nat} {x y : PyDecimal}
    (h : numeric precision scale x = .ok y) : 0 < y.value ↔ 1 / 2 ≤ x.value * 10 ^ scale := by
  obtain ⟨-, units, hu, rfl⟩ := numeric_eq_ok.1 h
  have hunits : units = roundHalfAway (x.value * 10 ^ scale) := by
    simp only [numeric?, Option.ite_none_right_eq_some, Option.some.injEq] at hu
    exact hu.2.symm
  have hle := le_roundHalfAway_iff (x := x.value * 10 ^ scale) (n := 1) one_pos
  norm_num at hle
  rw [value_units, numericValue_pos, hunits, ← Int.add_one_le_iff, zero_add, hle]

theorem numeric_nonneg {precision scale : Nat} {x y : PyDecimal} (hx : 0 ≤ x.value)
    (h : numeric precision scale x = .ok y) : 0 ≤ y.value := by
  obtain ⟨-, units, hu, rfl⟩ := numeric_eq_ok.1 h
  simp only [numeric?, Option.ite_none_right_eq_some, Option.some.injEq] at hu
  rw [value_units, numericValue_nonneg, ← hu.2]
  exact roundHalfAway_nonneg (by positivity)

/-- A status of the list is stored as it is. -/
theorem varchar_status {s : String} (h : s ∈ allowedShipmentStatuses) : varchar 32 s = .ok s := by
  simp only [allowedShipmentStatuses, List.mem_cons, List.not_mem_nil, or_false] at h
  rcases h with rfl | rfl | rfl | rfl <;> decide

/-- The table takes an accepted shipment exactly when it is storable. -/
theorem store_isOk_iff {s : Shipment} (h : AcceptedShipment s) :
    (∃ s', s.store = .ok s') ↔ s.Storable := by
  have hprice := h.price
  have hweight := h.weightKg
  have hstatus := varchar_status h.status
  have hw : s.weightKg.value * 10 ^ 3 < 10 ^ 12 - 1 / 2 ↔
      s.weightKg.value < 10 ^ 9 - 1 / 2000 := by
    constructor <;> intro h <;> linarith
  have hp : s.price.value * 10 ^ 2 < 10 ^ 18 - 1 / 2 ↔ s.price.value < 10 ^ 16 - 1 / 200 := by
    constructor <;> intro h <;> linarith
  have hw' : 1 / 2 ≤ s.weightKg.value * 10 ^ 3 ↔ 1 / 2000 ≤ s.weightKg.value := by
    constructor <;> intro h <;> linarith
  have hname : FitsColumn 150 s.customerName ↔ '\x00' ∉ s.customerName.toList :=
    ⟨fun h => h.1, fun h' => ⟨h', .inl h.customerName⟩⟩
  constructor
  · rintro ⟨s', hs⟩
    simp only [Shipment.store, bind_eq_ok] at hs
    obtain ⟨code, hcode, name, hn, origin, ho, destination, hd, weight, hwt, price, hpr, status, hst,
      hs⟩ := hs
    rw [hstatus] at hst
    cases hst
    split at hs
    · next hck =>
      simp only [Shipment.checks, Bool.and_eq_true, decide_eq_true_eq] at hck
      obtain ⟨hwn, hwf⟩ := (numeric_isOk_iff hweight.le).1 ⟨_, hwt⟩
      obtain ⟨hpn, hpf⟩ := (numeric_isOk_iff hprice).1 ⟨_, hpr⟩
      exact
        { shipmentCode := varchar_isOk_iff.1 ⟨_, hcode⟩
          customerName := hname.1 (varchar_isOk_iff.1 ⟨_, hn⟩)
          originCity := varchar_isOk_iff.1 ⟨_, ho⟩
          destinationCity := varchar_isOk_iff.1 ⟨_, hd⟩
          weightNumeric := hwn
          weightPositive := hw'.1 ((numeric_pos_iff hwt).1 hck.1.2)
          weightFits := hw.1 hwf
          priceNumeric := hpn
          priceFits := hp.1 hpf }
    · cases hs
  · intro hs
    obtain ⟨code, hcode⟩ := varchar_isOk_iff.2 hs.shipmentCode
    obtain ⟨name, hn⟩ := varchar_isOk_iff.2 (hname.2 hs.customerName)
    obtain ⟨origin, ho⟩ := varchar_isOk_iff.2 hs.originCity
    obtain ⟨destination, hd⟩ := varchar_isOk_iff.2 hs.destinationCity
    obtain ⟨weight, hwt⟩ := (numeric_isOk_iff hweight.le).2
      ⟨hs.weightNumeric, hw.2 hs.weightFits⟩
    obtain ⟨price, hpr⟩ := (numeric_isOk_iff hprice).2 ⟨hs.priceNumeric, hp.2 hs.priceFits⟩
    have hpos : 0 < weight.value := (numeric_pos_iff hwt).2 (hw'.2 hs.weightPositive)
    have hnonneg : 0 ≤ price.value := numeric_nonneg hprice hpr
    let stored : Shipment :=
      { s with
        shipmentCode := code, customerName := name, originCity := origin
        destinationCity := destination, weightKg := weight, price := price }
    have hck : stored.checks = true := by
      simp only [stored, Shipment.checks, Bool.and_eq_true, decide_eq_true_eq]
      exact ⟨⟨h.status, hpos⟩, hnonneg⟩
    refine ⟨stored, bind_eq_ok.2 ⟨code, hcode, bind_eq_ok.2 ⟨name, hn, bind_eq_ok.2 ⟨origin, ho,
      bind_eq_ok.2 ⟨destination, hd, bind_eq_ok.2 ⟨weight, hwt, bind_eq_ok.2 ⟨price, hpr,
        bind_eq_ok.2 ⟨s.status, hstatus, if_pos hck⟩⟩⟩⟩⟩⟩⟩⟩

/-- Whichever rows a chunk accepts, the table takes exactly the storable ones. -/
theorem validRows_store_iff (A : Adapters) (importId : ImportId) (chunk : List ParsedWorkbookRow)
    (tracker : DuplicateTracker) (existing : List String) :
    ∀ v ∈ (classifyChunk importId (chunk.map (prepareRow A)) tracker existing).1.validRows,
      (∃ stored, v.shipment.store = .ok stored) ↔ v.shipment.Storable :=
  fun _ hv => store_isOk_iff (acceptedShipment_of_mem hv)

/-! ## A row the rules accept and the table does not -/

/-- Adapters that take texts, and integers for the number of units of a tenth of a gram. -/
def plainAdapters : Adapters where
  string
    | .str s => .ok s
    | _ => .error "Input should be a valid string"
  decimal
    | .int n => .ok ⟨n, -4⟩
    | _ => .error "Decimal input should be an integer, float, string or Decimal object"
  date _ := .error "Input should be a valid date"

/-- A shipment of a tenth of a gram. -/
def lightRow : ParsedWorkbookRow :=
  ⟨2, [("shipment_code", .str "S-1"), ("customer_name", .str "Ann"), ("origin_city", .str "Rome"),
    ("destination_city", .str "Oslo"), ("weight_kg", .int 1), ("price", .int 10000),
    ("status", .str "PENDING"), ("delivery_date", .none)]⟩

/-- Its row is accepted, and the table rejects it: its weight is rounded to zero. -/
theorem lightRow_rejected :
    (classifyChunk 0 ([lightRow].map (prepareRow plainAdapters)) {} []).1.shipments.map
      Shipment.store = [.error .integrityError] := by
  decide +kernel

/-- The row is one the table decides on by what it stores. -/
theorem lightRow_store_iff :
    ∃ v ∈ (classifyChunk 0 ([lightRow].map (prepareRow plainAdapters)) {} []).1.validRows,
      ((∃ stored, v.shipment.store = .ok stored) ↔ v.shipment.Storable) := by
  have hlen : 0 < (classifyChunk 0 ([lightRow].map (prepareRow plainAdapters)) {}
      []).1.validRows.length := by decide +kernel
  obtain ⟨v, hv⟩ := List.exists_mem_of_length_pos hlen
  exact ⟨v, hv, validRows_store_iff plainAdapters 0 [lightRow] {} [] v hv⟩

end ShipmentImport
