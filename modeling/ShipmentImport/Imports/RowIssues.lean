import ShipmentImport.Imports.RowValidation

/-!
# The issues of a row, cell by cell

`_parse_row` collects the issues of a row in two passes, parsing and rules, and takes one of two
paths through the rules. What it reports is the union over the fields of issues that depend on the
field's own cell only (`cellIssues`, `parseRow_perm`): a field whose cell does not parse has the
issue of the parser, and one whose cell parses has the issue of its rule, if it breaks it.
-/

namespace ShipmentImport

open List

/-! ## Rules of single values -/

/-- The rule on a status. -/
def statusRule (status : String) : List ValidationIssue :=
  if status ∉ allowedShipmentStatuses then
    [⟨"status", "Status must be one of PENDING, IN_TRANSIT, DELIVERED, or CANCELED."⟩]
  else []

/-- The rule on a customer name. -/
def customerNameRule (name : String) : List ValidationIssue :=
  if name.length > customerNameMaxLength then
    [⟨"customer_name", "Customer name must be 150 characters or fewer."⟩]
  else []

/-- The rule on a weight. -/
def weightRule (weight : PyDecimal) : List ValidationIssue :=
  if weight.value ≤ 0 then [⟨"weight_kg", "Weight must be greater than 0."⟩] else []

/-- The rule on a price. -/
def priceRule (price : PyDecimal) : List ValidationIssue :=
  if price.value < 0 then [⟨"price", "Price must be greater than or equal to 0."⟩] else []

theorem statusRule_eq_nil {s : String} : statusRule s = [] ↔ s ∈ allowedShipmentStatuses := by
  simp [statusRule]

theorem customerNameRule_eq_nil {s : String} :
    customerNameRule s = [] ↔ s.length ≤ customerNameMaxLength := by
  simp [customerNameRule]

theorem weightRule_eq_nil {x : PyDecimal} : weightRule x = [] ↔ 0 < x.value := by
  simp [weightRule]

theorem priceRule_eq_nil {x : PyDecimal} : priceRule x = [] ↔ 0 ≤ x.value := by
  simp [priceRule]

/-- No rule. -/
def noRule {α : Type} (_ : α) : List ValidationIssue := []

/-- The issues of a cell whose field is required: that it is missing, that it does not parse, or
those of the rule on its value. -/
def requiredCell {α : Type} (adapter : PyValue → Except String α) (fieldName : String)
    (rule : α → List ValidationIssue) (value : PyValue) : List ValidationIssue :=
  if value.isNone then [⟨fieldName, "Field required"⟩]
  else match parseField adapter fieldName value with
    | .error issue => [issue]
    | .ok parsed => rule parsed

/-- The issues of a cell whose field may be absent. -/
def optionalCell {α : Type} (adapter : PyValue → Except String α) (fieldName : String)
    (value : PyValue) : List ValidationIssue :=
  if value.isNone then []
  else match parseField adapter fieldName value with
    | .error issue => [issue]
    | .ok _ => []

/-- The issues of a field, from its cell. -/
def cellIssues (A : Adapters) (field : String) (value : PyValue) : List ValidationIssue :=
  match field with
  | "shipment_code" | "origin_city" | "destination_city" =>
    requiredCell A.string field noRule value
  | "customer_name" => requiredCell A.string field customerNameRule value
  | "weight_kg" => requiredCell A.decimal field weightRule value
  | "price" => requiredCell A.decimal field priceRule value
  | "status" => requiredCell A.string field statusRule value
  | "delivery_date" => optionalCell A.date field value
  | _ => []

/-- At most one issue, and about this field. -/
def AboutOne (field : String) (issues : List ValidationIssue) : Prop :=
  issues.length ≤ 1 ∧ ∀ issue ∈ issues, issue.field = field

theorem aboutOne_nil (field : String) : AboutOne field [] := ⟨by simp, by simp⟩

theorem aboutOne_singleton (field error : String) : AboutOne field [⟨field, error⟩] :=
  ⟨by simp, by simp⟩

theorem aboutOne_rule {field error : String} {p : Prop} [Decidable p] :
    AboutOne field (if p then [⟨field, error⟩] else []) := by
  split
  · exact aboutOne_singleton field error
  · exact aboutOne_nil field

theorem parseField_error {α : Type} {adapter : PyValue → Except String α} {field : String}
    {value : PyValue} {issue : ValidationIssue} (h : parseField adapter field value = .error issue) :
    issue.field = field := by
  unfold parseField at h
  cases ha : adapter value with
  | error message => rw [ha] at h; cases h; rfl
  | ok a => rw [ha] at h; cases h

theorem aboutOne_requiredCell {α : Type} {adapter : PyValue → Except String α} {field : String}
    {rule : α → List ValidationIssue} (hrule : ∀ a, AboutOne field (rule a)) (value : PyValue) :
    AboutOne field (requiredCell adapter field rule value) := by
  unfold requiredCell
  split
  · exact aboutOne_singleton field _
  · split
    · next hp => exact ⟨by simp, by simp [parseField_error hp]⟩
    · exact hrule _

theorem aboutOne_optionalCell {α : Type} {adapter : PyValue → Except String α} {field : String}
    (value : PyValue) : AboutOne field (optionalCell adapter field value) := by
  unfold optionalCell
  split
  · exact aboutOne_nil field
  · split
    · next hp => exact ⟨by simp, by simp [parseField_error hp]⟩
    · exact aboutOne_nil field

/-- A cell has at most one issue, about its field. -/
theorem aboutOne_cellIssues (A : Adapters) (field : String) (value : PyValue) :
    AboutOne field (cellIssues A field value) := by
  unfold cellIssues
  split
  · exact aboutOne_requiredCell (fun _ => aboutOne_nil _) value
  · exact aboutOne_requiredCell (fun _ => aboutOne_nil _) value
  · exact aboutOne_requiredCell (fun _ => aboutOne_nil _) value
  · exact aboutOne_requiredCell (fun _ => aboutOne_rule) value
  · exact aboutOne_requiredCell (fun _ => aboutOne_rule) value
  · exact aboutOne_requiredCell (fun _ => aboutOne_rule) value
  · exact aboutOne_requiredCell (fun _ => aboutOne_rule) value
  · exact aboutOne_optionalCell value
  · exact aboutOne_nil field

/-! ## The two passes -/

/-- Parsing a required cell, followed by the rule on what was parsed. -/
theorem requiredField_rule {α : Type} (adapter : PyValue → Except String α) (field : String)
    (rule : α → List ValidationIssue) (row : ParsedWorkbookRow) :
    (requiredField adapter field row).1 ++ ((requiredField adapter field row).2.map rule).getD [] =
      requiredCell adapter field rule (row.values.get field) := by
  simp only [requiredField, requiredCell]
  split
  · rfl
  · cases parseField adapter field (row.values.get field) with
    | error issue => rfl
    | ok parsed => rfl

theorem optionalField_eq {α : Type} (adapter : PyValue → Except String α) (field : String)
    (row : ParsedWorkbookRow) :
    (optionalField adapter field row).1 = optionalCell adapter field (row.values.get field) := by
  simp only [optionalField, optionalCell]
  split
  · rfl
  · cases parseField adapter field (row.values.get field) with
    | error issue => rfl
    | ok parsed => rfl

/-- The rules on a draft are the rules on the values it has. -/
theorem validatePartialShipmentDraft_eq (v : PartialShipmentDraft) :
    validatePartialShipmentDraft v =
      (v.status.map statusRule).getD [] ++ (v.customerName.map customerNameRule).getD [] ++
        (v.weightKg.map weightRule).getD [] ++ (v.price.map priceRule).getD [] := by
  obtain ⟨_, name, _, _, weight, price, status, _⟩ := v
  cases name <;> cases weight <;> cases price <;> cases status <;> rfl

/-- Completing a draft and forgetting that it is complete is the draft. -/
theorem complete_toPartial {v : PartialShipmentDraft} {r : ShipmentRow}
    (h : v.complete = some r) : r.toPartial = v := by
  obtain ⟨a, b, c, d, e, f, g, x⟩ := v
  unfold PartialShipmentDraft.complete at h
  split at h
  · next h1 h2 h3 h4 h5 h6 h7 =>
    cases h
    simp only at h1 h2 h3 h4 h5 h6 h7
    subst h1 h2 h3 h4 h5 h6 h7
    rfl
  · cases h

/-- Both paths of `_parse_row` add the rules on what was parsed. -/
theorem parseRow_issues (A : Adapters) (row : ParsedWorkbookRow) :
    (parseRow A row).1 =
      (parseFields A row).1 ++ validatePartialShipmentDraft (parseFields A row).2 := by
  unfold parseRow
  simp only
  split
  · rfl
  · next r hc => simp only [validateShipmentDraft, complete_toPartial hc]

/-- The issues of a row are those of its cells. -/
theorem parseRow_perm (A : Adapters) (row : ParsedWorkbookRow) :
    (parseRow A row).1 ~ workbookRowFields.flatMap fun f => cellIssues A f (row.values.get f) := by
  rw [parseRow_issues, validatePartialShipmentDraft_eq]
  have e : workbookRowFields.flatMap (fun f => cellIssues A f (row.values.get f)) =
      requiredCell A.string "shipment_code" noRule (row.values.get "shipment_code") ++
        requiredCell A.string "customer_name" customerNameRule (row.values.get "customer_name") ++
        requiredCell A.string "origin_city" noRule (row.values.get "origin_city") ++
        requiredCell A.string "destination_city" noRule (row.values.get "destination_city") ++
        requiredCell A.decimal "weight_kg" weightRule (row.values.get "weight_kg") ++
        requiredCell A.decimal "price" priceRule (row.values.get "price") ++
        requiredCell A.string "status" statusRule (row.values.get "status") ++
        optionalCell A.date "delivery_date" (row.values.get "delivery_date") := by
    simp [workbookRowFields, requiredWorkbookHeaders, cellIssues]
  have hno : ∀ (o : Option String), (o.map (noRule (α := String))).getD [] = [] := by
    intro o
    cases o <;> rfl
  rw [e, ← requiredField_rule, ← requiredField_rule, ← requiredField_rule, ← requiredField_rule,
    ← requiredField_rule, ← requiredField_rule, ← requiredField_rule, ← optionalField_eq, hno, hno,
    hno, List.perm_iff_count]
  intro issue
  simp only [parseFields, List.count_append, List.count_nil]
  omega

/-- The issues about field `f` are those of its cell. -/
theorem parseRow_filter (A : Adapters) (row : ParsedWorkbookRow) (f : String) :
    (parseRow A row).1.filter (·.field == f) = cellIssues A f (row.values.get f) := by
  have hcell : ∀ g v, (cellIssues A g v).filter (·.field == f) =
      if g = f then cellIssues A g v else [] := by
    intro g v
    split
    · next e =>
      rw [List.filter_eq_self]
      intro x hx
      simp [(aboutOne_cellIssues A g v).2 x hx, e]
    · next e =>
      rw [List.filter_eq_nil_iff]
      intro x hx
      simp [(aboutOne_cellIssues A g v).2 x hx, e]
  have hp := (parseRow_perm A row).filter (·.field == f)
  have hflat : (workbookRowFields.flatMap fun g => cellIssues A g (row.values.get g)).filter
      (·.field == f) = cellIssues A f (row.values.get f) := by
    rw [List.filter_flatMap]
    simp only [hcell]
    by_cases hf : f ∈ workbookRowFields
    · have hnd : workbookRowFields.Nodup := by decide
      generalize workbookRowFields = fields at hf hnd
      induction fields with
      | nil => cases hf
      | cons g fields ih =>
        rw [List.nodup_cons] at hnd
        rw [List.flatMap_cons]
        rcases List.mem_cons.1 hf with rfl | hf
        · rw [if_pos rfl, List.flatMap_eq_nil_iff.2, List.append_nil]
          intro g hg
          rw [if_neg]
          rintro rfl
          exact hnd.1 hg
        · rw [if_neg, List.nil_append, ih hf hnd.2]
          rintro rfl
          exact hnd.1 hf
    · rw [List.flatMap_eq_nil_iff.2]
      · symm
        simp only [workbookRowFields, requiredWorkbookHeaders, List.mem_append, List.mem_cons,
          List.not_mem_nil, or_false, not_or] at hf
        unfold cellIssues
        split <;> simp_all
      · intro g hg
        rw [if_neg]
        rintro rfl
        exact hf hg
  rw [hflat] at hp
  -- at most one issue, so the order says nothing
  have hlen := (aboutOne_cellIssues A f (row.values.get f)).1
  cases hc : cellIssues A f (row.values.get f) with
  | nil => rw [hc] at hp; exact hp.eq_nil
  | cons x xs =>
    rw [hc] at hp hlen
    obtain rfl : xs = [] := by
      cases xs with
      | nil => rfl
      | cons y ys => simp at hlen
    exact List.perm_singleton.1 hp

/-! ## With the duplicate check -/

/-- The code of a row is what its cell was parsed to. -/
theorem prepareRow_shipmentCode (A : Adapters) (row : ParsedWorkbookRow) :
    (prepareRow A row).shipmentCode = (requiredField A.string "shipment_code" row).2 := by
  simp only [prepareRow, parseRow]
  cases hc : (parseFields A row).2.complete with
  | none => rfl
  | some r => exact congrArg PartialShipmentDraft.shipmentCode (complete_toPartial hc)

/-- A row with a code has no issue about its code from parsing. -/
theorem cellIssues_of_shipmentCode (A : Adapters) (row : ParsedWorkbookRow) {code : String}
    (h : (prepareRow A row).shipmentCode = some code) :
    cellIssues A "shipment_code" (row.values.get "shipment_code") = [] := by
  rw [prepareRow_shipmentCode] at h
  have hrule := requiredField_rule A.string "shipment_code" noRule row
  rw [h] at hrule
  show requiredCell A.string "shipment_code" noRule _ = []
  rw [← hrule]
  simp only [Option.map_some, Option.getD_some, noRule, List.append_nil]
  simp only [requiredField] at h ⊢
  split at h
  · cases h
  · next hv =>
    rw [if_neg hv]
    cases hp : parseField A.string "shipment_code" (row.values.get "shipment_code") with
    | error issue => rw [hp] at h; cases h
    | ok parsed => rfl

theorem duplicateIssues_field {seen existing chunkSeen : List String} {code : Option String}
    {issue : ValidationIssue} (h : issue ∈ duplicateIssues seen existing chunkSeen code) :
    issue.field = "shipment_code" := by
  cases code with
  | none => cases h
  | some c =>
    simp only [duplicateIssues] at h
    split at h
    · rw [List.mem_singleton.1 h]; rfl
    · split at h
      · rw [List.mem_singleton.1 h]; rfl
      · cases h

theorem duplicateIssues_length (seen existing chunkSeen : List String) (code : Option String) :
    (duplicateIssues seen existing chunkSeen code).length ≤ 1 := by
  cases code with
  | none => simp [duplicateIssues]
  | some c =>
    simp only [duplicateIssues]
    split
    · simp
    · split <;> simp

/-- The issues a row is rejected for, given what the duplicate check knows. -/
def rowIssues (A : Adapters) (seen existing chunkSeen : List String) (row : ParsedWorkbookRow) :
    List ValidationIssue :=
  (prepareRow A row).issues ++
    duplicateIssues seen existing chunkSeen (prepareRow A row).shipmentCode

/-- The duplicate check reports on the code only. -/
theorem duplicateIssues_filter_ne {seen existing chunkSeen : List String} {code : Option String}
    {f : String} (hf : f ≠ "shipment_code") :
    (duplicateIssues seen existing chunkSeen code).filter (·.field == f) = [] := by
  rw [List.filter_eq_nil_iff]
  intro issue hi
  rw [duplicateIssues_field hi]
  simpa using hf.symm

theorem rowIssues_filter_ne (A : Adapters) (seen existing chunkSeen : List String)
    (row : ParsedWorkbookRow) {f : String} (hf : f ≠ "shipment_code") :
    (rowIssues A seen existing chunkSeen row).filter (·.field == f) =
      cellIssues A f (row.values.get f) := by
  rw [rowIssues, List.filter_append, duplicateIssues_filter_ne hf, List.append_nil]
  exact parseRow_filter A row f

/-- A row has at most one issue about a field, also after the duplicate check. -/
theorem rowIssues_filter_length (A : Adapters) (seen existing chunkSeen : List String)
    (row : ParsedWorkbookRow) (f : String) :
    ((rowIssues A seen existing chunkSeen row).filter (·.field == f)).length ≤ 1 := by
  by_cases hf : f = "shipment_code"
  · subst hf
    have hcell : (prepareRow A row).issues.filter (·.field == "shipment_code") =
        cellIssues A "shipment_code" (row.values.get "shipment_code") := parseRow_filter A row _
    rw [rowIssues, List.filter_append, List.length_append, hcell]
    have hle := (duplicateIssues seen existing chunkSeen
      (prepareRow A row).shipmentCode).length_filter_le (·.field == "shipment_code")
    cases hc : (prepareRow A row).shipmentCode with
    | none =>
      have := (aboutOne_cellIssues A "shipment_code" (row.values.get "shipment_code")).1
      simpa [duplicateIssues] using this
    | some code =>
      rw [cellIssues_of_shipmentCode A row hc, List.length_nil, Nat.zero_add]
      rw [hc] at hle
      exact Nat.le_trans hle (duplicateIssues_length _ _ _ _)
  · rw [rowIssues_filter_ne A seen existing chunkSeen row hf]
    exact (aboutOne_cellIssues A f _).1

/-- What the issues of a row say, and that they are independent of each other: the issues of
parsing are those of the single cells; the duplicate check leaves at most one issue about a field; a
row that could not be parsed has an issue, so that a row without issues has its parsed values; and
changing one cell changes no issue about another field. -/
theorem parseRow_cellwise (A : Adapters) (row : ParsedWorkbookRow) :
    (parseRow A row).1 ~ workbookRowFields.flatMap (fun f => cellIssues A f (row.values.get f)) ∧
      (∀ seen existing chunkSeen f,
        ((rowIssues A seen existing chunkSeen row).filter (·.field == f)).length ≤ 1) ∧
      ((parseRow A row).2.2 = none → (parseRow A row).1 ≠ []) ∧
      (∀ seen existing chunkSeen, rowIssues A seen existing chunkSeen row = [] →
        (prepareRow A row).parsedRow.isSome) ∧
      ∀ (changed : ParsedWorkbookRow) (f : String),
        (∀ g, g ≠ f → changed.values.get g = row.values.get g) → ∀ g, g ≠ f →
          (parseRow A changed).1.filter (·.field == g) = (parseRow A row).1.filter (·.field == g) ∧
          ∀ seen existing chunkSeen seen' existing' chunkSeen', g ≠ "shipment_code" →
            (rowIssues A seen existing chunkSeen changed).filter (·.field == g) =
              (rowIssues A seen' existing' chunkSeen' row).filter (·.field == g) := by
  refine ⟨parseRow_perm A row, fun seen existing chunkSeen f =>
    rowIssues_filter_length A seen existing chunkSeen row f, fun hnone hnil => ?_,
    fun seen existing chunkSeen h => ?_, fun changed f hsame g hg => ⟨?_, ?_⟩⟩
  · have := parseRow_isSome A row hnil
    rw [hnone] at this
    cases this
  · exact (prepareRow A row).parsed (List.append_eq_nil_iff.1 h).1
  · rw [parseRow_filter, parseRow_filter, hsame g hg]
  · intro seen existing chunkSeen seen' existing' chunkSeen' hcode
    rw [rowIssues_filter_ne A _ _ _ _ hcode, rowIssues_filter_ne A _ _ _ _ hcode, hsame g hg]

end ShipmentImport
