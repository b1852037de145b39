import ShipmentImport.Imports.RowValidation
import Mathlib.Data.Finset.Card
import Mathlib.Data.Finset.Dedup

/-!
# What a chunk result says about its rows

`ValidationChunkResult.Ok` relates a result to the rows it is about: every row is either accepted,
and then it is one of the shipments, or rejected, and then its number is that of one or more errors;
the counters count them. Classifying a chunk gives such a result, reclassifying it keeps it one, and
the results of consecutive chunks add up to one (`ValidationChunkResult.add`).
-/

namespace ShipmentImport

open List

/-- The number of distinct row numbers among errors. -/
def distinctRowNumbers (errors : List ImportErrorRow) : Nat :=
  (errors.map (·.rowNumber)).toFinset.card

theorem distinctRowNumbers_append {a b : List ImportErrorRow}
    (h : ∀ x ∈ a, ∀ y ∈ b, x.rowNumber ≠ y.rowNumber) :
    distinctRowNumbers (a ++ b) = distinctRowNumbers a + distinctRowNumbers b := by
  unfold distinctRowNumbers
  rw [List.map_append, List.toFinset_append, Finset.card_union_of_disjoint]
  rw [Finset.disjoint_left]
  intro n hn hn'
  rw [List.mem_toFinset, List.mem_map] at hn hn'
  obtain ⟨x, hx, rfl⟩ := hn
  obtain ⟨y, hy, e⟩ := hn'
  exact h x hx y hy e.symm

/-- Errors of one row have one row number. -/
theorem distinctRowNumbers_build (importId : ImportId) (n : Nat) (raw : PyDict)
    {issues : List ValidationIssue} (h : issues ≠ []) :
    distinctRowNumbers (buildImportErrors importId n raw issues) = 1 := by
  unfold distinctRowNumbers buildImportErrors
  rw [List.map_map]
  have : (issues.map ((fun e : ImportErrorRow => e.rowNumber) ∘ fun issue =>
      { importId, rowNumber := n, field := issue.field, error := issue.error
        rawData := raw.toValue.jsonbSafe })).toFinset = {n} := by
    ext k
    simp only [List.mem_toFinset, List.mem_map, Function.comp_apply, Finset.mem_singleton]
    constructor
    · rintro ⟨_, -, rfl⟩
      rfl
    · rintro rfl
      obtain ⟨x, xs, rfl⟩ := List.exists_cons_of_ne_nil h
      exact ⟨x, List.mem_cons_self, rfl⟩
  rw [this, Finset.card_singleton]

theorem mem_buildImportErrors {importId : ImportId} {n : Nat} {raw : PyDict}
    {issues : List ValidationIssue} {e : ImportErrorRow}
    (h : e ∈ buildImportErrors importId n raw issues) :
    e.importId = importId ∧ e.rowNumber = n ∧ e.rawData.jsonbSafe = e.rawData := by
  unfold buildImportErrors at h
  obtain ⟨issue, -, rfl⟩ := List.mem_map.1 h
  exact ⟨rfl, rfl, PyValue.jsonbSafe_idem _⟩

/-- The row number of a prepared row. -/
abbrev PreparedRow.number (p : PreparedRow) : Nat := p.row.rowNumber

/-- `v` is what an accepted row becomes. -/
def PreparedRow.Accepts (importId : ImportId) (p : PreparedRow) (v : ValidatedShipmentRow) : Prop :=
  ∃ r, p.parsedRow = some r ∧ v = ⟨r.toShipment importId, p.number, p.row.values⟩

theorem map_number_of_accepts {importId : ImportId} {acc : List PreparedRow}
    {vs : List ValidatedShipmentRow} (h : Forall₂ (PreparedRow.Accepts importId) acc vs) :
    vs.map (·.rowNumber) = acc.map (·.number) := by
  induction h with
  | nil => rfl
  | cons hd _ ih =>
    obtain ⟨r, -, rfl⟩ := hd
    simp [ih]

theorem forall₂_mem_right {α β : Type} {R : α → β → Prop} {as : List α} {bs : List β}
    (h : Forall₂ R as bs) {b : β} (hb : b ∈ bs) : ∃ a ∈ as, R a b := by
  induction h with
  | nil => cases hb
  | @cons a b' _ _ hd _ ih =>
    rcases List.mem_cons.1 hb with rfl | hb
    · exact ⟨a, List.mem_cons_self, hd⟩
    · obtain ⟨a', ha', h'⟩ := ih hb
      exact ⟨a', List.mem_cons_of_mem _ ha', h'⟩

theorem forall₂_mem_left {α β : Type} {R : α → β → Prop} {as : List α} {bs : List β}
    (h : Forall₂ R as bs) {a : α} (ha : a ∈ as) : ∃ b ∈ bs, R a b :=
  forall₂_mem_right (Forall₂.flip (R := fun b a => R a b) h) ha

/-- Keeping some of the second list keeps a sublist of the first. -/
theorem forall₂_filter_right {α β : Type} {R : α → β → Prop} {as : List α} {bs : List β}
    (h : Forall₂ R as bs) (p : β → Bool) : ∃ as', as' <+ as ∧ Forall₂ R as' (bs.filter p) := by
  induction h with
  | nil => exact ⟨[], .slnil, .nil⟩
  | @cons a b _ _ hd _ ih =>
    obtain ⟨as', hs', hf'⟩ := ih
    rw [List.filter_cons]
    split
    · exact ⟨a :: as', hs'.cons_cons a, .cons hd hf'⟩
    · exact ⟨as', hs'.cons a, hf'⟩

namespace ValidationChunkResult

/-- The result is about the rows `rows`, each of which is accepted or rejected. -/
structure Ok (importId : ImportId) (rows : List PreparedRow) (r : ValidationChunkResult) :
    Prop where
  total : r.totalRows = rows.length
  success : r.successCount = r.validRows.length
  shipments : r.shipments = r.validRows.map (·.shipment)
  failed : r.failedCount = distinctRowNumbers r.importErrors
  counts : r.successCount + r.failedCount = rows.length
  accepted : ∃ acc, acc <+ rows ∧ Forall₂ (PreparedRow.Accepts importId) acc r.validRows
  errors : ∀ e ∈ r.importErrors, e.importId = importId ∧ (∃ p ∈ rows, p.number = e.rowNumber) ∧
    e.rawData.jsonbSafe = e.rawData
  disjoint : ∀ v ∈ r.validRows, ∀ e ∈ r.importErrors, e.rowNumber ≠ v.rowNumber
  covered : ∀ p ∈ rows, (∃ v ∈ r.validRows, v.rowNumber = p.number) ∨
    ∃ e ∈ r.importErrors, e.rowNumber = p.number

variable {importId : ImportId} {rows : List PreparedRow} {r : ValidationChunkResult}

/-- Every valid row is the number of one of the rows. -/
theorem Ok.valid_mem (h : Ok importId rows r) {v : ValidatedShipmentRow} (hv : v ∈ r.validRows) :
    ∃ p ∈ rows, p.number = v.rowNumber ∧ v.shipment.importId = importId := by
  obtain ⟨acc, hs, hf⟩ := h.accepted
  obtain ⟨p, hp, x, -, rfl⟩ := forall₂_mem_right hf hv
  exact ⟨p, hs.subset hp, rfl, rfl⟩

theorem Ok.shipment_importId (h : Ok importId rows r) {s : Shipment} (hs : s ∈ r.shipments) :
    s.importId = importId := by
  rw [h.shipments] at hs
  obtain ⟨v, hv, rfl⟩ := List.mem_map.1 hs
  obtain ⟨-, -, -, h⟩ := h.valid_mem hv
  exact h

theorem Ok.success_eq (h : Ok importId rows r) : r.successCount = r.shipments.length := by
  rw [h.success, h.shipments, List.length_map]

/-- The result about no rows. -/
def empty : ValidationChunkResult := ⟨0, 0, 0, 0, [], [], []⟩

/-- The results of consecutive rows, together. -/
def add (a b : ValidationChunkResult) : ValidationChunkResult :=
  { totalRows := a.totalRows + b.totalRows
    processedRows := a.processedRows + b.processedRows
    successCount := a.successCount + b.successCount
    failedCount := a.failedCount + b.failedCount
    shipments := a.shipments ++ b.shipments
    importErrors := a.importErrors ++ b.importErrors
    validRows := a.validRows ++ b.validRows }

theorem ok_empty (importId : ImportId) : Ok importId [] empty where
  total := rfl
  success := rfl
  shipments := rfl
  failed := rfl
  counts := rfl
  accepted := ⟨[], .slnil, .nil⟩
  errors := by simp [empty]
  disjoint := by simp [empty]
  covered := by simp

/-- Results of different rows add up. -/
theorem Ok.add {rows' : List PreparedRow} {r' : ValidationChunkResult} (h : Ok importId rows r)
    (h' : Ok importId rows' r') (hd : ∀ p ∈ rows, ∀ q ∈ rows', p.number ≠ q.number) :
    Ok importId (rows ++ rows') (r.add r') where
  total := by rw [List.length_append]; exact congrArg₂ _ h.total h'.total
  success := by
    show r.successCount + r'.successCount = (r.validRows ++ r'.validRows).length
    rw [List.length_append, h.success, h'.success]
  shipments := by
    show r.shipments ++ r'.shipments = (r.validRows ++ r'.validRows).map _
    rw [List.map_append, h.shipments, h'.shipments]
  failed := by
    show r.failedCount + r'.failedCount = distinctRowNumbers (r.importErrors ++ r'.importErrors)
    rw [distinctRowNumbers_append, h.failed, h'.failed]
    intro x hx y hy e
    obtain ⟨-, ⟨p, hp, hpx⟩, -⟩ := h.errors x hx
    obtain ⟨-, ⟨q, hq, hqy⟩, -⟩ := h'.errors y hy
    exact hd p hp q hq (by rw [hpx, hqy, e])
  counts := by
    show r.successCount + r'.successCount + (r.failedCount + r'.failedCount) = _
    have := h.counts
    have := h'.counts
    rw [List.length_append]
    omega
  accepted := by
    obtain ⟨acc, hs, hf⟩ := h.accepted
    obtain ⟨acc', hs', hf'⟩ := h'.accepted
    exact ⟨acc ++ acc', hs.append hs', List.rel_append hf hf'⟩
  errors e he := by
    rcases List.mem_append.1 he with he | he
    · obtain ⟨h1, ⟨p, hp, e'⟩, h3⟩ := h.errors e he
      exact ⟨h1, ⟨p, List.mem_append_left _ hp, e'⟩, h3⟩
    · obtain ⟨h1, ⟨p, hp, e'⟩, h3⟩ := h'.errors e he
      exact ⟨h1, ⟨p, List.mem_append_right _ hp, e'⟩, h3⟩
  disjoint v hv e he := by
    rcases List.mem_append.1 hv with hv | hv <;> rcases List.mem_append.1 he with he | he
    · exact h.disjoint v hv e he
    · obtain ⟨p, hp, hpv, -⟩ := h.valid_mem hv
      obtain ⟨-, ⟨q, hq, hqe⟩, -⟩ := h'.errors e he
      exact fun e' => hd p hp q hq (by rw [hpv, hqe, e'])
    · obtain ⟨p, hp, hpv, -⟩ := h'.valid_mem hv
      obtain ⟨-, ⟨q, hq, hqe⟩, -⟩ := h.errors e he
      exact fun e' => hd q hq p hp (by rw [hpv, hqe, e'])
    · exact h'.disjoint v hv e he
  covered p hp := by
    rcases List.mem_append.1 hp with hp | hp
    · exact (h.covered p hp).imp (fun ⟨v, hv, e⟩ => ⟨v, List.mem_append_left _ hv, e⟩)
        fun ⟨x, hx, e⟩ => ⟨x, List.mem_append_left _ hx, e⟩
    · exact (h'.covered p hp).imp (fun ⟨v, hv, e⟩ => ⟨v, List.mem_append_right _ hv, e⟩)
        fun ⟨x, hx, e⟩ => ⟨x, List.mem_append_right _ hx, e⟩

/-! ## Classifying -/

/-- The result a loop state of `validate_chunk` stands for, after `n` rows. -/
def ofState (n : Nat) (st : ChunkState) : ValidationChunkResult :=
  { totalRows := n
    processedRows := st.shipments.length + st.failedCount
    successCount := st.shipments.length
    failedCount := st.failedCount
    shipments := st.shipments
    importErrors := st.importErrors
    validRows := st.validRows }

/-- A row that is accepted, by itself. -/
theorem ok_accept {p : PreparedRow} {row : ShipmentRow} (h : p.parsedRow = some row) :
    Ok importId [p] ⟨1, 1, 1, 0, [row.toShipment importId], [],
      [⟨row.toShipment importId, p.number, p.row.values⟩]⟩ where
  total := rfl
  success := rfl
  shipments := rfl
  failed := rfl
  counts := rfl
  accepted := ⟨[p], .refl _, .cons ⟨row, h, rfl⟩ .nil⟩
  errors := by simp
  disjoint := by simp
  covered := by simp

/-- A row that is rejected, by itself. -/
theorem ok_reject (p : PreparedRow) {issues : List ValidationIssue} (h : issues ≠ []) :
    Ok importId [p] ⟨1, 1, 0, 1, [],
      buildImportErrors importId p.number p.row.values issues, []⟩ where
  total := rfl
  success := rfl
  shipments := rfl
  failed := (distinctRowNumbers_build importId p.number p.row.values h).symm
  counts := rfl
  accepted := ⟨[], List.nil_sublist _, .nil⟩
  errors e he := by
    obtain ⟨h1, h2, h3⟩ := mem_buildImportErrors he
    exact ⟨h1, ⟨p, List.mem_cons_self, h2.symm⟩, h3⟩
  disjoint := by simp
  covered q hq := by
    rw [List.mem_singleton.1 hq]
    obtain ⟨x, xs, rfl⟩ := List.exists_cons_of_ne_nil h
    exact .inr ⟨_, List.mem_cons_self, rfl⟩

/-- One pass of the loop of `validate_chunk`. -/
theorem ok_classifyRow {seen existing : List String} {st : ChunkState} {done : List PreparedRow}
    {p : PreparedRow} (h : Ok importId done (ofState done.length st))
    (hp : ∀ q ∈ done, q.number ≠ p.number) :
    Ok importId (done ++ [p])
      (ofState (done ++ [p]).length (classifyRow importId seen existing st p)) := by
  have hd : ∀ q ∈ done, ∀ x ∈ [p], q.number ≠ x.number := by
    intro q hq x hx
    rw [List.mem_singleton.1 hx]
    exact hp q hq
  rw [List.length_append, List.length_singleton]
  simp only [classifyRow]
  split
  · next hi =>
    have hs := (Option.some_get (p.parsed (List.append_eq_nil_iff.1 hi).1)).symm
    have hadd := h.add (ok_accept hs) hd
    convert hadd using 1
    simp [ofState, add]
    omega
  · next hi =>
    have hadd := h.add (ok_reject p hi) hd
    convert hadd using 1
    simp [ofState, add]
    omega

theorem ok_foldl {seen existing : List String} {rest : List PreparedRow} :
    ∀ {st : ChunkState} {done : List PreparedRow}, Ok importId done (ofState done.length st) →
      ((done ++ rest).map (·.number)).Nodup →
      Ok importId (done ++ rest) (ofState (done ++ rest).length
        (rest.foldl (classifyRow importId seen existing) st)) := by
  induction rest with
  | nil =>
    intro st done h _
    rwa [List.append_nil]
  | cons p rest ih =>
    intro st done h hn
    have hp : ∀ q ∈ done, q.number ≠ p.number := by
      intro q hq e
      simp only [List.map_append, List.map_cons, List.nodup_append, List.mem_map] at hn
      exact hn.2.2 _ ⟨q, hq, rfl⟩ _ List.mem_cons_self e
    have hn' : ((done ++ [p] ++ rest).map (·.number)).Nodup := by
      rwa [List.append_assoc, List.singleton_append]
    have hrow : Ok importId (done ++ [p])
        (ofState (done ++ [p]).length (classifyRow importId seen existing st p)) :=
      ok_classifyRow h hp
    have := ih hrow hn'
    rwa [List.append_assoc, List.singleton_append] at this

/-- `validate_chunk` accounts for every row of its chunk. -/
theorem ok_classifyChunk {prepared : List PreparedRow} {tracker : DuplicateTracker}
    {existing : List String} (hn : (prepared.map (·.number)).Nodup) :
    Ok importId prepared (classifyChunk importId prepared tracker existing).1 :=
  have h : Ok importId [] (ofState ([] : List PreparedRow).length {}) := ok_empty importId
  ok_foldl h hn

/-! ## Reclassifying -/

theorem length_filter_not (vs : List ValidatedShipmentRow) (p : ValidatedShipmentRow → Prop)
    [DecidablePred p] : vs.length - (vs.filter fun v => ¬ p v).length =
      (vs.filter fun v => p v).length := by
  have := List.length_eq_length_filter_add (l := vs) fun v => decide (p v)
  have h2 : (vs.filter fun v => decide (¬ p v)) = vs.filter fun v => !decide (p v) := by
    simp only [decide_not]
  rw [h2]
  omega

/-- The errors of the rows found in the database. -/
theorem distinctRowNumbers_duplicates {vs : List ValidatedShipmentRow}
    (hn : (vs.map (·.rowNumber)).Nodup) :
    distinctRowNumbers (vs.flatMap fun v =>
      buildImportErrors importId v.rowNumber v.rawData [databaseIssue]) = vs.length := by
  have : (vs.flatMap fun v => buildImportErrors importId v.rowNumber v.rawData
      [databaseIssue]).map (·.rowNumber) = vs.map (·.rowNumber) := by
    induction vs with
    | nil => rfl
    | cons v vs ih =>
      rw [List.map_cons, List.nodup_cons] at hn
      simpa [buildImportErrors] using ih hn.2
  unfold distinctRowNumbers
  rw [this, List.toFinset_card_of_nodup hn, List.length_map]

/-- `reclassify_database_duplicates` still accounts for every row. -/
theorem Ok.reclassify (h : Ok importId rows r) (hn : (rows.map (·.number)).Nodup)
    (existing : List String) : Ok importId rows (reclassify importId r existing) := by
  unfold ShipmentImport.reclassify
  split
  · exact h
  obtain ⟨acc, hs, hf⟩ := h.accepted
  have hvn : (r.validRows.map (·.rowNumber)).Nodup := by
    rw [map_number_of_accepts hf]
    exact hn.sublist (hs.map _)
  have hdup : ∀ e ∈ (r.validRows.filter fun v => v.shipment.shipmentCode ∈ existing).flatMap
      (fun v => buildImportErrors importId v.rowNumber v.rawData [databaseIssue]),
      (e.importId = importId ∧ e.rawData.jsonbSafe = e.rawData) ∧
        ∃ v ∈ r.validRows, v.shipment.shipmentCode ∈ existing ∧ v.rowNumber = e.rowNumber := by
    intro e he
    obtain ⟨v, hv, he⟩ := List.mem_flatMap.1 he
    obtain ⟨h1, h2, h3⟩ := mem_buildImportErrors he
    rw [List.mem_filter, decide_eq_true_eq] at hv
    exact ⟨⟨h1, h3⟩, v, hv.1, hv.2, h2.symm⟩
  have hlen := length_filter_not r.validRows fun v => v.shipment.shipmentCode ∈ existing
  have hle := List.length_filter_le (fun v => decide (v.shipment.shipmentCode ∉ existing))
    r.validRows
  have hsucc := h.success
  have hcounts := h.counts
  refine ⟨h.total, rfl, rfl, ?_, ?_, ?_, ?_, ?_, ?_⟩
  · simp only
    rw [distinctRowNumbers_append, ← h.failed, distinctRowNumbers_duplicates
      (hvn.sublist (List.filter_sublist.map _)), hlen]
    intro x hx y hy e
    obtain ⟨-, v, hv, -, hvy⟩ := hdup y hy
    exact h.disjoint v hv x hx (e.trans hvy.symm)
  · simp only
    omega
  · obtain ⟨acc', hs', hf'⟩ := forall₂_filter_right hf fun v => v.shipment.shipmentCode ∉ existing
    exact ⟨acc', hs'.trans hs, hf'⟩
  · intro e he
    rcases List.mem_append.1 he with he | he
    · exact h.errors e he
    · obtain ⟨⟨h1, h2⟩, v, hv, -, hve⟩ := hdup e he
      obtain ⟨p, hp, hpv, -⟩ := h.valid_mem hv
      exact ⟨h1, ⟨p, hp, hpv.trans hve⟩, h2⟩
  · intro v hv e he
    rw [List.mem_filter, decide_eq_true_eq] at hv
    rcases List.mem_append.1 he with he | he
    · exact h.disjoint v hv.1 e he
    · obtain ⟨-, w, hw, hwx, hwe⟩ := hdup e he
      rintro e'
      have : w = v := List.inj_on_of_nodup_map hvn hw hv.1 (hwe.trans e')
      exact hv.2 (this ▸ hwx)
  · intro p hp
    rcases h.covered p hp with ⟨v, hv, e⟩ | ⟨x, hx, e⟩
    · by_cases hm : v.shipment.shipmentCode ∈ existing
      · refine .inr ⟨⟨importId, v.rowNumber, databaseIssue.field, databaseIssue.error,
          v.rawData.toValue.jsonbSafe⟩, List.mem_append_right _ (List.mem_flatMap.2
            ⟨v, List.mem_filter.2 ⟨hv, by simpa using hm⟩, List.mem_cons_self⟩), e⟩
      · exact .inl ⟨v, List.mem_filter.2 ⟨hv, by simpa using hm⟩, e⟩
    · exact .inr ⟨x, List.mem_append_left _ hx, e⟩

end ValidationChunkResult

end ShipmentImport
