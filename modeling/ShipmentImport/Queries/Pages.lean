import ShipmentImport.Queries.Selection

/-!
# The pages of a listing

Every page is cut out of the same order of the same rows, so the pages of one size, one after the
other, are all matching rows, each once. That order is strict, by the primary key in the end, so
that no two rows can change places between one request and the next.
-/

namespace ShipmentImport

/-- The answers of `listPage` to requests for pages of one size are the pages of `ordered`, of which
there are `totalPages`. -/
structure Paged {β : Type} (listPage : Nat → Nat → Except QueryFault (ListPage β))
    (ordered : List β) (size : Positive) (totalPages : Nat) : Prop where
  metadata : ∀ r : PageRequest, r.pageSize = size → ∀ result,
    listPage r.pageSize.1 r.offset = .ok result →
      (buildPaginationMetadata r result.totalItems).totalPages = totalPages
  within : ∀ r : PageRequest, r.pageSize = size → r.page.1 ≤ totalPages → r.offset < ordered.length
  whole : ∀ results : List (ListPage β), results.length = totalPages →
    (∀ r : PageRequest, r.pageSize = size → ∀ result, results[r.page.1 - 1]? = some result →
      listPage r.pageSize.1 r.offset = .ok result) →
    (results.map (·.items)).flatten = ordered
  full : ∀ r : PageRequest, r.pageSize = size → r.page.1 < totalPages → ∀ result,
    listPage r.pageSize.1 r.offset = .ok result → result.items.length = size.1
  last : ∀ r : PageRequest, r.pageSize = size → r.page.1 = totalPages → ∀ result,
    listPage r.pageSize.1 r.offset = .ok result → result.items ≠ []
  beyond : ∀ r : PageRequest, r.pageSize = size → totalPages < r.page.1 → ∀ result,
    listPage r.pageSize.1 r.offset = .ok result → result.items = []

section
variable {α β κ : Type}

theorem map_page (g : α → β) (limit offset : Nat) (l : List α) :
    (page limit offset l).map g = page limit offset (l.map g) := by
  simp [page, List.map_take, List.map_drop]

/-- Answers that are pages, whenever there is an answer. -/
theorem Paged.of_pages {listPage : Nat → Nat → Except QueryFault (ListPage β)} {ordered : List β}
    (h : ∀ limit offset result, listPage limit offset = .ok result →
      result = ⟨page limit offset ordered, ordered.length⟩) (size : Positive) :
    Paged listPage ordered size (pageCount size.1 ordered.length) := by
  have hsize : 1 ≤ size.1 := size.2
  refine ⟨?_, ?_, ?_, ?_, ?_, ?_⟩
  · rintro r rfl result hr
    rw [h _ _ _ hr]
    rfl
  · rintro r rfl hp
    have := r.page.2
    exact (lt_pageCount_iff hsize).1 (by omega)
  · intro results hlen hresults
    have hmap : results.map (·.items) = (List.range (pageCount size.1 ordered.length)).map fun i =>
        page size.1 (i * size.1) ordered := by
      refine List.ext_getElem (by simp [hlen]) fun i hi _ => ?_
      have hi' : i < results.length := by simpa using hi
      have hr := hresults ⟨⟨i + 1, i.succ_pos⟩, size⟩ rfl results[i] (List.getElem?_eq_getElem hi')
      rw [List.getElem_map, List.getElem_map, List.getElem_range, h _ _ _ hr]
      rfl
    rw [hmap, flatten_pages hsize]
  · rintro r rfl hp result hr
    have := r.page.2
    rw [h _ _ _ hr]
    exact page_full hsize (by omega)
  · rintro r rfl hp result hr
    have := r.page.2
    rw [h _ _ _ hr]
    exact page_ne_nil hsize (by omega)
  · rintro r rfl hp result hr
    rw [h _ _ _ hr]
    exact page_beyond hsize (by omega)

theorem selectPage_ok [LinearOrder κ] {key : α → κ} {selected : List α} {limit offset : Nat}
    {result : ListPage α} : selectPage key selected limit offset = .ok result ↔
      (limit < 2 ^ 63 ∧ offset < 2 ^ 63) ∧
        ⟨page limit offset (orderBy key selected), selected.length⟩ = result := by
  unfold selectPage
  split
  · next h => simp only [h, Except.ok.injEq, true_and, and_self]
  · next h => simp only [h, reduceCtorEq, false_and]

end

/-! ## The two listings -/

namespace ImportErrorRepository

/-- Answers are pages, and there is one to every request in the range of the database. -/
theorem listPage_ok {errors : Keyed ImportErrorRow} {importId : ImportId} {limit offset : Nat}
    {result : ListPage ImportErrorReadModel} :
    listPage errors importId limit offset = .ok result ↔ (limit < 2 ^ 63 ∧ offset < 2 ^ 63) ∧
      ⟨page limit offset ((orderBy order (ofImport errors importId)).map toReadModel),
        (ofImport errors importId).length⟩ = result := by
  unfold listPage
  simp only [bind_eq_ok, selectPage_ok]
  constructor
  · rintro ⟨_, ⟨hr, rfl⟩, ⟨⟩⟩
    exact ⟨hr, by rw [map_page]⟩
  · rintro ⟨hr, rfl⟩
    exact ⟨_, ⟨hr, rfl⟩, by rw [← map_page]; rfl⟩

/-- No two errors are alike in row number and key. -/
theorem nodup_order (errors : Keyed ImportErrorRow) (importId : ImportId) :
    ((ofImport errors importId).map order).Nodup := by
  refine List.Nodup.of_map (fun k => (ofLex k).2) ?_
  rw [List.map_map]
  exact errors.nodup.sublist (List.filter_sublist.map _)

end ImportErrorRepository

namespace ShipmentQueryRepository

theorem listPage_ok {F : patterns.Folding} {shipments : Keyed StoredShipment}
    {filters : ShipmentQueryFilters} {limit offset : Nat} {result : ListPage ShipmentListItem} :
    listPage F shipments filters limit offset = .ok result ↔
      ∃ criteria, filtersToCriteria filters = .ok criteria ∧ criteria.any (·.nul) = false ∧
        (limit < 2 ^ 63 ∧ offset < 2 ^ 63) ∧
        ⟨page limit offset ((orderBy order (select F shipments criteria)).map toListItem),
          (select F shipments criteria).length⟩ = result := by
  unfold listPage
  simp only [bind_eq_ok, check_eq_ok, selectPage_ok]
  refine exists_congr fun criteria => and_congr_right fun _ => and_congr_right fun _ => ?_
  constructor
  · rintro ⟨_, ⟨hr, rfl⟩, ⟨⟩⟩
    exact ⟨hr, by rw [map_page]⟩
  · rintro ⟨hr, rfl⟩
    exact ⟨_, ⟨hr, rfl⟩, by rw [← map_page]; rfl⟩

/-- No two shipments are alike in creation time and key. -/
theorem nodup_order (F : patterns.Folding) (shipments : Keyed StoredShipment)
    (criteria : List Criterion) : ((select F shipments criteria).map order).Nodup := by
  refine List.Nodup.of_map (fun k => (ofLex (OrderDual.ofDual k)).2) ?_
  rw [List.map_map]
  exact shipments.nodup.sublist (List.filter_sublist.map _)

end ShipmentQueryRepository

open ImportErrorRepository ShipmentQueryRepository in
/-- The pages of both listings: of the errors of an import by row number and key, and of the
shipments the filters select from the latest to the first. -/
theorem listings_paged (size : Positive) :
    (∀ (errors : Keyed ImportErrorRow) (importId : ImportId),
      ∃ (ordered : List (Nat × ImportErrorRow)) (totalPages : Nat),
      ordered.Perm (ofImport errors importId) ∧
      ordered.Pairwise (fun a b => ImportErrorRepository.order a < ImportErrorRepository.order b) ∧
      Paged (ImportErrorRepository.listPage errors importId) (ordered.map toReadModel) size
        totalPages ∧
      ∀ limit offset, limit < 2 ^ 63 → offset < 2 ^ 63 →
        ∃ result, ImportErrorRepository.listPage errors importId limit offset = .ok result) ∧
    ∀ (F : patterns.Folding) (shipments : Keyed StoredShipment) (filters : ShipmentQueryFilters),
      ∃ (ordered : List (Nat × StoredShipment)) (totalPages : Nat),
        (∀ criteria, filtersToCriteria filters = .ok criteria →
          ordered.Perm (select F shipments criteria)) ∧
        ordered.Pairwise (fun a b =>
          ShipmentQueryRepository.order a < ShipmentQueryRepository.order b) ∧
        Paged (ShipmentQueryRepository.listPage F shipments filters) (ordered.map toListItem) size
          totalPages ∧
        ∀ criteria, filtersToCriteria filters = .ok criteria → criteria.any (·.nul) = false →
          ∀ limit offset, limit < 2 ^ 63 → offset < 2 ^ 63 →
            ∃ result, ShipmentQueryRepository.listPage F shipments filters limit offset =
              .ok result := by
  refine ⟨fun errors importId => ?_, fun F shipments filters => ?_⟩
  · have hpages : ∀ limit offset result,
        ImportErrorRepository.listPage errors importId limit offset = .ok result →
        result = ⟨page limit offset ((orderBy ImportErrorRepository.order
          (ofImport errors importId)).map toReadModel), ((orderBy ImportErrorRepository.order
            (ofImport errors importId)).map toReadModel).length⟩ := by
      intro limit offset result h
      rw [← (ImportErrorRepository.listPage_ok.1 h).2, List.length_map, length_orderBy]
    refine ⟨_, _, orderBy_perm _ _, orderBy_pairwise (ImportErrorRepository.nodup_order _ _),
      Paged.of_pages hpages size, fun limit offset hl ho => ?_⟩
    exact ⟨_, ImportErrorRepository.listPage_ok.2 ⟨⟨hl, ho⟩, rfl⟩⟩
  · cases hc : filtersToCriteria filters with
    | error e =>
      refine ⟨[], _, fun _ h => (nomatch h), List.Pairwise.nil,
        Paged.of_pages (fun limit offset result h => ?_) size, fun _ h => (nomatch h)⟩
      obtain ⟨criteria, hc', -⟩ := ShipmentQueryRepository.listPage_ok.1 h
      rw [hc] at hc'
      cases hc'
    | ok criteria =>
      have hpages : ∀ limit offset result,
          ShipmentQueryRepository.listPage F shipments filters limit offset = .ok result →
          result = ⟨page limit offset ((orderBy ShipmentQueryRepository.order
            (select F shipments criteria)).map toListItem), ((orderBy ShipmentQueryRepository.order
              (select F shipments criteria)).map toListItem).length⟩ := by
        intro limit offset result h
        obtain ⟨criteria', hc', -, -, rfl⟩ := ShipmentQueryRepository.listPage_ok.1 h
        rw [hc] at hc'
        cases hc'
        rw [List.length_map, length_orderBy]
      refine ⟨_, _, ?_, orderBy_pairwise (ShipmentQueryRepository.nodup_order F shipments criteria),
        Paged.of_pages hpages size, ?_⟩
      · rintro _ ⟨⟩
        exact orderBy_perm _ _
      · rintro _ ⟨⟩ hn limit offset hl ho
        exact ⟨_, ShipmentQueryRepository.listPage_ok.2 ⟨criteria, hc, hn, ⟨hl, ho⟩, rfl⟩⟩

end ShipmentImport
