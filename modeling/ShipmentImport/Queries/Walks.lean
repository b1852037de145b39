import ShipmentImport.Lib.Walks
import ShipmentImport.Queries.Pages

/-!
# Walks through a listing that grows

A client asks for one page after the other while rows are added. The order of both listings is
strict, so a row that is there when the walk begins is never skipped, wherever the new rows come in:
it is answered at least once, unless rows are deleted meanwhile. What `list_page` counts before it
selects is not relied upon, for rows may come in between the two; a page that is not full is the
last one.
-/

namespace ShipmentImport

/-- The answers to a walk through the pages of one size, page `k + 1` being asked for at moment `k`.
It goes on until a page is not full. -/
structure Walked {β : Type} (listPage : Nat → Nat → Nat → Except QueryFault (ListPage β))
    (size : Positive) (results : List (ListPage β)) : Prop where
  answered : ∀ (k : Nat) (hk : k < results.length),
    listPage k size.1 (PageRequest.offset ⟨⟨k + 1, k.succ_pos⟩, size⟩) = .ok results[k]
  ended : ∃ result, results.getLast? = some result ∧ result.items.length < size.1

/-- Where the answers are pages of selections that only grow, the walk meets every row of the
first. -/
theorem Walked.meets {α β κ : Type} [LinearOrder κ] {key : α → κ} {g : α → β}
    {listPage : Nat → Nat → Nat → Except QueryFault (ListPage β)} {selected : Nat → List α}
    {size : Positive} {results : List (ListPage β)} (h : Walked listPage size results)
    (hpages : ∀ k limit offset result, listPage k limit offset = .ok result →
      result.items = (page limit offset (orderBy key (selected k))).map g)
    (hn : ∀ k, ((selected k).map key).Nodup)
    (hg : ∀ k, k + 1 < results.length → selected k ⊆ selected (k + 1)) {a : α}
    (ha : a ∈ selected 0) : g a ∈ (results.map (·.items)).flatten := by
  have hitems : ∀ (k : Nat) (hk : k < results.length),
      results[k].items = (page size.1 (k * size.1) (orderBy key (selected k))).map g :=
    fun k hk => hpages _ _ _ _ (h.answered k hk)
  obtain ⟨last, hlast, hshort⟩ := h.ended
  rw [List.getLast?_eq_getElem?, List.getElem?_eq_some_iff] at hlast
  obtain ⟨hn', rfl⟩ := hlast
  rw [hitems, List.length_map] at hshort
  obtain ⟨k, hk, hmem⟩ := exists_mem_page hn (fun k hk => hg k (by omega)) hshort ha
  have hk' : k < results.length := by omega
  refine List.mem_flatten.2 ⟨results[k].items, List.mem_map_of_mem (List.getElem_mem hk'), ?_⟩
  rw [hitems]
  exact List.mem_map_of_mem hmem

open ImportErrorRepository ShipmentQueryRepository in
/-- Rows are only added while a client walks through the errors of an import, or through the
shipments that filters select: the walk meets every row that was there when it began. -/
theorem walks_meet_rows (size : Positive) :
    (∀ (errors : Nat → Keyed ImportErrorRow) (importId : ImportId)
      (results : List (ListPage ImportErrorReadModel)),
      (∀ k, k + 1 < results.length → (errors k).rows ⊆ (errors (k + 1)).rows) →
      Walked (fun k => ImportErrorRepository.listPage (errors k) importId) size results →
      ∀ r ∈ ofImport (errors 0) importId, toReadModel r ∈ (results.map (·.items)).flatten) ∧
    ∀ (F : patterns.Folding) (shipments : Nat → Keyed StoredShipment)
      (filters : ShipmentQueryFilters) (criteria : List Criterion)
      (results : List (ListPage ShipmentListItem)), filtersToCriteria filters = .ok criteria →
      (∀ k, k + 1 < results.length → (shipments k).rows ⊆ (shipments (k + 1)).rows) →
      Walked (fun k => ShipmentQueryRepository.listPage F (shipments k) filters) size results →
      ∀ r ∈ select F (shipments 0) criteria, toListItem r ∈ (results.map (·.items)).flatten := by
  refine ⟨fun errors importId results hg h r hr => ?_,
    fun F shipments filters criteria results hc hg h r hr => ?_⟩
  · have hpages : ∀ k limit offset result,
        ImportErrorRepository.listPage (errors k) importId limit offset = .ok result →
        result.items = (page limit offset
          (orderBy ImportErrorRepository.order (ofImport (errors k) importId))).map toReadModel := by
      intro k limit offset result hok
      rw [← (ImportErrorRepository.listPage_ok.1 hok).2, map_page]
    exact h.meets hpages (fun k => ImportErrorRepository.nodup_order _ _)
      (fun k hk => List.filter_subset _ (hg k hk)) hr
  · have hpages : ∀ k limit offset result,
        ShipmentQueryRepository.listPage F (shipments k) filters limit offset = .ok result →
        result.items = (page limit offset (orderBy ShipmentQueryRepository.order
          (select F (shipments k) criteria))).map toListItem := by
      intro k limit offset result hok
      obtain ⟨criteria', hc', -, -, rfl⟩ := ShipmentQueryRepository.listPage_ok.1 hok
      rw [hc] at hc'
      cases hc'
      rw [map_page]
    exact h.meets hpages (fun k => ShipmentQueryRepository.nodup_order F _ _)
      (fun k hk => List.filter_subset _ (hg k hk)) hr

/-- An error of row 4, and from the second request on one of row 2. -/
def growingErrors : Nat → Keyed ImportErrorRow
  | 0 => ⟨[(7, ⟨0, 4, "price", "Field required", .none⟩)], by decide⟩
  | _ + 1 => ⟨[(7, ⟨0, 4, "price", "Field required", .none⟩),
      (8, ⟨0, 2, "status", "Field required", .none⟩)], by decide⟩

/-- Pages of one row: the first error moves to the second page while it is asked for. -/
def growingWalk : List (ListPage ImportErrorReadModel) :=
  [⟨[⟨4, "price", "Field required"⟩], 1⟩, ⟨[⟨4, "price", "Field required"⟩], 2⟩, ⟨[], 2⟩]

/-- The second error comes before the first. -/
theorem growingErrors_sorted (k : Nat) :
    orderBy ImportErrorRepository.order
        (ImportErrorRepository.ofImport (growingErrors (k + 1)) 0) =
      [(8, ⟨0, 2, "status", "Field required", .none⟩),
        (7, ⟨0, 4, "price", "Field required", .none⟩)] := by
  have hrows : ImportErrorRepository.ofImport (growingErrors (k + 1)) 0 =
      [(7, ⟨0, 4, "price", "Field required", .none⟩),
        (8, ⟨0, 2, "status", "Field required", .none⟩)] := rfl
  have hle : ¬ toLex ((4 : ℕ), 7) ≤ toLex ((2 : ℕ), 8) := by simp [Prod.Lex.toLex_le_toLex]
  rw [hrows]
  simp [orderBy, List.mergeSort, ImportErrorRepository.order, hle]

theorem growingWalk_walked : Walked (fun k => ImportErrorRepository.listPage (growingErrors k) 0)
    ⟨1, by decide⟩ growingWalk where
  answered k hk := by
    have hk' : k < 3 := hk
    obtain rfl | rfl | rfl : k = 0 ∨ k = 1 ∨ k = 2 := by omega
    · exact ImportErrorRepository.listPage_ok.2
        ⟨by decide, congrArg₂ ListPage.mk (by decide +kernel) rfl⟩
    · refine ImportErrorRepository.listPage_ok.2 ⟨by decide, congrArg₂ ListPage.mk ?_ rfl⟩
      rw [growingErrors_sorted]
      rfl
    · refine ImportErrorRepository.listPage_ok.2 ⟨by decide, congrArg₂ ListPage.mk ?_ rfl⟩
      rw [growingErrors_sorted]
      rfl
  ended := ⟨⟨[], 2⟩, rfl, by decide⟩

/-- The walk meets the error that was there when it began. -/
theorem growingWalk_meets : ImportErrorRepository.toReadModel
    (7, ⟨0, 4, "price", "Field required", .none⟩) ∈ (growingWalk.map (·.items)).flatten := by
  refine (walks_meet_rows ⟨1, by decide⟩).1 growingErrors 0 growingWalk (fun k _ => ?_)
    growingWalk_walked _ List.mem_cons_self
  cases k with
  | zero => exact List.cons_subset_cons _ (List.nil_subset _)
  | succ k => exact List.Subset.refl _

end ShipmentImport
