import ShipmentImport.Queries.Pages

/-!
# Numbers in range

Whether a request is accepted is decided on unbounded integers and on dates, and what is computed
of these has to be a `bigint` and a date again. It is, except far behind the last page and at the
end of the calendar.
-/

namespace ShipmentImport

/-- The endpoints' own answer to parameters they do not take. -/
def Rejected {α : Type} (x : Except QueryFault α) : Prop :=
  ∃ message, x = .error (.api "INVALID_PAGINATION" message) ∨
    x = .error (.api "INVALID_FILTER" message)

/-- Limit and offset of a page request are in the range of `bigint`. -/
def PageRequest.Usable (r : PageRequest) : Prop := r.pageSize.1 < 2 ^ 63 ∧ r.offset < 2 ^ 63

/-- A request for errors is rejected, or what is computed of it can be used. -/
def ErrorsSound (settings : Settings) (exists' : ImportId → Bool) (errors : Keyed ImportErrorRow)
    (importId : ImportId) (page pageSize : Option String) : Prop :=
  (Rejected (listImportErrors settings exists' errors importId page pageSize) ∨
    ∃ r, parsePage settings page pageSize = .ok r ∧ r.Usable) ∧
  listImportErrors settings exists' errors importId page pageSize ≠ .error .overflow ∧
  listImportErrors settings exists' errors importId page pageSize ≠ .error .outOfRange

/-- The same for shipments, where the day after `created_to` is computed as well. -/
def ShipmentsSound (settings : Settings) (F : ShipmentQueryRepository.patterns.Folding)
    (shipments : Keyed StoredShipment) (q : ShipmentQuery) : Prop :=
  (Rejected (listShipments settings F shipments q) ∨
    ∃ r f, parsePage settings q.page q.pageSize = .ok r ∧ r.Usable ∧ buildFilters q = .ok f ∧
      ∀ d ∈ f.createdTo, d.nextDay ≠ none) ∧
  listShipments settings F shipments q ≠ .error .overflow ∧
  listShipments settings F shipments q ≠ .error .outOfRange

/-- Integers for which the endpoints accept a page. -/
structure AcceptedPage (settings : Settings) (page pageSize : Option String) (p s : Int) : Prop where
  page : paramInt page ⟨1, by decide⟩ = some p
  size : paramInt pageSize settings.defaultPageSize = some s
  page_pos : 0 < p
  size_pos : 0 < s
  size_le : s ≤ settings.maxPageSize.1

/-- An accepted page begins within the first 2 ^ 63 rows, and is no larger. -/
def PageBounded (settings : Settings) (page pageSize : Option String) : Prop :=
  ∀ p s, AcceptedPage settings page pageSize p s → (p - 1) * s < 2 ^ 63 ∧ s < 2 ^ 63

/-- The last day of the calendar is not asked for. -/
def ShipmentQuery.EndsEarlier (q : ShipmentQuery) : Prop :=
  ∀ t ∈ q.createdTo, PyDate.fromisoformat t ≠ some ⟨9999, 12, 31⟩

theorem parsePage_ok {settings : Settings} {page pageSize : Option String} {r : PageRequest} :
    parsePage settings page pageSize = .ok r ↔
      AcceptedPage settings page pageSize r.page.1 r.pageSize.1 := by
  have hp := r.page.2
  have hs := r.pageSize.2
  rw [parsePage, mapError_eq_ok, parsePageRequest_ok]
  exact ⟨fun ⟨hpage, hsize, hle⟩ => ⟨hpage, hsize, by omega, by omega, by omega⟩,
    fun h => ⟨h.page, h.size, by have := h.size_le; omega⟩⟩

theorem parsePage_error {settings : Settings} {page pageSize : Option String} {e : QueryFault}
    (h : parsePage settings page pageSize = .error e) :
    ∃ message, e = .api "INVALID_PAGINATION" message := by
  obtain ⟨message, -, rfl⟩ := mapError_eq_error.1 h
  exact ⟨message, rfl⟩

/-- An accepted page is usable when it is bounded. -/
theorem pageBounded_iff {settings : Settings} {page pageSize : Option String} :
    PageBounded settings page pageSize ↔
      ∀ r, parsePage settings page pageSize = .ok r → r.Usable := by
  have hcast : ∀ r : PageRequest, ((r.page.1 : Int) - 1) * r.pageSize.1 = (r.offset : Int) := by
    intro r
    obtain ⟨n, hn⟩ : ∃ n, r.page.1 = n + 1 := ⟨r.page.1 - 1, by have := r.page.2; omega⟩
    rw [PageRequest.offset, hn]
    push_cast
    simp
  constructor
  · intro h r hr
    obtain ⟨ho, hs⟩ := h _ _ (parsePage_ok.1 hr)
    rw [hcast] at ho
    exact ⟨by exact_mod_cast hs, by exact_mod_cast ho⟩
  · intro h p s ha
    have hp := ha.page_pos
    have hs := ha.size_pos
    let r : PageRequest := ⟨⟨p.toNat, by omega⟩, ⟨s.toNat, by omega⟩⟩
    have hpe : (r.page.1 : Int) = p := by simp [r]; omega
    have hse : (r.pageSize.1 : Int) = s := by simp [r]; omega
    have hr : parsePage settings page pageSize = .ok r := parsePage_ok.2 (by rwa [hpe, hse])
    obtain ⟨hsz, ho⟩ := h r hr
    rw [← hpe, ← hse, hcast]
    exact ⟨by exact_mod_cast ho, by exact_mod_cast hsz⟩

/-! ## Where a request can end -/

section except
variable {ε α β : Type}

theorem bind_eq_error {x : Except ε α} {f : α → Except ε β} {e : ε} :
    x >>= f = .error e ↔ x = .error e ∨ ∃ a, x = .ok a ∧ f a = .error e := by
  cases x with
  | error e' => simp [bind, Except.bind]
  | ok a => simp [bind, Except.bind]

theorem check_eq_error {c : Bool} {e e' : ε} {x : Except ε β} :
    (if c = true then (throw e : Except ε PUnit) >>= fun _ => x else x) = .error e' ↔
      (c = true ∧ e = e') ∨ (c = false ∧ x = .error e') := by
  cases c with
  | false => simp
  | true => simp [throw, throwThe, MonadExceptOf.throw, bind, Except.bind]

end except

theorem selectPage_error {α κ : Type} [LinearOrder κ] {key : α → κ} {selected : List α}
    {r : PageRequest} {e : QueryFault}
    (h : selectPage key selected r.pageSize.1 r.offset = .error e) :
    e = .outOfRange ∧ ¬ r.Usable := by
  unfold selectPage at h
  split at h
  · cases h
  · next hn =>
    cases h
    exact ⟨rfl, hn⟩

section errors
variable {settings : Settings} {exists' : ImportId → Bool} {errors : Keyed ImportErrorRow}
  {importId : ImportId} {page pageSize : Option String}

/-- A request for a page is answered, unless there is no such import or the page is not usable. -/
theorem listImportErrors_error {r : PageRequest} {e : QueryFault}
    (hr : parsePage settings page pageSize = .ok r)
    (h : listImportErrors settings exists' errors importId page pageSize = .error e) :
    e = .api "IMPORT_NOT_FOUND" "Import job was not found." ∨ e = .outOfRange ∧ ¬ r.Usable := by
  unfold listImportErrors at h
  rw [hr] at h
  simp only [bind_eq_error, check_eq_error, reduceCtorEq, false_or, Except.ok.injEq] at h
  obtain ⟨_, rfl, ⟨-, rfl⟩ | ⟨-, h | ⟨_, -, ⟨⟩⟩⟩⟩ := h
  · exact Or.inl rfl
  · simp only [ImportErrorRepository.listPage, bind_eq_error] at h
    rcases h with h | ⟨_, -, ⟨⟩⟩
    exact Or.inr (selectPage_error h)

theorem errorsSound_iff : ErrorsSound settings exists' errors importId page pageSize ↔
    PageBounded settings page pageSize := by
  rw [pageBounded_iff]
  cases hp : parsePage settings page pageSize with
  | error e =>
    obtain ⟨message, rfl⟩ := parsePage_error hp
    have hl : listImportErrors settings exists' errors importId page pageSize =
        .error (.api "INVALID_PAGINATION" message) := by
      rw [listImportErrors, hp]
      rfl
    unfold ErrorsSound
    rw [hl]
    refine ⟨fun _ r hr => (nomatch hr), fun _ => ⟨Or.inl ⟨message, Or.inl rfl⟩, ?_, ?_⟩⟩
    · exact fun h => (nomatch h)
    · exact fun h => (nomatch h)
  | ok r =>
    constructor
    · rintro ⟨⟨message, hrej | hrej⟩ | ⟨r', hr', hu⟩, -, -⟩ r'' hr''
      · rcases listImportErrors_error hp hrej with h | ⟨h, -⟩
        · simp at h
        · cases h
      · rcases listImportErrors_error hp hrej with h | ⟨h, -⟩
        · simp at h
        · cases h
      · rw [hp] at hr'
        cases hr'
        cases hr''
        exact hu
    · intro h
      have hu := h r rfl
      refine ⟨Or.inr ⟨r, hp, hu⟩, fun he => ?_, fun he => ?_⟩
      · rcases listImportErrors_error hp he with h | ⟨h, -⟩ <;> cases h
      · rcases listImportErrors_error hp he with h | ⟨-, hn⟩
        · cases h
        · exact hn hu

end errors

section shipments
variable {settings : Settings} {F : ShipmentQueryRepository.patterns.Folding}
  {shipments : Keyed StoredShipment} {q : ShipmentQuery}

/-- A request for shipments with accepted filters is answered, unless the calendar ends with
`created_to`, a text has a NUL character or the page is not usable. -/
theorem listShipments_error {r : PageRequest} {f : ShipmentQueryFilters} {e : QueryFault}
    (hr : parsePage settings q.page q.pageSize = .ok r) (hf : buildFilters q = .ok f)
    (h : listShipments settings F shipments q = .error e) :
    (e = .overflow ∧ ∃ d ∈ f.createdTo, d.nextDay = none) ∨ e = .nulCharacter ∨
      e = .outOfRange ∧ ¬ r.Usable := by
  unfold listShipments at h
  rw [hr, hf] at h
  simp only [bind_eq_error, reduceCtorEq, false_or, Except.ok.injEq, Except.mapError] at h
  obtain ⟨_, rfl, _, rfl, h | ⟨_, -, ⟨⟩⟩⟩ := h
  simp only [ShipmentQueryRepository.listPage, bind_eq_error, check_eq_error] at h
  rcases h with h | ⟨_, -, ⟨-, h⟩ | ⟨-, h | ⟨_, -, ⟨⟩⟩⟩⟩
  · exact Or.inl (ShipmentQueryRepository.filtersToCriteria_error h)
  · exact Or.inr (Or.inl h.symm)
  · exact Or.inr (Or.inr (selectPage_error h))

/-- What is accepted is bounded: the page, and the days asked for. -/
def ShipmentQuery.Bounded (settings : Settings) (q : ShipmentQuery) : Prop :=
  q.Accepted → ∀ p s, AcceptedPage settings q.page q.pageSize p s →
    (p - 1) * s < 2 ^ 63 ∧ s < 2 ^ 63 ∧ q.EndsEarlier

theorem nextDay_ne_none_iff {q : ShipmentQuery} :
    (∀ d ∈ q.filters.createdTo, d.nextDay ≠ none) ↔ q.EndsEarlier := by
  constructor
  · intro h t ht hd
    have hd' : (⟨9999, 12, 31⟩ : PyDate) ∈ q.filters.createdTo :=
      Option.bind_eq_some_iff.2 ⟨t, ht, hd⟩
    exact h _ hd' (by decide)
  · intro h d hd hn
    obtain ⟨t, ht, hd⟩ := Option.bind_eq_some_iff.1 hd
    rw [PyDate.nextDay_eq_none (PyDate.fromisoformat_valid hd)] at hn
    exact h t ht (hn ▸ hd)

theorem bounded_iff : q.Bounded settings ↔
    (q.Accepted → ∀ r, parsePage settings q.page q.pageSize = .ok r → r.Usable ∧ q.EndsEarlier) := by
  refine imp_congr_right fun _ => ?_
  constructor
  · intro h r hr
    refine ⟨pageBounded_iff.1 (fun p s ha => ?_) r hr, (h _ _ (parsePage_ok.1 hr)).2.2⟩
    exact ⟨(h p s ha).1, (h p s ha).2.1⟩
  · intro h p s ha
    obtain ⟨ho, hs⟩ := pageBounded_iff.2 (fun r hr => (h r hr).1) p s ha
    obtain ⟨r, hr⟩ : ∃ r, parsePage settings q.page q.pageSize = .ok r := by
      have hp := ha.page_pos
      have hs := ha.size_pos
      refine ⟨⟨⟨p.toNat, by omega⟩, ⟨s.toNat, by omega⟩⟩, parsePage_ok.2 ?_⟩
      rwa [Int.toNat_of_nonneg hp.le, Int.toNat_of_nonneg hs.le]
    exact ⟨ho, hs, (h r hr).2⟩

theorem shipmentsSound_iff : ShipmentsSound settings F shipments q ↔ q.Bounded settings := by
  rw [bounded_iff]
  cases hp : parsePage settings q.page q.pageSize with
  | error e =>
    obtain ⟨message, rfl⟩ := parsePage_error hp
    have hl : listShipments settings F shipments q =
        .error (.api "INVALID_PAGINATION" message) := by
      rw [listShipments, hp]
      rfl
    unfold ShipmentsSound
    rw [hl]
    refine ⟨fun _ _ r hr => (nomatch hr), fun _ => ⟨Or.inl ⟨message, Or.inl rfl⟩, ?_, ?_⟩⟩
    · exact fun h => (nomatch h)
    · exact fun h => (nomatch h)
  | ok r =>
    cases hf : buildFilters q with
    | error message =>
      have hl : listShipments settings F shipments q = .error (.api "INVALID_FILTER" message) := by
        rw [listShipments, hp, hf]
        rfl
      unfold ShipmentsSound
      rw [hl]
      refine ⟨fun _ ha => ?_, fun _ => ⟨Or.inl ⟨message, Or.inr rfl⟩, ?_, ?_⟩⟩
      · rw [buildFilters_ok.2 ⟨ha, rfl⟩] at hf
        cases hf
      · exact fun h => (nomatch h)
      · exact fun h => (nomatch h)
    | ok f =>
      obtain ⟨ha, rfl⟩ := buildFilters_ok.1 hf
      constructor
      · rintro ⟨⟨message, hrej | hrej⟩ | ⟨r', f', hr', hu, hf', hnext⟩, -, -⟩ - r'' hr''
        · rcases listShipments_error hp hf hrej with ⟨h, -⟩ | h | ⟨h, -⟩ <;> cases h
        · rcases listShipments_error hp hf hrej with ⟨h, -⟩ | h | ⟨h, -⟩ <;> cases h
        · rw [hp] at hr'
          rw [hf] at hf'
          cases hr'
          cases hr''
          cases hf'
          exact ⟨hu, nextDay_ne_none_iff.1 hnext⟩
      · intro h
        obtain ⟨hu, he⟩ := h ha r rfl
        have hnext := nextDay_ne_none_iff.2 he
        refine ⟨Or.inr ⟨r, _, hp, hu, hf, hnext⟩, fun hx => ?_, fun hx => ?_⟩
        · rcases listShipments_error hp hf hx with ⟨-, d, hd, hn⟩ | h | ⟨h, -⟩
          · exact hnext d hd hn
          · cases h
          · cases h
        · rcases listShipments_error hp hf hx with ⟨h, -⟩ | h | ⟨-, hn⟩
          · cases h
          · cases h
          · exact hn hu

end shipments

/-- A request to either endpoint is rejected, or what is computed of it is in range and the request
ends without an arithmetic overflow or a range error, exactly when what it accepts is bounded: the
page begins within the first 2 ^ 63 rows and is no larger, and the days asked for end before the
calendar does. -/
theorem listings_sound_iff (settings : Settings) :
    (∀ exists' errors importId page pageSize,
      ErrorsSound settings exists' errors importId page pageSize ↔
        PageBounded settings page pageSize) ∧
    ∀ F shipments q, ShipmentsSound settings F shipments q ↔ q.Bounded settings :=
  ⟨fun _ _ _ _ _ => errorsSound_iff, fun _ _ _ => shipmentsSound_iff⟩

/-- A page no table is long enough for, and the last day of the calendar. -/
theorem farPage_lastDay_unsound :
    listImportErrors .default (fun _ => true) ⟨[], .nil⟩ 0 (some "9999999999999999999") none =
        .error .outOfRange ∧
      listShipments .default ShipmentQueryRepository.asciiFolding ⟨[], .nil⟩
        { page := some "9999999999999999999" } = .error .outOfRange ∧
      listShipments .default ShipmentQueryRepository.asciiFolding ⟨[], .nil⟩
        { createdTo := some "9999-12-31" } = .error .overflow ∧
      ¬ ShipmentsSound .default ShipmentQueryRepository.asciiFolding ⟨[], .nil⟩
        { createdTo := some "9999-12-31" } := by
  have h : listShipments .default ShipmentQueryRepository.asciiFolding ⟨[], .nil⟩
      { createdTo := some "9999-12-31" } = .error .overflow := by rfl
  exact ⟨by rfl, by rfl, h, fun hs => hs.2.1 h⟩

end ShipmentImport
