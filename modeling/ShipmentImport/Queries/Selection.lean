import ShipmentImport.Queries.Endpoints

/-!
# What the filters select

Which query strings are accepted as filters, and which shipments the criteria made of them select.
-/

namespace ShipmentImport

/-! ## Accepted filters -/

/-- Filters `_build_filters` accepts. -/
structure ShipmentQuery.Accepted (q : ShipmentQuery) : Prop where
  status : ∀ s ∈ q.status, strip s ∈ shipmentStatuses
  originCity : ∀ s ∈ q.originCity, strip s ≠ ""
  destinationCity : ∀ s ∈ q.destinationCity, strip s ≠ ""
  customerName : ∀ s ∈ q.customerName, strip s ≠ ""
  createdFrom : ∀ s ∈ q.createdFrom, (PyDate.fromisoformat s).isSome
  createdTo : ∀ s ∈ q.createdTo, (PyDate.fromisoformat s).isSome
  range : ∀ s ∈ q.createdFrom, ∀ t ∈ q.createdTo, ∀ d ∈ PyDate.fromisoformat s,
    ∀ e ∈ PyDate.fromisoformat t, e.before d = false

/-- What they are built to. -/
def ShipmentQuery.filters (q : ShipmentQuery) : ShipmentQueryFilters where
  status := q.status.map strip
  originCity := q.originCity.map strip
  destinationCity := q.destinationCity.map strip
  customerName := q.customerName.map strip
  createdFrom := q.createdFrom.bind PyDate.fromisoformat
  createdTo := q.createdTo.bind PyDate.fromisoformat

theorem normalizeStatus_ok {v o : Option String} : normalizeStatus v = .ok o ↔
    (∀ s ∈ v, strip s ∈ shipmentStatuses) ∧ v.map strip = o := by
  cases v with
  | none => simp [normalizeStatus]
  | some s =>
    rw [normalizeStatus]
    split
    · next h => simp [h]
    · next h => simp [not_not.1 h]

theorem normalizeTextFilter_ok {v o : Option String} : normalizeTextFilter v = .ok o ↔
    (∀ s ∈ v, strip s ≠ "") ∧ v.map strip = o := by
  cases v with
  | none => simp [normalizeTextFilter]
  | some s =>
    rw [normalizeTextFilter]
    split
    · next h => simp [h]
    · next h => simp [h]

theorem parseDateFilter_ok {name : String} {v : Option String} {o : Option PyDate} :
    parseDateFilter name v = .ok o ↔
      (∀ s ∈ v, (PyDate.fromisoformat s).isSome) ∧ v.bind PyDate.fromisoformat = o := by
  cases v with
  | none => simp [parseDateFilter]
  | some s =>
    rw [parseDateFilter]
    cases h : PyDate.fromisoformat s with
    | none => simp [h]
    | some d => simp [h]

theorem emptyRange_eq_false {a b : Option PyDate} :
    emptyRange a b = false ↔ ∀ d ∈ a, ∀ e ∈ b, e.before d = false := by
  cases a <;> cases b <;> simp [emptyRange]

/-- Filters are built exactly of what is accepted. -/
theorem buildFilters_ok {q : ShipmentQuery} {f : ShipmentQueryFilters} :
    buildFilters q = .ok f ↔ q.Accepted ∧ q.filters = f := by
  unfold buildFilters
  simp only [bind_eq_ok, normalizeStatus_ok, parseDateFilter_ok, check_eq_ok,
    normalizeTextFilter_ok, emptyRange_eq_false]
  constructor
  · rintro ⟨_, ⟨hs, rfl⟩, _, ⟨hf, rfl⟩, _, ⟨ht, rfl⟩, hr, _, ⟨ho, rfl⟩, _, ⟨hd, rfl⟩, _, ⟨hc, rfl⟩,
      ⟨⟩⟩
    refine ⟨⟨hs, ho, hd, hc, hf, ht, fun s hs t ht d hd e he => ?_⟩, rfl⟩
    exact hr d (Option.bind_eq_some_iff.2 ⟨s, hs, hd⟩) e (Option.bind_eq_some_iff.2 ⟨t, ht, he⟩)
  · rintro ⟨h, rfl⟩
    refine ⟨_, ⟨h.status, rfl⟩, _, ⟨h.createdFrom, rfl⟩, _, ⟨h.createdTo, rfl⟩, ?_,
      _, ⟨h.originCity, rfl⟩, _, ⟨h.destinationCity, rfl⟩, _, ⟨h.customerName, rfl⟩, rfl⟩
    intro d hd e he
    obtain ⟨s, hs, hd⟩ := Option.bind_eq_some_iff.1 hd
    obtain ⟨t, ht, he⟩ := Option.bind_eq_some_iff.1 he
    exact h.range s hs t ht d hd e he

/-! ## The rows the criteria select -/

namespace ShipmentQueryRepository

/-- The calendar day of an instant, in UTC, as an ordinal. -/
def utcDay (instant : Int) : Int := instant / dayLength + 1

theorem dayStart_le_iff (d : PyDate) (instant : Int) :
    dayStart d ≤ instant ↔ (d.toOrdinal : Int) ≤ utcDay instant := by
  unfold dayStart utcDay dayLength
  omega

/-- Before the start of the next day is on this day or on one before it. -/
theorem lt_dayStart_iff {d next : PyDate} (hd : d.Valid) (hn : d.nextDay = some next)
    (instant : Int) : instant < dayStart next ↔ utcDay instant ≤ d.toOrdinal := by
  unfold dayStart utcDay dayLength
  rw [PyDate.toOrdinal_nextDay hd hn]
  push_cast
  omega

variable (F : patterns.Folding)

/-- A text in another one, up to case. -/
def Contains (text s : String) : Prop := text.toList.map F.fold <:+: s.toList.map F.fold

instance (text s : String) : Decidable (Contains F text s) :=
  inferInstanceAs (Decidable (_ <:+: _))

/-- The pattern of a text matches the texts that contain it, whatever is special in it. -/
theorem ilike_containsPattern (value s : String) :
    LikeSyntax.ilike F (containsPattern value).toList s.toList =
      some (decide (Contains F value s)) := by
  rw [containsPattern, String.toList_ofList]
  exact LikeSyntax.ilike_contains F value.toList s.toList

theorem holds_contains (r : StoredShipment) (column : Shipment → String) (value : String) :
    (contains column value).holds F r = true ↔ Contains F value (column r.shipment) := by
  rw [contains, Criterion.holds, ilike_containsPattern, Option.getD_some, decide_eq_true_eq]

/-- What the filters ask of a shipment. -/
structure Matches (q : ShipmentQuery) (r : StoredShipment) : Prop where
  status : ∀ s ∈ q.status, r.shipment.status = strip s
  originCity : ∀ s ∈ q.originCity, Contains F (strip s) r.shipment.originCity
  destinationCity : ∀ s ∈ q.destinationCity, Contains F (strip s) r.shipment.destinationCity
  customerName : ∀ s ∈ q.customerName, Contains F (strip s) r.shipment.customerName
  createdFrom : ∀ s ∈ q.createdFrom, ∀ d ∈ PyDate.fromisoformat s, d.toOrdinal ≤ utcDay r.createdAt
  createdTo : ∀ s ∈ q.createdTo, ∀ d ∈ PyDate.fromisoformat s, utcDay r.createdAt ≤ d.toOrdinal

/-- The criterion of an optional filter. -/
theorem all_toList_map {α : Type} (o : Option α) (g : α → Criterion) (r : StoredShipment) :
    ((o.map g).toList.all fun c => c.holds F r) = true ↔ ∀ a ∈ o, (g a).holds F r = true := by
  cases o <;> simp

/-- The criteria that do not depend on `created_to`. -/
def lowerCriteria (f : ShipmentQueryFilters) : List Criterion :=
  (f.status.map .statusIs).toList ++
    (f.originCity.map (contains (·.originCity))).toList ++
    (f.destinationCity.map (contains (·.destinationCity))).toList ++
    (f.customerName.map (contains (·.customerName))).toList ++
    (f.createdFrom.map fun d => .createdFrom (dayStart d)).toList

/-- There is a criterion for the end of the last day, unless the calendar ends with it. -/
theorem filtersToCriteria_ok {f : ShipmentQueryFilters} {criteria : List Criterion} :
    filtersToCriteria f = .ok criteria ↔ (∀ d ∈ f.createdTo, d.nextDay ≠ none) ∧
      criteria = lowerCriteria f ++
        ((f.createdTo.bind PyDate.nextDay).map fun d => .createdBefore (dayStart d)).toList := by
  unfold filtersToCriteria lowerCriteria
  cases f.createdTo with
  | none => simp [pure, Except.pure, Eq.comm]
  | some d =>
    cases hn : d.nextDay with
    | none => simp [hn, throw, throwThe, MonadExceptOf.throw]
    | some next => simp [hn, pure, Except.pure, Eq.comm]

theorem filtersToCriteria_error {f : ShipmentQueryFilters} {e : QueryFault}
    (h : filtersToCriteria f = .error e) : e = .overflow ∧ ∃ d ∈ f.createdTo, d.nextDay = none := by
  unfold filtersToCriteria at h
  split at h
  · cases h
  · next d hd =>
    split at h
    · next hn =>
      cases h
      exact ⟨rfl, d, hd, hn⟩
    · cases h

/-- A row satisfies the criteria when it is what the query string asks for. -/
theorem all_holds_iff {q : ShipmentQuery} {criteria : List Criterion}
    (hc : filtersToCriteria q.filters = .ok criteria) (r : StoredShipment) :
    (criteria.all fun c => c.holds F r) = true ↔ Matches F q r := by
  obtain ⟨hnext, rfl⟩ := filtersToCriteria_ok.1 hc
  have hto : (∀ d ∈ q.filters.createdTo.bind PyDate.nextDay,
      (Criterion.createdBefore (dayStart d)).holds F r = true) ↔
      ∀ s ∈ q.createdTo, ∀ d ∈ PyDate.fromisoformat s, utcDay r.createdAt ≤ d.toOrdinal := by
    constructor
    · intro h s hs d hd
      have hv := PyDate.fromisoformat_valid hd
      have hmem : d ∈ q.filters.createdTo := Option.bind_eq_some_iff.2 ⟨s, hs, hd⟩
      obtain ⟨next, hn⟩ := Option.ne_none_iff_exists'.1 (hnext d hmem)
      exact (lt_dayStart_iff hv hn _).1
        (of_decide_eq_true (h next (Option.bind_eq_some_iff.2 ⟨d, hmem, hn⟩)))
    · intro h next hmem
      obtain ⟨d, hd, hn⟩ := Option.bind_eq_some_iff.1 hmem
      obtain ⟨s, hs, hd⟩ := Option.bind_eq_some_iff.1 hd
      exact decide_eq_true ((lt_dayStart_iff (PyDate.fromisoformat_valid hd) hn _).2 (h s hs d hd))
  have hfrom : (∀ d ∈ q.filters.createdFrom,
      (Criterion.createdFrom (dayStart d)).holds F r = true) ↔
      ∀ s ∈ q.createdFrom, ∀ d ∈ PyDate.fromisoformat s, d.toOrdinal ≤ utcDay r.createdAt := by
    simp only [Criterion.holds, decide_eq_true_eq, dayStart_le_iff]
    exact ⟨fun h s hs d hd => h d (Option.bind_eq_some_iff.2 ⟨s, hs, hd⟩), fun h d hd => by
      obtain ⟨s, hs, hd⟩ := Option.bind_eq_some_iff.1 hd
      exact h s hs d hd⟩
  have hmap : ∀ (o : Option String) (p : String → Prop),
      (∀ a ∈ o.map strip, p a) ↔ ∀ s ∈ o, p (strip s) := by
    intro o p
    cases o <;> simp
  simp only [lowerCriteria, List.all_append, Bool.and_eq_true, all_toList_map, holds_contains, hto,
    hfrom]
  simp only [ShipmentQuery.filters, hmap, Criterion.holds, decide_eq_true_eq]
  constructor
  · rintro ⟨⟨⟨⟨⟨hs, ho⟩, hd⟩, hcu⟩, hf⟩, ht⟩
    exact ⟨hs, ho, hd, hcu, hf, ht⟩
  · intro h
    exact ⟨⟨⟨⟨⟨h.status, h.originCity⟩, h.destinationCity⟩, h.customerName⟩, h.createdFrom⟩,
      h.createdTo⟩

/-- The patterns among the criteria are those of texts. -/
theorem pattern_of_mem {f : ShipmentQueryFilters} {criteria : List Criterion}
    (hc : filtersToCriteria f = .ok criteria) {column : Shipment → String} {pattern : String}
    (h : .ilike column pattern ∈ criteria) : ∃ value, pattern = containsPattern value := by
  obtain ⟨-, rfl⟩ := filtersToCriteria_ok.1 hc
  simp only [lowerCriteria, List.mem_append, Option.mem_toList, Option.map_eq_some_iff, contains,
    Criterion.ilike.injEq, reduceCtorEq, and_false, exists_false, false_or, or_false] at h
  rcases h with (⟨v, -, -, h⟩ | ⟨v, -, -, h⟩) | ⟨v, -, -, h⟩
  · exact ⟨v, h.symm⟩
  · exact ⟨v, h.symm⟩
  · exact ⟨v, h.symm⟩

/-- The criteria of accepted filters select the shipments that have the status, contain the texts
literally up to case, and were created on one of the days; and none of their patterns is an
error. -/
theorem shipments_selected (shipments : Keyed StoredShipment) (q : ShipmentQuery)
    (filters : ShipmentQueryFilters) (criteria : List Criterion)
    (hq : buildFilters q = .ok filters) (hc : filtersToCriteria filters = .ok criteria) :
    (∀ r, r ∈ select F shipments criteria ↔ r ∈ shipments.rows ∧ Matches F q r.2) ∧
    ∀ column pattern, .ilike column pattern ∈ criteria →
      ∀ text : List Char, (LikeSyntax.ilike F pattern.toList text).isSome = true := by
  obtain ⟨-, rfl⟩ := buildFilters_ok.1 hq
  constructor
  · intro r
    rw [select, List.mem_filter, all_holds_iff F hc]
  · intro column pattern h text
    obtain ⟨value, rfl⟩ := pattern_of_mem hc h
    have := ilike_containsPattern F value (String.ofList text)
    rw [String.toList_ofList] at this
    rw [this, Option.isSome_some]

/-- Folding of the letters of ASCII. -/
def asciiFold (c : Char) : Char :=
  if 65 ≤ c.toNat ∧ c.toNat ≤ 90 then Char.ofNat (c.toNat + 32) else c

def asciiFolding : patterns.Folding where
  fold := asciiFold
  fixes c h := by
    simp only [LikeSyntax.special, patterns, Bool.or_eq_true] at h
    rcases h with (h | h) | h
    all_goals
      rw [of_decide_eq_true h]
      rfl
  reflects c h := by
    unfold asciiFold at h
    split at h
    · next hc =>
      have hletter : ∀ n < 26, patterns.special (Char.ofNat (n + 65 + 32)) = false := by decide
      have := hletter (c.toNat - 65) (by omega)
      rw [show c.toNat - 65 + 65 = c.toNat by omega, h] at this
      cases this
    · exact h

def sampleShipment : StoredShipment where
  shipment := { importId := 0, shipmentCode := "A-1", customerName := "Ann", originCity := "10% OFF\\_",
                destinationCity := "Oslo", weightKg := ⟨2000, -3⟩, price := ⟨10000, -2⟩,
                status := "PENDING", deliveryDate := none }
  createdAt := dayStart ⟨2024, 2, 29⟩ + 1

def sampleShipments : Keyed StoredShipment := ⟨[(7, sampleShipment)], by decide⟩

def sampleQuery : ShipmentQuery :=
  { originCity := some " % off\\_ ", createdFrom := some "2024-02-29",
    createdTo := some "20240229" }

theorem sampleShipment_selected : ∃ criteria,
    filtersToCriteria sampleQuery.filters = .ok criteria ∧
      (7, sampleShipment) ∈ select asciiFolding sampleShipments criteria := by
  have hdate : PyDate.fromisoformat "2024-02-29" = some ⟨2024, 2, 29⟩ := by decide +kernel
  have hdate' : PyDate.fromisoformat "20240229" = some ⟨2024, 2, 29⟩ := by decide +kernel
  have hto : sampleQuery.filters.createdTo = some ⟨2024, 2, 29⟩ := hdate'
  have hnext : ∀ d ∈ sampleQuery.filters.createdTo, d.nextDay ≠ none := by
    rw [hto]
    rintro d ⟨⟩
    decide
  have hcity : Contains asciiFolding (strip " % off\\_ ") "10% OFF\\_" := by decide +kernel
  have hq : buildFilters sampleQuery = .ok sampleQuery.filters := by rfl
  have hc := filtersToCriteria_ok.2 ⟨hnext, rfl⟩
  refine ⟨_, hc, ((shipments_selected asciiFolding sampleShipments _ _ _ hq hc).1 _).2
    ⟨List.mem_singleton_self _, ?_⟩⟩
  refine ⟨fun s h => (nomatch h), ?_, fun s h => (nomatch h), fun s h => (nomatch h), ?_, ?_⟩
  · rintro s ⟨⟩
    exact hcity
  · rintro s ⟨⟩ d hd
    rw [hdate] at hd
    cases hd
    decide
  · rintro s ⟨⟩ d hd
    rw [hdate'] at hd
    cases hd
    decide

end ShipmentQueryRepository

end ShipmentImport
