import ShipmentImport.Lib.Table

/-!
# What statements on a table wait for

A statement of session `s` waits where another session `u` holds a row or an index entry it needs.
For each kind of statement, `…Blocked` says that `u` does, and the statement waits exactly when some
other session blocks it.
-/

namespace ShipmentImport

namespace Table

variable {α : Type} (T : Table α) (s u : Nat)

/-- Session `u` holds a row that an update of session `s` selects. -/
def UpdateBlocked (p : Version α → Bool) : Prop :=
  ∃ r ∈ T.view s, p r = true ∧ T.Holds u r.id

/-- Session `u` holds or shares a row that a deletion of session `s` selects. -/
def DeleteBlocked (p : Version α → Bool) : Prop :=
  ∃ r ∈ T.view s, p r = true ∧ (T.Holds u r.id ∨ u ∈ T.share r.id)

/-- Session `u` has inserted the key of a row that session `s` inserts, or has changed the row that
has it. -/
def InsertBlocked (key : α → Option String) (a : α) : Prop :=
  ∃ k, key a = some k ∧ (T.entry k = some u ∨ ∃ r,
    (T.view s).find? (fun r => key r.val == some k) = some r ∧ T.Holds u r.id ∧
      ∃ c ∈ T.staged u, c.id = r.id)

/-- Session `u` holds row `i` for an update of any column. -/
def ShareBlocked (i : Nat) : Prop := T.lock i = some (u, .update)

variable {T s u}

/-- A row is not free when another session holds it, or shares it where it would be deleted. -/
theorem not_free_iff {mode : LockMode} {i : Nat} : T.free s mode i = false ↔
    ∃ u, u ≠ s ∧ (T.Holds u i ∨ mode = .update ∧ u ∈ T.share i) := by
  have hshare : (mode == .noKeyUpdate || (T.share i).all (· == s)) = false ↔
      ∃ u, u ≠ s ∧ mode = .update ∧ u ∈ T.share i := by
    cases mode <;> simp [and_comm]
  unfold free Holds
  cases hl : T.lock i with
  | none => simp [hshare]
  | some h =>
    obtain ⟨v, m⟩ := h
    simp only [Bool.and_eq_false_iff, hshare, beq_eq_false_iff_ne]
    constructor
    · rintro (hv | ⟨u, hu, h⟩)
      · exact ⟨v, hv, .inl ⟨m, rfl⟩⟩
      · exact ⟨u, hu, .inr h⟩
    · rintro ⟨u, hu, ⟨m', h⟩ | h⟩
      · cases h
        exact .inl hu
      · exact .inr ⟨u, hu, h⟩

theorem updateWhere_eq_none {p : Version α → Bool} {f : α → α} :
    T.updateWhere s p f = none ↔ ∃ u, u ≠ s ∧ T.UpdateBlocked s u p := by
  simp only [updateWhere, ite_eq_right_iff, reduceCtorEq, imp_false, Bool.not_eq_true,
    List.all_eq_false, List.mem_filter, UpdateBlocked]
  constructor
  · rintro ⟨r, ⟨hr, hp⟩, hf⟩
    obtain ⟨u, hu, h | ⟨h, -⟩⟩ := not_free_iff.1 hf
    · exact ⟨u, hu, r, hr, hp, h⟩
    · cases h
  · rintro ⟨u, hu, r, hr, hp, h⟩
    exact ⟨r, ⟨hr, hp⟩, not_free_iff.2 ⟨u, hu, .inl h⟩⟩

theorem deleteWhere_eq_none {p : Version α → Bool} :
    T.deleteWhere s p = none ↔ ∃ u, u ≠ s ∧ T.DeleteBlocked s u p := by
  simp only [deleteWhere, ite_eq_right_iff, reduceCtorEq, imp_false, Bool.not_eq_true,
    List.all_eq_false, List.mem_filter, DeleteBlocked]
  constructor
  · rintro ⟨r, ⟨hr, hp⟩, hf⟩
    obtain ⟨u, hu, h⟩ := not_free_iff.1 hf
    exact ⟨u, hu, r, hr, hp, h.imp_right And.right⟩
  · rintro ⟨u, hu, r, hr, hp, h⟩
    refine ⟨r, ⟨hr, hp⟩, not_free_iff.2 ⟨u, hu, ?_⟩⟩
    exact h.imp_right fun h => ⟨rfl, h⟩

theorem changing_iff {i : Nat} : T.changing s i = true ↔
    ∃ u, u ≠ s ∧ T.Holds u i ∧ ∃ c ∈ T.staged u, c.id = i := by
  unfold changing Holds
  cases hl : T.lock i with
  | none => simp
  | some h =>
    obtain ⟨v, m⟩ := h
    simp only [Bool.and_eq_true, bne_iff_ne, List.any_eq_true, beq_iff_eq]
    constructor
    · rintro ⟨hv, h⟩
      exact ⟨v, hv, ⟨m, rfl⟩, h⟩
    · rintro ⟨u, hu, ⟨m', h⟩, hc⟩
      cases h
      exact ⟨hu, hc⟩

theorem insertUnique_eq_none {i : Nat} {key : α → Option String} {a : α} :
    T.insertUnique s i key a = none ↔ ∃ u, u ≠ s ∧ T.InsertBlocked s u key a := by
  unfold insertUnique InsertBlocked
  cases hk : key a with
  | none => simp
  | some k =>
    simp only [Option.some.injEq, exists_eq_left']
    by_cases hent : (T.entry k).any (· != s) = true
    · obtain ⟨u, hu, hne⟩ := (Option.any_eq_true _ _).1 hent
      simp only [hent, if_true, true_iff]
      exact ⟨u, by simpa using hne, .inl hu⟩
    · have hentry : ∀ u, u ≠ s → T.entry k ≠ some u := by
        intro u hu he
        exact hent (by simpa [he] using hu)
      simp only [hent]
      cases hf : (T.view s).find? fun r => key r.val == some k with
      | none =>
        simp only [Bool.false_eq_true, if_false, reduceCtorEq, false_iff]
        rintro ⟨u, hu, he | ⟨r, hr, -⟩⟩
        · exact hentry u hu he
        · cases hr
      | some r =>
        simp only [Bool.false_eq_true, if_false, ite_eq_left_iff, reduceCtorEq, imp_false, not_not,
          changing_iff, Option.some.injEq, exists_eq_left']
        constructor
        · rintro ⟨u, hu, h⟩
          exact ⟨u, hu, .inr h⟩
        · rintro ⟨u, hu, he | h⟩
          · exact absurd he (hentry u hu)
          · exact ⟨u, hu, h⟩

theorem keyShare_eq_none {i : Nat} :
    T.keyShare s i = none ↔ ∃ u, u ≠ s ∧ T.ShareBlocked u i := by
  unfold keyShare ShareBlocked
  split
  · next v hl => simp [hl, eq_comm]
  · next hl =>
    simp only [reduceCtorEq, false_iff]
    rintro ⟨u, -, h⟩
    exact hl u h

/-! ## What statements take -/

section
variable {T' : Table α}

theorem holds_of_grab {m : LockMode} {is : List Nat} {i : Nat} (h : (T.grab s m is).Holds s i) :
    T.Holds s i ∨ i ∈ is := by
  by_cases hi : i ∈ is
  · exact .inr hi
  · obtain ⟨m', hm⟩ := h
    simp only [grab, hi, if_false] at hm
    exact .inl ⟨m', hm⟩

/-- An insert adds its row and at most an index entry of the session. -/
theorem insertUnique_eq {i : Nat} {key : α → Option String} {a : α}
    (h : T.insertUnique s i key a = some (.ok T')) : ∃ e, T' = { T.insert s i a with entry := e } ∧
      ∀ k, T.entry k = some s → e k = some s := by
  unfold insertUnique at h
  split at h
  · cases h
    exact ⟨T.entry, rfl, fun _ hk => hk⟩
  · next k _ =>
    split at h
    · cases h
    · split at h
      · split at h <;> cases h
      · cases h
        refine ⟨_, rfl, fun k' hk => ?_⟩
        by_cases hkk : k' = k
        · rw [hkk, Function.update_self]
        · rwa [Function.update_of_ne hkk]

/-- A share lock is all that a foreign key check takes. -/
theorem keyShare_eq {i : Nat} (h : T.keyShare s i = some T') :
    ∃ sh, T' = { T with share := sh } := by
  unfold keyShare at h
  split at h
  · split at h <;> cases h
    exact ⟨_, rfl⟩
  · cases h
    exact ⟨_, rfl⟩

/-- A deletion takes the rows it selects. -/
theorem deleteWhere_holds {p : Version α → Bool} {n : Nat} (h : T.deleteWhere s p = some (n, T')) :
    T'.entry = T.entry ∧ T'.share = T.share ∧
      ∀ i, T'.Holds s i → T.Holds s i ∨ ∃ r ∈ T.view s, p r = true ∧ r.id = i := by
  simp only [deleteWhere, Option.ite_none_right_eq_some, Option.some.injEq, Prod.mk.injEq] at h
  obtain ⟨-, -, rfl⟩ := h
  refine ⟨rfl, rfl, fun i hi => (holds_of_grab hi).imp_right fun hi => ?_⟩
  obtain ⟨r, hr, rfl⟩ := List.mem_map.1 hi
  obtain ⟨hr, hp⟩ := List.mem_filter.1 hr
  exact ⟨r, hr, hp, rfl⟩

end

end Table

end ShipmentImport
