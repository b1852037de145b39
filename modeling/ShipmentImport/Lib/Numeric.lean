import Mathlib.Data.Rat.Floor
import Mathlib.Tactic.Linarith
import Mathlib.Tactic.Positivity
import Mathlib.Tactic.FieldSimp

/-!
# Fixed-point numbers

`NUMERIC(p, s)`: a value is rounded to `s` decimal places, halves away from zero, and then has to
fit in `p` digits.
-/

namespace ShipmentImport

/-- The nearest integer, halves away from zero. -/
def roundHalfAway (x : ℚ) : ℤ := if 0 ≤ x then ⌊x + 1 / 2⌋ else -⌊-x + 1 / 2⌋

theorem roundHalfAway_lt_iff {x : ℚ} {n : ℤ} (hn : 0 < n) :
    roundHalfAway x < n ↔ x < n - 1 / 2 := by
  have hn' : (1 : ℚ) ≤ n := by exact_mod_cast hn
  unfold roundHalfAway
  split
  · rw [Int.floor_lt, lt_sub_iff_add_lt]
  · next h =>
    have h0 : 0 ≤ ⌊-x + 1 / 2⌋ := Int.floor_nonneg.2 (by linarith)
    exact ⟨fun _ => by linarith, fun _ => by omega⟩

theorem le_roundHalfAway_iff {x : ℚ} {n : ℤ} (hn : 0 < n) :
    n ≤ roundHalfAway x ↔ n - 1 / 2 ≤ x := by
  rw [← not_lt, roundHalfAway_lt_iff hn, not_lt]

theorem roundHalfAway_nonneg {x : ℚ} (h : 0 ≤ x) : 0 ≤ roundHalfAway x := by
  unfold roundHalfAway
  rw [if_pos h]
  exact Int.floor_nonneg.2 (by linarith)

/-- `x` as a column `NUMERIC(precision, scale)` stores it, in units of the last place; `none` is
the numeric field overflow. -/
def numeric? (precision scale : Nat) (x : ℚ) : Option ℤ :=
  let units := roundHalfAway (x * 10 ^ scale)
  if units.natAbs < 10 ^ precision then some units else none

/-- The value of `units` at `scale`. -/
def numericValue (scale : Nat) (units : ℤ) : ℚ := units / 10 ^ scale

theorem numericValue_pos {scale : Nat} {units : ℤ} :
    0 < numericValue scale units ↔ 0 < units := by
  unfold numericValue
  rw [div_pos_iff_of_pos_right (by positivity)]
  exact_mod_cast Iff.rfl

theorem numericValue_nonneg {scale : Nat} {units : ℤ} :
    0 ≤ numericValue scale units ↔ 0 ≤ units := by
  unfold numericValue
  rw [le_div_iff₀ (by positivity), zero_mul]
  exact_mod_cast Iff.rfl

/-- When a value that is not negative fits. -/
theorem numeric?_isSome_iff {precision scale : Nat} {x : ℚ} (hx : 0 ≤ x) :
    (numeric? precision scale x).isSome ↔ x * 10 ^ scale < 10 ^ precision - 1 / 2 := by
  have h0 := roundHalfAway_nonneg (x := x * 10 ^ scale) (by positivity)
  have hlt := roundHalfAway_lt_iff (x := x * 10 ^ scale) (n := 10 ^ precision) (by positivity)
  push_cast at hlt
  have habs : (roundHalfAway (x * 10 ^ scale)).natAbs < 10 ^ precision ↔
      roundHalfAway (x * 10 ^ scale) < 10 ^ precision := by
    zify
    rw [abs_of_nonneg h0]
  rw [← hlt, ← habs]
  simp only [numeric?]
  split
  · next h => simp [h]
  · next h => simp [h]

end ShipmentImport
