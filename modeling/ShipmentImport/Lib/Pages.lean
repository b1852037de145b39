import Mathlib.Data.List.Nodup
import Mathlib.Data.Prod.Lex
import Mathlib.Order.Lattice

/-!
# Pages of an ordered selection

`ORDER BY key LIMIT limit OFFSET offset`, and how the pages of one size divide what they are taken
from: one after the other they are all of it, and all but the last are full.
-/

namespace ShipmentImport

variable {α κ : Type}

/-! ## Order -/

/-- `ORDER BY key`. -/
def orderBy [LinearOrder κ] (key : α → κ) (l : List α) : List α :=
  l.mergeSort fun a b => decide (key a ≤ key b)

theorem orderBy_perm [LinearOrder κ] (key : α → κ) (l : List α) : (orderBy key l).Perm l :=
  List.mergeSort_perm l _

@[simp] theorem length_orderBy [LinearOrder κ] (key : α → κ) (l : List α) :
    (orderBy key l).length = l.length := (orderBy_perm key l).length_eq

/-- Rows with different keys are in strict order: no choice is left between two of them. -/
theorem orderBy_pairwise [LinearOrder κ] {key : α → κ} {l : List α} (h : (l.map key).Nodup) :
    (orderBy key l).Pairwise fun a b => key a < key b := by
  have hle : (orderBy key l).Pairwise fun a b => decide (key a ≤ key b) = true := by
    refine List.pairwise_mergeSort (fun a b c hab hbc => ?_) (fun a b => ?_) l
    · rw [decide_eq_true_eq] at *
      exact hab.trans hbc
    · simpa using le_total (key a) (key b)
  have hne : (orderBy key l).Pairwise fun a b => key a ≠ key b :=
    List.pairwise_map.1 (((orderBy_perm key l).map key).nodup_iff.2 h)
  exact hle.imp₂ (fun a b hab hne => lt_of_le_of_ne (of_decide_eq_true hab) hne) hne

/-! ## Pages -/

/-- `LIMIT limit OFFSET offset`. -/
def page (limit offset : Nat) (l : List α) : List α := (l.drop offset).take limit

/-- The number of pages of `size` rows that `total` rows fill. -/
def pageCount (size total : Nat) : Nat := (total + size - 1) / size

theorem lt_pageCount_iff {size total i : Nat} (h : 1 ≤ size) :
    i < pageCount size total ↔ i * size < total := by
  unfold pageCount
  rw [Nat.lt_div_iff_mul_lt h]
  omega

theorem length_page {size : Nat} (l : List α) (i : Nat) :
    (page size (i * size) l).length = min size (l.length - i * size) := by simp [page]

/-- Before the last page, pages are full. -/
theorem page_full {size : Nat} (h : 1 ≤ size) {l : List α} {i : Nat}
    (hi : i + 1 < pageCount size l.length) : (page size (i * size) l).length = size := by
  have := (lt_pageCount_iff h).1 hi
  rw [Nat.succ_mul] at this
  rw [length_page]
  omega

theorem page_ne_nil {size : Nat} (h : 1 ≤ size) {l : List α} {i : Nat}
    (hi : i < pageCount size l.length) : page size (i * size) l ≠ [] := by
  have := (lt_pageCount_iff h).1 hi
  rw [← List.length_pos_iff, length_page]
  omega

/-- After the last page, pages are empty. -/
theorem page_beyond {size : Nat} (h : 1 ≤ size) {l : List α} {i : Nat}
    (hi : pageCount size l.length ≤ i) : page size (i * size) l = [] := by
  have : ¬ i * size < l.length := fun hlt => by
    have := (lt_pageCount_iff h).2 hlt
    omega
  rw [page, List.drop_eq_nil_of_le (by omega), List.take_nil]

/-- The first `n` pages are the first `n * size` rows. -/
theorem flatten_pages_eq_take (size : Nat) (l : List α) (n : Nat) :
    ((List.range n).map fun i => page size (i * size) l).flatten = l.take (n * size) := by
  induction n with
  | zero => simp
  | succ n ih =>
    rw [List.range_succ, List.map_append, List.flatten_append, ih, Nat.succ_mul, List.take_add]
    simp [page]

/-- All pages together are all rows. -/
theorem flatten_pages {size : Nat} (h : 1 ≤ size) (l : List α) :
    ((List.range (pageCount size l.length)).map fun i => page size (i * size) l).flatten = l := by
  rw [flatten_pages_eq_take, List.take_of_length_le]
  have : ¬ pageCount size l.length < pageCount size l.length := lt_irrefl _
  rw [lt_pageCount_iff h] at this
  omega

end ShipmentImport
