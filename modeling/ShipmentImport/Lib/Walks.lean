import ShipmentImport.Lib.Pages
import Mathlib.Data.List.Perm.Subperm
import Mathlib.Data.Nat.Find

/-!
# Walks over the pages of a selection that grows

Pages that are asked for one after the other are cut out of selections that need not be the same.
A row that is added moves the rows after it back, never forward, so a walk that goes on to a page
that is not full has met every row that was there when it began.
-/

namespace ShipmentImport

variable {α κ : Type} [LinearOrder κ] {key : α → κ} {l l' : List α} {a : α}

/-! ## Places -/

/-- The place of a row in the order: the number of rows before it. -/
def place (key : α → κ) (l : List α) (a : α) : Nat := l.countP fun b => key b < key a

theorem place_le_of_subperm (h : l.Subperm l') : place key l a ≤ place key l' a :=
  h.countP_le _

theorem place_orderBy : place key (orderBy key l) a = place key l a :=
  (orderBy_perm key l).countP_eq _

/-- In a list in strict order, the place of a row is its index. -/
theorem place_getElem (h : l.Pairwise fun a b => key a < key b) {i : Nat} (hi : i < l.length) :
    place key l l[i] = i := by
  induction l generalizing i with
  | nil => exact absurd hi (Nat.not_lt_zero _)
  | cons b l ih =>
    obtain ⟨hb, hl⟩ := List.pairwise_cons.1 h
    cases i with
    | zero =>
      have hnone : ∀ x ∈ b :: l, ¬ decide (key x < key b) = true := by
        intro x hx
        rw [decide_eq_true_eq]
        rcases List.mem_cons.1 hx with rfl | hx
        · exact lt_irrefl _
        · exact (hb x hx).asymm
      exact List.countP_eq_zero.2 hnone
    | succ i =>
      have hi' : i < l.length := Nat.lt_of_succ_lt_succ hi
      have hlt := decide_eq_true (hb _ (List.getElem_mem hi'))
      have hplace : place key l l[i] = i := ih hl hi'
      rw [List.getElem_cons_succ]
      exact (List.countP_cons_of_pos (p := fun x => key x < key l[i]) hlt).trans
        (congrArg (· + 1) hplace)

/-- A row is on the page its place is on. -/
theorem mem_page_orderBy (hn : (l.map key).Nodup) (ha : a ∈ l) {limit offset : Nat}
    (h : offset ≤ place key l a) (h' : place key l a < offset + limit) :
    a ∈ page limit offset (orderBy key l) := by
  obtain ⟨i, hi, rfl⟩ := List.getElem_of_mem ((orderBy_perm key l).mem_iff.2 ha)
  rw [← place_orderBy, place_getElem (orderBy_pairwise hn) hi] at h h'
  have hlen : i - offset < (page limit offset (orderBy key l)).length := by
    rw [page, List.length_take, List.length_drop]
    omega
  have hget : (page limit offset (orderBy key l))[i - offset] = (orderBy key l)[i] := by
    simp only [page, List.getElem_take, List.getElem_drop]
    congr 1
    omega
  exact hget ▸ List.getElem_mem hlen

theorem place_lt_length (ha : a ∈ l) : place key l a < l.length := by
  refine Nat.lt_of_le_of_ne List.countP_le_length fun he => ?_
  have := List.countP_eq_length.1 he a ha
  simp at this

/-! ## Walks -/

/-- Where selections only grow, a row of the first is on one of the pages, of which the last is not
full. -/
theorem exists_mem_page {selected : Nat → List α} (hn : ∀ k, ((selected k).map key).Nodup)
    {size n : Nat} (hg : ∀ k < n, selected k ⊆ selected (k + 1))
    (hlast : (page size (n * size) (orderBy key (selected n))).length < size)
    (ha : a ∈ selected 0) :
    ∃ k ≤ n, a ∈ page size (k * size) (orderBy key (selected k)) := by
  have hmem : ∀ k ≤ n, a ∈ selected k := by
    intro k
    induction k with
    | zero => exact fun _ => ha
    | succ k ih => exact fun hk => hg k hk (ih (Nat.le_of_lt hk))
  -- the row has not passed the last page
  have hend : place key (selected n) a < n * size + size := by
    have hlt : place key (selected n) a < (selected n).length :=
      place_lt_length (hmem n (Nat.le_refl n))
    rw [length_page, length_orderBy] at hlast
    omega
  -- the first page it has not passed is the one it is on
  have hex : ∃ k, place key (selected k) a < k * size + size := ⟨n, hend⟩
  classical
  have hfirst : Nat.find hex ≤ n := Nat.find_min' hex hend
  refine ⟨Nat.find hex, hfirst, mem_page_orderBy (hn _) (hmem _ hfirst) ?_ (Nat.find_spec hex)⟩
  cases hk : Nat.find hex with
  | zero =>
    rw [Nat.zero_mul]
    exact Nat.zero_le _
  | succ k =>
    have hmin : ¬ place key (selected k) a < k * size + size := Nat.find_min hex (by omega)
    have hsub : (selected k).Subperm (selected (k + 1)) :=
      List.subperm_of_subset (List.Nodup.of_map key (hn k)) (hg k (by omega))
    have hle : place key (selected k) a ≤ place key (selected (k + 1)) a :=
      place_le_of_subperm hsub
    rw [Nat.succ_mul]
    omega

end ShipmentImport
