import Mathlib.Logic.Relation
import Mathlib.Order.WellFoundedSet

/-!
# Wait-for graphs

Processes that hold resources and wait for each other. Where each asks for its resources in one
order that all of them share, they do not wait for each other in a cycle (`acyclic_of_order`), and
where finitely many of them wait, every chain of waits ends at one that does not
(`exists_not_waiting`).
-/

namespace ShipmentImport

open Relation

section
variable {P K : Type} {waits : P → P → Prop} {holds : P → K → Prop} {lt : K → K → Prop}

/-- Whoever is waited for, directly or not, holds something that comes after all the first process
holds. -/
theorem holds_after [IsTrans K lt]
    (h : ∀ p q, waits p q → ∃ k, holds q k ∧ ∀ l, holds p l → lt l k) {p q : P}
    (hw : TransGen waits p q) : ∃ k, holds q k ∧ ∀ l, holds p l → lt l k := by
  induction hw with
  | single hw => exact h _ _ hw
  | tail _ hw ih =>
    obtain ⟨k, hk, hlt⟩ := ih
    obtain ⟨k', hk', hlt'⟩ := h _ _ hw
    exact ⟨k', hk', fun l hl => trans_of lt (hlt l hl) (hlt' k hk)⟩

/-- Processes that ask for what they need in one order do not wait in a cycle. -/
theorem acyclic_of_order [IsStrictOrder K lt]
    (h : ∀ p q, waits p q → ∃ k, holds q k ∧ ∀ l, holds p l → lt l k) (p : P) :
    ¬ TransGen waits p p := by
  intro hw
  obtain ⟨k, hk, hlt⟩ := holds_after h hw
  exact irrefl_of lt k (hlt k hk)

/-- The waits of a cycle are those from which the cycle goes on. -/
theorem cycle_edges {p : P} (hw : TransGen waits p p) :
    TransGen (fun a b => waits a b ∧ TransGen waits a a ∧ ReflTransGen waits b p) p p := by
  have key : ∀ q, TransGen waits q p → TransGen waits p q →
      TransGen (fun a b => waits a b ∧ TransGen waits a a ∧ ReflTransGen waits b p) q p := by
    intro q hq
    induction hq using TransGen.head_induction_on with
    | single hq => exact fun hback => .single ⟨hq, .head hq hback, .refl⟩
    | head hq hrest ih =>
      exact fun hback => .head ⟨hq, .head hq (hrest.trans hback), hrest.to_reflTransGen⟩
        (ih (hback.tail hq))
  exact key p hw hw

/-- A chain of waits without a cycle ends. -/
theorem exists_not_waiting (hfin : {p | ∃ q, waits p q}.Finite) (h : ∀ p, ¬ TransGen waits p p)
    (p : P) : ∃ q, ReflTransGen waits p q ∧ ∀ r, ¬ waits q r := by
  have : IsStrictOrder P (flip (TransGen waits)) :=
    { irrefl := h
      trans := fun _ _ _ hab hbc => hbc.trans hab }
  have hwait : ∀ p, (∃ q, waits p q) → ∃ q, ReflTransGen waits p q ∧ ∀ r, ¬ waits q r := by
    intro p hp
    have hwf := hfin.wellFoundedOn (r := flip (TransGen waits))
    refine hwf.induction (P := fun p => ∃ q, ReflTransGen waits p q ∧ ∀ r, ¬ waits q r) hp
      fun p hp ih => ?_
    obtain ⟨q, hq⟩ := hp
    by_cases hq' : ∃ r, waits q r
    · obtain ⟨r, hr, hend⟩ := ih q hq' (.single hq)
      exact ⟨r, .head hq hr, hend⟩
    · exact ⟨q, .single hq, fun r hr => hq' ⟨r, hr⟩⟩
  by_cases hp : ∃ q, waits p q
  · exact hwait p hp
  · exact ⟨p, .refl, fun r hr => hp ⟨r, hr⟩⟩

end

end ShipmentImport
