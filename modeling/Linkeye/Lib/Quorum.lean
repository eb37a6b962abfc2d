import Mathlib

/-!
# Counting with quorums

Two subsets of a finite population overlap by what their sizes exceed the
population, and no more can be said: `exists_tight_pair` gives two subsets whose
overlap is exactly that excess.
-/

set_option autoImplicit false

namespace Linkeye.Lib.Quorum

section
variable {α : Type} [DecidableEq α]

theorem card_add_card_le {population left right : Finset α}
    (leftSub : left ⊆ population) (rightSub : right ⊆ population) :
    left.card + right.card ≤ population.card + (left ∩ right).card := by
  have union := Finset.card_le_card (Finset.union_subset leftSub rightSub)
  have split := Finset.card_union_add_card_inter left right
  omega

theorem exists_correct {group faulty : Finset α} (more : faulty.card < group.card) :
    ∃ member ∈ group, member ∉ faulty := by
  by_contra none
  push Not at none
  exact absurd (Finset.card_le_card none) (not_le.mpr more)

/-- Two groups that together exceed the population by more than the number of
faulty members share a correct member. -/
theorem exists_correct_shared {population left right : Finset α} (faulty : Finset α)
    (leftSub : left ⊆ population) (rightSub : right ⊆ population)
    (excess : population.card + faulty.card < left.card + right.card) :
    ∃ member, member ∈ left ∧ member ∈ right ∧ member ∉ faulty := by
  have overlap := card_add_card_le leftSub rightSub
  have more : faulty.card < (left ∩ right).card := by omega
  obtain ⟨member, shared, correct⟩ := exists_correct more
  rw [Finset.mem_inter] at shared
  exact ⟨member, shared.1, shared.2, correct⟩

end

/-- The first and the last `k` of `n` overlap in `k - (n - k)` places. -/
theorem exists_tight_pair {n k : Nat} (proper : k < n) (positive : 0 < k) :
    ∃ left right : Finset (Fin n),
      left.card = k ∧ right.card = k ∧ (left ∩ right).card = k - (n - k) := by
  let upper : Fin n := ⟨k, proper⟩
  let lower : Fin n := ⟨n - k, by omega⟩
  refine ⟨Finset.Iio upper, Finset.Ici lower, ?_, ?_, ?_⟩
  · simp [upper]
  · simp only [Fin.card_Ici, lower]
    omega
  · have interval : Finset.Iio upper ∩ Finset.Ici lower = Finset.Ico lower upper := by
      ext place
      simp only [Finset.mem_inter, Finset.mem_Iio, Finset.mem_Ici, Finset.mem_Ico]
      exact and_comm
    rw [interval, Fin.card_Ico]

end Linkeye.Lib.Quorum
