import Mathlib.Data.Nat.Init

/-!
# Binary search

`sort.Search`: the index between two bounds at which a predicate becomes true.
-/

set_option autoImplicit false

namespace Linkeye.Lib.Searches

def search (found : Nat → Bool) (i j : Nat) : Nat :=
  if i < j then
    let h := (i + j) / 2
    if found h then search found i h else search found (h + 1) j
  else i
termination_by j - i

/-- The predicate fails below the index and holds from it on. -/
theorem search_splits {found : Nat → Bool} (monotone : ∀ {a b}, a ≤ b → found a → found b)
    {i j : Nat} (ordered : i ≤ j) (below : ∀ k < i, ¬found k) (above : ∀ k ≥ j, found k) :
    (∀ k < search found i j, ¬found k) ∧ ∀ k ≥ search found i j, found k := by
  fun_induction search found i j with
  | case1 i j room h holds ih => exact ih (by omega) below fun k upper => monotone upper holds
  | case2 i j room h fails ih =>
    refine ih (by omega) (fun k lower holds => fails ?_) above
    exact monotone (Nat.le_of_lt_succ lower) holds
  | case3 i j none => exact ⟨below, fun k upper => above k (by omega)⟩

end Linkeye.Lib.Searches
