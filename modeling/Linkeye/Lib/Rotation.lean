import Mathlib.Data.Nat.ModEq

/-!
# Taking turns

Places of a circle that are visited one after another.
-/

set_option autoImplicit false

namespace Linkeye.Lib.Rotation

/-- How far behind `start` the place `i` comes. -/
def ahead (n start i : Nat) : Nat := (i + (n - start % n)) % n

theorem ahead_lt {n : Nat} (start i : Nat) (positive : 0 < n) : ahead n start i < n :=
  Nat.mod_lt _ positive

theorem ahead_eq {n start i : Nat} (place : i < n) :
    ahead n start i = if i < start % n then i + n - start % n else i - start % n := by
  have below : start % n < n := Nat.mod_lt _ (by omega)
  rw [ahead]
  generalize start % n = turn at below
  split
  · rw [Nat.mod_eq_of_lt (by omega)]
    omega
  · rw [show i + (n - turn) = i - turn + n by omega, Nat.add_mod_right, Nat.mod_eq_of_lt (by omega)]

theorem start_add_ahead {n start i : Nat} (place : i < n) : (start + ahead n start i) % n = i := by
  have below : start % n < n := Nat.mod_lt _ (by omega)
  have whole : start % n + (i + (n - start % n)) = i + n := by omega
  rw [ahead, Nat.add_mod_mod, Nat.add_mod, Nat.add_mod_mod, whole, Nat.add_mod_right,
    Nat.mod_eq_of_lt place]

theorem existsUnique_visit {n start i : Nat} (place : i < n) :
    ∃! k, k < n ∧ (start + k) % n = i := by
  refine ⟨ahead n start i, ⟨ahead_lt start i (by omega), start_add_ahead place⟩, ?_⟩
  rintro k ⟨short, visit⟩
  have same : start + k ≡ start + ahead n start i [MOD n] :=
    visit.trans (start_add_ahead place).symm
  exact Nat.ModEq.eq_of_lt_of_lt (Nat.ModEq.add_left_cancel' start same) short
    (ahead_lt start i (by omega))

end Linkeye.Lib.Rotation
