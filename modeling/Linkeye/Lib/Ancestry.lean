import Mathlib

/-!
# Ancestors in a store of linked records

A store knows of some keys the key of the parent and the height.  The ancestors of a
key are found by going up from parent to parent; a key is rooted where this ends at
the origin.
-/

set_option autoImplicit false

namespace Linkeye.Lib.Ancestry

variable {K : Type}

/-- The ancestor at height `m` of a key at height `n`. -/
def ancestorAt (up : K → Option (K × Nat)) : Nat → K → Nat → Option K
  | 0, k, m => if m = 0 then some k else none
  | n + 1, k, m =>
    if m = n + 1 then some k
    else
      match up k with
      | none => none
      | some (parent, _) => ancestorAt up n parent m

/-- All ancestors of a key at height `n` are stored, up to the origin. -/
inductive Rooted (up : K → Option (K × Nat)) (origin : K) : K → Nat → Prop where
  | origin {parent : K} (stored : up origin = some (parent, 0)) : Rooted up origin origin 0
  | child {k parent : K} {n : Nat} (stored : up k = some (parent, n + 1))
      (above : Rooted up origin parent n) : Rooted up origin k (n + 1)

section
variable {up up' : K → Option (K × Nat)} {origin k a : K} {n m l : Nat}

@[simp] theorem ancestorAt_self (up : K → Option (K × Nat)) (n : Nat) (k : K) :
    ancestorAt up n k n = some k := by
  cases n <;> simp [ancestorAt]

theorem ancestorAt_above (up : K → Option (K × Nat)) (k : K) (above : n < m) :
    ancestorAt up n k m = none := by
  induction n generalizing k with
  | zero => simp [ancestorAt, Nat.ne_of_gt above]
  | succ n ih =>
    rw [ancestorAt, if_neg (by omega)]
    cases up k with
    | none => rfl
    | some found => exact ih found.1 (by omega)

theorem ancestorAt_parent {parent : K} {h : Nat} (stored : up k = some (parent, h)) (below : m ≤ n) :
    ancestorAt up (n + 1) k m = ancestorAt up n parent m := by
  rw [ancestorAt, if_neg (by omega), stored]

theorem Rooted.stored (rooted : Rooted up origin k n) : ∃ parent, up k = some (parent, n) := by
  cases rooted with
  | origin stored => exact ⟨_, stored⟩
  | child stored _ => exact ⟨_, stored⟩

theorem Rooted.exists_ancestorAt (rooted : Rooted up origin k n) (below : m ≤ n) :
    ∃ a, ancestorAt up n k m = some a ∧ Rooted up origin a m := by
  induction rooted with
  | origin stored =>
    obtain rfl : m = 0 := Nat.le_zero.mp below
    exact ⟨origin, by simp, .origin stored⟩
  | @child k parent n stored above ih =>
    rcases Nat.lt_or_ge n m with top | lower
    · obtain rfl : m = n + 1 := by omega
      exact ⟨k, by simp, .child stored above⟩
    · rw [ancestorAt_parent stored lower]
      exact ih lower

theorem Rooted.eq_origin (rooted : Rooted up origin k 0) : k = origin := by
  cases rooted
  rfl

theorem Rooted.ancestorAt_zero (rooted : Rooted up origin k n) :
    ancestorAt up n k 0 = some origin := by
  obtain ⟨a, found, base⟩ := rooted.exists_ancestorAt (Nat.zero_le n)
  rw [found, base.eq_origin]

theorem Rooted.ancestorAt_trans (rooted : Rooted up origin k n) (found : ancestorAt up n k m = some a)
    (below : l ≤ m) : ancestorAt up n k l = ancestorAt up m a l := by
  induction rooted with
  | origin stored =>
    rcases Nat.eq_zero_or_pos m with rfl | positive
    · rw [ancestorAt_self] at found
      cases found
      rfl
    · rw [ancestorAt_above up origin positive] at found
      cases found
  | @child k parent n stored above ih =>
    rcases Nat.lt_trichotomy m (n + 1) with lower | rfl | higher
    · rw [ancestorAt_parent stored (by omega)] at found ⊢
      exact ih found
    · rw [ancestorAt_self] at found
      cases found
      rfl
    · rw [ancestorAt_above up k higher] at found
      cases found

/-- A store that knows more has the same ancestors of what was rooted. -/
theorem Rooted.mono (rooted : Rooted up origin k n)
    (more : ∀ h ≤ n, ∀ a parent, Rooted up origin a h → up a = some (parent, h) →
      up' a = some (parent, h)) :
    Rooted up' origin k n ∧ ∀ m, ancestorAt up' n k m = ancestorAt up n k m := by
  induction rooted with
  | origin stored =>
    exact ⟨.origin (more 0 (le_refl 0) origin _ (.origin stored) stored), fun m => rfl⟩
  | @child k parent n stored above ih =>
    obtain ⟨rooted', same⟩ := ih fun h below => more h (by omega)
    have kept := more (n + 1) (le_refl _) k parent (.child stored above) stored
    refine ⟨.child kept rooted', fun m => ?_⟩
    rw [ancestorAt, ancestorAt, kept, stored]
    dsimp only
    rw [same m]

/-- Going up from parent to parent as far as the origin. -/
def reachesOrigin [DecidableEq K] (up : K → Option (K × Nat)) (origin : K) : Nat → K → Bool
  | 0, k => k = origin && (up k).any (·.2 = 0)
  | n + 1, k =>
    match up k with
    | none => false
    | some (parent, height) => height = n + 1 && reachesOrigin up origin n parent

theorem reachesOrigin_iff [DecidableEq K] (up : K → Option (K × Nat)) (origin : K) (n : Nat) (k : K) :
    reachesOrigin up origin n k = true ↔ Rooted up origin k n := by
  induction n generalizing k with
  | zero =>
    simp only [reachesOrigin, Bool.and_eq_true, decide_eq_true_eq, Option.any_eq_true]
    constructor
    · rintro ⟨rfl, ⟨parent, height⟩, stored, rfl⟩
      exact .origin stored
    · rintro ⟨stored⟩
      exact ⟨rfl, _, stored, rfl⟩
  | succ n ih =>
    rw [reachesOrigin]
    cases stored : up k with
    | none =>
      constructor
      · intro impossible
        cases impossible
      · rintro (_ | ⟨found, _⟩)
        rw [stored] at found
        cases found
    | some found =>
      obtain ⟨parent, height⟩ := found
      simp only [Bool.and_eq_true, decide_eq_true_eq, ih]
      constructor
      · rintro ⟨rfl, above⟩
        exact .child stored above
      · rintro (_ | ⟨found, above⟩)
        rw [stored] at found
        cases found
        exact ⟨rfl, above⟩

instance [DecidableEq K] (up : K → Option (K × Nat)) (origin k : K) (n : Nat) :
    Decidable (Rooted up origin k n) :=
  decidable_of_iff _ (reachesOrigin_iff up origin n k)

end

end Linkeye.Lib.Ancestry
