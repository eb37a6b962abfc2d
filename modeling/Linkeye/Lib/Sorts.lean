import Mathlib

/-!
# Sorts that need not be stable

An unstable sort is any function that returns a sorted permutation.  On a list
whose members an order tells apart, all of them agree, whatever the order the
members came in.
-/

set_option autoImplicit false

namespace Linkeye.Lib.Sorts

/-- A sorting procedure for the order `r`, without a promise about ties. -/
structure Sorting {α : Type} (r : α → α → Prop) where
  sort : List α → List α
  perm : ∀ l, (sort l).Perm l
  pairwise : ∀ l, (sort l).Pairwise r

section
variable {α : Type} {r : α → α → Prop}

def Sorting.insertion (r : α → α → Prop) [DecidableRel r] [Std.Total r] [IsTrans α r] :
    Sorting r where
  sort := List.insertionSort r
  perm := List.perm_insertionSort r
  pairwise := List.pairwise_insertionSort r

theorem Sorting.mem_sort (s : Sorting r) {l : List α} {a : α} : a ∈ s.sort l ↔ a ∈ l :=
  (s.perm l).mem_iff

/-- Two sorts agree on two arrangements of one list without ties. -/
theorem Sorting.sort_eq (s t : Sorting r) {l l' : List α} (arranged : l.Perm l')
    (antisymm : ∀ a ∈ l, ∀ b ∈ l, r a b → r b a → a = b) : s.sort l = t.sort l' := by
  have same : (s.sort l).Perm (t.sort l') :=
    ((s.perm l).trans arranged).trans (t.perm l').symm
  refine List.Perm.eq_of_pairwise ?_ (s.pairwise l) (t.pairwise l') same
  intro a b left right
  have rightMember : b ∈ l := arranged.mem_iff.mpr (t.mem_sort.mp right)
  exact antisymm a (s.mem_sort.mp left) b rightMember

end

end Linkeye.Lib.Sorts
