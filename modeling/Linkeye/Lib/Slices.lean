import Mathlib

/-!
# Slices with backing arrays

A heap of arrays and slices into it, as in Go: `append` writes into the array of
its first argument where the capacity allows it, so two slices may share what
one of them writes.
-/

set_option autoImplicit false

namespace Linkeye.Lib.Slices

structure Heap (α : Type) where
  arrays : List (List α)

structure Slice where
  array : Nat
  start : Nat
  len : Nat

def Slice.sub (s : Slice) (i j : Nat) : Slice := ⟨s.array, s.start + i, j - i⟩

namespace Heap
variable {α : Type}

def array (h : Heap α) (i : Nat) : List α := h.arrays.getD i []

def read (h : Heap α) (s : Slice) : List α := ((h.array s.array).drop s.start).take s.len

def cap (h : Heap α) (s : Slice) : Nat := (h.array s.array).length - s.start

def alloc (h : Heap α) (xs : List α) : Heap α × Slice :=
  (⟨h.arrays ++ [xs]⟩, ⟨h.arrays.length, 0, xs.length⟩)

def overwrite (xs : List α) (start : Nat) (ys : List α) : List α :=
  xs.take start ++ ys ++ xs.drop (start + ys.length)

def append (h : Heap α) (s t : Slice) : Heap α × Slice :=
  if s.len + t.len ≤ h.cap s then
    (⟨h.arrays.set s.array (overwrite (h.array s.array) (s.start + s.len) (h.read t))⟩,
      { s with len := s.len + t.len })
  else h.alloc (h.read s ++ h.read t)

def removeAt (h : Heap α) (s : Slice) (i : Nat) : Heap α × Slice :=
  h.append (s.sub 0 i) (s.sub (i + 1) s.len)

/-- The slice lies within an array of the heap. -/
structure Allocated (h : Heap α) (s : Slice) : Prop where
  array_lt : s.array < h.arrays.length
  bounded : s.start + s.len ≤ (h.array s.array).length

theorem length_read {h : Heap α} {s : Slice} (allocated : h.Allocated s) :
    (h.read s).length = s.len := by
  have bounded := allocated.bounded
  rw [read, List.length_take, List.length_drop]
  omega

/-! ## Allocation -/

theorem read_alloc_of_allocated {h : Heap α} {s : Slice} (xs : List α)
    (allocated : h.Allocated s) : (h.alloc xs).1.read s = h.read s := by
  rw [read, read, alloc, array, array, List.getD_append _ _ _ _ allocated.array_lt]

theorem array_alloc_self (h : Heap α) (xs : List α) :
    (h.alloc xs).1.array (h.alloc xs).2.array = xs := by
  simp [alloc, array]

theorem read_alloc_self (h : Heap α) (xs : List α) :
    (h.alloc xs).1.read (h.alloc xs).2 = xs := by
  rw [read, array_alloc_self]
  exact List.take_length

theorem allocated_alloc (h : Heap α) (xs : List α) : (h.alloc xs).1.Allocated (h.alloc xs).2 where
  array_lt := by simp [alloc]
  bounded := by
    rw [array_alloc_self]
    simp [alloc]

/-! ## Removal in place -/

section
variable {h : Heap α} {s : Slice} {i : Nat}

theorem removeAt_eq (allocated : h.Allocated s) (inside : i < s.len) :
    h.removeAt s i =
      (⟨h.arrays.set s.array
          (overwrite (h.array s.array) (s.start + i) ((h.read s).drop (i + 1)))⟩,
        ⟨s.array, s.start, s.len - 1⟩) := by
  have bounded := allocated.bounded
  have fits : (s.sub 0 i).len + (s.sub (i + 1) s.len).len ≤ h.cap (s.sub 0 i) := by
    simp only [Slice.sub, cap]
    omega
  have moved : h.read (s.sub (i + 1) s.len) = (h.read s).drop (i + 1) := by
    simp only [read, Slice.sub]
    rw [List.drop_take, List.drop_drop]
  rw [removeAt, append, if_pos fits, moved]
  simp only [Slice.sub, Nat.sub_zero, Nat.add_zero]
  have size : i + (s.len - (i + 1)) = s.len - 1 := by omega
  rw [size]

theorem array_removeAt_of_ne (allocated : h.Allocated s) (inside : i < s.len) {j : Nat}
    (other : j ≠ s.array) : (h.removeAt s i).1.array j = h.array j := by
  simp only [removeAt_eq allocated inside, array, List.getD_eq_getElem?_getD,
    List.getElem?_set_ne (Ne.symm other)]

theorem array_removeAt_self (allocated : h.Allocated s) (inside : i < s.len) :
    (h.removeAt s i).1.array s.array =
      overwrite (h.array s.array) (s.start + i) ((h.read s).drop (i + 1)) := by
  rw [removeAt_eq allocated inside, array, List.getD_eq_getElem?_getD,
    List.getElem?_set_self allocated.array_lt]
  rfl

theorem length_overwrite {xs ys : List α} {start : Nat} (fits : start + ys.length ≤ xs.length) :
    (overwrite xs start ys).length = xs.length := by
  simp only [overwrite, List.length_append, List.length_take, List.length_drop]
  omega

theorem allocated_removeAt (allocated : h.Allocated s) (inside : i < s.len) :
    (h.removeAt s i).1.Allocated (h.removeAt s i).2 := by
  have bounded := allocated.bounded
  have size := length_read allocated
  have array : (h.removeAt s i).2 = ⟨s.array, s.start, s.len - 1⟩ := by
    rw [removeAt_eq allocated inside]
  rw [array]
  constructor
  · rw [removeAt_eq allocated inside, List.length_set]
    exact allocated.array_lt
  · change _ ≤ ((h.removeAt s i).1.array s.array).length
    rw [array_removeAt_self allocated inside, length_overwrite]
    · change s.start + (s.len - 1) ≤ _
      omega
    · rw [List.length_drop, size]
      omega

theorem read_removeAt (allocated : h.Allocated s) (inside : i < s.len) :
    (h.removeAt s i).1.read (h.removeAt s i).2 = (h.read s).eraseIdx i := by
  have bounded := allocated.bounded
  have size := length_read allocated
  have slice : (h.removeAt s i).2 = ⟨s.array, s.start, s.len - 1⟩ := by
    rw [removeAt_eq allocated inside]
  have kept : ((h.array s.array).drop s.start).take i = (h.read s).take i := by
    rw [read, List.take_take, Nat.min_eq_left (Nat.le_of_lt inside)]
  rw [slice, read]
  change (((h.removeAt s i).1.array s.array).drop s.start).take (s.len - 1) = _
  rw [array_removeAt_self allocated inside, overwrite, List.append_assoc,
    List.drop_append_of_le_length (by rw [List.length_take]; omega), List.drop_take,
    Nat.add_sub_cancel_left, kept, ← List.append_assoc, List.eraseIdx_eq_take_drop_succ]
  apply List.take_left'
  rw [List.length_append, List.length_take, List.length_drop, size]
  omega

end

end Heap

end Linkeye.Lib.Slices
