import Mathlib.Data.List.DropRight
import Mathlib.Logic.Function.Basic

/-!
# A window on the past that may change its size

The items of the past are numbered from one.  A table remembers the last of them by
number and forgets one number whenever an item is added; the size of the window may
change by one in between.
-/

set_option autoImplicit false

namespace Linkeye.Lib.Windows

section
variable {A : Type} {recent : Nat → Option A} {past : List A} {limit : Nat}

/-- The table after item `number`, or before the next one, loses what leaves the window. -/
def forget (recent : Nat → Option A) (number limit : Nat) : Nat → Option A :=
  if limit ≤ number then Function.update recent (number - limit) none else recent

/-- The table holds exactly the last `limit` items. -/
structure Exact (recent : Nat → Option A) (past : List A) (limit : Nat) : Prop where
  within : ∀ j a, recent j = some a → 0 < j ∧ past[j - 1]? = some a ∧ past.length < j + limit
  kept : ∀ j a, 0 < j → past[j - 1]? = some a → past.length < j + limit → recent j = some a

/-- The oldest of the last `limit` items may be missing. -/
structure Remembers (recent : Nat → Option A) (past : List A) (limit : Nat) : Prop where
  within : ∀ j a, recent j = some a → 0 < j ∧ past[j - 1]? = some a ∧ past.length < j + limit
  kept : ∀ j a, 0 < j → past[j - 1]? = some a → past.length + 1 < j + limit → recent j = some a

theorem forget_eq_some {number j : Nat} {a : A} :
    forget recent number limit j = some a ↔ recent j = some a ∧ j + limit ≠ number := by
  rw [forget]
  split
  · rw [Function.update_apply]
    split
    · simp only [reduceCtorEq, false_iff]
      omega
    · rw [iff_self_and]
      omega
  · rw [iff_self_and]
    omega

theorem Remembers.empty (limit : Nat) : Remembers (fun _ => none) ([] : List A) limit :=
  ⟨by simp, by simp⟩

theorem Exact.grow {wider : Nat} (exact : Exact recent past limit) (le : limit ≤ wider)
    (one : wider ≤ limit + 1) : Remembers recent past wider where
  within := by
    intro j a held
    obtain ⟨pos, own, bound⟩ := exact.within j a held
    exact ⟨pos, own, by omega⟩
  kept := by
    intro j a pos own bound
    exact exact.kept j a pos own (by omega)

theorem Exact.shrink {narrower : Nat} (exact : Exact recent past limit) (le : narrower ≤ limit)
    (one : limit ≤ narrower + 1) :
    Remembers (forget recent past.length narrower) past narrower where
  within := by
    intro j a held
    obtain ⟨held, other⟩ := forget_eq_some.mp held
    obtain ⟨pos, own, bound⟩ := exact.within j a held
    exact ⟨pos, own, by omega⟩
  kept := by
    intro j a pos own bound
    exact forget_eq_some.mpr ⟨exact.kept j a pos own (by omega), by omega⟩

/-- With the oldest gone, the table holds the items of a window smaller by one. -/
theorem Remembers.forget (remembers : Remembers recent past limit) {j : Nat} {a : A} :
    forget recent (past.length + 1) limit j = some a ↔
      0 < j ∧ past[j - 1]? = some a ∧ past.length + 1 < j + limit := by
  rw [forget_eq_some]
  constructor
  · rintro ⟨held, other⟩
    obtain ⟨pos, own, bound⟩ := remembers.within j a held
    exact ⟨pos, own, by omega⟩
  · rintro ⟨pos, own, bound⟩
    exact ⟨remembers.kept j a pos own bound, by omega⟩

theorem Remembers.exists_forget (remembers : Remembers recent past (limit + 1)) {a : A} :
    (∃ j, Windows.forget recent (past.length + 1) (limit + 1) j = some a) ↔
      a ∈ past.rtake limit := by
  simp only [remembers.forget, List.rtake, List.mem_drop_iff_getElem, List.getElem?_eq_some_iff]
  constructor
  · rintro ⟨j, pos, ⟨short, own⟩, bound⟩
    refine ⟨j - 1 - (past.length - limit), by omega, ?_⟩
    have place : past.length - limit + (j - 1 - (past.length - limit)) = j - 1 := by omega
    simp only [place, own]
  · rintro ⟨i, short, own⟩
    exact ⟨past.length - limit + i + 1, by omega, ⟨by omega, own⟩, by omega⟩

theorem Remembers.push (remembers : Remembers recent past limit) (pos : 0 < limit) (item : A) :
    Exact (Function.update (Windows.forget recent (past.length + 1) limit) (past.length + 1)
      (some item)) (past ++ [item]) limit where
  within := by
    intro j a held
    rw [Function.update_apply] at held
    split at held
    · rename_i last
      cases held
      subst last
      refine ⟨Nat.succ_pos _, by simp, ?_⟩
      rw [List.length_append, List.length_singleton]
      omega
    · obtain ⟨pos, own, bound⟩ := remembers.forget.mp held
      have short := (List.getElem?_eq_some_iff.mp own).1
      refine ⟨pos, ?_, ?_⟩
      · rw [List.getElem?_append_left short]
        exact own
      · rw [List.length_append, List.length_singleton]
        exact bound
  kept := by
    intro j a pos own bound
    rw [List.length_append, List.length_singleton] at bound
    rw [Function.update_apply]
    split
    · rename_i last
      subst last
      rw [Nat.add_sub_cancel, List.getElem?_append_right le_rfl, Nat.sub_self] at own
      exact own
    · rename_i earlier
      have short : j - 1 < past.length := by
        have inside := (List.getElem?_eq_some_iff.mp own).1
        rw [List.length_append, List.length_singleton] at inside
        omega
      rw [List.getElem?_append_left short] at own
      exact remembers.forget.mpr ⟨pos, own, bound⟩

end

end Linkeye.Lib.Windows
