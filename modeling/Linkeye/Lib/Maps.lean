import Mathlib

/-!
# Maps as functions

What the operations of a map do to its lookup function, and its values.
-/

set_option autoImplicit false

namespace Linkeye.Lib.Maps

open Std

section
variable {K V : Type} {cmp : K → K → Ordering} [TransCmp cmp]

theorem values_eq_map_toList (m : ExtTreeMap K V cmp) : m.values = m.toList.map Prod.snd := by
  obtain ⟨⟨inner⟩⟩ := m
  induction inner using Quotient.ind with
  | _ inner =>
    change inner.inner.values =
      (Std.DTreeMap.Internal.Impl.Const.toList inner.inner).map Prod.snd
    rw [Std.DTreeMap.Internal.Impl.values_eq_map_snd,
      Std.DTreeMap.Internal.Impl.Const.toList_eq_toListModel_map, List.map_map]
    rfl

variable [LawfulEqCmp cmp]

theorem mem_values_iff {m : ExtTreeMap K V cmp} {v : V} :
    v ∈ m.values ↔ ∃ k : K, m[k]? = some v := by
  rw [values_eq_map_toList, List.mem_map]
  constructor
  · rintro ⟨⟨k, _⟩, listed, rfl⟩
    exact ⟨k, ExtTreeMap.mem_toList_iff_getElem?_eq_some.mp listed⟩
  · rintro ⟨k, held⟩
    exact ⟨(k, v), ExtTreeMap.mem_toList_iff_getElem?_eq_some.mpr held, rfl⟩

variable [DecidableEq K]

section
variable (m : ExtTreeMap K V cmp)
include m

theorem get_insert (k a : K) (v : V) :
    (m.insert k v)[a]? = if k = a then some v else m[a]? := by
  simp only [ExtTreeMap.getElem?_insert, LawfulEqCmp.compare_eq_iff_eq]

theorem get_erase (k a : K) :
    (m.erase k)[a]? = if k = a then none else m[a]? := by
  simp only [ExtTreeMap.getElem?_erase, LawfulEqCmp.compare_eq_iff_eq]

theorem getD_insert (k a : K) (v fallback : V) :
    (m.insert k v).getD a fallback = if k = a then v else m.getD a fallback := by
  simp only [ExtTreeMap.getD_insert, LawfulEqCmp.compare_eq_iff_eq]

theorem getD_erase (k a : K) (fallback : V) :
    (m.erase k).getD a fallback = if k = a then fallback else m.getD a fallback := by
  simp only [ExtTreeMap.getD_erase, LawfulEqCmp.compare_eq_iff_eq]

theorem insert_self {k : K} {v : V} (held : m[k]? = some v) : m.insert k v = m := by
  apply ExtTreeMap.ext_getElem?
  intro a
  rw [get_insert]
  split
  · next same => rw [← same, held]
  · rfl

theorem insert_insert (k : K) (v w : V) : (m.insert k v).insert k w = m.insert k w := by
  apply ExtTreeMap.ext_getElem?
  intro a
  simp only [get_insert]
  split <;> rfl

theorem lookup_insert (k : K) (v : V) :
    (fun a => (m.insert k v)[a]?) = Function.update (fun a => m[a]?) k (some v) := by
  funext a
  rw [get_insert, Function.update_apply, if_congr eq_comm rfl rfl]

theorem lookup_erase (k : K) :
    (fun a => (m.erase k)[a]?) = Function.update (fun a => m[a]?) k none := by
  funext a
  rw [get_erase, Function.update_apply, if_congr eq_comm rfl rfl]

end

end

end Linkeye.Lib.Maps
