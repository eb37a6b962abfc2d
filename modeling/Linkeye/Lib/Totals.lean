import Linkeye.Lib.Maps

/-!
# Totals of finite maps

The sum of the values of a finite map with integer values.  Writing one key
changes it by the difference between the new value and the old one, an absent
key counting as zero.  For values of any type, the sum of a weight over them.
-/

set_option autoImplicit false

namespace Linkeye.Lib.Totals

open Std (ExtTreeMap)

section
variable {K : Type} [Ord K] [Std.TransOrd K]

def total (m : ExtTreeMap K Int) : Int := (m.keys.map fun k => m.getD k 0).sum

variable [DecidableEq K]

theorem total_eq_sum (m : ExtTreeMap K Int) :
    total m = ∑ k ∈ m.keys.toFinset, m.getD k 0 := by
  have nodup : m.keys.Nodup := ExtTreeMap.nodup_keys
  rw [total, List.sum_toFinset _ nodup]

variable [Std.LawfulEqOrd K]

theorem keys_insert_toFinset (m : ExtTreeMap K Int) (k : K) (v : Int) :
    (m.insert k v).keys.toFinset = insert k m.keys.toFinset := by
  ext other
  simp only [List.mem_toFinset, Finset.mem_insert, ExtTreeMap.mem_keys,
    ExtTreeMap.mem_insert, Std.compare_eq_iff_eq, @eq_comm K other k]

theorem total_eq_add_sum_erase (m : ExtTreeMap K Int) (k : K) :
    total m = m.getD k 0 + ∑ other ∈ m.keys.toFinset.erase k, m.getD other 0 := by
  rw [total_eq_sum]
  by_cases present : k ∈ m.keys.toFinset
  · exact (Finset.add_sum_erase _ (fun other => m.getD other 0) present).symm
  · have absent : k ∉ m := by
      rw [List.mem_toFinset, ExtTreeMap.mem_keys] at present
      exact present
    rw [Finset.erase_eq_of_notMem present, ExtTreeMap.getD_eq_fallback absent, zero_add]

theorem total_insert (m : ExtTreeMap K Int) (k : K) (v : Int) :
    total (m.insert k v) = total m - m.getD k 0 + v := by
  have others : ∑ other ∈ (m.insert k v).keys.toFinset.erase k, (m.insert k v).getD other 0 =
      ∑ other ∈ m.keys.toFinset.erase k, m.getD other 0 := by
    rw [keys_insert_toFinset, Finset.erase_insert_eq_erase]
    apply Finset.sum_congr rfl
    intro other member
    have different : ¬ compare k other = .eq := by
      rw [Std.compare_eq_iff_eq]
      exact (Finset.ne_of_mem_erase member).symm
    rw [ExtTreeMap.getD_insert, if_neg different]
  have written := total_eq_add_sum_erase (m.insert k v) k
  have before := total_eq_add_sum_erase m k
  rw [others, ExtTreeMap.getD_insert_self] at written
  omega

end

section
variable {K V : Type} {cmp : K → K → Ordering} [Std.TransCmp cmp] [Std.LawfulEqCmp cmp]

def weight (w : V → Nat) (m : ExtTreeMap K V cmp) : Nat :=
  (m.toList.map fun entry => w entry.2).sum

theorem nodup_toList (m : ExtTreeMap K V cmp) : m.toList.Nodup := by
  refine ExtTreeMap.distinct_keys_toList.imp ?_
  rintro first _ apart rfl
  exact apart Std.ReflCmp.compare_self

variable [DecidableEq K]

theorem toList_insert_perm (m : ExtTreeMap K V cmp) (k : K) (v : V) :
    (m.insert k v).toList.Perm ((k, v) :: (m.erase k).toList) := by
  have fresh : (k, v) ∉ (m.erase k).toList := by
    rw [ExtTreeMap.mem_toList_iff_getElem?_eq_some, ExtTreeMap.getElem?_erase_self]
    exact nofun
  rw [List.perm_ext_iff_of_nodup (nodup_toList _) (List.nodup_cons.mpr ⟨fresh, nodup_toList _⟩)]
  rintro ⟨other, u⟩
  rw [List.mem_cons, ExtTreeMap.mem_toList_iff_getElem?_eq_some,
    ExtTreeMap.mem_toList_iff_getElem?_eq_some, Maps.get_insert, Maps.get_erase]
  by_cases same : k = other
  · simp [same, eq_comm]
  · simp [same, Ne.symm same]

theorem weight_insert (w : V → Nat) (m : ExtTreeMap K V cmp) (k : K) (v : V) :
    weight w (m.insert k v) = w v + weight w (m.erase k) := by
  rw [weight, ((toList_insert_perm m k v).map _).sum_eq, List.map_cons, List.sum_cons, weight]

theorem weight_erase (w : V → Nat) (m : ExtTreeMap K V cmp) (k : K) :
    weight w m = ((m[k]?).map w).getD 0 + weight w (m.erase k) := by
  cases held : m[k]? with
  | none =>
    have absent : m.erase k = m := by
      apply ExtTreeMap.ext_getElem?
      intro other
      rw [Maps.get_erase]
      split
      · next same => rw [← same, held]
      · rfl
    rw [absent, Option.map_none, Option.getD_none, zero_add]
  | some v =>
    have inserted := weight_insert w m k v
    rwa [Maps.insert_self m held] at inserted

end

end Linkeye.Lib.Totals
