import Linkeye.Common.Types

/-!
# Tries by their contents

A complete trie (every node can be resolved) as the finite map it stores.  Keys
are those the caller passes, without the prefix that `NewTrieWithPrefix` puts in
front of each of them.  Nodes are persistent, so an iterator goes on seeing the
contents it was made from while the trie changes.
-/

set_option autoImplicit false

namespace Linkeye.Trie.Contents

open Std Common.Types

/-- An update with an empty value deletes, so no empty value is ever stored. -/
structure TrieMap where
  entries : ExtTreeMap Bytes Bytes
  nonempty : ∀ key value : Bytes, entries[key]? = some value → value ≠ []
deriving DecidableEq

variable {t : TrieMap} {key value : Bytes}

namespace TrieMap

def empty : TrieMap where
  entries := ∅
  nonempty := by simp

def tryGet (t : TrieMap) (key : Bytes) : Option Bytes := t.entries[key]?

def tryDelete (t : TrieMap) (key : Bytes) : TrieMap where
  entries := t.entries.erase key
  nonempty := by
    intro other value found
    rw [ExtTreeMap.getElem?_erase] at found
    split at found
    · cases found
    · exact t.nonempty other value found

def tryUpdate (t : TrieMap) (key value : Bytes) : TrieMap :=
  if stored : value ≠ [] then
    { entries := t.entries.insert key value
      nonempty := by
        intro other found member
        rw [ExtTreeMap.getElem?_insert] at member
        split at member
        · cases member
          exact stored
        · exact t.nonempty other found member }
  else t.tryDelete key

/-- All entries in byte order, which is the order of the nodes for keys of one length. -/
def nodeIterator (t : TrieMap) : List (Bytes × Bytes) := t.entries.toList

def prefixIterator (t : TrieMap) (start : Bytes) : List (Bytes × Bytes) :=
  t.nodeIterator.filter fun entry => start.isPrefixOf entry.1

def size (t : TrieMap) : Nat := t.entries.size

@[simp] theorem tryGet_empty (key : Bytes) : empty.tryGet key = none := by
  simp [tryGet, empty]

theorem ext_tryGet {t' : TrieMap} (same : ∀ key, t.tryGet key = t'.tryGet key) : t = t' := by
  obtain ⟨entries, _⟩ := t
  obtain ⟨entries', _⟩ := t'
  have equal : entries = entries' := ExtTreeMap.ext_getElem? same
  cases equal
  rfl

theorem distinct_nodeIterator (t : TrieMap) : (t.nodeIterator.map Prod.fst).Nodup := by
  rw [nodeIterator, ExtTreeMap.map_fst_toList_eq_keys]
  exact ExtTreeMap.nodup_keys

theorem tryGet_tryDelete (t : TrieMap) (key other : Bytes) :
    (t.tryDelete key).tryGet other = if key = other then none else t.tryGet other := by
  simp only [tryGet, tryDelete, Lib.Maps.get_erase]

theorem tryGet_of_tryDelete {other : Bytes} (stored : (t.tryDelete key).tryGet other = some value) :
    t.tryGet other = some value := by
  rw [tryGet_tryDelete] at stored
  by_cases gone : key = other
  · rw [if_pos gone] at stored
    cases stored
  · rw [if_neg gone] at stored
    exact stored

theorem tryGet_tryUpdate (t : TrieMap) (stored : value ≠ []) (other : Bytes) :
    (t.tryUpdate key value).tryGet other = if key = other then some value else t.tryGet other := by
  simp only [tryGet, tryUpdate, stored, ne_eq, not_false_eq_true, dite_true,
    Lib.Maps.get_insert]

theorem tryUpdate_eq_iff (stored : value ≠ []) :
    t.tryUpdate key value = t ↔ t.tryGet key = some value := by
  constructor
  · intro same
    rw [← same, tryGet_tryUpdate t stored, if_pos rfl]
  · intro present
    apply ext_tryGet
    intro other
    rw [tryGet_tryUpdate t stored]
    split
    · rename_i own
      rw [← own, present]
    · rfl

theorem tryDelete_eq_iff :
    t.tryDelete key = t ↔ t.tryGet key = none := by
  constructor
  · intro same
    rw [← same, tryGet_tryDelete, if_pos rfl]
  · intro absent
    apply ext_tryGet
    intro other
    rw [tryGet_tryDelete]
    split
    · rename_i own
      rw [← own, absent]
    · rfl

/-- A deletion and an update cancel if both leave what is there. -/
theorem tryUpdate_tryDelete_eq_iff {removed : Bytes} (stored : value ≠ []) :
    (t.tryDelete removed).tryUpdate key value = t ↔
      t.tryGet key = some value ∧ (removed = key ∨ t.tryGet removed = none) := by
  have reads (other : Bytes) : ((t.tryDelete removed).tryUpdate key value).tryGet other =
      if key = other then some value else if removed = other then none else t.tryGet other := by
    rw [tryGet_tryUpdate _ stored, tryGet_tryDelete]
  constructor
  · intro same
    refine ⟨?_, ?_⟩
    · rw [← same, reads, if_pos rfl]
    · by_cases own : removed = key
      · exact .inl own
      · right
        rw [← same, reads, if_neg (Ne.symm own), if_pos rfl]
  · rintro ⟨present, gone⟩
    apply ext_tryGet
    intro other
    rw [reads]
    split
    · rename_i own
      rw [← own, present]
    · rename_i different
      split
      · rename_i deleted
        rcases gone with own | absent
        · exact absurd (own.symm.trans deleted) different
        · rw [← deleted, absent]
      · rfl

theorem mem_nodeIterator :
    (key, value) ∈ t.nodeIterator ↔ t.tryGet key = some value :=
  ExtTreeMap.mem_toList_iff_getElem?_eq_some

theorem mem_prefixIterator {start : Bytes} :
    (key, value) ∈ t.prefixIterator start ↔ t.tryGet key = some value ∧ start <+: key := by
  rw [prefixIterator, List.mem_filter, mem_nodeIterator, List.isPrefixOf_iff_prefix]

theorem contains_entries (t : TrieMap) (key : Bytes) :
    t.entries.contains key = (t.tryGet key).isSome :=
  ExtTreeMap.contains_eq_isSome_getElem?

theorem size_tryDelete_of_present (present : t.tryGet key = some value) :
    (t.tryDelete key).size + 1 = t.size := by
  have contained : t.entries.contains key = true := by rw [contains_entries, present]; rfl
  have positive : t.entries.size ≠ 0 := by
    intro zero
    rw [ExtTreeMap.eq_empty_iff_size_eq_zero.mpr zero] at contained
    simp at contained
  simp only [size, tryDelete, ExtTreeMap.size_erase, contained, if_true]
  omega

theorem size_tryUpdate_of_absent (stored : value ≠ []) (absent : t.tryGet key = none) :
    (t.tryUpdate key value).size = t.size + 1 := by
  have missing : t.entries.contains key = false := by rw [contains_entries, absent]; rfl
  simp [size, tryUpdate, stored, ExtTreeMap.size_insert, missing]

theorem size_tryUpdate_of_present {old : Bytes} (stored : value ≠ [])
    (present : t.tryGet key = some old) : (t.tryUpdate key value).size = t.size := by
  have contained : t.entries.contains key = true := by rw [contains_entries, present]; rfl
  simp [size, tryUpdate, stored, ExtTreeMap.size_insert, contained]

end TrieMap

end Linkeye.Trie.Contents
