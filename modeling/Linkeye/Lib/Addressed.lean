import Mathlib

/-!
# Content-addressed stores

A disk with a layer of nodes in memory before it.  Every value lies under the
key that is computed from it.  What is inserted goes to memory; a flush of its
key moves it to the disk, which never loses a value.
-/

set_option autoImplicit false

namespace Linkeye.Lib.Addressed

open Std

variable {K V : Type} [Ord K] [TransOrd K] [LawfulEqOrd K] {key : V → K}

structure Store (key : V → K) where
  nodes : ExtTreeMap K V
  disk : ExtTreeMap K V
  nodes_key : ∀ k v, nodes[k]? = some v → key v = k
  disk_key : ∀ k v, disk[k]? = some v → key v = k

namespace Store

theorem key_of_insert {m : ExtTreeMap K V} (own : ∀ k v, m[k]? = some v → key v = k)
    {k : K} {v : V} (named : key v = k) (k' : K) (v' : V) (found : (m.insert k v)[k']? = some v') :
    key v' = k' := by
  rw [ExtTreeMap.getElem?_insert] at found
  split at found
  · rename_i same
    cases found
    rw [named, compare_eq_iff_eq.mp same]
  · exact own k' v' found

def empty : Store key where
  nodes := ∅
  disk := ∅
  nodes_key := by simp
  disk_key := by simp

/-- A value that is in memory already is kept. -/
def insert (s : Store key) (v : V) : Store key :=
  if s.nodes[key v]? = none then
    { s with
      nodes := s.nodes.insert (key v) v
      nodes_key := key_of_insert s.nodes_key rfl }
  else s

/-- Moves a value from memory to the disk. -/
def flush (s : Store key) (k : K) : Store key :=
  match found : s.nodes[k]? with
  | none => s
  | some v =>
    { nodes := s.nodes.erase k
      disk := s.disk.insert k v
      nodes_key := by
        intro k' v' kept
        rw [ExtTreeMap.getElem?_erase] at kept
        split at kept
        · cases kept
        · exact s.nodes_key k' v' kept
      disk_key := key_of_insert s.disk_key (s.nodes_key k v found) }

/-- No other value of the store has the key of `v`. -/
def Alone (s : Store key) (v : V) : Prop :=
  (∀ other, s.nodes[key v]? = some other → other = v) ∧
    ∀ other, s.disk[key v]? = some other → other = v

variable {s : Store key} {v : V}

theorem nodes_insert (alone : s.Alone v) : (s.insert v).nodes[key v]? = some v := by
  rw [insert]
  cases found : s.nodes[key v]? with
  | none => exact ExtTreeMap.getElem?_insert_self
  | some other =>
    rw [alone.1 other found] at found
    exact found

theorem disk_insert : (s.insert v).disk = s.disk := by
  rw [insert]
  split
  · rfl
  · rfl

theorem disk_flush_of_node {k : K} (found : s.nodes[k]? = some v) :
    (s.flush k).disk = s.disk.insert k v := by
  rw [flush]
  split
  · rename_i missing
    rw [missing] at found
    cases found
  · rename_i other present
    rw [present] at found
    cases found
    rfl

theorem nodes_flush_of_node {k : K} (found : s.nodes[k]? = some v) :
    (s.flush k).nodes = s.nodes.erase k := by
  rw [flush]
  split
  · rename_i missing
    rw [missing] at found
    cases found
  · rfl

theorem flush_of_missing {k : K} (missing : s.nodes[k]? = none) : s.flush k = s := by
  rw [flush]
  split
  · rfl
  · rename_i other present
    rw [present] at missing
    cases missing

theorem disk_flush_of_ne {k k' : K} (different : k ≠ k') :
    (s.flush k).disk[k']? = s.disk[k']? := by
  cases found : s.nodes[k]? with
  | none => rw [flush_of_missing found]
  | some other =>
    rw [disk_flush_of_node found, ExtTreeMap.getElem?_insert, if_neg]
    exact fun same => different (compare_eq_iff_eq.mp same)

/-- The flush of a value that is on the disk already rewrites it. -/
theorem disk_flush_of_stored (alone : s.Alone v) (stored : s.disk[key v]? = some v) :
    (s.flush (key v)).disk[key v]? = some v := by
  cases found : s.nodes[key v]? with
  | none => rw [flush_of_missing found, stored]
  | some other =>
    rw [disk_flush_of_node found, alone.1 other found, ExtTreeMap.getElem?_insert_self]

theorem alone_insert (alone : s.Alone v) : (s.insert v).Alone v := by
  refine ⟨fun other found => ?_, fun other found => ?_⟩
  · rw [nodes_insert alone] at found
    exact (Option.some.inj found).symm
  · rw [disk_insert] at found
    exact alone.2 other found

theorem alone_flush (alone : s.Alone v) : (s.flush (key v)).Alone v := by
  cases held : s.nodes[key v]? with
  | none =>
    rw [flush_of_missing held]
    exact alone
  | some other =>
    obtain rfl := alone.1 other held
    refine ⟨fun found kept => ?_, fun found stored => ?_⟩
    · rw [nodes_flush_of_node held, ExtTreeMap.getElem?_erase_self] at kept
      cases kept
    · rw [disk_flush_of_node held, ExtTreeMap.getElem?_insert_self] at stored
      exact (Option.some.inj stored).symm

end Store

end Linkeye.Lib.Addressed
