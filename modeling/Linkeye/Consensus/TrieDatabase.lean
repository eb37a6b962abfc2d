import Linkeye.Dbft.Availability
import Linkeye.Lib.Addressed

/-!
# The layers of the trie database

A DPoS context in memory knows which of its tries were changed since they were
opened.  `CommitTo` writes those to the node cache of `trie/database.go`, and
flushes the roots of all five from there to the disk.  A trie is the unit:
its nodes are written and flushed together.  On the disk this comes to the same
as writing all five tries there.
-/

set_option autoImplicit false

namespace Linkeye.Consensus.TrieDatabase

open Common.Types Core.Blocks Core.Dpos Dbft.Availability Dbft.Chain Dbft Dbft.Headers
open Lib.Addressed Trie.Contents

/-- The flags of the tries of a context: a trie that is not dirty holds what was
opened, or is one that was created empty. -/
structure Marks (opened executed : DposContext) where
  dirty : TrieKind → Bool
  sound : ∀ kind, dirty kind = false →
    trieOf executed kind = trieOf opened kind ∨ trieOf executed kind = TrieMap.empty

def Marks.clean (dc : DposContext) : Marks dc dc := ⟨fun _ => false, fun _ _ => .inl rfl⟩

/-- The flags where no trie was changed and changed back. -/
def Marks.changed (opened executed : DposContext) : Marks opened executed where
  dirty kind := decide (trieOf executed kind ≠ trieOf opened kind)
  sound _ unchanged := .inl (not_not.mp (of_decide_eq_false unchanged))

/-- The trie database, one store for each kind of trie. -/
abbrev Layers (rootOf : RootOf) := (kind : TrieKind) → Store (rootOf kind)

variable {kind : TrieKind} {t : TrieMap} {p : DposContextProto}

section
variable {rootOf : RootOf}

def Layers.disk (db : Layers rootOf) : TrieDB := fun kind => (db kind).disk

/-- `CommitTo` of one trie and `Commit` of its root.  An empty trie has no node. -/
def commitTrie {kind : TrieKind} (s : Store (rootOf kind)) (t : TrieMap) (dirty : Bool) :
    Store (rootOf kind) :=
  (if dirty = true ∧ t ≠ TrieMap.empty then s.insert t else s).flush (rootOf kind t)

def Layers.commitTo (db : Layers rootOf) {opened executed : DposContext}
    (marks : Marks opened executed) : Layers rootOf :=
  fun kind => commitTrie (db kind) (trieOf executed kind) (marks.dirty kind)

theorem openTrie_root (db : Layers rootOf) {root : Hash}
    (opened : openTrie rootOf db.disk kind root = some t) :
    openTrie rootOf db.disk kind (rootOf kind t) = some t := by
  rw [openTrie] at opened
  split at opened
  · cases opened
    rw [openTrie, if_pos (.inr rfl)]
  · rename_i hard
    have own : rootOf kind t = root := (db kind).disk_key root t opened
    rw [own, openTrie, if_neg hard]
    exact opened

end

section
variable {e : Engine} {db : Layers e.rootOf} {dc opened : DposContext}

/-- No other trie in memory or on the disk has the root of this one. -/
def OwnRoots (e : Engine) (db : Layers e.rootOf) (dc : DposContext) : Prop :=
  ∀ kind, OwnRoot e db.disk kind (trieOf dc kind) ∧
    OwnRoot e (fun kind => (db kind).nodes) kind (trieOf dc kind)

theorem OwnRoots.alone (own : OwnRoots e db dc) (kind : TrieKind) :
    (db kind).Alone (trieOf dc kind) :=
  ⟨(own kind).2.known, (own kind).1.known⟩

theorem OwnRoots.commitTo (own : OwnRoots e db dc) (marks : Marks opened dc) :
    OwnRoots e (db.commitTo marks) dc := by
  intro kind
  have alone : (commitTrie (db kind) (trieOf dc kind) (marks.dirty kind)).Alone
      (trieOf dc kind) := by
    rw [commitTrie]
    apply Store.alone_flush
    split
    · exact Store.alone_insert (own.alone kind)
    · exact own.alone kind
  obtain ⟨nonzero, empty, _⟩ := (own kind).1
  exact ⟨⟨nonzero, empty, alone.2⟩, ⟨nonzero, empty, alone.1⟩⟩

theorem commitTrie_self {dirty : Bool} {s : Store (e.rootOf kind)} (alone : s.Alone t)
    (nonempty : t ≠ TrieMap.empty) (stored : dirty = false → s.disk[e.rootOf kind t]? = some t) :
    (commitTrie s t dirty).disk[e.rootOf kind t]? = some t := by
  rw [commitTrie]
  cases dirty with
  | true =>
    rw [if_pos ⟨rfl, nonempty⟩, Store.disk_flush_of_node (Store.nodes_insert alone),
      Store.disk_insert]
    exact Std.ExtTreeMap.getElem?_insert_self
  | false =>
    rw [if_neg (fun changed => Bool.false_ne_true changed.1)]
    exact Store.disk_flush_of_stored alone (stored rfl)

/-- Through the layers `CommitTo` does to the disk what `commitTo` says. -/
theorem openTrie_commitTo (own : OwnRoots e db dc) (marks : Marks opened dc)
    (onDisk : newDposContextFromProto e.rootOf db.disk p = some opened) (kind : TrieKind)
    (root : Hash) :
    openTrie e.rootOf (Layers.disk (db.commitTo marks)) kind root =
      openTrie e.rootOf (Headers.commitTo e.rootOf db.disk dc) kind root := by
  rw [openTrie, openTrie]
  by_cases easy : root = FixedBytes.zero 32 ∨ root = e.rootOf kind TrieMap.empty
  · rw [if_pos easy, if_pos easy]
  · rw [if_neg easy, if_neg easy]
    change (commitTrie (db kind) (trieOf dc kind) (marks.dirty kind)).disk[root]? =
      ((db kind).disk.insert (e.rootOf kind (trieOf dc kind)) (trieOf dc kind))[root]?
    by_cases self : e.rootOf kind (trieOf dc kind) = root
    · subst self
      have nonempty : trieOf dc kind ≠ TrieMap.empty := by
        intro empty
        exact easy (.inr (congrArg (e.rootOf kind) empty))
      rw [Std.ExtTreeMap.getElem?_insert_self]
      apply commitTrie_self (own.alone kind) nonempty
      -- A trie that is not dirty was read from the disk.
      intro unchanged
      have same := (marks.sound kind unchanged).resolve_right nonempty
      have read := openTrie_root db (newDposContextFromProto_eq_some_iff.mp onDisk kind)
      rw [← same, openTrie, if_neg easy] at read
      exact read
    · rw [commitTrie, Store.disk_flush_of_ne self, Lib.Maps.get_insert, if_neg self]
      split
      · rw [Store.disk_insert]
      · rfl

/-- What was committed through the layers is there to be opened. -/
theorem fromProto_committed (own : OwnRoots e db dc) (marks : Marks opened dc)
    (onDisk : newDposContextFromProto e.rootOf db.disk p = some opened) :
    newDposContextFromProto e.rootOf (Layers.disk (db.commitTo marks)) (toProto e.rootOf dc) =
      some dc := by
  simp only [newDposContextFromProto, openTrie_commitTo own marks onDisk]
  exact fromProto_commitTo_self fun kind => (own kind).1

/-- A context with roots of its own is the only one they open. -/
theorem eq_of_fromProto {after : DposContext} (own : OwnRoots e db dc)
    (read : newDposContextFromProto e.rootOf db.disk (toProto e.rootOf dc) = some after) :
    after = dc := by
  have tries (kind : TrieKind) : trieOf after kind = trieOf dc kind := by
    have found := newDposContextFromProto_eq_some_iff.mp read kind
    rw [rootIn_toProto, openTrie] at found
    split at found
    · rename_i easy
      have empty := (own kind).1.empty (easy.resolve_left (own kind).1.nonzero)
      rw [empty]
      exact (Option.some.inj found).symm
    · exact (own kind).1.known _ found
  cases after
  cases dc
  rw [DposContext.mk.injEq]
  exact ⟨tries .epoch, tries .delegate, tries .vote, tries .candidate, tries .mintCnt⟩

end

end Linkeye.Consensus.TrieDatabase
