import Linkeye.Core.StateMoves

/-!
# Going back to a snapshot

`RevertToSnapshot` shows the state of the snapshot again, and `IntermediateRoot` then
gives the root that it would have given at the snapshot.  This needs that no deleted
object is still in the account trie: `Finalise(true)` deletes an empty account and
`Commit(false)` writes it again, and a state that has seen both shows such an account
after going back, though it did not before.
-/

set_option autoImplicit false

namespace Linkeye.Core.ExactUndo

open Std Common.Types
open Journaling (bump drop ripemd)
open Rewind (getD_bump getD_drop)
open StateObjects StateMoves Lib.Runs Lib.Maps

/-! ## Dirty counts -/

def dirtying (entries : List JournalEntry) (a : Address) : Nat :=
  entries.countP fun entry => decide (entry.dirtied = some a)

theorem dirtying_cons (entry : JournalEntry) (older : List JournalEntry) (a : Address) :
    dirtying (entry :: older) a = dirtying older a + if entry.dirtied = some a then 1 else 0 := by
  simp only [dirtying, List.countP_cons, decide_eq_true_eq]

variable {older : List JournalEntry}

theorem dirtying_mono {entry : JournalEntry} {a : Address}
    (positive : 0 < dirtying older a) : 0 < dirtying (entry :: older) a := by
  rw [dirtying_cons]
  exact Nat.lt_of_lt_of_le positive (Nat.le_add_right _ _)

section
variable {dirties : ExtTreeMap Address Nat} {a b : Address}

/-- A count that is kept is positive. -/
def Positive (dirties : ExtTreeMap Address Nat) : Prop :=
  ∀ a : Address, dirties[a]? ≠ some 0

theorem Positive.bump (positive : Positive dirties) (a : Address) : Positive (bump dirties a) := by
  intro b
  rw [Journaling.bump, ExtTreeMap.getElem?_insert]
  split
  · simp
  · exact positive b

theorem Positive.drop (positive : Positive dirties) (a : Address) : Positive (drop dirties a) := by
  intro b
  rw [Journaling.drop]
  split
  · rw [ExtTreeMap.getElem?_erase]
    split
    · simp
    · exact positive b
  · rename_i more
    rw [ExtTreeMap.getElem?_insert]
    split
    · simpa using more
    · exact positive b

theorem getElem?_drop_of_ne (different : a ≠ b) : (drop dirties a)[b]? = dirties[b]? := by
  rw [drop]
  split
  · rw [get_erase, if_neg different]
  · rw [get_insert, if_neg different]

theorem Positive.getElem?_eq {dirties' : ExtTreeMap Address Nat} (positive : Positive dirties)
    (positive' : Positive dirties') (same : dirties'.getD a 0 = dirties.getD a 0) :
    dirties'[a]? = dirties[a]? := by
  have left := positive a
  have right := positive' a
  rw [ExtTreeMap.getD_eq_getD_getElem?, ExtTreeMap.getD_eq_getD_getElem?] at same
  cases found : dirties[a]? <;> cases found' : dirties'[a]? <;> simp_all

theorem Positive.mem_keys_iff (positive : Positive dirties) :
    a ∈ dirties.keys ↔ 0 < dirties.getD a 0 := by
  have kept := positive a
  rw [ExtTreeMap.mem_keys, ExtTreeMap.mem_iff_isSome_getElem?,
    ExtTreeMap.getD_eq_getD_getElem?]
  cases count : dirties[a]? with
  | none => simp
  | some n =>
    rw [count] at kept
    have nonzero : n ≠ 0 := fun zero => kept (congrArg some zero)
    simpa using Nat.pos_of_ne_zero nonzero

end

/-! ## What every call keeps -/

/-- An account that was created while it was dirty is in no trie. -/
def Based (trie : Accounts) : List JournalEntry → Prop
  | [] => True
  | entry :: older =>
    (∀ a, entry = .createObjectChange a → a ≠ ripemd → 0 < dirtying older a →
      trie[a]? = none) ∧ Based trie older

def AllCoherent (s : StateDB) : Prop :=
  ∀ (a : Address) obj, s.stateObjects[a]? = some obj → Coherent obj

structure Tidy (s : StateDB) : Prop where
  coherent : AllCoherent s
  prevs : ∀ a prev, .resetObjectChange a prev ∈ s.journal.entries →
    Coherent prev ∧ prev.deleted = false
  count : ∀ a, a ≠ ripemd → s.journal.dirties.getD a 0 = dirtying s.journal.entries a
  positive : Positive s.journal.dirties
  marked : ∀ a, a ≠ ripemd → 0 < dirtying s.journal.entries a →
    (∃ obj, s.stateObjects[a]? = some obj ∧ obj.deleted = false) ∨
      (s.stateObjects[a]? = none ∧ s.trie[a]? = none)
  based : Based s.trie s.journal.entries

section
variable {s t : StateDB} {a : Address} {obj : StateObject}

theorem AllCoherent.setStateObject (all : AllCoherent s) (coherent : Coherent obj) :
    AllCoherent (s.setStateObject a obj) :=
  forall_setStateObject s all coherent

theorem AllCoherent.lookup (all : AllCoherent s) (found : lookup s a = some obj) :
    Coherent obj := by
  obtain ⟨_, held | ⟨data, _, _, rfl⟩⟩ := lookup_eq_some s found
  · exact all a obj held
  · exact .newObject data

/-- With an empty journal, coherent objects are all it takes. -/
theorem tidy_of_coherent (all : AllCoherent s) (empty : s.journal = newJournal) : Tidy s := by
  refine ⟨all, ?_, ?_, ?_, ?_, ?_⟩
  all_goals rw [empty]
  · intro a prev member
    cases member
  · intro a _
    simp [newJournal, dirtying]
  · intro a
    simp [newJournal]
  · intro a _ positive
    cases positive
  · trivial

end

section
variable {lethal : Prop} {target : Option Address} {s t : StateDB} {a : Address}
  {obj : StateObject}

theorem Tidy.setStateObject (tidy : Tidy s) (coherent : Coherent obj)
    (live : obj.deleted = false) : Tidy (s.setStateObject a obj) where
  __ := tidy
  coherent := tidy.coherent.setStateObject coherent
  marked := by
    intro b ordinary positive
    by_cases same : a = b
    · subst same
      exact .inl ⟨obj, held_setStateObject s obj, live⟩
    · rw [held_setStateObject_of_ne s same]
      exact tidy.marked b ordinary positive

theorem subject_of_dirtied {entry : JournalEntry} (dirtied : entry.dirtied = some a) :
    subject entry = some a := by
  cases entry <;> first | exact dirtied | cases dirtied

/-- An entry about the object that is put into memory with it. -/
theorem Tidy.entry {entry : JournalEntry} (tidy : Tidy s) (about : subject entry = some a)
    (coherent : Coherent obj) (live : obj.deleted = false)
    (prevs : ∀ b prev, entry = .resetObjectChange b prev →
      Coherent prev ∧ prev.deleted = false)
    (created : entry = .createObjectChange a → lookup s a = none) :
    Tidy ((s.append entry).setStateObject a obj) where
  coherent := tidy.coherent.setStateObject coherent
  prevs := by
    intro b prev member
    rcases List.mem_cons.mp member with rfl | old
    · exact prevs b prev rfl
    · exact tidy.prevs b prev old
  count := by
    intro b ordinary
    change ExtTreeMap.getD (s.journal.append entry).dirties b 0 =
      dirtying (entry :: s.journal.entries) b
    rw [dirtying_cons, ← tidy.count b ordinary, Journal.append]
    cases entry.dirtied with
    | none => simp
    | some c => simp only [getD_bump, Option.some.injEq]
  positive := by
    change Positive (s.journal.append entry).dirties
    rw [Journal.append]
    cases entry.dirtied with
    | none => exact tidy.positive
    | some c => exact tidy.positive.bump c
  marked := by
    intro b ordinary positive
    by_cases same : a = b
    · subst same
      exact .inl ⟨obj, held_setStateObject _ obj, live⟩
    · have other : entry.dirtied ≠ some b := by
        intro dirtied
        exact same (Option.some.inj (about.symm.trans (subject_of_dirtied dirtied)))
      change 0 < dirtying (entry :: s.journal.entries) b at positive
      rw [dirtying_cons, if_neg other, Nat.add_zero] at positive
      rw [held_setStateObject_of_ne _ same]
      exact tidy.marked b ordinary positive
  based := by
    refine ⟨?_, tidy.based⟩
    rintro b rfl ordinary positive
    cases about
    have absent := created rfl
    -- an account that is dirty and not found is neither in memory nor in the trie
    rcases tidy.marked a ordinary positive with ⟨old, held, live⟩ | ⟨_, stored⟩
    · rw [lookup_of_held s held live] at absent
      cases absent
    · exact stored

theorem Tidy.note (entry : JournalEntry) (tidy : Tidy s) (about : subject entry = none)
    (objects : t.stateObjects = s.stateObjects) (trie : t.trie = s.trie)
    (journal : t.journal = s.journal.append entry) : Tidy t := by
  have clean : entry.dirtied = none := by
    cases entry <;> first | rfl | cases about
  have same : t.journal = ⟨entry :: s.journal.entries, s.journal.dirties⟩ := by
    rw [journal, Journal.append, clean]
  have counts (b : Address) : dirtying (entry :: s.journal.entries) b =
      dirtying s.journal.entries b := by
    rw [dirtying_cons, clean]
    simp
  refine ⟨?_, ?_, ?_, ?_, ?_, ?_⟩
  · intro b obj held
    rw [objects] at held
    exact tidy.coherent b obj held
  · intro b prev member
    rw [same] at member
    rcases List.mem_cons.mp member with rfl | old
    · cases about
    · exact tidy.prevs b prev old
  · intro b ordinary
    rw [same, counts]
    exact tidy.count b ordinary
  · rw [same]
    exact tidy.positive
  · intro b ordinary positive
    rw [same, counts] at positive
    rw [objects, trie]
    exact tidy.marked b ordinary positive
  · rw [same, trie]
    refine ⟨?_, tidy.based⟩
    rintro b rfl
    cases about

theorem tidy_move (tidy : Tidy s) (move : Move lethal target s t) : Tidy t := by
  cases move with
  | load absent stored => exact tidy.setStateObject (.newObject _) rfl
  | refresh held live refreshed =>
    exact tidy.setStateObject ((tidy.coherent _ _ held).refreshed refreshed)
      (refreshed.deleted.trans live)
  | create absent =>
    exact tidy.entry rfl (.newObject _) rfl (by simp) fun _ => absent
  | reset held live =>
    refine tidy.entry rfl ((Coherent.newObject .fresh).congr rfl rfl rfl) rfl ?_ (by simp)
    intro b prev same
    cases same
    exact ⟨tidy.coherent _ _ held, live⟩
  | change held live changed =>
    have coherent := tidy.coherent _ _ held
    cases changed with
    | suicide | balance | nonce | code =>
      exact tidy.entry rfl (coherent.congr rfl rfl rfl) live (by simp) (by simp)
    | storage cached value =>
      exact tidy.entry rfl (coherent.setState _ value) live (by simp) (by simp)
    | touch => exact tidy.entry rfl coherent live (by simp) (by simp)
  | mark held =>
    refine { tidy with count := ?_, positive := tidy.positive.bump ripemd }
    intro b ordinary
    change (bump s.journal.dirties ripemd).getD b 0 = _
    rw [getD_bump, if_neg (Ne.symm ordinary), Nat.add_zero]
    exact tidy.count b ordinary
  | refund gas => exact tidy.note (.refundChange s.refund) rfl rfl rfl rfl
  | log log => exact tidy.note (.addLogChange s.thash) rfl rfl rfl rfl
  | @preimage _ hash absent preimage =>
    exact tidy.note (.addPreimageChange hash) rfl rfl rfl rfl
  | prepare thash txIndex =>
    exact { tidy with }

theorem tidy_moves (tidy : Tidy s) (moves : Moves lethal target s t) : Tidy t := by
  induction moves with
  | refl => exact tidy
  | tail _ move ih => exact tidy_move ih move

end

variable {revid : Nat} {deleteEmptyObjects : Bool} {err : Option DbError} {order : List Address}
  {outcome : Except DbError Accounts} {c : Call}

section
variable {s t u : StateDB} {entry : JournalEntry} {older : List JournalEntry}

/-- One round of undoing: the entry that was the newest, and what it did. -/
theorem undoOne_eq_some : s.undoOne = some t ↔
    ∃ entry older u, s.journal.entries = entry :: older ∧ s.undo entry = some u ∧
      t = u.forget entry older := by
  rw [StateDB.undoOne]
  cases s.journal.entries with
  | nil => simp
  | cons entry older => simp [eq_comm]

theorem Tidy.forget (tidy : Tidy s) (entries : s.journal.entries = entry :: older)
    (frame : UndoFrame entry s u) (coherent : AllCoherent u)
    (marked : ∀ a, a ≠ ripemd → subject entry = some a → 0 < dirtying older a →
      (∃ obj, u.stateObjects[a]? = some obj ∧ obj.deleted = false) ∨
        (u.stateObjects[a]? = none ∧ u.trie[a]? = none)) : Tidy (u.forget entry older) where
  coherent := coherent
  prevs := by
    intro a prev member
    apply tidy.prevs a prev
    rw [entries]
    exact List.mem_cons_of_mem _ member
  count := by
    intro a ordinary
    have before := tidy.count a ordinary
    rw [entries, dirtying_cons] at before
    rw [StateDB.forget, frame.journal]
    cases dirtied : entry.dirtied with
    | none =>
      rw [dirtied] at before
      simpa using before
    | some b =>
      rw [dirtied] at before
      simp only [getD_drop, Option.some.injEq] at before ⊢
      omega
  positive := by
    rw [StateDB.forget, frame.journal]
    cases entry.dirtied with
    | none => exact tidy.positive
    | some b => exact tidy.positive.drop b
  marked := by
    intro a ordinary positive
    by_cases about : subject entry = some a
    · exact marked a ordinary about positive
    · have still := tidy.marked a ordinary (by rw [entries]; exact dirtying_mono positive)
      rw [← frame.objects a about, ← frame.trie] at still
      exact still
  based := by
    have based := tidy.based
    rw [entries] at based
    rw [StateDB.forget]
    rw [frame.trie]
    exact based.2

theorem tidy_undoOne (tidy : Tidy s) (undone : s.undoOne = some t) : Tidy t := by
  obtain ⟨entry, older, u, entries, step, rfl⟩ := undoOne_eq_some.mp undone
  have frame := undo_frame step
  obtain ⟨a, rfl, rfl⟩ | ⟨a, prev, rfl, rfl⟩ | ⟨a, set, obj, about, found, rfl⟩ |
    ⟨_, _, _, _, _, rfl⟩ := undo_cases step
  · refine tidy.forget entries frame (forall_erase s tidy.coherent) ?_
    intro b ordinary about positive
    cases about
    have based := tidy.based
    rw [entries] at based
    exact .inr ⟨ExtTreeMap.getElem?_erase_self, based.1 a rfl ordinary positive⟩
  · obtain ⟨coherent, live⟩ := tidy.prevs a prev (by rw [entries]; exact List.mem_cons_self)
    refine tidy.forget entries frame (tidy.coherent.setStateObject coherent) ?_
    intro b _ about _
    cases about
    exact .inl ⟨prev, held_setStateObject s prev, live⟩
  · have coherent := (tidy.coherent.lookup found).adjusted about
    refine tidy.forget entries frame (tidy.coherent.setStateObject coherent) ?_
    intro b _ same _
    rw [(subject_of_adjustment about).1] at same
    cases same
    refine .inl ⟨set obj, held_setStateObject s _, ?_⟩
    rw [deleted_of_adjustment about, (lookup_eq_some s found).1]
  · refine tidy.forget entries frame tidy.coherent ?_
    intro b ordinary _ positive
    exact tidy.marked b ordinary (by rw [entries]; exact dirtying_mono positive)

/-- What undoing one entry keeps, undoing many keeps. -/
theorem undoMany_keeps (kept : StateDB → Prop)
    (one : ∀ {s t}, kept s → s.undoOne = some t → kept t) {n : Nat} (holds : kept s)
    (undone : s.undoMany n = some t) : kept t := by
  induction n generalizing s with
  | zero =>
    cases undone
    exact holds
  | succ n ih =>
    obtain ⟨u, first, rest⟩ := Option.bind_eq_some_iff.mp undone
    exact ih (one holds first) rest

/-- A revert that returns found its revision and undid the entries above it. -/
theorem revertToSnapshot_eq_some :
    s.revertToSnapshot revid = some t ↔
      ∃ rev u, s.revisions.valid[s.revisions.search revid]? = some rev ∧ rev.id = revid ∧
        s.undoMany (s.journal.entries.length - rev.journalIndex) = some u ∧
        t = { u with revisions := s.revisions.cut (s.revisions.search revid) } := by
  rw [StateDB.revertToSnapshot]
  cases s.revisions.valid[s.revisions.search revid]? with
  | none => simp
  | some rev =>
    by_cases same : rev.id = revid
    · simp [same, eq_comm]
    · simp [same]

theorem tidy_revertToSnapshot (tidy : Tidy s) (reverted : s.revertToSnapshot revid = some t) :
    Tidy t := by
  obtain ⟨rev, u, _, _, undone, rfl⟩ := revertToSnapshot_eq_some.mp reverted
  have kept := undoMany_keeps Tidy tidy_undoOne tidy undone
  exact { kept with }

end

section
variable {s t : StateDB} {a : Address} {obj : StateObject}

/-- What `Finalise` keeps for one object it keeps for all. -/
theorem finaliseAll_keeps (kept : StateDB → Prop)
    (one : ∀ s a t, kept s → s.finaliseOne deleteEmptyObjects a = some t → kept t)
    (order : List Address) (holds : kept s)
    (done : order.foldlM (StateDB.finaliseOne deleteEmptyObjects) s = some t) : kept t := by
  induction order generalizing s with
  | nil =>
    cases done
    exact holds
  | cons a rest ih =>
    obtain ⟨u, first, others⟩ := Option.bind_eq_some_iff.mp done
    exact ih (one s a u holds first) others

/-- What `Commit` keeps for one object it keeps for all, also where it fails. -/
theorem commitAll_keeps (kept : StateDB → Prop)
    (one : ∀ s a t err, kept s → s.commitOne deleteEmptyObjects a = some (t, err) → kept t)
    (order : List Address) (holds : kept s)
    (done : StateDB.commitAll deleteEmptyObjects order s = some (t, err)) : kept t := by
  induction order generalizing s with
  | nil =>
    cases done
    exact holds
  | cons a rest ih =>
    rw [StateDB.commitAll] at done
    cases first : s.commitOne deleteEmptyObjects a with
    | none =>
      rw [first] at done
      cases done
    | some result =>
      obtain ⟨u, failed⟩ := result
      rw [first] at done
      have after := one s a u failed holds first
      cases failed with
      | some problem =>
        cases done
        exact after
      | none => exact ih after done

/-- The state after `Commit`, whether it failed or not. -/
theorem commit_cases (done : s.commit deleteEmptyObjects order = some (t, outcome)) :
    ∃ u err db, StateDB.commitAll deleteEmptyObjects order s.markDirty = some (u, err) ∧
      t = StateDB.clearJournalAndRefund { u with db := db } := by
  rw [StateDB.commit] at done
  split at done
  · cases done
  · rename_i u err committed
    cases done
    exact ⟨u, some err, u.db, committed, rfl⟩
  · rename_i u committed
    cases done
    exact ⟨u, none, _, committed, rfl⟩

theorem coherent_deleteStateObject (all : AllCoherent s) (held : s.stateObjects[a]? = some obj) :
    AllCoherent (s.deleteStateObject a obj) := by
  have coherent := all a obj held
  have deleted : AllCoherent (s.setStateObject a { obj with deleted := true }) :=
    all.setStateObject (coherent.congr rfl rfl rfl)
  exact deleted

/-- The written account of an object, and the object, over a trie that has it. -/
theorem updateStateObject_eq_some (updated : s.updateStateObject a obj = some t) :
    t = { s.setStateObject a obj with trie := s.trie.insert a obj.data } := by
  rw [StateDB.updateStateObject] at updated
  split at updated
  · cases updated
  · exact (Option.some.inj updated).symm

theorem coherent_updateStateObject (all : AllCoherent s) (coherent : Coherent obj)
    (updated : s.updateStateObject a obj = some t) : AllCoherent t := by
  rw [updateStateObject_eq_some updated]
  have written : AllCoherent (s.setStateObject a obj) := all.setStateObject coherent
  exact written

theorem coherent_finaliseOne (all : AllCoherent s)
    (done : s.finaliseOne deleteEmptyObjects a = some t) : AllCoherent t := by
  rw [StateDB.finaliseOne] at done
  cases held : s.stateObjects[a]? with
  | none =>
    rw [held] at done
    cases done
    exact all
  | some obj =>
    rw [held] at done
    obtain ⟨u, ended, rfl⟩ := Option.map_eq_some_iff.mp done
    have coherent : AllCoherent u := by
      split at ended
      · cases ended
        exact coherent_deleteStateObject all held
      · exact coherent_updateStateObject all (all a obj held).updateRoot ended
    exact coherent

theorem tidy_finalise (tidy : Tidy s) (done : s.finalise deleteEmptyObjects = some t) : Tidy t := by
  obtain ⟨u, folded, rfl⟩ := Option.map_eq_some_iff.mp done
  have coherent : AllCoherent u :=
    finaliseAll_keeps AllCoherent (fun _ _ _ => coherent_finaliseOne) _ tidy.coherent folded
  exact tidy_of_coherent coherent rfl

theorem coherent_writeCode (all : AllCoherent s) (coherent : Coherent obj) :
    AllCoherent (s.writeCode obj).1 ∧ Coherent (s.writeCode obj).2 := by
  rw [StateDB.writeCode]
  cases obj.code with
  | none => exact ⟨all, coherent⟩
  | some code =>
    dsimp only
    split
    · exact ⟨all, coherent.congr rfl rfl rfl⟩
    · exact ⟨all, coherent⟩

theorem coherent_writeObject (all : AllCoherent s) (coherent : Coherent obj)
    (done : s.writeObject a obj = some (t, err)) : AllCoherent t := by
  obtain ⟨failure, updated, _⟩ := updateTrie_fst s.db obj
  have flushed : Coherent (obj.updateTrie s.db).1 := by
    rw [updated]
    exact coherent.flushed rfl rfl rfl
  rw [StateDB.writeObject] at done
  cases failed : (obj.updateTrie s.db).1.dbErr with
  | some problem =>
    rw [failed] at done
    cases done
    exact all.setStateObject flushed
  | none =>
    rw [failed] at done
    obtain ⟨u, written, same⟩ := Option.map_eq_some_iff.mp done
    cases same
    refine coherent_updateStateObject ?_ ?_ written
    · exact all
    · exact flushed.congr rfl rfl rfl

theorem coherent_commitOne (all : AllCoherent s)
    (done : s.commitOne deleteEmptyObjects a = some (t, err)) : AllCoherent t := by
  rw [StateDB.commitOne] at done
  cases held : s.stateObjects[a]? with
  | none =>
    rw [held] at done
    cases done
    exact all
  | some obj =>
    rw [held] at done
    dsimp only at done
    split at done
    · cases done
      exact coherent_deleteStateObject all held
    · split at done
      · obtain ⟨⟨u, failed⟩, written, same⟩ := Option.map_eq_some_iff.mp done
        obtain ⟨allCoded, coded⟩ := coherent_writeCode all (all a obj held)
        have coherent := coherent_writeObject allCoded coded written
        cases failed with
        | some | none =>
          cases same
          exact coherent
      · cases done
        exact all

theorem tidy_commit (tidy : Tidy s) (done : s.commit deleteEmptyObjects order = some (t, outcome)) :
    Tidy t := by
  obtain ⟨u, err, db, committed, rfl⟩ := commit_cases done
  have coherent : AllCoherent u :=
    commitAll_keeps (s := s.markDirty) AllCoherent (fun _ _ _ _ => coherent_commitOne) order
      tidy.coherent committed
  exact tidy_of_coherent coherent rfl

theorem tidy_copy (done : s.copy = some t) : Tidy t := by
  rw [StateDB.copy] at done
  split at done
  · cases done
    refine tidy_of_coherent ?_ rfl
    intro a obj held
    rw [ExtTreeMap.getElem?_map] at held
    obtain ⟨old, _, rfl⟩ := Option.map_eq_some_iff.mp held
    exact .deepCopy old
  · cases done

theorem tidy_empty (none : s.stateObjects = ∅) (empty : s.journal = newJournal) : Tidy s := by
  refine tidy_of_coherent ?_ empty
  intro a obj held
  simp [none] at held

theorem tidy_call (tidy : Tidy s) (done : s.call c = some t) : Tidy t := by
  by_cases plain : Plain c
  · exact tidy_moves tidy (moves_of_call plain done fun _ => trivial)
  · cases c with
    | snapshot =>
      cases done
      exact { tidy with }
    | revertToSnapshot revid => exact tidy_revertToSnapshot tidy done
    | finalise deleteEmptyObjects => exact tidy_finalise tidy done
    | commit deleteEmptyObjects order =>
      rw [StateDB.call] at done
      split at done
      · obtain ⟨⟨u, outcome⟩, committed, rfl⟩ := Option.map_eq_some_iff.mp done
        exact tidy_commit tidy committed
      · cases done
    | copy => exact tidy_copy done
    | reset root =>
      obtain ⟨tr, _, rfl⟩ := Option.map_eq_some_iff.mp done
      exact tidy_empty rfl rfl
    | _ => exact absurd trivial plain

end

/-! ## The states of a state database -/

def machine : System StateDB Call where
  init := fun s => ∃ root db, StateDB.new root db = some s
  enabled := fun s c => (s.call c).isSome = true
  next := fun s c => (s.call c).getD s

theorem tidy_of_reachable {s : StateDB} {condition : StateDB → Call → Prop}
    (reached : Reachable machine condition s) : Tidy s := by
  refine reached.invariant Tidy ?_ ?_
  · rintro s ⟨root, db, opened⟩
    obtain ⟨tr, _, rfl⟩ := Option.map_eq_some_iff.mp opened
    exact tidy_empty rfl rfl
  · intro s c tidy enabled _
    obtain ⟨t, done⟩ := Option.isSome_iff_exists.mp enabled
    change Tidy ((s.call c).getD s)
    rw [done]
    exact tidy_call tidy done

/-! ## The account that is left aside -/

/-- Nothing was done to `ripemd`, and no entry is about it. -/
structure Aside (new : List JournalEntry) (s t : StateDB) : Prop where
  objects : t.stateObjects[ripemd]? = s.stateObjects[ripemd]?
  dirties : t.journal.dirties[ripemd]? = s.journal.dirties[ripemd]?
  apart : ∀ entry ∈ new, subject entry ≠ some ripemd

section
variable {lethal : Prop} {target : Option Address} {r s t : StateDB}

theorem dirties_append {entry : JournalEntry} (apart : subject entry ≠ some ripemd) :
    (s.append entry).journal.dirties[ripemd]? = s.journal.dirties[ripemd]? := by
  have clean := mt subject_of_dirtied apart
  rw [StateDB.append, Journal.append]
  cases dirtied : entry.dirtied with
  | none => rfl
  | some a =>
    rw [dirtied] at clean
    change (bump s.journal.dirties a)[ripemd]? = _
    rw [bump, get_insert, if_neg fun same => clean (congrArg some same)]

/-- A move about another account: the entries that it leaves are about that account. -/
theorem aside_move (other : target ≠ some ripemd) (move : Move lethal target s t) :
    ∃ new, t.journal.entries = new ++ s.journal.entries ∧ Aside new s t := by
  cases move with
  | @load _ a data absent stored | @refresh _ a obj obj' held live refreshed =>
    exact ⟨[], rfl, held_setStateObject_of_ne s (fun same => other (congrArg some same)) _, rfl,
      by simp⟩
  | @create _ a absent =>
    exact ⟨[.createObjectChange a], rfl,
      held_setStateObject_of_ne _ (fun same => other (congrArg some same)) _,
      dirties_append other, List.forall_mem_singleton.mpr other⟩
  | @reset _ a prev held live =>
    exact ⟨[.resetObjectChange a prev], rfl,
      held_setStateObject_of_ne _ (fun same => other (congrArg some same)) _,
      dirties_append other, List.forall_mem_singleton.mpr other⟩
  | @change _ a obj obj' entry held live changed =>
    have about : subject entry = some a := by
      cases changed <;> rfl
    have apart : subject entry ≠ some ripemd := by
      rw [about]
      exact other
    exact ⟨[entry], rfl, held_setStateObject_of_ne _ (fun same => other (congrArg some same)) _,
      dirties_append apart, List.forall_mem_singleton.mpr apart⟩
  | mark held => exact absurd rfl other
  | refund gas => exact ⟨[.refundChange s.refund], rfl, rfl, rfl, List.forall_mem_singleton.mpr nofun⟩
  | log log => exact ⟨[.addLogChange s.thash], rfl, rfl, rfl, List.forall_mem_singleton.mpr nofun⟩
  | @preimage _ hash absent preimage =>
    exact ⟨[.addPreimageChange hash], rfl, rfl, rfl, List.forall_mem_singleton.mpr nofun⟩
  | prepare thash txIndex => exact ⟨[], rfl, rfl, rfl, by simp⟩

theorem Aside.trans {new newer : List JournalEntry} (first : Aside new r s)
    (second : Aside newer s t) : Aside (newer ++ new) r t where
  objects := second.objects.trans first.objects
  dirties := second.dirties.trans first.dirties
  apart := List.forall_mem_append.mpr ⟨second.apart, first.apart⟩

/-- Moves about another account lead on from a state and back to it. -/
theorem since_aside_moves (gone : Gone s) (other : target ≠ some ripemd)
    (moves : Moves lethal target s t) : ∃ new, Since new s t ∧ Aside new s t := by
  induction moves with
  | refl => exact ⟨[], .refl gone, rfl, rfl, by simp⟩
  | tail _ move ih =>
    obtain ⟨new, since, aside⟩ := ih
    obtain ⟨newest, last⟩ := since_move since.gone move
    obtain ⟨newest', entries, lastAside⟩ := aside_move other move
    have same : newest' = newest := List.append_cancel_right (entries.symm.trans last.entries)
    rw [same] at lastAside
    exact ⟨newest ++ new, since.trans last, aside.trans lastAside⟩

/-- Undoing the newest entry, which is about another account. -/
theorem Aside.undoOne {entry : JournalEntry} {t' : StateDB}
    (aside : Aside (entry :: older) s t) (since : Since (entry :: older) s t)
    (undone : t.undoOne = some t') : Aside older s t' := by
  obtain ⟨newest, rest, u, entries, step, rfl⟩ := undoOne_eq_some.mp undone
  rw [since.entries, List.cons_append] at entries
  obtain ⟨rfl, rfl⟩ := List.cons.inj entries
  have frame := undo_frame step
  have apart := aside.apart entry List.mem_cons_self
  refine ⟨(frame.objects ripemd apart).trans aside.objects, ?_, ?_⟩
  · rw [← aside.dirties, StateDB.forget, frame.journal]
    cases dirtied : entry.dirtied with
    | none => rfl
    | some a =>
      refine getElem?_drop_of_ne fun same => apart (subject_of_dirtied ?_)
      rw [dirtied, same]
  · intro other member
    exact aside.apart other (List.mem_cons_of_mem _ member)

end

/-! ## From the snapshot on -/

section
variable {s t : StateDB}

/-- The newer entries are undone one by one. -/
theorem undoMany_since {newer : List JournalEntry} (since : Since (newer ++ older) s t)
    (aside : Aside (newer ++ older) s t) :
    ∃ u, t.undoMany newer.length = some u ∧ Since older s u ∧ Aside older s u ∧
      u.revisions = t.revisions := by
  induction newer generalizing t with
  | nil => exact ⟨t, rfl, since, aside, rfl⟩
  | cons entry rest ih =>
    obtain ⟨t', one, since', same⟩ := Since.undoOne since
    obtain ⟨u, many, left, apart, revisions⟩ := ih since' (aside.undoOne since one)
    refine ⟨u, ?_, left, apart, revisions.trans same⟩
    rw [List.length_cons, StateDB.undoMany, one]
    exact many

end

section
variable {revs : Revisions} {before after : List Revision} {rev : Revision}

theorem search_eq (valid : revs.valid = before ++ rev :: after) :
    revs.search rev.id = before.length := by
  have increasing := revs.increasing
  rw [valid, List.pairwise_append] at increasing
  have smaller (r : Revision) (member : r ∈ before) : ¬ rev.id ≤ r.id :=
    Nat.not_le.mpr (increasing.2.2 r member rev List.mem_cons_self)
  rw [Revisions.search, valid, List.findIdx_append]
  have none : before.findIdx (fun r => decide (rev.id ≤ r.id)) = before.length := by
    rw [List.findIdx_eq_length]
    intro r member
    exact decide_eq_false (smaller r member)
  rw [none, if_neg (Nat.lt_irrefl _), List.findIdx_cons]
  simp

end

/-- What holds from the snapshot of `s` on: the entries since then lead back to it, and
later revisions lie between. -/
structure Within (s t : StateDB) (new : List JournalEntry) (later : List Revision) : Prop where
  tidy : Tidy t
  since : Since new s t
  aside : Aside new s t
  valid : t.revisions.valid =
    s.revisions.valid ++ ⟨s.revisions.next, s.journal.entries.length⟩ :: later
  ids : ∀ rev ∈ later, s.revisions.next < rev.id
  above : ∀ rev ∈ later, s.journal.entries.length ≤ rev.journalIndex
  below : ∀ rev ∈ later, rev.journalIndex ≤ t.journal.entries.length
  ordered : later.Pairwise fun rev rev' => rev.journalIndex ≤ rev'.journalIndex
  next : s.revisions.next < t.revisions.next

/-- The calls between a snapshot and the return to it: no account is finalised, and a
revert goes to a later snapshot. -/
def Nested (id : Nat) : Call → Prop
  | .snapshot => True
  | .revertToSnapshot revid => id < revid
  | c => Plain c ∧ callAddress c ≠ some ripemd

section
variable {s t u : StateDB} {new : List JournalEntry} {later : List Revision}

theorem within_snapshot (tidy : Tidy s) (gone : Gone s) : Within s s.snapshot.1 [] [] where
  tidy := { tidy with }
  since := (Since.refl gone).withRevisions _
  aside := ⟨rfl, rfl, by simp⟩
  valid := rfl
  ids := by simp
  above := by simp
  below := by simp
  ordered := .nil
  next := Nat.lt_succ_self _

theorem revisions_moves {lethal : Prop} {target : Option Address}
    (moves : Moves lethal target s t) : t.revisions = s.revisions := by
  induction moves with
  | refl => rfl
  | tail _ move ih =>
    rw [← ih]
    cases move <;> rfl

section
variable (within : Within s t new later)
include within

theorem Within.moves {lethal : Prop} {target : Option Address}
    (other : target ≠ some ripemd) (moves : Moves lethal target t u) :
    ∃ new', Within s u new' later := by
  obtain ⟨newest, since, aside⟩ := since_aside_moves within.since.gone other moves
  have revisions := revisions_moves moves
  refine ⟨newest ++ new, tidy_moves within.tidy moves, within.since.trans since,
    within.aside.trans aside, ?_, within.ids, within.above, ?_, within.ordered, ?_⟩
  · rw [revisions, within.valid]
  · intro rev member
    rw [since.entries, List.length_append]
    exact Nat.le_add_left_of_le (within.below rev member)
  · rw [revisions]
    exact within.next

theorem Within.snapshot :
    Within s t.snapshot.1 new (later ++ [⟨t.revisions.next, t.journal.entries.length⟩]) where
  tidy := { within.tidy with }
  since := within.since.withRevisions _
  aside := { within.aside with }
  valid := by
    change t.revisions.valid ++ _ = _
    rw [within.valid, List.append_assoc, List.cons_append]
  ids := List.forall_mem_append.mpr ⟨within.ids, List.forall_mem_singleton.mpr within.next⟩
  above := by
    refine List.forall_mem_append.mpr ⟨within.above, List.forall_mem_singleton.mpr ?_⟩
    rw [within.since.entries, List.length_append]
    exact Nat.le_add_left _ _
  below := List.forall_mem_append.mpr ⟨within.below, List.forall_mem_singleton.mpr (Nat.le_refl _)⟩
  ordered := by
    rw [List.pairwise_append]
    refine ⟨within.ordered, List.pairwise_singleton _ _, ?_⟩
    intro rev member rev' new
    rw [List.mem_singleton.mp new]
    exact within.below rev member
  next := Nat.lt_succ_of_lt within.next

/-- The entries above an index that lies after the snapshot can be undone. -/
theorem Within.undoMany {index : Nat}
    (above : s.journal.entries.length ≤ index) (below : index ≤ t.journal.entries.length) :
    ∃ older u, t.undoMany (t.journal.entries.length - index) = some u ∧ Since older s u ∧
      Aside older s u ∧ u.journal.entries.length = index ∧ u.revisions = t.revisions := by
  have length : t.journal.entries.length = new.length + s.journal.entries.length := by
    rw [within.since.entries, List.length_append]
  have since := within.since
  have aside := within.aside
  rw [← List.take_append_drop (t.journal.entries.length - index) new] at since aside
  obtain ⟨u, many, left, apart, revisions⟩ := undoMany_since since aside
  rw [List.length_take, Nat.min_eq_left (by omega)] at many
  refine ⟨_, u, many, left, apart, ?_, revisions⟩
  rw [left.entries, List.length_append, List.length_drop]
  omega

/-- A revert to a later snapshot stays after the snapshot. -/
theorem Within.revertToSnapshot (after : s.revisions.next < revid)
    (reverted : t.revertToSnapshot revid = some u) :
    ∃ new' later', Within s u new' later' := by
  have tidy := tidy_revertToSnapshot within.tidy reverted
  obtain ⟨rev, u', found, rfl, undone, rfl⟩ := revertToSnapshot_eq_some.mp reverted
  -- the revision that was found stands among the later ones
  obtain ⟨before, rest, split⟩ : ∃ before rest, later = before ++ rev :: rest := by
    have member := List.mem_of_getElem? found
    rw [within.valid] at member
    rcases List.mem_append.mp member with old | new
    · have := s.revisions.below rev old
      omega
    · rcases List.mem_cons.mp new with rfl | inLater
      · exact absurd after (Nat.lt_irrefl _)
      · exact List.append_of_mem inLater
  have inLater : rev ∈ later := by
    rw [split]
    exact List.mem_append_right _ List.mem_cons_self
  obtain ⟨older, v, many, since, aside, length, revisions⟩ :=
    within.undoMany (within.above rev inLater) (within.below rev inLater)
  cases undone.symm.trans many
  have valid : t.revisions.valid = (s.revisions.valid ++
      ⟨s.revisions.next, s.journal.entries.length⟩ :: before) ++ rev :: rest := by
    rw [within.valid, split, List.append_assoc, List.cons_append]
  have ordered := within.ordered
  rw [split, List.pairwise_append] at ordered
  have kept (r : Revision) (member : r ∈ before) : r ∈ later := by
    rw [split]
    exact List.mem_append_left _ member
  refine ⟨older, before, tidy, since.withRevisions _, { aside with }, ?_, ?_, ?_, ?_, ordered.1,
    ?_⟩
  · rw [search_eq valid, Revisions.cut]
    dsimp only
    rw [valid, List.take_left]
  · exact fun r member => within.ids r (kept r member)
  · exact fun r member => within.above r (kept r member)
  · intro r member
    rw [length]
    exact ordered.2.2 r member rev List.mem_cons_self
  · exact within.next

theorem Within.call (nested : Nested s.revisions.next c)
    (done : t.call c = some u) : ∃ new' later', Within s u new' later' := by
  have plainly (plain : Plain c) (other : callAddress c ≠ some ripemd) :
      ∃ new' later', Within s u new' later' := by
    obtain ⟨new', after⟩ := within.moves other (moves_of_call plain done fun _ => trivial)
    exact ⟨new', later, after⟩
  cases c with
  | snapshot =>
    cases done
    exact ⟨_, _, within.snapshot⟩
  | revertToSnapshot revid => exact within.revertToSnapshot nested done
  | finalise | commit | copy | reset => cases nested.1
  | _ => exact plainly nested.1 nested.2

theorem Within.run {calls : List Call}
    (nested : ∀ c ∈ calls, Nested s.revisions.next c)
    (done : calls.foldlM StateDB.call t = some u) : ∃ new' later', Within s u new' later' := by
  induction calls generalizing t new later with
  | nil =>
    cases done
    exact ⟨new, later, within⟩
  | cons c rest ih =>
    obtain ⟨t', first, others⟩ := Option.bind_eq_some_iff.mp done
    obtain ⟨new', later', after⟩ := within.call (nested c List.mem_cons_self) first
    exact ih after (fun c member => nested c (List.mem_cons_of_mem _ member)) others

theorem Within.back :
    ∃ u, t.revertToSnapshot s.revisions.next = some u ∧ Since [] s u ∧ Aside [] s u := by
  have length : s.journal.entries.length ≤ t.journal.entries.length := by
    rw [within.since.entries, List.length_append]
    exact Nat.le_add_left _ _
  obtain ⟨older, u, many, since, aside, same, _⟩ := within.undoMany (Nat.le_refl _) length
  have none : older = [] := by
    rw [since.entries, List.length_append] at same
    exact List.eq_nil_of_length_eq_zero (by omega)
  rw [none] at since aside
  refine ⟨{ u with revisions := t.revisions.cut (t.revisions.search s.revisions.next) },
    revertToSnapshot_eq_some.mpr
      ⟨⟨s.revisions.next, s.journal.entries.length⟩, u, ?_, rfl, many, rfl⟩,
    since.withRevisions _, { aside with }⟩
  rw [search_eq within.valid, within.valid, List.getElem?_append_right (Nat.le_refl _)]
  simp

end

end

/-! ## The root -/

/-- Two objects that `Finalise(false)` writes alike. -/
def WrittenAlike (db : Database) : Option StateObject → Option StateObject → Prop
  | none, none => True
  | some obj, some obj' =>
    obj'.suicided = obj.suicided ∧ (obj'.updateRoot db).data = (obj.updateRoot db).data
  | _, _ => False

theorem WrittenAlike.refl (db : Database) (obj : Option StateObject) : WrittenAlike db obj obj := by
  cases obj with
  | none => trivial
  | some obj => exact ⟨rfl, rfl⟩

theorem writtenAlike_of_view {db : Database} {obj obj' : StateObject} (coherent : Coherent obj)
    (coherent' : Coherent obj') (same : view db obj' = view db obj) :
    WrittenAlike db (some obj) (some obj') := by
  have storage : slot db obj' = slot db obj := congrArg View.storage same
  have nonce : obj'.data.nonce = obj.data.nonce := congrArg View.nonce same
  have balance : obj'.data.balance = obj.data.balance := congrArg View.balance same
  have codeHash : obj'.data.codeHash = obj.data.codeHash := congrArg View.codeHash same
  refine ⟨congrArg View.suicided same, ?_⟩
  obtain ⟨err, updated, _⟩ := updateRoot_eq db obj
  obtain ⟨err', updated', _⟩ := updateRoot_eq db obj'
  have trie : (obj'.updateTrie db).2 = (obj.updateTrie db).2 := by
    apply Storage.ext_get
    intro key
    rw [get_updateTrie coherent, get_updateTrie coherent', storage]
  rw [updated, updated']
  dsimp only
  rw [trie, nonce, balance, codeHash]

section
variable {s u : StateDB} {a : Address}

/-- One object is written alike in both states, or in neither. -/
theorem finaliseOne_alike (db : u.db = s.db) (trie : u.trie = s.trie)
    (alike : WrittenAlike s.db s.stateObjects[a]? u.stateObjects[a]?) :
    (s.finaliseOne false a = none ∧ u.finaliseOne false a = none) ∨
      ∃ s' u', s.finaliseOne false a = some s' ∧ u.finaliseOne false a = some u' ∧
        s'.db = s.db ∧ u'.db = s.db ∧ u'.trie = s'.trie ∧
        ∀ b, a ≠ b → s'.stateObjects[b]? = s.stateObjects[b]? ∧
          u'.stateObjects[b]? = u.stateObjects[b]? := by
  rw [StateDB.finaliseOne, StateDB.finaliseOne]
  cases held : s.stateObjects[a]? with
  | none =>
    cases held' : u.stateObjects[a]? with
    | none => exact .inr ⟨s, u, rfl, rfl, rfl, db, trie, fun _ _ => ⟨rfl, rfl⟩⟩
    | some obj' =>
      rw [held, held'] at alike
      cases alike
  | some obj =>
    cases held' : u.stateObjects[a]? with
    | none =>
      rw [held, held'] at alike
      cases alike
    | some obj' =>
      rw [held, held'] at alike
      obtain ⟨suicided, data⟩ := alike
      have kept {t : StateDB} {o : StateObject} (b : Address) (other : a ≠ b) :
          (t.setStateObject a o).stateObjects[b]? = t.stateObjects[b]? :=
        held_setStateObject_of_ne t other o
      simp only [Bool.false_eq_true, false_and, or_false, suicided]
      by_cases dead : obj.suicided = true
      · rw [if_pos dead, if_pos dead]
        refine .inr ⟨_, _, rfl, rfl, rfl, db, ?_, fun b other => ⟨kept b other, kept b other⟩⟩
        exact congrArg (fun tr : Accounts => tr.erase a) trie
      · rw [if_neg dead, if_neg dead, StateDB.updateStateObject, StateDB.updateStateObject, db,
          data]
        by_cases negative : (obj.updateRoot s.db).data.balance < 0
        · rw [if_pos negative, if_pos negative]
          exact .inl ⟨rfl, rfl⟩
        · rw [if_neg negative, if_neg negative]
          refine .inr ⟨_, _, rfl, rfl, rfl, db, ?_,
            fun b other => ⟨kept b other, kept b other⟩⟩
          exact congrArg (fun tr : Accounts => tr.insert a _) trie

/-- The tries agree after all dirty objects are written. -/
theorem finalised_alike (distinct : order.Nodup) (db : u.db = s.db) (trie : u.trie = s.trie)
    (alike : ∀ a ∈ order, WrittenAlike s.db s.stateObjects[a]? u.stateObjects[a]?) :
    (order.foldlM (StateDB.finaliseOne false) u).map StateDB.trie =
      (order.foldlM (StateDB.finaliseOne false) s).map StateDB.trie := by
  induction order generalizing s u with
  | nil => exact congrArg some trie
  | cons a rest ih =>
    obtain ⟨fresh, others⟩ := List.nodup_cons.mp distinct
    rw [List.foldlM_cons, List.foldlM_cons]
    obtain ⟨left, right⟩ | ⟨s', u', left, right, db', db'', trie', kept⟩ :=
      finaliseOne_alike db trie (alike a List.mem_cons_self)
    · rw [left, right]
    · rw [left, right]
      refine ih others (db''.trans db'.symm) trie' ?_
      intro b member
      have other : a ≠ b := by
        rintro rfl
        exact fresh member
      rw [(kept b other).1, (kept b other).2, db']
      exact alike b (List.mem_cons_of_mem _ member)

/-- An account with a mark is shown by its object, or is not there. -/
theorem Tidy.account (tidy : Tidy s) (ordinary : a ≠ ripemd)
    (positive : 0 < dirtying s.journal.entries a) :
    (observed s).account a = s.stateObjects[a]?.map (view s.db) := by
  rcases tidy.marked a ordinary positive with ⟨obj, held, live⟩ | ⟨absent, stored⟩
  · rw [account_of_held s held live, held, Option.map_some]
  · rw [observed]
    dsimp only
    rw [lookup_eq, absent, stored]
    rfl

theorem root_eq (s : StateDB) :
    (s.intermediateRoot false).map Prod.snd =
      (s.journal.dirties.keys.foldlM (StateDB.finaliseOne false) s).map StateDB.trie := by
  rw [StateDB.intermediateRoot, StateDB.finalise, Option.map_map, Option.map_map]
  rfl

/-- After the return the same accounts are dirty, and they are written alike. -/
theorem root_alike (tidy : Tidy s) (tidy' : Tidy u) (since : Since [] s u)
    (aside : Aside [] s u) :
    (u.intermediateRoot false).map Prod.snd = (s.intermediateRoot false).map Prod.snd := by
  have entries : u.journal.entries = s.journal.entries := since.entries
  have shown : observed u = observed s := Option.some.inj since.shown
  have dirties : u.journal.dirties = s.journal.dirties := by
    apply ExtTreeMap.ext_getElem?
    intro a
    by_cases special : a = ripemd
    · rw [special]
      exact aside.dirties
    · apply tidy.positive.getElem?_eq tidy'.positive
      rw [tidy.count a special, tidy'.count a special, entries]
  rw [root_eq, root_eq, dirties]
  apply finalised_alike ExtTreeMap.nodup_keys since.db since.trie
  intro a member
  by_cases special : a = ripemd
  · rw [special, aside.objects]
    exact .refl _ _
  have positive : 0 < dirtying s.journal.entries a := by
    rw [← tidy.count a special]
    exact tidy.positive.mem_keys_iff.mp member
  have account := congrFun (congrArg Observed.account shown) a
  rw [tidy.account special positive, tidy'.account special (entries ▸ positive), since.db] at account
  cases held : s.stateObjects[a]? <;> cases held' : u.stateObjects[a]? <;> rw [held, held'] at account
  · trivial
  · cases account
  · cases account
  · exact writtenAlike_of_view (tidy.coherent a _ held) (tidy'.coherent a _ held')
      (Option.some.inj account)

end

/-! ## Exact undo -/

/-- Whatever is called between a snapshot and the return to it, every getter answers
again as at the snapshot, and the root is the one that the snapshot had. -/
theorem revertToSnapshot_restores {s t : StateDB} (reached : Reachable machine (fun _ _ => True) s)
    (gone : Gone s) {calls : List Call} (nested : ∀ c ∈ calls, Nested s.snapshot.2 c)
    (ran : calls.foldlM StateDB.call s.snapshot.1 = some t) :
    ∃ u, t.revertToSnapshot s.snapshot.2 = some u ∧
      (∀ q, (u.query q).2 = (s.query q).2) ∧
      (u.intermediateRoot false).map Prod.snd = (s.intermediateRoot false).map Prod.snd := by
  have tidy := tidy_of_reachable reached
  obtain ⟨new, later, within⟩ := (within_snapshot tidy gone).run nested ran
  obtain ⟨u, reverted, since, aside⟩ := within.back
  have shown : observed u = observed s := Option.some.inj since.shown
  refine ⟨u, reverted, ?_, ?_⟩
  · intro q
    rw [query_snd, query_snd, shown]
  · exact root_alike tidy (tidy_revertToSnapshot within.tidy reverted) since aside

def contract : Address := bytesToAddress [9]

def contractTrie : Accounts := (∅ : Accounts).insert contract ⟨1, 5, .empty, [96]⟩

def contractDb : Database := ⟨[contractTrie], [], [[96]]⟩

/-- The contract is changed, reset and destroyed, with a snapshot on the way. -/
def contractCalls : List Call :=
  [.setNonce contract 7, .setState contract (bytesToHash [1]) (bytesToHash [2]), .snapshot,
    .setCode contract (some [1, 2]), .suicide contract, .createAccount contract,
    .revertToSnapshot 1, .addPreimage (bytesToHash [3]) [4], .addBalance contract (-2)]

theorem revertToSnapshot_restores_contract :
    ∃ t u, contractCalls.foldlM StateDB.call (StateDB.opened contractDb contractTrie).snapshot.1 =
        some t ∧
      t.revertToSnapshot 0 = some u ∧
      (u.query (.code contract)).2 = [96] ∧
      (u.query (.nonce contract)).2 = ((StateDB.opened contractDb contractTrie).query
        (.nonce contract)).2 := by
  have ran : (contractCalls.foldlM StateDB.call
      (StateDB.opened contractDb contractTrie).snapshot.1).isSome = true := by decide +kernel
  obtain ⟨t, ran⟩ := Option.isSome_iff_exists.mp ran
  have reached : Reachable machine (fun _ _ => True) (StateDB.opened contractDb contractTrie) := by
    refine .init ⟨contractTrie, contractDb, ?_⟩
    rw [StateDB.new, Database.openTrie, if_pos (.inr List.mem_cons_self)]
    rfl
  have nested : ∀ c ∈ contractCalls, Nested 0 c := by
    simp [contractCalls, Nested, Plain, callAddress]
    decide
  obtain ⟨u, reverted, answers, _⟩ := revertToSnapshot_restores reached
    (fun a obj held => by simp [StateDB.opened] at held) nested ran
  refine ⟨t, u, ran, reverted, ?_, answers _⟩
  rw [answers]
  decide +kernel

def ghost : Address := bytesToAddress [8]

/-- `AddBalance` of nothing makes the account, `Finalise(true)` deletes it, and
`Commit(false)` writes it to the trie all the same. -/
def ghostCalls : List Call :=
  [.addBalance ghost 0, .finalise true, .commit false [ghost]]

/-- The account does not exist at the snapshot.  It exists after a transfer to it is
undone: undoing the creation takes the deleted object away, and the trie has one. -/
theorem ghost_returns :
    ∃ s t u, (StateDB.new ∅ ⟨[], [], []⟩).bind (ghostCalls.foldlM StateDB.call) = some s ∧
      s.snapshot.1.call (.addBalance ghost 1) = some t ∧
      t.revertToSnapshot s.snapshot.2 = some u ∧
      (s.query (.exist ghost)).2 = false ∧ (u.query (.exist ghost)).2 = true := by
  have seen : (do
      let s ← (StateDB.new ∅ ⟨[], [], []⟩).bind (ghostCalls.foldlM StateDB.call)
      let t ← s.snapshot.1.call (.addBalance ghost 1)
      let u ← t.revertToSnapshot s.snapshot.2
      pure ((s.query (.exist ghost)).2, (u.query (.exist ghost)).2)) = some (false, true) := by
    decide +kernel
  obtain ⟨s, ran, seen⟩ := Option.bind_eq_some_iff.mp seen
  obtain ⟨t, moved, seen⟩ := Option.bind_eq_some_iff.mp seen
  obtain ⟨u, reverted, seen⟩ := Option.bind_eq_some_iff.mp seen
  obtain ⟨before, after⟩ := Prod.mk.inj (Option.some.inj seen)
  exact ⟨s, t, u, ran, moved, reverted, before, after⟩

end Linkeye.Core.ExactUndo
