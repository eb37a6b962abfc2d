import Linkeye.Core.Journaling

/-!
# Going back in the state database

Whatever a program has done to the state database, going back to a snapshot
gives the state at that snapshot again, as far as any call can see: the objects,
the refund counter, the logs and the dirty marks.  One thing stays: the mark of
`ripemd`, once for each time it was touched.
-/

set_option autoImplicit false

namespace Linkeye.Core.Rewind

open Std Common.Types Journaling
open StateProcessor (Log)
open Lib.Programs Lib.Maps

section
variable (dirties : ExtTreeMap Address Nat) (a b : Address)

theorem getD_bump : (bump dirties a).getD b 0 = dirties.getD b 0 + if a = b then 1 else 0 := by
  rw [bump, getD_insert]
  split
  · next same => rw [same]
  · rfl

theorem getD_drop : (drop dirties a).getD b 0 = dirties.getD b 0 - if a = b then 1 else 0 := by
  rw [drop]
  by_cases same : a = b
  · subst same
    rw [if_pos rfl]
    split
    · rename_i zero
      rw [ExtTreeMap.getD_erase_self, zero]
    · rw [ExtTreeMap.getD_insert_self]
  · rw [if_neg same, Nat.sub_zero]
    split
    · rw [getD_erase, if_neg same]
    · rw [getD_insert, if_neg same]

end

/-! ## Objects as they are looked up -/

def lookup (s : StateDB) (a : Address) : Option StateObject := (s.getStateObject a).2

def count (s : StateDB) (a : Address) : Nat := s.journal.dirties.getD a 0

variable {obj : StateObject} {set : StateObject → StateObject} {new : List JournalEntry}
  {marks : Nat} {entry : JournalEntry}

section
variable (s : StateDB) (a b : Address)

theorem lookup_eq :
    lookup s a =
      match s.stateObjects[a]? with
      | some obj => if obj.deleted = true then none else some obj
      | none => s.trie[a]?.map .newObject := by
  rw [lookup, StateDB.getStateObject]
  cases s.stateObjects[a]? with
  | some obj => rfl
  | none => cases s.trie[a]? <;> rfl

theorem lookup_congr {t : StateDB} (trie : t.trie = s.trie)
    (objects : t.stateObjects = s.stateObjects) : lookup t a = lookup s a := by
  rw [lookup_eq, lookup_eq, trie, objects]

variable {a b}

theorem lookup_setStateObject (live : obj.deleted = false) (b : Address) :
    lookup (s.setStateObject a obj) b = if a = b then some obj else lookup s b := by
  rw [lookup_eq, lookup_eq, StateDB.setStateObject, get_insert]
  by_cases same : a = b
  · simp [same, live]
  · rw [if_neg same, if_neg same]

theorem lookup_setStateObject_self (live : obj.deleted = false) :
    lookup (s.setStateObject a obj) a = some obj := by
  rw [lookup_setStateObject s live, if_pos rfl]

theorem setStateObject_held (held : s.stateObjects[a]? = some obj) : s.setStateObject a obj = s := by
  rw [StateDB.setStateObject, insert_self _ held]

theorem setStateObject_setStateObject (first second : StateObject) :
    (s.setStateObject a first).setStateObject a second = s.setStateObject a second := by
  simp only [StateDB.setStateObject, insert_insert]

variable {s}

/-- An object that is found is held afterwards. -/
theorem getStateObject_eq (s : StateDB) (a : Address) :
    s.getStateObject a = ((lookup s a).elim s (s.setStateObject a), lookup s a) := by
  refine Prod.ext ?_ rfl
  rw [lookup_eq, StateDB.getStateObject]
  cases held : s.stateObjects[a]? with
  | none => cases s.trie[a]? <;> rfl
  | some obj =>
    dsimp only
    split
    · rfl
    · exact (setStateObject_held s held).symm

theorem getStateObject_of_none (missing : lookup s a = none) : s.getStateObject a = (s, none) := by
  rw [getStateObject_eq, missing]
  rfl

theorem deleted_of_lookup (found : lookup s a = some obj) : obj.deleted = false := by
  rw [lookup_eq] at found
  split at found
  · split at found
    · cases found
    · cases found
      exact Bool.eq_false_iff.mpr ‹_›
  · obtain ⟨_, _, rfl⟩ := Option.map_eq_some_iff.mp found
    rfl

theorem getStateObject_of_some (found : lookup s a = some obj) :
    s.getStateObject a = (s.setStateObject a obj, some obj) ∧ obj.deleted = false := by
  rw [getStateObject_eq, found]
  exact ⟨rfl, deleted_of_lookup found⟩

theorem adjust_of_none (missing : lookup s a = none) : s.adjust a set = s := by
  rw [StateDB.adjust, getStateObject_of_none missing]

theorem adjust_of_some (found : lookup s a = some obj) :
    s.adjust a set = s.setStateObject a (set obj) := by
  rw [StateDB.adjust, (getStateObject_of_some found).1]
  exact setStateObject_setStateObject s obj (set obj)

end

/-! ## States that no call tells apart -/

/-- Equal in everything but the journal and which objects are in memory. -/
structure Alike (s t : StateDB) : Prop where
  trie : t.trie = s.trie
  lookup : ∀ a, lookup t a = lookup s a
  refund : t.refund = s.refund
  logs : ∀ hash, t.logs.getD hash [] = s.logs.getD hash []
  logSize : t.logSize = s.logSize
  thash : t.thash = s.thash
  txIndex : t.txIndex = s.txIndex

namespace Alike
variable {r s t : StateDB}

theorem refl (s : StateDB) : Alike s s := ⟨rfl, fun _ => rfl, rfl, fun _ => rfl, rfl, rfl, rfl⟩

theorem symm (alike : Alike s t) : Alike t s where
  trie := alike.trie.symm
  lookup := fun a => (alike.lookup a).symm
  refund := alike.refund.symm
  logs := fun hash => (alike.logs hash).symm
  logSize := alike.logSize.symm
  thash := alike.thash.symm
  txIndex := alike.txIndex.symm

theorem trans (first : Alike r s) (second : Alike s t) : Alike r t where
  trie := second.trie.trans first.trie
  lookup := fun a => (second.lookup a).trans (first.lookup a)
  refund := second.refund.trans first.refund
  logs := fun hash => (second.logs hash).trans (first.logs hash)
  logSize := second.logSize.trans first.logSize
  thash := second.thash.trans first.thash
  txIndex := second.txIndex.trans first.txIndex

theorem of_journal (s : StateDB) (journal : Journal) : Alike s { s with journal := journal } :=
  ⟨rfl, fun a => Rewind.lookup_congr s a rfl rfl, rfl, fun _ => rfl, rfl, rfl, rfl⟩

theorem lookup_congr (alike : Alike s t) {s' t' : StateDB} (trie : s'.trie = s.trie)
    (objects : s'.stateObjects = s.stateObjects) (trie' : t'.trie = t.trie)
    (objects' : t'.stateObjects = t.stateObjects) (a : Address) :
    Rewind.lookup t' a = Rewind.lookup s' a := by
  rw [Rewind.lookup_congr t a trie' objects', Rewind.lookup_congr s a trie objects, alike.lookup]

theorem setStateObject (alike : Alike s t) (a : Address) (live : obj.deleted = false) :
    Alike (s.setStateObject a obj) (t.setStateObject a obj) where
  __ := alike
  lookup := by
    intro b
    rw [lookup_setStateObject t live, lookup_setStateObject s live, alike.lookup]

theorem setStateObject_found {a : Address} (found : Rewind.lookup s a = some obj) :
    Alike s (s.setStateObject a obj) where
  __ := Alike.refl s
  lookup := by
    intro b
    rw [lookup_setStateObject s (deleted_of_lookup found)]
    split
    · next same => rw [← same, found]
    · rfl

end Alike

section
variable {s t : StateDB} {a : Address}

theorem alike_getStateObject (s : StateDB) (a : Address) : Alike s (s.getStateObject a).1 := by
  cases found : lookup s a with
  | none =>
    rw [getStateObject_of_none found]
    exact Alike.refl s
  | some obj =>
    rw [(getStateObject_of_some found).1]
    exact Alike.setStateObject_found found

/-- A change of an object, as it is looked up afterwards. -/
theorem alike_adjust (keeps : ∀ obj, (set obj).deleted = obj.deleted) (alike : Alike s t) :
    Alike (s.adjust a set) (t.adjust a set) := by
  have same := alike.lookup a
  cases found : lookup s a with
  | none =>
    rw [found] at same
    rw [adjust_of_none found, adjust_of_none same]
    exact alike
  | some obj =>
    rw [found] at same
    rw [adjust_of_some found, adjust_of_some same]
    exact alike.setStateObject a ((keeps obj).trans (deleted_of_lookup found))

end

/-! ## Undoing entries -/

section
variable {s t : StateDB}

theorem alike_undo (alike : Alike s t) (entry : JournalEntry)
    (live : ∀ a prev, entry = .resetObjectChange a prev → prev.deleted = false) :
    Alike (s.undo entry) (t.undo entry) := by
  cases entry with
  | createObjectChange a =>
    refine { alike with lookup := fun b => ?_ }
    have stored := alike.trie
    by_cases same : a = b
    · subst same
      simp only [lookup_eq, StateDB.undo, ExtTreeMap.getElem?_erase_self, stored]
    · have before := alike.lookup b
      rw [lookup_eq, lookup_eq] at before
      simp only [lookup_eq, StateDB.undo, get_erase, if_neg same, before]
  | resetObjectChange a prev => exact alike.setStateObject a (live a prev rfl)
  | suicideChange | balanceChange | nonceChange | storageChange | codeChange =>
    exact alike_adjust (fun _ => rfl) alike
  | refundChange prev =>
    exact { alike with lookup := alike.lookup_congr rfl rfl rfl rfl, refund := rfl }
  | addLogChange txhash =>
    refine ⟨alike.trie, alike.lookup_congr rfl rfl rfl rfl, alike.refund, fun hash => ?_, ?_, alike.thash, alike.txIndex⟩
    · simp only [StateDB.undo, alike.logs txhash]
      by_cases single : (s.logs.getD txhash []).length = 1
      · rw [if_pos single, if_pos single, ExtTreeMap.getD_erase, ExtTreeMap.getD_erase,
          alike.logs]
      · rw [if_neg single, if_neg single, ExtTreeMap.getD_insert, ExtTreeMap.getD_insert,
          alike.logs]
    · simp only [StateDB.undo, alike.logSize]
  | touchChange a => exact alike

theorem journal_undo (s : StateDB) (entry : JournalEntry) : (s.undo entry).journal = s.journal := by
  have adjusted (a : Address) (set : StateObject → StateObject) :
      (s.adjust a set).journal = s.journal := by
    cases found : lookup s a with
    | none => rw [adjust_of_none found]
    | some obj =>
      rw [adjust_of_some found]
      rfl
  cases entry with
  | createObjectChange | resetObjectChange | refundChange | addLogChange | touchChange => rfl
  | suicideChange | balanceChange | nonceChange | storageChange | codeChange => exact adjusted _ _

theorem alike_undoOne (s : StateDB) (entry : JournalEntry) :
    Alike (s.undo entry) (s.undoOne entry) := by
  rw [StateDB.undoOne]
  cases entry.dirtied with
  | none => exact Alike.refl _
  | some a => exact Alike.of_journal _ _

theorem entries_undoOne (s : StateDB) (entry : JournalEntry) :
    (s.undoOne entry).journal.entries = s.journal.entries := by
  have same := congrArg Journal.entries (journal_undo s entry)
  rw [StateDB.undoOne]
  cases entry.dirtied with
  | none => exact same
  | some a => exact same

theorem count_undoOne (s : StateDB) (entry : JournalEntry) (a : Address) :
    count (s.undoOne entry) a = count s a - if entry.dirtied = some a then 1 else 0 := by
  rw [StateDB.undoOne]
  cases entry.dirtied with
  | none =>
    rw [count, journal_undo, if_neg (by simp), Nat.sub_zero]
    rfl
  | some b =>
    simp only [count, getD_drop, journal_undo, Option.some.injEq]

def dirtying (entries : List JournalEntry) (a : Address) : Nat :=
  entries.countP fun entry => decide (entry.dirtied = some a)

theorem count_undoAll (entries : List JournalEntry) (s : StateDB) (a : Address) :
    count (s.undoAll entries) a = count s a - dirtying entries a := by
  induction entries generalizing s with
  | nil => rfl
  | cons entry rest ih =>
    have split : dirtying (entry :: rest) a =
        dirtying rest a + if entry.dirtied = some a then 1 else 0 := by
      simp only [dirtying, List.countP_cons, decide_eq_true_eq]
    rw [StateDB.undoAll, List.foldl_cons, ← StateDB.undoAll, ih, count_undoOne, split]
    omega

theorem entries_undoAll (entries : List JournalEntry) (s : StateDB) :
    (s.undoAll entries).journal.entries = s.journal.entries := by
  induction entries generalizing s with
  | nil => rfl
  | cons entry rest ih =>
    rw [StateDB.undoAll, List.foldl_cons, ← StateDB.undoAll, ih, entries_undoOne]

/-- Objects that entries put back are there. -/
def Restorable (entries : List JournalEntry) : Prop :=
  ∀ a prev, .resetObjectChange a prev ∈ entries → prev.deleted = false

theorem alike_undoAll {entries : List JournalEntry} (live : Restorable entries)
    (alike : Alike s t) : Alike (s.undoAll entries) (t.undoAll entries) := by
  induction entries generalizing s t with
  | nil => exact alike
  | cons entry rest ih =>
    rw [StateDB.undoAll, StateDB.undoAll, List.foldl_cons, List.foldl_cons]
    refine ih (fun a prev member => live a prev (List.mem_cons_of_mem _ member)) ?_
    have undone := alike_undo alike entry fun a prev same =>
      live a prev (same ▸ List.mem_cons_self)
    exact ((alike_undoOne s entry).symm.trans undone).trans (alike_undoOne t entry)

theorem undoAll_append (newer older : List JournalEntry) (s : StateDB) :
    s.undoAll (newer ++ older) = (s.undoAll newer).undoAll older := List.foldl_append

end

/-! ## What every call leaves to be undone -/

/-- `t` has come from `s` with the entries `new`, and undoing them leads back to
`s`; `marks` is how often `ripemd` was touched on the way. -/
structure Reached (new : List JournalEntry) (marks : Nat) (s t : StateDB) : Prop where
  entries : t.journal.entries = new ++ s.journal.entries
  live : Restorable new
  count : ∀ a, count t a = count s a + dirtying new a + if a = ripemd then marks else 0
  undone : Alike s (t.undoAll new)

def Reaches (s t : StateDB) : Prop := ∃ new marks, Reached new marks s t

section
variable {r s t : StateDB} {a : Address}

theorem Reached.trans {newer : List JournalEntry} {more : Nat} (first : Reached new marks r s)
    (second : Reached newer more s t) :
    Reached (newer ++ new) (marks + more) r t where
  entries := by rw [second.entries, first.entries, List.append_assoc]
  live := by
    intro b prev member
    rcases List.mem_append.mp member with newest | old
    · exact second.live b prev newest
    · exact first.live b prev old
  count := by
    intro b
    rw [second.count, first.count, dirtying, dirtying, dirtying, List.countP_append]
    split <;> omega
  undone := by
    rw [undoAll_append]
    exact first.undone.trans (alike_undoAll first.live second.undone)

/-- Only the objects in memory are others. -/
theorem Reached.of_alike (alike : Alike s t) (journal : t.journal = s.journal) :
    Reached [] 0 s t where
  entries := by rw [journal, List.nil_append]
  live := fun _ _ member => absurd member List.not_mem_nil
  count := by
    intro b
    rw [Rewind.count, Rewind.count, journal]
    split <;> rfl
  undone := alike

theorem Reaches.refl (s : StateDB) : Reaches s s := ⟨[], 0, .of_alike (.refl s) rfl⟩

theorem Reaches.trans : Reaches r s → Reaches s t → Reaches r t := by
  rintro ⟨_, _, first⟩ ⟨_, _, second⟩
  exact ⟨_, _, first.trans second⟩

theorem count_append (s : StateDB) (entry : JournalEntry) (a : Address) :
    count (s.append entry) a = count s a + if entry.dirtied = some a then 1 else 0 := by
  rw [StateDB.append, count, Journal.append]
  cases entry.dirtied with
  | none => simp [count]
  | some b =>
    simp only [getD_bump, Option.some.injEq]
    rfl

/-- One entry more, which undoes the rest of the step. -/
theorem Reached.of_entry (journal : t.journal = (s.append entry).journal)
    (live : ∀ b prev, entry = .resetObjectChange b prev → prev.deleted = false)
    (undone : Alike s (t.undo entry)) : Reached [entry] 0 s t where
  entries := by rw [journal]; rfl
  live := by
    intro b prev member
    exact live b prev (List.mem_singleton.mp member).symm
  count := by
    intro b
    have same : Rewind.count t b = Rewind.count (s.append entry) b := by
      rw [Rewind.count, Rewind.count, journal]
    rw [same, count_append, dirtying, List.countP_singleton]
    simp only [decide_eq_true_eq, ite_self, Nat.add_zero]
  undone := undone.trans (alike_undoOne t entry)

/-- An object put back where it was before. -/
theorem alike_putBack {new : StateObject} (found : lookup s a = some obj) :
    Alike s (((s.append entry).setStateObject a new).setStateObject a obj) := by
  rw [setStateObject_setStateObject]
  exact (Alike.setStateObject_found found).trans (Alike.of_journal _ _)

end

/-! ## The objects in memory -/

def Live (s : StateDB) (a : Address) : Prop :=
  ∃ obj : StateObject, s.stateObjects[a]? = some obj ∧ obj.deleted = false

/-- What holds of the objects in memory between any two calls: a dirty object is
there, unless it was made and unmade again, and an object that was deleted or made
is not in the trie. -/
structure Tidy (s : StateDB) : Prop where
  dirty : ∀ a : Address, 0 < count s a →
    Live s a ∨ (s.stateObjects[a]? = none ∧ s.trie[a]? = none)
  gone : ∀ (a : Address) (obj : StateObject),
    s.stateObjects[a]? = some obj → obj.deleted = true → s.trie[a]? = none
  created : ∀ a : Address, .createObjectChange a ∈ s.journal.entries → s.trie[a]? = none
  restorable : Restorable s.journal.entries
  positive : ∀ a, a ∈ s.journal.dirties → 0 < count s a

section
variable {s t : StateDB} {a : Address}

theorem tidy_new (trie : ExtTreeMap Address Account) : Tidy (StateDB.new trie) where
  dirty := by
    intro a marked
    rw [count, StateDB.new, ExtTreeMap.getD_empty] at marked
    exact absurd marked (lt_irrefl 0)
  gone := by
    intro a obj held
    rw [StateDB.new, ExtTreeMap.getElem?_empty] at held
    cases held
  created := fun _ member => absurd member List.not_mem_nil
  restorable := fun _ _ member => absurd member List.not_mem_nil
  positive := fun _ member => absurd member ExtTreeMap.not_mem_empty

theorem live_setStateObject (s : StateDB) (live : obj.deleted = false) :
    Live (s.setStateObject a obj) a :=
  ⟨obj, ExtTreeMap.getElem?_insert_self, live⟩

theorem held_setStateObject_of_ne (s : StateDB) {b : Address} (different : a ≠ b)
    (obj : StateObject) : (s.setStateObject a obj).stateObjects[b]? = s.stateObjects[b]? := by
  rw [StateDB.setStateObject, get_insert, if_neg different]

theorem trie_eq_none_of_lookup (tidy : Tidy s) (missing : lookup s a = none) :
    s.trie[a]? = none := by
  rw [lookup_eq] at missing
  cases held : s.stateObjects[a]? with
  | none =>
    rw [held] at missing
    exact Option.map_eq_none_iff.mp missing
  | some obj =>
    rw [held] at missing
    dsimp only at missing
    split at missing
    · rename_i deleted
      exact tidy.gone a obj held deleted
    · cases missing

theorem Tidy.setStateObject (tidy : Tidy s) (live : obj.deleted = false) :
    Tidy (s.setStateObject a obj) where
  __ := tidy
  dirty := by
    intro b marked
    by_cases same : a = b
    · subst same
      exact .inl (live_setStateObject s live)
    · rw [Live, held_setStateObject_of_ne s same]
      exact tidy.dirty b marked
  gone := by
    intro b other held deleted
    by_cases same : a = b
    · subst same
      rw [StateDB.setStateObject, ExtTreeMap.getElem?_insert_self] at held
      cases held
      rw [live] at deleted
      cases deleted
    · rw [held_setStateObject_of_ne s same] at held
      exact tidy.gone b other held deleted

theorem Tidy.append (tidy : Tidy s) (entry : JournalEntry)
    (there : ∀ b : Address, entry.dirtied = some b →
      Live s b ∨ (s.stateObjects[b]? = none ∧ s.trie[b]? = none))
    (created : ∀ b : Address, entry = .createObjectChange b → s.trie[b]? = none)
    (live : ∀ b prev, entry = .resetObjectChange b prev → prev.deleted = false) :
    Tidy (s.append entry) where
  dirty := by
    intro b marked
    rw [count_append] at marked
    by_cases own : entry.dirtied = some b
    · exact there b own
    · rw [if_neg own, Nat.add_zero] at marked
      exact tidy.dirty b marked
  gone := tidy.gone
  created := by
    intro b member
    rcases List.mem_cons.mp member with same | old
    · exact created b same.symm
    · exact tidy.created b old
  restorable := by
    intro b prev member
    rcases List.mem_cons.mp member with same | old
    · exact live b prev same.symm
    · exact tidy.restorable b prev old
  positive := by
    intro b member
    rw [count_append]
    by_cases own : entry.dirtied = some b
    · rw [if_pos own]
      exact Nat.succ_pos _
    · rw [if_neg own, Nat.add_zero]
      apply tidy.positive b
      rw [StateDB.append, Journal.append] at member
      cases dirtied : entry.dirtied with
      | none =>
        rw [dirtied] at member
        exact member
      | some c =>
        rw [dirtied] at member own
        rcases ExtTreeMap.mem_insert.mp member with same | old
        · exact absurd (congrArg some (compare_eq_iff_eq.mp same)) own
        · exact old

theorem Tidy.mark (tidy : Tidy s) (live : Live s a) :
    Tidy { s with journal := s.journal.dirty a } where
  __ := tidy
  dirty := by
    intro b marked
    by_cases same : a = b
    · subst same
      exact .inl live
    · have counted : count { s with journal := s.journal.dirty a } b = count s b := by
        rw [count, Journal.dirty, getD_bump, if_neg same, Nat.add_zero]
        rfl
      rw [counted] at marked
      exact tidy.dirty b marked
  positive := by
    intro b member
    rw [count, Journal.dirty, getD_bump]
    rcases ExtTreeMap.mem_insert.mp member with same | old
    · rw [if_pos (compare_eq_iff_eq.mp same)]
      exact Nat.succ_pos _
    · exact Nat.lt_of_lt_of_le (tidy.positive b old) (Nat.le_add_right _ _)

end

/-! ## The calls -/

def Steps (s t : StateDB) : Prop := Tidy s → Reaches s t ∧ Tidy t

section
variable {r s t : StateDB} {a : Address}

theorem Steps.refl (s : StateDB) : Steps s s := fun tidy => ⟨.refl s, tidy⟩

theorem Steps.trans (first : Steps r s) (second : Steps s t) : Steps r t := by
  intro tidy
  obtain ⟨reach, middle⟩ := first tidy
  obtain ⟨further, last⟩ := second middle
  exact ⟨reach.trans further, last⟩

theorem steps_load (found : lookup s a = some obj) : Steps s (s.setStateObject a obj) :=
  fun tidy => ⟨⟨[], 0, .of_alike (.setStateObject_found found) rfl⟩,
    tidy.setStateObject (deleted_of_lookup found)⟩

theorem steps_getStateObject (s : StateDB) (a : Address) : Steps s (s.getStateObject a).1 := by
  cases found : lookup s a with
  | none =>
    rw [getStateObject_of_none found]
    exact Steps.refl s
  | some obj =>
    rw [(getStateObject_of_some found).1]
    exact steps_load found

theorem steps_create (missing : lookup s a = none) :
    Steps s ((s.append (.createObjectChange a)).setStateObject a (.newObject .fresh)) := by
  intro tidy
  have live : (StateObject.newObject .fresh).deleted = false := rfl
  have stored := trie_eq_none_of_lookup tidy missing
  constructor
  · refine ⟨[_], 0, .of_entry rfl nofun ?_⟩
    refine ⟨rfl, fun b => ?_, rfl, fun _ => rfl, rfl, rfl, rfl⟩
    by_cases same : a = b
    · subst same
      rw [missing]
      simp only [lookup_eq, StateDB.undo, ExtTreeMap.getElem?_erase_self]
      exact Option.map_eq_none_iff.mpr stored
    · rw [lookup_eq, lookup_eq]
      simp only [StateDB.undo, get_erase, if_neg same, held_setStateObject_of_ne _ same]
      rfl
  · refine Tidy.append (tidy.setStateObject (a := a) live) _ ?_ ?_ nofun
    · rintro b ⟨⟩
      exact .inl (live_setStateObject s live)
    · rintro b ⟨⟩
      exact stored

theorem steps_reset {prev : StateObject} (found : lookup s a = some prev)
    (live : obj.deleted = false) :
    Steps s ((s.append (.resetObjectChange a prev)).setStateObject a obj) := by
  intro tidy
  have old := deleted_of_lookup found
  have restores : ∀ b other, JournalEntry.resetObjectChange a prev = .resetObjectChange b other →
      other.deleted = false := by
    rintro b other ⟨⟩
    exact old
  constructor
  · exact ⟨[_], 0, .of_entry rfl restores (alike_putBack found)⟩
  · exact Tidy.append (tidy.setStateObject (a := a) live) _ nofun
      nofun restores

theorem steps_createAccount (s : StateDB) (a : Address) : Steps s (s.createAccount a) := by
  rw [StateDB.createAccount, StateDB.createObject]
  cases found : lookup s a with
  | none =>
    rw [getStateObject_of_none found]
    exact steps_create found
  | some prev =>
    obtain ⟨read, live⟩ := getStateObject_of_some found
    rw [read]
    dsimp only
    rw [setStateObject_setStateObject]
    exact (steps_load found).trans (steps_reset (lookup_setStateObject_self s live) rfl)

theorem getOrNewStateObject_of_none (missing : lookup s a = none) :
    s.getOrNewStateObject a =
      ((s.append (.createObjectChange a)).setStateObject a (.newObject .fresh),
        .newObject .fresh) := by
  simp only [StateDB.getOrNewStateObject, StateDB.createObject, getStateObject_of_none missing]

theorem getOrNewStateObject_of_some (found : lookup s a = some obj) :
    s.getOrNewStateObject a = (s.setStateObject a obj, obj) := by
  rw [StateDB.getOrNewStateObject, (getStateObject_of_some found).1]

/-- An object to write to: it is held, and no call sees the difference. -/
theorem getOrNewStateObject_spec (tidy : Tidy s) (a : Address) :
    Reaches s (s.getOrNewStateObject a).1 ∧ Tidy (s.getOrNewStateObject a).1 ∧
      (s.getOrNewStateObject a).1.stateObjects[a]? = some (s.getOrNewStateObject a).2 ∧
      (s.getOrNewStateObject a).2.deleted = false := by
  cases found : lookup s a with
  | none =>
    obtain ⟨created, last⟩ := steps_create found tidy
    rw [getOrNewStateObject_of_none found]
    exact ⟨created, last, ExtTreeMap.getElem?_insert_self, rfl⟩
  | some obj =>
    obtain ⟨reach, after⟩ := steps_load found tidy
    rw [getOrNewStateObject_of_some found]
    exact ⟨reach, after, ExtTreeMap.getElem?_insert_self, deleted_of_lookup found⟩

theorem lookup_of_held (held : s.stateObjects[a]? = some obj) (live : obj.deleted = false) :
    lookup s a = some obj := by
  rw [lookup_eq, held]
  simp [live]

/-- An entry that keeps the old value of an object, and the object with a new
value. -/
theorem steps_put {new : StateObject} {back : StateObject → StateObject}
    (found : lookup s a = some obj) (undoes : ∀ x : StateDB, x.undo entry = x.adjust a back)
    (keeps : ∀ o, (back o).deleted = o.deleted) (restores : back new = obj)
    (dirtied : entry.dirtied = some a) (unmade : ∀ b, entry ≠ .createObjectChange b) :
    Steps s ((s.append entry).setStateObject a new) := by
  intro tidy
  have live : new.deleted = false := by
    rw [← keeps, restores]
    exact deleted_of_lookup found
  have plain : ∀ b prev, entry = .resetObjectChange b prev → prev.deleted = false := by
    rintro b prev rfl
    cases dirtied
  constructor
  · refine ⟨[entry], 0, .of_entry rfl plain ?_⟩
    rw [undoes, adjust_of_some (lookup_setStateObject_self (s.append entry) live), restores]
    exact alike_putBack found
  · refine Tidy.append (tidy.setStateObject (a := a) live) _ ?_
      (fun b same => absurd same (unmade b)) plain
    intro b marked
    cases dirtied.symm.trans marked
    exact .inl (live_setStateObject s live)

theorem steps_change (back : StateObject → StateObject → StateObject)
    {entry : StateObject → JournalEntry}
    (undoes : ∀ (obj : StateObject) (x : StateDB), x.undo (entry obj) = x.adjust a (back obj))
    (keeps : ∀ obj o, (back obj o).deleted = o.deleted) (restores : ∀ obj, back obj (set obj) = obj)
    (dirtied : ∀ obj, (entry obj).dirtied = some a)
    (unmade : ∀ obj b, entry obj ≠ .createObjectChange b) :
    Steps s (s.change a entry set) := by
  intro tidy
  obtain ⟨reach, after, held, live⟩ := getOrNewStateObject_spec tidy a
  obtain ⟨put, last⟩ := steps_put (lookup_of_held held live) (undoes _) (keeps _) (restores _)
    (dirtied _) (unmade _) after
  exact ⟨reach.trans put, last⟩

theorem steps_setBalance (s : StateDB) (a : Address) (amount : StateObject → Int) :
    Steps s (s.setBalance a amount) :=
  steps_change (fun obj o => o.setBalance obj.data.balance) (fun _ _ => rfl)
    (fun _ _ => rfl) (fun _ => rfl) (fun _ => rfl) nofun

theorem setState_setState (obj : StateObject) (key value : Hash) :
    (obj.setState key value).setState key (obj.data.storage key) = obj := by
  rw [StateObject.setState, StateObject.setState]
  rw [Function.update_idem, Function.update_eq_self]

theorem steps_setState (s : StateDB) (a : Address) (key value : Hash) :
    Steps s (s.setState a key value) :=
  steps_change (fun obj o => o.setState key (obj.data.storage key)) (fun _ _ => rfl)
    (fun _ _ => rfl) (fun obj => setState_setState obj key value) (fun _ => rfl)
    nofun

theorem steps_touch (live : Live s a) : Steps s (s.touch a) := by
  intro tidy
  have appended : Tidy (s.append (.touchChange a)) := by
    refine tidy.append _ ?_ nofun nofun
    rintro b ⟨⟩
    exact .inl live
  have entry : Reached [.touchChange a] 0 s (s.append (.touchChange a)) :=
    .of_entry rfl nofun (Alike.of_journal s _)
  rw [StateDB.touch]
  by_cases own : a = ripemd
  · rw [if_pos own]
    subst own
    constructor
    · refine ⟨[.touchChange ripemd], 1, entry.entries, entry.live, fun b => ?_, ?_⟩
      · have before := entry.count b
        have more : count { s.append (.touchChange ripemd) with
            journal := (s.append (.touchChange ripemd)).journal.dirty ripemd } b =
            count (s.append (.touchChange ripemd)) b + if ripemd = b then 1 else 0 :=
          getD_bump _ _ _
        rw [more, before]
        simp only [eq_comm, ite_self, Nat.add_zero]
      · exact Alike.of_journal s _
    · exact appended.mark live
  · rw [if_neg own]
    exact ⟨⟨_, _, entry⟩, appended⟩

theorem steps_addBalance (s : StateDB) (a : Address) (amount : Int) :
    Steps s (s.addBalance a amount) := by
  rw [StateDB.addBalance]
  split
  · intro tidy
    obtain ⟨reach, after, held, live⟩ := getOrNewStateObject_spec tidy a
    dsimp only
    split
    · obtain ⟨touched, last⟩ := steps_touch ⟨_, held, live⟩ after
      exact ⟨reach.trans touched, last⟩
    · exact ⟨reach, after⟩
  · exact steps_setBalance s a _

theorem steps_subBalance (s : StateDB) (a : Address) (amount : Int) :
    Steps s (s.subBalance a amount) := by
  rw [StateDB.subBalance]
  split
  · intro tidy
    obtain ⟨reach, after, _⟩ := getOrNewStateObject_spec tidy a
    exact ⟨reach, after⟩
  · exact steps_setBalance s a _

theorem steps_suicide (s : StateDB) (a : Address) : Steps s (s.suicide a).1 := by
  rw [StateDB.suicide]
  cases found : lookup s a with
  | none =>
    rw [getStateObject_of_none found]
    exact Steps.refl s
  | some obj =>
    obtain ⟨read, live⟩ := getStateObject_of_some found
    rw [read]
    exact (steps_load found).trans (steps_put (lookup_setStateObject_self s live) (fun _ => rfl)
      (fun _ => rfl) rfl rfl nofun)

theorem steps_addRefund (s : StateDB) (gas : Nat) : Steps s (s.addRefund gas) := by
  intro tidy
  constructor
  · refine ⟨[.refundChange s.refund], 0, .of_entry rfl nofun ?_⟩
    exact Alike.of_journal s _
  · exact { tidy.append (.refundChange s.refund) nofun nofun nofun with }

theorem steps_addLog (s : StateDB) (log : Log) : Steps s (s.addLog log) := by
  intro tidy
  constructor
  · refine ⟨[.addLogChange s.thash], 0, .of_entry rfl nofun ?_⟩
    refine ⟨rfl, fun a => lookup_congr s a rfl rfl, rfl, fun hash => ?_, ?_, rfl, rfl⟩
    · simp only [StateDB.undo, StateDB.addLog, StateDB.append, ExtTreeMap.getD_insert_self,
        List.length_append, List.length_singleton, List.dropLast_concat]
      by_cases own : s.thash = hash
      · subst own
        split
        · rename_i single
          rw [ExtTreeMap.getD_erase_self]
          exact (List.length_eq_zero_iff.mp (Nat.succ.inj single)).symm
        · exact ExtTreeMap.getD_insert_self
      · split
        · rw [getD_erase, if_neg own, getD_insert, if_neg own]
        · rw [getD_insert, if_neg own, getD_insert, if_neg own]
    · exact Nat.add_sub_cancel _ _
  · exact { tidy.append (.addLogChange s.thash) nofun nofun nofun with }

theorem steps_call (c : Call) (s : StateDB) : Steps s (s.call c).1 := by
  cases c with
  | createAccount a => exact steps_createAccount s a
  | subBalance a amount => exact steps_subBalance s a amount
  | addBalance a amount => exact steps_addBalance s a amount
  | setBalance a amount => exact steps_setBalance s a fun _ => amount
  | getBalance a | getNonce a | getCode a | getState a | hasSuicided a | exist a | empty a =>
    exact steps_getStateObject s a
  | setNonce a nonce =>
    change Steps s (s.setNonce a nonce)
    exact steps_change (fun obj o => o.setNonce obj.data.nonce) (fun _ _ => rfl) (fun _ _ => rfl)
      (fun _ => rfl) (fun _ => rfl) nofun
  | setCode a code =>
    change Steps s (s.setCode a code)
    exact steps_change (fun obj o => o.setCode obj.data.code) (fun _ _ => rfl) (fun _ _ => rfl)
      (fun _ => rfl) (fun _ => rfl) nofun
  | addRefund gas => exact steps_addRefund s gas
  | getRefund => exact Steps.refl s
  | setState a key value => exact steps_setState s a key value
  | suicide a => exact steps_suicide s a
  | addLog log => exact steps_addLog s log

end

/-! ## Going back to a snapshot -/

section
variable {s t : StateDB}

theorem revertToSnapshot_eq (reached : Reached new marks s t) :
    t.revertToSnapshot s.snapshot =
      { t.undoAll new with
        journal := { (t.undoAll new).journal with entries := s.journal.entries } } := by
  have newer : t.journal.entries.length - s.snapshot = new.length := by
    rw [reached.entries, StateDB.snapshot, List.length_append, Nat.add_sub_cancel]
  rw [StateDB.revertToSnapshot]
  rw [newer, reached.entries, List.take_left, List.drop_left]

/-- Back at the snapshot, with the marks of `ripemd` on top. -/
theorem reached_revertToSnapshot (reached : Reached new marks s t) :
    Reached [] marks s (t.revertToSnapshot s.snapshot) := by
  rw [revertToSnapshot_eq reached]
  refine ⟨rfl, fun _ _ member => absurd member List.not_mem_nil, fun a => ?_, ?_⟩
  · have counted := count_undoAll new t a
    rw [reached.count] at counted
    change count (t.undoAll new) a = _
    rw [counted]
    change _ = count s a + 0 + _
    omega
  · exact reached.undone.trans (Alike.of_journal _ _)

theorem Tidy.adjust {a : Address} (tidy : Tidy s) (keeps : ∀ obj, (set obj).deleted = obj.deleted) :
    Tidy (s.adjust a set) := by
  cases found : lookup s a with
  | none =>
    rw [adjust_of_none found]
    exact tidy
  | some obj =>
    rw [adjust_of_some found]
    exact tidy.setStateObject ((keeps obj).trans (deleted_of_lookup found))

theorem Tidy.undo (tidy : Tidy s) (member : entry ∈ s.journal.entries) :
    Tidy (s.undo entry) := by
  cases entry with
  | createObjectChange a =>
    have stored := tidy.created a member
    have held (b : Address) (same : ¬ a = b) :
        (s.stateObjects.erase a)[b]? = s.stateObjects[b]? := by
      rw [get_erase, if_neg same]
    refine { tidy with dirty := fun b marked => ?_, gone := fun b obj found => ?_ }
    · by_cases same : a = b
      · subst same
        exact .inr ⟨ExtTreeMap.getElem?_erase_self, stored⟩
      · rw [Live, StateDB.undo]
        rw [held b same]
        exact tidy.dirty b marked
    · by_cases same : a = b
      · subst same
        exact fun _ => stored
      · rw [StateDB.undo] at found
        rw [held b same] at found
        exact tidy.gone b obj found
  | resetObjectChange a prev => exact tidy.setStateObject (tidy.restorable a prev member)
  | suicideChange | balanceChange | nonceChange | storageChange | codeChange =>
    exact tidy.adjust fun _ => rfl
  | refundChange | addLogChange =>
    exact { tidy with }
  | touchChange a => exact tidy

theorem Tidy.drop (tidy : Tidy s) (a : Address) :
    Tidy { s with journal := { s.journal with dirties := drop s.journal.dirties a } } where
  __ := tidy
  dirty := by
    intro b marked
    rw [count, getD_drop] at marked
    exact tidy.dirty b (Nat.lt_of_lt_of_le marked (Nat.sub_le _ _))
  positive := by
    intro b member
    rw [count, getD_drop]
    by_cases same : a = b
    · subst same
      rw [if_pos rfl]
      rw [Journaling.drop] at member
      split at member
      · exact absurd ReflCmp.compare_self (ExtTreeMap.mem_erase.mp member).1
      · exact Nat.pos_of_ne_zero ‹_›
    · have other : ¬ compare a b = .eq := fun equal => same (compare_eq_iff_eq.mp equal)
      rw [if_neg same, Nat.sub_zero]
      apply tidy.positive b
      rw [Journaling.drop] at member
      split at member
      · exact (ExtTreeMap.mem_erase.mp member).2
      · exact (ExtTreeMap.mem_insert.mp member).resolve_left other

theorem Tidy.undoOne (tidy : Tidy s) (member : entry ∈ s.journal.entries) :
    Tidy (s.undoOne entry) := by
  rw [StateDB.undoOne]
  cases entry.dirtied with
  | none => exact tidy.undo member
  | some a => exact (tidy.undo member).drop a

theorem Tidy.undoAll {entries : List JournalEntry} (tidy : Tidy s)
    (members : ∀ entry ∈ entries, entry ∈ s.journal.entries) : Tidy (s.undoAll entries) := by
  induction entries generalizing s with
  | nil => exact tidy
  | cons entry rest ih =>
    rw [StateDB.undoAll, List.foldl_cons]
    refine ih (tidy.undoOne (members entry List.mem_cons_self)) ?_
    intro other member
    rw [entries_undoOne]
    exact members other (List.mem_cons_of_mem _ member)

theorem Tidy.revertToSnapshot (tidy : Tidy t) (reached : Reached new marks s t) :
    Tidy (t.revertToSnapshot s.snapshot) := by
  have undone : Tidy (t.undoAll new) := by
    refine tidy.undoAll fun entry member => ?_
    rw [reached.entries]
    exact List.mem_append_left _ member
  rw [revertToSnapshot_eq reached]
  have older (entry : JournalEntry) (member : entry ∈ s.journal.entries) :
      entry ∈ (t.undoAll new).journal.entries := by
    rw [entries_undoAll, reached.entries]
    exact List.mem_append_right _ member
  exact ⟨undone.dirty, undone.gone, fun a member => undone.created a (older _ member),
    fun a prev member => undone.restorable a prev (older _ member), undone.positive⟩

theorem steps_revertToSnapshot (steps : Steps s t) : Steps s (t.revertToSnapshot s.snapshot) := by
  intro tidy
  obtain ⟨⟨new, marks, reached⟩, after⟩ := steps tidy
  exact ⟨⟨[], marks, reached_revertToSnapshot reached⟩, after.revertToSnapshot reached⟩

end

/-- Whatever a program does can be undone. -/
theorem steps_run {F α : Type} (keeps : F → Bool) (p : Prog stateInterface F α) (s : StateDB) :
    Steps s (p.run stateMachine keeps s).1 :=
  p.run_reaches keeps Steps.refl Steps.trans steps_call steps_revertToSnapshot s

end Linkeye.Core.Rewind
