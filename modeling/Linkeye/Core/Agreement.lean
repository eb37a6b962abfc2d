import Linkeye.Core.Rewind

/-!
# Runs that agree

Two state databases that no call tells apart stay so whatever program is run on
both, and end a transaction with the same account trie.  A failed transaction
that is undone leaves such a state behind, unless it has touched `ripemd`.
-/

set_option autoImplicit false

namespace Linkeye.Core.Agreement

open Std Common.Types Journaling Rewind
open StateProcessor (Log)
open Lib.Programs Lib.Maps

/-- No call tells the states apart, and their journals do the same. -/
structure Same (s t : StateDB) : Prop where
  alike : Alike s t
  entries : t.journal.entries = s.journal.entries
  count : ∀ a, count t a = count s a

section
variable {s t : StateDB} {a : Address}

section
variable (same : Same s t)
include same

theorem Same.append (entry : JournalEntry) :
    Same (s.append entry) (t.append entry) where
  alike := ((Alike.of_journal s _).symm.trans same.alike).trans (Alike.of_journal t _)
  entries := congrArg (entry :: ·) same.entries
  count := by
    intro b
    rw [count_append, count_append, same.count]

theorem Same.setStateObject (a : Address) {obj : StateObject}
    (live : obj.deleted = false) : Same (s.setStateObject a obj) (t.setStateObject a obj) :=
  ⟨same.alike.setStateObject a live, same.entries, same.count⟩

theorem Same.getStateObject (a : Address) :
    (t.getStateObject a).2 = (s.getStateObject a).2 ∧
      Same (s.getStateObject a).1 (t.getStateObject a).1 := by
  have equal := same.alike.lookup a
  cases found : lookup s a with
  | none =>
    rw [found] at equal
    rw [getStateObject_of_none found, getStateObject_of_none equal]
    exact ⟨rfl, same⟩
  | some obj =>
    rw [found] at equal
    rw [(getStateObject_of_some found).1, (getStateObject_of_some equal).1]
    exact ⟨rfl, same.setStateObject a (deleted_of_lookup found)⟩

theorem Same.getOrNewStateObject (a : Address) :
    (t.getOrNewStateObject a).2 = (s.getOrNewStateObject a).2 ∧
      Same (s.getOrNewStateObject a).1 (t.getOrNewStateObject a).1 ∧
      (s.getOrNewStateObject a).2.deleted = false := by
  have equal := same.alike.lookup a
  cases found : lookup s a with
  | none =>
    rw [found] at equal
    rw [getOrNewStateObject_of_none found, getOrNewStateObject_of_none equal]
    exact ⟨rfl, (same.append _).setStateObject a rfl, rfl⟩
  | some obj =>
    rw [found] at equal
    rw [getOrNewStateObject_of_some found, getOrNewStateObject_of_some equal]
    have live := deleted_of_lookup found
    exact ⟨rfl, same.setStateObject a live, live⟩

theorem Same.change {entry : StateObject → JournalEntry}
    {set : StateObject → StateObject} (keeps : ∀ obj, (set obj).deleted = obj.deleted) :
    Same (s.change a entry set) (t.change a entry set) := by
  obtain ⟨equal, after, live⟩ := same.getOrNewStateObject a
  rw [StateDB.change, StateDB.change, equal]
  exact (after.append _).setStateObject a ((keeps _).trans live)

theorem Same.setBalance (a : Address) (amount : StateObject → Int) :
    Same (s.setBalance a amount) (t.setBalance a amount) := by
  rw [StateDB.setBalance, StateDB.setBalance]
  exact same.change fun _ => rfl

theorem Same.touch (a : Address) : Same (s.touch a) (t.touch a) := by
  have appended := same.append (.touchChange a)
  rw [StateDB.touch, StateDB.touch]
  by_cases own : a = ripemd
  · rw [if_pos own, if_pos own]
    refine ⟨?_, appended.entries, fun b => ?_⟩
    · exact ((Alike.of_journal _ _).symm.trans appended.alike).trans (Alike.of_journal _ _)
    · have counted := appended.count b
      rw [Rewind.count, Rewind.count] at counted ⊢
      simp only [Journal.dirty, getD_bump, counted]
  · rw [if_neg own, if_neg own]
    exact appended

theorem Same.addBalance (a : Address) (amount : Int) :
    Same (s.addBalance a amount) (t.addBalance a amount) := by
  rw [StateDB.addBalance, StateDB.addBalance]
  by_cases nothing : amount = 0
  · rw [if_pos nothing, if_pos nothing]
    obtain ⟨equal, after, _⟩ := same.getOrNewStateObject a
    dsimp only
    rw [equal]
    split
    · exact after.touch a
    · exact after
  · rw [if_neg nothing, if_neg nothing]
    exact same.setBalance a _

theorem Same.subBalance (a : Address) (amount : Int) :
    Same (s.subBalance a amount) (t.subBalance a amount) := by
  rw [StateDB.subBalance, StateDB.subBalance]
  by_cases nothing : amount = 0
  · rw [if_pos nothing, if_pos nothing]
    exact (same.getOrNewStateObject a).2.1
  · rw [if_neg nothing, if_neg nothing]
    exact same.setBalance a _

theorem Same.createAccount (a : Address) :
    Same (s.createAccount a) (t.createAccount a) := by
  obtain ⟨equal, after⟩ := same.getStateObject a
  rw [StateDB.createAccount, StateDB.createAccount, StateDB.createObject, StateDB.createObject]
  generalize s.getStateObject a = left at equal after
  generalize t.getStateObject a = right at equal after
  obtain ⟨s', got⟩ := left
  obtain ⟨t', got'⟩ := right
  subst equal
  cases got' with
  | none => exact (after.append _).setStateObject a rfl
  | some prev => exact ((after.append _).setStateObject a rfl).setStateObject a rfl

theorem Same.suicide (a : Address) :
    (t.suicide a).2 = (s.suicide a).2 ∧ Same (s.suicide a).1 (t.suicide a).1 := by
  have equal := same.alike.lookup a
  rw [StateDB.suicide, StateDB.suicide]
  cases found : lookup s a with
  | none =>
    rw [found] at equal
    rw [getStateObject_of_none found, getStateObject_of_none equal]
    exact ⟨rfl, same⟩
  | some obj =>
    rw [found] at equal
    rw [(getStateObject_of_some found).1, (getStateObject_of_some equal).1]
    have live := deleted_of_lookup found
    exact ⟨rfl, ((same.setStateObject a live).append _).setStateObject a live⟩

theorem Same.addRefund (gas : Nat) : Same (s.addRefund gas) (t.addRefund gas) := by
  have refund := same.alike.refund
  have appended := same.append (.refundChange s.refund)
  rw [StateDB.addRefund, StateDB.addRefund, refund]
  exact ⟨⟨appended.alike.trie, appended.alike.lookup_congr rfl rfl rfl rfl, rfl, appended.alike.logs,
    appended.alike.logSize, appended.alike.thash, appended.alike.txIndex⟩, appended.entries,
    appended.count⟩

theorem Same.addLog (log : Log) : Same (s.addLog log) (t.addLog log) := by
  have thash := same.alike.thash
  have appended := same.append (.addLogChange s.thash)
  rw [StateDB.addLog, StateDB.addLog, thash, same.alike.logs, same.alike.txIndex,
    same.alike.logSize]
  refine ⟨⟨appended.alike.trie, appended.alike.lookup_congr rfl rfl rfl rfl, appended.alike.refund, fun hash => ?_, rfl,
    appended.alike.thash, appended.alike.txIndex⟩, appended.entries, appended.count⟩
  simp only [ExtTreeMap.getD_insert, same.alike.logs]

theorem Same.read {α : Type} (a : Address) (read : Option StateObject → α) :
    (s.read a read).2 = (t.read a read).2 ∧ Same (s.read a read).1 (t.read a read).1 := by
  obtain ⟨equal, after⟩ := same.getStateObject a
  exact ⟨congrArg read equal.symm, after⟩

theorem Same.call (c : Call) :
    (s.call c).2 = (t.call c).2 ∧ Same (s.call c).1 (t.call c).1 := by
  cases c with
  | createAccount a => exact ⟨rfl, same.createAccount a⟩
  | subBalance a amount => exact ⟨rfl, same.subBalance a amount⟩
  | addBalance a amount => exact ⟨rfl, same.addBalance a amount⟩
  | setBalance a amount => exact ⟨rfl, same.setBalance a fun _ => amount⟩
  | getBalance a | getNonce a | getCode a | getState a | hasSuicided a | exist a | empty a =>
    exact same.read a _
  | setNonce | setCode | setState =>
    refine ⟨rfl, ?_⟩
    dsimp only [StateDB.call, StateDB.setNonce, StateDB.setCode, StateDB.setState]
    exact same.change fun _ => rfl
  | addRefund gas => exact ⟨rfl, same.addRefund gas⟩
  | getRefund => exact ⟨same.alike.refund.symm, same⟩
  | suicide a => exact ⟨(same.suicide a).1.symm, (same.suicide a).2⟩
  | addLog log => exact ⟨rfl, same.addLog log⟩

end

end

/-! ## Two runs of one program -/

/-- Tidy states that no call tells apart. -/
structure Twins (s t : StateDB) : Prop where
  same : Same s t
  left : Tidy s
  right : Tidy t

section
variable {s t s' t' : StateDB}

theorem Twins.call (twins : Twins s t) (c : Call) :
    (s.call c).2 = (t.call c).2 ∧ Twins (s.call c).1 (t.call c).1 := by
  obtain ⟨answer, same⟩ := twins.same.call c
  exact ⟨answer, same, (steps_call c s twins.left).2, (steps_call c t twins.right).2⟩

theorem Twins.revertToSnapshot (twins : Twins s t) (left : Steps s s') (right : Steps t t')
    (after : Twins s' t') :
    Twins (s'.revertToSnapshot s.snapshot) (t'.revertToSnapshot t.snapshot) := by
  obtain ⟨⟨new, marks, reached⟩, tidy⟩ := left twins.left
  obtain ⟨⟨new', marks', reached'⟩, tidy'⟩ := right twins.right
  have equal : new' = new := by
    have entries := after.same.entries
    rw [reached.entries, reached'.entries, twins.same.entries] at entries
    exact List.append_cancel_right entries
  subst equal
  have back := reached_revertToSnapshot reached
  have back' := reached_revertToSnapshot reached'
  refine ⟨⟨?_, ?_, fun a => ?_⟩, tidy.revertToSnapshot reached, tidy'.revertToSnapshot reached'⟩
  · exact (back.undone.symm.trans twins.same.alike).trans back'.undone
  · rw [back.entries, back'.entries, twins.same.entries]
  · have counted := after.same.count a
    rw [reached.count, reached'.count, twins.same.count] at counted
    rw [back.count, back'.count, twins.same.count]
    omega

theorem Twins.run {F α : Type} (keeps : F → Bool) (p : Prog stateInterface F α)
    (twins : Twins s t) :
    (p.run stateMachine keeps s).2 = (p.run stateMachine keeps t).2 ∧
      Twins (p.run stateMachine keeps s).1 (p.run stateMachine keeps t).1 :=
  p.run_agrees keeps Steps.refl Steps.trans steps_call steps_revertToSnapshot
    (fun c _ _ twins => twins.call c)
    (fun twins left right after => twins.revertToSnapshot left right after) twins

end

/-! ## The end of a transaction -/

def Goes (deleteEmptyObjects : Bool) (obj : StateObject) : Prop :=
  obj.suicided = true ∨ (deleteEmptyObjects = true ∧ obj.empty = true)

instance (deleteEmptyObjects : Bool) (obj : StateObject) : Decidable (Goes deleteEmptyObjects obj) :=
  inferInstanceAs (Decidable (_ ∨ _))

/-- What the trie has of a dirty address in the end, from what is held and stored
of it. -/
def storedAfter (del : Bool) (held : Option StateObject) (stored : Option Account) :
    Option Account :=
  match held with
  | none => stored
  | some obj => if Goes del obj then none else some obj.data

def heldAfter (del : Bool) (obj : StateObject) : StateObject :=
  if Goes del obj then { obj with deleted := true } else obj

section
variable (del : Bool) {s t : StateDB}

theorem heldAfter_heldAfter (obj : StateObject) :
    heldAfter del (heldAfter del obj) = heldAfter del obj := by
  by_cases goes : Goes del obj
  · have still : Goes del { obj with deleted := true } := goes
    rw [heldAfter, heldAfter, if_pos goes, if_pos still]
  · rw [heldAfter, heldAfter, if_neg goes, if_neg goes]

theorem storedAfter_again (held : Option StateObject) (stored : Option Account) :
    storedAfter del (held.map (heldAfter del)) (storedAfter del held stored) =
      storedAfter del held stored := by
  cases held with
  | none => rfl
  | some obj =>
    rw [Option.map_some, storedAfter, storedAfter, heldAfter]
    by_cases goes : Goes del obj
    · have still : Goes del { obj with deleted := true } := goes
      simp only [if_pos goes, if_pos still]
    · simp only [if_neg goes]

theorem finaliseOne_of_ne (s : StateDB) {a b : Address} (different : a ≠ b) :
    (StateDB.finaliseOne del s a).trie[b]? = s.trie[b]? ∧
      (StateDB.finaliseOne del s a).stateObjects[b]? = s.stateObjects[b]? := by
  rw [StateDB.finaliseOne]
  split
  · exact ⟨rfl, rfl⟩
  · split
    · simp only [get_erase, get_insert, if_neg different, and_self]
    · simp only [get_insert, if_neg different, and_self]

theorem finaliseOne_self (s : StateDB) (a : Address) :
    (StateDB.finaliseOne del s a).trie[a]? = storedAfter del s.stateObjects[a]? s.trie[a]? ∧
      (StateDB.finaliseOne del s a).stateObjects[a]? =
        s.stateObjects[a]?.map (heldAfter del) := by
  rw [StateDB.finaliseOne]
  cases held : s.stateObjects[a]? with
  | none => exact ⟨rfl, held⟩
  | some obj =>
    rw [Option.map_some, storedAfter, heldAfter]
    dsimp only
    split
    · rename_i goes
      have goes : Goes del obj := goes
      rw [if_pos goes, if_pos goes]
      exact ⟨ExtTreeMap.getElem?_erase_self, ExtTreeMap.getElem?_insert_self⟩
    · rename_i stays
      have stays : ¬ Goes del obj := stays
      rw [if_neg stays, if_neg stays]
      exact ⟨ExtTreeMap.getElem?_insert_self, held⟩

/-- The loop of `Finalise`, at one address. -/
theorem finaliseAll_at (addrs : List Address) (s : StateDB) (a : Address) :
    (addrs.foldl (StateDB.finaliseOne del) s).trie[a]? =
        (if a ∈ addrs then storedAfter del s.stateObjects[a]? s.trie[a]? else s.trie[a]?) ∧
      (addrs.foldl (StateDB.finaliseOne del) s).stateObjects[a]? =
        if a ∈ addrs then s.stateObjects[a]?.map (heldAfter del) else s.stateObjects[a]? := by
  induction addrs generalizing s with
  | nil => exact ⟨(if_neg List.not_mem_nil).symm, (if_neg List.not_mem_nil).symm⟩
  | cons b rest ih =>
    obtain ⟨stored, held⟩ := ih (StateDB.finaliseOne del s b)
    rw [List.foldl_cons, stored, held]
    by_cases own : b = a
    · subst own
      obtain ⟨storedOnce, heldOnce⟩ := finaliseOne_self del s b
      rw [storedOnce, heldOnce, if_pos List.mem_cons_self, if_pos List.mem_cons_self]
      by_cases again : b ∈ rest
      · rw [if_pos again, if_pos again, storedAfter_again, Option.map_map]
        refine ⟨rfl, congrArg (Option.map · s.stateObjects[b]?) ?_⟩
        funext obj
        exact heldAfter_heldAfter del obj
      · rw [if_neg again, if_neg again]
        exact ⟨rfl, rfl⟩
    · obtain ⟨storedKept, heldKept⟩ := finaliseOne_of_ne del s own
      have member : a ∈ b :: rest ↔ a ∈ rest := by
        rw [List.mem_cons, or_iff_right (fun same => own same.symm)]
      rw [storedKept, heldKept]
      simp only [member, and_self]

theorem mem_dirties_iff (tidy : Tidy s) (a : Address) :
    a ∈ s.journal.dirties.keys ↔ 0 < count s a := by
  rw [ExtTreeMap.mem_keys]
  refine ⟨tidy.positive a, fun marked => ?_⟩
  by_contra absent
  rw [count, ExtTreeMap.getD_eq_fallback absent] at marked
  exact lt_irrefl 0 marked

theorem stateObjects_finalise (tidy : Tidy s) (a : Address) :
    (s.finalise del).stateObjects[a]? =
      if 0 < count s a then s.stateObjects[a]?.map (heldAfter del) else s.stateObjects[a]? := by
  have held := (finaliseAll_at del s.journal.dirties.keys s a).2
  simp only [mem_dirties_iff tidy] at held
  exact held

theorem trie_finalise (tidy : Tidy s) (a : Address) :
    (s.finalise del).trie[a]? =
      if 0 < count s a then storedAfter del (lookup s a) none else s.trie[a]? := by
  have stored := (finaliseAll_at del s.journal.dirties.keys s a).1
  simp only [mem_dirties_iff tidy] at stored
  refine stored.trans ?_
  by_cases marked : 0 < count s a
  · rw [if_pos marked, if_pos marked]
    rcases tidy.dirty a marked with ⟨obj, held, live⟩ | ⟨held, missing⟩
    · rw [lookup_of_held held live, held]
      rfl
    · rw [lookup_eq, held, missing]
      rfl
  · rw [if_neg marked, if_neg marked]

theorem lookup_finalise (tidy : Tidy s) (a : Address) :
    lookup (s.finalise del) a =
      if 0 < count s a then (lookup s a).filter fun obj => decide (¬ Goes del obj)
      else lookup s a := by
  rw [lookup_eq, trie_finalise del tidy, stateObjects_finalise del tidy]
  by_cases marked : 0 < count s a
  · simp only [if_pos marked]
    rcases tidy.dirty a marked with ⟨obj, held, live⟩ | ⟨held, missing⟩
    · rw [lookup_of_held held live, held, Option.map_some, heldAfter]
      by_cases goes : Goes del obj
      · simp [goes, Option.filter]
      · simp [goes, live, Option.filter]
    · rw [lookup_eq, held, missing]
      rfl
  · simp only [if_neg marked]
    rw [lookup_eq]

theorem tidy_finalise (tidy : Tidy s) : Tidy (s.finalise del) where
  dirty := by
    intro a marked
    rw [count, StateDB.finalise, ExtTreeMap.getD_empty] at marked
    exact absurd marked (lt_irrefl 0)
  gone := by
    intro a obj found deleted
    rw [stateObjects_finalise del tidy] at found
    rw [trie_finalise del tidy]
    by_cases marked : 0 < count s a
    · rw [if_pos marked] at found ⊢
      rcases tidy.dirty a marked with ⟨old, before, live⟩ | ⟨before, _⟩
      · rw [before, Option.map_some, heldAfter] at found
        rw [lookup_of_held before live, storedAfter]
        by_cases goes : Goes del old
        · exact if_pos goes
        · rw [if_neg goes] at found
          cases found
          rw [live] at deleted
          cases deleted
      · rw [before] at found
        cases found
    · rw [if_neg marked] at found ⊢
      exact tidy.gone a obj found deleted
  created := fun _ member => absurd member List.not_mem_nil
  restorable := fun _ _ member => absurd member List.not_mem_nil
  positive := fun _ member => absurd member ExtTreeMap.not_mem_empty

theorem finalise_fields (s : StateDB) :
    (s.finalise del).logs = s.logs ∧ (s.finalise del).logSize = s.logSize ∧
      (s.finalise del).thash = s.thash ∧ (s.finalise del).txIndex = s.txIndex := by
  have step (s : StateDB) (a : Address) :
      (StateDB.finaliseOne del s a).logs = s.logs ∧
        (StateDB.finaliseOne del s a).logSize = s.logSize ∧
        (StateDB.finaliseOne del s a).thash = s.thash ∧
        (StateDB.finaliseOne del s a).txIndex = s.txIndex := by
    rw [StateDB.finaliseOne]
    split
    · exact ⟨rfl, rfl, rfl, rfl⟩
    · split <;> exact ⟨rfl, rfl, rfl, rfl⟩
  have all (addrs : List Address) (s : StateDB) :
      (addrs.foldl (StateDB.finaliseOne del) s).logs = s.logs ∧
        (addrs.foldl (StateDB.finaliseOne del) s).logSize = s.logSize ∧
        (addrs.foldl (StateDB.finaliseOne del) s).thash = s.thash ∧
        (addrs.foldl (StateDB.finaliseOne del) s).txIndex = s.txIndex := by
    induction addrs generalizing s with
    | nil => exact ⟨rfl, rfl, rfl, rfl⟩
    | cons a rest ih =>
      obtain ⟨logs, logSize, thash, txIndex⟩ := step s a
      rw [List.foldl_cons]
      obtain ⟨logs', logSize', thash', txIndex'⟩ := ih (StateDB.finaliseOne del s a)
      exact ⟨logs'.trans logs, logSize'.trans logSize, thash'.trans thash,
        txIndex'.trans txIndex⟩
  exact all _ s

theorem Twins.finalise (twins : Twins s t) :
    Twins (s.finalise del) (t.finalise del) := by
  obtain ⟨logs, logSize, thash, txIndex⟩ := finalise_fields del s
  obtain ⟨logs', logSize', thash', txIndex'⟩ := finalise_fields del t
  have alike := twins.same.alike
  refine ⟨⟨⟨?_, fun a => ?_, rfl, fun hash => ?_, ?_, ?_, ?_⟩, rfl, fun a => rfl⟩,
    tidy_finalise del twins.left, tidy_finalise del twins.right⟩
  · ext1 a
    rw [trie_finalise del twins.left, trie_finalise del twins.right, twins.same.count, alike.lookup,
      alike.trie]
  · rw [lookup_finalise del twins.left, lookup_finalise del twins.right, twins.same.count, alike.lookup]
  · rw [logs, logs', alike.logs]
  · rw [logSize, logSize', alike.logSize]
  · rw [thash, thash', alike.thash]
  · rw [txIndex, txIndex', alike.txIndex]

end

end Linkeye.Core.Agreement
