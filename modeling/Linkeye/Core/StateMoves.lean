import Linkeye.Core.StateObjects

/-!
# What a state database shows, and how its calls move it

A state shows each account by what the getters answer for it, together with the
refund counter, the logs and the preimages.  Every call that changes accounts is made
of a few moves: an object is loaded, refreshed by a read, created, reset or changed.
Each move leaves at most one journal entry, and undoing that entry brings back what
the state showed before the move.
-/

set_option autoImplicit false

namespace Linkeye.Core.StateMoves

open Std Common.Types
open Journaling (ripemd PlacedLog)
open StateProcessor (Log)
open StateObjects Lib.Maps

/-! ## What an object shows -/

/-- The storage trie that an object reads where its cache does not answer. -/
def base (db : Database) (obj : StateObject) : Storage :=
  obj.trie.getD ((db.openStorageTrie obj.data.root).getD .empty)

def slot (db : Database) (obj : StateObject) (key : Hash) : Hash :=
  (obj.cachedStorage[key]?).getD ((base db obj).get key)

def codeAnswer (db : Database) (code : Option Bytes) (codeHash : Bytes) : Bytes :=
  code.getD ((db.contractCode codeHash).getD [])

/-- An account as the getters answer for it. -/
@[ext] structure View where
  nonce : UInt64
  balance : Int
  codeHash : Bytes
  code : Bytes
  storage : Hash → Hash
  suicided : Bool

def view (db : Database) (obj : StateObject) : View where
  nonce := obj.data.nonce
  balance := obj.data.balance
  codeHash := obj.data.codeHash
  code := codeAnswer db obj.code obj.data.codeHash
  storage := slot db obj
  suicided := obj.suicided

section
variable (db : Database) (obj : StateObject)

theorem getTrie_snd : (obj.getTrie db).2 = base db obj := by
  rw [StateObject.getTrie, base]
  cases obj.trie with
  | some tr => rfl
  | none => cases db.openStorageTrie obj.data.root <;> rfl

theorem getTrie_fst :
    ∃ err, (obj.getTrie db).1 = { obj with dbErr := err, trie := some (base db obj) } ∧
      (err = obj.dbErr ∨ (obj.trie = none ∧ db.openStorageTrie obj.data.root = none)) := by
  rw [StateObject.getTrie, base]
  cases opened : obj.trie with
  | some tr => exact ⟨obj.dbErr, by cases obj; cases opened; rfl, .inl rfl⟩
  | none =>
    cases db.openStorageTrie obj.data.root with
    | some tr => exact ⟨obj.dbErr, rfl, .inl rfl⟩
    | none => exact ⟨_, rfl, .inr ⟨rfl, rfl⟩⟩

theorem getState_snd (key : Hash) : (obj.getState db key).2 = slot db obj key := by
  rw [StateObject.getState, slot]
  cases obj.cachedStorage[key]? with
  | some value => rfl
  | none =>
    dsimp only
    rw [getTrie_snd]
    rfl

theorem contractCode_nil : (db.contractCode []).getD [] = [] := by
  rw [Database.contractCode]
  split <;> rfl

theorem getCode_snd : (obj.getCode db).2.getD [] = codeAnswer db obj.code obj.data.codeHash := by
  rw [StateObject.getCode, codeAnswer]
  cases obj.code with
  | some code => rfl
  | none =>
    by_cases none : obj.data.codeHash = []
    · rw [if_pos none, none]
      exact (contractCode_nil db).symm
    · rw [if_neg none]
      cases db.contractCode obj.data.codeHash <;> rfl

end

/-- What a read may do to an object: open its trie, cache a slot, load the code. -/
structure Refreshed (db : Database) (obj obj' : StateObject) : Prop where
  data : obj'.data = obj.data
  suicided : obj'.suicided = obj.suicided
  deleted : obj'.deleted = obj.deleted
  dirtyStorage : obj'.dirtyStorage = obj.dirtyStorage
  dirtyCode : obj'.dirtyCode = obj.dirtyCode
  trie : obj'.trie = obj.trie ∨ obj'.trie = some (base db obj)
  cached : ∀ key : Hash, obj'.cachedStorage[key]? = obj.cachedStorage[key]? ∨
    (obj'.trie = some (base db obj) ∧ obj.cachedStorage[key]? = none ∧
      obj'.cachedStorage[key]? = some ((base db obj).get key))
  code : obj'.code = obj.code ∨
    (obj.code = none ∧ obj'.code = some obj.data.codeHash ∧ obj.data.codeHash ∈ db.codes)
  dbErr : obj'.dbErr = obj.dbErr ∨ (obj.trie = none ∧ db.openStorageTrie obj.data.root = none) ∨
    (obj.code = none ∧ obj.data.codeHash ≠ [] ∧ obj.data.codeHash ∉ db.codes)

namespace Refreshed
variable {db : Database} {obj obj' : StateObject}

theorem refl (db : Database) (obj : StateObject) : Refreshed db obj obj :=
  ⟨rfl, rfl, rfl, rfl, rfl, .inl rfl, fun _ => .inl rfl, .inl rfl, .inl rfl⟩

theorem getState (db : Database) (obj : StateObject) (key : Hash) :
    Refreshed db obj (obj.getState db key).1 := by
  rw [StateObject.getState]
  cases cached : obj.cachedStorage[key]? with
  | some value => exact refl db obj
  | none =>
    obtain ⟨err, opened, missing⟩ := getTrie_fst db obj
    dsimp only
    rw [opened, getTrie_snd]
    refine ⟨rfl, rfl, rfl, rfl, rfl, .inr rfl, ?_, .inl rfl, missing.imp_right .inl⟩
    intro other
    by_cases same : key = other
    · subst same
      exact .inr ⟨rfl, cached, ExtTreeMap.getElem?_insert_self⟩
    · left
      rw [get_insert, if_neg same]

theorem getCode (db : Database) (obj : StateObject) : Refreshed db obj (obj.getCode db).1 := by
  rw [StateObject.getCode]
  cases code : obj.code with
  | some code => exact refl db obj
  | none =>
    dsimp only
    split
    · exact refl db obj
    · rename_i nonempty
      by_cases stored : obj.data.codeHash ∈ db.codes
      · rw [Database.contractCode, if_pos stored]
        exact ⟨rfl, rfl, rfl, rfl, rfl, .inl rfl, fun _ => .inl rfl, .inr ⟨code, rfl, stored⟩,
          .inl rfl⟩
      · rw [Database.contractCode, if_neg stored]
        exact ⟨rfl, rfl, rfl, rfl, rfl, .inl rfl, fun _ => .inl rfl, .inl rfl,
          .inr (.inr ⟨code, nonempty, stored⟩)⟩

section
variable (refreshed : Refreshed db obj obj')
include refreshed

theorem base_eq : base db obj' = base db obj := by
  rcases refreshed.trie with same | opened
  · rw [base, base, same, refreshed.data]
  · rw [base, opened]
    rfl

theorem slot_eq : slot db obj' = slot db obj := by
  funext key
  rw [slot, slot, refreshed.base_eq]
  rcases refreshed.cached key with same | ⟨_, absent, present⟩
  · rw [same]
  · rw [absent, present]
    rfl

theorem codeAnswer_eq :
    codeAnswer db obj'.code obj'.data.codeHash = codeAnswer db obj.code obj.data.codeHash := by
  rw [refreshed.data]
  rcases refreshed.code with same | ⟨absent, loaded, stored⟩
  · rw [same]
  · rw [absent, loaded, codeAnswer, codeAnswer, Database.contractCode, if_pos stored]
    rfl

theorem view_eq : view db obj' = view db obj := by
  have code := refreshed.codeAnswer_eq
  rw [refreshed.data] at code
  rw [view, view, refreshed.data, refreshed.slot_eq, refreshed.suicided, code]

end

end Refreshed

/-! ## The slots of an object and its storage trie -/

/-- A dirty slot is cached as it is, and a cached slot that is not dirty is that of the
open trie. -/
structure Coherent (obj : StateObject) : Prop where
  dirty : ∀ key value : Hash, obj.dirtyStorage[key]? = some value →
    obj.cachedStorage[key]? = some value
  clean : ∀ key value : Hash, obj.cachedStorage[key]? = some value →
    obj.dirtyStorage[key]? = none → ∃ tr, obj.trie = some tr ∧ tr.get key = value

namespace Coherent
variable {db : Database} {obj obj' : StateObject}

theorem newObject (data : Account) : Coherent (.newObject data) where
  dirty := by
    intro key value dirty
    simp [StateObject.newObject] at dirty
  clean := by
    intro key value cached
    simp [StateObject.newObject] at cached

theorem congr (coherent : Coherent obj) (cached : obj'.cachedStorage = obj.cachedStorage)
    (dirty : obj'.dirtyStorage = obj.dirtyStorage) (trie : obj'.trie = obj.trie) :
    Coherent obj' where
  dirty := by
    rw [cached, dirty]
    exact coherent.dirty
  clean := by
    rw [cached, dirty, trie]
    exact coherent.clean

theorem setState (coherent : Coherent obj) (key value : Hash) :
    Coherent (obj.setState key value) where
  dirty := by
    intro other found dirty
    rw [StateObject.setState, ExtTreeMap.getElem?_insert] at dirty ⊢
    split
    · rename_i same
      rw [if_pos same] at dirty
      exact dirty
    · rename_i different
      rw [if_neg different] at dirty
      exact coherent.dirty other found dirty
  clean := by
    intro other found cached clean
    rw [StateObject.setState, ExtTreeMap.getElem?_insert] at cached clean
    split at clean
    · cases clean
    · rename_i different
      rw [if_neg different] at cached
      exact coherent.clean other found cached clean

theorem refreshed (coherent : Coherent obj) (fresh : Refreshed db obj obj') : Coherent obj' where
  dirty := by
    intro key value dirty
    rw [fresh.dirtyStorage] at dirty
    have known := coherent.dirty key value dirty
    rcases fresh.cached key with same | ⟨_, absent, _⟩
    · rw [same, known]
    · rw [absent] at known
      cases known
  clean := by
    intro key value cached clean
    rw [fresh.dirtyStorage] at clean
    rcases fresh.cached key with same | ⟨opened, _, present⟩
    · rw [same] at cached
      obtain ⟨tr, opened, read⟩ := coherent.clean key value cached clean
      have kept : obj'.trie = some tr := by
        rcases fresh.trie with same | new
        · rw [same, opened]
        · rw [new, base, opened]
          rfl
      exact ⟨tr, kept, read⟩
    · rw [present] at cached
      exact ⟨base db obj, opened, Option.some.inj cached⟩

/-- What the cache does not show is dirty or in the trie. -/
theorem slot_eq (coherent : Coherent obj) (key : Hash) :
    slot db obj key = (obj.dirtyStorage[key]?).getD ((base db obj).get key) := by
  rw [slot]
  cases dirty : obj.dirtyStorage[key]? with
  | some value => rw [coherent.dirty key value dirty, Option.getD_some]
  | none =>
    cases cached : obj.cachedStorage[key]? with
    | none => rfl
    | some value =>
      obtain ⟨tr, opened, read⟩ := coherent.clean key value cached dirty
      rw [base, opened]
      exact read.symm

end Coherent

section
variable {slots : List (Hash × Hash)} {tr : Storage} {key value : Hash}

theorem get_flush_of_not_mem (absent : ∀ value, (key, value) ∉ slots) :
    (slots.foldl (fun tr slot => tr.put slot.1 slot.2) tr).get key = tr.get key := by
  induction slots generalizing tr with
  | nil => rfl
  | cons slot rest ih =>
    have different : slot.1 ≠ key := by
      rintro rfl
      exact absent slot.2 List.mem_cons_self
    rw [List.foldl_cons, ih (fun value member => absent value (List.mem_cons_of_mem _ member)),
      Storage.get_put, if_neg different]

theorem get_flush_of_mem (distinct : slots.Pairwise fun slot slot' => slot.1 ≠ slot'.1)
    (member : (key, value) ∈ slots) :
    (slots.foldl (fun tr slot => tr.put slot.1 slot.2) tr).get key = value := by
  induction slots generalizing tr with
  | nil => cases member
  | cons slot rest ih =>
    obtain ⟨apart, others⟩ := List.pairwise_cons.mp distinct
    rw [List.foldl_cons]
    rcases List.mem_cons.mp member with rfl | later
    · rw [get_flush_of_not_mem (fun value again => apart _ again rfl), Storage.get_put,
        if_pos rfl]
    · exact ih others later

end

section
variable {db : Database} {obj obj' : StateObject}

/-- The trie that `updateTrie` makes reads as the object does. -/
theorem get_updateTrie (coherent : Coherent obj) (key : Hash) :
    (obj.updateTrie db).2.get key = slot db obj key := by
  obtain ⟨err, opened, _⟩ := getTrie_fst db obj
  rw [coherent.slot_eq, StateObject.updateTrie]
  rw [opened, getTrie_snd]
  have distinct : obj.dirtyStorage.toList.Pairwise fun slot slot' => slot.1 ≠ slot'.1 := by
    refine ExtTreeMap.distinct_keys_toList.imp ?_
    intro slot slot' different same
    exact different (compare_eq_iff_eq.mpr same)
  cases dirty : obj.dirtyStorage[key]? with
  | some value =>
    exact get_flush_of_mem distinct
      (ExtTreeMap.mem_toList_iff_getElem?_eq_some.mpr dirty)
  | none =>
    apply get_flush_of_not_mem
    intro value member
    rw [ExtTreeMap.mem_toList_iff_getElem?_eq_some, dirty] at member
    cases member

theorem updateTrie_fst (db : Database) (obj : StateObject) :
    ∃ err, (obj.updateTrie db).1 =
        { obj with dbErr := err, trie := some (obj.updateTrie db).2, dirtyStorage := ∅ } ∧
      (err = obj.dbErr ∨ (obj.trie = none ∧ db.openStorageTrie obj.data.root = none)) := by
  obtain ⟨err, opened, missing⟩ := getTrie_fst db obj
  refine ⟨err, ?_, missing⟩
  rw [StateObject.updateTrie]
  rw [opened]

theorem updateRoot_eq (db : Database) (obj : StateObject) :
    ∃ err, obj.updateRoot db =
        { obj with
          data := { obj.data with root := (obj.updateTrie db).2 }
          dbErr := err
          trie := some (obj.updateTrie db).2
          dirtyStorage := ∅ } ∧
      (err = obj.dbErr ∨ (obj.trie = none ∧ db.openStorageTrie obj.data.root = none)) := by
  obtain ⟨err, updated, missing⟩ := updateTrie_fst db obj
  refine ⟨err, ?_, missing⟩
  rw [StateObject.updateRoot]
  rw [updated]

/-- Once the slots are flushed, the cache agrees with the trie. -/
theorem Coherent.flushed (coherent : Coherent obj)
    (cached : obj'.cachedStorage = obj.cachedStorage) (dirty : obj'.dirtyStorage = ∅)
    (trie : obj'.trie = some (obj.updateTrie db).2) : Coherent obj' where
  dirty := by
    intro key value found
    simp [dirty] at found
  clean := by
    intro key value found _
    rw [cached] at found
    refine ⟨_, trie, ?_⟩
    rw [get_updateTrie coherent, slot, found]
    rfl

theorem Coherent.updateRoot (coherent : Coherent obj) : Coherent (obj.updateRoot db) := by
  obtain ⟨err, updated, _⟩ := updateRoot_eq db obj
  rw [updated]
  exact coherent.flushed rfl rfl rfl

theorem Coherent.deepCopy (obj : StateObject) : Coherent obj.deepCopy where
  dirty := fun _ _ found => found
  clean := by
    intro key value cached clean
    rw [StateObject.deepCopy] at cached clean
    rw [clean] at cached
    cases cached

end

/-! ## What a state shows -/

def lookup (s : StateDB) (a : Address) : Option StateObject := (s.getStateObject a).2

@[ext] structure Observed where
  account : Address → Option View
  refund : UInt64
  logs : Hash → List PlacedLog
  logSize : Nat
  preimages : Hash → Option Bytes

def Observed.setAccount (o : Observed) (a : Address) (v : Option View) : Observed :=
  { o with account := Function.update o.account a v }

variable (o : Observed)

theorem Observed.account_setAccount (a b : Address) (v : Option View) :
    (o.setAccount a v).account b = if b = a then v else o.account b :=
  Function.update_apply _ _ _ _

theorem Observed.setAccount_twice (a : Address) (v v' : Option View) :
    (o.setAccount a v).setAccount a v' = o.setAccount a v' := by
  rw [setAccount, setAccount, setAccount, Function.update_idem]

theorem Observed.setAccount_self (a : Address) :
    o.setAccount a (o.account a) = o := by
  rw [setAccount, Function.update_eq_self]

def observed (s : StateDB) : Observed where
  account := fun a => (lookup s a).map (view s.db)
  refund := s.refund
  logs := fun hash => s.logs.getD hash []
  logSize := s.logSize
  preimages := fun hash => s.preimages[hash]?

variable {obj : StateObject}

section
variable (s : StateDB) (a b : Address)

theorem lookup_eq :
    lookup s a =
      match s.stateObjects[a]? with
      | some obj => if obj.deleted = true then none else some obj
      | none => s.trie[a]?.map .newObject := by
  rw [lookup, StateDB.getStateObject]
  cases s.stateObjects[a]? with
  | some obj => rfl
  | none => cases s.trie[a]? <;> rfl

theorem lookup_congr {t : StateDB} (trie : t.trie = s.trie)
    (objects : t.stateObjects[a]? = s.stateObjects[a]?) : lookup t a = lookup s a := by
  rw [lookup_eq, lookup_eq, trie, objects]

variable {a b}

theorem lookup_of_held (held : s.stateObjects[a]? = some obj)
    (live : obj.deleted = false) : lookup s a = some obj := by
  rw [lookup_eq, held]
  simp [live]

theorem lookup_eq_some (found : lookup s a = some obj) :
    obj.deleted = false ∧
      (s.stateObjects[a]? = some obj ∨
        ∃ data, s.stateObjects[a]? = none ∧ s.trie[a]? = some data ∧ obj = .newObject data) := by
  rw [lookup_eq] at found
  cases held : s.stateObjects[a]? with
  | some other =>
    rw [held] at found
    dsimp only at found
    split at found
    · cases found
    · rename_i live
      cases found
      exact ⟨Bool.eq_false_iff.mpr live, .inl rfl⟩
  | none =>
    rw [held] at found
    obtain ⟨data, stored, rfl⟩ := Option.map_eq_some_iff.mp found
    exact ⟨rfl, .inr ⟨data, rfl, stored, rfl⟩⟩

theorem held_setStateObject (obj : StateObject) :
    (s.setStateObject a obj).stateObjects[a]? = some obj :=
  ExtTreeMap.getElem?_insert_self

theorem held_setStateObject_of_ne (different : a ≠ b) (obj : StateObject) :
    (s.setStateObject a obj).stateObjects[b]? = s.stateObjects[b]? := by
  rw [StateDB.setStateObject, get_insert, if_neg different]

section
variable {p : Address → StateObject → Prop}
  (all : ∀ (b : Address) other, s.stateObjects[b]? = some other → p b other)
include all

theorem forall_setStateObject (own : p a obj) (b : Address)
    (other : StateObject) (held : (s.setStateObject a obj).stateObjects[b]? = some other) :
    p b other := by
  rw [StateDB.setStateObject, get_insert] at held
  split at held
  · next same =>
    cases held
    exact same ▸ own
  · exact all b other held

theorem forall_erase (b : Address) (other : StateObject)
    (held : (s.stateObjects.erase a)[b]? = some other) : p b other := by
  rw [ExtTreeMap.getElem?_erase] at held
  split at held
  · cases held
  · exact all b other held

end

theorem setStateObject_held (held : s.stateObjects[a]? = some obj) :
    s.setStateObject a obj = s := by
  rw [StateDB.setStateObject, insert_self _ held]

theorem setStateObject_twice (obj obj' : StateObject) :
    (s.setStateObject a obj).setStateObject a obj' = s.setStateObject a obj' := by
  simp only [StateDB.setStateObject, insert_insert]

theorem account_of_held (held : s.stateObjects[a]? = some obj)
    (live : obj.deleted = false) : (observed s).account a = some (view s.db obj) := by
  rw [observed]
  dsimp only
  rw [lookup_of_held s held live]
  rfl

theorem account_congr {t : StateDB} (db : t.db = s.db) (trie : t.trie = s.trie)
    (objects : t.stateObjects = s.stateObjects) : (observed t).account = (observed s).account := by
  funext b
  rw [observed, observed]
  dsimp only
  rw [lookup_congr s b trie (by rw [objects]), db]

theorem observed_congr {t : StateDB} (db : t.db = s.db) (trie : t.trie = s.trie)
    (objects : t.stateObjects = s.stateObjects) (refund : t.refund = s.refund)
    (logs : t.logs = s.logs) (logSize : t.logSize = s.logSize)
    (preimages : t.preimages = s.preimages) : observed t = observed s := by
  apply Observed.ext (account_congr s db trie objects) refund _ logSize _
  · funext hash
    rw [observed, observed]
    rw [logs]
  · funext hash
    rw [observed, observed]
    rw [preimages]

theorem observed_setStateObject (live : obj.deleted = false) :
    observed (s.setStateObject a obj) =
      (observed s).setAccount a (some (view s.db obj)) := by
  refine Observed.ext ?_ rfl rfl rfl rfl
  funext b
  rw [Observed.account_setAccount]
  by_cases same : b = a
  · subst same
    rw [if_pos rfl]
    exact account_of_held _ (held_setStateObject s obj) live
  · rw [if_neg same]
    have kept : lookup (s.setStateObject a obj) b = lookup s b :=
      lookup_congr s b rfl (held_setStateObject_of_ne s (Ne.symm same) obj)
    exact congrArg (Option.map (view s.db)) kept

theorem observed_setStateObject_same (live : obj.deleted = false)
    (shown : (observed s).account a = some (view s.db obj)) :
    observed (s.setStateObject a obj) = observed s := by
  rw [observed_setStateObject s live, ← shown, Observed.setAccount_self]

end

/-! ## The answers of the getters -/

def Observed.answer (o : Observed) : (q : Query) → q.Answer
  | .balance addr => ((o.account addr).map View.balance).getD 0
  | .nonce addr => ((o.account addr).map View.nonce).getD 0
  | .code addr => ((o.account addr).map View.code).getD []
  | .codeSize addr => ((o.account addr).map fun v => v.code.length).getD 0
  | .codeHash addr => (o.account addr).map View.codeHash
  | .state addr key => ((o.account addr).map fun v => v.storage key).getD (FixedBytes.zero 32)
  | .exist addr => (o.account addr).isSome
  | .empty addr =>
    ((o.account addr).map fun v =>
      decide (v.nonce = 0 ∧ v.balance = 0 ∧ v.codeHash = [])).getD true
  | .hasSuicided addr => ((o.account addr).map View.suicided).getD false
  | .refund => o.refund
  | .logs hash => o.logs hash
  | .preimages hash => o.preimages hash

theorem db_getStateObject (s : StateDB) (a : Address) : (s.getStateObject a).1.db = s.db := by
  rw [StateDB.getStateObject]
  cases s.stateObjects[a]? with
  | some obj => rfl
  | none => cases s.trie[a]? <;> rfl

/-- A getter answers what its account shows. -/
theorem read_snd {α : Type} (s : StateDB) (a : Address) (absent : α)
    (read : Database → StateObject → StateObject × α) :
    (s.read a absent read).2 = ((lookup s a).map fun obj => (read s.db obj).2).getD absent := by
  have db := db_getStateObject s a
  rw [StateDB.read, lookup]
  cases got : s.getStateObject a with
  | mk s' found =>
    rw [got] at db
    cases found with
    | none => rfl
    | some obj => rw [← db]; rfl

theorem query_snd (s : StateDB) (q : Query) : (s.query q).2 = (observed s).answer q := by
  cases q with
  | refund | logs | preimages => rfl
  | code a =>
    refine (read_snd ..).trans ?_
    simp only [Observed.answer, observed, Option.map_map, Function.comp_def, getCode_snd, view]
  | state a key =>
    refine (read_snd ..).trans ?_
    simp only [Observed.answer, observed, Option.map_map, Function.comp_def, getState_snd, view]
  | exist a | empty a | codeHash a =>
    refine (read_snd ..).trans ?_
    simp only [Observed.answer, observed]
    cases lookup s a <;> rfl
  | _ =>
    refine (read_snd ..).trans ?_
    simp only [Observed.answer, observed, Option.map_map, Function.comp_def, view, codeAnswer]

/-! ## Undoing an entry, as it is shown -/

namespace Observed

/-- Where the account is not there, the program would end. -/
def adjust (o : Observed) (a : Address) (set : View → View) : Option Observed :=
  (o.account a).map fun v => o.setAccount a (some (set v))

def undo (db : Database) : JournalEntry → Observed → Option Observed
  | .createObjectChange a, o => some (o.setAccount a none)
  | .resetObjectChange a prev, o => some (o.setAccount a (some (view db prev)))
  | .suicideChange a prev prevbalance, o =>
    o.adjust a fun v => { v with suicided := prev, balance := prevbalance }
  | .balanceChange a prev, o => o.adjust a fun v => { v with balance := prev }
  | .nonceChange a prev, o => o.adjust a fun v => { v with nonce := prev }
  | .storageChange a key prevalue, o =>
    o.adjust a fun v => { v with storage := Function.update v.storage key prevalue }
  | .codeChange a prevcode prevhash, o =>
    o.adjust a fun v =>
      { v with codeHash := prevhash, code := codeAnswer db prevcode prevhash }
  | .refundChange prev, o => some { o with refund := prev }
  | .addLogChange txhash, o =>
    some { o with
      logs := Function.update o.logs txhash (o.logs txhash).dropLast
      logSize := o.logSize - 1 }
  | .addPreimageChange hash, o =>
    some { o with preimages := Function.update o.preimages hash none }
  | .touchChange _, o => some o

/-- The newest entry comes first. -/
def undoAll (db : Database) : List JournalEntry → Observed → Option Observed
  | [], o => some o
  | entry :: older, o => (undo db entry o).bind (undoAll db older)

theorem undoAll_append (db : Database) (newer older : List JournalEntry) (o : Observed) :
    undoAll db (newer ++ older) o = (undoAll db newer o).bind (undoAll db older) := by
  induction newer generalizing o with
  | nil => rfl
  | cons entry rest ih =>
    rw [List.cons_append, undoAll, undoAll]
    cases undo db entry o with
    | none => rfl
    | some o' => exact ih o'

theorem adjust_setAccount (a : Address) (set : View → View) (v : View) :
    (o.setAccount a (some v)).adjust a set = some (o.setAccount a (some (set v))) := by
  rw [adjust, account_setAccount, if_pos rfl, Option.map_some, setAccount_twice]

end Observed

def subject : JournalEntry → Option Address
  | .resetObjectChange a _ => some a
  | entry => entry.dirtied

/-- Undoing an entry removes the account that it created, or sets the one that it is
about, or leaves all accounts alone. -/
theorem undo_account_cases {db : Database} {entry : JournalEntry} {o o' : Observed}
    (undone : Observed.undo db entry o = some o') :
    (∃ a, entry = .createObjectChange a ∧ o' = o.setAccount a none) ∨
      (∃ a v, subject entry = some a ∧ o' = o.setAccount a (some v)) ∨
        o'.account = o.account := by
  have adjusted (a : Address) (set : View → View) (about : subject entry = some a)
      (done : o.adjust a set = some o') :
      ∃ a v, subject entry = some a ∧ o' = o.setAccount a (some v) := by
    obtain ⟨v, _, rfl⟩ := Option.map_eq_some_iff.mp done
    exact ⟨a, set v, about, rfl⟩
  cases entry with
  | createObjectChange a =>
    cases undone
    exact .inl ⟨a, rfl, rfl⟩
  | resetObjectChange a prev =>
    cases undone
    exact .inr (.inl ⟨a, _, rfl, rfl⟩)
  | suicideChange a | balanceChange a | nonceChange a | storageChange a | codeChange a =>
    exact .inr (.inl (adjusted a _ rfl undone))
  | _ =>
    cases undone
    exact .inr (.inr rfl)

/-- An entry can be undone: an account that was created is in no trie, and an object
that was reset is still there. -/
def Restorable (trie : Accounts) : JournalEntry → Prop
  | .createObjectChange a => trie[a]? = none
  | .resetObjectChange _ prev => prev.deleted = false
  | _ => True

variable {set : StateObject → StateObject}

variable {a : Address}

section
variable {s t : StateDB} {entry : JournalEntry}

/-- What an entry does to the object that it is about. -/
def adjustment : JournalEntry → Option (Address × (StateObject → StateObject))
  | .suicideChange a prev prevbalance => some (a, fun obj => obj.setSuicided prev prevbalance)
  | .balanceChange a prev => some (a, fun obj => obj.setBalance prev)
  | .nonceChange a prev => some (a, fun obj => obj.setNonce prev)
  | .storageChange a key prevalue => some (a, fun obj => obj.setState key prevalue)
  | .codeChange a prevcode prevhash => some (a, fun obj => obj.setCode prevhash prevcode)
  | _ => none

theorem getStateObject_of_lookup (found : lookup s a = some obj) :
    s.getStateObject a = (s.setStateObject a obj, some obj) := by
  obtain ⟨live, held | ⟨data, absent, stored, rfl⟩⟩ := lookup_eq_some s found
  · rw [StateDB.getStateObject, held, setStateObject_held s held]
    simp [live]
  · rw [StateDB.getStateObject, absent, stored]

theorem getStateObject_of_absent (absent : lookup s a = none) :
    s.getStateObject a = (s, none) := by
  have found := absent
  rw [lookup, StateDB.getStateObject] at found
  rw [StateDB.getStateObject]
  cases held : s.stateObjects[a]? with
  | some obj =>
    rw [held] at found
    exact congrArg (Prod.mk s) found
  | none =>
    rw [held] at found
    cases stored : s.trie[a]? with
    | none => rfl
    | some data =>
      rw [stored] at found
      cases found

theorem adjust_eq_some {a : Address} :
    s.adjust a set = some t ↔
      ∃ obj, lookup s a = some obj ∧ t = s.setStateObject a (set obj) := by
  rw [StateDB.adjust]
  cases found : lookup s a with
  | none => simp [getStateObject_of_absent found]
  | some obj =>
    rw [getStateObject_of_lookup found]
    simp [setStateObject_twice, eq_comm]

/-- All that undoing an entry can do to the objects. -/
theorem undo_cases (undone : s.undo entry = some t) :
    (∃ a, entry = .createObjectChange a ∧
      t = { s with
        stateObjects := s.stateObjects.erase a
        stateObjectsDirty := s.stateObjectsDirty.erase a }) ∨
    (∃ a prev, entry = .resetObjectChange a prev ∧ t = s.setStateObject a prev) ∨
    (∃ a set obj, adjustment entry = some (a, set) ∧ lookup s a = some obj ∧
      t = s.setStateObject a (set obj)) ∨
    ((∀ a, entry ≠ .createObjectChange a) ∧
      ∃ refund logs logSize preimages, t =
        { s with refund := refund, logs := logs, logSize := logSize, preimages := preimages }) := by
  have adjusted {a : Address} {set : StateObject → StateObject} (done : s.adjust a set = some t)
      (about : adjustment entry = some (a, set)) :
      ∃ a set obj, adjustment entry = some (a, set) ∧ lookup s a = some obj ∧
        t = s.setStateObject a (set obj) := by
    obtain ⟨obj, found, rfl⟩ := adjust_eq_some.mp done
    exact ⟨a, set, obj, about, found, rfl⟩
  cases entry with
  | createObjectChange a => exact .inl ⟨a, rfl, (Option.some.inj undone).symm⟩
  | resetObjectChange a prev => exact .inr (.inl ⟨a, prev, rfl, (Option.some.inj undone).symm⟩)
  | suicideChange a prev balance =>
    rw [StateDB.undo] at undone
    cases found : lookup s a with
    | none =>
      rw [getStateObject_of_absent found] at undone
      cases undone
      exact .inr (.inr (.inr ⟨by simp, _, _, _, _, rfl⟩))
    | some obj =>
      rw [getStateObject_of_lookup found] at undone
      dsimp only at undone
      rw [setStateObject_twice] at undone
      exact .inr (.inr (.inl ⟨a, _, obj, rfl, found, (Option.some.inj undone).symm⟩))
  | balanceChange | nonceChange | storageChange | codeChange =>
    exact .inr (.inr (.inl (adjusted undone rfl)))
  | refundChange | addLogChange | addPreimageChange | touchChange =>
    cases undone
    exact .inr (.inr (.inr ⟨by simp, _, _, _, _, rfl⟩))

theorem subject_of_adjustment (about : adjustment entry = some (a, set)) :
    subject entry = some a ∧ entry.dirtied = some a ∧
      (∀ b, entry ≠ .createObjectChange b) ∧ (∀ b prev, entry ≠ .resetObjectChange b prev) := by
  cases entry <;> cases about <;> exact ⟨rfl, rfl, by simp, by simp⟩

theorem deleted_of_adjustment (about : adjustment entry = some (a, set))
    (obj : StateObject) :
    (set obj).deleted = obj.deleted := by
  cases entry <;> cases about <;> rfl

theorem Coherent.adjusted (about : adjustment entry = some (a, set)) (coherent : Coherent obj) :
    Coherent (set obj) := by
  cases entry <;> cases about
  case storageChange key prevalue => exact coherent.setState key prevalue
  all_goals exact coherent.congr rfl rfl rfl

theorem undo_of_adjustment (about : adjustment entry = some (a, set)) (found : lookup s a = some obj) :
    s.undo entry = some (s.setStateObject a (set obj)) := by
  cases entry <;> cases about
  case suicideChange =>
    rw [StateDB.undo, getStateObject_of_lookup found]
    dsimp only
    rw [setStateObject_twice]
  all_goals exact adjust_eq_some.mpr ⟨obj, found, rfl⟩

/-- Undoing an entry leaves everything but the objects and what is shown. -/
structure UndoFrame (entry : JournalEntry) (s t : StateDB) : Prop where
  db : t.db = s.db
  trie : t.trie = s.trie
  journal : t.journal = s.journal
  revisions : t.revisions = s.revisions
  objects : ∀ b, subject entry ≠ some b → t.stateObjects[b]? = s.stateObjects[b]?

theorem undo_frame (undone : s.undo entry = some t) : UndoFrame entry s t := by
  obtain ⟨a, rfl, rfl⟩ | ⟨a, prev, rfl, rfl⟩ | ⟨a, set, obj, about, _, rfl⟩ |
    ⟨_, _, _, _, _, rfl⟩ := undo_cases undone
  · refine ⟨rfl, rfl, rfl, rfl, fun b other => ?_⟩
    rw [get_erase, if_neg fun equal => other (congrArg some equal)]
  · refine ⟨rfl, rfl, rfl, rfl, fun b other => held_setStateObject_of_ne s ?_ prev⟩
    rintro rfl
    exact other rfl
  · refine ⟨rfl, rfl, rfl, rfl, fun b other => held_setStateObject_of_ne s ?_ _⟩
    rintro rfl
    exact other (subject_of_adjustment about).1
  · exact ⟨rfl, rfl, rfl, rfl, fun _ _ => rfl⟩

theorem view_setState (db : Database) (obj : StateObject) (key value : Hash) :
    view db (obj.setState key value) =
      { view db obj with storage := Function.update (view db obj).storage key value } := by
  have storage : slot db (obj.setState key value) = Function.update (slot db obj) key value := by
    funext other
    rw [Function.update_apply, slot, slot, StateObject.setState, get_insert]
    by_cases same : other = key
    · subst same
      rw [if_pos rfl, if_pos rfl]
      rfl
    · rw [if_neg (Ne.symm same), if_neg same]
      rfl
  exact View.ext rfl rfl rfl rfl storage rfl

/-- Undoing an entry shows what undoing it in the picture shows. -/
theorem undo_simulates {o : Observed} (restorable : Restorable s.trie entry)
    (shown : Observed.undo s.db entry (observed s) = some o) :
    ∃ t, s.undo entry = some t ∧ observed t = o := by
  have adjusted {a : Address} {change : View → View} {set : StateObject → StateObject}
      (about : adjustment entry = some (a, set))
      (commutes : ∀ obj, view s.db (set obj) = change (view s.db obj))
      (done : (observed s).adjust a change = some o) : ∃ t, s.undo entry = some t ∧ observed t = o := by
    obtain ⟨v, shownAt, rfl⟩ := Option.map_eq_some_iff.mp done
    obtain ⟨obj, found, rfl⟩ := Option.map_eq_some_iff.mp shownAt
    refine ⟨_, undo_of_adjustment about found, ?_⟩
    have live := (lookup_eq_some s found).1
    rw [observed_setStateObject s (by rw [deleted_of_adjustment about, live]), commutes]
  cases entry with
  | createObjectChange a =>
    refine ⟨_, rfl, ?_⟩
    cases shown
    refine Observed.ext ?_ rfl rfl rfl rfl
    funext b
    rw [Observed.account_setAccount]
    have absent : s.trie[a]? = none := restorable
    by_cases same : b = a
    · subst same
      rw [if_pos rfl, observed]
      dsimp only
      rw [lookup_eq]
      simp [absent]
    · rw [if_neg same, observed, observed]
      dsimp only
      rw [lookup_eq, lookup_eq, get_erase, if_neg (Ne.symm same)]
  | resetObjectChange a prev =>
    cases shown
    exact ⟨_, rfl, observed_setStateObject s restorable⟩
  | suicideChange | balanceChange | nonceChange | codeChange =>
    exact adjusted rfl (fun _ => rfl) shown
  | storageChange a key prevalue =>
    exact adjusted rfl (fun obj => view_setState s.db obj key prevalue) shown
  | refundChange prev =>
    cases shown
    exact ⟨_, rfl, Observed.ext (account_congr s rfl rfl rfl) rfl rfl rfl rfl⟩
  | addLogChange txhash =>
    refine ⟨_, rfl, ?_⟩
    cases shown
    refine Observed.ext (account_congr s rfl rfl rfl) rfl ?_ rfl rfl
    funext hash
    dsimp only [observed]
    rw [Function.update_apply]
    -- a list of one log goes altogether, as its `dropLast` is empty
    by_cases same : hash = txhash
    · subst same
      rw [if_pos rfl]
      split
      · rename_i single
        obtain ⟨log, only⟩ := List.length_eq_one_iff.mp single
        rw [ExtTreeMap.getD_erase_self, only]
        rfl
      · rw [ExtTreeMap.getD_insert_self]
    · rw [if_neg same]
      split
      · rw [getD_erase, if_neg (Ne.symm same)]
      · rw [getD_insert, if_neg (Ne.symm same)]
  | addPreimageChange hash =>
    refine ⟨_, rfl, ?_⟩
    cases shown
    refine Observed.ext (account_congr s rfl rfl rfl) rfl rfl rfl ?_
    funext other
    dsimp only [observed]
    rw [Function.update_apply, get_erase, if_congr eq_comm rfl rfl]
  | touchChange a =>
    cases shown
    exact ⟨s, rfl, rfl⟩

end

/-! ## Moves -/

/-- The changes of an object in memory, each with the entry that keeps the old value. -/
inductive Change (lethal : Prop) (a : Address) (obj : StateObject) :
    JournalEntry → StateObject → Prop where
  | suicide (allowed : lethal) :
      Change lethal a obj (.suicideChange a obj.suicided obj.data.balance) (obj.setSuicided true 0)
  | balance (amount : Int) :
      Change lethal a obj (.balanceChange a obj.data.balance) (obj.setBalance amount)
  | nonce (nonce : UInt64) :
      Change lethal a obj (.nonceChange a obj.data.nonce) (obj.setNonce nonce)
  | storage {key prevalue : Hash} (cached : obj.cachedStorage[key]? = some prevalue) (value : Hash) :
      Change lethal a obj (.storageChange a key prevalue) (obj.setState key value)
  | code (code : Option Bytes) :
      Change lethal a obj (.codeChange a obj.code obj.data.codeHash)
        (obj.setCode (code.getD []) code)
  | touch : Change lethal a obj (.touchChange a) obj

/-- One move of the state, with the account that it is about. -/
inductive Move (lethal : Prop) : Option Address → StateDB → StateDB → Prop where
  | load {s : StateDB} {a : Address} {data : Account} (absent : s.stateObjects[a]? = none)
      (stored : s.trie[a]? = some data) :
      Move lethal (some a) s (s.setStateObject a (.newObject data))
  | refresh {s : StateDB} {a : Address} {obj obj' : StateObject}
      (held : s.stateObjects[a]? = some obj) (live : obj.deleted = false)
      (refreshed : Refreshed s.db obj obj') : Move lethal (some a) s (s.setStateObject a obj')
  | create {s : StateDB} {a : Address} (absent : lookup s a = none) :
      Move lethal (some a) s
        ((s.append (.createObjectChange a)).setStateObject a (.newObject .fresh))
  | reset {s : StateDB} {a : Address} {prev : StateObject}
      (held : s.stateObjects[a]? = some prev) (live : prev.deleted = false) :
      Move lethal (some a) s
        ((s.append (.resetObjectChange a prev)).setStateObject a
          ((StateObject.newObject .fresh).setBalance prev.data.balance))
  | change {s : StateDB} {a : Address} {obj obj' : StateObject} {entry : JournalEntry}
      (held : s.stateObjects[a]? = some obj) (live : obj.deleted = false)
      (changed : Change lethal a obj entry obj') :
      Move lethal (some a) s ((s.append entry).setStateObject a obj')
  | mark {s : StateDB} {obj : StateObject} (held : s.stateObjects[ripemd]? = some obj) :
      Move lethal (some ripemd) s { s with journal := s.journal.dirty ripemd }
  | refund (s : StateDB) (gas : UInt64) : Move lethal none s (s.addRefund gas)
  | log (s : StateDB) (log : Log) : Move lethal none s (s.addLog log)
  | preimage {s : StateDB} {hash : Hash} (absent : s.preimages[hash]? = none) (preimage : Bytes) :
      Move lethal none s
        { s.append (.addPreimageChange hash) with
          preimages := s.preimages.insert hash preimage }
  | prepare (s : StateDB) (thash : Hash) (txIndex : Nat) :
      Move lethal none s (s.prepare thash txIndex)

def Moves (lethal : Prop) (target : Option Address) : StateDB → StateDB → Prop :=
  Relation.ReflTransGen (Move lethal target)

def callAddress : Call → Option Address
  | .query q => q.address
  | .createAccount addr | .addBalance addr _ | .subBalance addr _ | .setBalance addr _
  | .setNonce addr _ | .setCode addr _ | .setState addr _ _ | .suicide addr => some addr
  | _ => none

def Plain : Call → Prop
  | .snapshot | .revertToSnapshot _ | .finalise _ | .commit _ _ | .copy | .reset _ => False
  | _ => True

section
variable {lethal : Prop} {s t : StateDB} {a : Address}

theorem moves_getStateObject (found : lookup s a = some obj) :
    Moves lethal (some a) s (s.setStateObject a obj) := by
  obtain ⟨live, held | ⟨data, absent, stored, rfl⟩⟩ := lookup_eq_some s found
  · exact .single (.refresh held live (.refl _ _))
  · exact .single (.load absent stored)

theorem createObject_of_absent (absent : lookup s a = none) :
    s.createObject a =
      ((s.append (.createObjectChange a)).setStateObject a (.newObject .fresh), none) := by
  rw [StateDB.createObject, getStateObject_of_absent absent]

theorem moves_getOrNewStateObject (lethal : Prop) (s : StateDB) (a : Address) :
    Moves lethal (some a) s (s.getOrNewStateObject a).1 ∧
      (s.getOrNewStateObject a).1.stateObjects[a]? = some (s.getOrNewStateObject a).2 ∧
      (s.getOrNewStateObject a).2.deleted = false := by
  rw [StateDB.getOrNewStateObject]
  cases found : lookup s a with
  | some obj =>
    rw [getStateObject_of_lookup found]
    exact ⟨moves_getStateObject found, held_setStateObject s obj, (lookup_eq_some s found).1⟩
  | none =>
    rw [getStateObject_of_absent found]
    dsimp only
    rw [createObject_of_absent found]
    exact ⟨.single (.create found), held_setStateObject _ _, rfl⟩

theorem moves_change {read : Database → StateObject → StateObject}
    {entry : StateObject → JournalEntry} (reads : ∀ db obj, Refreshed db obj (read db obj))
    (changes : ∀ db obj, Change lethal a (read db obj) (entry (read db obj)) (set (read db obj))) :
    Moves lethal (some a) s (s.change a read entry set) := by
  obtain ⟨reached, held, live⟩ := moves_getOrNewStateObject lethal s a
  rw [StateDB.change]
  generalize s.getOrNewStateObject a = got at reached held live
  have refreshed := reads got.1.db got.2
  have after := reached.tail (.refresh held live refreshed)
  have changed := after.tail (.change (held_setStateObject _ _)
    (refreshed.deleted.trans live) (changes got.1.db got.2))
  have same : ((got.1.setStateObject a (read got.1.db got.2)).append
      (entry (read got.1.db got.2))).setStateObject a (set (read got.1.db got.2)) =
      (got.1.append (entry (read got.1.db got.2))).setStateObject a (set (read got.1.db got.2)) :=
    setStateObject_twice (got.1.append (entry (read got.1.db got.2))) _ _
  rw [same] at changed
  exact changed

theorem moves_setBalanceTo (amount : Int → Int) :
    Moves lethal (some a) s (s.setBalanceTo a amount) :=
  moves_change (fun db obj => .refl db obj) fun _ _ => .balance _

theorem moves_touch (held : s.stateObjects[a]? = some obj)
    (live : obj.deleted = false) : Moves lethal (some a) s (s.touch a) := by
  have touched : Move lethal (some a) s (s.append (.touchChange a)) := by
    have change : Move lethal (some a) s ((s.append (.touchChange a)).setStateObject a obj) :=
      .change held live .touch
    rwa [setStateObject_held (s.append _) held] at change
  rw [StateDB.touch]
  split
  · rename_i special
    subst special
    exact (Relation.ReflTransGen.single touched).tail (.mark held)
  · exact .single touched

theorem moves_addBalance (amount : Int) : Moves lethal (some a) s (s.addBalance a amount) := by
  rw [StateDB.addBalance]
  split
  · obtain ⟨reached, held, live⟩ := moves_getOrNewStateObject lethal s a
    dsimp only
    split
    · exact reached.trans (moves_touch held live)
    · exact reached
  · exact moves_setBalanceTo _

theorem moves_subBalance (amount : Int) : Moves lethal (some a) s (s.subBalance a amount) := by
  rw [StateDB.subBalance]
  split
  · exact (moves_getOrNewStateObject lethal s a).1
  · exact moves_setBalanceTo _

theorem moves_setState (key value : Hash) :
    Moves lethal (some a) s (s.setState a key value) := by
  refine moves_change (fun db obj => .getState db obj key) fun db obj => ?_
  apply Change.storage
  rw [StateObject.getState]
  cases cached : obj.cachedStorage[key]? with
  | some found => simp [cached, ExtTreeMap.getD_eq_getD_getElem?]
  | none => simp

theorem moves_createAccount : Moves lethal (some a) s (s.createAccount a) := by
  rw [StateDB.createAccount]
  cases found : lookup s a with
  | none =>
    rw [createObject_of_absent found]
    exact .single (.create found)
  | some prev =>
    rw [StateDB.createObject, getStateObject_of_lookup found]
    dsimp only
    rw [setStateObject_twice]
    exact (moves_getStateObject found).tail
      (.reset (held_setStateObject s prev) (lookup_eq_some s found).1)

theorem moves_suicide : Moves True (some a) s (s.suicide a).1 := by
  rw [StateDB.suicide]
  cases found : lookup s a with
  | none =>
    rw [getStateObject_of_absent found]
    exact .refl
  | some obj =>
    rw [getStateObject_of_lookup found]
    exact (moves_getStateObject found).tail
      (.change (held_setStateObject s obj) (lookup_eq_some s found).1 (.suicide trivial))

theorem moves_read {α : Type} {absent : α} {read : Database → StateObject → StateObject × α}
    (reads : ∀ db obj, Refreshed db obj (read db obj).1) :
    Moves lethal (some a) s (s.read a absent read).1 := by
  rw [StateDB.read]
  cases found : lookup s a with
  | none =>
    rw [getStateObject_of_absent found]
    exact .refl
  | some obj =>
    rw [getStateObject_of_lookup found]
    exact (moves_getStateObject found).tail
      (.refresh (held_setStateObject s obj) (lookup_eq_some s found).1 (reads _ _))

theorem moves_query (q : Query) : Moves lethal q.address s (s.query q).1 := by
  cases q with
  | refund | logs | preimages => exact .refl
  | code a => exact moves_read fun db obj => .getCode db obj
  | state a key => exact moves_read fun db obj => .getState db obj key
  | _ => exact moves_read fun db obj => .refl db obj

/-- Every plain call is made of moves about its account. -/
theorem moves_of_call {c : Call} (plain : Plain c) (done : s.call c = some t)
    (allowed : (∃ a, c = .suicide a) → lethal) : Moves lethal (callAddress c) s t := by
  cases c with
  | query q => cases done; exact moves_query q
  | createAccount a => cases done; exact moves_createAccount
  | addBalance a amount => cases done; exact moves_addBalance amount
  | subBalance a amount => cases done; exact moves_subBalance amount
  | setBalance a amount => cases done; exact moves_setBalanceTo _
  | setNonce a nonce =>
    cases done
    exact moves_change (fun db obj => .refl db obj) fun _ _ => .nonce nonce
  | setCode a code =>
    cases done
    exact moves_change (fun db obj => .getCode db obj) fun _ _ => .code code
  | setState a key value => cases done; exact moves_setState key value
  | suicide a =>
    cases done
    have holds : lethal ↔ True := iff_true_intro (allowed ⟨a, rfl⟩)
    rw [propext holds]
    exact moves_suicide
  | addRefund gas => cases done; exact .single (.refund s gas)
  | addLog log => cases done; exact .single (.log s log)
  | addPreimage hash preimage =>
    cases done
    rw [StateDB.addPreimage]
    cases absent : s.preimages[hash]? with
    | some old => exact .refl
    | none => exact .single (.preimage absent preimage)
  | prepare thash txIndex => cases done; exact .single (.prepare s thash txIndex)
  | snapshot | revertToSnapshot | finalise | commit | copy | reset => cases plain

end

/-! ## The way back -/

/-- An object that was deleted is in no trie. -/
def Gone (s : StateDB) : Prop :=
  ∀ (a : Address) obj, s.stateObjects[a]? = some obj → obj.deleted = true → s.trie[a]? = none

theorem Gone.absent {s : StateDB} (gone : Gone s) (absent : lookup s a = none) :
    s.trie[a]? = none := by
  rw [lookup_eq] at absent
  cases held : s.stateObjects[a]? with
  | none =>
    rw [held] at absent
    exact Option.map_eq_none_iff.mp absent
  | some obj =>
    rw [held] at absent
    dsimp only at absent
    split at absent
    · rename_i deleted
      exact gone a obj held deleted
    · cases absent

/-- An object that is there takes no place of one that is gone. -/
theorem Gone.setStateObject {s : StateDB} (gone : Gone s) (a : Address)
    (live : obj.deleted = false) : Gone (s.setStateObject a obj) := by
  refine forall_setStateObject s gone fun deleted => ?_
  rw [live] at deleted
  cases deleted

/-- `t` has come from `s` with the entries `new`, and undoing them shows `s` again. -/
structure Since (new : List JournalEntry) (s t : StateDB) : Prop where
  db : t.db = s.db
  trie : t.trie = s.trie
  entries : t.journal.entries = new ++ s.journal.entries
  shown : Observed.undoAll s.db new (observed t) = some (observed s)
  restorable : ∀ entry ∈ new, Restorable s.trie entry
  gone : Gone t

section
variable {lethal : Prop} {target : Option Address} {r s t : StateDB} {a : Address}

theorem Since.refl (gone : Gone s) : Since [] s s :=
  ⟨rfl, rfl, rfl, rfl, by simp, gone⟩

theorem Since.trans {new newer : List JournalEntry} (first : Since new r s)
    (second : Since newer s t) : Since (newer ++ new) r t where
  db := second.db.trans first.db
  trie := second.trie.trans first.trie
  entries := by rw [second.entries, first.entries, List.append_assoc]
  shown := by
    have shown := second.shown
    rw [first.db] at shown
    rw [Observed.undoAll_append, shown]
    exact first.shown
  restorable := by
    intro entry member
    rcases List.mem_append.mp member with newest | old
    · have restorable := second.restorable entry newest
      rw [first.trie] at restorable
      exact restorable
    · exact first.restorable entry old
  gone := second.gone

theorem Since.withRevisions {new : List JournalEntry} (since : Since new s t)
    (revisions : Revisions) : Since new s { t with revisions := revisions } where
  __ := since
  shown := by
    rw [← since.shown]
    exact congrArg _ (observed_congr t rfl rfl rfl rfl rfl rfl rfl)

theorem undo_changed (db : Database) {obj obj' : StateObject} {entry : JournalEntry}
    (changed : Change lethal a obj entry obj') (o : Observed) :
    Observed.undo db entry (o.setAccount a (some (view db obj'))) =
      some (o.setAccount a (some (view db obj))) := by
  cases changed with
  | suicide | balance | nonce | code => exact Observed.adjust_setAccount o a _ _
  | @storage key prevalue cached value =>
    refine (Observed.adjust_setAccount o a _ _).trans ?_
    have before : (view db obj).storage key = prevalue := by
      change (obj.cachedStorage[key]?).getD _ = prevalue
      rw [cached]
      rfl
    have storage : Function.update (view db (obj.setState key value)).storage key prevalue =
        (view db obj).storage := by
      rw [view_setState]
      rw [Function.update_idem, ← before, Function.update_eq_self]
    rw [storage]
    rfl
  | touch => rfl

/-- An object is put in with an entry that leads back. -/
theorem Since.entry {entry : JournalEntry} (gone : Gone s)
    (live : obj.deleted = false)
    (undone : Observed.undo s.db entry ((observed s).setAccount a (some (view s.db obj))) =
      some (observed s)) (restorable : Restorable s.trie entry) :
    Since [entry] s ((s.append entry).setStateObject a obj) := by
  refine ⟨rfl, rfl, rfl, ?_, by simpa using restorable,
    Gone.setStateObject (s := s.append entry) gone a live⟩
  have same : observed (s.append entry) = observed s :=
    observed_congr s rfl rfl rfl rfl rfl rfl rfl
  rw [observed_setStateObject _ live, same]
  exact congrArg (Option.bind · _) undone

/-- A move leaves at most one entry, and that entry leads back. -/
theorem since_move (gone : Gone s) (move : Move lethal target s t) : ∃ new, Since new s t := by
  cases move with
  | @load _ a data absent stored =>
    have shown : (observed s).account a = some (view s.db (.newObject data)) := by
      rw [observed]
      dsimp only
      rw [lookup_eq, absent, stored]
      rfl
    refine ⟨[], rfl, rfl, rfl, ?_, by simp, gone.setStateObject a rfl⟩
    rw [observed_setStateObject_same s rfl shown]
    rfl
  | @refresh _ a obj obj' held live refreshed =>
    have live' := refreshed.deleted.trans live
    refine ⟨[], rfl, rfl, rfl, ?_, by simp, gone.setStateObject a live'⟩
    rw [observed_setStateObject_same s live' (by
      rw [refreshed.view_eq, account_of_held s held live])]
    rfl
  | @create _ a absent =>
    have before : (observed s).account a = none := by
      rw [observed]
      dsimp only
      rw [absent]
      rfl
    refine ⟨_, .entry gone rfl ?_ (gone.absent absent)⟩
    rw [Observed.undo, Observed.setAccount_twice, ← before, Observed.setAccount_self]
  | @reset _ a prev held live =>
    refine ⟨_, .entry gone rfl ?_ live⟩
    rw [Observed.undo, Observed.setAccount_twice, ← account_of_held s held live,
      Observed.setAccount_self]
  | @change _ a obj obj' entry held live changed =>
    have undone := undo_changed s.db changed (observed s)
    rw [← account_of_held s held live, Observed.setAccount_self] at undone
    refine ⟨_, .entry gone ?_ undone ?_⟩
    · cases changed <;> exact live
    · cases changed <;> exact trivial
  | mark | prepare =>
    refine ⟨[], rfl, rfl, rfl, ?_, by simp, gone⟩
    exact congrArg some (observed_congr s rfl rfl rfl rfl rfl rfl rfl)
  | refund gas =>
    refine ⟨[.refundChange s.refund], rfl, rfl, rfl, ?_, by simp [Restorable], gone⟩
    exact congrArg some (Observed.ext (account_congr s rfl rfl rfl) rfl rfl rfl rfl)
  | log log =>
    refine ⟨[.addLogChange s.thash], rfl, rfl, rfl, congrArg some ?_, by simp [Restorable], gone⟩
    refine Observed.ext (account_congr s rfl rfl rfl) rfl ?_ rfl rfl
    funext hash
    dsimp only [observed, StateDB.addLog]
    rw [Function.update_apply, ExtTreeMap.getD_insert_self, List.dropLast_concat]
    by_cases same : hash = s.thash
    · rw [if_pos same, same]
    · rw [if_neg same, getD_insert, if_neg (Ne.symm same)]
  | @preimage _ hash absent preimage =>
    refine ⟨[.addPreimageChange hash], rfl, rfl, rfl, congrArg some ?_, by simp [Restorable],
      gone⟩
    refine Observed.ext (account_congr s rfl rfl rfl) rfl rfl rfl ?_
    funext other
    dsimp only [observed]
    rw [Function.update_apply, get_insert]
    by_cases same : other = hash
    · rw [if_pos same, same, absent]
    · rw [if_neg same, if_neg (Ne.symm same)]

/-- Erasing and putting back what was there leaves no deleted object in a trie. -/
theorem Gone.undone {entry : JournalEntry} (gone : Gone s) (undone : s.undo entry = some t)
    (restorable : Restorable s.trie entry) : Gone t := by
  obtain ⟨a, rfl, rfl⟩ | ⟨a, prev, rfl, rfl⟩ | ⟨a, set, obj, about, found, rfl⟩ |
    ⟨_, _, _, _, _, rfl⟩ := undo_cases undone
  · exact forall_erase s gone
  · exact gone.setStateObject a restorable
  · refine gone.setStateObject a ?_
    rw [deleted_of_adjustment about, (lookup_eq_some s found).1]
  · exact gone

/-- The newest entry can be undone, and the rest still leads back. -/
theorem Since.undoOne {entry : JournalEntry} {older : List JournalEntry}
    (since : Since (entry :: older) s t) : ∃ t', t.undoOne = some t' ∧ Since older s t' ∧
      t'.revisions = t.revisions := by
  obtain ⟨o, newest, rest⟩ := Option.bind_eq_some_iff.mp since.shown
  have restorable := since.restorable entry List.mem_cons_self
  rw [← since.trie] at restorable
  rw [← since.db] at newest
  obtain ⟨u, undone, same⟩ := undo_simulates restorable newest
  have frame := undo_frame undone
  have entries := since.entries
  rw [List.cons_append] at entries
  refine ⟨u.forget entry (older ++ s.journal.entries), ?_, ?_, frame.revisions⟩
  · rw [StateDB.undoOne, entries]
    dsimp only
    rw [undone]
    rfl
  refine ⟨frame.db.trans since.db, frame.trie.trans since.trie, rfl, ?_, ?_, ?_⟩
  · have kept : observed (u.forget entry (older ++ s.journal.entries)) = observed u :=
      observed_congr u rfl rfl rfl rfl rfl rfl rfl
    rw [kept, same]
    exact rest
  · intro other member
    exact since.restorable other (List.mem_cons_of_mem _ member)
  · have gone : Gone u := since.gone.undone undone restorable
    exact gone

end

end Linkeye.Core.StateMoves
