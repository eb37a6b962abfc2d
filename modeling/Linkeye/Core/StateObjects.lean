import Linkeye.Core.Rewind

/-!
# The state database over its backing store

`core/state/statedb.go`, `state_object.go` and `journal.go` with what
`Core.Journaling` abstracts from: the storage trie, the cached and the dirty slots
of an object, the code that is loaded on demand, the set of dirty objects, the
preimages, the valid revisions, and what `Commit` writes to the database below.

A trie stands for its root hash and a code for its code hash.  The database says
which of them it can open; where a storage trie is missing an object goes on with
the empty one and keeps the error until `Commit`.
-/

set_option autoImplicit false

namespace Linkeye.Core.StateObjects

open Std Common.Types
open Journaling (bump drop ripemd PlacedLog)
open StateProcessor (Log)

/-! ## Storage tries and accounts -/

/-- The contents of a storage trie.  Zero is what an absent slot reads as, and it
is never stored. -/
structure Storage where
  slots : ExtTreeMap Hash Hash
  nonzero : ∀ key : Hash, slots[key]? ≠ some (FixedBytes.zero 32)
deriving DecidableEq

namespace Storage

def empty : Storage := ⟨∅, by simp⟩

instance : Inhabited Storage := ⟨empty⟩

def get (tr : Storage) (key : Hash) : Hash := tr.slots.getD key (FixedBytes.zero 32)

/-- `TryDelete` of a slot that is set to zero, `TryUpdate` otherwise. -/
def put (tr : Storage) (key value : Hash) : Storage :=
  if zero : value = FixedBytes.zero 32 then
    { slots := tr.slots.erase key
      nonzero := by
        intro other
        rw [ExtTreeMap.getElem?_erase]
        split
        · simp
        · exact tr.nonzero other }
  else
    { slots := tr.slots.insert key value
      nonzero := by
        intro other
        rw [ExtTreeMap.getElem?_insert]
        split
        · simpa using zero
        · exact tr.nonzero other }

theorem get_eq (tr : Storage) (key : Hash) :
    tr.get key = (tr.slots[key]?).getD (FixedBytes.zero 32) :=
  ExtTreeMap.getD_eq_getD_getElem?

theorem ext_get {tr tr' : Storage} (same : ∀ key, tr.get key = tr'.get key) : tr = tr' := by
  have slots : tr.slots = tr'.slots := by
    apply ExtTreeMap.ext_getElem?
    intro key
    have read := same key
    rw [get_eq, get_eq] at read
    have nonzero := tr.nonzero key
    have nonzero' := tr'.nonzero key
    cases left : tr.slots[key]? <;> cases right : tr'.slots[key]? <;> simp_all
  cases tr
  cases tr'
  cases slots
  rfl

theorem get_put (tr : Storage) (key value other : Hash) :
    (tr.put key value).get other = if key = other then value else tr.get other := by
  rw [get_eq, get_eq, put]
  by_cases same : key = other
  · subst same
    rw [if_pos rfl]
    split
    · rename_i zero
      rw [ExtTreeMap.getElem?_erase_self, zero]
      rfl
    · rw [ExtTreeMap.getElem?_insert_self]
      rfl
  · rw [if_neg same]
    split
    · rw [Lib.Maps.get_erase, if_neg same]
    · rw [Lib.Maps.get_insert, if_neg same]

end Storage

structure Account where
  nonce : UInt64
  balance : Int
  root : Storage
  codeHash : Bytes
deriving DecidableEq

/-- `Account{}` with the defaults of `newObject`. -/
def Account.fresh : Account := ⟨0, 0, .empty, []⟩

abbrev Accounts := ExtTreeMap Address Account

/-- What can be opened and read below the state. -/
structure Database where
  tries : List Accounts
  storages : List Storage
  codes : List Bytes

namespace Database

/-- The empty root needs no node. -/
def openTrie (db : Database) (root : Accounts) : Option Accounts :=
  if root = ∅ ∨ root ∈ db.tries then some root else none

def openStorageTrie (db : Database) (root : Storage) : Option Storage :=
  if root = .empty ∨ root ∈ db.storages then some root else none

def contractCode (db : Database) (codeHash : Bytes) : Option Bytes :=
  if codeHash ∈ db.codes then some codeHash else none

end Database

/-! ## Objects -/

/-- What an object remembers of a failed read. -/
inductive DbError where
  /-- `can't create storage trie` -/
  | storageTrie (root : Storage)
  /-- `can't load code hash` -/
  | code (codeHash : Bytes)

structure StateObject where
  data : Account
  dbErr : Option DbError
  trie : Option Storage
  /-- `none` is a nil slice. -/
  code : Option Bytes
  cachedStorage : ExtTreeMap Hash Hash
  dirtyStorage : ExtTreeMap Hash Hash
  dirtyCode : Bool
  suicided : Bool
  deleted : Bool

namespace StateObject

def newObject (data : Account) : StateObject where
  data := data
  dbErr := none
  trie := none
  code := none
  cachedStorage := ∅
  dirtyStorage := ∅
  dirtyCode := false
  suicided := false
  deleted := false

def empty (obj : StateObject) : Bool :=
  decide (obj.data.nonce = 0 ∧ obj.data.balance = 0 ∧ obj.data.codeHash = [])

/-- The first error stays. -/
def setError (obj : StateObject) (err : DbError) : StateObject :=
  { obj with dbErr := obj.dbErr.or (some err) }

def getTrie (db : Database) (obj : StateObject) : StateObject × Storage :=
  match obj.trie with
  | some tr => (obj, tr)
  | none =>
    match db.openStorageTrie obj.data.root with
    | some tr => ({ obj with trie := some tr }, tr)
    | none =>
      ({ obj.setError (.storageTrie obj.data.root) with trie := some .empty }, .empty)

def getState (db : Database) (key : Hash) (obj : StateObject) : StateObject × Hash :=
  match obj.cachedStorage[key]? with
  | some value => (obj, value)
  | none =>
    let got := obj.getTrie db
    let value := got.2.get key
    ({ got.1 with cachedStorage := got.1.cachedStorage.insert key value }, value)

def setState (obj : StateObject) (key value : Hash) : StateObject :=
  { obj with
    cachedStorage := obj.cachedStorage.insert key value
    dirtyStorage := obj.dirtyStorage.insert key value }

def updateTrie (db : Database) (obj : StateObject) : StateObject × Storage :=
  let got := obj.getTrie db
  let tr := got.1.dirtyStorage.toList.foldl (fun tr slot => tr.put slot.1 slot.2) got.2
  ({ got.1 with trie := some tr, dirtyStorage := ∅ }, tr)

def updateRoot (db : Database) (obj : StateObject) : StateObject :=
  let updated := obj.updateTrie db
  { updated.1 with data := { updated.1.data with root := updated.2 } }

def getCode (db : Database) (obj : StateObject) : StateObject × Option Bytes :=
  match obj.code with
  | some code => (obj, some code)
  | none =>
    if obj.data.codeHash = [] then (obj, none)
    else
      match db.contractCode obj.data.codeHash with
      | some code => ({ obj with code := some code }, some code)
      | none => (obj.setError (.code obj.data.codeHash), none)

def setCode (obj : StateObject) (codeHash : Bytes) (code : Option Bytes) : StateObject :=
  { obj with code := code, data := { obj.data with codeHash := codeHash }, dirtyCode := true }

def setBalance (obj : StateObject) (amount : Int) : StateObject :=
  { obj with data := { obj.data with balance := amount } }

def setNonce (obj : StateObject) (nonce : UInt64) : StateObject :=
  { obj with data := { obj.data with nonce := nonce } }

def setSuicided (obj : StateObject) (suicided : Bool) (balance : Int) : StateObject :=
  { obj.setBalance balance with suicided := suicided }

/-- The copy takes only the dirty slots into its cache. -/
def deepCopy (obj : StateObject) : StateObject :=
  { obj with dbErr := none, cachedStorage := obj.dirtyStorage }

end StateObject

/-! ## The journal -/

inductive JournalEntry where
  | createObjectChange (account : Address)
  /-- The address is that of the object. -/
  | resetObjectChange (account : Address) (prev : StateObject)
  | suicideChange (account : Address) (prev : Bool) (prevbalance : Int)
  | balanceChange (account : Address) (prev : Int)
  | nonceChange (account : Address) (prev : UInt64)
  | storageChange (account : Address) (key prevalue : Hash)
  | codeChange (account : Address) (prevcode : Option Bytes) (prevhash : Bytes)
  | refundChange (prev : UInt64)
  | addLogChange (txhash : Hash)
  | addPreimageChange (hash : Hash)
  | touchChange (account : Address)

def JournalEntry.dirtied : JournalEntry → Option Address
  | .createObjectChange account => some account
  | .resetObjectChange _ _ => none
  | .suicideChange account _ _ => some account
  | .balanceChange account _ => some account
  | .nonceChange account _ => some account
  | .storageChange account _ _ => some account
  | .codeChange account _ _ => some account
  | .refundChange _ => none
  | .addLogChange _ => none
  | .addPreimageChange _ => none
  | .touchChange account => some account

/-- The newest entry comes first. -/
structure Journal where
  entries : List JournalEntry
  dirties : ExtTreeMap Address Nat

def newJournal : Journal := ⟨[], ∅⟩

def Journal.append (j : Journal) (entry : JournalEntry) : Journal where
  entries := entry :: j.entries
  dirties :=
    match entry.dirtied with
    | some addr => bump j.dirties addr
    | none => j.dirties

def Journal.dirty (j : Journal) (addr : Address) : Journal :=
  { j with dirties := bump j.dirties addr }

structure Revision where
  id : Nat
  journalIndex : Nat

/-- `validRevisions`, oldest first, with `nextRevisionId`. -/
structure Revisions where
  valid : List Revision
  next : Nat
  increasing : valid.Pairwise fun r r' => r.id < r'.id
  below : ∀ r ∈ valid, r.id < next

namespace Revisions

def none : Revisions := ⟨[], 0, .nil, by simp⟩

/-- The id of a new revision is above all that were given out. -/
def push (revs : Revisions) (journalIndex : Nat) : Revisions where
  valid := revs.valid ++ [⟨revs.next, journalIndex⟩]
  next := revs.next + 1
  increasing := by
    rw [List.pairwise_append]
    refine ⟨revs.increasing, List.pairwise_singleton _ _, ?_⟩
    intro r member r' new
    rw [List.mem_singleton.mp new]
    exact revs.below r member
  below := by
    exact List.forall_mem_append.mpr ⟨fun r old => Nat.lt_succ_of_lt (revs.below r old),
      List.forall_mem_singleton.mpr (Nat.lt_succ_self _)⟩

def cut (revs : Revisions) (length : Nat) : Revisions where
  valid := revs.valid.take length
  next := revs.next
  increasing := revs.increasing.sublist (List.take_sublist _ _)
  below := fun r member => revs.below r (List.mem_of_mem_take member)

/-- `sort.Search`: the ids increase, so it is the first revision that is not below. -/
def search (revs : Revisions) (revid : Nat) : Nat :=
  revs.valid.findIdx fun r => decide (revid ≤ r.id)

end Revisions

/-! ## The state database -/

structure StateDB where
  db : Database
  trie : Accounts
  stateObjects : ExtTreeMap Address StateObject
  stateObjectsDirty : Finset Address
  refund : UInt64
  thash : Hash
  txIndex : Nat
  logs : ExtTreeMap Hash (List PlacedLog)
  logSize : Nat
  preimages : ExtTreeMap Hash Bytes
  journal : Journal
  revisions : Revisions

namespace StateDB

def opened (db : Database) (tr : Accounts) : StateDB where
  db := db
  trie := tr
  stateObjects := ∅
  stateObjectsDirty := ∅
  refund := 0
  thash := FixedBytes.zero 32
  txIndex := 0
  logs := ∅
  logSize := 0
  preimages := ∅
  journal := newJournal
  revisions := .none

def new (root : Accounts) (db : Database) : Option StateDB := (db.openTrie root).map (opened db)

def clearJournalAndRefund (s : StateDB) : StateDB :=
  { s with journal := newJournal, revisions := s.revisions.cut 0, refund := 0 }

def reset (s : StateDB) (root : Accounts) : Option StateDB :=
  (s.db.openTrie root).map fun tr =>
    clearJournalAndRefund
      { s with
        trie := tr
        stateObjects := ∅
        stateObjectsDirty := ∅
        thash := FixedBytes.zero 32
        txIndex := 0
        logs := ∅
        logSize := 0
        preimages := ∅ }

def prepare (s : StateDB) (thash : Hash) (txIndex : Nat) : StateDB :=
  { s with thash := thash, txIndex := txIndex }

def setStateObject (s : StateDB) (addr : Address) (obj : StateObject) : StateDB :=
  { s with stateObjects := s.stateObjects.insert addr obj }

def append (s : StateDB) (entry : JournalEntry) : StateDB :=
  { s with journal := s.journal.append entry }

/-- An object that is read from the trie is kept. -/
def getStateObject (s : StateDB) (addr : Address) : StateDB × Option StateObject :=
  match s.stateObjects[addr]? with
  | some obj => (s, if obj.deleted = true then none else some obj)
  | none =>
    match s.trie[addr]? with
    | none => (s, none)
    | some data => (s.setStateObject addr (.newObject data), some (.newObject data))

/-- The state with the new object, and the object that was there before. -/
def createObject (s : StateDB) (addr : Address) : StateDB × Option StateObject :=
  match s.getStateObject addr with
  | (s, none) =>
    ((s.append (.createObjectChange addr)).setStateObject addr (.newObject .fresh), none)
  | (s, some prev) =>
    ((s.append (.resetObjectChange addr prev)).setStateObject addr (.newObject .fresh),
      some prev)

def getOrNewStateObject (s : StateDB) (addr : Address) : StateDB × StateObject :=
  match s.getStateObject addr with
  | (s, some obj) => (s, obj)
  | (s, none) => ((s.createObject addr).1, .newObject .fresh)

/-! ### Changes -/

/-- What the setters of an object do: it may read first, then an entry keeps the old
value and the new value is set. -/
def change (s : StateDB) (addr : Address) (read : Database → StateObject → StateObject)
    (entry : StateObject → JournalEntry) (set : StateObject → StateObject) : StateDB :=
  let got := s.getOrNewStateObject addr
  let obj := read got.1.db got.2
  (got.1.append (entry obj)).setStateObject addr (set obj)

def touch (s : StateDB) (addr : Address) : StateDB :=
  let touched := s.append (.touchChange addr)
  if addr = ripemd then { touched with journal := touched.journal.dirty addr } else touched

def setBalanceTo (s : StateDB) (addr : Address) (amount : Int → Int) : StateDB :=
  s.change addr (fun _ obj => obj) (fun obj => .balanceChange addr obj.data.balance)
    fun obj => obj.setBalance (amount obj.data.balance)

def setBalance (s : StateDB) (addr : Address) (amount : Int) : StateDB :=
  s.setBalanceTo addr fun _ => amount

def addBalance (s : StateDB) (addr : Address) (amount : Int) : StateDB :=
  if amount = 0 then
    let got := s.getOrNewStateObject addr
    if got.2.empty = true then got.1.touch addr else got.1
  else s.setBalanceTo addr fun balance => balance + amount

def subBalance (s : StateDB) (addr : Address) (amount : Int) : StateDB :=
  if amount = 0 then (s.getOrNewStateObject addr).1
  else s.setBalanceTo addr fun balance => balance - amount

def setNonce (s : StateDB) (addr : Address) (nonce : UInt64) : StateDB :=
  s.change addr (fun _ obj => obj) (fun obj => .nonceChange addr obj.data.nonce)
    fun obj => obj.setNonce nonce

/-- The code is loaded for the entry. -/
def setCode (s : StateDB) (addr : Address) (code : Option Bytes) : StateDB :=
  s.change addr (fun db obj => (obj.getCode db).1)
    (fun obj => .codeChange addr obj.code obj.data.codeHash)
    fun obj => obj.setCode (code.getD []) code

/-- The slot is read for the entry, which leaves it in the cache. -/
def setState (s : StateDB) (addr : Address) (key value : Hash) : StateDB :=
  s.change addr (fun db obj => (obj.getState db key).1)
    (fun obj => .storageChange addr key (obj.cachedStorage.getD key (FixedBytes.zero 32)))
    fun obj => obj.setState key value

/-- The balance of an account that is created anew is carried over. -/
def createAccount (s : StateDB) (addr : Address) : StateDB :=
  match s.createObject addr with
  | (s, none) => s
  | (s, some prev) =>
    s.setStateObject addr ((StateObject.newObject .fresh).setBalance prev.data.balance)

def suicide (s : StateDB) (addr : Address) : StateDB × Bool :=
  match s.getStateObject addr with
  | (s, none) => (s, false)
  | (s, some obj) =>
    ((s.append (.suicideChange addr obj.suicided obj.data.balance)).setStateObject addr
      (obj.setSuicided true 0), true)

def addRefund (s : StateDB) (gas : UInt64) : StateDB :=
  { s.append (.refundChange s.refund) with refund := s.refund + gas }

def addLog (s : StateDB) (log : Log) : StateDB :=
  { s.append (.addLogChange s.thash) with
    logs := s.logs.insert s.thash
      (s.logs.getD s.thash [] ++ [⟨log, s.thash, s.txIndex, s.logSize⟩])
    logSize := s.logSize + 1 }

def addPreimage (s : StateDB) (hash : Hash) (preimage : Bytes) : StateDB :=
  match s.preimages[hash]? with
  | some _ => s
  | none =>
    { s.append (.addPreimageChange hash) with
      preimages := s.preimages.insert hash preimage }

/-! ### Undoing -/

/-- A change of an object that has to be there: a nil pointer ends the program. -/
def adjust (s : StateDB) (addr : Address) (set : StateObject → StateObject) : Option StateDB :=
  match s.getStateObject addr with
  | (_, none) => none
  | (s, some obj) => some (s.setStateObject addr (set obj))

def undo (s : StateDB) : JournalEntry → Option StateDB
  | .createObjectChange account =>
    some { s with
      stateObjects := s.stateObjects.erase account
      stateObjectsDirty := s.stateObjectsDirty.erase account }
  | .resetObjectChange account prev => some (s.setStateObject account prev)
  | .suicideChange account prev prevbalance =>
    match s.getStateObject account with
    | (s, none) => some s
    | (s, some obj) => some (s.setStateObject account (obj.setSuicided prev prevbalance))
  | .balanceChange account prev => s.adjust account fun obj => obj.setBalance prev
  | .nonceChange account prev => s.adjust account fun obj => obj.setNonce prev
  | .storageChange account key prevalue => s.adjust account fun obj => obj.setState key prevalue
  | .codeChange account prevcode prevhash =>
    s.adjust account fun obj => obj.setCode prevhash prevcode
  | .refundChange prev => some { s with refund := prev }
  | .addLogChange txhash =>
    let logs := s.logs.getD txhash []
    some { s with
      logs := if logs.length = 1 then s.logs.erase txhash
        else s.logs.insert txhash logs.dropLast
      logSize := s.logSize - 1 }
  | .addPreimageChange hash => some { s with preimages := s.preimages.erase hash }
  | .touchChange _ => some s

/-- An entry goes with its dirty mark. -/
def forget (s : StateDB) (entry : JournalEntry) (older : List JournalEntry) : StateDB :=
  { s with
    journal :=
      { entries := older
        dirties :=
          match entry.dirtied with
          | some addr => drop s.journal.dirties addr
          | none => s.journal.dirties } }

def undoOne (s : StateDB) : Option StateDB :=
  match s.journal.entries with
  | [] => none
  | entry :: older => (s.undo entry).map fun undone => undone.forget entry older

def undoMany : Nat → StateDB → Option StateDB
  | 0, s => some s
  | n + 1, s => s.undoOne.bind (undoMany n)

def snapshot (s : StateDB) : StateDB × Nat :=
  ({ s with revisions := s.revisions.push s.journal.entries.length }, s.revisions.next)

/-- An id that is not valid ends the program. -/
def revertToSnapshot (s : StateDB) (revid : Nat) : Option StateDB :=
  let idx := s.revisions.search revid
  match s.revisions.valid[idx]? with
  | none => none
  | some rev =>
    if rev.id = revid then
      (s.undoMany (s.journal.entries.length - rev.journalIndex)).map fun undone =>
        { undone with revisions := s.revisions.cut idx }
    else none

/-! ### The end of a transaction -/

/-- A negative balance has no encoding, and the program ends. -/
def updateStateObject (s : StateDB) (addr : Address) (obj : StateObject) : Option StateDB :=
  if obj.data.balance < 0 then none
  else some { s.setStateObject addr obj with trie := s.trie.insert addr obj.data }

def deleteStateObject (s : StateDB) (addr : Address) (obj : StateObject) : StateDB :=
  { s.setStateObject addr { obj with deleted := true } with trie := s.trie.erase addr }

def finaliseOne (deleteEmptyObjects : Bool) (s : StateDB) (addr : Address) : Option StateDB :=
  match s.stateObjects[addr]? with
  | none => some s
  | some obj =>
    (if obj.suicided = true ∨ (deleteEmptyObjects = true ∧ obj.empty = true) then
      some (s.deleteStateObject addr obj)
    else s.updateStateObject addr (obj.updateRoot s.db)).map fun s =>
      { s with stateObjectsDirty := insert addr s.stateObjectsDirty }

def finalise (s : StateDB) (deleteEmptyObjects : Bool) : Option StateDB :=
  (s.journal.dirties.keys.foldlM (finaliseOne deleteEmptyObjects) s).map clearJournalAndRefund

/-- The state after it, and the root. -/
def intermediateRoot (s : StateDB) (deleteEmptyObjects : Bool) : Option (StateDB × Accounts) :=
  (s.finalise deleteEmptyObjects).map fun s => (s, s.trie)

/-! ### Writing the state -/

def writeCode (s : StateDB) (obj : StateObject) : StateDB × StateObject :=
  match obj.code with
  | some code =>
    if obj.dirtyCode = true then
      ({ s with db := { s.db with codes := code :: s.db.codes } }, { obj with dirtyCode := false })
    else (s, obj)
  | none => (s, obj)

/-- `CommitTrie` and `updateStateObject`.  The error of an object ends the commit, which
leaves the object with its slots flushed. -/
def writeObject (s : StateDB) (addr : Address) (obj : StateObject) :
    Option (StateDB × Option DbError) :=
  let updated := obj.updateTrie s.db
  match updated.1.dbErr with
  | some err => some (s.setStateObject addr updated.1, some err)
  | none =>
    let stored := { s with db := { s.db with storages := updated.2 :: s.db.storages } }
    (stored.updateStateObject addr
      { updated.1 with data := { updated.1.data with root := updated.2 } }).map fun s =>
        (s, none)

def commitOne (deleteEmptyObjects : Bool) (s : StateDB) (addr : Address) :
    Option (StateDB × Option DbError) :=
  match s.stateObjects[addr]? with
  | none => some (s, none)
  | some obj =>
    let done : StateDB × Option DbError → StateDB × Option DbError := fun written =>
      match written.2 with
      | some err => (written.1, some err)
      | none =>
        ({ written.1 with stateObjectsDirty := written.1.stateObjectsDirty.erase addr }, none)
    if obj.suicided = true ∨
        (addr ∈ s.stateObjectsDirty ∧ deleteEmptyObjects = true ∧ obj.empty = true) then
      some (done (s.deleteStateObject addr obj, none))
    else if addr ∈ s.stateObjectsDirty then
      let coded := s.writeCode obj
      (coded.1.writeObject addr coded.2).map done
    else some (done (s, none))

def commitAll (deleteEmptyObjects : Bool) : List Address → StateDB → Option (StateDB × Option DbError)
  | [], s => some (s, none)
  | addr :: rest, s =>
    match s.commitOne deleteEmptyObjects addr with
    | none => none
    | some (s, some err) => some (s, some err)
    | some (s, none) => commitAll deleteEmptyObjects rest s

/-- The first loop of `Commit`: what the journal marks joins the dirty objects. -/
def markDirty (s : StateDB) : StateDB :=
  { s with stateObjectsDirty := s.stateObjectsDirty ∪ s.journal.dirties.keys.toFinset }

/-- The objects are visited in any order. -/
def commit (s : StateDB) (deleteEmptyObjects : Bool) (order : List Address) :
    Option (StateDB × Except DbError Accounts) :=
  match commitAll deleteEmptyObjects order s.markDirty with
  | none => none
  | some (s, some err) => some (s.clearJournalAndRefund, .error err)
  | some (s, none) =>
    some
      (clearJournalAndRefund { s with db := { s.db with tries := s.trie :: s.db.tries } },
        .ok s.trie)

/-- The dirty objects are copied, with the state that no object has.  A dirty address
without an object ends the program. -/
def copy (s : StateDB) : Option StateDB :=
  if ∀ addr ∈ s.stateObjectsDirty, s.stateObjects.contains addr = true then
    let dirty : Address → Bool := fun addr =>
      s.journal.dirties.contains addr || decide (addr ∈ s.stateObjectsDirty)
    some
      { db := s.db
        trie := s.trie
        stateObjects := (s.stateObjects.filter fun addr _ => dirty addr).map fun _ obj =>
          obj.deepCopy
        stateObjectsDirty := (s.stateObjects.keys.filter dirty).toFinset
        refund := s.refund
        thash := FixedBytes.zero 32
        txIndex := 0
        logs := s.logs
        logSize := s.logSize
        preimages := s.preimages
        journal := newJournal
        revisions := .none }
  else none

end StateDB

/-! ## Queries -/

inductive Query where
  | balance (addr : Address)
  | nonce (addr : Address)
  | code (addr : Address)
  | codeSize (addr : Address)
  | codeHash (addr : Address)
  | state (addr : Address) (key : Hash)
  | exist (addr : Address)
  | empty (addr : Address)
  | hasSuicided (addr : Address)
  | refund
  | logs (hash : Hash)
  | preimages (hash : Hash)

@[reducible] def Query.Answer : Query → Type
  | .balance _ => Int
  | .nonce _ | .refund => UInt64
  | .code _ => Bytes
  | .codeSize _ => Nat
  | .codeHash _ => Option Bytes
  | .state _ _ => Hash
  | .exist _ | .empty _ | .hasSuicided _ => Bool
  | .logs _ => List PlacedLog
  | .preimages _ => Option Bytes

def Query.address : Query → Option Address
  | .balance addr | .nonce addr | .code addr | .codeSize addr | .codeHash addr
  | .state addr _ | .exist addr | .empty addr | .hasSuicided addr => some addr
  | .refund | .logs _ | .preimages _ => none

def StateDB.read {α : Type} (s : StateDB) (addr : Address) (absent : α)
    (read : Database → StateObject → StateObject × α) : StateDB × α :=
  match s.getStateObject addr with
  | (s, none) => (s, absent)
  | (s, some obj) => (s.setStateObject addr (read s.db obj).1, (read s.db obj).2)

def StateDB.query (s : StateDB) : (q : Query) → StateDB × q.Answer
  | .balance addr => s.read addr 0 fun _ obj => (obj, obj.data.balance)
  | .nonce addr => s.read addr 0 fun _ obj => (obj, obj.data.nonce)
  | .code addr => s.read addr [] fun db obj => ((obj.getCode db).1, (obj.getCode db).2.getD [])
  | .codeSize addr =>
    s.read addr 0 fun db obj =>
      (obj, (obj.code.getD ((db.contractCode obj.data.codeHash).getD [])).length)
  | .codeHash addr => s.read addr none fun _ obj => (obj, some obj.data.codeHash)
  | .state addr key => s.read addr (FixedBytes.zero 32) fun db obj => obj.getState db key
  | .exist addr => s.read addr false fun _ obj => (obj, true)
  | .empty addr => s.read addr true fun _ obj => (obj, obj.empty)
  | .hasSuicided addr => s.read addr false fun _ obj => (obj, obj.suicided)
  | .refund => (s, s.refund)
  | .logs hash => (s, s.logs.getD hash [])
  | .preimages hash => (s, s.preimages[hash]?)

/-! ## Calls -/

inductive Call where
  | query (q : Query)
  | createAccount (addr : Address)
  | addBalance (addr : Address) (amount : Int)
  | subBalance (addr : Address) (amount : Int)
  | setBalance (addr : Address) (amount : Int)
  | setNonce (addr : Address) (nonce : UInt64)
  | setCode (addr : Address) (code : Option Bytes)
  | setState (addr : Address) (key value : Hash)
  | suicide (addr : Address)
  | addRefund (gas : UInt64)
  | addLog (log : Log)
  | addPreimage (hash : Hash) (preimage : Bytes)
  | prepare (thash : Hash) (txIndex : Nat)
  | snapshot
  | revertToSnapshot (revid : Nat)
  | finalise (deleteEmptyObjects : Bool)
  | commit (deleteEmptyObjects : Bool) (order : List Address)
  | copy
  | reset (root : Accounts)

/-- The state after a call; `none` where the program ends or no state is made. -/
def StateDB.call (s : StateDB) : Call → Option StateDB
  | .query q => some (s.query q).1
  | .createAccount addr => some (s.createAccount addr)
  | .addBalance addr amount => some (s.addBalance addr amount)
  | .subBalance addr amount => some (s.subBalance addr amount)
  | .setBalance addr amount => some (s.setBalance addr amount)
  | .setNonce addr nonce => some (s.setNonce addr nonce)
  | .setCode addr code => some (s.setCode addr code)
  | .setState addr key value => some (s.setState addr key value)
  | .suicide addr => some (s.suicide addr).1
  | .addRefund gas => some (s.addRefund gas)
  | .addLog log => some (s.addLog log)
  | .addPreimage hash preimage => some (s.addPreimage hash preimage)
  | .prepare thash txIndex => some (s.prepare thash txIndex)
  | .snapshot => some s.snapshot.1
  | .revertToSnapshot revid => s.revertToSnapshot revid
  | .finalise deleteEmptyObjects => s.finalise deleteEmptyObjects
  | .commit deleteEmptyObjects order =>
    if order.Perm s.stateObjects.keys then (s.commit deleteEmptyObjects order).map Prod.fst
    else none
  | .copy => s.copy
  | .reset root => s.reset root

end Linkeye.Core.StateObjects
