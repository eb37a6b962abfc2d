import Linkeye.Core.StateProcessor
import Linkeye.Lib.Programs

/-!
# The state database with its journal

`core/state/statedb.go`, `state_object.go` and `journal.go`: the account trie, the
objects that have been read from it or made, and the journal by which changes are
undone.  The code of an account stands for its hash, the storage for its root.
Preimages and the flags that only `Commit` reads are left out.
-/

set_option autoImplicit false

namespace Linkeye.Core.Journaling

open Std Common.Types
open StateProcessor (Log)
open Lib.Programs

/-! ## Objects -/

abbrev Storage := Hash → Hash

structure Account where
  nonce : Nat
  balance : Int
  storage : Storage
  code : Bytes

def Account.fresh : Account := ⟨0, 0, fun _ => FixedBytes.zero 32, []⟩

structure StateObject where
  data : Account
  suicided : Bool
  deleted : Bool

namespace StateObject

def newObject (data : Account) : StateObject := ⟨data, false, false⟩

def empty (obj : StateObject) : Bool :=
  decide (obj.data.nonce = 0 ∧ obj.data.balance = 0 ∧ obj.data.code = [])

def setBalance (obj : StateObject) (amount : Int) : StateObject :=
  { obj with data := { obj.data with balance := amount } }

def setNonce (obj : StateObject) (nonce : Nat) : StateObject :=
  { obj with data := { obj.data with nonce := nonce } }

def setCode (obj : StateObject) (code : Bytes) : StateObject :=
  { obj with data := { obj.data with code := code } }

def setState (obj : StateObject) (key value : Hash) : StateObject :=
  { obj with data := { obj.data with storage := Function.update obj.data.storage key value } }

/-- `markSuicided`, with the balance that goes. -/
def suicide (obj : StateObject) (suicided : Bool) (balance : Int) : StateObject :=
  { obj.setBalance balance with suicided := suicided }

end StateObject

/-! ## The journal -/

inductive JournalEntry where
  | createObjectChange (account : Address)
  | resetObjectChange (account : Address) (prev : StateObject)
  | suicideChange (account : Address) (prev : Bool) (prevbalance : Int)
  | balanceChange (account : Address) (prev : Int)
  | nonceChange (account : Address) (prev : Nat)
  | storageChange (account : Address) (key prevalue : Hash)
  | codeChange (account : Address) (prevcode : Bytes)
  | refundChange (prev : Nat)
  | addLogChange (txhash : Hash)
  | touchChange (account : Address)

def JournalEntry.dirtied : JournalEntry → Option Address
  | .createObjectChange account => some account
  | .resetObjectChange _ _ => none
  | .suicideChange account _ _ => some account
  | .balanceChange account _ => some account
  | .nonceChange account _ => some account
  | .storageChange account _ _ => some account
  | .codeChange account _ => some account
  | .refundChange _ => none
  | .addLogChange _ => none
  | .touchChange account => some account

/-- The newest entry comes first. -/
structure Journal where
  entries : List JournalEntry
  dirties : ExtTreeMap Address Nat

/-- `dirties[addr]++`. -/
def bump (dirties : ExtTreeMap Address Nat) (addr : Address) : ExtTreeMap Address Nat :=
  dirties.insert addr (dirties.getD addr 0 + 1)

/-- `dirties[addr]--`, and away with it at zero. -/
def drop (dirties : ExtTreeMap Address Nat) (addr : Address) : ExtTreeMap Address Nat :=
  if dirties.getD addr 0 - 1 = 0 then dirties.erase addr
  else dirties.insert addr (dirties.getD addr 0 - 1)

def Journal.append (j : Journal) (entry : JournalEntry) : Journal where
  entries := entry :: j.entries
  dirties :=
    match entry.dirtied with
    | some addr => bump j.dirties addr
    | none => j.dirties

/-- An address is dirty from now on, whatever is undone. -/
def Journal.dirty (j : Journal) (addr : Address) : Journal :=
  { j with dirties := bump j.dirties addr }

/-- The address whose touch is never undone. -/
def ripemd : Address := bytesToAddress [3]

/-! ## The database -/

/-- A log with its place in the block.  The hash of the block, which is filled in
when the block is sealed and is not part of an encoded receipt, is left out. -/
structure PlacedLog extends Log where
  txHash : Hash
  txIndex : Nat
  index : Nat

structure StateDB where
  trie : ExtTreeMap Address Account
  stateObjects : ExtTreeMap Address StateObject
  refund : Nat
  thash : Hash
  txIndex : Nat
  logs : ExtTreeMap Hash (List PlacedLog)
  logSize : Nat
  journal : Journal

namespace StateDB

def new (trie : ExtTreeMap Address Account) : StateDB :=
  ⟨trie, ∅, 0, FixedBytes.zero 32, 0, ∅, 0, ⟨[], ∅⟩⟩

def setStateObject (s : StateDB) (addr : Address) (obj : StateObject) : StateDB :=
  { s with stateObjects := s.stateObjects.insert addr obj }

def append (s : StateDB) (entry : JournalEntry) : StateDB :=
  { s with journal := s.journal.append entry }

/-- An object that is read from the trie is kept. -/
def getStateObject (s : StateDB) (addr : Address) : StateDB × Option StateObject :=
  match s.stateObjects[addr]? with
  | some obj => (s, if obj.deleted = true then none else some obj)
  | none =>
    match s.trie[addr]? with
    | none => (s, none)
    | some data =>
      (s.setStateObject addr (.newObject data), some (.newObject data))

/-- The state with the new object, and the object that was there before. -/
def createObject (s : StateDB) (addr : Address) : StateDB × Option StateObject :=
  match s.getStateObject addr with
  | (s, none) =>
    ((s.append (.createObjectChange addr)).setStateObject addr (.newObject .fresh), none)
  | (s, some prev) =>
    ((s.append (.resetObjectChange addr prev)).setStateObject addr (.newObject .fresh), some prev)

def getOrNewStateObject (s : StateDB) (addr : Address) : StateDB × StateObject :=
  match s.getStateObject addr with
  | (s, some obj) => (s, obj)
  | (s, none) => ((s.createObject addr).1, .newObject .fresh)

/-- What the setters of an object do: an entry that keeps the old value, and the
new value. -/
def change (s : StateDB) (addr : Address) (entry : StateObject → JournalEntry)
    (set : StateObject → StateObject) : StateDB :=
  let got := s.getOrNewStateObject addr
  (got.1.append (entry got.2)).setStateObject addr (set got.2)

def touch (s : StateDB) (addr : Address) : StateDB :=
  let touched := s.append (.touchChange addr)
  if addr = ripemd then { touched with journal := touched.journal.dirty addr } else touched

def setBalance (s : StateDB) (addr : Address) (amount : StateObject → Int) : StateDB :=
  s.change addr (fun obj => .balanceChange addr obj.data.balance)
    (fun obj => obj.setBalance (amount obj))

def addBalance (s : StateDB) (addr : Address) (amount : Int) : StateDB :=
  if amount = 0 then
    let got := s.getOrNewStateObject addr
    if got.2.empty = true then got.1.touch addr else got.1
  else s.setBalance addr fun obj => obj.data.balance + amount

def subBalance (s : StateDB) (addr : Address) (amount : Int) : StateDB :=
  if amount = 0 then (s.getOrNewStateObject addr).1
  else s.setBalance addr fun obj => obj.data.balance - amount

def setNonce (s : StateDB) (addr : Address) (nonce : Nat) : StateDB :=
  s.change addr (fun obj => .nonceChange addr obj.data.nonce) (fun obj => obj.setNonce nonce)

def setCode (s : StateDB) (addr : Address) (code : Bytes) : StateDB :=
  s.change addr (fun obj => .codeChange addr obj.data.code) (fun obj => obj.setCode code)

def setState (s : StateDB) (addr : Address) (key value : Hash) : StateDB :=
  s.change addr (fun obj => .storageChange addr key (obj.data.storage key))
    (fun obj => obj.setState key value)

/-- The balance of an account that is created anew is carried over. -/
def createAccount (s : StateDB) (addr : Address) : StateDB :=
  match s.createObject addr with
  | (s, none) => s
  | (s, some prev) =>
    s.setStateObject addr ((StateObject.newObject .fresh).setBalance prev.data.balance)

def suicide (s : StateDB) (addr : Address) : StateDB × Bool :=
  match s.getStateObject addr with
  | (s, none) => (s, false)
  | (s, some obj) =>
    ((s.append (.suicideChange addr obj.suicided obj.data.balance)).setStateObject addr
      (obj.suicide true 0), true)

def addRefund (s : StateDB) (gas : Nat) : StateDB :=
  { s.append (.refundChange s.refund) with refund := (s.refund + gas) % 2 ^ 64 }

def addLog (s : StateDB) (log : Log) : StateDB :=
  { s.append (.addLogChange s.thash) with
    logs := s.logs.insert s.thash
      (s.logs.getD s.thash [] ++ [⟨log, s.thash, s.txIndex, s.logSize⟩])
    logSize := s.logSize + 1 }

/-! ### Undoing -/

/-- A change of an object that is there; where it is not, the program would end. -/
def adjust (s : StateDB) (addr : Address) (set : StateObject → StateObject) : StateDB :=
  match s.getStateObject addr with
  | (s, none) => s
  | (s, some obj) => s.setStateObject addr (set obj)

/-- `revert` of an entry. -/
def undo (s : StateDB) : JournalEntry → StateDB
  | .createObjectChange account => { s with stateObjects := s.stateObjects.erase account }
  | .resetObjectChange account prev => s.setStateObject account prev
  | .suicideChange account prev prevbalance =>
    s.adjust account fun obj => obj.suicide prev prevbalance
  | .balanceChange account prev => s.adjust account fun obj => obj.setBalance prev
  | .nonceChange account prev => s.adjust account fun obj => obj.setNonce prev
  | .storageChange account key prevalue => s.adjust account fun obj => obj.setState key prevalue
  | .codeChange account prevcode => s.adjust account fun obj => obj.setCode prevcode
  | .refundChange prev => { s with refund := prev }
  | .addLogChange txhash =>
    let logs := s.logs.getD txhash []
    { s with
      logs := if logs.length = 1 then s.logs.erase txhash
        else s.logs.insert txhash logs.dropLast
      logSize := s.logSize - 1 }
  | .touchChange _ => s

def undoOne (s : StateDB) (entry : JournalEntry) : StateDB :=
  let undone := s.undo entry
  match entry.dirtied with
  | some addr =>
    { undone with
      journal := { undone.journal with dirties := drop undone.journal.dirties addr } }
  | none => undone

def undoAll (s : StateDB) (entries : List JournalEntry) : StateDB := entries.foldl undoOne s

def snapshot (s : StateDB) : Nat := s.journal.entries.length

def revertToSnapshot (snapshot : Nat) (s : StateDB) : StateDB :=
  let newer := s.journal.entries.length - snapshot
  let undone := s.undoAll (s.journal.entries.take newer)
  { undone with journal := { undone.journal with entries := s.journal.entries.drop newer } }

/-! ### The end of a transaction -/

def finaliseOne (deleteEmptyObjects : Bool) (s : StateDB) (addr : Address) : StateDB :=
  match s.stateObjects[addr]? with
  | none => s
  | some obj =>
    if obj.suicided = true ∨ (deleteEmptyObjects = true ∧ obj.empty = true) then
      { s with
        trie := s.trie.erase addr
        stateObjects := s.stateObjects.insert addr { obj with deleted := true } }
    else { s with trie := s.trie.insert addr obj.data }

def finalise (s : StateDB) (deleteEmptyObjects : Bool) : StateDB :=
  { s.journal.dirties.keys.foldl (finaliseOne deleteEmptyObjects) s with
    journal := ⟨[], ∅⟩
    refund := 0 }

def prepare (s : StateDB) (thash : Hash) (txIndex : Nat) : StateDB :=
  { s with thash := thash, txIndex := txIndex }

end StateDB

/-! ## The interface of the virtual machine -/

inductive Call where
  | createAccount (addr : Address)
  | subBalance (addr : Address) (amount : Int)
  | addBalance (addr : Address) (amount : Int)
  | setBalance (addr : Address) (amount : Int)
  | getBalance (addr : Address)
  | getNonce (addr : Address)
  | setNonce (addr : Address) (nonce : Nat)
  | getCode (addr : Address)
  | setCode (addr : Address) (code : Bytes)
  | addRefund (gas : Nat)
  | getRefund
  | getState (addr : Address) (key : Hash)
  | setState (addr : Address) (key value : Hash)
  | suicide (addr : Address)
  | hasSuicided (addr : Address)
  | exist (addr : Address)
  | empty (addr : Address)
  | addLog (log : Log)

@[reducible] def Call.Answer : Call → Type
  | .getBalance _ => Int
  | .getNonce _ | .getRefund => Nat
  | .getCode _ => Bytes
  | .getState _ _ => Hash
  | .suicide _ | .hasSuicided _ | .exist _ | .empty _ => Bool
  | _ => Unit

def StateDB.read {α : Type} (s : StateDB) (addr : Address) (read : Option StateObject → α) :
    StateDB × α :=
  let got := s.getStateObject addr
  (got.1, read got.2)

def StateDB.call (s : StateDB) : (c : Call) → StateDB × c.Answer
  | .createAccount addr => (s.createAccount addr, ())
  | .subBalance addr amount => (s.subBalance addr amount, ())
  | .addBalance addr amount => (s.addBalance addr amount, ())
  | .setBalance addr amount => (s.setBalance addr fun _ => amount, ())
  | .getBalance addr => s.read addr fun obj => (obj.map (·.data.balance)).getD 0
  | .getNonce addr => s.read addr fun obj => (obj.map (·.data.nonce)).getD 0
  | .setNonce addr nonce => (s.setNonce addr nonce, ())
  | .getCode addr => s.read addr fun obj => (obj.map (·.data.code)).getD []
  | .setCode addr code => (s.setCode addr code, ())
  | .addRefund gas => (s.addRefund gas, ())
  | .getRefund => (s, s.refund)
  | .getState addr key =>
    s.read addr fun obj => (obj.map (·.data.storage key)).getD (FixedBytes.zero 32)
  | .setState addr key value => (s.setState addr key value, ())
  | .suicide addr => s.suicide addr
  | .hasSuicided addr => s.read addr fun obj => (obj.map (·.suicided)).getD false
  | .exist addr => s.read addr fun obj => obj.isSome
  | .empty addr => s.read addr fun obj => (obj.map (·.empty)).getD true
  | .addLog log => (s.addLog log, ())

def stateInterface : Interface := ⟨Call, Call.Answer⟩

def stateMachine : Machine stateInterface StateDB where
  call := fun c s => s.call c
  mark := StateDB.snapshot
  revert := StateDB.revertToSnapshot

end Linkeye.Core.Journaling
