import Linkeye.Core.Agreement
import Linkeye.Vm.GasBound

/-!
# Static calls only read

A static frame asks the state database for nothing but reads, transfers of nothing and
the creation of accounts that do not exist.  None of these changes what an account is
seen to hold, and neither does going back to a snapshot.
-/

set_option autoImplicit false

namespace Linkeye.Vm.ReadOnly

open Common.Signature Common.Types
open Core.Agreement (tidy_finalise)
open Core.Journaling Core.Rewind Lib.Programs
open Gas GasBound Interpreter

/-! ## The states of a database -/

/-- The states of a `StateDB` while blocks are executed on it: transactions are prepared
and finalised, and any program makes its calls in any frames. -/
inductive Session : StateDB → Prop where
  | new (trie : Std.ExtTreeMap Address Account) : Session (.new trie)
  | prepare {s : StateDB} (thash : Hash) (txIndex : Nat) :
      Session s → Session (s.prepare thash txIndex)
  | run {s : StateDB} {F α : Type} (keeps : F → Bool) (p : Prog stateInterface F α) :
      Session s → Session (p.run stateMachine keeps s).1
  | finalise {s : StateDB} (deleteEmptyObjects : Bool) :
      Session s → Session (s.finalise deleteEmptyObjects)

theorem tidy_of_session {s : StateDB} (session : Session s) : Tidy s := by
  induction session with
  | new trie => exact tidy_new trie
  | prepare thash txIndex _ ih => exact { ih with }
  | run keeps p _ ih => exact (steps_run keeps p _ ih).2
  | finalise del _ ih => exact tidy_finalise del ih

/-! ## What is seen of an account -/

/-- The account and its suicide flag; one that is not there looks like a fresh one. -/
def face (s : StateDB) (a : Address) : Account × Bool :=
  ((lookup s a).map fun obj => (obj.data, obj.suicided)).getD (.fresh, false)

structure SameFaces (s t : StateDB) : Prop where
  face : ∀ a, face t a = face s a
  logs : ∀ hash, t.logs.getD hash [] = s.logs.getD hash []

namespace SameFaces
variable {r s t : StateDB}

theorem refl (s : StateDB) : SameFaces s s := ⟨fun _ => rfl, fun _ => rfl⟩

theorem trans (first : SameFaces r s) (second : SameFaces s t) : SameFaces r t where
  face := fun a => (second.face a).trans (first.face a)
  logs := fun hash => (second.logs hash).trans (first.logs hash)

theorem of_alike (alike : Alike s t) : SameFaces s t where
  face := by
    intro a
    rw [ReadOnly.face, ReadOnly.face, alike.lookup]
  logs := alike.logs

/-- A fresh object shows what no object shows. -/
theorem create {a : Address} (missing : lookup s a = none) :
    SameFaces s ((s.append (.createObjectChange a)).setStateObject a (.newObject .fresh)) where
  face := by
    intro b
    rw [ReadOnly.face, ReadOnly.face]
    by_cases same : a = b
    · subst same
      rw [lookup_setStateObject_self _ rfl, missing]
      rfl
    · have held : lookup (s.append (.createObjectChange a)) b = lookup s b :=
        lookup_congr s b rfl rfl
      rw [lookup_setStateObject _ rfl, if_neg same, held]
  logs := fun _ => rfl

theorem getOrNewStateObject (s : StateDB) (a : Address) :
    SameFaces s (s.getOrNewStateObject a).1 := by
  have read := of_alike (alike_getStateObject s a)
  rw [StateDB.getOrNewStateObject]
  cases found : lookup s a with
  | none =>
    have created := create found
    rw [getStateObject_of_none found]
    dsimp only
    rw [StateDB.createObject, getStateObject_of_none found]
    exact created
  | some obj =>
    rw [lookup] at found
    cases got : s.getStateObject a with
    | mk s' result =>
      rw [got] at read found
      cases found
      exact read

theorem touch (s : StateDB) (a : Address) : SameFaces s (s.touch a) := by
  rw [StateDB.touch]
  split
  · exact of_alike (Alike.of_journal s _)
  · exact of_alike (Alike.of_journal s _)

end SameFaces

/-- A step of the database that no face shows. -/
def Still (s t : StateDB) : Prop := Steps s t ∧ (Tidy s → SameFaces s t)

theorem still_reads {c : Call} (reads : reading c = true) (s : StateDB) :
    Still s (stateMachine.call c s).1 := by
  refine ⟨steps_call c s, fun _ => ?_⟩
  have read (a : Address) : SameFaces s (s.getStateObject a).1 :=
    .of_alike (alike_getStateObject s a)
  cases c with
  | getBalance a | getNonce a | getCode a | getState a | hasSuicided a | exist a | empty a =>
    exact read a
  | getRefund => exact .refl s
  | _ => cases reads

theorem still_addsNothing (a : Address) (s : StateDB) :
    Still s (stateMachine.call (.addBalance a 0) s).1 := by
  refine ⟨steps_addBalance s a 0, fun _ => ?_⟩
  have got := SameFaces.getOrNewStateObject s a
  change SameFaces s (s.addBalance a 0)
  rw [StateDB.addBalance, if_pos rfl]
  dsimp only
  split
  · exact got.trans (.touch _ a)
  · exact got

theorem still_takesNothing (a : Address) (s : StateDB) :
    Still s (stateMachine.call (.subBalance a 0) s).1 := by
  refine ⟨steps_subBalance s a 0, fun _ => ?_⟩
  change SameFaces s (s.subBalance a 0)
  rw [StateDB.subBalance, if_pos rfl]
  exact .getOrNewStateObject s a

/-- An account is only created where there is none. -/
theorem still_creates (a : Address) (s : StateDB)
    (missing : (stateMachine.call (.exist a) s).2 = false) :
    Still s (stateMachine.call (.createAccount a) (stateMachine.call (.exist a) s).1).1 := by
  have none : lookup s a = none :=
    Option.isNone_iff_eq_none.mp (Option.isSome_eq_false_iff.mp missing)
  refine ⟨(steps_getStateObject s a).trans (steps_createAccount _ a), fun _ => ?_⟩
  change SameFaces s (StateDB.createAccount (s.getStateObject a).1 a)
  rw [getStateObject_of_none none, StateDB.createAccount, StateDB.createObject,
    getStateObject_of_none none]
  exact .create none

theorem still_reverts {s t : StateDB} (still : Still s t) :
    Still s (t.revertToSnapshot s.snapshot) := by
  refine ⟨steps_revertToSnapshot still.1, fun tidy => ?_⟩
  obtain ⟨⟨new, marks, reached⟩, _⟩ := still.1 tidy
  exact .of_alike (reached_revertToSnapshot reached).undone

theorem guards_still : Guards stateMachine true Still where
  refl := fun s => ⟨.refl s, fun _ => .refl s⟩
  trans := fun first second => ⟨first.1.trans second.1, fun tidy =>
    (first.2 tidy).trans (second.2 (first.1 tidy).2)⟩
  reverts := still_reverts
  reads := still_reads
  writes := fun dynamic => nomatch dynamic
  addsNothing := still_addsNothing
  takesNothing := still_takesNothing
  creates := still_creates

/-! ## Static calls -/

/-- The answers about accounts are read off the faces. -/
theorem answers_of_sameFaces {s t : StateDB} (same : SameFaces s t) (a : Address) :
    (t.call (.getBalance a)).2 = (s.call (.getBalance a)).2 ∧
    (t.call (.getNonce a)).2 = (s.call (.getNonce a)).2 ∧
    (t.call (.getCode a)).2 = (s.call (.getCode a)).2 ∧
    (∀ key, (t.call (.getState a key)).2 = (s.call (.getState a key)).2) ∧
    (t.call (.hasSuicided a)).2 = (s.call (.hasSuicided a)).2 := by
  have shown (u : StateDB) :
      (u.call (.getBalance a)).2 = (face u a).1.balance ∧
      (u.call (.getNonce a)).2 = (face u a).1.nonce ∧
      (u.call (.getCode a)).2 = (face u a).1.code ∧
      (∀ key, (u.call (.getState a key)).2 = (face u a).1.storage key) ∧
      (u.call (.hasSuicided a)).2 = (face u a).2 := by
    simp only [StateDB.call, StateDB.read, face, lookup]
    cases (u.getStateObject a).2 with
    | none | some => exact ⟨rfl, rfl, rfl, fun _ => rfl, rfl⟩
  obtain ⟨balance, nonce, code, storage, suicided⟩ := shown s
  obtain ⟨balance', nonce', code', storage', suicided'⟩ := shown t
  rw [same.face a] at balance' nonce' code' storage' suicided'
  exact ⟨balance'.trans balance.symm, nonce'.trans nonce.symm, code'.trans code.symm,
    fun key => (storage' key).trans (storage key).symm, suicided'.trans suicided.symm⟩

/-- Under the rules of Byzantium a static call returns, and whatever code it runs leaves
every account and every log as it was. -/
theorem staticCall_only_reads {ctx : Context} (rules : ctx.rules.isByzantium = true) {s : StateDB}
    (session : Session s) (evm : Evm) (caller addr : Address) (input : Bytes) (gas : UInt64) :
    let ran := (staticCall ctx (interpreter ctx) evm caller addr input gas).run stateMachine keeps s
    ran.2.isSome = true ∧
    (∀ a,
      (ran.1.call (.getBalance a)).2 = (s.call (.getBalance a)).2 ∧
      (ran.1.call (.getNonce a)).2 = (s.call (.getNonce a)).2 ∧
      (ran.1.call (.getCode a)).2 = (s.call (.getCode a)).2 ∧
      (∀ key, (ran.1.call (.getState a key)).2 = (s.call (.getState a key)).2) ∧
      (ran.1.call (.hasSuicided a)).2 = (s.call (.hasSuicided a)).2) ∧
    ∀ hash, ran.1.logs.getD hash [] = s.logs.getD hash [] := by
  have runner : RunnerOk stateMachine true Still (interpreter ctx) evm.depth :=
    interpreter_ok guards_still ctx (fun _ => rules) evm.depth
  obtain ⟨still, out, returned, _⟩ :=
    staticCall_ensures guards_still ctx runner caller addr input gas s
  have same : SameFaces s _ := still.2 (tidy_of_session session)
  exact ⟨Option.isSome_of_eq_some returned, answers_of_sameFaces same, same.logs⟩

def byzantium : Context where
  rules := ⟨true, true, true, true, false⟩
  noRecursion := false
  crypto := plainCrypto
  getHash := fun _ => FixedBytes.zero 32
  origin := zeroAddress
  gasPrice := 1
  coinbase := zeroAddress
  gasLimit := 8000000
  blockNumber := 1
  time := 1
  difficulty := 1
  precompiledHomestead := fun _ => none
  precompiledByzantium := fun _ => none
  aborted := fun _ => false

def writer : Address := bytesToAddress [9]

def writerState : StateDB :=
  .new ((∅ : Std.ExtTreeMap Address Account).insert writer
    { Account.fresh with code := [0x60, 1, 0x60, 0, 0x55] })

def idle : Evm := ⟨0, false, [], 0, 0, []⟩

theorem staticCall_only_reads_writer :
    ((((call byzantium (interpreter byzantium) idle zeroAddress writer [] 100000 0).run
      stateMachine keeps writerState).1.call (.getState writer (FixedBytes.zero 32))).2 ==
        bytesToHash [1]) = true ∧
    (((((staticCall byzantium (interpreter byzantium) idle zeroAddress writer [] 100000).run
      stateMachine keeps writerState).1.call (.getState writer (FixedBytes.zero 32))).2 ==
        (writerState.call (.getState writer (FixedBytes.zero 32))).2) = true) :=
  ⟨by decide +kernel, by
    rw [beq_iff_eq]
    exact ((staticCall_only_reads rfl (Session.new _) idle zeroAddress writer [] 100000).2.1
      writer).2.2.2.1 _⟩

end Linkeye.Vm.ReadOnly
