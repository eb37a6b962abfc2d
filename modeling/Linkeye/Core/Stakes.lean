import Linkeye.Core.StateProcessor

/-!
# Stakes

What a staking message does to the candidate trie and to the balances, said
once for all later invariants: it leaves both alone, or it rewrites the record
of its sender, or it takes a deposit, or it pays one back.
-/

set_option autoImplicit false

namespace Linkeye.Core.Stakes

open Common.Types Common.Signature Dpos StateProcessor Transaction Rlp.Encode Rlp.Decode
open Trie.Contents

/-! ## Records -/

theorem coinState_toNat_lt (state : CoinState) : state.toNat < 256 := by
  cases state with
  | loginState => decide
  | logoutState => decide
  | withdrawingState => decide
  | other code =>
    have := code.isLt
    simp only [CoinState.toNat]
    omega

theorem coinState_ofNat_toNat (state : CoinState) : CoinState.ofNat state.toNat = state := by
  cases state with
  | loginState => rfl
  | logoutState => rfl
  | withdrawingState => rfl
  | other code =>
    have small : (3 + code.val - 3) % 253 = code.val := by
      have := code.isLt
      omega
    have large : ∃ n, 3 + code.val = n + 3 := ⟨code.val, by omega⟩
    obtain ⟨n, same⟩ := large
    simp only [CoinState.toNat, same, CoinState.ofNat, CoinState.other.injEq]
    rw [same] at small
    exact Fin.ext small

variable {cc : CandidateContext} {item : Item} {a : Address}

theorem encodeRLP_eq_some (written : cc.encodeRLP = some item) :
    0 ≤ cc.blockNumber ∧ 0 ≤ cc.score ∧
      item = .list [writeByteArray cc.addr, writeUint cc.state.toNat,
        .bytes (bigBytes cc.blockNumber.toNat), .bytes (bigBytes cc.score.toNat)] := by
  rw [CandidateContext.encodeRLP] at written
  split at written
  · rename_i number score
    obtain ⟨numberNonneg, rfl⟩ := writeBigInt_eq_some number
    obtain ⟨scoreNonneg, rfl⟩ := writeBigInt_eq_some score
    exact ⟨numberNonneg, scoreNonneg, (Option.some.inj written).symm⟩
  · cases written

theorem decodeRLP_encodeRLP (written : cc.encodeRLP = some item) :
    CandidateContext.decodeRLP item = some cc := by
  obtain ⟨numberNonneg, scoreNonneg, rfl⟩ := encodeRLP_eq_some written
  have state : decodeUint 8 (writeUint cc.state.toNat) = some cc.state.toNat :=
    decodeUint_writeUint (coinState_toNat_lt cc.state)
  simp only [CandidateContext.decodeRLP, decodeByteArray_writeByteArray, state,
    decodeBigInt_bigBytes, Option.bind_eq_bind, Option.bind_some, coinState_ofNat_toNat,
    Int.toNat_of_nonneg numberNonneg, Int.toNat_of_nonneg scoreNonneg]
  rfl

theorem exists_encodeRLP (cc : CandidateContext) (number : 0 ≤ cc.blockNumber)
    (score : 0 ≤ cc.score) : ∃ item, cc.encodeRLP = some item := by
  obtain ⟨addr, state, blockNumber, total⟩ := cc
  obtain ⟨natNumber, rfl⟩ := Int.eq_ofNat_of_zero_le number
  obtain ⟨natScore, rfl⟩ := Int.eq_ofNat_of_zero_le score
  exact ⟨_, CandidateContext.encodeRLP_natCast addr state natNumber natScore⟩

theorem nonneg_of_decodeRLP (read : CandidateContext.decodeRLP item = some cc) :
    0 ≤ cc.blockNumber ∧ 0 ≤ cc.score := by
  rw [CandidateContext.decodeRLP.eq_def] at read
  split at read
  · simp only [Option.bind_eq_bind, Option.bind_eq_some_iff, Option.pure_def,
      Option.some.injEq] at read
    obtain ⟨_, _, _, _, number, _, score, _, rfl⟩ := read
    exact ⟨Int.natCast_nonneg number, Int.natCast_nonneg score⟩
  · cases read

/-- Whatever is read as a record has no negative number in it. -/
theorem nonneg_of_getCandidateContext {dc : DposContext} (found : dc.getCandidateContext a = .ok cc) :
    0 ≤ cc.blockNumber ∧ 0 ≤ cc.score := by
  rcases getCandidateContext_eq_ok found with ⟨_, rfl⟩ | ⟨ccRLP, _, read⟩
  · exact ⟨le_refl 0, le_refl 0⟩
  · obtain ⟨item, _, record⟩ := Option.bind_eq_some_iff.mp read
    exact nonneg_of_decodeRLP record

/-- `value` is the encoding of `cc`, and a slice can hold it. -/
structure Holds (value : Bytes) (cc : CandidateContext) : Prop where
  written : ∃ item, cc.encodeRLP = some item ∧ value = encode item
  short : value.length < maxInt

theorem Holds.decodeRecord {value : Bytes} (holds : Holds value cc) :
    Dpos.decodeRecord CandidateContext.decodeRLP value = some cc := by
  obtain ⟨item, written, rfl⟩ := holds.written
  rw [Dpos.decodeRecord, decodeBytes_encode holds.short, Option.bind_some]
  exact decodeRLP_encodeRLP written

/-- Every record is stored under its own address. -/
def OwnRecords (dc : DposContext) : Prop :=
  ∀ key value, dc.candidateTrie.tryGet key = some value →
    ∃ cc, key = cc.addr.data ∧ Holds value cc

def ShortRecords (dc : DposContext) : Prop :=
  ∀ key value, dc.candidateTrie.tryGet key = some value → value.length < maxInt

theorem shortRecords_iff (dc : DposContext) :
    ShortRecords dc ↔ ∀ entry ∈ dc.candidateTrie.nodeIterator, entry.2.length < maxInt := by
  constructor
  · rintro short ⟨key, value⟩ member
    exact short key value (TrieMap.mem_nodeIterator.mp member)
  · intro short key value stored
    exact short (key, value) (TrieMap.mem_nodeIterator.mpr stored)

instance (dc : DposContext) : Decidable (ShortRecords dc) :=
  decidable_of_iff _ (shortRecords_iff dc).symm

section
variable {dc : DposContext}

theorem tryGet_setCandidateContext (written : cc.encodeRLP = some item) (key : Bytes) :
    (dc.setCandidateContext cc).1.candidateTrie.tryGet key =
      if cc.addr.data = key then some (encode item) else dc.candidateTrie.tryGet key := by
  rw [DposContext.setCandidateContext, written]
  exact TrieMap.tryGet_tryUpdate _ (encode_ne_nil item) key

theorem isCandidate_setCandidateContext (candidate : dc.IsCandidate a) :
    (dc.setCandidateContext cc).1.IsCandidate a := by
  cases written : cc.encodeRLP with
  | none =>
    rw [DposContext.setCandidateContext, written]
    exact candidate
  | some item =>
    rw [DposContext.IsCandidate, tryGet_setCandidateContext written]
    by_cases own : cc.addr.data = a.data
    · rw [if_pos own]
      exact Option.some_ne_none _
    · rw [if_neg own]
      exact candidate

theorem tryGet_setCandidateContext_of_ne (other : cc.addr ≠ a) :
    (dc.setCandidateContext cc).1.candidateTrie.tryGet a.data = dc.candidateTrie.tryGet a.data := by
  cases written : cc.encodeRLP with
  | none => rw [DposContext.setCandidateContext, written]
  | some item =>
    have keys : cc.addr.data ≠ a.data := fun equal => other (FixedBytes.data_inj equal)
    rw [tryGet_setCandidateContext written, if_neg keys]

theorem ownRecords_new : OwnRecords newDposContext := by
  intro key value stored
  simp [newDposContext] at stored

section
variable (own : OwnRecords dc)
include own

theorem OwnRecords.short : ShortRecords dc := by
  intro key value stored
  obtain ⟨_, _, holds⟩ := own key value stored
  exact holds.short

/-- What is written is an own record again, if a slice can hold it. -/
theorem OwnRecords.setCandidateContext (cc : CandidateContext)
    (short : ShortRecords (dc.setCandidateContext cc).1) :
    OwnRecords (dc.setCandidateContext cc).1 := by
  cases written : cc.encodeRLP with
  | none =>
    rw [DposContext.setCandidateContext, written]
    exact own
  | some item =>
    intro key value stored
    have size := short key value stored
    rw [tryGet_setCandidateContext written] at stored
    by_cases same : cc.addr.data = key
    · rw [if_pos same] at stored
      cases stored
      exact ⟨cc, same.symm, ⟨item, written, rfl⟩, size⟩
    · rw [if_neg same] at stored
      exact own key value stored

theorem OwnRecords.enroll (a : Address) :
    OwnRecords (dc.setCandidateContext ⟨a, .loginState, 0, 0⟩).1 := by
  have written : (CandidateContext.mk a .loginState 0 0).encodeRLP = some _ :=
    CandidateContext.encodeRLP_natCast a .loginState 0 0
  apply own.setCandidateContext
  intro key value stored
  rw [tryGet_setCandidateContext written] at stored
  split at stored
  · cases stored
    have items : (encodeItems [writeByteArray a, writeUint CoinState.loginState.toNat,
        .bytes (bigBytes 0), .bytes (bigBytes 0)]).length = 24 := by
      simp [encodeItems, encode_address_length, writeUint, CoinState.toNat, encode, encodeString,
        encodeStringHeader, puthead, bigBytes]
    simp [encode, items, puthead, maxInt]
  · exact own.short key value stored

theorem OwnRecords.tryDelete {after : DposContext} {removed : Bytes}
    (deleted : after.candidateTrie = dc.candidateTrie.tryDelete removed) : OwnRecords after := by
  intro key value stored
  rw [deleted] at stored
  exact own key value (TrieMap.tryGet_of_tryDelete stored)

theorem OwnRecords.congr {after : DposContext}
    (same : after.candidateTrie = dc.candidateTrie) : OwnRecords after := by
  intro key value stored
  rw [same] at stored
  exact own key value stored

theorem OwnRecords.getCandidateContext (candidate : dc.IsCandidate a) :
    ∃ cc value, cc.addr = a ∧ dc.candidateTrie.tryGet a.data = some value ∧ Holds value cc := by
  obtain ⟨value, stored⟩ := Option.ne_none_iff_exists'.mp candidate
  obtain ⟨cc, key, holds⟩ := own a.data value stored
  exact ⟨cc, value, (FixedBytes.data_inj key).symm, stored, holds⟩

end

end

/-! ## Messages -/

/-- The record of `a` is a logout record whose waiting time is over at `number`. -/
def Unlocked (dc : DposContext) (a : Address) (number : Nat) : Prop :=
  ∃ cc, dc.getCandidateContext a = .ok cc ∧ cc.state = .logoutState ∧
    cc.blockNumber + unlockInterval < number

/-- The candidate trie and the state after a message.  Each constructor is a
branch of `applyDposMessage` that writes. -/
inductive StakeChange (dc : DposContext) (msg : Message) (statedb : StateDB) (number : Nat) :
    TrieMap → StateDB → Prop where
  | unmoved {after : StateDB} (same : after.balances = statedb.balances) :
      StakeChange dc msg statedb number dc.candidateTrie after
  | relogin (cc : CandidateContext) (kind : msg.txType = .loginCandidate)
      (found : dc.getCandidateContext msg.sender = .ok cc) (logout : cc.state = .logoutState) :
      StakeChange dc msg statedb number
        (dc.setCandidateContext ⟨msg.sender, .loginState, number, cc.score⟩).1.candidateTrie statedb
  | deposit (cc : CandidateContext) (kind : msg.txType = .loginCandidate)
      (found : dc.getCandidateContext msg.sender = .ok cc) (notLogout : cc.state ≠ .logoutState)
      (notLogin : ¬ (cc.state = .loginState ∧ cc.addr = msg.sender))
      (enough : minCandidateBalance ≤ statedb.getBalance msg.sender) :
      StakeChange dc msg statedb number
        (dc.setCandidateContext ⟨msg.sender, .loginState, number, 0⟩).1.candidateTrie
        (statedb.subBalance msg.sender minCandidateBalance)
  | logout (cc : CandidateContext) (kind : msg.txType = .logoutCandidate)
      (found : dc.getCandidateContext msg.sender = .ok cc) (login : cc.state = .loginState)
      (own : cc.addr = msg.sender) :
      StakeChange dc msg statedb number
        (dc.setCandidateContext ⟨msg.sender, .logoutState, number, cc.score⟩).1.candidateTrie
        statedb
  | refund (kind : msg.txType = .withdrawCandidate) (unlocked : Unlocked dc msg.sender number) :
      StakeChange dc msg statedb number (dc.candidateTrie.tryDelete msg.sender.data)
        (statedb.addBalance msg.sender minCandidateBalance)

section
variable (crypto : Crypto) (dc : DposContext) (msg : Message) (statedb : StateDB) (number : Nat)

theorem applyDposMessage_stake :
    StakeChange dc msg statedb number
      (applyDposMessage crypto dc msg statedb number).1.candidateTrie
      (applyDposMessage crypto dc msg statedb number).2.1 := by
  have effect := applyDposMessage_effect crypto dc statedb number msg
  generalize (applyDposMessage crypto dc msg statedb number).1 = context,
    (applyDposMessage crypto dc msg statedb number).2.1 = state at effect ⊢
  cases effect with
  | refused _ same => exact .unmoved same
  | relogin cc kind found logout => exact .relogin cc kind found logout
  | deposit cc kind found notLogout notLogin enough =>
    exact .deposit cc kind found notLogout notLogin enough
  | logout cc kind found login => exact .logout cc kind found login.1 login.2
  | withdraw cc kind found logout elapsed =>
    rw [DposContext.kickoutCandidate, (DposContext.kickoutDelegators_keeps _ _ _).1]
    exact .refund kind ⟨cc, found, logout, elapsed⟩
  | delegate recipient =>
    rw [(DposContext.delegate_keeps dc msg.sender recipient number _).2]
    exact .unmoved rfl
  | unDelegate recipient =>
    rw [candidateTrie_unDelegate]
    exact .unmoved rfl

end

end Linkeye.Core.Stakes
