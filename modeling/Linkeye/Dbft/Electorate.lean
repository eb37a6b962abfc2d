import Linkeye.Core.Genesis
import Linkeye.Dbft.Election

/-!
# One account, one vote

Runs of staking messages and elections from a genesis context.  A delegation is
either remembered by a vote record or it is the delegation to itself that
genesis wrote; `Delegate` only removes the first kind.
-/

set_option autoImplicit false

namespace Linkeye.Dbft.Electorate

open Common.Types Common.Signature Core.Dpos Core.Genesis Core.StateProcessor Core.Transaction
open Election Lib.Runs Rlp.Encode Trie.Contents

/-- Messages and elections meet any balances: what happens to the state between
two steps is left open. -/
inductive LedgerStep where
  | message (msg : Message) (statedb : StateDB) (number : Nat)
  | election (commitOrder rankOrder : MapOrder) (statedb : StateDB)

def ledgerSystem (crypto : Crypto) (maxValidatorSize : Nat) : System DposContext LedgerStep where
  init := fun dc => ∃ config, dc = initGenesisDposContext config
  enabled := fun _ _ => True
  next := fun dc step =>
    match step with
    | .message msg statedb number => (applyDposMessage crypto dc msg statedb number).1
    | .election commitOrder rankOrder statedb =>
      (tryElect crypto.keccak256 maxValidatorSize commitOrder rankOrder dc statedb).1

/-- `d` delegates to itself without a vote record that says so, and now chooses
another candidate. -/
def SplitsVote (dc : DposContext) (d c : Address) : Prop :=
  dc.voteTrie.tryGet d.data = none ∧ dc.Delegated d d ∧ c ≠ d

/-- A delegation that goes through does not split the vote of its sender, and its
record can be encoded. -/
def KeepsOneVote (dc : DposContext) : LedgerStep → Prop
  | .message msg statedb number =>
    ∀ c, msg.txType = .delegate → msg.recipient = some c → dc.IsCandidate c →
      ¬ SplitsVote dc msg.sender c ∧
        Recordable ⟨msg.sender, c, number, statedb.getBalance msg.sender⟩
  | .election _ _ _ => True

structure OneVote (dc : DposContext) : Prop where
  delegated : ∀ d c c', dc.Delegated d c → dc.Delegated d c' → c = c'
  counted : ∀ d c c', d ∈ delegatorsOf dc c → d ∈ delegatorsOf dc c' → c = c'

/-! ## The invariant -/

structure Remembered (dc : DposContext) : Prop where
  shaped : DelegateEntries dc.delegateTrie
  remembered : ∀ d c, dc.Delegated d c →
    dc.Voted d c ∨ (dc.voteTrie.tryGet d.data = none ∧ c = d)
  long : ∀ key value, dc.voteTrie.tryGet key = some value → 20 < value.length

section
variable {dc after : DposContext}

theorem oldVote_eq_none_iff (d : Address) :
    dc.oldVote d = .ok none ↔ dc.voteTrie.tryGet d.data = none := by
  rw [DposContext.oldVote]
  cases stored : dc.voteTrie.tryGet d.data with
  | none => simp
  | some b =>
    cases decoded : decodeRecord VoteContext.decodeRLP b with
    | none | some => simp [decoded]

/-- A vote record is longer than an address: it holds two. -/
theorem encode_vote_long {vc : VoteContext} {item : Item} (written : vc.encodeRLP = some item) :
    20 < (encode item).length := by
  obtain ⟨_, _, rfl⟩ := VoteContext.encodeRLP_eq_some written
  have delegator := Linkeye.Rlp.Decode.encodeString_length vc.delegator.data
  have candidate := Linkeye.Rlp.Decode.encodeString_length vc.candidate.data
  rw [vc.delegator.length_data] at delegator
  rw [vc.candidate.length_data] at candidate
  simp only [encode, encodeItems, writeByteArray, List.length_append]
  omega

theorem Remembered.of_keepsVotes (inv : Remembered dc) (kept : KeepsVotes dc after) :
    Remembered after := by
  obtain ⟨delegates, votes, _⟩ := kept
  constructor
  · rw [delegates]
    exact inv.shaped
  · intro d c
    simp only [DposContext.Delegated, DposContext.delegation, DposContext.Voted,
      DposContext.oldVote, delegates, votes]
    exact inv.remembered d c
  · rw [votes]
    exact inv.long

theorem not_voted_of_missing {d c : Address} (missing : dc.voteTrie.tryGet d.data = none) :
    ¬ dc.Voted d c := by
  rintro ⟨vc, stored, _⟩
  rw [(oldVote_eq_none_iff d).mpr missing] at stored
  cases stored

section
variable (inv : Remembered dc)
include inv

theorem Remembered.delegated_unique {d c c' : Address}
    (first : dc.Delegated d c) (second : dc.Delegated d c') : c = c' := by
  rcases inv.remembered d c first with voted | ⟨missing, own⟩
  · rcases inv.remembered d c' second with other | ⟨missing, _⟩
    · exact voted.unique other
    · exact absurd voted (not_voted_of_missing missing)
  · rcases inv.remembered d c' second with other | ⟨_, otherOwn⟩
    · exact absurd other (not_voted_of_missing missing)
    · rw [own, otherOwn]

theorem Remembered.oneVote : OneVote dc := by
  constructor
  · intro d c c' first second
    exact inv.delegated_unique first second
  · intro d c c' first second
    exact inv.delegated_unique ((mem_delegatorsOf inv.shaped).mp first)
      ((mem_delegatorsOf inv.shaped).mp second)

theorem Remembered.redelegated {old : Option VoteContext}
    {vc : VoteContext} (effect : DposContext.Redelegated dc after old vc)
    (whole : ¬ SplitsVote dc vc.delegator vc.candidate) : Remembered after := by
  obtain ⟨item, written, votes⟩ := effect.voteTrie
  constructor
  · rw [effect.delegateTrie]
    exact DposContext.entries_replaceDelegation inv.shaped old _ _
  · intro d c delegated
    rw [DposContext.Delegated] at delegated
    by_cases same : vc.delegator = d
    · subst same
      rw [effect.delegations] at delegated
      left
      refine ⟨vc, by simp [effect.votes], ?_⟩
      by_contra other
      simp only [other, false_and, if_false, true_and] at delegated
      by_cases removed : old.map VoteContext.candidate = some c
      · simp [removed] at delegated
      · rw [if_neg removed] at delegated
        -- A delegation that stays is not in the record found, so it is the one of genesis.
        rcases inv.remembered _ c delegated with ⟨record, stored, named⟩ | ⟨missing, own⟩
        · rw [effect.found] at stored
          cases stored
          exact removed (congrArg some named)
        · rw [own] at delegated other
          exact whole ⟨missing, delegated, other⟩
    · rw [effect.delegation_of_ne same] at delegated
      have keys : vc.delegator.data ≠ d.data := fun equal => same (FixedBytes.data_inj equal)
      have before := inv.remembered d c delegated
      simpa [DposContext.Voted, effect.votes, same, votes,
        TrieMap.tryGet_tryUpdate _ (encode_ne_nil item), keys] using before
  · intro key value stored
    rw [votes, TrieMap.tryGet_tryUpdate _ (encode_ne_nil item)] at stored
    by_cases new : vc.delegator.data = key
    · rw [if_pos new] at stored
      cases stored
      exact encode_vote_long written
    · rw [if_neg new] at stored
      exact inv.long key value stored

theorem Remembered.undelegated {d c : Address}
    (effect : DposContext.Undelegated dc after d c) : Remembered after := by
  constructor
  · rw [effect.delegateTrie]
    exact inv.shaped.of_stays fun _ _ => TrieMap.tryGet_of_tryDelete
  · intro d' c' delegated
    rw [DposContext.Delegated] at delegated
    by_cases same : d = d'
    · subst same
      rw [effect.delegations] at delegated
      by_cases chosen : c = c'
      · simp [chosen] at delegated
      · simp only [chosen, false_and, if_false] at delegated
        rcases inv.remembered d c' delegated with voted | ⟨_, own⟩
        · exact absurd (effect.eq_of_voted voted) chosen
        · right
          refine ⟨?_, own⟩
          rw [effect.voteTrie, TrieMap.tryGet_tryDelete, if_pos rfl]
    · rw [effect.delegation_of_ne same] at delegated
      have keys : d.data ≠ d'.data := fun equal => same (FixedBytes.data_inj equal)
      have before := inv.remembered d' c' delegated
      simpa [DposContext.Voted, effect.votes, same, effect.voteTrie, TrieMap.tryGet_tryDelete, keys]
        using before
  · intro key value stored
    rw [effect.voteTrie] at stored
    exact inv.long key value (TrieMap.tryGet_of_tryDelete stored)

theorem Remembered.kickoutCandidate (c : Address) :
    Remembered (dc.kickoutCandidate c) := by
  have votes : (dc.kickoutCandidate c).voteTrie = dc.voteTrie := by
    rw [DposContext.kickoutCandidate, DposContext.kickoutDelegators_voteTrie]
    intro key stored
    have long := inv.long key _ stored
    rw [c.length_data] at long
    omega
  constructor
  · exact inv.shaped.of_stays fun _ _ => DposContext.tryGet_of_kickoutCandidate
  · intro d c' delegated
    obtain ⟨value, stored⟩ := Option.ne_none_iff_exists'.mp delegated
    have before : dc.Delegated d c' := by
      rw [DposContext.Delegated, DposContext.delegation,
        DposContext.tryGet_of_kickoutCandidate stored]
      exact Option.some_ne_none value
    simpa [DposContext.Voted, DposContext.oldVote, votes] using inv.remembered d c' before
  · intro key value stored
    rw [votes] at stored
    exact inv.long key value stored

end

end

/-! ## Genesis -/

theorem remembered_new : Remembered newDposContext := by
  constructor
  · intro key value stored
    simp [newDposContext] at stored
  · intro d c delegated
    simp [DposContext.Delegated, DposContext.delegation, newDposContext] at delegated
  · intro key value stored
    simp [newDposContext] at stored

/-- At genesis nobody has voted. -/
def AtGenesis (dc : DposContext) : Prop := Remembered dc ∧ dc.voteTrie = TrieMap.empty

theorem atGenesis_enrollValidator {dc : DposContext} (start : AtGenesis dc) (v : Address) :
    AtGenesis (enrollValidator dc v) := by
  obtain ⟨inv, votes⟩ := start
  have delegated : Remembered { dc with
      delegateTrie := dc.delegateTrie.tryUpdate (v.data ++ v.data) v.data } := by
    constructor
    · exact inv.shaped.tryUpdate v v
    · intro d c delegated
      simp only [DposContext.Delegated, DposContext.delegation,
        TrieMap.tryGet_tryUpdate _ (data_ne_nil v), key_inj] at delegated
      by_cases own : v = c ∧ v = d
      · right
        rw [votes]
        exact ⟨TrieMap.tryGet_empty _, own.1.symm.trans own.2⟩
      · rw [if_neg own] at delegated
        exact inv.remembered d c delegated
    · exact inv.long
  have recorded := keepsVotes_of_onlyCandidates (DposContext.setCandidateContext_onlyCandidates
    { dc with delegateTrie := dc.delegateTrie.tryUpdate (v.data ++ v.data) v.data }
    ⟨v, .loginState, 0, 0⟩)
  exact ⟨delegated.of_keepsVotes recorded, recorded.voteTrie.trans votes⟩

theorem remembered_initGenesisDposContext (config : GenesisConfig) :
    Remembered (initGenesisDposContext config) := by
  have start : AtGenesis newDposContext := ⟨remembered_new, rfl⟩
  refine (initGenesis_rule start ?_ (fun _ v before => atGenesis_enrollValidator before v) config).1
  intro dc validators before
  have listed : KeepsVotes dc (dc.setValidators validators) := ⟨rfl, rfl, rfl⟩
  have kept := listed.trans
    (setSortableAddresses_keepsVotes _ (validators.map fun v => (v, 0)))
  exact ⟨before.1.of_keepsVotes kept, kept.voteTrie.trans before.2⟩

/-! ## Runs -/

theorem Remembered.message {crypto : Crypto} {dc : DposContext} {msg : Message}
    {statedb : StateDB} {number : Nat} (inv : Remembered dc)
    (holds : KeepsOneVote dc (.message msg statedb number)) :
    Remembered (applyDposMessage crypto dc msg statedb number).1 := by
  have change := applyDposMessage_context crypto dc statedb number msg
  generalize (applyDposMessage crypto dc msg statedb number).1 = after at change
  cases change with
  | candidates only => exact inv.of_keepsVotes (keepsVotes_of_onlyCandidates only)
  | kickout => exact inv.kickoutCandidate msg.sender
  | delegate c kind receiver =>
    by_cases candidate : dc.IsCandidate c
    · obtain ⟨whole, recordable⟩ := holds c kind receiver candidate
      rcases DposContext.delegate_cases dc recordable with unchanged | ⟨old, effect⟩
      · rw [unchanged]
        exact inv
      · exact inv.redelegated effect whole
    · have absent : dc.candidateTrie.tryGet c.data = none := not_not.mp candidate
      rw [DposContext.delegate, if_pos absent]
      exact inv
  | unDelegate c =>
    rcases DposContext.unDelegate_cases dc msg.sender c with unchanged | effect
    · rw [unchanged]
      exact inv
    · exact inv.undelegated effect

/-- In every run from a genesis context whose delegations split no vote, each
account has delegated to one candidate at most and is counted for one at most. -/
theorem one_account_one_vote (crypto : Crypto) (maxValidatorSize : Nat) {dc : DposContext}
    (run : Reachable (ledgerSystem crypto maxValidatorSize) KeepsOneVote dc) : OneVote dc := by
  have inv : Remembered dc := by
    apply run.invariant Remembered
    · rintro _ ⟨config, rfl⟩
      exact remembered_initGenesisDposContext config
    · intro dc step inv _ holds
      cases step with
      | message msg statedb number => exact inv.message holds
      | election commitOrder rankOrder statedb =>
        exact inv.of_keepsVotes (tryElect_keepsVotes _ _ _ _ _ _)
  exact inv.oneVote

def twoValidators : GenesisConfig := ⟨none, some [bytesToAddress [1], bytesToAddress [2]]⟩

def fiveCoins : StateDB :=
  ⟨((∅ : Std.ExtTreeMap Address Int).insert (bytesToAddress [1]) 5).insert
    (bytesToAddress [9]) 5, []⟩

def delegation (d c : UInt8) : LedgerStep :=
  .message ⟨.delegate, bytesToAddress [d], some (bytesToAddress [c])⟩ fiveCoins 1

def movingDelegator : List LedgerStep :=
  [delegation 9 1, delegation 9 2, .election inKeyOrder inKeyOrder fiveCoins]

theorem one_account_one_vote_movingDelegator :
    OneVote (movingDelegator.foldl (ledgerSystem plainCrypto 11).next
      (initGenesisDposContext twoValidators)) := by
  apply one_account_one_vote plainCrypto 11
  have start : Reachable (ledgerSystem plainCrypto 11) KeepsOneVote
      (initGenesisDposContext twoValidators) := .init ⟨twoValidators, rfl⟩
  apply start.run
  refine ⟨trivial, ?_, trivial, ?_, trivial, trivial, trivial⟩
  · rintro _ _ ⟨rfl⟩ _
    refine ⟨?_, by decide +kernel⟩
    rintro ⟨_, delegated, _⟩
    exact delegated (by decide +kernel)
  · rintro _ _ ⟨rfl⟩ _
    refine ⟨?_, by decide +kernel⟩
    rintro ⟨missing, _, _⟩
    revert missing
    decide +kernel

/-- Genesis validator 1 delegates to validator 2 and keeps its delegation to
itself: its five coins count for both. -/
theorem genesis_validator_counted_twice :
    ∃ dc, Reachable (ledgerSystem plainCrypto 11) (fun _ _ => True) dc ∧
      (countVotes dc fiveCoins).map (fun votes => votes.toList) =
        some [(bytesToAddress [1], 5), (bytesToAddress [2], 5)] ∧ ¬ OneVote dc := by
  refine ⟨(ledgerSystem plainCrypto 11).next (initGenesisDposContext twoValidators)
    (delegation 1 2), ?_, by decide +kernel, ?_⟩
  · have start : Reachable (ledgerSystem plainCrypto 11) (fun _ _ => True)
        (initGenesisDposContext twoValidators) := .init ⟨twoValidators, rfl⟩
    exact .step _ start trivial trivial
  · intro oneVote
    have same := oneVote.counted (bytesToAddress [1]) (bytesToAddress [1]) (bytesToAddress [2])
      (by decide +kernel) (by decide +kernel)
    revert same
    decide

end Linkeye.Dbft.Electorate
