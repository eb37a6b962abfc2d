import Linkeye.Dbft.Ballots
import Linkeye.Dbft.Staking

/-!
# Validators in office

An election takes its validators from the candidate trie, and the list then
stands for an epoch while every block may change the trie.
-/

set_option autoImplicit false

namespace Linkeye.Dbft.Tenure

open Common.Types Common.Signature Core.Dpos Core.Genesis Core.Stakes Core.StateProcessor
open Core.Transaction Ballots Election Headers Staking Lib.Runs Rlp.Encode Trie.Contents

/-- Every validator is a candidate. -/
def Staked (dc : DposContext) : Prop :=
  ∀ validators, dc.getValidators = some validators → ∀ a ∈ validators, dc.IsCandidate a

structure InOffice (dc : DposContext) : Prop where
  own : OwnRecords dc
  staked : Staked dc

/-- A withdrawal that is paid out is not one of a validator in office. -/
def LeavesOffice (s : Ledger) : StakingStep → Prop
  | .message msg _ => msg.txType = .withdrawCandidate → Unlocked s.dc msg.sender (s.number + 1) →
      ∀ validators, s.dc.getValidators = some validators → msg.sender ∉ validators
  | .finalize _ _ _ => True

/-! ## Genesis -/

/-- What each genesis record keeps, where only the candidate trie matters. -/
theorem genesisRecords_rule {inv : DposContext → Prop} (new : inv newDposContext)
    (congr : ∀ dc after : DposContext, after.candidateTrie = dc.candidateTrie → inv dc → inv after)
    (enrolled : ∀ (dc : DposContext) (v : Address), inv dc →
      inv (dc.setCandidateContext ⟨v, .loginState, 0, 0⟩).1) (config : GenesisConfig) :
    inv (initGenesisDposContext config) := by
  refine initGenesis_rule new ?_ ?_ config
  · intro dc validators before
    exact congr dc _ (setSortableAddresses_candidateTrie _ _) before
  · intro dc v before
    exact enrolled _ v (congr dc _ rfl before)

theorem ownRecords_genesis (config : GenesisConfig) :
    OwnRecords (initGenesisDposContext config) :=
  genesisRecords_rule ownRecords_new (fun _ _ same own => OwnRecords.congr own same)
    (fun _ v own => OwnRecords.enroll own v) config

/-- The lists of the genesis file are ones that a slice can hold. -/
def ShortLists (config : GenesisConfig) : Prop :=
  ∀ validators, config.dpos = some validators ∨ config.dbft = some validators →
    (encode (.list (validators.map writeByteArray))).length < maxInt

theorem inOffice_genesis {config : GenesisConfig} (short : ShortLists config) :
    InOffice (initGenesisDposContext config) := by
  refine ⟨ownRecords_genesis config, ?_⟩
  intro validators stored a member
  rw [isCandidate_genesis_iff, genesisValidators, List.mem_append]
  cases dbft : config.dbft with
  | some list =>
    rw [getValidators_initGenesisDposContext dbft (short list (.inr dbft))] at stored
    cases stored
    exact .inr member
  | none =>
    left
    cases dpos : config.dpos with
    | none =>
      rw [initGenesisDposContext, dbft, dpos] at stored
      simp [enrollSection, newDposContext, DposContext.getValidators] at stored
    | some list =>
      -- a genesis with one list stores it whichever section it comes from
      have same : initGenesisDposContext config = initGenesisDposContext ⟨none, some list⟩ := by
        rw [initGenesisDposContext, dbft, dpos]
        rfl
      rw [same, getValidators_initGenesisDposContext rfl (short list (.inl dpos))] at stored
      cases stored
      exact member

/-! ## Steps -/

variable {after : DposContext} {statedb : StateDB} {number : Nat} {keccak : Bytes → Hash}
  {commitOrder rankOrder : MapOrder}

section
variable {crypto : Crypto} {epoch : Nat} {dc : DposContext}

theorem Staked.of_keeps (staked : Staked dc) (epochTrie : after.epochTrie = dc.epochTrie)
    (kept : ∀ validators, dc.getValidators = some validators → ∀ a ∈ validators, dc.IsCandidate a → after.IsCandidate a) :
    Staked after := by
  intro validators stored a member
  rw [getValidators_congr epochTrie] at stored
  exact kept validators stored a member (staked validators stored a member)

theorem ownRecords_message {msg : Message} (own : OwnRecords dc)
    (short : ShortRecords (applyDposMessage crypto dc msg statedb number).1) :
    OwnRecords (applyDposMessage crypto dc msg statedb number).1 := by
  have change := applyDposMessage_stake crypto dc msg statedb number
  generalize (applyDposMessage crypto dc msg statedb number).1 = after at *
  generalize (applyDposMessage crypto dc msg statedb number).2.1 = state at change
  generalize tries : after.candidateTrie = trie at change
  have rewritten (cc : CandidateContext)
      (written : after.candidateTrie = (dc.setCandidateContext cc).1.candidateTrie) :
      OwnRecords after := by
    refine (own.setCandidateContext cc fun key value stored => ?_).congr written
    exact short key value (written ▸ stored)
  cases change with
  | unmoved _ => exact own.congr tries
  | relogin cc _ _ _ => exact rewritten _ tries
  | deposit cc _ _ _ _ _ => exact rewritten _ tries
  | logout cc _ _ _ _ => exact rewritten _ tries
  | refund kind unlocked => exact own.tryDelete tries

theorem ownRecords_finalize (own : OwnRecords dc)
    (final : finalizeContext keccak epoch number dc statedb commitOrder rankOrder = some after)
    (short : ShortRecords after) : OwnRecords after := by
  rcases finalizeContext_cases final with rfl | elected
  · exact own
  · obtain ⟨scores, middle, _, scored, rfl⟩ := tryElect_scored own elected
    have tries := setElected_candidateTrie middle
      (electedFrom keccak maxValidatorSize (rankOrder.visit scores))
    refine (scored.ownRecords own fun key value stored => ?_).congr tries
    exact short key value (tries ▸ stored)

theorem Staked.rewrite (staked : Staked dc) (cc : CandidateContext)
    (epochTrie : after.epochTrie = dc.epochTrie)
    (written : after.candidateTrie = (dc.setCandidateContext cc).1.candidateTrie) :
    Staked after := by
  apply staked.of_keeps epochTrie
  intro _ _ a _ candidate
  rw [DposContext.IsCandidate, written]
  exact isCandidate_setCandidateContext candidate

theorem InOffice.message {msg : Message} (inOffice : InOffice dc)
    (leaves : msg.txType = .withdrawCandidate → Unlocked dc msg.sender number → ∀ validators, dc.getValidators = some validators → msg.sender ∉ validators)
    (short : ShortRecords (applyDposMessage crypto dc msg statedb number).1) :
    InOffice (applyDposMessage crypto dc msg statedb number).1 := by
  refine ⟨ownRecords_message inOffice.own short, ?_⟩
  have change := applyDposMessage_stake crypto dc msg statedb number
  have epochTrie := applyDposMessage_epochTrie crypto dc statedb number msg
  generalize (applyDposMessage crypto dc msg statedb number).1 = after at *
  generalize (applyDposMessage crypto dc msg statedb number).2.1 = state at change
  generalize tries : after.candidateTrie = trie at change
  cases change with
  | unmoved _ =>
    apply inOffice.staked.of_keeps epochTrie
    intro _ _ a _ candidate
    rw [DposContext.IsCandidate, tries]
    exact candidate
  | relogin cc _ _ _ => exact inOffice.staked.rewrite _ epochTrie tries
  | deposit cc _ _ _ _ _ => exact inOffice.staked.rewrite _ epochTrie tries
  | logout cc _ _ _ _ => exact inOffice.staked.rewrite _ epochTrie tries
  | refund kind unlocked =>
    apply inOffice.staked.of_keeps epochTrie
    intro validators stored a member candidate
    have other : msg.sender.data ≠ a.data := by
      intro equal
      cases FixedBytes.data_inj equal
      exact leaves kind unlocked validators stored member
    rw [DposContext.IsCandidate, tries, TrieMap.tryGet_tryDelete, if_neg other]
    exact candidate

theorem staked_tryElect (own : OwnRecords dc)
    (elected : Election.tryElect keccak maxValidatorSize commitOrder rankOrder dc statedb = (after, none)) :
    Staked after := by
  obtain ⟨scores, middle, tallied, scored, rfl⟩ := tryElect_scored own elected
  intro validators stored a member
  have few := electedFrom_length_le keccak maxValidatorSize (rankOrder.visit scores)
  rw [getValidators_setElected middle few] at stored
  cases stored
  obtain ⟨⟨b, v⟩, chosen, rfl⟩ := List.mem_map.mp member
  have visited : (b, v) ∈ rankOrder.visit scores :=
    (List.mem_insertionSort _).mp (List.mem_of_mem_take chosen)
  have counted := (rankOrder.perm scores).mem_iff.mp visited
  obtain ⟨_, value', _, final, _⟩ := scored.written b v counted
  rw [DposContext.IsCandidate, setElected_candidateTrie, final]
  exact Option.some_ne_none _

theorem InOffice.finalize (inOffice : InOffice dc)
    (final : finalizeContext keccak epoch number dc statedb commitOrder rankOrder = some after)
    (short : ShortRecords after) : InOffice after := by
  refine ⟨ownRecords_finalize inOffice.own final short, ?_⟩
  rcases finalizeContext_cases final with rfl | elected
  · exact inOffice.staked
  · exact staked_tryElect inOffice.own elected

end

/-! ## Runs -/

/-- The step keeps to `LeavesOffice`, and a slice can hold every record it leaves. -/
def KeepsDeposits (crypto : Crypto) (epoch : Nat) (s : Ledger) (step : StakingStep) : Prop :=
  LeavesOffice s step ∧ ShortRecords (nextLedger crypto epoch s step).dc

/-- In every run in which no validator in office is paid out, the validators
are candidates. -/
theorem validators_stay_staked (crypto : Crypto) (epoch : Nat) {config : GenesisConfig}
    (lists : ShortLists config) {s : Ledger}
    (run : Reachable (stakingSystem crypto epoch config) (KeepsDeposits crypto epoch) s) :
    Staked s.dc := by
  have inOffice : InOffice s.dc := by
    apply run.invariant fun s => InOffice s.dc
    · rintro _ rfl
      exact inOffice_genesis lists
    · rintro s step inOffice enabled ⟨leaves, short⟩
      change InOffice (nextLedger crypto epoch s step).dc
      cases step with
      | message msg statedb => exact inOffice.message leaves short
      | finalize statedb commitOrder rankOrder =>
        obtain ⟨dc, final⟩ := Option.isSome_iff_exists.mp enabled
        simp only [nextLedger, final] at short ⊢
        exact inOffice.finalize final short
  exact inOffice.staked

def leavesOfficeCheck (s : Ledger) : StakingStep → Bool
  | .message msg _ => decide (∀ validators ∈ s.dc.getValidators, msg.sender ∉ validators)
  | .finalize _ _ _ => true

theorem leavesOfficeCheck_sound {s : Ledger} {step : StakingStep}
    (checked : leavesOfficeCheck s step = true) : LeavesOffice s step := by
  cases step with
  | message msg statedb =>
    intro _ _ validators stored
    exact of_decide_eq_true checked validators stored
  | finalize statedb commitOrder rankOrder => trivial

theorem shortLists_twoValidators : ShortLists twoValidators := by
  rintro validators (listed | listed)
  · cases listed
  · cases listed
    apply encode_addresses_short
    decide

/-- Address 9 enters, is not elected, leaves and is paid out. -/
theorem validators_stay_staked_outsider :
    let s := (sent .loginCandidate 9 :: leaves 9).foldl (nextLedger plainCrypto 30)
      (genesisLedger twoValidators)
    s.dc.getValidators = some [bytesToAddress [1], bytesToAddress [2]] ∧ Staked s.dc := by
  refine ⟨by decide +kernel, ?_⟩
  apply validators_stay_staked plainCrypto 30 shortLists_twoValidators
  refine reachable_ledger (fun s step checked => ?_) (?_ : checksRun _ (fun s step => _ &&
    (leavesOfficeCheck s step && decide (ShortRecords (nextLedger plainCrypto 30 s step).dc)))
      _ _ = true)
  · simp only [Bool.and_eq_true, decide_eq_true_eq] at checked
    exact ⟨leavesOfficeCheck_sound checked.1, checked.2⟩
  · decide +kernel

/-- Validator 1 of genesis leaves within its epoch and stays in office. -/
theorem validator_withdraws_in_office :
    ∃ s, Reachable (stakingSystem plainCrypto 30 twoValidators) (fun _ _ => True) s ∧
      s.dc.getValidators = some [bytesToAddress [1], bytesToAddress [2]] ∧
      ¬ s.dc.IsCandidate (bytesToAddress [1]) ∧ ¬ Staked s.dc := by
  have validators : ((leaves 1).foldl (nextLedger plainCrypto 30)
      (genesisLedger twoValidators)).dc.getValidators =
        some [bytesToAddress [1], bytesToAddress [2]] := by
    decide +kernel
  have gone : ¬ ((leaves 1).foldl (nextLedger plainCrypto 30)
      (genesisLedger twoValidators)).dc.IsCandidate (bytesToAddress [1]) := by
    rw [DposContext.IsCandidate]
    decide +kernel
  refine ⟨_, ?_, validators, gone, fun staked => gone (staked _ validators _ List.mem_cons_self)⟩
  exact reachable_ledger (fun _ _ (_ : true = true) => trivial) (by decide +kernel)

end Linkeye.Dbft.Tenure
