import Linkeye.Dbft.Tenure

/-!
# Waiting for the deposit

A withdrawal that is paid out looks back at the logout that it waited for.
The record of a candidate keeps state and block number while elections
rewrite its score.
-/

set_option autoImplicit false

namespace Linkeye.Dbft.Unlocking

open Common.Types Common.Signature Core.Dpos Core.Genesis Core.Stakes Core.StateProcessor
open Core.Transaction Ballots Election Headers Staking Tenure Lib.Runs Trie.Contents

/-! ## Records -/

section
variable {dc after : DposContext} {a : Address} {m : Int}

/-- The record of `a` is that of a logout in block `m`. -/
def LoggedOut (dc : DposContext) (a : Address) (m : Int) : Prop :=
  ∃ cc, dc.getCandidateContext a = .ok cc ∧ cc.state = .logoutState ∧ cc.blockNumber = m

theorem LoggedOut.congr (loggedOut : LoggedOut after a m)
    (same : after.candidateTrie.tryGet a.data = dc.candidateTrie.tryGet a.data) :
    LoggedOut dc a m := by
  rw [LoggedOut, DposContext.getCandidateContext, same] at loggedOut
  exact loggedOut

/-- A missing record reads as a login. -/
theorem not_loggedOut_of_none (missing : dc.candidateTrie.tryGet a.data = none) :
    ¬ LoggedOut dc a m := by
  rintro ⟨cc, found, logout, _⟩
  rw [DposContext.getCandidateContext, missing] at found
  cases found
  cases logout

/-- What is read after a write is the record written, or the one of before
where the write went elsewhere or failed. -/
theorem LoggedOut.rewritten {cc : CandidateContext} (loggedOut : LoggedOut after a m)
    (tries : after.candidateTrie = (dc.setCandidateContext cc).1.candidateTrie)
    (short : ShortRecords after) :
    cc.addr = a ∧ cc.state = .logoutState ∧ cc.blockNumber = m ∨
      LoggedOut dc a m ∧ (cc.addr = a → after.candidateTrie = dc.candidateTrie) := by
  cases written : cc.encodeRLP with
  | none =>
    rw [DposContext.setCandidateContext, written] at tries
    exact .inr ⟨loggedOut.congr (by rw [tries]), fun _ => tries⟩
  | some item =>
    by_cases own : cc.addr = a
    · left
      have stored : after.candidateTrie.tryGet a.data = some (Rlp.Encode.encode item) := by
        rw [tries, tryGet_setCandidateContext written, own, if_pos rfl]
      have holds : Holds (Rlp.Encode.encode item) cc := ⟨⟨item, written, rfl⟩, short _ _ stored⟩
      obtain ⟨read, found, logout, number⟩ := loggedOut
      rw [DposContext.getCandidateContext, stored] at found
      simp only [holds.decodeRecord, Except.ok.injEq] at found
      subst found
      exact ⟨own, logout, number⟩
    · refine .inr ⟨loggedOut.congr ?_, fun same => absurd same own⟩
      rw [tries, tryGet_setCandidateContext_of_ne own]

/-- Scores change neither the state nor the block number of a record. -/
theorem LoggedOut.unscored {scores : List (Address × Int)} (loggedOut : LoggedOut after a m)
    (scored : Scored dc scores after) (short : ShortRecords after) : LoggedOut dc a m := by
  by_cases mentioned : ∃ v, (a, v) ∈ scores
  · obtain ⟨v, member⟩ := mentioned
    obtain ⟨value, _, stored, rewritten, cc, item, holds, written, rfl⟩ :=
      scored.written a v member
    have rescored : Holds (Rlp.Encode.encode item) { cc with score := v } :=
      ⟨⟨item, written, rfl⟩, short _ _ rewritten⟩
    obtain ⟨read, found, logout, number⟩ := loggedOut
    rw [DposContext.getCandidateContext, rewritten] at found
    simp only [rescored.decodeRecord, Except.ok.injEq] at found
    subst found
    refine ⟨cc, ?_, logout, number⟩
    rw [DposContext.getCandidateContext, stored]
    simp only [holds.decodeRecord]
  · apply loggedOut.congr
    apply scored.kept
    intro k v member same
    cases FixedBytes.data_inj same
    exact mentioned ⟨v, member⟩

theorem not_loggedOut_genesis (config : GenesisConfig) :
    ¬ LoggedOut (initGenesisDposContext config) a m := by
  refine (@genesisRecords_rule (fun dc => OwnRecords dc ∧ ¬ LoggedOut dc a m) ?_ ?_ ?_ config).2
  · exact ⟨ownRecords_new, not_loggedOut_of_none (TrieMap.tryGet_empty _)⟩
  · rintro dc after same ⟨own, before⟩
    exact ⟨own.congr same, fun loggedOut => before (loggedOut.congr (by rw [same]))⟩
  · rintro dc v ⟨own, before⟩
    have enrolled := own.enroll v
    refine ⟨enrolled, fun loggedOut => ?_⟩
    rcases loggedOut.rewritten rfl enrolled.short with ⟨_, login, _⟩ | ⟨older, _⟩
    · cases login
    · exact before older

end

/-! ## Chains -/

section
variable (crypto : Crypto) (epoch : Nat)

/-- A slice can hold every record that the step leaves. -/
def Fits (s : Ledger) (step : StakingStep) : Prop :=
  ShortRecords (nextLedger crypto epoch s step).dc

/-- A `LogoutCandidate` of `a` that changes its state from login to logout. -/
def LogsOut (a : Address) (s : Ledger) : StakingStep → Prop
  | .message msg statedb => msg.txType = .logoutCandidate ∧ msg.sender = a ∧
      (∃ cc, s.dc.getCandidateContext a = .ok cc ∧ cc.state = .loginState) ∧
      ∃ cc, (nextLedger crypto epoch s (.message msg statedb)).dc.getCandidateContext a = .ok cc ∧
        cc.state = .logoutState
  | .finalize _ _ _ => False

/-- A `LoginCandidate` of `a` that takes effect. -/
def LogsIn (a : Address) (s : Ledger) : StakingStep → Prop
  | .message msg statedb => msg.txType = .loginCandidate ∧ msg.sender = a ∧
      (nextLedger crypto epoch s (.message msg statedb)).dc.candidateTrie ≠ s.dc.candidateTrie
  | .finalize _ _ _ => False

/-- A `WithdrawCandidate` of `a` that pays the deposit back. -/
def PaysBack (a : Address) (s : Ledger) (msg : Message) (statedb : StateDB) : Prop :=
  msg.txType = .withdrawCandidate ∧ msg.sender = a ∧
    (applyDposMessage crypto s.dc msg statedb (s.number + 1)).2.1.getBalance a =
      statedb.getBalance a + minCandidateBalance

variable {crypto epoch} {s : Ledger} {a : Address} {m : Int}

/-- A logout record after a message is one of before, or this message wrote it. -/
theorem loggedOut_message {msg : Message} {statedb : StateDB}
    (short : Fits crypto epoch s (.message msg statedb))
    (loggedOut : LoggedOut (nextLedger crypto epoch s (.message msg statedb)).dc a m) :
    (LogsOut crypto epoch a s (.message msg statedb) ∧ ((s.number + 1 : Nat) : Int) = m) ∨
      LoggedOut s.dc a m ∧ ¬ LogsIn crypto epoch a s (.message msg statedb) := by
  have change := applyDposMessage_stake crypto s.dc msg statedb (s.number + 1)
  simp only [Fits, LogsOut, LogsIn, nextLedger] at short loggedOut ⊢
  generalize (applyDposMessage crypto s.dc msg statedb (s.number + 1)).1 = after at *
  generalize (applyDposMessage crypto s.dc msg statedb (s.number + 1)).2.1 = state at change
  generalize tries : after.candidateTrie = trie at change
  cases change with
  | unmoved _ =>
    right
    exact ⟨loggedOut.congr (by rw [tries]), fun logsIn => logsIn.2.2 rfl⟩
  | relogin | deposit =>
    rcases loggedOut.rewritten tries short with ⟨_, login, _⟩ | ⟨before, same⟩
    · cases login
    · exact .inr ⟨before, fun logsIn => logsIn.2.2 (tries.symm.trans (same logsIn.2.1))⟩
  | logout cc kind found login own =>
    rcases loggedOut.rewritten tries short with ⟨rfl, _, number⟩ | ⟨before, same⟩
    · obtain ⟨read, readBack, logout, _⟩ := loggedOut
      exact .inl ⟨⟨kind, rfl, ⟨cc, found, login⟩, read, readBack, logout⟩, number⟩
    · exact .inr ⟨before, fun logsIn => logsIn.2.2 (tries.symm.trans (same logsIn.2.1))⟩
  | refund kind unlocked =>
    by_cases own : msg.sender = a
    · subst own
      refine absurd loggedOut (not_loggedOut_of_none ?_)
      rw [tries, TrieMap.tryGet_tryDelete, if_pos rfl]
    · refine .inr ⟨loggedOut.congr ?_, fun logsIn => own logsIn.2.1⟩
      have keys : msg.sender.data ≠ a.data := fun same => own (FixedBytes.data_inj same)
      rw [tries, TrieMap.tryGet_tryDelete, if_neg keys]

theorem loggedOut_finalize {keccak : Bytes → Hash} {number : Nat} {dc after : DposContext}
    {statedb : StateDB} {commitOrder rankOrder : MapOrder} (own : OwnRecords dc)
    (final : finalizeContext keccak epoch number dc statedb commitOrder rankOrder = some after)
    (short : ShortRecords after) (loggedOut : LoggedOut after a m) : LoggedOut dc a m := by
  rcases finalizeContext_cases final with rfl | elected
  · exact loggedOut
  · obtain ⟨scores, middle, _, scored, rfl⟩ := tryElect_scored own elected
    have tries := setElected_candidateTrie middle
      (electedFrom keccak maxValidatorSize (rankOrder.visit scores))
    apply LoggedOut.unscored (loggedOut.congr (by rw [tries])) scored
    intro key value stored
    exact short key value (tries ▸ stored)

theorem unlocked_of_paysBack {msg : Message} {statedb : StateDB}
    (paid : PaysBack crypto a s msg statedb) : Unlocked s.dc a (s.number + 1) := by
  obtain ⟨kind, rfl, balance⟩ := paid
  have counts := @applyDposMessage_counts crypto s.dc msg statedb (s.number + 1)
  dsimp only at counts
  have credit : credited msg statedb
      (applyDposMessage crypto s.dc msg statedb (s.number + 1)).2.1 = true :=
    decide_eq_true ⟨kind, balance⟩
  rw [credit] at counts
  generalize debited msg statedb _ = taken at counts
  cases counts with
  | refund _ unlocked _ => exact unlocked

/-- Whoever is paid back in block `n` logged out in a block `m` with
`m + UnlockInterval < n`, and no login of it took effect since. -/
theorem withdrawal_waits (crypto : Crypto) (epoch : Nat) (config : GenesisConfig)
    (steps : List StakingStep)
    (chain : Admits (stakingSystem crypto epoch config) (Fits crypto epoch)
      (genesisLedger config) steps) (a : Address) (msg : Message) (statedb : StateDB) :
    let s := steps.foldl (nextLedger crypto epoch) (genesisLedger config)
    PaysBack crypto a s msg statedb →
      Since (nextLedger crypto epoch)
        (fun earlier step => LogsOut crypto epoch a earlier step ∧
          ((earlier.number + 1 : Nat) : Int) + unlockInterval < (s.number + 1 : Nat))
        (LogsIn crypto epoch a) (genesisLedger config) steps := by
  intro s paid
  obtain ⟨cc, found, logout, elapsed⟩ := unlocked_of_paysBack paid
  have final : LoggedOut s.dc a cc.blockNumber := ⟨cc, found, logout, rfl⟩
  have stepped : ∀ (t : Ledger) (step : StakingStep), OwnRecords t.dc →
      (stakingSystem crypto epoch config).enabled t step → Fits crypto epoch t step →
      OwnRecords ((stakingSystem crypto epoch config).next t step).dc ∧
        (LoggedOut ((stakingSystem crypto epoch config).next t step).dc a cc.blockNumber →
          (LogsOut crypto epoch a t step ∧
            ((t.number + 1 : Nat) : Int) + unlockInterval < (s.number + 1 : Nat)) ∨
          LoggedOut t.dc a cc.blockNumber ∧ ¬ LogsIn crypto epoch a t step) := by
    intro t step own enabled short
    cases step with
    | message msg statedb =>
      refine ⟨ownRecords_message own short, fun loggedOut => ?_⟩
      rcases loggedOut_message short loggedOut with ⟨logsOut, number⟩ | before
      · rw [← number] at elapsed
        exact .inl ⟨logsOut, elapsed⟩
      · exact .inr before
    | finalize statedb commitOrder rankOrder =>
      obtain ⟨dc, final⟩ := Option.isSome_iff_exists.mp enabled
      simp only [Fits, stakingSystem, nextLedger, final] at short ⊢
      exact ⟨ownRecords_finalize own final short, fun loggedOut =>
        .inr ⟨loggedOut_finalize own final short loggedOut, id⟩⟩
  have origin := @Admits.since _ _ _ _ (fun t => OwnRecords t.dc)
    (fun t => LoggedOut t.dc a cc.blockNumber) _ _ stepped steps _ (ownRecords_genesis config)
    chain final
  exact origin.resolve_right fun early => not_loggedOut_genesis config early.1

/-- Address 9 enters, leaves, waits and is paid back. -/
theorem withdrawal_waits_outsider :
    let steps := sent .loginCandidate 9 :: (leaves 9).dropLast
    let s := steps.foldl (nextLedger plainCrypto 100) (genesisLedger twoValidators)
    let msg : Message := ⟨.withdrawCandidate, bytesToAddress [9], none⟩
    PaysBack plainCrypto (bytesToAddress [9]) s msg twoDeposits ∧
      Since (nextLedger plainCrypto 100)
        (fun earlier step => LogsOut plainCrypto 100 (bytesToAddress [9]) earlier step ∧
          ((earlier.number + 1 : Nat) : Int) + unlockInterval < (s.number + 1 : Nat))
        (LogsIn plainCrypto 100 (bytesToAddress [9])) (genesisLedger twoValidators) steps := by
  have paid : PaysBack plainCrypto (bytesToAddress [9])
      ((sent .loginCandidate 9 :: (leaves 9).dropLast).foldl (nextLedger plainCrypto 100)
        (genesisLedger twoValidators)) ⟨.withdrawCandidate, bytesToAddress [9], none⟩
      twoDeposits := ⟨rfl, rfl, by decide +kernel⟩
  refine ⟨paid, withdrawal_waits plainCrypto 100 twoValidators _ ?_ _ _ _ paid⟩
  refine admits_of_checksRun _ _ ?_ (?_ : checksRun (nextLedger plainCrypto 100)
    (fun s step => enabledCheck plainCrypto 100 s step &&
      decide (ShortRecords (nextLedger plainCrypto 100 s step).dc)) _ _ = true)
  · intro step _ s checked
    simp only [Bool.and_eq_true, decide_eq_true_eq] at checked
    exact ⟨enabledCheck_sound checked.1, checked.2⟩
  · decide +kernel

end

end Linkeye.Dbft.Unlocking
