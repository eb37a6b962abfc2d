import Linkeye.Core.Stakes
import Linkeye.Core.StateTransition

/-!
# Failed transactions

`ApplyTransaction` hands the staking message on although the execution of the
transaction has failed.  The staking data stay as they are exactly where the
message would have changed nothing anyway.
-/

set_option autoImplicit false

namespace Linkeye.Core.FailedTransactions

open Common.Types Common.Signature Dpos Stakes StateProcessor Core.StateTransition Transaction
open Rlp.Encode Trie.Contents

/-! ## Messages that change nothing -/

/-- The delegation of `d` to `c` is there, with a vote record of this very block
and balance; no other delegation is remembered. -/
structure Delegating (dc : DposContext) (d c : Address) (number balance : Int)
    (old : Option VoteContext) : Prop where
  delegation : dc.delegation c d = some d.data
  other : ∀ vc, old = some vc → vc.candidate = c ∨ dc.delegation vc.candidate d = none
  vote : ∀ item, VoteContext.encodeRLP ⟨d, c, number, balance⟩ = some item →
    dc.voteTrie.tryGet d.data = some (encode item)

/-- A message that does nothing, by the record it meets and the balance of its
sender. -/
def Quiet (dc : DposContext) (msg : Message) (balance : Int) (number : Nat) : Prop :=
  match msg.txType with
  | .loginCandidate => ∀ cc, dc.getCandidateContext msg.sender = .ok cc →
      cc.state ≠ .logoutState ∧
        (cc.state = .loginState ∧ cc.addr = msg.sender ∨ balance < minCandidateBalance)
  | .logoutCandidate => ∀ cc, dc.getCandidateContext msg.sender = .ok cc →
      ¬ (cc.state = .loginState ∧ cc.addr = msg.sender)
  | .withdrawCandidate => ¬ Unlocked dc msg.sender number
  | .delegate => ∀ c old, msg.recipient = some c → dc.IsCandidate c →
      dc.oldVote msg.sender = .ok old → Delegating dc msg.sender c number balance old
  | .unDelegate => ∀ c old, msg.recipient = some c → dc.IsCandidate c →
      dc.oldVote msg.sender = .ok old → c = (old.map VoteContext.candidate).getD zeroAddress →
      dc.delegation c msg.sender = none ∧ dc.voteTrie.tryGet msg.sender.data = none
  | .binary => True
  | .other _ => True

section
variable {dc : DposContext}

/-- Writing another record than the one that is read changes the context. -/
theorem setCandidateContext_ne {a : Address} {cc record : CandidateContext}
    (short : ShortRecords dc) (found : dc.getCandidateContext a = .ok cc) (own : record.addr = a)
    (number : 0 ≤ record.blockNumber) (score : 0 ≤ record.score) (other : record ≠ cc) :
    (dc.setCandidateContext record).1 ≠ dc := by
  intro same
  obtain ⟨item, written⟩ := exists_encodeRLP record number score
  have stored : dc.candidateTrie.tryGet a.data = some (encode item) := by
    rw [← same, tryGet_setCandidateContext written, if_pos (congrArg FixedBytes.data own)]
  have holds : Holds (encode item) record := ⟨⟨item, written, rfl⟩, short _ _ stored⟩
  rcases getCandidateContext_eq_ok found with ⟨absent, _⟩ | ⟨ccRLP, present, read⟩
  · rw [absent] at stored
    cases stored
  · rw [present] at stored
    cases stored
    rw [holds.decodeRecord] at read
    exact other (Option.some.inj read)

theorem kickoutCandidate_ne {a : Address} {cc : CandidateContext}
    (found : dc.getCandidateContext a = .ok cc) (logout : cc.state = .logoutState) :
    dc.kickoutCandidate a ≠ dc := by
  intro same
  obtain ⟨value, stored⟩ := stored_of_logout found logout
  have deleted := congrArg DposContext.candidateTrie same
  rw [DposContext.kickoutCandidate, (DposContext.kickoutDelegators_keeps _ _ _).1,
    TrieMap.tryDelete_eq_iff, stored] at deleted
  cases deleted

end

section
variable {dc : DposContext} (crypto : Crypto) (statedb : StateDB) (number : Nat)

theorem replaceDelegation_eq_iff (old : Option VoteContext) (d c : Address) :
    dc.replaceDelegation old d c = dc.delegateTrie ↔ dc.delegation c d = some d.data ∧
      ∀ vc, old = some vc → vc.candidate = c ∨ dc.delegation vc.candidate d = none := by
  rw [DposContext.replaceDelegation.eq_def]
  cases old with
  | none =>
    rw [TrieMap.tryUpdate_eq_iff (data_ne_nil d)]
    simp [DposContext.delegation]
  | some vc =>
    have keys : vc.candidate.data ++ d.data = c.data ++ d.data ↔ vc.candidate = c := by
      rw [key_inj]
      exact and_iff_left rfl
    rw [TrieMap.tryUpdate_tryDelete_eq_iff (data_ne_nil d), keys]
    simp only [DposContext.delegation, Option.some.injEq, forall_eq']

theorem delegating_iff (d c : Address) (number balance : Int) (old : Option VoteContext) :
    Delegating dc d c number balance old ↔ dc.replaceDelegation old d c = dc.delegateTrie ∧
      ∀ item, VoteContext.encodeRLP ⟨d, c, number, balance⟩ = some item →
        dc.voteTrie.tryGet d.data = some (encode item) := by
  rw [replaceDelegation_eq_iff]
  constructor
  · rintro ⟨delegation, other, vote⟩
    exact ⟨⟨delegation, other⟩, vote⟩
  · rintro ⟨⟨delegation, other⟩, vote⟩
    exact ⟨delegation, other, vote⟩

theorem setTries_eq_iff {delegateTrie voteTrie : TrieMap} :
    ({ dc with delegateTrie, voteTrie } : DposContext) = dc ↔
      delegateTrie = dc.delegateTrie ∧ voteTrie = dc.voteTrie := by
  cases dc
  simp only [DposContext.mk.injEq, true_and, and_true]

/-- The context after `Delegate`: the vote record stays if it cannot be encoded. -/
theorem delegate_context {d c : Address} {old : Option VoteContext} (candidate : dc.IsCandidate c)
    (found : dc.oldVote d = .ok old) (blockNum balance : Int) :
    (dc.delegate d c blockNum balance).1 = { dc with
      delegateTrie := dc.replaceDelegation old d c
      voteTrie := ((VoteContext.encodeRLP ⟨d, c, blockNum, balance⟩).map fun item =>
        dc.voteTrie.tryUpdate d.data (encode item)).getD dc.voteTrie } := by
  rw [DposContext.delegate, if_neg candidate, found]
  cases VoteContext.encodeRLP ⟨d, c, blockNum, balance⟩ with
  | none => rfl
  | some item => rfl

theorem delegate_eq_iff (d c : Address) (blockNum balance : Int) :
    (dc.delegate d c blockNum balance).1 = dc ↔ ∀ old, dc.IsCandidate c →
      dc.oldVote d = .ok old → Delegating dc d c blockNum balance old := by
  by_cases candidate : dc.IsCandidate c
  · cases found : dc.oldVote d with
    | error e =>
      rw [DposContext.delegate, if_neg candidate, found]
      simp
    | ok old =>
      simp only [candidate, Except.ok.injEq, forall_const, forall_eq']
      rw [delegate_context candidate found, setTries_eq_iff, delegating_iff]
      apply and_congr_right'
      cases VoteContext.encodeRLP ⟨d, c, blockNum, balance⟩ with
      | none => simp
      | some item => simp [TrieMap.tryUpdate_eq_iff (encode_ne_nil item)]
  · have absent : dc.candidateTrie.tryGet c.data = none := not_not.mp candidate
    simp [DposContext.delegate, absent, candidate]

theorem unDelegate_eq_iff (d c : Address) :
    (dc.unDelegate d c).1 = dc ↔ ∀ old, dc.IsCandidate c → dc.oldVote d = .ok old →
      c = (old.map VoteContext.candidate).getD zeroAddress →
      dc.delegation c d = none ∧ dc.voteTrie.tryGet d.data = none := by
  rw [DposContext.unDelegate]
  by_cases absent : dc.candidateTrie.tryGet c.data = none
  · simp [absent, DposContext.IsCandidate]
  · rw [if_neg absent]
    cases found : dc.oldVote d with
    | error e => simp
    | ok old =>
      dsimp only
      by_cases mismatch : c ≠ (old.map VoteContext.candidate).getD zeroAddress
      · rw [if_pos mismatch]
        refine ⟨?_, fun _ => rfl⟩
        rintro _ _ _ ⟨⟩ named
        exact absurd named mismatch
      · rw [if_neg mismatch]
        refine setTries_eq_iff.trans ?_
        rw [TrieMap.tryDelete_eq_iff, TrieMap.tryDelete_eq_iff]
        constructor
        · rintro gone _ _ ⟨⟩ _
          exact gone
        · intro gone
          exact gone old absent rfl (not_not.mp mismatch)

theorem quiet_of_refused {msg : Message} (refused : Refused dc statedb number msg) :
    Quiet dc msg (statedb.getBalance msg.sender) number := by
  cases kind : msg.txType with
  | withdrawCandidate =>
    simp only [Refused, Quiet, kind] at refused ⊢
    rintro ⟨cc, found, unlocked⟩
    exact refused cc found unlocked
  | _ => simp_all [Refused, Quiet]

/-- A message leaves the context as it is exactly if it is quiet. -/
theorem quiet_iff (short : ShortRecords dc) (msg : Message) :
    (applyDposMessage crypto dc msg statedb number).1 = dc ↔
      Quiet dc msg (statedb.getBalance msg.sender) number := by
  have effect := applyDposMessage_effect crypto dc statedb number msg
  generalize (applyDposMessage crypto dc msg statedb number).1 = context,
    (applyDposMessage crypto dc msg statedb number).2.1 = state at effect ⊢
  have later := Int.natCast_nonneg number
  cases effect with
  | refused refused => exact iff_of_true rfl (quiet_of_refused statedb number refused)
  | relogin cc kind found logout =>
    have score := (nonneg_of_getCandidateContext found).2
    simp only [Quiet, kind]
    refine iff_of_false (setCandidateContext_ne short found rfl later score ?_) ?_
    · intro same
      rw [← same] at logout
      cases logout
    · exact fun quiet => (quiet cc found).1 logout
  | deposit cc kind found notLogout notLogin enough =>
    simp only [Quiet, kind]
    refine iff_of_false (setCandidateContext_ne short found rfl later (le_refl 0) ?_) ?_
    · rintro rfl
      exact notLogin ⟨rfl, rfl⟩
    · intro quiet
      exact (quiet cc found).2.elim notLogin (not_lt.mpr enough)
  | logout cc kind found login =>
    have score := (nonneg_of_getCandidateContext found).2
    simp only [Quiet, kind]
    refine iff_of_false (setCandidateContext_ne short found rfl later score ?_) ?_
    · intro same
      rw [← same] at login
      cases login.1
    · exact fun quiet => quiet cc found login
  | withdraw cc kind found logout elapsed =>
    simp only [Quiet, kind]
    exact iff_of_false (kickoutCandidate_ne found logout)
      (not_not.mpr ⟨cc, found, logout, elapsed⟩)
  | delegate recipient kind receiver =>
    simp only [Quiet, kind, receiver, delegate_eq_iff, Option.some.injEq]
    constructor
    · rintro delegating _ old rfl
      exact delegating old
    · intro delegating old
      exact delegating recipient old rfl
  | unDelegate recipient kind receiver =>
    simp only [Quiet, kind, receiver, unDelegate_eq_iff, Option.some.injEq]
    constructor
    · rintro gone _ old rfl
      exact gone old
    · intro gone old
      exact gone recipient old rfl

theorem Quiet.balances {msg : Message}
    (quiet : Quiet dc msg (statedb.getBalance msg.sender) number) :
    (applyDposMessage crypto dc msg statedb number).2.1.balances = statedb.balances := by
  have change := applyDposMessage_stake crypto dc msg statedb number
  generalize (applyDposMessage crypto dc msg statedb number).1.candidateTrie = trie at change
  generalize (applyDposMessage crypto dc msg statedb number).2.1 = after at change ⊢
  cases change with
  | unmoved same => exact same
  | relogin | logout => rfl
  | deposit cc kind found notLogout notLogin enough =>
    simp only [Quiet, kind] at quiet
    rcases (quiet cc found).2 with login | poor
    · exact absurd login notLogin
    · exact absurd enough (not_le.mpr poor)
  | refund kind unlocked =>
    simp only [Quiet, kind] at quiet
    exact absurd unlocked quiet

end

/-! ## The staking step -/

section
variable {env : Env} {dc : DposContext} {statedb : StateDB} {msg : TxMessage}

def StakingOff (env : Env) (msg : TxMessage) : Prop :=
  msg.txType = .binary ∨ env.config.dpos = false ∧ env.config.dbft = false

def stakingMessage (msg : TxMessage) : Message := ⟨msg.txType, msg.sender, msg.recipient⟩

theorem stakingStep_of_off (off : StakingOff env msg) :
    stakingStep env dc statedb msg = .ok (dc, statedb) := by
  rw [stakingStep, if_neg]
  rintro ⟨typed, on⟩
  rcases off with binary | ⟨noDpos, noDbft⟩
  · exact typed binary
  · rw [noDpos, noDbft] at on
    simp at on

theorem stakingStep_of_on {staked : DposContext × StateDB} (on : ¬ StakingOff env msg)
    (step : stakingStep env dc statedb msg = .ok staked) :
    staked.1 = (applyDposMessage env.crypto dc (stakingMessage msg) statedb env.number).1 ∧
      staked.2 = (applyDposMessage env.crypto dc (stakingMessage msg) statedb env.number).2.1 := by
  have handed : msg.txType ≠ .binary ∧ (env.config.dpos = true ∨ env.config.dbft = true) := by
    simpa [StakingOff, not_or, Bool.not_eq_false, imp_iff_not_or] using on
  rw [stakingStep, if_pos handed] at step
  rw [stakingMessage]
  generalize applyDposMessage env.crypto dc ⟨msg.txType, msg.sender, msg.recipient⟩ statedb
    env.number = after at step ⊢
  obtain ⟨context, state, outcome⟩ := after
  cases outcome with
  | applied =>
    cases step
    exact ⟨rfl, rfl⟩
  | errInvalidType => cases step
  | nilRecipient => cases step

end

/-! ## Failed transactions -/

section
variable {env : Env} {dc : DposContext} {w : World} {msg : TxMessage}

/-- The balance of the sender when the staking message is handed on; a coinbase
gets its own fee. -/
def balanceAfterFee (env : Env) (w : World) (msg : TxMessage) : Int :=
  if msg.sender = env.coinbase then w.getBalance msg.sender else w.getBalance msg.sender - msg.fee

def creationRun (env : Env) (w : World) (msg : TxMessage) : RunResult :=
  initRun env (w.subBalance msg.sender msg.fee) msg.sender msg.data (executionGas env msg)
    msg.amount

/-- A transaction that creates a contract, which stays although the creation fails. -/
def Kept (env : Env) (w : World) (msg : TxMessage) : Prop :=
  msg.recipient = none ∧
    Stays env (w.subBalance msg.sender msg.fee) msg.sender msg.data (executionGas env msg)
      msg.amount

/-- What the creation leaves to the sender, who may have lost its account in it. -/
def creationBalance (env : Env) (w : World) (msg : TxMessage) : Int :=
  if msg.sender ∈ (creationRun env w msg).suicided then 0
  else (creationRun env w msg).world.getBalance msg.sender

/-- No staking data have changed, and a sender that is not the coinbase has paid
the fee and nothing else. -/
structure OnlyFeePaid (env : Env) (dc : DposContext) (w : World) (msg : TxMessage)
    (applied : Applied) : Prop where
  context : applied.dc = dc
  balance : msg.sender ≠ env.coinbase →
    applied.world.getBalance msg.sender = w.getBalance msg.sender - msg.fee

theorem paidRun_kept (failed : (paidRun env w msg).err ≠ none)
    (solvent : (paidRun env w msg).err ≠ some .errInsufficientBalance) (kept : Kept env w msg) :
    (paidRun env w msg).world = (creationRun env w msg).world ∧
      (paidRun env w msg).suicided = (creationRun env w msg).suicided := by
  rw [paidRun, execute, kept.1] at failed solvent ⊢
  exact (create_failed env failed solvent).1 kept.2

theorem paidRun_reverted (failed : (paidRun env w msg).err ≠ none)
    (solvent : (paidRun env w msg).err ≠ some .errInsufficientBalance)
    (gone : ¬ Kept env w msg) :
    (∀ a, (paidRun env w msg).world.getBalance a = (w.subBalance msg.sender msg.fee).getBalance a) ∧
      (paidRun env w msg).suicided = [] := by
  cases receiver : msg.recipient with
  | none =>
    rw [paidRun, execute, receiver] at failed solvent ⊢
    obtain ⟨world, suicided⟩ := (create_failed env failed solvent).2
      fun stays => gone ⟨receiver, stays⟩
    refine ⟨fun a => ?_, suicided⟩
    rw [world, getBalance_setNonce]
  | some recipient =>
    rw [paidRun, execute, receiver] at failed ⊢
    obtain ⟨world, suicided⟩ := call_failed env failed
    refine ⟨fun a => ?_, suicided⟩
    rw [world, getBalance_setNonce]

/-- After an execution that is reverted, the sender is short of the fee. -/
theorem getBalance_reverted
    (reverted : ∀ a, (paidRun env w msg).world.getBalance a =
      (w.subBalance msg.sender msg.fee).getBalance a) :
    ((paidRun env w msg).world.addBalance env.coinbase msg.fee).getBalance msg.sender =
      balanceAfterFee env w msg := by
  rw [balanceAfterFee]
  by_cases own : msg.sender = env.coinbase
  · rw [if_pos own, ← own, getBalance_addBalance_self, reverted, getBalance_subBalance_self]
    omega
  · rw [if_neg own, getBalance_addBalance_of_ne _ own, reverted, getBalance_subBalance_self]

section
variable {pool : Nat} {applied : Applied} {done : Transition} {staked : DposContext × StateDB}

theorem unsuccessful_of_failed (steps : Steps env dc w pool msg applied done staked)
    (failed : applied.receipt.failed = true) : (paidRun env w msg).err ≠ none := by
  obtain ⟨_, _, failure, _⟩ := transitionDb_eq_ok steps.transition
  rw [steps.failed, failure] at failed
  exact Option.isSome_iff_ne_none.mp failed

/-- A transaction that creates a contract hands no staking message on. -/
theorem onlyFeePaid_iff_of_kept (steps : Steps env dc w pool msg applied done staked)
    (failed : applied.receipt.failed = true) (kept : Kept env w msg) :
    OnlyFeePaid env dc w msg applied ↔ (msg.sender ≠ env.coinbase →
      creationBalance env w msg = w.getBalance msg.sender - msg.fee) := by
  obtain ⟨solvent, after, _, suicided⟩ := transitionDb_eq_ok steps.transition
  obtain ⟨ran, removed⟩ := paidRun_kept (unsuccessful_of_failed steps failed) solvent kept
  have step := steps.staking
  rw [stakingStep_of_off (.inl (steps.creation kept.1))] at step
  cases step
  have final (other : msg.sender ≠ env.coinbase) :
      applied.world.getBalance msg.sender = creationBalance env w msg := by
    rw [steps.world, getBalance_finalise, creationBalance, suicided, removed]
    rw [after, getBalance_addBalance_of_ne _ other, ran]
  constructor
  · rintro ⟨_, balance⟩ other
    rw [← final other, balance other]
  · intro balance
    refine ⟨steps.context, fun other => ?_⟩
    rw [final other, balance other]

/-- Where the execution is reverted, the staking message alone decides. -/
theorem onlyFeePaid_iff_of_reverted (short : ShortRecords dc)
    (steps : Steps env dc w pool msg applied done staked)
    (failed : applied.receipt.failed = true) (gone : ¬ Kept env w msg) :
    OnlyFeePaid env dc w msg applied ↔ StakingOff env msg ∨
      Quiet dc (stakingMessage msg) (balanceAfterFee env w msg) env.number := by
  obtain ⟨solvent, after, _, suicided⟩ := transitionDb_eq_ok steps.transition
  obtain ⟨reverted, removed⟩ := paidRun_reverted (unsuccessful_of_failed steps failed) solvent gone
  have paid : done.world.statedb.getBalance msg.sender = balanceAfterFee env w msg := by
    rw [← getBalance_reverted reverted, ← after]
    rfl
  have final : applied.world.getBalance msg.sender = staked.2.getBalance msg.sender := by
    rw [steps.world, getBalance_finalise, suicided, removed]
    rfl
  have fee (other : msg.sender ≠ env.coinbase) :
      balanceAfterFee env w msg = w.getBalance msg.sender - msg.fee := if_neg other
  by_cases off : StakingOff env msg
  · have step := steps.staking
    rw [stakingStep_of_off off] at step
    cases step
    refine ⟨fun _ => .inl off, fun _ => ⟨steps.context, fun other => ?_⟩⟩
    rw [final, paid, fee other]
  · obtain ⟨newContext, newState⟩ := stakingStep_of_on off steps.staking
    have quietIff := quiet_iff env.crypto done.world.statedb env.number short (stakingMessage msg)
    rw [← newContext, ← steps.context, show (stakingMessage msg).sender = msg.sender from rfl, paid]
      at quietIff
    constructor
    · rintro ⟨same, _⟩
      exact .inr (quietIff.mp same)
    · rintro (off' | quiet)
      · exact absurd off' off
      · refine ⟨quietIff.mpr quiet, fun other => ?_⟩
        rw [← paid] at quiet
        have unmoved := Quiet.balances env.crypto done.world.statedb env.number quiet
        rw [final, ← fee other, ← paid, newState, StateDB.getBalance, unmoved]
        rfl

end

/-- A failed transaction costs its fee and nothing else exactly if its staking
message does nothing and no contract that stays takes from the sender. -/
theorem failed_transaction_iff {pool usedGas : Nat} {tx : TxData} {applied : Applied}
    (short : ShortRecords dc)
    (sent : asMessage env.crypto (makeSigner env.config env.number) tx = .ok msg)
    (passed : applyTransaction env dc w pool usedGas tx = .ok applied)
    (failed : applied.receipt.failed = true) :
    OnlyFeePaid env dc w msg applied ↔
      (StakingOff env msg ∨
        Quiet dc (stakingMessage msg) (balanceAfterFee env w msg) env.number) ∧
      (Kept env w msg → msg.sender ≠ env.coinbase →
        creationBalance env w msg = w.getBalance msg.sender - msg.fee) := by
  obtain ⟨done, staked, steps⟩ := applyTransaction_eq_ok sent passed
  by_cases kept : Kept env w msg
  · rw [onlyFeePaid_iff_of_kept steps failed kept]
    constructor
    · intro balance
      exact ⟨.inl (.inl (steps.creation kept.1)), fun _ => balance⟩
    · rintro ⟨_, balance⟩
      exact balance kept
  · rw [onlyFeePaid_iff_of_reverted short steps failed kept]
    constructor
    · intro silent
      exact ⟨silent, fun stays => absurd stays kept⟩
    · rintro ⟨silent, _⟩
      exact silent

end

/-! ### A call that reverts -/

def revertingVm : Interpreter where
  run w contract :=
    ⟨w, [], contract.gas, if contract.code = [] then none else some .errExecutionReverted, []⟩
  gas_le _ _ := le_refl _
  precompiled _ := false

def dbftEnv : Env where
  crypto := plainCrypto
  config := ⟨1, some 0, none, none, false, true⟩
  number := 1
  coinbase := bytesToAddress [9]
  vm := revertingVm

def staker : Address := bytesToAddress [1]

def reverter : Address := bytesToAddress [7]

def beforeRevert : World where
  statedb := ⟨((∅ : Std.ExtTreeMap Address Int).insert staker (10 ^ 20 + 21000)).insert reverter 0,
    []⟩
  nonces := ∅
  codes := (∅ : Std.ExtTreeMap Address Bytes).insert reverter [0xfd]
  refund := 0

def stakingTx (kind : TxType) : TxData where
  txType := kind
  accountNonce := 0
  price := 1
  gasLimit := 21000
  recipient := some reverter
  amount := 0
  subId := none
  payload := []
  v := 27
  r := 1
  s := 1

def stakingTxMessage (kind : TxType) : TxMessage :=
  ⟨0, 21000, 1, some reverter, 0, [], kind, staker, true⟩

def observed (applied : Applied) : Bool × Option Bytes × Int :=
  (applied.receipt.failed, applied.dc.candidateTrie.tryGet staker.data,
    applied.world.getBalance staker)

theorem exists_of_observed {outcome : Except TxError Applied} {seen : Bool × Option Bytes × Int}
    (same : outcome.toOption.map observed = some seen) :
    ∃ applied, outcome = .ok applied ∧ observed applied = seen := by
  cases outcome with
  | error err => cases same
  | ok applied => exact ⟨applied, rfl, Option.some.inj same⟩

theorem failed_transaction_logout : ∃ applied,
    applyTransaction dbftEnv newDposContext beforeRevert 21000 0 (stakingTx .logoutCandidate) =
        .ok applied ∧ applied.receipt.failed = true ∧
      OnlyFeePaid dbftEnv newDposContext beforeRevert (stakingTxMessage .logoutCandidate)
        applied := by
  have seen : (applyTransaction dbftEnv newDposContext beforeRevert 21000 0
      (stakingTx .logoutCandidate)).toOption.map observed = some (true, none, 10 ^ 20) := by
    decide +kernel
  obtain ⟨applied, passed, same⟩ := exists_of_observed seen
  have failed : applied.receipt.failed = true := congrArg Prod.fst same
  have short : ShortRecords newDposContext := by decide
  have signed : sender plainCrypto .homestead (stakingTx .logoutCandidate) = .ok staker := by
    decide +kernel
  have sent : asMessage dbftEnv.crypto (makeSigner dbftEnv.config dbftEnv.number)
      (stakingTx .logoutCandidate) = .ok (stakingTxMessage .logoutCandidate) := by
    change asMessage plainCrypto .homestead _ = _
    rw [asMessage, signed]
    rfl
  refine ⟨applied, passed, failed, (failed_transaction_iff short sent passed failed).mpr ⟨?_, ?_⟩⟩
  · right
    rintro cc ⟨⟩ ⟨_, own⟩
    exact absurd own (by decide)
  · rintro ⟨creation, _⟩
    cases creation

/-- The login of a staker is applied although the call reverts: the deposit is
taken and the record is written. -/
theorem reverted_login_takes_deposit : ∃ applied,
    applyTransaction dbftEnv newDposContext beforeRevert 21000 0 (stakingTx .loginCandidate) =
        .ok applied ∧ applied.receipt.failed = true ∧
      sender plainCrypto .homestead (stakingTx .loginCandidate) = .ok staker ∧
      ¬ newDposContext.IsCandidate staker ∧ applied.dc.IsCandidate staker ∧
      beforeRevert.getBalance staker = 10 ^ 20 + 21000 ∧ applied.world.getBalance staker = 0 := by
  have seen : (applyTransaction dbftEnv newDposContext beforeRevert 21000 0
      (stakingTx .loginCandidate)).toOption.map observed =
        some (true, some (encode (.list [writeByteArray staker, writeUint 0,
          .bytes (bigBytes 1), .bytes (bigBytes 0)])), 0) := by
    decide +kernel
  obtain ⟨applied, passed, same⟩ := exists_of_observed seen
  have failed : applied.receipt.failed = true := congrArg Prod.fst same
  have stored : applied.dc.candidateTrie.tryGet staker.data = some _ :=
    congrArg (fun seen => seen.2.1) same
  have balance : applied.world.getBalance staker = 0 := congrArg (fun seen => seen.2.2) same
  have absent : newDposContext.candidateTrie.tryGet staker.data = none := by decide
  refine ⟨applied, passed, failed, by decide +kernel, not_not.mpr absent, ?_, by decide +kernel,
    balance⟩
  rw [DposContext.IsCandidate, stored]
  exact Option.some_ne_none _

end Linkeye.Core.FailedTransactions
