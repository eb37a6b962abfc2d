import Linkeye.Core.Genesis
import Linkeye.Core.Stakes
import Linkeye.Dbft.Headers

/-!
# Stakes over whole runs

Blocks of staking messages, each block ended by `Finalize`, from a genesis
context.  The state counts for every address how often its deposit was taken
and how often it was paid back.
-/

set_option autoImplicit false

namespace Linkeye.Dbft.Staking

open Common.Types Common.Signature Core.Dpos Core.Genesis Core.Stakes
open Core.StateProcessor Core.Transaction Election Headers Lib.Runs Trie.Contents

/-- `Finalize` as far as it works on the context alone. -/
def finalizeContext (keccak : Bytes → Hash) (epoch number : Nat) (dc : DposContext)
    (statedb : StateDB) (commitOrder rankOrder : MapOrder) : Option DposContext :=
  match dc.getValidators with
  | none => none
  | some _ =>
    if number % 2 ^ 64 % epoch = 0 then
      match tryElect keccak maxValidatorSize commitOrder rankOrder dc statedb with
      | (dc, none) => some dc
      | (_, some _) => none
    else some dc

variable {number : Nat} {statedb : StateDB} {commitOrder rankOrder : MapOrder}
  {cc : CandidateContext} {msg : Message}

/-- Between elections a block leaves the context as it is. -/
theorem finalizeContext_cases {keccak : Bytes → Hash} {epoch : Nat} {dc after : DposContext}
    (final : finalizeContext keccak epoch number dc statedb commitOrder rankOrder = some after) :
    after = dc ∨
      tryElect keccak maxValidatorSize commitOrder rankOrder dc statedb = (after, none) := by
  rw [finalizeContext] at final
  split at final
  · cases final
  · split at final
    · split at final
      · rename_i elected run
        cases final
        exact .inr run
      · cases final
    · cases final
      exact .inl rfl

/-! ## The system -/

/-- A login that took the deposit of its sender. -/
def debited (msg : Message) (before after : StateDB) : Bool :=
  decide (msg.txType = .loginCandidate ∧
    after.getBalance msg.sender = before.getBalance msg.sender - minCandidateBalance)

/-- A withdrawal that paid the deposit out to its sender. -/
def credited (msg : Message) (before after : StateDB) : Bool :=
  decide (msg.txType = .withdrawCandidate ∧
    after.getBalance msg.sender = before.getBalance msg.sender + minCandidateBalance)

def count (counts : Address → Nat) (a : Address) (happened : Bool) : Address → Nat :=
  fun b => if happened = true ∧ b = a then counts b + 1 else counts b

/-- `number` is that of the last finished block. -/
structure Ledger where
  number : Nat
  dc : DposContext
  debits : Address → Nat
  credits : Address → Nat

/-- Messages of the next block and the end of it.  Each meets any balances. -/
inductive StakingStep where
  | message (msg : Message) (statedb : StateDB)
  | finalize (statedb : StateDB) (commitOrder rankOrder : MapOrder)

section
variable (crypto : Crypto) (epoch : Nat) (config : GenesisConfig)

def nextLedger (s : Ledger) : StakingStep → Ledger
  | .message msg statedb =>
    let after := applyDposMessage crypto s.dc msg statedb (s.number + 1)
    { s with
      dc := after.1
      debits := count s.debits msg.sender (debited msg statedb after.2.1)
      credits := count s.credits msg.sender (credited msg statedb after.2.1) }
  | .finalize statedb commitOrder rankOrder =>
    match finalizeContext crypto.keccak256 epoch (s.number + 1) s.dc statedb commitOrder
        rankOrder with
    | some dc => { s with number := s.number + 1, dc := dc }
    | none => s

def genesisLedger : Ledger where
  number := 0
  dc := initGenesisDposContext config
  debits := fun _ => 0
  credits := fun _ => 0

/-- A block whose `Finalize` fails is not produced. -/
def stakingSystem : System Ledger StakingStep where
  init := fun s => s = genesisLedger config
  enabled := fun s step =>
    match step with
    | .message _ _ => True
    | .finalize statedb commitOrder rankOrder =>
      (finalizeContext crypto.keccak256 epoch (s.number + 1) s.dc statedb commitOrder
        rankOrder).isSome = true
  next := nextLedger crypto epoch

def genesisValidators : List Address := config.dpos.getD [] ++ config.dbft.getD []

end

/-! ## Candidates along a run -/

section
variable {dc after : DposContext} {a : Address}

/-- A record that bears the address itself, or one of a logout, is stored. -/
theorem isCandidate_of_record (found : dc.getCandidateContext a = .ok cc)
    (notZero : cc ≠ CandidateContext.zero) :
    dc.IsCandidate a := by
  obtain ⟨ccRLP, stored, _⟩ := stored_of_ne_zero found notZero
  rw [DposContext.IsCandidate, stored]
  exact Option.some_ne_none _

theorem isCandidate_of_own (found : dc.getCandidateContext a = .ok cc) (own : cc.addr = a)
    (nonzero : a ≠ zeroAddress) : dc.IsCandidate a := by
  apply isCandidate_of_record found
  rintro rfl
  exact nonzero own.symm

theorem isCandidate_of_unlocked (unlocked : Unlocked dc a number) :
    dc.IsCandidate a := by
  obtain ⟨cc, found, logout, _⟩ := unlocked
  apply isCandidate_of_record found
  rintro rfl
  cases logout

theorem isCandidate_setCandidateContext_iff (other : cc.addr ≠ a) :
    (dc.setCandidateContext cc).1.IsCandidate a ↔ dc.IsCandidate a := by
  rw [DposContext.IsCandidate, DposContext.IsCandidate, tryGet_setCandidateContext_of_ne other]

theorem commitScores_isCandidate_iff {scores : List (Address × Int)}
    (run : commitScores scores dc = (after, none)) (nonzero : a ≠ zeroAddress) :
    after.IsCandidate a ↔ dc.IsCandidate a := by
  induction scores generalizing dc with
  | nil =>
    cases run
    rfl
  | cons entry rest ih =>
    obtain ⟨k, v⟩ := entry
    obtain ⟨cc, found, ⟨own, middle, written, later⟩ | ⟨_, later⟩⟩ := commitScores_cons run
    · rw [ih later]
      have middleEq : middle = (dc.setCandidateContext { cc with score := v }).1 := by
        rw [written]
      rw [middleEq]
      by_cases same : k = a
      · subst same
        have before := isCandidate_of_own found own nonzero
        exact iff_of_true (isCandidate_setCandidateContext before) before
      · apply isCandidate_setCandidateContext_iff
        rw [← own] at same
        exact same
    · exact ih later

end

/-! ## Genesis candidates -/

section
variable {dc : DposContext} {a : Address}

theorem isCandidate_enrollValidator_iff (v : Address) :
    (enrollValidator dc v).IsCandidate a ↔ dc.IsCandidate a ∨ a = v := by
  have written : (CandidateContext.mk v .loginState 0 0).encodeRLP = some _ :=
    CandidateContext.encodeRLP_natCast v .loginState 0 0
  rw [enrollValidator, DposContext.IsCandidate]
  by_cases same : v = a
  · subst same
    rw [tryGet_setCandidateContext written, if_pos rfl]
    simp
  · rw [tryGet_setCandidateContext_of_ne same]
    exact ⟨.inl, fun either => either.resolve_right (Ne.symm same)⟩

theorem isCandidate_foldl_iff (validators : List Address) (dc : DposContext) :
    (validators.foldl enrollValidator dc).IsCandidate a ↔ dc.IsCandidate a ∨ a ∈ validators := by
  induction validators generalizing dc with
  | nil => simp
  | cons v rest ih =>
    rw [List.foldl_cons, ih, isCandidate_enrollValidator_iff, List.mem_cons, or_assoc]

theorem isCandidate_enrollSection_iff (validators : Option (List Address)) (dc : DposContext) :
    (enrollSection dc validators).IsCandidate a ↔
      dc.IsCandidate a ∨ a ∈ validators.getD [] := by
  cases validators with
  | none => simp [enrollSection]
  | some list =>
    rw [enrollSection, enrollValidators, isCandidate_foldl_iff, DposContext.IsCandidate,
      setSortableAddresses_candidateTrie]
    rfl

theorem isCandidate_genesis_iff (config : GenesisConfig) :
    (initGenesisDposContext config).IsCandidate a ↔ a ∈ genesisValidators config := by
  have empty : ¬ newDposContext.IsCandidate a := by
    simp [DposContext.IsCandidate, newDposContext]
  rw [initGenesisDposContext, isCandidate_enrollSection_iff, isCandidate_enrollSection_iff,
    genesisValidators, List.mem_append]
  simp only [empty, false_or]

end

/-! ## Refunds and deposits -/

variable {s : Ledger}

section
variable {crypto : Crypto} {epoch : Nat} {config : GenesisConfig}

/-- A withdrawal that is paid out is not one of a genesis validator, nor one of
the zero address, whose missing record reads as a login. -/
def EarnsRefund (config : GenesisConfig) (s : Ledger) : StakingStep → Prop
  | .message msg _ => msg.txType = .withdrawCandidate → Unlocked s.dc msg.sender (s.number + 1) →
      msg.sender ∉ genesisValidators config ∧ msg.sender ≠ zeroAddress
  | .finalize _ _ _ => True

/-- Every candidate that is not of genesis has one deposit outstanding at least. -/
structure Covered (config : GenesisConfig) (s : Ledger) : Prop where
  bounded : ∀ a, s.credits a ≤ s.debits a
  staked : ∀ a, a ∉ genesisValidators config → a ≠ zeroAddress → s.dc.IsCandidate a →
    s.credits a < s.debits a

theorem covered_genesis : Covered config (genesisLedger config) := by
  constructor
  · intro a
    exact le_rfl
  · intro a outsider _ candidate
    exact absurd ((isCandidate_genesis_iff config).mp candidate) outsider

theorem uncounted_of_same (msg : Message) {before after : StateDB}
    (same : after.balances = before.balances) :
    debited msg before after = false ∧ credited msg before after = false := by
  have balance : after.getBalance msg.sender = before.getBalance msg.sender := by
    rw [StateDB.getBalance, StateDB.getBalance, same]
  have positive : minCandidateBalance ≠ 0 := by decide
  simp only [debited, credited, decide_eq_false_iff_not, not_and, balance]
  exact ⟨fun _ equal => by omega, fun _ equal => by omega⟩

theorem count_false (counts : Address → Nat) (a : Address) : count counts a false = counts := by
  funext b
  simp [count]

theorem debited_subBalance (kind : msg.txType = .loginCandidate) (statedb : StateDB) :
    debited msg statedb (statedb.subBalance msg.sender minCandidateBalance) = true := by
  rw [debited, decide_eq_true_eq]
  exact ⟨kind, getBalance_setBalance_self _ _ _⟩

theorem credited_addBalance (kind : msg.txType = .withdrawCandidate) (statedb : StateDB) :
    credited msg statedb (statedb.addBalance msg.sender minCandidateBalance) = true := by
  rw [credited, decide_eq_true_eq]
  exact ⟨kind, getBalance_setBalance_self _ _ _⟩

theorem debited_of_ne (kind : msg.txType ≠ .loginCandidate) (before after : StateDB) :
    debited msg before after = false := by
  simp [debited, kind]

theorem credited_of_ne (kind : msg.txType ≠ .withdrawCandidate) (before after : StateDB) :
    credited msg before after = false := by
  simp [credited, kind]

/-- What a message does to the counts: nothing, with no new candidate but the
zero address, or one deposit of its sender, or one refund of a candidate that
is none afterwards. -/
inductive CountChange (dc : DposContext) (msg : Message) (number : Nat) (after : DposContext) :
    Bool → Bool → Prop where
  | none (kept : ∀ a, a ≠ zeroAddress → after.IsCandidate a → dc.IsCandidate a) :
      CountChange dc msg number after false false
  | deposit (kept : ∀ a, a ≠ msg.sender → after.IsCandidate a → dc.IsCandidate a) :
      CountChange dc msg number after true false
  | refund (kind : msg.txType = .withdrawCandidate) (unlocked : Unlocked dc msg.sender number)
      (kept : ∀ a, after.IsCandidate a → a ≠ msg.sender ∧ dc.IsCandidate a) :
      CountChange dc msg number after false true

/-- A rewritten record makes nobody a candidate who was none. -/
theorem isCandidate_of_rewritten {dc after : DposContext} {a : Address}
    (trie : after.candidateTrie = (dc.setCandidateContext cc).1.candidateTrie)
    (stored : cc.addr ≠ zeroAddress → dc.IsCandidate cc.addr) (nonzero : a ≠ zeroAddress)
    (candidate : after.IsCandidate a) : dc.IsCandidate a := by
  rw [DposContext.IsCandidate, trie] at candidate
  by_cases same : cc.addr = a
  · subst same
    exact stored nonzero
  · exact (isCandidate_setCandidateContext_iff same).mp candidate

theorem applyDposMessage_counts (dc : DposContext) (msg : Message) (statedb : StateDB)
    (number : Nat) :
    let after := applyDposMessage crypto dc msg statedb number
    CountChange dc msg number after.1 (debited msg statedb after.2.1)
      (credited msg statedb after.2.1) := by
  have change := applyDposMessage_stake crypto dc msg statedb number
  generalize applyDposMessage crypto dc msg statedb number = after at change ⊢
  obtain ⟨dcAfter, final, outcome⟩ := after
  dsimp only at change ⊢
  generalize trie : dcAfter.candidateTrie = after at change
  cases change with
  | unmoved same =>
    rw [(uncounted_of_same msg same).1, (uncounted_of_same msg same).2]
    refine .none fun a _ candidate => ?_
    rw [DposContext.IsCandidate, trie] at candidate
    exact candidate
  | relogin cc kind found logout =>
    rw [(uncounted_of_same msg rfl).1, (uncounted_of_same msg rfl).2]
    refine .none fun a nonzero => isCandidate_of_rewritten trie (fun _ => ?_) nonzero
    apply isCandidate_of_record found
    rintro rfl
    cases logout
  | deposit cc kind found notLogout notLogin enough =>
    have other : msg.txType ≠ .withdrawCandidate := by
      rw [kind]
      decide
    rw [debited_subBalance kind, credited_of_ne other]
    refine .deposit fun a different candidate => ?_
    rw [DposContext.IsCandidate, trie] at candidate
    exact (isCandidate_setCandidateContext_iff (Ne.symm different)).mp candidate
  | logout cc kind found login own =>
    rw [(uncounted_of_same msg rfl).1, (uncounted_of_same msg rfl).2]
    refine .none fun a nonzero => isCandidate_of_rewritten trie (fun senderNonzero => ?_) nonzero
    exact isCandidate_of_own found own senderNonzero
  | refund kind unlocked =>
    have other : msg.txType ≠ .loginCandidate := by
      rw [kind]
      decide
    rw [debited_of_ne other, credited_addBalance kind]
    refine .refund kind unlocked fun a candidate => ?_
    rw [DposContext.IsCandidate, trie, TrieMap.tryGet_tryDelete] at candidate
    by_cases same : msg.sender.data = a.data
    · rw [if_pos same] at candidate
      exact absurd rfl candidate
    · rw [if_neg same] at candidate
      refine ⟨?_, candidate⟩
      rintro rfl
      exact same rfl

theorem Covered.message (covered : Covered config s)
    (earns : EarnsRefund config s (.message msg statedb)) :
    Covered config (nextLedger crypto epoch s (.message msg statedb)) := by
  have counts : CountChange s.dc msg (s.number + 1)
      (applyDposMessage crypto s.dc msg statedb (s.number + 1)).1 _ _ :=
    applyDposMessage_counts s.dc msg statedb (s.number + 1)
  rw [nextLedger]
  generalize debited msg statedb _ = taken at counts ⊢
  generalize credited msg statedb _ = paid at counts ⊢
  generalize (applyDposMessage crypto s.dc msg statedb (s.number + 1)).1 = after at counts ⊢
  cases counts with
  | none kept =>
    refine ⟨covered.bounded, fun a outsider nonzero candidate => ?_⟩
    exact covered.staked a outsider nonzero (kept a nonzero candidate)
  | deposit kept =>
    simp only [count_false]
    constructor
    · intro a
      have before := covered.bounded a
      simp only [count, true_and]
      split <;> omega
    · intro a outsider nonzero candidate
      have before := covered.bounded a
      simp only [count, true_and]
      by_cases same : a = msg.sender
      · rw [if_pos same]
        omega
      · rw [if_neg same]
        exact covered.staked a outsider nonzero (kept a same candidate)
  | refund kind unlocked kept =>
    obtain ⟨outsider, nonzero⟩ := earns kind unlocked
    have paidFor := covered.staked _ outsider nonzero (isCandidate_of_unlocked unlocked)
    constructor
    · intro a
      simp only [count, true_and]
      by_cases same : a = msg.sender
      · subst same
        rw [if_pos rfl]
        exact paidFor
      · rw [if_neg same]
        exact covered.bounded a
    · intro a outsider nonzero candidate
      obtain ⟨different, before⟩ := kept a candidate
      simp only [count, true_and, if_neg different]
      exact covered.staked a outsider nonzero before

theorem Covered.finalize (covered : Covered config s) :
    Covered config (nextLedger crypto epoch s (.finalize statedb commitOrder rankOrder)) := by
  rw [nextLedger]
  cases final : finalizeContext crypto.keccak256 epoch (s.number + 1) s.dc statedb commitOrder
      rankOrder with
  | none => exact covered
  | some dc =>
    refine ⟨covered.bounded, fun a outsider nonzero candidate => ?_⟩
    apply covered.staked a outsider nonzero
    rcases finalizeContext_cases final with rfl | elected
    · exact candidate
    · obtain ⟨votes, middle, _, committed, rfl⟩ := tryElect_eq_none elected
      rw [DposContext.IsCandidate, setElected_candidateTrie] at candidate
      exact (commitScores_isCandidate_iff committed nonzero).mp candidate

/-- In every run whose paid withdrawals are none of genesis validators, no
address gets more deposits back than it has paid. -/
theorem refunds_le_deposits (crypto : Crypto) (epoch : Nat) (config : GenesisConfig) {s : Ledger}
    (run : Reachable (stakingSystem crypto epoch config) (EarnsRefund config) s) (a : Address) :
    s.credits a ≤ s.debits a := by
  have covered : Covered config s := by
    apply run.invariant (Covered config)
    · rintro _ rfl
      exact covered_genesis
    · intro s step covered _ earns
      change Covered config (nextLedger crypto epoch s step)
      cases step with
      | message msg statedb => exact covered.message earns
      | finalize statedb commitOrder rankOrder => exact covered.finalize
  exact covered.bounded a

end

def twoValidators : GenesisConfig := ⟨none, some [bytesToAddress [1], bytesToAddress [2]]⟩

def twoDeposits : StateDB :=
  ⟨(∅ : Std.ExtTreeMap Address Int).insert (bytesToAddress [9]) (2 * minCandidateBalance), []⟩

def sent (txType : TxType) (sender : UInt8) : StakingStep :=
  .message ⟨txType, bytesToAddress [sender], none⟩ twoDeposits

def leaves (sender : UInt8) : List StakingStep :=
  sent .logoutCandidate sender ::
    (List.replicate 11 (.finalize twoDeposits inKeyOrder inKeyOrder) ++
      [sent .withdrawCandidate sender])

def enabledCheck (crypto : Crypto) (epoch : Nat) (s : Ledger) : StakingStep → Bool
  | .message _ _ => true
  | .finalize statedb commitOrder rankOrder =>
    (finalizeContext crypto.keccak256 epoch (s.number + 1) s.dc statedb commitOrder
      rankOrder).isSome

theorem enabledCheck_sound {crypto : Crypto} {epoch : Nat} {config : GenesisConfig}
    {step : StakingStep} (checked : enabledCheck crypto epoch s step = true) :
    (stakingSystem crypto epoch config).enabled s step := by
  cases step with
  | message msg statedb => trivial
  | finalize statedb commitOrder rankOrder => exact checked

theorem reachable_ledger {crypto : Crypto} {epoch : Nat} {config : GenesisConfig}
    {check : Ledger → StakingStep → Bool} {condition : Ledger → StakingStep → Prop}
    (sound : ∀ s step, check s step = true → condition s step) {steps : List StakingStep}
    (checked : checksRun (nextLedger crypto epoch)
      (fun s step => enabledCheck crypto epoch s step && check s step) (genesisLedger config)
      steps = true) :
    Reachable (stakingSystem crypto epoch config) condition
      (steps.foldl (nextLedger crypto epoch) (genesisLedger config)) := by
  refine (Reachable.init rfl).run _ (admits_of_checksRun _ _ (fun step _ s checked => ?_) checked)
  rw [Bool.and_eq_true] at checked
  exact ⟨enabledCheck_sound checked.1, sound s step checked.2⟩

def notGenesis (config : GenesisConfig) : StakingStep → Bool
  | .message msg _ => decide (msg.sender ∉ genesisValidators config ∧ msg.sender ≠ zeroAddress)
  | .finalize _ _ _ => true

theorem notGenesis_sound {config : GenesisConfig} {step : StakingStep}
    (checked : notGenesis config step = true) : EarnsRefund config s step := by
  cases step with
  | message msg statedb =>
    intro _ _
    exact of_decide_eq_true checked
  | finalize statedb commitOrder rankOrder => trivial

/-- Address 9 pays its deposit, leaves and is paid back. -/
theorem refunds_le_deposits_outsider :
    let s := (sent .loginCandidate 9 :: leaves 9).foldl (nextLedger plainCrypto 100)
      (genesisLedger twoValidators)
    s.credits (bytesToAddress [9]) = 1 ∧
      s.credits (bytesToAddress [9]) ≤ s.debits (bytesToAddress [9]) := by
  refine ⟨by decide +kernel, ?_⟩
  apply refunds_le_deposits plainCrypto 100 twoValidators
  exact reachable_ledger (fun _ _ => notGenesis_sound) (by decide +kernel)

/-- Genesis validator 1 leaves with a deposit that it never paid. -/
theorem genesis_validator_refunded_for_nothing :
    ∃ s, Reachable (stakingSystem plainCrypto 100 twoValidators) (fun _ _ => True) s ∧
      s.debits (bytesToAddress [1]) = 0 ∧ s.credits (bytesToAddress [1]) = 1 := by
  refine ⟨(leaves 1).foldl (nextLedger plainCrypto 100) (genesisLedger twoValidators), ?_,
    by decide +kernel, by decide +kernel⟩
  exact reachable_ledger (fun _ _ (_ : true = true) => trivial) (by decide +kernel)

end Linkeye.Dbft.Staking
