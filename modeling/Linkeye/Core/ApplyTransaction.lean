import Linkeye.Core.Agreement
import Linkeye.Core.StateTransition

/-!
# Applying a transaction to the state database

`TransitionDb`, the outermost `Call` and `Create`, `applyDposMessage` and
`ApplyTransaction` once more, this time as programs that call the state database,
with everything they have done before they fail.  The interpreter is any program;
what it reads of the block is fixed with it.
-/

set_option autoImplicit false

namespace Linkeye.Core.ApplyTransaction

open Common.Types Common.Signature Dpos Journaling
open StateProcessor (Log minCandidateBalance unlockInterval asciiBytes)
open Core.StateTransition (ChainConfig Contract TxMessage VmError TxError asMessage
  createAddress createDataGas intrinsicGas isForked makeSigner maxCodeSize)
open Transaction Lib.Programs

/-! ## Programs -/

/-- The result of a call frame; what a frame that reverts has done is undone. -/
structure Frame where
  ret : Bytes
  gas : Nat
  err : Option VmError
  reverts : Bool

abbrev Program := Prog stateInterface Frame

def Frame.keeps (frame : Frame) : Bool := !frame.reverts

namespace Program

def asking (c : Call) : Program c.Answer := Prog.ask (I := stateInterface) c

def getBalance (addr : Address) : Program Int := asking (.getBalance addr)
def getNonce (addr : Address) : Program Nat := asking (.getNonce addr)
def getCode (addr : Address) : Program Bytes := asking (.getCode addr)
def getRefund : Program Nat := asking .getRefund
def exist (addr : Address) : Program Bool := asking (.exist addr)
def createAccount (addr : Address) : Program Unit := asking (.createAccount addr)
def addBalance (addr : Address) (amount : Int) : Program Unit := asking (.addBalance addr amount)
def subBalance (addr : Address) (amount : Int) : Program Unit := asking (.subBalance addr amount)
def setBalance (addr : Address) (amount : Int) : Program Unit := asking (.setBalance addr amount)
def setNonce (addr : Address) (nonce : Nat) : Program Unit := asking (.setNonce addr nonce)
def setCode (addr : Address) (code : Bytes) : Program Unit := asking (.setCode addr code)
def addLog (log : Log) : Program Unit := asking (.addLog log)

def transfer (sender recipient : Address) (amount : Int) : Program Unit := do
  subBalance sender amount
  addBalance recipient amount

end Program

open Program

abbrev runs {α : Type} (p : Program α) (s : StateDB) : StateDB × α :=
  p.run stateMachine Frame.keeps s

/-- What `ApplyDAOHardFork` goes by. -/
structure DaoFork where
  support : Bool
  block : Option Nat
  refundContract : Address
  drainList : List Address

/-- A block's environment.  `run` is the interpreter with the precompiled
contracts, which uses gas and never hands any out; `stateRoot` is the root of the
account trie by its contents. -/
structure BlockEnv where
  crypto : Crypto
  config : ChainConfig
  byzantiumBlock : Option Nat
  number : Nat
  gasLimit : Nat
  coinbase : Address
  precompiled : Address → Bool
  run : TxMessage → Contract → Program Frame
  gas_le : ∀ msg contract s, (runs (run msg contract) s).2.gas ≤ contract.gas
  stateRoot : Std.ExtTreeMap Address Account → Hash
  txHash : TxData → Hash
  dao : DaoFork

namespace BlockEnv

def isEIP158 (env : BlockEnv) : Bool := env.config.isEIP158 env.number
def isHomestead (env : BlockEnv) : Bool := env.config.isHomestead env.number
def isEIP155 (env : BlockEnv) : Bool := env.config.isEIP155 env.number
def isByzantium (env : BlockEnv) : Bool := isForked env.byzantiumBlock env.number
def isDAOFork (env : BlockEnv) : Bool := env.dao.support && env.dao.block == some env.number

end BlockEnv

def drainAll (refundContract : Address) : List Address → Program Unit
  | [] => pure ()
  | addr :: rest => do
      let balance ← getBalance addr
      addBalance refundContract balance
      setBalance addr 0
      drainAll refundContract rest

def applyDAOHardFork (dao : DaoFork) : Program Unit := do
  let there ← exist dao.refundContract
  if there = false then createAccount dao.refundContract
  drainAll dao.refundContract dao.drainList

def openState (env : BlockEnv) (trie : Std.ExtTreeMap Address Account) : StateDB :=
  if env.isDAOFork = true then (runs (applyDAOHardFork env.dao) (.new trie)).1 else .new trie

/-! ## The virtual machine -/

section
variable (env : BlockEnv) (msg : TxMessage)

def settleCall (result : Frame) : Frame :=
  match result.err with
  | none => { result with reverts := false }
  | some err =>
    ⟨result.ret, if err = .errExecutionReverted then result.gas else 0, some err, true⟩

def call (caller addr : Address) (input : Bytes) (gas : Nat) (value : Int) : Program Frame := do
  let balance ← getBalance caller
  if balance < value then return ⟨[], gas, some .errInsufficientBalance, false⟩
  .within do
    let there ← exist addr
    if there = false ∧ env.precompiled addr = false ∧ env.isEIP158 = true ∧ value = 0 then
      return ⟨[], gas, none, false⟩
    if there = false then createAccount addr
    transfer caller addr value
    let code ← getCode addr
    let result ← env.run msg ⟨caller, addr, value, code, input, gas⟩
    return settleCall result

def storeCode (contractAddr : Address) (result : Frame) : Program Frame := do
  let dataGas := result.ret.length * createDataGas % 2 ^ 64
  if dataGas ≤ result.gas then
    setCode contractAddr result.ret
    return { result with gas := result.gas - dataGas }
  else return { result with err := some .errCodeStoreOutOfGas }

def settleCreate (tooLong : Bool) (result : Frame) : Frame :=
  let reverts := tooLong = true ∨ (result.err ≠ none ∧
    (env.isHomestead = true ∨ result.err ≠ some .errCodeStoreOutOfGas))
  let err := if tooLong = true ∧ result.err = none then some .errMaxCodeSizeExceeded else result.err
  if reverts then
    ⟨result.ret, if result.err = some .errExecutionReverted then result.gas else 0, err, true⟩
  else ⟨result.ret, result.gas, err, false⟩

def create (caller : Address) (code : Bytes) (gas : Nat) (value : Int) : Program Frame := do
  let balance ← getBalance caller
  if balance < value then return ⟨[], gas, some .errInsufficientBalance, false⟩
  let nonce ← getNonce caller
  setNonce caller ((nonce + 1) % 2 ^ 64)
  let contractAddr := createAddress env.crypto caller nonce
  let contractCode ← getCode contractAddr
  let contractNonce ← getNonce contractAddr
  if contractNonce ≠ 0 ∨ contractCode ≠ [] then
    return ⟨[], 0, some .errContractAddressCollision, false⟩
  .within do
    createAccount contractAddr
    if env.isEIP158 = true then setNonce contractAddr 1
    transfer caller contractAddr value
    let result ← env.run msg ⟨caller, contractAddr, value, code, [], gas⟩
    let tooLong := env.isEIP158 && decide (maxCodeSize < result.ret.length)
    let result ← if result.err = none ∧ tooLong = false then storeCode contractAddr result
      else pure result
    return settleCreate env tooLong result

end

/-! ## Messages -/

structure Transition where
  gasUsed : Nat
  failed : Bool

section
variable (env : BlockEnv)

/-- The part of `TransitionDb` that runs the message with the gas it has left. -/
def execute (msg : TxMessage) (gas : Nat) : Program Frame := do
  match msg.recipient with
  | none => create env msg msg.sender msg.data gas msg.amount
  | some recipient =>
    let nonce ← getNonce msg.sender
    setNonce msg.sender ((nonce + 1) % 2 ^ 64)
    call env msg msg.sender recipient msg.data gas msg.amount

/-- What follows once the gas is bought; `left` is the rest of the gas pool. -/
def runMessage (msg : TxMessage) (left : Nat) : Program (Nat × Except TxError Transition) := do
  match intrinsicGas msg.data msg.recipient.isNone env.isHomestead with
  | none => return (left, .error .errOutOfGas)
  | some gas =>
    if msg.gas < gas then return (left, .error .errOutOfGas)
    let result ← execute env msg (msg.gas - gas)
    if result.err = some .errInsufficientBalance then
      return (left, .error .errInsufficientBalance)
    let refund ← getRefund
    let remaining := result.gas + min ((msg.gas - result.gas) / 2) refund
    addBalance env.coinbase msg.fee
    return (left + remaining, .ok ⟨msg.gas - remaining, result.err.isSome⟩)

def transitionDb (msg : TxMessage) (pool : Nat) : Program (Nat × Except TxError Transition) := do
  let nonce ← getNonce msg.sender
  if msg.checkNonce = true ∧ nonce < msg.nonce then return (pool, .error .errNonceTooHigh)
  if msg.checkNonce = true ∧ msg.nonce < nonce then return (pool, .error .errNonceTooLow)
  let balance ← getBalance msg.sender
  if balance < msg.fee then return (pool, .error .errInsufficientBalanceForGas)
  if pool < msg.gas then return (pool, .error .errGasLimitReached)
  subBalance msg.sender msg.fee
  runMessage env msg (pool - msg.gas)

end

/-! ## Staking -/

section
variable (crypto : Crypto) (dc : DposContext) (sender : Address) (number : Nat)

def addDposLog (topics text : String) : Program Unit :=
  addLog
    { address := sender
      topics := [crypto.keccak256 (asciiBytes topics)]
      data := asciiBytes text ++ addressString crypto.keccak256 sender
      blockNumber := UInt64.ofNat number }

def loginCandidate : Program DposContext := do
  match dc.getCandidateContext sender with
  | .error _ =>
    addDposLog crypto sender number "LoginCandidate" "failed to GetCandidateContext"
    return dc
  | .ok cc =>
    if cc.state = .logoutState then
      return (dc.setCandidateContext ⟨sender, .loginState, number, cc.score⟩).1
    if cc.state = .loginState ∧ cc.addr = sender then
      addDposLog crypto sender number "RepeatLoginCandidate"
        "You are already in login state before, "
      return dc
    -- first login
    let balance ← getBalance sender
    if balance < minCandidateBalance then
      addDposLog crypto sender number "InsufficientBalance"
        "insufficient balance to become candidate, "
      return dc
    subBalance sender minCandidateBalance
    return (dc.setCandidateContext ⟨sender, .loginState, number, 0⟩).1

def logoutCandidate : Program DposContext := do
  match dc.getCandidateContext sender with
  | .error _ =>
    addDposLog crypto sender number "LogoutCandidate" "failed to GetCandidateContext"
    return dc
  | .ok cc =>
    if cc.state = .loginState ∧ cc.addr = sender then
      return (dc.setCandidateContext ⟨sender, .logoutState, number, cc.score⟩).1
    if cc.state = .logoutState then
      addDposLog crypto sender number "RepeatLogoutCandidate"
        "You are already in logout state before, "
      return dc
    addDposLog crypto sender number "NoLogin" "please first call login, "
    return dc

def withdrawCandidate : Program DposContext := do
  match dc.getCandidateContext sender with
  | .error _ =>
    addDposLog crypto sender number "WithdrawCandidate" "failed to GetCandidateContext"
    return dc
  | .ok cc =>
    if cc.state = .logoutState then
      if cc.blockNumber + unlockInterval < number then
        addBalance sender minCandidateBalance
        return dc.kickoutCandidate sender
      addDposLog crypto sender number "Locking" "please wait, unlock time isn't arrive, "
      return dc
    addDposLog crypto sender number "NoLogout" "please first call logout, "
    return dc

/-- The context that is left, and the error. -/
def applyDposMessage (txType : TxType) (recipient : Option Address) :
    Program (DposContext × Except TxError Unit) := do
  match txType, recipient with
  | .loginCandidate, _ => return (← loginCandidate crypto dc sender number, .ok ())
  | .logoutCandidate, _ => return (← logoutCandidate crypto dc sender number, .ok ())
  | .withdrawCandidate, _ => return (← withdrawCandidate crypto dc sender number, .ok ())
  | .delegate, some recipient =>
    let balance ← getBalance sender
    return ((dc.delegate sender recipient number balance).1, .ok ())
  | .unDelegate, some recipient => return ((dc.unDelegate sender recipient).1, .ok ())
  | .delegate, none => return (dc, .error .nilRecipient)
  | .unDelegate, none => return (dc, .error .nilRecipient)
  | .binary, _ => return (dc, .error .errInvalidType)
  | .other _, _ => return (dc, .error .errInvalidType)

end

/-! ## Transactions -/

/-- The receipt without its bloom filter, which is computed from the logs. -/
structure Receipt where
  root : Option Hash
  failed : Bool
  cumulativeGasUsed : Nat
  txHash : Hash
  gasUsed : Nat
  contractAddress : Option Address
  logs : List PlacedLog

/-- What the steps of a message leave besides the state. -/
structure Outcome where
  dc : DposContext
  pool : Nat
  result : Except TxError Transition

section
variable (env : BlockEnv)

def applyMessage (dc : DposContext) (msg : TxMessage) (pool : Nat) : Program Outcome := do
  match ← transitionDb env msg pool with
  | (pool, .error err) => return ⟨dc, pool, .error err⟩
  | (pool, .ok done) =>
    if msg.txType ≠ .binary ∧ (env.config.dpos = true ∨ env.config.dbft = true) then
      match ← applyDposMessage env.crypto dc msg.sender env.number msg.txType msg.recipient with
      | (dc, .error err) => return ⟨dc, pool, .error err⟩
      | (dc, .ok ()) => return ⟨dc, pool, .ok done⟩
    else return ⟨dc, pool, .ok done⟩

/-- `ApplyTransaction` up to the point where the state is finalised. -/
def applySteps (dc : DposContext) (pool : Nat) (tx : TxData) : Program Outcome :=
  match asMessage env.crypto (makeSigner env.config env.number) tx with
  | .error err => .done ⟨dc, pool, .error (.sender err)⟩
  | .ok msg =>
    if msg.recipient = none ∧ msg.txType ≠ .binary then .done ⟨dc, pool, .error .errInvalidType⟩
    else applyMessage env dc msg pool

def contractAddress (tx : TxData) : Option Address :=
  if tx.recipient = none then
    match sender env.crypto (makeSigner env.config env.number) tx with
    | .error _ => none
    | .ok from_ => some (createAddress env.crypto from_ tx.accountNonce.toNat)
  else none

structure Applied where
  state : StateDB
  dc : DposContext
  pool : Nat
  result : Except TxError Receipt

def applyTransaction (dc : DposContext) (s : StateDB) (pool usedGas : Nat) (tx : TxData) :
    Applied :=
  match (applySteps env dc pool tx).run stateMachine Frame.keeps s with
  | (s, ⟨dc, pool, .error err⟩) => ⟨s, dc, pool, .error err⟩
  | (s, ⟨dc, pool, .ok done⟩) =>
    let finalised := s.finalise (if env.isByzantium = true then true else env.isEIP158)
    let hash := env.txHash tx
    ⟨finalised, dc, pool, .ok
      { root := if env.isByzantium = true then none else some (env.stateRoot finalised.trie)
        failed := done.failed
        cumulativeGasUsed := (usedGas + done.gasUsed) % 2 ^ 64
        txHash := hash
        gasUsed := done.gasUsed
        contractAddress := contractAddress env tx
        logs := finalised.logs.getD hash [] }⟩

end

/-! ## The gas pool -/

variable {pool left : Nat} {done : Transition} {t : StateDB}

section Pool
variable {env : BlockEnv} {dc : DposContext} {s : StateDB} {msg : TxMessage} {tx : TxData}

/-- Gas that is bought already does not matter any more. -/
theorem runs_runMessage_add (env : BlockEnv) (msg : TxMessage) (left extra : Nat) (s : StateDB) :
    runs (runMessage env msg (left + extra)) s =
      ((runs (runMessage env msg left) s).1,
        ((runs (runMessage env msg left) s).2.1 + extra,
          (runs (runMessage env msg left) s).2.2)) := by
  rw [runMessage, runMessage]
  cases intrinsicGas msg.data msg.recipient.isNone env.isHomestead with
  | none => rfl
  | some gas =>
    dsimp only
    by_cases low : msg.gas < gas
    · rw [if_pos low, if_pos low]
      rfl
    · rw [if_neg low, if_neg low]
      simp only [runs, Prog.run_bind]
      generalize (execute env msg (msg.gas - gas)).run stateMachine Frame.keeps s = ran
      split
      · rfl
      · simp only [Prog.run_bind, Prog.run_pure, Prod.mk.injEq, and_true, true_and]
        omega

/-- A message that a pool suffices for is run alike with a larger one. -/
theorem runs_transitionDb_add (passed : runs (transitionDb env msg pool) s = (t, left, .ok done))
    (extra : Nat) :
    runs (transitionDb env msg (pool + extra)) s = (t, left + extra, .ok done) := by
  rw [transitionDb] at passed ⊢
  simp only [runs, Prog.run_bind] at passed ⊢
  generalize (getNonce msg.sender).run stateMachine Frame.keeps s = first at passed ⊢
  by_cases high : msg.checkNonce = true ∧ first.2 < msg.nonce
  · rw [if_pos high] at passed
    cases passed
  rw [if_neg high] at passed ⊢
  by_cases low : msg.checkNonce = true ∧ msg.nonce < first.2
  · rw [if_pos low] at passed
    cases passed
  rw [if_neg low] at passed ⊢
  simp only [Prog.run_bind] at passed ⊢
  generalize (getBalance msg.sender).run stateMachine Frame.keeps first.1 = second at passed ⊢
  by_cases poor : second.2 < msg.fee
  · rw [if_pos poor] at passed
    cases passed
  rw [if_neg poor] at passed ⊢
  by_cases short : pool < msg.gas
  · rw [if_pos short] at passed
    cases passed
  have enough : ¬ pool + extra < msg.gas := by omega
  have rest : pool + extra - msg.gas = pool - msg.gas + extra := by omega
  rw [if_neg short] at passed
  rw [if_neg enough]
  simp only [Prog.run_bind] at passed ⊢
  generalize (subBalance msg.sender msg.fee).run stateMachine Frame.keeps second.1 = third
    at passed ⊢
  have shifted := runs_runMessage_add env msg (pool - msg.gas) extra third.1
  rw [runs, runs, passed] at shifted
  rw [rest, shifted]

theorem runs_applyMessage_add {after : DposContext}
    (passed : runs (applyMessage env dc msg pool) s = (t, ⟨after, left, .ok done⟩)) (extra : Nat) :
    runs (applyMessage env dc msg (pool + extra)) s = (t, ⟨after, left + extra, .ok done⟩) := by
  rw [applyMessage] at passed ⊢
  simp only [runs, Prog.run_bind] at passed ⊢
  cases transition : (transitionDb env msg pool).run stateMachine Frame.keeps s with
  | mk middle result =>
    obtain ⟨rest, result⟩ := result
    rw [transition] at passed
    cases result with
    | error err => cases passed
    | ok finished =>
      have shifted := runs_transitionDb_add transition extra
      rw [runs] at shifted
      rw [shifted]
      dsimp only at passed ⊢
      split at passed
      · rename_i staking
        rw [if_pos staking]
        simp only [Prog.run_bind] at passed ⊢
        split at passed
        · cases passed
        · cases passed
          rfl
      · rename_i plain
        rw [if_neg plain]
        cases passed
        rfl

theorem runs_applySteps_add {after : DposContext}
    (passed : runs (applySteps env dc pool tx) s = (t, ⟨after, left, .ok done⟩)) (extra : Nat) :
    runs (applySteps env dc (pool + extra) tx) s = (t, ⟨after, left + extra, .ok done⟩) := by
  rw [applySteps] at passed ⊢
  cases sent : asMessage env.crypto (makeSigner env.config env.number) tx with
  | error err =>
    rw [sent] at passed
    cases passed
  | ok msg =>
    rw [sent] at passed
    dsimp only at passed ⊢
    split at passed
    · cases passed
    · rename_i typed
      rw [if_neg typed]
      exact runs_applyMessage_add passed extra

theorem gas_settleCall (result : Frame) : (settleCall result).gas ≤ result.gas := by
  rw [settleCall]
  split
  · exact le_refl _
  · split
    · exact le_refl _
    · exact Nat.zero_le _

theorem gas_settleCreate (tooLong : Bool) (result : Frame) :
    (settleCreate env tooLong result).gas ≤ result.gas := by
  rw [settleCreate]
  split
  · split
    · exact le_refl _
    · exact Nat.zero_le _
  · exact le_refl _

theorem gas_storeCode (contractAddr : Address) (result : Frame) (s : StateDB) :
    (runs (storeCode contractAddr result) s).2.gas ≤ result.gas := by
  rw [storeCode]
  split
  · exact Nat.sub_le _ _
  · exact le_refl _

theorem run_within (body : Program Frame) (s : StateDB) :
    ((Prog.within body).run stateMachine Frame.keeps s).2 =
      (body.run stateMachine Frame.keeps s).2 := rfl

theorem gas_call (caller addr : Address) (input : Bytes) (gas : Nat) (value : Int) (s : StateDB) :
    (runs (call env msg caller addr input gas value) s).2.gas ≤ gas := by
  rw [call]
  simp only [runs, Prog.run_bind]
  split
  · exact le_refl _
  · rw [run_within]
    simp only [Prog.run_bind]
    split
    · exact le_refl _
    · split
      · simp only [Prog.run_bind, Prog.run_pure]
        exact le_trans (gas_settleCall _) (env.gas_le msg _ _)
      · simp only [Prog.run_bind, Prog.run_pure]
        exact le_trans (gas_settleCall _) (env.gas_le msg _ _)

/-- The end of `Create`, from the result of the initialisation code. -/
theorem gas_createEnd (contractAddr : Address) {gas : Nat} {result : Frame} (le : result.gas ≤ gas)
    (s : StateDB) :
    (runs (do
      let tooLong := env.isEIP158 && decide (maxCodeSize < result.ret.length)
      let result ← if result.err = none ∧ tooLong = false then storeCode contractAddr result
        else pure result
      return settleCreate env tooLong result) s).2.gas ≤ gas := by
  simp only [runs]
  split
  · simp only [Prog.run_bind, Prog.run_pure]
    exact le_trans (gas_settleCreate _ _) (le_trans (gas_storeCode contractAddr result s) le)
  · exact le_trans (gas_settleCreate _ _) le

theorem gas_create (caller : Address) (code : Bytes) (gas : Nat) (value : Int) (s : StateDB) :
    (runs (create env msg caller code gas value) s).2.gas ≤ gas := by
  rw [create]
  simp only [runs, Prog.run_bind]
  split
  · exact le_refl _
  · simp only [Prog.run_bind]
    split
    · exact Nat.zero_le _
    · rw [run_within]
      split
      · simp only [Prog.run_bind]
        exact gas_createEnd _ (env.gas_le msg _ _) _
      · simp only [Prog.run_bind]
        exact gas_createEnd _ (env.gas_le msg _ _) _

theorem gas_execute (env : BlockEnv) (msg : TxMessage) (gas : Nat) (s : StateDB) :
    (runs (execute env msg gas) s).2.gas ≤ gas := by
  rw [execute]
  cases msg.recipient with
  | none => exact gas_create _ _ _ _ s
  | some recipient =>
    exact gas_call _ _ _ _ _ _

/-- The pool after `gas` was bought from it and part of that was given back. -/
structure Bought (pool gas after : Nat) : Prop where
  le : after ≤ pool
  ge : pool ≤ after + gas
  spent : after = pool → gas = 0

/-- The error comes up after the gas of the transaction was bought. -/
def boughtGas (tx : TxData) : TxError → Bool
  | .errOutOfGas | .errInsufficientBalance => true
  | .errInvalidType => tx.recipient.isSome
  | _ => false

theorem intrinsicGas_pos {data : Bytes} {creation homestead : Bool} {gas : Nat}
    (priced : intrinsicGas data creation homestead = some gas) : 0 < gas := by
  have base : 0 < if creation = true ∧ homestead = true then 53000 else 21000 := by
    split <;> omega
  rw [intrinsicGas] at priced
  generalize (if creation = true ∧ homestead = true then 53000 else 21000) = start at base priced
  dsimp only at priced
  split at priced
  · cases priced
  split at priced
  · cases priced
  · cases priced
    omega

theorem bought_runMessage (env : BlockEnv) (msg : TxMessage) (left : Nat) (s : StateDB) :
    Bought (left + msg.gas) msg.gas (runs (runMessage env msg left) s).2.1 ∧
      ∀ err, (runs (runMessage env msg left) s).2.2 = .error err →
        err = .errOutOfGas ∨ err = .errInsufficientBalance := by
  have unspent : Bought (left + msg.gas) msg.gas left := ⟨by omega, by omega, by omega⟩
  rw [runMessage]
  cases priced : intrinsicGas msg.data msg.recipient.isNone env.isHomestead with
  | none => exact ⟨unspent, fun err failed => .inl (Except.error.inj failed).symm⟩
  | some gas =>
    dsimp only
    have positive := intrinsicGas_pos priced
    by_cases low : msg.gas < gas
    · rw [if_pos low]
      exact ⟨unspent, fun err failed => .inl (Except.error.inj failed).symm⟩
    · rw [if_neg low]
      have used := gas_execute env msg (msg.gas - gas) s
      simp only [runs, Prog.run_bind] at used ⊢
      generalize (execute env msg (msg.gas - gas)).run stateMachine Frame.keeps s = ran at used ⊢
      split
      · exact ⟨unspent, fun err failed => .inr (Except.error.inj failed).symm⟩
      · simp only [Prog.run_bind, Prog.run_pure]
        exact ⟨⟨by omega, by omega, by omega⟩, nofun⟩

/-- A message fails before its gas is bought, or it is bought. -/
theorem pool_transitionDb (env : BlockEnv) (msg : TxMessage) (pool : Nat) (s : StateDB) :
    (∃ err, (runs (transitionDb env msg pool) s).2 = (pool, .error err) ∧
        ∀ tx, boughtGas tx err = false) ∨
      (Bought pool msg.gas (runs (transitionDb env msg pool) s).2.1 ∧
        ∀ err, (runs (transitionDb env msg pool) s).2.2 = .error err →
          ∀ tx, boughtGas tx err = true) := by
  rw [transitionDb]
  simp only [runs, Prog.run_bind]
  split
  · exact .inl ⟨_, rfl, fun _ => rfl⟩
  split
  · exact .inl ⟨_, rfl, fun _ => rfl⟩
  simp only [Prog.run_bind]
  split
  · exact .inl ⟨_, rfl, fun _ => rfl⟩
  split
  · exact .inl ⟨_, rfl, fun _ => rfl⟩
  · rename_i enough
    simp only [Prog.run_bind]
    refine .inr ?_
    generalize ((subBalance msg.sender msg.fee).run stateMachine Frame.keeps _).1 = paid
    obtain ⟨bought, late⟩ := bought_runMessage env msg (pool - msg.gas) paid
    rw [Nat.sub_add_cancel (not_lt.mp enough)] at bought
    refine ⟨bought, fun err failed tx => ?_⟩
    rcases late err failed with rfl | rfl <;> rfl

theorem applyDposMessage_error {crypto : Crypto} {sender recipient : Address} {number : Nat}
    {txType : TxType} {err : TxError}
    (failed : (runs (applyDposMessage crypto dc sender number txType (some recipient)) s).2.2 =
      .error err) : err = .errInvalidType := by
  cases txType with
  | binary | other => exact (Except.error.inj failed).symm
  | _ =>
    simp only [applyDposMessage, runs, Prog.run_bind] at failed
    cases failed

theorem pool_applySteps (env : BlockEnv) (dc : DposContext) (pool : Nat) (tx : TxData)
    (s : StateDB) :
    (∃ err, (runs (applySteps env dc pool tx) s).2.result = .error err ∧
        (runs (applySteps env dc pool tx) s).2.pool = pool ∧ boughtGas tx err = false) ∨
      (Bought pool tx.gasLimit.toNat (runs (applySteps env dc pool tx) s).2.pool ∧
        ∀ err, (runs (applySteps env dc pool tx) s).2.result = .error err →
          boughtGas tx err = true) := by
  rw [applySteps]
  cases sent : asMessage env.crypto (makeSigner env.config env.number) tx with
  | error err => exact .inl ⟨_, rfl, rfl, rfl⟩
  | ok msg =>
    have recipient : msg.recipient = tx.recipient ∧ msg.gas = tx.gasLimit.toNat := by
      rw [asMessage] at sent
      split at sent
      · cases sent
      · cases sent
        exact ⟨rfl, rfl⟩
    dsimp only
    split
    · rename_i absent
      refine .inl ⟨_, rfl, rfl, ?_⟩
      rw [boughtGas, ← recipient.1, absent.1]
      rfl
    · rename_i typed
      have bound := pool_transitionDb env msg pool s
      rw [applyMessage]
      simp only [runs, Prog.run_bind] at bound ⊢
      generalize (transitionDb env msg pool).run stateMachine Frame.keeps s = ran at bound ⊢
      obtain ⟨after, left, result⟩ := ran
      rcases bound with ⟨err, early, unbought⟩ | ⟨bought, late⟩
      · cases early
        exact .inl ⟨err, rfl, rfl, unbought tx⟩
      rw [recipient.2] at bought
      refine .inr ?_
      cases result with
      | error err =>
        refine ⟨bought, fun other failed => ?_⟩
        cases failed
        exact late err rfl tx
      | ok done =>
        dsimp only
        split
        · rename_i staking
          obtain ⟨target, named⟩ : ∃ target, msg.recipient = some target :=
            Option.ne_none_iff_exists'.mp fun absent => typed ⟨absent, staking.1⟩
          simp only [Prog.run_bind]
          have invalid := @applyDposMessage_error dc after env.crypto msg.sender target env.number
            msg.txType
          rw [named]
          simp only [runs] at invalid
          generalize (applyDposMessage env.crypto dc msg.sender env.number msg.txType
            (some target)).run stateMachine Frame.keeps after = staked at invalid ⊢
          obtain ⟨final, dc', err | ⟨⟩⟩ := staked
          · refine ⟨bought, fun other failed => ?_⟩
            cases failed
            rw [invalid rfl, boughtGas, ← recipient.1, named]
            rfl
          · exact ⟨bought, nofun⟩
        · exact ⟨bought, nofun⟩

end Pool

end Linkeye.Core.ApplyTransaction
