import Linkeye.Core.StateProcessor

/-!
# Applying a transaction

`core/state_transition.go`, the outermost `Call` and `Create` of `core/vm/evm.go`
and `ApplyTransaction`.  The interpreter that runs code is a parameter.  A
snapshot of the state is the state itself, and to revert is to go back to it.
-/

set_option autoImplicit false

namespace Linkeye.Core.StateTransition

open Common.Types Common.Signature Dpos StateProcessor Transaction Rlp.Encode

/-! ## The state -/

/-- What a transaction reads and writes besides storage, which only the
interpreter knows.  An account exists if it has an entry among the balances. -/
structure World where
  statedb : StateDB
  nonces : Std.ExtTreeMap Address Nat
  codes : Std.ExtTreeMap Address Bytes
  refund : Nat

namespace World

def getBalance (w : World) (addr : Address) : Int := w.statedb.getBalance addr

def getNonce (w : World) (addr : Address) : Nat := w.nonces.getD addr 0

def getCode (w : World) (addr : Address) : Bytes := w.codes.getD addr []

def exist (w : World) (addr : Address) : Bool := w.statedb.balances.contains addr

def addBalance (w : World) (addr : Address) (amount : Int) : World :=
  { w with statedb := w.statedb.addBalance addr amount }

def subBalance (w : World) (addr : Address) (amount : Int) : World :=
  { w with statedb := w.statedb.subBalance addr amount }

def setNonce (w : World) (addr : Address) (nonce : Nat) : World :=
  { w with statedb := w.statedb.addBalance addr 0, nonces := w.nonces.insert addr nonce }

def setCode (w : World) (addr : Address) (code : Bytes) : World :=
  { w with statedb := w.statedb.addBalance addr 0, codes := w.codes.insert addr code }

/-- The balance of an account that is created anew is kept. -/
def createAccount (w : World) (addr : Address) : World :=
  { w with
    statedb := w.statedb.addBalance addr 0
    nonces := w.nonces.erase addr
    codes := w.codes.erase addr }

def transfer (w : World) (sender recipient : Address) (amount : Int) : World :=
  (w.subBalance sender amount).addBalance recipient amount

def deleteAccount (w : World) (addr : Address) : World :=
  { w with
    statedb := { w.statedb with balances := w.statedb.balances.erase addr }
    nonces := w.nonces.erase addr
    codes := w.codes.erase addr }

/-- `Finalise`: the accounts that destroyed themselves go.  Empty accounts, which
read like absent ones, are left in. -/
def finalise (w : World) (suicided : List Address) : World :=
  { suicided.foldl deleteAccount w with refund := 0 }

end World

/-! ## The virtual machine -/

inductive VmError where
  | errInsufficientBalance
  | errContractAddressCollision
  | errCodeStoreOutOfGas
  | errMaxCodeSizeExceeded
  | errExecutionReverted
  | execution (code : Nat)
deriving DecidableEq

structure Contract where
  caller : Address
  self : Address
  value : Int
  code : Bytes
  input : Bytes
  gas : Nat

/-- `suicided` are the accounts that the execution has marked for deletion. -/
structure RunResult where
  world : World
  ret : Bytes
  gas : Nat
  err : Option VmError
  suicided : List Address

/-- `run`: precompiled contracts and the interpreter, which use gas and never
hand any out. -/
structure Interpreter where
  run : World → Contract → RunResult
  gas_le : ∀ w contract, (run w contract).gas ≤ contract.gas
  precompiled : Address → Bool

structure ChainConfig where
  chainId : Int
  homesteadBlock : Option Nat
  eip155Block : Option Nat
  eip158Block : Option Nat
  dpos : Bool
  dbft : Bool

def isForked (s : Option Nat) (head : Nat) : Bool := s.any fun block => decide (block ≤ head)

def ChainConfig.isHomestead (config : ChainConfig) (number : Nat) : Bool :=
  isForked config.homesteadBlock number

def ChainConfig.isEIP155 (config : ChainConfig) (number : Nat) : Bool :=
  isForked config.eip155Block number

def ChainConfig.isEIP158 (config : ChainConfig) (number : Nat) : Bool :=
  isForked config.eip158Block number

/-- The environment of a block: configuration, number, and who gets the fees. -/
structure Env where
  crypto : Crypto
  config : ChainConfig
  number : Nat
  coinbase : Address
  vm : Interpreter

def maxCodeSize : Nat := 24576
def createDataGas : Nat := 200

def createAddress (crypto : Crypto) (caller : Address) (nonce : Nat) : Address :=
  bytesToAddress ((crypto.keccak256
    (encode (.list [writeByteArray caller, writeUint nonce]))).data.drop 12)

section
variable (env : Env)

def call (w : World) (caller addr : Address) (input : Bytes) (gas : Nat) (value : Int) :
    RunResult :=
  if w.getBalance caller < value then ⟨w, [], gas, some .errInsufficientBalance, []⟩
  else if w.exist addr = false ∧ env.vm.precompiled addr = false ∧
      env.config.isEIP158 env.number = true ∧ value = 0 then
    ⟨w, [], gas, none, []⟩
  else
    let w' := if w.exist addr = true then w else w.createAccount addr
    let w' := w'.transfer caller addr value
    let result := env.vm.run w' ⟨caller, addr, value, w'.getCode addr, input, gas⟩
    match result.err with
    | none => result
    | some err =>
      ⟨w, result.ret, if err = .errExecutionReverted then result.gas else 0, some err, []⟩

/-- The state that the code of a new contract starts from. -/
def prepareCreate (w : World) (caller contractAddr : Address) (value : Int) : World :=
  let w := w.createAccount contractAddr
  let w := if env.config.isEIP158 env.number = true then w.setNonce contractAddr 1 else w
  w.transfer caller contractAddr value

/-- Storing the code of a new contract, once it has run without an error. -/
def storeCode (result : RunResult) (contractAddr : Address) : RunResult :=
  let dataGas := result.ret.length * createDataGas % 2 ^ 64
  if dataGas ≤ result.gas then
    { result with
      world := result.world.setCode contractAddr result.ret
      gas := result.gas - dataGas }
  else { result with err := some .errCodeStoreOutOfGas }

/-- The end of `Create`.  Before Homestead a contract whose code cannot be paid for
stays, although the creation has failed. -/
def settleCreate (w : World) (contractAddr : Address) (result : RunResult) : RunResult :=
  let tooLong := env.config.isEIP158 env.number = true ∧ maxCodeSize < result.ret.length
  let result := if result.err = none ∧ ¬ tooLong then storeCode result contractAddr else result
  let reverts := tooLong ∨ (result.err ≠ none ∧
    (env.config.isHomestead env.number = true ∨ result.err ≠ some .errCodeStoreOutOfGas))
  let err := if tooLong ∧ result.err = none then some .errMaxCodeSizeExceeded else result.err
  if reverts then
    ⟨w, result.ret, if result.err = some .errExecutionReverted then result.gas else 0, err, []⟩
  else { result with err := err }

def create (w : World) (caller : Address) (code : Bytes) (gas : Nat) (value : Int) : RunResult :=
  if w.getBalance caller < value then ⟨w, [], gas, some .errInsufficientBalance, []⟩
  else
    let nonce := w.getNonce caller
    let w := w.setNonce caller ((nonce + 1) % 2 ^ 64)
    let contractAddr := createAddress env.crypto caller nonce
    if w.getNonce contractAddr ≠ 0 ∨ w.getCode contractAddr ≠ [] then
      ⟨w, [], 0, some .errContractAddressCollision, []⟩
    else
      settleCreate env w contractAddr
        (env.vm.run (prepareCreate env w caller contractAddr value)
          ⟨caller, contractAddr, value, code, [], gas⟩)

end

/-! ## Messages -/

structure TxMessage where
  nonce : Nat
  gas : Nat
  gasPrice : Int
  recipient : Option Address
  amount : Int
  data : Bytes
  txType : TxType
  sender : Address
  checkNonce : Bool

def makeSigner (config : ChainConfig) (number : Nat) : Signer :=
  if config.isEIP155 number = true then .eip155 config.chainId
  else if config.isHomestead number = true then .homestead
  else .frontier

def asMessage (crypto : Crypto) (signer : Signer) (tx : TxData) : Except SenderError TxMessage :=
  match sender crypto signer tx with
  | .error err => .error err
  | .ok from_ =>
    .ok
      { nonce := tx.accountNonce.toNat
        gas := tx.gasLimit.toNat
        gasPrice := tx.price
        recipient := tx.recipient
        amount := tx.amount
        data := tx.payload
        txType := tx.txType
        sender := from_
        checkNonce := true }

def maxUint64 : Nat := 2 ^ 64 - 1

/-- `none` where the gas does not fit in 64 bits. -/
def intrinsicGas (data : Bytes) (contractCreation homestead : Bool) : Option Nat :=
  let gas := if contractCreation = true ∧ homestead = true then 53000 else 21000
  let nz := data.countP fun byt => decide (byt ≠ 0)
  if (maxUint64 - gas) / 68 < nz then none
  else
    let gas := gas + nz * 68
    let z := data.length - nz
    if (maxUint64 - gas) / 4 < z then none else some (gas + z * 4)

inductive TxError where
  | sender (err : SenderError)
  | errInvalidType
  | errNonceTooHigh
  | errNonceTooLow
  | errInsufficientBalanceForGas
  | errGasLimitReached
  | errOutOfGas
  | errInsufficientBalance
  | nilRecipient
deriving DecidableEq

structure Transition where
  world : World
  gasUsed : Nat
  failed : Bool
  pool : Nat
  suicided : List Address

section
variable (env : Env)

def TxMessage.fee (msg : TxMessage) : Int := msg.gas * msg.gasPrice

/-- The part of `TransitionDb` that runs the message with the gas it has left. -/
def execute (w : World) (msg : TxMessage) (gas : Nat) : RunResult :=
  match msg.recipient with
  | none => create env w msg.sender msg.data gas msg.amount
  | some recipient =>
    call env (w.setNonce msg.sender ((w.getNonce msg.sender + 1) % 2 ^ 64)) msg.sender recipient
      msg.data gas msg.amount

/-- `TransitionDb`.  What is left of the gas goes back to the pool and not to the
sender; the coinbase gets the price of the whole gas limit. -/
def transitionDb (w : World) (msg : TxMessage) (pool : Nat) : Except TxError Transition :=
  if msg.checkNonce = true ∧ w.getNonce msg.sender < msg.nonce then .error .errNonceTooHigh
  else if msg.checkNonce = true ∧ msg.nonce < w.getNonce msg.sender then .error .errNonceTooLow
  else if w.getBalance msg.sender < msg.fee then .error .errInsufficientBalanceForGas
  else if pool < msg.gas then .error .errGasLimitReached
  else
    match intrinsicGas msg.data msg.recipient.isNone (env.config.isHomestead env.number) with
    | none => .error .errOutOfGas
    | some gas =>
      if msg.gas < gas then .error .errOutOfGas
      else
        let result := execute env (w.subBalance msg.sender msg.fee) msg (msg.gas - gas)
        if result.err = some .errInsufficientBalance then .error .errInsufficientBalance
        else
          let refund := min ((msg.gas - result.gas) / 2) result.world.refund
          let left := result.gas + refund
          .ok
            { world := result.world.addBalance env.coinbase msg.fee
              gasUsed := msg.gas - left
              failed := result.err.isSome
              pool := pool - msg.gas + left
              suicided := result.suicided }

/-! ## Transactions -/

/-- The receipt without the fields that are computed from the state: root, logs
and bloom. -/
structure Receipt where
  failed : Bool
  cumulativeGasUsed : Nat
  gasUsed : Nat
  contractAddress : Option Address

structure Applied where
  dc : DposContext
  world : World
  pool : Nat
  receipt : Receipt

/-- The staking step of `ApplyTransaction`, which does not look at the outcome of
the execution. -/
def stakingStep (dc : DposContext) (statedb : StateDB) (msg : TxMessage) :
    Except TxError (DposContext × StateDB) :=
  if msg.txType ≠ .binary ∧ (env.config.dpos = true ∨ env.config.dbft = true) then
    match applyDposMessage env.crypto dc ⟨msg.txType, msg.sender, msg.recipient⟩ statedb
        env.number with
    | (dc, statedb, .applied) => .ok (dc, statedb)
    | (_, _, .errInvalidType) => .error .errInvalidType
    | (_, _, .nilRecipient) => .error .nilRecipient
  else .ok (dc, statedb)

def applyTransaction (dc : DposContext) (w : World) (pool usedGas : Nat) (tx : TxData) :
    Except TxError Applied :=
  match asMessage env.crypto (makeSigner env.config env.number) tx with
  | .error err => .error (.sender err)
  | .ok msg =>
    if msg.recipient = none ∧ msg.txType ≠ .binary then .error .errInvalidType
    else
      match transitionDb env w msg pool with
      | .error err => .error err
      | .ok done =>
        match stakingStep env dc done.world.statedb msg with
        | .error err => .error err
        | .ok (dc, statedb) =>
          .ok
            { dc := dc
              world := { done.world with statedb := statedb }.finalise done.suicided
              pool := done.pool
              receipt :=
                { failed := done.failed
                  cumulativeGasUsed := (usedGas + done.gasUsed) % 2 ^ 64
                  gasUsed := done.gasUsed
                  contractAddress :=
                    if msg.recipient = none then
                      some (createAddress env.crypto msg.sender tx.accountNonce.toNat)
                    else none } }

end

/-! ## Balances -/

section
variable (w : World) (addr : Address)

@[simp] theorem getBalance_addBalance_self (amount : Int) :
    (w.addBalance addr amount).getBalance addr = w.getBalance addr + amount :=
  getBalance_setBalance_self w.statedb addr _

@[simp] theorem getBalance_subBalance_self (amount : Int) :
    (w.subBalance addr amount).getBalance addr = w.getBalance addr - amount :=
  getBalance_setBalance_self w.statedb addr _

variable {addr}

theorem getBalance_addBalance_of_ne {other : Address} (different : other ≠ addr) (amount : Int) :
    (w.addBalance addr amount).getBalance other = w.getBalance other :=
  getBalance_setBalance_of_ne w.statedb different _

@[simp] theorem getBalance_setNonce (other : Address) (nonce : Nat) :
    (w.setNonce addr nonce).getBalance other = w.getBalance other := by
  by_cases own : other = addr
  · subst own
    exact (getBalance_setBalance_self w.statedb other _).trans (Int.add_zero _)
  · exact getBalance_setBalance_of_ne w.statedb own _

theorem getBalance_deleteAccount (other : Address) :
    (w.deleteAccount addr).getBalance other = if addr = other then 0 else w.getBalance other := by
  rw [World.getBalance, World.deleteAccount, StateDB.getBalance, Lib.Maps.getD_erase]
  rfl

theorem getBalance_finalise (suicided : List Address) (other : Address) :
    (w.finalise suicided).getBalance other =
      if other ∈ suicided then 0 else w.getBalance other := by
  change (suicided.foldl World.deleteAccount w).getBalance other = _
  induction suicided generalizing w with
  | nil => simp
  | cons addr rest ih =>
    rw [List.foldl_cons, ih, getBalance_deleteAccount]
    by_cases later : other ∈ rest
    · simp [later]
    · by_cases own : addr = other
      · simp [own]
      · simp [later, own, Ne.symm own]

end

/-! ## What an execution that fails leaves behind -/

section
variable (env : Env)

def initRun (w : World) (caller : Address) (code : Bytes) (gas : Nat) (value : Int) : RunResult :=
  let nonce := w.getNonce caller
  let contractAddr := createAddress env.crypto caller nonce
  env.vm.run
    (prepareCreate env (w.setNonce caller ((nonce + 1) % 2 ^ 64)) caller contractAddr value)
    ⟨caller, contractAddr, value, code, [], gas⟩

def Fresh (w : World) (caller : Address) : Prop :=
  let nonce := w.getNonce caller
  let contractAddr := createAddress env.crypto caller nonce
  (w.setNonce caller ((nonce + 1) % 2 ^ 64)).getNonce contractAddr = 0 ∧
    w.getCode contractAddr = []

/-- The code of a contract that cannot be paid for, before Homestead. -/
structure Unpaid (result : RunResult) : Prop where
  early : env.config.isHomestead env.number = false
  fits : ¬ (env.config.isEIP158 env.number = true ∧ maxCodeSize < result.ret.length)
  unpaid : result.err = some .errCodeStoreOutOfGas ∨
    result.err = none ∧ result.gas < result.ret.length * createDataGas % 2 ^ 64

def Stays (w : World) (caller : Address) (code : Bytes) (gas : Nat) (value : Int) : Prop :=
  Fresh env w caller ∧ Unpaid env (initRun env w caller code gas value)

theorem call_failed {w : World} {caller addr : Address} {input : Bytes} {gas : Nat} {value : Int}
    (failed : (call env w caller addr input gas value).err ≠ none) :
    (call env w caller addr input gas value).world = w ∧
      (call env w caller addr input gas value).suicided = [] := by
  rw [call] at failed ⊢
  by_cases poor : w.getBalance caller < value
  · rw [if_pos poor]
    exact ⟨rfl, rfl⟩
  · rw [if_neg poor] at failed ⊢
    split at failed
    · exact absurd rfl failed
    · rename_i runs
      rw [if_neg runs]
      dsimp only at failed ⊢
      split at failed
      · rename_i succeeded
        exact absurd succeeded failed
      · exact ⟨rfl, rfl⟩

theorem storeCode_of_short {result : RunResult} (contractAddr : Address)
    (short : result.gas < result.ret.length * createDataGas % 2 ^ 64) :
    storeCode result contractAddr = { result with err := some .errCodeStoreOutOfGas } := by
  rw [storeCode, if_neg (not_le.mpr short)]

theorem settleCreate_kept {result : RunResult} (w : World) (contractAddr : Address)
    (unpaid : Unpaid env result) :
    (settleCreate env w contractAddr result).world = result.world ∧
      (settleCreate env w contractAddr result).suicided = result.suicided := by
  obtain ⟨early, fits, outOfGas | ⟨succeeded, short⟩⟩ := unpaid
  · simp [settleCreate, early, fits, outOfGas]
  · simp [settleCreate, early, fits, succeeded, storeCode_of_short contractAddr short]

theorem settleCreate_reverted {result : RunResult} {w : World} {contractAddr : Address}
    (failed : (settleCreate env w contractAddr result).err ≠ none)
    (paid : ¬ Unpaid env result) :
    (settleCreate env w contractAddr result).world = w ∧
      (settleCreate env w contractAddr result).suicided = [] := by
  by_cases tooLong : env.config.isEIP158 env.number = true ∧ maxCodeSize < result.ret.length
  · simp [settleCreate, tooLong]
  · cases outcome : result.err with
    | none =>
      by_cases short : result.gas < result.ret.length * createDataGas % 2 ^ 64
      · cases early : env.config.isHomestead env.number with
        | false => exact absurd ⟨early, tooLong, .inr ⟨outcome, short⟩⟩ paid
        | true =>
          simp [settleCreate, tooLong, outcome, early, storeCode_of_short contractAddr short]
      · have stored : (storeCode result contractAddr).err = none := by
          rw [storeCode, if_pos (not_lt.mp short)]
          exact outcome
        simp [settleCreate, tooLong, outcome, stored] at failed
    | some err =>
      cases early : env.config.isHomestead env.number with
      | false =>
        by_cases outOfGas : err = .errCodeStoreOutOfGas
        · rw [outOfGas] at outcome
          exact absurd ⟨early, tooLong, .inl outcome⟩ paid
        · simp [settleCreate, tooLong, outcome, outOfGas]
      | true => simp [settleCreate, tooLong, outcome, early]

/-- A creation that fails goes back to the state with the nonce raised, unless the
contract stays. -/
theorem create_failed {w : World} {caller : Address} {code : Bytes} {gas : Nat} {value : Int}
    (failed : (create env w caller code gas value).err ≠ none)
    (solvent : (create env w caller code gas value).err ≠ some .errInsufficientBalance) :
    (Stays env w caller code gas value →
      (create env w caller code gas value).world = (initRun env w caller code gas value).world ∧
        (create env w caller code gas value).suicided =
          (initRun env w caller code gas value).suicided) ∧
    (¬ Stays env w caller code gas value →
      (create env w caller code gas value).world =
          w.setNonce caller ((w.getNonce caller + 1) % 2 ^ 64) ∧
        (create env w caller code gas value).suicided = []) := by
  rw [create] at failed solvent ⊢
  by_cases poor : w.getBalance caller < value
  · rw [if_pos poor] at solvent
    exact absurd rfl solvent
  · rw [if_neg poor] at failed ⊢
    dsimp only at failed ⊢
    split at failed
    · rename_i collision
      rw [if_pos collision]
      refine ⟨?_, fun _ => ⟨rfl, rfl⟩⟩
      rintro ⟨fresh, _⟩
      rcases collision with nonce | code
      · exact absurd fresh.1 nonce
      · exact absurd fresh.2 code
    · rename_i fresh
      rw [if_neg fresh]
      rw [not_or, not_not, not_not] at fresh
      refine ⟨fun stays => settleCreate_kept env _ _ stays.2, fun gone => ?_⟩
      apply settleCreate_reverted env failed
      intro unpaid
      exact gone ⟨fresh, unpaid⟩

end

/-! ## What an accepted transaction has gone through -/

section
variable {env : Env} {w : World} {msg : TxMessage} {pool : Nat}

def executionGas (env : Env) (msg : TxMessage) : Nat :=
  msg.gas - (intrinsicGas msg.data msg.recipient.isNone (env.config.isHomestead env.number)).getD 0

def paidRun (env : Env) (w : World) (msg : TxMessage) : RunResult :=
  execute env (w.subBalance msg.sender msg.fee) msg (executionGas env msg)

theorem transitionDb_eq_ok {done : Transition} (passed : transitionDb env w msg pool = .ok done) :
    (paidRun env w msg).err ≠ some .errInsufficientBalance ∧
      done.world = (paidRun env w msg).world.addBalance env.coinbase msg.fee ∧
      done.failed = (paidRun env w msg).err.isSome ∧
      done.suicided = (paidRun env w msg).suicided := by
  rw [transitionDb] at passed
  split_ifs at passed
  rw [paidRun, executionGas]
  cases used : intrinsicGas msg.data msg.recipient.isNone (env.config.isHomestead env.number) with
  | none =>
    rw [used] at passed
    cases passed
  | some gas =>
    rw [used] at passed
    dsimp only at passed ⊢
    split_ifs at passed with low poor
    cases passed
    exact ⟨poor, rfl, rfl, rfl⟩

/-- The two steps of a transaction that is applied, and what they leave. -/
structure Steps (env : Env) (dc : DposContext) (w : World) (pool : Nat) (msg : TxMessage)
    (applied : Applied) (done : Transition) (staked : DposContext × StateDB) : Prop where
  creation : msg.recipient = none → msg.txType = .binary
  transition : transitionDb env w msg pool = .ok done
  staking : stakingStep env dc done.world.statedb msg = .ok staked
  context : applied.dc = staked.1
  world : applied.world = { done.world with statedb := staked.2 }.finalise done.suicided
  failed : applied.receipt.failed = done.failed

theorem applyTransaction_eq_ok {dc : DposContext} {usedGas : Nat} {tx : TxData}
    {applied : Applied}
    (sent : asMessage env.crypto (makeSigner env.config env.number) tx = .ok msg)
    (passed : applyTransaction env dc w pool usedGas tx = .ok applied) :
    ∃ done staked, Steps env dc w pool msg applied done staked := by
  rw [applyTransaction, sent] at passed
  dsimp only at passed
  by_cases invalid : msg.recipient = none ∧ msg.txType ≠ .binary
  · rw [if_pos invalid] at passed
    cases passed
  rw [if_neg invalid] at passed
  have typed : msg.recipient = none → msg.txType = .binary := by
    intro creation
    by_contra other
    exact invalid ⟨creation, other⟩
  cases transition : transitionDb env w msg pool with
  | error err =>
    rw [transition] at passed
    cases passed
  | ok done =>
    rw [transition] at passed
    dsimp only at passed
    cases staking : stakingStep env dc done.world.statedb msg with
    | error err =>
      rw [staking] at passed
      cases passed
    | ok staked =>
      rw [staking] at passed
      cases passed
      exact ⟨done, staked, typed, transition, staking, rfl, rfl, rfl⟩

end

end Linkeye.Core.StateTransition
