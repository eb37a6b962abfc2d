import Linkeye.Core.Journaling
import Linkeye.Core.StateTransition
import Linkeye.Vm.OpCodes

/-!
# What an operation costs

`core/vm/gas.go`, `core/vm/gas_table.go`, `params/gas_table.go` and the records that
the interpreter works on (`core/vm/evm.go`, `core/vm/contract.go`,
`core/vm/interpreter.go`).  The machine is a program that calls the state database;
gas is a 64-bit word.  Additions of gas that the source does not check are noted in an
account, which nothing reads.
-/

set_option autoImplicit false

namespace Linkeye.Vm.Gas

open Common.Types Common.Signature Core.Journaling Lib.Programs LinearMemory OpCodes Words

/-! ## Rules and prices -/

structure Rules where
  isHomestead : Bool
  isEIP150 : Bool
  isEIP158 : Bool
  isByzantium : Bool
  isConstantinople : Bool

structure GasTable where
  extcodeSize : UInt64
  extcodeCopy : UInt64
  balance : UInt64
  sLoad : UInt64
  calls : UInt64
  suicide : UInt64
  expByte : UInt64
  createBySuicide : UInt64

def gasTableHomestead : GasTable := ⟨20, 20, 20, 50, 40, 0, 10, 0⟩

def gasTableEIP150 : GasTable := ⟨700, 700, 400, 200, 700, 5000, 10, 25000⟩

def gasTableEIP158 : GasTable := ⟨700, 700, 400, 200, 700, 5000, 50, 25000⟩

namespace Rules

def gasTable (rules : Rules) : GasTable :=
  if rules.isEIP158 = true then gasTableEIP158
  else if rules.isEIP150 = true then gasTableEIP150
  else gasTableHomestead

def instructionSet (rules : Rules) : InstructionSet :=
  if rules.isConstantinople = true then .constantinople
  else if rules.isByzantium = true then .byzantium
  else if rules.isHomestead = true then .homestead
  else .frontier

end Rules

def callValueTransferGas : UInt64 := 9000
def callNewAccountGas : UInt64 := 25000
def callStipend : UInt64 := 2300
def callCreateDepth : Nat := 1024
def stackLimit : Nat := 1024

/-! ## The machine -/

/-- A precompiled contract; an error is known by a number. -/
structure Precompile where
  requiredGas : Bytes → UInt64
  run : Bytes → Except Nat Bytes

/-- `Context`, the rules and the configuration.  `aborted n` says whether `abort` is set
when it is loaded for the `n`-th time. -/
structure Context where
  rules : Rules
  noRecursion : Bool
  crypto : Crypto
  getHash : UInt64 → Hash
  origin : Address
  gasPrice : Nat
  coinbase : Address
  gasLimit : UInt64
  blockNumber : Nat
  time : Nat
  difficulty : Nat
  precompiledHomestead : Address → Option Precompile
  precompiledByzantium : Address → Option Precompile
  aborted : Nat → Bool

def Context.precompiles (ctx : Context) : Address → Option Precompile :=
  if ctx.rules.isByzantium = true then ctx.precompiledByzantium else ctx.precompiledHomestead

structure Contract where
  callerAddress : Address
  self : Address
  code : Bytes
  codeAddr : Address
  input : Bytes
  gas : UInt64
  value : Nat

/-- An entry of the account of gas. -/
inductive GasEvent where
  /-- `x + y` without a check. -/
  | sum (x y : UInt64)
  /-- The gas of a frame that started with `initial`. -/
  | frame (initial gas : UInt64)

/-- The fields of `EVM` and of its interpreter that change. -/
structure Evm where
  depth : Nat
  readOnly : Bool
  returnData : Bytes
  callGasTemp : UInt64
  loads : Nat
  account : List GasEvent

namespace Evm

def note (evm : Evm) (event : GasEvent) : Evm := { evm with account := event :: evm.account }

/-- `x + y`, with its entry. -/
def addGas (evm : Evm) (x y : UInt64) : UInt64 × Evm := (x + y, evm.note (.sum x y))

end Evm

inductive VmError where
  | errOutOfGas
  | errCodeStoreOutOfGas
  | errDepth
  | errInsufficientBalance
  | errContractAddressCollision
  | errWriteProtection
  | errReturnDataOutOfBounds
  | errExecutionReverted
  | errMaxCodeSizeExceeded
  | errGasUintOverflow
  | invalidOpcode (op : UInt8)
  | stackUnderflow (length required : Nat)
  | stackLimitReached (length : Nat)
  | invalidJump (pos : Nat)
  | precompiled (code : Nat)
deriving DecidableEq

/-- What a frame leaves: `reverts` where it goes back to its snapshot. -/
structure Outcome where
  evm : Evm
  ret : Bytes
  gas : UInt64
  err : Option VmError
  reverts : Bool

/-- `none` where the program has ended. -/
def keeps : Option Outcome → Bool
  | some out => !out.reverts
  | none => true

abbrev Action := Prog stateInterface (Option Outcome)

def ask (c : Call) : Action c.Answer := Prog.ask (I := stateInterface) c

/-! ## Gas functions -/

/-- A price, `none` for an error, with the machine and the memory after it is asked. -/
structure Charge where
  cost : Option UInt64
  evm : Evm
  mem : Memory

def Charge.plus (charge : Charge) (amount : Option UInt64) : Charge :=
  { charge with
    cost := match charge.cost, amount with
      | some x, some y => safeAdd x y
      | _, _ => none }

/-- The price of memory; the last one is kept in the memory. -/
def memoryGasCost (evm : Evm) (mem : Memory) (newMemSize : UInt64) : Charge :=
  if newMemSize = 0 then ⟨some 0, evm, mem⟩
  else if maxMemSize < newMemSize then ⟨none, evm, mem⟩
  else
    let newMemSizeWords := toWordSize newMemSize
    let newMemSize := newMemSizeWords * 32
    if mem.store.length < newMemSize.toNat then
      let square := newMemSizeWords * newMemSizeWords
      let linCoef := newMemSizeWords * 3
      let quadCoef := square / 512
      let newTotalFee := evm.addGas linCoef quadCoef
      ⟨some (newTotalFee.1 - mem.lastGasCost), newTotalFee.2,
        { mem with lastGasCost := newTotalFee.1 }⟩
    else ⟨some 0, evm, mem⟩

def gasMemory (base : UInt64) (evm : Evm) (mem : Memory) (size : UInt64) : Charge :=
  (memoryGasCost evm mem size).plus (some base)

/-- The memory, a fixed price and a price for each word of the data. -/
def gasCopy (base perWord : UInt64) (length : Nat) (evm : Evm) (mem : Memory) (size : UInt64) :
    Charge :=
  (gasMemory base evm mem size).plus
    ((bigUint64 length).bind fun words => safeMul (toWordSize words) perWord)

def gasLog (n : Nat) (length : Nat) (evm : Evm) (mem : Memory) (size : UInt64) : Charge :=
  ((gasMemory 375 evm mem size).plus (some (UInt64.ofNat n * 375))).plus
    ((bigUint64 length).bind fun requestedSize => safeMul requestedSize 8)

def gasExp (gt : GasTable) (exponent : Nat) : Option UInt64 :=
  safeAdd (UInt64.ofNat ((exponent.size + 7) / 8) * gt.expByte) 10

/-- `callGas`: what is left of the available gas may wrap around; then the whole price is
more than the contract has. -/
def callGas (gt : GasTable) (availableGas base : UInt64) (callCost : Nat) : Option UInt64 :=
  let available := availableGas - base
  let gas := available - available / 64
  if 0 < gt.createBySuicide ∧ (2 ^ 64 ≤ callCost ∨ gas < uint64 callCost) then some gas
  else bigUint64 callCost

/-- The end of the gas functions of calls: the gas to hand on goes to `callGasTemp`. -/
def chargeCall (gt : GasTable) (contract : Contract) (callCost : Nat) (charge : Charge) : Charge :=
  match charge.cost with
  | none => charge
  | some base =>
    match callGas gt contract.gas base callCost with
    | none => { charge with cost := none }
    | some gas =>
      { charge with cost := safeAdd base gas, evm := { charge.evm with callGasTemp := gas } }

section
variable (ctx : Context) (evm : Evm) (contract : Contract) (stack : List Nat) (mem : Memory)
  (size : UInt64)

/-- The price of a transfer, added without a check. -/
def addIf (cond : Bool) (amount : UInt64) (gas : UInt64 × Evm) : UInt64 × Evm :=
  if cond = true then gas.2.addGas gas.1 amount else gas

/-- `gasCall`; `missing` is what `Empty` or `Exist` has said. -/
def gasCallOf (missing : Bool) : Charge :=
  let transfersValue := decide (back stack 2 ≠ 0)
  let newAccount := if ctx.rules.isEIP158 = true then transfersValue && missing else missing
  let gas := addIf newAccount callNewAccountGas (ctx.rules.gasTable.calls, evm)
  let gas := addIf transfersValue callValueTransferGas gas
  chargeCall ctx.rules.gasTable contract (back stack 0)
    ((memoryGasCost gas.2 mem size).plus (some gas.1))

def gasCall : Action Charge := do
  let address := bigToAddress (back stack 1)
  if ctx.rules.isEIP158 = true then
    -- the state is not asked where no value is transferred
    if back stack 2 ≠ 0 then
      let missing ← ask (.empty address)
      return gasCallOf ctx evm contract stack mem size missing
    else return gasCallOf ctx evm contract stack mem size false
  else
    let there ← ask (.exist address)
    return gasCallOf ctx evm contract stack mem size !there

def gasCallCode : Charge :=
  let gas := addIf (decide (back stack 2 ≠ 0)) callValueTransferGas (ctx.rules.gasTable.calls, evm)
  chargeCall ctx.rules.gasTable contract (back stack 0)
    ((memoryGasCost gas.2 mem size).plus (some gas.1))

/-- `gasDelegateCall` and `gasStaticCall`. -/
def gasPlainCall : Charge :=
  chargeCall ctx.rules.gasTable contract (back stack 0)
    ((memoryGasCost evm mem size).plus (some ctx.rules.gasTable.calls))

def gasSStore : Action Charge := do
  let val ← ask (.getState contract.self (bigToHash (back stack 0)))
  let y := bigToHash (back stack 1)
  if emptyHash val = true ∧ emptyHash y = false then return ⟨some 20000, evm, mem⟩
  else if emptyHash val = false ∧ emptyHash y = true then
    let _ ← ask (.addRefund 15000)
    return ⟨some 5000, evm, mem⟩
  else return ⟨some 5000, evm, mem⟩

/-- What `gasSuicide` adds for a new account. -/
def suicideGas : Action (UInt64 × Evm) := do
  let gt := ctx.rules.gasTable
  let address := bigToAddress (back stack 0)
  if ctx.rules.isEIP150 = true then
    if ctx.rules.isEIP158 = true then
      let missing ← ask (.empty address)
      if missing = true then
        let balance ← ask (.getBalance contract.self)
        return addIf (decide (balance ≠ 0)) gt.createBySuicide (gt.suicide, evm)
      else return (gt.suicide, evm)
    else
      let there ← ask (.exist address)
      return addIf (!there) gt.createBySuicide (gt.suicide, evm)
  else return (0, evm)

def gasSuicide : Action Charge := do
  let gas ← suicideGas ctx evm contract stack
  let suicided ← ask (.hasSuicided contract.self)
  if suicided = false then
    let _ ← ask (.addRefund 24000)
    return ⟨some gas.1, gas.2, mem⟩
  else return ⟨some gas.1, gas.2, mem⟩

/-- The operations with a fixed price. -/
def constGas (gt : GasTable) : OpCode → UInt64
  | .STOP => 0
  | .ADD | .SUB | .LT | .GT | .SLT | .SGT | .EQ | .ISZERO | .AND | .XOR | .OR | .NOT | .BYTE
  | .SHL | .SHR | .SAR | .CALLDATALOAD | .PUSH _ | .DUP _ | .SWAP _ => 3
  | .MUL | .DIV | .SDIV | .MOD | .SMOD | .SIGNEXTEND => 5
  | .ADDMOD | .MULMOD | .JUMP => 8
  | .JUMPI => 10
  | .BLOCKHASH => 20
  | .BALANCE => gt.balance
  | .EXTCODESIZE => gt.extcodeSize
  | .SLOAD => gt.sLoad
  | .JUMPDEST => 1
  | _ => 2

/-- `gasCost` of an operation, with the memory size it asks for. -/
def gasCost : OpCode → Action Charge
  | .EXP => return ⟨gasExp ctx.rules.gasTable (back stack 1), evm, mem⟩
  | .SHA3 => return gasCopy 30 6 (back stack 1) evm mem size
  | .CALLDATACOPY | .CODECOPY | .RETURNDATACOPY =>
    return gasCopy 3 3 (back stack 2) evm mem size
  | .EXTCODECOPY =>
    return gasCopy ctx.rules.gasTable.extcodeCopy 3 (back stack 3) evm mem size
  | .MLOAD | .MSTORE | .MSTORE8 => return gasMemory 3 evm mem size
  | .SSTORE => gasSStore evm contract stack mem
  | .LOG n => return gasLog n (back stack 1) evm mem size
  | .CREATE => return gasMemory 32000 evm mem size
  | .CALL => gasCall ctx evm contract stack mem size
  | .CALLCODE => return gasCallCode ctx evm contract stack mem size
  | .DELEGATECALL | .STATICCALL => return gasPlainCall ctx evm contract stack mem size
  | .RETURN | .REVERT => return memoryGasCost evm mem size
  | .SELFDESTRUCT => gasSuicide ctx evm contract stack mem
  | op => return ⟨some (constGas ctx.rules.gasTable op), evm, mem⟩

end

end Linkeye.Vm.Gas
