import Linkeye.Vm.Instructions

/-!
# Calls, creations and the interpreter

`core/vm/evm.go`, `core/vm/interpreter.go` and the instructions of
`core/vm/instructions.go` that use the state or start another frame.  The interpreter
that runs a nested frame is a parameter of the calls; `interpreterRun` ties the knot.
Gas bounds the rounds of a frame and the depth limit the nesting, so both are counted
down: `none` stands for running out of either, and for the end of the program.
-/

set_option autoImplicit false

namespace Linkeye.Vm.Interpreter

open Common.Types Core.Journaling
open Core.StateTransition (createAddress maxCodeSize)
open Lib.Programs Gas Instructions LinearMemory OpCodes Words

/-! ## Frames -/

/-- What `Run` gives, with the gas that the contract has left. -/
structure RunOut where
  evm : Evm
  ret : Bytes
  gas : UInt64
  err : Option VmError

abbrev Runner := Evm → Contract → Bytes → Action (Option RunOut)

def useGas (contract : Contract) (gas : UInt64) : Option Contract :=
  if contract.gas < gas then none else some { contract with gas := contract.gas - gas }

def runPrecompiledContract (p : Precompile) (input : Bytes) (evm : Evm) (contract : Contract) :
    RunOut :=
  match useGas contract (p.requiredGas input) with
  | none => ⟨evm, [], contract.gas, some .errOutOfGas⟩
  | some contract =>
    match p.run input with
    | .ok ret => ⟨evm, ret, contract.gas, none⟩
    | .error code => ⟨evm, [], contract.gas, some (.precompiled code)⟩

/-- After an error the frame goes back to its snapshot, and all gas is used unless it
was a revert. -/
def settle (out : RunOut) : Outcome :=
  match out.err with
  | none => ⟨out.evm, out.ret, out.gas, none, false⟩
  | some err =>
    ⟨out.evm, out.ret, if err = .errExecutionReverted then out.gas else 0, some err, true⟩

/-- A return before any frame is made. -/
def early (evm : Evm) (gas : UInt64) (err : Option VmError) : Option Outcome :=
  some ⟨evm, [], gas, err, false⟩

section
variable (ctx : Context) (interp : Runner)

def run (evm : Evm) (contract : Contract) (input : Bytes) : Action (Option RunOut) :=
  match ctx.precompiles contract.codeAddr with
  | some p => pure (some (runPrecompiledContract p input evm contract))
  | none => interp evm contract input

/-- The code of an account is run in a frame. -/
def runCode (evm : Evm) (addr : Address) (input : Bytes) (contract : Bytes → Contract) :
    Action (Option Outcome) := do
  let code ← ask (.getCode addr)
  let out ← run ctx interp evm (contract code) input
  return out.map settle

def transfer (sender recipient : Address) (amount : Nat) : Action Unit := do
  let _ ← ask (.subBalance sender amount)
  let _ ← ask (.addBalance recipient amount)
  return ()

def callFrame (evm : Evm) (caller addr : Address) (input : Bytes) (gas : UInt64) (value : Nat) :
    Action (Option Outcome) := do
  let there ← ask (.exist addr)
  if there = true then
    transfer caller addr value
    runCode ctx interp evm addr input fun code => ⟨caller, addr, code, addr, [], gas, value⟩
  else if (ctx.precompiles addr).isNone = true ∧ ctx.rules.isEIP158 = true ∧ value = 0 then
    return early evm gas none
  else
    let _ ← ask (.createAccount addr)
    transfer caller addr value
    runCode ctx interp evm addr input fun code => ⟨caller, addr, code, addr, [], gas, value⟩

def call (evm : Evm) (caller addr : Address) (input : Bytes) (gas : UInt64) (value : Nat) :
    Action (Option Outcome) :=
  if ctx.noRecursion = true ∧ 0 < evm.depth then return early evm gas none
  else if callCreateDepth < evm.depth then return early evm gas (some .errDepth)
  else do
    let balance ← ask (.getBalance caller)
    if balance < (value : Int) then return early evm gas (some .errInsufficientBalance)
    else Prog.within (callFrame ctx interp evm caller addr input gas value)

def callCode (evm : Evm) (caller addr : Address) (input : Bytes) (gas : UInt64) (value : Nat) :
    Action (Option Outcome) :=
  if ctx.noRecursion = true ∧ 0 < evm.depth then return early evm gas none
  else if callCreateDepth < evm.depth then return early evm gas (some .errDepth)
  else do
    let balance ← ask (.getBalance caller)
    if balance < (value : Int) then return early evm gas (some .errInsufficientBalance)
    else
      Prog.within (runCode ctx interp evm addr input fun code =>
        ⟨caller, caller, code, addr, [], gas, value⟩)

/-- `DelegateCall`: the caller and the value are those of the calling contract. -/
def delegateCall (evm : Evm) (parent : Contract) (addr : Address) (input : Bytes) (gas : UInt64) :
    Action (Option Outcome) :=
  if ctx.noRecursion = true ∧ 0 < evm.depth then return early evm gas none
  else if callCreateDepth < evm.depth then return early evm gas (some .errDepth)
  else
    Prog.within (runCode ctx interp evm addr input fun code =>
      ⟨parent.callerAddress, parent.self, code, addr, [], gas, parent.value⟩)

/-- The deferred function of `StaticCall`: the flag goes back if it was set here. -/
def resetReadOnly (before : Evm) (out : Outcome) : Outcome :=
  if before.readOnly = true then out else { out with evm := { out.evm with readOnly := false } }

def staticCall (evm : Evm) (caller addr : Address) (input : Bytes) (gas : UInt64) :
    Action (Option Outcome) :=
  if ctx.noRecursion = true ∧ 0 < evm.depth then return early evm gas none
  else if callCreateDepth < evm.depth then return early evm gas (some .errDepth)
  else do
    let out ← Prog.within (runCode ctx interp { evm with readOnly := true } addr input fun code =>
      ⟨caller, addr, code, addr, [], gas, 0⟩)
    return out.map (resetReadOnly evm)

/-- The end of `Create`: the code is paid for and stored. -/
def storeCode (contractAddr : Address) (out : RunOut) : Action Outcome := do
  let maxCodeSizeExceeded := ctx.rules.isEIP158 = true ∧ maxCodeSize < out.ret.length
  let createDataGas := UInt64.ofNat out.ret.length * 200
  if maxCodeSizeExceeded then
    -- the size is an error of its own only where there is no other
    return ⟨out.evm, out.ret, if out.err = some .errExecutionReverted then out.gas else 0,
      some (out.err.getD .errMaxCodeSizeExceeded), true⟩
  else if out.err ≠ none then return settle out
  else if createDataGas ≤ out.gas then
    let _ ← ask (.setCode contractAddr out.ret)
    return ⟨out.evm, out.ret, out.gas - createDataGas, none, false⟩
  else if ctx.rules.isHomestead = true then
    return ⟨out.evm, out.ret, 0, some .errCodeStoreOutOfGas, true⟩
  else return ⟨out.evm, out.ret, out.gas, some .errCodeStoreOutOfGas, false⟩

/-- The account of a new contract, with the value that it gets. -/
def prepareContract (caller contractAddr : Address) (value : Nat) : Action Unit := do
  let _ ← ask (.createAccount contractAddr)
  if ctx.rules.isEIP158 = true then
    let _ ← ask (.setNonce contractAddr 1)
    transfer caller contractAddr value
  else transfer caller contractAddr value

def createFrame (evm : Evm) (caller contractAddr : Address) (code : Bytes) (gas : UInt64)
    (value : Nat) : Action (Option Outcome) := do
  prepareContract ctx caller contractAddr value
  if ctx.noRecursion = true ∧ 0 < evm.depth then return early evm gas none
  else
    let out ← run ctx interp evm ⟨caller, contractAddr, code, contractAddr, [], gas, value⟩ []
    match out with
    | none => return none
    | some out =>
      let stored ← storeCode ctx contractAddr out
      return some stored

/-- `Create`, with the address of the contract. -/
def create (evm : Evm) (caller : Address) (code : Bytes) (gas : UInt64) (value : Nat) :
    Action (Option Outcome × Address) :=
  if callCreateDepth < evm.depth then return (early evm gas (some .errDepth), zeroAddress)
  else do
    let balance ← ask (.getBalance caller)
    if balance < (value : Int) then
      return (early evm gas (some .errInsufficientBalance), zeroAddress)
    else
      let nonce ← ask (.getNonce caller)
      let _ ← ask (.setNonce caller ((nonce + 1) % 2 ^ 64))
      let contractAddr := createAddress ctx.crypto caller nonce
      let contractCode ← ask (.getCode contractAddr)
      let contractNonce ← ask (.getNonce contractAddr)
      if contractNonce ≠ 0 ∨ contractCode ≠ [] then
        return (early evm 0 (some .errContractAddressCollision), zeroAddress)
      else
        let out ← Prog.within (createFrame ctx interp evm caller contractAddr code gas value)
        return (out, contractAddr)

end

/-! ## Instructions with the state -/

structure Frame where
  contract : Contract
  scope : Scope

structure Executed where
  evm : Evm
  frame : Frame
  res : Bytes
  err : Option VmError

/-- An effect within the frame. -/
def Frame.after (frame : Frame) (evm : Evm) (effect : Effect) : Executed :=
  ⟨evm, { frame with scope := effect.scope }, effect.res, effect.err⟩

/-- The gas that a nested frame gives back is added without a check. -/
def Frame.refund (frame : Frame) (evm : Evm) (gas : UInt64) : Evm × Contract :=
  let sum := evm.addGas frame.contract.gas gas
  (sum.2, { frame.contract with gas := sum.1 })

section
variable (ctx : Context) (interp : Runner) (evm : Evm) (frame : Frame)

def opBalance : Action (Option Executed) :=
  match frame.scope.stack with
  | slot :: rest => do
      let balance ← ask (.getBalance (bigToAddress slot))
      return some (frame.after evm (withStack frame.scope (balance.toNat :: rest)))
  | _ => return none

def opExtCodeSize : Action (Option Executed) :=
  match frame.scope.stack with
  | slot :: rest => do
      let code ← ask (.getCode (bigToAddress slot))
      return some (frame.after evm (withStack frame.scope (code.length :: rest)))
  | _ => return none

def opExtCodeCopy : Action (Option Executed) :=
  match frame.scope.stack with
  | addr :: rest => do
      let code ← ask (.getCode (bigToAddress addr))
      return (opCopy code rest frame.scope).map (frame.after evm)
  | _ => return none

def opSload : Action (Option Executed) :=
  match frame.scope.stack with
  | loc :: rest => do
      let val ← ask (.getState frame.contract.self (bigToHash loc))
      return some (frame.after evm (withStack frame.scope (bigSetBytes val.data :: rest)))
  | _ => return none

def opSstore : Action (Option Executed) :=
  match frame.scope.stack with
  | loc :: val :: rest => do
      let _ ← ask (.setState frame.contract.self (bigToHash loc) (bigToHash val))
      return some (frame.after evm (withStack frame.scope rest))
  | _ => return none

def opSuicide : Action (Option Executed) :=
  match frame.scope.stack with
  | beneficiary :: rest => do
      let balance ← ask (.getBalance frame.contract.self)
      let _ ← ask (.addBalance (bigToAddress beneficiary) balance)
      let _ ← ask (.suicide frame.contract.self)
      return some (frame.after evm (withStack frame.scope rest))
  | _ => return none

def opLog (size : Nat) : Action (Option Executed) :=
  match frame.scope.stack with
  | mStart :: mSize :: rest =>
    match frame.scope.mem.get (int64 mStart) (int64 mSize) with
    | none => return none
    | some d => do
        let topics := (rest.take size).map bigToHash
        let _ ← ask (.addLog ⟨frame.contract.self, topics, d, uint64 ctx.blockNumber⟩)
        return some (frame.after evm (withStack frame.scope (rest.drop size)))
  | _ => return none

/-! ## Instructions with another frame -/

/-- What the instruction that makes a contract pushes. -/
def createdItem (err : Option VmError) (addr : Address) : Nat :=
  if ctx.rules.isHomestead = true ∧ err = some .errCodeStoreOutOfGas then 0
  else if err ≠ none ∧ err ≠ some .errCodeStoreOutOfGas then 0
  else bigSetBytes addr.data

def finishCreate (rest : List Nat) (addr : Address) (out : Outcome) : Executed :=
  let refunded := frame.refund out.evm out.gas
  ⟨refunded.1,
    ⟨refunded.2, { frame.scope with stack := createdItem ctx out.err addr :: rest }⟩,
    if out.err = some .errExecutionReverted then out.ret else [], none⟩

/-- All gas but one 64th goes to the new contract. -/
def createGas (gas : UInt64) : UInt64 := if ctx.rules.isEIP150 = true then gas - gas / 64 else gas

def opCreate : Action (Option Executed) :=
  match frame.scope.stack with
  | value :: offset :: size :: rest =>
    match frame.scope.mem.get (int64 offset) (int64 size) with
    | none => return none
    | some input => do
        let gas := createGas ctx frame.contract.gas
        let paid := { frame with
          contract := { frame.contract with gas := frame.contract.gas - gas } }
        let made ← create ctx interp evm frame.contract.self input gas value
        return made.1.map (finishCreate ctx paid rest made.2)
  | _ => return none

/-- The end of the four call instructions. -/
def finishCall (retOffset retSize : Nat) (rest : List Nat) (out : Outcome) : Option Executed :=
  let mem := if out.err = none ∨ out.err = some .errExecutionReverted then
      frame.scope.mem.set (uint64 retOffset) (uint64 retSize) out.ret
    else some frame.scope.mem
  mem.map fun mem =>
    let refunded := frame.refund out.evm out.gas
    ⟨refunded.1,
      ⟨refunded.2,
        { frame.scope with stack := bool (decide (out.err = none)) :: rest, mem := mem }⟩,
      out.ret, none⟩

/-- The gas of a call with a value, which has the stipend on top. -/
def stipended (value : Nat) : UInt64 × Evm :=
  addIf (decide (value ≠ 0)) callStipend (evm.callGasTemp, evm)

/-- The instructions whose calls carry a value. -/
def callWithValue (call : Evm → Address → Bytes → UInt64 → Nat → Action (Option Outcome)) :
    Action (Option Executed) :=
  match frame.scope.stack with
  | _ :: addr :: value :: inOffset :: inSize :: retOffset :: retSize :: rest =>
    match frame.scope.mem.get (int64 inOffset) (int64 inSize) with
    | none => return none
    | some args => do
        let value := u256 value
        let gas := stipended evm value
        let out ← call gas.2 (bigToAddress addr) args gas.1 value
        return out.bind (finishCall frame retOffset retSize rest)
  | _ => return none

def opCall : Action (Option Executed) :=
  callWithValue evm frame fun evm addr => call ctx interp evm frame.contract.self addr

def opCallCode : Action (Option Executed) :=
  callWithValue evm frame fun evm addr => callCode ctx interp evm frame.contract.self addr

/-- The instructions whose calls carry none. -/
def callWithoutValue (call : Address → Bytes → UInt64 → Action (Option Outcome)) :
    Action (Option Executed) :=
  match frame.scope.stack with
  | _ :: addr :: inOffset :: inSize :: retOffset :: retSize :: rest =>
    match frame.scope.mem.get (int64 inOffset) (int64 inSize) with
    | none => return none
    | some args => do
        let out ← call (bigToAddress addr) args evm.callGasTemp
        return out.bind (finishCall frame retOffset retSize rest)
  | _ => return none

def opDelegateCall : Action (Option Executed) :=
  callWithoutValue evm frame (delegateCall ctx interp evm frame.contract)

def opStaticCall : Action (Option Executed) :=
  callWithoutValue evm frame (staticCall ctx interp evm frame.contract.self)

def execute : OpCode → Action (Option Executed)
  | .BALANCE => opBalance evm frame
  | .EXTCODESIZE => opExtCodeSize evm frame
  | .EXTCODECOPY => opExtCodeCopy evm frame
  | .SLOAD => opSload evm frame
  | .SSTORE => opSstore evm frame
  | .LOG n => opLog ctx evm frame n
  | .SELFDESTRUCT => opSuicide evm frame
  | .CREATE => opCreate ctx interp evm frame
  | .CALL => opCall ctx interp evm frame
  | .CALLCODE => opCallCode ctx interp evm frame
  | .DELEGATECALL => opDelegateCall ctx interp evm frame
  | .STATICCALL => opStaticCall ctx interp evm frame
  | op => return (executeLocal ctx evm frame.contract frame.scope op).map (frame.after evm)

end

/-! ## The interpreter -/

/-- How one round of `Run` ends. -/
inductive Step where
  | halt (out : RunOut)
  | next (evm : Evm) (frame : Frame)

section
variable (ctx : Context)

/-- `enforceRestrictions` finds a write. -/
def restricted (evm : Evm) (stack : List Nat) (op : OpCode) : Bool :=
  ctx.rules.isByzantium && evm.readOnly &&
    ((operation op).writes || decide (op = .CALL ∧ back stack 2 ≠ 0))

/-- The memory size in whole words; `none` for an overflow. -/
def requestedMemory (stack : List Nat) (op : OpCode) : Option UInt64 :=
  match memorySize stack op with
  | none => some 0
  | some size => (bigUint64 size).bind fun memSize => safeMul (toWordSize memSize) 32

/-- What is checked before an operation is paid for. -/
def precheck (evm : Evm) (stack : List Nat) (op : OpCode) : Except VmError UInt64 :=
  if stack.length < (operation op).pops then
    .error (.stackUnderflow stack.length (operation op).pops)
  else if stackLimit < stack.length + (operation op).pushes - (operation op).pops then
    .error (.stackLimitReached stack.length)
  else if restricted ctx evm stack op = true then .error .errWriteProtection
  else
    match requestedMemory stack op with
    | none => .error .errGasUintOverflow
    | some size => .ok size

/-- What `Run` does with what an operation has given. -/
def conclude (op : OpCode) (done : Executed) : Step :=
  let evm := if (operation op).returns = true then { done.evm with returnData := done.res }
    else done.evm
  let gas := done.frame.contract.gas
  match done.err with
  | some err => .halt ⟨evm, [], gas, some err⟩
  | none =>
    if (operation op).reverts = true then .halt ⟨evm, done.res, gas, some .errExecutionReverted⟩
    else if (operation op).halts = true then .halt ⟨evm, done.res, gas, none⟩
    else if (operation op).jumps = true then .next evm done.frame
    else
      .next evm { done.frame with
        scope := { done.frame.scope with pc := done.frame.scope.pc + 1 } }

def payAndExecute (interp : Runner) (op : OpCode) (size : UInt64) (evm : Evm) (frame : Frame) :
    Action (Option Step) := do
  let charge ← gasCost ctx evm frame.contract frame.scope.stack frame.scope.mem size op
  match charge.cost.bind (useGas frame.contract) with
  | none => return some (.halt ⟨charge.evm, [], frame.contract.gas, some .errOutOfGas⟩)
  | some contract =>
    let done ← execute ctx interp charge.evm
      ⟨contract, { frame.scope with mem := charge.mem.resize size }⟩ op
    return done.map (conclude op)

def step (interp : Runner) (evm : Evm) (frame : Frame) : Action (Option Step) :=
  let byte := frame.contract.code.getD frame.scope.pc.toNat 0
  match (ofByte byte).filter ctx.rules.instructionSet.valid with
  | none => return some (.halt ⟨evm, [], frame.contract.gas, some (.invalidOpcode byte)⟩)
  | some op =>
    match precheck ctx evm frame.scope.stack op with
    | .error err => return some (.halt ⟨evm, [], frame.contract.gas, some err⟩)
    | .ok size => payAndExecute ctx interp op size evm frame

/-- The loop of `Run`, for at most so many rounds.  The gas of the frame is noted in
each round and at its end. -/
def loop (interp : Runner) (initial : UInt64) : Nat → Evm → Frame → Action (Option RunOut)
  | 0, _, _ => return none
  | rounds + 1, evm, frame =>
    let noted := { evm.note (.frame initial frame.contract.gas) with loads := evm.loads + 1 }
    if ctx.aborted evm.loads = true then return some ⟨noted, [], frame.contract.gas, none⟩
    else do
      let stepped ← step ctx interp noted frame
      match stepped with
      | none => return none
      | some (.halt out) => return some { out with evm := out.evm.note (.frame initial out.gas) }
      | some (.next evm frame) => loop interp initial rounds evm frame

/-- `Interpreter.Run` with a bound on the nesting. -/
def interpreterRun : Nat → Runner
  | 0, _, _, _ => return none
  | nesting + 1, evm, contract, input =>
    if contract.code = [] then return some ⟨{ evm with returnData := [] }, [], contract.gas, none⟩
    else do
      let out ← loop ctx (interpreterRun nesting) contract.gas (contract.gas.toNat + 1)
        { evm with depth := evm.depth + 1, returnData := [] }
        ⟨{ contract with input := input }, ⟨[], Memory.new, 0⟩⟩
      return out.map fun out => { out with evm := { out.evm with depth := out.evm.depth - 1 } }

/-- `Run` of a machine at any depth. -/
def interpreter : Runner := fun evm contract input =>
  interpreterRun ctx (callCreateDepth + 2 - evm.depth) evm contract input

end

end Linkeye.Vm.Interpreter
