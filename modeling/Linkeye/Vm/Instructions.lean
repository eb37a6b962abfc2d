import Linkeye.Vm.Gas

/-!
# Instructions that stay in their frame

`core/vm/instructions.go` and `core/vm/analysis.go`: the instructions that change only
the stack, the memory and the program counter of a frame.  Too short a stack or a slice
out of range ends the program: `none`.
-/

set_option autoImplicit false

namespace Linkeye.Vm.Instructions

open Common.Types Gas LinearMemory OpCodes Words

/-! ## Jump destinations -/

/-- A bit for each byte of code, the most significant first; set for data. -/
abbrev BitVector := List UInt8

def BitVector.set (bits : BitVector) (pos : Nat) : BitVector :=
  bits.modify (pos / 8) fun byte => byte ||| (0x80 >>> UInt8.ofNat (pos % 8))

/-- The eight bits from a position on. -/
def BitVector.set8 (bits : BitVector) (pos : Nat) : BitVector :=
  let first : UInt8 := 0xff >>> UInt8.ofNat (pos % 8)
  (bits.modify (pos / 8) fun byte => byte ||| first).modify (pos / 8 + 1) fun byte =>
    byte ||| (first ^^^ 0xff)

def BitVector.codeSegment (bits : BitVector) (pos : Nat) : Bool :=
  bits.getD (pos / 8) 0 &&& (0x80 >>> UInt8.ofNat (pos % 8)) == 0

/-- Marks `numbits` positions of data. -/
def markData (bits : BitVector) (pc : Nat) (numbits : Nat) : BitVector :=
  let eights := (List.range (numbits / 8)).foldl (fun bits i => bits.set8 (pc + 8 * i)) bits
  (List.range (numbits % 8)).foldl (fun bits i => bits.set (pc + 8 * (numbits / 8) + i)) eights

/-- The loop of `codeBitmap` over what is left of the code at `pc`. -/
def codeBitmapFrom : Nat → Bytes → Nat → BitVector → BitVector
  | 0, _, _, bits => bits
  | rounds + 1, code, pc, bits =>
    match code[pc]? with
    | none => bits
    | some op =>
      if 0x60 ≤ op ∧ op ≤ 0x7f then
        let numbits := op.toNat - 0x60 + 1
        codeBitmapFrom rounds code (pc + 1 + numbits) (markData bits (pc + 1) numbits)
      else codeBitmapFrom rounds code (pc + 1) bits

def codeBitmap (code : Bytes) : BitVector :=
  codeBitmapFrom code.length code 0 (List.replicate (code.length / 8 + 1 + 4) 0)

/-- `destinations.has`, with the bitmap made anew. -/
def hasDestination (code : Bytes) (dest : Nat) : Bool :=
  if 2 ^ 62 ≤ dest ∨ code.length ≤ dest then false
  else code.getD dest 0 == 0x5b && (codeBitmap code).codeSegment dest

/-! ## The stack -/

/-- Instructions by how many items they take for the one that they leave. -/
def nullary (x : Nat) (stack : List Nat) : Option (List Nat) := some (x :: stack)

def unary (f : Nat → Nat) : List Nat → Option (List Nat)
  | x :: rest => some (f x :: rest)
  | _ => none

def binary (f : Nat → Nat → Nat) : List Nat → Option (List Nat)
  | x :: y :: rest => some (f x y :: rest)
  | _ => none

def ternary (f : Nat → Nat → Nat → Nat) : List Nat → Option (List Nat)
  | x :: y :: z :: rest => some (f x y z :: rest)
  | _ => none

def opPop : List Nat → Option (List Nat)
  | _ :: rest => some rest
  | _ => none

/-- `makeDup`: the item at a depth is pushed. -/
def opDup (n : Nat) (stack : List Nat) : Option (List Nat) :=
  (stack[n]?).map fun x => x :: stack

/-- `makeSwap`: the top is exchanged with the item below it at a depth. -/
def opSwap (n : Nat) (stack : List Nat) : Option (List Nat) :=
  match stack[0]?, stack[n + 1]? with
  | some top, some other => some ((stack.set 0 other).set (n + 1) top)
  | _, _ => none

variable {stack : List Nat}

theorem unary_isSome (f : Nat → Nat) (enough : 1 ≤ stack.length) :
    (unary f stack).isSome = true := by
  match stack, enough with
  | x :: rest, _ => rfl

theorem binary_isSome (f : Nat → Nat → Nat) (enough : 2 ≤ stack.length) :
    (binary f stack).isSome = true := by
  match stack, enough with
  | x :: y :: rest, _ => rfl

theorem ternary_isSome (f : Nat → Nat → Nat → Nat)
    (enough : 3 ≤ stack.length) : (ternary f stack).isSome = true := by
  match stack, enough with
  | x :: y :: z :: rest, _ => rfl

theorem opPop_isSome (enough : 1 ≤ stack.length) :
    (opPop stack).isSome = true := by
  match stack, enough with
  | x :: rest, _ => rfl

theorem opDup_isSome {n : Nat} (enough : n + 1 ≤ stack.length) :
    (opDup n stack).isSome = true := by
  rw [opDup, Option.isSome_map, List.getElem?_eq_getElem enough]
  rfl

theorem opSwap_isSome {n : Nat} (enough : n + 2 ≤ stack.length) :
    (opSwap n stack).isSome = true := by
  rw [opSwap, List.getElem?_eq_getElem (show 0 < stack.length by omega),
    List.getElem?_eq_getElem (show n + 1 < stack.length by omega)]
  rfl

/-! ## Frames -/

/-- The local variables of `Run`. -/
structure Scope where
  stack : List Nat
  mem : Memory
  pc : UInt64

/-- What an instruction gives: the bytes and the error of `execute`. -/
structure Effect where
  scope : Scope
  res : Bytes
  err : Option VmError

section
variable (ctx : Context) (evm : Evm) (contract : Contract)

/-- The bytes after a `PUSH`, with zeros past the end of the code. -/
def pushValue (code : Bytes) (pc : UInt64) (size : Nat) : Nat :=
  let startMin := min (pc + 1).toNat code.length
  let data := (code.drop startMin).take size
  bigSetBytes (data ++ List.replicate (size - data.length) 0)

def opBlockhash (num : Nat) : Nat :=
  if (ctx.blockNumber : Int) - 257 < num ∧ num < ctx.blockNumber then
    bigSetBytes (ctx.getHash (uint64 num)).data
  else 0

/-- The instructions that only change the stack. -/
def stackOp (scope : Scope) : OpCode → List Nat → Option (List Nat)
  | .ADD => binary opAdd
  | .MUL => binary opMul
  | .SUB => binary opSub
  | .DIV => binary opDiv
  | .SDIV => binary opSdiv
  | .MOD => binary opMod
  | .SMOD => binary opSmod
  | .ADDMOD => ternary opAddmod
  | .MULMOD => ternary opMulmod
  | .EXP => binary opExp
  | .SIGNEXTEND => binary opSignExtend
  | .LT => binary opLt
  | .GT => binary opGt
  | .SLT => binary opSlt
  | .SGT => binary opSgt
  | .EQ => binary opEq
  | .ISZERO => unary opIszero
  | .AND => binary opAnd
  | .OR => binary opOr
  | .XOR => binary opXor
  | .NOT => unary opNot
  | .BYTE => binary opByte
  | .SHL => binary opSHL
  | .SHR => binary opSHR
  | .SAR => binary opSAR
  | .ADDRESS => nullary (bigSetBytes contract.self.data)
  | .ORIGIN => nullary (bigSetBytes ctx.origin.data)
  | .CALLER => nullary (bigSetBytes contract.callerAddress.data)
  | .CALLVALUE => nullary contract.value
  | .CALLDATALOAD => unary fun start => bigSetBytes (getDataBig contract.input start 32)
  | .CALLDATASIZE => nullary contract.input.length
  | .CODESIZE => nullary contract.code.length
  | .GASPRICE => nullary ctx.gasPrice
  | .RETURNDATASIZE => nullary evm.returnData.length
  | .BLOCKHASH => unary (opBlockhash ctx)
  | .COINBASE => nullary (bigSetBytes ctx.coinbase.data)
  | .TIMESTAMP => nullary (u256 ctx.time)
  | .NUMBER => nullary (u256 ctx.blockNumber)
  | .DIFFICULTY => nullary (u256 ctx.difficulty)
  | .GASLIMIT => nullary (u256 ctx.gasLimit.toNat)
  | .POP => opPop
  | .PC => nullary scope.pc.toNat
  | .MSIZE => nullary scope.mem.store.length
  | .GAS => nullary contract.gas.toNat
  | .PUSH n => nullary (pushValue contract.code scope.pc (n + 1))
  | .DUP n => opDup n
  | .SWAP n => opSwap n
  | _ => fun stack => some stack

/-- An instruction that goes on with another stack. -/
def withStack (scope : Scope) (stack : List Nat) : Effect := ⟨{ scope with stack := stack }, [], none⟩

def withMemory (scope : Scope) (stack : List Nat) (mem : Memory) : Effect :=
  ⟨{ scope with stack := stack, mem := mem }, [], none⟩

def opSha3 (scope : Scope) : Option Effect :=
  match scope.stack with
  | offset :: size :: rest =>
    (scope.mem.get (int64 offset) (int64 size)).map fun data =>
      withStack scope (bigSetBytes (ctx.crypto.keccak256 data).data :: rest)
  | _ => none

/-- `opCallDataCopy` and `opCodeCopy`, and `opExtCodeCopy` without the address. -/
def opCopy (data : Bytes) (stack : List Nat) (scope : Scope) : Option Effect :=
  match stack with
  | memOffset :: dataOffset :: length :: rest =>
    (scope.mem.set (uint64 memOffset) (uint64 length)
      (getDataBig data dataOffset length)).map (withMemory scope rest)
  | _ => none

/-- Past the end of the data there is an error. -/
def opReturnDataCopy (scope : Scope) : Option Effect :=
  match scope.stack with
  | memOffset :: dataOffset :: length :: rest =>
    if 2 ^ 64 ≤ dataOffset + length ∨ evm.returnData.length < dataOffset + length then
      some ⟨{ scope with stack := rest }, [], some .errReturnDataOutOfBounds⟩
    else
      (scope.mem.set (uint64 memOffset) (uint64 length)
        ((evm.returnData.drop dataOffset).take length)).map (withMemory scope rest)
  | _ => none

def opMload (scope : Scope) : Option Effect :=
  match scope.stack with
  | offset :: rest =>
    (scope.mem.get (int64 offset) (int64 32)).map fun data =>
      withStack scope (bigSetBytes data :: rest)
  | _ => none

def paddedBigBytes (x n : Nat) : Bytes :=
  List.replicate (n - (bigBytes x).length) 0 ++ bigBytes x

def opMstore (scope : Scope) : Option Effect :=
  match scope.stack with
  | mStart :: val :: rest =>
    (scope.mem.set (uint64 mStart) (uint64 32) (paddedBigBytes val 32)).map
      (withMemory scope rest)
  | _ => none

def opMstore8 (scope : Scope) : Option Effect :=
  match scope.stack with
  | off :: val :: rest =>
    (scope.mem.setByte (int64 off) (UInt8.ofNat val)).map (withMemory scope rest)
  | _ => none

/-- A jump to a position that must be a destination. -/
def jumpTo (scope : Scope) (pos : Nat) (rest : List Nat) : Effect :=
  if hasDestination contract.code pos = true then
    ⟨{ scope with stack := rest, pc := uint64 pos }, [], none⟩
  else ⟨{ scope with stack := rest }, [], some (.invalidJump pos)⟩

def opJump (scope : Scope) : Option Effect :=
  match scope.stack with
  | pos :: rest => some (jumpTo contract scope pos rest)
  | _ => none

def opJumpi (scope : Scope) : Option Effect :=
  match scope.stack with
  | pos :: cond :: rest =>
    if cond ≠ 0 then some (jumpTo contract scope pos rest)
    else some ⟨{ scope with stack := rest, pc := scope.pc + 1 }, [], none⟩
  | _ => none

/-- `opReturn` and `opRevert`. -/
def opReturn (scope : Scope) : Option Effect :=
  match scope.stack with
  | offset :: size :: rest =>
    (scope.mem.get (int64 offset) (int64 size)).map fun ret =>
      ⟨{ scope with stack := rest }, ret, none⟩
  | _ => none

/-- `execute` of the instructions that stay in their frame. -/
def executeLocal (scope : Scope) : OpCode → Option Effect
  | .SHA3 => opSha3 ctx scope
  | .CALLDATACOPY => opCopy contract.input scope.stack scope
  | .CODECOPY => opCopy contract.code scope.stack scope
  | .RETURNDATACOPY => opReturnDataCopy evm scope
  | .MLOAD => opMload scope
  | .MSTORE => opMstore scope
  | .MSTORE8 => opMstore8 scope
  | .JUMP => opJump contract scope
  | .JUMPI => opJumpi contract scope
  | .RETURN | .REVERT => opReturn scope
  | .PUSH n =>
    (stackOp ctx evm contract scope (.PUSH n) scope.stack).map fun stack =>
      withStack { scope with pc := scope.pc + UInt64.ofNat (n + 1) } stack
  | op => (stackOp ctx evm contract scope op scope.stack).map (withStack scope)

end

/-! ## No instruction runs out of its stack or its memory -/

/-- The memory that an operation has asked for is there. -/
def Covers (scope : Scope) (op : OpCode) : Prop :=
  ∀ size, memorySize scope.stack op = some size →
    size ≤ scope.mem.store.length ∧ size ≤ maxMemSize.toNat

section
variable (ctx : Context) (evm : Evm) (contract : Contract) {scope : Scope} {stack : List Nat}

theorem stackOp_isSome (op : OpCode) (enough : (operation op).pops ≤ stack.length) :
    (stackOp ctx evm contract scope op stack).isSome = true := by
  cases op <;>
    first
      | rfl
      | exact unary_isSome _ enough
      | exact binary_isSome _ enough
      | exact ternary_isSome _ enough
      | exact opPop_isSome enough
      | exact opDup_isSome enough
      | exact opSwap_isSome enough

theorem opCopy_isSome (data : Bytes) (enough : 3 ≤ stack.length)
    (range : InRange scope.mem (back stack 0) (back stack 2)) :
    (opCopy data stack scope).isSome = true := by
  match stack, enough with
  | memOffset :: dataOffset :: length :: rest, _ =>
    exact Option.isSome_map.trans (set_isSome range _)

theorem executeLocal_isSome (op : OpCode) (enough : (operation op).pops ≤ scope.stack.length)
    (covers : Covers scope op) : (executeLocal ctx evm contract scope op).isSome = true := by
  have plain : (stackOp ctx evm contract scope op scope.stack).isSome = true :=
    stackOp_isSome ctx evm contract op enough
  obtain ⟨stack, mem, pc⟩ := scope
  cases op
  case SHA3 | RETURN | REVERT =>
    match stack, enough with
    | offset :: size :: rest, _ => exact Option.isSome_map.trans (get_isSome (covers _ rfl))
  case CALLDATACOPY | CODECOPY => exact opCopy_isSome _ enough (covers _ rfl)
  case RETURNDATACOPY =>
    match stack, enough with
    | memOffset :: dataOffset :: length :: rest, _ =>
      simp only [executeLocal, opReturnDataCopy]
      split
      · rfl
      · exact Option.isSome_map.trans (set_isSome (covers _ rfl) _)
  case MLOAD =>
    match stack, enough with
    | offset :: rest, _ => exact Option.isSome_map.trans (get_isSome (covers _ rfl))
  case MSTORE =>
    match stack, enough with
    | mStart :: val :: rest, _ => exact Option.isSome_map.trans (set_isSome (covers _ rfl) _)
  case MSTORE8 =>
    match stack, enough with
    | off :: val :: rest, _ => exact Option.isSome_map.trans (setByte_isSome (covers _ rfl) _)
  case JUMP =>
    match stack, enough with
    | pos :: rest, _ => rfl
  case JUMPI =>
    match stack, enough with
    | pos :: cond :: rest, _ =>
      simp only [executeLocal, opJumpi]
      split <;> rfl
  all_goals exact Option.isSome_map.trans plain

end

end Linkeye.Vm.Instructions
