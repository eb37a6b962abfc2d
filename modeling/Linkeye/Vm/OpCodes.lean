import Linkeye.Vm.LinearMemory

/-!
# Opcodes and the jump table

`core/vm/opcodes.go`, `core/vm/jump_table.go`, `core/vm/stack_table.go` and
`core/vm/memory_table.go`: for each operation how many items it takes from the stack
and leaves there, what the interpreter does after it, and how much memory it needs.
-/

set_option autoImplicit false

namespace Linkeye.Vm.OpCodes

open LinearMemory

/-- `PUSH n` stands for `PUSH1` at 0 and so on, `LOG n` for `LOG0` at 0. -/
inductive OpCode where
  | STOP | ADD | MUL | SUB | DIV | SDIV | MOD | SMOD | ADDMOD | MULMOD | EXP | SIGNEXTEND
  | LT | GT | SLT | SGT | EQ | ISZERO | AND | OR | XOR | NOT | BYTE | SHL | SHR | SAR
  | SHA3
  | ADDRESS | BALANCE | ORIGIN | CALLER | CALLVALUE | CALLDATALOAD | CALLDATASIZE
  | CALLDATACOPY | CODESIZE | CODECOPY | GASPRICE | EXTCODESIZE | EXTCODECOPY
  | RETURNDATASIZE | RETURNDATACOPY
  | BLOCKHASH | COINBASE | TIMESTAMP | NUMBER | DIFFICULTY | GASLIMIT
  | POP | MLOAD | MSTORE | MSTORE8 | SLOAD | SSTORE | JUMP | JUMPI | PC | MSIZE | GAS
  | JUMPDEST
  | PUSH (n : Fin 32)
  | DUP (n : Fin 16)
  | SWAP (n : Fin 16)
  | LOG (n : Fin 5)
  | CREATE | CALL | CALLCODE | RETURN | DELEGATECALL | STATICCALL | REVERT | SELFDESTRUCT
deriving DecidableEq

/-- The operations of one byte that are not numbered. -/
def namedOpCodes : List (UInt8 × OpCode) :=
  [(0x00, .STOP), (0x01, .ADD), (0x02, .MUL), (0x03, .SUB), (0x04, .DIV), (0x05, .SDIV),
    (0x06, .MOD), (0x07, .SMOD), (0x08, .ADDMOD), (0x09, .MULMOD), (0x0a, .EXP),
    (0x0b, .SIGNEXTEND),
    (0x10, .LT), (0x11, .GT), (0x12, .SLT), (0x13, .SGT), (0x14, .EQ), (0x15, .ISZERO),
    (0x16, .AND), (0x17, .OR), (0x18, .XOR), (0x19, .NOT), (0x1a, .BYTE), (0x1b, .SHL),
    (0x1c, .SHR), (0x1d, .SAR),
    (0x20, .SHA3),
    (0x30, .ADDRESS), (0x31, .BALANCE), (0x32, .ORIGIN), (0x33, .CALLER), (0x34, .CALLVALUE),
    (0x35, .CALLDATALOAD), (0x36, .CALLDATASIZE), (0x37, .CALLDATACOPY), (0x38, .CODESIZE),
    (0x39, .CODECOPY), (0x3a, .GASPRICE), (0x3b, .EXTCODESIZE), (0x3c, .EXTCODECOPY),
    (0x3d, .RETURNDATASIZE), (0x3e, .RETURNDATACOPY),
    (0x40, .BLOCKHASH), (0x41, .COINBASE), (0x42, .TIMESTAMP), (0x43, .NUMBER),
    (0x44, .DIFFICULTY), (0x45, .GASLIMIT),
    (0x50, .POP), (0x51, .MLOAD), (0x52, .MSTORE), (0x53, .MSTORE8), (0x54, .SLOAD),
    (0x55, .SSTORE), (0x56, .JUMP), (0x57, .JUMPI), (0x58, .PC), (0x59, .MSIZE), (0x5a, .GAS),
    (0x5b, .JUMPDEST),
    (0xf0, .CREATE), (0xf1, .CALL), (0xf2, .CALLCODE), (0xf3, .RETURN), (0xf4, .DELEGATECALL),
    (0xfa, .STATICCALL), (0xfd, .REVERT), (0xff, .SELFDESTRUCT)]

def ofByte (b : UInt8) : Option OpCode :=
  if 0x60 ≤ b ∧ b < 0x80 then some (.PUSH (Fin.ofNat 32 (b.toNat - 0x60)))
  else if 0x80 ≤ b ∧ b < 0x90 then some (.DUP (Fin.ofNat 16 (b.toNat - 0x80)))
  else if 0x90 ≤ b ∧ b < 0xa0 then some (.SWAP (Fin.ofNat 16 (b.toNat - 0x90)))
  else if 0xa0 ≤ b ∧ b < 0xa5 then some (.LOG (Fin.ofNat 5 (b.toNat - 0xa0)))
  else namedOpCodes.lookup b

/-! ## Instruction sets -/

inductive InstructionSet where
  | frontier
  | homestead
  | byzantium
  | constantinople
deriving DecidableEq

/-- Each set has the operations of the sets before it. -/
def InstructionSet.valid (set : InstructionSet) : OpCode → Bool
  | .DELEGATECALL => decide (set ≠ .frontier)
  | .STATICCALL | .RETURNDATASIZE | .RETURNDATACOPY | .REVERT =>
    decide (set = .byzantium ∨ set = .constantinople)
  | .SHL | .SHR | .SAR => decide (set = .constantinople)
  | _ => true

/-! ## Operations -/

/-- `makeStackFunc` and the flags. -/
structure Operation where
  pops : Nat
  pushes : Nat
  halts : Bool := false
  jumps : Bool := false
  writes : Bool := false
  reverts : Bool := false
  returns : Bool := false

def operation : OpCode → Operation
  | .STOP => { pops := 0, pushes := 0, halts := true }
  | .ADD | .MUL | .SUB | .DIV | .SDIV | .MOD | .SMOD | .EXP | .SIGNEXTEND
  | .LT | .GT | .SLT | .SGT | .EQ | .AND | .OR | .XOR | .BYTE | .SHL | .SHR | .SAR
  | .SHA3 => { pops := 2, pushes := 1 }
  | .ADDMOD | .MULMOD => { pops := 3, pushes := 1 }
  | .ISZERO | .NOT | .BALANCE | .CALLDATALOAD | .EXTCODESIZE | .BLOCKHASH | .MLOAD
  | .SLOAD => { pops := 1, pushes := 1 }
  | .ADDRESS | .ORIGIN | .CALLER | .CALLVALUE | .CALLDATASIZE | .CODESIZE | .GASPRICE
  | .RETURNDATASIZE | .COINBASE | .TIMESTAMP | .NUMBER | .DIFFICULTY | .GASLIMIT | .PC
  | .MSIZE | .GAS => { pops := 0, pushes := 1 }
  | .CALLDATACOPY | .CODECOPY | .RETURNDATACOPY => { pops := 3, pushes := 0 }
  | .EXTCODECOPY => { pops := 4, pushes := 0 }
  | .POP => { pops := 1, pushes := 0 }
  | .MSTORE | .MSTORE8 => { pops := 2, pushes := 0 }
  | .SSTORE => { pops := 2, pushes := 0, writes := true }
  | .JUMP => { pops := 1, pushes := 0, jumps := true }
  | .JUMPI => { pops := 2, pushes := 0, jumps := true }
  | .JUMPDEST => { pops := 0, pushes := 0 }
  | .PUSH _ => { pops := 0, pushes := 1 }
  | .DUP n => { pops := n + 1, pushes := n + 2 }
  | .SWAP n => { pops := n + 2, pushes := n + 2 }
  | .LOG n => { pops := n + 2, pushes := 0, writes := true }
  | .CREATE => { pops := 3, pushes := 1, writes := true, returns := true }
  | .CALL | .CALLCODE => { pops := 7, pushes := 1, returns := true }
  | .DELEGATECALL | .STATICCALL => { pops := 6, pushes := 1, returns := true }
  | .RETURN => { pops := 2, pushes := 0, halts := true }
  | .REVERT => { pops := 2, pushes := 0, reverts := true, returns := true }
  | .SELFDESTRUCT => { pops := 1, pushes := 0, halts := true, writes := true }

def back (stack : List Nat) (n : Nat) : Nat := stack.getD n 0

/-- The `memorySize` functions; `none` where an operation has none. -/
def memorySize (stack : List Nat) : OpCode → Option Nat
  | .SHA3 | .RETURN | .REVERT | .LOG _ => some (calcMemSize (back stack 0) (back stack 1))
  | .CALLDATACOPY | .RETURNDATACOPY | .CODECOPY =>
    some (calcMemSize (back stack 0) (back stack 2))
  | .EXTCODECOPY => some (calcMemSize (back stack 1) (back stack 3))
  | .MLOAD | .MSTORE => some (calcMemSize (back stack 0) 32)
  | .MSTORE8 => some (calcMemSize (back stack 0) 1)
  | .CREATE => some (calcMemSize (back stack 1) (back stack 2))
  | .CALL | .CALLCODE =>
    some (max (calcMemSize (back stack 5) (back stack 6))
      (calcMemSize (back stack 3) (back stack 4)))
  | .DELEGATECALL | .STATICCALL =>
    some (max (calcMemSize (back stack 4) (back stack 5))
      (calcMemSize (back stack 2) (back stack 3)))
  | _ => none

end Linkeye.Vm.OpCodes
