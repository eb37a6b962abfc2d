import Linkeye.Common.Types
import Mathlib.Data.Int.Bitwise

/-!
# Words of the stack

`core/vm/instructions.go` and `common/math/big.go`: what the arithmetic instructions
compute.  Items of the stack are big integers that are never negative.
-/

set_option autoImplicit false

namespace Linkeye.Vm.Words

open Common.Types

/-- `U256`: two's complement in 256 bits. -/
def u256 (x : Int) : Nat := (x % (2 ^ 256 : Nat)).toNat

def s256 (x : Nat) : Int := if x < 2 ^ 255 then x else (x : Int) - (2 ^ 256 : Nat)

def uint64 (x : Nat) : UInt64 := UInt64.ofNat x

/-- `Int64` of a big integer: the low 64 bits with a sign. -/
def int64 (x : Nat) : Int :=
  if x % 2 ^ 64 < 2 ^ 63 then (x % 2 ^ 64 : Nat) else (x % 2 ^ 64 : Nat) - (2 ^ 64 : Nat)

/-- `bigUint64`: `none` for an overflow. -/
def bigUint64 (x : Nat) : Option UInt64 := if x < 2 ^ 64 then some (uint64 x) else none

def bigToHash (x : Nat) : Hash := bytesToHash (bigBytes x)

def bigToAddress (x : Nat) : Address := bytesToAddress (bigBytes x)

def bool (b : Bool) : Nat := if b = true then 1 else 0

/-! ## Arithmetic -/

def opAdd (x y : Nat) : Nat := u256 (x + y)

def opSub (x y : Nat) : Nat := u256 ((x : Int) - y)

def opMul (x y : Nat) : Nat := u256 (x * y)

def opDiv (x y : Nat) : Nat := if y ≠ 0 then u256 (x / y) else 0

def opSdiv (x y : Nat) : Nat :=
  let x := s256 x
  let y := s256 y
  if y = 0 ∨ x = 0 then 0
  else if x.sign ≠ y.sign then u256 (-(x.natAbs / y.natAbs : Nat))
  else u256 (x.natAbs / y.natAbs : Nat)

def opMod (x y : Nat) : Nat := if y = 0 then 0 else u256 (x % y)

def opSmod (x y : Nat) : Nat :=
  let x := s256 x
  let y := s256 y
  if y = 0 then 0
  else if x < 0 then u256 (-(x.natAbs % y.natAbs : Nat))
  else u256 (x.natAbs % y.natAbs : Nat)

def opAddmod (x y z : Nat) : Nat := if 0 < z then u256 ((x + y) % z) else 0

def opMulmod (x y z : Nat) : Nat := if 0 < z then u256 (x * y % z) else 0

/-- `math.Exp`: one round for each bit of the words of the exponent. -/
def opExp (base exponent : Nat) : Nat :=
  ((List.range (64 * ((exponent.size + 63) / 64))).foldl
    (fun (acc : Nat × Nat) i =>
      (if exponent.testBit i = true then u256 (acc.1 * acc.2) else acc.1, u256 (acc.2 * acc.2)))
    (1, base)).1

def opSignExtend (back num : Nat) : Nat :=
  if back < 31 then
    let bit := back * 8 + 7
    let mask : Int := 2 ^ bit - 1
    if num.testBit bit = true then u256 (Int.lor num (Int.lnot mask)) else u256 (Int.land num mask)
  else num

/-! ## Comparisons and bits -/

def opLt (x y : Nat) : Nat := bool (decide (x < y))

def opGt (x y : Nat) : Nat := bool (decide (y < x))

def opSlt (x y : Nat) : Nat :=
  if 2 ^ 255 ≤ x ∧ y < 2 ^ 255 then 1
  else if x < 2 ^ 255 ∧ 2 ^ 255 ≤ y then 0
  else bool (decide (x < y))

def opSgt (x y : Nat) : Nat :=
  if 2 ^ 255 ≤ x ∧ y < 2 ^ 255 then 0
  else if x < 2 ^ 255 ∧ 2 ^ 255 ≤ y then 1
  else bool (decide (y < x))

def opEq (x y : Nat) : Nat := bool (decide (x = y))

def opIszero (x : Nat) : Nat := if 0 < x then 0 else 1

def opAnd (x y : Nat) : Nat := x &&& y

def opOr (x y : Nat) : Nat := x ||| y

def opXor (x y : Nat) : Nat := x ^^^ y

def opNot (x : Nat) : Nat := u256 (Int.lnot x)

/-- The byte at a position that counts from the most significant of 32 bytes. -/
def opByte (th val : Nat) : Nat := if th < 32 then val / 256 ^ (31 - th) % 256 else 0

def opSHL (shift value : Nat) : Nat :=
  if 256 ≤ u256 shift then 0 else u256 (u256 value * 2 ^ u256 shift)

def opSHR (shift value : Nat) : Nat :=
  if 256 ≤ u256 shift then 0 else u256 (u256 value / 2 ^ u256 shift)

/-- A shift by 256 or more gives minus one for zero too. -/
def opSAR (shift value : Nat) : Nat :=
  let value := s256 value
  if 256 ≤ u256 shift then (if 0 < value then u256 0 else u256 (-1))
  else u256 (value / 2 ^ u256 shift)

end Linkeye.Vm.Words
