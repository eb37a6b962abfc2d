import Linkeye.Vm.Words

/-!
# Memory of a frame

`core/vm/memory.go`, `core/vm/common.go` and the checked arithmetic of
`common/math/integer.go`.  A slice out of range ends the program: `none`.
-/

set_option autoImplicit false

namespace Linkeye.Vm.LinearMemory

open Common.Types Words

/-! ## Checked arithmetic -/

/-- `SafeAdd`, `none` for an overflow. -/
def safeAdd (x y : UInt64) : Option UInt64 :=
  if 2 ^ 64 ≤ x.toNat + y.toNat then none else some (x + y)

def safeMul (x y : UInt64) : Option UInt64 :=
  if 2 ^ 64 ≤ x.toNat * y.toNat then none else some (x * y)

theorem toNat_safeAdd {x y z : UInt64} (sum : safeAdd x y = some z) :
    z.toNat = x.toNat + y.toNat := by
  unfold safeAdd at sum
  split at sum
  · cases sum
  · cases sum
    rw [UInt64.toNat_add, Nat.mod_eq_of_lt (by omega)]

theorem toNat_safeMul {x y z : UInt64} (product : safeMul x y = some z) :
    z.toNat = x.toNat * y.toNat := by
  unfold safeMul at product
  split at product
  · cases product
  · cases product
    rw [UInt64.toNat_mul, Nat.mod_eq_of_lt (by omega)]

def toWordSize (size : UInt64) : UInt64 :=
  if (2 ^ 64 - 1) - 31 < size.toNat then UInt64.ofNat ((2 ^ 64 - 1) / 32 + 1)
  else (size + 31) / 32

theorem le_toWordSize (size : UInt64) : size.toNat ≤ (toWordSize size).toNat * 32 := by
  have small := size.toNat_lt
  unfold toWordSize
  split
  · simp only [UInt64.toNat_ofNat']
    omega
  · rw [UInt64.toNat_div, UInt64.toNat_add]
    simp only [UInt64.reduceToNat]
    omega

/-! ## The store -/

structure Memory where
  store : Bytes
  lastGasCost : UInt64

namespace Memory

def new : Memory := ⟨[], 0⟩

def resize (mem : Memory) (size : UInt64) : Memory :=
  { mem with store := mem.store ++ List.replicate (size.toNat - mem.store.length) 0 }

def set (mem : Memory) (offset size : UInt64) (value : Bytes) : Option Memory :=
  if mem.store.length < size.toNat then none
  else if size = 0 then some mem
  else if offset.toNat + size.toNat ≤ mem.store.length then
    let copied := value.take size.toNat
    some { mem with
      store := mem.store.take offset.toNat ++ copied ++
        mem.store.drop (offset.toNat + copied.length) }
  else none

/-- `Get`, and `GetPtr`, which does not copy. -/
def get (mem : Memory) (offset size : Int) : Option Bytes :=
  if size = 0 then some []
  else if offset < mem.store.length then
    if 0 ≤ offset ∧ 0 ≤ size ∧ offset + size ≤ mem.store.length then
      some ((mem.store.drop offset.toNat).take size.toNat)
    else none
  else some []

/-- `store[offset] = value`. -/
def setByte (mem : Memory) (offset : Int) (value : UInt8) : Option Memory :=
  if 0 ≤ offset ∧ offset < mem.store.length then
    some { mem with store := mem.store.set offset.toNat value }
  else none

end Memory

def calcMemSize (off l : Nat) : Nat := if l = 0 then 0 else off + l

/-- The largest size for which `memoryGasCost` gives a price. -/
def maxMemSize : UInt64 := 0xffffffffe0

theorem toNat_uint64 {x : Nat} (small : x < 2 ^ 64) : (uint64 x).toNat = x := by
  rw [uint64, UInt64.toNat_ofNat', Nat.mod_eq_of_lt small]

theorem int64_of_small {x : Nat} (small : x < 2 ^ 63) : int64 x = x := by
  rw [int64, Nat.mod_eq_of_lt (by omega), if_pos small]

/-- An area that is empty or within the memory. -/
def InRange (mem : Memory) (offset size : Nat) : Prop :=
  calcMemSize offset size ≤ mem.store.length ∧ calcMemSize offset size ≤ maxMemSize.toNat

section
variable {mem : Memory} {offset size : Nat}

theorem InRange.empty_or (range : InRange mem offset size) :
    size = 0 ∨ 0 < size ∧ offset + size ≤ mem.store.length ∧ offset + size ≤ 0xffffffffe0 := by
  obtain ⟨within, bounded⟩ := range
  rw [calcMemSize] at within bounded
  split at within
  · exact .inl ‹_›
  · rename_i nonzero
    rw [if_neg nonzero] at bounded
    exact .inr ⟨Nat.pos_of_ne_zero nonzero, within, bounded⟩

theorem get_isSome (range : InRange mem offset size) :
    (mem.get (int64 offset) (int64 size)).isSome = true := by
  obtain rfl | ⟨positive, within, bounded⟩ := range.empty_or
  · rfl
  · rw [Memory.get, int64_of_small (by omega), int64_of_small (by omega), if_neg (by omega),
      if_pos (by omega), if_pos (by omega)]
    rfl

theorem set_isSome (range : InRange mem offset size) (value : Bytes) :
    (mem.set (uint64 offset) (uint64 size) value).isSome = true := by
  obtain rfl | ⟨positive, within, bounded⟩ := range.empty_or
  · simp [Memory.set, uint64]
  · have sizeEq : (uint64 size).toNat = size := toNat_uint64 (by omega)
    have offsetEq : (uint64 offset).toNat = offset := toNat_uint64 (by omega)
    have nonzero : uint64 size ≠ 0 := by
      intro same
      rw [same] at sizeEq
      exact Nat.ne_of_lt positive sizeEq
    rw [Memory.set, if_neg (by omega), if_neg nonzero, if_pos (by omega)]
    rfl

theorem setByte_isSome (range : InRange mem offset 1) (value : UInt8) :
    (mem.setByte (int64 offset) value).isSome = true := by
  obtain never | ⟨_, within, bounded⟩ := range.empty_or
  · cases never
  · rw [Memory.setByte, int64_of_small (by omega), if_pos (by omega)]
    rfl

theorem length_resize (mem : Memory) (size : UInt64) :
    size.toNat ≤ (mem.resize size).store.length := by
  simp only [Memory.resize, List.length_append, List.length_replicate]
  omega

end

/-! ## Data -/

/-- `getDataBig`: past the end of the data there are zeros. -/
def getDataBig (data : Bytes) (start size : Nat) : Bytes :=
  let s := min start data.length
  let e := min (s + size) data.length
  let part := (data.drop s).take (e - s)
  part ++ List.replicate ((uint64 size).toNat - part.length) 0

end Linkeye.Vm.LinearMemory
