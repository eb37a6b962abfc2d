import Linkeye.Vm.ReadOnly

/-!
# Memory is there and is paid for

`Run` prices the memory that an operation asks for and makes it larger before `execute`
is called.  What `execute` then reads and writes is in range, and the prices of a frame
add up to that of its largest memory as long as no square of a number of words wraps.
-/

set_option autoImplicit false

namespace Linkeye.Vm.MemoryUse

open Core.Journaling Lib.Programs Gas GasBound Interpreter LinearMemory OpCodes ReadOnly

/-! ## In range -/

/-- The areas of memory, offset and size, that `execute` reads or writes. -/
def areas (stack : List Nat) : OpCode → List (Nat × Nat)
  | .SHA3 | .RETURN | .REVERT | .LOG _ => [(back stack 0, back stack 1)]
  | .CALLDATACOPY | .CODECOPY | .RETURNDATACOPY => [(back stack 0, back stack 2)]
  | .EXTCODECOPY => [(back stack 1, back stack 3)]
  | .MLOAD | .MSTORE => [(back stack 0, 32)]
  | .MSTORE8 => [(back stack 0, 1)]
  | .CREATE => [(back stack 1, back stack 2)]
  | .CALL | .CALLCODE => [(back stack 3, back stack 4), (back stack 5, back stack 6)]
  | .DELEGATECALL | .STATICCALL => [(back stack 2, back stack 3), (back stack 4, back stack 5)]
  | _ => []

theorem areas_within {stack : List Nat} {op : OpCode} {area : Nat × Nat}
    (accessed : area ∈ areas stack op) :
    ∃ needed, memorySize stack op = some needed ∧ calcMemSize area.1 area.2 ≤ needed := by
  cases op <;> simp only [areas, List.mem_cons, List.not_mem_nil, or_false] at accessed <;>
    first
      | (rw [accessed]; exact ⟨_, rfl, le_refl _⟩)
      | (obtain rfl | rfl := accessed
         · exact ⟨_, rfl, by simp⟩
         · exact ⟨_, rfl, by simp⟩)

def storing (gas : UInt64) (mem : Memory) : Frame :=
  ⟨⟨writer, writer, [0x52], writer, [], gas, 0⟩, ⟨[0, 7], mem, 0⟩⟩

def wordsOf (size : Nat) : Nat := (size + 31) / 32

/-- The price of so many words, without overflow. -/
def memoryFee (words : Nat) : Nat := 3 * words + words * words / 512

/-- The memory of a frame with the prices that were asked for it. -/
structure Paid where
  evm : Evm
  mem : Memory
  fees : List UInt64

/-- One round of `Run` with an operation that asks for a size, up to `Resize`. -/
def request (paid : Paid) (size : UInt64) : Option Paid := do
  let memorySize ← safeMul (toWordSize size) 32
  let charge := memoryGasCost paid.evm paid.mem memorySize
  let fee ← charge.cost
  return ⟨charge.evm, charge.mem.resize memorySize, fee :: paid.fees⟩

/-- The sizes of fewer than `2 ^ 32` words. -/
def squareFits : UInt64 := 0x1fffffffe0

/-- No operation of `request` wraps around. -/
structure Exact (mem : Memory) (size : Nat) : Prop where
  rounded : size + 31 < 2 ^ 64
  bytes : wordsOf size * 32 < 2 ^ 64
  square : wordsOf size * wordsOf size < 2 ^ 64
  total : memoryFee (wordsOf size) < 2 ^ 64
  difference : mem.store.length < wordsOf size * 32 →
    mem.lastGasCost.toNat ≤ memoryFee (wordsOf size)

/-- So much memory is there and paid for. -/
structure Settled (paid : Paid) (largest : Nat) : Prop where
  length : paid.mem.store.length = wordsOf largest * 32
  last : paid.mem.lastGasCost.toNat = memoryFee (wordsOf largest)
  sum : (paid.fees.map UInt64.toNat).sum = memoryFee (wordsOf largest)

theorem memoryFee_mono {v w : Nat} (le : v ≤ w) : memoryFee v ≤ memoryFee w := by
  have square : v * v ≤ w * w := Nat.mul_le_mul le le
  unfold memoryFee
  omega

section
variable {paid : Paid} {largest : Nat} {size : UInt64}

theorem wordsOf_lt (fits : size ≤ squareFits) : wordsOf size.toNat < 2 ^ 32 := by
  have small : size.toNat ≤ 0x1fffffffe0 := UInt64.le_iff_toNat_le.mp fits
  unfold wordsOf
  omega

theorem square_lt {words : Nat} (small : words < 2 ^ 32) : words * words < 2 ^ 64 :=
  calc words * words < 2 ^ 32 * 2 ^ 32 := Nat.mul_lt_mul'' small small
    _ = 2 ^ 64 := rfl

theorem memoryFee_lt {words : Nat} (small : words < 2 ^ 32) : memoryFee words < 2 ^ 56 := by
  have square := square_lt small
  unfold memoryFee
  omega

theorem Settled.exact (settled : Settled paid largest) (fits : size ≤ squareFits) :
    Exact paid.mem size.toNat := by
  have small := wordsOf_lt fits
  have bounded : size.toNat ≤ 0x1fffffffe0 := UInt64.le_iff_toNat_le.mp fits
  refine ⟨by omega, by omega, square_lt small, ?_, fun grows => ?_⟩
  · have fee := memoryFee_lt small
    omega
  · rw [settled.length] at grows
    rw [settled.last]
    exact memoryFee_mono (by omega)

theorem wordsOf_max (a b : Nat) : wordsOf (max a b) = max (wordsOf a) (wordsOf b) := by
  unfold wordsOf
  omega

/-- The new total, which the code adds up in 64 bits. -/
theorem toNat_total {words : UInt64} (small : words.toNat < 2 ^ 32) :
    (words * 3 + words * words / 512).toNat = memoryFee words.toNat := by
  have square := square_lt small
  rw [UInt64.toNat_add, UInt64.toNat_mul, UInt64.toNat_div, UInt64.toNat_mul,
    Nat.mod_eq_of_lt square, memoryFee]
  simp only [UInt64.reduceToNat]
  omega

/-- Memory that is there costs nothing, more costs the difference of the totals. -/
theorem memoryGasCost_of_words (evm : Evm) (mem : Memory) {words : Nat}
    (bytes : size.toNat = words * 32) (small : words < 2 ^ 32) :
    ∃ total : UInt64, total.toNat = memoryFee words ∧
      if mem.store.length < words * 32 then
        (memoryGasCost evm mem size).cost = some (total - mem.lastGasCost) ∧
          (memoryGasCost evm mem size).mem = { mem with lastGasCost := total }
      else (memoryGasCost evm mem size).cost = some 0 ∧ (memoryGasCost evm mem size).mem = mem := by
  have bounded : size ≤ maxMemSize := by
    rw [UInt64.le_iff_toNat_le, bytes]
    show words * 32 ≤ 0xffffffffe0
    omega
  have wordsEq : (toWordSize size).toNat = words := by
    rw [toNat_toWordSize bounded]
    omega
  have bytesEq : (toWordSize size * 32).toNat = words * 32 := by
    rw [UInt64.toNat_mul, wordsEq]
    simp only [UInt64.reduceToNat]
    omega
  refine ⟨_, (toNat_total (wordsEq.trans_lt small)).trans (congrArg memoryFee wordsEq), ?_⟩
  unfold memoryGasCost
  dsimp only
  rw [if_neg (UInt64.not_lt.mpr bounded), bytesEq]
  by_cases zero : size = 0
  · rw [zero] at bytes
    rw [if_pos zero, if_neg (by simp only [UInt64.reduceToNat] at bytes; omega)]
    exact ⟨rfl, rfl⟩
  · rw [if_neg zero]
    split
    · exact ⟨rfl, rfl⟩
    · exact ⟨rfl, rfl⟩

theorem Settled.request (settled : Settled paid largest) (fits : size ≤ squareFits) :
    ∃ next fee, request paid size = some next ∧ next.fees = fee :: paid.fees ∧
      Settled next (max largest size.toNat) ∧
      (size.toNat ≤ paid.mem.store.length → fee = 0) := by
  have small := wordsOf_lt fits
  have words : (toWordSize size).toNat = wordsOf size.toNat :=
    toNat_toWordSize (UInt64.le_trans fits (by decide))
  have product : safeMul (toWordSize size) 32 = some (toWordSize size * 32) := by
    rw [safeMul, words, if_neg (by simp only [UInt64.reduceToNat]; omega)]
  have bytes : (toWordSize size * 32).toNat = wordsOf size.toNat * 32 := by
    rw [toNat_safeMul product, words]
    rfl
  obtain ⟨total, totalEq, charge⟩ := memoryGasCost_of_words paid.evm paid.mem bytes small
  have last := settled.last
  have sum := settled.sum
  rw [settled.length] at charge
  simp only [MemoryUse.request, product, Option.bind_eq_bind, Option.bind_some]
  split at charge
  · rename_i grows
    have larger : wordsOf (max largest size.toNat) = wordsOf size.toNat := by
      rw [wordsOf_max]
      omega
    have within := memoryFee_mono (show wordsOf largest ≤ wordsOf size.toNat by omega)
    rw [charge.1, charge.2]
    refine ⟨_, _, rfl, rfl, ⟨?_, ?_, ?_⟩, fun covered => ?_⟩
    · simp only [Memory.resize, List.length_append, List.length_replicate, settled.length, bytes,
        larger]
      omega
    · exact totalEq.trans (by rw [larger])
    · have difference : (total - paid.mem.lastGasCost).toNat =
          total.toNat - paid.mem.lastGasCost.toNat :=
        UInt64.toNat_sub_of_le _ _ (UInt64.le_iff_toNat_le.mpr (by omega))
      rw [List.map_cons, List.sum_cons, difference, larger]
      omega
    · rw [settled.length] at covered
      unfold wordsOf at grows covered
      omega
  · have larger : wordsOf (max largest size.toNat) = wordsOf largest := by
      rw [wordsOf_max]
      omega
    rw [charge.1, charge.2]
    refine ⟨_, _, rfl, rfl, ⟨?_, ?_, ?_⟩, fun _ => rfl⟩
    · simp only [Memory.resize, List.length_append, List.length_replicate, settled.length, bytes,
        larger]
      omega
    · rw [larger]
      exact last
    · rw [List.map_cons, List.sum_cons, larger]
      exact (Nat.zero_add _).trans sum

end

theorem settled_of_run {sizes : List UInt64} (fit : ∀ size ∈ sizes, size ≤ squareFits) :
    ∀ {paid : Paid} {largest : Nat}, Settled paid largest →
      ∃ last, sizes.foldlM request paid = some last ∧
        Settled last ((sizes.map UInt64.toNat).foldl max largest) := by
  induction sizes with
  | nil =>
    intro paid largest settled
    exact ⟨paid, rfl, settled⟩
  | cons size sizes ih =>
    intro paid largest settled
    obtain ⟨next, fee, asked, _, after, _⟩ := settled.request (fit size List.mem_cons_self)
    obtain ⟨last, ran, final⟩ := ih (fun size later => fit size (List.mem_cons_of_mem _ later)) after
    refine ⟨last, ?_, final⟩
    rw [List.foldlM_cons, asked]
    exact ran

/-- Requests of fewer than `2 ^ 32` words cost together what the largest of them costs; at
every point of a frame no operation wraps around and memory that is there is free. -/
theorem memory_paid_exactly (evm : Evm) (sizes : List UInt64)
    (fit : ∀ size ∈ sizes, size ≤ squareFits) :
    ∃ paid, sizes.foldlM request ⟨evm, .new, []⟩ = some paid ∧
      (paid.fees.map UInt64.toNat).sum =
        memoryFee (wordsOf ((sizes.map UInt64.toNat).foldl max 0)) ∧
      ∀ size ≤ squareFits, Exact paid.mem size.toNat ∧
        (size.toNat ≤ paid.mem.store.length →
          ∃ next, request paid size = some next ∧ next.fees = 0 :: paid.fees) := by
  obtain ⟨paid, ran, settled⟩ := settled_of_run fit
    (show Settled ⟨evm, .new, []⟩ 0 from ⟨rfl, rfl, rfl⟩)
  refine ⟨paid, ran, settled.sum, fun size fits => ⟨settled.exact fits, fun covered => ?_⟩⟩
  obtain ⟨next, fee, asked, fees, _, free⟩ := settled.request fits
  rw [free covered] at fees
  exact ⟨next, asked, fees⟩

theorem memory_paid_exactly_three_words : ∃ paid,
    [64, 33, 96].foldlM request ⟨idle, .new, []⟩ = some paid ∧
      (paid.fees.map UInt64.toNat).sum = memoryFee 3 := by
  obtain ⟨paid, ran, sum, _⟩ := memory_paid_exactly idle [64, 33, 96] (by simp [squareFits])
  exact ⟨paid, ran, sum⟩

/-- `2 ^ 32` words are accepted, and their square is zero in 64 bits. -/
theorem square_wraps : ∃ paid, [0x2000000000].foldlM request ⟨idle, .new, []⟩ = some paid ∧
    (0x2000000000 : UInt64) ≤ maxMemSize ∧ (paid.fees.map UInt64.toNat).sum = 3 * 2 ^ 32 ∧
    memoryFee (wordsOf 0x2000000000) = 3 * 2 ^ 32 + 2 ^ 55 :=
  ⟨_, rfl, by decide, by decide +kernel, by decide⟩

end Linkeye.Vm.MemoryUse
