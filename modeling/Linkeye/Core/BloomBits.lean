import Linkeye.Common.Types
import Linkeye.Lib.ByteBits

/-!
# Bloom bits

`core/bloombits/generator.go`: the blooms of a section are turned into one vector for each
of the 2048 bits.  `Bitset` compares the number of the bit with the size of the section.
-/

set_option autoImplicit false

namespace Linkeye.Core.BloomBits

open Common.Types
open Lib.ByteBits (Clear clear_modify mask mask_and_mask)

/-! ## The generator -/

abbrev Bloom := FixedBytes 256

def bloomByteLength : Nat := 256
def bloomBitLength : Nat := 8 * bloomByteLength

inductive GeneratorError where
  | sectionCountNotMultipleOf8
  | errSectionOutOfBounds
  | unexpectedIndex
  | notFullyGenerated

structure Generator where
  blooms : List Bytes
  sections : Nat
  nextBit : Nat

def newGenerator (sections : Nat) : Except GeneratorError Generator :=
  if sections % 8 ≠ 0 then .error .sectionCountNotMultipleOf8
  else .ok ⟨List.replicate bloomBitLength (List.replicate (sections / 8) 0), sections, 0⟩

/-- The test of `AddBloom` for a bit of the bloom. -/
def bitIsSet (bloom : Bloom) (i : Nat) : Bool :=
  bloom.data.getD (bloomByteLength - 1 - i / 8) 0 &&& (1 <<< UInt8.ofNat (i % 8)) != 0

def Generator.addBloom (b : Generator) (index : Nat) (bloom : Bloom) :
    Except GeneratorError Generator :=
  if b.sections ≤ b.nextBit then .error .errSectionOutOfBounds
  else if b.nextBit ≠ index then .error .unexpectedIndex
  else
    let bitMask : UInt8 := 1 <<< UInt8.ofNat (7 - b.nextBit % 8)
    .ok { b with
      blooms := b.blooms.mapIdx fun i row =>
        if bitIsSet bloom i = true then row.modify (b.nextBit / 8) fun byte => byte ||| bitMask
        else row
      nextBit := b.nextBit + 1 }

def Generator.bitset (b : Generator) (idx : Nat) : Except GeneratorError Bytes :=
  if b.nextBit ≠ b.sections then .error .notFullyGenerated
  else if b.sections ≤ idx then .error .errSectionOutOfBounds
  else .ok (b.blooms.getD idx [])

/-- Blooms are added in order. -/
def addAll (blooms : List Bloom) (b : Generator) : Except GeneratorError Generator :=
  (blooms.zipIdx b.nextBit).foldlM (fun b bloom => b.addBloom bloom.2 bloom.1) b

/-! ## Bits of a bloom -/

theorem testBit_ofDigits (bytes : Bytes) (i : Nat) :
    (Nat.ofDigits 256 (bytes.map UInt8.toNat)).testBit i =
      (bytes.getD (i / 8) 0).toNat.testBit (i % 8) := by
  induction bytes generalizing i with
  | nil => simp
  | cons byte bytes ih =>
    rw [List.map_cons, Nat.ofDigits_cons, Nat.add_comm]
    rw [show (256 : Nat) = 2 ^ 8 from rfl, Nat.testBit_two_pow_mul_add _ byte.toNat_lt]
    split
    · rw [Nat.div_eq_of_lt ‹i < 8›, Nat.mod_eq_of_lt ‹i < 8›]
      rfl
    · obtain ⟨j, rfl⟩ := Nat.exists_eq_add_of_le' (Nat.le_of_not_lt ‹¬ i < 8›)
      rw [Nat.add_sub_cancel, Nat.add_div_right j (by decide), Nat.add_mod_right]
      exact ih j

theorem and_shift_eq_testBit (byte : UInt8) (k : Fin 8) :
    (byte &&& (1 <<< UInt8.ofNat k.val) != 0) = byte.toNat.testBit k.val := by
  have power : ∀ k : Fin 8, (1 <<< UInt8.ofNat k.val : UInt8).toNat = 2 ^ k.val := by decide
  rw [Bool.eq_iff_iff, bne_iff_ne, Ne, ← UInt8.toNat_inj, UInt8.toNat_and, power, Nat.and_two_pow]
  cases byte.toNat.testBit k.val with
  | false => simp
  | true => simp

/-- The bit that is tested is that of the bloom as a number. -/
theorem bitIsSet_eq (bloom : Bloom) {i : Nat} (small : i < bloomBitLength) :
    bitIsSet bloom i = (bigSetBytes bloom.data).testBit i := by
  have inside : i / 8 < bloom.data.length := by
    rw [bloom.length_data, Nat.div_lt_iff_lt_mul (by decide)]
    exact small
  rw [bigSetBytes, testBit_ofDigits, List.getD_eq_getElem?_getD, List.getElem?_reverse inside,
    bloom.length_data, ← List.getD_eq_getElem?_getD]
  exact and_shift_eq_testBit _ ⟨i % 8, by omega⟩

/-! ## The vectors -/

/-- So far the vectors hold the columns of these blooms. -/
structure Columns (size : Nat) (done : List Bloom) (b : Generator) : Prop where
  sections : b.sections = size
  nextBit : b.nextBit = done.length
  rows : b.blooms.length = bloomBitLength
  row : ∀ {i row}, b.blooms[i]? = some row → row.length = size / 8 ∧
    ∀ j, Clear row j ↔ ∀ bloom, done[j]? = some bloom → bitIsSet bloom i = false

section
variable {size : Nat} {done : List Bloom} {b : Generator}

theorem columns_newGenerator (multiple : size % 8 = 0) :
    ∃ b, newGenerator size = .ok b ∧ Columns size [] b := by
  refine ⟨_, if_neg (not_not.mpr multiple), rfl, rfl, List.length_replicate, fun found => ?_⟩
  rw [List.eq_of_mem_replicate (List.mem_of_getElem? found)]
  exact ⟨List.length_replicate, fun j => by simp [Clear]⟩

theorem Columns.addBloom (columns : Columns size done b) (multiple : size % 8 = 0)
    (room : done.length < size) (bloom : Bloom) :
    ∃ next, b.addBloom b.nextBit bloom = .ok next ∧ Columns size (done ++ [bloom]) next := by
  have bitMask : ∀ k : Fin 8, (1 <<< UInt8.ofNat (7 - k.val) : UInt8) = 0x80 >>> UInt8.ofNat k.val := by
    decide
  rw [Generator.addBloom, if_neg (by rw [columns.sections, columns.nextBit]; omega),
    if_neg (not_not.mpr rfl)]
  refine ⟨_, rfl, columns.sections, ?_, List.length_mapIdx.trans columns.rows, fun {i row} found => ?_⟩
  · rw [List.length_append, columns.nextBit]
    rfl
  · rw [List.getElem?_mapIdx, Option.map_eq_some_iff] at found
    obtain ⟨old, foundOld, rfl⟩ := found
    obtain ⟨length, bits⟩ := columns.row foundOld
    have added : ∀ j, (∀ other, (done ++ [bloom])[j]? = some other → bitIsSet other i = false) ↔
        (∀ other, done[j]? = some other → bitIsSet other i = false) ∧
          (done.length = j → bitIsSet bloom i = false) := by
      intro j
      obtain less | rfl | more := Nat.lt_trichotomy j done.length
      · rw [List.getElem?_append_left less]
        exact (and_iff_left fun same => absurd same (Nat.ne_of_gt less)).symm
      · simp
      · rw [List.getElem?_eq_none (by simpa using more), List.getElem?_eq_none (Nat.le_of_lt more)]
        exact (and_iff_left fun same => absurd same (Nat.ne_of_lt more)).symm
    split
    · rename_i set
      refine ⟨(List.length_modify _ _ _).trans length, fun j => ?_⟩
      rw [clear_modify (by rw [columns.nextBit]; omega), bits, added, columns.nextBit, set]
      refine and_congr_right fun _ => ?_
      rw [show _ = mask done.length from bitMask ⟨done.length % 8, by omega⟩, mask_and_mask]
      simp only [Bool.true_eq_false, imp_false]
      omega
    · rename_i unset
      refine ⟨length, fun j => ?_⟩
      rw [bits, added]
      exact (and_iff_left fun _ => Bool.eq_false_iff.mpr unset).symm

theorem columns_addAll (multiple : size % 8 = 0) (blooms : List Bloom) :
    ∀ {done : List Bloom} {b : Generator}, Columns size done b →
      done.length + blooms.length ≤ size →
        ∃ full, addAll blooms b = .ok full ∧ Columns size (done ++ blooms) full := by
  induction blooms with
  | nil =>
    intro done b columns _
    exact ⟨b, rfl, by rwa [List.append_nil]⟩
  | cons bloom blooms ih =>
    intro done b columns room
    rw [List.length_cons] at room
    obtain ⟨next, added, after⟩ := columns.addBloom multiple (by omega) bloom
    have index : next.nextBit = b.nextBit + 1 := by
      rw [after.nextBit, columns.nextBit, List.length_append, List.length_singleton]
    obtain ⟨full, rest, final⟩ := ih after (by rw [List.length_append, List.length_singleton]; omega)
    refine ⟨full, ?_, by rwa [List.append_assoc] at final⟩
    rw [addAll, index] at rest
    rw [addAll, List.zipIdx_cons, List.foldlM_cons, added]
    exact rest

end

/-- With a bloom for every bit of its vectors the generator holds the transposed blooms, and
hands out those whose number is below the size of the section. -/
theorem bitset_transposes (sections : Nat) (multiple : sections % 8 = 0) (blooms : List Bloom)
    (full : blooms.length = sections) :
    ∃ start b, newGenerator sections = .ok start ∧ addAll blooms start = .ok b ∧
      ∀ i < bloomBitLength,
        if i < sections then
          ∃ bits, b.bitset i = .ok bits ∧ bits.length = sections / 8 ∧
            ∀ j bloom, blooms[j]? = some bloom →
              (Clear bits j ↔ (bigSetBytes bloom.data).testBit i = false)
        else b.bitset i = .error .errSectionOutOfBounds := by
  obtain ⟨start, made, empty⟩ := columns_newGenerator multiple
  obtain ⟨b, added, columns⟩ := columns_addAll multiple blooms empty (by simp [full])
  refine ⟨start, b, made, added, fun i small => ?_⟩
  have complete : b.nextBit = b.sections := by
    rw [columns.nextBit, columns.sections]
    exact full
  have inside : i < b.blooms.length := columns.rows ▸ small
  obtain ⟨length, bits⟩ := columns.row (List.getElem?_eq_getElem inside)
  rw [Generator.bitset, if_neg (not_not.mpr complete), columns.sections]
  split
  · refine ⟨_, if_neg (by omega), ?_⟩
    rw [List.getD_eq_getElem _ _ inside]
    refine ⟨length, fun j bloom found => ?_⟩
    rw [bits j, ← bitIsSet_eq bloom small]
    exact ⟨fun clear => clear bloom found, fun unset other again => by
      rw [List.nil_append, found] at again
      exact Option.some.inj again ▸ unset⟩
  · exact if_pos (by omega)

def zeroBlooms : List Bloom := List.replicate 8 (FixedBytes.zero 256)

theorem bitset_transposes_zeroBlooms : ∃ start b, newGenerator 8 = .ok start ∧
    addAll zeroBlooms start = .ok b ∧ ∃ bits, b.bitset 7 = .ok bits ∧ Clear bits 0 := by
  obtain ⟨start, b, made, added, columns⟩ := bitset_transposes 8 rfl zeroBlooms rfl
  have column := columns 7 (by decide)
  rw [if_pos (by decide)] at column
  obtain ⟨bits, found, _, clear⟩ := column
  exact ⟨start, b, made, added, bits, found, (clear 0 _ rfl).mpr (by decide +kernel)⟩

/-- The ninth bit of eight blooms is refused. -/
theorem bitset_refuses_ninth_bit : ∃ start b, newGenerator 8 = .ok start ∧
    addAll zeroBlooms start = .ok b ∧ 8 < bloomBitLength ∧
    b.bitset 8 = .error .errSectionOutOfBounds :=
  ⟨_, _, rfl, rfl, by decide, rfl⟩

end Linkeye.Core.BloomBits
