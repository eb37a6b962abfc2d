import Linkeye.Lib.Maps

/-!
# Byte strings, addresses and hashes

The fixed-size byte arrays of package `common`.  `Address`, `Hash` and `UUID`
are Go arrays, so a value carries its own length; `setBytes` is the cropping
and left-padding conversion that `BytesToAddress` and `BytesToHash` share.
-/

set_option autoImplicit false

namespace Linkeye.Common.Types

open Std

abbrev Bytes := List UInt8

/-- A Go array `[n]byte`. -/
structure FixedBytes (n : Nat) where
  data : Bytes
  length_data : data.length = n
deriving DecidableEq

abbrev Address := FixedBytes 20
abbrev Hash := FixedBytes 32
abbrev UUID := FixedBytes 16

section
variable {n : Nat}

theorem FixedBytes.data_inj {a b : FixedBytes n} (same : a.data = b.data) : a = b := by
  cases a
  cases b
  cases same
  rfl

def FixedBytes.zero (n : Nat) : FixedBytes n :=
  ⟨List.replicate n 0, List.length_replicate⟩

instance : Inhabited (FixedBytes n) := ⟨FixedBytes.zero n⟩

/-- `SetBytes`: a longer input is cropped from the left, a shorter one is
padded with zeros on the left. -/
def FixedBytes.setBytes (n : Nat) (b : Bytes) : FixedBytes n where
  data := List.replicate (n - b.length) 0 ++ b.drop (b.length - n)
  length_data := by
    simp only [List.length_append, List.length_replicate, List.length_drop]
    omega

theorem FixedBytes.setBytes_data (a : FixedBytes n) : FixedBytes.setBytes n a.data = a := by
  apply FixedBytes.data_inj
  simp [FixedBytes.setBytes, a.length_data]

instance : Ord (FixedBytes n) := ⟨fun a b => compare a.data b.data⟩

instance : OrientedOrd (FixedBytes n) where
  eq_swap := OrientedOrd.eq_swap (α := Bytes)

instance : TransOrd (FixedBytes n) where
  isLE_trans := TransOrd.isLE_trans (α := Bytes)

instance : LawfulEqOrd (FixedBytes n) where
  eq_of_compare same := FixedBytes.data_inj (LawfulEqOrd.eq_of_compare (α := Bytes) same)

end

instance : LawfulBEq Bytes := inferInstance
instance : TransOrd Address := inferInstance
instance : LawfulEqOrd Address := inferInstance
instance : LawfulBEq Address := inferInstance
instance : TransOrd Hash := inferInstance
instance : LawfulEqOrd Hash := inferInstance
instance : LawfulBEq Hash := inferInstance

def bytesToAddress (b : Bytes) : Address := FixedBytes.setBytes 20 b
def bytesToHash (b : Bytes) : Hash := FixedBytes.setBytes 32 b

theorem bytesToAddress_data (a : Address) : bytesToAddress a.data = a :=
  FixedBytes.setBytes_data a

/-- `common.Address{}`, the sender of no key and the address of an absent record. -/
def zeroAddress : Address := FixedBytes.zero 20

def emptyHash (h : Hash) : Bool := decide (h = FixedBytes.zero 32)

/-- `big.Int.Bytes`: the big-endian digits without leading zeros. -/
def bigBytes (n : Nat) : Bytes := (Nat.digits 256 n).reverse.map UInt8.ofNat

def bigSetBytes (b : Bytes) : Nat := Nat.ofDigits 256 (b.reverse.map UInt8.toNat)

theorem bigSetBytes_cons (x : UInt8) (b : Bytes) :
    bigSetBytes (x :: b) = bigSetBytes b + 256 ^ b.length * x.toNat := by
  simp [bigSetBytes, Nat.ofDigits_append]

theorem bigSetBytes_lt (b : Bytes) : bigSetBytes b < 256 ^ b.length := by
  induction b with
  | nil => simp [bigSetBytes]
  | cons x b ih =>
    have byte := x.toNat_lt
    rw [bigSetBytes_cons, List.length_cons, pow_succ]
    nlinarith

theorem bigSetBytes_bigBytes (n : Nat) : bigSetBytes (bigBytes n) = n := by
  have digitBytes : (Nat.digits 256 n).map (UInt8.toNat ∘ UInt8.ofNat) = Nat.digits 256 n := by
    rw [List.map_congr_left (g := id) ?_, List.map_id]
    intro digit member
    have small : digit < 256 := Nat.digits_lt_base (by norm_num) member
    simp [Nat.mod_eq_of_lt small]
  simp only [bigSetBytes, bigBytes, List.map_reverse, List.reverse_reverse, List.map_map]
  rw [digitBytes, Nat.ofDigits_digits]

theorem bigBytes_injective : Function.Injective bigBytes :=
  Function.LeftInverse.injective bigSetBytes_bigBytes

theorem bigBytes_length_le {n k : Nat} (bound : n < 256 ^ k) : (bigBytes n).length ≤ k := by
  simp only [bigBytes, List.length_map, List.length_reverse]
  exact (Nat.digits_length_le_iff (by norm_num) n).mpr bound

theorem lt_pow_length_bigBytes (n : Nat) : n < 256 ^ (bigBytes n).length := by
  simp only [bigBytes, List.length_map, List.length_reverse]
  exact Nat.lt_base_pow_length_digits (by norm_num)

theorem bigBytes_eq_nil_iff (n : Nat) : bigBytes n = [] ↔ n = 0 := by
  simp [bigBytes, Nat.digits_eq_nil_iff_eq_zero]

theorem bigBytes_head_ne_zero (n : Nat) : (bigBytes n).head? ≠ some 0 := by
  intro leading
  rcases Nat.eq_zero_or_pos n with zero | positive
  · simp [(bigBytes_eq_nil_iff n).mpr zero] at leading
  · have nonempty : Nat.digits 256 n ≠ [] :=
      Nat.digits_ne_nil_iff_ne_zero.mpr (Nat.ne_of_gt positive)
    have last := Nat.getLast_digit_ne_zero 256 (Nat.ne_of_gt positive)
    have small : (Nat.digits 256 n).getLast nonempty < 256 :=
      Nat.digits_lt_base (by norm_num) (List.getLast_mem nonempty)
    simp only [bigBytes, List.head?_map, List.head?_reverse,
      List.getLast?_eq_some_getLast nonempty, Option.map_some, Option.some.injEq] at leading
    have asNat := congrArg UInt8.toNat leading
    simp [Nat.mod_eq_of_lt small] at asNat
    exact last asNat

/-! ## `Address.String` -/

def hexDigit (nibble : Nat) : UInt8 :=
  if nibble < 10 then UInt8.ofNat (48 + nibble) else UInt8.ofNat (87 + nibble)

def nibbles (b : Bytes) : List Nat := b.flatMap fun x => [x.toNat / 16, x.toNat % 16]

def hexEncode (b : Bytes) : Bytes := (nibbles b).map hexDigit

/-- `Address.Hex`: a letter becomes a capital where the matching nibble of the
hash of the lower-case string is above 7. -/
def addressString (keccak : Bytes → Hash) (a : Address) : Bytes :=
  [48, 120] ++ List.zipWith
    (fun c nibble => if 57 < c ∧ 7 < nibble then c - 32 else c)
    (hexEncode a.data) (nibbles (keccak (hexEncode a.data)).data)

def lowerHex (c : UInt8) : UInt8 := if 57 < c ∧ c < 97 then c + 32 else c

theorem nibbles_lt {b : Bytes} {nibble : Nat} (member : nibble ∈ nibbles b) : nibble < 16 := by
  rw [nibbles, List.mem_flatMap] at member
  obtain ⟨x, _, half⟩ := member
  have small := x.toNat_lt
  simp only [List.mem_cons, List.not_mem_nil, or_false] at half
  omega

theorem length_nibbles (b : Bytes) : (nibbles b).length = 2 * b.length := by
  simp [nibbles, List.length_flatMap, Nat.mul_comm]

theorem hexDigit_injOn {n m : Nat} (left : n < 16) (right : m < 16)
    (same : hexDigit n = hexDigit m) : n = m := by
  revert same
  revert m
  decide +revert

theorem hexEncode_injective : Function.Injective hexEncode := by
  intro b b' same
  induction b generalizing b' with
  | nil =>
    cases b' with
    | nil => rfl
    | cons x' rest' => simp [hexEncode, nibbles] at same
  | cons x rest ih =>
    cases b' with
    | nil => simp [hexEncode, nibbles] at same
    | cons x' rest' =>
      simp only [hexEncode, nibbles, List.flatMap_cons, List.cons_append, List.nil_append,
        List.map_cons, List.cons.injEq] at same
      obtain ⟨high, low, others⟩ := same
      have xSmall := x.toNat_lt
      have xSmall' := x'.toNat_lt
      have sameHigh := hexDigit_injOn (by omega) (by omega) high
      have sameLow := hexDigit_injOn (by omega) (by omega) low
      have byte : x = x' := UInt8.toNat_inj.mp (by omega)
      rw [byte, ih others]

/-- Making the letters small again undoes the capitals of the checksum. -/
theorem lowerHex_addressDigit {nibble : Nat} (small : nibble < 16) (capital : Nat) :
    lowerHex (if 57 < hexDigit nibble ∧ 7 < capital then hexDigit nibble - 32
      else hexDigit nibble) = hexDigit nibble := by
  have plain : lowerHex (hexDigit nibble) = hexDigit nibble := by
    decide +revert
  have upper : 57 < hexDigit nibble → lowerHex (hexDigit nibble - 32) = hexDigit nibble := by
    decide +revert
  split
  · rename_i letter
    exact upper letter.1
  · exact plain

theorem map_lowerHex_zipWith (digits capitals : List Nat) (small : ∀ nibble ∈ digits, nibble < 16)
    (enough : digits.length ≤ capitals.length) :
    (List.zipWith (fun c nibble => if 57 < c ∧ 7 < nibble then c - 32 else c)
      (digits.map hexDigit) capitals).map lowerHex = digits.map hexDigit := by
  induction digits generalizing capitals with
  | nil => rfl
  | cons digit rest ih =>
    cases capitals with
    | nil => simp at enough
    | cons capital others =>
      rw [List.map_cons, List.zipWith_cons_cons, List.map_cons,
        lowerHex_addressDigit (small digit List.mem_cons_self),
        ih others (fun n member => small n (List.mem_cons_of_mem _ member))
          (Nat.le_of_succ_le_succ enough)]

theorem addressString_injective (keccak : Bytes → Hash) :
    Function.Injective (addressString keccak) := by
  intro a b same
  have recovered : ∀ a : Address,
      ((addressString keccak a).drop 2).map lowerHex = hexEncode a.data := by
    intro a
    have enough : (nibbles a.data).length ≤ (nibbles (keccak (hexEncode a.data)).data).length := by
      simp only [length_nibbles, FixedBytes.length_data]
      omega
    exact map_lowerHex_zipWith _ _ (fun _ => nibbles_lt) enough
  apply FixedBytes.data_inj
  apply hexEncode_injective
  rw [← recovered a, ← recovered b, same]

end Linkeye.Common.Types
