import Linkeye.Common.Types

/-!
# RLP encoding

The generic values of package `rlp` (byte strings and nested lists) and the
bytes the encoder writes for them.  Struct and slice writers are lists of their
fields, unsigned and big integers are byte strings without leading zeros.
`encodeToBytes` fails where Go cannot build the output slice: a length is an
`int`, so an encoding of `2 ^ 63` bytes or more does not exist.
-/

set_option autoImplicit false

namespace Linkeye.Rlp.Encode

open Common.Types

inductive Item where
  | bytes (b : Bytes)
  | list (items : List Item)

/-- `putint`; sizes are never zero where it is called, so the shortest
big-endian form is what it writes. -/
def putint (i : Nat) : Bytes := bigBytes i

def puthead (smalltag largetag : UInt8) (size : Nat) : Bytes :=
  if size < 56 then [smalltag + UInt8.ofNat size]
  else (largetag + UInt8.ofNat (putint size).length) :: putint size

def encodeStringHeader (size : Nat) : Bytes := puthead 0x80 0xB7 size

/-- A single byte up to `0x7F` is its own encoding. -/
def encodeString (b : Bytes) : Bytes :=
  match b with
  | [single] => if single ≤ 0x7F then [single] else encodeStringHeader 1 ++ b
  | _ => encodeStringHeader b.length ++ b

mutual
def encode : Item → Bytes
  | .bytes b => encodeString b
  | .list items =>
    puthead 0xC0 0xF7 (encodeItems items).length ++ encodeItems items
def encodeItems : List Item → Bytes
  | [] => []
  | item :: rest => encode item ++ encodeItems rest
end

def maxInt : Nat := 2 ^ 63

def encodeToBytes (item : Item) : Option Bytes :=
  if (encode item).length < maxInt then some (encode item) else none

theorem encodeToBytes_eq_some {item : Item} {b : Bytes}
    (success : encodeToBytes item = some b) :
    encode item = b ∧ (encode item).length < maxInt := by
  simp only [encodeToBytes] at success
  split at success
  · rename_i short
    exact ⟨Option.some.inj success, short⟩
  · cases success

theorem encodeString_of_long {b : Bytes} (long : 2 ≤ b.length) :
    encodeString b = encodeStringHeader b.length ++ b := by
  match b with
  | [] => simp at long
  | [single] => simp at long
  | _ :: _ :: _ => rfl

/-! ## Field writers -/

def writeUint (n : Nat) : Item := .bytes (bigBytes n)

/-- `writeBigInt`: negative integers have no encoding. -/
def writeBigInt (i : Int) : Option Item :=
  if i < 0 then none else some (.bytes (bigBytes i.toNat))

def writeByteArray {n : Nat} (a : FixedBytes n) : Item := .bytes a.data

/-- `makePtrWriter` for a pointer to a byte array: nil is the empty string. -/
def writeByteArrayPtr {n : Nat} : Option (FixedBytes n) → Item
  | none => .bytes []
  | some a => writeByteArray a

theorem writeUint_injective : Function.Injective writeUint := by
  intro left right same
  exact bigBytes_injective (Item.bytes.inj same)

theorem writeBigInt_eq_some {i : Int} {item : Item} (success : writeBigInt i = some item) :
    0 ≤ i ∧ item = .bytes (bigBytes i.toNat) := by
  simp only [writeBigInt] at success
  split at success
  · cases success
  · rename_i nonneg
    exact ⟨not_lt.mp nonneg, (Option.some.inj success).symm⟩

theorem writeBigInt_natCast (n : Nat) : writeBigInt n = some (.bytes (bigBytes n)) := by
  have nonneg : ¬ (n : Int) < 0 := by omega
  rw [writeBigInt, if_neg nonneg, Int.toNat_natCast]

theorem writeBigInt_injective {i j : Int} {item : Item}
    (left : writeBigInt i = some item) (right : writeBigInt j = some item) : i = j := by
  obtain ⟨leftNonneg, leftItem⟩ := writeBigInt_eq_some left
  obtain ⟨rightNonneg, rightItem⟩ := writeBigInt_eq_some right
  have sameBytes : bigBytes i.toNat = bigBytes j.toNat :=
    Item.bytes.inj (leftItem.symm.trans rightItem)
  have sameNat : i.toNat = j.toNat := bigBytes_injective sameBytes
  omega

theorem writeByteArray_injective {n : Nat} :
    Function.Injective (writeByteArray (n := n)) := by
  intro left right same
  exact FixedBytes.data_inj (Item.bytes.inj same)

/-- A nil pointer and an array of at least one byte never share an encoding. -/
theorem writeByteArrayPtr_injective {n : Nat} (positive : 0 < n) :
    Function.Injective (writeByteArrayPtr (n := n)) := by
  have notEmpty : ∀ a : FixedBytes n, writeByteArray a ≠ .bytes [] := by
    intro a empty
    have length := a.length_data
    rw [Item.bytes.inj empty] at length
    simp only [List.length_nil] at length
    omega
  intro left right same
  cases left with
  | none =>
    cases right with
    | none => rfl
    | some b => exact absurd same.symm (notEmpty b)
  | some a =>
    cases right with
    | none => exact absurd same (notEmpty a)
    | some b => rw [writeByteArray_injective same]

end Linkeye.Rlp.Encode
