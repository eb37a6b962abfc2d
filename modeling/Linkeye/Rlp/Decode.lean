import Linkeye.Rlp.Encode

/-!
# RLP decoding

`Stream.readKind` and the decoding of a generic value, with the canonical-form
checks of the source: no single byte in string form, no long form for a size
below 56, no leading zero in a size.  Fuel bounds the nesting; `decodeBytes`
gives it more than any input can use, and `decodeBytes_encode` shows that every
encoding is read back.
-/

set_option autoImplicit false

namespace Linkeye.Rlp.Decode

open Common.Types Encode

/-- `Kind` with the size that `readKind` returns beside it. -/
inductive Kind where
  | byte (value : UInt8)
  | string (size : Nat)
  | list (size : Nat)
deriving DecidableEq

/-- `readUint` as it is used for sizes: `count` bytes, big endian. -/
def readUint (count : Nat) (input : Bytes) : Option (Nat × Bytes) :=
  if input.length < count then none
  else if 2 ≤ count ∧ input.head? = some 0 then none
  else some (bigSetBytes (input.take count), input.drop count)

/-- A size of 56 or more that follows the tag. -/
def readLongSize (count : Nat) (input : Bytes) : Option (Nat × Bytes) :=
  match readUint count input with
  | none => none
  | some (size, rest) => if size < 56 then none else some (size, rest)

def readKind : Bytes → Option (Kind × Bytes)
  | [] => none
  | b :: rest =>
    if b < 0x80 then some (.byte b, rest)
    else if b < 0xB8 then some (.string (b.toNat - 0x80), rest)
    else if b < 0xC0 then
      (readLongSize (b.toNat - 0xB7) rest).map fun sized => (.string sized.1, sized.2)
    else if b < 0xF8 then some (.list (b.toNat - 0xC0), rest)
    else (readLongSize (b.toNat - 0xF7) rest).map fun sized => (.list sized.1, sized.2)

/-- `Stream.Bytes` after the header: the content must be there, and one byte
below `0x80` should have been its own encoding. -/
def readString (size : Nat) (input : Bytes) : Option (Bytes × Bytes) :=
  if input.length < size then none
  else if size = 1 ∧ (input.head?.any fun b => decide (b < 0x80)) then none
  else some (input.take size, input.drop size)

mutual
def decodeValue : Nat → Bytes → Option (Item × Bytes)
  | 0, _ => none
  | fuel + 1, input =>
    match readKind input with
    | none => none
    | some (.byte value, rest) => some (.bytes [value], rest)
    | some (.string size, rest) =>
      (readString size rest).map fun content => (.bytes content.1, content.2)
    | some (.list size, rest) =>
      if rest.length < size then none
      else (decodeElems fuel (rest.take size)).map fun items => (.list items, rest.drop size)
def decodeElems : Nat → Bytes → Option (List Item)
  | _, [] => some []
  | 0, _ :: _ => none
  | fuel + 1, input@(_ :: _) =>
    match decodeValue fuel input with
    | none => none
    | some (item, rest) => (decodeElems fuel rest).map fun items => item :: items
end

/-- `DecodeBytes` into a generic value: exactly one value, no trailing data. -/
def decodeBytes (b : Bytes) : Option Item :=
  match decodeValue (2 * b.length + 2) b with
  | some (item, []) => some item
  | _ => none

/-! ## Field readers -/

/-- `decodeUint` into an unsigned integer of `bits` bits. -/
def decodeUint (bits : Nat) : Item → Option Nat
  | .bytes b =>
    if b.head? = some 0 ∨ bits / 8 < b.length then none else some (bigSetBytes b)
  | .list _ => none

def decodeBigInt : Item → Option Nat
  | .bytes b => if b.head? = some 0 then none else some (bigSetBytes b)
  | .list _ => none

def decodeByteSlice : Item → Option Bytes
  | .bytes b => some b
  | .list _ => none

def decodeByteArray (n : Nat) : Item → Option (FixedBytes n)
  | .bytes b => if length : b.length = n then some ⟨b, length⟩ else none
  | .list _ => none

/-- `makeOptionalPtrDecoder` for a pointer to a byte array: any value of size
zero is nil. -/
def decodeByteArrayPtr (n : Nat) : Item → Option (Option (FixedBytes n))
  | .bytes [] => some none
  | .list [] => some none
  | item => (decodeByteArray n item).map some

/-- `decodeListSlice`: every element with the element type's decoder. -/
def decodeListSlice {α : Type} (elem : Item → Option α) : Item → Option (List α)
  | .bytes _ => none
  | .list items => items.mapM elem

variable {n size : Nat} {b : Bytes}

theorem decodeUint_writeUint {bits : Nat} (fits : n < 256 ^ (bits / 8)) :
    decodeUint bits (writeUint n) = some n := by
  have length := bigBytes_length_le fits
  have leading := bigBytes_head_ne_zero n
  simp only [decodeUint, writeUint]
  rw [if_neg (by rintro (zero | long); exacts [leading zero, not_lt.mpr length long]),
    bigSetBytes_bigBytes]

theorem decodeBigInt_bigBytes (n : Nat) : decodeBigInt (.bytes (bigBytes n)) = some n := by
  simp only [decodeBigInt]
  rw [if_neg (bigBytes_head_ne_zero n), bigSetBytes_bigBytes]

theorem decodeByteArray_writeByteArray (a : FixedBytes n) :
    decodeByteArray n (writeByteArray a) = some a := by
  simp [decodeByteArray, writeByteArray, a.length_data]

theorem decodeListSlice_map {α : Type} (elem : Item → Option α) (write : α → Item)
    (readBack : ∀ a, elem (write a) = some a) (values : List α) :
    decodeListSlice elem (.list (values.map write)) = some values := by
  simp only [decodeListSlice]
  induction values with
  | nil => rfl
  | cons value rest ih => simp [List.mapM_cons, readBack, ih]

/-! ## Headers are read back -/

theorem maxInt_lt : maxInt < 256 ^ 8 := by
  norm_num [maxInt]

theorem putint_length_pos (long : 56 ≤ size) : 0 < (putint size).length := by
  rw [List.length_pos_iff_ne_nil]
  intro empty
  have zero := (bigBytes_eq_nil_iff size).mp empty
  omega

theorem readLongSize_putint (long : 56 ≤ size) (rest : Bytes) :
    readLongSize (putint size).length (putint size ++ rest) = some (size, rest) := by
  have nonempty : putint size ≠ [] := List.ne_nil_of_length_pos (putint_length_pos long)
  have notZero : (putint size ++ rest).head? ≠ some 0 := by
    intro leading
    rw [List.head?_append_of_ne_nil _ nonempty] at leading
    exact bigBytes_head_ne_zero size leading
  have value : bigSetBytes (putint size) = size := bigSetBytes_bigBytes size
  have read : readUint (putint size).length (putint size ++ rest) = some (size, rest) := by
    rw [readUint, if_neg (by simp), if_neg (fun bad => notZero bad.2), List.take_left,
      List.drop_left, value]
  simp only [readLongSize, read]
  rw [if_neg (not_lt.mpr long)]

theorem tag_toNat {tag : UInt8} (fits : tag.toNat + n < 256) :
    (tag + UInt8.ofNat n).toNat = tag.toNat + n := by
  rw [UInt8.toNat_add, UInt8.toNat_ofNat']
  omega

theorem readKind_puthead {small large : UInt8} {make : Nat → Kind}
    (shape : small = 0x80 ∧ large = 0xB7 ∧ make = .string ∨
      small = 0xC0 ∧ large = 0xF7 ∧ make = .list) (short : size < maxInt) (rest : Bytes) :
    readKind (puthead small large size ++ rest) = some (make size, rest) := by
  by_cases tiny : size < 56
  · have tag : (small + UInt8.ofNat size).toNat = small.toNat + size := by
      rcases shape with ⟨rfl, _⟩ | ⟨rfl, _⟩ <;> exact tag_toNat (by simp; omega)
    simp only [puthead, tiny, if_true, List.singleton_append, readKind, UInt8.lt_iff_toNat_lt, tag]
    rcases shape with ⟨rfl, _, rfl⟩ | ⟨rfl, _, rfl⟩ <;> simp only [UInt8.reduceToNat] <;>
      split_ifs <;> first | omega | rw [Nat.add_sub_cancel_left]
  · have sizeBytes : (putint size).length ≤ 8 :=
      bigBytes_length_le (lt_trans short maxInt_lt)
    have positive := putint_length_pos (not_lt.mp tiny)
    have tag : (large + UInt8.ofNat (putint size).length).toNat =
        large.toNat + (putint size).length := by
      rcases shape with ⟨_, rfl, _⟩ | ⟨_, rfl, _⟩ <;> exact tag_toNat (by simp; omega)
    simp only [puthead, tiny, if_false, List.cons_append, readKind, UInt8.lt_iff_toNat_lt, tag]
    rcases shape with ⟨_, rfl, rfl⟩ | ⟨_, rfl, rfl⟩ <;> simp only [UInt8.reduceToNat] <;>
      split_ifs <;> first
        | omega
        | rw [Nat.add_sub_cancel_left, readLongSize_putint (not_lt.mp tiny) rest]; rfl

/-! ## Values are read back -/

theorem puthead_length_pos (smalltag largetag : UInt8) (size : Nat) :
    0 < (puthead smalltag largetag size).length := by
  by_cases small : size < 56 <;> simp [puthead, small]

theorem encode_length_pos (item : Item) : 0 < (encode item).length := by
  cases item with
  | bytes b =>
    match b with
    | [] => simp [encode, encodeString, encodeStringHeader, puthead]
    | [single] =>
      simp only [encode, encodeString]
      split <;> simp [encodeStringHeader, puthead]
    | _ :: _ :: _ =>
      simp only [encode, encodeString, encodeStringHeader, List.length_append]
      have := puthead_length_pos 0x80 0xB7
      grind
  | list items =>
    simp only [encode, List.length_append]
    exact Nat.add_pos_left (puthead_length_pos _ _ _) _

/-- A string in header form is read back when its header was needed. -/
theorem decodeValue_headed_string {fuel : Nat} (rest : Bytes) (short : b.length < maxInt)
    (needed : ∀ single, b = [single] → ¬ single ≤ 0x7F) :
    decodeValue (fuel + 1) (encodeStringHeader b.length ++ b ++ rest) = some (.bytes b, rest) := by
  have content : readString b.length (b ++ rest) = some (b, rest) := by
    have notSingle :
        ¬(b.length = 1 ∧ ((b ++ rest).head?.any fun x => decide (x < 0x80)) = true) := by
      rintro ⟨one, small⟩
      obtain ⟨single, rfl⟩ := List.length_eq_one_iff.mp one
      have big := needed single rfl
      simp only [List.cons_append, List.nil_append, List.head?_cons, Option.any_some,
        decide_eq_true_eq] at small
      rw [UInt8.le_iff_toNat_le] at big
      rw [UInt8.lt_iff_toNat_lt] at small
      simp only [UInt8.reduceToNat] at big small
      omega
    rw [readString, if_neg (by simp), if_neg notSingle, List.take_left, List.drop_left]
  rw [List.append_assoc, encodeStringHeader, decodeValue, readKind_puthead (.inl ⟨rfl, rfl, rfl⟩) short]
  simp only [content, Option.map_some]

theorem decodeValue_string {fuel : Nat} (rest : Bytes) (short : b.length < maxInt) :
    decodeValue (fuel + 1) (encodeString b ++ rest) = some (.bytes b, rest) := by
  match b with
  | [] =>
    rw [encodeString]
    · exact decodeValue_headed_string rest short (by simp)
    · simp
  | [single] =>
    by_cases plain : single ≤ 0x7F
    · have below : single < 0x80 := by
        rw [UInt8.le_iff_toNat_le] at plain
        rw [UInt8.lt_iff_toNat_lt]
        simp only [UInt8.reduceToNat] at plain ⊢
        omega
      simp only [encodeString, plain, if_true, List.singleton_append, decodeValue, readKind,
        below]
    · have headed := @decodeValue_headed_string [single] fuel rest short
        (by simpa using plain)
      rw [List.length_singleton] at headed
      rw [encodeString, if_neg plain]
      exact headed
  | first :: second :: tail =>
    rw [encodeString]
    · exact decodeValue_headed_string rest short (by simp)
    · simp

theorem encodeString_length (b : Bytes) : b.length ≤ (encodeString b).length := by
  match b with
  | [] => simp
  | [single] =>
    simp only [encodeString]
    split <;> simp
  | first :: second :: tail => simp [encodeString]

mutual
theorem decodeValue_encode : (item : Item) → (fuel : Nat) → (rest : Bytes) →
    (encode item).length < maxInt → 2 * (encode item).length ≤ fuel →
    decodeValue fuel (encode item ++ rest) = some (item, rest)
  | .bytes b, fuel, rest, short, enough => by
    have positive := encode_length_pos (.bytes b)
    obtain ⟨less, rfl⟩ : ∃ less, fuel = less + 1 := ⟨fuel - 1, by omega⟩
    rw [encode] at short ⊢
    exact decodeValue_string rest (lt_of_le_of_lt (encodeString_length b) short)
  | .list items, fuel, rest, short, enough => by
    have head := puthead_length_pos 0xC0 0xF7 (encodeItems items).length
    simp only [encode, List.length_append] at short enough
    obtain ⟨less, rfl⟩ : ∃ less, fuel = less + 1 := ⟨fuel - 1, by omega⟩
    have elems := decodeElems_encodeItems items less (by omega) (by omega)
    rw [encode, List.append_assoc, decodeValue, readKind_puthead (.inr ⟨rfl, rfl, rfl⟩) (by omega)]
    simp [elems]
theorem decodeElems_encodeItems : (items : List Item) → (fuel : Nat) →
    (encodeItems items).length < maxInt → 2 * (encodeItems items).length + 1 ≤ fuel →
    decodeElems fuel (encodeItems items) = some items
  | [], fuel, _, _ => by
    cases fuel <;> simp [encodeItems, decodeElems]
  | item :: more, fuel, short, enough => by
    have positive := encode_length_pos item
    simp only [encodeItems, List.length_append] at short enough
    obtain ⟨less, rfl⟩ : ∃ less, fuel = less + 1 := ⟨fuel - 1, by omega⟩
    have headRead := decodeValue_encode item less (encodeItems more) (by omega) (by omega)
    have tailRead := decodeElems_encodeItems more less (by omega) (by omega)
    cases spelled : encodeItems (item :: more) with
    | nil =>
      have length := congrArg List.length spelled
      simp only [encodeItems, List.length_append, List.length_nil] at length
      omega
    | cons first others =>
      rw [decodeElems, ← spelled, encodeItems, headRead]
      simp only [tailRead, Option.map_some]
end

theorem decodeBytes_encode {item : Item} (short : (encode item).length < maxInt) :
    decodeBytes (encode item) = some item := by
  have read := decodeValue_encode item (2 * (encode item).length + 2) [] short (by omega)
  rw [List.append_nil] at read
  simp only [decodeBytes, read]

theorem encode_append_inj {left right : Item} {restLeft restRight : Bytes}
    (leftShort : (encode left).length < maxInt) (rightShort : (encode right).length < maxInt)
    (same : encode left ++ restLeft = encode right ++ restRight) :
    left = right ∧ restLeft = restRight := by
  have leftRead := decodeValue_encode left
    (2 * (encode left).length + 2 * (encode right).length) restLeft leftShort (by omega)
  have rightRead := decodeValue_encode right
    (2 * (encode left).length + 2 * (encode right).length) restRight rightShort (by omega)
  rw [same, rightRead] at leftRead
  cases leftRead
  exact ⟨rfl, rfl⟩

theorem decodeBytes_encodeToBytes {item : Item} (success : encodeToBytes item = some b) :
    decodeBytes b = some item := by
  obtain ⟨rfl, short⟩ := encodeToBytes_eq_some success
  exact decodeBytes_encode short

theorem encodeToBytes_injective {left right : Item} (leftBytes : encodeToBytes left = some b)
    (rightBytes : encodeToBytes right = some b) :
    left = right := by
  have leftRead := decodeBytes_encodeToBytes leftBytes
  have rightRead := decodeBytes_encodeToBytes rightBytes
  exact Option.some.inj (leftRead.symm.trans rightRead)

end Linkeye.Rlp.Decode
