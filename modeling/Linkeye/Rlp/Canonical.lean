import Linkeye.Rlp.Decode

/-!
# One encoding for each value

What the decoder accepts is the encoding of what it returns, byte for byte: the
canonical-form checks leave no second spelling.
-/

set_option autoImplicit false

namespace Linkeye.Rlp.Canonical

open Common.Types Encode Decode

/-! ## Sizes -/

variable {b input rest : Bytes} {size : Nat} {item : Item}

theorem bigBytes_bigSetBytes (leading : b.head? ≠ some 0) :
    bigBytes (bigSetBytes b) = b := by
  have digits : Nat.digits 256 (bigSetBytes b) = b.reverse.map UInt8.toNat := by
    rw [bigSetBytes]
    apply Nat.digits_ofDigits 256 (by norm_num)
    · intro digit member
      obtain ⟨x, _, rfl⟩ := List.mem_map.mp member
      exact x.toNat_lt
    · intro nonempty zero
      rw [List.getLast_map] at zero
      cases b with
      | nil => simp at nonempty
      | cons first rest =>
        rw [List.getLast_reverse, List.head_cons] at zero
        have first_zero : first = 0 := UInt8.toNat_inj.mp zero
        exact leading (by rw [List.head?_cons, first_zero])
  rw [bigBytes, digits, ← List.map_reverse, List.reverse_reverse, List.map_map]
  have same : UInt8.ofNat ∘ UInt8.toNat = id := by
    funext x
    exact UInt8.ofNat_toNat
  rw [same, List.map_id]

theorem readLongSize_eq_some {count : Nat} (read : readLongSize count input = some (size, rest)) :
    input = putint size ++ rest ∧ (putint size).length = count ∧ 56 ≤ size := by
  rw [readLongSize, readUint] at read
  by_cases short : input.length < count
  · simp [short] at read
  by_cases zero : 2 ≤ count ∧ input.head? = some 0
  · simp [short, zero] at read
  rw [if_neg short, if_neg zero] at read
  dsimp only at read
  by_cases small : bigSetBytes (input.take count) < 56
  · simp [small] at read
  rw [if_neg small] at read
  cases read
  have leading : (input.take count).head? ≠ some 0 := by
    intro head
    cases input with
    | nil => simp at head
    | cons first others =>
      cases count with
      | zero => simp at head
      | succ less =>
        rw [List.take_succ_cons, List.head?_cons, Option.some.injEq] at head
        subst head
        cases less with
        | zero => exact small (by simp [bigSetBytes])
        | succ _ => exact zero ⟨by omega, rfl⟩
  have spelled : putint (bigSetBytes (input.take count)) = input.take count :=
    bigBytes_bigSetBytes leading
  rw [spelled, List.take_append_drop, List.length_take]
  exact ⟨rfl, Nat.min_eq_left (not_lt.mp short), not_lt.mp small⟩

/-! ## Headers -/

theorem puthead_short {smalltag largetag b : UInt8} (small : size < 56)
    (tag : smalltag.toNat + size = b.toNat) : puthead smalltag largetag size = [b] := by
  rw [puthead, if_pos small]
  have bound := b.toNat_lt
  have same : smalltag + UInt8.ofNat size = b := by
    apply UInt8.toNat_inj.mp
    rw [UInt8.toNat_add, UInt8.toNat_ofNat', ← tag]
    omega
  rw [same]

theorem puthead_long {smalltag largetag b : UInt8} (large : 56 ≤ size)
    (tag : largetag.toNat + (putint size).length = b.toNat) :
    puthead smalltag largetag size = b :: putint size := by
  rw [puthead, if_neg (not_lt.mpr large)]
  have bound := b.toNat_lt
  have same : largetag + UInt8.ofNat (putint size).length = b := by
    apply UInt8.toNat_inj.mp
    rw [UInt8.toNat_add, UInt8.toNat_ofNat', ← tag]
    omega
  rw [same]

def spelling : Kind → Bytes
  | .byte value => [value]
  | .string size => puthead 0x80 0xB7 size
  | .list size => puthead 0xC0 0xF7 size

theorem readKind_eq_some {kind : Kind} (read : readKind input = some (kind, rest)) :
    input = spelling kind ++ rest := by
  cases input with
  | nil => cases read
  | cons b others =>
    rw [readKind] at read
    simp only [UInt8.lt_iff_toNat_lt, UInt8.reduceToNat] at read
    split at read
    · cases read
      rfl
    · rename_i byte
      split at read
      · cases read
        rw [spelling, puthead_short (b := b) (by omega) (by simp only [UInt8.reduceToNat]; omega)]
        rfl
      · rename_i shortString
        split at read
        · obtain ⟨⟨size, tail⟩, long, same⟩ := Option.map_eq_some_iff.mp read
          cases same
          obtain ⟨rfl, length, large⟩ := readLongSize_eq_some long
          rw [spelling, puthead_long (b := b) large (by simp only [UInt8.reduceToNat]; omega)]
          rfl
        · rename_i longString
          split at read
          · cases read
            rw [spelling, puthead_short (b := b) (by omega)
              (by simp only [UInt8.reduceToNat]; omega)]
            rfl
          · obtain ⟨⟨size, tail⟩, long, same⟩ := Option.map_eq_some_iff.mp read
            cases same
            obtain ⟨rfl, length, large⟩ := readLongSize_eq_some long
            rw [spelling, puthead_long (b := b) large (by simp only [UInt8.reduceToNat]; omega)]
            rfl

/-! ## Values -/

theorem readString_eq_some {content : Bytes} (read : readString size input = some (content, rest)) :
    puthead 0x80 0xB7 size ++ input = encodeString content ++ rest := by
  rw [readString] at read
  split at read
  · cases read
  · rename_i enough
    split at read
    · cases read
    · rename_i headed
      cases read
      have length : (input.take size).length = size := by
        rw [List.length_take]
        omega
      have header : encodeString (input.take size) =
          encodeStringHeader size ++ input.take size := by
        by_cases one : size = 1
        · subst one
          obtain ⟨single, same⟩ := List.length_eq_one_iff.mp length
          have big : ¬ single ≤ 0x7F := by
            intro small
            apply headed
            refine ⟨rfl, ?_⟩
            have first : input.head? = some single := by
              cases input with
              | nil => simp at same
              | cons head tail => simpa using same
            rw [first, Option.any_some, decide_eq_true_eq]
            rw [UInt8.le_iff_toNat_le] at small
            rw [UInt8.lt_iff_toNat_lt]
            simp only [UInt8.reduceToNat] at small ⊢
            omega
          rw [same, encodeString, if_neg big]
        · rw [encodeString, length]
          intro single same
          rw [same] at length
          exact one length.symm
      rw [header, List.append_assoc, List.take_append_drop]
      rfl

theorem readKind_byte {value : UInt8} (read : readKind input = some (.byte value, rest)) :
    encodeString [value] = [value] := by
  have small : value < 0x80 := by
    cases input with
    | nil => cases read
    | cons b others =>
      rw [readKind] at read
      split at read
      · rename_i single
        cases read
        exact single
      · repeat' split at read
        all_goals simp at read
  rw [encodeString, if_pos]
  rw [UInt8.lt_iff_toNat_lt] at small
  rw [UInt8.le_iff_toNat_le]
  simp only [UInt8.reduceToNat] at small ⊢
  omega

mutual
theorem encode_of_decodeValue : (fuel : Nat) → (input : Bytes) → (item : Item) → (rest : Bytes) →
    decodeValue fuel input = some (item, rest) → input = encode item ++ rest
  | 0, _, _, _, read => by simp [decodeValue] at read
  | fuel + 1, input, item, rest, read => by
    rw [decodeValue] at read
    cases kind : readKind input with
    | none => simp [kind] at read
    | some found =>
      obtain ⟨shape, tail⟩ := found
      have spelled := readKind_eq_some kind
      rw [kind] at read
      cases shape with
      | byte value =>
        cases read
        rw [spelled, spelling, encode, readKind_byte kind]
      | string size =>
        obtain ⟨⟨content, after⟩, string, same⟩ := Option.map_eq_some_iff.mp read
        cases same
        rw [spelled, spelling, readString_eq_some string, encode]
      | list size =>
        dsimp only at read
        split at read
        · cases read
        · rename_i enough
          obtain ⟨items, elems, same⟩ := Option.map_eq_some_iff.mp read
          cases same
          have inner := encodeItems_of_decodeElems fuel (tail.take size) items elems
          have length : (encodeItems items).length = size := by
            rw [← inner, List.length_take]
            omega
          rw [spelled, spelling, encode, length, List.append_assoc, ← inner,
            List.take_append_drop]
theorem encodeItems_of_decodeElems : (fuel : Nat) → (input : Bytes) → (items : List Item) →
    decodeElems fuel input = some items → input = encodeItems items
  | _, [], items, read => by
    simp only [decodeElems, Option.some.injEq] at read
    subst read
    rfl
  | 0, _ :: _, _, read => by simp [decodeElems] at read
  | fuel + 1, first :: others, items, read => by
    rw [decodeElems] at read
    cases head : decodeValue fuel (first :: others) with
    | none => simp [head] at read
    | some found =>
      obtain ⟨item, tail⟩ := found
      rw [head] at read
      obtain ⟨more, later, rfl⟩ := Option.map_eq_some_iff.mp read
      rw [encode_of_decodeValue fuel _ item tail head, encodeItems,
        encodeItems_of_decodeElems fuel tail more later]
end

/-- `DecodeBytes` accepts one spelling of each value. -/
theorem encode_of_decodeBytes (read : decodeBytes b = some item) :
    encode item = b := by
  rw [decodeBytes] at read
  split at read
  · rename_i found value
    cases read
    rw [encode_of_decodeValue _ _ _ _ value, List.append_nil]
  · cases read

/-! ## Fields -/

theorem eq_writeByteArray {n : Nat} {a : FixedBytes n} (read : decodeByteArray n item = some a) :
    item = writeByteArray a := by
  cases item with
  | bytes b =>
    rw [decodeByteArray] at read
    split at read
    · cases read
      rfl
    · cases read
  | list items => cases read

theorem eq_bytes_of_decodeByteSlice (read : decodeByteSlice item = some b) : item = .bytes b := by
  cases item with
  | bytes b =>
    cases read
    rfl
  | list items => cases read

theorem eq_list_of_decodeListSlice {α : Type} {elem : Item → Option α} {write : α → Item}
    (canonical : ∀ item a, elem item = some a → item = write a) {values : List α}
    (read : decodeListSlice elem item = some values) : item = .list (values.map write) := by
  cases item with
  | bytes b => cases read
  | list items =>
    rw [decodeListSlice] at read
    congr 1
    induction items generalizing values with
    | nil =>
      cases read
      rfl
    | cons first rest ih =>
      rw [List.mapM_cons] at read
      obtain ⟨value, head, more⟩ := Option.bind_eq_some_iff.mp read
      obtain ⟨others, tail, same⟩ := Option.bind_eq_some_iff.mp more
      cases same
      rw [List.map_cons, canonical first value head, ih tail]

end Linkeye.Rlp.Canonical
