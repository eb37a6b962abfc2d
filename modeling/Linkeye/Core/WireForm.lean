import Linkeye.Core.Transaction
import Linkeye.Rlp.Canonical

/-!
# The wire form of a transaction

`rlp.DecodeBytes` into a transaction and the encoding of what it returns.  Every
field has one spelling but the two with the tag `nil`, where an empty list is read as
a nil pointer and a nil pointer is written as an empty string.
-/

set_option autoImplicit false

namespace Linkeye.Core.WireForm

open Common.Types Transaction Rlp.Encode Rlp.Decode Rlp.Canonical

def decodeTransaction (b : Bytes) : Option TxData := (decodeBytes b).bind TxData.decodeRLP

def encodeTransaction (tx : TxData) : Option Bytes := tx.encodeRLP.bind encodeToBytes

/-! ## Fields -/

theorem eq_writeUint {bits n : Nat} {item : Item} (read : decodeUint bits item = some n) :
    item = writeUint n ∧ n < 256 ^ (bits / 8) := by
  cases item with
  | list items => cases read
  | bytes b =>
    rw [decodeUint] at read
    split at read
    · cases read
    · rename_i canonical
      rw [not_or, not_lt] at canonical
      cases read
      have spelled := bigBytes_bigSetBytes canonical.1
      refine ⟨by rw [writeUint, spelled], ?_⟩
      have bound := lt_pow_length_bigBytes (bigSetBytes b)
      rw [spelled] at bound
      exact lt_of_lt_of_le bound (Nat.pow_le_pow_right (by norm_num) canonical.2)

theorem eq_bytes_of_decodeBigInt {n : Nat} {item : Item} (read : decodeBigInt item = some n) :
    some item = writeBigInt n := by
  cases item with
  | list items => cases read
  | bytes b =>
    rw [decodeBigInt] at read
    split at read
    · cases read
    · rename_i leading
      cases read
      rw [writeBigInt_natCast, bigBytes_bigSetBytes leading]

/-- The one kind of field with two spellings. -/
theorem eq_writeByteArrayPtr_iff {n : Nat} {item : Item} {p : Option (FixedBytes n)}
    (read : decodeByteArrayPtr n item = some p) :
    item = writeByteArrayPtr p ↔ item ≠ .list [] := by
  match item with
  | .bytes [] =>
    cases read
    exact ⟨fun _ => by simp, fun _ => rfl⟩
  | .list [] =>
    cases read
    exact ⟨fun spelled => (by cases spelled), fun other => absurd rfl other⟩
  | .bytes (b :: rest) =>
    obtain ⟨a, array, rfl⟩ := Option.map_eq_some_iff.mp read
    exact ⟨fun _ => by simp, fun _ => eq_writeByteArray array⟩
  | .list (first :: rest) => simp [decodeByteArrayPtr, decodeByteArray] at read

theorem toNat_ofNat_txType {n : Nat} (small : n < 256) : (TxType.ofNat n).toNat = n := by
  match n with
  | 0 => rfl
  | 1 => rfl
  | 2 => rfl
  | 3 => rfl
  | 4 => rfl
  | 5 => rfl
  | code + 6 =>
    have fits : code < 250 := by omega
    simp [TxType.ofNat, TxType.toNat, Nat.mod_eq_of_lt fits, Nat.add_comm]

theorem toNat_ofNat_uint64 {n : Nat} (small : n < 256 ^ (64 / 8)) : (UInt64.ofNat n).toNat = n := by
  rw [UInt64.toNat_ofNat']
  exact Nat.mod_eq_of_lt (by norm_num at small ⊢; exact small)

/-! ## Whole transactions -/

/-- What a transaction that was decoded encodes to: the fields it was read from, but
for the two pointers. -/
theorem encodeRLP_of_decodeRLP {item : Item} {tx : TxData} (read : TxData.decodeRLP item = some tx) :
    ∃ txType nonce price gasLimit recipient amount subId payload v r s,
      item = .list [txType, nonce, price, gasLimit, recipient, amount, subId, payload, v, r, s] ∧
      decodeByteArrayPtr 20 recipient = some tx.recipient ∧
      decodeByteArrayPtr 16 subId = some tx.subId ∧
      tx.encodeRLP = some (.list [txType, nonce, price, gasLimit, writeByteArrayPtr tx.recipient,
        amount, writeByteArrayPtr tx.subId, payload, v, r, s]) := by
  unfold TxData.decodeRLP at read
  split at read
  · rename_i txType nonce price gasLimit recipient amount subId payload v r s
    simp only [Option.bind_eq_bind, Option.bind_eq_some_iff] at read
    obtain ⟨txType', readType, nonce', readNonce, price', readPrice, gasLimit', readGas,
      recipient', readRecipient, amount', readAmount, subId', readSubId, payload', readPayload,
      v', readV, r', readR, s', readS, same⟩ := read
    cases same
    obtain ⟨rfl, smallType⟩ := eq_writeUint readType
    obtain ⟨rfl, smallNonce⟩ := eq_writeUint readNonce
    obtain ⟨rfl, smallGas⟩ := eq_writeUint readGas
    obtain rfl := eq_bytes_of_decodeByteSlice readPayload
    refine ⟨_, _, _, _, _, _, _, _, _, _, _, rfl, readRecipient, readSubId, ?_⟩
    rw [TxData.encodeRLP, ← eq_bytes_of_decodeBigInt readPrice, ← eq_bytes_of_decodeBigInt readAmount,
      ← eq_bytes_of_decodeBigInt readV, ← eq_bytes_of_decodeBigInt readR,
      ← eq_bytes_of_decodeBigInt readS]
    dsimp only
    rw [toNat_ofNat_txType smallType, toNat_ofNat_uint64 smallNonce, toNat_ofNat_uint64 smallGas]
  · cases read

/-- A byte string that is accepted as a transaction is the encoding of that transaction
exactly where neither the recipient nor the sub-id is spelled as an empty list. -/
theorem reencoded_iff {b : Bytes} {tx : TxData} (short : b.length < maxInt)
    (accepted : decodeTransaction b = some tx) :
    encodeTransaction tx = some b ↔
      ∀ fields, decodeBytes b = some (.list fields) →
        fields[4]? ≠ some (.list []) ∧ fields[6]? ≠ some (.list []) := by
  rw [decodeTransaction] at accepted
  obtain ⟨item, parsed, read⟩ := Option.bind_eq_some_iff.mp accepted
  have spelled := encode_of_decodeBytes parsed
  obtain ⟨txType, nonce, price, gasLimit, recipient, amount, subId, payload, v, r, s, rfl,
    readRecipient, readSubId, encoded⟩ := encodeRLP_of_decodeRLP read
  have first := eq_writeByteArrayPtr_iff readRecipient
  have second := eq_writeByteArrayPtr_iff readSubId
  rw [encodeTransaction, encoded, Option.bind_some]
  constructor
  · intro same fields found
    rw [parsed] at found
    cases found
    -- One encoding stands for one value, so both pointers are spelled as they are written.
    have items := encodeToBytes_injective same (show encodeToBytes _ = some b by
      rw [encodeToBytes, spelled, if_pos short])
    simp only [Item.list.injEq, List.cons.injEq, true_and, and_true] at items
    simp only [List.getElem?_cons_succ, List.getElem?_cons_zero, ne_eq, Option.some.injEq]
    exact ⟨first.mp items.1.symm, second.mp items.2.symm⟩
  · intro none_
    obtain ⟨left, right⟩ := none_ _ parsed
    simp only [List.getElem?_cons_succ, List.getElem?_cons_zero, ne_eq, Option.some.injEq]
      at left right
    rw [← first.mpr left, ← second.mpr right, encodeToBytes, spelled, if_pos short]

def plainCreation : Bytes := 0xCB :: List.replicate 11 0x80

theorem reencoded_plainCreation :
    ∃ tx, decodeTransaction plainCreation = some tx ∧ encodeTransaction tx = some plainCreation := by
  obtain ⟨tx, accepted⟩ : ∃ tx, decodeTransaction plainCreation = some tx := by
    rw [← Option.isSome_iff_exists]
    decide +kernel
  refine ⟨tx, accepted, (reencoded_iff (by decide) accepted).mpr ?_⟩
  intro fields found
  have items : decodeBytes plainCreation = some (.list (List.replicate 11 (.bytes []))) := by
    rw [show plainCreation = encode (.list (List.replicate 11 (.bytes []))) by decide +kernel]
    exact decodeBytes_encode (by decide +kernel)
  rw [items] at found
  cases found
  simp

def twinCreation : Bytes := [0xCB, 0x80, 0x80, 0x80, 0x80, 0xC0, 0x80, 0x80, 0x80, 0x80, 0x80, 0x80]

theorem twinCreation_accepted :
    twinCreation ≠ plainCreation ∧
      (decodeTransaction twinCreation).isSome = true ∧
      decodeTransaction twinCreation = decodeTransaction plainCreation ∧
      (decodeTransaction twinCreation).bind encodeTransaction = some plainCreation := by
  decide +kernel

end Linkeye.Core.WireForm
