import Linkeye.Common.Signature
import Linkeye.Rlp.Decode

/-!
# Transactions and their signing hashes

`txdata` with the three signers of `core/types/transaction_signing.go`.  The
field list that `Hash` encodes is written out for each signer as the source has
it.  Keccak and public-key recovery are parameters.
-/

set_option autoImplicit false

namespace Linkeye.Core.Transaction

open Common.Types Common.Signature Rlp.Encode Rlp.Decode

/-- `TxType` is a `uint8`; `other` holds the codes from 6 on. -/
inductive TxType where
  | binary
  | loginCandidate
  | logoutCandidate
  | withdrawCandidate
  | delegate
  | unDelegate
  | other (code : Fin 250)
deriving DecidableEq

/-- The fields of `txdata`; `Hash` is only filled for JSON and left out. -/
structure TxData where
  txType : TxType
  accountNonce : UInt64
  price : Int
  gasLimit : UInt64
  recipient : Option Address
  amount : Int
  subId : Option UUID
  payload : Bytes
  v : Int
  r : Int
  s : Int
deriving DecidableEq

def TxType.toNat : TxType → Nat
  | .binary => 0
  | .loginCandidate => 1
  | .logoutCandidate => 2
  | .withdrawCandidate => 3
  | .delegate => 4
  | .unDelegate => 5
  | .other code => 6 + code

def TxType.ofNat (n : Nat) : TxType :=
  match n with
  | 0 => .binary
  | 1 => .loginCandidate
  | 2 => .logoutCandidate
  | 3 => .withdrawCandidate
  | 4 => .delegate
  | 5 => .unDelegate
  | code => .other (Fin.ofNat 250 (code - 6))

def TxData.encodeRLP (tx : TxData) : Option Item :=
  match writeBigInt tx.price, writeBigInt tx.amount, writeBigInt tx.v, writeBigInt tx.r,
      writeBigInt tx.s with
  | some price, some amount, some v, some r, some s =>
    some (.list [writeUint tx.txType.toNat, writeUint tx.accountNonce.toNat, price,
      writeUint tx.gasLimit.toNat, writeByteArrayPtr tx.recipient, amount,
      writeByteArrayPtr tx.subId, .bytes tx.payload, v, r, s])
  | _, _, _, _, _ => none

def TxData.decodeRLP : Item → Option TxData
  | .list [txType, nonce, price, gasLimit, recipient, amount, subId, payload, v, r, s] => do
      let txType ← decodeUint 8 txType
      let nonce ← decodeUint 64 nonce
      let price ← decodeBigInt price
      let gasLimit ← decodeUint 64 gasLimit
      let recipient ← decodeByteArrayPtr 20 recipient
      let amount ← decodeBigInt amount
      let subId ← decodeByteArrayPtr 16 subId
      let payload ← decodeByteSlice payload
      let v ← decodeBigInt v
      let r ← decodeBigInt r
      let s ← decodeBigInt s
      return ⟨TxType.ofNat txType, UInt64.ofNat nonce, price, UInt64.ofNat gasLimit, recipient,
        amount, subId, payload, v, r, s⟩
  | _ => none

inductive Signer where
  | frontier
  | homestead
  | eip155 (chainId : Int)

def signedFields (tx : TxData) : Option (List Item) :=
  match writeBigInt tx.price, writeBigInt tx.amount with
  | some price, some amount =>
    some [writeUint tx.accountNonce.toNat, price, writeUint tx.gasLimit.toNat,
      writeByteArrayPtr tx.recipient, amount, writeByteArrayPtr tx.subId, .bytes tx.payload]
  | _, _ => none

def signingList : Signer → TxData → Option Item
  | .frontier, tx => (signedFields tx).map .list
  | .homestead, tx => (signedFields tx).map .list
  | .eip155 chainId, tx =>
    match signedFields tx, writeBigInt chainId with
    | some fields, some chain => some (.list (fields ++ [chain, writeUint 0, writeUint 0]))
    | _, _ => none

/-- The bytes hashed for signing.  `rlpHash` ignores an encoding error and then
hashes nothing; `none` is that case. -/
def signingPreimage (signer : Signer) (tx : TxData) : Option Bytes :=
  (signingList signer tx).bind encodeToBytes

/-! ## Recovering the sender -/

inductive SenderError where
  | invalidSig
  | invalidChainId
  | recoveryFailed
  | invalidPublicKey
deriving DecidableEq

def signingHash (crypto : Crypto) (signer : Signer) (tx : TxData) : Hash :=
  crypto.keccak256 ((signingPreimage signer tx).getD [])

def secp256k1N : Int :=
  0xfffffffffffffffffffffffffffffffebaaedce6af48a03bbfd25e8cd0364141

def validateSignatureValues (v : UInt8) (r s : Int) (homestead : Bool) : Bool :=
  if r < 1 ∨ s < 1 then false
  else if homestead = true ∧ secp256k1N / 2 < s then false
  else decide (r < secp256k1N ∧ s < secp256k1N ∧ (v = 0 ∨ v = 1))

/-- `big.Int.Uint64`: the low 64 bits of the absolute value. -/
def bigUint64 (i : Int) : Nat := i.natAbs % 2 ^ 64

def recoverPlain (crypto : Crypto) (sighash : Hash) (r s vb : Int) (homestead : Bool) :
    Except SenderError Address :=
  if 2 ^ 8 ≤ vb.natAbs then .error .invalidSig
  else
    let v := UInt8.ofNat (bigUint64 vb) - 27
    if validateSignatureValues v r s homestead then
      let sig := (FixedBytes.setBytes 32 (bigBytes r.toNat)).data ++
        (FixedBytes.setBytes 32 (bigBytes s.toNat)).data ++ [v]
      match crypto.ecrecover sighash sig with
      | none => .error .recoveryFailed
      | some [] => .error .invalidPublicKey
      | some (first :: key) =>
        if first = 4 then .ok (pubkeyToAddress crypto (first :: key))
        else .error .invalidPublicKey
    else .error .invalidSig

def isProtectedV (v : Int) : Bool :=
  if v.natAbs < 2 ^ 8 then decide (bigUint64 v ≠ 27 ∧ bigUint64 v ≠ 28) else true

def deriveChainId (v : Int) : Int :=
  if v.natAbs < 2 ^ 64 then
    if bigUint64 v = 27 ∨ bigUint64 v = 28 then 0
    else (((bigUint64 v + (2 ^ 64 - 35)) % 2 ^ 64) / 2 : Nat)
  else (v - 35) / 2

def sender (crypto : Crypto) : Signer → TxData → Except SenderError Address
  | .frontier, tx =>
    recoverPlain crypto (signingHash crypto .frontier tx) tx.r tx.s tx.v false
  | .homestead, tx =>
    recoverPlain crypto (signingHash crypto .homestead tx) tx.r tx.s tx.v true
  | .eip155 chainId, tx =>
    if isProtectedV tx.v then
      if deriveChainId tx.v ≠ chainId then .error .invalidChainId
      else
        recoverPlain crypto (signingHash crypto (.eip155 chainId) tx) tx.r tx.s
          (tx.v - chainId * 2 - 8) true
    else recoverPlain crypto (signingHash crypto .homestead tx) tx.r tx.s tx.v true

/-! ## What a signature binds -/

/-- Agreement on every field of `txdata` other than `V`, `R`, `S` and `Hash`. -/
def SameUnsigned (left right : TxData) : Prop :=
  left.txType = right.txType ∧ left.accountNonce = right.accountNonce ∧
    left.price = right.price ∧ left.gasLimit = right.gasLimit ∧
    left.recipient = right.recipient ∧ left.amount = right.amount ∧
    left.subId = right.subId ∧ left.payload = right.payload

instance (left right : TxData) : Decidable (SameUnsigned left right) :=
  inferInstanceAs (Decidable (_ ∧ _))

/-- The fields that the encoded list determines: all but the type. -/
theorem signedFields_injective {left right : TxData} {fields : List Item}
    (leftFields : signedFields left = some fields)
    (rightFields : signedFields right = some fields) :
    left.accountNonce = right.accountNonce ∧ left.price = right.price ∧
      left.gasLimit = right.gasLimit ∧ left.recipient = right.recipient ∧
      left.amount = right.amount ∧ left.subId = right.subId ∧
      left.payload = right.payload := by
  simp only [signedFields] at leftFields rightFields
  split at leftFields
  · rename_i leftPrice leftAmount leftPriceRun leftAmountRun
    split at rightFields
    · rename_i rightPrice rightAmount rightPriceRun rightAmountRun
      have same := (Option.some.inj leftFields).trans (Option.some.inj rightFields).symm
      simp only [List.cons.injEq, and_true] at same
      obtain ⟨nonce, price, gas, recipient, amount, subId, payload⟩ := same
      rw [price] at leftPriceRun
      rw [amount] at leftAmountRun
      exact ⟨UInt64.toNat_inj.mp (writeUint_injective nonce),
        writeBigInt_injective leftPriceRun rightPriceRun,
        UInt64.toNat_inj.mp (writeUint_injective gas),
        writeByteArrayPtr_injective (by norm_num) recipient,
        writeBigInt_injective leftAmountRun rightAmountRun,
        writeByteArrayPtr_injective (by norm_num) subId,
        Item.bytes.inj payload⟩
    · cases rightFields
  · cases leftFields

theorem signedFields_length {tx : TxData} {fields : List Item}
    (run : signedFields tx = some fields) : fields.length = 7 := by
  simp only [signedFields] at run
  split at run
  · cases Option.some.inj run
    rfl
  · cases run

/-- Equal signing lists come from equal field lists, for each signer. -/
theorem signingList_fields {signer : Signer} {left right : TxData} {item : Item}
    (leftList : signingList signer left = some item)
    (rightList : signingList signer right = some item) :
    ∃ fields, signedFields left = some fields ∧ signedFields right = some fields := by
  have plain : (signedFields left).map Item.list = some item →
      (signedFields right).map Item.list = some item →
      ∃ fields, signedFields left = some fields ∧ signedFields right = some fields := by
    intro leftRun rightRun
    obtain ⟨leftFields, leftFieldsRun, rfl⟩ := Option.map_eq_some_iff.mp leftRun
    obtain ⟨rightFields, rightFieldsRun, same⟩ := Option.map_eq_some_iff.mp rightRun
    rw [Item.list.inj same] at rightFieldsRun
    exact ⟨leftFields, leftFieldsRun, rightFieldsRun⟩
  cases signer with
  | frontier | homestead => exact plain leftList rightList
  | eip155 chainId =>
    simp only [signingList] at leftList rightList
    split at leftList
    · rename_i leftFields leftChain leftRun leftChainRun
      split at rightList
      · rename_i rightFields rightChain rightRun rightChainRun
        have same := Item.list.inj ((Option.some.inj leftList).trans (Option.some.inj rightList).symm)
        have sameLength : leftFields.length = rightFields.length := by
          rw [signedFields_length leftRun, signedFields_length rightRun]
        have sameFields := (List.append_inj same sameLength).1
        subst sameFields
        exact ⟨leftFields, leftRun, rightRun⟩
      · cases rightList
    · cases leftList

/-- Two transactions with one signing pre-image agree on every unsigned field
exactly when they have the same type: the type is the one field that no signer
hashes. -/
theorem signingPreimage_binds_iff_same_type (signer : Signer) (left right : TxData) (b : Bytes)
    (leftPreimage : signingPreimage signer left = some b)
    (rightPreimage : signingPreimage signer right = some b) :
    SameUnsigned left right ↔ left.txType = right.txType := by
  constructor
  · intro same
    exact same.1
  · intro sameType
    obtain ⟨leftItem, leftList, leftBytes⟩ := Option.bind_eq_some_iff.mp leftPreimage
    obtain ⟨rightItem, rightList, rightBytes⟩ := Option.bind_eq_some_iff.mp rightPreimage
    have sameItem : leftItem = rightItem := encodeToBytes_injective leftBytes rightBytes
    rw [← sameItem] at rightList
    obtain ⟨fields, leftFields, rightFields⟩ := signingList_fields leftList rightList
    exact ⟨sameType, signedFields_injective leftFields rightFields⟩

def plainTransfer : TxData where
  txType := .binary
  accountNonce := 7
  price := 1
  gasLimit := 21000
  recipient := some zeroAddress
  amount := 0
  subId := some (FixedBytes.zero 16)
  payload := []
  v := 27
  r := 1
  s := 1

def forgedWithdrawal : TxData := { plainTransfer with txType := .withdrawCandidate }

theorem signingPreimage_binds_transfer :
    SameUnsigned plainTransfer plainTransfer ↔ plainTransfer.txType = plainTransfer.txType :=
  signingPreimage_binds_iff_same_type .homestead plainTransfer plainTransfer
    ((signingPreimage .homestead plainTransfer).getD []) (by decide) (by decide)

/-- The signature of a plain transfer is also one of a withdrawal by the same
sender: the pre-images are equal and so is the recovered address, whatever
Keccak and the recovery function are. -/
theorem transfer_signature_signs_withdrawal :
    (signingPreimage .homestead plainTransfer).isSome ∧
      signingPreimage .homestead plainTransfer = signingPreimage .homestead forgedWithdrawal ∧
      ¬ SameUnsigned plainTransfer forgedWithdrawal ∧
      plainTransfer.txType = .binary ∧ forgedWithdrawal.txType = .withdrawCandidate ∧
      ∀ crypto : Crypto,
        sender crypto .homestead plainTransfer = sender crypto .homestead forgedWithdrawal := by
  refine ⟨by decide, by decide, by decide, rfl, rfl, ?_⟩
  intro crypto
  rfl

end Linkeye.Core.Transaction
