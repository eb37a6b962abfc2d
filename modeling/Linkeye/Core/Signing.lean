import Linkeye.Core.Transaction
import Linkeye.Rlp.Canonical

/-!
# Signing a transaction and asking for its sender

`SignTx`, `WithSignature` and the cached `Sender` of
`core/types/transaction_signing.go`.  A key signs a hash; what is assumed of ECDSA is
that the signature recovers to the key, has a low `s` and a recovery id 0 or 1.
-/

set_option autoImplicit false

namespace Linkeye.Core.Signing

open Common.Types Common.Signature Rlp.Canonical Transaction

/-! ## Signatures -/

/-- `[R || S || V]` as `crypto.Sign` returns it. -/
structure RawSignature where
  r : FixedBytes 32
  s : FixedBytes 32
  recovery : UInt8
  recovery_bit : recovery = 0 ∨ recovery = 1
  r_range : 1 ≤ bigSetBytes r.data ∧ (bigSetBytes r.data : Int) < secp256k1N
  s_low : 1 ≤ bigSetBytes s.data ∧ (bigSetBytes s.data : Int) ≤ secp256k1N / 2

def RawSignature.bytes (sig : RawSignature) : Bytes := sig.r.data ++ sig.s.data ++ [sig.recovery]

/-- Keys of type `K` that sign for the recovery function. -/
structure Ecdsa (crypto : Crypto) (K : Type) where
  sign : K → Hash → RawSignature
  /-- The public key without the byte 4 in front. -/
  pubkey : K → Bytes
  recovers : ∀ key hash, crypto.ecrecover hash (sign key hash).bytes = some (4 :: pubkey key)

def Ecdsa.address {crypto : Crypto} {K : Type} (ecdsa : Ecdsa crypto K) (key : K) : Address :=
  pubkeyToAddress crypto (4 :: ecdsa.pubkey key)

/-- `SignatureValues`: `R`, `S` and `V`.  A signature of another size panics. -/
def signatureValues (signer : Signer) (sig : Bytes) : Option (Int × Int × Int) :=
  if sig.length ≠ 65 then none
  else
    let last := sig.getD 64 0
    let r : Int := bigSetBytes (sig.take 32)
    let s : Int := bigSetBytes ((sig.drop 32).take 32)
    match signer with
    | .eip155 chainId =>
      if chainId ≠ 0 then some (r, s, ((last + 35).toNat : Int) + chainId * 2)
      else some (r, s, ((last + 27).toNat : Int))
    | _ => some (r, s, ((last + 27).toNat : Int))

/-! ## Transactions with their cache -/

/-- The data and the cached sender with the signer it was derived by. -/
structure SignedTx where
  data : TxData
  cached : Option (Signer × Address)

def withSignature (signer : Signer) (sig : Bytes) (tx : SignedTx) : Option SignedTx :=
  (signatureValues signer sig).map fun values =>
    ⟨{ tx.data with r := values.1, s := values.2.1, v := values.2.2 }, none⟩

def signTx {crypto : Crypto} {K : Type} (ecdsa : Ecdsa crypto K) (signer : Signer) (key : K)
    (tx : SignedTx) : Option SignedTx :=
  withSignature signer (ecdsa.sign key (signingHash crypto signer tx.data)).bytes tx

def signerEqual : Signer → Signer → Bool
  | .frontier, .frontier => true
  | .homestead, .homestead => true
  | .eip155 chainId, .eip155 other => decide (other = chainId)
  | _, _ => false

def cachedSender (crypto : Crypto) (signer : Signer) (tx : SignedTx) :
    Except SenderError Address × SignedTx :=
  let derived := match sender crypto signer tx.data with
    | .error err => (.error err, tx)
    | .ok addr => (.ok addr, { tx with cached := some (signer, addr) })
  match tx.cached with
  | some (known, addr) => if signerEqual known signer = true then (.ok addr, tx) else derived
  | none => derived

def afterCalls (crypto : Crypto) (calls : List Signer) (tx : SignedTx) : SignedTx :=
  calls.foldl (fun tx signer => (cachedSender crypto signer tx).2) tx

/-! ## The cache -/

theorem signerEqual_iff (known signer : Signer) :
    signerEqual known signer = true ↔ known = signer := by
  cases known <;> cases signer <;> simp [signerEqual, eq_comm]

def CacheSound (crypto : Crypto) (tx : SignedTx) : Prop :=
  ∀ signer addr, tx.cached = some (signer, addr) → sender crypto signer tx.data = .ok addr

variable {crypto : Crypto} {tx : SignedTx}

theorem cacheSound_of_empty (data : TxData) : CacheSound crypto ⟨data, none⟩ := by
  rintro signer addr cached
  cases cached

theorem cachedSender_eq (sound : CacheSound crypto tx) (signer : Signer) :
    (cachedSender crypto signer tx).1 = sender crypto signer tx.data := by
  unfold cachedSender
  dsimp only
  split
  · rename_i known addr cached
    split
    · rename_i same
      rw [signerEqual_iff] at same
      subst same
      exact (sound known addr cached).symm
    · split <;> rename_i derived <;> exact derived.symm
  · split <;> rename_i derived <;> exact derived.symm

theorem cachedSender_keeps (sound : CacheSound crypto tx) (signer : Signer) :
    (cachedSender crypto signer tx).2.data = tx.data ∧
      CacheSound crypto (cachedSender crypto signer tx).2 := by
  have derived : ∀ addr, sender crypto signer tx.data = .ok addr →
      CacheSound crypto { tx with cached := some (signer, addr) } := by
    rintro addr run other found same
    cases same
    exact run
  unfold cachedSender
  dsimp only
  split
  · split
    · exact ⟨rfl, sound⟩
    · split
      · exact ⟨rfl, sound⟩
      · rename_i addr run
        exact ⟨rfl, derived addr run⟩
  · split
    · exact ⟨rfl, sound⟩
    · rename_i addr run
      exact ⟨rfl, derived addr run⟩

theorem afterCalls_keeps (calls : List Signer) (sound : CacheSound crypto tx) :
    (afterCalls crypto calls tx).data = tx.data ∧ CacheSound crypto (afterCalls crypto calls tx) := by
  induction calls generalizing tx with
  | nil => exact ⟨rfl, sound⟩
  | cons signer rest ih =>
    obtain ⟨sameData, stillSound⟩ := cachedSender_keeps sound signer
    obtain ⟨restData, restSound⟩ := ih stillSound
    exact ⟨restData.trans sameData, restSound⟩

/-! ## Values and bytes -/

theorem bigSetBytes_zeros (k : Nat) (b : Bytes) :
    bigSetBytes (List.replicate k 0 ++ b) = bigSetBytes b := by
  induction k with
  | zero => rfl
  | succ k ih => simp [List.replicate_succ, bigSetBytes_cons, ih]

theorem exists_leading_zeros (b : Bytes) :
    ∃ k rest, b = List.replicate k 0 ++ rest ∧ rest.head? ≠ some 0 := by
  induction b with
  | nil => exact ⟨0, [], rfl, by simp⟩
  | cons first rest ih =>
    by_cases zero : first = 0
    · obtain ⟨k, tail, same, leading⟩ := ih
      refine ⟨k + 1, tail, ?_, leading⟩
      rw [zero, same, List.replicate_succ, List.cons_append]
    · exact ⟨0, first :: rest, rfl, by simpa using zero⟩

/-- The number of a byte array, padded to its size, is the array. -/
theorem setBytes_bigSetBytes {n : Nat} (a : FixedBytes n) :
    FixedBytes.setBytes n (bigBytes (bigSetBytes a.data)) = a := by
  obtain ⟨k, rest, same, leading⟩ := exists_leading_zeros a.data
  have size := a.length_data
  rw [same, List.length_append, List.length_replicate] at size
  apply FixedBytes.data_inj
  rw [same, bigSetBytes_zeros, bigBytes_bigSetBytes leading]
  simp only [FixedBytes.setBytes]
  rw [show n - rest.length = k by omega, show rest.length - n = 0 by omega, List.drop_zero]

theorem signatureValues_bytes (chainId : Int) (sig : RawSignature) (nonzero : chainId ≠ 0) :
    signatureValues (.eip155 chainId) sig.bytes =
      some ((bigSetBytes sig.r.data : Int), (bigSetBytes sig.s.data : Int),
        35 + (sig.recovery.toNat : Int) + chainId * 2) := by
  have rLength := sig.r.length_data
  have sLength := sig.s.length_data
  have size : sig.bytes.length = 65 := by
    simp [RawSignature.bytes, rLength, sLength]
  have firstHalf : sig.bytes.take 32 = sig.r.data := by
    rw [RawSignature.bytes, List.append_assoc, List.take_left' rLength]
  have secondHalf : (sig.bytes.drop 32).take 32 = sig.s.data := by
    rw [RawSignature.bytes, List.append_assoc, List.drop_left' rLength,
      List.take_left' sLength]
  have last : sig.bytes.getD 64 0 = sig.recovery := by
    rw [RawSignature.bytes, List.getD_append_right _ _ _ _ (by simp [rLength, sLength])]
    simp [rLength, sLength]
  have sum : (sig.recovery + 35).toNat = 35 + sig.recovery.toNat := by
    rcases sig.recovery_bit with zero | one
    · rw [zero]; rfl
    · rw [one]; rfl
  simp only [signatureValues, size, ne_eq, not_true_eq_false, if_false, firstHalf, secondHalf,
    last, nonzero, not_false_eq_true, if_true, sum, Nat.cast_add, Nat.cast_ofNat]

/-! ## Chain ids -/

/-- The value of `V` for a chain id and a recovery id. -/
theorem deriveChainId_signed {chainId : Int} {recovery : Nat} (positive : 1 ≤ chainId)
    (bit : recovery ≤ 1) : deriveChainId (35 + recovery + chainId * 2) = chainId := by
  have size : (35 + (recovery : Int) + chainId * 2).natAbs = 35 + recovery + chainId.toNat * 2 := by
    omega
  unfold deriveChainId bigUint64
  rw [size]
  split
  · rename_i small
    rw [Nat.mod_eq_of_lt small, if_neg (by omega)]
    -- the subtraction of 35 wraps around exactly once
    have wrapped : (35 + recovery + chainId.toNat * 2 + (2 ^ 64 - 35)) % 2 ^ 64 =
        recovery + chainId.toNat * 2 := by
      rw [show 35 + recovery + chainId.toNat * 2 + (2 ^ 64 - 35) =
        recovery + chainId.toNat * 2 + 2 ^ 64 by omega, Nat.add_mod_right,
        Nat.mod_eq_of_lt (by omega)]
    rw [wrapped]
    omega
  · omega

theorem isProtectedV_signed {chainId : Int} {recovery : Nat} (positive : 1 ≤ chainId) :
    isProtectedV (35 + recovery + chainId * 2) = true := by
  unfold isProtectedV bigUint64
  split
  · rename_i small
    rw [decide_eq_true_eq, Nat.mod_eq_of_lt (by omega)]
    omega
  · rfl

theorem signingHash_signature (crypto : Crypto) (signer : Signer) (tx : TxData) (r s v : Int) :
    signingHash crypto signer { tx with r := r, s := s, v := v } =
      signingHash crypto signer tx := by
  cases signer <;> rfl

theorem recoverPlain_sign {K : Type} (ecdsa : Ecdsa crypto K) (key : K) (hash : Hash) :
    recoverPlain crypto hash (bigSetBytes (ecdsa.sign key hash).r.data)
      (bigSetBytes (ecdsa.sign key hash).s.data) (27 + (ecdsa.sign key hash).recovery.toNat) true =
        .ok (ecdsa.address key) := by
  have recovers := ecdsa.recovers key hash
  generalize ecdsa.sign key hash = sig at recovers ⊢
  have bit : sig.recovery.toNat ≤ 1 := by
    rcases sig.recovery_bit with zero | one
    · rw [zero]; decide
    · rw [one]; decide
  have byteV : UInt8.ofNat (bigUint64 (27 + (sig.recovery.toNat : Int))) - 27 = sig.recovery := by
    rcases sig.recovery_bit with zero | one
    · rw [zero]; decide
    · rw [one]; decide
  have valid : validateSignatureValues sig.recovery (bigSetBytes sig.r.data)
      (bigSetBytes sig.s.data) true = true := by
    obtain ⟨rPositive, rSmall⟩ := sig.r_range
    obtain ⟨sPositive, sLow⟩ := sig.s_low
    have half : secp256k1N / 2 < secp256k1N := by decide
    unfold validateSignatureValues
    rw [if_neg (by omega), if_neg (by omega), decide_eq_true_eq]
    exact ⟨rSmall, by omega, sig.recovery_bit⟩
  have bytes : (FixedBytes.setBytes 32 (bigBytes (bigSetBytes sig.r.data : Int).toNat)).data ++
      (FixedBytes.setBytes 32 (bigBytes (bigSetBytes sig.s.data : Int).toNat)).data ++
        [sig.recovery] = sig.bytes := by
    rw [Int.toNat_natCast, Int.toNat_natCast, setBytes_bigSetBytes, setBytes_bigSetBytes,
      RawSignature.bytes]
  unfold recoverPlain
  rw [if_neg (by omega)]
  dsimp only
  rw [byteV, if_pos valid, bytes, recovers]
  rfl

/-- A transaction signed for a chain has its signer as the sender there, and no sender
on any other chain, whatever was asked before. -/
theorem eip155_signature_binds_chain {crypto : Crypto} {K : Type} (ecdsa : Ecdsa crypto K)
    (key : K) (tx : SignedTx) (chainId : Int) (positive : 1 ≤ chainId) :
    ∃ signed, signTx ecdsa (.eip155 chainId) key tx = some signed ∧
      ∀ calls : List Signer,
        (cachedSender crypto (.eip155 chainId) (afterCalls crypto calls signed)).1 =
            .ok (ecdsa.address key) ∧
          ∀ other, 1 ≤ other → other ≠ chainId → ∃ err,
            (cachedSender crypto (.eip155 other) (afterCalls crypto calls signed)).1 =
              .error err := by
  have values := signatureValues_bytes chainId
    (ecdsa.sign key (signingHash crypto (.eip155 chainId) tx.data)) (by omega)
  have recovered := recoverPlain_sign ecdsa key (signingHash crypto (.eip155 chainId) tx.data)
  have bitOr := (ecdsa.sign key (signingHash crypto (.eip155 chainId) tx.data)).recovery_bit
  have signing : signTx ecdsa (.eip155 chainId) key tx = withSignature (.eip155 chainId)
    (ecdsa.sign key (signingHash crypto (.eip155 chainId) tx.data)).bytes tx := rfl
  generalize ecdsa.sign key (signingHash crypto (.eip155 chainId) tx.data) = sig at *
  have bit : sig.recovery.toNat ≤ 1 := by
    rcases bitOr with zero | one
    · rw [zero]; decide
    · rw [one]; decide
  rw [withSignature, values, Option.map_some] at signing
  refine ⟨_, signing, ?_⟩
  intro calls
  obtain ⟨sameData, sound⟩ := afterCalls_keeps calls
    (cacheSound_of_empty { tx.data with
      r := bigSetBytes sig.r.data
      s := bigSetBytes sig.s.data
      v := 35 + sig.recovery.toNat + chainId * 2 })
  refine ⟨?_, ?_⟩
  · rw [cachedSender_eq sound, sameData]
    simp only [sender]
    rw [if_pos (isProtectedV_signed positive),
      if_neg (not_not.mpr (deriveChainId_signed positive bit)), signingHash_signature,
      show 35 + (sig.recovery.toNat : Int) + chainId * 2 - chainId * 2 - 8 =
        27 + sig.recovery.toNat by ring]
    exact recovered
  · intro other _ different
    refine ⟨.invalidChainId, ?_⟩
    rw [cachedSender_eq sound, sameData]
    simp only [sender]
    rw [if_pos (isProtectedV_signed positive), if_pos ?_]
    rw [deriveChainId_signed positive bit]
    exact different.symm

def plainKey : Ecdsa plainCrypto Unit where
  sign := fun _ _ =>
    { r := bytesToHash [1], s := bytesToHash [1], recovery := 0, recovery_bit := by decide
      r_range := by decide, s_low := by decide }
  pubkey := fun _ => (bytesToHash [1]).data ++ (bytesToHash [1]).data
  recovers := fun _ _ => rfl

/-- A chain id for which `V` has more than 64 bits. -/
theorem eip155_signature_binds_large_chain :
    ∃ signed, signTx plainKey (.eip155 (2 ^ 70)) () ⟨plainTransfer, none⟩ = some signed ∧
      ∀ calls : List Signer,
        (cachedSender plainCrypto (.eip155 (2 ^ 70)) (afterCalls plainCrypto calls signed)).1 =
            .ok (plainKey.address ()) ∧
          ∀ other, 1 ≤ other → other ≠ 2 ^ 70 → ∃ err,
            (cachedSender plainCrypto (.eip155 other) (afterCalls plainCrypto calls signed)).1 =
              .error err :=
  eip155_signature_binds_chain plainKey () ⟨plainTransfer, none⟩ (2 ^ 70) (by norm_num)

end Linkeye.Core.Signing
