import Linkeye.Poa.Progress

/-!
# What a poa seal covers

`sigHash` of `consensus/poa/poa.go` and `Header.Hash` of `core/types/block.go`
list the fields of a header by hand.  The list that is signed leaves out the
signature field and the roots of the dpos tries, which the block hash includes.
-/

set_option autoImplicit false

namespace Linkeye.Poa.Sealing

open Common.Types Common.Signature Consensus.Fields Core.Blocks Headers Progress Snapshots
open Rlp.Encode Rlp.Decode

/-! ## The signed fields -/

def sigFields (h : Header) : Item :=
  .list [writeByteArray h.parentHash, writeByteArray h.uncleHash,
    writeByteArray h.coinbase, writeByteArray h.root, writeByteArray h.txHash,
    writeByteArray h.receiptHash, writeByteArray h.bloom, writeUint h.difficulty,
    writeUint h.number, writeUint h.gasLimit.toNat, writeUint h.gasUsed.toNat, writeUint h.time,
    .bytes (h.extra.take (h.extra.length - extraSeal)), writeByteArray h.mixDigest,
    writeByteArray h.nonce]

def sealOf (h : Header) : Bytes := h.extra.drop (h.extra.length - extraSeal)

/-- `h` with other values in the fields that are not signed. -/
def withUnsigned (h : Header) (signature : FixedBytes 65) (dposContext : DposContextProto) :
    Header :=
  { h with signature := signature, dposContext := dposContext }

theorem sealOf_withUnsigned (h : Header) (signature : FixedBytes 65)
    (dposContext : DposContextProto) :
    sealOf (withUnsigned h signature dposContext) = sealOf h := rfl

theorem sigFields_withUnsigned (h : Header) (signature : FixedBytes 65)
    (dposContext : DposContextProto) :
    sigFields (withUnsigned h signature dposContext) = sigFields h := rfl

section
variable {h k : Header}

theorem eq_of_sigFields (sameSeal : sealOf h = sealOf k) (signed : sigFields h = sigFields k) :
    k = withUnsigned h k.signature k.dposContext := by
  have fields := Item.list.inj signed
  simp only [List.cons.injEq, writeByteArray_injective.eq_iff, writeUint_injective.eq_iff,
    Item.bytes.injEq, UInt64.toNat_inj, and_true] at fields
  obtain ⟨parentHash, uncleHash, coinbase, root, txHash, receiptHash, bloom, difficulty, number,
    gasLimit, gasUsed, time, unsealed, mixDigest, nonce⟩ := fields
  have extra : h.extra = k.extra := by
    rw [← List.take_append_drop (h.extra.length - extraSeal) h.extra, unsealed]
    change _ ++ sealOf h = _
    rw [sameSeal]
    exact List.take_append_drop _ _
  cases h
  cases k
  simp_all [withUnsigned]

end

/-! ## The hashed header -/

/-- The header whose encoding `Hash` takes: for a BFT digest without the seals. -/
def hashed (h : Header) : Header :=
  if h.mixDigest = bftDigest then (bftFilteredHeader h true).getD h else h

def hashPreimage (h : Header) : Bytes := encode (hashed h).encodeRLP

theorem hash_eq (crypto : Crypto) (h : Header) :
    h.hash crypto = crypto.keccak256 (hashPreimage h) := by
  rw [Header.hash, hashPreimage, hashed]
  split
  · cases bftFilteredHeader h true with
    | none => rfl
    | some filtered => rfl
  · rfl

theorem hashed_withUnsigned (h : Header) (signature : FixedBytes 65)
    (dposContext : DposContextProto) :
    hashed (withUnsigned h signature dposContext) =
      withUnsigned (hashed h) signature dposContext := by
  have filtered : bftFilteredHeader (withUnsigned h signature dposContext) true =
      (bftFilteredHeader h true).map (withUnsigned · signature dposContext) := by
    rw [bftFilteredHeader, bftFilteredHeader]
    change (extractBFTExtra h).bind _ = _
    cases extractBFTExtra h with
    | none => rfl
    | some extra =>
      rw [Option.bind_some, Option.bind_some, writeExtra, writeExtra, Option.map_map]
      rfl
  rw [hashed, hashed]
  change (if h.mixDigest = bftDigest then _ else _) = _
  split
  · rw [filtered]
    cases bftFilteredHeader h true with
    | none => rfl
    | some _ => rfl
  · rfl

/-! ## Encodings of the same width -/

theorem encode_writeByteArray {n : Nat} (long : 2 ≤ n) (a : FixedBytes n) :
    encode (writeByteArray a) = encodeStringHeader n ++ a.data := by
  rw [writeByteArray, encode, encodeString_of_long (a.length_data.symm ▸ long), a.length_data]

theorem length_encode_writeByteArray {n : Nat} (long : 2 ≤ n) (a b : FixedBytes n) :
    (encode (writeByteArray a)).length = (encode (writeByteArray b)).length := by
  rw [encode_writeByteArray long, encode_writeByteArray long, List.length_append,
    List.length_append, a.length_data, b.length_data]

theorem length_encode_proto (p : DposContextProto) : (encode p.encodeRLP).length = 167 := by
  have field (a : Hash) : (encode (writeByteArray a)).length = 33 := by
    rw [encode_writeByteArray (by decide), List.length_append, a.length_data]
    rfl
  have payload : (encodeItems [writeByteArray p.epochHash, writeByteArray p.delegateHash,
      writeByteArray p.candidateHash, writeByteArray p.voteHash,
      writeByteArray p.mintCntHash]).length = 165 := by
    simp only [encodeItems, List.length_append, List.length_nil, field]
  rw [DposContextProto.encodeRLP, encode, List.length_append, payload]
  decide +kernel

theorem proto_encodeRLP_injective : Function.Injective DposContextProto.encodeRLP := by
  intro p q same
  have fields := Item.list.inj same
  simp only [List.cons.injEq, writeByteArray_injective.eq_iff, and_true] at fields
  cases p
  cases q
  simp_all

/-- The unsigned fields can be read off the encoding of a header. -/
theorem unsigned_of_encode {g : Header} {s t : FixedBytes 65} {p q : DposContextProto}
    (same : encode (withUnsigned g s p).encodeRLP = encode (withUnsigned g t q).encodeRLP) :
    s = t ∧ p = q := by
  have sigShort (a : FixedBytes 65) : (encode (writeByteArray a)).length < maxInt := by
    rw [encode_writeByteArray (by decide), List.length_append, a.length_data]
    decide +kernel
  have protoShort (r : DposContextProto) : (encode r.encodeRLP).length < maxInt := by
    rw [length_encode_proto]
    decide
  have sigWidth := length_encode_writeByteArray (by decide) s t
  rw [Header.encodeRLP, Header.encodeRLP, encode, encode] at same
  have width : (encodeItems [writeByteArray g.parentHash, writeByteArray g.uncleHash,
      writeByteArray s, writeByteArray g.coinbase, writeByteArray g.root, writeByteArray g.txHash,
      writeByteArray g.receiptHash, p.encodeRLP, writeByteArray g.bloom, writeUint g.difficulty,
      writeUint g.number, writeUint g.gasLimit.toNat, writeUint g.gasUsed.toNat, writeUint g.time,
      .bytes g.extra, writeByteArray g.mixDigest, writeByteArray g.nonce]).length =
    (encodeItems [writeByteArray g.parentHash, writeByteArray g.uncleHash,
      writeByteArray t, writeByteArray g.coinbase, writeByteArray g.root, writeByteArray g.txHash,
      writeByteArray g.receiptHash, q.encodeRLP, writeByteArray g.bloom, writeUint g.difficulty,
      writeUint g.number, writeUint g.gasLimit.toNat, writeUint g.gasUsed.toNat, writeUint g.time,
      .bytes g.extra, writeByteArray g.mixDigest, writeByteArray g.nonce]).length := by
    simp only [encodeItems, List.length_append, sigWidth, length_encode_proto]
  simp only [withUnsigned] at same
  rw [width] at same
  have payload := List.append_cancel_left same
  simp only [encodeItems, List.append_cancel_left_eq] at payload
  obtain ⟨signature, later⟩ := encode_append_inj (sigShort s) (sigShort t) payload
  simp only [List.append_cancel_left_eq] at later
  obtain ⟨proto, _⟩ := encode_append_inj (protoShort p) (protoShort q) later
  exact ⟨writeByteArray_injective signature, proto_encodeRLP_injective proto⟩

/-! ## The seal and the hash -/

/-- Headers with the same seal over the same signed bytes are the same block
exactly if their unsigned fields agree.  Of the hash function it is asked that it
does not confuse these two headers. -/
theorem sealed_hash_eq_iff {e : Engine} {h k : Header} {signed : Bytes}
    (sameSeal : sealOf h = sealOf k)
    (left : encodeToBytes (sigFields h) = some signed)
    (right : encodeToBytes (sigFields k) = some signed)
    (distinct : e.crypto.keccak256 (hashPreimage h) = e.crypto.keccak256 (hashPreimage k) →
      hashPreimage h = hashPreimage k) :
    h.hash e.crypto = k.hash e.crypto ↔
      h.signature = k.signature ∧ h.dposContext = k.dposContext := by
  have twin := eq_of_sigFields sameSeal (encodeToBytes_injective left right)
  have own : h = withUnsigned h h.signature h.dposContext := rfl
  constructor
  · intro same
    rw [hash_eq, hash_eq] at same
    have preimage := distinct same
    rw [hashPreimage, hashPreimage, own, twin, hashed_withUnsigned, hashed_withUnsigned] at preimage
    exact unsigned_of_encode preimage
  · rintro ⟨signature, dposContext⟩
    rw [twin, ← signature, ← dposContext]
    rfl

/-! ### A second block under one seal -/

/-- The first block of the chain of four signers with another signature field. -/
def resigned : Header :=
  withUnsigned firstBlock ⟨List.replicate 65 1, rfl⟩ firstBlock.dposContext

def genesisNode : Node := ⟨⟨fourGenesis, [], fourGenesis_num⟩, ∅, ∅⟩

theorem sealed_hash_resigned :
    firstBlock.hash checksumCrypto ≠ resigned.hash checksumCrypto := by
  have signed : encodeToBytes (sigFields firstBlock) = some (encode (sigFields firstBlock)) := by
    rw [encodeToBytes, if_pos (by decide +kernel)]
  have twin : encodeToBytes (sigFields resigned) = some (encode (sigFields firstBlock)) := by
    rw [resigned, sigFields_withUnsigned, signed]
  have sameSeal : sealOf firstBlock = sealOf resigned := by
    rw [resigned, sealOf_withUnsigned]
  have covers := sealed_hash_eq_iff (e := fourEngine) sameSeal signed twin
    (fun same => absurd same (by decide +kernel))
  intro same
  exact absurd (covers.mp same).1 (by decide +kernel)

/-- Without any key the sealed block is turned into another one that the same
signer is held to have sealed and that is accepted. -/
theorem seal_covers_two_blocks :
    sealOf resigned = sealOf firstBlock ∧ sigFields resigned = sigFields firstBlock ∧
      ecrecover fourEngine firstBlock = .ok (checksumSigner 1) ∧
      ecrecover fourEngine resigned = .ok (checksumSigner 1) ∧
      (verifyHeader fourEngine genesisNode firstBlock []).2 = .ok () ∧
      (verifyHeader fourEngine genesisNode resigned []).2 = .ok () ∧
      resigned.hash checksumCrypto ≠ firstBlock.hash checksumCrypto := by
  refine ⟨?_, ?_, ?_, ?_, ?_, ?_, ?_⟩
  · rw [resigned, sealOf_withUnsigned]
  · rw [resigned, sigFields_withUnsigned]
  · decide +kernel
  · decide +kernel
  · decide +kernel
  · decide +kernel
  · decide +kernel

end Linkeye.Poa.Sealing
