import Linkeye.Dbft.Headers
import Linkeye.Rlp.Canonical

/-!
# What a block hash binds

`sigHash`, `prepareExtra`, `writeSeal` and `writeCommittedSeals` of
`backend/engine.go`.  The hash of a BFT header is taken over a copy whose extra
field was decoded, stripped of the committed seals and encoded again.
-/

set_option autoImplicit false

namespace Linkeye.Dbft.Sealing

open Common.Types Common.Signature Core.Blocks Headers Seals Handlers Rlp.Encode Rlp.Decode
open Rlp.Canonical

/-- A nil header is written as an empty list. -/
def sigHash (crypto : Crypto) (h : Header) : Hash :=
  crypto.keccak256 (((bftFilteredHeader h false).map fun f => encode f.encodeRLP).getD [0xC0])

inductive WriteSealError where
  | errInvalidSignature
  | invalidExtra
  | encodingTooLong

def writeSeal (h : Header) (proposerSeal : Bytes) : Except WriteSealError Header :=
  if proposerSeal.length % bftExtraSeal ≠ 0 then .error .errInvalidSignature
  else
    match extractBFTExtra h with
    | none => .error .invalidExtra
    | some extra =>
      match writeExtra h { extra with proposerSeal := proposerSeal } with
      | none => .error .encodingTooLong
      | some written => .ok written

def hashPreimage (h : Header) : Bytes :=
  if h.mixDigest = bftDigest then
    match bftFilteredHeader h true with
    | some bftHeader => encode bftHeader.encodeRLP
    | none => encode h.encodeRLP
  else encode h.encodeRLP

/-! ## Well-formed headers -/

/-- A header with a readable extra field and the digest of BFT, small enough for
a slice to hold its encoding. -/
structure BFTHeader where
  header : Header
  extra : BFTExtra
  extracted : extractBFTExtra header = some extra
  digest : header.mixDigest = bftDigest
  fits : (encode header.encodeRLP).length < maxInt

variable {extra : BFTExtra} {h written : Header}

theorem encodeRLP_of_decodeRLP {item : Item} (read : BFTExtra.decodeRLP item = some extra) :
    extra.encodeRLP = item := by
  rw [BFTExtra.decodeRLP.eq_def] at read
  split at read
  · rename_i validators proposerSeal committedSeal
    obtain ⟨addrs, first, read⟩ := Option.bind_eq_some_iff.mp read
    obtain ⟨ownSeal, second, read⟩ := Option.bind_eq_some_iff.mp read
    obtain ⟨seals, third, read⟩ := Option.bind_eq_some_iff.mp read
    cases read
    have listed := eq_list_of_decodeListSlice (fun _ _ => eq_writeByteArray) first
    have sealedBy := eq_list_of_decodeListSlice (fun _ _ => eq_bytes_of_decodeByteSlice) third
    rw [BFTExtra.encodeRLP, listed, eq_bytes_of_decodeByteSlice second, sealedBy]
  · cases read

/-- The extra field has no byte that its reader ignores. -/
theorem extra_eq_of_extractBFTExtra (extracted : extractBFTExtra h = some extra) :
    h.extra = h.extra.take bftExtraVanity ++ encode extra.encodeRLP := by
  rw [extractBFTExtra] at extracted
  split at extracted
  · cases extracted
  · obtain ⟨item, decoded, read⟩ := Option.bind_eq_some_iff.mp extracted
    rw [encodeRLP_of_decodeRLP read, encode_of_decodeBytes decoded, List.take_append_drop]

/-- Rewriting the extra field changes nothing else that the filter keeps. -/
theorem bftFilteredHeader_rewritten {extra' : BFTExtra} {keepSeal : Bool}
    (extracted : extractBFTExtra h = some extra) (run : writeExtra h extra' = some written)
    (validators : extra'.validators = extra.validators)
    (seals : keepSeal = true → extra'.proposerSeal = extra.proposerSeal) :
    bftFilteredHeader written keepSeal = bftFilteredHeader h keepSeal := by
  obtain ⟨readBack, rest, vanity⟩ :=
    extractBFTExtra_writeExtra (extractBFTExtra_long extracted) run
  have same : ({ extra' with
      proposerSeal := if keepSeal = true then extra'.proposerSeal else []
      committedSeal := [] } : BFTExtra) = { extra with
      proposerSeal := if keepSeal = true then extra.proposerSeal else []
      committedSeal := [] } := by
    rw [validators]
    cases keepSeal with
    | false => rfl
    | true => rw [seals rfl]
  rw [bftFilteredHeader, bftFilteredHeader, readBack, extracted, Option.bind_some,
    Option.bind_some, same, writeExtra, writeExtra, vanity, rest]

theorem writeSeal_eq_ok {proposerSeal : Bytes} (run : writeSeal h proposerSeal = .ok written) :
    ∃ extra, extractBFTExtra h = some extra ∧
      writeExtra h { extra with proposerSeal := proposerSeal } = some written := by
  rw [writeSeal] at run
  split at run
  · cases run
  · split at run
    · cases run
    · rename_i extra extracted
      split at run
      · cases run
      · rename_i result writtenRun
        cases run
        exact ⟨extra, extracted, writtenRun⟩

theorem sigHash_writeSeal {crypto : Crypto} {proposerSeal : Bytes}
    (run : writeSeal h proposerSeal = .ok written) : sigHash crypto written = sigHash crypto h := by
  obtain ⟨extra, extracted, writtenRun⟩ := writeSeal_eq_ok run
  rw [sigHash, sigHash, bftFilteredHeader_rewritten extracted writtenRun rfl (by simp)]

theorem sigHash_writeCommittedSeals {crypto : Crypto} {seals : List Bytes}
    (run : writeCommittedSeals h seals = .ok written) :
    sigHash crypto written = sigHash crypto h := by
  obtain ⟨extra, extracted, writtenRun⟩ := writeCommittedSeals_eq_ok run
  rw [sigHash, sigHash, bftFilteredHeader_rewritten extracted writtenRun rfl fun _ => rfl]

/-- The proposer that is recovered from a block is the same before and after the
commit. -/
theorem ecrecover_writeCommittedSeals (e : Engine) {seals : List Bytes}
    (run : writeCommittedSeals h seals = .ok written) : ecrecover e written = ecrecover e h := by
  have signed : sigHash e.crypto written = sigHash e.crypto h := sigHash_writeCommittedSeals run
  obtain ⟨extra, extracted, writtenRun⟩ := writeCommittedSeals_eq_ok run
  obtain ⟨readBack, _, _⟩ := extractBFTExtra_writeExtra (extractBFTExtra_long extracted) writtenRun
  rw [sigHash, sigHash] at signed
  simp only [ecrecover, readBack, extracted, signed]

/-! ## Equal pre-images -/

theorem encodeString_length_mono {short long : Bytes} (le : short.length ≤ long.length)
    (two : 2 ≤ long.length) : (encodeString short).length ≤ (encodeString long).length := by
  have head := puthead_length_mono 0x80 0xB7 le
  have longForm : (encodeString long).length =
      (puthead 0x80 0xB7 long.length).length + long.length := by
    rw [encodeString_of_long two, List.length_append, encodeStringHeader]
  rw [longForm]
  rcases short with _ | ⟨single, _ | ⟨second, rest⟩⟩
  · simp only [encodeString, encodeStringHeader, List.length_append]
    omega
  · simp only [encodeString]
    split
    · simp only [List.length_singleton]
      omega
    · simp only [encodeStringHeader, List.length_append, List.length_singleton] at head ⊢
      omega
  · simp only [encodeString, encodeStringHeader, List.length_append]
    omega

theorem encodeItems_append (left right : List Item) :
    encodeItems (left ++ right) = encodeItems left ++ encodeItems right := by
  induction left with
  | nil => rfl
  | cons item rest ih => rw [List.cons_append, encodeItems, encodeItems, ih, List.append_assoc]

/-- A list with a shorter member has no longer encoding. -/
theorem encode_list_mono (left right : List Item) {item item' : Item}
    (le : (encode item).length ≤ (encode item').length) :
    (encode (.list (left ++ item :: right))).length ≤
      (encode (.list (left ++ item' :: right))).length := by
  have inner : (encodeItems (left ++ item :: right)).length ≤
      (encodeItems (left ++ item' :: right)).length := by
    simp only [encodeItems_append, encodeItems, List.length_append]
    omega
  have head := puthead_length_mono 0xC0 0xF7 inner
  simp only [encode, List.length_append]
  omega

def fieldsBefore (h : Header) : List Item :=
  [writeByteArray h.parentHash, writeByteArray h.uncleHash, writeByteArray h.signature,
    writeByteArray h.coinbase, writeByteArray h.root, writeByteArray h.txHash,
    writeByteArray h.receiptHash, h.dposContext.encodeRLP, writeByteArray h.bloom,
    writeUint h.difficulty, writeUint h.number, writeUint h.gasLimit.toNat,
    writeUint h.gasUsed.toNat, writeUint h.time]

theorem header_encodeRLP_eq (h : Header) :
    h.encodeRLP = .list (fieldsBefore h ++
      .bytes h.extra :: [writeByteArray h.mixDigest, writeByteArray h.nonce]) := rfl

theorem writeByteArray_inj {n : Nat} {a b : FixedBytes n}
    (same : writeByteArray a = writeByteArray b) : a = b := by
  have read := decodeByteArray_writeByteArray a
  rw [same, decodeByteArray_writeByteArray] at read
  exact (Option.some.inj read).symm

theorem writeUint_inj {n m : Nat} (same : writeUint n = writeUint m) : n = m :=
  bigBytes_injective (Item.bytes.inj same)

theorem header_encodeRLP_injective : Function.Injective Header.encodeRLP := by
  intro h h' same
  simp only [Header.encodeRLP, DposContextProto.encodeRLP, Item.list.injEq, List.cons.injEq,
    and_true, Item.bytes.injEq] at same
  obtain ⟨f1, f2, f3, f4, f5, f6, f7, ⟨p1, p2, p3, p4, p5⟩, f9, f10, f11, f12, f13, f14, f15, f16,
    f17⟩ := same
  have protos : h.dposContext = h'.dposContext := by
    rw [DposContextProto.mk.injEq]
    exact ⟨writeByteArray_inj p1, writeByteArray_inj p2, writeByteArray_inj p3,
      writeByteArray_inj p4, writeByteArray_inj p5⟩
  rw [Header.mk.injEq]
  exact ⟨writeByteArray_inj f1, writeByteArray_inj f2, writeByteArray_inj f3, writeByteArray_inj f4,
    writeByteArray_inj f5, writeByteArray_inj f6, writeByteArray_inj f7, protos,
    writeByteArray_inj f9, writeUint_inj f10, writeUint_inj f11,
    UInt64.toNat_inj.mp (writeUint_inj f12), UInt64.toNat_inj.mp (writeUint_inj f13),
    writeUint_inj f14, f15, writeByteArray_inj f16, writeByteArray_inj f17⟩

theorem extra_length_le (h : Header) : h.extra.length ≤ (encode h.encodeRLP).length := by
  have field := encodeString_length h.extra
  rw [header_encodeRLP_eq, encode, encodeItems_append, encodeItems, encode]
  simp only [List.length_append]
  omega

namespace BFTHeader

def filtered (h : BFTHeader) : Header :=
  { h.header with
    extra := h.header.extra.take bftExtraVanity ++
      encode (BFTExtra.encodeRLP ⟨h.extra.validators, h.extra.proposerSeal, []⟩) }

theorem length_filtered_extra (h : BFTHeader) :
    h.filtered.extra.length ≤ h.header.extra.length := by
  have whole := congrArg List.length (extra_eq_of_extractBFTExtra h.extracted)
  have shorter := encode_without_seals h.extra
  rw [List.length_append] at whole
  rw [filtered]
  simp only [List.length_append]
  omega

theorem payload_short (h : BFTHeader) :
    (encode (BFTExtra.encodeRLP ⟨h.extra.validators, h.extra.proposerSeal, []⟩)).length <
      maxInt := by
  have shorter := h.length_filtered_extra
  have fits := h.fits
  have bound := extra_length_le h.header
  rw [filtered] at shorter
  simp only [List.length_append] at shorter
  omega

theorem bftFilteredHeader_eq (h : BFTHeader) :
    bftFilteredHeader h.header true = some h.filtered := by
  rw [bftFilteredHeader, h.extracted, Option.bind_some, writeExtra, encodeToBytes]
  simp only [if_true, if_pos h.payload_short, Option.map_some]
  rfl

theorem hashPreimage_eq (h : BFTHeader) :
    hashPreimage h.header = encode h.filtered.encodeRLP := by
  rw [hashPreimage, if_pos h.digest, h.bftFilteredHeader_eq]

theorem filtered_fits (h : BFTHeader) : (encode h.filtered.encodeRLP).length < maxInt := by
  have long := extractBFTExtra_long h.extracted
  have two : 2 ≤ h.header.extra.length := by
    rw [bftExtraVanity] at long
    omega
  refine lt_of_le_of_lt ?_ h.fits
  rw [filtered, header_encodeRLP_eq, header_encodeRLP_eq]
  apply encode_list_mono
  rw [encode, encode]
  exact encodeString_length_mono h.length_filtered_extra two

end BFTHeader

/-- Two headers that differ in their committed seals at most. -/
structure AgreeButSeals (h h' : BFTHeader) : Prop where
  rest : h.header = { h'.header with extra := h.header.extra }
  vanity : h.header.extra.take bftExtraVanity = h'.header.extra.take bftExtraVanity
  validators : h.extra.validators = h'.extra.validators
  proposerSeal : h.extra.proposerSeal = h'.extra.proposerSeal
  committedSeal : h.extra.committedSeal = h'.extra.committedSeal → h.header = h'.header

theorem filtered_inj {h h' : BFTHeader} (same : h.filtered = h'.filtered) : AgreeButSeals h h' := by
  have fields : h.header = { h'.header with extra := h.header.extra } := by
    have strip : { h.filtered with extra := h.header.extra } =
        { h'.filtered with extra := h.header.extra } := by rw [same]
    exact strip
  have vanityLength : ∀ h : BFTHeader,
      (h.header.extra.take bftExtraVanity).length = bftExtraVanity := by
    intro h
    rw [List.length_take]
    exact Nat.min_eq_left (extractBFTExtra_long h.extracted)
  have extras := congrArg Header.extra same
  obtain ⟨vanity, payload⟩ := List.append_inj extras ((vanityLength h).trans (vanityLength h').symm)
  have items := decodeBytes_encode h.payload_short
  rw [payload, decodeBytes_encode h'.payload_short, Option.some.injEq] at items
  have read := decodeRLP_bftExtra ⟨h.extra.validators, h.extra.proposerSeal, []⟩
  rw [← items, decodeRLP_bftExtra, Option.some.injEq, BFTExtra.mk.injEq] at read
  refine ⟨fields, vanity, read.1.symm, read.2.1.symm, fun seals => ?_⟩
  have whole : h.extra = h'.extra := by
    rw [BFTExtra.mk.injEq]
    exact ⟨read.1.symm, read.2.1.symm, seals⟩
  rw [fields, extra_eq_of_extractBFTExtra h.extracted, vanity, whole,
    ← extra_eq_of_extractBFTExtra h'.extracted]

/-- Sealing keeps the hash, both seals keep the hash that the proposer signs, and
headers with one pre-image differ in the committed seals at most. -/
theorem sealing_keeps_identity (crypto : Crypto) (h : BFTHeader) :
    (∀ seals written, writeCommittedSeals h.header seals = .ok written →
      written.hash crypto = h.header.hash crypto ∧
        sigHash crypto written = sigHash crypto h.header) ∧
    (∀ proposerSeal written, writeSeal h.header proposerSeal = .ok written →
      sigHash crypto written = sigHash crypto h.header) ∧
    (∀ h' : BFTHeader, hashPreimage h.header = hashPreimage h'.header → AgreeButSeals h h') := by
  refine ⟨fun seals written run => ⟨?_, ?_⟩, fun proposerSeal written run => ?_, fun h' same => ?_⟩
  · exact hash_writeCommittedSeals run h.digest
  · exact sigHash_writeCommittedSeals run
  · exact sigHash_writeSeal run
  · rw [h.hashPreimage_eq, h'.hashPreimage_eq] at same
    have items := decodeBytes_encode h.filtered_fits
    rw [same, decodeBytes_encode h'.filtered_fits, Option.some.injEq] at items
    exact filtered_inj (header_encodeRLP_injective items.symm)

def sampleBFTHeader : BFTHeader where
  header := sampleHeader 1 1
  extra := ⟨sampleSet.validators, plainSig (sampleAddress 1), []⟩
  extracted := by decide +kernel
  digest := rfl
  fits := by decide +kernel

/-- Validator 2 seals block 1 of validator 1. -/
theorem sealing_keeps_identity_sample :
    ∃ written, writeCommittedSeals (sampleHeader 1 1) [plainSig (sampleAddress 2)] = .ok written ∧
      written ≠ sampleHeader 1 1 ∧
      written.hash plainCrypto = (sampleHeader 1 1).hash plainCrypto ∧
      sigHash plainCrypto written = sigHash plainCrypto (sampleHeader 1 1) := by
  have differs : (writeCommittedSeals (sampleHeader 1 1)
      [plainSig (sampleAddress 2)]).toOption.any (fun written =>
        decide (written ≠ sampleHeader 1 1)) = true := by
    decide +kernel
  cases run : writeCommittedSeals (sampleHeader 1 1) [plainSig (sampleAddress 2)] with
  | error err => simp [run, Except.toOption] at differs
  | ok written =>
    rw [run] at differs
    have kept := (sealing_keeps_identity plainCrypto sampleBFTHeader).1 _ written run
    exact ⟨written, rfl, of_decide_eq_true differs, kept⟩

end Linkeye.Dbft.Sealing
