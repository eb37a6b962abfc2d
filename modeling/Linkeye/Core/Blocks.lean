import Linkeye.Core.Transaction

/-!
# Headers and blocks

`core/types/block.go` and `core/types/istanbul.go`.  The extra field of a BFT
header is 32 bytes of vanity and the RLP list of validators, proposer seal and
committed seals; the hash of such a header leaves the committed seals out.
-/

set_option autoImplicit false

namespace Linkeye.Core.Blocks

open Common.Types Common.Signature Rlp.Encode Rlp.Decode Transaction

structure DposContextProto where
  epochHash : Hash
  delegateHash : Hash
  candidateHash : Hash
  voteHash : Hash
  mintCntHash : Hash
deriving DecidableEq

structure Header where
  parentHash : Hash
  uncleHash : Hash
  signature : FixedBytes 65
  coinbase : Address
  root : Hash
  txHash : Hash
  receiptHash : Hash
  dposContext : DposContextProto
  bloom : FixedBytes 256
  difficulty : Nat
  number : Nat
  gasLimit : UInt64
  gasUsed : UInt64
  time : Nat
  extra : Bytes
  mixDigest : Hash
  nonce : FixedBytes 8
deriving DecidableEq

def Header.zero : Header :=
  ⟨.zero 32, .zero 32, .zero 65, zeroAddress, .zero 32, .zero 32, .zero 32,
    ⟨.zero 32, .zero 32, .zero 32, .zero 32, .zero 32⟩, .zero 256, 0, 0, 0, 0, 0, [], .zero 32,
    .zero 8⟩

def DposContextProto.encodeRLP (p : DposContextProto) : Item :=
  .list [writeByteArray p.epochHash, writeByteArray p.delegateHash,
    writeByteArray p.candidateHash, writeByteArray p.voteHash, writeByteArray p.mintCntHash]

def DposContextProto.decodeRLP : Item → Option DposContextProto
  | .list [epoch, delegate, candidate, vote, mintCnt] => do
      let epoch ← decodeByteArray 32 epoch
      let delegate ← decodeByteArray 32 delegate
      let candidate ← decodeByteArray 32 candidate
      let vote ← decodeByteArray 32 vote
      let mintCnt ← decodeByteArray 32 mintCnt
      return ⟨epoch, delegate, candidate, vote, mintCnt⟩
  | _ => none

def Header.encodeRLP (h : Header) : Item :=
  .list [writeByteArray h.parentHash, writeByteArray h.uncleHash, writeByteArray h.signature,
    writeByteArray h.coinbase, writeByteArray h.root, writeByteArray h.txHash,
    writeByteArray h.receiptHash, h.dposContext.encodeRLP, writeByteArray h.bloom,
    writeUint h.difficulty, writeUint h.number, writeUint h.gasLimit.toNat,
    writeUint h.gasUsed.toNat, writeUint h.time, .bytes h.extra, writeByteArray h.mixDigest,
    writeByteArray h.nonce]

def Header.decodeRLP : Item → Option Header
  | .list [parentHash, uncleHash, signature, coinbase, root, txHash, receiptHash, dposContext,
      bloom, difficulty, number, gasLimit, gasUsed, time, extra, mixDigest, nonce] => do
      let parentHash ← decodeByteArray 32 parentHash
      let uncleHash ← decodeByteArray 32 uncleHash
      let signature ← decodeByteArray 65 signature
      let coinbase ← decodeByteArray 20 coinbase
      let root ← decodeByteArray 32 root
      let txHash ← decodeByteArray 32 txHash
      let receiptHash ← decodeByteArray 32 receiptHash
      let dposContext ← DposContextProto.decodeRLP dposContext
      let bloom ← decodeByteArray 256 bloom
      let difficulty ← decodeBigInt difficulty
      let number ← decodeBigInt number
      let gasLimit ← decodeUint 64 gasLimit
      let gasUsed ← decodeUint 64 gasUsed
      let time ← decodeBigInt time
      let extra ← decodeByteSlice extra
      let mixDigest ← decodeByteArray 32 mixDigest
      let nonce ← decodeByteArray 8 nonce
      return ⟨parentHash, uncleHash, signature, coinbase, root, txHash, receiptHash, dposContext,
        bloom, difficulty, number, UInt64.ofNat gasLimit, UInt64.ofNat gasUsed, time, extra,
        mixDigest, nonce⟩
  | _ => none

def rlpHash (crypto : Crypto) (item : Item) : Hash := crypto.keccak256 (encode item)

/-- `Root`: the five hashes are encoded one after the other, not as a list. -/
def DposContextProto.root (crypto : Crypto) (p : DposContextProto) : Hash :=
  crypto.keccak256 (encodeItems [writeByteArray p.epochHash, writeByteArray p.delegateHash,
    writeByteArray p.candidateHash, writeByteArray p.voteHash, writeByteArray p.mintCntHash])

/-! ## The BFT extra field -/

/-- The bytes of "practical byzantine fault tolerance", cropped to a hash. -/
def bftDigest : Hash :=
  bytesToHash (bigBytes 0x63746963616c2062797a616e74696e65206661756c7420746f6c6572616e6365)

def bftExtraVanity : Nat := 32
def bftExtraSeal : Nat := 65

structure BFTExtra where
  validators : List Address
  proposerSeal : Bytes
  committedSeal : List Bytes
deriving DecidableEq

def BFTExtra.encodeRLP (ist : BFTExtra) : Item :=
  .list [.list (ist.validators.map writeByteArray), .bytes ist.proposerSeal,
    .list (ist.committedSeal.map .bytes)]

def BFTExtra.decodeRLP : Item → Option BFTExtra
  | .list [validators, proposerSeal, committedSeal] => do
      let validators ← decodeListSlice (decodeByteArray 20) validators
      let proposerSeal ← decodeByteSlice proposerSeal
      let committedSeal ← decodeListSlice decodeByteSlice committedSeal
      return ⟨validators, proposerSeal, committedSeal⟩
  | _ => none

def extractBFTExtra (h : Header) : Option BFTExtra :=
  if h.extra.length < bftExtraVanity then none
  else (decodeBytes (h.extra.drop bftExtraVanity)).bind BFTExtra.decodeRLP

/-- `append(h.Extra[:BFTExtraVanity], payload...)` with the encoding of `extra`. -/
def writeExtra (h : Header) (extra : BFTExtra) : Option Header :=
  (encodeToBytes extra.encodeRLP).map fun payload =>
    { h with extra := h.extra.take bftExtraVanity ++ payload }

def bftFilteredHeader (h : Header) (keepSeal : Bool) : Option Header :=
  (extractBFTExtra h).bind fun extra =>
    writeExtra h { extra with
      proposerSeal := if keepSeal = true then extra.proposerSeal else []
      committedSeal := [] }

def Header.hash (crypto : Crypto) (h : Header) : Hash :=
  if h.mixDigest = bftDigest then
    match bftFilteredHeader h true with
    | some bftHeader => rlpHash crypto bftHeader.encodeRLP
    | none => rlpHash crypto h.encodeRLP
  else rlpHash crypto h.encodeRLP

inductive SealError where
  | invalidCommittedSeals
  | invalidExtra
  | encodingTooLong

def writeCommittedSeals (h : Header) (committedSeals : List Bytes) : Except SealError Header :=
  if committedSeals = [] then .error .invalidCommittedSeals
  else if committedSeals.any (fun s => decide (s.length ≠ bftExtraSeal)) = true then
    .error .invalidCommittedSeals
  else
    match extractBFTExtra h with
    | none => .error .invalidExtra
    | some extra =>
      match writeExtra h { extra with committedSeal := committedSeals } with
      | none => .error .encodingTooLong
      | some written => .ok written

/-! ## Blocks -/

structure Block where
  header : Header
  transactions : List TxData
  uncles : List Header

def Block.encodeRLP (b : Block) : Option Item :=
  (b.transactions.mapM TxData.encodeRLP).map fun txs =>
    .list [b.header.encodeRLP, .list txs, .list (b.uncles.map Header.encodeRLP)]

def Block.decodeRLP : Item → Option Block
  | .list [header, txs, uncles] => do
      let header ← Header.decodeRLP header
      let txs ← decodeListSlice TxData.decodeRLP txs
      let uncles ← decodeListSlice Header.decodeRLP uncles
      return ⟨header, txs, uncles⟩
  | _ => none

/-! ## Writing seals keeps the hash -/

theorem decodeRLP_bftExtra (extra : BFTExtra) : BFTExtra.decodeRLP extra.encodeRLP = some extra := by
  have validators : decodeListSlice (decodeByteArray 20)
      (.list (extra.validators.map writeByteArray)) = some extra.validators :=
    decodeListSlice_map _ _ decodeByteArray_writeByteArray extra.validators
  have seals : decodeListSlice decodeByteSlice (.list (extra.committedSeal.map .bytes)) =
      some extra.committedSeal :=
    decodeListSlice_map _ Item.bytes (fun _ => rfl) extra.committedSeal
  simp only [BFTExtra.encodeRLP, BFTExtra.decodeRLP, validators, seals, decodeByteSlice,
    bind, Option.bind_some, pure]

variable {h written : Header} {extra : BFTExtra} {seals : List Bytes}

theorem extractBFTExtra_writeExtra (long : bftExtraVanity ≤ h.extra.length)
    (run : writeExtra h extra = some written) :
    extractBFTExtra written = some extra ∧
      written = { h with extra := written.extra } ∧
      written.extra.take bftExtraVanity = h.extra.take bftExtraVanity := by
  obtain ⟨payload, encoded, rfl⟩ := Option.map_eq_some_iff.mp run
  have vanity : (h.extra.take bftExtraVanity).length = bftExtraVanity := by
    rw [List.length_take]
    omega
  refine ⟨?_, rfl, ?_⟩
  · unfold extractBFTExtra
    dsimp only
    rw [if_neg (by rw [List.length_append]; omega), List.drop_left' vanity,
      decodeBytes_encodeToBytes encoded, Option.bind_some, decodeRLP_bftExtra]
  · exact List.take_left' vanity

theorem extractBFTExtra_long (run : extractBFTExtra h = some extra) :
    bftExtraVanity ≤ h.extra.length := by
  unfold extractBFTExtra at run
  split at run
  · cases run
  · rename_i long
    exact not_lt.mp long

theorem bftFilteredHeader_writeExtra (run : extractBFTExtra h = some extra)
    (written_run : writeExtra h { extra with committedSeal := seals } = some written)
    (keepSeal : Bool) : bftFilteredHeader written keepSeal = bftFilteredHeader h keepSeal := by
  obtain ⟨readBack, rest, vanity⟩ :=
    extractBFTExtra_writeExtra (extractBFTExtra_long run) written_run
  unfold bftFilteredHeader
  rw [readBack, run, Option.bind_some, Option.bind_some]
  unfold writeExtra
  rw [vanity]
  rw [rest]

theorem puthead_length_mono (smalltag largetag : UInt8) {n m : Nat} (le : n ≤ m) :
    (puthead smalltag largetag n).length ≤ (puthead smalltag largetag m).length := by
  have longer := bigBytes_length_le (lt_of_le_of_lt le (lt_pow_length_bigBytes m))
  unfold puthead putint
  split
  · split <;> simp
  · rw [if_neg (by omega)]
    simp only [List.length_cons]
    omega

/-- Dropping the committed seals does not lengthen an encoding. -/
theorem encode_without_seals (extra : BFTExtra) :
    (encode (BFTExtra.encodeRLP { extra with committedSeal := [] })).length ≤
      (encode extra.encodeRLP).length := by
  have inner : (encodeItems [.list (extra.validators.map writeByteArray),
        .bytes extra.proposerSeal, .list []]).length ≤
      (encodeItems [.list (extra.validators.map writeByteArray), .bytes extra.proposerSeal,
        .list (extra.committedSeal.map .bytes)]).length := by
    have head := puthead_length_mono 0xC0 0xF7
      (Nat.zero_le (encodeItems (extra.committedSeal.map .bytes)).length)
    simp only [encodeItems, encode, List.length_append, List.length_nil] at head ⊢
    omega
  have head := puthead_length_mono 0xC0 0xF7 inner
  simp only [BFTExtra.encodeRLP, List.map_nil, encode, List.length_append]
  omega

theorem bftFilteredHeader_isSome (run : extractBFTExtra h = some extra)
    (written_run : writeExtra h { extra with committedSeal := seals } = some written) :
    (bftFilteredHeader h true).isSome = true := by
  obtain ⟨payload, encoded, _⟩ := Option.map_eq_some_iff.mp written_run
  have short := (encodeToBytes_eq_some encoded).2
  have shorter := encode_without_seals { extra with committedSeal := seals }
  rw [bftFilteredHeader, run, Option.bind_some, writeExtra, Option.isSome_map, encodeToBytes]
  simp only [if_true, if_pos (lt_of_le_of_lt shorter short), Option.isSome_some]

theorem writeCommittedSeals_eq_ok (run : writeCommittedSeals h seals = .ok written) :
    ∃ extra, extractBFTExtra h = some extra ∧
      writeExtra h { extra with committedSeal := seals } = some written := by
  unfold writeCommittedSeals at run
  split at run
  · cases run
  · split at run
    · cases run
    · split at run
      · cases run
      · rename_i extra extracted
        split at run
        · cases run
        · rename_i result written_run
          cases run
          exact ⟨extra, extracted, written_run⟩

theorem hash_writeCommittedSeals {crypto : Crypto} (run : writeCommittedSeals h seals = .ok written)
    (digest : h.mixDigest = bftDigest) :
    written.hash crypto = h.hash crypto := by
  obtain ⟨extra, extracted, written_run⟩ := writeCommittedSeals_eq_ok run
  obtain ⟨_, rest, _⟩ := extractBFTExtra_writeExtra (extractBFTExtra_long extracted) written_run
  have same := bftFilteredHeader_writeExtra extracted written_run true
  obtain ⟨filtered, found⟩ :=
    Option.isSome_iff_exists.mp (bftFilteredHeader_isSome extracted written_run)
  have digestKept : written.mixDigest = bftDigest := by
    rw [rest]
    exact digest
  simp only [Header.hash, if_pos digest, if_pos digestKept, same, found]

end Linkeye.Core.Blocks
