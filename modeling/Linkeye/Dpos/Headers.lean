import Linkeye.Consensus.Fields

/-!
# Header verification of the dpos engine

`verifyHeader` of `consensus/dpos/dpos.go`.  The engine signs into the signature
field of the header; the cache of recovered signers, which only repeats earlier
answers, is left out.
-/

set_option autoImplicit false

namespace Linkeye.Dpos.Headers

open Common.Types Common.Signature Consensus.Fields Core.Blocks
open Dbft.Headers (num)
open Rlp.Encode

structure Engine where
  crypto : Crypto
  period : Nat
  forks : ForkConfig
  now : Nat

section
variable (e : Engine)

def sigHash (h : Header) : Hash :=
  rlpHash e.crypto (.list [writeByteArray h.parentHash, writeByteArray h.uncleHash,
    writeByteArray h.coinbase, writeByteArray h.root, writeByteArray h.txHash,
    writeByteArray h.receiptHash, writeByteArray h.bloom, writeUint h.difficulty,
    writeUint h.number, writeUint h.gasLimit.toNat, writeUint h.gasUsed.toNat, writeUint h.time,
    .bytes h.extra, writeByteArray h.mixDigest, writeByteArray h.nonce,
    writeByteArray (h.dposContext.root e.crypto)])

def ecrecover (h : Header) : Except HeaderError Address :=
  recoverSigner e.crypto (sigHash e h) h.signature.data

/-- The checks of `verifyHeader` before the signature. -/
def verifyFields (h : Header) : Except HeaderError Unit :=
  if e.now < h.time then .error .errFutureBlock
  else if h.nonce ≠ nonceAuthVote ∧ h.nonce ≠ nonceDropVote then .error .errInvalidVote
  else if h.extra.length < extraVanity then .error .errMissingVanity
  else if h.mixDigest ≠ FixedBytes.zero 32 then .error .errInvalidMixDigest
  else if h.uncleHash ≠ rlpHash e.crypto (.list []) then .error .errInvalidUncleHash
  else .ok ()

def verifyCascadingFields (chain : Chain) (h : Header) (parents : List Header) :
    Except HeaderError Unit :=
  if num h = 0 then .ok ()
  else
    match checkParent e.crypto e.period chain h parents with
    | .error err => .error err
    | .ok _ => .ok ()

def verifyHeader (chain : Chain) (h : Header) (parents : List Header) :
    Except HeaderError Unit := do
  verifyFields e h
  let signer ← ecrecover e h
  if signer ≠ h.coinbase then throw .errMismatchSignerAndValidator
  verifyForkHashes e.crypto e.forks h false
  verifyCascadingFields e chain h parents

end

end Linkeye.Dpos.Headers
