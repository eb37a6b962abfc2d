import Linkeye.Common.Types

/-!
# Hashing and signature recovery

Keccak and the recovery of a public key are parameters; the functions built on
them are those of packages `crypto` and `consensus/dbft`.
-/

set_option autoImplicit false

namespace Linkeye.Common.Signature

open Common.Types

structure Crypto where
  keccak256 : Bytes → Hash
  ecrecover : Hash → Bytes → Option Bytes

def pubkeyToAddress (crypto : Crypto) (pub : Bytes) : Address :=
  bytesToAddress ((crypto.keccak256 (pub.drop 1)).data.drop 12)

def getSignatureAddress (crypto : Crypto) (data sig : Bytes) : Option Address :=
  (crypto.ecrecover (crypto.keccak256 data) sig).map (pubkeyToAddress crypto)

/-! ## A transparent instance for concrete runs -/

/-- Hashes keep the last 32 bytes and a signature of 65 bytes is the public key
of its maker, so that runs on concrete data can be evaluated. -/
def plainCrypto : Crypto where
  keccak256 := bytesToHash
  ecrecover := fun _ sig => if sig.length = 65 then some (4 :: sig.take 64) else none

def plainSig (a : Address) : Bytes := List.replicate 44 0 ++ a.data ++ [0]

def checksum (data : Bytes) : Nat :=
  data.foldl (fun sum b => (sum * 257 + b.toNat + 1) % (2 ^ 256 - 189)) 0

/-- The same signatures with hashes that tell blocks apart, for runs that look
blocks up by their hash. -/
def checksumCrypto : Crypto where
  keccak256 := fun data => bytesToHash (bigBytes (checksum data))
  ecrecover := plainCrypto.ecrecover

def checksumSig (key : UInt8) : Bytes := List.replicate 64 key ++ [0]

def checksumSigner (key : UInt8) : Address :=
  pubkeyToAddress checksumCrypto (4 :: List.replicate 64 key)

end Linkeye.Common.Signature
