import Linkeye.Dbft.Headers

/-!
# Header fields of the clique engines

`consensus/dpos` and `consensus/poa` come from one clique engine and check the
same fields with the same constants.  Their two `verifyHeader` functions begin
and end in the steps below; `VerifyForkHashes` is that of `consensus/misc`.
-/

set_option autoImplicit false

namespace Linkeye.Consensus.Fields

open Common.Types Common.Signature Core.Blocks
open Dbft.Headers (num)

/-- The errors of the two engines.  `ecrecover` stands for those of the curve. -/
inductive HeaderError where
  | errFutureBlock
  | errInvalidCheckpointBeneficiary
  | errInvalidVote
  | errInvalidCheckpointVote
  | errMissingVanity
  | errMissingSignature
  | errExtraSigners
  | errInvalidCheckpointSigners
  | errInvalidMixDigest
  | errInvalidUncleHash
  | errInvalidDifficulty
  | errUnknownAncestor
  | errInvalidTimestamp
  | errUnknownBlock
  | errUnauthorized
  | errInvalidVotingChain
  | errMismatchSignerAndValidator
  | ecrecover
  | homesteadReprice (got want : Hash)
deriving DecidableEq

def extraVanity : Nat := 32
def extraSeal : Nat := 65

def nonceAuthVote : FixedBytes 8 := ⟨List.replicate 8 0xFF, List.length_replicate⟩
def nonceDropVote : FixedBytes 8 := FixedBytes.zero 8

def recoverSigner (crypto : Crypto) (sigHash : Hash) (signature : Bytes) :
    Except HeaderError Address :=
  match crypto.ecrecover sigHash signature with
  | none => .error .ecrecover
  | some pubkey => .ok (pubkeyToAddress crypto pubkey)

/-- The two fields of `params.ChainConfig` that header checks read. -/
structure ForkConfig where
  eip150Block : Option Nat
  eip150Hash : Hash

def verifyForkHashes (crypto : Crypto) (config : ForkConfig) (h : Header) (uncle : Bool) :
    Except HeaderError Unit :=
  if uncle = true then .ok ()
  else if config.eip150Block = some h.number ∧ config.eip150Hash ≠ FixedBytes.zero 32 ∧
      config.eip150Hash ≠ h.hash crypto then
    .error (.homesteadReprice (h.hash crypto) config.eip150Hash)
  else .ok ()

/-! ## The chain and the parent of a header -/

/-- The headers a node can look up, the newest first. -/
structure Chain where
  genesis : Header
  blocks : List Header
  genesis_num : num genesis = 0

def Chain.headers (chain : Chain) : List Header := chain.blocks ++ [chain.genesis]

section
variable (crypto : Crypto)

def getHeader (chain : Chain) (hash : Hash) (number : Nat) : Option Header :=
  chain.headers.find? fun h => decide (h.hash crypto = hash ∧ num h = number)

/-- `parents` has the newest first. -/
def parentOf (chain : Chain) (h : Header) (parents : List Header) : Option Header :=
  match parents with
  | parent :: _ => some parent
  | [] => getHeader crypto chain h.parentHash (num h - 1)

/-- What both `verifyCascadingFields` ask of the parent of a later block. -/
def checkParent (period : Nat) (chain : Chain) (h : Header) (parents : List Header) :
    Except HeaderError Header :=
  match parentOf crypto chain h parents with
  | none => .error .errUnknownAncestor
  | some parent =>
    if num parent ≠ num h - 1 ∨ parent.hash crypto ≠ h.parentHash then
      .error .errUnknownAncestor
    else if h.time % 2 ^ 64 < (parent.time % 2 ^ 64 + period) % 2 ^ 64 then
      .error .errInvalidTimestamp
    else .ok parent

end

theorem checkParent_eq_ok_iff {crypto : Crypto} {period : Nat} {chain : Chain} {h : Header}
    {parents : List Header} {parent : Header} :
    checkParent crypto period chain h parents = .ok parent ↔
      parentOf crypto chain h parents = some parent ∧ num parent = num h - 1 ∧
        parent.hash crypto = h.parentHash ∧
        (parent.time % 2 ^ 64 + period) % 2 ^ 64 ≤ h.time % 2 ^ 64 := by
  rw [checkParent]
  cases parentOf crypto chain h parents with
  | none => simp
  | some found =>
    dsimp only
    split_ifs with wrong early
    · constructor
      · rintro ⟨⟩
      · rintro ⟨same, number, hash, _⟩
        cases same
        rcases wrong with other | other
        · exact absurd number other
        · exact absurd hash other
    · constructor
      · rintro ⟨⟩
      · rintro ⟨same, _, _, late⟩
        cases same
        exact absurd early (not_lt.mpr late)
    · push Not at wrong
      constructor
      · rintro ⟨⟩
        exact ⟨rfl, wrong.1, wrong.2, not_lt.mp early⟩
      · rintro ⟨same, _⟩
        cases same
        rfl

end Linkeye.Consensus.Fields
