import Linkeye.Consensus.Heights
import Linkeye.Consensus.Recents

/-!
# Seals of the dpos engine

`epochContext`, `verifySeal` and `Seal` of `consensus/dpos/dpos.go`.  The signers
come from the epoch trie of the parent, the recent signers from a walk back
through the headers that stops at genesis, at an epoch boundary, or when it has
seen as many blocks as the window is long.
-/

set_option autoImplicit false

namespace Linkeye.Dpos.Seals

open Std Common.Types Common.Signature Consensus.Fields Consensus.Recents Core.Blocks Core.Dpos
open Dbft.Headers (num RootOf TrieDB newDposContextFromProto)
open Headers

/-- The engine with the fields that seals need: the epoch length and the roots
of the tries. -/
structure SealEngine extends Engine where
  epoch : Nat
  epoch_pos : 0 < epoch
  rootOf : RootOf

inductive SealError where
  | header (err : HeaderError)
  | errNilBlockHeader
  | missingTrie
  | noValidators
  | errWaitTransactions
  | signFn
  | endlessWalk
deriving DecidableEq

structure EpochContext where
  number : Nat
  hash : Hash
  signers : ExtTreeMap Address Unit
  recents : ExtTreeMap Nat Address

def EpochContext.limit (c : EpochContext) : Nat := c.signers.size / 2 + 1

/-- The headers a node knows and its cache of contexts. -/
structure Node where
  chain : Chain
  recents : ExtTreeMap Hash EpochContext

/-! ## The context of a block -/

def newEpochContext (number : Nat) (hash : Hash) (dc : DposContext) :
    Except SealError EpochContext :=
  match dc.getValidators with
  | none => .error .noValidators
  | some validators =>
    .ok ⟨number, hash, validators.foldl (fun known signer => known.insert signer ()) ∅, ∅⟩

section
variable (crypto : Crypto) (chain : Chain)

def getHeaderByHash (hash : Hash) : Option Header :=
  chain.headers.find? fun h => decide (h.hash crypto = hash)

def walksOn (epoch limit : Nat) (cur : Header) (recents : ExtTreeMap Nat Address) : Prop :=
  0 < num cur ∧ recents.size < limit ∧ num cur % epoch ≠ 0

instance (epoch limit : Nat) (cur : Header) (recents : ExtTreeMap Nat Address) :
    Decidable (walksOn epoch limit cur recents) :=
  inferInstanceAs (Decidable (_ ∧ _ ∧ _))

/-- The walk back from a header.  The numbers go down along a chain, so `fuel` is
used up only where headers are not linked. -/
def walk (epoch limit : Nat) :
    Nat → Header → ExtTreeMap Nat Address → Except SealError (ExtTreeMap Nat Address)
  | fuel, cur, recents =>
    if walksOn epoch limit cur recents then
      match fuel with
      | 0 => .error .endlessWalk
      | fuel + 1 =>
        match getHeaderByHash crypto chain cur.parentHash with
        | none => .error .errNilBlockHeader
        | some parent => walk epoch limit fuel parent (recents.insert (num cur) cur.coinbase)
    else .ok recents

end

section
variable (e : SealEngine)

def buildContext (db : TrieDB) (chain : Chain) (number : Nat) (hash : Hash) (header : Header) :
    Except SealError EpochContext :=
  match newDposContextFromProto e.rootOf db header.dposContext with
  | none => .error .missingTrie
  | some dc =>
    match newEpochContext number hash dc with
    | .error err => .error err
    | .ok c =>
      match getHeaderByHash e.crypto chain hash with
      | none => .error .errNilBlockHeader
      | some cur =>
        match walk e.crypto chain e.epoch c.limit (num cur) cur c.recents with
        | .error err => .error err
        | .ok recents => .ok { c with recents := recents }

def epochContext (db : TrieDB) (node : Node) (number : Nat) (hash : Hash) (header : Header) :
    Node × Except SealError EpochContext :=
  match node.recents[hash]? with
  | some c => (node, .ok c)
  | none =>
    match buildContext e db node.chain number hash header with
    | .error err => (node, .error err)
    | .ok c => ({ node with recents := node.recents.insert c.hash c }, .ok c)

def EpochContext.sortedSigners (c : EpochContext) : List Address :=
  c.signers.keys.insertionSort fun a b => (compare a.data b.data).isLE = true

def EpochContext.signerIndex (c : EpochContext) (signer : Address) : Nat :=
  c.sortedSigners.idxOf signer

def diffMax : Nat := 5

/-- The parent is passed in and not looked at. -/
def calcDifficulty (c : EpochContext) (signer : Address) (_parent : Header) : Nat :=
  let signerCount := c.signers.size
  if signerCount = 0 then 0
  else
    let soffset := c.signerIndex signer
    let noffset := (c.number + 1) % 2 ^ 64 % signerCount
    let index := if soffset < noffset then noffset - soffset else signerCount - (soffset - noffset)
    index * diffMax / signerCount + 1000

def sealParent (chain : Chain) (h : Header) (parents : List Header) : Except SealError Header :=
  match parentOf e.crypto chain h parents with
  | none => .error (.header .errUnknownAncestor)
  | some parent =>
    if num parent ≠ num h - 1 ∨ parent.hash e.crypto ≠ h.parentHash then
      .error (.header .errUnknownAncestor)
    else .ok parent

/-- The checks of `verifySeal` against the context of the parent. -/
def checkSeal (c : EpochContext) (h parent : Header) : Except SealError Unit :=
  match ecrecover e.toEngine h with
  | .error err => .error (.header err)
  | .ok signer =>
    if signer ∉ c.signers then .error (.header .errUnauthorized)
    else if refuses c.recents c.limit (num h) signer = true then
      .error (.header .errUnauthorized)
    else if calcDifficulty c signer parent ≠ h.difficulty then
      .error (.header .errInvalidDifficulty)
    else if h.difficulty = 0 then .error (.header .errInvalidDifficulty)
    else .ok ()

def verifySeal (db : TrieDB) (node : Node) (h : Header) (parents : List Header) :
    Node × Except SealError Unit :=
  if num h = 0 then (node, .error (.header .errUnknownBlock))
  else
    match sealParent e node.chain h parents with
    | .error err => (node, .error err)
    | .ok parent =>
      match epochContext e db node (num h - 1) h.parentHash parent with
      | (node, .error err) => (node, .error err)
      | (node, .ok c) => (node, checkSeal e c h parent)

/-! ## Seal -/

/-- What `Seal` does with a block: it waits and gives up, or signs. -/
inductive Outcome where
  | waits
  | seals (h : Header)

def setSignature (h : Header) (sig : Bytes) : Header :=
  { h with
    signature :=
      { data := (sig.take 65) ++ h.signature.data.drop sig.length
        length_data := by
          have size := h.signature.length_data
          simp only [List.length_append, List.length_take, List.length_drop]
          omega } }

/-- `Seal` of a block with `txs` transactions; the delays, which a stop event may
end early, are left out. -/
def sealBlock (db : TrieDB) (node : Node) (signer : Address) (signFn : Hash → Option Bytes)
    (h : Header) (txs : Nat) : Node × Except SealError Outcome :=
  if num h = 0 then (node, .error (.header .errUnknownBlock))
  else if e.period = 0 ∧ txs = 0 then (node, .error .errWaitTransactions)
  else
    match getHeader e.crypto node.chain h.parentHash (num h - 1) with
    | none => (node, .error (.header .errUnknownAncestor))
    | some parent =>
      match epochContext e db node (num h - 1) h.parentHash parent with
      | (node, .error err) => (node, .error err)
      | (node, .ok c) =>
        if signer ∉ c.signers then (node, .error (.header .errUnauthorized))
        else if waits c.recents c.limit (num h) signer = true then (node, .ok .waits)
        else
          match signFn (sigHash e.toEngine h) with
          | none => (node, .error .signFn)
          | some sig => (node, .ok (.seals (setSignature h sig)))

end

end Linkeye.Dpos.Seals
