import Linkeye.Consensus.Fields

/-!
# Authorization snapshots of the poa engine

`consensus/poa/snapshot.go`: the signers in force at a block, the blocks they
signed lately and the votes that are open, and how headers move them on.  A
snapshot on disk is the JSON form of one in memory and is kept as such.
-/

set_option autoImplicit false

namespace Linkeye.Poa.Snapshots

open Common.Types Common.Signature Consensus.Fields Core.Blocks
open Dbft.Headers (num consecutive)
open Rlp.Encode

structure Engine where
  crypto : Crypto
  epoch : Nat
  epoch_pos : 0 < epoch
  period : Nat
  forks : ForkConfig
  now : Nat

/-- The last 65 bytes of the extra field, the seal, are left out. -/
def sigHash (e : Engine) (h : Header) : Hash :=
  rlpHash e.crypto (.list [writeByteArray h.parentHash, writeByteArray h.uncleHash,
    writeByteArray h.coinbase, writeByteArray h.root, writeByteArray h.txHash,
    writeByteArray h.receiptHash, writeByteArray h.bloom, writeUint h.difficulty,
    writeUint h.number, writeUint h.gasLimit.toNat, writeUint h.gasUsed.toNat, writeUint h.time,
    .bytes (h.extra.take (h.extra.length - extraSeal)), writeByteArray h.mixDigest,
    writeByteArray h.nonce])

/-- `ecrecover` without its cache of answers by the hash of the header. -/
def ecrecover (e : Engine) (h : Header) : Except HeaderError Address :=
  if h.extra.length < extraSeal then .error .errMissingSignature
  else recoverSigner e.crypto (sigHash e h) (h.extra.drop (h.extra.length - extraSeal))

structure Vote where
  signer : Address
  block : Nat
  address : Address
  authorize : Bool

structure Tally where
  authorize : Bool
  votes : Nat

structure Snapshot where
  number : Nat
  hash : Hash
  signers : Std.ExtTreeMap Address Unit
  recents : Std.ExtTreeMap Nat Address
  votes : List Vote
  tally : Std.ExtTreeMap Address Tally

def newSnapshot (number : Nat) (hash : Hash) (signers : List Address) : Snapshot where
  number := number
  hash := hash
  signers := signers.foldl (fun known signer => known.insert signer ()) ∅
  recents := ∅
  votes := []
  tally := ∅

namespace Snapshot

def validVote (s : Snapshot) (address : Address) (authorize : Bool) : Bool :=
  (s.signers.contains address && !authorize) || (!s.signers.contains address && authorize)

def cast (s : Snapshot) (address : Address) (authorize : Bool) : Snapshot × Bool :=
  if s.validVote address authorize = true then
    match s.tally[address]? with
    | some old =>
      ({ s with tally := s.tally.insert address { old with votes := old.votes + 1 } }, true)
    | none => ({ s with tally := s.tally.insert address ⟨authorize, 1⟩ }, true)
  else (s, false)

def uncast (s : Snapshot) (address : Address) (authorize : Bool) : Snapshot × Bool :=
  match s.tally[address]? with
  | none => (s, false)
  | some tally =>
    if tally.authorize ≠ authorize then (s, false)
    else if 1 < tally.votes then
      ({ s with tally := s.tally.insert address { tally with votes := tally.votes - 1 } }, true)
    else ({ s with tally := s.tally.erase address }, true)

def limit (s : Snapshot) : Nat := s.signers.size / 2 + 1

/-- The oldest of the recent signers may sign again. -/
def shiftRecents (s : Snapshot) (number : Nat) : Snapshot :=
  if s.limit ≤ number then { s with recents := s.recents.erase (number - s.limit) } else s

/-- The earlier vote of the signer on the same address is taken back. -/
def discardVote (s : Snapshot) (signer address : Address) : Snapshot :=
  let earlier := fun vote : Vote => decide (vote.signer = signer ∧ vote.address = address)
  match s.votes.find? earlier with
  | none => s
  | some vote => { (s.uncast vote.address vote.authorize).1 with votes := s.votes.eraseP earlier }

def recordVote (s : Snapshot) (vote : Vote) : Snapshot :=
  match s.cast vote.address vote.authorize with
  | (s, true) => { s with votes := s.votes ++ [vote] }
  | (s, false) => s

/-- The votes of a signer that was voted out are taken back one by one. -/
def discardVotesOf (s : Snapshot) (signer : Address) : Snapshot :=
  let uncasted := (s.votes.filter fun vote => decide (vote.signer = signer)).foldl
    (fun s vote => (s.uncast vote.address vote.authorize).1) s
  { uncasted with votes := s.votes.filter fun vote => decide (vote.signer ≠ signer) }

/-- A vote that has passed changes the signers and closes the ballot. -/
def settle (s : Snapshot) (number : Nat) (address : Address) : Snapshot :=
  let tally := s.tally.getD address ⟨false, 0⟩
  if s.signers.size / 2 < tally.votes then
    let s :=
      if tally.authorize = true then { s with signers := s.signers.insert address () }
      else
        let s : Snapshot := { s with signers := s.signers.erase address }
        (s.shiftRecents number).discardVotesOf address
    { s with
      votes := s.votes.filter fun vote => decide (vote.address ≠ address)
      tally := s.tally.erase address }
  else s

def voteOf (nonce : FixedBytes 8) : Option Bool :=
  if nonce = nonceAuthVote then some true
  else if nonce = nonceDropVote then some false
  else none

def applyHeader (e : Engine) (s : Snapshot) (h : Header) : Except HeaderError Snapshot :=
  let number := num h
  let s : Snapshot := if number % e.epoch = 0 then { s with votes := [], tally := ∅ } else s
  let s := s.shiftRecents number
  match ecrecover e h with
  | .error err => .error err
  | .ok signer =>
    if signer ∉ s.signers then .error .errUnauthorized
    else if signer ∈ s.recents.values then .error .errUnauthorized
    else
      let s : Snapshot := { s with recents := s.recents.insert number signer }
      let s := s.discardVote signer h.coinbase
      match voteOf h.nonce with
      | none => .error .errInvalidVote
      | some authorize =>
        .ok ((s.recordVote ⟨signer, number, h.coinbase, authorize⟩).settle number h.coinbase)

def apply (e : Engine) (s : Snapshot) (headers : List Header) : Except HeaderError Snapshot :=
  match headers.getLast? with
  | none => .ok s
  | some last =>
    if consecutive s.number headers = true then
      match headers.foldlM (applyHeader e) s with
      | .error err => .error err
      | .ok s =>
        .ok { s with
          number := (s.number + headers.length) % 2 ^ 64
          hash := last.hash e.crypto }
    else .error .errInvalidVotingChain

/-- The method `signers`: the addresses in ascending byte order. -/
def sortedSigners (s : Snapshot) : List Address :=
  s.signers.keys.insertionSort fun a b => (compare a.data b.data).isLE = true

/-- The number of signers where the address is none of them. -/
def signerIndex (s : Snapshot) (signer : Address) : Nat := s.sortedSigners.idxOf signer

/-- The remainder is a division by zero where there are no signers. -/
def inturn (s : Snapshot) (number : Nat) (signer : Address) : Option Bool :=
  if s.sortedSigners.length = 0 then none
  else some (decide (number % s.sortedSigners.length = s.signerIndex signer))

end Snapshot

end Linkeye.Poa.Snapshots
