import Linkeye.Dbft.Election
import Linkeye.Dbft.Seals

/-!
# Headers and snapshots of the validator set

`backend/snapshot.go` and the header checks of `backend/engine.go`.  A node
keeps its headers, the committed tries and two caches of snapshots.  Votes and
tallies are left out: the code that would fill them is commented out.
-/

set_option autoImplicit false

namespace Linkeye.Dbft.Headers

open Common.Types Common.Signature Core.Blocks Core.Dpos Core.StateProcessor Election Seals
open Validator Rlp.Encode Trie.Contents

/-! ## Committed tries -/

inductive TrieKind where
  | epoch
  | delegate
  | candidate
  | vote
  | mintCnt
deriving DecidableEq

/-- The trie database by kind and root. -/
abbrev TrieDB := TrieKind → Std.ExtTreeMap Hash TrieMap

/-- `trie.Hash`, a parameter like the hash function it is made from. -/
abbrev RootOf := TrieKind → TrieMap → Hash

def trieOf (dc : DposContext) : TrieKind → TrieMap
  | .epoch => dc.epochTrie
  | .delegate => dc.delegateTrie
  | .candidate => dc.candidateTrie
  | .vote => dc.voteTrie
  | .mintCnt => dc.mintCntTrie

def rootIn (p : DposContextProto) : TrieKind → Hash
  | .epoch => p.epochHash
  | .delegate => p.delegateHash
  | .candidate => p.candidateHash
  | .vote => p.voteHash
  | .mintCnt => p.mintCntHash

def toProto (rootOf : RootOf) (dc : DposContext) : DposContextProto where
  epochHash := rootOf .epoch dc.epochTrie
  delegateHash := rootOf .delegate dc.delegateTrie
  candidateHash := rootOf .candidate dc.candidateTrie
  voteHash := rootOf .vote dc.voteTrie
  mintCntHash := rootOf .mintCnt dc.mintCntTrie

/-- `trie.New`: the zero root and the root of the empty trie need no database. -/
def openTrie (rootOf : RootOf) (db : TrieDB) (kind : TrieKind) (root : Hash) : Option TrieMap :=
  if root = FixedBytes.zero 32 ∨ root = rootOf kind TrieMap.empty then some TrieMap.empty
  else (db kind)[root]?

def newDposContextFromProto (rootOf : RootOf) (db : TrieDB) (p : DposContextProto) :
    Option DposContext := do
  let epochTrie ← openTrie rootOf db .epoch p.epochHash
  let delegateTrie ← openTrie rootOf db .delegate p.delegateHash
  let voteTrie ← openTrie rootOf db .vote p.voteHash
  let candidateTrie ← openTrie rootOf db .candidate p.candidateHash
  let mintCntTrie ← openTrie rootOf db .mintCnt p.mintCntHash
  return ⟨epochTrie, delegateTrie, voteTrie, candidateTrie, mintCntTrie⟩

def commitTo (rootOf : RootOf) (db : TrieDB) (dc : DposContext) : TrieDB :=
  fun kind => (db kind).insert (rootOf kind (trieOf dc kind)) (trieOf dc kind)

/-! ## Snapshots -/

structure Snapshot where
  number : Nat
  hash : Hash
  valSet : ValidatorSet
deriving DecidableEq

structure SnapshotJSON where
  number : Nat
  hash : Hash
  validators : List Address
  policy : ProposerPolicy

/-- `validators`: the addresses in ascending byte order. -/
def Snapshot.validators (s : Snapshot) : List Address :=
  s.valSet.validators.insertionSort fun a b => (compare a.data b.data).isLE = true

def Snapshot.toJSONStruct (s : Snapshot) : SnapshotJSON :=
  ⟨s.number, s.hash, s.validators, s.valSet.policy⟩

def SnapshotJSON.unmarshal (keccak : Bytes → Hash) (j : SnapshotJSON) : Snapshot :=
  ⟨j.number, j.hash, newSet keccak j.validators j.policy⟩

/-- `none` where the validators of the context cannot be read. -/
def newSnapshot (keccak : Bytes → Hash) (number : Nat) (hash : Hash) (valSet : ValidatorSet)
    (dc : DposContext) : Option Snapshot :=
  let valSet := valSet.copy keccak
  let emptied := valSet.validators.foldl (fun vs addr => (vs.removeValidator addr).1) valSet
  dc.getValidators.map fun validators =>
    { number := number
      hash := hash
      valSet := validators.foldl (fun vs signer => (vs.addValidator keccak signer).1) emptied }

/-! ## The node -/

def num (h : Header) : Nat := h.number % 2 ^ 64

/-- The errors of the engine; those it passes on bear the name of the function
they come from, or of their kind. -/
inductive EngineError where
  | errFutureBlock
  | errInvalidExtraDataFormat
  | errInvalidMixDigest
  | errInvalidUncleHash
  | errInvalidDifficulty
  | errUnknownAncestor
  | errInvalidTimestamp
  | errUnknownBlock
  | errUnauthorized
  | errInvalidVotingChain
  | extractBFTExtra
  | getSignatureAddress
  | missingTrie
  | committedSeals (err : SealsError)
  | nilSnapshot
deriving DecidableEq

structure Engine where
  crypto : Crypto
  rootOf : RootOf
  epoch : Nat
  epoch_pos : 0 < epoch
  blockPeriod : Nat
  proposerPolicy : ProposerPolicy
  now : Nat

/-- `blocks` holds the headers after genesis, the newest first. -/
structure Node where
  genesis : Header
  blocks : List Header
  db : TrieDB
  recents : Std.ExtTreeMap Hash Snapshot
  disk : Std.ExtTreeMap Hash SnapshotJSON

def Node.headers (node : Node) : List Header := node.blocks ++ [node.genesis]

def Node.head (node : Node) : Header := node.blocks.headD node.genesis

section
variable (e : Engine)

def getHeader (node : Node) (hash : Hash) (number : Nat) : Option Header :=
  node.headers.find? fun h => decide (h.hash e.crypto = hash ∧ num h = number)

/-- `ecrecover` without its cache of answers by the hash of the header. -/
def ecrecover (h : Header) : Except EngineError Address :=
  match extractBFTExtra h with
  | none => .error .extractBFTExtra
  | some extra =>
    let sigHash := e.crypto.keccak256
      (((bftFilteredHeader h false).map fun f => encode f.encodeRLP).getD [0xC0])
    match getSignatureAddress e.crypto sigHash.data extra.proposerSeal with
    | none => .error .getSignatureAddress
    | some addr => .ok addr

/-- The loop of `apply` over the headers. -/
def checkSigners (valSet : ValidatorSet) : List Header → Except EngineError Unit
  | [] => .ok ()
  | h :: rest =>
    match ecrecover e h with
    | .error err => .error err
    | .ok validator =>
      if (valSet.getByAddress validator).isSome = true then checkSigners valSet rest
      else .error .errUnauthorized

/-- The numbers go up by one from `number`, as unsigned 64-bit integers. -/
def consecutive : Nat → List Header → Bool
  | _, [] => true
  | number, h :: rest => decide (num h = (number + 1) % 2 ^ 64) && consecutive (num h) rest

def apply (s : Snapshot) (headers : List Header) : Except EngineError Snapshot :=
  match headers.getLast? with
  | none => .ok s
  | some last =>
    if consecutive s.number headers = true then
      let valSet := s.valSet.copy e.crypto.keccak256
      match checkSigners e valSet headers with
      | .error err => .error err
      | .ok _ => .ok ⟨(s.number + headers.length) % 2 ^ 64, last.hash e.crypto, valSet⟩
    else .error .errInvalidVotingChain

def verifyStandalone (h : Header) : Except EngineError Unit :=
  if e.now < h.time then .error .errFutureBlock
  else if extractBFTExtra h = none then .error .errInvalidExtraDataFormat
  else if h.mixDigest ≠ bftDigest then .error .errInvalidMixDigest
  else if h.uncleHash ≠ rlpHash e.crypto (.list []) then .error .errInvalidUncleHash
  else if h.difficulty ≠ 1 then .error .errInvalidDifficulty
  else .ok ()

/-- `loadSnapshot`; the checkpoint interval is 1. -/
def loadSnapshot (node : Node) (hash : Hash) : Option Snapshot :=
  (node.disk[hash]?).map (SnapshotJSON.unmarshal e.crypto.keccak256)

def storeSnapshot (node : Node) (s : Snapshot) : Node :=
  { node with disk := node.disk.insert s.hash s.toJSONStruct }

def addRecent (node : Node) (s : Snapshot) : Node :=
  { node with recents := node.recents.insert s.hash s }

/-- The validators of the extra field are put into the set and taken out again
before those of the context are added. -/
def snapshotOfHeader (node : Node) (h : Header) (number : Nat) :
    Except EngineError (Option Snapshot) :=
  match newDposContextFromProto e.rootOf node.db h.dposContext with
  | none => .error .missingTrie
  | some dc =>
    match extractBFTExtra h with
    | none => .error .extractBFTExtra
    | some extra =>
      .ok (newSnapshot e.crypto.keccak256 number (h.hash e.crypto)
        (newSet e.crypto.keccak256 extra.validators e.proposerPolicy) dc)

/-- The branch of the loop at block zero.  A genesis context without validators
makes `store` dereference a nil snapshot. -/
def genesisSnapshot (node : Node) : Node × Except EngineError Snapshot :=
  match verifyStandalone e node.genesis with
  | .error err => (node, .error err)
  | .ok _ =>
    match snapshotOfHeader e node node.genesis 0 with
    | .error err => (node, .error err)
    | .ok none => (node, .error .nilSnapshot)
    | .ok (some snap) => (storeSnapshot node snap, .ok snap)

/-- The header of the loop: the last of the explicit parents, or one of the
chain.  `parents` has the newest first. -/
def pickHeader (node : Node) (hash : Hash) (number : Nat) :
    List Header → Except EngineError (Header × List Header)
  | parent :: parents =>
    if parent.hash e.crypto = hash ∧ num parent = number then .ok (parent, parents)
    else .error .errUnknownAncestor
  | [] =>
    match getHeader e node hash number with
    | none => .error .errUnknownAncestor
    | some h => .ok (h, [])

/-- The loop of `snapshot`; `headers` are those gathered, the oldest first.  The
set is built from the context of the very header that is applied next; the loop
goes on only where that context has no validators. -/
def gather (node : Node) (number : Nat) (hash : Hash) (parents headers : List Header) :
    Node × Except EngineError (Snapshot × List Header) :=
  match node.recents[hash]? with
  | some snap => (node, .ok (snap, headers))
  | none =>
    match loadSnapshot e node hash with
    | some snap => (node, .ok (snap, headers))
    | none =>
      match number with
      | 0 =>
        match genesisSnapshot e node with
        | (node, .error err) => (node, .error err)
        | (node, .ok snap) => (node, .ok (snap, headers))
      | below + 1 =>
        match pickHeader e node hash (below + 1) parents with
        | .error err => (node, .error err)
        | .ok (h, parents) =>
          match snapshotOfHeader e node h below with
          | .error err => (node, .error err)
          | .ok (some snap) => (node, .ok (snap, h :: headers))
          | .ok none => gather node below h.parentHash parents (h :: headers)

def snapshot (node : Node) (number : Nat) (hash : Hash) (parents : List Header) :
    Node × Except EngineError Snapshot :=
  match gather e node number hash parents [] with
  | (node, .error err) => (node, .error err)
  | (node, .ok (snap, headers)) =>
    match apply e snap headers with
    | .error err => (node, .error err)
    | .ok snap =>
      let node := addRecent node snap
      (if headers.isEmpty = true then node else storeSnapshot node snap, .ok snap)

/-! ## Verifying a header -/

def verifySigner (node : Node) (h : Header) (parents : List Header) :
    Node × Except EngineError Unit :=
  if num h = 0 then (node, .error .errUnknownBlock)
  else
    match snapshot e node (num h - 1) h.parentHash parents with
    | (node, .error err) => (node, .error err)
    | (node, .ok snap) =>
      match ecrecover e h with
      | .error err => (node, .error err)
      | .ok signer =>
        if (snap.valSet.getByAddress signer).isSome = true then (node, .ok ())
        else (node, .error .errUnauthorized)

def verifySealsOfParent (node : Node) (h : Header) (parents : List Header) :
    Node × Except EngineError Unit :=
  if num h = 0 then (node, .ok ())
  else
    match snapshot e node (num h - 1) h.parentHash parents with
    | (node, .error err) => (node, .error err)
    | (node, .ok snap) =>
      match verifyCommittedSeals e.crypto snap.valSet h with
      | none => (node, .ok ())
      | some err => (node, .error (.committedSeals err))

def parentOf (node : Node) (h : Header) (parents : List Header) : Option Header :=
  match parents with
  | parent :: _ => some parent
  | [] => getHeader e node h.parentHash (num h - 1)

def verifyCascadingFields (node : Node) (h : Header) (parents : List Header) :
    Node × Except EngineError Unit :=
  if num h = 0 then (node, .ok ())
  else
    match parentOf e node h parents with
    | none => (node, .error .errUnknownAncestor)
    | some parent =>
      if num parent ≠ num h - 1 ∨ parent.hash e.crypto ≠ h.parentHash then
        (node, .error .errUnknownAncestor)
      else if h.time % 2 ^ 64 < (parent.time % 2 ^ 64 + e.blockPeriod) % 2 ^ 64 then
        (node, .error .errInvalidTimestamp)
      else
        match snapshot e node (num h - 1) h.parentHash parents with
        | (node, .error err) => (node, .error err)
        | (node, .ok _) =>
          match verifySigner e node h parents with
          | (node, .error err) => (node, .error err)
          | (node, .ok _) => verifySealsOfParent e node h parents

def verifyHeader (node : Node) (h : Header) (parents : List Header) :
    Node × Except EngineError Unit :=
  match verifyStandalone e h with
  | .error err => (node, .error err)
  | .ok _ => verifyCascadingFields e node h parents

/-! ## Finalizing a block -/

def maxValidatorSize : Nat := 11

/-- `DPOS.Finalize` up to the roots it writes into the header: the context with
the election of an epoch's last block. -/
def finalize (node : Node) (h : Header) (dc : DposContext) (statedb : StateDB)
    (commitOrder rankOrder : MapOrder) : Option DposContext :=
  match getHeader e node h.parentHash (num h - 1), dc.getValidators with
  | some _, some _ =>
    if num h % e.epoch = 0 then
      match tryElect e.crypto.keccak256 maxValidatorSize commitOrder rankOrder dc statedb with
      | (dc, none) => some dc
      | (_, some _) => none
    else some dc
  | _, _ => none

end

/-! ## What a snapshot holds -/

/-- The set has exactly the listed members, each once. -/
def Lists (valSet : ValidatorSet) (validators : List Address) : Prop :=
  (∀ a, a ∈ valSet.validators ↔ a ∈ validators) ∧ valSet.validators.Nodup

theorem removeValidator_all (addrs : List Address) (vs : ValidatorSet)
    (own : vs.validators = addrs) :
    (addrs.foldl (fun vs addr => (vs.removeValidator addr).1) vs).validators = [] := by
  induction addrs generalizing vs with
  | nil => exact own
  | cons first rest ih =>
    rw [List.foldl_cons]
    apply ih
    have member : first ∈ vs.validators := by
      rw [own]
      exact List.mem_cons_self
    rw [ValidatorSet.removeValidator, if_pos member]
    simp only [own, List.erase_cons_head]

theorem addValidator_lists (keccak : Bytes → Hash) (vs : ValidatorSet) (addr : Address) :
    (∀ a, a ∈ (vs.addValidator keccak addr).1.validators ↔ a ∈ vs.validators ∨ a = addr) ∧
      (vs.validators.Nodup → (vs.addValidator keccak addr).1.validators.Nodup) := by
  rw [ValidatorSet.addValidator]
  by_cases known : addr ∈ vs.validators
  · rw [if_pos known]
    refine ⟨fun a => ⟨.inl, ?_⟩, id⟩
    rintro (member | rfl)
    · exact member
    · exact known
  · rw [if_neg known]
    refine ⟨fun a => by simp [mem_sortValidators], ?_⟩
    intro distinct
    have perm := sortValidators_perm keccak (vs.validators ++ [addr])
    apply perm.nodup_iff.mpr
    rw [List.nodup_append]
    refine ⟨distinct, List.nodup_singleton _, ?_⟩
    intro a member b single same
    rw [List.mem_singleton] at single
    subst single same
    exact known member

theorem addValidators_lists (keccak : Bytes → Hash) (validators : List Address)
    (vs : ValidatorSet) (distinct : vs.validators.Nodup) :
    let after := validators.foldl (fun vs signer => (vs.addValidator keccak signer).1) vs
    (∀ a, a ∈ after.validators ↔ a ∈ vs.validators ∨ a ∈ validators) ∧ after.validators.Nodup := by
  induction validators generalizing vs with
  | nil => simpa using distinct
  | cons first rest ih =>
    obtain ⟨members, nodup⟩ := addValidator_lists keccak vs first
    obtain ⟨later, laterNodup⟩ := ih (vs.addValidator keccak first).1 (nodup distinct)
    refine ⟨fun a => ?_, laterNodup⟩
    rw [List.foldl_cons, later, members, List.mem_cons, or_assoc]

variable {validators : List Address}

theorem newSnapshot_eq_some (keccak : Bytes → Hash) (number : Nat) (hash : Hash)
    (valSet : ValidatorSet) {dc : DposContext}
    (read : dc.getValidators = some validators) :
    ∃ snap, newSnapshot keccak number hash valSet dc = some snap ∧ snap.number = number ∧
      snap.hash = hash ∧ Lists snap.valSet validators := by
  refine ⟨_, by rw [newSnapshot, read, Option.map_some], rfl, rfl, ?_⟩
  have emptied := removeValidator_all _ (valSet.copy keccak) rfl
  generalize (valSet.copy keccak).validators.foldl
    (fun vs addr => (vs.removeValidator addr).1) (valSet.copy keccak) = vs at emptied
  have added := addValidators_lists keccak validators vs (by rw [emptied]; exact List.nodup_nil)
  refine ⟨fun a => ?_, added.2⟩
  rw [added.1, emptied]
  simp

theorem Lists.of_perm {vs other : ValidatorSet}
    (listed : Lists vs validators) (perm : other.validators.Perm vs.validators) :
    Lists other validators := by
  refine ⟨fun a => ?_, perm.nodup_iff.mpr listed.2⟩
  rw [perm.mem_iff]
  exact listed.1 a

theorem Lists.copy {vs : ValidatorSet} (listed : Lists vs validators)
    (keccak : Bytes → Hash) : Lists (vs.copy keccak) validators :=
  listed.of_perm (sortValidators_perm keccak vs.validators)

theorem Lists.unmarshal {s : Snapshot}
    (listed : Lists s.valSet validators) (keccak : Bytes → Hash) :
    Lists (s.toJSONStruct.unmarshal keccak).valSet validators := by
  apply listed.of_perm
  have bytes : s.validators.Perm s.valSet.validators := List.perm_insertionSort _ _
  exact (sortValidators_perm keccak s.validators).trans bytes

end Linkeye.Dbft.Headers
