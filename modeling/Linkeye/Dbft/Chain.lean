import Linkeye.Core.Genesis
import Linkeye.Dbft.Headers

/-!
# Snapshots along a chain

Chains that grow by headers which `verifyHeader` accepts and whose roots are
those of `Finalize`.  The snapshot of a header is built from the validators
that its own context stores, those elected in it included.  The invariant of
such chains says what the caches hold and what a lookup can give back.
-/

set_option autoImplicit false

namespace Linkeye.Dbft.Chain

open Common.Types Core.Blocks Core.Dpos Core.Genesis Core.StateProcessor Election
open Headers Seals Validator Lib.Runs Rlp.Encode Trie.Contents

/-- A block with what its header does not say: its staking messages, each with
the balances it meets, and the state and map orders of `Finalize`. -/
structure NewBlock where
  header : Header
  messages : List (Message × StateDB)
  statedb : StateDB
  commitOrder : MapOrder
  rankOrder : MapOrder

inductive ChainStep where
  | extend (b : NewBlock)
  | lookup (number : Nat) (hash : Hash)
  | evict (hash : Hash)

section
variable (e : Engine)

def runMessages (number : Nat) (messages : List (Message × StateDB)) (dc : DposContext) :
    DposContext :=
  messages.foldl (fun dc entry => (applyDposMessage e.crypto dc entry.1 entry.2 number).1) dc

def finalContext (node : Node) (b : NewBlock) : Option DposContext :=
  (newDposContextFromProto e.rootOf node.db node.head.dposContext).bind fun dc =>
    finalize e node b.header (runMessages e b.header.number b.messages dc) b.statedb
      b.commitOrder b.rankOrder

def nextNode (node : Node) : ChainStep → Node
  | .extend b =>
    let checked := (verifyHeader e node b.header []).1
    { checked with
      blocks := b.header :: checked.blocks
      db :=
        match finalContext e node b with
        | some dc => commitTo e.rootOf checked.db dc
        | none => checked.db }
  | .lookup number hash => (snapshot e node number hash []).1
  | .evict hash => { node with recents := node.recents.erase hash }

/-- The header follows the head, its roots are those of `Finalize` and
`verifyHeader` accepts it. -/
structure Accepted (node : Node) (b : NewBlock) : Prop where
  number : num b.header = num node.head + 1
  parentHash : b.header.parentHash = node.head.hash e.crypto
  finalized : ∃ dc, finalContext e node b = some dc ∧ b.header.dposContext = toProto e.rootOf dc
  verified : (verifyHeader e node b.header []).2 = .ok ()

/-- No other trie of the database has the root of this one. -/
structure OwnRoot (db : TrieDB) (kind : TrieKind) (t : TrieMap) : Prop where
  nonzero : e.rootOf kind t ≠ FixedBytes.zero 32
  empty : e.rootOf kind t = e.rootOf kind TrieMap.empty → t = TrieMap.empty
  known : ∀ other, (db kind)[e.rootOf kind t]? = some other → other = t

/-- Hashes do not collide: a new block has a hash of its own and so have its
tries. -/
def NoCollision (node : Node) : ChainStep → Prop
  | .extend b =>
    (∀ h ∈ node.headers, h.hash e.crypto ≠ b.header.hash e.crypto) ∧
      ∀ dc, finalContext e node b = some dc → ∀ kind, OwnRoot e node.db kind (trieOf dc kind)
  | _ => True

/-- A fresh node: the genesis header passes the standalone checks and its
context, written for a list of DBFT validators, is in the database. -/
structure Fresh (node : Node) : Prop where
  number : num node.genesis = 0
  verified : verifyStandalone e node.genesis = .ok ()
  blocks : node.blocks = []
  recents : node.recents = ∅
  disk : node.disk = ∅
  context : ∃ config validators, config.dbft = some validators ∧
    (encode (.list (validators.map writeByteArray))).length < maxInt ∧
    node.genesis.dposContext = toProto e.rootOf (initGenesisDposContext config) ∧
    node.db = commitTo e.rootOf (fun _ => ∅) (initGenesisDposContext config) ∧
    ∀ kind, OwnRoot e (fun _ => ∅) kind (trieOf (initGenesisDposContext config) kind)

def chainSystem : System Node ChainStep where
  init := Fresh e
  enabled := fun node step =>
    match step with
    | .extend b => Accepted e node b
    | _ => True
  next := nextNode e

/-! ## The invariant -/

def storedValidators (node : Node) (h : Header) : Option (List Address) :=
  (newDposContextFromProto e.rootOf node.db h.dposContext).bind DposContext.getValidators

/-- The signer of a header is among the validators of its own context. -/
def SignerStays (node : Node) (h : Header) : Prop :=
  ∃ signer validators, ecrecover e h = .ok signer ∧
    storedValidators e node h = some validators ∧ signer ∈ validators

structure Describes (node : Node) (h : Header) (snap : Snapshot) : Prop where
  hash : snap.hash = h.hash e.crypto
  members : ∃ validators, storedValidators e node h = some validators ∧
    Lists snap.valSet validators
  signed : h = node.genesis ∨ SignerStays e node h

structure ChainInv (node : Node) : Prop where
  genesisNumber : num node.genesis = 0
  genesisVerified : verifyStandalone e node.genesis = .ok ()
  blockNumber : ∀ h ∈ node.blocks, num h ≠ 0
  distinct : (node.headers.map (Header.hash e.crypto)).Nodup
  stored : ∀ h ∈ node.headers, ∃ validators, storedValidators e node h = some validators
  extra : ∀ h ∈ node.headers, extractBFTExtra h ≠ none
  recents : ∀ hash snap, node.recents[hash]? = some snap →
    ∃ h ∈ node.headers, h.hash e.crypto = hash ∧ Describes e node h snap
  disk : ∀ hash snap, loadSnapshot e node hash = some snap →
    ∃ h ∈ node.headers, h.hash e.crypto = hash ∧ Describes e node h snap
  signed : node.blocks ≠ [] → num node.head % e.epoch ≠ 0 → SignerStays e node node.head

end

variable {h : Header} {snap : Snapshot} {hash : Hash}

section Lookups
variable {e : Engine} {node after : Node}

/-- Same headers and same tries; the caches may differ. -/
structure SameChain (node after : Node) : Prop where
  genesis : after.genesis = node.genesis
  blocks : after.blocks = node.blocks
  db : after.db = node.db

theorem SameChain.refl (node : Node) : SameChain node node := ⟨rfl, rfl, rfl⟩

theorem SameChain.trans {middle : Node} (first : SameChain node middle)
    (second : SameChain middle after) : SameChain node after where
  genesis := second.genesis.trans first.genesis
  blocks := second.blocks.trans first.blocks
  db := second.db.trans first.db

section
variable (same : SameChain node after)
include same

theorem SameChain.headers : after.headers = node.headers := by
  rw [Node.headers, Node.headers, same.genesis, same.blocks]

theorem SameChain.head : after.head = node.head := by
  rw [Node.head, Node.head, same.genesis, same.blocks]

theorem SameChain.storedValidators (h : Header) :
    storedValidators e after h = Chain.storedValidators e node h := by
  rw [Chain.storedValidators, Chain.storedValidators, same.db]

theorem SameChain.signerStays :
    SignerStays e after h ↔ SignerStays e node h := by
  simp only [SignerStays, same.storedValidators]

theorem SameChain.describes (described : Describes e node h snap) :
    Describes e after h snap := by
  refine ⟨described.hash, ?_, ?_⟩
  · rw [same.storedValidators]
    exact described.members
  · rw [same.genesis, same.signerStays]
    exact described.signed

end

theorem ChainInv.unique (inv : ChainInv e node) {other : Header} (member : h ∈ node.headers)
    (listed : other ∈ node.headers) (same : h.hash e.crypto = other.hash e.crypto) : h = other :=
  List.inj_on_of_nodup_map inv.distinct member listed same

theorem genesis_mem_headers (node : Node) : node.genesis ∈ node.headers := by
  simp [Node.headers]

theorem head_mem_headers (node : Node) : node.head ∈ node.headers := by
  rw [Node.head, Node.headers]
  cases node.blocks with
  | nil => simp
  | cons h rest => simp

theorem ChainInv.eq_genesis (inv : ChainInv e node) (member : h ∈ node.headers) (zero : num h = 0) :
    h = node.genesis := by
  rw [Node.headers, List.mem_append, List.mem_singleton] at member
  rcases member with block | genesis
  · exact absurd zero (inv.blockNumber h block)
  · exact genesis

theorem getHeader_eq_some {number : Nat} (found : getHeader e node hash number = some h) :
    h ∈ node.headers ∧ h.hash e.crypto = hash ∧ num h = number := by
  have member := List.mem_of_find?_eq_some found
  have test := List.find?_some found
  exact ⟨member, of_decide_eq_true test⟩

theorem ChainInv.getHeader_eq (inv : ChainInv e node) (member : h ∈ node.headers) :
    getHeader e node (h.hash e.crypto) (num h) = some h := by
  cases found : getHeader e node (h.hash e.crypto) (num h) with
  | none =>
    have missing := List.find?_eq_none.mp found h member
    simp at missing
  | some other =>
    obtain ⟨listed, same, _⟩ := getHeader_eq_some found
    rw [inv.unique listed member same]

theorem ChainInv.snapshotOfHeader (inv : ChainInv e node) (member : h ∈ node.headers) (number : Nat) :
    ∃ snap validators, snapshotOfHeader e node h number = .ok (some snap) ∧
      snap.number = number ∧ snap.hash = h.hash e.crypto ∧
      Chain.storedValidators e node h = some validators ∧ Lists snap.valSet validators := by
  obtain ⟨validators, stored⟩ := inv.stored h member
  obtain ⟨dc, opened, read⟩ := Option.bind_eq_some_iff.mp stored
  obtain ⟨extra, extracted⟩ := Option.ne_none_iff_exists'.mp (inv.extra h member)
  obtain ⟨snap, made, numbered, hashed, listed⟩ :=
    newSnapshot_eq_some e.crypto.keccak256 number (h.hash e.crypto)
      (newSet e.crypto.keccak256 extra.validators e.proposerPolicy) read
  refine ⟨snap, validators, ?_, numbered, hashed, stored, listed⟩
  simp only [Headers.snapshotOfHeader, opened, extracted, made]

/-- `after` is `node` with `snap` in its caches. -/
structure Remembers (node after : Node) (snap : Snapshot) : Prop where
  same : SameChain node after
  recents : after.recents = node.recents.insert snap.hash snap
  disk : after.disk = node.disk ∨ after.disk = node.disk.insert snap.hash snap.toJSONStruct

theorem Describes.unmarshal (described : Describes e node h snap) :
    Describes e node h (snap.toJSONStruct.unmarshal e.crypto.keccak256) := by
  obtain ⟨validators, stored, listed⟩ := described.members
  exact ⟨described.hash, ⟨validators, stored, listed.unmarshal _⟩, described.signed⟩

/-- A change of the caches keeps the invariant when what they hold is right. -/
theorem ChainInv.of_caches (inv : ChainInv e node) (same : SameChain node after)
    (recents : ∀ hash snap, after.recents[hash]? = some snap →
      ∃ h ∈ node.headers, h.hash e.crypto = hash ∧ Describes e node h snap)
    (disk : ∀ hash snap, loadSnapshot e after hash = some snap →
      ∃ h ∈ node.headers, h.hash e.crypto = hash ∧ Describes e node h snap) :
    ChainInv e after := by
  have carry : ∀ (hash : Hash) (snap : Snapshot),
      (∃ h ∈ node.headers, h.hash e.crypto = hash ∧ Describes e node h snap) →
      ∃ h ∈ after.headers, h.hash e.crypto = hash ∧ Describes e after h snap := by
    rintro hash snap ⟨h, member, hashed, described⟩
    exact ⟨h, by rw [same.headers]; exact member, hashed, same.describes described⟩
  constructor
  · rw [same.genesis]
    exact inv.genesisNumber
  · rw [same.genesis]
    exact inv.genesisVerified
  · rw [same.blocks]
    exact inv.blockNumber
  · rw [same.headers]
    exact inv.distinct
  · intro h member
    rw [same.headers] at member
    rw [same.storedValidators]
    exact inv.stored h member
  · rw [same.headers]
    exact inv.extra
  · intro hash snap cached
    exact carry hash snap (recents hash snap cached)
  · intro hash snap cached
    exact carry hash snap (disk hash snap cached)
  · rw [same.blocks, same.head, same.signerStays]
    exact inv.signed

theorem ChainInv.remember (inv : ChainInv e node) (member : h ∈ node.headers)
    (described : Describes e node h snap) (remembers : Remembers node after snap) :
    ChainInv e after := by
  apply inv.of_caches remembers.same
  · intro hash other cached
    rw [remembers.recents, Lib.Maps.get_insert] at cached
    split at cached
    · rename_i key
      cases cached
      exact ⟨h, member, described.hash.symm.trans key, described⟩
    · exact inv.recents hash other cached
  · intro hash other cached
    rcases remembers.disk with kept | written
    · rw [loadSnapshot, kept] at cached
      exact inv.disk hash other cached
    · rw [loadSnapshot, written, Lib.Maps.get_insert] at cached
      split at cached
      · rename_i key
        cases cached
        exact ⟨h, member, described.hash.symm.trans key, described.unmarshal⟩
      · exact inv.disk hash other cached

/-- What a lookup can give back.  An error is the verdict on the header it was
asked for: that header is not genesis and its signer is no validator any more. -/
inductive Lookup (e : Engine) (node : Node) (number : Nat) (hash : Hash) :
    Node × Except EngineError Snapshot → Prop where
  | failed (err : EngineError)
      (verdict : ∀ h ∈ node.headers, h.hash e.crypto = hash → num h = number →
        h ≠ node.genesis ∧ ¬ SignerStays e node h) :
      Lookup e node number hash (node, .error err)
  | found {after : Node} {snap : Snapshot} (h : Header) (member : h ∈ node.headers)
      (asked : h.hash e.crypto = hash ∨ (number = 0 ∧ h = node.genesis))
      (described : Describes e node h snap) (remembers : Remembers node after snap) :
      Lookup e node number hash (after, .ok snap)

theorem lookup_cached {number : Nat}
    (gathered : gather e node number hash [] [] = (node, .ok (snap, [])))
    (sound : ∃ h ∈ node.headers, h.hash e.crypto = hash ∧ Describes e node h snap) :
    Lookup e node number hash (snapshot e node number hash []) := by
  obtain ⟨h, member, hashed, described⟩ := sound
  simp only [snapshot, gathered, apply, List.getLast?_nil, List.isEmpty_nil, if_true]
  exact .found h member (.inl hashed) described ⟨⟨rfl, rfl, rfl⟩, rfl, .inl rfl⟩

theorem ChainInv.lookup_genesis (inv : ChainInv e node) (unknown : node.recents[hash]? = none)
    (unsaved : loadSnapshot e node hash = none) :
    Lookup e node 0 hash (snapshot e node 0 hash []) := by
  obtain ⟨snap, validators, made, _, hashed, stored, listed⟩ :=
    inv.snapshotOfHeader (genesis_mem_headers node) 0
  have described : Describes e node node.genesis snap := ⟨hashed, ⟨validators, stored, listed⟩, .inl rfl⟩
  have gathered : gather e node 0 hash [] [] = (storeSnapshot node snap, .ok (snap, [])) := by
    rw [gather, unknown]
    simp only [unsaved, genesisSnapshot, inv.genesisVerified, made]
  simp only [snapshot, gathered, apply, List.getLast?_nil, List.isEmpty_nil, if_true]
  exact .found _ (genesis_mem_headers node) (.inr ⟨rfl, rfl⟩) described
    ⟨⟨rfl, rfl, rfl⟩, rfl, .inr rfl⟩

/-- The computation for a header that no cache knows: its signer has to be a
validator of its own context. -/
theorem ChainInv.lookup_header (inv : ChainInv e node) {below : Nat}
    (unknown : node.recents[hash]? = none) (unsaved : loadSnapshot e node hash = none)
    (found : getHeader e node hash (below + 1) = some h) :
    Lookup e node (below + 1) hash (snapshot e node (below + 1) hash []) := by
  obtain ⟨member, hashed, numbered⟩ := getHeader_eq_some found
  obtain ⟨snap, validators, made, snapNumber, _, stored, listed⟩ :=
    inv.snapshotOfHeader member below
  have gathered : gather e node (below + 1) hash [] [] = (node, .ok (snap, [h])) := by
    rw [gather, unknown]
    simp only [unsaved, pickHeader, found, made]
  have small : below + 1 < 2 ^ 64 := by
    rw [← numbered]
    exact Nat.mod_lt _ (by norm_num)
  have follows : consecutive snap.number [h] = true := by
    simp only [consecutive, snapNumber, numbered, Nat.mod_eq_of_lt small, decide_true,
      Bool.and_self]
  -- The verdict concerns this header alone.
  have verdict : (¬ SignerStays e node h) → ∀ other ∈ node.headers, other.hash e.crypto = hash →
      num other = below + 1 → other ≠ node.genesis ∧ ¬ SignerStays e node other := by
    intro leaves other listed otherHash otherNumber
    rw [inv.unique listed member (otherHash.trans hashed.symm)]
    refine ⟨?_, leaves⟩
    intro genesis
    rw [genesis, inv.genesisNumber] at numbered
    omega
  have copied := listed.copy e.crypto.keccak256
  simp only [snapshot, gathered, apply, List.getLast?_singleton, follows, if_true, checkSigners]
  cases recovered : ecrecover e h with
  | error err =>
    refine .failed err (verdict ?_)
    rintro ⟨signer, _, ok, _⟩
    rw [recovered] at ok
    cases ok
  | ok signer =>
    dsimp only
    by_cases stays : ((snap.valSet.copy e.crypto.keccak256).getByAddress signer).isSome = true
    · rw [if_pos stays]
      have elected : signer ∈ validators :=
        (copied.1 signer).mp ((ValidatorSet.getByAddress_isSome_iff _ _).mp stays)
      refine .found h member (.inl hashed) ?_ ⟨⟨rfl, rfl, rfl⟩, rfl, .inr rfl⟩
      exact ⟨rfl, ⟨validators, stored, copied⟩, .inr ⟨signer, validators, recovered, stored, elected⟩⟩
    · rw [if_neg stays]
      refine .failed _ (verdict ?_)
      rintro ⟨other, list, ok, same, elected⟩
      rw [recovered] at ok
      rw [stored] at same
      cases ok
      cases same
      exact stays ((ValidatorSet.getByAddress_isSome_iff _ _).mpr ((copied.1 _).mpr elected))

theorem ChainInv.lookup (inv : ChainInv e node) (number : Nat) (hash : Hash) :
    Lookup e node number hash (snapshot e node number hash []) := by
  cases recent : node.recents[hash]? with
  | some snap =>
    apply lookup_cached _ (inv.recents hash snap recent)
    rw [gather.eq_def, recent]
  | none =>
    cases saved : loadSnapshot e node hash with
    | some snap =>
      apply lookup_cached _ (inv.disk hash snap saved)
      rw [gather.eq_def, recent]
      simp only [saved]
    | none =>
      cases number with
      | zero => exact inv.lookup_genesis recent saved
      | succ below =>
        cases found : getHeader e node hash (below + 1) with
        | some h => exact inv.lookup_header recent saved found
        | none =>
          have gathered : gather e node (below + 1) hash [] [] =
              (node, .error .errUnknownAncestor) := by
            rw [gather, recent]
            simp only [saved, pickHeader, found]
          simp only [snapshot, gathered]
          refine .failed _ ?_
          rintro h member rfl numbered
          rw [← numbered, inv.getHeader_eq member] at found
          cases found

/-- A lookup keeps the chain and the invariant, whatever it returns. -/
theorem ChainInv.snapshot (inv : ChainInv e node) (number : Nat) (hash : Hash) :
    ChainInv e (Headers.snapshot e node number hash []).1 ∧
      SameChain node (Headers.snapshot e node number hash []).1 := by
  have looked := inv.lookup number hash
  generalize Headers.snapshot e node number hash [] = result at looked
  cases looked with
  | failed err _ => exact ⟨inv, SameChain.refl node⟩
  | found h member _ described remembers =>
    exact ⟨inv.remember member described remembers, remembers.same⟩

/-! ## Accepted headers -/

/-- The signer of the header is a validator of its parent. -/
def SignedOnParent (e : Engine) (node : Node) (h : Header) : Prop :=
  ∃ signer p snap, ecrecover e h = .ok signer ∧ p ∈ node.headers ∧
    (p.hash e.crypto = h.parentHash ∨ (num h - 1 = 0 ∧ p = node.genesis)) ∧
    Describes e node p snap ∧ signer ∈ snap.valSet.validators

theorem ChainInv.verifySigner (inv : ChainInv e node) (h : Header) :
    ChainInv e (Headers.verifySigner e node h []).1 ∧
      SameChain node (Headers.verifySigner e node h []).1 ∧
      ((Headers.verifySigner e node h []).2 = .ok () → SignedOnParent e node h) := by
  rw [Headers.verifySigner]
  by_cases zero : num h = 0
  · rw [if_pos zero]
    exact ⟨inv, SameChain.refl node, by simp⟩
  · rw [if_neg zero]
    have looked := inv.lookup (num h - 1) h.parentHash
    generalize Headers.snapshot e node (num h - 1) h.parentHash [] = result at looked
    cases looked with
    | failed err _ => exact ⟨inv, SameChain.refl node, by simp⟩
    | @found after snap p member asked described remembers =>
      have kept := inv.remember member described remembers
      cases recovered : ecrecover e h with
      | error err => exact ⟨kept, remembers.same, by simp⟩
      | ok signer =>
        dsimp only
        by_cases known : (snap.valSet.getByAddress signer).isSome = true
        · rw [if_pos known]
          refine ⟨kept, remembers.same, fun _ => ?_⟩
          exact ⟨signer, p, snap, recovered, member, asked, described,
            (ValidatorSet.getByAddress_isSome_iff _ _).mp known⟩
        · rw [if_neg known]
          exact ⟨kept, remembers.same, by simp⟩

theorem ChainInv.verifySealsOfParent (inv : ChainInv e node) (h : Header) :
    ChainInv e (Headers.verifySealsOfParent e node h []).1 ∧
      SameChain node (Headers.verifySealsOfParent e node h []).1 := by
  rw [Headers.verifySealsOfParent]
  by_cases zero : num h = 0
  · rw [if_pos zero]
    exact ⟨inv, SameChain.refl node⟩
  · rw [if_neg zero]
    have kept := inv.snapshot (num h - 1) h.parentHash
    cases run : Headers.snapshot e node (num h - 1) h.parentHash [] with
    | mk after result =>
      rw [run] at kept
      cases result with
      | error err => exact kept
      | ok snap =>
        dsimp only
        cases verifyCommittedSeals e.crypto snap.valSet h with
        | none | some => exact kept

theorem verifyStandalone_extra (passed : verifyStandalone e h = .ok ()) :
    CheckedHeader h := by
  rw [verifyStandalone] at passed
  split_ifs at passed with future extra digest uncles difficulty
  exact ⟨Option.isSome_iff_ne_none.mpr extra, not_not.mp digest⟩

/-- What `verifyHeader` leaves behind, and what an accepted header has. -/
theorem ChainInv.verifyHeader (inv : ChainInv e node) (h : Header) (later : num h ≠ 0) :
    ChainInv e (Headers.verifyHeader e node h []).1 ∧
      SameChain node (Headers.verifyHeader e node h []).1 ∧
      ((Headers.verifyHeader e node h []).2 = .ok () →
        CheckedHeader h ∧ SignedOnParent e node h) := by
  rw [Headers.verifyHeader]
  cases standalone : verifyStandalone e h with
  | error err => exact ⟨inv, SameChain.refl node, by simp⟩
  | ok _ =>
    have checked := verifyStandalone_extra standalone
    rw [verifyCascadingFields, if_neg later]
    cases parentOf e node h [] with
    | none => exact ⟨inv, SameChain.refl node, by simp⟩
    | some parent =>
      dsimp only
      split_ifs
      · exact ⟨inv, SameChain.refl node, by simp⟩
      · exact ⟨inv, SameChain.refl node, by simp⟩
      · obtain ⟨first, same⟩ := inv.snapshot (num h - 1) h.parentHash
        cases run : Headers.snapshot e node (num h - 1) h.parentHash [] with
        | mk middle result =>
          rw [run] at first same
          cases result with
          | error err => exact ⟨first, same, by simp⟩
          | ok snap =>
            dsimp only at first same ⊢
            obtain ⟨second, sameSecond, signed⟩ := first.verifySigner h
            cases signer : Headers.verifySigner e middle h [] with
            | mk signedNode verdict =>
              rw [signer] at second sameSecond signed
              cases verdict with
              | error err => exact ⟨second, same.trans sameSecond, by simp⟩
              | ok _ =>
                obtain ⟨third, sameThird⟩ := second.verifySealsOfParent h
                refine ⟨third, (same.trans sameSecond).trans sameThird, fun _ => ?_⟩
                refine ⟨checked, ?_⟩
                obtain ⟨who, p, parentSnap, recovered, member, asked, described, listed⟩ :=
                  signed rfl
                rw [same.headers] at member
                rw [same.genesis] at asked
                have back : SameChain middle node :=
                  ⟨same.genesis.symm, same.blocks.symm, same.db.symm⟩
                exact ⟨who, p, parentSnap, recovered, member, asked,
                  back.describes described, listed⟩

end Lookups

end Linkeye.Dbft.Chain
