import Linkeye.Core.HeaderIndex

/-!
# Blocks and the canonical chain

`WriteBlockWithState`, `reorg` and `insert` of `core/blockchain.go`: blocks and total
difficulties by hash, the canonical hash of each number, the lookup entry of each
transaction and the current block.  A heavier block, or one of the same weight that is
lower or wins a toss, becomes the current block; the canonical hashes and lookup entries
are rewritten along its branch.
-/

set_option autoImplicit false

namespace Linkeye.Core.ChainIndex

open Common.Types Common.Signature Transaction Blocks HeaderIndex Lib.Ancestry Lib.Runs Lib.Maps
open Std (ExtTreeMap)

/-- `Transaction.Hash`; `rlpHash` ignores an encoding error and then hashes nothing. -/
def txHash (crypto : Crypto) (tx : TxData) : Hash :=
  match tx.encodeRLP with
  | some item => rlpHash crypto item
  | none => crypto.keccak256 []

@[ext]
structure TxLookupEntry where
  blockHash : Hash
  blockIndex : Nat
  index : Nat
deriving DecidableEq

/-- The tables of the chain database that `WriteBlockWithState` reads, by hash as in the
header chain. -/
structure BlockChain where
  blocks : ExtTreeMap Hash Block
  /-- Number and total difficulty. -/
  tds : ExtTreeMap Hash (Nat × Nat)
  canonical : ExtTreeMap Nat Hash
  lookups : ExtTreeMap Hash TxLookupEntry
  currentBlock : Block

def BlockChain.getBlock (bc : BlockChain) (hash : Hash) (number : Nat) : Option Block :=
  readAt (fun block => block.header.number) bc.blocks hash number

def BlockChain.getTd (bc : BlockChain) (hash : Hash) (number : Nat) : Option Nat :=
  (readAt Prod.fst bc.tds hash number).map Prod.snd

/-- `GetBlock` and `GetTd` of the parent.  Before number zero stands a number that no block has. -/
def BlockChain.parent (bc : BlockChain) (block : Block) : Option Block :=
  if block.header.number = 0 then none
  else bc.getBlock block.header.parentHash (block.header.number - 1)

def BlockChain.parentTd (bc : BlockChain) (block : Block) : Option Nat :=
  if block.header.number = 0 then none
  else bc.getTd block.header.parentHash (block.header.number - 1)

def BlockChain.getHeaderByNumber (bc : BlockChain) (number : Nat) : Option Header :=
  match bc.canonical[number]? with
  | none => none
  | some hash => (bc.getBlock hash number).map Block.header

section
variable (crypto : Crypto)

def blockHash (block : Block) : Hash := block.header.hash crypto

def txHashes (block : Block) : List Hash := block.transactions.map (txHash crypto)

/-- `WriteTxLookupEntries`, from position `i` on. -/
def writeTxLookupEntriesFrom (block : Block) :
    Nat → List TxData → ExtTreeMap Hash TxLookupEntry → ExtTreeMap Hash TxLookupEntry
  | _, [], lookups => lookups
  | i, tx :: rest, lookups =>
    writeTxLookupEntriesFrom block (i + 1) rest
      (lookups.insert (txHash crypto tx) ⟨blockHash crypto block, block.header.number, i⟩)

def writeTxLookupEntries (block : Block) (lookups : ExtTreeMap Hash TxLookupEntry) :
    ExtTreeMap Hash TxLookupEntry :=
  writeTxLookupEntriesFrom crypto block 0 block.transactions lookups

/-- The transactions of `a` that are not in `b`. -/
def txDifference (a b : List TxData) : List TxData :=
  a.filter fun tx => !((b.map (txHash crypto)).contains (txHash crypto tx))

def BlockChain.insert (bc : BlockChain) (block : Block) : BlockChain :=
  { bc with
    canonical := bc.canonical.insert block.header.number (blockHash crypto block)
    currentBlock := block }

inductive WriteError where
  | unknownAncestor
  | stateNotCommitted
  | invalidOldChain
  | invalidNewChain
  | panicked

/-- The loop of `reorg` that goes down to the number of the other block, collecting the
blocks on the way. -/
def BlockChain.reduce (bc : BlockChain) (stop : Nat) :
    Nat → Option Block → List Block → Option Block × List Block
  | fuel + 1, some block, chain =>
    if block.header.number = stop then (some block, chain)
    else BlockChain.reduce bc stop fuel (bc.parent block) (chain ++ [block])
  | _, block, chain => (block, chain)

/-- The loop of `reorg` that goes down on both sides to the common block. -/
def BlockChain.meet (bc : BlockChain) :
    Nat → Block → Block → List Block → List Block → Except WriteError (List Block × List Block)
  | fuel, oldBlock, newBlock, oldChain, newChain =>
    if blockHash crypto oldBlock = blockHash crypto newBlock then .ok (oldChain, newChain)
    else
      match bc.parent oldBlock with
      | none => .error .invalidOldChain
      | some oldParent =>
        match bc.parent newBlock with
        | none => .error .invalidNewChain
        | some newParent =>
          match fuel with
          | 0 => .error .invalidOldChain
          | fuel + 1 =>
            BlockChain.meet bc fuel oldParent newParent (oldChain ++ [oldBlock])
              (newChain ++ [newBlock])

/-- The two branches of `reorg`, newest block first, without the common block. -/
def BlockChain.branches (bc : BlockChain) (oldBlock newBlock : Block) :
    Except WriteError (List Block × List Block) :=
  if newBlock.header.number < oldBlock.header.number then
    match bc.reduce newBlock.header.number oldBlock.header.number (some oldBlock) [] with
    | (none, _) => .error .invalidOldChain
    | (some lower, oldChain) => bc.meet crypto lower.header.number lower newBlock oldChain []
  else
    match bc.reduce oldBlock.header.number newBlock.header.number (some newBlock) [] with
    | (none, _) => .error .invalidNewChain
    | (some lower, newChain) => bc.meet crypto oldBlock.header.number oldBlock lower [] newChain

def BlockChain.insertBranch (bc : BlockChain) (newChain : List Block) : BlockChain :=
  newChain.foldr (fun block bc =>
    let bc := bc.insert crypto block
    { bc with lookups := writeTxLookupEntries crypto block bc.lookups }) bc

def BlockChain.reorg (bc : BlockChain) (oldBlock newBlock : Block) :
    Except WriteError BlockChain :=
  match bc.branches crypto oldBlock newBlock with
  | .error error => .error error
  | .ok (oldChain, newChain) =>
    let deletedTxs := oldChain.flatMap Block.transactions
    let addedTxs := newChain.reverse.flatMap Block.transactions
    let bc := bc.insertBranch crypto newChain
    .ok { bc with
      lookups := (txDifference crypto deletedTxs addedTxs).foldl
        (fun lookups tx => lookups.erase (txHash crypto tx)) bc.lookups }

/-- A block of total difficulty `externTd` becomes the head; `coin` is the outcome of
`mrand.Float64() < 0.5`. -/
def takesOver (externTd localTd : Nat) (block currentBlock : Block) (coin : Bool) : Bool :=
  localTd < externTd || (externTd = localTd &&
    (block.header.number < currentBlock.header.number ||
      (block.header.number = currentBlock.header.number && coin)))

def triesInMemory : Nat := 128

/-- What a node does with the state of a block. -/
structure StateOutcome where
  /-- `cacheConfig.Disabled`: every state is flushed, no garbage is collected. -/
  archive : Bool
  /-- State and DPOS context are committed without an error. -/
  committed : Bool

/-- Garbage collection reads the canonical header that lies `triesInMemory` back. -/
def BlockChain.collects (bc : BlockChain) (block : Block) (outcome : StateOutcome) : Bool :=
  outcome.archive || block.header.number ≤ triesInMemory ||
    (bc.getHeaderByNumber (block.header.number - triesInMemory)).isSome

/-- The batch of a block, with its lookup entries if it is canonical. -/
def BlockChain.writeBatch (bc : BlockChain) (block : Block) (canonical : Bool) : BlockChain :=
  { bc with
    blocks := bc.blocks.insert (blockHash crypto block) block
    lookups := if canonical then writeTxLookupEntries crypto block bc.lookups else bc.lookups }

/-- A block becomes the head. -/
def BlockChain.makeHead (bc : BlockChain) (block : Block) : Except WriteError BlockChain :=
  let reorganised :=
    if block.header.parentHash ≠ blockHash crypto bc.currentBlock then
      bc.reorg crypto bc.currentBlock block
    else .ok bc
  reorganised.map fun bc => (bc.writeBatch crypto block true).insert crypto block

def BlockChain.writeTd (bc : BlockChain) (block : Block) (td : Nat) : BlockChain :=
  { bc with tds := bc.tds.insert (blockHash crypto block) (block.header.number, td) }

/-- The chain after the call and what the call returns: an error leaves the total
difficulty behind. -/
def BlockChain.writeBlockWithState (bc : BlockChain) (block : Block) (outcome : StateOutcome)
    (coin : Bool) : BlockChain × Except WriteError WriteStatus :=
  match bc.parentTd block with
  | none => (bc, .error .unknownAncestor)
  | some ptd =>
    let externTd := block.header.difficulty + ptd
    let weighed := bc.writeTd crypto block externTd
    if !outcome.committed then (weighed, .error .stateNotCommitted)
    else if !weighed.collects block outcome then (weighed, .error .panicked)
    else
      match bc.getTd (blockHash crypto bc.currentBlock) bc.currentBlock.header.number with
      | none => (weighed, .error .panicked)
      | some localTd =>
        if takesOver externTd localTd block bc.currentBlock coin then
          match weighed.makeHead crypto block with
          | .error error => (weighed, .error error)
          | .ok next => (next, .ok .canonStatTy)
        else (weighed.writeBatch crypto block false, .ok .sideStatTy)

def newBlockChain (genesis : Block) (td : Nat) : BlockChain where
  blocks := (∅ : ExtTreeMap Hash Block).insert (blockHash crypto genesis) genesis
  tds := (∅ : ExtTreeMap Hash (Nat × Nat)).insert (blockHash crypto genesis) (0, td)
  canonical := (∅ : ExtTreeMap Nat Hash).insert 0 (blockHash crypto genesis)
  lookups := ∅
  currentBlock := genesis

end

/-! ## What is stored -/

def BlockChain.up (bc : BlockChain) (hash : Hash) : Option (Hash × Nat) :=
  bc.blocks[hash]?.map fun block => (block.header.parentHash, block.header.number)

variable {hash : Hash} {parent top bottom : Block} {chain : List Block}

theorem up_eq_some {bc : BlockChain} {parent : Hash} {number : Nat} :
    bc.up hash = some (parent, number) ↔
      ∃ block, bc.blocks[hash]? = some block ∧ block.header.parentHash = parent ∧
        block.header.number = number := by
  simp [BlockChain.up]

/-- Agreement on what the hash of a block covers here: blocks of one hash may differ in
the committed seals of the header. -/
structure Twin (a b : Block) : Prop where
  parentHash : a.header.parentHash = b.header.parentHash
  number : a.header.number = b.header.number
  transactions : a.transactions = b.transactions

theorem Twin.refl (a : Block) : Twin a a := ⟨rfl, rfl, rfl⟩

variable {block : Block}

section
variable (crypto : Crypto)

def Holds (bc : BlockChain) (block : Block) : Prop :=
  ∃ stored, bc.blocks[blockHash crypto block]? = some stored ∧ Twin stored block

/-- Every stored block stands on stored blocks down to the origin. -/
structure Sound (origin : Hash) (bc : BlockChain) : Prop where
  hashed : ∀ (hash : Hash) (block : Block), bc.blocks[hash]? = some block →
    blockHash crypto block = hash
  rooted : ∀ (hash : Hash) (block : Block), bc.blocks[hash]? = some block →
    Rooted bc.up origin hash block.header.number
  weighed : ∀ hash parent number, bc.up hash = some (parent, number) →
    ∃ td, bc.tds[hash]? = some (number, td)
  current : Holds crypto bc bc.currentBlock

structure Admissible (bc : BlockChain) (block : Block) : Prop where
  parent : (bc.parent block).isSome
  unique : ∀ old : Block, bc.blocks[blockHash crypto block]? = some old → Twin old block

structure Linked (origin : Hash) (bc : BlockChain) (block : Block) : Prop where
  bottom : block.header.number = 0 → blockHash crypto block = origin
  parent : block.header.number ≠ 0 → ∃ parent, bc.parent block = some parent

variable {crypto} {bc : BlockChain} {origin : Hash}

theorem parent_eq_some :
    bc.parent block = some parent ↔
      block.header.number = parent.header.number + 1 ∧
        bc.blocks[block.header.parentHash]? = some parent := by
  unfold BlockChain.parent
  split
  · constructor
    · intro impossible
      cases impossible
    · rintro ⟨positive, _⟩
      omega
  · rw [BlockChain.getBlock, readAt_eq_some]
    constructor
    · rintro ⟨stored, level⟩
      exact ⟨by omega, stored⟩
    · rintro ⟨level, stored⟩
      exact ⟨stored, by omega⟩

theorem Holds.up_eq (held : Holds crypto bc block) :
    bc.up (blockHash crypto block) = some (block.header.parentHash, block.header.number) := by
  obtain ⟨stored, found, twin⟩ := held
  exact up_eq_some.mpr ⟨stored, found, twin.parentHash, twin.number⟩

section
variable (sound : Sound crypto origin bc)
include sound

theorem Sound.holds
    (stored : bc.blocks[hash]? = some block) : Holds crypto bc block :=
  ⟨block, (sound.hashed hash block stored).symm ▸ stored, Twin.refl block⟩

theorem Sound.rooted_of_holds
    (held : Holds crypto bc block) :
    Rooted bc.up origin (blockHash crypto block) block.header.number := by
  obtain ⟨stored, found, twin⟩ := held
  exact twin.number ▸ sound.rooted _ stored found

theorem Sound.linked_of_holds
    (held : Holds crypto bc block) : Linked crypto origin bc block := by
  have rooted := sound.rooted_of_holds held
  have read := held.up_eq
  constructor
  · intro zero
    rw [zero] at rooted
    exact rooted.eq_origin
  · intro positive
    obtain ⟨number, level⟩ : ∃ number, block.header.number = number + 1 :=
      ⟨block.header.number - 1, by omega⟩
    rw [level] at rooted read
    cases rooted with
    | child found above =>
      rw [read] at found
      cases found
      obtain ⟨_, parentUp⟩ := above.stored
      obtain ⟨parent, stored, _, height⟩ := up_eq_some.mp parentUp
      exact ⟨parent, parent_eq_some.mpr ⟨by omega, stored⟩⟩

theorem Sound.linked_parent
    (up : bc.parent block = some parent) : Linked crypto origin bc parent :=
  sound.linked_of_holds (sound.holds (parent_eq_some.mp up).2)

end

theorem Admissible.linked (fresh : Admissible crypto bc block) :
    Linked crypto origin bc block := by
  obtain ⟨parent, up⟩ := Option.isSome_iff_exists.mp fresh.parent
  constructor
  · intro zero
    have positive := (parent_eq_some.mp up).1
    omega
  · intro _
    exact ⟨parent, up⟩

end

/-! ## The branches of a reorganisation -/

/-- The blocks from a top block on down, newest first, above a bottom block. -/
inductive Branch (bc : BlockChain) : Block → List Block → Block → Prop where
  | nil (block : Block) : Branch bc block [] block
  | cons {block parent bottom : Block} {chain : List Block} (up : bc.parent block = some parent)
      (rest : Branch bc parent chain bottom) : Branch bc block (block :: chain) bottom

section
variable {crypto : Crypto} {bc : BlockChain} {origin : Hash}

theorem Branch.snoc (branch : Branch bc top chain block)
    (up : bc.parent block = some parent) : Branch bc top (chain ++ [block]) parent := by
  induction branch with
  | nil block => exact .cons up (.nil parent)
  | cons step _ ih => exact .cons step (ih up)

theorem reduce_branch (sound : Sound crypto origin bc) (stop fuel : Nat)
    (branch : Branch bc top chain block) (linked : Linked crypto origin bc block)
    (higher : stop ≤ block.header.number) (enough : block.header.number ≤ stop + fuel) :
    ∃ lower below, bc.reduce stop fuel (some block) chain = (some lower, below) ∧
      Branch bc top below lower ∧ lower.header.number = stop ∧ Linked crypto origin bc lower := by
  induction fuel generalizing block chain with
  | zero => exact ⟨block, chain, rfl, branch, by omega, linked⟩
  | succ fuel ih =>
    rw [BlockChain.reduce]
    by_cases reached : block.header.number = stop
    · rw [if_pos reached]
      exact ⟨block, chain, rfl, branch, reached, linked⟩
    · obtain ⟨parent, up⟩ := linked.parent (by omega)
      have level := (parent_eq_some.mp up).1
      rw [if_neg reached, up]
      exact ih (branch.snoc up) (sound.linked_parent up) (by omega) (by omega)

/-- Two branches, of the old head and of the new one, that start from one block. -/
structure Fork (crypto : Crypto) (bc : BlockChain) (oldTop newTop : Block)
    (oldChain newChain : List Block) (oldBase newBase : Block) : Prop where
  oldBranch : Branch bc oldTop oldChain oldBase
  newBranch : Branch bc newTop newChain newBase
  sameHash : blockHash crypto oldBase = blockHash crypto newBase
  sameNumber : oldBase.header.number = newBase.header.number

theorem meet_branches (sound : Sound crypto origin bc) (fuel : Nat)
    {oldTop newTop oldBlock newBlock : Block} {oldChain newChain : List Block}
    (oldBranch : Branch bc oldTop oldChain oldBlock) (newBranch : Branch bc newTop newChain newBlock)
    (oldLinked : Linked crypto origin bc oldBlock) (newLinked : Linked crypto origin bc newBlock)
    (level : oldBlock.header.number = newBlock.header.number)
    (enough : oldBlock.header.number ≤ fuel) :
    ∃ oldDown newDown oldBase newBase,
      bc.meet crypto fuel oldBlock newBlock oldChain newChain = .ok (oldDown, newDown) ∧
      Fork crypto bc oldTop newTop oldDown newDown oldBase newBase := by
  induction fuel generalizing oldBlock newBlock oldChain newChain with
  | zero =>
    have same : blockHash crypto oldBlock = blockHash crypto newBlock := by
      rw [oldLinked.bottom (by omega), newLinked.bottom (by omega)]
    refine ⟨oldChain, newChain, oldBlock, newBlock, ?_, oldBranch, newBranch, same, level⟩
    rw [BlockChain.meet, if_pos same]
  | succ fuel ih =>
    rw [BlockChain.meet]
    by_cases same : blockHash crypto oldBlock = blockHash crypto newBlock
    · rw [if_pos same]
      exact ⟨oldChain, newChain, oldBlock, newBlock, rfl, oldBranch, newBranch, same, level⟩
    · have positive : oldBlock.header.number ≠ 0 := by
        intro zero
        apply same
        rw [oldLinked.bottom zero, newLinked.bottom (by omega)]
      obtain ⟨oldParent, oldUp⟩ := oldLinked.parent positive
      obtain ⟨newParent, newUp⟩ := newLinked.parent (by omega)
      have oldLevel := (parent_eq_some.mp oldUp).1
      have newLevel := (parent_eq_some.mp newUp).1
      rw [if_neg same, oldUp, newUp]
      exact ih (oldBranch.snoc oldUp) (newBranch.snoc newUp) (sound.linked_parent oldUp)
        (sound.linked_parent newUp) (by omega) (by omega)

/-- `reorg` finds the two branches. -/
theorem branches_fork (sound : Sound crypto origin bc) {oldBlock newBlock : Block}
    (oldLinked : Linked crypto origin bc oldBlock) (newLinked : Linked crypto origin bc newBlock) :
    ∃ oldChain newChain oldBase newBase,
      bc.branches crypto oldBlock newBlock = .ok (oldChain, newChain) ∧
      Fork crypto bc oldBlock newBlock oldChain newChain oldBase newBase := by
  unfold BlockChain.branches
  split
  · obtain ⟨lower, oldChain, reduced, branch, level, linked⟩ := reduce_branch sound
      newBlock.header.number oldBlock.header.number (.nil oldBlock) oldLinked (by omega) (by omega)
    rw [reduced]
    exact meet_branches sound _ branch (.nil newBlock) linked newLinked level (by omega)
  · obtain ⟨lower, newChain, reduced, branch, level, linked⟩ := reduce_branch sound
      oldBlock.header.number newBlock.header.number (.nil newBlock) newLinked (by omega) (by omega)
    rw [reduced]
    exact meet_branches sound _ (.nil oldBlock) branch oldLinked linked level.symm (by omega)

theorem Branch.number_le (branch : Branch bc top chain bottom) :
    bottom.header.number ≤ top.header.number := by
  induction branch with
  | nil block => exact le_refl _
  | cons up _ ih =>
    have level := (parent_eq_some.mp up).1
    omega

/-- The canonical numbers with the blocks of a branch. -/
def canonicalBranch (crypto : Crypto) (canonical : ExtTreeMap Nat Hash) (chain : List Block) :
    ExtTreeMap Nat Hash :=
  chain.foldr (fun block canonical =>
    canonical.insert block.header.number (blockHash crypto block)) canonical

section
variable {up : Hash → Option (Hash × Nat)}

/-- Along a branch of blocks that `up` knows the ancestors are those of its lower end. -/
theorem Branch.ancestorAt_below (sound : Sound crypto origin bc)
    (branch : Branch bc top chain bottom)
    (known : ∀ hash found, bc.up hash = some found → up hash = some found)
    (own : up (blockHash crypto top) = some (top.header.parentHash, top.header.number)) {m : Nat}
    (below : m ≤ bottom.header.number) :
    ancestorAt up top.header.number (blockHash crypto top) m =
      ancestorAt up bottom.header.number (blockHash crypto bottom) m := by
  induction branch with
  | nil block => rfl
  | @cons block parent bottom chain step rest ih =>
    obtain ⟨level, stored⟩ := parent_eq_some.mp step
    have lower := rest.number_le
    have hash := sound.hashed _ _ stored
    have parentUp := known _ _ (sound.holds stored).up_eq
    rw [level] at own ⊢
    rw [ancestorAt_parent own (by omega), ← hash]
    exact ih parentUp below

theorem Branch.getElem?_canonicalBranch (sound : Sound crypto origin bc)
    (branch : Branch bc top chain bottom)
    (known : ∀ hash found, bc.up hash = some found → up hash = some found)
    (own : up (blockHash crypto top) = some (top.header.parentHash, top.header.number))
    (canonical : ExtTreeMap Nat Hash) (m : Nat) :
    (canonicalBranch crypto canonical chain)[m]? =
      if bottom.header.number < m ∧ m ≤ top.header.number then
        ancestorAt up top.header.number (blockHash crypto top) m
      else canonical[m]? := by
  induction branch with
  | nil block =>
    rw [if_neg (by omega)]
    rfl
  | @cons block parent bottom chain step rest ih =>
    obtain ⟨level, stored⟩ := parent_eq_some.mp step
    have lower := rest.number_le
    have hash := sound.hashed _ _ stored
    have parentUp := known _ _ (sound.holds stored).up_eq
    show ((canonicalBranch crypto canonical chain).insert block.header.number
      (blockHash crypto block))[m]? = _
    rw [get_insert, ih parentUp]
    rcases Nat.lt_trichotomy m block.header.number with lesser | rfl | greater
    · rw [if_neg (by omega)]
      have same : bottom.header.number < m ∧ m ≤ parent.header.number ↔
          bottom.header.number < m ∧ m ≤ block.header.number := by omega
      simp only [same]
      split
      · rw [level] at own ⊢
        rw [ancestorAt_parent own (by omega), hash]
      · rfl
    · rw [if_pos rfl, if_pos (by omega), ancestorAt_self]
    · rw [if_neg (by omega), if_neg (by omega), if_neg (by omega)]

end

end

/-! ## What a call can do -/

section
variable (crypto : Crypto)

/-- The lookup entries without those of the transactions that are only on the old branch. -/
def dropLookups (oldChain newChain : List Block) (lookups : ExtTreeMap Hash TxLookupEntry) :
    ExtTreeMap Hash TxLookupEntry :=
  (txDifference crypto (oldChain.flatMap Block.transactions)
      (newChain.reverse.flatMap Block.transactions)).foldl
    (fun lookups tx => lookups.erase (txHash crypto tx)) lookups

def lookupsBranch (lookups : ExtTreeMap Hash TxLookupEntry) (chain : List Block) :
    ExtTreeMap Hash TxLookupEntry :=
  chain.foldr (writeTxLookupEntries crypto) lookups

/-- A block has become the head: the two branches and the tables. -/
structure Switched (bc next : BlockChain) (block : Block) (oldChain newChain : List Block)
    (oldBase newBase : Block) : Prop extends
    Fork crypto bc bc.currentBlock block oldChain newChain oldBase newBase where
  blocks : next.blocks = bc.blocks.insert (blockHash crypto block) block
  tds : next.tds = bc.tds
  currentBlock : next.currentBlock = block
  canonical : ∀ m : Nat, next.canonical[m]? = ((canonicalBranch crypto bc.canonical newChain).insert
    block.header.number (blockHash crypto block))[m]?
  lookups : next.lookups = writeTxLookupEntries crypto block
      (dropLookups crypto oldChain newChain (lookupsBranch crypto bc.lookups newChain)) ∨
    oldChain = [] ∧ newChain = [block] ∧
      next.lookups = writeTxLookupEntries crypto block bc.lookups

/-- The three outcomes of a call. -/
inductive Outcome (bc : BlockChain) (block : Block) : BlockChain → Prop where
  | failed (td : Nat) : Outcome bc block (bc.writeTd crypto block td)
  | side (td : Nat) : Outcome bc block ((bc.writeTd crypto block td).writeBatch crypto block false)
  | switched (td : Nat) {next : BlockChain} {oldChain newChain : List Block} {oldBase newBase : Block}
      (change : Switched crypto (bc.writeTd crypto block td) next block oldChain newChain
        oldBase newBase) : Outcome bc block next

variable {crypto} {bc : BlockChain} {origin : Hash} {block : Block}

theorem insertBranch_eq (bc : BlockChain) (chain : List Block) :
    (bc.insertBranch crypto chain).blocks = bc.blocks ∧
      (bc.insertBranch crypto chain).tds = bc.tds ∧
      (bc.insertBranch crypto chain).canonical = canonicalBranch crypto bc.canonical chain ∧
      (bc.insertBranch crypto chain).lookups = lookupsBranch crypto bc.lookups chain := by
  induction chain with
  | nil => exact ⟨rfl, rfl, rfl, rfl⟩
  | cons block rest ih =>
    obtain ⟨blocks, tds, canonical, lookups⟩ := ih
    refine ⟨blocks, tds, ?_, ?_⟩
    · exact congrArg (fun canonical : ExtTreeMap Nat Hash =>
        canonical.insert block.header.number (blockHash crypto block)) canonical
    · exact congrArg (writeTxLookupEntries crypto block) lookups

theorem Sound.makeHead (sound : Sound crypto origin bc) (fresh : Admissible crypto bc block) :
    ∃ next oldChain newChain oldBase newBase, bc.makeHead crypto block = .ok next ∧
      Switched crypto bc next block oldChain newChain oldBase newBase := by
  unfold BlockChain.makeHead
  split
  · obtain ⟨oldChain, newChain, oldBase, newBase, found, fork⟩ :=
      branches_fork sound (sound.linked_of_holds sound.current) fresh.linked
    obtain ⟨blocks, tds, canonical, lookups⟩ := insertBranch_eq bc newChain
    rw [BlockChain.reorg, found]
    refine ⟨_, oldChain, newChain, oldBase, newBase, rfl, fork, ?_, tds, rfl, ?_, .inl ?_⟩
    · exact congrArg (fun blocks : ExtTreeMap Hash Block =>
        blocks.insert (blockHash crypto block) block) blocks
    · intro m
      rw [← canonical]
      rfl
    · rw [← lookups]
      rfl
  · rename_i extended
    rw [not_not] at extended
    obtain ⟨parent, up⟩ := Option.isSome_iff_exists.mp fresh.parent
    obtain ⟨level, stored⟩ := parent_eq_some.mp up
    have current := sound.current.up_eq
    rw [← extended, up_eq_some.mpr ⟨parent, stored, rfl, rfl⟩] at current
    have number : bc.currentBlock.header.number = parent.header.number :=
      (Prod.mk.inj (Option.some.inj current)).2.symm
    refine ⟨_, [], [block], bc.currentBlock, parent, rfl,
      ⟨.nil _, .cons up (.nil parent), ?_, number⟩, rfl, rfl, rfl, ?_, .inr ⟨rfl, rfl, rfl⟩⟩
    · rw [← extended, sound.hashed _ _ stored]
    · intro m
      simp only [BlockChain.insert, BlockChain.writeBatch, canonicalBranch, List.foldr,
        ExtTreeMap.getElem?_insert]
      split <;> rfl

theorem Admissible.writeTd (fresh : Admissible crypto bc block) (td : Nat) :
    Admissible crypto (bc.writeTd crypto block td) block :=
  ⟨fresh.parent, fresh.unique⟩

theorem Sound.writeTd (sound : Sound crypto origin bc) (fresh : Admissible crypto bc block) (td : Nat) :
    Sound crypto origin (bc.writeTd crypto block td) := by
  refine ⟨sound.hashed, sound.rooted, ?_, sound.current⟩
  intro hash parent number read
  simp only [BlockChain.writeTd, get_insert]
  split
  · rename_i same
    obtain ⟨old, stored, _, level⟩ := up_eq_some.mp read
    have twin := fresh.unique old (same ▸ stored)
    exact ⟨td, by rw [← level, twin.number]⟩
  · exact sound.weighed hash parent number read

/-- A call on a block whose parent is stored has one of the three outcomes. -/
theorem Sound.outcome (sound : Sound crypto origin bc) (fresh : Admissible crypto bc block)
    (outcome : StateOutcome) (coin : Bool) :
    Outcome crypto bc block (bc.writeBlockWithState crypto block outcome coin).1 := by
  obtain ⟨parent, up⟩ := Option.isSome_iff_exists.mp fresh.parent
  obtain ⟨level, stored⟩ := parent_eq_some.mp up
  obtain ⟨ptd, parentTd⟩ := sound.weighed _ _ _ (up_eq_some.mpr ⟨parent, stored, rfl, rfl⟩)
  have read : bc.parentTd block = some ptd := by
    rw [BlockChain.parentTd, if_neg (by omega), BlockChain.getTd, readAt_fst_eq_some, parentTd, level,
      Nat.add_sub_cancel]
  obtain ⟨localTd, weight⟩ := sound.weighed _ _ _ sound.current.up_eq
  have own : bc.getTd (blockHash crypto bc.currentBlock) bc.currentBlock.header.number =
      some localTd := by
    rw [BlockChain.getTd, readAt_fst_eq_some, weight]
  rw [BlockChain.writeBlockWithState, read]
  dsimp only
  split
  · exact .failed _
  · split
    · exact .failed _
    · rw [own]
      dsimp only
      split
      · obtain ⟨next, oldChain, newChain, oldBase, newBase, made, change⟩ :=
          (sound.writeTd fresh (block.header.difficulty + ptd)).makeHead (fresh.writeTd _)
        rw [made]
        exact .switched _ change
      · exact .side _

section
variable {next : BlockChain}

theorem up_self (blocks : next.blocks = bc.blocks.insert (blockHash crypto block) block) :
    next.up (blockHash crypto block) = some (block.header.parentHash, block.header.number) := by
  rw [BlockChain.up, blocks, ExtTreeMap.getElem?_insert_self]
  rfl

theorem up_mono (fresh : Admissible crypto bc block)
    (blocks : next.blocks = bc.blocks.insert (blockHash crypto block) block) (hash : Hash)
    (found : Hash × Nat) (read : bc.up hash = some found) : next.up hash = some found := by
  by_cases same : blockHash crypto block = hash
  · obtain ⟨parent, number⟩ := found
    obtain ⟨old, stored, rfl, rfl⟩ := up_eq_some.mp read
    have twin := fresh.unique old (same ▸ stored)
    rw [← same, up_self blocks, twin.parentHash, twin.number]
  · rw [BlockChain.up, blocks, get_insert, if_neg same]
    exact read

theorem rooted_mono (fresh : Admissible crypto bc block)
    (blocks : next.blocks = bc.blocks.insert (blockHash crypto block) block) {number : Nat}
    (rooted : Rooted bc.up origin hash number) :
    Rooted next.up origin hash number ∧
      ∀ m, ancestorAt next.up number hash m = ancestorAt bc.up number hash m :=
  rooted.mono fun _ _ hash _ _ read => up_mono fresh blocks hash _ read

theorem Sound.rooted_self (sound : Sound crypto origin bc) (fresh : Admissible crypto bc block)
    (blocks : next.blocks = bc.blocks.insert (blockHash crypto block) block) :
    Rooted next.up origin (blockHash crypto block) block.header.number := by
  obtain ⟨parent, up⟩ := Option.isSome_iff_exists.mp fresh.parent
  obtain ⟨level, stored⟩ := parent_eq_some.mp up
  have own := up_self blocks
  rw [level] at own ⊢
  exact .child own (rooted_mono fresh blocks (sound.rooted _ parent stored)).1

theorem Sound.extend (sound : Sound crypto origin bc) (fresh : Admissible crypto bc block) (td : Nat)
    (blocks : next.blocks = bc.blocks.insert (blockHash crypto block) block)
    (tds : next.tds = (bc.writeTd crypto block td).tds)
    (current : next.currentBlock = block ∨ next.currentBlock = bc.currentBlock) :
    Sound crypto origin next := by
  have sorted : ∀ (hash : Hash) (other : Block), next.blocks[hash]? = some other →
      blockHash crypto block = hash ∧ other = block ∨ bc.blocks[hash]? = some other := by
    intro hash other stored
    rw [blocks, get_insert] at stored
    split at stored
    · cases stored
      exact .inl ⟨‹_›, rfl⟩
    · exact .inr stored
  constructor
  · intro hash other stored
    rcases sorted hash other stored with ⟨same, rfl⟩ | old
    · exact same
    · exact sound.hashed hash other old
  · intro hash other stored
    rcases sorted hash other stored with ⟨rfl, rfl⟩ | old
    · exact sound.rooted_self fresh blocks
    · exact (rooted_mono fresh blocks (sound.rooted hash other old)).1
  · intro hash parent number read
    rw [tds, BlockChain.writeTd, get_insert]
    obtain ⟨other, stored, _, level⟩ := up_eq_some.mp read
    rcases sorted hash other stored with ⟨same, rfl⟩ | old
    · exact ⟨td, by rw [if_pos same, level]⟩
    · obtain ⟨weight, found⟩ := (sound.writeTd fresh td).weighed hash parent number
        (up_eq_some.mpr ⟨other, old, ‹_›, level⟩)
      simp only [BlockChain.writeTd, get_insert] at found
      exact ⟨weight, found⟩
  · rcases current with same | same
    · rw [same]
      exact ⟨block, by rw [blocks, ExtTreeMap.getElem?_insert_self], Twin.refl block⟩
    · rw [same]
      obtain ⟨stored, found, twin⟩ := sound.current
      by_cases own : blockHash crypto block = blockHash crypto bc.currentBlock
      · have other := fresh.unique stored (own ▸ found)
        refine ⟨block, by rw [blocks, ← own, ExtTreeMap.getElem?_insert_self],
          other.parentHash.symm.trans twin.parentHash, other.number.symm.trans twin.number,
          other.transactions.symm.trans twin.transactions⟩
      · refine ⟨stored, ?_, twin⟩
        rw [blocks, ExtTreeMap.getElem?_insert]
        simpa [own] using found

end

theorem Sound.of_outcome (sound : Sound crypto origin bc) (fresh : Admissible crypto bc block)
    {next : BlockChain} (outcome : Outcome crypto bc block next) : Sound crypto origin next := by
  cases outcome with
  | failed td => exact sound.writeTd fresh td
  | side td => exact sound.extend fresh td rfl rfl (.inr rfl)
  | switched td change =>
    exact sound.extend fresh td change.blocks change.tds (.inl change.currentBlock)

end

/-! ## The canonical numbers of a run -/

section
variable (crypto : Crypto)

structure Call where
  block : Block
  outcome : StateOutcome
  coin : Bool

/-- The chain and the highest number that a head has had. -/
structure Tracked where
  chain : BlockChain
  peak : Nat

def Tracked.next (s : Tracked) (call : Call) : Tracked :=
  let chain := (s.chain.writeBlockWithState crypto call.block call.outcome call.coin).1
  ⟨chain, max s.peak chain.currentBlock.header.number⟩

/-- Every sequence of calls on blocks of positive difficulty whose parent is stored. -/
def system (genesis : Block) (td : Nat) : System Tracked Call where
  init s := s = ⟨newBlockChain crypto genesis td, 0⟩ ∧ genesis.header.number = 0
  enabled s call := Admissible crypto s.chain call.block ∧ 1 ≤ call.block.header.difficulty
  next := Tracked.next crypto

/-- Up to the number of the head the canonical hashes are its ancestors; a number has a
canonical hash exactly if a head was once as high. -/
structure Indexed (origin : Hash) (s : Tracked) : Prop where
  sound : Sound crypto origin s.chain
  ancestors : ∀ m ≤ s.chain.currentBlock.header.number, s.chain.canonical[m]? =
    ancestorAt s.chain.up s.chain.currentBlock.header.number
      (blockHash crypto s.chain.currentBlock) m
  used : ∀ m, (s.chain.canonical[m]?).isSome ↔ m ≤ s.peak
  below : s.chain.currentBlock.header.number ≤ s.peak

variable {crypto}

theorem indexed_newBlockChain (genesis : Block) (td : Nat) (ground : genesis.header.number = 0) :
    Indexed crypto (blockHash crypto genesis) ⟨newBlockChain crypto genesis td, 0⟩ := by
  have stored : (newBlockChain crypto genesis td).blocks[blockHash crypto genesis]? = some genesis := by
    simp [newBlockChain]
  have only : ∀ (hash : Hash) (block : Block),
      (newBlockChain crypto genesis td).blocks[hash]? = some block →
        block = genesis ∧ blockHash crypto genesis = hash := by
    intro hash block found
    simp only [newBlockChain, get_insert] at found
    split at found
    · cases found
      exact ⟨rfl, ‹_›⟩
    · simp at found
  have level : (newBlockChain crypto genesis td).currentBlock.header.number = 0 := ground
  refine ⟨⟨?_, ?_, ?_, genesis, stored, Twin.refl genesis⟩, ?_, ?_, ?_⟩
  · intro hash block found
    obtain ⟨rfl, same⟩ := only hash block found
    exact same
  · intro hash block found
    obtain ⟨rfl, rfl⟩ := only hash block found
    rw [ground]
    exact .origin (up_eq_some.mpr ⟨block, stored, rfl, ground⟩)
  · intro hash parent number read
    obtain ⟨block, found, _, height⟩ := up_eq_some.mp read
    obtain ⟨rfl, rfl⟩ := only hash block found
    exact ⟨td, by simp [newBlockChain, ← height, ground]⟩
  · intro m within
    rw [level] at within ⊢
    obtain rfl := Nat.le_zero.mp within
    simp [newBlockChain, ancestorAt]
  · intro m
    simp only [newBlockChain, get_insert]
    split <;> simp <;> omega
  · exact Nat.le_of_eq level

variable {origin : Hash} {s : Tracked} {block : Block}

section
variable (indexed : Indexed crypto origin s)
include indexed

theorem Indexed.writeTd (fresh : Admissible crypto s.chain block)
    (td : Nat) : Indexed crypto origin ⟨s.chain.writeTd crypto block td, s.peak⟩ :=
  ⟨indexed.sound.writeTd fresh td, indexed.ancestors, indexed.used, indexed.below⟩

theorem Indexed.side (fresh : Admissible crypto s.chain block)
    (sound : Sound crypto origin (s.chain.writeBatch crypto block false)) :
    Indexed crypto origin ⟨s.chain.writeBatch crypto block false, s.peak⟩ := by
  have path := indexed.sound.rooted_of_holds indexed.sound.current
  refine ⟨sound, ?_, indexed.used, indexed.below⟩
  intro m within
  exact (indexed.ancestors m within).trans ((rooted_mono fresh rfl path).2 m).symm

theorem Indexed.switch (fresh : Admissible crypto s.chain block)
    {next : BlockChain} {oldChain newChain : List Block} {oldBase newBase : Block}
    (change : Switched crypto s.chain next block oldChain newChain oldBase newBase)
    (sound : Sound crypto origin next) :
    Indexed crypto origin ⟨next, max s.peak next.currentBlock.header.number⟩ := by
  have path := indexed.sound.rooted_of_holds indexed.sound.current
  have newPath := indexed.sound.rooted_self fresh change.blocks
  have known := up_mono fresh change.blocks
  have own := up_self change.blocks
  have oldLower := change.oldBranch.number_le
  have level := change.sameNumber
  have entries : ∀ m, next.canonical[m]? =
      if m ≤ block.header.number then
        ancestorAt next.up block.header.number (blockHash crypto block) m
      else s.chain.canonical[m]? := by
    intro m
    rw [change.canonical m, get_insert,
      change.newBranch.getElem?_canonicalBranch indexed.sound known own]
    rcases Nat.lt_trichotomy m block.header.number with lower | rfl | higher
    · rw [if_neg (by omega), if_pos (Nat.le_of_lt lower)]
      split
      · rfl
      · -- Below the fork both heads have the same ancestors.
        have atBase : m ≤ newBase.header.number := by omega
        rw [indexed.ancestors m (by omega), change.newBranch.ancestorAt_below indexed.sound known own
            atBase,
          ← change.sameHash, ← level, ← (rooted_mono fresh change.blocks path).2 m]
        exact change.oldBranch.ancestorAt_below indexed.sound known
          (known _ _ indexed.sound.current.up_eq) (by omega)
    · rw [if_pos rfl, if_pos (le_refl _), ancestorAt_self]
    · rw [if_neg (by omega), if_neg (by omega), if_neg (by omega)]
  rw [change.currentBlock]
  refine ⟨sound, ?_, ?_, ?_⟩
  · intro m within
    rw [change.currentBlock] at within ⊢
    rw [entries m, if_pos within]
  · intro m
    dsimp only
    rw [entries m]
    split
    · rename_i within
      obtain ⟨a, found, _⟩ := newPath.exists_ancestorAt within
      rw [found]
      exact ⟨fun _ => by omega, fun _ => rfl⟩
    · rw [indexed.used m]
      omega
  · rw [change.currentBlock]
    exact le_max_right _ _

theorem Indexed.next {call : Call}
    (fresh : Admissible crypto s.chain call.block) :
    Indexed crypto origin (s.next crypto call) := by
  have outcome := indexed.sound.outcome fresh call.outcome call.coin
  have sound := indexed.sound.of_outcome fresh outcome
  unfold Tracked.next
  generalize (s.chain.writeBlockWithState crypto call.block call.outcome call.coin).1 = next
    at outcome sound
  -- A head that stays is below the peak.
  have stays : max s.peak s.chain.currentBlock.header.number = s.peak := max_eq_left indexed.below
  cases outcome with
  | failed td =>
    show Indexed crypto origin ⟨_, max s.peak s.chain.currentBlock.header.number⟩
    rw [stays]
    exact indexed.writeTd fresh td
  | side td =>
    show Indexed crypto origin ⟨_, max s.peak s.chain.currentBlock.header.number⟩
    rw [stays]
    exact (indexed.writeTd fresh td).side (fresh.writeTd td) sound
  | switched td change => exact (indexed.writeTd fresh td).switch (fresh.writeTd td) change sound

end

theorem indexed_of_reachable {genesis : Block} {td : Nat}
    (reached : Reachable (system crypto genesis td) (fun _ _ => True) s) :
    Indexed crypto (blockHash crypto genesis) s := by
  apply reached.invariant
  · rintro s ⟨rfl, ground⟩
    exact indexed_newBlockChain genesis td ground
  · intro s call indexed enabled _
    exact indexed.next enabled.1

/-- After every call the canonical hashes up to the number of the head are its ancestors.
Above the head there is no canonical hash for a number exactly if no head before was as
high. -/
theorem canonical_iff_peak {genesis : Block} {td : Nat}
    (reached : Reachable (system crypto genesis td) (fun _ _ => True) s) :
    (∀ m ≤ s.chain.currentBlock.header.number, ∃ a,
      ancestorAt s.chain.up s.chain.currentBlock.header.number
        (blockHash crypto s.chain.currentBlock) m = some a ∧ s.chain.canonical[m]? = some a) ∧
    ∀ m, s.chain.currentBlock.header.number < m →
      (s.chain.canonical[m]? = none ↔ s.peak < m) := by
  have indexed := indexed_of_reachable reached
  constructor
  · intro m within
    obtain ⟨a, found, _⟩ :=
      (indexed.sound.rooted_of_holds indexed.sound.current).exists_ancestorAt within
    exact ⟨a, found, (indexed.ancestors m within).trans found⟩
  · intro m _
    rw [← Option.not_isSome_iff_eq_none, indexed.used m]
    omega

instance (a b : Block) : Decidable (Twin a b) :=
  decidable_of_iff (a.header.parentHash = b.header.parentHash ∧ a.header.number = b.header.number ∧
      a.transactions = b.transactions)
    ⟨fun ⟨parentHash, number, transactions⟩ => ⟨parentHash, number, transactions⟩,
      fun ⟨parentHash, number, transactions⟩ => ⟨parentHash, number, transactions⟩⟩

instance (bc : BlockChain) (block : Block) : Decidable (Admissible crypto bc block) :=
  decidable_of_iff ((bc.parent block).isSome ∧
      ∀ old ∈ bc.blocks[blockHash crypto block]?, Twin old block)
    ⟨fun ⟨parent, unique⟩ => ⟨parent, unique⟩, fun ⟨parent, unique⟩ => ⟨parent, unique⟩⟩

end

/-! ## A heavier and shorter branch -/

def forkBlock (header : Header) (transactions : List TxData) : Block := ⟨header, transactions, []⟩

def forkRoot : Block := forkBlock forkGenesis []
def firstBlock : Block := forkBlock forkFirst []
def secondBlock : Block := forkBlock forkHead []
def heavyBlock : Block := forkBlock (forkHeader (forkGenesis.hash plainCrypto) 1 9 5) []

def writeCall (block : Block) : Call := ⟨block, ⟨true, true⟩, false⟩

def forkRuns : System Tracked Call := system plainCrypto forkRoot 1

def forkRootState : Tracked := ⟨newBlockChain plainCrypto forkRoot 1, 0⟩

instance (s : Tracked) (call : Call) : Decidable (forkRuns.enabled s call) :=
  inferInstanceAs (Decidable (Admissible plainCrypto s.chain call.block ∧
    1 ≤ call.block.header.difficulty))

theorem reachable_forkRuns (calls : List Call)
    (admitted : Admits forkRuns (fun _ _ => True) forkRootState calls) :
    Reachable forkRuns (fun _ _ => True) (calls.foldl forkRuns.next forkRootState) := by
  have initial : forkRuns.init forkRootState := ⟨rfl, rfl⟩
  exact Reachable.run (.init initial) calls admitted

theorem canonical_iff_peak_secondBlock :
    ([firstBlock, secondBlock].map writeCall |>.foldl forkRuns.next forkRootState).chain.canonical[3]? =
      none := by
  have reached := reachable_forkRuns ([firstBlock, secondBlock].map writeCall) (by decide +kernel)
  exact ((canonical_iff_peak reached).2 3 (by decide +kernel)).mpr (by decide +kernel)

/-- After a switch to a shorter branch the hash of the old branch stays canonical above
the head. -/
theorem heavyBlock_leaves_secondBlock :
    Reachable forkRuns (fun _ _ => True)
        ([firstBlock, secondBlock, heavyBlock].map writeCall |>.foldl forkRuns.next forkRootState) ∧
      ([firstBlock, secondBlock, heavyBlock].map writeCall |>.foldl forkRuns.next
        forkRootState).chain.currentBlock.header.number = 1 ∧
      ([firstBlock, secondBlock, heavyBlock].map writeCall |>.foldl forkRuns.next
        forkRootState).chain.canonical[2]? = some (blockHash plainCrypto secondBlock) := by
  refine ⟨reachable_forkRuns _ (by decide +kernel), ?_, ?_⟩
  · decide +kernel
  · decide +kernel

end Linkeye.Core.ChainIndex
