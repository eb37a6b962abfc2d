import Linkeye.Core.ChainIndex

/-!
# Transaction lookup entries

`WriteTxLookupEntries` and the entries that `reorg` deletes: while no transaction is
twice on one chain, the entries are those of the transactions on the canonical chain.
-/

set_option autoImplicit false

namespace Linkeye.Core.LookupIndex

open Common.Types Common.Signature Transaction Blocks HeaderIndex ChainIndex Lib.Ancestry Lib.Runs
open Std (ExtTreeMap)

section
variable (crypto : Crypto)

/-- The entry says where in the block the transaction of the hash is. -/
structure Located (block : Block) (h : Hash) (entry : TxLookupEntry) : Prop where
  hash : entry.blockHash = blockHash crypto block
  number : entry.blockIndex = block.header.number
  position : (txHashes crypto block)[entry.index]? = some h

/-- The entry says in which ancestor of the block, at its number, the transaction is. -/
def OnPath (bc : BlockChain) (top : Block) (h : Hash) (entry : TxLookupEntry) : Prop :=
  ∃ stored, ancestorAt bc.up top.header.number (blockHash crypto top) entry.blockIndex =
      some entry.blockHash ∧
    bc.blocks[entry.blockHash]? = some stored ∧ (txHashes crypto stored)[entry.index]? = some h

/-- No transaction is twice on the chain of the block. -/
def Once (bc : BlockChain) (top : Block) : Prop :=
  ∀ h entry other, OnPath crypto bc top h entry → OnPath crypto bc top h other → entry = other

/-- The same for a block that is not stored yet. -/
def Unrepeated (bc : BlockChain) (block : Block) : Prop :=
  ∀ parent, bc.parent block = some parent → ∀ h entry other,
    (Located crypto block h entry ∨ OnPath crypto bc parent h entry) →
    (Located crypto block h other ∨ OnPath crypto bc parent h other) → entry = other

end

/-! ## Entries of one block -/

section
variable {crypto : Crypto} {block : Block} {h : Hash} {entry : TxLookupEntry}

theorem located_of_mem (member : h ∈ txHashes crypto block) : ∃ entry, Located crypto block h entry := by
  obtain ⟨i, within, found⟩ := List.mem_iff_getElem.mp member
  exact ⟨⟨blockHash crypto block, block.header.number, i⟩, rfl, rfl,
    List.getElem?_eq_some_iff.mpr ⟨within, found⟩⟩

theorem Located.mem (located : Located crypto block h entry) : h ∈ txHashes crypto block :=
  List.mem_of_getElem? located.position

theorem getElem?_writeTxLookupEntriesFrom (i : Nat) (txs : List TxData)
    (lookups : ExtTreeMap Hash TxLookupEntry) (distinct : (txs.map (txHash crypto)).Nodup) :
    (writeTxLookupEntriesFrom crypto block i txs lookups)[h]? = some entry ↔
      (∃ j, (txs.map (txHash crypto))[j]? = some h ∧
        entry = ⟨blockHash crypto block, block.header.number, i + j⟩) ∨
      (h ∉ txs.map (txHash crypto) ∧ lookups[h]? = some entry) := by
  induction txs generalizing i lookups with
  | nil => simp [writeTxLookupEntriesFrom]
  | cons tx rest ih =>
    rw [List.map_cons, List.nodup_cons] at distinct
    rw [writeTxLookupEntriesFrom, ih (i + 1) _ distinct.2, Lib.Maps.get_insert]
    simp only [List.map_cons, List.mem_cons, not_or]
    by_cases own : txHash crypto tx = h
    · subst own
      simp only [distinct.1, not_true, if_true, false_and, not_false_eq_true, true_and, or_false]
      constructor
      · rintro (⟨j, found, _⟩ | same)
        · exact absurd (List.mem_of_getElem? found) distinct.1
        · cases same
          exact ⟨0, rfl, rfl⟩
      · rintro ⟨j, found, rfl⟩
        cases j with
        | zero => exact .inr rfl
        | succ j =>
          rw [List.getElem?_cons_succ] at found
          exact absurd (List.mem_of_getElem? found) distinct.1
    · simp only [own, Ne.symm own, if_false, not_false_eq_true, true_and]
      refine or_congr ?_ Iff.rfl
      constructor
      · rintro ⟨j, found, rfl⟩
        exact ⟨j + 1, found, by rw [Nat.add_right_comm, Nat.add_assoc]⟩
      · rintro ⟨j, found, rfl⟩
        cases j with
        | zero => exact absurd (Option.some.inj found) own
        | succ j => exact ⟨j, found, by rw [Nat.add_right_comm, Nat.add_assoc]⟩

theorem getElem?_writeTxLookupEntries (lookups : ExtTreeMap Hash TxLookupEntry)
    (distinct : (txHashes crypto block).Nodup) :
    (writeTxLookupEntries crypto block lookups)[h]? = some entry ↔
      Located crypto block h entry ∨ (h ∉ txHashes crypto block ∧ lookups[h]? = some entry) := by
  rw [writeTxLookupEntries, getElem?_writeTxLookupEntriesFrom 0 _ _ distinct]
  refine or_congr ?_ Iff.rfl
  constructor
  · rintro ⟨j, found, rfl⟩
    exact ⟨rfl, rfl, by rw [Nat.zero_add]; exact found⟩
  · rintro ⟨hash, number, position⟩
    refine ⟨entry.index, position, ?_⟩
    rw [Nat.zero_add, ← hash, ← number]

theorem getElem?_erased (txs : List TxData) (lookups : ExtTreeMap Hash TxLookupEntry) :
    (txs.foldl (fun lookups tx => lookups.erase (txHash crypto tx)) lookups)[h]? =
      if h ∈ txs.map (txHash crypto) then none else lookups[h]? := by
  induction txs generalizing lookups with
  | nil => simp
  | cons tx rest ih =>
    rw [List.foldl_cons, ih, Lib.Maps.get_erase]
    by_cases own : txHash crypto tx = h
    · simp [own]
    · simp [own, Ne.symm own]

/-- The entries of transactions that are only on the old branch go. -/
theorem getElem?_dropLookups (oldChain newChain : List Block)
    (lookups : ExtTreeMap Hash TxLookupEntry) :
    (dropLookups crypto oldChain newChain lookups)[h]? =
      if (∃ block ∈ oldChain, h ∈ txHashes crypto block) ∧
          (∀ block ∈ newChain, h ∉ txHashes crypto block)
      then none else lookups[h]? := by
  rw [dropLookups, getElem?_erased]
  refine if_congr ?_ rfl rfl
  simp only [txDifference, List.mem_map, List.mem_filter, List.mem_flatMap,
    Bool.not_eq_true', List.mem_reverse, txHashes, decide_eq_false_iff_not, List.elem_eq_mem]
  constructor
  · rintro ⟨tx, ⟨⟨block, member, inBlock⟩, absent⟩, rfl⟩
    refine ⟨⟨block, member, tx, inBlock, rfl⟩, ?_⟩
    rintro other otherMember ⟨twin, inOther, same⟩
    exact absent ⟨twin, ⟨other, otherMember, inOther⟩, same⟩
  · rintro ⟨⟨block, member, tx, inBlock, rfl⟩, absent⟩
    refine ⟨tx, ⟨⟨block, member, inBlock⟩, ?_⟩, rfl⟩
    rintro ⟨twin, ⟨other, otherMember, inOther⟩, same⟩
    exact absent other otherMember ⟨twin, inOther, same⟩

end

/-! ## Entries along a path -/

variable {top bottom : Block} {chain : List Block}

section
variable {crypto : Crypto} {bc : BlockChain} {origin : Hash} {h : Hash} {entry : TxLookupEntry}

/-- What is on the path of a block is in the block or on the path of its parent. -/
theorem onPath_step (sound : Sound crypto origin bc) {block parent : Block}
    (held : Holds crypto bc block) (up : bc.parent block = some parent) :
    OnPath crypto bc block h entry ↔
      Located crypto block h entry ∨ OnPath crypto bc parent h entry := by
  obtain ⟨level, stored⟩ := parent_eq_some.mp up
  have own := held.up_eq
  have parentHash := sound.hashed _ _ stored
  unfold OnPath
  rcases Nat.lt_trichotomy entry.blockIndex block.header.number with lower | same | higher
  · rw [level] at own ⊢
    rw [ancestorAt_parent own (by omega), parentHash]
    constructor
    · exact .inr
    · rintro (located | onPath)
      · have number := located.number
        omega
      · exact onPath
  · rw [same, ancestorAt_self, ancestorAt_above _ _ (by omega : parent.header.number < _)]
    obtain ⟨twin, found, twins⟩ := held
    constructor
    · rintro ⟨other, hash, read, position⟩
      have own := (Option.some.inj hash).symm
      rw [own, found] at read
      cases read
      refine .inl ⟨own, same, ?_⟩
      rw [txHashes, ← twins.transactions]
      exact position
    · rintro (located | ⟨other, impossible, _⟩)
      · refine ⟨twin, by rw [located.hash], by rw [located.hash]; exact found, ?_⟩
        rw [txHashes, twins.transactions]
        exact located.position
      · cases impossible
  · rw [ancestorAt_above _ _ higher, ancestorAt_above _ _ (by omega : parent.header.number < _)]
    constructor
    · rintro ⟨_, impossible, _⟩
      cases impossible
    · rintro (located | ⟨_, impossible, _⟩)
      · have number := located.number
        omega
      · cases impossible

theorem OnPath.of_located {block : Block} (held : Holds crypto bc block)
    (located : Located crypto block h entry) : OnPath crypto bc block h entry := by
  obtain ⟨twin, found, twins⟩ := held
  refine ⟨twin, ?_, by rw [located.hash]; exact found, ?_⟩
  · rw [located.number, ancestorAt_self, located.hash]
  · rw [txHashes, twins.transactions]
    exact located.position

theorem OnPath.index_le (onPath : OnPath crypto bc top h entry) :
    entry.blockIndex ≤ top.header.number := by
  obtain ⟨_, ancestor, _⟩ := onPath
  by_contra above
  rw [ancestorAt_above _ _ (by omega)] at ancestor
  cases ancestor

/-- The path of the top of a branch is the branch and the path of its lower end. -/
theorem onPath_branch (sound : Sound crypto origin bc) (branch : Branch bc top chain bottom)
    (held : Holds crypto bc top) :
    OnPath crypto bc top h entry ↔
      (∃ block ∈ chain, Located crypto block h entry) ∨ OnPath crypto bc bottom h entry := by
  induction branch with
  | nil block => simp
  | @cons block parent bottom chain up rest ih =>
    rw [onPath_step sound held up, ih (sound.holds (parent_eq_some.mp up).2), List.exists_mem_cons_iff,
      or_assoc]

theorem number_lt_of_mem_branch {block : Block} (branch : Branch bc top chain bottom)
    (member : block ∈ chain) :
    bottom.header.number < block.header.number := by
  induction branch with
  | nil _ => cases member
  | cons up rest ih =>
    rcases List.mem_cons.mp member with rfl | later
    · have level := (parent_eq_some.mp up).1
      have lower := rest.number_le
      omega
    · exact ih later

theorem Once.parent (sound : Sound crypto origin bc) {block parent : Block}
    (held : Holds crypto bc block) (up : bc.parent block = some parent) (once : Once crypto bc block) :
    Once crypto bc parent := by
  intro h entry other first second
  exact once h entry other ((onPath_step sound held up).mpr (.inr first))
    ((onPath_step sound held up).mpr (.inr second))

theorem Once.nodup {block : Block} (held : Holds crypto bc block) (once : Once crypto bc block) :
    (txHashes crypto block).Nodup := by
  rw [List.nodup_iff_getElem?_ne_getElem?]
  intro i j less within same
  obtain ⟨h, found⟩ : ∃ h, (txHashes crypto block)[i]? = some h :=
    ⟨_, List.getElem?_eq_getElem (by omega)⟩
  have first : OnPath crypto bc block h ⟨blockHash crypto block, block.header.number, i⟩ :=
    .of_located held ⟨rfl, rfl, found⟩
  have second : OnPath crypto bc block h ⟨blockHash crypto block, block.header.number, j⟩ :=
    .of_located held ⟨rfl, rfl, same ▸ found⟩
  have position := congrArg TxLookupEntry.index (once h _ _ first second)
  exact absurd position (Nat.ne_of_lt less)

theorem getElem?_lookupsBranch (sound : Sound crypto origin bc)
    (branch : Branch bc top chain bottom) (held : Holds crypto bc top) (once : Once crypto bc top)
    (lookups : ExtTreeMap Hash TxLookupEntry) :
    (lookupsBranch crypto lookups chain)[h]? = some entry ↔
      (∃ block ∈ chain, Located crypto block h entry) ∨
        ((∀ block ∈ chain, h ∉ txHashes crypto block) ∧ lookups[h]? = some entry) := by
  induction branch with
  | nil block => simp [lookupsBranch]
  | @cons block parent bottom chain up rest ih =>
    have parentHeld := sound.holds (parent_eq_some.mp up).2
    have level := (parent_eq_some.mp up).1
    show (writeTxLookupEntries crypto block (lookupsBranch crypto lookups chain))[h]? = _ ↔ _
    rw [getElem?_writeTxLookupEntries _ (once.nodup held), ih parentHeld (once.parent sound held up),
      List.exists_mem_cons_iff, List.forall_mem_cons]
    constructor
    · rintro (located | ⟨absent, located | ⟨others, read⟩⟩)
      · exact .inl (.inl located)
      · exact .inl (.inr located)
      · exact .inr ⟨⟨absent, others⟩, read⟩
    · rintro ((located | located) | ⟨⟨absent, others⟩, read⟩)
      · exact .inl located
      · refine .inr ⟨?_, .inl located⟩
        -- A transaction further down is not in this block too.
        intro member
        obtain ⟨own, ownLocated⟩ := located_of_mem member
        have further := (onPath_branch sound rest parentHeld).mpr (.inl located)
        have below := further.index_le
        have same := once h own entry (.of_located held ownLocated)
          ((onPath_step sound held up).mpr (.inr further))
        have number := ownLocated.number
        rw [same] at number
        omega
      · exact .inr ⟨absent, .inr ⟨others, read⟩⟩

theorem holds_bottom (sound : Sound crypto origin bc) (branch : Branch bc top chain bottom)
    (held : Holds crypto bc top) : Holds crypto bc bottom := by
  induction branch with
  | nil _ => exact held
  | cons up _ ih => exact ih (sound.holds (parent_eq_some.mp up).2)

/-- A transaction on the path below a branch is not in the branch too. -/
theorem absent_of_onPath (sound : Sound crypto origin bc) (branch : Branch bc top chain bottom)
    (held : Holds crypto bc top) (once : Once crypto bc top)
    (onPath : OnPath crypto bc bottom h entry) : ∀ block ∈ chain, h ∉ txHashes crypto block := by
  intro block member inBlock
  obtain ⟨own, located⟩ := located_of_mem inBlock
  have same := once h own entry ((onPath_branch sound branch held).mpr (.inl ⟨block, member, located⟩))
    ((onPath_branch sound branch held).mpr (.inr onPath))
  have number := located.number
  have above := number_lt_of_mem_branch branch member
  have below := onPath.index_le
  rw [same] at number
  omega

/-- The entries of the top block added to those of its path change nothing. -/
theorem Once.located_or_iff (held : Holds crypto bc top) (once : Once crypto bc top) :
    (Located crypto top h entry ∨ (h ∉ txHashes crypto top ∧ OnPath crypto bc top h entry)) ↔
      OnPath crypto bc top h entry := by
  constructor
  · rintro (located | ⟨_, onPath⟩)
    · exact .of_located held located
    · exact onPath
  · intro onPath
    by_cases member : h ∈ txHashes crypto top
    · obtain ⟨own, located⟩ := located_of_mem member
      rw [once h entry own onPath (.of_located held located)]
      exact .inl located
    · exact .inr ⟨member, onPath⟩

/-! ### When a block is stored -/

section
variable {block : Block} {next : BlockChain}

theorem onPath_mono (fresh : Admissible crypto bc block)
    (blocks : next.blocks = bc.blocks.insert (blockHash crypto block) block)
    (rooted : Rooted bc.up origin (blockHash crypto top) top.header.number) :
    OnPath crypto next top h entry ↔ OnPath crypto bc top h entry := by
  unfold OnPath
  rw [(rooted_mono fresh blocks rooted).2]
  -- A block on the path that is stored again is the same but for its seals.
  have twins : ∀ (hash : Hash) (old : Block), bc.blocks[hash]? = some old →
      ∃ new, next.blocks[hash]? = some new ∧ txHashes crypto new = txHashes crypto old := by
    intro hash old stored
    by_cases own : blockHash crypto block = hash
    · refine ⟨block, by rw [blocks, ← own, ExtTreeMap.getElem?_insert_self], ?_⟩
      rw [txHashes, txHashes, (fresh.unique old (own ▸ stored)).transactions]
    · refine ⟨old, ?_, rfl⟩
      rw [blocks, ExtTreeMap.getElem?_insert]
      simpa [own] using stored
  constructor
  · rintro ⟨stored, ancestor, read, position⟩
    have within : entry.blockIndex ≤ top.header.number := by
      by_contra above
      rw [ancestorAt_above _ _ (by omega)] at ancestor
      cases ancestor
    obtain ⟨a, found, below⟩ := rooted.exists_ancestorAt within
    rw [ancestor] at found
    cases found
    obtain ⟨_, parentUp⟩ := below.stored
    obtain ⟨old, oldRead, _⟩ := ChainIndex.up_eq_some.mp parentUp
    obtain ⟨new, newRead, same⟩ := twins _ old oldRead
    rw [read] at newRead
    cases newRead
    exact ⟨old, ancestor, oldRead, same ▸ position⟩
  · rintro ⟨old, ancestor, oldRead, position⟩
    obtain ⟨new, newRead, same⟩ := twins _ old oldRead
    exact ⟨new, ancestor, newRead, same.symm ▸ position⟩

/-- The parent of a block no higher than the new one is not the new one. -/
theorem parent_mono (fresh : Admissible crypto bc block)
    (blocks : next.blocks = bc.blocks.insert (blockHash crypto block) block) {child parent : Block}
    (lower : child.header.number ≤ block.header.number) (up : bc.parent child = some parent) :
    next.parent child = some parent := by
  obtain ⟨level, stored⟩ := parent_eq_some.mp up
  refine parent_eq_some.mpr ⟨level, ?_⟩
  rw [blocks, Lib.Maps.get_insert]
  rw [if_neg]
  · exact stored
  · intro own
    have twin := fresh.unique parent (own ▸ stored)
    have same := twin.number
    omega

theorem branch_mono (fresh : Admissible crypto bc block)
    (blocks : next.blocks = bc.blocks.insert (blockHash crypto block) block)
    (branch : Branch bc top chain bottom) (lower : top.header.number ≤ block.header.number) :
    Branch next top chain bottom := by
  induction branch with
  | nil top => exact .nil top
  | cons up rest ih =>
    have level := (parent_eq_some.mp up).1
    exact .cons (parent_mono fresh blocks lower up) (ih (by omega))

/-- No transaction is twice on the chain of any stored block. -/
def NoRepeats (crypto : Crypto) (bc : BlockChain) : Prop :=
  ∀ block, Holds crypto bc block → Once crypto bc block

theorem holds_self (blocks : next.blocks = bc.blocks.insert (blockHash crypto block) block) :
    Holds crypto next block :=
  ⟨block, by rw [blocks, ExtTreeMap.getElem?_insert_self], Twin.refl block⟩

theorem NoRepeats.extend (sound : Sound crypto origin bc) (soundNext : Sound crypto origin next)
    (fresh : Admissible crypto bc block)
    (blocks : next.blocks = bc.blocks.insert (blockHash crypto block) block)
    (noRepeats : NoRepeats crypto bc) (unrepeated : Unrepeated crypto bc block) :
    NoRepeats crypto next := by
  obtain ⟨parent, up⟩ := Option.isSome_iff_exists.mp fresh.parent
  have parentHeld := sound.holds (parent_eq_some.mp up).2
  have own : Once crypto next block := by
    intro h entry other first second
    have parentPath := sound.rooted_of_holds parentHeld
    rw [onPath_step soundNext (holds_self blocks) (parent_mono fresh blocks (le_refl _) up),
      onPath_mono fresh blocks parentPath] at first second
    exact unrepeated parent up h entry other first second
  intro top held
  by_cases same : blockHash crypto block = blockHash crypto top
  · -- The path depends on hash and number only.
    obtain ⟨stored, found, twin⟩ := held
    rw [blocks, ← same, ExtTreeMap.getElem?_insert_self] at found
    cases found
    intro h entry other first second
    unfold OnPath at first second
    rw [← same, ← twin.number] at first second
    exact own h entry other first second
  · obtain ⟨stored, found, twin⟩ := held
    rw [blocks, Lib.Maps.get_insert, if_neg same] at found
    have held : Holds crypto bc top := ⟨stored, found, twin⟩
    intro h entry other first second
    rw [onPath_mono fresh blocks (sound.rooted_of_holds held)] at first second
    exact noRepeats top held h entry other first second

end

end

/-! ## The entries of a run -/

section
variable (crypto : Crypto)

/-- The lookup entries are those of the transactions on the chain of the head. -/
structure Recorded (origin : Hash) (bc : BlockChain) : Prop where
  sound : Sound crypto origin bc
  noRepeats : NoRepeats crypto bc
  entries : ∀ (h : Hash) (entry : TxLookupEntry), bc.lookups[h]? = some entry ↔
    OnPath crypto bc bc.currentBlock h entry

variable {crypto} {origin : Hash} {bc next : BlockChain} {block : Block}

theorem not_onPath_newBlockChain {genesis : Block} (td : Nat) (empty : genesis.transactions = [])
    {h : Hash} {entry : TxLookupEntry} :
    ¬ OnPath crypto (newBlockChain crypto genesis td) top h entry := by
  rintro ⟨stored, _, read, position⟩
  simp only [newBlockChain, Lib.Maps.get_insert] at read
  split at read
  · cases read
    simp [txHashes, empty] at position
  · simp at read

theorem recorded_newBlockChain (genesis : Block) (td : Nat) (ground : genesis.header.number = 0)
    (empty : genesis.transactions = []) :
    Recorded crypto (blockHash crypto genesis) (newBlockChain crypto genesis td) := by
  refine ⟨(indexed_newBlockChain genesis td ground).sound, ?_, ?_⟩
  · intro block _ h entry other first
    exact absurd first (not_onPath_newBlockChain td empty)
  · intro h entry
    constructor
    · intro read
      simp [newBlockChain] at read
    · intro onPath
      exact absurd onPath (not_onPath_newBlockChain td empty)

theorem Recorded.writeTd (recorded : Recorded crypto origin bc) (fresh : Admissible crypto bc block)
    (td : Nat) : Recorded crypto origin (bc.writeTd crypto block td) :=
  ⟨recorded.sound.writeTd fresh td, recorded.noRepeats, recorded.entries⟩

theorem Recorded.side (recorded : Recorded crypto origin bc) (fresh : Admissible crypto bc block)
    (unrepeated : Unrepeated crypto bc block)
    (sound : Sound crypto origin (bc.writeBatch crypto block false)) :
    Recorded crypto origin (bc.writeBatch crypto block false) := by
  refine ⟨sound, NoRepeats.extend recorded.sound sound fresh rfl recorded.noRepeats unrepeated, ?_⟩
  intro h entry
  have path := recorded.sound.rooted_of_holds recorded.sound.current
  exact (recorded.entries h entry).trans (onPath_mono fresh rfl path).symm

theorem Recorded.switch (recorded : Recorded crypto origin bc) (fresh : Admissible crypto bc block)
    (unrepeated : Unrepeated crypto bc block)
    {oldChain newChain : List Block} {oldBase newBase : Block}
    (change : Switched crypto bc next block oldChain newChain oldBase newBase)
    (sound : Sound crypto origin next) : Recorded crypto origin next := by
  have noRepeats := NoRepeats.extend recorded.sound sound fresh change.blocks recorded.noRepeats
    unrepeated
  have held : Holds crypto next block := holds_self change.blocks
  have once := noRepeats block held
  have branch := branch_mono fresh change.blocks change.newBranch (le_refl _)
  refine ⟨sound, noRepeats, ?_⟩
  intro h entry
  rw [change.currentBlock]
  -- the path below the fork is that of either head, before and after
  have base : OnPath crypto next newBase h entry ↔ OnPath crypto bc oldBase h entry := by
    have bottom := holds_bottom recorded.sound change.oldBranch recorded.sound.current
    rw [← onPath_mono fresh change.blocks (recorded.sound.rooted_of_holds bottom)]
    unfold OnPath
    rw [change.sameHash, change.sameNumber]
  have path : OnPath crypto next block h entry ↔
      (∃ other ∈ newChain, Located crypto other h entry) ∨ OnPath crypto bc oldBase h entry :=
    (onPath_branch sound branch held).trans (or_congr Iff.rfl base)
  have notOld : OnPath crypto bc oldBase h entry → ∀ old ∈ oldChain, h ∉ txHashes crypto old :=
    absent_of_onPath recorded.sound change.oldBranch recorded.sound.current
      (recorded.noRepeats _ recorded.sound.current)
  have notNew : OnPath crypto bc oldBase h entry → ∀ new ∈ newChain, h ∉ txHashes crypto new :=
    fun below => absent_of_onPath sound branch held once (base.mpr below)
  rcases change.lookups with reorganised | ⟨rfl, rfl, extended⟩
  · have dropped : (dropLookups crypto oldChain newChain
        (lookupsBranch crypto bc.lookups newChain))[h]? = some entry ↔
          OnPath crypto next block h entry := by
      rw [getElem?_dropLookups, path]
      split
      · rename_i gone
        constructor
        · intro impossible
          cases impossible
        · rintro (⟨other, member, located⟩ | below)
          · exact absurd located.mem (gone.2 other member)
          · obtain ⟨old, member, inOld⟩ := gone.1
            exact absurd inOld (notOld below old member)
      · rename_i kept
        rw [getElem?_lookupsBranch sound branch held once, recorded.entries,
          onPath_branch recorded.sound change.oldBranch recorded.sound.current]
        constructor
        · rintro (located | ⟨absent, ⟨old, member, located⟩ | below⟩)
          · exact .inl located
          · exact absurd ⟨⟨old, member, located.mem⟩, absent⟩ kept
          · exact .inr below
        · rintro (located | below)
          · exact .inl located
          · exact .inr ⟨notNew below, .inr below⟩
    rw [reorganised, getElem?_writeTxLookupEntries _ (once.nodup held), dropped]
    exact once.located_or_iff held
  · rw [extended, getElem?_writeTxLookupEntries _ (once.nodup held), recorded.entries, path,
      onPath_branch recorded.sound change.oldBranch recorded.sound.current]
    simp only [List.not_mem_nil, false_and, exists_false, false_or, List.mem_singleton,
      exists_eq_left]
    constructor
    · rintro (located | ⟨_, below⟩)
      · exact .inl located
      · exact .inr below
    · rintro (located | below)
      · exact .inl located
      · exact .inr ⟨notNew below block (List.mem_singleton_self block), below⟩

theorem Recorded.writeBlockWithState (recorded : Recorded crypto origin bc) (fresh : Admissible crypto bc block)
    (unrepeated : Unrepeated crypto bc block) (outcome : StateOutcome) (coin : Bool) :
    Recorded crypto origin (bc.writeBlockWithState crypto block outcome coin).1 := by
  have result := recorded.sound.outcome fresh outcome coin
  have sound := recorded.sound.of_outcome fresh result
  generalize (bc.writeBlockWithState crypto block outcome coin).1 = next at result sound
  cases result with
  | failed td => exact recorded.writeTd fresh td
  | side td => exact (recorded.writeTd fresh td).side (fresh.writeTd td) unrepeated sound
  | switched td change =>
    exact (recorded.writeTd fresh td).switch (fresh.writeTd td) unrepeated change sound

/-- While no call puts a transaction on a chain twice, a transaction hash has a lookup entry
exactly if the transaction is on the chain of the head, and the entry names the block, its
number and the position in it. -/
theorem lookup_iff_on_chain {genesis : Block} {td : Nat} {s : Tracked}
    (empty : genesis.transactions = [])
    (reached : Reachable (ChainIndex.system crypto genesis td)
      (fun s call => Unrepeated crypto s.chain call.block) s)
    (h : Hash) (entry : TxLookupEntry) :
    s.chain.lookups[h]? = some entry ↔ OnPath crypto s.chain s.chain.currentBlock h entry := by
  have recorded : Recorded crypto (blockHash crypto genesis) s.chain := by
    apply reached.invariant (fun s => Recorded crypto (blockHash crypto genesis) s.chain)
    · rintro s ⟨rfl, ground⟩
      exact recorded_newBlockChain genesis td ground empty
    · intro s call recorded enabled unrepeated
      exact recorded.writeBlockWithState enabled.1 unrepeated call.outcome call.coin
  exact recorded.entries h entry

/-- On a genesis block without transactions a block repeats none if its own differ. -/
theorem unrepeated_newBlockChain {genesis : Block} (td : Nat) (empty : genesis.transactions = [])
    (distinct : (txHashes crypto block).Nodup) :
    Unrepeated crypto (newBlockChain crypto genesis td) block := by
  rintro parent _ h entry other (first | first) (second | second)
  · have within := (List.getElem?_eq_some_iff.mp first.position).1
    have position := (List.getElem?_inj within distinct).mp
      (first.position.trans second.position.symm)
    exact TxLookupEntry.ext (first.hash.trans second.hash.symm)
      (first.number.trans second.number.symm) position
  · exact absurd second (not_onPath_newBlockChain td empty)
  · exact absurd first (not_onPath_newBlockChain td empty)
  · exact absurd first (not_onPath_newBlockChain td empty)

end

def payment : TxData where
  txType := .binary
  accountNonce := 0
  price := 0
  gasLimit := 21000
  recipient := some zeroAddress
  amount := 1
  subId := none
  payload := []
  v := 27
  r := 1
  s := 1

def paymentBlock : Block := forkBlock forkFirst [payment]

theorem lookup_iff_on_chain_payment :
    OnPath plainCrypto (forkRuns.next forkRootState (writeCall paymentBlock)).chain
      (forkRuns.next forkRootState (writeCall paymentBlock)).chain.currentBlock
      (txHash plainCrypto payment) ⟨blockHash plainCrypto paymentBlock, 1, 0⟩ := by
  have initial : forkRuns.init forkRootState := ⟨rfl, rfl⟩
  have unrepeated : Unrepeated plainCrypto forkRootState.chain paymentBlock :=
    unrepeated_newBlockChain 1 rfl (by decide +kernel)
  have reached : Reachable forkRuns (fun s call => Unrepeated plainCrypto s.chain call.block)
      (forkRuns.next forkRootState (writeCall paymentBlock)) :=
    .step _ (.init initial) (by decide +kernel) unrepeated
  exact (lookup_iff_on_chain rfl reached _ _).mp (by decide +kernel)

end Linkeye.Core.LookupIndex
