import Linkeye.Consensus.Execution

/-!
# The tries of an accepted block

`WriteBlockWithState` of `core/blockchain.go` opens the DPoS context of a block
from the disk before it commits it.  So it succeeds only where the tries are on
the disk already: after `Finalize` of the engine `dbft`, or if nothing in them
is new.
-/

set_option autoImplicit false

namespace Linkeye.Consensus.Durability

open Common.Types Common.Signature Execution
open Fields (Chain)
open TrieDatabase Core.Blocks Core.Dpos Core.Genesis Core.StateProcessor Core.StateTransition
open Core.Transaction Dbft.Availability Dbft.Election Dbft.Headers Lib.Addressed

/-! ## Writing a block -/

/-- The writes that can fail besides the opening of the context. -/
inductive WriteStep where
  | writeTd
  | writeBlock
  | stateCommit
  | dposCommit
  | trieCommit
  | writeBlockReceipts
  | reorg
  | writeTxLookupEntries
  | writePreimages
  | batchWrite
deriving DecidableEq

inductive WriteError where
  | errUnknownAncestor
  | missingNode
  | storage (step : WriteStep)
deriving DecidableEq

inductive WriteStatus where
  | canonStatTy
  | sideStatTy
deriving DecidableEq

/-- What a block meets: the total difficulties of its parent and of the current
block, an archive node or not, a coin for blocks of equal rank, and the writes
that fail. -/
structure Storage where
  ptd : Option Int
  localTd : Int
  currentBlock : Header
  disabled : Bool
  coin : Bool
  fails : WriteStep → Bool

namespace Storage

def attempt (io : Storage) (step : WriteStep) : Except WriteError Unit :=
  if io.fails step = true then .error (.storage step) else .ok ()

/-- The part before the tries; returns the total difficulty of the block. -/
def prepare (io : Storage) (h : Header) : Except WriteError Int :=
  match io.ptd with
  | none => .error .errUnknownAncestor
  | some ptd => do
      io.attempt .writeTd
      io.attempt .writeBlock
      io.attempt .stateCommit
      return h.difficulty + ptd

def reorgs (io : Storage) (h : Header) (externTd : Int) : Bool :=
  decide (io.localTd < externTd) ||
    (decide (externTd = io.localTd) &&
      (decide (num h < num io.currentBlock) ||
        (decide (num h = num io.currentBlock) && io.coin)))

/-- The part after the tries.  What only the memory of the node cache is about is
left out. -/
def conclude (io : Storage) (crypto : Crypto) (h : Header) (externTd : Int) :
    Except WriteError WriteStatus := do
  if io.disabled then io.attempt .trieCommit
  io.attempt .writeBlockReceipts
  if io.reorgs h externTd then
    if h.parentHash ≠ io.currentBlock.hash crypto then io.attempt .reorg
    io.attempt .writeTxLookupEntries
    io.attempt .writePreimages
  io.attempt .batchWrite
  return if io.reorgs h externTd then .canonStatTy else .sideStatTy

end Storage

/-- `WriteBlockWithState`, with the trie database as it is left behind. -/
def writeBlockWithState (e : Engine) (io : Storage) (db : Layers e.rootOf) (h : Header) :
    Layers e.rootOf × Except WriteError WriteStatus :=
  match io.prepare h with
  | .error err => (db, .error err)
  | .ok externTd =>
    match newDposContextFromProto e.rootOf db.disk h.dposContext with
    | none => (db, .error .missingNode)
    | some dc =>
      match io.attempt .dposCommit with
      | .error err => (db, .error err)
      | .ok () => (db.commitTo (Marks.clean dc), io.conclude e.crypto h externTd)

structure Storage.Works (io : Storage) : Prop where
  parent : io.ptd ≠ none
  writes : ∀ step, io.fails step = false

section
variable {e : Engine} {io : Storage} {db : Layers e.rootOf} {h : Header}

theorem Storage.Works.attempt (works : io.Works) (step : WriteStep) :
    io.attempt step = .ok () := by
  rw [Storage.attempt, works.writes, if_neg Bool.false_ne_true]

theorem Storage.Works.prepare (works : io.Works) (h : Header) :
    ∃ externTd, io.prepare h = .ok externTd := by
  obtain ⟨ptd, known⟩ := Option.ne_none_iff_exists'.mp works.parent
  refine ⟨h.difficulty + ptd, ?_⟩
  rw [Storage.prepare, known]
  simp only [works.attempt]
  rfl

theorem Storage.Works.conclude (works : io.Works) (crypto : Crypto) (h : Header)
    (externTd : Int) : ∃ status, io.conclude crypto h externTd = .ok status := by
  refine ⟨if io.reorgs h externTd then .canonStatTy else .sideStatTy, ?_⟩
  rw [Storage.conclude]
  simp only [works.attempt]
  split_ifs <;> rfl

theorem opened_of_written {status : WriteStatus}
    (written : (writeBlockWithState e io db h).2 = .ok status) :
    newDposContextFromProto e.rootOf db.disk h.dposContext ≠ none := by
  intro missing
  rw [writeBlockWithState, missing] at written
  split at written
  · cases written
  · cases written

end

/-! ## Durable tries -/

structure Durable (e : Engine) (io : Storage) (db : Layers e.rootOf) (h : Header)
    (dc : DposContext) : Prop where
  written : ∃ status, (writeBlockWithState e io db h).2 = .ok status
  opened : newDposContextFromProto e.rootOf (Layers.disk (writeBlockWithState e io db h).1)
    h.dposContext = some dc

def Stored (rootOf : RootOf) (disk : TrieDB) (p : DposContextProto) : Prop :=
  ∀ kind, openTrie rootOf disk kind (rootIn p kind) ≠ none

/-- Hashes do not collide: those of the tries, and those of the five roots. -/
structure NoClash (e : Engine) (db : Layers e.rootOf) (dc : DposContext) (h : Header) : Prop where
  tries : OwnRoots e db dc
  roots : h.dposContext.root e.crypto = (toProto e.rootOf dc).root e.crypto →
    h.dposContext = toProto e.rootOf dc

theorem stored_iff {rootOf : RootOf} {disk : TrieDB} {p : DposContextProto} :
    Stored rootOf disk p ↔ newDposContextFromProto rootOf disk p ≠ none := by
  rw [Option.ne_none_iff_exists']
  constructor
  · intro stored
    obtain ⟨epoch, epochOpened⟩ := Option.ne_none_iff_exists'.mp (stored .epoch)
    obtain ⟨delegate, delegateOpened⟩ := Option.ne_none_iff_exists'.mp (stored .delegate)
    obtain ⟨candidate, candidateOpened⟩ := Option.ne_none_iff_exists'.mp (stored .candidate)
    obtain ⟨vote, voteOpened⟩ := Option.ne_none_iff_exists'.mp (stored .vote)
    obtain ⟨mintCnt, mintCntOpened⟩ := Option.ne_none_iff_exists'.mp (stored .mintCnt)
    refine ⟨⟨epoch, delegate, vote, candidate, mintCnt⟩, ?_⟩
    rw [newDposContextFromProto_eq_some_iff]
    intro kind
    cases kind with
    | epoch => exact epochOpened
    | delegate => exact delegateOpened
    | candidate => exact candidateOpened
    | vote => exact voteOpened
    | mintCnt => exact mintCntOpened
  · rintro ⟨dc, opened⟩ kind
    rw [newDposContextFromProto_eq_some_iff.mp opened kind]
    exact Option.some_ne_none _

section
variable {e : Engine} {io : Storage} {db : Layers e.rootOf} {h : Header} {dc : DposContext}

/-- A context that can be opened already stays when it is committed again. -/
theorem durable_of_opened (works : io.Works) (own : OwnRoots e db dc)
    (named : h.dposContext = toProto e.rootOf dc)
    (opened : newDposContextFromProto e.rootOf db.disk h.dposContext = some dc) :
    Durable e io db h dc := by
  obtain ⟨externTd, prepared⟩ := works.prepare h
  obtain ⟨status, concluded⟩ := works.conclude e.crypto h externTd
  have written : writeBlockWithState e io db h = (db.commitTo (Marks.clean dc), .ok status) := by
    simp only [writeBlockWithState, prepared, opened, works.attempt, concluded]
  refine ⟨⟨status, congrArg Prod.snd written⟩, ?_⟩
  rw [written, named]
  exact fromProto_committed own (Marks.clean dc) opened

theorem roots_of_valid {remote : Header} (valid : validateDposState e dc remote = .ok ())
    (clash : NoClash e db dc remote) : remote.dposContext = toProto e.rootOf dc := by
  apply clash.roots
  by_contra different
  rw [validateDposState, if_pos different] at valid
  cases valid

end

theorem process_eq_ok {p : Processor} {chain : Chain} {b : Incoming} {opened : DposContext}
    {choices : Choices opened} {db : Layers p.params.rootOf} {w : World}
    {executed : Executed p.params.rootOf}
    (processed : p.process chain b choices db w = .ok executed) :
    ∃ outcome, finalize p.engine p.params chain b.header choices db executed.ran.dc
      executed.ran.world.statedb = some (executed.backed, outcome) := by
  rw [Processor.process] at processed
  split at processed
  · cases processed
  · split at processed
    · cases processed
    · rename_i backed outcome final
      cases processed
      exact ⟨outcome, final⟩

/-- The DPoS state of a block that was executed and checked is durable exactly if
`Finalize` of the engine `dbft` came to its end, or the disk held the tries before. -/
theorem dpos_state_durable_iff {p : Processor} {chain : Chain} {b : Incoming} {parent : Header}
    {opened : DposContext} {choices : Choices opened} {db : Layers p.params.rootOf} {w : World}
    {executed : Executed p.params.rootOf} {io : Storage}
    (onDisk : newDposContextFromProto p.params.rootOf db.disk parent.dposContext = some opened)
    (processed : p.process chain b choices db w = .ok executed)
    (valid : validateDposState p.params executed.backed.dc b.header = .ok ())
    (works : io.Works) (clash : NoClash p.params db executed.backed.dc b.header) :
    Durable p.params io executed.backed.db b.header executed.backed.dc ↔
      (p.engine = .dbft ∧
        Completes p.params chain b.header executed.ran.dc executed.ran.world.statedb) ∨
      Stored p.params.rootOf db.disk b.header.dposContext := by
  have named := roots_of_valid valid clash
  obtain ⟨outcome, final⟩ := process_eq_ok processed
  rcases finalize_cases final with ⟨dbft, complete, committed⟩ | ⟨incomplete, kept⟩
  · -- The tries went to the disk before the block is written.
    rw [committed]
    refine iff_of_true ?_ (.inl ⟨dbft, complete⟩)
    apply durable_of_opened works (clash.tries.commitTo _) named
    rw [named]
    exact fromProto_committed clash.tries _ onDisk
  · rw [kept, or_iff_right incomplete, stored_iff]
    constructor
    · rintro ⟨⟨status, written⟩, _⟩
      exact opened_of_written written
    · intro stored
      obtain ⟨after, read⟩ := Option.ne_none_iff_exists'.mp stored
      have same : after = executed.backed.dc := by
        rw [named] at read
        exact eq_of_fromProto clash.tries read
      rw [same] at read
      exact durable_of_opened works clash.tries named read

/-! ### First blocks -/

def firstValidator : Address := bytesToAddress [1]

def genesisContext : DposContext :=
  initGenesisDposContext ⟨some [firstValidator], some [firstValidator]⟩

def genesisHeader : Header :=
  { draftHeader 0 zeroAddress (FixedBytes.zero 32) with
    dposContext := toProto plainRoot genesisContext }

def genesisChain : Chain := ⟨genesisHeader, [], rfl⟩

def genesisLayers : Layers plainRoot :=
  Layers.commitTo (fun _ => Store.empty) (Marks.changed newDposContext genesisContext)

def idleVm : Interpreter where
  run w contract := ⟨w, [], contract.gas, none, []⟩
  gas_le _ _ := le_refl _
  precompiled _ := false

def processorOf (engine : StakingEngine) : Processor :=
  ⟨engine, twoBlockEpochs, ⟨1, some 0, none, none, engine == .dpos, engine == .dbft⟩, idleVm⟩

def newcomer : Address := bytesToAddress [5]

def richNewcomer : World where
  statedb := ⟨(∅ : Std.ExtTreeMap Address Int).insert newcomer (10 ^ 20 + 21000), []⟩
  nonces := ∅
  codes := ∅
  refund := 0

def newcomerLogin : TxData where
  txType := .loginCandidate
  accountNonce := 0
  price := 1
  gasLimit := 21000
  recipient := some newcomer
  amount := 0
  subId := none
  payload := []
  v := 27
  r := 1
  s := 5

def plainChoices (opened : DposContext) : Choices opened :=
  ⟨inKeyOrder, inKeyOrder, Marks.changed opened⟩

def firstDraft (transactions : List TxData) : Incoming where
  header :=
    { draftHeader 1 firstValidator (genesisHeader.hash plainCrypto) with
      coinbase := firstValidator
      gasLimit := 21000 }
  transactions := transactions
  author := firstValidator

def firstBlock (engine : StakingEngine) (transactions : List TxData) : Incoming :=
  let draft := firstDraft transactions
  match (processorOf engine).process genesisChain draft (plainChoices genesisContext) genesisLayers
      richNewcomer with
  | .error _ => draft
  | .ok executed =>
    { draft with
      header := { draft.header with dposContext := toProto plainRoot executed.backed.dc } }

def diskWorks : Storage where
  ptd := some 1
  localTd := 1
  currentBlock := genesisHeader
  disabled := false
  coin := false
  fails _ := false

theorem diskWorks_works : diskWorks.Works := ⟨Option.some_ne_none 1, fun _ => rfl⟩

theorem genesis_onDisk : newDposContextFromProto plainRoot genesisLayers.disk
    genesisHeader.dposContext = some genesisContext := by
  rw [newDposContextFromProto_eq_some_iff]
  intro kind
  cases kind <;> decide +kernel

def executionCheck (engine : StakingEngine) (b : Incoming)
    (looked : Executed plainRoot → Bool) : Bool :=
  ((processorOf engine).process genesisChain b (plainChoices genesisContext) genesisLayers
    richNewcomer).toOption.any fun executed =>
      decide (validateDposState twoBlockEpochs executed.backed.dc b.header = .ok ()) &&
        looked executed

theorem executionCheck_sound {engine : StakingEngine} {b : Incoming}
    {looked : Executed plainRoot → Bool} (checked : executionCheck engine b looked = true) :
    ∃ executed, (processorOf engine).process genesisChain b (plainChoices genesisContext)
        genesisLayers richNewcomer = .ok executed ∧
      validateDposState twoBlockEpochs executed.backed.dc b.header = .ok () ∧
      looked executed = true := by
  rw [executionCheck] at checked
  cases outcome : (processorOf engine).process genesisChain b (plainChoices genesisContext)
      genesisLayers richNewcomer with
  | error err =>
    rw [outcome] at checked
    cases checked
  | ok executed =>
    rw [outcome] at checked
    obtain ⟨valid, seen⟩ := (Bool.and_eq_true _ _).mp checked
    exact ⟨executed, rfl, of_decide_eq_true valid, seen⟩

def noClashCheck (b : Incoming) (executed : Executed plainRoot) : Bool :=
  decide (b.header.dposContext = toProto plainRoot executed.backed.dc) &&
    trieKinds.all (fun kind =>
      ownRootCheck twoBlockEpochs genesisLayers.disk kind (trieOf executed.backed.dc kind)) &&
    trieKinds.all (fun kind => ownRootCheck twoBlockEpochs (fun kind => (genesisLayers kind).nodes)
      kind (trieOf executed.backed.dc kind))

theorem noClashCheck_sound {b : Incoming} {executed : Executed plainRoot}
    (checked : noClashCheck b executed = true) :
    NoClash twoBlockEpochs genesisLayers executed.backed.dc b.header := by
  simp only [noClashCheck, Bool.and_eq_true, decide_eq_true_eq] at checked
  obtain ⟨⟨named, disk⟩, nodes⟩ := checked
  exact ⟨fun kind => ⟨ownRoots_sound disk kind, ownRoots_sound nodes kind⟩, fun _ => named⟩

/-- A first block of `dbft` with a login in it. -/
theorem dpos_state_durable_login : ∃ executed,
    (processorOf .dbft).process genesisChain (firstBlock .dbft [newcomerLogin])
        (plainChoices genesisContext) genesisLayers richNewcomer = .ok executed ∧
      executed.backed.dc.IsCandidate newcomer ∧
      Durable twoBlockEpochs diskWorks executed.backed.db (firstBlock .dbft [newcomerLogin]).header
        executed.backed.dc := by
  have checked : executionCheck .dbft (firstBlock .dbft [newcomerLogin]) (fun executed =>
      noClashCheck (firstBlock .dbft [newcomerLogin]) executed &&
        (executed.backed.dc.candidateTrie.tryGet newcomer.data).isSome &&
        executed.ran.dc.getValidators.isSome) = true := by
    decide +kernel
  obtain ⟨executed, processed, valid, seen⟩ := executionCheck_sound checked
  simp only [Bool.and_eq_true, Option.isSome_iff_ne_none] at seen
  obtain ⟨⟨clash, candidate⟩, validators⟩ := seen
  refine ⟨executed, processed, candidate, ?_⟩
  apply (dpos_state_durable_iff genesis_onDisk processed valid diskWorks_works
    (noClashCheck_sound clash)).mpr
  refine .inl ⟨rfl, ?_, validators, ?_⟩
  · decide +kernel
  · intro due
    exact absurd due (by decide +kernel)

/-- A first block of `dpos` counts one block for its validator, and cannot be
written: the new trie of mint counts was never committed. -/
theorem first_dpos_block_not_written : ∃ executed,
    (processorOf .dpos).process genesisChain (firstBlock .dpos []) (plainChoices genesisContext)
        genesisLayers richNewcomer = .ok executed ∧
      validateDposState twoBlockEpochs executed.backed.dc (firstBlock .dpos []).header = .ok () ∧
      newDposContextFromProto plainRoot genesisLayers.disk genesisHeader.dposContext =
        some genesisContext ∧ diskWorks.Works ∧
      (writeBlockWithState twoBlockEpochs diskWorks executed.backed.db
        (firstBlock .dpos []).header).2 = .error .missingNode := by
  have checked : executionCheck .dpos (firstBlock .dpos []) (fun executed =>
      decide ((writeBlockWithState twoBlockEpochs diskWorks executed.backed.db
        (firstBlock .dpos []).header).2 = .error .missingNode)) = true := by
    decide +kernel
  obtain ⟨executed, processed, valid, refused⟩ := executionCheck_sound checked
  exact ⟨executed, processed, valid, genesis_onDisk, diskWorks_works, of_decide_eq_true refused⟩

end Linkeye.Consensus.Durability
