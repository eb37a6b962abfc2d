import Linkeye.Dpos.Seals
import Linkeye.Miner.Worker

/-!
# Importing a block

What `insertChain` of `core/blockchain.go` asks of a block before it is written,
for the engines `dpos` and `poa`: the header, `ValidateBody`, `Process`,
`ValidateState`, `ValidateDposState` and the seal.  `JudgeTx` is beside it, as the
miner calls it.
-/

set_option autoImplicit false

namespace Linkeye.Consensus.Import

open Std Common.Types Execution Fields TrieDatabase Core.ApplyTransaction Core.Blocks Core.Dpos
open Core.Journaling
open Core.StateTransition (ChainConfig Contract TxError TxMessage)
open Core.Transaction
open Dbft.Headers (RootOf num newDposContextFromProto)
open Dpos.Seals (SealEngine)
open Miner.Worker
open Poa.Headers (sub64)

/-! ## The engines -/

inductive ChainEngine where
  | dpos (e : SealEngine) (node : Dpos.Seals.Node)
  | poa (e : Poa.Snapshots.Engine) (rootOf : RootOf) (node : Poa.Headers.Node)

namespace ChainEngine

def params : ChainEngine → Dbft.Headers.Engine
  | dpos e _ => ⟨e.crypto, e.rootOf, e.epoch, e.epoch_pos, e.period, .roundRobin, e.now⟩
  | poa e rootOf _ => ⟨e.crypto, rootOf, e.epoch, e.epoch_pos, e.period, .roundRobin, e.now⟩

def chain : ChainEngine → Chain
  | dpos _ node => node.chain
  | poa _ _ node => node.chain

def mining : ChainEngine → MiningEngine
  | dpos _ _ => .staking .dpos
  | poa _ _ _ => .poa

def verifyHeader : ChainEngine → Header → List Header → Except HeaderError Unit
  | dpos e node, h, parents => Dpos.Headers.verifyHeader e.toEngine node.chain h parents
  | poa e _ node, h, parents => (Poa.Headers.verifyHeader e node h parents).2

/-- `Author`, with the error that `NewEVMContext` ignores. -/
def author : ChainEngine → Header → Address
  | dpos e _, h => (Dpos.Headers.ecrecover e.toEngine h).toOption.getD zeroAddress
  | poa e _ _, h => (Poa.Snapshots.ecrecover e h).toOption.getD zeroAddress

end ChainEngine

/-! ## The chain -/

/-- The rules that make a header the environment of its transactions. -/
structure Rules where
  config : ChainConfig
  byzantiumBlock : Option Nat
  dao : DaoFork
  precompiled : Header → Address → Bool
  run : Header → Address → TxMessage → Contract → Program Frame
  gas_le : ∀ h author msg contract s, (runs (run h author msg contract) s).2.gas ≤ contract.gas
  stateRoot : ExtTreeMap Address Account → Hash
  txHash : TxData → Hash
  deriveTxs : List TxData → Hash
  deriveReceipts : List Receipt → Hash
  createBloom : List Receipt → FixedBytes 256

/-- `states` holds the account tries that can be opened, by their root. -/
structure BlockChain where
  engine : ChainEngine
  rules : Rules
  layers : Layers engine.params.rootOf
  states : Hash → Option (ExtTreeMap Address Account)

inductive ImportError where
  | header (err : HeaderError)
  | errKnownBlock
  | errUnknownAncestor
  | errPrunedAncestor
  | errUncleNotAllowed
  | uncleHash
  | txHash
  | missingContext
  | missingState
  | process (err : TxError)
  | finalizeEnds
  | gasUsed
  | bloom
  | receiptHash
  | stateRoot
  | dposRoot (remote own : Hash)
  | sealed (err : Dpos.Seals.SealError)

structure Imported where
  parent : Header
  trie : ExtTreeMap Address Account
  opened : DposContext
  ran : Processed
  fin : Finalized

namespace BlockChain

section
variable (bc : BlockChain)

def getHeader (hash : Hash) (number : Nat) : Option Header :=
  Fields.getHeader bc.engine.params.crypto bc.engine.chain hash number

def hasBlock (hash : Hash) (number : Nat) : Bool := (bc.getHeader hash number).isSome

def hasBlockAndState (hash : Hash) (number : Nat) : Bool :=
  (bc.getHeader hash number).any fun h => (bc.states h.root).isSome

def blockEnv (h : Header) (coinbase : Address) : BlockEnv where
  crypto := bc.engine.params.crypto
  config := bc.rules.config
  byzantiumBlock := bc.rules.byzantiumBlock
  number := h.number
  gasLimit := h.gasLimit.toNat
  coinbase := coinbase
  precompiled := bc.rules.precompiled h
  run := bc.rules.run h coinbase
  gas_le := bc.rules.gas_le h coinbase
  stateRoot := bc.rules.stateRoot
  txHash := bc.rules.txHash
  dao := bc.rules.dao

end

/-! ## The checks -/

section
variable (bc : BlockChain) (b : Block)

def validateBody : Except ImportError Unit :=
  let parentNumber := sub64 (num b.header) 1
  if bc.hasBlockAndState (b.header.hash bc.engine.params.crypto) (num b.header) = true then
    .error .errKnownBlock
  else if bc.hasBlockAndState b.header.parentHash parentNumber = false then
    .error (if bc.hasBlock b.header.parentHash parentNumber = false then .errUnknownAncestor
      else .errPrunedAncestor)
  else if b.uncles ≠ [] then .error .errUncleNotAllowed
  else if rlpHash bc.engine.params.crypto (.list (b.uncles.map Header.encodeRLP)) ≠
      b.header.uncleHash then .error .uncleHash
  else if bc.rules.deriveTxs b.transactions ≠ b.header.txHash then .error .txHash
  else .ok ()

/-- `ValidateState`, on the state that `Process` has finalised. -/
def validateState (env : BlockEnv) (finalised : StateDB) (receipts : List Receipt)
    (usedGas : Nat) : Except ImportError Unit :=
  if b.header.gasUsed.toNat ≠ usedGas then .error .gasUsed
  else if bc.rules.createBloom receipts ≠ b.header.bloom then .error .bloom
  else if bc.rules.deriveReceipts receipts ≠ b.header.receiptHash then .error .receiptHash
  else if b.header.root ≠ env.stateRoot (finalised.finalise env.isEIP158).trie then
    .error .stateRoot
  else .ok ()

/-- The seal, which is looked at once more for `dpos` only. -/
def verifySealed (h : Header) : Except Dpos.Seals.SealError Unit :=
  match bc.engine, bc.layers with
  | .dpos e node, layers => (Dpos.Seals.verifySeal e (Layers.disk layers) node h []).2
  | .poa _ _ _, _ => .ok ()

/-- The block of `insertChain` up to the point where it is written.  The header is
verified beside the import, on the chain as it was `early`, with the headers of
the same batch before it. -/
def insertBlock (early : BlockChain) (parents : List Header) {other : DposContext}
    (choices : Choices other) : Except ImportError Imported :=
  match early.engine.verifyHeader b.header parents, bc.validateBody b with
  | .error err, _ => .error (.header err)
  | .ok _, .error err => .error err
  | .ok _, .ok _ =>
    match bc.getHeader b.header.parentHash (sub64 (num b.header) 1) with
    | none => .error .errUnknownAncestor
    | some parent =>
      match newDposContextFromProto bc.engine.params.rootOf bc.layers.disk parent.dposContext,
          bc.states parent.root with
      | none, _ => .error .missingContext
      | some _, none => .error .missingState
      | some opened, some trie =>
        let env := bc.blockEnv b.header (bc.engine.author b.header)
        match processAll env b.transactions (startProcess env trie opened) with
        | .error err => .error (.process err)
        | .ok ran =>
          match finalizeBlock env bc.engine.mining bc.engine.params bc.engine.chain
              b.header choices bc.layers ran.dc ran.state with
          | none => .error .finalizeEnds
          | some (fin, _) =>
            match bc.validateState b env (ran.state.finalise env.isEIP158) ran.receipts
                ran.usedGas, validateDposState bc.engine.params fin.dc b.header,
                bc.verifySealed b.header with
            | .error err, _, _ => .error err
            | .ok _, .error (remote, own), _ => .error (.dposRoot remote own)
            | .ok _, .ok _, .error err => .error (.sealed err)
            | .ok _, .ok _, .ok _ => .ok ⟨parent, trie, opened, ran, fin⟩

end

/-! ## JudgeTx -/

inductive JudgeError where
  | errUnknownAncestor
  | lookup
  | errUnauthorized
deriving DecidableEq

section
variable (bc : BlockChain)

def signersOf (h : Header) : Except JudgeError (ExtTreeMap Address Unit) :=
  match bc.engine, bc.layers with
  | .dpos e node, layers =>
    match Fields.getHeader e.crypto node.chain h.parentHash (sub64 (num h) 1) with
    | none => .error .errUnknownAncestor
    | some parent =>
      match (Dpos.Seals.epochContext e (Layers.disk layers) node (sub64 (num h) 1) h.parentHash
          parent).2 with
      | .error _ => .error .lookup
      | .ok context => .ok context.signers
  | .poa e _ node, _ =>
    match (Poa.Headers.snapshot e node (sub64 (num h) 1) h.parentHash []).2 with
    | .error _ => .error .lookup
    | .ok snap => .ok snap.signers

/-- `JudgeTx`; the lookups are repeated with the same answer for each transaction. -/
def judgeTx (h : Header) (tx : TxData) (from_ : Address) : Except JudgeError Unit :=
  match bc.signersOf h with
  | .error err => .error err
  | .ok signers =>
    if tx.recipient = none ∧ from_ ∉ signers then .error .errUnauthorized else .ok ()

def minerOf (h : Header) : MinerEnv where
  env := bc.blockEnv h (bc.engine.author h)
  judge tx from_ := (bc.judgeTx h tx from_).isOk

end

end BlockChain

end Linkeye.Consensus.Import
