import Linkeye.Consensus.Execution
import Linkeye.Core.ApplyTransaction

/-!
# Assembling a block

The loop of `commitTransactionsMining` of `miner/worker.go`, and the two ways a
block's transactions are run: by the miner, which undoes what fails, and by
`Process`, which never sees it.
-/

set_option autoImplicit false

namespace Linkeye.Miner.Worker

open Std Common.Types Consensus.Execution
open Consensus.Fields (Chain)
open Consensus.TrieDatabase Core.ApplyTransaction Core.Blocks Core.Dpos Core.Journaling
open Core.Rewind
open Core.StateTransition (TxError)
open Core.Transaction Lib.Runs

/-! ## Pending transactions -/

/-- `TransactionsByPriceAndNonce`: the next transaction of each account, and the
later ones. -/
structure Pending where
  heads : List TxData
  txs : ExtTreeMap Address (List TxData)

/-- What a node that mines has: the environment of its block, the engine's verdict
on a transaction and its sender, and `env.signer`. -/
structure MinerEnv where
  env : BlockEnv
  judge : TxData → Address → Bool

def MinerEnv.signer (m : MinerEnv) : Signer := .eip155 m.env.config.chainId

def MinerEnv.from_ (m : MinerEnv) (tx : TxData) : Address :=
  match sender m.env.crypto m.signer tx with
  | .ok addr => addr
  | .error _ => zeroAddress

/-- The next transaction of the same account comes in the place of the head `i`. -/
def Pending.shift (m : MinerEnv) (p : Pending) (i : Nat) (tx : TxData) : Pending :=
  match p.txs.getD (m.from_ tx) [] with
  | [] => { p with heads := p.heads.eraseIdx i }
  | next :: rest => ⟨p.heads.set i next, p.txs.insert (m.from_ tx) rest⟩

def Pending.pop (p : Pending) (i : Nat) : Pending := { p with heads := p.heads.eraseIdx i }

/-! ## The loop -/

structure Work where
  pending : Pending
  state : StateDB
  dc : DposContext
  pool : Nat
  gasUsed : Nat
  tcount : Nat
  txs : List TxData
  receipts : List Receipt

def txGas : Nat := 21000

section
variable (m : MinerEnv)

/-- `commitTransaction`: what fails is undone, but for the gas pool. -/
def commitTransaction (w : Work) (tx : TxData) : Work × Option TxError :=
  let applied := applyTransaction m.env w.dc w.state w.pool w.gasUsed tx
  match applied.result with
  | .error err =>
    ({ w with
      state := applied.state.revertToSnapshot w.state.snapshot
      pool := applied.pool }, some err)
  | .ok receipt =>
    ({ w with
      state := applied.state
      dc := applied.dc
      pool := applied.pool
      gasUsed := receipt.cumulativeGasUsed
      txs := w.txs ++ [tx]
      receipts := w.receipts ++ [receipt] }, none)

def commitHead (w : Work) (i : Nat) : Work :=
  match w.pending.heads[i]? with
  | none => w
  | some tx =>
    if isProtectedV tx.v = true ∧ m.env.isEIP155 = false then
      { w with pending := w.pending.pop i }
    else if m.judge tx (m.from_ tx) = false then { w with pending := w.pending.pop i }
    else
      let prepared := { w with state := w.state.prepare (m.env.txHash tx) w.tcount }
      match commitTransaction m prepared tx with
      | (w, none) => { w with tcount := w.tcount + 1, pending := w.pending.shift m i tx }
      | (w, some .errGasLimitReached) => { w with pending := w.pending.pop i }
      | (w, some .errNonceTooHigh) => { w with pending := w.pending.pop i }
      | (w, some _) => { w with pending := w.pending.shift m i tx }

/-- The transaction of a round, run on the state of the work. -/
def attempt (w : Work) (tx : TxData) : Applied :=
  applyTransaction m.env w.dc (w.state.prepare (m.env.txHash tx) w.tcount) w.pool w.gasUsed tx

/-- A round skips a transaction, undoes a failed one, or takes one into the block. -/
theorem commitHead_cases (w : Work) (i : Nat) :
    (∃ pending, commitHead m w i = { w with pending := pending }) ∨
      (∃ tx err pending, (attempt m w tx).result = .error err ∧
        commitHead m w i =
          { w with
            pending := pending
            state := (attempt m w tx).state.revertToSnapshot
              (w.state.prepare (m.env.txHash tx) w.tcount).snapshot
            pool := (attempt m w tx).pool }) ∨
      ∃ tx receipt pending, m.judge tx (m.from_ tx) = true ∧
        (isProtectedV tx.v = true → m.env.isEIP155 = true) ∧
        (attempt m w tx).result = .ok receipt ∧
        commitHead m w i =
          ⟨pending, (attempt m w tx).state, (attempt m w tx).dc, (attempt m w tx).pool,
            receipt.cumulativeGasUsed, w.tcount + 1, w.txs ++ [tx], w.receipts ++ [receipt]⟩ := by
  rw [commitHead]
  cases w.pending.heads[i]? with
  | none => exact .inl ⟨w.pending, rfl⟩
  | some tx =>
    dsimp only
    by_cases early : isProtectedV tx.v = true ∧ m.env.isEIP155 = false
    · rw [if_pos early]
      exact .inl ⟨_, rfl⟩
    rw [if_neg early]
    by_cases refused : m.judge tx (m.from_ tx) = false
    · rw [if_pos refused]
      exact .inl ⟨_, rfl⟩
    rw [if_neg refused, commitTransaction]
    cases outcome : (attempt m w tx).result with
    | error err =>
      refine .inr (.inl ⟨tx, err, ?_⟩)
      have failed := outcome
      rw [attempt] at failed
      simp only [failed]
      cases err <;> exact ⟨_, outcome, rfl⟩
    | ok receipt =>
      refine .inr (.inr ⟨tx, receipt, w.pending.shift m i tx, ?_, ?_, outcome, ?_⟩)
      · exact Bool.eq_true_of_not_eq_false refused
      · intro isProtected
        by_contra absent
        exact early ⟨isProtected, Bool.eq_false_of_not_eq_true absent⟩
      · rw [attempt] at outcome
        simp only [outcome, attempt]

/-- The work at the start, over the contents of the parent's tries. -/
def startWork (pending : Pending) (trie : ExtTreeMap Address Account) (dc : DposContext) :
    Work :=
  ⟨pending, openState m.env trie, dc, m.env.gasLimit, 0, 0, [], []⟩

/-- The loop as a transition system; the label is the place of the head with the
best price, which the heap decides. -/
def mining (trie : ExtTreeMap Address Account) (dc : DposContext) : System Work Nat where
  init := fun w => ∃ pending, w = startWork m pending trie dc
  enabled := fun w i => txGas ≤ w.pool ∧ i < w.pending.heads.length
  next := commitHead m

section
variable {m} {p : Pending} {i : Nat}

end

/-- A transaction that does not get into the block leaves no mark on `ripemd`. -/
def Quiet (w : Work) (i : Nat) : Prop :=
  (commitHead m w i).txs = w.txs →
    count (commitHead m w i).state ripemd = count w.state ripemd

end

/-! ## Process -/

structure Processed where
  state : StateDB
  dc : DposContext
  pool : Nat
  usedGas : Nat
  receipts : List Receipt

section
variable (env : BlockEnv)

def processOne (r : Processed) (tx : TxData) : Except TxError Processed :=
  let applied := applyTransaction env r.dc (r.state.prepare (env.txHash tx) r.receipts.length)
    r.pool r.usedGas tx
  match applied.result with
  | .error err => .error err
  | .ok receipt =>
    .ok ⟨applied.state, applied.dc, applied.pool, receipt.cumulativeGasUsed,
      r.receipts ++ [receipt]⟩

def processAll : List TxData → Processed → Except TxError Processed
  | [], r => .ok r
  | tx :: rest, r =>
    match processOne env r tx with
    | .error err => .error err
    | .ok r => processAll rest r

def startProcess (trie : ExtTreeMap Address Account) (dc : DposContext) : Processed :=
  ⟨openState env trie, dc, env.gasLimit, 0, []⟩

end

/-! ## Finalize -/

def balances (s : StateDB) : Core.StateProcessor.StateDB :=
  ⟨(s.trie.keys ++ s.stateObjects.keys).foldl
    (fun found addr =>
      match lookup s addr with
      | none => found
      | some obj => found.insert addr obj.data.balance) ∅, []⟩

/-- The engines that mine. -/
inductive MiningEngine where
  | staking (engine : StakingEngine)
  | poa

/-- The header fields that `Finalize` fills in, with the context behind them. -/
structure Finalized where
  root : Hash
  dc : DposContext

/-- `Finalize` of an engine.  The error that `Process` ignores keeps a miner from
making a block. -/
def finalizeBlock (env : BlockEnv) (engine : MiningEngine) (params : Dbft.Headers.Engine)
    (chain : Chain) (h : Header) {opened : DposContext} (choices : Choices opened)
    (db : Layers params.rootOf) (dc : DposContext) (s : StateDB) :
    Option (Finalized × Except FinalizeError Unit) :=
  let finalised := s.finalise env.isEIP158
  let root := env.stateRoot finalised.trie
  match engine with
  | .poa => some (⟨root, dc⟩, .ok ())
  | .staking engine =>
    (finalize engine params chain h choices db dc (balances finalised)).map fun result =>
      (⟨root, result.1.dc⟩, result.2)

end Linkeye.Miner.Worker
