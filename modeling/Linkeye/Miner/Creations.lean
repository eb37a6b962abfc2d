import Linkeye.Consensus.Durability
import Linkeye.Consensus.Import

/-!
# Who may create a contract

`JudgeTx` keeps creations by accounts that are no signers out of the blocks of a
miner; nothing on the way of an import asks it.  So an imported block keeps the
rule exactly when the miner's loop could have assembled its transactions.
-/

set_option autoImplicit false

namespace Linkeye.Miner.Creations

open Common.Types Common.Signature Consensus.Durability Consensus.Execution
open Consensus.Heights (cliqueDraft dposEngine genesisDraft vanity)
open Consensus.Import Core.ApplyTransaction Core.Blocks Core.Dpos Core.Journaling
open Core.StateTransition (TxMessage asMessage intrinsicGas makeSigner)
open Core.Transaction
open Dbft.Availability (plainRoot)
open Dbft.Headers (toProto)
open Lib.Programs Lib.Runs Worker

/-! ## Senders -/

section
variable {crypto : Crypto} {hash : Hash} {r s v : Int} {homestead : Bool} {a : Address}

/-- Without a chain id a recovered signature has one of two values of `V`. -/
theorem unprotected_of_recoverPlain (recovered : recoverPlain crypto hash r s v homestead = .ok a) :
    isProtectedV v = false := by
  rw [recoverPlain] at recovered
  split at recovered
  · cases recovered
  dsimp only at recovered
  split at recovered
  · rename_i valid
    rw [validateSignatureValues] at valid
    split at valid
    · cases valid
    split at valid
    · cases valid
    have values := (of_decide_eq_true valid).2.2
    have low : v.natAbs % 2 ^ 64 = v.natAbs := Nat.mod_eq_of_lt (by omega)
    have kept : (UInt8.ofNat (bigUint64 v)).toNat = v.natAbs := by
      rw [bigUint64, low, UInt8.toNat_ofNat', Nat.mod_eq_of_lt (by omega)]
    have either : v.natAbs = 27 ∨ v.natAbs = 28 := by
      rw [← kept]
      rcases values with zero | one
      · exact .inl (congrArg UInt8.toNat (UInt8.sub_eq_iff_eq_add.mp zero))
      · exact .inr (congrArg UInt8.toNat (UInt8.sub_eq_iff_eq_add.mp one))
    rw [isProtectedV, if_pos (by omega), bigUint64, low]
    simp only [decide_eq_false_iff_not]
    omega
  · cases recovered

variable {m : MinerEnv} {tx : TxData}

/-- What `Process` recovers a sender of is not set aside as protected too early. -/
theorem eip155_of_sender
    (recovered : sender m.env.crypto (makeSigner m.env.config m.env.number) tx = .ok a) :
    ¬ (isProtectedV tx.v = true ∧ m.env.isEIP155 = false) := by
  rintro ⟨isProtected, early⟩
  rw [BlockEnv.isEIP155] at early
  rw [makeSigner, early, if_neg Bool.false_ne_true] at recovered
  split at recovered
  · rw [sender] at recovered
    rw [unprotected_of_recoverPlain recovered] at isProtected
    cases isProtected
  · rw [sender] at recovered
    rw [unprotected_of_recoverPlain recovered] at isProtected
    cases isProtected

theorem from_eq_sender (homestead : m.env.isHomestead = true)
    (recovered : sender m.env.crypto (makeSigner m.env.config m.env.number) tx = .ok a) :
    m.from_ tx = a := by
  have same : sender m.env.crypto m.signer tx = .ok a := by
    rw [BlockEnv.isHomestead] at homestead
    rw [makeSigner] at recovered
    by_cases late : m.env.config.isEIP155 m.env.number = true
    · rw [if_pos late] at recovered
      exact recovered
    · rw [if_neg late, if_pos homestead, sender] at recovered
      rw [MinerEnv.signer, sender, unprotected_of_recoverPlain recovered,
        if_neg Bool.false_ne_true]
      exact recovered
  rw [MinerEnv.from_, same]

end

/-! ## Transactions that pass -/

variable {msg : TxMessage} {done : Transition} {w : Work} {r' : Processed}

section
variable {env : BlockEnv} {dc : DposContext} {s : StateDB} {pool usedGas : Nat} {tx : TxData}

theorem txGas_le_intrinsicGas {data : Bytes} {creation homestead : Bool} {gas : Nat}
    (charged : intrinsicGas data creation homestead = some gas) : txGas ≤ gas := by
  rw [intrinsicGas] at charged
  have least : txGas ≤ if creation = true ∧ homestead = true then 53000 else 21000 := by
    rw [txGas]
    split <;> omega
  generalize (if creation = true ∧ homestead = true then 53000 else 21000) = base at charged least
  dsimp only at charged
  split at charged
  · cases charged
  split at charged
  · cases charged
  cases charged
  omega

theorem txGas_le_of_runMessage {left : Nat}
    (passed : (runs (runMessage env msg left) s).2.2 = .ok done) : txGas ≤ msg.gas := by
  rw [runMessage] at passed
  cases charged : intrinsicGas msg.data msg.recipient.isNone env.isHomestead with
  | none =>
    rw [charged] at passed
    cases passed
  | some gas =>
    rw [charged] at passed
    dsimp only at passed
    by_cases low : msg.gas < gas
    · rw [if_pos low] at passed
      cases passed
    · exact le_trans (txGas_le_intrinsicGas charged) (Nat.le_of_not_lt low)

theorem gas_of_transitionDb (passed : (runs (transitionDb env msg pool) s).2.2 = .ok done) :
    txGas ≤ msg.gas ∧ msg.gas ≤ pool := by
  rw [transitionDb] at passed
  simp only [runs, Prog.run_bind] at passed
  split at passed
  · cases passed
  split at passed
  · cases passed
  simp only [Prog.run_bind] at passed
  split at passed
  · cases passed
  split at passed
  · cases passed
  · rename_i enough
    exact ⟨txGas_le_of_runMessage passed, Nat.le_of_not_lt enough⟩

theorem gas_of_applyMessage (passed : (runs (applyMessage env dc msg pool) s).2.result = .ok done) :
    txGas ≤ msg.gas ∧ msg.gas ≤ pool := by
  rw [applyMessage] at passed
  have bound {done : Transition} (through : (runs (transitionDb env msg pool) s).2.2 = .ok done) :=
    gas_of_transitionDb through
  simp only [runs, Prog.run_bind] at passed bound
  generalize (transitionDb env msg pool).run stateMachine Frame.keeps s = ran at passed bound
  obtain ⟨after, left, result⟩ := ran
  cases result with
  | error err => cases passed
  | ok done => exact bound rfl

/-- A transaction that passes has a sender, and the pool had the gas for it. -/
theorem sender_of_applySteps (passed : (runs (applySteps env dc pool tx) s).2.result = .ok done) :
    txGas ≤ pool ∧
      ∃ a, sender env.crypto (makeSigner env.config env.number) tx = .ok a := by
  rw [applySteps, asMessage] at passed
  cases recovered : sender env.crypto (makeSigner env.config env.number) tx with
  | error err =>
    rw [recovered] at passed
    cases passed
  | ok a =>
    refine ⟨?_, a, rfl⟩
    rw [recovered] at passed
    dsimp only at passed
    split at passed
    · cases passed
    · obtain ⟨enough, bought⟩ := gas_of_applyMessage passed
      exact le_trans enough bought

theorem sender_of_applyTransaction {receipt : Receipt}
    (passed : (applyTransaction env dc s pool usedGas tx).result = .ok receipt) :
    txGas ≤ pool ∧
      ∃ a, sender env.crypto (makeSigner env.config env.number) tx = .ok a := by
  cases ran : (applySteps env dc pool tx).run stateMachine Frame.keeps s with
  | mk after outcome =>
    obtain ⟨dc', pool', result⟩ := outcome
    cases result with
    | error err =>
      rw [applyTransaction, ran] at passed
      cases passed
    | ok done =>
      have steps : (runs (applySteps env dc pool tx) s).2.result = .ok done := by
        rw [runs, ran]
      exact sender_of_applySteps steps

end

/-! ## Mining the transactions of a block -/

section
variable {m : MinerEnv}

/-- The miner is where the importer is, with the transactions that are left as
its heads. -/
structure Keeps (w : Work) (r : Processed) (txs : List TxData) : Prop where
  pending : w.pending = ⟨txs, ∅⟩
  state : w.state = r.state
  context : w.dc = r.dc
  pool : w.pool = r.pool
  gasUsed : w.gasUsed = r.usedGas
  receipts : w.receipts = r.receipts
  tcount : w.tcount = r.receipts.length

/-- A transaction that `Process` gets through gets into the block, if it is not
kept out. -/
theorem Keeps.round {r : Processed} {tx : TxData} {rest : List TxData}
    (keeps : Keeps w r (tx :: rest)) (processed : processOne m.env r tx = .ok r')
    (judged : m.judge tx (m.from_ tx) = true) :
    txGas ≤ w.pool ∧ 0 < w.pending.heads.length ∧ Keeps (commitHead m w 0) r' rest ∧
      (commitHead m w 0).txs = w.txs ++ [tx] := by
  obtain ⟨pending, state, dc, pool, gasUsed, tcount, txs, receipts⟩ := w
  obtain ⟨rfl, rfl, rfl, rfl, rfl, rfl, rfl⟩ := keeps
  let applied := applyTransaction m.env r.dc (r.state.prepare (m.env.txHash tx) r.receipts.length)
    r.pool r.usedGas tx
  rw [processOne] at processed
  cases outcome : applied.result with
  | error err =>
    rw [outcome] at processed
    cases processed
  | ok receipt =>
    rw [outcome] at processed
    cases processed
    obtain ⟨enough, a, recovered⟩ := sender_of_applyTransaction outcome
    have next : commitHead m ⟨⟨tx :: rest, ∅⟩, r.state, r.dc, r.pool, r.usedGas,
        r.receipts.length, txs, r.receipts⟩ 0 =
        ⟨⟨rest, ∅⟩, applied.state, applied.dc, applied.pool, receipt.cumulativeGasUsed,
          r.receipts.length + 1, txs ++ [tx], r.receipts ++ [receipt]⟩ := by
      rw [commitHead, List.getElem?_cons_zero]
      dsimp only
      rw [if_neg (eip155_of_sender recovered),
        if_neg (fun refused => Bool.false_ne_true (refused.symm.trans judged)),
        commitTransaction]
      rw [outcome]
      dsimp only
      rw [Pending.shift, Std.ExtTreeMap.getD_empty]
      rfl
    rw [next]
    refine ⟨enough, Nat.succ_pos _, ⟨rfl, rfl, rfl, rfl, rfl, rfl, ?_⟩, rfl⟩
    rw [List.length_append, List.length_singleton]

theorem exists_mined {trie : Std.ExtTreeMap Address Account} {dc : DposContext} (txs : List TxData)
    (judged : ∀ tx ∈ txs, m.judge tx (m.from_ tx) = true) {r : Processed}
    (reached : Reachable (mining m trie dc) (fun _ _ => True) w) (keeps : Keeps w r txs)
    (processed : processAll m.env txs r = .ok r') :
    ∃ w', Reachable (mining m trie dc) (fun _ _ => True) w' ∧ w'.txs = w.txs ++ txs := by
  induction txs generalizing w r with
  | nil => exact ⟨w, reached, (List.append_nil _).symm⟩
  | cons tx rest ih =>
    rw [processAll] at processed
    cases one : processOne m.env r tx with
    | error err =>
      rw [one] at processed
      cases processed
    | ok middle =>
      rw [one] at processed
      obtain ⟨enough, there, later, taken⟩ := keeps.round one (judged tx List.mem_cons_self)
      obtain ⟨w', reached', all⟩ :=
        ih (fun tx member => judged tx (List.mem_cons_of_mem _ member))
          (.step 0 reached ⟨enough, there⟩ trivial) later processed
      refine ⟨w', reached', ?_⟩
      rw [all]
      refine (congrArg (· ++ rest) taken).trans ?_
      rw [List.append_assoc, List.singleton_append]

/-- What the loop has taken in was judged. -/
theorem judged_of_reachable {trie : Std.ExtTreeMap Address Account} {dc : DposContext}
    (reached : Reachable (mining m trie dc) (fun _ _ => True) w) :
    ∀ tx ∈ w.txs, m.judge tx (m.from_ tx) = true := by
  refine reached.invariant (fun w => ∀ tx ∈ w.txs, m.judge tx (m.from_ tx) = true) ?_ ?_
  · rintro w ⟨pending, rfl⟩ tx member
    cases member
  · intro w i judged _ _
    rcases commitHead_cases m w i with ⟨pending, skipped⟩ | ⟨tx, err, pending, failed, undone⟩ |
      ⟨tx, receipt, pending, passes, _, _, taken⟩
    · exact (congrArg Work.txs skipped).symm ▸ judged
    · exact (congrArg Work.txs undone).symm ▸ judged
    · intro other member
      have all : (commitHead m w i).txs = w.txs ++ [tx] := congrArg Work.txs taken
      rcases List.mem_append.mp (all ▸ member) with before | now
      · exact judged other before
      · rw [List.mem_singleton.mp now]
        exact passes

end

/-! ## Imported blocks -/

section
variable {early bc : BlockChain} {parents : List Header} {b : Block} {other : DposContext}
  {choices : Choices other} {imported : Imported} {signers : Std.ExtTreeMap Address Unit}

/-- Every creation in the block would have passed `JudgeTx` in a miner. -/
def CreationsJudged (bc : BlockChain) (b : Block) : Prop :=
  ∀ tx ∈ b.transactions, tx.recipient = none →
    bc.judgeTx b.header tx ((bc.minerOf b.header).from_ tx) = .ok ()

/-- The miner's loop on the parent comes to the transactions of the block. -/
def Minable (bc : BlockChain) (b : Block) (imported : Imported) : Prop :=
  ∃ w, Reachable (mining (bc.minerOf b.header) imported.trie imported.opened) (fun _ _ => True) w ∧
    w.txs = b.transactions

theorem processed_of_insertBlock (accepted : bc.insertBlock b early parents choices = .ok imported) :
    processAll (bc.minerOf b.header).env b.transactions
      (startProcess (bc.minerOf b.header).env imported.trie imported.opened) = .ok imported.ran := by
  rw [BlockChain.insertBlock] at accepted
  split at accepted
  · cases accepted
  · cases accepted
  split at accepted
  · cases accepted
  split at accepted
  · cases accepted
  · cases accepted
  dsimp only at accepted
  split at accepted
  · cases accepted
  split at accepted
  · cases accepted
  rename_i processed _ _ _ _
  split at accepted
  · cases accepted
  · cases accepted
  · cases accepted
  · cases accepted
    exact processed

theorem judgeTx_eq_ok_iff (known : bc.signersOf b.header = .ok signers) (tx : TxData)
    (from_ : Address) :
    bc.judgeTx b.header tx from_ = .ok () ↔ (tx.recipient = none → from_ ∈ signers) := by
  rw [BlockChain.judgeTx, known]
  by_cases creates : tx.recipient = none
  · by_cases member : from_ ∈ signers
    · simp [creates, member]
    · simp [creates, member]
  · simp [creates]

theorem judge_minerOf_iff (tx : TxData) (from_ : Address) :
    (bc.minerOf b.header).judge tx from_ = true ↔ bc.judgeTx b.header tx from_ = .ok () := by
  rw [BlockChain.minerOf]
  dsimp only
  cases bc.judgeTx b.header tx from_ with
  | error | ok => simp [Except.isOk, Except.toBool]

theorem minable_iff (accepted : bc.insertBlock b early parents choices = .ok imported)
    (known : bc.signersOf b.header = .ok signers) :
    CreationsJudged bc b ↔ Minable bc b imported := by
  constructor
  · intro rule
    have judged : ∀ tx ∈ b.transactions,
        (bc.minerOf b.header).judge tx ((bc.minerOf b.header).from_ tx) = true := by
      intro tx member
      rw [judge_minerOf_iff, judgeTx_eq_ok_iff known]
      intro creates
      exact (judgeTx_eq_ok_iff known tx _).mp (rule tx member creates) creates
    have start : Reachable (mining (bc.minerOf b.header) imported.trie imported.opened)
        (fun _ _ => True) (startWork (bc.minerOf b.header) ⟨b.transactions, ∅⟩ imported.trie
          imported.opened) := .init ⟨_, rfl⟩
    exact exists_mined b.transactions judged start ⟨rfl, rfl, rfl, rfl, rfl, rfl, rfl⟩
      (processed_of_insertBlock accepted)
  · rintro ⟨w, reached, same⟩ tx member creates
    rw [← same] at member
    exact (judge_minerOf_iff tx _).mp (judged_of_reachable reached tx member)

theorem sender_of_processAll {env : BlockEnv} (txs : List TxData) {r : Processed}
    (processed : processAll env txs r = .ok r') :
    ∀ tx ∈ txs, ∃ a, sender env.crypto (makeSigner env.config env.number) tx = .ok a := by
  induction txs generalizing r with
  | nil =>
    intro tx member
    cases member
  | cons first rest ih =>
    rw [processAll] at processed
    cases one : processOne env r first with
    | error err =>
      rw [one] at processed
      cases processed
    | ok middle =>
      rw [one] at processed
      intro tx member
      rcases List.mem_cons.mp member with own | later
      · rw [processOne] at one
        split at one
        · cases one
        · rename_i passed
          rw [own]
          exact (sender_of_applyTransaction passed).2
      · exact ih processed tx later

end

/-! ### A first block that creates a contract -/

def countingRules : Rules where
  config := ⟨1, some 0, none, some 0, true, false⟩
  byzantiumBlock := some 0
  dao := ⟨false, none, zeroAddress, []⟩
  precompiled _ _ := false
  run _ _ _ contract := pure ⟨[], contract.gas, none, false⟩
  gas_le _ _ _ _ _ := le_refl _
  stateRoot trie := bytesToHash [UInt8.ofNat trie.size]
  txHash tx := bytesToHash [UInt8.ofNat tx.s.toNat]
  deriveTxs txs := bytesToHash [UInt8.ofNat txs.length]
  deriveReceipts receipts := bytesToHash [UInt8.ofNat receipts.length]
  createBloom _ := FixedBytes.zero 256

def fundedTrie : Std.ExtTreeMap Address Account :=
  ((∅ : Std.ExtTreeMap Address Account).insert firstValidator
    { Account.fresh with balance := 53000 }).insert (bytesToAddress [6])
    { Account.fresh with balance := 53000 }

def stakedGenesis : Header :=
  { genesisDraft plainCrypto with
    root := countingRules.stateRoot fundedTrie
    dposContext := toProto plainRoot genesisContext }

def stakedEngine : Dpos.Seals.SealEngine where
  toEngine := dposEngine plainCrypto
  epoch := 100
  epoch_pos := Nat.succ_pos 99
  rootOf := plainRoot

def stakedChain : BlockChain where
  engine := .dpos stakedEngine ⟨⟨stakedGenesis, [], rfl⟩, ∅⟩
  rules := countingRules
  layers := genesisLayers
  states _ := some fundedTrie

/-- The account of the sender is the last byte of `S`. -/
def creationTx (key : Nat) : TxData :=
  { newcomerLogin with
    txType := .binary
    gasLimit := 53000
    recipient := none
    s := key }

def creationDraft (key : Nat) : Block where
  header :=
    { cliqueDraft plainCrypto (stakedGenesis.hash plainCrypto) 1 1005 firstValidator vanity with
      signature := ⟨plainSig firstValidator, by decide +kernel⟩
      gasLimit := 100000
      gasUsed := 53000
      txHash := bytesToHash [1]
      receiptHash := bytesToHash [1] }
  transactions := [creationTx key]
  uncles := []

def creationBlock (key : Nat) : Block :=
  let draft := creationDraft key
  let env := stakedChain.blockEnv draft.header firstValidator
  match processAll env draft.transactions (startProcess env fundedTrie genesisContext) with
  | .error _ => draft
  | .ok ran =>
    match finalizeBlock env stakedChain.engine.mining stakedChain.engine.params
        stakedChain.engine.chain draft.header (plainChoices genesisContext) stakedChain.layers
        ran.dc ran.state with
    | none => draft
    | some (fin, _) =>
      { draft with
        header :=
          { draft.header with
            root := fin.root
            dposContext := toProto plainRoot fin.dc } }

theorem exists_of_isOk {ε α : Type} {result : Except ε α} (made : result.isOk = true) :
    ∃ a, result = .ok a := by
  cases result with
  | error err => cases made
  | ok a => exact ⟨a, rfl⟩

end Linkeye.Miner.Creations
