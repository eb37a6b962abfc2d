import Linkeye.Consensus.Durability
import Linkeye.Miner.Worker

/-!
# A mined block replays

What the miner has undone is gone for the rest of the block, so the importer,
which never sees it, comes to the same receipts and roots.  The exception is a
failed transaction that touched `ripemd`.
-/

set_option autoImplicit false

namespace Linkeye.Miner.Replay

open Common.Types Common.Signature Consensus.Durability Consensus.Execution
open Std (ExtTreeMap)
open Consensus.Fields (Chain)
open Consensus.TrieDatabase Core.Agreement Core.ApplyTransaction Core.Blocks Core.Dpos
open Core.Journaling Core.Rewind
open Core.StateTransition (TxError)
open Core.Transaction
open Dbft.Headers (num)
open Lib.Runs Worker

/-! ## Between transactions -/

/-- Twins up to the transaction that was prepared last. -/
def Between (s t : StateDB) : Prop :=
  ∀ hash i, Twins (s.prepare hash i) (t.prepare hash i)

section
variable {s t : StateDB}

theorem tidy_prepare (tidy : Tidy s) (hash : Hash) (i : Nat) : Tidy (s.prepare hash i) :=
  { tidy with }

theorem alike_prepare (alike : Alike s t) (hash : Hash) (i : Nat) :
    Alike (s.prepare hash i) (t.prepare hash i) :=
  ⟨alike.trie, alike.lookup_congr rfl rfl rfl rfl, alike.refund, alike.logs, alike.logSize, rfl,
    rfl⟩

theorem between_of_twins (twins : Twins s t) : Between s t := fun hash i =>
  ⟨⟨alike_prepare twins.same.alike hash i, twins.same.entries, twins.same.count⟩,
    tidy_prepare twins.left hash i, tidy_prepare twins.right hash i⟩

theorem between_openState (env : BlockEnv) (trie : ExtTreeMap Address Account) :
    Between (openState env trie) (openState env trie) := by
  have new : Twins (StateDB.new trie) (StateDB.new trie) :=
    ⟨⟨.refl _, rfl, fun _ => rfl⟩, tidy_new trie, tidy_new trie⟩
  rw [openState]
  split
  · exact between_of_twins (new.run Frame.keeps (applyDAOHardFork env.dao)).2
  · exact between_of_twins new

section
variable (between : Between s t)
include between

/-- A state that has gone back to a snapshot, without a mark, is as good as the
one the snapshot was made of. -/
theorem Between.undone {middle : StateDB} {hash : Hash} {i : Nat}
    (steps : Steps (s.prepare hash i) middle)
    (quiet : count (middle.revertToSnapshot (s.prepare hash i).snapshot) ripemd =
      count s ripemd) :
    Between (middle.revertToSnapshot (s.prepare hash i).snapshot) t := by
  have twins := between hash i
  obtain ⟨⟨new, marks, reached⟩, tidy⟩ := steps twins.left
  have back := reached_revertToSnapshot reached
  have unmarked : marks = 0 := by
    have counted := back.count ripemd
    rw [quiet, if_pos rfl] at counted
    have same : count (s.prepare hash i) ripemd = count s ripemd := rfl
    omega
  subst unmarked
  intro hash' j
  have later := between hash' j
  have alike : Alike ((s.prepare hash i).prepare hash' j) _ := alike_prepare back.undone hash' j
  refine ⟨⟨alike.symm.trans later.same.alike, ?_, fun a => ?_⟩,
    tidy_prepare (tidy.revertToSnapshot reached) hash' j, later.right⟩
  · exact later.same.entries.trans back.entries.symm
  · have counted := back.count a
    have zero : dirtying [] a = 0 := rfl
    rw [zero, ite_self, Nat.add_zero] at counted
    exact (later.same.count a).trans counted.symm

theorem Between.tidy : Tidy s ∧ Tidy t :=
  ⟨(between s.thash s.txIndex).left, (between t.thash t.txIndex).right⟩

theorem Between.count (a : Address) : count t a = count s a :=
  (between s.thash s.txIndex).same.count a

theorem Between.lookup (a : Address) :
    Core.Rewind.lookup t a = Core.Rewind.lookup s a := by
  have alike := (between s.thash s.txIndex).same.alike
  refine alike.lookup_congr ?_ ?_ ?_ ?_ a <;> rfl

theorem Between.trie_finalise (del : Bool) :
    (t.finalise del).trie = (s.finalise del).trie := by
  have stored : t.trie = s.trie := (between s.thash s.txIndex).same.alike.trie
  ext1 a
  rw [Core.Agreement.trie_finalise del between.tidy.1,
    Core.Agreement.trie_finalise del between.tidy.2,
    between.count, between.lookup, stored]

theorem Between.lookup_finalise (del : Bool) (a : Address) :
    Core.Rewind.lookup (t.finalise del) a = Core.Rewind.lookup (s.finalise del) a := by
  rw [Core.Agreement.lookup_finalise del between.tidy.1,
    Core.Agreement.lookup_finalise del between.tidy.2,
    between.count, between.lookup]

end

end

/-! ## One transaction -/

section
variable {env : BlockEnv} {dc : DposContext} {s t : StateDB} {pool usedGas : Nat} {tx : TxData}

/-- Where a transaction fails, its steps are all that has happened. -/
theorem steps_of_failure {err : TxError}
    (failed : (applyTransaction env dc s pool usedGas tx).result = .error err) :
    Steps s (applyTransaction env dc s pool usedGas tx).state := by
  have steps := steps_run Frame.keeps (applySteps env dc pool tx) s
  cases ran : (applySteps env dc pool tx).run Core.Journaling.stateMachine Frame.keeps s with
  | mk after outcome =>
    rw [ran] at steps
    rw [applyTransaction, ran] at failed ⊢
    obtain ⟨dc', pool', result⟩ := outcome
    cases result with
    | error err => exact steps
    | ok done => cases failed

theorem pool_applyTransaction :
    (∃ err, (applyTransaction env dc s pool usedGas tx).result = .error err ∧
        (applyTransaction env dc s pool usedGas tx).pool = pool ∧ boughtGas tx err = false) ∨
      (Bought pool tx.gasLimit.toNat (applyTransaction env dc s pool usedGas tx).pool ∧
        ∀ err, (applyTransaction env dc s pool usedGas tx).result = .error err →
          boughtGas tx err = true) := by
  have bound := pool_applySteps env dc pool tx s
  rw [runs] at bound
  rw [applyTransaction]
  cases ran : (applySteps env dc pool tx).run stateMachine Frame.keeps s with
  | mk after outcome =>
    rw [ran] at bound
    obtain ⟨dc', pool', err | done⟩ := outcome
    · rcases bound with ⟨_, ⟨⟩, same, early⟩ | ⟨bought, late⟩
      · exact .inl ⟨err, rfl, same, early⟩
      · refine .inr ⟨bought, fun other failed => ?_⟩
        cases failed
        exact late err rfl
    · rcases bound with ⟨_, ⟨⟩, _⟩ | ⟨bought, _⟩
      refine .inr ⟨bought, fun _ failed => ?_⟩
      cases failed

/-- A transaction that the miner gets through goes through on a twin of its state,
with at least as much gas in the pool, and gives the same receipt. -/
theorem applyTransaction_agrees (twins : Twins s t) {receipt : Receipt}
    (passed : (applyTransaction env dc s pool usedGas tx).result = .ok receipt) (extra : Nat) :
    (applyTransaction env dc t (pool + extra) usedGas tx).result = .ok receipt ∧
      (applyTransaction env dc t (pool + extra) usedGas tx).dc =
        (applyTransaction env dc s pool usedGas tx).dc ∧
      (applyTransaction env dc t (pool + extra) usedGas tx).pool =
        (applyTransaction env dc s pool usedGas tx).pool + extra ∧
      Twins (applyTransaction env dc s pool usedGas tx).state
        (applyTransaction env dc t (pool + extra) usedGas tx).state := by
  obtain ⟨answer, after⟩ := twins.run Frame.keeps (applySteps env dc pool tx)
  cases ran : (applySteps env dc pool tx).run stateMachine Frame.keeps s with
  | mk s' outcome =>
    cases ran' : (applySteps env dc pool tx).run stateMachine Frame.keeps t with
    | mk t' outcome' =>
      rw [ran, ran'] at answer after
      subst answer
      obtain ⟨dc', pool', result⟩ := outcome
      cases result with
      | error err =>
        rw [applyTransaction, ran] at passed
        cases passed
      | ok done =>
        have larger := runs_applySteps_add ran' extra
        rw [runs] at larger
        rw [applyTransaction, ran] at passed
        rw [applyTransaction, applyTransaction, ran, larger]
        have final := after.finalise
          (if env.isByzantium = true then true else env.isEIP158)
        dsimp only at passed ⊢
        refine ⟨?_, rfl, rfl, final⟩
        rw [← passed, final.same.alike.trie, final.same.alike.logs]

end

/-! ## The block -/

section
variable {env : BlockEnv}

theorem processAll_append (txs : List TxData) (tx : TxData) {r middle : Processed}
    (ran : processAll env txs r = .ok middle) :
    processAll env (txs ++ [tx]) r = processOne env middle tx := by
  induction txs generalizing r with
  | nil =>
    cases ran
    rw [List.nil_append, processAll]
    cases processOne env middle tx with
    | error err => rfl
    | ok after => rfl
  | cons first rest ih =>
    rw [processAll] at ran
    rw [List.cons_append, processAll]
    cases one : processOne env r first with
    | error err =>
      rw [one] at ran
      cases ran
    | ok after =>
      rw [one] at ran
      exact ih ran

end

section
variable {m : MinerEnv} {trie : ExtTreeMap Address Account} {dc : DposContext}

/-- The importer has come as far as the miner, with as much gas left or more. -/
structure Replays (m : MinerEnv) (trie : ExtTreeMap Address Account) (dc : DposContext)
    (w : Work) (r : Processed) : Prop where
  ran : processAll m.env w.txs (startProcess m.env trie dc) = .ok r
  state : Between w.state r.state
  context : r.dc = w.dc
  pool : w.pool ≤ r.pool
  gasUsed : r.usedGas = w.gasUsed
  receipts : r.receipts = w.receipts
  tcount : w.tcount = w.receipts.length

/-- One round of the miner: what fails is not seen, and what passes is replayed. -/
theorem Replays.commitHead {w : Work} {r : Processed} (replays : Replays m trie dc w r) {i : Nat}
    (quiet : Quiet m w i) : ∃ r', Replays m trie dc (commitHead m w i) r' := by
  rcases commitHead_cases m w i with ⟨pending, skipped⟩ | ⟨tx, err, pending, failed, undone⟩ |
    ⟨tx, receipt, pending, _, _, passed, taken⟩
  · rw [skipped]
    exact ⟨r, { replays with }⟩
  · have unmarked := quiet
    rw [Quiet, undone] at unmarked
    rw [undone]
    refine ⟨r, replays.ran, ?_, replays.context, ?_, replays.gasUsed, replays.receipts,
      replays.tcount⟩
    · exact replays.state.undone (steps_of_failure failed) (unmarked rfl)
    · refine le_trans ?_ replays.pool
      rcases pool_applyTransaction with ⟨_, _, same, _⟩ | ⟨bought, _⟩
      · exact same.le
      · exact bought.le
  · rw [taken]
    have twins := replays.state (m.env.txHash tx) w.tcount
    obtain ⟨receipt', context, left, after⟩ :=
      applyTransaction_agrees twins passed (r.pool - w.pool)
    rw [Nat.add_sub_cancel' replays.pool] at receipt' context left after
    let again := applyTransaction m.env w.dc (r.state.prepare (m.env.txHash tx) w.tcount) r.pool
      w.gasUsed tx
    have one : processOne m.env r tx =
        .ok ⟨again.state, again.dc, again.pool, receipt.cumulativeGasUsed,
          w.receipts ++ [receipt]⟩ := by
      rw [processOne, replays.context, replays.gasUsed, replays.receipts, ← replays.tcount]
      rw [receipt']
    refine ⟨_, (processAll_append w.txs tx replays.ran).trans one, between_of_twins after, context, ?_, rfl,
      rfl, ?_⟩
    · exact (Nat.le_add_right _ _).trans left.ge
    · rw [replays.tcount, List.length_append, List.length_singleton]

theorem replays_of_reachable {w : Work} (mined : Reachable (mining m trie dc) (Quiet m) w) :
    ∃ r, Replays m trie dc w r := by
  refine mined.invariant (fun w => ∃ r, Replays m trie dc w r) ?_ ?_
  · rintro w ⟨pending, rfl⟩
    exact ⟨startProcess m.env trie dc, rfl, between_openState m.env trie, rfl, le_refl _, rfl, rfl, rfl⟩
  · rintro w i ⟨r, replays⟩ _ quiet
    exact replays.commitHead quiet

end

/-! ## Finalize -/

section
variable {s t : StateDB}

theorem foldl_balances (addrs : List Address) (found : ExtTreeMap Address Int) (a : Address) :
    (addrs.foldl (fun found addr =>
      match lookup s addr with
      | none => found
      | some obj => found.insert addr obj.data.balance) found)[a]? =
      if a ∈ addrs then ((lookup s a).map (·.data.balance)).or found[a]? else found[a]? := by
  induction addrs generalizing found with
  | nil => rfl
  | cons b rest ih =>
    rw [List.foldl_cons, ih]
    by_cases own : b = a
    · subst own
      rw [if_pos List.mem_cons_self]
      cases lookup s b with
      | none => simp
      | some obj => simp
    · have member : a ∈ b :: rest ↔ a ∈ rest := by
        rw [List.mem_cons, or_iff_right (fun same => own same.symm)]
      simp only [member]
      cases lookup s b with
      | none => rfl
      | some obj => simp only [Lib.Maps.get_insert, if_neg own]

theorem balances_at (s : StateDB) (a : Address) :
    (balances s).balances[a]? = (lookup s a).map (·.data.balance) := by
  have folded := foldl_balances (s := s) (s.trie.keys ++ s.stateObjects.keys) ∅ a
  rw [ExtTreeMap.getElem?_empty, Option.or_none] at folded
  refine folded.trans ?_
  split
  · rfl
  · rename_i unknown
    rw [List.mem_append, ExtTreeMap.mem_keys, ExtTreeMap.mem_keys, not_or] at unknown
    rw [lookup_eq, ExtTreeMap.getElem?_eq_none unknown.1,
      ExtTreeMap.getElem?_eq_none unknown.2]
    rfl

theorem balances_eq (found : ∀ a, lookup t a = lookup s a) : balances t = balances s := by
  have equal : (balances t).balances = (balances s).balances := by
    ext1 a
    rw [balances_at, balances_at, found]
  have logs : (balances t).logs = (balances s).logs := rfl
  generalize balances t = right at equal logs
  generalize balances s = left at equal logs
  obtain ⟨_, _⟩ := right
  cases equal
  cases logs
  rfl

variable {env : BlockEnv} {engine : MiningEngine} {params : Dbft.Headers.Engine} {chain : Chain}
  {h : Header} {opened : DposContext} {choices : Choices opened} {db : Layers params.rootOf}
  {dc : DposContext}

/-- The parent that `Finalize` looks up is there. -/
def KnowsParent (params : Dbft.Headers.Engine) (chain : Chain) (h : Header) : Prop :=
  (Consensus.Fields.getHeader params.crypto chain h.parentHash
    ((num h + (2 ^ 64 - 1)) % 2 ^ 64)).isSome

/-- `Finalize` comes to the same on states that are twins between transactions. -/
theorem finalizeBlock_agrees (between : Between s t) {fin : Finalized}
    (made : finalizeBlock env engine params chain h choices db dc s = some (fin, .ok ()))
    {other : DposContext} (choices' : Choices other) (db' : Layers params.rootOf) {chain' : Chain}
    {sealed : Header} (same : SealedFrom h sealed)
    (parent : KnowsParent params chain' sealed) :
    finalizeBlock env engine params chain' sealed choices' db' dc t = some (fin, .ok ()) := by
  have roots := between.trie_finalise env.isEIP158
  have weights := balances_eq (between.lookup_finalise env.isEIP158)
  cases engine with
  | poa =>
    rw [finalizeBlock] at made ⊢
    rw [roots]
    exact made
  | staking engine =>
    rw [finalizeBlock] at made ⊢
    rw [roots, weights]
    obtain ⟨⟨backed, result⟩, done, equal⟩ := Option.map_eq_some_iff.mp made
    cases equal
    obtain ⟨backed', done', context⟩ := finalize_orders done choices' db' same parent
    rw [done', Option.map_some, context]

end

/-! ## The theorem -/

section
variable {m : MinerEnv} {trie : ExtTreeMap Address Account} {dc : DposContext}

end

/-! ### Blocks after the genesis -/

def firstMiner : MinerEnv where
  env :=
    { crypto := plainCrypto
      config := ⟨1, some 0, none, some 0, false, true⟩
      byzantiumBlock := some 0
      number := 1
      gasLimit := 100000
      coinbase := firstValidator
      precompiled := fun addr => addr == ripemd
      run := fun _ contract => pure ⟨[], contract.gas, none, false⟩
      gas_le := fun _ _ _ => le_refl _
      stateRoot := fun trie => bytesToHash [UInt8.ofNat trie.size]
      txHash := fun tx => bytesToHash [UInt8.ofNat tx.s.toNat]
      dao := ⟨false, none, zeroAddress, []⟩ }
  judge _ _ := true

def parentTrie : ExtTreeMap Address Account :=
  ((∅ : ExtTreeMap Address Account).insert (bytesToAddress [5])
    { Account.fresh with balance := 21000 }).insert (bytesToAddress [6])
    { Account.fresh with balance := 21001 } |>.insert ripemd .fresh

def strayTx (recipient : Address) : TxData :=
  { newcomerLogin with txType := .ofNat 6, recipient := some recipient }

def paymentTx : TxData :=
  { newcomerLogin with
    txType := .binary
    recipient := some (bytesToAddress [8])
    amount := 1
    s := 6 }

def minedFrom (heads : List TxData) : Work :=
  (List.replicate heads.length 0).foldl (commitHead firstMiner)
    (startWork firstMiner ⟨heads, ∅⟩ parentTrie genesisContext)

def finalizedAt (dc : DposContext) (s : StateDB) : Option (Finalized × Except FinalizeError Unit) :=
  finalizeBlock firstMiner.env (.staking .dbft) Dbft.Availability.twoBlockEpochs genesisChain
    (firstDraft []).header (plainChoices genesisContext) genesisLayers dc s

def rootFilledIn : Option (Finalized × Except FinalizeError Unit) → Option Hash
  | some (fin, .ok ()) => some fin.root
  | _ => none

theorem finalized_of_rootFilledIn {result : Option (Finalized × Except FinalizeError Unit)}
    {root : Hash} (seen : rootFilledIn result = some root) :
    ∃ fin, result = some (fin, .ok ()) ∧ fin.root = root := by
  rcases result with _ | ⟨fin, _ | ⟨⟩⟩
  · cases seen
  · cases seen
  · exact ⟨fin, rfl, Option.some.inj seen⟩

theorem reachable_minedFrom (heads : List TxData) {condition : Work → Nat → Prop}
    (admitted : Admits (mining firstMiner parentTrie genesisContext) condition
      (startWork firstMiner ⟨heads, ∅⟩ parentTrie genesisContext) (List.replicate heads.length 0)) :
    Reachable (mining firstMiner parentTrie genesisContext) condition (minedFrom heads) := by
  have start : Reachable (mining firstMiner parentTrie genesisContext) condition
      (startWork firstMiner ⟨heads, ∅⟩ parentTrie genesisContext) :=
    .init ⟨⟨heads, ∅⟩, rfl⟩
  exact start.run _ admitted

theorem knowsParent_firstDraft :
    KnowsParent Dbft.Availability.twoBlockEpochs genesisChain (firstDraft []).header := by
  rw [KnowsParent]
  decide +kernel

def strayThenPayment : List TxData := [strayTx (bytesToAddress [8]), paymentTx]

theorem admits_strayThenPayment :
    Admits (mining firstMiner parentTrie genesisContext) (Quiet firstMiner)
      (startWork firstMiner ⟨strayThenPayment, ∅⟩ parentTrie genesisContext) [0, 0] := by
  refine ⟨⟨?_, ?_⟩, fun _ => ?_, ⟨?_, ?_⟩, fun _ => ?_, trivial⟩
  all_goals decide +kernel

end Linkeye.Miner.Replay
