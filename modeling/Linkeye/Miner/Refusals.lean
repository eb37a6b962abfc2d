import Linkeye.Miner.Replay

/-!
# Refused transactions

`commitTransaction` goes back to its two snapshots when a transaction fails.  No
snapshot is taken of the gas pool: what the transaction has bought stays missing.
-/

set_option autoImplicit false

namespace Linkeye.Miner.Refusals

open Common.Types Core.Agreement Core.ApplyTransaction Core.Dpos Core.Journaling Core.Rewind
open Consensus.Durability (genesisContext)
open Core.StateTransition (TxError)
open Core.Transaction Lib.Runs Replay Worker

section
variable {m : MinerEnv} {trie : Std.ExtTreeMap Address Account} {dc : DposContext} {w : Work}
  {tx : TxData} {s t : StateDB} {err : TxError}

theorem tidy_applyTransaction {env : BlockEnv} {pool usedGas : Nat} (tidy : Tidy s) :
    Tidy (applyTransaction env dc s pool usedGas tx).state := by
  have after := (steps_run Frame.keeps (applySteps env dc pool tx) s tidy).2
  rw [applyTransaction]
  split
  all_goals
    rename_i ran
    rw [ran] at after
  · exact after
  · exact tidy_finalise _ after

theorem tidy_mined (mined : Reachable (mining m trie dc) (fun _ _ => True) w) :
    Tidy w.state := by
  refine mined.invariant (fun w => Tidy w.state) ?_ ?_
  · rintro w ⟨pending, rfl⟩
    exact (between_openState m.env trie).tidy.1
  · intro w i tidy _ _
    change Tidy (commitHead m w i).state
    rcases commitHead_cases m w i with ⟨pending, skipped⟩ | ⟨tx, err, pending, failed, undone⟩ |
      ⟨tx, receipt, pending, _, _, passed, taken⟩
    · rw [skipped]
      exact tidy
    · rw [undone]
      obtain ⟨⟨new, marks, reached⟩, after⟩ := steps_of_failure failed (tidy_prepare tidy _ _)
      exact after.revertToSnapshot reached
    · rw [taken]
      exact tidy_applyTransaction (tidy_prepare tidy _ _)

theorem answer_of_alike (alike : Alike s t) (c : Call) : (t.call c).2 = (s.call c).2 := by
  have read {α : Type} (a : Address) (f : Option StateObject → α) :
      (t.read a f).2 = (s.read a f).2 := congrArg f (alike.lookup a)
  cases c with
  | getRefund => exact alike.refund
  | suicide a =>
    have found := alike.lookup a
    simp only [StateDB.call, StateDB.suicide]
    rw [lookup, lookup] at found
    generalize t.getStateObject a = right at found
    generalize s.getStateObject a = left at found
    obtain ⟨_, right⟩ := right
    obtain ⟨_, left⟩ := left
    cases found
    cases right <;> rfl
  | getBalance a | getNonce a | getCode a | getState a | hasSuicided a | exist a | empty a =>
    exact read a _
  | _ => rfl

/-- Nothing of the work has changed but perhaps the gas pool: no call of the state
database tells the two apart. -/
structure Unmarked (before after : Work) : Prop where
  answers : ∀ c : Call, (after.state.call c).2 = (before.state.call c).2
  logs : ∀ hash, after.state.logs.getD hash [] = before.state.logs.getD hash []
  context : after.dc = before.dc
  gasUsed : after.gasUsed = before.gasUsed
  txs : after.txs = before.txs
  receipts : after.receipts = before.receipts

end

def emptyWork : Work := startWork firstMiner ⟨[], ∅⟩ parentTrie genesisContext

theorem mined_emptyWork :
    Reachable (mining firstMiner parentTrie genesisContext) (fun _ _ => True) emptyWork :=
  .init ⟨_, rfl⟩

end Linkeye.Miner.Refusals
