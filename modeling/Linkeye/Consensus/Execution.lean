import Linkeye.Consensus.Fields
import Linkeye.Consensus.TrieDatabase
import Linkeye.Core.StateTransition
import Linkeye.Dbft.Ballots

/-!
# Executing a block

`Process` of `core/state_processor.go` with the `Finalize` of the two engines
that keep a DPoS context, and `ValidateDposState`.  The engine `dpos` counts the
blocks of a validator and leaves the tries in memory; `dbft` counts nothing and
commits the tries.  `Process` ignores the error of `Finalize`.
-/

set_option autoImplicit false

namespace Linkeye.Consensus.Execution

open Common.Types
open Fields (Chain)
open TrieDatabase Core.Blocks Core.Dpos Core.Stakes Core.StateProcessor Core.StateTransition
open Core.Transaction Dbft Dbft.Ballots Dbft.Election Dbft.Headers Lib.Sorts Rlp.Encode
open Trie.Contents

/-! ## Finalize -/

/-- The two packages with an engine that keeps a DPoS context. -/
inductive StakingEngine where
  | dpos
  | dbft
deriving DecidableEq

def StakingEngine.maxValidatorSize : StakingEngine → Nat
  | .dpos => 5
  | .dbft => Headers.maxValidatorSize

/-- `updateMintCnt`; `none` where a count of less than eight bytes ends the
program. -/
def updateMintCnt (dc : DposContext) (validator : Address) : Option DposContext :=
  let put (cnt : Nat) : DposContext :=
    { dc with
      mintCntTrie := dc.mintCntTrie.tryUpdate validator.data
        (FixedBytes.setBytes 8 (bigBytes cnt)).data }
  match dc.mintCntTrie.tryGet validator.data with
  | none => some (put 1)
  | some cntBytes =>
    if cntBytes.length < 8 then none
    else some (put ((bigSetBytes (cntBytes.take 8) + 1) % 2 ^ 64))

inductive FinalizeError where
  | errUnknownAncestor
  | newEpochContext
  | tryElect (err : ElectError)

/-- A context with the trie database behind it. -/
structure Backed (rootOf : RootOf) where
  dc : DposContext
  db : Layers rootOf

/-- What nobody but the runtime decides: the orders of the maps, and which tries
bear the dirty flag. -/
structure Choices (opened : DposContext) where
  commitOrder : MapOrder
  rankOrder : MapOrder
  marks : (executed : DposContext) → Marks opened executed

def electIfDue (engine : StakingEngine) (e : Engine) (h : Header) (commitOrder rankOrder : MapOrder)
    (dc : DposContext) (statedb : StateDB) : DposContext × Option ElectError :=
  if num h % e.epoch = 0 then
    tryElect e.crypto.keccak256 engine.maxValidatorSize commitOrder rankOrder dc statedb
  else (dc, none)

/-- `Finalize` of the two engines, with the context as it is left behind.  `none`
where the program ends. -/
def finalize (engine : StakingEngine) (e : Engine) (chain : Chain) (h : Header)
    {opened : DposContext} (choices : Choices opened) (db : Layers e.rootOf) (dc : DposContext)
    (statedb : StateDB) : Option (Backed e.rootOf × Except FinalizeError Unit) :=
  match Fields.getHeader e.crypto chain h.parentHash ((num h + (2 ^ 64 - 1)) % 2 ^ 64) with
  | none => some (⟨dc, db⟩, .error .errUnknownAncestor)
  | some _ =>
    match dc.getValidators with
    | none => some (⟨dc, db⟩, .error .newEpochContext)
    | some _ =>
      match electIfDue engine e h choices.commitOrder choices.rankOrder dc statedb with
      | (dc, some err) => some (⟨dc, db⟩, .error (.tryElect err))
      | (dc, none) =>
        match engine with
        | .dpos => (updateMintCnt dc h.coinbase).map fun dc => (⟨dc, db⟩, .ok ())
        | .dbft => some (⟨dc, db.commitTo (choices.marks dc)⟩, .ok ())

/-! ## Process -/

/-- A block as `Process` gets it: the author is who gets the fees. -/
structure Incoming where
  header : Header
  transactions : List TxData
  author : Address

structure Ran where
  dc : DposContext
  world : World
  receipts : List Receipt
  usedGas : Nat

def applyTransactions (env : Env) :
    List TxData → DposContext → World → Nat → Nat → Except TxError Ran
  | [], dc, w, _, usedGas => .ok ⟨dc, w, [], usedGas⟩
  | tx :: rest, dc, w, pool, usedGas =>
    match applyTransaction env dc w pool usedGas tx with
    | .error err => .error err
    | .ok applied =>
      match applyTransactions env rest applied.dc applied.world applied.pool
          applied.receipt.cumulativeGasUsed with
      | .error err => .error err
      | .ok ran => .ok { ran with receipts := applied.receipt :: ran.receipts }

/-- A node that imports blocks: its engine, its configuration and its
interpreter. -/
structure Processor where
  engine : StakingEngine
  params : Engine
  config : ChainConfig
  vm : Interpreter

def Processor.env (p : Processor) (b : Incoming) : Env :=
  ⟨p.params.crypto, p.config, b.header.number, b.author, p.vm⟩

inductive ProcessError where
  | applyTransaction (err : TxError)
  | crash

structure Executed (rootOf : RootOf) where
  backed : Backed rootOf
  ran : Ran

def Processor.run (p : Processor) (b : Incoming) (opened : DposContext) (w : World) :
    Except TxError Ran :=
  applyTransactions (p.env b) b.transactions opened w b.header.gasLimit.toNat 0

def Processor.process (p : Processor) (chain : Chain) (b : Incoming) {opened : DposContext}
    (choices : Choices opened) (db : Layers p.params.rootOf) (w : World) :
    Except ProcessError (Executed p.params.rootOf) :=
  match p.run b opened w with
  | .error err => .error (.applyTransaction err)
  | .ok ran =>
    match finalize p.engine p.params chain b.header choices db ran.dc ran.world.statedb with
    | none => .error .crash
    | some (backed, _) => .ok ⟨backed, ran⟩

/-- `ValidateDposState`; the error names both roots. -/
def validateDposState (e : Engine) (dc : DposContext) (h : Header) : Except (Hash × Hash) Unit :=
  let localRoot := (toProto e.rootOf dc).root e.crypto
  let remoteRoot := h.dposContext.root e.crypto
  if remoteRoot ≠ localRoot then .error (remoteRoot, localRoot) else .ok ()

/-! ## When `Finalize` comes to its end -/

variable {k : Address} {v : Int} {commitOrder rankOrder : MapOrder} {written : Option Bytes}

section
variable {dc : DposContext} {statedb : StateDB}

/-- The record of `k` can be read and, if it is its own, take the score `v`. -/
def Writable (dc : DposContext) (k : Address) (v : Int) : Prop :=
  ∃ cc, dc.getCandidateContext k = .ok cc ∧ (cc.addr = k → 0 ≤ v)

/-- There are candidates, and their scores can be written back. -/
def Electable (dc : DposContext) (statedb : StateDB) : Prop :=
  ∃ votes, countVotes dc statedb = some votes ∧ ∀ k v, (k, v) ∈ votes.toList → Writable dc k v

/-- What a score writes, from the record it has read; `none` if that fails. -/
def scoreWrite (k : Address) (v : Int) : Except DposError CandidateContext → Option (Option Bytes)
  | .error _ => none
  | .ok cc =>
    if cc.addr = k then
      ({ cc with score := v } : CandidateContext).encodeRLP.map fun item => some (encode item)
    else some none

def putRecord (dc : DposContext) (k : Address) : Option Bytes → DposContext
  | none => dc
  | some value => { dc with candidateTrie := dc.candidateTrie.tryUpdate k.data value }

/-- A score that can be written is, before the rest; any other one ends the loop. -/
theorem commitScores_cases (k : Address) (v : Int) (rest : List (Address × Int)) (dc : DposContext) :
    (∃ written, scoreWrite k v (dc.getCandidateContext k) = some written ∧
      commitScores ((k, v) :: rest) dc = commitScores rest (putRecord dc k written)) ∨
    scoreWrite k v (dc.getCandidateContext k) = none ∧ (commitScores ((k, v) :: rest) dc).2 ≠ none := by
  rw [commitScores]
  cases dc.getCandidateContext k with
  | error err => exact .inr ⟨rfl, Option.some_ne_none _⟩
  | ok cc =>
    rw [scoreWrite]
    dsimp only
    by_cases own : cc.addr = k
    · rw [if_pos own, if_pos own, DposContext.setCandidateContext]
      cases ({ cc with score := v } : CandidateContext).encodeRLP with
      | none => exact .inr ⟨rfl, Option.some_ne_none _⟩
      | some item =>
        refine .inl ⟨some (encode item), rfl, ?_⟩
        dsimp only [putRecord]
        rw [own]
    · rw [if_neg own, if_neg own]
      exact .inl ⟨none, rfl, rfl⟩

theorem commitScores_cons {rest : List (Address × Int)} {dc : DposContext}
    (done : (commitScores ((k, v) :: rest) dc).2 = none) :
    ∃ written, scoreWrite k v (dc.getCandidateContext k) = some written ∧
      commitScores ((k, v) :: rest) dc = commitScores rest (putRecord dc k written) :=
  (commitScores_cases k v rest dc).resolve_right fun fails => fails.2 done

theorem commitScores_of_scoreWrite {rest : List (Address × Int)} {dc : DposContext}
    (write : scoreWrite k v (dc.getCandidateContext k) = some written) :
    commitScores ((k, v) :: rest) dc = commitScores rest (putRecord dc k written) := by
  rcases commitScores_cases k v rest dc with ⟨other, wrote, same⟩ | ⟨fails, _⟩
  · cases wrote.symm.trans write
    exact same
  · cases fails.symm.trans write

theorem scoreWrite_ne_nil {read : Except DposError CandidateContext} {value : Bytes}
    (write : scoreWrite k v read = some (some value)) : value ≠ [] := by
  cases read with
  | error err => cases write
  | ok cc =>
    rw [scoreWrite] at write
    split at write
    · obtain ⟨item, _, same⟩ := Option.map_eq_some_iff.mp write
      cases same
      exact encode_ne_nil item
    · cases write

theorem getCandidateContext_putRecord {other : Address} (different : k ≠ other)
    (stored : ∀ value, written = some value → value ≠ []) :
    (putRecord dc k written).getCandidateContext other = dc.getCandidateContext other := by
  cases written with
  | none => rfl
  | some value =>
    have keys : k.data ≠ other.data := fun equal => different (FixedBytes.data_inj equal)
    rw [DposContext.getCandidateContext, DposContext.getCandidateContext, putRecord,
      TrieMap.tryGet_tryUpdate _ (stored value rfl), if_neg keys]

theorem writable_iff : Writable dc k v ↔ (scoreWrite k v (dc.getCandidateContext k)).isSome := by
  rw [Writable]
  cases found : dc.getCandidateContext k with
  | error err => simp [scoreWrite]
  | ok cc =>
    simp only [Except.ok.injEq, exists_eq_left', scoreWrite]
    by_cases own : cc.addr = k
    · rw [if_pos own, Option.isSome_map, forall_prop_of_true own]
      constructor
      · intro nonneg
        obtain ⟨item, written⟩ := exists_encodeRLP { cc with score := v }
          (nonneg_of_getCandidateContext found).1 nonneg
        rw [written]
        rfl
      · intro written
        obtain ⟨item, written⟩ := Option.isSome_iff_exists.mp written
        exact (encodeRLP_eq_some written).2.1
    · simp [own]

theorem commitScores_eq_none_iff {scores : List (Address × Int)}
    (distinct : (scores.map Prod.fst).Nodup) (dc : DposContext) :
    (commitScores scores dc).2 = none ↔ ∀ k v, (k, v) ∈ scores → Writable dc k v := by
  induction scores generalizing dc with
  | nil => simp [commitScores]
  | cons entry rest ih =>
    obtain ⟨k, v⟩ := entry
    rw [List.map_cons, List.nodup_cons] at distinct
    rcases commitScores_cases k v rest dc with ⟨written, write, same⟩ | ⟨fails, failed⟩
    · have first : Writable dc k v := writable_iff.mpr (by rw [write]; rfl)
      have later : ∀ k' v', (k', v') ∈ rest →
          (Writable (putRecord dc k written) k' v' ↔ Writable dc k' v') := by
        intro k' v' member
        have different : k ≠ k' := by
          rintro rfl
          exact distinct.1 (List.mem_map.mpr ⟨(k, v'), member, rfl⟩)
        rw [Writable, Writable, getCandidateContext_putRecord different
          fun value stored => scoreWrite_ne_nil (stored ▸ write)]
      rw [same, ih distinct.2]
      constructor
      · intro all k' v' member
        rcases List.mem_cons.mp member with entry | member
        · cases entry
          exact first
        · exact (later k' v' member).mp (all k' v' member)
      · intro all k' v' member
        exact (later k' v' member).mpr (all k' v' (List.mem_cons_of_mem _ member))
    · refine iff_of_false failed fun all => ?_
      have first := writable_iff.mp (all k v List.mem_cons_self)
      rw [fails] at first
      cases first

theorem exists_of_countVotes {votes : Std.ExtTreeMap Address Int}
    (counted : countVotes dc statedb = some votes) : ∃ a : Address, votes[a]? ≠ none := by
  cases listed : dc.candidateTrie.nodeIterator with
  | nil =>
    rw [countVotes_eq_none_iff.mpr listed] at counted
    cases counted
  | cons first rest =>
    refine ⟨decodedAddr first.2, ?_⟩
    have read : 0 < timesRead (first :: rest) (decodedAddr first.2) :=
      List.count_pos_iff.mpr List.mem_cons_self
    rw [countVotes_get counted, listed, tallyOf, if_neg read.ne']
    exact Option.some_ne_none _

/-- An election goes through exactly if there are candidates whose scores can be
written back; votes that were counted are never too few. -/
theorem tryElect_eq_none_iff {keccak : Bytes → Hash} {maxValidatorSize : Nat} :
    (tryElect keccak maxValidatorSize commitOrder rankOrder dc statedb).2 = none ↔
      Electable dc statedb := by
  rw [tryElect, Electable]
  cases counted : countVotes dc statedb with
  | none => simp
  | some votes =>
    simp only [Option.some.injEq, exists_eq_left']
    have visited := commitOrder.perm votes.toList
    have distinct : ((commitOrder.visit votes.toList).map Prod.fst).Nodup := by
      rw [(visited.map Prod.fst).nodup_iff, Std.ExtTreeMap.map_fst_toList_eq_keys]
      exact Std.ExtTreeMap.nodup_keys
    have written := commitScores_eq_none_iff distinct dc
    simp only [visited.mem_iff] at written
    have enough : ¬ (rankOrder.visit votes.toList).length < safeSize := by
      obtain ⟨a, present⟩ := exists_of_countVotes counted
      obtain ⟨v, found⟩ := Option.ne_none_iff_exists'.mp present
      have member := Std.ExtTreeMap.mem_toList_iff_getElem?_eq_some.mpr found
      have positive := List.length_pos_of_mem ((rankOrder.perm _).mem_iff.mpr member)
      exact not_lt.mpr positive
    rw [← written]
    generalize commitScores (commitOrder.visit votes.toList) dc = result
    obtain ⟨middle, err⟩ := result
    cases err with
    | some err => simp
    | none =>
      dsimp only
      rw [if_neg enough]
      exact iff_of_true rfl rfl

/-! ### The orders of the maps -/

/-- Records of different candidates may be written in either order. -/
theorem putRecord_comm {k' : Address} {written' : Option Bytes} (different : k ≠ k')
    (stored : ∀ value, written = some value → value ≠ [])
    (stored' : ∀ value, written' = some value → value ≠ []) :
    putRecord (putRecord dc k written) k' written' =
      putRecord (putRecord dc k' written') k written := by
  cases written with
  | none => rfl
  | some value =>
    cases written' with
    | none => rfl
    | some value' =>
      have keys : k.data ≠ k'.data := fun equal => different (FixedBytes.data_inj equal)
      rw [putRecord, putRecord, putRecord, putRecord]
      congr 1
      apply TrieMap.ext_tryGet
      intro key
      simp only [TrieMap.tryGet_tryUpdate _ (stored value rfl),
        TrieMap.tryGet_tryUpdate _ (stored' value' rfl)]
      by_cases first : k.data = key
      · have second : k'.data ≠ key := fun equal => keys (first.trans equal.symm)
        simp only [if_pos first, if_neg second]
      · simp only [if_neg first]

theorem commitScores_perm {scores scores' : List (Address × Int)} (arranged : scores.Perm scores')
    (distinct : (scores.map Prod.fst).Nodup) {dc : DposContext}
    (done : (commitScores scores dc).2 = none) : commitScores scores' dc = commitScores scores dc := by
  induction arranged generalizing dc with
  | nil => rfl
  | @cons entry l l' _ ih =>
    rw [List.map_cons, List.nodup_cons] at distinct
    obtain ⟨written, write, rest⟩ := commitScores_cons done
    rw [rest] at done
    rw [commitScores_of_scoreWrite write, rest, ih distinct.2 done]
  | swap first second l =>
    obtain ⟨k, v⟩ := first
    obtain ⟨k', v'⟩ := second
    have different : k' ≠ k := by
      intro same
      simp [same] at distinct
    obtain ⟨written', write', rest'⟩ := commitScores_cons done
    have stored' (value : Bytes) (same : written' = some value) : value ≠ [] :=
      scoreWrite_ne_nil (same ▸ write')
    rw [rest'] at done
    obtain ⟨written, write, rest⟩ := commitScores_cons done
    have stored (value : Bytes) (same : written = some value) : value ≠ [] :=
      scoreWrite_ne_nil (same ▸ write)
    rw [getCandidateContext_putRecord different stored'] at write
    have again : scoreWrite k' v' ((putRecord dc k written).getCandidateContext k') =
        some written' := by
      rw [getCandidateContext_putRecord different.symm stored]
      exact write'
    rw [rest', rest, commitScores_of_scoreWrite write, commitScores_of_scoreWrite again,
      putRecord_comm different stored' stored]
  | trans first _ ih ih' =>
    have same := ih distinct done
    rw [← same] at done
    rw [ih' ((first.map Prod.fst).nodup_iff.mp distinct) done, same]

/-- An election that goes through has one outcome, whatever the orders of the
maps. -/
theorem tryElect_orders {keccak : Bytes → Hash} {maxValidatorSize : Nat}
    (held : (tryElect keccak maxValidatorSize commitOrder rankOrder dc statedb).2 = none)
    (commitOrder' rankOrder' : MapOrder) :
    tryElect keccak maxValidatorSize commitOrder' rankOrder' dc statedb =
      tryElect keccak maxValidatorSize commitOrder rankOrder dc statedb := by
  rw [tryElect] at held ⊢
  rw [tryElect]
  cases counted : countVotes dc statedb with
  | none => rfl
  | some votes =>
    rw [counted] at held
    dsimp only at held ⊢
    have keys : (votes.toList.map Prod.fst).Nodup := by
      rw [Std.ExtTreeMap.map_fst_toList_eq_keys]
      exact Std.ExtTreeMap.nodup_keys
    have visited := commitOrder.perm votes.toList
    have visited' := commitOrder'.perm votes.toList
    have distinct := (visited.map Prod.fst).nodup_iff.mpr keys
    have committed : (commitScores (commitOrder.visit votes.toList) dc).2 = none := by
      generalize commitScores (commitOrder.visit votes.toList) dc = result at held
      obtain ⟨middle, err⟩ := result
      cases err with
      | none => rfl
      | some err => cases held
    rw [commitScores_perm (visited.trans visited'.symm) distinct committed]
    have arranged := (rankOrder'.perm votes.toList).trans (rankOrder.perm votes.toList).symm
    have ranked : electedFrom keccak maxValidatorSize (rankOrder'.visit votes.toList) =
        electedFrom keccak maxValidatorSize (rankOrder.visit votes.toList) := by
      have sorted := (Sorting.insertion (ranksBefore keccak)).sort_eq
        (Sorting.insertion (ranksBefore keccak)) arranged
      rw [electedFrom, electedFrom]
      refine congrArg (List.take maxValidatorSize) (sorted ?_)
      intro a left b right first second
      have same := fst_eq_of_ranksBefore first second
      have listed := rankOrder'.perm votes.toList
      exact List.inj_on_of_nodup_map keys (listed.mem_iff.mp left) (listed.mem_iff.mp right) same
    rw [ranked, arranged.length_eq]

end

/-- `Finalize` finds the parent, reads the validators and, if an election is due,
holds it. -/
structure Completes (e : Engine) (chain : Chain) (h : Header) (dc : DposContext)
    (statedb : StateDB) : Prop where
  parent : Fields.getHeader e.crypto chain h.parentHash ((num h + (2 ^ 64 - 1)) % 2 ^ 64) ≠ none
  validators : dc.getValidators ≠ none
  election : num h % e.epoch = 0 → Electable dc statedb

section
variable {engine : StakingEngine} {e : Engine} {chain : Chain} {h : Header}
  {opened dc : DposContext} {choices : Choices opened} {db : Layers e.rootOf} {statedb : StateDB}

theorem electIfDue_eq_none_iff :
    (electIfDue engine e h commitOrder rankOrder dc statedb).2 = none ↔
      (num h % e.epoch = 0 → Electable dc statedb) := by
  rw [electIfDue]
  by_cases due : num h % e.epoch = 0
  · rw [if_pos due, tryElect_eq_none_iff, forall_prop_of_true due]
  · rw [if_neg due, forall_prop_of_false due]
    exact iff_of_true rfl trivial

/-- Only the engine `dbft` writes, and only at the end of `Finalize`. -/
theorem finalize_cases {backed : Backed e.rootOf} {outcome : Except FinalizeError Unit}
    (done : finalize engine e chain h choices db dc statedb = some (backed, outcome)) :
    (engine = .dbft ∧ Completes e chain h dc statedb ∧
        backed.db = db.commitTo (choices.marks backed.dc)) ∨
      (¬ (engine = .dbft ∧ Completes e chain h dc statedb) ∧ backed.db = db) := by
  rw [finalize] at done
  cases known : Fields.getHeader e.crypto chain h.parentHash ((num h + (2 ^ 64 - 1)) % 2 ^ 64) with
  | none =>
    rw [known] at done
    cases done
    exact .inr ⟨fun complete => complete.2.parent known, rfl⟩
  | some parent =>
    rw [known] at done
    cases read : dc.getValidators with
    | none =>
      rw [read] at done
      cases done
      exact .inr ⟨fun complete => complete.2.validators read, rfl⟩
    | some validators =>
      rw [read] at done
      have held : (electIfDue engine e h choices.commitOrder choices.rankOrder dc
          statedb).2 = none ↔ (num h % e.epoch = 0 → Electable dc statedb) :=
        electIfDue_eq_none_iff
      generalize electIfDue engine e h choices.commitOrder choices.rankOrder dc statedb = result
        at done held
      obtain ⟨after, err⟩ := result
      cases err with
      | some err =>
        cases done
        right
        refine ⟨fun complete => ?_, rfl⟩
        exact Option.some_ne_none err (held.mpr complete.2.election)
      | none =>
        cases engine with
        | dpos =>
          obtain ⟨counted, _, same⟩ := Option.map_eq_some_iff.mp done
          cases same
          right
          refine ⟨?_, rfl⟩
          rintro ⟨⟨⟩, _⟩
        | dbft =>
          cases done
          left
          refine ⟨rfl, ⟨?_, ?_, held.mp rfl⟩, rfl⟩
          · rw [known]
            exact Option.some_ne_none parent
          · rw [read]
            exact Option.some_ne_none validators

theorem electIfDue_orders {choices : Choices opened} {other : DposContext} (choices' : Choices other)
    (held : (electIfDue engine e h choices.commitOrder choices.rankOrder dc statedb).2 = none) :
    electIfDue engine e h choices'.commitOrder choices'.rankOrder dc statedb =
      electIfDue engine e h choices.commitOrder choices.rankOrder dc statedb := by
  rw [electIfDue] at held ⊢
  rw [electIfDue]
  split
  · rename_i due
    rw [if_pos due] at held
    exact tryElect_orders held _ _
  · rfl

/-- What `Finalize` reads of a header is not changed by sealing it. -/
structure SealedFrom (h sealed : Header) : Prop where
  number : num sealed = num h
  coinbase : sealed.coinbase = h.coinbase

/-- `Finalize` that succeeds leaves one context, whatever is left to the runtime,
whatever database is behind it and on whatever chain that has the parent. -/
theorem finalize_orders {backed : Backed e.rootOf}
    (done : finalize engine e chain h choices db dc statedb = some (backed, .ok ()))
    {other : DposContext} (choices' : Choices other) (db' : Layers e.rootOf) {chain' : Chain}
    {h' : Header} (same : SealedFrom h h')
    (parent' : (Fields.getHeader e.crypto chain' h'.parentHash
      ((num h' + (2 ^ 64 - 1)) % 2 ^ 64)).isSome) :
    ∃ backed', finalize engine e chain' h' choices' db' dc statedb = some (backed', .ok ()) ∧
      backed'.dc = backed.dc := by
  obtain ⟨parent', known'⟩ := Option.isSome_iff_exists.mp parent'
  have due : electIfDue engine e h' choices'.commitOrder choices'.rankOrder dc statedb =
      electIfDue engine e h choices'.commitOrder choices'.rankOrder dc statedb := by
    rw [electIfDue, electIfDue, same.number]
  rw [finalize] at done ⊢
  rw [known', due, same.coinbase]
  cases known : Fields.getHeader e.crypto chain h.parentHash ((num h + (2 ^ 64 - 1)) % 2 ^ 64) with
  | none =>
    rw [known] at done
    cases done
  | some parent =>
    rw [known] at done
    cases read : dc.getValidators with
    | none =>
      rw [read] at done
      cases done
    | some validators =>
      rw [read] at done
      have held : (electIfDue engine e h choices.commitOrder choices.rankOrder dc
          statedb).2 = none := by
        generalize electIfDue engine e h choices.commitOrder choices.rankOrder dc statedb =
          result at done
        obtain ⟨after, err⟩ := result
        cases err with
        | none => rfl
        | some err => cases done
      rw [electIfDue_orders choices' held]
      generalize electIfDue engine e h choices.commitOrder choices.rankOrder dc statedb =
        result at done held
      obtain ⟨after, err⟩ := result
      subst held
      cases engine with
      | dpos =>
        obtain ⟨counted, count, same⟩ := Option.map_eq_some_iff.mp done
        cases same
        refine ⟨⟨counted, db'⟩, ?_, rfl⟩
        dsimp only
        rw [count]
        rfl
      | dbft =>
        cases done
        exact ⟨_, rfl, rfl⟩

end

end Linkeye.Consensus.Execution
