import Linkeye.Core.Delegations
import Linkeye.Dbft.Ballots

/-!
# Candidates and their votes

What `countVotes` adds up over the records that `SetCandidateContext` writes,
and what it makes of a candidate that `BecomeCandidate` has registered: the
entry is the bare address there, and no reader decodes it.
-/

set_option autoImplicit false

namespace Linkeye.Dpos.Candidates

open Common.Types Core.Delegations Core.Dpos Core.Stakes Core.StateProcessor Dbft.Ballots
open Dbft.Election Rlp.Decode Trie.Contents

/-! ## The sum of the delegators -/

theorem score_eq_sum {dc : DposContext} (entries : DelegateEntries dc.delegateTrie)
    (statedb : StateDB) (c : Address) :
    ∃ delegators : Finset Address, (∀ d, d ∈ delegators ↔ dc.Delegated d c) ∧
      score dc statedb c = ∑ d ∈ delegators, statedb.getBalance d := by
  refine ⟨(delegatorsOf dc c).toFinset, fun d => ?_, ?_⟩
  · rw [List.mem_toFinset, mem_delegatorsOf entries]
  · rw [List.sum_toFinset _ (nodup_delegatorsOf entries), score]

def fiveCoins : StateDB := ⟨(∅ : Std.ExtTreeMap Address Int).insert (bytesToAddress [9]) 5, []⟩

def becomeCandidate (dc : DposContext) (candidateAddr : Address) : DposContext :=
  { dc with
    candidateTrie := dc.candidateTrie.tryUpdate candidateAddr.data candidateAddr.data }

def readField {α : Type} (fuel : Nat) (decode : Rlp.Encode.Item → Option α) (content : Bytes) :
    Option (α × Bytes) :=
  match decodeValue fuel content with
  | none => none
  | some (item, rest) => (decode item).map fun field => (field, rest)

/-- The fields in the order they are decoded; the first failure ends it. -/
def decodedFields (fuel : Nat) (content : Bytes) : CandidateContext :=
  match readField fuel (decodeByteArray 20) content with
  | none => CandidateContext.zero
  | some (addr, content) =>
    match readField fuel (decodeUint 8) content with
    | none => { CandidateContext.zero with addr := addr }
    | some (state, content) =>
      match readField fuel decodeBigInt content with
      | none => { CandidateContext.zero with addr := addr, state := CoinState.ofNat state }
      | some (blockNumber, content) =>
        match readField fuel decodeBigInt content with
        | none => ⟨addr, CoinState.ofNat state, blockNumber, 0⟩
        | some (score, _) => ⟨addr, CoinState.ofNat state, blockNumber, score⟩

/-- `cc` after `rlp.DecodeBytes(candidate, &cc)`, whose error is ignored. -/
def decodedContext (candidate : Bytes) : CandidateContext :=
  match readKind candidate with
  | some (.list size, rest) =>
    if rest.length < size then CandidateContext.zero
    else decodedFields (2 * rest.length + 2) (rest.take size)
  | _ => CandidateContext.zero

def getCandidates (dc : DposContext) : List CandidateContext :=
  dc.candidateTrie.nodeIterator.map fun entry => decodedContext entry.2

theorem addr_decodedFields (fuel : Nat) (content : Bytes) :
    (decodedFields fuel content).addr =
      match decodeValue fuel content with
      | some (addr, _) => (decodeByteArray 20 addr).getD zeroAddress
      | none => zeroAddress := by
  rw [decodedFields, readField]
  cases decodeValue fuel content with
  | none => rfl
  | some first =>
    dsimp only
    cases decodeByteArray 20 first.1 with
    | none => rfl
    | some addr =>
      dsimp only [Option.map_some]
      split
      · rfl
      · split
        · rfl
        · split <;> rfl

/-- `GetCandidates` and `countVotes` read the same addresses. -/
theorem addr_decodedContext (candidate : Bytes) :
    (decodedContext candidate).addr = decodedAddr candidate := by
  rw [decodedContext.eq_def, decodedAddr.eq_def]
  cases readKind candidate with
  | none => rfl
  | some first =>
    obtain ⟨kind, rest⟩ := first
    cases kind with
    | byte value => rfl
    | string size => rfl
    | list size =>
      dsimp only
      split
      · rfl
      · exact addr_decodedFields _ _

theorem listed_iff (dc : DposContext) (c : Address) :
    (∃ cc ∈ getCandidates dc, cc.addr = c) ↔
      timesRead dc.candidateTrie.nodeIterator c ≠ 0 := by
  rw [← Nat.pos_iff_ne_zero, timesRead, List.count_pos_iff]
  simp only [getCandidates, List.mem_map, exists_exists_and_eq_and, addr_decodedContext]

theorem isCandidate_becomeCandidate (dc : DposContext) (c : Address) :
    (becomeCandidate dc c).IsCandidate c := by
  rw [DposContext.IsCandidate, becomeCandidate, TrieMap.tryGet_tryUpdate _ (data_ne_nil c),
    if_pos rfl]
  exact Option.some_ne_none _

/-- What is expected of a candidate registered with `BecomeCandidate`; `later` is
the context in which it is listed and counted. -/
structure Registered (dc later : DposContext) (c : Address) (statedb : StateDB) : Prop where
  delegates : ∀ cc : CandidateContext, cc.addr = c → cc.encodeRLP ≠ none →
    ∀ d blockNum balance, ((becomeCandidate dc c).delegate d c blockNum balance).2 =
      ((dc.setCandidateContext cc).1.delegate d c blockNum balance).2
  listed : ∃ cc ∈ getCandidates later, cc.addr = c
  counted : ∃ votes, countVotes later statedb = some votes ∧
    votes[c]? = some (score later statedb c)

theorem delegates_alike (dc : DposContext) {cc : CandidateContext} (written : cc.encodeRLP ≠ none)
    (d : Address) (blockNum balance : Int) :
    ((becomeCandidate dc cc.addr).delegate d cc.addr blockNum balance).2 =
      ((dc.setCandidateContext cc).1.delegate d cc.addr blockNum balance).2 := by
  obtain ⟨item, encoded⟩ := Option.ne_none_iff_exists'.mp written
  have candidate : (dc.setCandidateContext cc).1.IsCandidate cc.addr := by
    rw [DposContext.IsCandidate, tryGet_setCandidateContext encoded, if_pos rfl]
    exact Option.some_ne_none _
  have votes : (becomeCandidate dc cc.addr).voteTrie = (dc.setCandidateContext cc).1.voteTrie := by
    rw [DposContext.setCandidateContext_onlyCandidates]
    rfl
  rw [DposContext.delegate, DposContext.delegate, if_neg candidate,
    if_neg (isCandidate_becomeCandidate dc cc.addr), DposContext.oldVote, DposContext.oldVote, votes]
  split
  · rfl
  · split <;> rfl

/-- Whatever is delegated after it, a candidate registered with `BecomeCandidate`
is listed and counted right exactly if one entry is read as its record, or
several and its delegators own nothing. -/
theorem becomeCandidate_registers_iff (dc : DposContext) (c : Address)
    (delegateTrie voteTrie : TrieMap) (statedb : StateDB) :
    let later := { becomeCandidate dc c with delegateTrie := delegateTrie, voteTrie := voteTrie }
    Registered dc later c statedb ↔
      timesRead later.candidateTrie.nodeIterator c = 1 ∨
        timesRead later.candidateTrie.nodeIterator c ≠ 0 ∧ score later statedb c = 0 := by
  intro later
  have counted_iff {votes : Std.ExtTreeMap Address Int}
      (counted : countVotes later statedb = some votes) :
      votes[c]? = some (score later statedb c) ↔
        timesRead later.candidateTrie.nodeIterator c ≠ 0 ∧
          (timesRead later.candidateTrie.nodeIterator c * score later statedb c : Int) =
            score later statedb c := by
    rw [countVotes_get counted, tallyOf]
    split
    · rename_i never
      simp [never]
    · rename_i read
      simp [read]
  constructor
  · rintro ⟨_, _, votes, counted, right⟩
    obtain ⟨read, product⟩ := (counted_iff counted).mp right
    by_cases nothing : score later statedb c = 0
    · exact .inr ⟨read, nothing⟩
    · exact .inl (by exact_mod_cast (mul_eq_right₀ nothing).mp product)
  · intro reads
    have read : timesRead later.candidateTrie.nodeIterator c ≠ 0 := by
      rcases reads with once | ⟨read, _⟩
      · rw [once]
        exact one_ne_zero
      · exact read
    refine ⟨?_, (listed_iff later c).mpr read, ?_⟩
    · rintro cc rfl written d blockNum balance
      exact delegates_alike dc written d blockNum balance
    · cases counted : countVotes later statedb with
      | none =>
        rw [countVotes_eq_none_iff.mp counted] at read
        exact absurd rfl read
      | some votes =>
        refine ⟨votes, rfl, (counted_iff counted).mpr ⟨read, ?_⟩⟩
        rcases reads with once | ⟨_, nothing⟩
        · rw [once, Nat.cast_one, one_mul]
        · rw [nothing, mul_zero]

/-- Address 9 delegates to the bare candidate 1: both the list and the votes have
the zero address in its place. -/
theorem bare_candidate_uncounted :
    let dc := becomeCandidate newDposContext (bytesToAddress [1])
    let later := dc.delegate (bytesToAddress [9]) (bytesToAddress [1]) 1 1
    later.2 = none ∧ getCandidates later.1 = [CandidateContext.zero] ∧
      (countVotes later.1 fiveCoins).map (fun votes => votes.toList) = some [(zeroAddress, 0)] ∧
      ¬ Registered newDposContext later.1 (bytesToAddress [1]) fiveCoins := by
  have listed : getCandidates ((becomeCandidate newDposContext (bytesToAddress [1])).delegate
      (bytesToAddress [9]) (bytesToAddress [1]) 1 1).1 = [CandidateContext.zero] := by
    decide +kernel
  refine ⟨by decide +kernel, listed, by decide +kernel, fun registered => ?_⟩
  obtain ⟨cc, member, own⟩ := registered.listed
  rw [listed, List.mem_singleton] at member
  subst member
  revert own
  decide

end Linkeye.Dpos.Candidates
