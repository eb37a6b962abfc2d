import Linkeye.Core.StateProcessor

/-!
# Elections

`countVotes`, `CommitScores` and `tryElect` of `epoch_context.go`.  Go visits a
map in any order, so every loop over the votes takes the order as an argument.
The file is the same in packages `dpos` and `dbft/backend`; the two differ in
`maxValidatorSize`.
-/

set_option autoImplicit false

namespace Linkeye.Dbft.Election

open Std Common.Types Core.Dpos Core.StateProcessor Rlp.Decode Trie.Contents

/-- An order in which `range` visits the entries of a map. -/
structure MapOrder where
  visit : List (Address × Int) → List (Address × Int)
  perm : ∀ entries, (visit entries).Perm entries

def inKeyOrder : MapOrder := ⟨id, fun _ => List.Perm.refl _⟩

/-- The address in `cc` after `rlp.DecodeBytes(candidate, &cc)`, whose error is
ignored: the first field is kept even when a later one fails. -/
def decodedAddr (candidate : Bytes) : Address :=
  match readKind candidate with
  | some (.list size, rest) =>
    if rest.length < size then zeroAddress
    else
      match decodeValue (2 * rest.length + 2) (rest.take size) with
      | some (addr, _) => (decodeByteArray 20 addr).getD zeroAddress
      | none => zeroAddress
  | _ => zeroAddress

/-- The delegators whose balances `countVotes` adds to the score of a candidate. -/
def delegatorsOf (dc : DposContext) (candidateAddr : Address) : List Address :=
  (dc.delegateTrie.prefixIterator candidateAddr.data).map fun entry => bytesToAddress entry.2

def addWeights (statedb : StateDB) (candidateAddr : Address) :
    List Address → ExtTreeMap Address Int → ExtTreeMap Address Int
  | [], votes => votes
  | delegatorAddr :: rest, votes =>
    let score := votes.getD candidateAddr 0
    addWeights statedb candidateAddr rest
      (votes.insert candidateAddr (score + statedb.getBalance delegatorAddr))

def countCandidate (dc : DposContext) (statedb : StateDB) (votes : ExtTreeMap Address Int)
    (candidate : Bytes) : ExtTreeMap Address Int :=
  let candidateAddr := decodedAddr candidate
  match delegatorsOf dc candidateAddr with
  | [] => votes.insert candidateAddr 0
  | delegators => addWeights statedb candidateAddr delegators votes

/-- `none` is the error "no candidates". -/
def countVotes (dc : DposContext) (statedb : StateDB) : Option (ExtTreeMap Address Int) :=
  match dc.candidateTrie.nodeIterator with
  | [] => none
  | entries =>
    some (entries.foldl (fun votes entry => countCandidate dc statedb votes entry.2) ∅)

/-- `CommitScores` over the scores in the order they are visited; the first
error ends the loop. -/
def commitScores : List (Address × Int) → DposContext → DposContext × Option DposError
  | [], dc => (dc, none)
  | (k, v) :: rest, dc =>
    match dc.getCandidateContext k with
    | .error e => (dc, some e)
    | .ok cc =>
      if cc.addr = k then
        match dc.setCandidateContext { cc with score := v } with
        | (dc, some e) => (dc, some e)
        | (dc, none) => commitScores rest dc
      else commitScores rest dc

inductive ElectError where
  | noCandidates
  | commitScores (err : DposError)
  | tooFewCandidates

def safeSize : Nat := 1

/-- `SortableAddresses.Less`, as "not after". -/
def ranksBefore (keccak : Bytes → Hash) (a b : Address × Int) : Prop :=
  b.2 < a.2 ∨ (b.2 = a.2 ∧
    (compare (addressString keccak a.1) (addressString keccak b.1)).isLE = true)

instance (keccak : Bytes → Hash) : DecidableRel (ranksBefore keccak) :=
  fun _ _ => inferInstanceAs (Decidable (_ ∨ _))

def electedFrom (keccak : Bytes → Hash) (maxValidatorSize : Nat)
    (candidates : List (Address × Int)) : List (Address × Int) :=
  (candidates.insertionSort (ranksBefore keccak)).take maxValidatorSize

/-- A new epoch trie with the elected validators and their weights. -/
def setElected (dc : DposContext) (elected : List (Address × Int)) : DposContext :=
  DposContext.setSortableAddresses
    (DposContext.setValidators { dc with epochTrie := TrieMap.empty } (elected.map Prod.fst))
    elected

/-- `tryElect`; the call of `kickoutValidator` is commented out in the source. -/
def tryElect (keccak : Bytes → Hash) (maxValidatorSize : Nat) (commitOrder rankOrder : MapOrder)
    (dc : DposContext) (statedb : StateDB) : DposContext × Option ElectError :=
  match countVotes dc statedb with
  | none => (dc, some .noCandidates)
  | some votes =>
    match commitScores (commitOrder.visit votes.toList) dc with
    | (dc, some e) => (dc, some (.commitScores e))
    | (dc, none) =>
      let candidates := rankOrder.visit votes.toList
      if candidates.length < safeSize then (dc, some .tooFewCandidates)
      else (setElected dc (electedFrom keccak maxValidatorSize candidates), none)

/-! ## What an election leaves alone -/

/-- The delegations, the votes and the mint counts are those of before. -/
structure KeepsVotes (dc after : DposContext) : Prop where
  delegateTrie : after.delegateTrie = dc.delegateTrie
  voteTrie : after.voteTrie = dc.voteTrie
  mintCntTrie : after.mintCntTrie = dc.mintCntTrie

variable (dc : DposContext)

theorem KeepsVotes.refl : KeepsVotes dc dc := ⟨rfl, rfl, rfl⟩

variable {after : DposContext}

theorem KeepsVotes.trans {dc middle : DposContext} (first : KeepsVotes dc middle)
    (second : KeepsVotes middle after) : KeepsVotes dc after where
  delegateTrie := second.delegateTrie.trans first.delegateTrie
  voteTrie := second.voteTrie.trans first.voteTrie
  mintCntTrie := second.mintCntTrie.trans first.mintCntTrie

theorem keepsVotes_of_onlyCandidates {dc : DposContext}
    (only : DposContext.OnlyCandidates dc after) : KeepsVotes dc after := by
  rw [only]
  exact ⟨rfl, rfl, rfl⟩

theorem commitScores_onlyCandidates (scores : List (Address × Int)) (dc : DposContext) :
    DposContext.OnlyCandidates dc (commitScores scores dc).1 := by
  induction scores generalizing dc with
  | nil => exact DposContext.OnlyCandidates.refl dc
  | cons entry rest ih =>
    obtain ⟨k, v⟩ := entry
    rw [commitScores]
    cases dc.getCandidateContext k with
    | error e => exact DposContext.OnlyCandidates.refl dc
    | ok cc =>
      dsimp only
      by_cases own : cc.addr = k
      · have written :=
          DposContext.setCandidateContext_onlyCandidates dc { cc with score := v }
        rw [if_pos own]
        cases result : dc.setCandidateContext { cc with score := v } with
        | mk middle err =>
          rw [result] at written
          cases err with
          | some e => exact written
          | none => exact written.trans (ih middle)
      · rw [if_neg own]
        exact ih dc

theorem setSortableAddresses_keepsVotes (sa : List (Address × Int)) :
    KeepsVotes dc (dc.setSortableAddresses sa) := by
  rw [DposContext.setSortableAddresses]
  split
  · exact KeepsVotes.refl dc
  · exact ⟨rfl, rfl, rfl⟩

theorem setElected_keepsVotes (elected : List (Address × Int)) :
    KeepsVotes dc (setElected dc elected) := by
  have validators : KeepsVotes dc
      (DposContext.setValidators { dc with epochTrie := TrieMap.empty } (elected.map Prod.fst)) :=
    ⟨rfl, rfl, rfl⟩
  exact validators.trans (setSortableAddresses_keepsVotes _ elected)

theorem tryElect_keepsVotes (keccak : Bytes → Hash) (maxValidatorSize : Nat)
    (commitOrder rankOrder : MapOrder) (dc : DposContext) (statedb : StateDB) :
    KeepsVotes dc (tryElect keccak maxValidatorSize commitOrder rankOrder dc statedb).1 := by
  rw [tryElect]
  cases countVotes dc statedb with
  | none => exact KeepsVotes.refl dc
  | some votes =>
    have committed := keepsVotes_of_onlyCandidates
      (commitScores_onlyCandidates (commitOrder.visit votes.toList) dc)
    dsimp only
    cases run : commitScores (commitOrder.visit votes.toList) dc with
    | mk middle err =>
      rw [run] at committed
      cases err with
      | some e => exact committed
      | none =>
        dsimp only
        split
        · exact committed
        · exact committed.trans (setElected_keepsVotes middle _)

/-! ## Delegators -/

section
variable {dc : DposContext} (entries : DelegateEntries dc.delegateTrie) {c d : Address}
include entries

theorem mem_delegatorsOf : d ∈ delegatorsOf dc c ↔ dc.Delegated d c := by
  rw [delegatorsOf, List.mem_map, DposContext.Delegated, Option.ne_none_iff_exists']
  constructor
  · rintro ⟨⟨key, value⟩, visited, rfl⟩
    obtain ⟨stored, d, rfl, rfl⟩ := entries.mem_prefixIterator.mp visited
    rw [bytesToAddress_data]
    exact ⟨_, stored⟩
  · rintro ⟨value, stored⟩
    obtain ⟨c', d', same, rfl⟩ := entries _ value stored
    obtain ⟨rfl, rfl⟩ := key_inj.mp same
    exact ⟨(_, _), entries.mem_prefixIterator.mpr ⟨stored, _, rfl, rfl⟩, bytesToAddress_data _⟩

theorem nodup_delegatorsOf : (delegatorsOf dc c).Nodup := by
  have keys : (delegatorsOf dc c).map (fun d => c.data ++ d.data) =
      (dc.delegateTrie.prefixIterator c.data).map Prod.fst := by
    rw [delegatorsOf, List.map_map]
    apply List.map_congr_left
    rintro ⟨key, value⟩ visited
    obtain ⟨_, d, rfl, rfl⟩ := entries.mem_prefixIterator.mp visited
    rw [Function.comp_apply, bytesToAddress_data]
  apply List.Nodup.of_map fun d : Address => c.data ++ d.data
  rw [keys]
  exact (TrieMap.distinct_nodeIterator _).sublist (List.filter_sublist.map Prod.fst)

end

/-! ## The elected validators -/

/-- The steps of an election that goes through. -/
theorem tryElect_eq_none {keccak : Bytes → Hash} {maxValidatorSize : Nat}
    {commitOrder rankOrder : MapOrder} {dc : DposContext} {statedb : StateDB}
    (elected : tryElect keccak maxValidatorSize commitOrder rankOrder dc statedb = (after, none)) :
    ∃ votes middle, countVotes dc statedb = some votes ∧
      commitScores (commitOrder.visit votes.toList) dc = (middle, none) ∧
      after = setElected middle
        (electedFrom keccak maxValidatorSize (rankOrder.visit votes.toList)) := by
  rw [tryElect] at elected
  cases counted : countVotes dc statedb with
  | none => simp [counted] at elected
  | some votes =>
    rw [counted] at elected
    dsimp only at elected
    cases run : commitScores (commitOrder.visit votes.toList) dc with
    | mk middle err =>
      rw [run] at elected
      cases err with
      | some e => simp at elected
      | none =>
        dsimp only at elected
        split at elected
        · simp at elected
        · exact ⟨votes, middle, rfl, run, (Prod.mk.inj elected).1.symm⟩

theorem getValidators_setElected {elected : List (Address × Int)}
    (few : elected.length ≤ 11) :
    (setElected dc elected).getValidators = some (elected.map Prod.fst) := by
  rw [setElected, getValidators_setSortableAddresses]
  apply getValidators_setValidators
  apply encode_addresses_short
  rwa [List.length_map]

theorem electedFrom_length_le (keccak : Bytes → Hash) (maxValidatorSize : Nat)
    (candidates : List (Address × Int)) :
    (electedFrom keccak maxValidatorSize candidates).length ≤ maxValidatorSize := by
  rw [electedFrom, List.length_take]
  exact Nat.min_le_left _ _

/-! ## Candidates stay candidates -/

theorem setSortableAddresses_candidateTrie (sa : List (Address × Int)) :
    (dc.setSortableAddresses sa).candidateTrie = dc.candidateTrie := by
  rw [DposContext.setSortableAddresses]
  split
  · rfl
  · rfl

theorem setElected_candidateTrie (elected : List (Address × Int)) :
    (setElected dc elected).candidateTrie = dc.candidateTrie := by
  rw [setElected, setSortableAddresses_candidateTrie]
  rfl

/-- One score: the loop goes on with the record rewritten, or untouched where it
is not the candidate's own, or it stops. -/
theorem commitScores_cons {k : Address} {v : Int} {rest : List (Address × Int)}
    {dc : DposContext} (run : commitScores ((k, v) :: rest) dc = (after, none)) :
    ∃ cc, dc.getCandidateContext k = .ok cc ∧
      ((cc.addr = k ∧ ∃ middle, dc.setCandidateContext { cc with score := v } = (middle, none) ∧
          commitScores rest middle = (after, none)) ∨
        (cc.addr ≠ k ∧ commitScores rest dc = (after, none))) := by
  rw [commitScores] at run
  cases found : dc.getCandidateContext k with
  | error e => simp [found] at run
  | ok cc =>
    rw [found] at run
    dsimp only at run
    refine ⟨cc, rfl, ?_⟩
    by_cases own : cc.addr = k
    · rw [if_pos own] at run
      cases written : dc.setCandidateContext { cc with score := v } with
      | mk middle err =>
        rw [written] at run
        cases err with
        | some e => simp at run
        | none => exact .inl ⟨own, middle, rfl, run⟩
    · rw [if_neg own] at run
      exact .inr ⟨own, run⟩

end Linkeye.Dbft.Election
