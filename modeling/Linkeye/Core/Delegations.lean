import Linkeye.Core.Dpos

/-!
# Votes and delegations agree

Runs of the calls `SetCandidateContext`, `Delegate`, `UnDelegate` and
`KickoutCandidate` from an empty context.  The vote trie and the delegate trie
tell the same story as long as no candidate is kicked out while it has
delegators and every vote can be recorded.
-/

set_option autoImplicit false

namespace Linkeye.Core.Delegations

open Common.Types Lib.Runs Dpos Trie.Contents

inductive ContextCall where
  | setCandidateContext (cc : CandidateContext)
  | delegate (vc : VoteContext)
  | unDelegate (delegator candidate : Address)
  | kickoutCandidate (candidate : Address)

def call (dc : DposContext) : ContextCall → DposContext
  | .setCandidateContext cc => (dc.setCandidateContext cc).1
  | .delegate vc => (dc.delegate vc.delegator vc.candidate vc.blockNumber vc.delegatorBalance).1
  | .unDelegate delegator candidate => (dc.unDelegate delegator candidate).1
  | .kickoutCandidate candidate => dc.kickoutCandidate candidate

def contextSystem : System DposContext ContextCall where
  init := fun dc => dc = newDposContext
  enabled := fun _ _ => True
  next := call

/-- Nobody has delegated to a candidate that is kicked out, and the record of a
new vote can be encoded. -/
def careful (dc : DposContext) : ContextCall → Bool
  | .kickoutCandidate candidate => (dc.delegateTrie.prefixIterator candidate.data).isEmpty
  | .delegate vc => decide (Recordable vc)
  | _ => true

/-! ## Entries of the delegate trie -/

theorem entries_call {dc : DposContext} (entries : DelegateEntries dc.delegateTrie)
    (label : ContextCall) : DelegateEntries (call dc label).delegateTrie := by
  cases label with
  | setCandidateContext cc =>
    rw [call, DposContext.setCandidateContext_onlyCandidates]
    exact entries
  | delegate vc =>
    rw [call, DposContext.delegate]
    split
    · exact entries
    · split
      · exact entries
      · split
        · exact DposContext.entries_replaceDelegation entries _ _ _
        · exact DposContext.entries_replaceDelegation entries _ _ _
  | unDelegate d c =>
    rcases DposContext.unDelegate_cases dc d c with unchanged | effect
    · rw [call, unchanged]
      exact entries
    · rw [call, effect.delegateTrie]
      exact entries.of_stays fun _ _ => TrieMap.tryGet_of_tryDelete
  | kickoutCandidate c => exact entries.of_stays fun _ _ => DposContext.tryGet_of_kickoutCandidate

theorem entries_of_calls (calls : List ContextCall) :
    DelegateEntries (calls.foldl call newDposContext).delegateTrie := by
  apply List.foldlRecOn (motive := fun dc => DelegateEntries dc.delegateTrie) calls call
  · intro key value stored
    simp [newDposContext] at stored
  · intro dc entries label _
    exact entries_call entries label

/-- The records of `c` are gone, and all others are as before. -/
structure KickedOut (dc after : DposContext) (c : Address) : Prop where
  candidate : ¬ after.IsCandidate c
  otherCandidates : ∀ key, key ≠ c.data →
    after.candidateTrie.tryGet key = dc.candidateTrie.tryGet key
  delegations : ∀ d, ¬ after.Delegated d c
  otherDelegations : ∀ key, (∀ d : Address, key ≠ c.data ++ d.data) →
    after.delegateTrie.tryGet key = dc.delegateTrie.tryGet key

structure VotesAgree (dc : DposContext) : Prop where
  voted_iff : ∀ d c, dc.Voted d c ↔ dc.Delegated d c
  candidate : ∀ d c, dc.Delegated d c → dc.IsCandidate c

section
variable {dc after : DposContext}

theorem votesAgree_new : VotesAgree newDposContext := by
  constructor
  · intro d c
    simp [DposContext.Voted, DposContext.Delegated, DposContext.delegation, DposContext.oldVote,
      newDposContext]
  · intro d c delegated
    simp [DposContext.Delegated, DposContext.delegation, newDposContext] at delegated

section
variable (agree : VotesAgree dc)
include agree

theorem VotesAgree.redelegated {old : Option VoteContext}
    {vc : VoteContext} (effect : DposContext.Redelegated dc after old vc) :
    VotesAgree after := by
  have own : ∀ c, after.Delegated vc.delegator c ↔ c = vc.candidate := by
    intro c
    simp only [DposContext.Delegated, effect.delegations, and_true, true_and]
    by_cases chosen : vc.candidate = c
    · simp [chosen]
    · by_cases remembered : old.map VoteContext.candidate = some c
      · simp [chosen, remembered, Ne.symm chosen]
      · have notDelegated : dc.delegation c vc.delegator = none := by
          by_contra delegated
          obtain ⟨last, stored, rfl⟩ := (agree.voted_iff _ c).mpr delegated
          rw [effect.found] at stored
          cases stored
          exact remembered rfl
        simp [chosen, remembered, Ne.symm chosen, notDelegated]
  constructor
  · intro d c
    by_cases same : vc.delegator = d
    · subst same
      rw [own]
      simp [DposContext.Voted, effect.votes, eq_comm]
    · have before := agree.voted_iff d c
      simpa [DposContext.Voted, DposContext.Delegated, effect.votes, same,
        effect.delegation_of_ne same] using before
  · intro d c delegated
    rw [DposContext.IsCandidate, effect.candidates]
    by_cases same : vc.delegator = d
    · subst same
      rw [(own c).mp delegated]
      exact effect.candidate
    · rw [DposContext.Delegated, effect.delegation_of_ne same] at delegated
      exact agree.candidate d c delegated

theorem VotesAgree.undelegated {d c : Address}
    (effect : DposContext.Undelegated dc after d c) : VotesAgree after := by
  have none : ∀ c', ¬ after.Delegated d c' := by
    intro c' delegated
    rw [DposContext.Delegated, effect.delegations] at delegated
    by_cases chosen : c = c'
    · simp [chosen] at delegated
    · simp only [chosen, false_and, if_false] at delegated
      exact chosen (effect.eq_of_voted ((agree.voted_iff d c').mpr delegated))
  constructor
  · intro d' c'
    by_cases same : d = d'
    · subst same
      simp [none, DposContext.Voted, effect.votes]
    · have before := agree.voted_iff d' c'
      simpa [DposContext.Voted, DposContext.Delegated, effect.votes, same,
        effect.delegation_of_ne same] using before
  · intro d' c' delegated
    rw [DposContext.IsCandidate, effect.candidates]
    by_cases same : d = d'
    · subst same
      exact absurd delegated (none c')
    · rw [DposContext.Delegated, effect.delegation_of_ne same] at delegated
      exact agree.candidate d' c' delegated

theorem VotesAgree.setCandidateContext (cc : CandidateContext) :
    VotesAgree (dc.setCandidateContext cc).1 := by
  rw [DposContext.setCandidateContext]
  cases written : cc.encodeRLP with
  | none => exact agree
  | some item =>
    refine ⟨agree.voted_iff, ?_⟩
    intro d c delegated
    have before := agree.candidate d c delegated
    simp only [DposContext.IsCandidate, TrieMap.tryGet_tryUpdate _ (encode_ne_nil item)]
    by_cases same : cc.addr.data = c.data
    · simp [same]
    · rw [if_neg same]
      exact before

theorem VotesAgree.kickoutCandidate {c : Address}
    (nobody : dc.delegateTrie.prefixIterator c.data = []) :
    VotesAgree (dc.kickoutCandidate c) := by
  rw [DposContext.kickoutCandidate, nobody, DposContext.kickoutDelegators]
  refine ⟨agree.voted_iff, ?_⟩
  intro d c' delegated
  have before := agree.candidate d c' delegated
  have kept : c.data ≠ c'.data := by
    intro same
    obtain ⟨value, stored⟩ := Option.ne_none_iff_exists'.mp delegated
    have visited : (c'.data ++ d.data, value) ∈ dc.delegateTrie.prefixIterator c.data := by
      rw [TrieMap.mem_prefixIterator, same]
      exact ⟨stored, List.prefix_append _ _⟩
    rw [nobody] at visited
    cases visited
  rw [DposContext.IsCandidate, TrieMap.tryGet_tryDelete, if_neg kept]
  exact before

end

end

theorem VotesAgree.call {dc : DposContext} (agree : VotesAgree dc) (label : ContextCall)
    (meets : careful dc label = true) : VotesAgree (Delegations.call dc label) := by
  cases label with
  | setCandidateContext cc => exact agree.setCandidateContext cc
  | delegate vc =>
    rcases DposContext.delegate_cases dc (of_decide_eq_true meets) with unchanged | ⟨old, effect⟩
    · rw [Delegations.call, unchanged]
      exact agree
    · exact agree.redelegated effect
  | unDelegate d c =>
    rcases DposContext.unDelegate_cases dc d c with unchanged | effect
    · rw [Delegations.call, unchanged]
      exact agree
    · exact agree.undelegated effect
  | kickoutCandidate c => exact agree.kickoutCandidate (List.isEmpty_iff.mp meets)

/-- In every run of careful calls the two tries agree, and whoever has a
delegator is a candidate. -/
theorem votes_agree_with_delegations {dc : DposContext}
    (run : Reachable contextSystem (fun dc label => careful dc label = true) dc) :
    VotesAgree dc := by
  apply run.invariant VotesAgree
  · rintro _ rfl
    exact votesAgree_new
  · intro dc label agree _ meets
    exact agree.call label meets

def sampleCandidate (tag : UInt8) : CandidateContext :=
  ⟨bytesToAddress [tag], .loginState, 1, 0⟩

def sampleVote (delegator candidate : UInt8) : VoteContext :=
  ⟨bytesToAddress [delegator], bytesToAddress [candidate], 2, 100⟩

def movedVote : List ContextCall :=
  [.setCandidateContext (sampleCandidate 1), .setCandidateContext (sampleCandidate 2),
    .delegate (sampleVote 9 1), .delegate (sampleVote 9 2),
    .kickoutCandidate (bytesToAddress [1])]

theorem votes_agree_movedVote : VotesAgree (movedVote.foldl call newDposContext) := by
  apply votes_agree_with_delegations
  have start : Reachable contextSystem (fun dc label => careful dc label = true) newDposContext :=
    .init rfl
  have sound : ∀ label ∈ movedVote, ∀ dc, careful dc label = true →
      contextSystem.enabled dc label ∧ careful dc label = true :=
    fun _ _ _ meets => ⟨trivial, meets⟩
  exact start.run movedVote (admits_of_checksRun movedVote newDposContext sound (by decide +kernel))

def staleVote : List ContextCall :=
  [.setCandidateContext (sampleCandidate 1), .delegate (sampleVote 9 1),
    .kickoutCandidate (bytesToAddress [1])]

theorem kickoutCandidate_leaves_vote :
    ∃ dc, Reachable contextSystem (fun _ _ => True) dc ∧
      dc.oldVote (bytesToAddress [9]) = .ok (some (sampleVote 9 1)) ∧
      dc.delegation (bytesToAddress [1]) (bytesToAddress [9]) = none ∧ ¬ VotesAgree dc := by
  refine ⟨staleVote.foldl call newDposContext, ?_, ?_, ?_, ?_⟩
  · have start : Reachable contextSystem (fun _ _ => True) newDposContext := .init rfl
    exact start.run staleVote ⟨trivial, trivial, trivial, trivial, trivial, trivial, trivial⟩
  · decide +kernel
  · decide +kernel
  · intro agree
    have voted : (staleVote.foldl call newDposContext).Voted (bytesToAddress [9])
        (bytesToAddress [1]) := ⟨sampleVote 9 1, by decide +kernel, rfl⟩
    have delegated := (agree.voted_iff _ _).mp voted
    exact delegated (by decide +kernel)

end Linkeye.Core.Delegations
