import Linkeye.Poa.Voting

/-!
# Snapshots of the bft engine

`consensus/bft/backend/snapshot.go`.  The voting code is that of the poa engine, with a
validator set in place of the signers and no recent signers; the validator sets and
`ecrecover` are those of dbft.
-/

set_option autoImplicit false

namespace Linkeye.Bft.Snapshots

open Std Common.Types Common.Signature Consensus.Fields Core.Blocks
open Consensus.Heights (dbftEngine vanity)
open Dbft.Headers (Engine EngineError num consecutive)
open Dbft.Validator
open Lib.Runs Lib.Tallies Rlp.Encode
open Poa.Snapshots (Vote Tally)
open Poa.Snapshots.Snapshot (voteOf)
open Poa.Voting (Tallied box)

structure Snapshot where
  epoch : Nat
  number : Nat
  hash : Hash
  votes : List Vote
  tally : ExtTreeMap Address Tally
  valSet : ValidatorSet

inductive ApplyError where
  | ecrecover (err : EngineError)
  | errUnauthorized
  | errInvalidVote
  | errInvalidVotingChain

def newSnapshot (epoch number : Nat) (hash : Hash) (valSet : ValidatorSet) : Snapshot where
  epoch := epoch
  number := number
  hash := hash
  votes := []
  tally := ∅
  valSet := valSet

namespace Snapshot

/-- What the voting code reads, in the form that the poa engine has it. -/
def poll (s : Snapshot) : Poa.Snapshots.Snapshot :=
  { Poa.Snapshots.newSnapshot s.number s.hash s.valSet.validators with
    votes := s.votes
    tally := s.tally }

def withPoll (s : Snapshot) (poll : Poa.Snapshots.Snapshot) : Snapshot :=
  { s with votes := poll.votes, tally := poll.tally }

def copy (keccak : Bytes → Hash) (s : Snapshot) : Snapshot :=
  { s with valSet := s.valSet.copy keccak }

def discardVote (s : Snapshot) (validator address : Address) : Snapshot :=
  s.withPoll (s.poll.discardVote validator address)

def recordVote (s : Snapshot) (vote : Vote) : Snapshot := s.withPoll (s.poll.recordVote vote)

def discardVotesOf (s : Snapshot) (validator : Address) : Snapshot :=
  s.withPoll (s.poll.discardVotesOf validator)

def settle (keccak : Bytes → Hash) (s : Snapshot) (address : Address) : Snapshot :=
  let tally := s.tally.getD address ⟨false, 0⟩
  if s.valSet.size / 2 < tally.votes then
    let s : Snapshot :=
      if tally.authorize = true then { s with valSet := (s.valSet.addValidator keccak address).1 }
      else
        let s : Snapshot := { s with valSet := (s.valSet.removeValidator address).1 }
        s.discardVotesOf address
    { s with
      votes := s.votes.filter fun vote => decide (vote.address ≠ address)
      tally := s.tally.erase address }
  else s

def applyHeader (e : Engine) (s : Snapshot) (h : Header) : Except ApplyError Snapshot :=
  let s : Snapshot := if num h % s.epoch = 0 then { s with votes := [], tally := ∅ } else s
  match Dbft.Headers.ecrecover e h with
  | .error err => .error (.ecrecover err)
  | .ok validator =>
    if (s.valSet.getByAddress validator).isNone = true then .error .errUnauthorized
    else
      let s := s.discardVote validator h.coinbase
      match voteOf h.nonce with
      | none => .error .errInvalidVote
      | some authorize =>
        .ok ((s.recordVote ⟨validator, num h, h.coinbase, authorize⟩).settle
          e.crypto.keccak256 h.coinbase)

def apply (e : Engine) (s : Snapshot) (headers : List Header) : Except ApplyError Snapshot :=
  match headers.getLast? with
  | none => .ok s
  | some last =>
    if consecutive s.number headers = true then
      match headers.foldlM (applyHeader e) (s.copy e.crypto.keccak256) with
      | .error err => .error err
      | .ok snap =>
        .ok { snap with
          number := (snap.number + headers.length) % 2 ^ 64
          hash := last.hash e.crypto }
    else .error .errInvalidVotingChain

end Snapshot

/-! ## The tally along a run -/

section
variable {e : Engine} {s t : Snapshot} {h : Header}

/-- The tally is that of the votes, and the votes are those of the validators. -/
def Agreed (s : Snapshot) : Prop := Agrees (fun a => decide (a ∈ s.valSet.validators)) (box s.poll)

theorem contains_poll (s : Snapshot) (a : Address) :
    s.poll.signers.contains a = decide (a ∈ s.valSet.validators) := by
  have inserted (list : List Address) (known : ExtTreeMap Address Unit) :
      (list.foldl (fun known signer => known.insert signer ()) known).contains a =
        (decide (a ∈ list) || known.contains a) := by
    induction list generalizing known with
    | nil => simp
    | cons b rest ih =>
      rw [List.foldl_cons, ih, ExtTreeMap.contains_insert]
      by_cases same : b = a
      · simp [same]
      · have other : (compare b a == .eq) = false :=
          beq_eq_false_iff_ne.mpr fun equal => same (compare_eq_iff_eq.mp equal)
        rw [other]
        simp [Ne.symm same]
  have own : s.poll.signers.contains a = _ := inserted s.valSet.validators ∅
  rw [own]
  simp

theorem agreed_recordVote (agreed : Agreed s) {vote : Vote}
    (known : vote.signer ∈ s.valSet.validators)
    (first : ∀ v ∈ (box s.poll).votes, ¬ (v.voter = vote.signer ∧ v.subject = vote.address)) :
    Agreed (s.recordVote vote) := by
  have kept := Poa.Voting.box_recordVote s.poll vote
  rw [contains_poll] at kept
  change Agrees (fun a => decide (a ∈ s.valSet.validators)) (box (s.poll.recordVote vote))
  rw [kept]
  split
  · rename_i direction
    exact Agrees.record agreed (decide_eq_true known) direction first
  · exact agreed

theorem agreed_close {member : Address → Bool} {address : Address}
    (agreed : Agrees member (box s.poll))
    (others : ∀ b, b ≠ address → decide (b ∈ s.valSet.validators) = member b)
    (voters : address ∈ s.valSet.validators ∨ ∀ v ∈ (box s.poll).votes, v.voter ≠ address) :
    Agreed { s with
      votes := s.votes.filter fun vote => decide (vote.address ≠ address)
      tally := s.tally.erase address } := by
  have closed : Agrees (fun a => decide (a ∈ s.valSet.validators)) ((box s.poll).close address) :=
    agreed.close others (voters.imp_left decide_eq_true)
  rw [← Poa.Voting.box_close s.poll address] at closed
  exact closed

theorem box_discardVotesOf (s : Snapshot) (validator : Address) :
    box (s.discardVotesOf validator).poll = (box s.poll).withdraw validator :=
  Poa.Voting.box_discardVotesOf s.poll validator

theorem agreed_settle (agreed : Agreed s) (keccak : Bytes → Hash) (address : Address) :
    Agreed (s.settle keccak address) := by
  rw [Snapshot.settle]
  dsimp only
  split
  · split
    · refine agreed_close agreed (fun b other => ?_) (.inl ?_)
      · rw [ValidatorSet.addValidator]
        split <;> simp [mem_sortValidators, other]
      · rw [ValidatorSet.addValidator]
        split
        · assumption
        · simp [mem_sortValidators]
    · -- a validator that is listed twice stays in, without its votes
      have votes := box_discardVotesOf
        { s with valSet := (s.valSet.removeValidator address).1 } address
      have left : Agrees (fun a => decide (a ∈ s.valSet.validators))
          (box (Snapshot.discardVotesOf
            { s with valSet := (s.valSet.removeValidator address).1 } address).poll) := by
        rw [votes]
        exact Agrees.withdraw agreed address
      refine agreed_close left (fun b other => ?_) (.inr fun v listed => ?_)
      · change decide (b ∈ (s.valSet.removeValidator address).1.validators) = _
        rw [ValidatorSet.removeValidator]
        split
        · simp [List.mem_erase_of_ne other]
        · rfl
      · rw [votes] at listed
        exact of_decide_eq_true (List.mem_filter.mp listed).2
  · exact agreed

theorem agreed_of_none (none : s.votes = [] ∧ s.tally = ∅) : Agreed s := by
  have empty : box s.poll = ⟨[], fun _ => Option.none⟩ := by
    simp [Snapshot.poll, box, none]
  rw [Agreed, empty]
  exact .empty _

theorem agreed_applyHeader (agreed : Agreed s) (applied : s.applyHeader e h = .ok t) :
    Agreed t := by
  have reset : Agreed (if num h % s.epoch = 0 then { s with votes := [], tally := ∅ } else s) := by
    split
    · exact agreed_of_none ⟨rfl, rfl⟩
    · exact agreed
  rw [Snapshot.applyHeader] at applied
  dsimp only at applied
  generalize (if num h % s.epoch = 0 then { s with votes := [], tally := ∅ } else s : Snapshot) = s
    at reset applied
  split at applied
  · cases applied
  · rename_i validator _
    split at applied
    · cases applied
    · rename_i known
      rw [Bool.not_eq_true, Option.isNone_eq_false_iff, ValidatorSet.getByAddress_isSome_iff]
        at known
      split at applied
      · cases applied
      · rename_i authorize _
        cases applied
        have discarded : box (s.discardVote validator h.coinbase).poll =
            (box s.poll).discard validator h.coinbase :=
          Poa.Voting.box_discardVote s.poll h.coinbase validator
        obtain ⟨kept, first⟩ := Agrees.discard reset validator h.coinbase
        rw [← discarded] at kept first
        have agreed' : Agreed (s.discardVote validator h.coinbase) := kept
        exact agreed_settle (agreed_recordVote agreed' known first) _ _

theorem agreed_copy (agreed : Agreed s) (keccak : Bytes → Hash) : Agreed (s.copy keccak) := by
  have same : (fun a => decide (a ∈ (s.copy keccak).valSet.validators)) =
      fun a => decide (a ∈ s.valSet.validators) := by
    funext a
    exact decide_eq_decide.mpr (mem_sortValidators keccak s.valSet.validators a)
  rw [Agreed, same]
  exact agreed

theorem agreed_apply {headers : List Header} (agreed : Agreed s)
    (applied : s.apply e headers = .ok t) : Agreed t := by
  rw [Snapshot.apply] at applied
  split at applied
  · cases applied
    exact agreed
  · split at applied
    · split at applied
      · cases applied
      · rename_i folded run
        cases applied
        have kept : Agreed folded :=
          foldlM_keeps Agreed (fun _ _ _ before first => agreed_applyHeader before first) headers
            (agreed_copy agreed _) run
        exact kept
    · cases applied

theorem apply_append {first second : List Header}
    (applied : s.apply e (first ++ second) = .ok t) : ∃ middle, s.apply e first = .ok middle := by
  rw [Snapshot.apply]
  cases last : first.getLast? with
  | none => exact ⟨s, rfl⟩
  | some header =>
    have nonempty : first ++ second ≠ [] := by
      rintro none
      rw [(List.append_eq_nil_iff.mp none).1] at last
      cases last
    rw [Snapshot.apply, List.getLast?_eq_some_getLast nonempty] at applied
    dsimp only at applied ⊢
    split at applied
    · rename_i linked
      rw [Poa.Lookups.consecutive_append, Bool.and_eq_true] at linked
      rw [if_pos linked.1]
      rw [List.foldlM_append] at applied
      cases run : first.foldlM (Snapshot.applyHeader e) (s.copy e.crypto.keccak256) with
      | error err =>
        rw [run] at applied
        cases applied
      | ok folded => exact ⟨_, rfl⟩
    · cases applied

end

/-- Votes and tally of both engines along every run that starts without votes. -/
theorem votes_tallied :
    (∀ (e : Poa.Snapshots.Engine) (s t : Poa.Snapshots.Snapshot) (headers : List Header),
      s.votes = [] ∧ s.tally = ∅ → s.apply e headers = .ok t → ∀ done, done <+: headers →
        ∃ middle, s.apply e done = .ok middle ∧
          Tallied (· ∈ middle.signers) middle.votes middle.tally) ∧
    (∀ (e : Engine) (s t : Snapshot) (headers : List Header),
      s.votes = [] ∧ s.tally = ∅ → s.apply e headers = .ok t → ∀ done, done <+: headers →
        ∃ middle, s.apply e done = .ok middle ∧
          Tallied (· ∈ middle.valSet.validators) middle.votes middle.tally) := by
  constructor
  · rintro e s t _ none applied done ⟨rest, rfl⟩
    obtain ⟨middle, begun, _⟩ := (Poa.Lookups.apply_append_iff done rest).mp applied
    have agreed := Poa.Voting.agreed_apply (Poa.Voting.agreed_of_none none) begun
    have tallied := Poa.Voting.tallied_of_agrees agreed
    simp only [ExtTreeMap.contains_iff_mem] at tallied
    exact ⟨middle, begun, tallied⟩
  · rintro e s t _ none applied done ⟨rest, rfl⟩
    obtain ⟨middle, begun⟩ := apply_append applied
    have agreed := agreed_apply (agreed_of_none none) begun
    have tallied := Poa.Voting.tallied_of_agrees agreed
    simp only [decide_eq_true_eq] at tallied
    exact ⟨middle, begun, tallied⟩

/-! ### A chain of three validators -/

def threeValidators : Snapshot :=
  newSnapshot 30000 0 (FixedBytes.zero 32)
    (newSet checksumCrypto.keccak256 ([1, 2, 3].map checksumSigner) .roundRobin)

def admission : Header :=
  { Header.zero with
    number := 1
    coinbase := checksumSigner 4
    nonce := nonceAuthVote
    extra := vanity ++ encode (BFTExtra.encodeRLP ⟨[], checksumSig 1, []⟩) }

theorem votes_tallied_first :
    (∃ middle, Poa.Progress.fourSigners.apply Poa.Progress.fourEngine [Poa.Progress.firstBlock] =
        .ok middle ∧ Tallied (· ∈ middle.signers) middle.votes middle.tally) ∧
    (∃ middle, threeValidators.apply (dbftEngine checksumCrypto) [admission] = .ok middle ∧
      Tallied (· ∈ middle.valSet.validators) middle.votes middle.tally) := by
  constructor
  · have taken : (Poa.Progress.fourSigners.apply Poa.Progress.fourEngine
        [Poa.Progress.firstBlock]).isOk = true := by decide +kernel
    exact votes_tallied.1 _ _ _ _ ⟨rfl, rfl⟩ (Poa.Voting.apply_toOption taken) _
      (List.prefix_refl _)
  · have taken : (threeValidators.apply (dbftEngine checksumCrypto) [admission]).isOk = true := by
      decide +kernel
    cases run : threeValidators.apply (dbftEngine checksumCrypto) [admission] with
    | error err =>
      rw [run] at taken
      cases taken
    | ok t =>
      rw [← run]
      exact votes_tallied.2 _ _ t _ ⟨rfl, rfl⟩ run _ (List.prefix_refl _)

end Linkeye.Bft.Snapshots
