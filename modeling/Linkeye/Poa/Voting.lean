import Linkeye.Lib.Tallies
import Linkeye.Poa.Lookups

/-!
# Votes of the poa engine

`Votes` and `Tally` of a snapshot hold the same votes twice.  They agree along every
run of `apply`, and so the only way to lose the last signer is its own vote.
-/

set_option autoImplicit false

namespace Linkeye.Poa.Voting

open Std Common.Types Common.Signature Core.Blocks
open Consensus.Heights (cliqueDraft vanity)
open Dbft.Headers (num)
open Snapshots.Snapshot (applyHeader voteOf)
open Lib.Maps Lib.Runs Lib.Tallies Lookups Progress Snapshots

/-! ## The votes of a snapshot -/

def ballot (vote : Vote) : Ballot Address := ⟨vote.signer, vote.address, vote.authorize⟩

def score (tally : Tally) : Bool × Nat := (tally.authorize, tally.votes)

def box (s : Snapshot) : Box Address where
  votes := s.votes.map ballot
  tally := fun a => s.tally[a]?.map score

/-- The tally is that of the votes, and the votes are those of the signers. -/
def Agreed (s : Snapshot) : Prop := Agrees (fun a => s.signers.contains a) (box s)

section
variable (s : Snapshot) (address signer : Address)

theorem tally_insert (tally : ExtTreeMap Address Tally) (entry : Tally) :
    (fun a => (tally.insert address entry)[a]?.map score) =
      Function.update (fun a => tally[a]?.map score) address (some (score entry)) := by
  funext a
  rw [congrFun (lookup_insert tally address entry) a, Function.apply_update fun _ => Option.map score]
  rfl

theorem tally_erase (tally : ExtTreeMap Address Tally) :
    (fun a => (tally.erase address)[a]?.map score) =
      Function.update (fun a => tally[a]?.map score) address none := by
  funext a
  rw [congrFun (lookup_erase tally address) a, Function.apply_update fun _ => Option.map score]
  rfl

theorem box_uncast (authorize : Bool) :
    (box (s.uncast address authorize).1).tally = debit (box s).tally address authorize := by
  rw [Snapshot.uncast, debit]
  cases held : s.tally[address]? with
  | none => simp [box, held]
  | some tally =>
    simp only [box, held, Option.map_some, score]
    split_ifs
    · rfl
    · exact tally_insert address s.tally _
    · exact tally_erase address s.tally

theorem box_discardVote : box (s.discardVote signer address) = (box s).discard signer address := by
  have found : (box s).votes.find? (fun v => decide (v.voter = signer ∧ v.subject = address)) =
      (s.votes.find? fun v => decide (v.signer = signer ∧ v.address = address)).map ballot :=
    List.find?_map ..
  rw [Snapshot.discardVote, Box.discard, found]
  cases s.votes.find? fun v => decide (v.signer = signer ∧ v.address = address) with
  | none => rfl
  | some vote =>
    have erased := List.eraseP_map (f := ballot) (l := s.votes)
      (p := fun v => decide (v.voter = signer ∧ v.subject = address))
    exact congrArg₂ Box.mk erased.symm (box_uncast s vote.address vote.authorize)

theorem box_recordVote (vote : Vote) :
    box (s.recordVote vote) =
      if vote.authorize = !s.signers.contains vote.address then (box s).record (ballot vote)
      else box s := by
  have valid : s.validVote vote.address vote.authorize = true ↔
      vote.authorize = !s.signers.contains vote.address := by
    rw [Snapshot.validVote]
    cases s.signers.contains vote.address <;> cases vote.authorize <;> decide
  simp only [Snapshot.recordVote, Snapshot.cast, ← valid]
  split_ifs
  · cases held : s.tally[vote.address]? <;>
      simp [box, Box.record, ballot, credit, tally_insert, held, score]
  · rfl

theorem box_discardVotesOf : box (s.discardVotesOf signer) = (box s).withdraw signer := by
  have uncasted (votes : List Vote) (s : Snapshot) :
      (box (votes.foldl (fun s vote => (s.uncast vote.address vote.authorize).1) s)).tally =
        (votes.map ballot).foldl (fun tally v => debit tally v.subject v.authorize)
          (box s).tally := by
    induction votes generalizing s with
    | nil => rfl
    | cons vote rest ih =>
      rw [List.foldl_cons, ih, box_uncast]
      rfl
  rw [Box.withdraw]
  refine congrArg₂ Box.mk ?_ ?_
  · rw [box, List.filter_map]
    rfl
  · have filtered : (box s).votes.filter (fun v => decide (v.voter = signer)) =
        (s.votes.filter fun vote => decide (vote.signer = signer)).map ballot := List.filter_map ..
    rw [filtered, ← uncasted]
    rfl

theorem box_close :
    box { s with
      votes := s.votes.filter fun vote => decide (vote.address ≠ address)
      tally := s.tally.erase address } = (box s).close address := by
  rw [Box.close, box, box, List.filter_map, ← tally_erase address s.tally]
  rfl

end

/-! ## The tally along a run -/

variable {member : Address → Bool}

section
variable {e : Engine} {s t : Snapshot} {h : Header}

theorem box_shiftRecents (s : Snapshot) (number : Nat) : box (s.shiftRecents number) = box s := by
  rw [Snapshot.shiftRecents]
  split <;> rfl

/-- The snapshot that the vote of a header comes into, and the one that it makes. -/
def discarded (e : Engine) (s : Snapshot) (h : Header) (signer : Address) : Snapshot :=
  let s := shifted e s h
  let s : Snapshot := { s with recents := s.recents.insert (num h) signer }
  s.discardVote signer h.coinbase

def recorded (e : Engine) (s : Snapshot) (h : Header) (signer : Address) (authorize : Bool) :
    Snapshot :=
  (discarded e s h signer).recordVote ⟨signer, num h, h.coinbase, authorize⟩

theorem discarded_signers (signer : Address) : (discarded e s h signer).signers = s.signers :=
  (discardVote_same ..).signers.trans (shifted_signers e s h)

theorem recorded_signers (signer : Address) (authorize : Bool) :
    (recorded e s h signer authorize).signers = s.signers :=
  (recordVote_same ..).signers.trans (discarded_signers signer)

theorem agreed_shifted (agreed : Agreed s) : Agreed (shifted e s h) := by
  rw [Agreed, shifted, box_shiftRecents, shiftRecents_signers]
  split
  · have none : box { s with votes := [], tally := ∅ } = ⟨[], fun _ => none⟩ := by simp [box]
    rw [none]
    exact .empty _
  · exact agreed

theorem agreed_discarded (agreed : Agreed s) (signer : Address) :
    Agrees (fun a => s.signers.contains a) (box (discarded e s h signer)) ∧
      ∀ v ∈ (box (discarded e s h signer)).votes, ¬ (v.voter = signer ∧ v.subject = h.coinbase) := by
  have before : Agrees (fun a => (shifted e s h).signers.contains a) (box (shifted e s h)) :=
    agreed_shifted agreed
  rw [shifted_signers] at before
  rw [discarded, box_discardVote]
  exact before.discard signer h.coinbase

/-- A vote that is not valid is not recorded. -/
theorem box_recorded (signer : Address) (authorize : Bool) :
    box (recorded e s h signer authorize) =
      if authorize = !s.signers.contains h.coinbase then
        (box (discarded e s h signer)).record ⟨signer, h.coinbase, authorize⟩
      else box (discarded e s h signer) := by
  rw [recorded, box_recordVote, discarded_signers]
  rfl

theorem agreed_recorded {signer : Address} (agreed : Agreed s) (known : signer ∈ s.signers)
    (authorize : Bool) : Agreed (recorded e s h signer authorize) := by
  obtain ⟨kept, first⟩ := agreed_discarded (e := e) (h := h) agreed signer
  rw [Agreed, recorded_signers, box_recorded]
  split
  · rename_i direction
    exact kept.record (ExtTreeMap.contains_iff_mem.mpr known) direction first
  · exact kept

theorem agreed_close {address : Address} (agreed : Agrees member (box s))
    (others : ∀ b, b ≠ address → s.signers.contains b = member b)
    (voters : s.signers.contains address = true ∨ ∀ v ∈ (box s).votes, v.voter ≠ address) :
    Agreed { s with
      votes := s.votes.filter fun vote => decide (vote.address ≠ address)
      tally := s.tally.erase address } := by
  rw [Agreed, box_close]
  exact agreed.close others voters

theorem agreed_settle (agreed : Agreed s) (number : Nat) (address : Address) :
    Agreed (s.settle number address) := by
  rw [Snapshot.settle]
  split
  · split
    · refine agreed_close agreed (fun b other => ?_) (.inl ?_)
      · simp [ExtTreeMap.contains_insert, Ne.symm other]
      · simp
    · -- the votes of the signer that leaves go before those on it
      have kept := (discardVotesOf_same
        (Snapshot.shiftRecents { s with signers := s.signers.erase address } number) address).signers
      rw [shiftRecents_signers] at kept
      have votes := box_discardVotesOf
        (Snapshot.shiftRecents { s with signers := s.signers.erase address } number) address
      rw [box_shiftRecents] at votes
      have left : Agrees (fun a => s.signers.contains a) (box (Snapshot.discardVotesOf
          (Snapshot.shiftRecents { s with signers := s.signers.erase address } number) address)) := by
        rw [votes]
        exact agreed.withdraw address
      refine agreed_close left (fun b other => ?_) (.inr fun v listed => ?_)
      · rw [kept]
        simp [ExtTreeMap.contains_erase, Ne.symm other]
      · rw [votes] at listed
        exact of_decide_eq_true (List.mem_filter.mp listed).2
  · exact agreed

theorem agreed_applyHeader (agreed : Agreed s) (applied : applyHeader e s h = .ok t) :
    Agreed t := by
  obtain ⟨signer, authorize, _, known, _, _, rfl⟩ := applyHeader_eq_ok_iff.mp applied
  exact agreed_settle (agreed_recorded agreed known authorize) _ _

theorem agreed_apply {headers : List Header} (agreed : Agreed s)
    (applied : s.apply e headers = .ok t) : Agreed t := by
  obtain rfl | ⟨_, folded, hash, run, rfl⟩ := apply_eq_ok applied
  · exact agreed
  · have kept : Agreed folded :=
      foldlM_keeps Agreed (fun _ _ _ before first => agreed_applyHeader before first) headers
        agreed run
    exact kept

/-- What the fields of a snapshot say about one another. -/
structure Tallied (member : Address → Prop) (votes : List Vote)
    (tally : ExtTreeMap Address Tally) : Prop where
  counted : ∀ a : Address, ((tally[a]?).map Tally.votes).getD 0 =
    votes.countP fun vote => decide (vote.address = a)
  direction : ∀ vote ∈ votes, vote.authorize = true ↔ ¬ member vote.address
  single : votes.Pairwise fun vote other =>
    ¬ (vote.signer = other.signer ∧ vote.address = other.address)
  voters : ∀ vote ∈ votes, member vote.signer

/-- The tally of an address is that of the votes on it. -/
theorem getD_tally (agreed : Agrees member (box s)) (a : Address) :
    (s.tally.getD a ⟨false, 0⟩).votes = count (box s).votes a ∧
      (count (box s).votes a ≠ 0 → (s.tally.getD a ⟨false, 0⟩).authorize = !member a) := by
  have own : s.tally[a]?.map score = counts member (box s).votes a := congrFun agreed.counted a
  rw [ExtTreeMap.getD_eq_getD_getElem?]
  cases held : s.tally[a]? with
  | none =>
    rw [held, counts] at own
    split at own
    · rename_i zero
      simp [zero]
    · cases own
  | some entry =>
    rw [held, counts] at own
    split at own
    · cases own
    · have pair := Option.some.inj own
      exact ⟨congrArg Prod.snd pair, fun _ => congrArg Prod.fst pair⟩

theorem tallied_of_agrees (agreed : Agrees member (box s)) :
    Tallied (fun a => member a = true) s.votes s.tally where
  counted := by
    intro a
    have same : count (box s).votes a =
        s.votes.countP fun vote => decide (vote.address = a) := List.countP_map
    rw [← same, ← (getD_tally agreed a).1, ExtTreeMap.getD_eq_getD_getElem?]
    cases s.tally[a]? <;> rfl
  direction := by
    intro vote listed
    have own : vote.authorize = !member vote.address :=
      agreed.aligned (ballot vote) (List.mem_map_of_mem listed)
    simp [own]
  single := List.pairwise_map.mp agreed.single
  voters := fun vote listed => agreed.voters (ballot vote) (List.mem_map_of_mem listed)

/-! ## The last signer -/

theorem eq_of_size_one {m : ExtTreeMap Address Unit} {a b : Address} (one : m.size = 1)
    (left : a ∈ m) (right : b ∈ m) : a = b := by
  rw [← ExtTreeMap.length_keys] at one
  obtain ⟨only, keys⟩ := List.length_eq_one_iff.mp one
  rw [← ExtTreeMap.mem_keys, keys, List.mem_singleton] at left right
  rw [left, right]

theorem settle_signers (number : Nat) (address : Address) :
    (s.settle number address).signers =
      if s.signers.size / 2 < (s.tally.getD address ⟨false, 0⟩).votes then
        if (s.tally.getD address ⟨false, 0⟩).authorize = true then s.signers.insert address ()
        else s.signers.erase address
      else s.signers := by
  rw [Snapshot.settle]
  split
  · split
    · rfl
    · exact (discardVotesOf_same _ address).signers.trans (shiftRecents_signers _ number)
  · rfl

/-- A vote that leaves no signer is that of the last one on itself. -/
theorem signers_lost_iff {signer : Address} {authorize : Bool} (agreed : Agreed s)
    (known : signer ∈ s.signers) (number : Nat) :
    ((recorded e s h signer authorize).settle number h.coinbase).signers.size = 0 ↔
      s.signers.size = 1 ∧ h.coinbase ∈ s.signers ∧ authorize = false := by
  have kept := agreed_recorded (e := e) (h := h) agreed known authorize
  obtain ⟨votes, direction⟩ := getD_tally kept h.coinbase
  obtain ⟨before, first⟩ := agreed_discarded (e := e) (h := h) agreed signer
  have some : 0 < s.signers.size := by
    rw [← ExtTreeMap.length_keys]
    exact List.length_pos_of_mem (ExtTreeMap.mem_keys.mpr known)
  rw [settle_signers, votes, recorded_signers]
  rw [recorded_signers] at direction
  -- with one signer, the votes on it before this one were its own and are gone
  have alone (one : s.signers.size = 1) (own : h.coinbase ∈ s.signers) :
      count (box (recorded e s h signer authorize)).votes h.coinbase =
        if authorize = false then 1 else 0 := by
    have none : count (box (discarded e s h signer)).votes h.coinbase = 0 := by
      refine List.countP_eq_zero.mpr fun v listed about => first v listed ⟨?_, ?_⟩
      · exact eq_of_size_one one (ExtTreeMap.contains_iff_mem.mp (before.voters v listed)) known
      · exact of_decide_eq_true about
    rw [box_recorded, ExtTreeMap.contains_iff_mem.mpr own]
    cases authorize
    · simp only [Bool.not_true, if_true, Box.record, count_append, none, count_cons]
      rfl
    · simpa using none
  constructor
  · intro lost
    split at lost
    · rename_i passed
      split at lost
      · rw [ExtTreeMap.size_insert] at lost
        split at lost <;> omega
      · rw [ExtTreeMap.size_erase] at lost
        split at lost
        · rename_i own
          have one : s.signers.size = 1 := by omega
          refine ⟨one, own, ?_⟩
          by_contra admits
          rw [alone one own, if_neg admits] at passed
          omega
        · omega
    · omega
  · rintro ⟨one, own, rfl⟩
    have vote := alone one own
    rw [if_pos rfl] at vote
    rw [vote] at direction ⊢
    rw [one, if_pos (by decide), direction Nat.one_ne_zero, ExtTreeMap.contains_iff_mem.mpr own,
      if_neg (by decide), ExtTreeMap.size_erase,
      if_pos (ExtTreeMap.contains_iff_mem.mpr own), one]

theorem agreed_of_none {start : Snapshot} (none : start.votes = [] ∧ start.tally = ∅) :
    Agreed start := by
  have empty : box start = ⟨[], fun _ => Option.none⟩ := by simp [box, none]
  rw [Agreed, empty]
  exact .empty _

theorem apply_one_lost_iff (agreed : Agreed s) (applied : s.apply e [h] = .ok t) :
    t.signers.size = 0 ↔
      s.signers.size = 1 ∧ h.coinbase ∈ s.signers ∧ voteOf h.nonce = some false := by
  obtain ⟨_, folded, run, rfl⟩ := (apply_eq_ok_iff (List.cons_ne_nil h [])).mp applied
  obtain ⟨_, first, rest⟩ := foldlM_cons_ok.mp run
  cases rest
  obtain ⟨signer, authorize, _, known, _, voted, rfl⟩ := applyHeader_eq_ok_iff.mp first
  rw [voted, Option.some_inj]
  exact signers_lost_iff agreed known (num h)

theorem length_sortedSigners (s : Snapshot) : s.sortedSigners.length = s.signers.size := by
  rw [Snapshot.sortedSigners, List.length_insertionSort, ExtTreeMap.length_keys]

theorem inturn_isSome (number : Nat) (signer : Address) :
    (s.inturn number signer).isSome = true ↔ s.signers.size ≠ 0 := by
  rw [Snapshot.inturn, length_sortedSigners]
  split
  · rename_i none
    simp [none]
  · rename_i some
    simp [some]

end

/-! ### A chain of one signer -/

def loneSnapshot : Snapshot := newSnapshot 0 (FixedBytes.zero 32) [checksumSigner 1]

def removal (key subject : UInt8) : Header :=
  cliqueDraft checksumCrypto (FixedBytes.zero 32) 1 5 (checksumSigner subject)
    (vanity ++ checksumSig key)

theorem apply_toOption {e : Engine} {s : Snapshot} {headers : List Header}
    (taken : (s.apply e headers).isOk = true) :
    s.apply e headers = .ok (((s.apply e headers).toOption).getD s) := by
  cases run : s.apply e headers with
  | error err =>
    rw [run] at taken
    cases taken
  | ok next => rfl

end Linkeye.Poa.Voting
