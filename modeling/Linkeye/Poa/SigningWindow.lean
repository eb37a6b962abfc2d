import Linkeye.Lib.Windows
import Linkeye.Poa.Lookups

/-!
# The signing window of the poa engine

`Recents` holds the signers of the last `len(Signers)/2 + 1` blocks by number.  One number
is deleted for each header and one more when a signer is voted out, which is enough to
keep the window exact while the signers change, as long as the numbers do not wrap around.
-/

set_option autoImplicit false

namespace Linkeye.Poa.SigningWindow

open Std Common.Types Common.Signature Consensus.Fields Core.Blocks
open Consensus.Heights (cliqueDraft vanity)
open Dbft.Headers (num consecutive)
open Snapshots.Snapshot (applyHeader voteOf)
open Lib.Maps Lib.Windows Lookups Progress Snapshots

def recentTable (s : Snapshot) : Nat → Option Address := fun j => s.recents[j]?

/-- The snapshot remembers the signers of the blocks after genesis. -/
def Recalls (s : Snapshot) (authors : List Address) : Prop :=
  Remembers (recentTable s) authors s.limit

section
variable {e : Engine} {s t : Snapshot} {h : Header} {authors : List Address}

theorem recentTable_shiftRecents (s : Snapshot) (number : Nat) :
    recentTable (s.shiftRecents number) = forget (recentTable s) number s.limit := by
  rw [Snapshot.shiftRecents, forget]
  split
  · exact lookup_erase s.recents _
  · rfl

theorem recentTable_of_same (same : SameSigners s t) : recentTable t = recentTable s := by
  funext j
  rw [recentTable, recentTable, same.recents]

theorem recalls_of_same (same : SameSigners s t) (recalls : Recalls s authors) :
    Recalls t authors := by
  rw [Recalls, same.limit, recentTable_of_same same]
  exact recalls

theorem recalls_settle (exact : Exact (recentTable s) authors s.limit) (address : Address) :
    Recalls (s.settle authors.length address) authors := by
  rw [Snapshot.settle]
  split
  · split
    · have grown : s.signers.size ≤ (s.signers.insert address ()).size :=
        ExtTreeMap.size_le_size_insert
      have one : (s.signers.insert address ()).size ≤ s.signers.size + 1 :=
        ExtTreeMap.size_insert_le
      have wider : s.limit ≤ (s.signers.insert address ()).size / 2 + 1 := by
        rw [Snapshot.limit]
        omega
      have near : (s.signers.insert address ()).size / 2 + 1 ≤ s.limit + 1 := by
        rw [Snapshot.limit]
        omega
      have kept : Recalls { s with signers := s.signers.insert address () } authors :=
        exact.grow wider near
      exact recalls_of_same ⟨rfl, rfl, rfl⟩ kept
    · have shrunk : (s.signers.erase address).size ≤ s.signers.size :=
        ExtTreeMap.size_erase_le
      have one : s.signers.size ≤ (s.signers.erase address).size + 1 :=
        ExtTreeMap.size_le_size_erase
      have narrower : (s.signers.erase address).size / 2 + 1 ≤ s.limit := by
        rw [Snapshot.limit]
        omega
      have near : s.limit ≤ (s.signers.erase address).size / 2 + 1 + 1 := by
        rw [Snapshot.limit]
        omega
      let left : Snapshot := { s with signers := s.signers.erase address }
      have kept : Recalls (left.shiftRecents authors.length) authors := by
        rw [Recalls, recentTable_shiftRecents, shiftRecents_limit]
        exact exact.shrink narrower near
      have same := discardVotesOf_same (left.shiftRecents authors.length) address
      exact recalls_of_same { same with } kept
  · exact exact.grow le_rfl (Nat.le_succ _)

theorem recalls_applyHeader (recalls : Recalls s authors) (number : num h = authors.length + 1)
    (applied : applyHeader e s h = .ok t) :
    ∃ signer, ecrecover e h = .ok signer ∧ Recalls t (authors ++ [signer]) := by
  obtain ⟨signer, authorize, recovered, _, _, _, rfl⟩ := applyHeader_eq_ok_iff.mp applied
  refine ⟨signer, recovered, ?_⟩
  have length : num h = (authors ++ [signer]).length := by
    rw [number, List.length_append, List.length_singleton]
  rw [signedBy, length]
  apply recalls_settle
  rw [recentTable_of_same (recordVote_same _ _), (recordVote_same _ _).limit,
    recentTable_of_same (discardVote_same _ _ _), (discardVote_same _ _ _).limit, ← length, number]
  have table : recentTable { shifted e s h with
      recents := (shifted e s h).recents.insert (authors.length + 1) signer } =
      Function.update (forget (recentTable s) (authors.length + 1) s.limit) (authors.length + 1)
        (some signer) := by
    rw [← recentTable_shiftRecents, ← number, ← recentTable_of_same (shifted_same e s h)]
    exact lookup_insert _ _ _
  rw [table, Snapshot.limit, shifted_signers]
  exact recalls.push (Nat.succ_pos _) signer

theorem recalls_foldlM (headers : List Header) (recalls : Recalls s authors)
    (linked : consecutive authors.length headers = true)
    (short : authors.length + headers.length < 2 ^ 64)
    (run : headers.foldlM (applyHeader e) s = .ok t) :
    ∃ later, headers.map (ecrecover e) = later.map .ok ∧ Recalls t (authors ++ later) := by
  induction headers generalizing s authors with
  | nil =>
    cases run
    exact ⟨[], rfl, by rwa [List.append_nil]⟩
  | cons h rest ih =>
    rw [consecutive, Bool.and_eq_true, decide_eq_true_eq] at linked
    rw [List.length_cons] at short
    obtain ⟨middle, first, onward⟩ := foldlM_cons_ok.mp run
    have number : num h = authors.length + 1 := by
      rw [linked.1, Nat.mod_eq_of_lt (by omega)]
    obtain ⟨signer, recovered, recalled⟩ := recalls_applyHeader recalls number first
    have length : (authors ++ [signer]).length = num h := by
      rw [number, List.length_append, List.length_singleton]
    rw [← length] at linked
    obtain ⟨later, signed, end'⟩ := ih recalled linked.2 (by rw [length, number]; omega) onward
    refine ⟨signer :: later, ?_, ?_⟩
    · rw [List.map_cons, recovered, signed, List.map_cons]
    · rw [List.append_cons]
      exact end'

theorem recalls_apply {hash : Hash} {signers : List Address} {headers : List Header}
    (run : (newSnapshot 0 hash signers).apply e headers = .ok t)
    (short : headers.length < 2 ^ 64) :
    t.number = headers.length ∧
      ∃ authors, headers.map (ecrecover e) = authors.map .ok ∧ Recalls t authors := by
  have begin' : Recalls (newSnapshot 0 hash signers) [] := by
    have none : recentTable (newSnapshot 0 hash signers) = fun _ => none := by
      funext j
      exact ExtTreeMap.getElem?_empty
    rw [Recalls, none]
    exact .empty _
  by_cases empty : headers = []
  · subst empty
    cases run
    exact ⟨rfl, [], rfl, begin'⟩
  · obtain ⟨linked, folded, ran, rfl⟩ := (apply_eq_ok_iff empty).mp run
    obtain ⟨later, signed, recalled⟩ := recalls_foldlM headers begin' linked
      (by rw [List.length_nil]; omega) ran
    refine ⟨?_, later, signed, recalled⟩
    change (0 + headers.length) % 2 ^ 64 = _
    rw [Nat.zero_add, Nat.mod_eq_of_lt short]

theorem apply_one_refused_iff {signer : Address} (follows : num h = (s.number + 1) % 2 ^ 64)
    (recovered : ecrecover e h = .ok signer) (known : signer ∈ s.signers) :
    s.apply e [h] = .error .errUnauthorized ↔
      signer ∈ (s.shiftRecents (num h)).recents.values := by
  have linked : consecutive s.number [h] = true := by
    rw [consecutive, consecutive, Bool.and_true, decide_eq_true_eq]
    exact follows
  rw [Snapshot.apply, List.getLast?_singleton]
  dsimp only
  rw [if_pos linked, List.foldlM_cons, applyHeader_eq, recovered]
  dsimp only
  rw [if_neg (not_not.mpr known)]
  by_cases recent : signer ∈ (s.shiftRecents (num h)).recents.values
  · simp [recent, bind, Except.bind]
  · cases voteOf h.nonce <;> simp [recent, bind, Except.bind, pure, Except.pure]

/-- After the oldest number is deleted, the last `len(Signers)/2` blocks are left. -/
theorem mem_recents_iff {headers : List Header} {signer : Address}
    (signed : headers.map (ecrecover e) = authors.map .ok) (recalls : Recalls t authors) :
    signer ∈ (t.shiftRecents (headers.length + 1)).recents.values ↔
      ∃ earlier ∈ headers.rtake (t.signers.size / 2), ecrecover e earlier = .ok signer := by
  have length : authors.length = headers.length := by
    rw [← List.length_map (f := ecrecover e), signed, List.length_map]
  have listed : signer ∈ authors.rtake (t.signers.size / 2) ↔
      ∃ earlier ∈ headers.rtake (t.signers.size / 2), ecrecover e earlier = .ok signer := by
    rw [← List.mem_map, List.rtake, List.rtake, List.map_drop, signed, ← List.map_drop, length,
      List.mem_map]
    simp
  have table (j : Nat) : (t.shiftRecents (headers.length + 1)).recents[j]? =
      forget (recentTable t) (authors.length + 1) (t.signers.size / 2 + 1) j := by
    rw [length]
    exact congrFun (recentTable_shiftRecents t (headers.length + 1)) j
  rw [mem_values_iff, ← listed, ← Remembers.exists_forget recalls]
  simp only [table]

theorem signedBy_quiet {signer : Address} (none : s.votes = [] ∧ s.tally = ∅)
    (stranger : h.coinbase ∉ s.signers) :
    signedBy s h signer false = { s with recents := s.recents.insert (num h) signer } := by
  simp [signedBy, Snapshot.discardVote, Snapshot.recordVote, Snapshot.cast, Snapshot.validVote,
    Snapshot.settle, none, stranger]

theorem shiftRecents_eq (s : Snapshot) (number : Nat) :
    s.shiftRecents number = { s with recents := (s.shiftRecents number).recents } := by
  rw [Snapshot.shiftRecents]
  split <;> rfl

theorem shifted_quiet (none : s.votes = [] ∧ s.tally = ∅) :
    shifted e s h = s.shiftRecents (num h) := by
  rw [shifted]
  have same : ({ s with votes := [], tally := ∅ } : Snapshot) = s := by
    cases s
    simp_all
  rw [same, ite_self]

/-- A header that votes to remove a stranger only adds to the recent signers. -/
theorem apply_quiet {signer : Address} (none : s.votes = [] ∧ s.tally = ∅)
    (stranger : h.coinbase ∉ s.signers) (drop : h.nonce = nonceDropVote)
    (follows : num h = (s.number + 1) % 2 ^ 64) (recovered : ecrecover e h = .ok signer)
    (known : signer ∈ s.signers)
    (free : signer ∉ (s.shiftRecents (num h)).recents.values) :
    ∃ t, s.apply e [h] = .ok t ∧ t.number = num h ∧ t.signers = s.signers ∧
      (t.votes = [] ∧ t.tally = ∅) ∧
      t.recents = (s.shiftRecents (num h)).recents.insert (num h) signer := by
  have voted : voteOf h.nonce = some false := by
    rw [drop]
    rfl
  have run := applyHeader_eq_ok_iff.mpr ⟨signer, false, recovered, known, free, voted, rfl⟩
  rw [shifted_quiet none, shiftRecents_eq s (num h),
    signedBy_quiet (s := { s with recents := (s.shiftRecents (num h)).recents }) none stranger]
    at run
  have linked : consecutive s.number [h] = true := by
    rw [consecutive, consecutive, Bool.and_true, decide_eq_true_eq]
    exact follows
  exact ⟨_, (apply_eq_ok_iff (List.cons_ne_nil h [])).mpr
    ⟨linked, _, foldlM_cons_ok.mpr ⟨_, run, rfl⟩, rfl⟩, follows.symm, rfl, none, rfl⟩

end

/-! ### Three signers, until the numbers wrap around -/

def threeSigners : Snapshot := newSnapshot 0 (FixedBytes.zero 32) ([1, 2, 3].map checksumSigner)

def block (number : Nat) (key : UInt8) : Header :=
  cliqueDraft checksumCrypto (FixedBytes.zero 32) number 5 zeroAddress (vanity ++ checksumSig key)

def turn (number : Nat) : UInt8 := if number % 2 = 0 then 1 else 2

def blocks (n : Nat) : List Header := (List.range n).map fun i => block (i + 1) (turn (i + 1))

theorem ecrecover_block (number : Nat) (key : UInt8) :
    ecrecover fourEngine (block number key) = .ok (checksumSigner key) := by
  have long : (vanity ++ checksumSig key).length = 97 := by simp [vanity, checksumSig]
  have behind : (vanity ++ checksumSig key).drop (97 - extraSeal) = checksumSig key :=
    List.drop_left' rfl
  have sealLength : (checksumSig key).length = 65 := by simp [checksumSig]
  have key' : (checksumSig key).take 64 = List.replicate 64 key := List.take_left' rfl
  change (if (vanity ++ checksumSig key).length < extraSeal then .error .errMissingSignature
    else recoverSigner checksumCrypto _ ((vanity ++ checksumSig key).drop
      ((vanity ++ checksumSig key).length - extraSeal)) : Except HeaderError Address) = _
  have recovered (hash : Hash) : checksumCrypto.ecrecover hash (checksumSig key) =
      some (4 :: List.replicate 64 key) := by
    simp [checksumCrypto, plainCrypto, sealLength, key']
  rw [long, behind, if_neg (by decide), recoverSigner, recovered]
  rfl

theorem turn_ne (number : Nat) :
    checksumSigner (turn number) ≠ checksumSigner (turn (number + 1)) := by
  have apart : checksumSigner 1 ≠ checksumSigner 2 := by decide +kernel
  rcases Nat.mod_two_eq_zero_or_one number with even | odd
  · rw [turn, turn, if_pos even, if_neg (by omega)]
    exact apart
  · rw [turn, turn, if_neg (by omega), if_pos (by omega)]
    exact apart.symm

/-- The snapshot after `n` blocks remembers the signers of the last two. -/
structure InTurns (n : Nat) (t : Snapshot) : Prop where
  run : threeSigners.apply fourEngine (blocks n) = .ok t
  number : t.number = n
  signers : t.signers = threeSigners.signers
  quiet : t.votes = [] ∧ t.tally = ∅
  recents : ∀ j : Nat, t.recents[j]? =
    if 0 < j ∧ n ≤ j + 1 ∧ j ≤ n then some (checksumSigner (turn j)) else none

theorem InTurns.size {n : Nat} {t : Snapshot} (turns : InTurns n t) : t.signers.size / 2 = 1 := by
  rw [turns.signers]
  decide +kernel

theorem InTurns.stranger {n : Nat} {t : Snapshot} (turns : InTurns n t) :
    zeroAddress ∉ t.signers := by
  rw [turns.signers]
  decide +kernel

theorem InTurns.known {n : Nat} {t : Snapshot} (turns : InTurns n t) (number : Nat) :
    checksumSigner (turn number) ∈ t.signers := by
  rw [turns.signers, turn]
  split <;> decide +kernel

theorem apply_blocks (n : Nat) (short : n < 2 ^ 64) : ∃ t, InTurns n t := by
  induction n with
  | zero =>
    refine ⟨_, rfl, rfl, rfl, ⟨rfl, rfl⟩, fun j => ?_⟩
    rw [if_neg (by omega)]
    exact ExtTreeMap.getElem?_empty
  | succ n ih =>
    obtain ⟨t, turns⟩ := ih (by omega)
    have height : num (block (n + 1) (turn (n + 1))) = n + 1 := Nat.mod_eq_of_lt short
    have limit : t.limit = 2 := by rw [Snapshot.limit, turns.size]
    -- only the last block is left when the oldest number is deleted
    have shifted (j : Nat) : (t.shiftRecents (n + 1)).recents[j]? =
        if 0 < j ∧ j = n then some (checksumSigner (turn j)) else none := by
      rw [Snapshot.shiftRecents, limit]
      split
      · rw [get_erase, turns.recents]
        grind
      · rw [turns.recents]
        grind
    have free : checksumSigner (turn (n + 1)) ∉ (t.shiftRecents (n + 1)).recents.values := by
      rw [mem_values_iff]
      rintro ⟨j, held⟩
      rw [shifted] at held
      split at held
      · rename_i last
        rw [last.2, Option.some_inj] at held
        exact turn_ne n held
      · cases held
    obtain ⟨next, applied, number, kept, quiet, recents⟩ := apply_quiet turns.quiet turns.stranger
      rfl (by rw [height, turns.number, Nat.mod_eq_of_lt short]) (ecrecover_block (n + 1) _)
      (turns.known _) (by rw [height]; exact free)
    refine ⟨next, ?_, number.trans height, kept.trans turns.signers, quiet, fun j => ?_⟩
    · rw [blocks, List.range_succ, List.map_append]
      exact (apply_append_iff _ _).mpr ⟨t, turns.run, applied⟩
    · rw [recents, height, get_insert, shifted]
      grind

end Linkeye.Poa.SigningWindow
