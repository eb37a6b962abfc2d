import Linkeye.Consensus.Heights
import Linkeye.Consensus.Recents

/-!
# Progress of the poa engine

A header is accepted against the snapshot of its parent and then applied to it.
Both steps enforce the recently-signed rule: `verifyHeader` by a subtraction,
`apply` by what is left in `Recents`.  The blocks in `Recents` always lie in the
window of the snapshot, so the two agree once the chain is longer than the
window; below it the subtraction wraps around and refuses nobody.
-/

set_option autoImplicit false

namespace Linkeye.Poa.Progress

open Common.Types Common.Signature Consensus.Fields
open Std (ExtTreeMap)
open Consensus.Heights (cliqueDraft poaEngine vanity)
open Consensus.Recents Core.Blocks
open Dbft.Headers (num consecutive)
open Headers Lib.Maps Lib.Runs Snapshots Poa.Snapshots.Snapshot

/-- Snapshots that `apply` makes from that of a genesis block. -/
inductive Reachable (e : Engine) : Snapshot → Prop where
  | genesis (hash : Hash) (signers : List Address) : Reachable e (newSnapshot 0 hash signers)
  | apply {s next : Snapshot} (headers : List Header) (reached : Reachable e s)
      (applied : s.apply e headers = .ok next) : Reachable e next

/-! ## What a vote leaves alone -/

/-- Only votes and tallies may differ. -/
structure SameSigners (s t : Snapshot) : Prop where
  number : t.number = s.number
  signers : t.signers = s.signers
  recents : t.recents = s.recents

namespace SameSigners
variable {s t u : Snapshot}

theorem refl (s : Snapshot) : SameSigners s s := ⟨rfl, rfl, rfl⟩

theorem trans (first : SameSigners s t) (second : SameSigners t u) : SameSigners s u :=
  ⟨second.number.trans first.number, second.signers.trans first.signers,
    second.recents.trans first.recents⟩

theorem limit (same : SameSigners s t) : t.limit = s.limit := by
  rw [Snapshot.limit, Snapshot.limit, same.signers]

end SameSigners

section
variable (s : Snapshot) (address signer : Address)

theorem cast_same (authorize : Bool) : SameSigners s (s.cast address authorize).1 := by
  rw [Snapshot.cast]
  split
  · split
    · exact ⟨rfl, rfl, rfl⟩
    · exact ⟨rfl, rfl, rfl⟩
  · exact .refl s

theorem uncast_same (authorize : Bool) : SameSigners s (s.uncast address authorize).1 := by
  rw [uncast]
  split
  · exact .refl s
  · split
    · exact .refl s
    · split
      · exact ⟨rfl, rfl, rfl⟩
      · exact ⟨rfl, rfl, rfl⟩

theorem discardVote_same : SameSigners s (s.discardVote signer address) := by
  rw [discardVote]
  split
  · exact .refl s
  · rename_i vote _
    have kept := uncast_same s vote.address vote.authorize
    exact { kept with }

theorem recordVote_same (vote : Vote) : SameSigners s (s.recordVote vote) := by
  have kept := cast_same s vote.address vote.authorize
  rw [recordVote]
  split
  · rename_i cast
    rw [cast] at kept
    exact { kept with }
  · rename_i cast
    rw [cast] at kept
    exact kept

theorem uncastAll_same (votes : List Vote) :
    SameSigners s (votes.foldl (fun s vote => (s.uncast vote.address vote.authorize).1) s) := by
  induction votes generalizing s with
  | nil => exact .refl s
  | cons vote rest ih => exact (uncast_same s vote.address vote.authorize).trans (ih _)

theorem discardVotesOf_same : SameSigners s (s.discardVotesOf signer) := by
  have kept := uncastAll_same s (s.votes.filter fun vote => decide (vote.signer = signer))
  exact { kept with }

end

/-! ## The window of recent signers -/

/-- The recent blocks are not older than the window that ends in block `number`. -/
def Window (s : Snapshot) (number : Nat) : Prop :=
  ∀ seen : Nat, seen ∈ s.recents → number < seen + s.limit

section
variable {s t : Snapshot} {number : Nat}

theorem SameSigners.window (same : SameSigners s t) (window : Window s number) :
    Window t number := by
  intro seen member
  rw [same.limit]
  rw [same.recents] at member
  exact window seen member

theorem shiftRecents_signers (s : Snapshot) (number : Nat) :
    (s.shiftRecents number).signers = s.signers := by
  rw [shiftRecents]
  split
  · rfl
  · rfl

theorem shiftRecents_number (s : Snapshot) (number : Nat) :
    (s.shiftRecents number).number = s.number := by
  rw [shiftRecents]
  split
  · rfl
  · rfl

theorem shiftRecents_limit (s : Snapshot) (number : Nat) :
    (s.shiftRecents number).limit = s.limit := by
  rw [Snapshot.limit, Snapshot.limit, shiftRecents_signers]

theorem SameSigners.shiftRecents (same : SameSigners s t) (number : Nat) :
    SameSigners (s.shiftRecents number) (t.shiftRecents number) := by
  rw [Snapshot.shiftRecents, Snapshot.shiftRecents, same.limit]
  by_cases long : s.limit ≤ number
  · rw [if_pos long, if_pos long]
    exact ⟨same.number, same.signers, congrArg (·.erase (number - s.limit)) same.recents⟩
  · rw [if_neg long, if_neg long]
    exact same

/-- Shifting drops the one block that may have left the window. -/
theorem window_shiftRecents (within : ∀ seen : Nat, seen ∈ s.recents → number ≤ seen + s.limit) :
    Window (s.shiftRecents number) number := by
  intro seen member
  rw [shiftRecents_limit]
  rw [shiftRecents] at member
  split at member
  · obtain ⟨other, held⟩ := ExtTreeMap.mem_erase.mp member
    have apart : number - s.limit ≠ seen := fun same => other (Std.compare_eq_iff_eq.mpr same)
    have bound := within seen held
    omega
  · omega

theorem window_insertSigner (window : Window s number) (address : Address) :
    Window { s with signers := s.signers.insert address () } number := by
  intro seen member
  have bound := window seen member
  have grown : s.signers.size ≤ (s.signers.insert address ()).size :=
    ExtTreeMap.size_le_size_insert
  simp only [Snapshot.limit] at bound ⊢
  omega

theorem window_eraseSigner (window : Window s number) (address : Address) :
    Window (shiftRecents { s with signers := s.signers.erase address } number) number := by
  apply window_shiftRecents
  intro seen member
  have bound := window seen member
  have shrunk : s.signers.size ≤ (s.signers.erase address).size + 1 :=
    ExtTreeMap.size_le_size_erase
  simp only [Snapshot.limit] at bound ⊢
  omega

theorem window_settle (window : Window s number) (address : Address) :
    Window (s.settle number address) number := by
  rw [settle]
  split
  · split
    · exact SameSigners.window ⟨rfl, rfl, rfl⟩ (window_insertSigner window address)
    · have shrunk := window_eraseSigner window address
      have kept := (discardVotesOf_same _ address).window shrunk
      exact SameSigners.window ⟨rfl, rfl, rfl⟩ kept
  · exact window

theorem settle_number (s : Snapshot) (number : Nat) (address : Address) :
    (s.settle number address).number = s.number := by
  rw [settle]
  split
  · split
    · rfl
    · exact (discardVotesOf_same _ address).number.trans (shiftRecents_number _ number)
  · rfl

end

/-! ## Applying a header -/

section
variable {e : Engine} {s next : Snapshot} {h : Header}

/-- The snapshot in which the signer of a header is looked for. -/
def shifted (e : Engine) (s : Snapshot) (h : Header) : Snapshot :=
  let s : Snapshot := if num h % e.epoch = 0 then { s with votes := [], tally := ∅ } else s
  s.shiftRecents (num h)

theorem shifted_same (e : Engine) (s : Snapshot) (h : Header) :
    SameSigners (s.shiftRecents (num h)) (shifted e s h) := by
  apply SameSigners.shiftRecents
  split
  · exact ⟨rfl, rfl, rfl⟩
  · exact .refl s

/-- What is done once the signer is known. -/
def signedBy (s : Snapshot) (h : Header) (signer : Address) (authorize : Bool) : Snapshot :=
  let s : Snapshot := { s with recents := s.recents.insert (num h) signer }
  ((s.discardVote signer h.coinbase).recordVote ⟨signer, num h, h.coinbase, authorize⟩).settle
    (num h) h.coinbase

theorem shifted_signers (e : Engine) (s : Snapshot) (h : Header) :
    (shifted e s h).signers = s.signers :=
  (shifted_same e s h).signers.trans (shiftRecents_signers s (num h))

theorem applyHeader_eq (e : Engine) (s : Snapshot) (h : Header) :
    applyHeader e s h =
      match ecrecover e h with
      | .error err => .error err
      | .ok signer =>
        if signer ∉ s.signers then .error .errUnauthorized
        else if signer ∈ (s.shiftRecents (num h)).recents.values then .error .errUnauthorized
        else
          match voteOf h.nonce with
          | none => .error .errInvalidVote
          | some authorize => .ok (signedBy (shifted e s h) h signer authorize) := by
  rw [← shifted_signers e s h, ← (shifted_same e s h).recents]
  rfl

theorem applyHeader_eq_ok_iff :
    applyHeader e s h = .ok next ↔
      ∃ signer authorize, ecrecover e h = .ok signer ∧ signer ∈ s.signers ∧
        signer ∉ (s.shiftRecents (num h)).recents.values ∧ voteOf h.nonce = some authorize ∧
        next = signedBy (shifted e s h) h signer authorize := by
  rw [applyHeader_eq]
  cases ecrecover e h with
  | error err => simp
  | ok signer =>
    dsimp only
    by_cases known : signer ∈ s.signers
    · rw [if_neg (not_not.mpr known)]
      by_cases recent : signer ∈ (s.shiftRecents (num h)).recents.values
      · rw [if_pos recent]
        constructor
        · rintro ⟨⟩
        · rintro ⟨_, _, ⟨⟩, _, free, _⟩
          exact absurd recent free
      · rw [if_neg recent]
        cases voteOf h.nonce with
        | none => simp
        | some authorize =>
          constructor
          · rintro ⟨⟩
            exact ⟨signer, authorize, rfl, known, recent, rfl, rfl⟩
          · rintro ⟨_, _, ⟨⟩, _, _, ⟨⟩, rfl⟩
            rfl
    · rw [if_pos known]
      constructor
      · rintro ⟨⟩
      · rintro ⟨_, _, ⟨⟩, member, _⟩
        exact absurd member known

theorem window_applyHeader {number : Nat} (window : Window s number)
    (follows : num h = (number + 1) % 2 ^ 64) (applied : applyHeader e s h = .ok next) :
    Window next (num h) := by
  obtain ⟨signer, authorize, _, _, _, _, rfl⟩ := applyHeader_eq_ok_iff.mp applied
  have moved : Window (s.shiftRecents (num h)) (num h) := by
    apply window_shiftRecents
    intro seen member
    have bound := window seen member
    omega
  have opened : Window (shifted e s h) (num h) := (shifted_same e s h).window moved
  apply window_settle
  apply (recordVote_same _ _).window
  apply (discardVote_same _ _ _).window
  intro seen member
  rcases ExtTreeMap.mem_insert.mp member with same | held
  · rw [← Std.compare_eq_iff_eq.mp same, Snapshot.limit]
    omega
  · exact opened seen held

theorem applyHeader_number (applied : applyHeader e s h = .ok next) : next.number = s.number := by
  obtain ⟨signer, authorize, _, _, _, _, rfl⟩ := applyHeader_eq_ok_iff.mp applied
  rw [signedBy, settle_number, (recordVote_same _ _).number, (discardVote_same _ _ _).number]
  exact (shifted_same e s h).number.trans (shiftRecents_number s (num h))

theorem foldlM_number (headers : List Header)
    (applied : headers.foldlM (applyHeader e) s = .ok next) : next.number = s.number :=
  foldlM_keeps (·.number = s.number) (fun _ _ _ same first => (applyHeader_number first).trans same)
    headers rfl applied

def lastNumber (number : Nat) (headers : List Header) : Nat :=
  headers.foldl (fun _ h => num h) number

theorem window_foldlM {number : Nat} (headers : List Header) (window : Window s number)
    (linked : consecutive number headers = true)
    (applied : headers.foldlM (applyHeader e) s = .ok next) :
    Window next (lastNumber number headers) := by
  induction headers generalizing s number with
  | nil =>
    cases applied
    exact window
  | cons h rest ih =>
    rw [consecutive, Bool.and_eq_true, decide_eq_true_eq] at linked
    rw [List.foldlM_cons] at applied
    cases first : applyHeader e s h with
    | error err =>
      rw [first] at applied
      cases applied
    | ok middle =>
      rw [first] at applied
      exact ih (window_applyHeader window linked.1 first) linked.2 applied

theorem lastNumber_eq {number : Nat} (small : number < 2 ^ 64) (headers : List Header)
    (linked : consecutive number headers = true) :
    lastNumber number headers = (number + headers.length) % 2 ^ 64 := by
  induction headers generalizing number with
  | nil => exact (Nat.mod_eq_of_lt small).symm
  | cons h rest ih =>
    rw [consecutive, Bool.and_eq_true, decide_eq_true_eq] at linked
    have bounded : num h < 2 ^ 64 := Nat.mod_lt _ (by decide)
    change lastNumber (num h) rest = _
    rw [ih bounded linked.2, linked.1, List.length_cons]
    omega

theorem apply_eq_ok {headers : List Header} (applied : s.apply e headers = .ok next) :
    next = s ∨ consecutive s.number headers = true ∧
      ∃ folded hash, headers.foldlM (applyHeader e) s = .ok folded ∧
        next = { folded with number := (s.number + headers.length) % 2 ^ 64, hash := hash } := by
  rw [Snapshot.apply] at applied
  split at applied
  · cases applied
    exact .inl rfl
  · split at applied
    · rename_i linked
      split at applied
      · cases applied
      · rename_i folded run
        cases applied
        rw [foldlM_number headers run]
        exact .inr ⟨linked, folded, _, run, rfl⟩
    · cases applied

theorem apply_singleton_iff (follows : num h = (s.number + 1) % 2 ^ 64) :
    (∃ next, s.apply e [h] = .ok next) ↔ ∃ next, applyHeader e s h = .ok next := by
  rw [Snapshot.apply]
  simp only [List.getLast?_singleton, consecutive, Bool.and_true, decide_eq_true_eq,
    List.foldlM_cons, List.foldlM_nil, bind, Except.bind, pure, Except.pure, if_pos follows]
  cases applyHeader e s h with
  | error err => simp
  | ok next => simp

end

/-! ## Reachable snapshots -/

section
variable {e : Engine} {s : Snapshot}

theorem Reachable.small (reached : Reachable e s) : s.number < 2 ^ 64 := by
  induction reached with
  | genesis hash signers => exact Nat.two_pow_pos 64
  | apply headers _ applied ih =>
    obtain rfl | ⟨_, _, _, _, rfl⟩ := apply_eq_ok applied
    · exact ih
    · exact Nat.mod_lt _ (Nat.two_pow_pos 64)

theorem Reachable.window (reached : Reachable e s) : Window s s.number := by
  induction reached with
  | genesis hash signers =>
    intro seen member
    exact absurd member ExtTreeMap.not_mem_empty
  | apply headers before applied ih =>
    obtain rfl | ⟨linked, folded, hash, run, rfl⟩ := apply_eq_ok applied
    · exact ih
    · have window := window_foldlM headers ih linked run
      rw [lastNumber_eq before.small headers linked] at window
      exact window

/-- In a window that begins after genesis, the block shifted out is the only one
that `verifyHeader` lets the signer of pass. -/
theorem shifted_out_iff {h : Header} {signer : Address} (window : Window s s.number)
    (child : num h = s.number + 1) (small : num h < 2 ^ 64)
    (passed : refuses s.recents s.limit (num h) signer = false) :
    signer ∉ (s.shiftRecents (num h)).recents.values ↔
      s.limit ≤ num h ∨ signer ∉ s.recents.values := by
  rw [shiftRecents]
  by_cases long : s.limit ≤ num h
  · rw [if_pos long, mem_values_iff]
    refine ⟨fun _ => .inl long, fun _ recent => ?_⟩
    obtain ⟨seen, held⟩ := recent
    rw [Lib.Maps.get_erase] at held
    split at held
    · cases held
    · have late := refuses_eq_false_iff.mp passed seen held
      rw [sub64_of_le long small] at late
      have member : seen ∈ s.recents := by
        rw [ExtTreeMap.mem_iff_isSome_getElem?, held]
        rfl
      have bound := window seen member
      omega
  · rw [if_neg long]
    constructor
    · exact .inr
    · rintro (wrong | free)
      · exact absurd wrong long
      · exact free

end

/-! ## Accepted headers -/

section
variable {e : Engine} {node : Node} {s : Snapshot} {h : Header} {parents : List Header}

theorem verifyHeader_eq_ok (later : num h ≠ 0)
    (looked : (snapshot e node (num h - 1) h.parentHash parents).2 = .ok s)
    (accepted : (verifyHeader e node h parents).2 = .ok ()) :
    verifyFields e h = .ok () ∧ ∃ signer, authorizedSigner e s h = .ok signer := by
  rw [verifyHeader] at accepted
  split at accepted
  · cases accepted
  · rename_i fields
    refine ⟨fields, ?_⟩
    split at accepted
    · cases accepted
    · rename_i turned
      rw [verifyTurn, if_neg later] at turned
      split at turned
      · cases turned
      · rename_i found
        rw [found] at looked
        cases looked
        split at turned
        · cases turned
        · rename_i signer signed
          exact ⟨signer, signed⟩

theorem authorizedSigner_eq_ok {signer : Address} (signed : authorizedSigner e s h = .ok signer) :
    ecrecover e h = .ok signer ∧ signer ∈ s.signers ∧
      refuses s.recents s.limit (num h) signer = false := by
  rw [authorizedSigner] at signed
  split at signed
  · cases signed
  · rename_i found recovered
    split at signed
    · cases signed
    · rename_i known
      split at signed
      · cases signed
      · rename_i passed
        cases signed
        rw [signedRecently_eq, Bool.not_eq_true] at passed
        exact ⟨recovered, not_not.mp known, passed⟩

theorem exists_voteOf (fields : verifyFields e h = .ok ()) :
    ∃ authorize, voteOf h.nonce = some authorize := by
  have voted : ¬ (h.nonce ≠ nonceAuthVote ∧ h.nonce ≠ nonceDropVote) := by
    intro wrong
    rw [verifyFields, if_pos wrong] at fields
    split at fields
    · cases fields
    · split at fields
      · cases fields
      · cases fields
  rw [voteOf]
  by_cases auth : h.nonce = nonceAuthVote
  · exact ⟨true, if_pos auth⟩
  · by_cases drop : h.nonce = nonceDropVote
    · rw [if_neg auth]
      exact ⟨false, if_pos drop⟩
    · exact absurd ⟨auth, drop⟩ voted

/-- A child that is accepted can be applied, except in the blocks below the
window, where a signer that has signed before is accepted and cannot be applied. -/
theorem accepted_applies_iff (reached : Reachable e s)
    (looked : (snapshot e node (num h - 1) h.parentHash parents).2 = .ok s)
    (child : num h = s.number + 1)
    (accepted : (verifyHeader e node h parents).2 = .ok ()) :
    (∃ next, s.apply e [h] = .ok next) ↔
      s.limit ≤ num h ∨ ∀ signer, ecrecover e h = .ok signer → signer ∉ s.recents.values := by
  have small : num h < 2 ^ 64 := Nat.mod_lt _ (Nat.two_pow_pos 64)
  have follows : num h = (s.number + 1) % 2 ^ 64 := by
    rw [← child, Nat.mod_eq_of_lt small]
  obtain ⟨fields, signer, signed⟩ := verifyHeader_eq_ok (by omega) looked accepted
  obtain ⟨recovered, known, passed⟩ := authorizedSigner_eq_ok signed
  obtain ⟨authorize, voted⟩ := exists_voteOf fields
  have free := shifted_out_iff reached.window child small passed
  rw [apply_singleton_iff follows]
  constructor
  · rintro ⟨next, applied⟩
    obtain ⟨_, _, same, _, shiftedOut, _, _⟩ := applyHeader_eq_ok_iff.mp applied
    rw [recovered] at same ⊢
    cases same
    rcases free.mp shiftedOut with long | fresh
    · exact .inl long
    · refine .inr ?_
      rintro _ ⟨⟩
      exact fresh
  · intro outside
    have shiftedOut := free.mpr (outside.imp_right fun fresh => fresh signer recovered)
    exact ⟨_, applyHeader_eq_ok_iff.mpr
      ⟨signer, authorize, recovered, known, shiftedOut, voted, rfl⟩⟩

end

/-! ### A chain of four signers -/

def fourEngine : Engine := poaEngine checksumCrypto 29999

def fourGenesis : Header :=
  cliqueDraft checksumCrypto (FixedBytes.zero 32) 0 0 zeroAddress
    (vanity ++ ([1, 2, 3, 4].flatMap fun key => (checksumSigner key).data) ++
      List.replicate 65 0)

theorem fourGenesis_num : num fourGenesis = 0 := rfl

def sealedChild (parent : Header) (s : Snapshot) (key : UInt8) : Header :=
  cliqueDraft checksumCrypto (parent.hash checksumCrypto) (s.number + 1)
    (calcDifficulty s (checksumSigner key) none) zeroAddress (vanity ++ checksumSig key)

def fourSigners : Snapshot :=
  newSnapshot 0 (fourGenesis.hash checksumCrypto) (genesisSigners fourGenesis)

def firstBlock : Header := sealedChild fourGenesis fourSigners 1

def firstSnapshot : Snapshot :=
  ((fourSigners.apply fourEngine [firstBlock]).toOption).getD fourSigners

def firstNode : Node :=
  ⟨⟨fourGenesis, [firstBlock], fourGenesis_num⟩,
    (∅ : ExtTreeMap Hash Snapshot).insert (firstBlock.hash checksumCrypto) firstSnapshot, ∅⟩

theorem reachable_firstSnapshot : Reachable fourEngine firstSnapshot := by
  have taken : (fourSigners.apply fourEngine [firstBlock]).isOk = true := by decide +kernel
  have applied : fourSigners.apply fourEngine [firstBlock] = .ok firstSnapshot := by
    rw [firstSnapshot]
    cases run : fourSigners.apply fourEngine [firstBlock] with
    | error err =>
      rw [run] at taken
      cases taken
    | ok next => rfl
  exact .apply [firstBlock] (.genesis _ _) applied

theorem snapshot_inserted (e : Engine) (chain : Chain) (hash : Hash) (s : Snapshot) (number : Nat) :
    (snapshot e ⟨chain, (∅ : ExtTreeMap Hash Snapshot).insert hash s, ∅⟩ number hash []).2 =
      .ok s := by
  have held : ((∅ : ExtTreeMap Hash Snapshot).insert hash s)[hash]? = some s :=
    ExtTreeMap.getElem?_insert_self
  rw [snapshot_of_recent held]

theorem snapshot_firstNode (key : UInt8) :
    (snapshot fourEngine firstNode (num (sealedChild firstBlock firstSnapshot key) - 1)
      (sealedChild firstBlock firstSnapshot key).parentHash []).2 = .ok firstSnapshot :=
  snapshot_inserted fourEngine _ (firstBlock.hash checksumCrypto) firstSnapshot _

/-- The second block may come from another signer. -/
theorem accepted_applies_other_signer :
    ∃ next,
      firstSnapshot.apply fourEngine [sealedChild firstBlock firstSnapshot 2] = .ok next := by
  have own : ecrecover fourEngine (sealedChild firstBlock firstSnapshot 2) =
      .ok (checksumSigner 2) := by decide +kernel
  have fresh : checksumSigner 2 ∉ firstSnapshot.recents.values := by decide +kernel
  have applies := accepted_applies_iff reachable_firstSnapshot (snapshot_firstNode 2)
    (by decide +kernel) (by decide +kernel)
  refine applies.mpr (.inr fun signer recovered => ?_)
  rw [← Except.ok.inj (own.symm.trans recovered)]
  exact fresh

/-- The second block of the same signer is accepted, and no snapshot follows it. -/
theorem accepted_then_stuck :
    Reachable fourEngine firstSnapshot ∧
      (snapshot fourEngine firstNode (num (sealedChild firstBlock firstSnapshot 1) - 1)
        (sealedChild firstBlock firstSnapshot 1).parentHash []).2 = .ok firstSnapshot ∧
      num (sealedChild firstBlock firstSnapshot 1) = firstSnapshot.number + 1 ∧
      (verifyHeader fourEngine firstNode (sealedChild firstBlock firstSnapshot 1) []).2 = .ok () ∧
      (firstSnapshot.apply fourEngine [sealedChild firstBlock firstSnapshot 1]).isOk = false := by
  refine ⟨reachable_firstSnapshot, snapshot_firstNode 1, ?_, ?_, ?_⟩
  · decide +kernel
  · decide +kernel
  · decide +kernel

end Linkeye.Poa.Progress
