import Linkeye.Core.Blocks
import Linkeye.Dbft.Invariants

/-!
# Committed seals

The core counts COMMIT messages by sender and subject; the engine checks the
seals they carry once the block is written.  `committed_block_verifies` is the
link between the two.
-/

set_option autoImplicit false

namespace Linkeye.Dbft.Seals

open Common.Types Common.Signature Rlp.Encode Lib.Runs Core.Blocks Dbft.Types Round Validator Handlers
open Moves CoreRuns Invariants

/-- A block as the consensus core sees it, hashed with `crypto`. -/
def HashedBlock (_ : Crypto) : Type := Block

def HashedBlock.header {crypto : Crypto} (b : HashedBlock crypto) : Header := Block.header b

instance (crypto : Crypto) : Proposal (HashedBlock crypto) where
  number := fun b => b.header.number
  hash := fun b => b.header.hash crypto
  encodeRLP := Block.encodeRLP
  decodeRLP := Block.decodeRLP

/-! ## Checking the seals of a header -/

inductive SealsError where
  | extra
  | emptyCommittedSeals
  | invalidSignature
  | invalidCommittedSeals
deriving DecidableEq

/-- The loop over the seals; a validator is removed when its seal is met. -/
def countSeals (crypto : Crypto) (proposalSeal : Bytes) :
    List Bytes → ValidatorSet → Except SealsError Nat
  | [], _ => .ok 0
  | committedSeal :: rest, validators =>
    match getSignatureAddress crypto proposalSeal committedSeal with
    | none => .error .invalidSignature
    | some addr =>
      let (validators, removed) := validators.removeValidator addr
      if removed = true then (countSeals crypto proposalSeal rest validators).map (· + 1)
      else .error .invalidCommittedSeals

/-- `verifyCommittedSeals` against the validator set of a snapshot. -/
def verifyCommittedSeals (crypto : Crypto) (valSet : ValidatorSet) (header : Header) :
    Option SealsError :=
  if header.number % 2 ^ 64 = 0 then none
  else
    match extractBFTExtra header with
    | none => some .extra
    | some extra =>
      if extra.committedSeal = [] then some .emptyCommittedSeals
      else
        match countSeals crypto (prepareCommittedSeal (header.hash crypto)) extra.committedSeal
            (valSet.copy crypto.keccak256) with
        | .error err => some err
        | .ok validSeal =>
          if valSet.exceedsTwoF validSeal = true then none else some .invalidCommittedSeals

theorem countSeals_eq_ok {crypto : Crypto} {proposalSeal : Bytes} (seals : List Bytes)
    (addrs : List Address) (valSet : ValidatorSet)
    (recovered : seals.map (getSignatureAddress crypto proposalSeal) = addrs.map some)
    (distinct : addrs.Nodup) (members : ∀ addr ∈ addrs, addr ∈ valSet.validators) :
    countSeals crypto proposalSeal seals valSet = .ok seals.length := by
  induction seals generalizing addrs valSet with
  | nil => rfl
  | cons first rest ih =>
    cases addrs with
    | nil => cases recovered
    | cons addr others =>
      rw [List.map_cons, List.map_cons, List.cons.injEq] at recovered
      obtain ⟨absent, distinct⟩ := List.nodup_cons.mp distinct
      have member : addr ∈ valSet.validators := members addr List.mem_cons_self
      have later := ih others { valSet with validators := valSet.validators.erase addr }
        recovered.2 distinct (by
          intro other listed
          have differ : other ≠ addr := fun same => absent (same ▸ listed)
          exact (List.mem_erase_of_ne differ).mpr (members other (List.mem_cons_of_mem _ listed)))
      simp only [countSeals, recovered.1, ValidatorSet.removeValidator, if_pos member, if_true,
        later, Except.map, List.length_cons]

/-! ## The seals of a commit -/

/-- The header checks of `verifyHeader` that the hash and the seals rely on. -/
def CheckedHeader (h : Header) : Prop :=
  (extractBFTExtra h).isSome = true ∧ h.mixDigest = bftDigest

/-- The backend of a node: one signature scheme, proposals checked by
`verifyHeader`, and never an empty validator set. -/
structure SoundBackend (crypto : Crypto) (be : Backend (HashedBlock crypto)) : Prop where
  sameCrypto : be.crypto = crypto
  checked : ∀ b, be.verify b = .ok → CheckedHeader b.header
  nonempty : ∀ b, (be.validators b).validators ≠ []

/-- The seal that `commit` copies from a COMMIT is its sender's, for `digest`. -/
def SealRecovers (crypto : Crypto) (m : Message) (digest : Hash) : Prop :=
  getSignatureAddress crypto (prepareCommittedSeal digest) (copySeal m) = some m.address

/-- Every COMMIT for the current subject carries its sender's seal. -/
def CommitSealsRecover (crypto : Crypto) (c : Core (HashedBlock crypto))
    (step : Backend (HashedBlock crypto) × Event (HashedBlock crypto)) : Prop :=
  ∀ msg src sub, Heard step.1 c step.2 msg src → msg.code = msgCommit →
    msg.decodeSubject = some sub → c.current.subject = some sub → SealRecovers crypto msg sub.digest

/-- The block of a call of `backend.Commit` passes the engine's check with the
validators of the core. -/
def Verifiable (crypto : Crypto) (committed : Committed (HashedBlock crypto)) : Prop :=
  match writeCommittedSeals committed.proposal.header committed.seals with
  | .ok written => verifyCommittedSeals crypto committed.valSet written = none
  | .error err => err = .encodingTooLong

theorem writeCommittedSeals_result {h : Header} {seals : List Bytes} (some_seals : seals ≠ [])
    (sized : ∀ s ∈ seals, s.length = bftExtraSeal)
    (extracted : (extractBFTExtra h).isSome = true) :
    (∃ written, writeCommittedSeals h seals = .ok written) ∨
      writeCommittedSeals h seals = .error .encodingTooLong := by
  obtain ⟨extra, found⟩ := Option.isSome_iff_exists.mp extracted
  have noneOdd : ¬ (seals.any fun s => decide (s.length ≠ bftExtraSeal)) = true := by
    rw [List.any_eq_true]
    rintro ⟨s, member, odd⟩
    exact of_decide_eq_true odd (sized s member)
  unfold writeCommittedSeals
  rw [if_neg some_seals, if_neg noneOdd, found]
  dsimp only
  cases writeExtra h { extra with committedSeal := seals } with
  | none => exact Or.inr rfl
  | some written => exact Or.inl ⟨written, rfl⟩

theorem verifyCommittedSeals_written {crypto : Crypto} {h written : Header} {seals : List Bytes}
    {valSet : ValidatorSet} {addrs : List Address}
    (run : writeCommittedSeals h seals = .ok written) (digest : h.mixDigest = bftDigest)
    (some_seals : seals ≠ [])
    (recovered : seals.map (getSignatureAddress crypto (prepareCommittedSeal (h.hash crypto))) =
      addrs.map some)
    (distinct : addrs.Nodup) (members : ∀ addr ∈ addrs, addr ∈ valSet.validators)
    (quorum : valSet.exceedsTwoF seals.length = true) :
    verifyCommittedSeals crypto valSet written = none := by
  obtain ⟨extra, extracted, written_run⟩ := writeCommittedSeals_eq_ok run
  obtain ⟨readBack, _, _⟩ :=
    extractBFTExtra_writeExtra (extractBFTExtra_long extracted) written_run
  have counted := countSeals_eq_ok seals addrs (valSet.copy crypto.keccak256) recovered distinct
    (by
      intro addr listed
      exact (mem_sortValidators _ _ _).mpr (members addr listed))
  unfold verifyCommittedSeals
  split
  · rfl
  · rw [readBack]
    dsimp only
    rw [if_neg some_seals, hash_writeCommittedSeals run digest, counted]
    dsimp only
    rw [if_pos quorum]

section
variable {crypto : Crypto} {be : Backend (HashedBlock crypto)} {c : Core (HashedBlock crypto)}

/-- What the core keeps about its COMMIT messages and its proposal. -/
abbrev SealInv (crypto : Crypto) (c : Core (HashedBlock crypto)) : Prop :=
  CoreInv (fun m => ∀ sub, m.decodeSubject = some sub → SealRecovers crypto m sub.digest)
    (fun b => CheckedHeader b.header) c

theorem seals_recover {b : HashedBlock crypto} (inv : SealInv crypto c)
    (held : c.current.proposal = some b) :
    ((be.rangeOrder c.current.commits.values).map copySeal).map
        (getSignatureAddress crypto (prepareCommittedSeal (b.header.hash crypto))) =
      ((be.rangeOrder c.current.commits.values).map Message.address).map some := by
  obtain ⟨pp, stored, proposal⟩ := Option.map_eq_some_iff.mp held
  rw [List.map_map, List.map_map]
  apply List.map_congr_left
  intro m listed
  have counted := be.rangeOrder_perm c.current.commits.values
  obtain ⟨_, sub, decoded, subject, good⟩ := inv.commits m.address m
    ((MessageSet.mem_values _ m).mp (counted.mem_iff.mp listed))
  rw [RoundState.subject, stored, Option.map_some, Option.some.injEq, proposal] at subject
  have recovers := good sub decoded
  rw [← subject] at recovers
  exact recovers

theorem commit_verifiable {committed : Committed (HashedBlock crypto)} (inv : SealInv crypto c)
    (nonempty : c.valSet.validators ≠ []) (held : c.current.proposal = some committed.proposal)
    (valSet : committed.valSet = c.valSet)
    (quorum : c.valSet.exceedsTwoF c.current.commits.size = true)
    (seals : committed.seals = (be.rangeOrder c.current.commits.values).map copySeal) :
    Verifiable crypto committed := by
  obtain ⟨pp, stored, proposal⟩ := Option.map_eq_some_iff.mp held
  have checked : CheckedHeader committed.proposal.header := proposal ▸ inv.proposal pp stored
  have counted := be.rangeOrder_perm c.current.commits.values
  have length : committed.seals.length = c.current.commits.size := by
    rw [seals, List.length_map, counted.length_eq, MessageSet.values, List.length_map,
      Std.ExtTreeMap.length_toList]
    rfl
  have some_seals : committed.seals ≠ [] := by
    intro empty
    rw [ValidatorSet.exceedsTwoF_iff, ← length, empty, ValidatorSet.f, ValidatorSet.size] at quorum
    have positive := List.length_pos_iff.mpr nonempty
    simp only [List.length_nil] at quorum
    omega
  have sizes : ∀ s ∈ committed.seals, s.length = bftExtraSeal := by
    rw [seals]
    intro s listed
    obtain ⟨m, _, rfl⟩ := List.mem_map.mp listed
    simp only [copySeal, bftExtraSeal, List.length_append, List.length_take, List.length_replicate]
    omega
  unfold Verifiable
  rcases writeCommittedSeals_result some_seals sizes checked.1 with ⟨written, run⟩ | long
  · rw [run]
    apply verifyCommittedSeals_written run checked.2 some_seals _
    · rw [(counted.map Message.address).nodup_iff, MessageSet.values_addresses]
      exact Std.ExtTreeMap.nodup_keys
    · intro addr listed
      obtain ⟨m, member, rfl⟩ := List.mem_map.mp listed
      have found := (MessageSet.mem_values _ m).mp (counted.mem_iff.mp member)
      rw [valSet, ← inv.members]
      exact (c.current.commits.verified _ _ found).2
    · rw [length, valSet]
      exact quorum
    · rw [seals]
      exact seals_recover inv held
  · rw [long]

/-- In a run where every COMMIT for the current subject carries its sender's
seal, every block handed to the backend passes the engine's check. -/
theorem committed_block_verifies (address : Address) {c : Core (HashedBlock crypto)}
    (reached : Reachable (coreSystem (SoundBackend crypto) address) (CommitSealsRecover crypto) c)
    {committed : Committed (HashedBlock crypto)} (member : .commit committed ∈ c.outputs) :
    Verifiable crypto committed := by
  let Inv : Core (HashedBlock crypto) → Prop := fun c =>
    SealInv crypto c ∧ c.valSet.validators ≠ [] ∧
      ∀ committed, .commit committed ∈ c.outputs → Verifiable crypto committed
  have inv : Inv c := by
    refine reached.invariant Inv ?_ ?_
    · rintro started ⟨be, sound, run⟩
      refine ⟨CoreInv.start run, ?_, ?_⟩
      · obtain ⟨last, same⟩ := valSet_of_start run
        rw [same]
        exact sound.nonempty last
      · intro committed member
        cases start_silent run _ member
    · intro before step ih enabled recover
      refine kept_by_moves Inv ?_ (handleEvent_moves step.1 before step.2) ih
      rintro d e move ⟨sealInv, nonempty, verified⟩
      refine ⟨sealInv.move move ?_ enabled.1.checked, ?_, ?_⟩
      · intro m src sub heard code decoded subject other decodedOther
        rw [decoded] at decodedOther
        cases decodedOther
        exact recover m src sub heard code decoded subject
      · rcases valSet_of_move move with same | ⟨last, same⟩
        · rw [same]
          exact nonempty
        · rw [same]
          exact enabled.1.nonempty last
      · intro committed member
        rcases committed_of_move move member with old | ⟨held, _, valSet, quorum, seals⟩
        · exact verified committed old
        · exact commit_verifiable sealInv nonempty held valSet quorum seals
  exact inv.2.2 committed member

end

/-! ## Concrete runs -/

def sampleHeader (number : Nat) (proposer : UInt8) : Header where
  parentHash := FixedBytes.zero 32
  uncleHash := FixedBytes.zero 32
  signature := FixedBytes.zero 65
  coinbase := sampleAddress proposer
  root := FixedBytes.zero 32
  txHash := FixedBytes.zero 32
  receiptHash := FixedBytes.zero 32
  dposContext := ⟨FixedBytes.zero 32, FixedBytes.zero 32, FixedBytes.zero 32, FixedBytes.zero 32,
    FixedBytes.zero 32⟩
  bloom := FixedBytes.zero 256
  difficulty := 1
  number := number
  gasLimit := 0
  gasUsed := 0
  time := number
  extra := List.replicate 32 0 ++
    encode (BFTExtra.encodeRLP ⟨sampleSet.validators, plainSig (sampleAddress proposer), []⟩)
  mixDigest := bftDigest
  nonce := FixedBytes.zero 8

def sampleBlock (number : Nat) (proposer : UInt8) : HashedBlock plainCrypto :=
  (⟨sampleHeader number proposer, [], []⟩ : Block)

def genesisBackend : Backend (HashedBlock plainCrypto) where
  crypto := plainCrypto
  validators := fun _ => sampleSet
  parentValidators := fun _ => sampleSet
  getProposer := fun _ => zeroAddress
  lastProposal := (some (sampleBlock 0 1), zeroAddress)
  hasPropsal := fun _ _ => false
  hasBadProposal := fun _ => false
  verify := fun b =>
    if (extractBFTExtra b.header).isSome = true ∧ b.header.mixDigest = bftDigest then .ok
    else .failed
  sign := fun _ => some (plainSig (sampleAddress 3))
  commit := fun _ _ => true
  rangeOrder := id
  rangeOrder_perm := List.Perm.refl

theorem genesisBackend_sound : SoundBackend plainCrypto genesisBackend where
  sameCrypto := rfl
  checked := by
    intro b accepted
    simp only [genesisBackend] at accepted
    split at accepted
    · rename_i checked
      exact checked
    · cases accepted
  nonempty := fun _ => by
    change sampleSet.validators ≠ []
    decide +kernel

def commitFirst (sealer : UInt8) :
    List (Backend (HashedBlock plainCrypto) × Event (HashedBlock plainCrypto)) :=
  let subject := Subject.encodeRLP ⟨⟨0, 1⟩, Proposal.hash (sampleBlock 1 1)⟩
  [(genesisBackend, .message (samplePayload 1 1 msgPreprepare
      (.list [View.encodeRLP ⟨0, 1⟩,
        .list [(sampleHeader 1 1).encodeRLP, .list [], .list []]]) [])),
    (genesisBackend, .message (samplePayload 1 1 msgCommit subject (plainSig (sampleAddress 1)))),
    (genesisBackend, .message (samplePayload 2 2 msgCommit subject (plainSig (sampleAddress 2)))),
    (genesisBackend,
      .message (samplePayload 4 4 msgCommit subject (plainSig (sampleAddress sealer))))]

def sealRecovers (c : Core (HashedBlock plainCrypto))
    (step : Backend (HashedBlock plainCrypto) × Event (HashedBlock plainCrypto)) : Bool :=
  !isBacklog step.2 &&
    match heardMessage step.1 c step.2 with
    | none => true
    | some (msg, _) => msg.decodeSubject.all fun sub =>
      decide (msg.code ≠ msgCommit ∨ getSignatureAddress plainCrypto
        (prepareCommittedSeal sub.digest) (copySeal msg) = some msg.address)

theorem sealRecovers_sound {c : Core (HashedBlock plainCrypto)}
    {step : Backend (HashedBlock plainCrypto) × Event (HashedBlock plainCrypto)}
    (checked : sealRecovers c step = true) :
    Posted c step.2 ∧ CommitSealsRecover plainCrypto c step := by
  rw [sealRecovers, Bool.and_eq_true] at checked
  obtain ⟨external, recovers⟩ := checked
  refine ⟨posted_of_external external, ?_⟩
  intro msg src sub heard code decoded subject
  rw [show heardMessage step.1 c step.2 = some (msg, src) from heard] at recovers
  simp only [decoded, Option.all_some, decide_eq_true_eq] at recovers
  exact recovers.resolve_left (fun other => other code)

def firstCommitted {P : Type} (c : Core P) : Option (Committed P) :=
  c.outputs.findSome? fun output =>
    match output with
    | .commit committed => some committed
    | _ => none

theorem mem_of_firstCommitted {P : Type} {c : Core P} {committed : Committed P}
    (found : firstCommitted c = some committed) : .commit committed ∈ c.outputs := by
  obtain ⟨output, member, same⟩ := List.exists_of_findSome?_eq_some found
  split at same
  · cases same
    exact member
  · cases same

def firstVerdict (c : Core (HashedBlock plainCrypto)) : Option (Option SealsError) :=
  (firstCommitted c).map fun committed =>
    match writeCommittedSeals committed.proposal.header committed.seals with
    | .ok written => verifyCommittedSeals plainCrypto committed.valSet written
    | .error _ => some .extra

theorem commitFirst_backend {key : UInt8}
    {step : Backend (HashedBlock plainCrypto) × Event (HashedBlock plainCrypto)}
    (member : step ∈ commitFirst key) : SoundBackend plainCrypto step.1 := by
  simp only [commitFirst, List.mem_cons, List.not_mem_nil, or_false] at member
  rcases member with rfl | rfl | rfl | rfl <;> exact genesisBackend_sound

theorem committed_block_verifies_commitFirst :
    ∃ (c : Core (HashedBlock plainCrypto)) (committed : Committed (HashedBlock plainCrypto)),
      Reachable (coreSystem (SoundBackend plainCrypto) (sampleAddress 3))
        (CommitSealsRecover plainCrypto) c ∧
      .commit committed ∈ c.outputs ∧ Verifiable plainCrypto committed := by
  obtain ⟨c, reached, commits⟩ : ∃ c, Reachable (coreSystem (SoundBackend plainCrypto)
      (sampleAddress 3)) (CommitSealsRecover plainCrypto) c ∧ (firstCommitted c).isSome = true :=
    exists_run (start genesisBackend (sampleAddress 3)) (commitFirst 4)
      (fun _ run => ⟨genesisBackend, genesisBackend_sound, run⟩)
      (fun _ member _ recovers => ⟨⟨commitFirst_backend member, (sealRecovers_sound recovers).1⟩,
        (sealRecovers_sound recovers).2⟩)
      (by decide +kernel)
  obtain ⟨committed, found⟩ := Option.isSome_iff_exists.mp commits
  exact ⟨c, committed, reached, mem_of_firstCommitted found,
    committed_block_verifies _ reached (mem_of_firstCommitted found)⟩

/-- Validator 4 copies the seal of validator 1 into its COMMIT, and the block
that validator 3 commits with it is refused. -/
theorem copied_seal_commits_refused_block :
    ∃ (c : Core (HashedBlock plainCrypto)) (committed : Committed (HashedBlock plainCrypto)),
      Reachable (coreSystem (SoundBackend plainCrypto) (sampleAddress 3)) (fun _ _ => True) c ∧
      .commit committed ∈ c.outputs ∧ ¬ Verifiable plainCrypto committed := by
  obtain ⟨c, reached, verdict⟩ : ∃ c, Reachable (coreSystem (SoundBackend plainCrypto)
      (sampleAddress 3)) (fun _ _ => True) c ∧
      decide (firstVerdict c = some (some .invalidCommittedSeals)) = true :=
    exists_run (start genesisBackend (sampleAddress 3)) (commitFirst 1)
      (fun _ run => ⟨genesisBackend, genesisBackend_sound, run⟩)
      (fun _ member _ external =>
        ⟨⟨commitFirst_backend member, posted_of_external external⟩, trivial⟩)
      (by decide +kernel)
  obtain ⟨committed, found, judged⟩ := Option.map_eq_some_iff.mp (of_decide_eq_true verdict)
  refine ⟨c, committed, reached, mem_of_firstCommitted found, ?_⟩
  intro verifiable
  unfold Verifiable at verifiable
  split at verifiable
  · rename_i written run
    rw [run] at judged
    cases verifiable.symm.trans judged
  · rename_i err run
    rw [run] at judged
    cases judged

end Linkeye.Dbft.Seals
