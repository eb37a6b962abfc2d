import Linkeye.Dbft.Recall
import Linkeye.Lib.Slices

/-!
# The seal check in memory

`verifyCommittedSeals` takes members out of a copy of a slice-backed set.  Here
the sets are slices of a heap, so that a write into an array that two sets share
would show; the check of `Seals` is what it computes.
-/

set_option autoImplicit false

namespace Linkeye.Dbft.SealMemory

open Common.Types Common.Signature Core.Blocks Core.Dpos Handlers Headers Seals Dbft.Types
open Validator Recall Lib.Slices

/-- `defaultSet` with its slice of validators. -/
structure SliceSet where
  validators : Slice
  policy : ProposerPolicy
  proposer : Option Address

def SliceSet.value (vs : SliceSet) (heap : Heap Address) : ValidatorSet :=
  ⟨heap.read vs.validators, vs.policy, vs.proposer⟩

/-- `RemoveValidator`: the first match is cut out of the array in place. -/
def SliceSet.removeValidator (vs : SliceSet) (heap : Heap Address) (addr : Address) :
    Heap Address × SliceSet × Bool :=
  match (heap.read vs.validators).findIdx? fun v => decide (v = addr) with
  | some i =>
    let (heap, validators) := heap.removeAt vs.validators i
    (heap, { vs with validators := validators }, true)
  | none => (heap, vs, false)

/-- `Copy`: the addresses are copied out and `newDefaultSet` makes a new slice. -/
def SliceSet.copy (keccak : Bytes → Hash) (vs : SliceSet) (heap : Heap Address) :
    Heap Address × SliceSet :=
  let addresses := heap.read vs.validators
  let (heap, validators) := heap.alloc (sortValidators keccak addresses)
  (heap, ⟨validators, vs.policy, (sortValidators keccak addresses).head?⟩)

def SliceSet.countSeals (crypto : Crypto) (proposalSeal : Bytes) :
    List Bytes → Heap Address → SliceSet → Heap Address × Except SealsError Nat
  | [], heap, _ => (heap, .ok 0)
  | committedSeal :: rest, heap, validators =>
    match getSignatureAddress crypto proposalSeal committedSeal with
    | none => (heap, .error .invalidSignature)
    | some addr =>
      match validators.removeValidator heap addr with
      | (heap, validators, true) =>
        let (heap, counted) := SliceSet.countSeals crypto proposalSeal rest heap validators
        (heap, counted.map (· + 1))
      | (heap, _, false) => (heap, .error .invalidCommittedSeals)

/-- `verifyCommittedSeals` with the set of the snapshot in memory. -/
def SliceSet.verifyCommittedSeals (crypto : Crypto) (valSet : SliceSet) (heap : Heap Address)
    (header : Header) : Heap Address × Option SealsError :=
  if header.number % 2 ^ 64 = 0 then (heap, none)
  else
    match extractBFTExtra header with
    | none => (heap, some .extra)
    | some extra =>
      if extra.committedSeal = [] then (heap, some .emptyCommittedSeals)
      else
        let (heap, validators) := valSet.copy crypto.keccak256 heap
        match validators.countSeals crypto (prepareCommittedSeal (header.hash crypto))
            extra.committedSeal heap with
        | (heap, .error err) => (heap, some err)
        | (heap, .ok validSeal) =>
          if (valSet.value heap).exceedsTwoF validSeal = true then (heap, none)
          else (heap, some .invalidCommittedSeals)

/-! ## The slices hold the sets -/

/-- Everything outside the array `i` is as it was. -/
def KeepsOthers (heap after : Heap Address) (i : Nat) : Prop :=
  ∀ s : Slice, s.array ≠ i → after.read s = heap.read s

section
variable {heap : Heap Address} {vs : SliceSet}

theorem removeValidator_absent {addr : Address} (absent : addr ∉ heap.read vs.validators) :
    vs.removeValidator heap addr = (heap, vs, false) := by
  have missing : (heap.read vs.validators).findIdx? (fun v => decide (v = addr)) = none := by
    rw [List.findIdx?_eq_none_iff]
    intro v member
    rw [decide_eq_false_iff_not]
    rintro rfl
    exact absent member
  rw [SliceSet.removeValidator, missing]

/-- A member is cut out of the array of the set, and of no other. -/
theorem removeValidator_present (allocated : heap.Allocated vs.validators) {addr : Address}
    (member : addr ∈ heap.read vs.validators) :
    ∃ after vs', vs.removeValidator heap addr = (after, vs', true) ∧
      vs'.value after =
        { vs.value heap with validators := (heap.read vs.validators).erase addr } ∧
      after.Allocated vs'.validators ∧ vs'.validators.array = vs.validators.array ∧
      KeepsOthers heap after vs.validators.array := by
  obtain ⟨i, found⟩ : ∃ i, (heap.read vs.validators).findIdx? (fun v => decide (v = addr)) =
      some i := by
    rw [← Option.isSome_iff_exists, List.findIdx?_isSome, List.any_eq_true]
    exact ⟨addr, member, decide_eq_true rfl⟩
  have inside : i < vs.validators.len := by
    rw [← Heap.length_read allocated]
    exact (List.findIdx?_eq_some_iff_findIdx_eq.mp found).1
  have erased : (heap.read vs.validators).eraseIdx i = (heap.read vs.validators).erase addr := by
    have cut := @List.eraseP_eq_eraseIdx _ (heap.read vs.validators) fun v => decide (v = addr)
    rw [found] at cut
    rw [List.erase_eq_eraseP']
    exact cut.symm
  refine ⟨_, _, by rw [SliceSet.removeValidator, found], ?_, ?_, ?_, ?_⟩
  · rw [← erased, ← Heap.read_removeAt allocated inside]
    rfl
  · exact Heap.allocated_removeAt allocated inside
  · rw [Heap.removeAt_eq allocated inside]
  · intro s other
    rw [Heap.read, Heap.read, Heap.array_removeAt_of_ne allocated inside other]

/-- A copy lies in an array of its own. -/
theorem copy_value (keccak : Bytes → Hash) :
    (vs.copy keccak heap).2.value (vs.copy keccak heap).1 = (vs.value heap).copy keccak ∧
      (vs.copy keccak heap).1.Allocated (vs.copy keccak heap).2.validators ∧
      ∀ s, heap.Allocated s → s.array ≠ (vs.copy keccak heap).2.validators.array ∧
        (vs.copy keccak heap).1.read s = heap.read s := by
  refine ⟨?_, Heap.allocated_alloc _ _, fun s allocated => ⟨?_, ?_⟩⟩
  · have copied := Heap.read_alloc_self heap (sortValidators keccak (heap.read vs.validators))
    rw [ValidatorSet.copy, newSet, SliceSet.value]
    exact congrArg (ValidatorSet.mk · _ _) copied
  · exact Nat.ne_of_lt allocated.array_lt
  · exact Heap.read_alloc_of_allocated _ allocated

/-- The loop counts what `Seals.countSeals` counts and writes into one array. -/
theorem countSeals_value (crypto : Crypto) (proposalSeal : Bytes) (seals : List Bytes)
    (allocated : heap.Allocated vs.validators) :
    (vs.countSeals crypto proposalSeal seals heap).2 =
        Seals.countSeals crypto proposalSeal seals (vs.value heap) ∧
      KeepsOthers heap (vs.countSeals crypto proposalSeal seals heap).1 vs.validators.array := by
  induction seals generalizing heap vs with
  | nil => exact ⟨rfl, fun _ _ => rfl⟩
  | cons committedSeal rest ih =>
    rw [SliceSet.countSeals, Seals.countSeals]
    cases getSignatureAddress crypto proposalSeal committedSeal with
    | none => exact ⟨rfl, fun _ _ => rfl⟩
    | some addr =>
      dsimp only
      by_cases member : addr ∈ heap.read vs.validators
      · obtain ⟨after, vs', removed, value, allocated', same, kept⟩ :=
          removeValidator_present allocated member
        have listed : addr ∈ (vs.value heap).validators := member
        obtain ⟨counted, later⟩ := ih allocated'
        rw [removed, ValidatorSet.removeValidator, if_pos listed]
        dsimp only
        rw [if_pos rfl, counted, value]
        refine ⟨rfl, fun s other => ?_⟩
        rw [later s (same ▸ other), kept s other]
      · have unlisted : addr ∉ (vs.value heap).validators := member
        rw [removeValidator_absent member, ValidatorSet.removeValidator, if_neg unlisted]
        exact ⟨rfl, fun _ _ => rfl⟩

/-- In memory the check gives the verdict of `verifyCommittedSeals` and leaves
every set that was there as it was. -/
theorem verifyCommittedSeals_value (crypto : Crypto) (header : Header)
    (allocated : heap.Allocated vs.validators) :
    (vs.verifyCommittedSeals crypto heap header).2 =
        Seals.verifyCommittedSeals crypto (vs.value heap) header ∧
      ∀ s, heap.Allocated s →
        (vs.verifyCommittedSeals crypto heap header).1.read s = heap.read s := by
  rw [SliceSet.verifyCommittedSeals, Seals.verifyCommittedSeals]
  by_cases genesis : header.number % 2 ^ 64 = 0
  · rw [if_pos genesis, if_pos genesis]
    exact ⟨rfl, fun _ _ => rfl⟩
  · rw [if_neg genesis, if_neg genesis]
    cases extractBFTExtra header with
    | none => exact ⟨rfl, fun _ _ => rfl⟩
    | some extra =>
      dsimp only
      by_cases empty : extra.committedSeal = []
      · rw [if_pos empty, if_pos empty]
        exact ⟨rfl, fun _ _ => rfl⟩
      · rw [if_neg empty, if_neg empty]
        obtain ⟨value, copied, apart⟩ := @copy_value heap vs crypto.keccak256
        generalize vs.copy crypto.keccak256 heap = copy at value copied apart
        obtain ⟨counted, kept⟩ := countSeals_value crypto
          (prepareCommittedSeal (header.hash crypto)) extra.committedSeal copied
        rw [← value, ← counted]
        generalize copy.2.countSeals crypto (prepareCommittedSeal (header.hash crypto))
          extra.committedSeal copy.1 = run at kept
        have unchanged : ∀ s, heap.Allocated s → run.1.read s = heap.read s := by
          intro s allocated
          rw [kept s (apart s allocated).1, (apart s allocated).2]
        obtain ⟨after, result⟩ := run
        cases result with
        | error err => exact ⟨rfl, unchanged⟩
        | ok validSeal =>
          have same : vs.value after = vs.value heap := by
            rw [SliceSet.value, unchanged _ allocated]
            rfl
          dsimp only
          rw [same]
          split
          · exact ⟨rfl, unchanged⟩
          · exact ⟨rfl, unchanged⟩

end

/-! ## Snapshots have distinct members -/

/-- No cached snapshot has a member twice. -/
structure DistinctSets (node : Node) : Prop where
  recents : ∀ (hash : Hash) (snap : Snapshot), node.recents[hash]? = some snap →
    snap.valSet.validators.Nodup
  disk : ∀ (hash : Hash) (stored : SnapshotJSON), node.disk[hash]? = some stored →
    stored.validators.Nodup

variable {valSet : ValidatorSet} {snap : Snapshot} {crypto : Crypto}

section
variable {e : Engine} {node : Node}

theorem snapshotOfHeader_nodup {h : Header} {number : Nat}
    (built : snapshotOfHeader e node h number = .ok (some snap)) :
    snap.valSet.validators.Nodup := by
  rw [snapshotOfHeader] at built
  split at built
  · cases built
  · rename_i dc _
    split at built
    · cases built
    · have made := Except.ok.inj built
      cases read : dc.getValidators with
      | none => simp [newSnapshot, read] at made
      | some validators =>
        obtain ⟨snap', made', _, _, listed⟩ := newSnapshot_eq_some _ _ _ _ read
        cases made.symm.trans made'
        exact listed.2

section
variable (sets : DistinctSets node)
include sets

theorem DistinctSets.storeSnapshot
    (distinct : snap.valSet.validators.Nodup) : DistinctSets (Headers.storeSnapshot node snap) := by
  refine ⟨sets.recents, fun hash stored found => ?_⟩
  rw [Headers.storeSnapshot, Std.ExtTreeMap.getElem?_insert] at found
  split at found
  · cases found
    exact (List.perm_insertionSort _ _).nodup_iff.mpr distinct
  · exact sets.disk hash stored found

theorem DistinctSets.addRecent (distinct : snap.valSet.validators.Nodup) :
    DistinctSets (Headers.addRecent node snap) := by
  refine ⟨fun hash found stored => ?_, sets.disk⟩
  rw [Headers.addRecent, Std.ExtTreeMap.getElem?_insert] at stored
  split at stored
  · cases stored
    exact distinct
  · exact sets.recents hash found stored

theorem DistinctSets.loadSnapshot {hash : Hash}
    (loaded : Headers.loadSnapshot e node hash = some snap) : snap.valSet.validators.Nodup := by
  obtain ⟨stored, found, rfl⟩ := Option.map_eq_some_iff.mp loaded
  exact (sortValidators_perm _ _).nodup_iff.mpr (sets.disk hash stored found)

theorem DistinctSets.gather (number : Nat) (hash : Hash)
    (parents headers : List Header) :
    DistinctSets (Headers.gather e node number hash parents headers).1 ∧
      ∀ snap gathered, (Headers.gather e node number hash parents headers).2 =
        .ok (snap, gathered) → snap.valSet.validators.Nodup := by
  have ended := gathers e node number hash parents headers
  generalize Headers.gather e node number hash parents headers = result at ended
  induction ended with
  | failed => exact ⟨sets, nofun⟩
  | further _ _ ih => exact ih
  | built _ made =>
    refine ⟨sets, fun _ _ same => ?_⟩
    cases same
    exact snapshotOfHeader_nodup made
  | atOnce found =>
    cases found with
    | recent held =>
      refine ⟨sets, fun _ _ same => ?_⟩
      cases same
      exact sets.recents _ _ held
    | stored _ loaded =>
      refine ⟨sets, fun _ _ same => ?_⟩
      cases same
      exact sets.loadSnapshot loaded
    | genesis _ _ _ made =>
      obtain ⟨err, failed⟩ | ⟨snap, built, stored⟩ := genesisSnapshot_cases e node
      · cases failed.symm.trans made
      · cases stored.symm.trans made
        have distinct := snapshotOfHeader_nodup built
        refine ⟨sets.storeSnapshot distinct, fun _ _ same => ?_⟩
        cases same
        exact distinct

end

theorem apply_nodup {after : Snapshot} {headers : List Header}
    (distinct : snap.valSet.validators.Nodup) (applied : apply e snap headers = .ok after) :
    after.valSet.validators.Nodup := by
  rw [apply] at applied
  split at applied
  · cases applied
    exact distinct
  · split at applied
    · dsimp only at applied
      split at applied
      · cases applied
      · cases applied
        exact (sortValidators_perm _ _).nodup_iff.mpr distinct
    · cases applied

theorem DistinctSets.snapshot (sets : DistinctSets node) (number : Nat) (hash : Hash)
    (parents : List Header) :
    DistinctSets (Headers.snapshot e node number hash parents).1 ∧
      ∀ snap, (Headers.snapshot e node number hash parents).2 = .ok snap →
        snap.valSet.validators.Nodup := by
  obtain ⟨kept, distinct⟩ := sets.gather (e := e) number hash parents []
  rw [Headers.snapshot]
  split
  · rename_i gathered
    rw [gathered] at kept
    exact ⟨kept, fun _ failed => by cases failed⟩
  · rename_i found headers gathered
    rw [gathered] at kept distinct
    split
    · exact ⟨kept, fun _ failed => by cases failed⟩
    · rename_i snap applied
      have nodup := apply_nodup (distinct found headers rfl) applied
      refine ⟨?_, fun _ same => by cases same; exact nodup⟩
      split
      · exact kept.addRecent nodup
      · exact (kept.addRecent nodup).storeSnapshot nodup

end

/-! ## Accepted seals -/

/-- The seals of the header are those of different members, more than twice the
faulty ones of them. -/
def Sealed (crypto : Crypto) (valSet : ValidatorSet) (header : Header) : Prop :=
  ∃ (extra : BFTExtra) (signers : List Address), extractBFTExtra header = some extra ∧
    extra.committedSeal.map
        (getSignatureAddress crypto (prepareCommittedSeal (header.hash crypto))) =
      signers.map some ∧
    signers.Nodup ∧ (∀ a ∈ signers, a ∈ valSet.validators) ∧ 2 * valSet.f + 1 ≤ signers.length

theorem countSeals_signers {proposalSeal : Bytes} {seals : List Bytes} {count : Nat}
    (distinct : valSet.validators.Nodup)
    (counted : countSeals crypto proposalSeal seals valSet = .ok count) :
    ∃ signers : List Address,
      seals.map (getSignatureAddress crypto proposalSeal) = signers.map some ∧
      signers.Nodup ∧ (∀ a ∈ signers, a ∈ valSet.validators) ∧ signers.length = count := by
  induction seals generalizing valSet count with
  | nil =>
    cases counted
    exact ⟨[], rfl, List.nodup_nil, by simp, rfl⟩
  | cons committedSeal rest ih =>
    rw [countSeals] at counted
    cases recovered : getSignatureAddress crypto proposalSeal committedSeal with
    | none => simp [recovered] at counted
    | some addr =>
      rw [recovered] at counted
      dsimp only at counted
      by_cases member : addr ∈ valSet.validators
      · rw [ValidatorSet.removeValidator, if_pos member] at counted
        rw [if_pos rfl] at counted
        cases later : countSeals crypto proposalSeal rest
            { valSet with validators := valSet.validators.erase addr } with
        | error err => simp [later, Except.map] at counted
        | ok others =>
          rw [later] at counted
          cases counted
          obtain ⟨signers, seals, apart, members, size⟩ := ih (distinct.erase addr) later
          -- a signer that comes again is no longer in the set
          have absent : addr ∉ signers :=
            fun again => distinct.not_mem_erase (members addr again)
          refine ⟨addr :: signers, ?_, List.nodup_cons.mpr ⟨absent, apart⟩, ?_, ?_⟩
          · rw [List.map_cons, List.map_cons, recovered, seals]
          · exact List.forall_mem_cons.mpr
              ⟨member, fun a listed => List.mem_of_mem_erase (members a listed)⟩
          · rw [List.length_cons, size]
      · rw [ValidatorSet.removeValidator, if_neg member] at counted
        simp at counted

theorem sealed_of_verifyCommittedSeals {header : Header} (distinct : valSet.validators.Nodup)
    (later : header.number % 2 ^ 64 ≠ 0)
    (accepted : verifyCommittedSeals crypto valSet header = none) :
    Sealed crypto valSet header := by
  rw [verifyCommittedSeals, if_neg later] at accepted
  cases found : extractBFTExtra header with
  | none => simp [found] at accepted
  | some extra =>
    rw [found] at accepted
    dsimp only at accepted
    split at accepted
    · cases accepted
    · split at accepted
      · cases accepted
      · rename_i count counted
        split at accepted
        · rename_i quorum
          have copied : (valSet.copy crypto.keccak256).validators.Perm valSet.validators :=
            sortValidators_perm _ _
          obtain ⟨signers, seals, apart, members, size⟩ :=
            countSeals_signers (copied.nodup_iff.mpr distinct) counted
          refine ⟨extra, signers, found, seals, apart, ?_, ?_⟩
          · intro a listed
            exact copied.mem_iff.mp (members a listed)
          · rw [ValidatorSet.exceedsTwoF_iff] at quorum
            omega
        · cases accepted

/-- A snapshot's set in memory; its members are distinct as those of every
snapshot are. -/
structure SnapshotSet where
  heap : Heap Address
  set : SliceSet
  allocated : heap.Allocated set.validators
  distinct : (heap.read set.validators).Nodup

/-- What is expected of the check of one header: acceptance means seals, and the
set of the snapshot stays as it is. -/
structure SealsChecked (crypto : Crypto) (snap : SnapshotSet) (header : Header) : Prop where
  accepted : (snap.set.verifyCommittedSeals crypto snap.heap header).2 = none →
    Sealed crypto (snap.set.value snap.heap) header
  unchanged : snap.set.value (snap.set.verifyCommittedSeals crypto snap.heap header).1 =
    snap.set.value snap.heap

def sampleSnapshot : SnapshotSet where
  heap := ⟨[sampleSet.validators]⟩
  set := ⟨⟨0, 0, 4⟩, .roundRobin, none⟩
  allocated := ⟨by decide +kernel, by decide +kernel⟩
  distinct := by decide +kernel

theorem unsealed_sampleHeader (n : Nat) :
    ¬ Sealed plainCrypto (sampleSnapshot.set.value sampleSnapshot.heap) (sampleHeader n 1) := by
  rintro ⟨extra, signers, found, seals, _, _, enough⟩
  have none_sealed : (extractBFTExtra (sampleHeader 0 1)).map BFTExtra.committedSeal = some [] := by
    decide +kernel
  have found' : extractBFTExtra (sampleHeader 0 1) = some extra := found
  rw [found', Option.map_some, Option.some.injEq] at none_sealed
  rw [none_sealed, List.map_nil, eq_comm, List.map_eq_nil_iff] at seals
  have threshold : (sampleSnapshot.set.value sampleSnapshot.heap).f = 1 := by decide +kernel
  rw [seals, threshold] at enough
  simp at enough

theorem verifyCommittedSeals_of_wraps {header : Header} (snap : SnapshotSet)
    (wraps : header.number % 2 ^ 64 = 0) :
    (snap.set.verifyCommittedSeals crypto snap.heap header).2 = none := by
  rw [SliceSet.verifyCommittedSeals, if_pos wraps]

/-- The check holds what it promises for every header of number `n`. -/
def SealsSoundAt (n : Nat) : Prop :=
  ∀ (crypto : Crypto) (snap : SnapshotSet) (header : Header), header.number = n →
    SealsChecked crypto snap header

/-- The check is sound at exactly the numbers that do not wrap around to zero. -/
theorem committed_seals_sound_iff (n : Nat) : SealsSoundAt n ↔ n % 2 ^ 64 ≠ 0 := by
  constructor
  · intro sound wraps
    have checked := sound plainCrypto sampleSnapshot (sampleHeader n 1) rfl
    apply unsealed_sampleHeader n
    apply checked.accepted
    exact verifyCommittedSeals_of_wraps _ wraps
  · rintro later crypto snap header rfl
    obtain ⟨verdict, kept⟩ := verifyCommittedSeals_value crypto header snap.allocated
    constructor
    · intro accepted
      rw [verdict] at accepted
      exact sealed_of_verifyCommittedSeals snap.distinct later accepted
    · rw [SliceSet.value, kept _ snap.allocated]
      rfl

/-- Block `2 ^ 64` passes for a genesis block and needs no seal. -/
theorem wrapped_number_needs_no_seal :
    let header := sampleHeader (2 ^ 64) 1
    1 ≤ header.number ∧
      (sampleSnapshot.set.verifyCommittedSeals plainCrypto sampleSnapshot.heap header).2 = none ∧
      ¬ Sealed plainCrypto (sampleSnapshot.set.value sampleSnapshot.heap) header := by
  exact ⟨by decide, verifyCommittedSeals_of_wraps _ (by decide), unsealed_sampleHeader _⟩

end Linkeye.Dbft.SealMemory
