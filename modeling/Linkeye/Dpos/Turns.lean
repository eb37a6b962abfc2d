import Linkeye.Dpos.Seals

/-!
# Turns of the dpos engine

`CalcDifficulty` ranks the signers of a block by how far they come after the one
whose turn it is; `inturn` of `epoch_context.go` computes the same turn on its own.
-/

set_option autoImplicit false

namespace Linkeye.Dpos.Turns

open Std Common.Types Core.Blocks Lib.Rotation Seals

/-- `number` is a `uint64`; callers have at least one signer. -/
def inturn (c : EpochContext) (number : Nat) (signer : Address) : Bool :=
  decide (number % c.sortedSigners.length = c.signerIndex signer)

/-- The places from the signer in turn at a height to this one. -/
def distance (c : EpochContext) (number : Nat) (signer : Address) : Nat :=
  ahead c.signers.size number (c.signerIndex signer)

section
variable {c : EpochContext} {signer other : Address}

theorem perm_sortedSigners (c : EpochContext) : c.sortedSigners.Perm c.signers.keys :=
  List.perm_insertionSort _ _

theorem length_sortedSigners (c : EpochContext) : c.sortedSigners.length = c.signers.size := by
  rw [(perm_sortedSigners c).length_eq, ExtTreeMap.length_keys]

theorem mem_sortedSigners : signer ∈ c.sortedSigners ↔ signer ∈ c.signers := by
  rw [(perm_sortedSigners c).mem_iff, ExtTreeMap.mem_keys]

theorem signerIndex_lt (member : signer ∈ c.signers) : c.signerIndex signer < c.signers.size := by
  rw [← length_sortedSigners]
  exact List.idxOf_lt_length_of_mem (mem_sortedSigners.mpr member)

theorem signerIndex_inj (member : signer ∈ c.signers)
    (same : c.signerIndex signer = c.signerIndex other) : signer = other :=
  List.idxOf_inj (mem_sortedSigners.mpr member) |>.mp same

theorem exists_signer_at {place : Nat} (bound : place < c.signers.size) :
    ∃ signer ∈ c.signers, c.signerIndex signer = place := by
  have distinct : c.sortedSigners.Nodup :=
    (perm_sortedSigners c).nodup_iff.mpr ExtTreeMap.nodup_keys
  have inside : place < c.sortedSigners.length := by
    rw [length_sortedSigners]
    exact bound
  exact ⟨c.sortedSigners[place], mem_sortedSigners.mp (List.getElem_mem inside),
    distinct.idxOf_getElem place inside⟩

theorem inturn_iff {number : Nat} :
    inturn c number signer = true ↔ number % c.signers.size = c.signerIndex signer := by
  rw [inturn, decide_eq_true_eq, length_sortedSigners]

theorem inturn_iff_distance {number : Nat} (member : signer ∈ c.signers) :
    inturn c number signer = true ↔ distance c number signer = 0 := by
  have place := signerIndex_lt member
  have below : number % c.signers.size < c.signers.size := Nat.mod_lt _ (by omega)
  rw [inturn_iff, distance, ahead_eq place]
  split <;> omega

/-- The weight of a signer falls with its distance. -/
theorem calcDifficulty_eq (member : signer ∈ c.signers) (parent : Header) :
    calcDifficulty c signer parent =
      (c.signers.size - distance c ((c.number + 1) % 2 ^ 64) signer) * diffMax / c.signers.size +
        1000 := by
  have place := signerIndex_lt member
  rw [calcDifficulty, if_neg (by omega), distance, ahead_eq place]
  generalize (c.number + 1) % 2 ^ 64 = height
  have below : height % c.signers.size < c.signers.size := Nat.mod_lt _ (by omega)
  dsimp only
  split
  · congr 3
    omega
  · rfl

end

/-- The signer in turn for the next block alone has the largest difficulty, the others
follow by their distance from it, and the turn goes round. -/
theorem difficulty_ranks_signers (c : EpochContext) (nonempty : c.signers.size ≠ 0)
    (parent : Header) :
    let height := (c.number + 1) % 2 ^ 64
    (∃ leader ∈ c.signers, ∀ signer ∈ c.signers,
      (inturn c height signer = true ↔ signer = leader) ∧
        (signer ≠ leader → calcDifficulty c signer parent < calcDifficulty c leader parent)) ∧
    (∀ near ∈ c.signers, ∀ far ∈ c.signers, distance c height near ≤ distance c height far →
      calcDifficulty c far parent ≤ calcDifficulty c near parent) ∧
    (∀ signer ∈ c.signers, 1 ≤ calcDifficulty c signer parent) ∧
    ∀ first, first + c.signers.size ≤ 2 ^ 64 → ∀ signer ∈ c.signers,
      ∃! k, k < c.signers.size ∧ inturn c (first + k) signer = true := by
  intro height
  have positive : 0 < c.signers.size := Nat.pos_of_ne_zero nonempty
  refine ⟨?_, ?_, ?_, ?_⟩
  · obtain ⟨leader, member, place⟩ := exists_signer_at (Nat.mod_lt height positive)
    have first := inturn_iff.mpr place.symm
    refine ⟨leader, member, fun signer signerIn => ⟨?_, ?_⟩⟩
    · rw [inturn_iff, ← place]
      exact ⟨fun same => (signerIndex_inj member same).symm, by rintro rfl; rfl⟩
    · intro different
      have later : distance c height signer ≠ 0 := by
        rw [ne_eq, ← inturn_iff_distance signerIn, inturn_iff, ← place]
        exact fun same => different (signerIndex_inj member same).symm
      rw [calcDifficulty_eq signerIn, calcDifficulty_eq member,
        (inturn_iff_distance member).mp first, Nat.sub_zero, Nat.mul_div_cancel_left _ positive]
      have short : (c.signers.size - distance c height signer) * diffMax <
          c.signers.size * diffMax :=
        Nat.mul_lt_mul_of_pos_right (by omega) (by decide)
      exact Nat.add_lt_add_right (Nat.div_lt_of_lt_mul short) 1000
  · intro near nearIn far farIn order
    rw [calcDifficulty_eq nearIn, calcDifficulty_eq farIn]
    gcongr
  · intro signer member
    rw [calcDifficulty_eq member]
    exact Nat.le_add_left_of_le (by decide)
  · intro first _ signer member
    simp only [inturn_iff]
    exact existsUnique_visit (signerIndex_lt member)

theorem difficulty_ranks_two :
    let c : EpochContext := ⟨6, FixedBytes.zero 32,
      (∅ : ExtTreeMap Address Unit).insert (bytesToAddress [1]) () |>.insert
        (bytesToAddress [2]) (), ∅⟩
    ∃ leader ∈ c.signers, ∀ signer ∈ c.signers,
      (inturn c 7 signer = true ↔ signer = leader) ∧
        (signer ≠ leader → calcDifficulty c signer .zero < calcDifficulty c leader .zero) :=
  (difficulty_ranks_signers _ (by decide +kernel) _).1

end Linkeye.Dpos.Turns
