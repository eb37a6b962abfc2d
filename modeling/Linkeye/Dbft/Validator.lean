import Linkeye.Common.Types
import Linkeye.Lib.Quorum
import Linkeye.Lib.Rotation

/-!
# Validator sets

`validator/default.go`: a validator is its address, a set is a list sorted by
the checksummed hex string of the address.  Keccak, which decides the letter
case of that string and so the order, is a parameter.
-/

set_option autoImplicit false

namespace Linkeye.Dbft.Validator

open Common.Types Lib.Quorum Lib.Rotation

/-! ## The set -/

inductive ProposerPolicy where
  | roundRobin
  | sticky
deriving DecidableEq

structure ValidatorSet where
  validators : List Address
  policy : ProposerPolicy
  proposer : Option Address
deriving DecidableEq

def sortValidators (keccak : Bytes → Hash) (addrs : List Address) : List Address :=
  addrs.insertionSort fun a b =>
    (compare (addressString keccak a) (addressString keccak b)).isLE = true

def newSet (keccak : Bytes → Hash) (addrs : List Address) (policy : ProposerPolicy) :
    ValidatorSet where
  validators := sortValidators keccak addrs
  policy := policy
  proposer := (sortValidators keccak addrs).head?

namespace ValidatorSet

def size (vs : ValidatorSet) : Nat := vs.validators.length

def getByIndex (vs : ValidatorSet) (i : Nat) : Option Address := vs.validators[i]?

def getByAddress (vs : ValidatorSet) (addr : Address) : Option (Nat × Address) :=
  (vs.validators.findIdx? fun val => decide (addr = val)).map fun i => (i, addr)

/-- `reflect.DeepEqual` of two possibly nil validators: in a set without a
proposer an unknown address counts as the proposer. -/
def isProposer (vs : ValidatorSet) (addr : Address) : Bool :=
  decide (vs.proposer = (vs.getByAddress addr).map Prod.snd)

def calcSeed (vs : ValidatorSet) (proposer : Address) (round : Nat) : Nat :=
  match vs.getByAddress proposer with
  | some (idx, _) => (idx + round) % 2 ^ 64
  | none => round % 2 ^ 64

def roundRobinProposer (vs : ValidatorSet) (proposer : Address) (round : Nat) : Option Address :=
  if vs.size = 0 then none
  else
    let seed := if proposer = zeroAddress then round % 2 ^ 64
      else (vs.calcSeed proposer round + 1) % 2 ^ 64
    vs.getByIndex (seed % vs.size)

def stickyProposer (vs : ValidatorSet) (proposer : Address) (round : Nat) : Option Address :=
  if vs.size = 0 then none
  else
    let seed := if proposer = zeroAddress then round % 2 ^ 64 else vs.calcSeed proposer round
    vs.getByIndex (seed % vs.size)

/-- `round` is a `uint64` in the source; callers pass `Uint64()` of a round. -/
def calcProposer (vs : ValidatorSet) (lastProposer : Address) (round : Nat) : ValidatorSet :=
  match vs.policy with
  | .roundRobin => { vs with proposer := vs.roundRobinProposer lastProposer round }
  | .sticky => { vs with proposer := vs.stickyProposer lastProposer round }

def addValidator (keccak : Bytes → Hash) (vs : ValidatorSet) (addr : Address) :
    ValidatorSet × Bool :=
  if addr ∈ vs.validators then (vs, false)
  else ({ vs with validators := sortValidators keccak (vs.validators ++ [addr]) }, true)

def removeValidator (vs : ValidatorSet) (addr : Address) : ValidatorSet × Bool :=
  if addr ∈ vs.validators then ({ vs with validators := vs.validators.erase addr }, true)
  else (vs, false)

def copy (keccak : Bytes → Hash) (vs : ValidatorSet) : ValidatorSet :=
  newSet keccak vs.validators vs.policy

/-- `int(math.Ceil(float64(Size())/3)) - 1`; the quotient is exact enough for
`Ceil` on every size below `2 ^ 53`. -/
def f (vs : ValidatorSet) : Int := ((vs.size + 2) / 3 : Nat) - 1

/-- The test `count > 2*F()` of `handlePrepare` and `handleCommit`;
`verifyCommittedSeals` rejects on its negation. -/
def exceedsTwoF (vs : ValidatorSet) (count : Nat) : Bool := decide (2 * vs.f < count)

@[simp] theorem exceedsTwoF_iff (vs : ValidatorSet) (count : Nat) :
    vs.exceedsTwoF count = true ↔ 2 * vs.f < count := by
  simp [exceedsTwoF]

/-! ## Membership -/

@[simp] theorem calcProposer_validators (vs : ValidatorSet) (lastProposer : Address)
    (round : Nat) : (vs.calcProposer lastProposer round).validators = vs.validators := by
  unfold calcProposer
  split <;> rfl

theorem getByAddress_isSome_iff (vs : ValidatorSet) (addr : Address) :
    (vs.getByAddress addr).isSome ↔ addr ∈ vs.validators := by
  simp [getByAddress, List.findIdx?_isSome]

theorem getByAddress_eq_some {vs : ValidatorSet} {addr val : Address} {idx : Nat}
    (found : vs.getByAddress addr = some (idx, val)) : val = addr ∧ addr ∈ vs.validators := by
  have member : addr ∈ vs.validators := by
    rw [← getByAddress_isSome_iff, found]
    rfl
  simp only [getByAddress, Option.map_eq_some_iff] at found
  obtain ⟨position, _, pair⟩ := found
  exact ⟨(congrArg Prod.snd pair).symm, member⟩

end ValidatorSet

theorem sortValidators_perm (keccak : Bytes → Hash) (addrs : List Address) :
    (sortValidators keccak addrs).Perm addrs :=
  List.perm_insertionSort _ addrs

theorem mem_sortValidators (keccak : Bytes → Hash) (addrs : List Address) (a : Address) :
    a ∈ sortValidators keccak addrs ↔ a ∈ addrs :=
  (sortValidators_perm keccak addrs).mem_iff

/-! ## Proposers -/

namespace ValidatorSet
variable {vs : ValidatorSet} {last : Address} {round : Nat}

/-- What the seed adds to the round.  A last proposer that is no validator any more
counts as the first one. -/
def offset (vs : ValidatorSet) (last : Address) : Nat :=
  if last = zeroAddress then 0
  else ((vs.getByAddress last).map Prod.fst).getD 0 +
    match vs.policy with
    | .roundRobin => 1
    | .sticky => 0

theorem calcSeed_eq (vs : ValidatorSet) (last : Address) (round : Nat) :
    vs.calcSeed last round = (((vs.getByAddress last).map Prod.fst).getD 0 + round) % 2 ^ 64 := by
  rw [calcSeed]
  cases vs.getByAddress last with
  | none => simp
  | some found => rfl

theorem calcProposer_proposer (nonempty : vs.size ≠ 0) (fits : vs.offset last + round < 2 ^ 64) :
    (vs.calcProposer last round).proposer =
      vs.getByIndex ((vs.offset last + round) % vs.size) := by
  by_cases absent : last = zeroAddress
  · rw [offset, if_pos absent, Nat.zero_add] at fits ⊢
    cases policy : vs.policy <;>
      simp only [calcProposer, policy, roundRobinProposer, stickyProposer, if_neg nonempty,
        if_pos absent, Nat.mod_eq_of_lt fits]
  · simp only [offset, if_neg absent] at fits ⊢
    cases policy : vs.policy with
    | roundRobin =>
      rw [policy] at fits
      simp only [calcProposer, policy, roundRobinProposer, if_neg nonempty, if_neg absent,
        calcSeed_eq]
      rw [Nat.mod_add_mod, add_right_comm, Nat.mod_eq_of_lt fits]
    | sticky =>
      simp only [policy, Nat.add_zero] at fits
      simp only [calcProposer, policy, stickyProposer, if_neg nonempty, if_neg absent, calcSeed_eq,
        Nat.mod_eq_of_lt fits, Nat.add_zero]

/-- A round without overflow or with: some place of the set is chosen. -/
theorem calcProposer_chooses (nonempty : vs.size ≠ 0) (last : Address) (round : Nat) :
    ∃ val ∈ vs.validators, (vs.calcProposer last round).proposer = some val := by
  have held (seed : Nat) : ∃ val ∈ vs.validators, vs.getByIndex (seed % vs.size) = some val := by
    have place : seed % vs.size < vs.validators.length :=
      Nat.mod_lt _ (Nat.pos_of_ne_zero nonempty)
    exact ⟨_, List.getElem_mem place, List.getElem?_eq_getElem place⟩
  cases policy : vs.policy with
  | roundRobin =>
    simp only [calcProposer, policy, roundRobinProposer, if_neg nonempty]
    exact held _
  | sticky =>
    simp only [calcProposer, policy, stickyProposer, if_neg nonempty]
    exact held _

/-- The address of a stranger reads as nil, which no proposer equals. -/
theorem isProposer_iff {val : Address} (proposer : vs.proposer = some val)
    (member : val ∈ vs.validators) (addr : Address) : vs.isProposer addr = true ↔ addr = val := by
  rw [isProposer, proposer, decide_eq_true_eq]
  constructor
  · intro same
    obtain ⟨⟨idx, found⟩, located, rfl⟩ := Option.map_eq_some_iff.mp same.symm
    exact (getByAddress_eq_some located).1.symm
  · rintro rfl
    obtain ⟨⟨idx, found⟩, located⟩ :=
      Option.isSome_iff_exists.mp ((getByAddress_isSome_iff vs addr).mpr member)
    rw [located, Option.map_some, (getByAddress_eq_some located).1]

end ValidatorSet

/-- In as many rounds in a row as there are validators each proposes once, whatever
proposer the set `vs` of `NewSet` has before; and a set never has two proposers. -/
theorem proposers_take_turns (keccak : Bytes → Hash) {addrs : List Address} {vs : ValidatorSet}
    (made : vs.validators = (newSet keccak addrs vs.policy).validators) (distinct : addrs.Nodup)
    (nonempty : addrs ≠ []) (last : Address) :
    (∀ first, (∀ k < vs.size, vs.offset last + (first + k) < 2 ^ 64) → ∀ val ∈ vs.validators,
      ∃! k, k < vs.size ∧ (vs.calcProposer last (first + k)).proposer = some val) ∧
    ∀ round, ∃ val ∈ vs.validators,
      ∀ addr, (vs.calcProposer last round).isProposer addr = true ↔ addr = val := by
  have perm : vs.validators.Perm addrs := by
    rw [made]
    exact sortValidators_perm keccak addrs
  have apart : vs.validators.Nodup := perm.nodup_iff.mpr distinct
  have size : vs.size ≠ 0 := by
    rw [ValidatorSet.size, perm.length_eq]
    exact (List.length_pos_iff.mpr nonempty).ne'
  refine ⟨?_, fun round => ?_⟩
  · intro first fits val member
    obtain ⟨place, bound, rfl⟩ := List.getElem_of_mem member
    have turn {k : Nat} (short : k < vs.size) :
        (vs.calcProposer last (first + k)).proposer = some vs.validators[place] ↔
          (vs.offset last + first + k) % vs.size = place := by
      have inside : (vs.offset last + first + k) % vs.size < vs.validators.length :=
        Nat.mod_lt _ (Nat.pos_of_ne_zero size)
      rw [ValidatorSet.calcProposer_proposer size (fits k short), ← add_assoc,
        ValidatorSet.getByIndex, List.getElem?_eq_getElem inside, Option.some_inj,
        apart.getElem_inj_iff]
    obtain ⟨k, ⟨short, visit⟩, only⟩ :=
      @existsUnique_visit vs.size (vs.offset last + first) place bound
    refine ⟨k, ⟨short, (turn short).mpr visit⟩, ?_⟩
    rintro other ⟨otherShort, chosen⟩
    exact only other ⟨otherShort, (turn otherShort).mp chosen⟩
  · obtain ⟨val, member, chosen⟩ := ValidatorSet.calcProposer_chooses size last round
    refine ⟨val, member, ?_⟩
    apply ValidatorSet.isProposer_iff chosen
    rw [ValidatorSet.calcProposer_validators]
    exact member

theorem proposers_take_turns_two :
    let vs := newSet (fun _ => FixedBytes.zero 32) [bytesToAddress [2], bytesToAddress [1]] .sticky
    ∃! k, k < vs.size ∧
      (vs.calcProposer (bytesToAddress [7]) (3 + k)).proposer = some (bytesToAddress [1]) :=
  (proposers_take_turns (fun _ => FixedBytes.zero 32) rfl (by decide) (by decide)
    (bytesToAddress [7])).1 3 (by decide +kernel) _ (by decide +kernel)

/-! ## Quorum intersection -/

/-- Any two groups of validators that each reach the threshold share at least
`F() + 1` validators. -/
def QuorumsIntersect (vs : ValidatorSet) : Prop :=
  ∀ left right : Finset (Fin vs.size),
    vs.exceedsTwoF left.card = true → vs.exceedsTwoF right.card = true →
      vs.f + 1 ≤ (left ∩ right).card

/-- The threshold fits exactly the sets of `3F + 1` validators. -/
theorem quorumsIntersect_iff (vs : ValidatorSet) (nonempty : 1 ≤ vs.size) :
    QuorumsIntersect vs ↔ vs.size % 3 = 1 := by
  constructor
  · intro intersect
    by_contra other
    -- the largest disjoint parts of two quorums of exactly 2F + 1 members
    obtain ⟨left, right, leftCard, rightCard, shared⟩ :=
      exists_tight_pair (n := vs.size) (k := 2 * ((vs.size + 2) / 3 - 1) + 1)
        (by omega) (by omega)
    have few := intersect left right
      (by rw [ValidatorSet.exceedsTwoF_iff, ValidatorSet.f, leftCard]; omega)
      (by rw [ValidatorSet.exceedsTwoF_iff, ValidatorSet.f, rightCard]; omega)
    rw [shared, ValidatorSet.f] at few
    omega
  · intro size left right leftQuorum rightQuorum
    have overlap := card_add_card_le (Finset.subset_univ left) (Finset.subset_univ right)
    rw [Finset.card_univ, Fintype.card_fin] at overlap
    rw [ValidatorSet.exceedsTwoF_iff, ValidatorSet.f] at leftQuorum rightQuorum
    rw [ValidatorSet.f]
    omega

def fourValidators : ValidatorSet where
  validators := [1, 2, 3, 4].map fun i => bytesToAddress [i]
  policy := .roundRobin
  proposer := none

theorem quorumsIntersect_fourValidators :
    1 ≤ fourValidators.size ∧ QuorumsIntersect fourValidators :=
  ⟨by decide, (quorumsIntersect_iff fourValidators (by decide)).mpr (by decide)⟩

def elevenValidators : ValidatorSet where
  validators := (List.range 11).map fun i => bytesToAddress [UInt8.ofNat (i + 1)]
  policy := .roundRobin
  proposer := none

/-- With eleven validators `F()` is 3 and two groups of seven share only three. -/
theorem not_quorumsIntersect_elevenValidators : ¬ QuorumsIntersect elevenValidators := by
  intro intersect
  have shared := intersect (Finset.univ.filter fun i => i.val < 7)
    (Finset.univ.filter fun i => 4 ≤ i.val) (by decide +kernel) (by decide +kernel)
  exact absurd shared (by decide +kernel)

end Linkeye.Dbft.Validator
