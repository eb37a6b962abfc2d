import Linkeye.Core.Dpos

/-!
# The genesis context

`initGenesisDposContext` of `core/genesis.go`.  The delegation of each genesis
validator to itself is written to the delegate trie directly, without a vote.
-/

set_option autoImplicit false

namespace Linkeye.Core.Genesis

open Common.Types Dpos Rlp.Encode

/-- The validator lists of the sections `DPOS` and `DBFT` of the chain
configuration; `none` where the section or its list is missing. -/
structure GenesisConfig where
  dpos : Option (List Address)
  dbft : Option (List Address)

def enrollValidator (dc : DposContext) (validator : Address) : DposContext :=
  let dc := { dc with
    delegateTrie := dc.delegateTrie.tryUpdate (validator.data ++ validator.data) validator.data }
  (dc.setCandidateContext ⟨validator, .loginState, 0, 0⟩).1

def enrollValidators (dc : DposContext) (validators : List Address) : DposContext :=
  let dc := dc.setValidators validators
  let dc := dc.setSortableAddresses (validators.map fun v => (v, 0))
  validators.foldl enrollValidator dc

def enrollSection (dc : DposContext) : Option (List Address) → DposContext
  | none => dc
  | some validators => enrollValidators dc validators

def initGenesisDposContext (config : GenesisConfig) : DposContext :=
  enrollSection (enrollSection newDposContext config.dpos) config.dbft

/-- What the lists and each record of genesis keep. -/
theorem initGenesis_rule {inv : DposContext → Prop} (new : inv newDposContext)
    (listed : ∀ (dc : DposContext) (validators : List Address), inv dc →
      inv ((dc.setValidators validators).setSortableAddresses (validators.map fun v => (v, 0))))
    (enrolled : ∀ (dc : DposContext) (v : Address), inv dc → inv (enrollValidator dc v))
    (config : GenesisConfig) : inv (initGenesisDposContext config) := by
  have entered : ∀ dc validators, inv dc → inv (enrollSection dc validators) := by
    intro dc validators before
    cases validators with
    | none => exact before
    | some validators =>
      exact List.foldlRecOn validators enrollValidator (listed dc validators before)
        fun dc before v _ => enrolled dc v before
  exact entered _ _ (entered _ _ new)

theorem enrollValidator_foldl_epochTrie (validators : List Address) (dc : DposContext) :
    (validators.foldl enrollValidator dc).epochTrie = dc.epochTrie := by
  induction validators generalizing dc with
  | nil => rfl
  | cons v rest ih =>
    rw [List.foldl_cons, ih, enrollValidator, DposContext.setCandidateContext_onlyCandidates]

/-- The validators of the DBFT section are in office at genesis. -/
theorem getValidators_initGenesisDposContext {config : GenesisConfig} {validators : List Address}
    (configured : config.dbft = some validators)
    (short : (encode (.list (validators.map writeByteArray))).length < maxInt) :
    (initGenesisDposContext config).getValidators = some validators := by
  rw [initGenesisDposContext, configured]
  simp only [enrollSection, enrollValidators]
  rw [getValidators_congr (enrollValidator_foldl_epochTrie _ _),
    getValidators_setSortableAddresses, getValidators_setValidators _ short]

end Linkeye.Core.Genesis
