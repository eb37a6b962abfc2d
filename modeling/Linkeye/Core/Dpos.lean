import Linkeye.Lib.Runs
import Linkeye.Rlp.Decode
import Linkeye.Trie.Contents

/-!
# Candidates, delegations and votes

`core/types/dpos_context.go`: the five tries of a `DposContext` and the calls
that change them.  A delegation of `d` to `c` is an entry under the key `c || d`
of the delegate trie and a `VoteContext` under `d` in the vote trie.
-/

set_option autoImplicit false

namespace Linkeye.Core.Dpos

open Common.Types Rlp.Encode Rlp.Decode Trie.Contents

/-- `CoinState` is a `uint8`; `other` holds the codes from 3 on. -/
inductive CoinState where
  | loginState
  | logoutState
  | withdrawingState
  | other (code : Fin 253)
deriving DecidableEq

def CoinState.toNat : CoinState → Nat
  | .loginState => 0
  | .logoutState => 1
  | .withdrawingState => 2
  | .other code => 3 + code

def CoinState.ofNat (n : Nat) : CoinState :=
  match n with
  | 0 => .loginState
  | 1 => .logoutState
  | 2 => .withdrawingState
  | code => .other (Fin.ofNat 253 (code - 3))

structure CandidateContext where
  addr : Address
  state : CoinState
  blockNumber : Int
  score : Int
deriving DecidableEq

structure VoteContext where
  delegator : Address
  candidate : Address
  blockNumber : Int
  delegatorBalance : Int
deriving DecidableEq

def CandidateContext.zero : CandidateContext := ⟨zeroAddress, .loginState, 0, 0⟩

def CandidateContext.encodeRLP (cc : CandidateContext) : Option Item :=
  match writeBigInt cc.blockNumber, writeBigInt cc.score with
  | some blockNumber, some score =>
    some (.list [writeByteArray cc.addr, writeUint cc.state.toNat, blockNumber, score])
  | _, _ => none

def CandidateContext.decodeRLP : Item → Option CandidateContext
  | .list [addr, state, blockNumber, score] => do
      let addr ← decodeByteArray 20 addr
      let state ← decodeUint 8 state
      let blockNumber ← decodeBigInt blockNumber
      let score ← decodeBigInt score
      return ⟨addr, CoinState.ofNat state, blockNumber, score⟩
  | _ => none

def VoteContext.encodeRLP (vc : VoteContext) : Option Item :=
  match writeBigInt vc.blockNumber, writeBigInt vc.delegatorBalance with
  | some blockNumber, some balance =>
    some (.list [writeByteArray vc.delegator, writeByteArray vc.candidate, blockNumber, balance])
  | _, _ => none

def VoteContext.decodeRLP : Item → Option VoteContext
  | .list [delegator, candidate, blockNumber, balance] => do
      let delegator ← decodeByteArray 20 delegator
      let candidate ← decodeByteArray 20 candidate
      let blockNumber ← decodeBigInt blockNumber
      let balance ← decodeBigInt balance
      return ⟨delegator, candidate, blockNumber, balance⟩
  | _ => none

/-! ## The context -/

structure DposContext where
  epochTrie : TrieMap
  delegateTrie : TrieMap
  voteTrie : TrieMap
  candidateTrie : TrieMap
  mintCntTrie : TrieMap

def decodeRecord {α : Type} (decodeRLP : Item → Option α) (b : Bytes) : Option α :=
  (decodeBytes b).bind decodeRLP

inductive DposError where
  | invalidCandidateToDelegate
  | invalidCandidateToUnDelegate
  | decodeVoteContext (delegator : Address)
  | encodeVoteContext (delegator : Address)
  | mismatchCandidateToUnDelegate
  | decodeCandidateContext
  | encodeCandidateContext
deriving DecidableEq

def newDposContext : DposContext where
  epochTrie := TrieMap.empty
  delegateTrie := TrieMap.empty
  voteTrie := TrieMap.empty
  candidateTrie := TrieMap.empty
  mintCntTrie := TrieMap.empty

namespace DposContext

/-- The loop of `KickoutCandidate`.  What it compares with the candidate is the
stored vote record, not the candidate of that record. -/
def kickoutDelegators (candidate : Bytes) : List (Bytes × Bytes) → DposContext → DposContext
  | [], dc => dc
  | (_, delegator) :: rest, dc =>
    let voteTrie :=
      if dc.voteTrie.tryGet delegator = some candidate then dc.voteTrie.tryDelete delegator
      else dc.voteTrie
    kickoutDelegators candidate rest
      { dc with
        delegateTrie := dc.delegateTrie.tryDelete (candidate ++ delegator)
        voteTrie := voteTrie }

def kickoutCandidate (dc : DposContext) (candidateAddr : Address) : DposContext :=
  kickoutDelegators candidateAddr.data (dc.delegateTrie.prefixIterator candidateAddr.data)
    { dc with candidateTrie := dc.candidateTrie.tryDelete candidateAddr.data }

/-- The vote record of a delegator, as `Delegate` and `UnDelegate` read it: the
zero record where none is stored. -/
def oldVote (dc : DposContext) (delegatorAddr : Address) : Except DposError (Option VoteContext) :=
  match dc.voteTrie.tryGet delegatorAddr.data with
  | none => .ok none
  | some oldCandidateRLP =>
    match decodeRecord VoteContext.decodeRLP oldCandidateRLP with
    | none => .error (.decodeVoteContext delegatorAddr)
    | some vc => .ok (some vc)

/-- The delegate trie of `Delegate`: the delegation that the vote record
remembers goes, the new one comes. -/
def replaceDelegation (dc : DposContext) (old : Option VoteContext)
    (delegatorAddr candidateAddr : Address) : TrieMap :=
  let withoutOld :=
    match old with
    | none => dc.delegateTrie
    | some vc => dc.delegateTrie.tryDelete (vc.candidate.data ++ delegatorAddr.data)
  withoutOld.tryUpdate (candidateAddr.data ++ delegatorAddr.data) delegatorAddr.data

/-- The delegate trie is written before the vote record is encoded. -/
def delegate (dc : DposContext) (delegatorAddr candidateAddr : Address)
    (blockNum delegatorbal : Int) : DposContext × Option DposError :=
  if dc.candidateTrie.tryGet candidateAddr.data = none then (dc, some .invalidCandidateToDelegate)
  else
    match dc.oldVote delegatorAddr with
    | .error e => (dc, some e)
    | .ok old =>
      let delegateTrie := dc.replaceDelegation old delegatorAddr candidateAddr
      match VoteContext.encodeRLP ⟨delegatorAddr, candidateAddr, blockNum, delegatorbal⟩ with
      | none => ({ dc with delegateTrie }, some (.encodeVoteContext delegatorAddr))
      | some item =>
        ({ dc with
            delegateTrie
            voteTrie := dc.voteTrie.tryUpdate delegatorAddr.data (encode item) }, none)

def unDelegate (dc : DposContext) (delegatorAddr candidateAddr : Address) :
    DposContext × Option DposError :=
  if dc.candidateTrie.tryGet candidateAddr.data = none then
    (dc, some .invalidCandidateToUnDelegate)
  else
    match dc.oldVote delegatorAddr with
    | .error e => (dc, some e)
    | .ok old =>
      if candidateAddr ≠ (old.map VoteContext.candidate).getD zeroAddress then
        (dc, some .mismatchCandidateToUnDelegate)
      else
        ({ dc with
            delegateTrie := dc.delegateTrie.tryDelete (candidateAddr.data ++ delegatorAddr.data)
            voteTrie := dc.voteTrie.tryDelete delegatorAddr.data }, none)

def getCandidateContext (dc : DposContext) (candidateAddr : Address) :
    Except DposError CandidateContext :=
  match dc.candidateTrie.tryGet candidateAddr.data with
  | none => .ok CandidateContext.zero
  | some ccRLP =>
    match decodeRecord CandidateContext.decodeRLP ccRLP with
    | none => .error .decodeCandidateContext
    | some cc => .ok cc

def setCandidateContext (dc : DposContext) (cc : CandidateContext) :
    DposContext × Option DposError :=
  match cc.encodeRLP with
  | none => (dc, some .encodeCandidateContext)
  | some item =>
    ({ dc with candidateTrie := dc.candidateTrie.tryUpdate cc.addr.data (encode item) }, none)

def validatorKey : Bytes := [118, 97, 108, 105, 100, 97, 116, 111, 114]

def sortValidatorKey : Bytes := [115, 111, 114, 116] ++ validatorKey

/-- The decoding of an absent list fails like that of a broken one. -/
def getValidators (dc : DposContext) : Option (List Address) :=
  (dc.epochTrie.tryGet validatorKey).bind
    (decodeRecord (decodeListSlice (decodeByteArray 20)))

def setValidators (dc : DposContext) (validators : List Address) : DposContext :=
  { dc with
    epochTrie := dc.epochTrie.tryUpdate validatorKey
      (encode (.list (validators.map writeByteArray))) }

/-- `SetSortableAddresses`; a negative weight has no encoding and nothing is
stored. -/
def setSortableAddresses (dc : DposContext) (sa : List (Address × Int)) : DposContext :=
  match sa.mapM (fun entry =>
      (writeBigInt entry.2).map fun weight => Item.list [writeByteArray entry.1, weight]) with
  | none => dc
  | some items =>
    { dc with epochTrie := dc.epochTrie.tryUpdate sortValidatorKey (encode (.list items)) }

end DposContext

/-! ## Records are read back -/

variable {vc : VoteContext} {item : Item} {c c' d : Address} {t : TrieMap}

theorem VoteContext.encodeRLP_eq_some (written : vc.encodeRLP = some item) :
    0 ≤ vc.blockNumber ∧ 0 ≤ vc.delegatorBalance ∧
      item = .list [writeByteArray vc.delegator, writeByteArray vc.candidate,
        .bytes (bigBytes vc.blockNumber.toNat), .bytes (bigBytes vc.delegatorBalance.toNat)] := by
  rw [VoteContext.encodeRLP] at written
  split at written
  · rename_i number balance
    obtain ⟨numberNonneg, rfl⟩ := writeBigInt_eq_some number
    obtain ⟨balanceNonneg, rfl⟩ := writeBigInt_eq_some balance
    exact ⟨numberNonneg, balanceNonneg, (Option.some.inj written).symm⟩
  · cases written

theorem VoteContext.decodeRLP_encodeRLP (written : vc.encodeRLP = some item) :
    VoteContext.decodeRLP item = some vc := by
  obtain ⟨numberNonneg, balanceNonneg, rfl⟩ := encodeRLP_eq_some written
  simp only [VoteContext.decodeRLP, decodeByteArray_writeByteArray, decodeBigInt_bigBytes,
    Option.bind_eq_bind, Option.bind_some, Int.toNat_of_nonneg numberNonneg,
    Int.toNat_of_nonneg balanceNonneg]
  rfl

/-- The vote record has an encoding that a slice can hold. -/
def Recordable (vc : VoteContext) : Prop := (vc.encodeRLP.bind encodeToBytes).isSome = true

instance (vc : VoteContext) : Decidable (Recordable vc) :=
  inferInstanceAs (Decidable (_ = true))

theorem Recordable.decodeRecord (recordable : Recordable vc) :
    ∃ item, vc.encodeRLP = some item ∧
      Dpos.decodeRecord VoteContext.decodeRLP (encode item) = some vc := by
  obtain ⟨written, success⟩ := Option.isSome_iff_exists.mp recordable
  obtain ⟨item, encoded, bytes⟩ := Option.bind_eq_some_iff.mp success
  obtain ⟨rfl, _⟩ := encodeToBytes_eq_some bytes
  refine ⟨item, encoded, ?_⟩
  rw [Dpos.decodeRecord, decodeBytes_encodeToBytes bytes]
  exact VoteContext.decodeRLP_encodeRLP encoded

theorem CandidateContext.encodeRLP_natCast (addr : Address) (state : CoinState)
    (blockNumber score : Nat) :
    (CandidateContext.mk addr state blockNumber score).encodeRLP =
      some (.list [writeByteArray addr, writeUint state.toNat, .bytes (bigBytes blockNumber),
        .bytes (bigBytes score)]) := by
  simp only [CandidateContext.encodeRLP, writeBigInt_natCast]

theorem encode_ne_nil (item : Item) : encode item ≠ [] :=
  List.ne_nil_of_length_pos (encode_length_pos item)

variable (dc : DposContext)

theorem getValidators_setValidators {validators : List Address}
    (short : (encode (.list (validators.map writeByteArray))).length < maxInt) :
    (dc.setValidators validators).getValidators = some validators := by
  simp only [DposContext.getValidators, DposContext.setValidators,
    TrieMap.tryGet_tryUpdate _ (encode_ne_nil _), if_true, Option.bind_some, decodeRecord,
    decodeBytes_encode short]
  exact decodeListSlice_map _ _ decodeByteArray_writeByteArray validators

theorem getValidators_setSortableAddresses (sa : List (Address × Int)) :
    (dc.setSortableAddresses sa).getValidators = dc.getValidators := by
  rw [DposContext.setSortableAddresses]
  split
  · rfl
  · have keys : DposContext.sortValidatorKey ≠ DposContext.validatorKey := by decide
    simp only [DposContext.getValidators, TrieMap.tryGet_tryUpdate _ (encode_ne_nil _),
      if_neg keys]

theorem getValidators_congr {dc after : DposContext} (same : after.epochTrie = dc.epochTrie) :
    after.getValidators = dc.getValidators := by
  rw [DposContext.getValidators, DposContext.getValidators, same]

theorem encode_address_length (a : Address) : (encode (writeByteArray a)).length = 21 := by
  have long : 2 ≤ a.data.length := by
    rw [a.length_data]
    norm_num
  rw [writeByteArray, encode, encodeString_of_long long, List.length_append, a.length_data]
  rfl

theorem encodeItems_addresses_length (validators : List Address) :
    (encodeItems (validators.map writeByteArray)).length = 21 * validators.length := by
  induction validators with
  | nil => rfl
  | cons first rest ih =>
    simp only [List.map_cons, encodeItems, List.length_append, encode_address_length,
      List.length_cons, ih]
    omega

/-- The list of an election is short enough for any slice. -/
theorem encode_addresses_short {validators : List Address} (few : validators.length ≤ 11) :
    (encode (.list (validators.map writeByteArray))).length < maxInt := by
  have items := encodeItems_addresses_length validators
  have content : (encodeItems (validators.map writeByteArray)).length < 256 ^ 1 := by omega
  have sizeBytes := bigBytes_length_le content
  have head : (puthead 0xC0 0xF7 (encodeItems (validators.map writeByteArray)).length).length ≤ 2 := by
    rw [puthead]
    split
    · simp
    · simp only [List.length_cons, putint]
      omega
  rw [encode, List.length_append, maxInt]
  omega

/-! ## Keys of the delegate trie -/

theorem key_inj {d' : Address} :
    c.data ++ d.data = c'.data ++ d'.data ↔ c = c' ∧ d = d' := by
  constructor
  · intro same
    have lengths : c.data.length = c'.data.length := by rw [c.length_data, c'.length_data]
    obtain ⟨candidates, delegators⟩ := List.append_inj same lengths
    exact ⟨FixedBytes.data_inj candidates, FixedBytes.data_inj delegators⟩
  · rintro ⟨rfl, rfl⟩
    rfl

theorem data_ne_nil (a : Address) : a.data ≠ [] := by
  intro empty
  have length := a.length_data
  simp [empty] at length

/-- Every entry stores a delegator under the key `c || d`. -/
def DelegateEntries (t : TrieMap) : Prop :=
  ∀ key value, t.tryGet key = some value →
    ∃ c d : Address, key = c.data ++ d.data ∧ value = d.data

theorem DelegateEntries.of_stays {after : TrieMap} (entries : DelegateEntries t)
    (stays : ∀ key value, after.tryGet key = some value → t.tryGet key = some value) :
    DelegateEntries after :=
  fun key value stored => entries key value (stays key value stored)

theorem DelegateEntries.tryUpdate (entries : DelegateEntries t) (c d : Address) :
    DelegateEntries (t.tryUpdate (c.data ++ d.data) d.data) := by
  intro key value stored
  rw [TrieMap.tryGet_tryUpdate _ (data_ne_nil d)] at stored
  by_cases new : c.data ++ d.data = key
  · rw [if_pos new] at stored
    exact ⟨c, d, new.symm, (Option.some.inj stored).symm⟩
  · rw [if_neg new] at stored
    exact entries key value stored

/-- The entries that start with `c` are those of its delegators. -/
theorem DelegateEntries.mem_prefixIterator (entries : DelegateEntries t) {key value : Bytes} :
    (key, value) ∈ t.prefixIterator c.data ↔
      t.tryGet key = some value ∧ ∃ d : Address, key = c.data ++ d.data ∧ value = d.data := by
  rw [TrieMap.mem_prefixIterator]
  constructor
  · rintro ⟨stored, rest, split⟩
    obtain ⟨c', d, rfl, rfl⟩ := entries key value stored
    have lengths : c.data.length = c'.data.length := by rw [c.length_data, c'.length_data]
    rw [(List.append_inj split lengths).1]
    exact ⟨stored, d, rfl, rfl⟩
  · rintro ⟨stored, d, rfl, _⟩
    exact ⟨stored, List.prefix_append _ _⟩

namespace DposContext

def delegation (dc : DposContext) (c d : Address) : Option Bytes :=
  dc.delegateTrie.tryGet (c.data ++ d.data)

def IsCandidate (dc : DposContext) (c : Address) : Prop :=
  dc.candidateTrie.tryGet c.data ≠ none

def Voted (dc : DposContext) (d c : Address) : Prop :=
  ∃ vc, dc.oldVote d = .ok (some vc) ∧ vc.candidate = c

def Delegated (dc : DposContext) (d c : Address) : Prop := dc.delegation c d ≠ none

/-! ## What a call changes -/

section
variable {dc after : DposContext}

/-- A delegator has one record, and it names one candidate. -/
theorem Voted.unique (first : dc.Voted d c) (second : dc.Voted d c') :
    c = c' := by
  obtain ⟨vc, stored, rfl⟩ := first
  obtain ⟨other, found, rfl⟩ := second
  rw [stored] at found
  cases found
  rfl

theorem tryGet_replaceDelegation (old : Option VoteContext) (d c c' d' : Address) :
    (dc.replaceDelegation old d c).tryGet (c'.data ++ d'.data) =
      if c = c' ∧ d = d' then some d.data
      else if d = d' ∧ old.map VoteContext.candidate = some c' then none
      else dc.delegation c' d' := by
  rw [replaceDelegation.eq_def, TrieMap.tryGet_tryUpdate _ (data_ne_nil d)]
  simp only [key_inj]
  by_cases same : c = c' ∧ d = d'
  · simp only [if_pos same]
  · cases old with
    | none => simp [delegation]
    | some vc =>
      simp only [TrieMap.tryGet_tryDelete, key_inj, Option.map_some, Option.some.injEq,
        delegation, and_comm]

theorem entries_replaceDelegation (entries : DelegateEntries dc.delegateTrie)
    (old : Option VoteContext) (d c : Address) :
    DelegateEntries (dc.replaceDelegation old d c) := by
  rw [replaceDelegation.eq_def]
  cases old with
  | none => exact entries.tryUpdate c d
  | some vc => exact (entries.of_stays fun _ _ => TrieMap.tryGet_of_tryDelete).tryUpdate c d

theorem oldVote_tryUpdate (readBack : decodeRecord VoteContext.decodeRLP (encode item) = some vc)
    (d d' : Address) :
    oldVote { dc with voteTrie := dc.voteTrie.tryUpdate d.data (encode item) } d' =
      if d = d' then .ok (some vc) else dc.oldVote d' := by
  simp only [oldVote, TrieMap.tryGet_tryUpdate _ (encode_ne_nil item)]
  by_cases same : d = d'
  · subst same
    simp only [if_true, readBack]
  · have keys : d.data ≠ d'.data := fun equal => same (FixedBytes.data_inj equal)
    simp only [if_neg same, if_neg keys]

theorem oldVote_tryDelete (d d' : Address) :
    oldVote { dc with voteTrie := dc.voteTrie.tryDelete d.data } d' =
      if d = d' then .ok none else dc.oldVote d' := by
  simp only [oldVote, TrieMap.tryGet_tryDelete]
  by_cases same : d = d'
  · subst same
    simp only [if_true]
  · have keys : d.data ≠ d'.data := fun equal => same (FixedBytes.data_inj equal)
    simp only [if_neg same, if_neg keys]

/-- `Delegate` went through: `old` is the record it found, `vc` the one it wrote. -/
structure Redelegated (dc after : DposContext) (old : Option VoteContext) (vc : VoteContext) :
    Prop where
  candidate : dc.IsCandidate vc.candidate
  found : dc.oldVote vc.delegator = .ok old
  candidates : after.candidateTrie = dc.candidateTrie
  epoch : after.epochTrie = dc.epochTrie
  delegateTrie : after.delegateTrie = dc.replaceDelegation old vc.delegator vc.candidate
  voteTrie : ∃ item, vc.encodeRLP = some item ∧
    after.voteTrie = dc.voteTrie.tryUpdate vc.delegator.data (encode item)
  votes : ∀ d, after.oldVote d = if vc.delegator = d then .ok (some vc) else dc.oldVote d
  delegations : ∀ c d, after.delegation c d =
    if vc.candidate = c ∧ vc.delegator = d then some vc.delegator.data
    else if vc.delegator = d ∧ old.map VoteContext.candidate = some c then none
    else dc.delegation c d

theorem Redelegated.delegation_of_ne {old : Option VoteContext}
    (effect : Redelegated dc after old vc) (other : vc.delegator ≠ d) (c : Address) :
    after.delegation c d = dc.delegation c d := by
  simp [effect.delegations, other]

theorem delegate_cases (dc : DposContext) (recordable : Recordable vc) :
    (dc.delegate vc.delegator vc.candidate vc.blockNumber vc.delegatorBalance).1 = dc ∨
      ∃ old, Redelegated dc
        (dc.delegate vc.delegator vc.candidate vc.blockNumber vc.delegatorBalance).1 old vc := by
  obtain ⟨item, written, readBack⟩ := recordable.decodeRecord
  by_cases absent : dc.candidateTrie.tryGet vc.candidate.data = none
  · left
    rw [delegate, if_pos absent]
  · cases found : dc.oldVote vc.delegator with
    | error e =>
      left
      rw [delegate, if_neg absent, found]
    | ok old =>
      right
      refine ⟨old, ?_⟩
      rw [delegate, if_neg absent, found]
      simp only [written]
      exact {
        candidate := absent
        found := found
        candidates := rfl
        epoch := rfl
        delegateTrie := rfl
        voteTrie := ⟨item, written, rfl⟩
        votes := oldVote_tryUpdate readBack vc.delegator
        delegations := fun c d => tryGet_replaceDelegation old _ _ c d }

/-- `UnDelegate` went through.  A delegator without a record passes for one that
voted for the zero address. -/
structure Undelegated (dc after : DposContext) (d c : Address) : Prop where
  found : dc.Voted d c ∨ dc.oldVote d = .ok none
  candidates : after.candidateTrie = dc.candidateTrie
  epoch : after.epochTrie = dc.epochTrie
  delegateTrie : after.delegateTrie = dc.delegateTrie.tryDelete (c.data ++ d.data)
  voteTrie : after.voteTrie = dc.voteTrie.tryDelete d.data
  votes : ∀ d', after.oldVote d' = if d = d' then .ok none else dc.oldVote d'
  delegations : ∀ c' d', after.delegation c' d' =
    if c = c' ∧ d = d' then none else dc.delegation c' d'

theorem Undelegated.delegation_of_ne {d' : Address} (effect : Undelegated dc after d c)
    (other : d ≠ d') (c' : Address) : after.delegation c' d' = dc.delegation c' d' := by
  simp [effect.delegations, other]

/-- A vote that is taken back was for the candidate of the call. -/
theorem Undelegated.eq_of_voted (effect : Undelegated dc after d c) (voted : dc.Voted d c') :
    c = c' := by
  rcases effect.found with named | missing
  · exact named.unique voted
  · obtain ⟨vc, stored, _⟩ := voted
    rw [missing] at stored
    cases stored

theorem unDelegate_cases (dc : DposContext) (d c : Address) :
    (dc.unDelegate d c).1 = dc ∨ Undelegated dc (dc.unDelegate d c).1 d c := by
  by_cases absent : dc.candidateTrie.tryGet c.data = none
  · left
    rw [unDelegate, if_pos absent]
  · cases found : dc.oldVote d with
    | error e =>
      left
      rw [unDelegate, if_neg absent, found]
    | ok old =>
      rw [unDelegate, if_neg absent, found]
      by_cases mismatch : c ≠ (old.map VoteContext.candidate).getD zeroAddress
      · left
        simp only [if_pos mismatch]
      · right
        simp only [if_neg mismatch]
        refine ⟨?_, rfl, rfl, rfl, rfl, oldVote_tryDelete d, ?_⟩
        · cases old with
          | none => exact .inr found
          | some vc => exact .inl ⟨vc, found, (not_not.mp mismatch).symm⟩
        · intro c' d'
          simp only [delegation, TrieMap.tryGet_tryDelete, key_inj]

end

/-- Nothing but the candidate trie can differ. -/
def OnlyCandidates (dc after : DposContext) : Prop :=
  after = { dc with candidateTrie := after.candidateTrie }

theorem OnlyCandidates.refl : OnlyCandidates dc dc := rfl

theorem OnlyCandidates.trans {dc middle after : DposContext} (first : OnlyCandidates dc middle)
    (second : OnlyCandidates middle after) : OnlyCandidates dc after := by
  rw [OnlyCandidates] at first second ⊢
  rw [first] at second
  exact second

theorem setCandidateContext_onlyCandidates (cc : CandidateContext) :
    OnlyCandidates dc (dc.setCandidateContext cc).1 := by
  rw [setCandidateContext]
  cases cc.encodeRLP with
  | none => exact OnlyCandidates.refl dc
  | some item => rfl

theorem delegate_keeps (d c : Address) (blockNum balance : Int) :
    (dc.delegate d c blockNum balance).1.epochTrie = dc.epochTrie ∧
      (dc.delegate d c blockNum balance).1.candidateTrie = dc.candidateTrie := by
  rw [delegate]
  by_cases absent : dc.candidateTrie.tryGet c.data = none
  · simp [absent]
  · rw [if_neg absent]
    cases dc.oldVote d with
    | error e => exact ⟨rfl, rfl⟩
    | ok old => cases VoteContext.encodeRLP ⟨d, c, blockNum, balance⟩ <;> exact ⟨rfl, rfl⟩

/-! ## What `KickoutCandidate` changes -/

theorem kickoutDelegators_keeps (candidate : Bytes) (found : List (Bytes × Bytes))
    (dc : DposContext) :
    (kickoutDelegators candidate found dc).candidateTrie = dc.candidateTrie ∧
      (kickoutDelegators candidate found dc).epochTrie = dc.epochTrie := by
  induction found generalizing dc with
  | nil => exact ⟨rfl, rfl⟩
  | cons entry rest ih => exact ih _

theorem tryGet_kickoutDelegators (candidate : Bytes) (found : List (Bytes × Bytes))
    (dc : DposContext) (key : Bytes) :
    (kickoutDelegators candidate found dc).delegateTrie.tryGet key =
      if key ∈ found.map (fun entry => candidate ++ entry.2) then none
      else dc.delegateTrie.tryGet key := by
  induction found generalizing dc with
  | nil => simp [kickoutDelegators]
  | cons entry rest ih =>
    rw [kickoutDelegators, ih]
    simp only [TrieMap.tryGet_tryDelete, List.map_cons, List.mem_cons]
    by_cases later : key ∈ rest.map (fun entry => candidate ++ entry.2)
    · simp [later]
    · by_cases now : key = candidate ++ entry.2
      · simp [now]
      · simp [later, now, Ne.symm now]

theorem tryGet_of_kickoutCandidate {dc : DposContext} {key value : Bytes}
    (stored : (dc.kickoutCandidate c).delegateTrie.tryGet key = some value) :
    dc.delegateTrie.tryGet key = some value := by
  rw [kickoutCandidate, tryGet_kickoutDelegators] at stored
  split at stored
  · cases stored
  · exact stored

/-- No vote record has the length of an address, so the comparison of the loop
never succeeds and no record is deleted. -/
theorem kickoutDelegators_voteTrie {candidate : Bytes} (found : List (Bytes × Bytes))
    {dc : DposContext} (different : ∀ key, dc.voteTrie.tryGet key ≠ some candidate) :
    (kickoutDelegators candidate found dc).voteTrie = dc.voteTrie := by
  induction found generalizing dc with
  | nil => rfl
  | cons entry rest ih =>
    rw [kickoutDelegators]
    simp only [if_neg (different entry.2)]
    rw [ih]
    exact different

end DposContext

end Linkeye.Core.Dpos
