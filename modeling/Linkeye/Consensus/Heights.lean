import Linkeye.Dbft.ValidatorList
import Linkeye.Dpos.Headers
import Linkeye.Poa.Headers

/-!
# Heights

The three engines compare the number of a header with that of its parent after
cutting both to 64 bits, and take a header whose low 64 bits are zero for a
genesis block.  A header is then one above its parent exactly if the two numbers
agree above their low 64 bits.
-/

set_option autoImplicit false

namespace Linkeye.Consensus.Heights

open Common.Types Common.Signature Fields Core.Blocks
open Std (ExtTreeMap)
open Dbft.Headers (num)
open Dbft.Recall (gather_of_recent snapshot_of_gather)
open Dbft.Validator Dbft.ValidatorList Rlp.Encode

/-! ## One verifier for three engines -/

inductive EngineKind where
  | dbft
  | dpos
  | poa

inductive Verifier where
  | dbft (e : Dbft.Headers.Engine) (node : Dbft.Headers.Node)
  | dpos (e : Dpos.Headers.Engine) (chain : Chain)
  | poa (e : Poa.Snapshots.Engine) (node : Poa.Headers.Node)

namespace Verifier

def kind : Verifier → EngineKind
  | dbft _ _ => .dbft
  | dpos _ _ => .dpos
  | poa _ _ => .poa

def crypto : Verifier → Crypto
  | dbft e _ => e.crypto
  | dpos e _ => e.crypto
  | poa e _ => e.crypto

def parentOf (v : Verifier) (h : Header) (parents : List Header) : Option Header :=
  match v with
  | dbft e node => Dbft.Headers.parentOf e node h parents
  | dpos e chain => Fields.parentOf e.crypto chain h parents
  | poa e node => Fields.parentOf e.crypto node.chain h parents

def Accepts (v : Verifier) (h : Header) (parents : List Header) : Prop :=
  match v with
  | dbft e node => (Dbft.Headers.verifyHeader e node h parents).2 = .ok ()
  | dpos e chain => Dpos.Headers.verifyHeader e chain h parents = .ok ()
  | poa e node => (Poa.Headers.verifyHeader e node h parents).2 = .ok ()

/-- The parent of `h` is found, and its number is one below as far as 64 bits go. -/
def FindsParent (v : Verifier) (h : Header) (parents : List Header) : Prop :=
  ∃ parent, v.parentOf h parents = some parent ∧ parent.hash v.crypto = h.parentHash ∧
    num parent + 1 = num h

end Verifier

/-! ## What acceptance says of the parent -/

section
variable {h : Header} {parents : List Header}

theorem findsParent_of_checkParent {v : Verifier} {chain : Chain} {period : Nat} {parent : Header}
    (later : num h ≠ 0) (lookup : v.parentOf h parents = Fields.parentOf v.crypto chain h parents)
    (checked : checkParent v.crypto period chain h parents = .ok parent) :
    v.FindsParent h parents := by
  obtain ⟨found, number, hash, _⟩ := checkParent_eq_ok_iff.mp checked
  refine ⟨parent, lookup.trans found, hash, ?_⟩
  rw [number]
  omega

theorem Verifier.Accepts.findsParent {v : Verifier} (accepted : v.Accepts h parents)
    (later : num h ≠ 0) : v.FindsParent h parents := by
  cases v with
  | dbft e node =>
    have next : num h = num h - 1 + 1 := by omega
    obtain ⟨_, parent, _, _, known, numbered, hashed, _⟩ := (accepted_iff_sealed next).mp accepted
    refine ⟨parent, (parentOf_eq rfl).trans known, hashed, ?_⟩
    rw [numbered, ← next]
  | dpos e chain =>
    change Dpos.Headers.verifyHeader e chain h parents = .ok () at accepted
    simp only [Dpos.Headers.verifyHeader, bind, Except.bind] at accepted
    split at accepted
    · cases accepted
    · split at accepted
      · cases accepted
      · split at accepted
        · cases accepted
        · split at accepted
          · cases accepted
          · rw [Dpos.Headers.verifyCascadingFields, if_neg later] at accepted
            split at accepted
            · cases accepted
            · rename_i parent checked
              exact findsParent_of_checkParent later rfl checked
  | poa e node =>
    change (Poa.Headers.verifyHeader e node h parents).2 = .ok () at accepted
    have kept := Poa.Headers.verifyTurn_chain e node h parents
    rw [Poa.Headers.verifyHeader] at accepted
    split at accepted
    · cases accepted
    · split at accepted
      · cases accepted
      · rename_i turned
        rw [turned] at kept
        split at accepted
        · cases accepted
        · rw [Poa.Headers.verifyCascadingFields, if_neg later] at accepted
          split at accepted
          · cases accepted
          · rename_i checked
            exact findsParent_of_checkParent later
              (congrArg (Fields.parentOf e.crypto · h parents) kept.symm) checked

end

/-! ## Headers whose numbers wrap around -/

def cliqueDraft (crypto : Crypto) (hash : Hash) (number difficulty : Nat) (coinbase : Address)
    (extra : Bytes) : Header where
  parentHash := hash
  uncleHash := rlpHash crypto (.list [])
  signature := FixedBytes.zero 65
  coinbase := coinbase
  root := FixedBytes.zero 32
  txHash := FixedBytes.zero 32
  receiptHash := FixedBytes.zero 32
  dposContext := ⟨FixedBytes.zero 32, FixedBytes.zero 32, FixedBytes.zero 32, FixedBytes.zero 32,
    FixedBytes.zero 32⟩
  bloom := FixedBytes.zero 256
  difficulty := difficulty
  number := number
  gasLimit := 0
  gasUsed := 0
  time := 0
  extra := extra
  mixDigest := FixedBytes.zero 32
  nonce := nonceDropVote

def vanity : Bytes := List.replicate 32 0

def genesisDraft (crypto : Crypto) : Header :=
  cliqueDraft crypto (FixedBytes.zero 32) 0 0 zeroAddress vanity

def noForks : ForkConfig := ⟨none, FixedBytes.zero 32⟩

def genesisChain (crypto : Crypto) : Chain := ⟨genesisDraft crypto, [], rfl⟩

section
variable {crypto : Crypto} {a : Address} {n m : Nat}

theorem exists_unknown (crypto : Crypto) (h : Header) : ∃ hash : Hash, h.hash crypto ≠ hash := by
  by_cases zero : h.hash crypto = FixedBytes.zero 32
  · refine ⟨bytesToHash [1], ?_⟩
    rw [zero]
    decide
  · exact ⟨_, zero⟩

theorem getHeader_genesisChain {hash : Hash} (other : (genesisDraft crypto).hash crypto ≠ hash)
    (number : Nat) : getHeader crypto (genesisChain crypto) hash number = none := by
  simp [getHeader, genesisChain, Chain.headers, other]

theorem verifyForkHashes_noForks (crypto : Crypto) (h : Header) :
    verifyForkHashes crypto noForks h false = .ok () := by
  simp [verifyForkHashes, noForks]

theorem recoverSigner_eq_ok {data sig : Bytes}
    (recovered : getSignatureAddress crypto data sig = some a) :
    recoverSigner crypto (crypto.keccak256 data) sig = .ok a := by
  obtain ⟨pubkey, found, own⟩ := Option.map_eq_some_iff.mp recovered
  rw [recoverSigner, found]
  exact congrArg _ own

theorem checkParent_draft {chain : Chain} {h parent : Header} (time : h.time = 0)
    (parentTime : parent.time = 0) (number : num parent + 1 = num h)
    (hash : parent.hash crypto = h.parentHash) :
    checkParent crypto 0 chain h [parent] = .ok parent := by
  rw [checkParent_eq_ok_iff]
  refine ⟨rfl, by omega, hash, ?_⟩
  rw [time, parentTime]
  exact le_refl 0

/-! ### dpos -/

def dposEngine (crypto : Crypto) : Dpos.Headers.Engine := ⟨crypto, 0, noForks, 0⟩

/-- Whoever can sign can sign a dpos header of any number and parent. -/
theorem exists_dpos_signed (able : CanSign crypto a) (hash : Hash) (n : Nat) :
    ∃ h : Header, h.number = n ∧ h.parentHash = hash ∧ h.time = 0 ∧
      ∀ chain parents, Dpos.Headers.verifyHeader (dposEngine crypto) chain h parents =
        Dpos.Headers.verifyCascadingFields (dposEngine crypto) chain h parents := by
  let draft := cliqueDraft crypto hash n 0 a vanity
  obtain ⟨data, signs⟩ : ∃ data, Dpos.Headers.sigHash (dposEngine crypto) draft =
      crypto.keccak256 data := ⟨_, rfl⟩
  obtain ⟨sig, sized, recovered⟩ := able data
  let h : Header := { draft with signature := ⟨sig, sized⟩ }
  have signed : Dpos.Headers.ecrecover (dposEngine crypto) h = .ok a := by
    have same : Dpos.Headers.sigHash (dposEngine crypto) h = crypto.keccak256 data := signs
    rw [Dpos.Headers.ecrecover, same]
    exact recoverSigner_eq_ok recovered
  have fields : Dpos.Headers.verifyFields (dposEngine crypto) h = .ok () := by
    simp [Dpos.Headers.verifyFields, h, draft, cliqueDraft, dposEngine, vanity, extraVanity]
  have own : h.coinbase = a := rfl
  refine ⟨h, rfl, rfl, rfl, fun chain parents => ?_⟩
  simp only [Dpos.Headers.verifyHeader, bind, Except.bind, fields, signed, own, ne_eq,
    not_true_eq_false, if_false]
  rw [show (dposEngine crypto).forks = noForks from rfl, verifyForkHashes_noForks]

/-! ### poa -/

/-- No block of number `n` is a checkpoint, except where `n` is taken for zero. -/
def poaEngine (crypto : Crypto) (n : Nat) : Poa.Snapshots.Engine where
  crypto := crypto
  epoch := n % 2 ^ 64 + 1
  epoch_pos := Nat.succ_pos _
  period := 0
  forks := noForks
  now := 0

def poaDraft (crypto : Crypto) (hash : Hash) (n : Nat) (sig : Bytes) : Header :=
  cliqueDraft crypto hash n 1005 zeroAddress (vanity ++ sig)

theorem length_vanity : vanity.length = 32 := List.length_replicate

theorem sigHash_poaDraft (e : Poa.Snapshots.Engine) (hash : Hash) {sig : Bytes}
    (sized : sig.length = extraSeal) :
    Poa.Snapshots.sigHash e (poaDraft crypto hash n sig) =
      Poa.Snapshots.sigHash e (poaDraft crypto hash n (List.replicate extraSeal 0)) := by
  have unsealed (last : Bytes) (fits : last.length = extraSeal) :
      (vanity ++ last).take ((vanity ++ last).length - extraSeal) = vanity := by
    apply List.take_left'
    rw [List.length_append, fits, Nat.add_sub_cancel]
  rw [Poa.Snapshots.sigHash, Poa.Snapshots.sigHash]
  simp only [poaDraft, cliqueDraft, unsealed sig sized, unsealed _ List.length_replicate]

/-- Whoever can sign can seal a poa header of any number and parent. -/
theorem exists_poa_sealed (able : CanSign crypto a) (hash : Hash) (n : Nat) :
    ∃ h : Header, h.number = n ∧ h.parentHash = hash ∧ h.time = 0 ∧ h.difficulty = 1005 ∧
      Poa.Headers.verifyFields (poaEngine crypto n) h = .ok () ∧
      Poa.Snapshots.ecrecover (poaEngine crypto n) h = .ok a := by
  obtain ⟨data, signs⟩ : ∃ data, Poa.Snapshots.sigHash (poaEngine crypto n)
      (poaDraft crypto hash n (List.replicate extraSeal 0)) = crypto.keccak256 data := ⟨_, rfl⟩
  obtain ⟨sig, sized, recovered⟩ := able data
  have length : (vanity ++ sig).length = 97 := by
    rw [List.length_append, length_vanity, sized]
    rfl
  refine ⟨poaDraft crypto hash n sig, rfl, rfl, rfl, rfl, ?_, ?_⟩
  · simp [Poa.Headers.verifyFields, poaDraft, cliqueDraft, poaEngine, length, extraVanity,
      extraSeal]
  · have tail : (vanity ++ sig).drop ((vanity ++ sig).length - extraSeal) = sig := by
      rw [length]
      exact List.drop_left' length_vanity
    have extra : (poaDraft crypto hash n sig).extra = vanity ++ sig := rfl
    have long : ¬ (vanity ++ sig).length < extraSeal := by
      rw [length]
      decide
    rw [Poa.Snapshots.ecrecover, extra, if_neg long, tail, sigHash_poaDraft _ _ sized, signs]
    exact recoverSigner_eq_ok recovered

def singleSigner (a : Address) (hash : Hash) (number : Nat) : Poa.Snapshots.Snapshot :=
  Poa.Snapshots.newSnapshot number hash [a]

theorem size_singleSigner (a : Address) (hash : Hash) (number : Nat) :
    (singleSigner a hash number).signers.size = 1 := by
  simp [singleSigner, Poa.Snapshots.newSnapshot, ExtTreeMap.size_insert]

theorem sortedSigners_singleSigner (a : Address) (hash : Hash) (number : Nat) :
    (singleSigner a hash number).sortedSigners = [a] := by
  have size : (singleSigner a hash number).signers.keys.length = 1 := by
    rw [ExtTreeMap.length_keys, size_singleSigner]
  obtain ⟨only, keys⟩ := List.length_eq_one_iff.mp size
  have member : a ∈ (singleSigner a hash number).signers.keys := by
    rw [ExtTreeMap.mem_keys]
    simp [singleSigner, Poa.Snapshots.newSnapshot]
  rw [keys, List.mem_singleton] at member
  subst member
  rw [Poa.Snapshots.Snapshot.sortedSigners, keys]
  rfl

theorem calcDifficulty_singleSigner (a : Address) (hash : Hash) (number : Nat)
    (parent : Option Header) :
    Poa.Headers.calcDifficulty (singleSigner a hash number) a parent = 1005 := by
  rw [Poa.Headers.calcDifficulty, Poa.Snapshots.Snapshot.signerIndex, sortedSigners_singleSigner,
    size_singleSigner]
  simp [Nat.mod_one, Poa.Headers.diffMax]

theorem authorizedSigner_singleSigner {e : Poa.Snapshots.Engine} {h : Header} (hash : Hash)
    (number : Nat) (signed : Poa.Snapshots.ecrecover e h = .ok a) :
    Poa.Headers.authorizedSigner e (singleSigner a hash number) h = .ok a := by
  have member : a ∈ (singleSigner a hash number).signers := by
    simp [singleSigner, Poa.Snapshots.newSnapshot]
  have fresh : Poa.Headers.signedRecently (singleSigner a hash number) (num h) a = false := by
    simp [Poa.Headers.signedRecently, singleSigner, Poa.Snapshots.newSnapshot]
  rw [Poa.Headers.authorizedSigner, signed]
  simp [member, fresh]

/-! ### dbft -/

def dbftEngine (crypto : Crypto) : Dbft.Headers.Engine where
  crypto := crypto
  rootOf := fun _ _ => FixedBytes.zero 32
  epoch := 1
  epoch_pos := Nat.one_pos
  blockPeriod := 0
  proposerPolicy := .roundRobin
  now := 0

def singleValidator (a : Address) : ValidatorSet := ⟨[a], .roundRobin, some a⟩

def dbftNode (crypto : Crypto) (a : Address) (hash : Hash) (number : Nat) : Dbft.Headers.Node where
  genesis := draftListing crypto (FixedBytes.zero 32) 0 0 []
  blocks := []
  db := fun _ => ∅
  recents := (∅ : ExtTreeMap Hash Dbft.Headers.Snapshot).insert hash
    ⟨number, hash, singleValidator a⟩
  disk := ∅

theorem exists_dbft_child (able : CanSign crypto a) {parent : Header} (time : parent.time = 0)
    (next : n % 2 ^ 64 = num parent + 1) :
    ∃ h : Header, h.number = n ∧ (Dbft.Headers.verifyHeader (dbftEngine crypto)
      (dbftNode crypto a (parent.hash crypto) (num parent)) h [parent]).2 = .ok () := by
  let hash := parent.hash crypto
  let node := dbftNode crypto a hash (num parent)
  have distinct : (singleValidator a).validators.Nodup := List.nodup_singleton a
  have small : (singleValidator a).size < 2 ^ 53 := by
    change 1 < 2 ^ 53
    norm_num
  have signs : ∀ b ∈ (singleValidator a).validators, CanSign (dbftEngine crypto).crypto b := by
    intro b member
    cases List.mem_singleton.mp member
    exact able
  have few : ([] : List Address).length ≤ 1 := Nat.zero_le 1
  obtain ⟨h, extra, signer, rest, extracted, _, signed, member, seals⟩ := exists_sealed distinct
    (List.cons_ne_nil a []) small signs few (extractBFTExtra_draftListing crypto few)
    (rfl : (draftListing crypto hash n 0 []).mixDigest = bftDigest)
  have fields : h.parentHash = hash ∧ h.number = n ∧ h.time = 0 := by
    rw [rest]
    exact ⟨rfl, rfl, rfl⟩
  obtain ⟨own, number, timed⟩ := fields
  have held : node.recents[h.parentHash]? = some ⟨num parent, hash, singleValidator a⟩ := by
    rw [own]
    exact ExtTreeMap.getElem?_insert_self
  have found : (Dbft.Headers.snapshot (dbftEngine crypto) node (num parent) h.parentHash
      [parent]).2 = .ok ⟨num parent, hash, singleValidator a⟩ :=
    snapshot_of_gather (congrArg Prod.snd (gather_of_recent held))
  have standalone : Dbft.Headers.verifyStandalone (dbftEngine crypto) h = .ok () :=
    verifyStandalone_draftListing (le_refl 0) rest extracted
  refine ⟨h, number, ?_⟩
  refine (accepted_iff_sealed (by rw [num, number, next])).mpr ⟨standalone, parent, _, signer, rfl,
    rfl, own.symm, ?_, found, signed, member, seals⟩
  rw [timed, earliest, time]
  exact le_refl 0

/-! ### All three -/

/-- Any number whose low 64 bits follow those of the parent's is accepted. -/
theorem exists_child (kind : EngineKind) (able : CanSign crypto a)
    (next : n % 2 ^ 64 = m % 2 ^ 64 + 1) :
    ∃ (v : Verifier) (h parent : Header), v.kind = kind ∧ v.crypto = crypto ∧ h.number = n ∧
      parent.number = m ∧ v.Accepts h [parent] := by
  cases kind with
  | dbft =>
    let parent := draftListing crypto (FixedBytes.zero 32) m 0 []
    obtain ⟨h, number, accepted⟩ := exists_dbft_child able (rfl : parent.time = 0) next
    exact ⟨.dbft _ _, h, parent, rfl, rfl, number, rfl, accepted⟩
  | dpos =>
    let parent := cliqueDraft crypto (FixedBytes.zero 32) m 0 a vanity
    obtain ⟨h, number, own, time, accepted⟩ :=
      exists_dpos_signed able (parent.hash crypto) n
    have above : num parent + 1 = num h := by
      rw [num, num, number]
      exact next.symm
    refine ⟨.dpos (dposEngine crypto) (genesisChain crypto), h, parent, rfl, rfl, number, rfl, ?_⟩
    change Dpos.Headers.verifyHeader _ _ _ _ = .ok ()
    rw [accepted, Dpos.Headers.verifyCascadingFields, if_neg (by omega)]
    rw [show (dposEngine crypto).crypto = crypto from rfl,
      show (dposEngine crypto).period = 0 from rfl, checkParent_draft time rfl above own.symm]
  | poa =>
    let parent := poaDraft crypto (FixedBytes.zero 32) m []
    let snap := singleSigner a (parent.hash crypto) (m % 2 ^ 64)
    obtain ⟨h, number, own, time, difficulty, fields, signed⟩ :=
      exists_poa_sealed able (parent.hash crypto) n
    have above : num parent + 1 = num h := by
      rw [num, num, number]
      exact next.symm
    let node : Poa.Headers.Node := ⟨genesisChain crypto,
      (∅ : ExtTreeMap Hash Poa.Snapshots.Snapshot).insert (parent.hash crypto) snap, ∅⟩
    have plain : num h % (poaEngine crypto n).epoch ≠ 0 := by
      rw [num, number]
      change n % 2 ^ 64 % (n % 2 ^ 64 + 1) ≠ 0
      rw [Nat.mod_eq_of_lt (Nat.lt_succ_self _), next]
      exact Nat.succ_ne_zero _
    have held : node.recents[h.parentHash]? = some snap := by
      rw [own]
      exact ExtTreeMap.getElem?_insert_self
    refine ⟨.poa (poaEngine crypto n) node, h, parent, rfl, rfl, number, rfl, ?_⟩
    exact Poa.Headers.accepted_of_recent fields (by omega) held
      (authorizedSigner_singleSigner _ _ signed)
      ((calcDifficulty_singleSigner _ _ _ _).trans difficulty.symm)
      (by rw [difficulty]; norm_num) (verifyForkHashes_noForks _ _)
      (checkParent_draft time rfl above own.symm) plain

/-- A number whose low 64 bits are zero is accepted without a parent. -/
theorem exists_orphan (kind : EngineKind) (able : CanSign crypto a) (wraps : n % 2 ^ 64 = 0) :
    ∃ (v : Verifier) (h : Header), v.kind = kind ∧ v.crypto = crypto ∧ h.number = n ∧
      v.parentOf h [] = none ∧ v.Accepts h [] := by
  cases kind with
  | dbft =>
    let node := dbftNode crypto a (FixedBytes.zero 32) 0
    obtain ⟨hash, other⟩ := exists_unknown crypto node.genesis
    refine ⟨.dbft (dbftEngine crypto) node, draftListing crypto hash n 0 [], rfl, rfl, rfl, ?_, ?_⟩
    · have differs : (draftListing crypto (FixedBytes.zero 32) 0 0 []).hash crypto ≠ hash := other
      change Dbft.Headers.getHeader (dbftEngine crypto) (dbftNode crypto a _ 0) hash _ = none
      simp [Dbft.Headers.getHeader, Dbft.Headers.Node.headers, dbftNode, dbftEngine, differs]
    · exact accepted_of_wraps (dbftEngine crypto) node [] hash wraps (Nat.zero_le 1)
  | dpos =>
    obtain ⟨hash, other⟩ := exists_unknown crypto (genesisDraft crypto)
    obtain ⟨h, number, own, time, accepted⟩ := exists_dpos_signed able hash n
    have zero : num h = 0 := by rw [num, number, wraps]
    refine ⟨.dpos (dposEngine crypto) (genesisChain crypto), h, rfl, rfl, number, ?_, ?_⟩
    · change getHeader crypto (genesisChain crypto) h.parentHash _ = none
      rw [own]
      exact getHeader_genesisChain other _
    · change Dpos.Headers.verifyHeader _ _ _ _ = .ok ()
      rw [accepted, Dpos.Headers.verifyCascadingFields, if_pos zero]
  | poa =>
    obtain ⟨hash, other⟩ := exists_unknown crypto (genesisDraft crypto)
    obtain ⟨h, number, own, time, difficulty, fields, signed⟩ := exists_poa_sealed able hash n
    have zero : num h = 0 := by rw [num, number, wraps]
    refine ⟨.poa (poaEngine crypto n) ⟨genesisChain crypto, ∅, ∅⟩, h, rfl, rfl, number, ?_, ?_⟩
    · change getHeader crypto (genesisChain crypto) h.parentHash _ = none
      rw [own]
      exact getHeader_genesisChain other _
    · change (Poa.Headers.verifyHeader _ _ _ _).2 = .ok ()
      rw [Poa.Headers.verifyHeader, fields]
      rw [Poa.Headers.verifyTurn, if_pos zero]
      dsimp only
      rw [show (poaEngine crypto n).forks = noForks from rfl, verifyForkHashes_noForks]
      rw [Poa.Headers.verifyCascadingFields, if_pos zero]

end

/-! ## The height rule -/

/-- The header is a genesis block, or its parent has been found one block below. -/
def HeightOk (v : Verifier) (h : Header) (parents : List Header) : Prop :=
  h.number = 0 ∨ ∃ parent, v.parentOf h parents = some parent ∧
    parent.hash v.crypto = h.parentHash ∧ h.number = parent.number + 1

/-- The engine keeps the height rule for headers of number `n` wherever the
parent that it finds, if any, has number `m`. -/
def EnforcesHeight (kind : EngineKind) (crypto : Crypto) (n m : Nat) : Prop :=
  ∀ (v : Verifier) (h : Header) (parents : List Header), v.kind = kind → v.crypto = crypto →
    h.number = n → (∀ parent, v.parentOf h parents = some parent → parent.number = m) →
    v.Accepts h parents → HeightOk v h parents

/-- The rule is kept for exactly those numbers that are zero, or do not wrap
around to zero and whose high part is that of the parent's number wherever the
low parts follow each other. -/
theorem height_enforced_iff (kind : EngineKind) {crypto : Crypto} {a : Address}
    (able : CanSign crypto a) (n m : Nat) :
    EnforcesHeight kind crypto n m ↔
      n = 0 ∨ n % 2 ^ 64 ≠ 0 ∧
        (n % 2 ^ 64 = m % 2 ^ 64 + 1 → n / 2 ^ 64 = m / 2 ^ 64) := by
  constructor
  · intro enforced
    by_cases zero : n = 0
    · exact .inl zero
    refine .inr ⟨fun wraps => ?_, fun next => ?_⟩
    · obtain ⟨v, h, own, same, number, orphan, accepted⟩ := exists_orphan kind able wraps
      rcases enforced v h [] own same number (by simp [orphan]) accepted with
        genesis | ⟨_, found, _⟩
      · exact zero (number.symm.trans genesis)
      · rw [orphan] at found
        cases found
    · obtain ⟨v, h, parent, own, same, number, below, accepted⟩ := exists_child kind able next
      have lookup : v.parentOf h [parent] = some parent := by cases v <;> rfl
      have only : ∀ other, v.parentOf h [parent] = some other → other.number = m := by
        intro other found
        cases lookup.symm.trans found
        exact below
      rcases enforced v h [parent] own same number only accepted with
        genesis | ⟨_, found, _, above⟩
      · exact absurd (number.symm.trans genesis) zero
      · rw [number, only _ found] at above
        omega
  · intro condition v h parents _ _ number only accepted
    subst number
    rcases condition with zero | ⟨later, high⟩
    · exact .inl zero
    obtain ⟨parent, found, hash, low⟩ := accepted.findsParent later
    refine .inr ⟨parent, found, hash, ?_⟩
    have below := only parent found
    rw [num, num, below] at low
    rw [below]
    omega

theorem height_enforced_plainCrypto :
    EnforcesHeight .poa plainCrypto 1 0 ∧ ¬ EnforcesHeight .poa plainCrypto (2 ^ 64 + 1) 0 := by
  have able := canSign_plainCrypto zeroAddress
  constructor
  · rw [height_enforced_iff .poa able]
    norm_num
  · rw [height_enforced_iff .poa able]
    norm_num

/-! ### A block that skips `2 ^ 64` heights -/

def soleSigner : Address := bytesToAddress [1]

def plainGenesis : Header := genesisDraft plainCrypto

def dposSkip : Header :=
  { cliqueDraft plainCrypto (plainGenesis.hash plainCrypto) (2 ^ 64 + 1) 0 soleSigner vanity with
    signature := FixedBytes.setBytes 65 (plainSig soleSigner) }

def poaSkip : Header :=
  poaDraft plainCrypto (plainGenesis.hash plainCrypto) (2 ^ 64 + 1) (plainSig soleSigner)

def poaSkipNode : Poa.Headers.Node :=
  ⟨genesisChain plainCrypto, (∅ : ExtTreeMap Hash Poa.Snapshots.Snapshot).insert
    (plainGenesis.hash plainCrypto) (singleSigner soleSigner (plainGenesis.hash plainCrypto) 0), ∅⟩

def dbftGenesis : Header := draftListing plainCrypto (FixedBytes.zero 32) 0 0 []

def dbftSkip : Header :=
  { draftListing plainCrypto (dbftGenesis.hash plainCrypto) (2 ^ 64 + 1) 0 [] with
    extra := vanity ++ encode (BFTExtra.encodeRLP
      ⟨[], plainSig soleSigner, [plainSig soleSigner]⟩) }

/-- Each engine finds genesis as the parent of block `2 ^ 64 + 1` and accepts. -/
theorem skipped_heights_accepted :
    Dpos.Headers.verifyHeader (dposEngine plainCrypto) (genesisChain plainCrypto) dposSkip [] =
        .ok () ∧
      (Poa.Headers.verifyHeader (poaEngine plainCrypto 1) poaSkipNode poaSkip []).2 = .ok () ∧
      (Dbft.Headers.verifyHeader (dbftEngine plainCrypto)
        (dbftNode plainCrypto soleSigner (dbftGenesis.hash plainCrypto) 0) dbftSkip []).2 =
          .ok () ∧
      [dposSkip, poaSkip, dbftSkip].map Header.number = List.replicate 3 (2 ^ 64 + 1) ∧
      [plainGenesis, dbftGenesis].map Header.number = [0, 0] ∧
      dposSkip.parentHash = plainGenesis.hash plainCrypto ∧
      poaSkip.parentHash = plainGenesis.hash plainCrypto ∧
      dbftSkip.parentHash = dbftGenesis.hash plainCrypto := by
  decide +kernel

end Linkeye.Consensus.Heights
