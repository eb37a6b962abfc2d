import Linkeye.Dbft.Availability
import Linkeye.Dbft.Recall
import Linkeye.Dbft.SealMemory
import Linkeye.Dbft.Sealing

/-!
# The validator list of a header

`verifyCascadingFields` packs the validators of the parent's snapshot into a byte
string and then compares it with nothing.  Wherever the validators can extend
the chain at all, they can do so with any list in the extra field.
-/

set_option autoImplicit false

namespace Linkeye.Dbft.ValidatorList

open Common.Types Common.Signature Core.Blocks Core.Dpos Availability Headers Recall SealMemory
open Sealing Seals Dbft.Types Validator Rlp.Encode Rlp.Decode

section
variable (e : Engine) (node : Node) (parents : List Header) (hash : Hash) (number : Nat)

/-- Every header that is accepted on top of the block `hash` of `number` lists the
validators of its snapshot. -/
def ListEnforced : Prop :=
  ∀ h, 1 ≤ h.number → h.parentHash = hash → num h = (number + 1) % 2 ^ 64 →
    (verifyHeader e node h parents).2 = .ok () →
    ∀ snap, (snapshot e node number hash parents).2 = .ok snap →
      ∃ extra, extractBFTExtra h = some extra ∧ extra.validators = snap.validators

def parentFor : Option Header :=
  match parents with
  | parent :: _ => some parent
  | [] => getHeader e node hash number

def earliest (parent : Header) : Nat := (parent.time % 2 ^ 64 + e.blockPeriod) % 2 ^ 64

/-- The block has a snapshot with validators, is known itself and is old enough;
or its number is the last one, whose successor passes for a genesis block. -/
def Extendable : Prop :=
  ∃ snap, (snapshot e node number hash parents).2 = .ok snap ∧
    (number + 1 = 2 ^ 64 ∨ snap.valSet.validators ≠ [] ∧
      ∃ parent, parentFor e node parents hash number = some parent ∧ num parent = number ∧
        parent.hash e.crypto = hash ∧ earliest e parent ≤ e.now)

def CanSign (crypto : Crypto) (a : Address) : Prop :=
  ∀ data, ∃ sig : Bytes, sig.length = bftExtraSeal ∧ getSignatureAddress crypto data sig = some a

end

/-! ## Accepted headers have a parent -/

section
variable {e : Engine} {node : Node} {parents : List Header} {hash : Hash} {number : Nat}

theorem verifyStandalone_time {h : Header} (passed : verifyStandalone e h = .ok ()) :
    h.time ≤ e.now := by
  rw [verifyStandalone] at passed
  split at passed
  · cases passed
  · rename_i time
    exact not_lt.mp time

theorem parentOf_eq {h : Header} (below : num h - 1 = number) :
    parentOf e node h parents = parentFor e node parents h.parentHash number := by
  subst below
  cases parents with
  | nil => rfl
  | cons parent rest => rfl

/-- The three lookups of one verification give one snapshot: the signer and the seals are
checked against the snapshot found first. -/
theorem checked_against_snapshot {h : Header} {node₁ : Node} {snap : Snapshot} (later : num h ≠ 0)
    (first : snapshot e node (num h - 1) h.parentHash parents = (node₁, .ok snap)) :
    (match verifySigner e node₁ h parents with
      | (node, .error err) => (node, Except.error err)
      | (node, .ok _) => verifySealsOfParent e node h parents).2 = .ok () ↔
      ∃ signer, ecrecover e h = .ok signer ∧ signer ∈ snap.valSet.validators ∧
        verifyCommittedSeals e.crypto snap.valSet h = none := by
  have again := snapshot_again first
  cases second : snapshot e node₁ (num h - 1) h.parentHash parents with
  | mk node₂ outcome =>
    rw [second] at again
    cases again
    have third := snapshot_again second
    simp only [verifySigner, if_neg later, second, ← ValidatorSet.getByAddress_isSome_iff]
    cases ecrecover e h with
    | error err => simp
    | ok signer =>
      by_cases member : (snap.valSet.getByAddress signer).isSome = true
      · simp only [if_pos member, verifySealsOfParent, if_neg later]
        generalize snapshot e node₂ (num h - 1) h.parentHash parents = result at third
        obtain ⟨node₃, outcome⟩ := result
        cases third
        cases seals : verifyCommittedSeals e.crypto snap.valSet h <;> simp [seals, member]
      · simp [member]

/-- A header is accepted if its parent is known and it passes the checks against the
snapshot of that parent. -/
theorem accepted_iff_sealed {h : Header} (next : num h = number + 1) :
    (verifyHeader e node h parents).2 = .ok () ↔
      verifyStandalone e h = .ok () ∧ ∃ parent snap signer,
        parentFor e node parents h.parentHash number = some parent ∧ num parent = number ∧
        parent.hash e.crypto = h.parentHash ∧ earliest e parent ≤ h.time % 2 ^ 64 ∧
        (snapshot e node number h.parentHash parents).2 = .ok snap ∧
        ecrecover e h = .ok signer ∧ signer ∈ snap.valSet.validators ∧
        verifyCommittedSeals e.crypto snap.valSet h = none := by
  have later : num h ≠ 0 := by omega
  have below : number = num h - 1 := by omega
  subst below
  rw [verifyHeader]
  cases verifyStandalone e h with
  | error err => simp
  | ok _ =>
    simp only [verifyCascadingFields, if_neg later, parentOf_eq rfl]
    cases parentFor e node parents h.parentHash (num h - 1) with
    | none => simp
    | some parent =>
      dsimp only
      rw [← earliest]
      generalize h.time % 2 ^ 64 = time
      by_cases known : num parent = num h - 1 ∧ parent.hash e.crypto = h.parentHash
      · by_cases early : time < earliest e parent
        · simp [known, early, not_le.mpr early]
        · cases first : snapshot e node (num h - 1) h.parentHash parents with
          | mk node₁ outcome =>
            cases outcome with
            | error err => simp [known, early]
            | ok snap =>
              rw [if_neg (by simp [known]), if_neg early]
              refine (checked_against_snapshot later first).trans ?_
              simp [known, not_lt.mp early]
      · rw [if_pos (by rwa [← not_and_or])]
        simpa using fun numbered hashed => absurd ⟨numbered, hashed⟩ known

theorem extendable_of_accepted {h : Header} (fits : number < 2 ^ 64) (own : h.parentHash = hash)
    (next : num h = (number + 1) % 2 ^ 64) (accepted : (verifyHeader e node h parents).2 = .ok ())
    {snap : Snapshot} (found : (snapshot e node number hash parents).2 = .ok snap) :
    Extendable e node parents hash number := by
  refine ⟨snap, found, ?_⟩
  by_cases last : number + 1 = 2 ^ 64
  · exact .inl last
  right
  rw [Nat.mod_eq_of_lt (by omega)] at next
  subst own
  obtain ⟨standalone, parent, other, signer, known, numbered, hashed, time, looked, _, member, _⟩ :=
    (accepted_iff_sealed next).mp accepted
  rw [found] at looked
  cases looked
  have past := verifyStandalone_time standalone
  exact ⟨List.ne_nil_of_mem member, parent, known, numbered, hashed, by omega⟩

end

/-! ## Any list will do -/

theorem puthead_length_le (smalltag largetag : UInt8) {size : Nat} (short : size < 256 ^ 8) :
    (puthead smalltag largetag size).length ≤ 9 := by
  have sizeBytes := bigBytes_length_le short
  rw [puthead]
  split
  · simp
  · simp only [List.length_cons, putint]
    omega

theorem encode_bytes_length_le {b : Bytes} (short : b.length < 256 ^ 8) :
    (encode (.bytes b)).length ≤ b.length + 9 := by
  have head := puthead_length_le 0x80 0xB7 short
  match b with
  | [] =>
    simp only [encode, encodeString, encodeStringHeader, List.length_append]
    omega
  | [single] =>
    simp only [encode, encodeString]
    split
    · simp
    · simp only [encodeStringHeader, List.length_append, List.length_singleton] at head ⊢
      omega
  | first :: second :: rest =>
    simp only [encode, encodeString, encodeStringHeader, List.length_append]
    omega

theorem encodeItems_seals_length_le {seals : List Bytes}
    (sized : ∀ s ∈ seals, s.length = bftExtraSeal) :
    (encodeItems (seals.map .bytes)).length ≤ 74 * seals.length := by
  induction seals with
  | nil => simp [encodeItems]
  | cons first rest ih =>
    have own := sized first List.mem_cons_self
    have later := ih fun s member => sized s (List.mem_cons_of_mem _ member)
    have head : (encode (.bytes first)).length ≤ first.length + 9 :=
      encode_bytes_length_le (by rw [own, bftExtraSeal]; norm_num)
    rw [own, bftExtraSeal] at head
    rw [List.map_cons, encodeItems, List.length_append, List.length_cons]
    omega

theorem encode_extra_short {extra : BFTExtra} (few : extra.validators.length ≤ 1)
    (own : extra.proposerSeal.length ≤ bftExtraSeal)
    (sized : ∀ s ∈ extra.committedSeal, s.length = bftExtraSeal)
    (many : extra.committedSeal.length < 2 ^ 53) : (encode extra.encodeRLP).length < maxInt := by
  have list := encodeItems_addresses_length extra.validators
  have seals := encodeItems_seals_length_le sized
  have ownSeal : (encode (.bytes extra.proposerSeal)).length ≤ extra.proposerSeal.length + 9 :=
    encode_bytes_length_le (lt_of_le_of_lt own (by rw [bftExtraSeal]; norm_num))
  rw [bftExtraSeal] at own
  have listHead : (puthead 0xC0 0xF7
      (encodeItems (extra.validators.map writeByteArray)).length).length ≤ 9 :=
    puthead_length_le _ _ (by omega)
  have sealsHead : (puthead 0xC0 0xF7
      (encodeItems (extra.committedSeal.map .bytes)).length).length ≤ 9 :=
    puthead_length_le _ _ (by omega)
  rw [BFTExtra.encodeRLP, encode]
  generalize inner : encodeItems [.list (extra.validators.map writeByteArray),
    .bytes extra.proposerSeal, .list (extra.committedSeal.map .bytes)] = items
  have length : items.length ≤ 9 + 21 + (65 + 9) + (9 + 74 * 2 ^ 53) := by
    rw [← inner]
    simp only [encodeItems, List.length_append, List.length_nil, encode] at ownSeal ⊢
    omega
  have head := puthead_length_le 0xC0 0xF7 (lt_of_le_of_lt length (by norm_num))
  rw [List.length_append, maxInt]
  omega

section
variable {e : Engine} {h : Header} {extra : BFTExtra}

theorem writeExtra_of_short {next : BFTExtra} (extracted : extractBFTExtra h = some extra)
    (short : (encode next.encodeRLP).length < maxInt) :
    ∃ written, writeExtra h next = some written ∧ extractBFTExtra written = some next ∧
      written = { h with extra := written.extra } := by
  obtain ⟨written, run⟩ : ∃ written, writeExtra h next = some written := by
    rw [writeExtra, encodeToBytes, if_pos short, Option.map_some]
    exact ⟨_, rfl⟩
  obtain ⟨readBack, rest, _⟩ := extractBFTExtra_writeExtra (extractBFTExtra_long extracted) run
  exact ⟨written, run, readBack, rest⟩

theorem writeSeal_of_short {proposerSeal : Bytes} (extracted : extractBFTExtra h = some extra)
    (sized : proposerSeal.length = bftExtraSeal)
    (short : (encode (BFTExtra.encodeRLP { extra with proposerSeal := proposerSeal })).length <
      maxInt) :
    ∃ written, writeSeal h proposerSeal = .ok written ∧
      extractBFTExtra written = some { extra with proposerSeal := proposerSeal } ∧
      written = { h with extra := written.extra } := by
  obtain ⟨written, run, kept⟩ := writeExtra_of_short extracted short
  refine ⟨written, ?_, kept⟩
  have whole : ¬ proposerSeal.length % bftExtraSeal ≠ 0 := by
    rw [sized]
    decide
  rw [writeSeal, if_neg whole, extracted]
  simp only [run]

theorem writeCommittedSeals_of_short {seals : List Bytes}
    (extracted : extractBFTExtra h = some extra) (nonempty : seals ≠ [])
    (sized : ∀ s ∈ seals, s.length = bftExtraSeal)
    (short : (encode (BFTExtra.encodeRLP { extra with committedSeal := seals })).length < maxInt) :
    ∃ written, writeCommittedSeals h seals = .ok written ∧
      extractBFTExtra written = some { extra with committedSeal := seals } ∧
      written = { h with extra := written.extra } := by
  obtain ⟨written, run, kept⟩ := writeExtra_of_short extracted short
  refine ⟨written, ?_, kept⟩
  have noneOdd : ¬ (seals.any fun s => decide (s.length ≠ bftExtraSeal)) = true := by
    rw [List.any_eq_true]
    rintro ⟨s, member, odd⟩
    exact of_decide_eq_true odd (sized s member)
  rw [writeCommittedSeals, if_neg nonempty, if_neg noneOdd, extracted]
  simp only [run]

theorem exists_seals {crypto : Crypto} (data : Bytes) (signers : List Address)
    (able : ∀ a ∈ signers, CanSign crypto a) :
    ∃ seals : List Bytes, seals.map (getSignatureAddress crypto data) = signers.map some ∧
      ∀ s ∈ seals, s.length = bftExtraSeal := by
  induction signers with
  | nil => exact ⟨[], rfl, by simp⟩
  | cons first rest ih =>
    obtain ⟨sig, sized, recovered⟩ := able first List.mem_cons_self data
    obtain ⟨seals, others, otherSizes⟩ :=
      ih fun a member => able a (List.mem_cons_of_mem _ member)
    refine ⟨sig :: seals, ?_, ?_⟩
    · rw [List.map_cons, List.map_cons, recovered, others]
    · exact List.forall_mem_cons.mpr ⟨sized, otherSizes⟩

theorem exceedsTwoF_all {valSet : ValidatorSet} (nonempty : valSet.validators ≠ []) :
    valSet.exceedsTwoF valSet.validators.length = true := by
  have positive := List.length_pos_iff.mpr nonempty
  rw [ValidatorSet.exceedsTwoF_iff, ValidatorSet.f, ValidatorSet.size]
  omega

/-- The validators sign and seal a draft, whatever it lists. -/
theorem exists_sealed {valSet : ValidatorSet} (distinct : valSet.validators.Nodup)
    (nonempty : valSet.validators ≠ []) (small : valSet.size < 2 ^ 53)
    (able : ∀ a ∈ valSet.validators, CanSign e.crypto a) {list : List Address}
    (few : list.length ≤ 1) (extracted : extractBFTExtra h = some ⟨list, [], []⟩)
    (digest : h.mixDigest = bftDigest) :
    ∃ (written : Header) (sealedExtra : BFTExtra) (signer : Address),
      written = { h with extra := written.extra } ∧
      extractBFTExtra written = some sealedExtra ∧ sealedExtra.validators = list ∧
      ecrecover e written = .ok signer ∧ signer ∈ valSet.validators ∧
      verifyCommittedSeals e.crypto valSet written = none := by
  obtain ⟨signer, member⟩ := List.exists_mem_of_ne_nil _ nonempty
  obtain ⟨sig, sized, recovered⟩ := able signer member (sigHash e.crypto h).data
  have shortSigned : (encode (BFTExtra.encodeRLP ⟨list, sig, []⟩)).length < maxInt :=
    encode_extra_short few (le_of_eq sized) (by simp) (by norm_num)
  obtain ⟨signed, signRun, signedExtra, signedRest⟩ :=
    writeSeal_of_short extracted sized shortSigned
  obtain ⟨seals, recovers, sizes⟩ := exists_seals
    (prepareCommittedSeal (signed.hash e.crypto)) valSet.validators able
  have count : seals.length = valSet.validators.length := by
    have lengths := congrArg List.length recovers
    rwa [List.length_map, List.length_map] at lengths
  have someSeals : seals ≠ [] := by
    rintro rfl
    exact nonempty (List.length_eq_zero_iff.mp count.symm)
  have shortSealed : (encode (BFTExtra.encodeRLP ⟨list, sig, seals⟩)).length < maxInt :=
    encode_extra_short few (le_of_eq sized) sizes (by rw [count]; exact small)
  obtain ⟨written, sealRun, writtenExtra, writtenRest⟩ :=
    writeCommittedSeals_of_short signedExtra someSeals sizes shortSealed
  have signedDigest : signed.mixDigest = bftDigest := by
    rw [signedRest]
    exact digest
  refine ⟨written, _, signer, ?_, writtenExtra, rfl, ?_, member, ?_⟩
  · rw [writtenRest, signedRest]
  · have kept : sigHash e.crypto signed = sigHash e.crypto h := sigHash_writeSeal signRun
    rw [← kept] at recovered
    rw [ecrecover_writeCommittedSeals e sealRun, ecrecover, signedExtra]
    rw [sigHash] at recovered
    simp only [recovered]
  · apply verifyCommittedSeals_written sealRun signedDigest someSeals recovers distinct
    · exact fun a listed => listed
    · rw [count]
      exact exceedsTwoF_all nonempty

end

/-! ## The result -/

def draftListing (crypto : Crypto) (hash : Hash) (number time : Nat) (list : List Address) :
    Header where
  parentHash := hash
  uncleHash := rlpHash crypto (.list [])
  signature := FixedBytes.zero 65
  coinbase := zeroAddress
  root := FixedBytes.zero 32
  txHash := FixedBytes.zero 32
  receiptHash := FixedBytes.zero 32
  dposContext := ⟨FixedBytes.zero 32, FixedBytes.zero 32, FixedBytes.zero 32, FixedBytes.zero 32,
    FixedBytes.zero 32⟩
  bloom := FixedBytes.zero 256
  difficulty := 1
  number := number
  gasLimit := 0
  gasUsed := 0
  time := time
  extra := List.replicate 32 0 ++ encode (BFTExtra.encodeRLP ⟨list, [], []⟩)
  mixDigest := bftDigest
  nonce := FixedBytes.zero 8

section
variable {e : Engine} {hash : Hash} {number time : Nat} {list : List Address}

theorem extractBFTExtra_draftListing (crypto : Crypto) (few : list.length ≤ 1) :
    extractBFTExtra (draftListing crypto hash number time list) = some ⟨list, [], []⟩ := by
  have short : (encode (BFTExtra.encodeRLP ⟨list, [], []⟩)).length < maxInt :=
    encode_extra_short few (Nat.zero_le _) (by simp) (by norm_num)
  have vanity : (List.replicate 32 (0 : UInt8)).length = bftExtraVanity := List.length_replicate
  rw [extractBFTExtra, draftListing, if_neg (by simp [bftExtraVanity]), List.drop_left' vanity,
    decodeBytes_encode short, Option.bind_some, decodeRLP_bftExtra]

/-- The checks that look at the header alone do not look at the list. -/
theorem verifyStandalone_draftListing {h : Header} {extra : BFTExtra} (old : time ≤ e.now)
    (rest : h = { draftListing e.crypto hash number time list with extra := h.extra })
    (extracted : extractBFTExtra h = some extra) : verifyStandalone e h = .ok () := by
  have fields : h.time = time ∧ h.mixDigest = bftDigest ∧
      h.uncleHash = rlpHash e.crypto (.list []) ∧ h.difficulty = 1 := by
    rw [rest]
    exact ⟨rfl, rfl, rfl, rfl⟩
  obtain ⟨timed, digest, uncles, difficulty⟩ := fields
  rw [verifyStandalone, timed, if_neg (not_lt.mpr old), extracted, if_neg (by simp), digest,
    if_neg (by simp), uncles, if_neg (by simp), difficulty, if_neg (by simp)]

def otherList (validators : List Address) : List Address :=
  if validators = [] then [zeroAddress] else []

theorem otherList_length_le (validators : List Address) : (otherList validators).length ≤ 1 := by
  rw [otherList]
  split
  · exact le_refl 1
  · exact Nat.zero_le 1

theorem otherList_ne (validators : List Address) : otherList validators ≠ validators := by
  rw [otherList]
  split
  · rename_i empty
    simp [empty]
  · rename_i nonempty
    exact Ne.symm nonempty

/-- A header that wraps around to zero is not checked beyond its own fields. -/
theorem accepted_of_wraps (e : Engine) (node : Node) (parents : List Header) (hash : Hash)
    (wraps : number % 2 ^ 64 = 0) (few : list.length ≤ 1) :
    (verifyHeader e node (draftListing e.crypto hash number 0 list) parents).2 = .ok () := by
  have rest : draftListing e.crypto hash number 0 list =
      { draftListing e.crypto hash number 0 list with
        extra := (draftListing e.crypto hash number 0 list).extra } := rfl
  have standalone := verifyStandalone_draftListing (Nat.zero_le e.now) rest
    (extractBFTExtra_draftListing e.crypto few)
  have zero : num (draftListing e.crypto hash number 0 list) = 0 := wraps
  rw [verifyHeader, standalone]
  rw [verifyCascadingFields, if_pos zero]

/-- The list is enforced on top of exactly those blocks that cannot be extended. -/
theorem list_enforced_iff (e : Engine) (node : Node) (parents : List Header) (hash : Hash)
    {number : Nat} (fits : number < 2 ^ 64) (sets : DistinctSets node)
    (able : ∀ snap, (snapshot e node number hash parents).2 = .ok snap →
      snap.valSet.size < 2 ^ 53 ∧ ∀ a ∈ snap.valSet.validators, CanSign e.crypto a) :
    ListEnforced e node parents hash number ↔ ¬ Extendable e node parents hash number := by
  constructor
  · rintro enforced ⟨snap, found, reason⟩
    have few := otherList_length_le snap.validators
    by_cases last : number + 1 = 2 ^ 64
    · obtain ⟨extra, extracted, same⟩ := enforced
        (draftListing e.crypto hash (2 ^ 64) 0 (otherList snap.validators)) (by simp [draftListing])
        rfl (by rw [last]; rfl) (accepted_of_wraps e node parents hash (Nat.mod_self _) few) snap
        found
      rw [extractBFTExtra_draftListing e.crypto few] at extracted
      cases extracted
      exact otherList_ne _ same
    · rcases reason with wraps | ⟨nonempty, parent, known, numbered, hashed, time⟩
      · exact last wraps
      obtain ⟨small, signs⟩ := able snap found
      obtain ⟨h, extra, signer, rest, extracted, listed, signed, member, seals⟩ := exists_sealed
        ((sets.snapshot number hash parents).2 snap found) nonempty small signs few
        (extractBFTExtra_draftListing e.crypto few)
        (rfl : (draftListing e.crypto hash (number + 1) (earliest e parent)
          (otherList snap.validators)).mixDigest = bftDigest)
      have fields : h.parentHash = hash ∧ h.number = number + 1 ∧ h.time = earliest e parent := by
        rw [rest]
        exact ⟨rfl, rfl, rfl⟩
      obtain ⟨own, numberedNext, timed⟩ := fields
      have next : num h = number + 1 := by
        rw [num, numberedNext]
        exact Nat.mod_eq_of_lt (by omega)
      have standalone := verifyStandalone_draftListing time rest extracted
      have due : earliest e parent ≤ h.time % 2 ^ 64 := by
        rw [timed, earliest, Nat.mod_mod]
      rw [← own] at known found hashed
      have accepted := (accepted_iff_sealed next).mpr ⟨standalone, parent, snap, signer, known,
        numbered, hashed, due, found, signed, member, seals⟩
      rw [own] at found
      obtain ⟨extra', extracted', same⟩ := enforced h (by omega) own
        (by rw [next]; exact (Nat.mod_eq_of_lt (by omega)).symm) accepted snap found
      cases extracted.symm.trans extracted'
      rw [listed] at same
      exact otherList_ne _ same
  · intro stuck h _ own next accepted snap found
    exact absurd (extendable_of_accepted fits own next accepted found) stuck

end

theorem canSign_plainCrypto (a : Address) : CanSign plainCrypto a := by
  intro data
  have sized : (plainSig a).length = 65 := by simp [plainSig, a.length_data]
  refine ⟨plainSig a, sized, ?_⟩
  have key : (plainSig a).take 64 = List.replicate 44 0 ++ a.data :=
    List.take_left' (by simp [a.length_data])
  have recovered : ((bytesToHash (List.replicate 44 0 ++ a.data)).data.drop 12) = a.data := by
    rw [bytesToHash, FixedBytes.setBytes]
    simp [a.length_data]
  rw [getSignatureAddress, plainCrypto]
  simp only [sized, if_true, Option.map_some, Option.some.injEq]
  rw [pubkeyToAddress, List.drop_one, List.tail_cons, key, recovered, bytesToAddress_data]

/-- The block that the eleven validators of `genesisNode` would put on top of it. -/
def genesisHash : Hash := genesisNode.genesis.hash plainCrypto

theorem list_enforced_genesisNode :
    Extendable twoBlockEpochs genesisNode [] genesisHash 0 ∧
      ¬ ListEnforced twoBlockEpochs genesisNode [] genesisHash 0 := by
  have size : ((snapshot twoBlockEpochs genesisNode 0 genesisHash []).2.toOption.map fun snap =>
      snap.valSet.validators.length) = some 11 := by
    decide +kernel
  have parent : (parentFor twoBlockEpochs genesisNode [] genesisHash 0).any (fun parent =>
      decide (num parent = 0 ∧ parent.hash plainCrypto = genesisHash ∧
        earliest twoBlockEpochs parent ≤ 10)) = true := by
    decide +kernel
  have sets : DistinctSets genesisNode := ⟨by simp [genesisNode], by simp [genesisNode]⟩
  have able : ∀ snap, (snapshot twoBlockEpochs genesisNode 0 genesisHash []).2 = .ok snap →
      snap.valSet.size < 2 ^ 53 ∧ ∀ a ∈ snap.valSet.validators, CanSign plainCrypto a := by
    intro snap found
    rw [found] at size
    have eleven : snap.valSet.validators.length = 11 := Option.some.inj size
    refine ⟨?_, fun a _ => canSign_plainCrypto a⟩
    rw [ValidatorSet.size, eleven]
    norm_num
  have extendable : Extendable twoBlockEpochs genesisNode [] genesisHash 0 := by
    obtain ⟨known, found, checked⟩ := (Option.any_eq_true _ _).mp parent
    obtain ⟨numbered, hashed, time⟩ := of_decide_eq_true checked
    cases outcome : (snapshot twoBlockEpochs genesisNode 0 genesisHash []).2 with
    | error err =>
      rw [outcome] at size
      cases size
    | ok snap =>
      rw [outcome] at size
      have eleven : snap.valSet.validators.length = 11 := Option.some.inj size
      refine ⟨snap, outcome, .inr ⟨?_, known, found, numbered, hashed, time⟩⟩
      intro empty
      rw [empty] at eleven
      cases eleven
  refine ⟨extendable, fun enforced => ?_⟩
  exact (list_enforced_iff twoBlockEpochs genesisNode [] genesisHash (by norm_num) sets able).mp
    enforced extendable

def emptyListing : Header :=
  { draftHeader 1 (bytesToAddress [1]) genesisHash with
    extra := List.replicate 32 0 ++ encode (BFTExtra.encodeRLP
      ⟨[], plainSig (bytesToAddress [1]), (genesisValidators.take 7).map plainSig⟩) }

theorem empty_list_accepted :
    1 ≤ emptyListing.number ∧ (verifyHeader twoBlockEpochs genesisNode emptyListing []).2 = .ok () ∧
      (extractBFTExtra emptyListing).map BFTExtra.validators = some [] ∧
      (snapshot twoBlockEpochs genesisNode 0 genesisHash []).2.toOption.map Snapshot.validators =
        some genesisValidators := by
  decide +kernel

end Linkeye.Dbft.ValidatorList
