import Linkeye.Dbft.Chain

/-!
# The snapshot of the head

Which blocks keep the invariant of a chain, and when the snapshot of the head is
available: the signer of a block with an election may lose its seat in that
block, and the chain then ends.
-/

set_option autoImplicit false

namespace Linkeye.Dbft.Availability

open Common.Types Common.Signature Core.Blocks Core.Dpos Core.Genesis Core.StateProcessor Chain
open Election Headers Seals Lib.Runs Rlp.Encode Trie.Contents

/-! ## Committed tries stay -/

section
variable {e : Engine} {db : TrieDB} {dc : DposContext}

theorem newDposContextFromProto_eq_some_iff {rootOf : RootOf} {p : DposContextProto} :
    newDposContextFromProto rootOf db p = some dc ↔
      ∀ kind, openTrie rootOf db kind (rootIn p kind) = some (trieOf dc kind) := by
  constructor
  · intro opened kind
    simp only [newDposContextFromProto, Option.bind_eq_bind, Option.bind_eq_some_iff,
      Option.pure_def, Option.some.injEq] at opened
    obtain ⟨epoch, epochOpened, delegate, delegateOpened, vote, voteOpened, candidate,
      candidateOpened, mintCnt, mintCntOpened, rfl⟩ := opened
    cases kind
    · exact epochOpened
    · exact delegateOpened
    · exact candidateOpened
    · exact voteOpened
    · exact mintCntOpened
  · intro opened
    have epoch := opened .epoch
    have delegate := opened .delegate
    have candidate := opened .candidate
    have vote := opened .vote
    have mintCnt := opened .mintCnt
    simp only [rootIn, trieOf] at epoch delegate candidate vote mintCnt
    simp [newDposContextFromProto, epoch, delegate, candidate, vote, mintCnt]

theorem rootIn_toProto (rootOf : RootOf) (dc : DposContext) (kind : TrieKind) :
    rootIn (toProto rootOf dc) kind = rootOf kind (trieOf dc kind) := by
  cases kind <;> rfl

section
variable (own : ∀ kind, OwnRoot e db kind (trieOf dc kind))
include own

theorem openTrie_commitTo_of_known
    {kind : TrieKind} {root : Hash} {t : TrieMap}
    (opened : openTrie e.rootOf db kind root = some t) :
    openTrie e.rootOf (commitTo e.rootOf db dc) kind root = some t := by
  rw [openTrie] at opened ⊢
  by_cases easy : root = FixedBytes.zero 32 ∨ root = e.rootOf kind TrieMap.empty
  · rw [if_pos easy] at opened ⊢
    exact opened
  · rw [if_neg easy] at opened ⊢
    rw [commitTo, Lib.Maps.get_insert]
    split
    · next same => rw [(own kind).known t (same ▸ opened)]
    · exact opened

theorem openTrie_commitTo_self
    (kind : TrieKind) :
    openTrie e.rootOf (commitTo e.rootOf db dc) kind (e.rootOf kind (trieOf dc kind)) =
      some (trieOf dc kind) := by
  rw [openTrie]
  by_cases empty : e.rootOf kind (trieOf dc kind) = e.rootOf kind TrieMap.empty
  · rw [if_pos (.inr empty), (own kind).empty empty]
  · have stored : ¬ (e.rootOf kind (trieOf dc kind) = FixedBytes.zero 32 ∨
        e.rootOf kind (trieOf dc kind) = e.rootOf kind TrieMap.empty) :=
      fun easy => easy.elim (own kind).nonzero empty
    rw [if_neg stored, commitTo, Std.ExtTreeMap.getElem?_insert_self]

theorem fromProto_commitTo_self :
    newDposContextFromProto e.rootOf (commitTo e.rootOf db dc) (toProto e.rootOf dc) = some dc := by
  rw [newDposContextFromProto_eq_some_iff]
  intro kind
  rw [rootIn_toProto]
  exact openTrie_commitTo_self own kind

end

end

/-! ## Growing -/

variable {b : NewBlock} {h : Header} {validators : List Address}

variable {db : TrieDB} {dc : DposContext}

section
variable {e : Engine} {node : Node}

theorem runMessages_epochTrie (number : Nat) (messages : List (Message × StateDB))
    (dc : DposContext) : (runMessages e number messages dc).epochTrie = dc.epochTrie := by
  rw [runMessages]
  induction messages generalizing dc with
  | nil => rfl
  | cons entry rest ih =>
    rw [List.foldl_cons, ih]
    exact applyDposMessage_epochTrie _ _ _ _ _

/-- The validators of a new block: a list that can be read, and the list of the
head unless an election was held. -/
theorem finalContext_validators (final : finalContext e node b = some dc) :
    ∃ validators, dc.getValidators = some validators ∧
      (num b.header % e.epoch ≠ 0 → storedValidators e node node.head = some validators) := by
  obtain ⟨start, opened, finalized⟩ := Option.bind_eq_some_iff.mp final
  have office : (runMessages e b.header.number b.messages start).getValidators =
      storedValidators e node node.head := by
    rw [getValidators_congr (runMessages_epochTrie _ _ _), storedValidators, opened]
    rfl
  rw [finalize] at finalized
  split at finalized
  · rename_i validators _ read
    -- Messages leave the epoch trie alone; an election starts a new one.
    by_cases boundary : num b.header % e.epoch = 0
    · rw [if_pos boundary] at finalized
      split at finalized
      · rename_i elected run
        obtain rfl := Option.some.inj finalized
        obtain ⟨votes, middle, _, _, rfl⟩ := tryElect_eq_none run
        exact ⟨_, getValidators_setElected middle (electedFrom_length_le _ _ _), fun ordinary => absurd boundary ordinary⟩
      · cases finalized
    · rw [if_neg boundary] at finalized
      obtain rfl := Option.some.inj finalized
      exact ⟨_, read, fun _ => office.symm.trans read⟩
  · cases finalized

def push (node : Node) (h : Header) (db : TrieDB) : Node :=
  { node with blocks := h :: node.blocks, db := db }

/-- One more block on the chain, its tries committed. -/
def grow (e : Engine) (node : Node) (h : Header) (dc : DposContext) : Node :=
  { node with blocks := h :: node.blocks, db := commitTo e.rootOf node.db dc }

def Keeps (e : Engine) (db after : TrieDB) : Prop :=
  ∀ p dc, newDposContextFromProto e.rootOf db p = some dc →
    newDposContextFromProto e.rootOf after p = some dc

theorem keeps_commitTo
    (own : ∀ kind, OwnRoot e db kind (trieOf dc kind)) : Keeps e db (commitTo e.rootOf db dc) := by
  intro _ _ opened
  rw [newDposContextFromProto_eq_some_iff] at opened ⊢
  exact fun kind => openTrie_commitTo_of_known own (opened kind)

theorem storedValidators_push (keeps : Keeps e node.db db) {other : Header}
    (stored : storedValidators e node other = some validators) :
    storedValidators e (push node h db) other = some validators := by
  obtain ⟨known, opened, read⟩ := Option.bind_eq_some_iff.mp stored
  rw [storedValidators, push, keeps _ _ opened]
  exact read

theorem describes_push (keeps : Keeps e node.db db) {other : Header} {snap : Snapshot}
    (described : Describes e node other snap) :
    Describes e (push node h db) other snap := by
  obtain ⟨validators, stored, listed⟩ := described.members
  refine ⟨described.hash, ⟨validators, storedValidators_push keeps stored, listed⟩, ?_⟩
  rcases described.signed with genesis | ⟨signer, list, recovered, found, elected⟩
  · exact .inl genesis
  · exact .inr ⟨signer, list, recovered, storedValidators_push keeps found, elected⟩

theorem chainInv_push (inv : ChainInv e node) (later : num h ≠ 0)
    (fresh : ∀ other ∈ node.headers, other.hash e.crypto ≠ h.hash e.crypto)
    (keeps : Keeps e node.db db)
    (newStored : storedValidators e (push node h db) h = some validators)
    (extra : extractBFTExtra h ≠ none)
    (signed : num h % e.epoch ≠ 0 → ∃ signer, ecrecover e h = .ok signer ∧ signer ∈ validators) :
    ChainInv e (push node h db) := by
  have headers : (push node h db).headers = h :: node.headers := rfl
  -- Old headers keep what they have, as no committed trie is ever replaced.
  have carry : ∀ (hash : Hash) (snap : Snapshot),
      (∃ other ∈ node.headers, other.hash e.crypto = hash ∧ Describes e node other snap) →
      ∃ other ∈ (push node h db).headers, other.hash e.crypto = hash ∧
        Describes e (push node h db) other snap := by
    rintro hash snap ⟨other, member, hashed, described⟩
    exact ⟨other, List.mem_cons_of_mem _ member, hashed, describes_push keeps described⟩
  constructor
  · exact inv.genesisNumber
  · exact inv.genesisVerified
  · exact List.forall_mem_cons.mpr ⟨later, inv.blockNumber⟩
  · rw [headers, List.map_cons, List.nodup_cons]
    refine ⟨?_, inv.distinct⟩
    intro member
    obtain ⟨other, listed, same⟩ := List.mem_map.mp member
    exact fresh other listed same
  · intro other member
    rw [headers] at member
    rcases List.mem_cons.mp member with rfl | old
    · exact ⟨validators, newStored⟩
    · obtain ⟨list, stored⟩ := inv.stored other old
      exact ⟨list, storedValidators_push keeps stored⟩
  · rw [headers]
    exact List.forall_mem_cons.mpr ⟨extra, inv.extra⟩
  · intro hash snap cached
    exact carry hash snap (inv.recents hash snap cached)
  · intro hash snap cached
    exact carry hash snap (inv.disk hash snap cached)
  · intro _ ordinary
    obtain ⟨signer, recovered, elected⟩ := signed ordinary
    exact ⟨signer, validators, recovered, newStored, elected⟩

theorem nextNode_extend (final : finalContext e node b = some dc) :
    nextNode e node (.extend b) = grow e (verifyHeader e node b.header []).1 b.header dc := by
  simp only [nextNode, final, grow]

theorem chainInv_extend (inv : ChainInv e node) (accepted : Accepted e node b)
    (fresh : NoCollision e node (.extend b)) : ChainInv e (nextNode e node (.extend b)) := by
  obtain ⟨dc, final, roots⟩ := accepted.finalized
  have later : num b.header ≠ 0 := by
    rw [accepted.number]
    omega
  obtain ⟨kept, same, passed⟩ := inv.verifyHeader b.header later
  obtain ⟨checked, signer, p, snap, recovered, member, asked, described, elected⟩ :=
    passed accepted.verified
  obtain ⟨validators, read, ordinary⟩ := finalContext_validators final
  -- Only block 1 may have been checked against genesis itself, and genesis is its parent.
  have parent : p = node.head := by
    rcases asked with hashed | ⟨zero, rfl⟩
    · exact inv.unique member (head_mem_headers node) (hashed.trans accepted.parentHash)
    · rw [accepted.number] at zero
      exact (inv.eq_genesis (head_mem_headers node) (by omega)).symm
  rw [nextNode_extend final]
  have own := fresh.2 dc final
  rw [← same.db] at own
  apply chainInv_push kept later _ (keeps_commitTo own) _ (Option.isSome_iff_ne_none.mp checked.1)
  · intro notBoundary
    obtain ⟨list, stored, listed⟩ := described.members
    rw [parent, ordinary notBoundary] at stored
    cases stored
    exact ⟨signer, recovered, (listed.1 signer).mp elected⟩
  · rw [same.headers]
    exact fresh.1
  · rw [storedValidators, push, roots, fromProto_commitTo_self own]
    exact read

theorem chainInv_evict (inv : ChainInv e node) (hash : Hash) :
    ChainInv e (nextNode e node (.evict hash)) := by
  refine inv.of_caches ⟨rfl, rfl, rfl⟩ ?_ inv.disk
  intro other snap cached
  simp only [nextNode, Std.ExtTreeMap.getElem?_erase] at cached
  split at cached
  · cases cached
  · exact inv.recents other snap cached

theorem chainInv_fresh (start : Fresh e node) : ChainInv e node := by
  obtain ⟨config, validators, configured, short, roots, db, own⟩ := start.context
  have headers : node.headers = [node.genesis] := by
    rw [Node.headers, start.blocks, List.nil_append]
  have stored : storedValidators e node node.genesis = some validators := by
    rw [storedValidators, db, roots, fromProto_commitTo_self own]
    exact getValidators_initGenesisDposContext configured short
  constructor
  · exact start.number
  · exact start.verified
  · simp [start.blocks]
  · simp [headers]
  · intro h member
    rw [headers, List.mem_singleton] at member
    exact ⟨validators, by rw [member, stored]⟩
  · intro h member
    rw [headers, List.mem_singleton] at member
    rw [member]
    exact Option.isSome_iff_ne_none.mp (verifyStandalone_extra start.verified).1
  · simp [start.recents]
  · simp [loadSnapshot, start.disk]
  · exact fun some => absurd start.blocks some

theorem chainInv_of_reachable (reached : Reachable (chainSystem e) (NoCollision e) node) :
    ChainInv e node := by
  refine reached.invariant (ChainInv e) (fun _ start => chainInv_fresh start) ?_
  intro node step inv enabled fresh
  cases step with
  | extend b => exact chainInv_extend inv enabled fresh
  | lookup number hash => exact (inv.snapshot number hash).1
  | evict hash => exact chainInv_evict inv hash

end

/-! ## The snapshot of the head -/

section
variable {e : Engine} {node : Node}

/-- The head holds an election in which its own signer lost its seat. -/
structure VotedOut (e : Engine) (node : Node) : Prop where
  later : num node.head ≠ 0
  boundary : num node.head % e.epoch = 0
  leaves : ¬ SignerStays e node node.head

/-- The lookup of the head fails exactly where its signer was voted out. -/
theorem lookup_head (inv : ChainInv e node) :
    (∃ err, (snapshot e node (num node.head) (node.head.hash e.crypto) []).2 = .error err ∧
      VotedOut e node) ∨
    ∃ snap, (snapshot e node (num node.head) (node.head.hash e.crypto) []).2 = .ok snap ∧
      Describes e node node.head snap := by
  have looked := inv.lookup (num node.head) (node.head.hash e.crypto)
  generalize snapshot e node (num node.head) (node.head.hash e.crypto) [] = result at looked
  cases looked with
  | failed err verdict =>
    obtain ⟨later, leaves⟩ := verdict _ (head_mem_headers node) rfl rfl
    have grown : node.blocks ≠ [] := by
      intro none
      exact later (by rw [Node.head, none, List.headD_nil])
    refine .inl ⟨err, rfl, ?_, ?_, leaves⟩
    · intro zero
      exact later (inv.eq_genesis (head_mem_headers node) zero)
    · by_contra ordinary
      exact leaves (inv.signed grown ordinary)
  | @found after snap h member asked described remembers =>
    have same : h = node.head := by
      rcases asked with hashed | ⟨zero, rfl⟩
      · exact inv.unique member (head_mem_headers node) hashed
      · exact (inv.eq_genesis (head_mem_headers node) zero).symm
    subst same
    exact .inr ⟨snap, rfl, described⟩

end

/-! ## Concrete chains -/

def ownRootCheck (e : Engine) (db : TrieDB) (kind : TrieKind) (t : TrieMap) : Bool :=
  decide (e.rootOf kind t ≠ FixedBytes.zero 32) &&
    (decide (e.rootOf kind t ≠ e.rootOf kind TrieMap.empty) || decide (t = TrieMap.empty)) &&
    ((db kind)[e.rootOf kind t]?).all fun other => decide (other = t)

theorem ownRootCheck_sound {e : Engine} {kind : TrieKind} {t : TrieMap}
    (checked : ownRootCheck e db kind t = true) : OwnRoot e db kind t := by
  simp only [ownRootCheck, Bool.and_eq_true, Bool.or_eq_true, decide_eq_true_eq] at checked
  obtain ⟨⟨nonzero, empty⟩, known⟩ := checked
  refine ⟨nonzero, fun same => empty.resolve_left (fun differs => differs same), ?_⟩
  intro other found
  rw [found] at known
  exact of_decide_eq_true known

def trieKinds : List TrieKind := [.epoch, .delegate, .candidate, .vote, .mintCnt]

theorem ownRoots_sound {e : Engine}
    (checked : trieKinds.all (fun kind => ownRootCheck e db kind (trieOf dc kind)) = true)
    (kind : TrieKind) : OwnRoot e db kind (trieOf dc kind) := by
  have member : kind ∈ trieKinds := by cases kind <;> decide
  exact ownRootCheck_sound (List.all_eq_true.mp checked kind member)

def acceptedCheck (e : Engine) (node : Node) (b : NewBlock) : Bool :=
  decide (num b.header = num node.head + 1) &&
    decide (b.header.parentHash = node.head.hash e.crypto) &&
    ((finalContext e node b).any fun dc =>
      decide (b.header.dposContext = toProto e.rootOf dc) &&
        trieKinds.all fun kind => ownRootCheck e node.db kind (trieOf dc kind)) &&
    decide ((verifyHeader e node b.header []).2 = .ok ()) &&
    node.headers.all fun h => decide (h.hash e.crypto ≠ b.header.hash e.crypto)

theorem acceptedCheck_sound {e : Engine} {node : Node} (checked : acceptedCheck e node b = true) :
    Accepted e node b ∧ NoCollision e node (.extend b) := by
  simp only [acceptedCheck, Bool.and_eq_true, decide_eq_true_eq, Option.any_eq_true,
    List.all_eq_true] at checked
  obtain ⟨⟨⟨⟨number, parentHash⟩, dc, final, roots, own⟩, verified⟩, fresh⟩ := checked
  refine ⟨⟨number, parentHash, ⟨dc, final, roots⟩, verified⟩, fresh, ?_⟩
  intro other same
  rw [final] at same
  cases same
  exact ownRoots_sound (List.all_eq_true.mpr own)

theorem reachable_extend {e : Engine} {node : Node}
    (reached : Reachable (chainSystem e) (NoCollision e) node)
    (checked : acceptedCheck e node b = true) :
    Reachable (chainSystem e) (NoCollision e) (nextNode e node (.extend b)) := by
  obtain ⟨accepted, fresh⟩ := acceptedCheck_sound checked
  exact Reachable.step (ChainStep.extend b) reached accepted fresh

def plainRoot : RootOf := fun _ t =>
  bytesToHash (t.nodeIterator.flatMap Prod.snd ++ [UInt8.ofNat (t.size + 1)])

def genesisValidators : List Address :=
  [1, 2, 3, 4, 5, 6, 7, 8, 9, 10, 11].map fun i => bytesToAddress [i]

def twoBlockEpochs : Engine where
  crypto := plainCrypto
  rootOf := plainRoot
  epoch := 2
  epoch_pos := by decide
  blockPeriod := 1
  proposerPolicy := .roundRobin
  now := 10

def draftHeader (number : Nat) (signer : Address) (parentHash : Hash) : Header :=
  { sampleHeader number 1 with
    parentHash := parentHash
    uncleHash := rlpHash plainCrypto (.list [])
    nonce := ⟨[0, 0, 0, 0, 0, 0, 0, UInt8.ofNat number], rfl⟩
    extra := List.replicate 32 0 ++ encode (BFTExtra.encodeRLP
      ⟨genesisValidators, plainSig signer, (genesisValidators.take 7).map plainSig⟩) }

def genesisNode : Node where
  genesis := { draftHeader 0 zeroAddress (FixedBytes.zero 32) with
    dposContext := toProto plainRoot (initGenesisDposContext ⟨none, some genesisValidators⟩) }
  blocks := []
  db := commitTo plainRoot (fun _ => ∅) (initGenesisDposContext ⟨none, some genesisValidators⟩)
  recents := ∅
  disk := ∅

def blockOn (node : Node) (signer : Address) (messages : List (Message × StateDB))
    (statedb : StateDB) : NewBlock :=
  let draft : NewBlock :=
    { header := draftHeader (num node.head + 1) signer (node.head.hash plainCrypto)
      messages := messages
      statedb := statedb
      commitOrder := inKeyOrder
      rankOrder := inKeyOrder }
  match finalContext twoBlockEpochs node draft with
  | some dc => { draft with header := { draft.header with dposContext := toProto plainRoot dc } }
  | none => draft

def richOutsider (balance : Int) : StateDB :=
  ⟨(∅ : Std.ExtTreeMap Address Int).insert (bytesToAddress [12]) balance, []⟩

def outsiderEnters : NewBlock :=
  blockOn genesisNode (bytesToAddress [1])
    [(⟨.loginCandidate, bytesToAddress [12], none⟩, richOutsider (2 * minCandidateBalance)),
      (⟨.delegate, bytesToAddress [12], some (bytesToAddress [12])⟩,
        richOutsider minCandidateBalance)] (richOutsider minCandidateBalance)

def enteredNode : Node := nextNode twoBlockEpochs genesisNode (.extend outsiderEnters)

def electionBlock : NewBlock :=
  blockOn enteredNode (bytesToAddress [11]) [] (richOutsider minCandidateBalance)

def electedNode : Node := nextNode twoBlockEpochs enteredNode (.extend electionBlock)

theorem genesisNode_fresh : Fresh twoBlockEpochs genesisNode where
  number := rfl
  verified := by decide +kernel
  blocks := rfl
  recents := rfl
  disk := rfl
  context := by
    refine ⟨⟨none, some genesisValidators⟩, genesisValidators, rfl, ?_, rfl, rfl, ?_⟩
    · exact encode_addresses_short (by decide)
    · exact ownRoots_sound (by decide +kernel)

theorem outsiderEnters_accepted :
    acceptedCheck twoBlockEpochs genesisNode outsiderEnters = true := by
  decide +kernel

theorem electionBlock_accepted :
    acceptedCheck twoBlockEpochs enteredNode electionBlock = true := by
  decide +kernel

theorem enteredNode_reachable :
    Reachable (chainSystem twoBlockEpochs) (NoCollision twoBlockEpochs) enteredNode := by
  rw [enteredNode]
  exact reachable_extend (.init genesisNode_fresh) outsiderEnters_accepted

/-! ## The result -/

/-- The lookup of the head succeeds with the validators of its own context
exactly where its signer is still one of them: in a block without an election
the signer is, in one with an election it may have been voted out. -/
theorem snapshot_of_head_iff {e : Engine} {node : Node}
    (reached : Reachable (chainSystem e) (NoCollision e) node) :
    (∃ snap validators,
      (snapshot e node (num node.head) (node.head.hash e.crypto) []).2 = .ok snap ∧
        storedValidators e node node.head = some validators ∧ Lists snap.valSet validators) ↔
      num node.head = 0 ∨ num node.head % e.epoch ≠ 0 ∨ SignerStays e node node.head := by
  have inv := chainInv_of_reachable reached
  rcases lookup_head inv with ⟨err, failed, lost⟩ | ⟨snap, found, described⟩
  · rw [failed]
    refine ⟨by simp, ?_⟩
    rintro (zero | ordinary | stays)
    · exact absurd zero lost.later
    · exact absurd lost.boundary ordinary
    · exact absurd stays lost.leaves
  · obtain ⟨validators, stored, listed⟩ := described.members
    refine ⟨fun _ => ?_, fun _ => ⟨snap, validators, found, stored, listed⟩⟩
    rcases described.signed with genesis | stays
    · left
      rw [genesis, inv.genesisNumber]
    · exact .inr (.inr stays)

theorem snapshot_of_head_enteredNode :
    ∃ snap validators,
      (snapshot twoBlockEpochs enteredNode (num enteredNode.head)
        (enteredNode.head.hash plainCrypto) []).2 = .ok snap ∧
        storedValidators twoBlockEpochs enteredNode enteredNode.head = some validators ∧
        Lists snap.valSet validators :=
  (snapshot_of_head_iff enteredNode_reachable).mpr (.inr (.inl (by decide +kernel)))

/-- The outsider takes the seat of validator 11 in the very block that validator
11 proposed: every lookup of that block is refused. -/
theorem election_block_of_loser_unauthorized :
    Reachable (chainSystem twoBlockEpochs) (NoCollision twoBlockEpochs) electedNode ∧
      (snapshot twoBlockEpochs electedNode (num electedNode.head)
        (electedNode.head.hash plainCrypto) []).2 = .error .errUnauthorized := by
  refine ⟨?_, by decide +kernel⟩
  rw [electedNode]
  exact reachable_extend enteredNode_reachable electionBlock_accepted

end Linkeye.Dbft.Availability
